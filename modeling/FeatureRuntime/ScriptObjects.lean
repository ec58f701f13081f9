import FeatureRuntime.Binary64
import FeatureRuntime.JsValue

/-! Objects that native code makes in the engine: plain objects, arrays and array buffers, and what
the engine then answers about them. -/
namespace FeatureRuntime

namespace JSNumber

/-- `JS_NewInt64`: a small integer, or the nearest double. -/
def ofInt64 (value : ℤ) : JSNumber :=
  if -2147483648 ≤ value ∧ value ≤ 2147483647 then .int value
  else .float64 (BitVec.ofNat 64 ((if value < 0 then 2 ^ 63 else 0) + Binary64.encode value.natAbs))

def isExact (value : ℤ) : Bool := Binary64.ulp value.natAbs ∣ value.natAbs

variable {value : ℤ}

theorem isExact_of_lt (h : value.natAbs < 2 ^ 53) : isExact value = true := by
  simp [isExact,Binary64.ulp_eq_one h]

theorem isExact_of_int32 (hlow : -2 ^ 31 ≤ value) (hhigh : value < 2 ^ 31) : isExact value = true :=
  isExact_of_lt (by omega)

theorem fields_ofNat {pattern : ℕ} (h : pattern / 2 ^ 52 < 2047) (negative : Bool) :
    let bits := BitVec.ofNat 64 ((if negative then 2 ^ 63 else 0) + pattern)
    bits.msb = negative ∧ (bits.extractLsb' 52 11).toNat = pattern / 2 ^ 52 ∧
      (bits.extractLsb' 0 52).toNat = pattern % 2 ^ 52 := by
  have hsmall : (if negative then 2 ^ 63 else 0) + pattern < 2 ^ 64 := by
    split_ifs <;> omega
  set word := (if negative then 2 ^ 63 else 0) + pattern with hword
  refine ⟨?_,?_,?_⟩
  · rw [BitVec.msb_eq_decide,BitVec.toNat_ofNat,Nat.mod_eq_of_lt hsmall,hword]
    cases negative with
    | true => exact decide_eq_true (by simp)
    | false => exact decide_eq_false (by simp; omega)
  · rw [BitVec.extractLsb'_toNat,BitVec.toNat_ofNat,Nat.mod_eq_of_lt hsmall,Nat.shiftRight_eq_div_pow,hword]
    split_ifs <;> omega
  · rw [BitVec.extractLsb'_toNat,BitVec.toNat_ofNat,Nat.mod_eq_of_lt hsmall,Nat.shiftRight_zero,hword]
    split_ifs <;> omega

theorem trunc_float64 {pattern : ℕ} (h : pattern / 2 ^ 52 < 2047) (negative : Bool) :
    (JSNumber.float64 (BitVec.ofNat 64 ((if negative then 2 ^ 63 else 0) + pattern))).trunc =
      some (if negative then -(Binary64.magnitude (pattern / 2 ^ 52) (pattern % 2 ^ 52) : ℤ)
        else Binary64.magnitude (pattern / 2 ^ 52) (pattern % 2 ^ 52)) := by
  obtain ⟨hsign,hexponent,hfraction⟩ := fields_ofNat h negative
  simp only [trunc,hexponent,hfraction,hsign,if_neg h.ne]
  rfl

/-- The double next to an integer is the integer itself exactly when that has no more than 53
significant bits. -/
theorem trunc_ofInt64 (hlow : -2 ^ 63 ≤ value) (hhigh : value < 2 ^ 63) :
    ∃ rounded : ℤ, (ofInt64 value).trunc = some rounded ∧ (rounded = value ↔ isExact value = true) ∧
      value - 2 ^ 12 < rounded ∧ rounded < value + 2 ^ 12 := by
  have hbound : value.natAbs ≤ 2 ^ 64 := by omega
  have hround := Binary64.round_near value.natAbs
  have hulp := Binary64.ulp_le hbound
  have hexact : isExact value = true ↔ Binary64.round value.natAbs = value.natAbs := by
    rw [isExact,decide_eq_true_eq,Binary64.round_eq_self_iff]
  by_cases hint : -2147483648 ≤ value ∧ value ≤ 2147483647
  · rw [ofInt64,if_pos hint]
    refine ⟨value,rfl,iff_of_true rfl ?_,by omega,by omega⟩
    exact isExact_of_int32 hint.1 (by omega)
  · have htrunc := trunc_float64 (Binary64.encode_lt hbound) (decide (value < 0))
    simp only [decide_eq_true_eq,Binary64.magnitude_encode] at htrunc
    rw [ofInt64,if_neg hint]
    refine ⟨_,htrunc,?_,?_⟩
    · rw [hexact]
      split_ifs <;> omega
    · split_ifs <;> omega

theorem toInt64_ofInt64_iff (hlow : -2 ^ 63 ≤ value) (hhigh : value < 2 ^ 63) :
    (ofInt64 value).toInt64 = value ↔ isExact value = true := by
  obtain ⟨rounded,htrunc,hexact,hbelow,habove⟩ := trunc_ofInt64 hlow hhigh
  rw [toInt64,htrunc,Option.getD_some,← hexact,Int.bmod_def]
  omega

end JSNumber

inductive ScriptObject
  | plain (properties : List (String × JSValue))
  | array (elements : List JSValue)
  | arrayBuffer (data : List UInt8)

abbrev ScriptHeap := List ScriptObject

def setNamed (properties : List (String × JSValue)) (name : String) (value : JSValue) : List (String × JSValue) :=
  if properties.any (·.1 = name) then properties.map (fun p => if p.1 = name then (name,value) else p)
  else properties ++ [(name,value)]

/-- The engine with the given objects; `base` answers for all others and for inherited
properties. -/
def JSContext.withObjects (base : JSContext) (object : ℕ → Option ScriptObject) : JSContext where
  arrayObject id :=
    match object id with
    | some (.array _) => true
    | some _ => false
    | none => base.arrayObject id
  functionObject id := (object id).isNone && base.functionObject id
  typedArrayObject id := (object id).isNone && base.typedArrayObject id
  arrayBufferData id :=
    match object id with
    | some (.arrayBuffer data) => some data
    | some _ => none
    | none => base.arrayBufferData id
  getPropertyStr id name :=
    match object id with
    | some (.plain properties) => (properties.lookup name).getD (base.getPropertyStr id name)
    | some (.array elements) =>
      if name = "length" then .number (.int elements.length) else base.getPropertyStr id name
    | _ => base.getPropertyStr id name
  getPropertyUint32 id index :=
    match object id with
    | some (.array elements) => (elements[index]?).getD (base.getPropertyUint32 id index)
    | _ => base.getPropertyUint32 id index
  ownProperties id :=
    match object id with
    | some (.plain properties) => properties
    | some (.array elements) => elements.zipIdx.map (fun e => (toString e.2,e.1))
    | some (.arrayBuffer _) => []
    | none => base.ownProperties id
  jsonStringify := base.jsonStringify
  toCString
    | .string text => some text
    | value => base.toCString value
  toNumber
    | .number n => some n
    | value => base.toNumber value
  toBool
    | .bool value => value
    | value => base.toBool value
  getOpaque id := if (object id).isSome then none else base.getOpaque id

namespace JSContext

variable {base : JSContext} {object : ℕ → Option ScriptObject} {id : ℕ}

theorem withObjects_array {elements : List JSValue} (h : object id = some (.array elements)) :
    (base.withObjects object).isArray (.object id) = true ∧
      (base.withObjects object).arraySize (.object id) = elements.length % 2 ^ 32 := by
  have harray : (base.withObjects object).arrayObject id = true := by
    simp only [withObjects,h]
  have hlength : (base.withObjects object).getPropertyStr id "length" = .number (.int elements.length) := by
    simp only [withObjects,h,if_true]
  refine ⟨harray,?_⟩
  simp only [JSContext.arraySize,harray,hlength,if_true]
  change ((elements.length : ℤ) % 2 ^ 32).toNat = _
  omega

theorem withObjects_element {elements : List JSValue} (h : object id = some (.array elements))
    {i : ℕ} {value : JSValue} (hi : elements[i]? = some value) :
    (base.withObjects object).getPropertyUint32 id i = value := by
  simp only [withObjects,h,hi,Option.getD_some]

theorem withObjects_plain {properties : List (String × JSValue)} (h : object id = some (.plain properties)) :
    (base.withObjects object).isPlainObject (.object id) = true := by
  simp [isPlainObject,withObjects,h]

theorem withObjects_property {properties : List (String × JSValue)}
    (h : object id = some (.plain properties)) (name : String) :
    (base.withObjects object).getPropertyStr id name =
      (properties.lookup name).getD (base.getPropertyStr id name) := by
  simp only [withObjects,h]

end JSContext

namespace ScriptHeap

/-- `JS_SetPropertyStr`. The name `__proto__` belongs to an inherited setter, which makes no own
property. -/
def setPropertyStr (heap : ScriptHeap) (target : ℕ) (name : String) (value : JSValue) : ScriptHeap :=
  match heap[target]? with
  | some (.plain properties) =>
    if name = "__proto__" then heap else heap.set target (.plain (setNamed properties name value))
  | _ => heap

/-- `JS_SetPropertyUint32` on an array without holes, with an index that is cut to 32 bits. -/
def setPropertyUint32 (heap : ScriptHeap) (target index : ℕ) (value : JSValue) : ScriptHeap :=
  match heap[target]? with
  | some (.array elements) =>
    let index := index % 2 ^ 32
    if index < elements.length then heap.set target (.array (elements.set index value))
    else if index = elements.length ∧ index < 2 ^ 32 - 1 then
      heap.set target (.array (elements ++ [value]))
    else heap
  | _ => heap

def context (base : JSContext) (heap : ScriptHeap) : JSContext := base.withObjects (heap[·]?)

theorem context_array {base : JSContext} {heap : ScriptHeap} {id : ℕ} {elements : List JSValue}
    (h : heap[id]? = some (.array elements)) :
    (heap.context base).isArray (.object id) = true ∧
      (heap.context base).arraySize (.object id) = elements.length % 2 ^ 32 :=
  JSContext.withObjects_array h

end ScriptHeap
end FeatureRuntime
