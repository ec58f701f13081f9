import FeatureRuntime.ArrayRefinement

/-! The arrays of the Rust framework crate over the element buffers of C: every access is a byte range, with the stride
that each of its callers computes. -/
namespace FeatureRuntime

open SlotBuffer

/-- The numbers with `FeatureValueType`, by the primitive type of each. -/
inductive RustNumber
  | int8 | uint8 | int16 | uint16 | int | uint32 | int64 | uint64 | float | double | boolean
  deriving DecidableEq

namespace RustNumber

def type : RustNumber → PrimitiveType
  | int8 => .int8
  | uint8 => .uint8
  | int16 => .int16
  | uint16 => .uint16
  | int => .int
  | uint32 => .uint32
  | int64 => .int64
  | uint64 => .uint64
  | float => .float
  | double => .double
  | boolean => .boolean

/-- `mem::size_of`. -/
def sizeOf : RustNumber → ℕ
  | int8 | uint8 | boolean => 1
  | int16 | uint16 => 2
  | int | uint32 | float => 4
  | int64 | uint64 | double => 8

end RustNumber

/-- The types with `FeatureReferenceType`, by their targets. -/
inductive ReferenceTarget
  | arrayBuffer
  | jsonObject
  | struct (size : ℕ) (members : List (ObjectMember FeatureType))

/-- `T::Target::get_type`. -/
def ReferenceTarget.type : ReferenceTarget → FeatureType
  | .arrayBuffer => .primitive .arrayBuffer
  | .jsonObject => .primitive .jsonObj
  | .struct size members => .structMap size members

/-- `FeaturePrimitiveArray` of a number or of `FeatureString`, or `FeatureReferenceArray`. -/
inductive RustArrayType
  | number (type : RustNumber)
  | string
  | reference (target : ReferenceTarget)

/-- A Rust value by its bytes: first those of the pointer it owns, if it is no number. -/
structure RustValue where
  pointer : List UInt8
  rest : List UInt8
  deriving DecidableEq

def RustValue.bytes (v : RustValue) : List UInt8 := v.pointer ++ v.rest

/-- The pointer is not null, as that of a `NonNull` never is. -/
def RustValue.isNull (v : RustValue) : Bool := v.pointer.all (· == 0)

namespace RustArrayType

variable (P : Platform)

def elementType : RustArrayType → FeatureType
  | number type => .primitive type.type
  | string => .primitive .string
  | reference target => target.type

def isReference : RustArrayType → Bool
  | reference _ => true
  | _ => false

def isString : RustArrayType → Bool
  | string => true
  | _ => false

/-- A value of the element type; a `FeatureString` is a pointer and a length. -/
def Fits : RustArrayType → RustValue → Prop
  | number type, v => v.pointer = [] ∧ v.rest.length = type.sizeOf
  | string, v => v.pointer.length = P.pointerSize ∧ v.rest.length = P.pointerSize ∧ v.isNull = false
  | reference _, v => v.pointer.length = P.pointerSize ∧ v.rest = [] ∧ v.isNull = false

end RustArrayType

structure HeapRequests where
  malloc : ℕ → Bool
  realloc : ℕ → Bool

/-- `FtArray` behind a `FeatureRawArray`: the bytes of the element buffer, `none` when indeterminate, and the references
that its slots have taken over, by the bytes of their pointers. A null buffer has no bytes. -/
structure FeatureRawArray where
  size : ℤ
  capacity : ℤ
  element : List (Option UInt8)
  owned : List (List UInt8)

namespace FeatureRawArray

variable (P : Platform) (H : HeapRequests) (type : FeatureType)

/-- `FeatureCreateArray`. -/
def new (capacity : ℕ) : Option FeatureRawArray :=
  let bytes := sizeT P.addressSpace (capacity * getValueSize P type)
  if H.malloc bytes then some ⟨0,toInt capacity,List.replicate bytes (some 0),[]⟩
  -- `memset` of a null buffer
  else if bytes = 0 then some ⟨0,toInt capacity,[],[]⟩
  else none

variable (a : FeatureRawArray)

def len : ℕ := sizeT P.addressSpace a.size

def capacitySize : ℕ := sizeT P.addressSpace a.capacity

/-- `FeatureArrayResize`, when the new size is greater. -/
def resize (newSize : ℕ) : Option FeatureRawArray :=
  let bytes := sizeT P.addressSpace (newSize * getValueSize P type)
  if H.realloc bytes then some { a with element := fit a.element bytes, capacity := toInt newSize }
  else do
    let used ← signed (a.size * getValueSize P type)
    let element ← memcpy 1 (if H.malloc bytes then List.replicate bytes none else []) 0 a.element
      (sizeT P.addressSpace used)
    return { a with element := element, capacity := toInt newSize }

def enlarge (newSize : ℕ) : Option FeatureRawArray :=
  if newSize ≤ a.capacitySize P then some a else a.resize P H type newSize

/-- `_add_item` of the bytes of an item. -/
def addItem (item : List UInt8) : Option FeatureRawArray := do
  let element ← memcpy 1 a.element (a.len P * item.length) (item.map some) item.length
  return { a with element := element, size := toInt (a.size + 1) }

def append (item : List UInt8) : Option FeatureRawArray := do
  let a ← if a.capacitySize P ≤ a.len P then a.enlarge P H type (a.capacitySize P + 1) else some a
  a.addItem P item

def write (offset : ℕ) (bytes : List UInt8) : Option FeatureRawArray := do
  let element ← memcpy 1 a.element offset (bytes.map some) bytes.length
  return { a with element := element }

def own (pointer : List UInt8) : FeatureRawArray := { a with owned := pointer :: a.owned }

/-- `set`; `ptr::write` moves the element and drops nothing. -/
def set (idx : ℕ) (v : RustValue) : Option FeatureRawArray :=
  if a.len P ≤ idx then some a
  else (a.write (idx * v.bytes.length) v.bytes).map (fun a => if v.pointer = [] then a else a.own v.pointer)

end FeatureRawArray

abbrev RustItem (P : Platform) (T : RustArrayType) := {v : RustValue // T.Fits P v}

/-- The calls on an array; a `FeatureReferenceArray` has neither `append_string` nor `set`. -/
inductive RustArrayOp (P : Platform) (T : RustArrayType)
  | append (item : RustItem P T)
  | appendString (hT : T.isReference = false) (item : RustItem P .string)
  | enlarge (newSize : ℕ)
  | set (hT : T.isReference = false) (idx : ℕ) (element : RustItem P T)
  | get (idx : ℕ)

namespace RustArrayType

variable (P : Platform) (H : HeapRequests) (T : RustArrayType) (a : FeatureRawArray)

/-- `append`: a `FeatureString` is copied and then dropped, a reference is moved out of its wrapper. -/
def append (v : RustValue) : Option FeatureRawArray :=
  match T with
  | number _ | string => a.append P H T.elementType v.bytes
  | reference _ => (a.append P H T.elementType v.pointer).map (·.own v.pointer)

/-- `append_string` moves the reference out of the `FeatureString`. -/
def appendString (v : RustValue) : Option FeatureRawArray :=
  (a.append P H T.elementType v.pointer).map (·.own v.pointer)

/-- `get`: the stride is the size of `T`, or that of the type of the target. -/
def get (idx : ℕ) : Option (Option (List UInt8)) :=
  if a.len P ≤ idx then some none
  else
    match T with
    | number type => some <$> load a.element (idx * type.sizeOf) type.sizeOf
    | string => some <$> load a.element (idx * (2 * P.pointerSize)) (2 * P.pointerSize)
    | reference target => do
      let pointer ← load a.element (idx * getValueSize P target.type) P.pointerSize
      return if pointer.all (· == 0) then none else some pointer

end RustArrayType

/-- An array, `none` after an access outside of its buffer; the list that it is to be, and whether every `get` so far
returned the element of that list. -/
structure RustArrayRun where
  raw : Option FeatureRawArray
  items : List RustValue
  answered : Bool := true

namespace RustArrayRun

variable (P : Platform) (H : HeapRequests) (T : RustArrayType)

def new (capacity : ℕ) : RustArrayRun := ⟨FeatureRawArray.new P H T.elementType capacity,[],true⟩

def step (s : RustArrayRun) : RustArrayOp P T → RustArrayRun
  | .append item => { s with raw := s.raw.bind (T.append P H · item.1), items := s.items ++ [item.1] }
  | .appendString _ item => { s with raw := s.raw.bind (T.appendString P H · item.1), items := s.items ++ [item.1] }
  | .enlarge newSize => { s with raw := s.raw.bind (·.enlarge P H T.elementType newSize) }
  | .set _ idx element => { s with raw := s.raw.bind (·.set P idx element.1), items := s.items.set idx element.1 }
  | .get idx =>
    match s.raw.bind (T.get P · idx) with
    | some answer => { s with answered := s.answered && answer == (s.items[idx]?).map RustValue.bytes }
    | none => { s with raw := none }

/-- Every access was inside the buffer, `get` has returned the elements of the list, `len` is its length, and the array
owns a reference to each element that is one. -/
def Right (s : RustArrayRun) : Prop :=
  s.answered = true ∧ ∃ a, s.raw = some a ∧ a.len P = s.items.length ∧
    ∀ p ≠ [], (s.items.map RustValue.pointer).count p ≤ a.owned.count p

/-- A buffer of `n` elements can be had and counted; the copy behind a failed `realloc` computes its size as an int. -/
def Grows (s : RustArrayRun) (n : ℕ) : Prop :=
  n ≤ intMax ∧ n * getValueSize P T.elementType < P.addressSpace ∧
    (H.realloc (n * getValueSize P T.elementType) = true ∨
      H.malloc (n * getValueSize P T.elementType) = true ∧ s.items.length * getValueSize P T.elementType ≤ intMax)

def Room (s : RustArrayRun) : Prop :=
  s.items.length + 1 ≤ intMax ∧ ∀ a, s.raw = some a → a.capacity ≤ s.items.length → s.Grows P H T (s.items.length + 1)

def Meets (s : RustArrayRun) : RustArrayOp P T → Prop
  | .append _ => T.isString = false ∧ s.Room P H T
  | .appendString _ _ => T.isString = true ∧ s.Room P H T
  | .enlarge newSize => ∀ a, s.raw = some a → a.capacity < newSize → s.Grows P H T newSize
  | .set _ idx _ | .get idx => T.isString = true → s.items.length ≤ idx

end RustArrayRun

namespace RustArrayType

variable {P : Platform} {T : RustArrayType} {v : RustValue}

def slot (T : RustArrayType) (v : RustValue) : List UInt8 :=
  match T with
  | number _ => v.bytes
  | _ => v.pointer

theorem getValueSize_number (P : Platform) (type : RustNumber) : getValueSize P (.primitive type.type) = type.sizeOf := by
  cases type <;> rfl

theorem getValueSize_target (P : Platform) (target : ReferenceTarget) : getValueSize P target.type = P.pointerSize := by
  cases target <;> rfl

theorem length_slot (h : T.Fits P v) : (T.slot v).length = getValueSize P T.elementType := by
  cases T with
  | number type =>
    rw [elementType,getValueSize_number,← h.2]
    simp only [slot,RustValue.bytes,h.1,List.nil_append]
  | string => exact h.1
  | reference target =>
    rw [elementType,getValueSize_target]
    exact h.1

end RustArrayType

namespace FeatureRawArray

/-- The buffer holds the slots of the elements, and the array owns a reference to each that is one. -/
structure Represents (P : Platform) (T : RustArrayType) (a : FeatureRawArray) (items : List RustValue) : Prop where
  fits : ∀ v ∈ items, T.Fits P v
  size : a.size = items.length
  le_capacity : (items.length : ℤ) ≤ a.capacity
  capacity_le : a.capacity ≤ intMax
  length : (a.element.length : ℤ) = a.capacity * getValueSize P T.elementType
  lt_space : a.element.length < P.addressSpace
  holds : Holds a.element (items.flatMap T.slot)
  owned : ∀ p ≠ [], (items.map RustValue.pointer).count p ≤ a.owned.count p

namespace Represents

variable {P : Platform} {H : HeapRequests} {T : RustArrayType} {a : FeatureRawArray} {items : List RustValue}

theorem length_slots {items : List RustValue} (h : ∀ v ∈ items, T.Fits P v) :
    (items.flatMap T.slot).length = items.length * getValueSize P T.elementType := by
  induction items with
  | nil => simp
  | cons v items ih =>
    have hslot := RustArrayType.length_slot (h v List.mem_cons_self)
    rw [List.flatMap_cons,List.length_append,hslot,ih (fun w hw => h w (List.mem_cons_of_mem _ hw)),List.length_cons,
      Nat.succ_mul,Nat.add_comm]

theorem len_eq (h : a.Represents P T items) : a.len P = items.length := by
  have hspace := P.le_addressSpace
  have hle := h.le_capacity
  have hmax := h.capacity_le
  unfold intMax at hmax
  exact sizeT_of_lt h.size (by omega)

theorem capacitySize_eq (h : a.Represents P T items) : (a.capacitySize P : ℤ) = a.capacity := by
  have hspace := P.le_addressSpace
  have hcap := h.capacity_le
  have hle := h.le_capacity
  unfold intMax at hcap
  rw [capacitySize,sizeT_of_lt (n := a.capacity.toNat) (by omega) (by omega)]
  omega

theorem new {capacity : ℕ} (hmax : capacity ≤ intMax) (hspace : capacity * getValueSize P T.elementType < P.addressSpace)
    (halloc : H.malloc (capacity * getValueSize P T.elementType) = true) :
    ∃ a, FeatureRawArray.new P H T.elementType capacity = some a ∧ a.Represents P T [] := by
  have hbytes : sizeT P.addressSpace (capacity * getValueSize P T.elementType) = capacity * getValueSize P T.elementType :=
    sizeT_of_lt (by push_cast; rfl) hspace
  have hcapacity : toInt capacity = capacity := toInt_of_le (by omega) hmax
  refine ⟨⟨0,capacity,List.replicate (capacity * getValueSize P T.elementType) (some 0),[]⟩,?_,nofun,rfl,?_,hmax,?_,?_,
    holds_nil _,?_⟩
  · simp only [FeatureRawArray.new,hbytes,if_pos halloc,hcapacity]
  · exact Int.natCast_nonneg capacity
  · rw [List.length_replicate]
    push_cast
    rfl
  · rw [List.length_replicate]
    exact hspace
  · intro p _
    simp

theorem resize (h : a.Represents P T items) {n : ℕ} (hgreater : a.capacity < n) (hmax : n ≤ intMax)
    (hspace : n * getValueSize P T.elementType < P.addressSpace)
    (halloc : H.realloc (n * getValueSize P T.elementType) = true ∨
      H.malloc (n * getValueSize P T.elementType) = true ∧ items.length * getValueSize P T.elementType ≤ intMax) :
    ∃ a', a.resize P H T.elementType n = some a' ∧ a'.Represents P T items ∧ a'.capacity = n ∧ a'.owned = a.owned := by
  have hle := h.le_capacity
  have hbytes : sizeT P.addressSpace (n * getValueSize P T.elementType) = n * getValueSize P T.elementType :=
    sizeT_of_lt (by push_cast; rfl) hspace
  have hcapacity : toInt n = n := toInt_of_le (by omega) hmax
  have hslots := length_slots h.fits
  have hfit : items.length * getValueSize P T.elementType ≤ n * getValueSize P T.elementType :=
    Nat.mul_le_mul_right _ (by omega)
  -- either buffer holds the slots of the old one
  have hnew : ∀ element : List (Option UInt8), element.length = n * getValueSize P T.elementType →
      Holds element (items.flatMap T.slot) →
      Represents P T { a with element := element, capacity := n } items := by
    intro element hlength hholds
    refine ⟨h.fits,h.size,?_,hmax,?_,?_,hholds,h.owned⟩
    · change (items.length : ℤ) ≤ n
      omega
    · change (element.length : ℤ) = n * getValueSize P T.elementType
      rw [hlength]
      push_cast
      rfl
    · rw [hlength]
      exact hspace
  by_cases hrealloc : H.realloc (n * getValueSize P T.elementType) = true
  · refine ⟨{ a with element := fit a.element (n * getValueSize P T.elementType), capacity := n },?_,
      hnew _ (length_fit ..) ?_,rfl,rfl⟩
    · simp only [FeatureRawArray.resize,hbytes,if_pos hrealloc,hcapacity]
    · apply h.holds.congr
      intro i hi
      have hold := h.holds.length_le
      exact getElem?_fit (by omega) (by omega)
  · obtain ⟨hmalloc,hsmall⟩ := halloc.resolve_left hrealloc
    have hused : signed (a.size * getValueSize P T.elementType) =
        some ((items.length : ℤ) * getValueSize P T.elementType) := by
      rw [h.size]
      exact signed_of_le (Int.mul_nonneg (Int.natCast_nonneg _) (Int.natCast_nonneg _)) hsmall
    have hcount : sizeT P.addressSpace ((items.length : ℤ) * getValueSize P T.elementType) =
        items.length * getValueSize P T.elementType := sizeT_of_lt (by push_cast; rfl) (by omega)
    have hold := h.holds.length_le
    have hcopy := @memcpy_slots (Option UInt8) 1 (by decide) (List.replicate (n * getValueSize P T.elementType) none) 0
      (items.length * getValueSize P T.elementType) a.element (by omega) (by rw [List.length_replicate]; omega)
    rw [Nat.zero_mul,Nat.mul_one] at hcopy
    refine ⟨⟨a.size,n,overwrite (List.replicate (n * getValueSize P T.elementType) none) 0
      (a.element.take (items.length * getValueSize P T.elementType)),a.owned⟩,?_,hnew _ ?_ ?_,rfl,rfl⟩
    · simp only [FeatureRawArray.resize,hbytes,if_neg hrealloc,if_pos hmalloc,hused,Option.bind_eq_bind,
        Option.bind_some,hcount,hcopy,hcapacity]
      rfl
    · rw [length_overwrite (by rw [List.length_replicate,List.length_take]; omega),List.length_replicate]
    · apply h.holds.congr
      intro i hi
      rw [getElem?_overwrite (by rw [List.length_replicate,List.length_take]; omega),if_neg (by omega),
        if_pos (by rw [List.length_take]; omega),Nat.sub_zero,List.getElem?_take_of_lt (by omega)]

theorem enlarge (h : a.Represents P T items) {n : ℕ} (hgrows : a.capacity < n → n ≤ intMax ∧
      n * getValueSize P T.elementType < P.addressSpace ∧ (H.realloc (n * getValueSize P T.elementType) = true ∨
        H.malloc (n * getValueSize P T.elementType) = true ∧ items.length * getValueSize P T.elementType ≤ intMax)) :
    ∃ a', a.enlarge P H T.elementType n = some a' ∧ a'.Represents P T items ∧ (n : ℤ) ≤ a'.capacity ∧
      a'.owned = a.owned := by
  have hcapacity := h.capacitySize_eq
  by_cases hgreater : a.capacity < n
  · obtain ⟨hmax,hspace,halloc⟩ := hgrows hgreater
    obtain ⟨a',hresize,hrep,hnew,howned⟩ := h.resize hgreater hmax hspace halloc
    refine ⟨a',?_,hrep,Int.le_of_eq hnew.symm,howned⟩
    rw [FeatureRawArray.enlarge,if_neg (by omega),hresize]
  · refine ⟨a,?_,h,by omega,rfl⟩
    rw [FeatureRawArray.enlarge,if_pos (by omega)]

/-- One more slot behind the others; the reference in it is still to be owned. -/
theorem addItem (h : a.Represents P T items) {v : RustValue} (hv : T.Fits P v) (hroom : (items.length : ℤ) < a.capacity) :
    ∃ a', a.addItem P (T.slot v) = some a' ∧ a'.owned = a.owned ∧
      ∀ owned, (∀ p ≠ [], ((items ++ [v]).map RustValue.pointer).count p ≤ owned.count p) →
        Represents P T { a' with owned := owned } (items ++ [v]) := by
  have hmax := h.capacity_le
  have hslots := length_slots h.fits
  have hslot := RustArrayType.length_slot hv
  have hfit : (items.length + 1) * getValueSize P T.elementType ≤ a.element.length := by
    have hle : (items.length + 1 : ℤ) * getValueSize P T.elementType ≤ a.capacity * getValueSize P T.elementType :=
      Int.mul_le_mul_of_nonneg_right (by omega) (Int.natCast_nonneg _)
    have hlength := h.length
    push_cast [← hlength] at hle
    exact_mod_cast hle
  rw [Nat.succ_mul] at hfit
  have hcopy := @memcpy_slots (Option UInt8) 1 (by decide) a.element (items.length * (T.slot v).length) (T.slot v).length
    ((T.slot v).map some) (by rw [List.length_map]) (by rw [hslot]; exact hfit)
  rw [Nat.mul_one,Nat.mul_one,List.take_of_length_le (by rw [List.length_map])] at hcopy
  have hsize : toInt (a.size + 1) = items.length + 1 := by
    rw [h.size]
    exact toInt_of_le (by omega) (by omega)
  refine ⟨⟨items.length + 1,a.capacity,overwrite a.element (items.length * (T.slot v).length) ((T.slot v).map some),a.owned⟩,
    ?_,rfl,?_⟩
  · simp only [FeatureRawArray.addItem,h.len_eq,hcopy,hsize,Option.bind_eq_bind,Option.bind_some]
    rfl
  · intro owned howned
    have hsame : (overwrite a.element (items.length * (T.slot v).length) ((T.slot v).map some)).length = a.element.length :=
      length_overwrite (by rw [List.length_map,hslot]; exact hfit)
    refine ⟨?_,?_,?_,hmax,?_,?_,?_,howned⟩
    · intro w hw
      obtain hold | hnew := List.mem_append.mp hw
      · exact h.fits w hold
      · exact List.mem_singleton.mp hnew ▸ hv
    · simp
    · simp only [List.length_append,List.length_singleton]
      push_cast
      omega
    · change ((overwrite a.element _ _).length : ℤ) = _
      rw [hsame]
      exact h.length
    · change (overwrite a.element _ _).length < _
      rw [hsame]
      exact h.lt_space
    · have hbehind := @Holds.append UInt8 _ _ h.holds (T.slot v) (by rw [hslots,hslot]; exact hfit)
      rw [hslots,← hslot] at hbehind
      rw [List.flatMap_append,List.flatMap_singleton]
      exact hbehind

theorem append (h : a.Represents P T items) {v : RustValue} (hv : T.Fits P v) (hgrows : a.capacity ≤ items.length →
      (items.length + 1 : ℕ) ≤ intMax ∧ (items.length + 1) * getValueSize P T.elementType < P.addressSpace ∧
      (H.realloc ((items.length + 1) * getValueSize P T.elementType) = true ∨
        H.malloc ((items.length + 1) * getValueSize P T.elementType) = true ∧
          items.length * getValueSize P T.elementType ≤ intMax)) :
    ∃ a', a.append P H T.elementType (T.slot v) = some a' ∧ a'.owned = a.owned ∧
      ∀ owned, (∀ p ≠ [], ((items ++ [v]).map RustValue.pointer).count p ≤ owned.count p) →
        Represents P T { a' with owned := owned } (items ++ [v]) := by
  have hle := h.le_capacity
  have hcapacity := h.capacitySize_eq
  by_cases hfull : a.capacity ≤ items.length
  · have hnext : a.capacitySize P + 1 = items.length + 1 := by omega
    obtain ⟨b,hb,hrep,hroom,howned⟩ := h.enlarge (n := items.length + 1) (fun _ => hgrows hfull)
    obtain ⟨a',ha',howned',hall⟩ := hrep.addItem hv (by omega)
    refine ⟨a',?_,howned'.trans howned,hall⟩
    rw [FeatureRawArray.append,if_pos (by rw [h.len_eq]; omega),hnext,hb]
    exact ha'
  · obtain ⟨a',ha',howned,hall⟩ := h.addItem hv (by omega)
    refine ⟨a',?_,howned,hall⟩
    rw [FeatureRawArray.append,if_neg (by rw [h.len_eq]; omega)]
    exact ha'

theorem split (h : a.Represents P T items) {i : ℕ} (hi : i < items.length) :
    items.flatMap T.slot = (items.take i).flatMap T.slot ++ T.slot items[i] ++ (items.drop (i + 1)).flatMap T.slot ∧
      ((items.take i).flatMap T.slot).length = i * getValueSize P T.elementType ∧
      (T.slot items[i]).length = getValueSize P T.elementType := by
  refine ⟨?_,?_,RustArrayType.length_slot (h.fits _ (List.getElem_mem hi))⟩
  · rw [List.append_assoc,← List.flatMap_cons,List.getElem_cons_drop,← List.flatMap_append,List.take_append_drop]
  · rw [length_slots (fun v hv => h.fits v (List.mem_of_mem_take hv)),List.length_take_of_le (by omega)]

theorem load_slot (h : a.Represents P T items) {i : ℕ} (hi : i < items.length) :
    load a.element (i * getValueSize P T.elementType) (getValueSize P T.elementType) = some (T.slot items[i]) := by
  obtain ⟨hsplit,hfront,hslot⟩ := h.split hi
  have hload := (hsplit ▸ h.holds).load
  rwa [hfront,hslot] at hload

theorem get (h : a.Represents P T items) {i : ℕ} (hstring : T.isString = true → items.length ≤ i) :
    T.get P a i = some ((items[i]?).map RustValue.bytes) := by
  by_cases hi : i < items.length
  · have hload := h.load_slot hi
    have hfits := h.fits _ (List.getElem_mem hi)
    rw [RustArrayType.get.eq_def,if_neg (by rw [h.len_eq]; omega),List.getElem?_eq_getElem hi,Option.map_some]
    cases T with
    | number type =>
      rw [RustArrayType.elementType,RustArrayType.getValueSize_number] at hload
      simp only [hload]
      rfl
    | string => exact absurd (hstring rfl) (by omega)
    | reference target =>
      obtain ⟨hlength,hrest,hnull⟩ := hfits
      rw [RustArrayType.elementType] at hload
      have hbytes : items[i].bytes = items[i].pointer := by rw [RustValue.bytes,hrest,List.append_nil]
      have hread : load a.element (i * getValueSize P target.type) P.pointerSize = some items[i].pointer := by
        rw [← RustArrayType.getValueSize_target P target]
        exact hload
      rw [RustValue.isNull] at hnull
      simp only [hread,hbytes,Option.bind_eq_bind,Option.bind_some,hnull]
      rfl
  · rw [RustArrayType.get.eq_def,if_pos (by rw [h.len_eq]; omega),List.getElem?_eq_none (by omega),Option.map_none]

theorem set (h : a.Represents P T items) {i : ℕ} {v : RustValue} (hv : T.Fits P v) (hT : T.isReference = false)
    (hstring : T.isString = true → items.length ≤ i) :
    ∃ a', a.set P i v = some a' ∧ a'.Represents P T (items.set i v) := by
  by_cases hi : i < items.length
  · cases T with
    | string => exact absurd (hstring rfl) (by omega)
    | reference target => cases hT
    | number type =>
      obtain ⟨hsplit,hfront,hslot⟩ := h.split hi
      have hwidth : (RustArrayType.slot (.number type) v).length = _ := RustArrayType.length_slot hv
      have hold := h.holds.length_le
      rw [length_slots h.fits] at hold
      have hfit : (i + 1) * getValueSize P (RustArrayType.number type).elementType ≤ a.element.length :=
        (Nat.mul_le_mul_right _ (by omega)).trans hold
      rw [Nat.succ_mul] at hfit
      change v.bytes.length = _ at hwidth
      have hcopy := @memcpy_slots (Option UInt8) 1 (by decide) a.element (i * v.bytes.length) v.bytes.length
        (v.bytes.map some) (by rw [List.length_map]) (by rw [hwidth]; exact hfit)
      rw [Nat.mul_one,Nat.mul_one,List.take_of_length_le (by rw [List.length_map])] at hcopy
      refine ⟨{ a with element := overwrite a.element (i * v.bytes.length) (v.bytes.map some) },?_,?_⟩
      · rw [FeatureRawArray.set,if_neg (by rw [h.len_eq]; omega),FeatureRawArray.write]
        simp only [hcopy,Option.bind_eq_bind,Option.bind_some,Option.map_some,hv.1,if_true,pure]
      · have hsame : (overwrite a.element (i * v.bytes.length) (v.bytes.map some)).length = a.element.length :=
          length_overwrite (by rw [List.length_map,hwidth]; exact hfit)
        have hfits : ∀ w ∈ items.set i v, RustArrayType.Fits P (.number type) w := by
          intro w hw
          obtain hold | rfl := List.mem_or_eq_of_mem_set hw
          · exact h.fits w hold
          · exact hv
        refine ⟨hfits,?_,?_,h.capacity_le,?_,?_,?_,?_⟩
        · rw [List.length_set]
          exact h.size
        · rw [List.length_set]
          exact h.le_capacity
        · change ((overwrite a.element _ _).length : ℤ) = _
          rw [hsame]
          exact h.length
        · change (overwrite a.element _ _).length < _
          rw [hsame]
          exact h.lt_space
        · have hreplace := @Holds.replace UInt8 _ _ _ _ v.bytes (hsplit ▸ h.holds) (by rw [hwidth,hslot])
          rw [hfront,← hwidth] at hreplace
          rw [List.set_eq_take_append_cons_drop,if_pos hi,List.flatMap_append,List.flatMap_cons,← List.append_assoc]
          exact hreplace
        · intro p hp
          have hnone : p ∉ (items.set i v).map RustValue.pointer := by
            intro hmem
            obtain ⟨w,hw,rfl⟩ := List.mem_map.mp hmem
            exact hp (hfits w hw).1
          rw [List.count_eq_zero.mpr hnone]
          exact Nat.zero_le _
  · refine ⟨a,?_,?_⟩
    · rw [FeatureRawArray.set,if_pos (by rw [h.len_eq]; omega)]
    · rw [List.set_eq_of_length_le (by omega)]
      exact h

theorem owned_cons (h : a.Represents P T items) {a' : FeatureRawArray} (howned : a'.owned = a.owned) (v : RustValue) :
    ∀ p ≠ [], ((items ++ [v]).map RustValue.pointer).count p ≤ (a'.own v.pointer).owned.count p := by
  intro p hp
  have hcount := h.owned p hp
  simp only [FeatureRawArray.own,howned,List.map_append,List.map_singleton,List.count_append,List.count_cons,
    List.count_nil]
  omega

end Represents
end FeatureRawArray

namespace RustArrayRun

variable {P : Platform} {H : HeapRequests} {T : RustArrayType}

def Sound (P : Platform) (T : RustArrayType) (s : RustArrayRun) : Prop :=
  s.answered = true ∧ ∃ a, s.raw = some a ∧ a.Represents P T s.items

theorem Sound.right {s : RustArrayRun} (h : s.Sound P T) : s.Right P := by
  obtain ⟨hanswered,a,ha,hrep⟩ := h
  exact ⟨hanswered,a,ha,hrep.len_eq,hrep.owned⟩

theorem Sound.step {s : RustArrayRun} (h : s.Sound P T) {op : RustArrayOp P T} (hop : s.Meets P H T op) :
    (s.step P H T op).Sound P T := by
  obtain ⟨hanswered,a,ha,hrep⟩ := h
  cases op with
  | append item =>
    obtain ⟨hstring,hroom⟩ := hop
    obtain ⟨a',happend,howned,hall⟩ := hrep.append item.2 (fun hfull => hroom.2 a ha hfull)
    cases T with
    | number type =>
      refine ⟨hanswered,{ a' with owned := a.owned },?_,hall a.owned ?_⟩
      · rw [RustArrayRun.step,ha,Option.bind_some,← howned]
        exact happend
      · intro p hp
        have hnone : p ∉ [item.1.pointer] := by
          rw [item.2.1]
          exact fun hmem => hp (List.mem_singleton.mp hmem)
        rw [List.map_append,List.count_append,List.map_singleton,List.count_eq_zero.mpr hnone,Nat.add_zero]
        exact hrep.owned p hp
    | string => cases hstring
    | reference target =>
      refine ⟨hanswered,a'.own item.1.pointer,?_,hall _ (hrep.owned_cons howned item.1)⟩
      rw [RustArrayRun.step,ha,Option.bind_some]
      exact congrArg (Option.map (·.own item.1.pointer)) happend
  | appendString hT item =>
    obtain ⟨hstring,hroom⟩ := hop
    cases T with
    | string =>
      obtain ⟨a',happend,howned,hall⟩ := hrep.append item.2 (fun hfull => hroom.2 a ha hfull)
      refine ⟨hanswered,a'.own item.1.pointer,?_,hall _ (hrep.owned_cons howned item.1)⟩
      rw [RustArrayRun.step,ha,Option.bind_some]
      exact congrArg (Option.map (·.own item.1.pointer)) happend
    | _ => cases hstring
  | enlarge newSize =>
    obtain ⟨a',henlarge,hrep',_⟩ := hrep.enlarge (hop a ha)
    exact ⟨hanswered,a',by rw [RustArrayRun.step,ha,Option.bind_some,henlarge],hrep'⟩
  | set hT idx element =>
    obtain ⟨a',hset,hrep'⟩ := hrep.set element.2 hT hop
    exact ⟨hanswered,a',by rw [RustArrayRun.step,ha,Option.bind_some,hset],hrep'⟩
  | get idx =>
    have hget := hrep.get hop
    rw [RustArrayRun.step.eq_def]
    simp only [ha,Option.bind_some,hget]
    refine ⟨?_,a,rfl,hrep⟩
    simp [hanswered]

/-- A new array, and every run of calls that meets the conditions, is the list. -/
theorem list_of_meets {capacity : ℕ} (hmax : capacity ≤ intMax)
    (hspace : capacity * getValueSize P T.elementType < P.addressSpace)
    (halloc : H.malloc (capacity * getValueSize P T.elementType) = true) (ops : List (RustArrayOp P T))
    (h : Transition.Guarded (RustArrayRun.step P H T) (Meets P H T) (RustArrayRun.new P H T capacity) ops) :
    Transition.Always (RustArrayRun.step P H T) (Right P) (RustArrayRun.new P H T capacity) ops := by
  obtain ⟨a,ha,hrep⟩ := FeatureRawArray.Represents.new hmax hspace halloc
  have hsound : (RustArrayRun.new P H T capacity).Sound P T := ⟨rfl,a,ha,hrep⟩
  exact (h.always (fun _ _ hs hop => hs.step hop) hsound).mono (fun _ hs => hs.right)

def enoughMemory : HeapRequests := ⟨fun _ => true,fun _ => true⟩

/-- The number 5 as an `FtInt`. -/
def fiveInt : RustItem .bits64 (.number .int) := ⟨⟨[],[5,0,0,0]⟩,rfl,rfl⟩

def sixInt : RustItem .bits64 (.number .int) := ⟨⟨[],[6,0,0,0]⟩,rfl,rfl⟩

/-- The second number needs a larger block. -/
theorem appended_int : Transition.Always (RustArrayRun.step .bits64 enoughMemory (.number .int)) (Right .bits64)
    (RustArrayRun.new .bits64 enoughMemory (.number .int) 1) [.append fiveInt,.append sixInt,.get 1,.get 0] := by
  apply list_of_meets (by decide) (by decide) rfl
  refine ⟨⟨rfl,by decide,?_⟩,⟨rfl,by decide,?_⟩,nofun,nofun,trivial⟩
  · intro a ha hfull
    obtain rfl : _ = a := Option.some.inj ha
    exact absurd hfull (by decide)
  · exact fun _ _ _ => ⟨by decide,by decide,.inl rfl⟩

def oneByteString : RustItem .bits64 .string := ⟨⟨[16,0,0,0,0,0,0,0],[1,0,0,0,0,0,0,0]⟩,rfl,rfl,by decide⟩

/-- A `FeatureString` does not fit into the slot of a pointer, and where the buffer has room for it, the array holds a
string that has been given back. -/
theorem appended_string :
    ((RustArrayRun.new .bits64 enoughMemory .string 1).step .bits64 enoughMemory .string (.append oneByteString)).raw = none ∧
      ¬((RustArrayRun.new .bits64 enoughMemory .string 2).step .bits64 enoughMemory .string
        (.append oneByteString)).Right .bits64 := by
  refine ⟨by decide,?_⟩
  intro h
  obtain ⟨_,a,ha,_,howned⟩ := h
  obtain rfl : _ = a := Option.some.inj ha
  exact absurd (howned oneByteString.1.pointer (by decide)) (by decide)

end RustArrayRun
end FeatureRuntime
