import FeatureRuntime.MethodCall
import Mathlib.Data.Fin.Tuple.Basic
import Mathlib.Data.List.OfFn

/-! The templates that both backends instantiate: a value translator, and over it the conversion of the plain types,
`methodCall` and `accessorSet`. -/
namespace FeatureRuntime

inductive IntegerType
  | int
  | int8
  | uint8
  | int16
  | uint16
  | int32
  | uint32
  | int64
  | uint64
  deriving DecidableEq

namespace IntegerType

def primitive : IntegerType → PrimitiveType
  | int => .int
  | int8 => .int8
  | uint8 => .uint8
  | int16 => .int16
  | uint16 => .uint16
  | int32 => .int32
  | uint32 => .uint32
  | int64 => .int64
  | uint64 => .uint64

def low : IntegerType → ℤ
  | int | int32 => -2 ^ 31
  | int8 => -2 ^ 7
  | int16 => -2 ^ 15
  | int64 => -2 ^ 63
  | uint8 | uint16 | uint32 | uint64 => 0

def high : IntegerType → ℤ
  | int | int32 => 2 ^ 31
  | int8 => 2 ^ 7
  | uint8 => 2 ^ 8
  | int16 => 2 ^ 15
  | uint16 => 2 ^ 16
  | uint32 => 2 ^ 32
  | int64 => 2 ^ 63
  | uint64 => 2 ^ 64

end IntegerType

section Narrow

theorem narrow_signed {bits : ℕ} {value : ℤ} (low : -2 ^ bits ≤ value) (high : value < 2 ^ bits) :
    narrow (bits + 1) true value = value := by
  rw [narrow,if_pos rfl]
  apply Int.bmod_eq_of_le_mul_two
  · push_cast
    rw [pow_succ]
    omega
  · push_cast
    rw [pow_succ]
    omega

theorem narrow_unsigned {bits : ℕ} {value : ℤ} (low : 0 ≤ value) (high : value < 2 ^ bits) :
    narrow bits false value = value := by
  rw [narrow,if_neg Bool.false_ne_true,Int.emod_eq_of_lt low high]

end Narrow

/-- The types that are built from booleans, numbers and strings. -/
inductive PlainType
  | boolean
  | integer (type : IntegerType)
  | double
  | string
  | struct (members : List (String × PlainType))
  | array (elementType : PlainType)

inductive PlainNative
  | bool (value : Bool)
  | int (value : ℤ)
  | double (bits : BitVec 64)
  | string (text : String)
  | struct (fields : List (Option PlainNative))
  | array (elements : List (Option PlainNative))

/-- Why a value has no native one: it is refused, or what happens is undefined. -/
inductive ConvertFailure
  | refused
  | undefined
  deriving DecidableEq

def collect {ε α : Type} : {n : ℕ} → (Fin n → Except ε α) → Except ε (List α)
  | 0, _ => .ok []
  | _ + 1, f => do
    let x ← f 0
    let xs ← collect (fun i => f i.succ)
    return x :: xs

section Collect

variable {ε α : Type} {n : ℕ} {f : Fin n → Except ε α}

theorem collect_of_eq {m : ℕ} (h : m = n) (g : ℕ → Except ε α) :
    collect (fun i : Fin m => g i) = collect (fun i : Fin n => g i) := by
  subst h
  rfl

theorem collect_eq_ok_iff {xs : List α} : collect f = .ok xs ↔ ∃ g, xs = List.ofFn g ∧ ∀ i, f i = .ok (g i) := by
  induction n generalizing xs with
  | zero => simp [collect,eq_comm]
  | succ n ih =>
    constructor
    · intro h
      cases hfirst : f 0 with
      | error e => simp [collect,hfirst,bind,Except.bind] at h
      | ok x =>
        cases hrest : collect (fun i => f i.succ) with
        | error e => simp [collect,hfirst,hrest,bind,Except.bind] at h
        | ok rest =>
          obtain ⟨g,rfl,hg⟩ := ih.mp hrest
          refine ⟨Fin.cons x g,?_,Fin.cases hfirst hg⟩
          rw [List.ofFn_succ]
          simpa [collect,hfirst,hrest,bind,Except.bind,pure,Except.pure,eq_comm] using h
    · intro h
      obtain ⟨g,rfl,hg⟩ := h
      have hrest : collect (fun i => f i.succ) = .ok (List.ofFn (fun i => g i.succ)) :=
        ih.mpr ⟨_,rfl,fun i => hg i.succ⟩
      rw [List.ofFn_succ]
      simp [collect,hg 0,hrest,bind,Except.bind,pure,Except.pure]

theorem collect_eq_ofFn_iff {g : Fin n → α} : collect f = .ok (List.ofFn g) ↔ ∀ i, f i = .ok (g i) := by
  constructor
  · intro h i
    obtain ⟨g',heq,hg⟩ := collect_eq_ok_iff.mp h
    rw [hg i,List.ofFn_injective heq]
  · intro h
    exact collect_eq_ok_iff.mpr ⟨g,rfl,h⟩

theorem collect_eq_error {e : ε} (h : collect f = .error e) : ∃ i, f i = .error e := by
  induction n with
  | zero => simp [collect] at h
  | succ n ih =>
    cases hfirst : f 0 with
    | error e' =>
      refine ⟨0,?_⟩
      simpa [collect,hfirst,bind,Except.bind] using h
    | ok x =>
      cases hrest : collect (fun i => f i.succ) with
      | error e' =>
        have he : e' = e := by simpa [collect,hfirst,hrest,bind,Except.bind] using h
        obtain ⟨i,hi⟩ := ih (he ▸ hrest)
        exact ⟨i.succ,hi⟩
      | ok rest => simp [collect,hfirst,hrest,bind,Except.bind,pure,Except.pure] at h

end Collect

/-- What a method returns after its stub; `none` is the return type void. -/
def StubResult.plainCode (stub : StubResult) (returnType : Option PlainType) : RetCode :=
  if returnType.isSome && !stub.converts then .internalErr
  else if stub.exception then .internalErr
  else .ok

/-- `value_translator` of a backend whose guest values are of the type `τ`. -/
structure ValueTranslator (τ : Type) where
  isNull : τ → Bool
  isUndefined : τ → Bool
  isString : τ → Bool
  isPlainObject : τ → Bool
  isArray : τ → Bool
  /-- `toNative` for booleans and numbers. -/
  toNative : PrimitiveType → τ → Except ConvertFailure PlainNative
  /-- `toNative` for a C string, which may be null. -/
  toCString : τ → Except ConvertFailure (Option String)
  /-- `getStructField`: what it returns, and the field. -/
  getStructField : τ → String → ℕ → Bool × τ
  arraySize : τ → ℕ
  arrayGet : τ → ℕ → τ

namespace ValueTranslator

variable {τ : Type} (T : ValueTranslator τ)

/-- `FT_STRING`, with the `strlen` of what the translator returns. -/
def convertString (target : τ) : Except ConvertFailure (Option PlainNative) :=
  if T.isNull target || T.isUndefined target then .ok none
  else if T.isString target = false then .error .refused
  else
    match T.toCString target with
    | .error failure => .error failure
    | .ok none => .error .undefined
    | .ok (some text) => .ok (some (.string (cString text)))

def isRequired : PlainType → Bool
  | .boolean | .integer _ | .double => true
  | _ => false

def convertMember (convert : τ → Except ConvertFailure (Option PlainNative)) (name : String) (type : PlainType)
    (target : τ) (i : ℕ) : Except ConvertFailure (Option PlainNative) :=
  if (T.getStructField target name i).1 = false ∧ isRequired type = true then .error .refused
  else convert (T.getStructField target name i).2

mutual

/-- `convertValueToNative` into a slot that is zero. -/
def convertValueToNative : PlainType → τ → Except ConvertFailure (Option PlainNative)
  | .boolean, target => some <$> T.toNative .boolean target
  | .integer type, target => some <$> T.toNative type.primitive target
  | .double, target => some <$> T.toNative .double target
  | .string, target => T.convertString target
  | .struct members, target =>
    if T.isUndefined target || T.isNull target then .ok none
    else if T.isPlainObject target = false then .error .refused
    else (fun fields => some (.struct fields)) <$> convertMembers members target 0
  | .array elementType, target =>
    if T.isUndefined target || T.isNull target then .ok none
    else if T.isArray target = false then .error .refused
    else (fun elements => some (.array elements)) <$>
      collect (fun i : Fin (T.arraySize target) => convertValueToNative elementType (T.arrayGet target i))

/-- The loop over the members, from the one at `i` on. -/
def convertMembers : List (String × PlainType) → τ → ℕ → Except ConvertFailure (List (Option PlainNative))
  | [], _, _ => .ok []
  | (name,type) :: members, target, i => do
    let field ← T.convertMember (fun value => convertValueToNative type value) name type target i
    let fields ← convertMembers members target (i + 1)
    return field :: fields

end

theorem convertMembers_eq (members : List (String × PlainType)) (target : τ) (k : ℕ) :
    T.convertMembers members target k = collect (fun i : Fin members.length =>
      T.convertMember (T.convertValueToNative (members.get i).2) (members.get i).1 (members.get i).2 target (k + i)) := by
  induction members generalizing k with
  | nil => rfl
  | cons m members ih =>
    obtain ⟨name,type⟩ := m
    have hshift : ∀ i : Fin members.length, k + 1 + (i : ℕ) = k + (i.succ : ℕ) := by
      intro i
      simp only [Fin.val_succ]
      omega
    simp only [convertMembers,ih,hshift]
    rfl

section Reads

variable {T} {target : τ}

theorem convertMember_of_present {convert : τ → Except ConvertFailure (Option PlainNative)} {name : String} {type : PlainType}
    {i : ℕ} (h : (T.getStructField target name i).1 = true) :
    T.convertMember convert name type target i = convert (T.getStructField target name i).2 := by
  rw [convertMember,if_neg (fun hmissing => Bool.noConfusion (h.symm.trans hmissing.1))]

theorem convertValueToNative_struct {members : List (String × PlainType)} (hundefined : T.isUndefined target = false)
    (hnull : T.isNull target = false) (hplain : T.isPlainObject target = true) :
    T.convertValueToNative (.struct members) target = (fun fields => some (.struct fields)) <$>
      collect (fun i : Fin members.length => T.convertMember (T.convertValueToNative (members.get i).2)
        (members.get i).1 (members.get i).2 target (0 + i)) := by
  rw [convertValueToNative,hundefined,hnull,hplain,convertMembers_eq]
  rfl

theorem convertValueToNative_array {elementType : PlainType} (hundefined : T.isUndefined target = false)
    (hnull : T.isNull target = false) (harray : T.isArray target = true) :
    T.convertValueToNative (.array elementType) target = (fun elements => some (.array elements)) <$>
      collect (fun i : Fin (T.arraySize target) => T.convertValueToNative elementType (T.arrayGet target i)) := by
  rw [convertValueToNative,hundefined,hnull,harray]
  rfl

end Reads

/-- The native arguments of the calls of a stub, and what `methodCall` or `accessorSet` returns. -/
structure Reached where
  calls : List (List (Option PlainNative))
  code : RetCode

def reach (args : Except ConvertFailure (List (Option PlainNative))) (code : RetCode) : Option Reached :=
  match args with
  | .ok args => some ⟨[args],code⟩
  | .error .refused => some ⟨[],.argsTypeErr⟩
  | .error .undefined => none

/-- `methodCall` of a method whose types are plain. -/
def methodCall (types : List PlainType) (argv : List τ) (returnType : Option PlainType) (stub : StubResult) : Option Reached :=
  if h : types.length = argv.length then
    reach (collect (fun i : Fin types.length => T.convertValueToNative (types.get i) (argv.get (i.cast h))))
      (stub.plainCode returnType)
  else some ⟨[],.argsCountErr⟩

theorem methodCall_ofFn {types : List PlainType} (argv : Fin types.length → τ) (returnType : Option PlainType)
    (stub : StubResult) : T.methodCall types (List.ofFn argv) returnType stub =
      reach (collect (fun i => T.convertValueToNative (types.get i) (argv i))) (stub.plainCode returnType) := by
  simp only [methodCall,List.length_ofFn,dite_true,List.get_ofFn]
  rfl

def accessorSet (type : PlainType) (value : τ) : Option Reached :=
  reach ((fun value => [value]) <$> T.convertValueToNative type value) .ok

end ValueTranslator
end FeatureRuntime
