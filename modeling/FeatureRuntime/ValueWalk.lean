import FeatureRuntime.Convertor
import FeatureRuntime.MachineInt

/-! The walks of `dupFtValue` and `freeFtValue` over the bytes of a native value: the pointers that they read and the
JS values that they come to. -/
namespace FeatureRuntime

structure NativeMemory where
  platform : Platform
  byte : ℕ → UInt8

/-- A place that a walk reads a pointer at, with the block it lies in. -/
structure WalkSlot where
  address : ℕ
  first : ℕ
  bound : ℕ
  deriving DecidableEq

def WalkSlot.Holds (P : Platform) (slot : WalkSlot) : Prop :=
  slot.first ≤ slot.address ∧ slot.address + P.pointerSize ≤ slot.bound

/-- What a walk does: the read of `*(void**)pnative`, `ft_dup_value` and `ft_free_value`. -/
inductive WalkStep
  | read (slot : WalkSlot)
  | dup (value : ℕ)
  | free (value : ℕ)
  deriving DecidableEq

namespace NativeMemory

variable (M : NativeMemory)

def load : ℕ → ℕ → ℕ
  | 0, _ => 0
  | n + 1, address => (M.byte address).toNat + 256 * load n (address + 1)

/-- `*(void**)pnative`. -/
def word (address : ℕ) : ℕ := M.load M.platform.pointerSize address

/-- `_size` of an `FtArray`. -/
def arraySize (array : ℕ) : ℤ := toInt (M.load 4 array)

/-- `_element` of an `FtArray`; it comes after two `int32_t`. -/
def arrayElement (array : ℕ) : ℕ := M.word (array + 8)

/-- The `ft_value_t` behind a pointer: two words of 64 bits, or one on a 32-bit system. -/
def jsValue (value : ℕ) : ℕ := M.load (2 * M.platform.pointerSize) value

def ownSlot (address : ℕ) : WalkSlot := ⟨address,address,address + M.platform.pointerSize⟩

def elemPtr (array : ℕ) (elementType : FeatureType) (i : ℕ) : ℕ :=
  M.arrayElement array + elementSize M.platform elementType * i

def elemSlot (array : ℕ) (elementType : FeatureType) (i : ℕ) : WalkSlot :=
  ⟨M.elemPtr array elementType i,M.arrayElement array,M.elemPtr array elementType (M.arraySize array).toNat⟩

/-- The null checks of `pnative` and of the pointer it points to. -/
def guarded (slot : WalkSlot) (body : ℕ → List WalkStep) : List WalkStep :=
  if slot.address = 0 then []
  else .read slot :: if M.word slot.address = 0 then [] else body (M.word slot.address)

mutual

def freeFtValue : FeatureType → WalkSlot → List WalkStep
  | .primitive .anyRef, slot => M.guarded slot (fun value => [.free (M.jsValue value)])
  | .structMap _ members, slot => M.guarded slot (fun structPtr => freeMembers members structPtr)
  | .array elementType, slot =>
    M.guarded slot (fun array => (List.range (M.arraySize array).toNat).flatMap (fun i =>
      freeFtValue elementType (M.elemSlot array elementType i)))
  -- "unreachable for COMPLEX_OPTIONAL in freeFtValue !"
  | .optional .., slot => M.guarded slot (fun _ => [])
  | _, slot => M.guarded slot (fun _ => [])

def freeMembers : List (ObjectMember FeatureType) → ℕ → List WalkStep
  | [], _ => []
  | ⟨_,.optional mtype _,offset⟩ :: members, structPtr =>
    (if mtype.needFree then freeFtValue mtype (M.ownSlot (structPtr + offset)) else []) ++
      freeMembers members structPtr
  | ⟨_,mtype,offset⟩ :: members, structPtr =>
    (if mtype.needFree then freeFtValue mtype (M.ownSlot (structPtr + offset)) else []) ++
      freeMembers members structPtr

end

mutual

def dupFtValue : FeatureType → WalkSlot → List WalkStep
  | .primitive .anyRef, slot => M.guarded slot (fun value => [.dup (M.jsValue value)])
  | .structMap _ members, slot => M.guarded slot (fun structPtr => dupMembers members structPtr)
  | .array elementType, slot =>
    M.guarded slot (fun array => (List.range (M.arraySize array).toNat).flatMap (fun i =>
      dupFtValue elementType (M.elemSlot array elementType i)))
  | .optional .., slot => M.guarded slot (fun _ => [])
  | _, slot => M.guarded slot (fun _ => [])

def dupMembers : List (ObjectMember FeatureType) → ℕ → List WalkStep
  | [], _ => []
  | ⟨_,.optional mtype _,offset⟩ :: members, structPtr =>
    (if mtype.needFree then dupFtValue mtype (M.ownSlot (structPtr + offset)) else []) ++
      dupMembers members structPtr
  | ⟨_,mtype,offset⟩ :: members, structPtr =>
    (if mtype.needFree then dupFtValue mtype (M.ownSlot (structPtr + offset)) else []) ++
      dupMembers members structPtr

end

def pointee (address : ℕ) : Option ℕ :=
  if address = 0 ∨ M.word address = 0 then none else some (M.word address)

mutual

/-- The JS values in the `any` slots below a slot of the type. -/
def anyValues : FeatureType → ℕ → List ℕ
  | .primitive .anyRef, address => (M.pointee address).elim [] (fun value => [M.jsValue value])
  | .structMap _ members, address => (M.pointee address).elim [] (fun structPtr => anyOfMembers members structPtr)
  | .array elementType, address =>
    (M.pointee address).elim [] (fun array => (List.range (M.arraySize array).toNat).flatMap (fun i =>
      anyValues elementType (M.elemPtr array elementType i)))
  | .optional type _, address => anyValues type address
  | _, _ => []

def anyOfMembers : List (ObjectMember FeatureType) → ℕ → List ℕ
  | [], _ => []
  | ⟨_,type,offset⟩ :: members, structPtr => anyValues type (structPtr + offset) ++ anyOfMembers members structPtr

end

/-- What is reached from a slot through struct members and array elements. -/
inductive Reaches : FeatureType → ℕ → FeatureType → ℕ → Prop
  | refl (type : FeatureType) (address : ℕ) : Reaches type address type address
  | member {size address structPtr address' : ℕ} {members : List (ObjectMember FeatureType)}
      {m : ObjectMember FeatureType} {type : FeatureType} (hptr : M.pointee address = some structPtr) (hm : m ∈ members)
      (h : Reaches m.type.realType (structPtr + m.offset) type address') :
      Reaches (.structMap size members) address type address'
  | element {address array i address' : ℕ} {elementType type : FeatureType} (hptr : M.pointee address = some array)
      (hi : i < (M.arraySize array).toNat)
      (h : Reaches elementType (M.elemPtr array elementType i) type address') :
      Reaches (.array elementType) address type address'

end NativeMemory

namespace WalkStep

def retained (steps : List WalkStep) : List ℕ :=
  steps.filterMap (fun | .dup value => some value | _ => none)

def released (steps : List WalkStep) : List ℕ :=
  steps.filterMap (fun | .free value => some value | _ => none)

def counted (counts : ℕ → ℤ) : WalkStep → ℕ → ℤ
  | .read _ => counts
  | .dup value => Function.update counts value (counts value + 1)
  | .free value => Function.update counts value (counts value - 1)

def release : WalkStep → WalkStep
  | .dup value => .free value
  | step => step

section Steps

variable (steps steps' : List WalkStep)

theorem released_release (h : released steps = []) : released (steps.map release) = retained steps := by
  induction steps with
  | nil => rfl
  | cons step steps ih =>
    cases step with
    | read slot => exact ih h
    | dup value => exact congrArg (value :: ·) (ih h)
    | free value => cases h

theorem retained_release : retained (steps.map release) = [] := by
  induction steps with
  | nil => rfl
  | cons step steps ih => cases step <;> exact ih

theorem released_nil {steps : List WalkStep} (h : ∀ step ∈ steps, ∀ value, step ≠ .free value) : released steps = [] := by
  refine List.filterMap_eq_nil_iff.mpr (fun step hmem => ?_)
  cases step with
  | free value => exact absurd rfl (h _ hmem value)
  | read | dup => rfl

theorem read_mem_release {slot : WalkSlot} : .read slot ∈ steps.map release ↔ .read slot ∈ steps := by
  rw [List.mem_map]
  constructor
  · rintro ⟨step,hmem,heq⟩
    cases step with
    | read other => exact heq ▸ hmem
    | dup | free => cases heq
  · exact fun h => ⟨_,h,rfl⟩

/-- A value is counted up as often as it is retained and down as often as it is released. -/
theorem foldl_counted (counts : ℕ → ℤ) (value : ℕ) :
    steps.foldl counted counts value = counts value + (retained steps).count value - (released steps).count value := by
  induction steps generalizing counts with
  | nil => simp [retained,released]
  | cons step steps ih =>
    rw [List.foldl_cons,ih]
    cases step with
    | read slot => rfl
    | dup other =>
      have hretained : retained (.dup other :: steps) = other :: retained steps := rfl
      have hreleased : released (.dup other :: steps) = released steps := rfl
      rw [hretained,hreleased,List.count_cons,counted,Function.update_apply]
      by_cases heq : value = other
      · subst heq
        simp
        omega
      · simp [heq,Ne.symm heq]
    | free other =>
      have hretained : retained (.free other :: steps) = retained steps := rfl
      have hreleased : released (.free other :: steps) = other :: released steps := rfl
      rw [hretained,hreleased,List.count_cons,counted,Function.update_apply]
      by_cases heq : value = other
      · subst heq
        simp
        omega
      · simp [heq,Ne.symm heq]

end Steps

end WalkStep

/-- A value of a type at an address. An array with elements has a block for them. -/
structure NativeValue where
  memory : NativeMemory
  type : FeatureType
  address : ℕ
  hasElements : ∀ t a array, memory.Reaches type address (.array t) a → memory.pointee a = some array →
    0 < memory.arraySize array → memory.arrayElement array ≠ 0

namespace NativeValue

open WalkStep

variable (V : NativeValue)

def dupWalk : List WalkStep := V.memory.dupFtValue V.type (V.memory.ownSlot V.address)

def freeWalk : List WalkStep := V.memory.freeFtValue V.type (V.memory.ownSlot V.address)

/-- Both walks come to every `any` value once, leave its count as it was and read pointers from their slots only. -/
structure WalksRight : Prop where
  retains : (retained V.dupWalk).Perm (V.memory.anyValues V.type V.address)
  releases : (released V.freeWalk).Perm (V.memory.anyValues V.type V.address)
  unchanged : ∀ counts, V.freeWalk.foldl counted (V.dupWalk.foldl counted counts) = counts
  within : ∀ slot, .read slot ∈ V.dupWalk ∨ .read slot ∈ V.freeWalk → slot.Holds V.memory.platform

/-- No `any` value lies behind an optional that is not the type of a struct member. -/
def NoneHidden : Prop :=
  ∀ t v a, V.memory.Reaches V.type V.address (.optional t v) a → V.memory.anyValues t a = []

def WideSlots : Prop :=
  ∀ t a array, V.memory.Reaches V.type V.address (.array t) a → V.memory.pointee a = some array →
    0 < V.memory.arraySize array → V.memory.platform.pointerSize ≤ elementSize V.memory.platform t

end NativeValue

end FeatureRuntime
