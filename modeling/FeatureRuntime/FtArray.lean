import FeatureRuntime.Description
import FeatureRuntime.MachineInt
import FeatureRuntime.SlotBuffer
import FeatureRuntime.Transition

/-! `FtArray` and its operations, with the signed and `size_t` arithmetic of their index
computations, and the list every sequence of operations computes. -/
namespace FeatureRuntime

open SlotBuffer

/-- The number of `size_t` values. -/
def Platform.addressSpace (P : Platform) : ℕ := 2 ^ (8 * P.pointerSize)

theorem Platform.le_addressSpace (P : Platform) : 4294967296 ≤ P.addressSpace := by
  unfold addressSpace
  rcases P.supported with h | h <;> simp [h]

/-- `FtArray`; a slot of `element` is a word of the element type, `none` when indeterminate. -/
structure FtArray where
  size : ℤ
  capacity : ℤ
  element : List (Option ℕ)
  deriving DecidableEq

/-- What an operation returns, the array it leaves, and the element pointers it passed to
`FeatureInstanceDupValue` and to `FeatureFreeValue`. -/
structure ArrayCall where
  ret : ℤ
  array : FtArray
  dups : List ℕ := []
  frees : List ℕ := []
  deriving DecidableEq

/-- `getElementType` refuses element types without a size. -/
structure ElementType (P : Platform) where
  type : FeatureType
  sized : 0 < getValueSize P type

namespace ElementType

variable {P : Platform} (T : ElementType P)

def elemSize : ℕ := getValueSize P T.type

theorem elemSize_pos : 0 < T.elemSize := T.sized

def isReference : Bool := T.type.isReference

end ElementType

/-- `FeatureInstanceDupValue` on the address after a word: the reference count of a header that
ends there is the upper half of a 64-bit word, or a 32-bit word as a whole. -/
def bumpRefCount (P : Platform) (word : ℕ) : ℕ :=
  if P.pointerSize = 8 then word % 4294967296 + 4294967296 * ((word / 4294967296 + 1) % 4294967296)
  else (word + 1) % 4294967296

/-- The words at `data` after `FeatureInstanceDupValue` was called on the address of every one of
them: each call but the first falls on the preceding word. -/
def dupSlots (P : Platform) (data : List ℕ) : List ℕ :=
  data.dropLast.map (bumpRefCount P) ++ data.drop (data.length - 1)

namespace FtArray

variable {P : Platform} (T : ElementType P)

/-- `FeatureCreateArray`. -/
def create (capacity : ℕ) : FtArray :=
  { size := 0
    capacity := toInt capacity
    element := List.replicate (sizeT P.addressSpace (capacity * T.elemSize) / T.elemSize) (some 0) }

/-- `FeatureArrayCopy`. -/
def copy (data : List ℕ) : Option ArrayCall := do
  let element ← memcpy T.elemSize (create T data.length).element 0 (data.map some)
    (sizeT P.addressSpace (data.length * T.elemSize))
  return { ret := 0
           array := ⟨toInt data.length,toInt data.length,element⟩
           dups := if T.isReference then data else [] }

/-- `FeatureArrayResize`; `realloc` tells whether `realloc` or the fallback allocates. -/
def resize (arr : FtArray) (newSize : ℕ) (realloc : Bool) : Option FtArray :=
  if newSize ≤ sizeT P.addressSpace arr.capacity then some arr
  else do
    let slots := sizeT P.addressSpace (newSize * T.elemSize) / T.elemSize
    let element ←
      if realloc then some (fit arr.element slots)
      else do
        let used ← signed (arr.size * T.elemSize)
        memcpy T.elemSize (List.replicate slots none) 0 arr.element (sizeT P.addressSpace used)
    return { arr with element := element, capacity := toInt newSize }

/-- The capacity check of `FeatureArrayAppend`. -/
def reserveOne (arr : FtArray) (realloc : Bool) : Option FtArray := do
  let next ← signed (arr.size + 1)
  if next > arr.capacity then
    let grown ← signed (arr.size + 5)
    resize T arr (sizeT P.addressSpace grown) realloc
  else some arr

/-- `FeatureArrayAppend`. -/
def append (arr : FtArray) (data : ℕ) (realloc : Bool) : Option ArrayCall := do
  let arr ← reserveOne T arr realloc
  let dst ← signed (arr.size * T.elemSize)
  let element ← memcpy T.elemSize arr.element (sizeT P.addressSpace dst) [some data] T.elemSize
  return { ret := 0
           array := { arr with element := element, size := arr.size + 1 }
           dups := if T.isReference then [data] else [] }

/-- The capacity check of `FeatureArrayInsertAfter`; the sum is a `size_t`. -/
def reserve (arr : FtArray) (count : ℕ) (realloc : Bool) : Option FtArray :=
  let total := sizeT P.addressSpace (arr.size + count)
  if toInt total > arr.capacity then resize T arr (sizeT P.addressSpace (total + 5)) realloc
  else some arr

/-- The element buffer after `data` was put behind the position `start`. -/
def place (arr : FtArray) (start : ℤ) (data : List (Option ℕ)) : Option (List (Option ℕ)) :=
  let bytes := sizeT P.addressSpace (data.length * T.elemSize)
  if start = arr.size - 1 then do
    let dst ← signed (T.elemSize * arr.size)
    memcpy T.elemSize arr.element (sizeT P.addressSpace dst) data bytes
  else do
    let src ← signed (T.elemSize * (start + 1))
    let behind ← signed (arr.size - start)
    let moved ← signed (T.elemSize * (behind - 1))
    let element ← memmove T.elemSize arr.element
      (sizeT P.addressSpace (T.elemSize * sizeT P.addressSpace (start + data.length + 1)))
      (sizeT P.addressSpace src) (sizeT P.addressSpace moved)
    memcpy T.elemSize element (sizeT P.addressSpace src) data bytes

/-- `FeatureArrayInsertAfter`. For a reference type it dups the slot addresses in `data`. -/
def insertAfter (arr : FtArray) (start : ℤ) (data : List ℕ) (realloc : Bool) : Option ArrayCall :=
  if start ≥ arr.size then some { ret := 0, array := arr }
  else do
    let arr ← reserve T arr data.length realloc
    let data := if T.isReference then dupSlots P data else data
    let element ← place T arr start (data.map some)
    return { ret := toInt data.length
             array := { arr with element := element, size := toInt (arr.size + data.length) } }

/-- `FeatureArrayInsertBefore`. -/
def insertBefore (arr : FtArray) (start : ℤ) (data : List ℕ) (realloc : Bool) : Option ArrayCall :=
  if start < 0 then some { ret := 0, array := arr }
  else insertAfter T arr (start - 1) data realloc

/-- The words of `n` slots, read one by one. -/
def readSlots (element : List (Option ℕ)) (start n : ℕ) : Option (List ℕ) :=
  if n ≤ (element.drop start).length then ((element.drop start).take n).mapM id else none

/-- The element buffer after the slots behind `start + delSize` moved down to `start`. -/
def closeGap (arr : FtArray) (start : ℤ) (stop leftCount : ℕ) : Option (List (Option ℕ)) :=
  if leftCount = 0 then some arr.element
  else do
    let dst ← signed (start * T.elemSize)
    memmove T.elemSize arr.element (sizeT P.addressSpace dst)
      (sizeT P.addressSpace (stop * T.elemSize)) (sizeT P.addressSpace (leftCount * T.elemSize))

/-- The element pointers the loop over `[start, stop)` reads; it compares `size_t` values. -/
def freedRange (arr : FtArray) (start : ℤ) (stop : ℕ) : Option (List ℕ) :=
  if T.isReference then
    readSlots arr.element (sizeT P.addressSpace start) (stop - sizeT P.addressSpace start)
  else some []

/-- `FeatureArrayRemove` behind its test of `del_size`. -/
def removeSlots (arr : FtArray) (start behind : ℤ) (delSize : ℕ) : Option ArrayCall := do
  let frees ← freedRange T arr start (sizeT P.addressSpace (start + delSize))
  let element ← closeGap T arr start (sizeT P.addressSpace (start + delSize))
    (sizeT P.addressSpace (behind - delSize))
  return { ret := toInt delSize
           array := { arr with element := element, size := toInt (arr.size - delSize) }
           frees := frees }

/-- `FeatureArrayRemove`. `del_size` is a `size_t`, so a negative minimum becomes huge. -/
def remove (arr : FtArray) (start : ℤ) (count : ℕ) : Option ArrayCall := do
  let behind ← signed (arr.size - start)
  if sizeT P.addressSpace (min (toInt count) behind) = 0 then some { ret := 0, array := arr }
  else removeSlots T arr start behind (sizeT P.addressSpace (min (toInt count) behind))

/-- `FeatureArrayClear`. -/
def clear (arr : FtArray) : Option ArrayCall := do
  let frees ←
    if T.isReference ∧ 0 < arr.size then do
      let _ ← signed (T.elemSize * (arr.size - 1))
      readSlots arr.element 0 arr.size.toNat
    else some []
  return { ret := arr.size, array := { arr with size := 0 }, frees := frees }

end FtArray

inductive ArrayOp
  | append (data : ℕ) (realloc : Bool)
  | insertAfter (start : ℤ) (data : List ℕ) (realloc : Bool)
  | insertBefore (start : ℤ) (data : List ℕ) (realloc : Bool)
  | remove (start : ℤ) (count : ℕ)
  | clear
  | resize (newSize : ℕ) (realloc : Bool)
  deriving DecidableEq

namespace ArrayOp

/-- The operation on the array; `none` is undefined behaviour. -/
def call {P : Platform} (T : ElementType P) (arr : FtArray) : ArrayOp → Option ArrayCall
  | .append data realloc => arr.append T data realloc
  | .insertAfter start data realloc => arr.insertAfter T start data realloc
  | .insertBefore start data realloc => arr.insertBefore T start data realloc
  | .remove start count => arr.remove T start count
  | .clear => arr.clear T
  | .resize newSize realloc => (arr.resize T newSize realloc).map ({ ret := 0, array := · })

/-- The list operation. A gap position counts as inside the list from before the first element
up to behind the last one. -/
def onList (xs : List ℕ) : ArrayOp → List ℕ
  | .append data _ => xs ++ [data]
  | .insertAfter start data _ =>
    if -1 ≤ start ∧ start < xs.length then
      xs.take (start + 1).toNat ++ data ++ xs.drop (start + 1).toNat
    else xs
  | .insertBefore start data _ =>
    if 0 ≤ start ∧ start ≤ xs.length then
      xs.take start.toNat ++ data ++ xs.drop start.toNat
    else xs
  | .remove start count =>
    if 0 ≤ start ∧ start < xs.length then xs.take start.toNat ++ xs.drop (start.toNat + count)
    else xs
  | .clear => []
  | .resize .. => xs

end ArrayOp
end FeatureRuntime
