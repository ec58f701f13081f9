import FeatureRuntime.Description
import FeatureRuntime.Reclaim

/-! Trees of counted blocks: `FeatureDupValue`, and the walk of `FeatureFreeValue` over the types in
the headers of the blocks. -/
namespace FeatureRuntime

open RefCount

/-- The memory type of an `FTObjHeader`, with the type in front of it or the descriptor the message
behind it starts with. -/
inductive BlockHeader
  | refCountOnly
  | featureType (type : FeatureType)
  | protobuf (desc : MessageDescriptor)

structure Payload where
  /-- The pointer at a byte offset. -/
  pointer : ℕ → ℕ := fun _ => 0
  /-- The word at the quantifier offset of a field: the selected id, or the number of items. -/
  quantifier : ℕ → ℕ := fun _ => 0
  /-- The length of the `ProtobufCBinaryData` at a byte offset. -/
  length : ℕ → ℕ := fun _ => 0
  /-- The pointers in the array of the repeated field at a byte offset. -/
  items : ℕ → List ℕ := fun _ => []
  /-- `_size` and the slots of `_element`. -/
  size : ℤ := 0
  element : List ℕ := []
  fits : size ≤ element.length := by decide

theorem Payload.fits_nil : (0 : ℤ) ≤ ([] : List ℕ).length := by decide

structure ValueBlock where
  header : BlockHeader
  payload : Payload

/-- `negative` records that a count of zero was decremented. -/
structure ValueHeap where
  heap : Heap ValueBlock
  negative : Bool := false

def FeatureType.ownedPointers (payload : Payload) : FeatureType → List ℕ
  | .structMap _ members =>
    members.flatMap (fun m =>
      if m.type.realType.needFree then [payload.pointer m.offset] else [])
  | .array elementType =>
    if elementType.needFree then payload.element.take payload.size.toNat else []
  | _ => []

/-- The types that `getProtoTypeSize` marks as pointers. -/
def ProtobufType.isPtr : ProtobufType → Bool
  | .string | .bytes | .message => true
  | _ => false

def Payload.isOneOfSkipped (payload : Payload) (field : FieldDescriptor MessageDescriptor) : Bool :=
  field.isOneof && payload.quantifier field.quantifierOffset != field.id

def Payload.messagePointers (payload : Payload) (fields : List (FieldDescriptor MessageDescriptor)) : List ℕ :=
  fields.flatMap (fun field =>
    if payload.isOneOfSkipped field then []
    else if field.label = .repeated then
      payload.pointer field.offset :: if field.type.isPtr then payload.items field.offset else []
    else if field.type.isPtr then [payload.pointer field.offset] else [])

def ValueBlock.refs (b : ValueBlock) : List ℕ :=
  match b.header with
  | .refCountOnly => []
  | .featureType type => type.ownedPointers b.payload
  | .protobuf (.mk fields _) => b.payload.messagePointers fields

namespace ValueHeap

/-- `free` on the start of a block. -/
def freeBlock (s : ValueHeap) (ptr : ℕ) : Option ValueHeap :=
  match s.heap[ptr]? with
  | some (some _) => some { s with heap := s.heap.set ptr none }
  | _ => none

/-- `free` on a pointer that is the payload of a block or memory from elsewhere. -/
def freeRaw (s : ValueHeap) (ptr : ℕ) : Option ValueHeap :=
  if ptr ≠ 0 ∧ ptr < s.heap.length then none else some s

/-- `releaseField` on a single value. -/
def releaseItem (freeValue release : ℕ → ValueHeap → Option ValueHeap) (type : ProtobufType)
    (length ptr : ℕ) (s : ValueHeap) : Option ValueHeap :=
  match type with
  | .string => if ptr ≠ 0 then freeValue ptr s else some s
  | .bytes => if length ≠ 0 ∧ ptr ≠ 0 then freeValue ptr s else some s
  | .message => release ptr s
  | _ => some s

/-- `releaseField` behind the check of the oneof; the lengths of repeated bytes are not zero. -/
def releaseField (freeValue release : ℕ → ValueHeap → Option ValueHeap) (payload : Payload)
    (field : FieldDescriptor MessageDescriptor) (s : ValueHeap) : Option ValueHeap :=
  if payload.isOneOfSkipped field then some s
  else if field.label = .repeated then
    let array := payload.pointer field.offset
    let items := payload.items field.offset
    let released :=
      if items ≠ [] ∧ array ≠ 0 ∧ field.type.isPtr = true then
        items.foldlM (fun s ptr => releaseItem freeValue release field.type 1 ptr s) s
      else some s
    released.bind (·.freeRaw array)
  else
    releaseItem freeValue release field.type (payload.length field.offset) (payload.pointer field.offset) s

mutual

/-- `FeatureFreeValue`. -/
def freeValue : ℕ → ℕ → ValueHeap → Option ValueHeap
  | 0, _, _ => none
  | fuel + 1, ptr, s =>
    if ptr = 0 then some s
    else
      match s.heap[ptr]? with
      | some (some block) =>
        let desired := (block.rc + 4294967295) % 4294967296
        let s : ValueHeap :=
          { heap := s.heap.set ptr (some { block with rc := desired })
            negative := s.negative || block.rc = 0 }
        if desired > 0 then some s
        else do
          let s ←
            match block.body.header with
            | .refCountOnly => some s
            | .featureType (.optional ..) | .featureType (.protobuf _) => none
            -- `destroy()`, and the block once more
            | .featureType (.primitive .arrayBuffer) => freeValue fuel ptr s
            | .featureType type =>
              (type.ownedPointers block.body.payload).foldlM (fun s q => freeValue fuel q s) s
            | .protobuf _ => release fuel ptr s
          s.freeBlock ptr
      | _ => none

/-- `proto_utils::release`. -/
def release : ℕ → ℕ → ValueHeap → Option ValueHeap
  | 0, _, _ => none
  | fuel + 1, ptr, s =>
    if ptr = 0 then some s
    else
      match s.heap[ptr]? with
      | some (some ⟨_,⟨.protobuf (.mk fields _),payload⟩⟩) => do
        let s ← fields.foldlM
          (fun s field => releaseField (freeValue fuel) (release fuel) payload field s) s
        freeValue fuel ptr s
      | _ => none

end

end ValueHeap

/-- `FeatureDupValue`: null for null and for a count of zero. -/
def featureDupValue (heap : Heap ValueBlock) (ptr : ℕ) : Option (ℕ × Heap ValueBlock) :=
  if ptr = 0 then some (0,heap)
  else
    match heap[ptr]? with
    | some (some block) =>
      if block.rc = 0 then some (0,heap)
      else some (ptr,heap.set ptr (some { block with rc := (block.rc + 1) % 4294967296 }))
    | _ => none

def featureInstanceDupValue (heap : Heap ValueBlock) (ptr : ℕ) : Option (ℕ × Heap ValueBlock) :=
  match heap[ptr]? with
  | some (some block) =>
    some (ptr,heap.set ptr (some { block with rc := (block.rc + 1) % 4294967296 }))
  | _ => none

end FeatureRuntime
