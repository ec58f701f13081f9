import FeatureRuntime.CallbackManager
import FeatureRuntime.Description
import FeatureRuntime.FreeLog
import FeatureRuntime.JsValue
import FeatureRuntime.WriteLog

/-! Native values as the converter builds them, with the blocks they point to. Every block of a
conversion is referenced by the one slot that holds its pointer, so a value is the tree below it. -/
namespace FeatureRuntime

/-- A field of a protobuf message in memory. Strings and bytes lie in buffers of their own, or in
the static object that the descriptor names as the default. -/
inductive ProtoValue
  | int (value : ℤ)
  | bool (value : Bool)
  | float (value : JSNumber)
  | double (value : JSNumber)
  | string (id : ℕ) (text : String)
  | staticString (text : String)
  | bytes (id : ℕ) (data : List UInt8)
  | staticBytes (data : List UInt8)
  | repeated (id : ℕ) (items : List (Option ProtoValue))
  /-- A message with its values by field offset and its oneof cases by quantifier offset. -/
  | message (id : ℕ) (fields : List (FieldDescriptor MessageDescriptor))
      (values : List (ℕ × ProtoValue)) (cases : List (ℕ × ℕ))

/-- The bytes of a C string that is no text in UTF-8. -/
structure IllFormed where
  bytes : List UInt8
  not_utf8 : ∀ text : String, text.toUTF8.toList ≠ bytes

/-- The content of a slot that is not all zero. Numbers of blocks come first. -/
inductive Native
  | bool (value : Bool)
  | int (value : ℤ)
  | float (value : JSNumber)
  | double (value : JSNumber)
  | callback (id : ℤ)
  /-- The instance behind an interface value. -/
  | instance (handle : ℕ)
  /-- A static object that a descriptor names as default. -/
  | constant (ptr : ℕ)
  | string (id : ℕ) (text : String)
  | illFormed (id : ℕ) (text : IllFormed)
  | anyRef (id : ℕ) (value : JSValue)
  | jsonObj (id : ℕ) (text : String)
  | arrayBuffer (id : ℕ) (target : JSValue)
  | protobuf (message : ProtoValue)
  | structMap (id : ℕ) (members : List (ObjectMember FeatureType)) (memory : List (Write Native))
  /-- An `FtArray` block, its element buffer and `_size`. -/
  | array (id : ℕ) (elementType : FeatureType) (size : ℤ) (buffer : Option ℕ)
      (elements : List (Option Native))

/-- What a conversion reports beside its result. -/
inductive ConvertEvent
  /-- A `FEATURE_CHECK` failed. -/
  | checkFailed
  | nullDereference
  /-- A write through a pointer to no block of the conversion. -/
  | wildWrite
  /-- The slot of an element lies outside of the block of the elements. -/
  | overrun
  /-- An interface slot was filled and the conversion of it returned true. -/
  | interfaceStored (desc : ℕ) (handle : Option ℕ)
  deriving DecidableEq

/-- What conversions change: the allocator, the callbacks of the instance, and the reports. -/
structure ConvertState where
  nextBlock : ℕ := 0
  freed : List FreeEvent := []
  callbacks : CallbackManager JSValue := {}
  events : List ConvertEvent := []

namespace ConvertState

def alloc (st : ConvertState) : ConvertState := { st with nextBlock := st.nextBlock + 1 }

def free (st : ConvertState) (log : List FreeEvent) : ConvertState :=
  { st with freed := st.freed ++ log }

def report (st : ConvertState) (event : ConvertEvent) : ConvertState :=
  { st with events := st.events ++ [event] }

/-- `FEATURE_CHECK`: a failing check is reported and execution goes on. -/
def check (st : ConvertState) (holds : Bool) : ConvertState :=
  if holds then st else st.report .checkFailed

/-- The slot of an element is handed on, also where it does not fit into the block. -/
def place (st : ConvertState) (fits : Bool) : ConvertState :=
  if fits then st else st.report .overrun

@[simp] theorem alloc_nextBlock (st : ConvertState) : st.alloc.nextBlock = st.nextBlock + 1 := rfl
@[simp] theorem alloc_freed (st : ConvertState) : st.alloc.freed = st.freed := rfl
@[simp] theorem alloc_events (st : ConvertState) : st.alloc.events = st.events := rfl
@[simp] theorem alloc_callbacks (st : ConvertState) : st.alloc.callbacks = st.callbacks := rfl
@[simp] theorem free_nextBlock (st : ConvertState) (log : List FreeEvent) :
    (st.free log).nextBlock = st.nextBlock := rfl
@[simp] theorem free_freed (st : ConvertState) (log : List FreeEvent) :
    (st.free log).freed = st.freed ++ log := rfl
@[simp] theorem free_events (st : ConvertState) (log : List FreeEvent) :
    (st.free log).events = st.events := rfl
@[simp] theorem report_nextBlock (st : ConvertState) (event : ConvertEvent) :
    (st.report event).nextBlock = st.nextBlock := rfl
@[simp] theorem report_freed (st : ConvertState) (event : ConvertEvent) :
    (st.report event).freed = st.freed := rfl
@[simp] theorem report_events (st : ConvertState) (event : ConvertEvent) :
    (st.report event).events = st.events ++ [event] := rfl

@[simp] theorem check_nextBlock (st : ConvertState) (holds : Bool) :
    (st.check holds).nextBlock = st.nextBlock := by
  cases holds <;> rfl

@[simp] theorem check_freed (st : ConvertState) (holds : Bool) :
    (st.check holds).freed = st.freed := by
  cases holds <;> rfl

@[simp] theorem place_nextBlock (st : ConvertState) (fits : Bool) :
    (st.place fits).nextBlock = st.nextBlock := by
  cases fits <;> rfl

@[simp] theorem place_freed (st : ConvertState) (fits : Bool) :
    (st.place fits).freed = st.freed := by
  cases fits <;> rfl

end ConvertState

def isOneOfSkipped (field : FieldDescriptor MessageDescriptor) (cases : List (ℕ × ℕ)) : Bool :=
  field.isOneof && (cases.lookup field.quantifierOffset).getD 0 != field.id

/-- `releaseField` on every field that is set, given what is freed for the value at each offset. -/
def releaseFields (fields : List (FieldDescriptor MessageDescriptor)) (cases : List (ℕ × ℕ))
    (freed : List (ℕ × List FreeEvent)) : List FreeEvent :=
  fields.flatMap (fun field =>
    if isOneOfSkipped field cases then [] else (freed.lookup field.offset).getD [])

/-- `proto_utils::release` on a message with one reference, whose fields free `fields`. Its last
line gives the reference back through `FeatureFreeValue`, which releases the fields once more; the
line then finds the count at zero, so that it wraps and nothing more happens. -/
def releaseMessage (id : ℕ) (fields : List FreeEvent) : List FreeEvent :=
  fields ++ (fields ++ [.block id])

mutual

/-- `releaseField`. The array of a repeated field is passed to `free` although it lies behind the
header of its block. -/
def ProtoValue.release : ProtoValue → List FreeEvent
  | .int _ | .bool _ | .float _ | .double _ => []
  | .string id _ => [.block id]
  | .staticString _ => [.invalid]
  | .bytes id data => if data.isEmpty then [] else [.block id]
  | .staticBytes data => if data.isEmpty then [] else [.invalid]
  | .repeated _ items => releaseItems items ++ [.invalid]
  | .message id fields values cases =>
    releaseMessage id (releaseFields fields cases (releaseValues values))

def releaseItems : List (Option ProtoValue) → List FreeEvent
  | [] => []
  | none :: items => releaseItems items
  | some item :: items => item.release ++ releaseItems items

def releaseValues : List (ℕ × ProtoValue) → List (ℕ × List FreeEvent)
  | [] => []
  | (offset,value) :: values => (offset,value.release) :: releaseValues values

end

/-- The frees of a message whose last reference `FeatureFreeValue` gives back. -/
def ProtoValue.freeMessage : ProtoValue → List FreeEvent
  | .message id fields values cases =>
    releaseFields fields cases (releaseValues values) ++ [.block id]
  | _ => [.invalid]

/-- What `FeatureFreeValue` does with the pointer in a slot: nothing for null. -/
def freeSlot : Slot (List FreeEvent) → List FreeEvent
  | .zero => []
  | .value log => log
  | .torn => [.invalid]

mutual

/-- `FeatureFreeValue` on a block with one reference: the type in its header says which of its
slots hold references. Anything that is not the pointer of a block is an invalid free. -/
def Native.freeValue (P : Platform) : Native → List FreeEvent
  | .bool _ | .int _ | .float _ | .double _ | .callback _ | .instance _ | .constant _ => [.invalid]
  | .string id _ | .illFormed id _ | .anyRef id _ | .jsonObj id _ | .arrayBuffer id _ => [.block id]
  | .protobuf message => message.freeMessage
  | .structMap id members memory =>
    members.flatMap (fun member =>
      if member.type.realType.needFree then
        freeSlot (load (freeMemory P memory) member.offset P.pointerSize)
      else []) ++ [.block id]
  | .array id elementType size buffer elements =>
    (if elementType.needFree then ((freeElements P elements).take size.toNat).flatten else []) ++
      (buffer.toList.map .block ++ [.block id])

def freeMemory (P : Platform) : List (Write Native) → List (Write (List FreeEvent))
  | [] => []
  | ⟨offset,width,none⟩ :: memory => ⟨offset,width,none⟩ :: freeMemory P memory
  | ⟨offset,width,some value⟩ :: memory =>
    ⟨offset,width,some (value.freeValue P)⟩ :: freeMemory P memory

def freeElements (P : Platform) : List (Option Native) → List (List FreeEvent)
  | [] => []
  | none :: elements => [] :: freeElements P elements
  | some element :: elements => element.freeValue P :: freeElements P elements

end

theorem freeMemory_eq (P : Platform) (memory : List (Write Native)) :
    freeMemory P memory = memory.map (Write.map (Native.freeValue P)) := by
  induction memory with
  | nil => rfl
  | cons w memory ih =>
    obtain ⟨offset,width,value⟩ := w
    cases value <;> simp [freeMemory,Write.map,ih]

theorem freeElements_eq (P : Platform) (elements : List (Option Native)) :
    freeElements P elements = elements.map (fun e => (e.map (Native.freeValue P)).getD []) := by
  induction elements with
  | nil => rfl
  | cons e elements ih => cases e <;> simp [freeElements,ih]

theorem releaseValues_eq (values : List (ℕ × ProtoValue)) :
    releaseValues values = values.map (fun entry => (entry.1,entry.2.release)) := by
  induction values with
  | nil => rfl
  | cons entry values ih => simp [releaseValues,ih]

end FeatureRuntime
