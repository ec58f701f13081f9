import FeatureRuntime.ProtoOwnership
import FeatureRuntime.ScriptObjects

/-! `proto_reflection::fromNative`: JS objects from protobuf messages, and when two messages have the
same fields. -/
namespace FeatureRuntime

section Descriptors

variable {α : Type}

mutual

def MessageDescriptor.fold (message : List (FieldDescriptor MessageDescriptor × α) → List ℕ → α)
    (missing : α) : MessageDescriptor → α
  | .mk fields sorted => message (foldFields message missing fields) sorted

def foldFields (message : List (FieldDescriptor MessageDescriptor × α) → List ℕ → α) (missing : α) :
    List (FieldDescriptor MessageDescriptor) → List (FieldDescriptor MessageDescriptor × α)
  | [] => []
  | ⟨name,id,label,type,quantifierOffset,offset,descriptor,isOneof,defaultValue⟩ :: fields =>
    (⟨name,id,label,type,quantifierOffset,offset,descriptor,isOneof,defaultValue⟩,
      foldNested message missing descriptor) :: foldFields message missing fields

def foldNested (message : List (FieldDescriptor MessageDescriptor × α) → List ℕ → α) (missing : α) :
    Option MessageDescriptor → α
  | none => missing
  | some descriptor => descriptor.fold message missing

end

def nestedOf (f : MessageDescriptor → α) (missing : α) (field : FieldDescriptor MessageDescriptor) :
    α :=
  match field.descriptor with
  | none => missing
  | some descriptor => f descriptor

theorem nestedOf_some {f : MessageDescriptor → α} {missing : α}
    {field : FieldDescriptor MessageDescriptor} {descriptor : MessageDescriptor}
    (h : field.descriptor = some descriptor) : nestedOf f missing field = f descriptor := by
  rw [nestedOf,h]

theorem nestedOf_none {f : MessageDescriptor → α} {missing : α}
    {field : FieldDescriptor MessageDescriptor} (h : field.descriptor = none) :
    nestedOf f missing field = missing := by
  rw [nestedOf,h]

theorem MessageDescriptor.fold_mk (message : List (FieldDescriptor MessageDescriptor × α) → List ℕ → α) (missing : α)
    (fields : List (FieldDescriptor MessageDescriptor)) (sorted : List ℕ) :
    MessageDescriptor.fold message missing (.mk fields sorted) = message (fields.map (fun field =>
        (field,nestedOf (MessageDescriptor.fold message missing) missing field))) sorted := by
  have hfields : ∀ fields : List (FieldDescriptor MessageDescriptor),
      foldFields message missing fields = fields.map (fun field =>
        (field,nestedOf (MessageDescriptor.fold message missing) missing field)) := by
    intro fields
    induction fields with
    | nil => rfl
    | cons field fields ih =>
      obtain ⟨name,id,label,type,quantifierOffset,offset,descriptor,isOneof,defaultValue⟩ := field
      rw [foldFields,List.map_cons,ih]
      cases descriptor <;> rfl
  rw [MessageDescriptor.fold,hfields]

/-- Induction on descriptors, with the hypothesis for the message type of every field. -/
@[elab_as_elim]
theorem MessageDescriptor.induction {P : MessageDescriptor → Prop}
    (mk : ∀ fields sorted, (∀ field ∈ fields, ∀ descriptor, field.descriptor = some descriptor →
      P descriptor) → P (.mk fields sorted)) : ∀ descriptor, P descriptor
  | .mk fields sorted => mk fields sorted (fun field _ descriptor _ =>
      MessageDescriptor.induction mk descriptor)
termination_by descriptor => sizeOf descriptor
decreasing_by
  have hfield := List.sizeOf_lt_of_mem ‹field ∈ fields›
  have hdescriptor : sizeOf descriptor < sizeOf field := by
    obtain ⟨name,id,label,type,quantifierOffset,offset,nested,isOneof,defaultValue⟩ := field
    have hnested : nested = some descriptor := ‹_›
    subst hnested
    simp
    omega
  simp only [MessageDescriptor.mk.sizeOf_spec]
  omega

end Descriptors

section Contents

def intContent : Option ProtoValue → ℤ
  | some (.int value) => value
  | _ => 0

def boolContent : Option ProtoValue → Bool
  | some (.bool value) => value
  | _ => false

def numberContent : Option ProtoValue → JSNumber
  | some (.float value) | some (.double value) => value
  | _ => .float64 0

def textContent : Option ProtoValue → Option String
  | some (.string _ text) | some (.staticString text) => some (cString text)
  | _ => none

def bytesContent : Option ProtoValue → List UInt8
  | some (.bytes _ data) | some (.staticBytes data) => data
  | _ => []

def itemsContent : Option ProtoValue → List (Option ProtoValue)
  | some (.repeated _ items) => items
  | _ => []

end Contents

section FromNative

/-- The outcome of converting one field or item. -/
structure FieldTarget where
  ok : Bool
  value : JSValue
  heap : ScriptHeap

abbrev MessageTarget := Option ProtoValue → ScriptHeap → FieldTarget

/-- `fromProtoField` on a single value. -/
def fromProtoValue (type : ProtobufType) (nested : MessageTarget) (content : Option ProtoValue)
    (heap : ScriptHeap) : FieldTarget :=
  match type with
  | .message => nested content heap
  | .int32 | .sint32 | .sfixed32 | .uint32 | .fixed32 | .enum =>
    ⟨true,.number (.int (toInt (intContent content))),heap⟩
  | .int64 | .sint64 | .sfixed64 | .uint64 | .fixed64 =>
    ⟨true,.number (.ofInt64 ((intContent content).bmod (2 ^ 64))),heap⟩
  | .float | .double => ⟨true,.number (numberContent content),heap⟩
  | .bool => ⟨true,.bool (boolContent content),heap⟩
  | .string =>
    match textContent content with
    | some text => ⟨true,.string text,heap⟩
    -- `JS_NewString` takes the length of a null pointer
    | none => ⟨false,.undefined,heap⟩
  | .bytes => ⟨true,.object heap.length,heap ++ [.arrayBuffer (bytesContent content)]⟩

def fromProtoItems (convert : Option ProtoValue → ScriptHeap → FieldTarget) (array : ℕ) :
    ℕ → List (Option ProtoValue) → ScriptHeap → Bool × ScriptHeap
  | _, [], heap => (true,heap)
  | index, item :: items, heap =>
    let r := convert item heap
    if r.ok then
      fromProtoItems convert array (index + 1) items (r.heap.setPropertyUint32 array index r.value)
    else (false,r.heap)

/-- The items that the loop finds in strides of `getProtoTypeSize`: in an array of booleans it steps from
byte to byte, and each takes four. -/
def stridedItems (type : ProtobufType) (items : List (Option ProtoValue)) : List (Option ProtoValue) :=
  if type = .bool then (items.flatMap (fun item => [item,none,none,none])).take items.length else items

/-- `fromProtoField`: a repeated field without items stays undefined. -/
def fromProtoField (label : ProtobufLabel) (type : ProtobufType) (nested : MessageTarget)
    (content : Option ProtoValue) (heap : ScriptHeap) : FieldTarget :=
  match label with
  | .repeated =>
    let items := itemsContent content
    if items.length ≠ 0 then
      let r := fromProtoItems (fromProtoValue type nested) heap.length 0 (stridedItems type items) (heap ++ [.array []])
      ⟨r.1,.object heap.length,r.2⟩
    else ⟨true,.undefined,heap⟩
  | _ => fromProtoValue type nested content heap

abbrev FieldSource := FieldDescriptor MessageDescriptor × MessageTarget

/-- The loop of `fromNative` over the fields. -/
def fromProtoFields (object : ℕ) (values : List (ℕ × ProtoValue)) (cases : List (ℕ × ℕ)) :
    List FieldSource → ScriptHeap → Bool × ScriptHeap
  | [], heap => (true,heap)
  | (field,nested) :: sources, heap =>
    if isOneOfSkipped field cases then fromProtoFields object values cases sources heap
    else
      let r := fromProtoField field.label field.type nested (values.lookup field.offset) heap
      if r.ok then
        fromProtoFields object values cases sources (r.heap.setPropertyStr object field.name r.value)
      else (false,r.heap)

/-- A new object, filled by `fromNative`. -/
def readMessage (check : Option ProtoValue → Bool) (sources : List FieldSource) :
    MessageTarget := fun message heap =>
  let object := heap.length
  let heap : ScriptHeap := heap ++ [.plain []]
  match message with
  | some (.message _ _ values cases) =>
    if check message then
      let r := fromProtoFields object values cases sources heap
      ⟨r.1,.object object,r.2⟩
    else ⟨false,.object object,heap⟩
  | _ => ⟨false,.object object,heap⟩

/-- `fromNative` into a new object, given `protobuf_c_message_check`, which refuses null. -/
def protoFromNative (check : Option ProtoValue → Bool) (descriptor : MessageDescriptor) :
    MessageTarget :=
  descriptor.fold (fun sources _ => readMessage check sources)
    (fun _ heap => ⟨false,.undefined,heap⟩)

end FromNative

section Messages

def ProtobufType.wrap (type : ProtobufType) (value : ℤ) : ℤ :=
  match type with
  | .uint32 | .fixed32 => value % 2 ^ 32
  | .int64 | .sint64 | .sfixed64 => value.bmod (2 ^ 64)
  | .uint64 | .fixed64 => value % 2 ^ 64
  | _ => toInt value

def FieldDescriptor.hasFlag (field : FieldDescriptor MessageDescriptor) : Bool :=
  field.label = .optional && !field.isOneof && field.type != .string && field.type != .message

def SameValue (type : ProtobufType) (nested : Option ProtoValue → Option ProtoValue → Prop)
    (a b : Option ProtoValue) : Prop :=
  match type with
  | .message => nested a b
  | .float | .double => numberContent a = numberContent b
  | .bool => boolContent a = boolContent b
  | .string => textContent a = textContent b
  | .bytes => bytesContent a = bytesContent b
  | type => type.wrap (intContent a) = type.wrap (intContent b)

def SameField (field : FieldDescriptor MessageDescriptor)
    (nested : Option ProtoValue → Option ProtoValue → Prop) (a b : Option ProtoValue) : Prop :=
  if field.label = .repeated then
    List.Forall₂ (SameValue field.type nested) (itemsContent a) (itemsContent b)
  else SameValue field.type nested a b

/-- Two messages agree in a field: the selected member of its oneof, its presence flag, and, unless
another member is selected, its content. -/
structure AgreeIn (field : FieldDescriptor MessageDescriptor)
    (nested : Option ProtoValue → Option ProtoValue → Prop)
    (values : List (ℕ × ProtoValue)) (cases : List (ℕ × ℕ))
    (values' : List (ℕ × ProtoValue)) (cases' : List (ℕ × ℕ)) : Prop where
  selected : field.isOneof = true →
    (cases.lookup field.quantifierOffset).getD 0 = (cases'.lookup field.quantifierOffset).getD 0
  flag : field.hasFlag = true → boolContent (values.lookup field.quantifierOffset) =
    boolContent (values'.lookup field.quantifierOffset)
  content : isOneOfSkipped field cases = false →
    SameField field nested (values.lookup field.offset) (values'.lookup field.offset)

def sameFields (fields : List (FieldDescriptor MessageDescriptor ×
    (Option ProtoValue → Option ProtoValue → Prop))) (a b : Option ProtoValue) : Prop :=
  match a, b with
  | none, none => True
  | some (.message _ _ values cases), some (.message _ _ values' cases') =>
    ∀ entry ∈ fields, AgreeIn entry.1 entry.2 values cases values' cases'
  | _, _ => False

def SameMessage : MessageDescriptor → Option ProtoValue → Option ProtoValue → Prop :=
  MessageDescriptor.fold (fun fields _ => sameFields fields) (fun _ _ => False)

def ProtobufType.InRange (type : ProtobufType) (value : ℤ) : Prop :=
  match type with
  | .uint32 | .fixed32 => 0 ≤ value ∧ value < 2 ^ 32
  | .int64 | .sint64 | .sfixed64 => -2 ^ 63 ≤ value ∧ value < 2 ^ 63
  | .uint64 | .fixed64 => 0 ≤ value ∧ value < 2 ^ 64
  | _ => -2 ^ 31 ≤ value ∧ value < 2 ^ 31

def Shaped (type : ProtobufType) (nested : ProtoValue → Prop) : Option ProtoValue → Prop
  | none => True
  | some content =>
    match type, content with
    | .message, message => nested message
    | .float, .float _ | .double, .double _ | .bool, .bool _ => True
    | .string, .string .. | .string, .staticString _ => True
    | .bytes, .bytes .. | .bytes, .staticBytes _ => True
    | .float, _ | .double, _ | .bool, _ | .string, _ | .bytes, _ => False
    | type, .int value => type.InRange value
    | _, _ => False

def ProtobufType.isPointer (type : ProtobufType) : Bool := type = .string || type = .message

structure FieldShaped (fields : List (FieldDescriptor MessageDescriptor))
    (field : FieldDescriptor MessageDescriptor) (nested : ProtoValue → Prop)
    (values : List (ℕ × ProtoValue)) (cases : List (ℕ × ℕ)) : Prop where
  /-- The case word of a oneof is zero or names a member. -/
  selected : field.isOneof = true → (cases.lookup field.quantifierOffset).getD 0 ≠ 0 →
    ∃ member ∈ fields, member.isOneof = true ∧
      member.quantifierOffset = field.quantifierOffset ∧ isOneOfSkipped member cases = false
  single : isOneOfSkipped field cases = false → field.label ≠ .repeated →
    Shaped field.type nested (values.lookup field.offset)
  required : isOneOfSkipped field cases = false → field.label = .required →
    field.type.isPointer = true → (values.lookup field.offset).isSome = true
  repeated : isOneOfSkipped field cases = false → field.label = .repeated →
    ∀ item ∈ itemsContent (values.lookup field.offset),
      Shaped field.type nested item ∧ (field.type.isPointer = true → item.isSome = true)

def shapedFields (fields : List (FieldDescriptor MessageDescriptor × (ProtoValue → Prop))) : ProtoValue → Prop
  | .message _ _ values cases =>
    ∀ entry ∈ fields, FieldShaped (fields.map (·.1)) entry.1 entry.2 values cases
  | _ => False

/-- The messages of a descriptor, as `protobuf_c_message_check` accepts them. -/
def ShapedMessage : MessageDescriptor → ProtoValue → Prop :=
  MessageDescriptor.fold (fun fields _ => shapedFields fields) (fun _ => False)

end Messages

section Restorable

/-- A single content comes back, into a field that holds `old` before. -/
def RestorableValue (type : ProtobufType) (nested : ProtoValue → Prop) (content old : Option ProtoValue) : Prop :=
  match type with
  | .message => ∃ message, content = some message ∧ nested message
  | .int64 | .sint64 | .sfixed64 | .uint64 | .fixed64 =>
    JSNumber.isExact ((intContent content).bmod (2 ^ 64)) = true
  | .string => (textContent content).isSome = true
  -- an empty buffer is not stored
  | .bytes => bytesContent content = [] → bytesContent old = []
  | _ => True

/-- The content of a field comes back, into a field that holds `old` before. -/
def RestorableField (P : Platform) (field : FieldDescriptor MessageDescriptor)
    (nested : ProtoValue → Prop) (content old : Option ProtoValue) : Prop :=
  if field.label = .repeated then
    itemsContent content ≠ [] ∧ field.type ≠ .bool ∧
    getProtoTypeSize P field.type * (itemsContent content).length < 2 ^ 32 ∧
    ∀ item ∈ itemsContent content, RestorableValue field.type nested item none
  else RestorableValue field.type nested content old

def UnsetField (field : FieldDescriptor MessageDescriptor) (content : Option ProtoValue) : Prop :=
  field.isOneof = false ∧
  if field.label = .repeated then itemsContent content = []
  else
    match field.type with
    | .message => False
    | .string => (textContent content).isSome = true ∧ textContent content = textContent field.initial
    | type => SameValue type (fun _ _ => False) content field.initial

structure RestorableIn (P : Platform) (field : FieldDescriptor MessageDescriptor)
    (nested : ProtoValue → Prop) (values : List (ℕ × ProtoValue)) : Prop where
  flag : field.hasFlag = true → boolContent (values.lookup field.quantifierOffset) = false
  content : if field.name = "__proto__" then UnsetField field (values.lookup field.offset)
    else RestorableField P field nested (values.lookup field.offset) field.initial

def restorableFields (P : Platform)
    (fields : List (FieldDescriptor MessageDescriptor × (ProtoValue → Prop))) : ProtoValue → Prop
  | .message _ _ values cases => ∀ entry ∈ fields, isOneOfSkipped entry.1 cases = false →
    RestorableIn P entry.1 entry.2 values
  | _ => False

def RestorableMessage (P : Platform) : MessageDescriptor → ProtoValue → Prop :=
  MessageDescriptor.fold (fun fields _ => restorableFields P fields) (fun _ => False)

end Restorable

section Generated

/-- The fields as the protobuf compiler lays them out, with the table that sorts them by name. -/
structure GeneratedFields (fields : List (FieldDescriptor MessageDescriptor)) (sorted : List ℕ) :
    Prop extends FieldLayout fields where
  /-- The members of a oneof share their union. -/
  union : fields.Pairwise (fun f g => f.isOneof = true → g.isOneof = true →
    f.quantifierOffset = g.quantifierOffset → f.offset = g.offset)
  single : ∀ f ∈ fields, f.isOneof = true → f.label ≠ .repeated
  flags : ∀ f ∈ fields, f.hasFlag = true → ∀ g ∈ fields, g.offset ≠ f.quantifierOffset
  described : ∀ f ∈ fields, f.type = .message → f.descriptor.isSome = true
  table : sorted.Perm (List.range fields.length)
  ascending : (sorted.map (fun i => (fields[i]?).map (·.name))).Pairwise (fun a b =>
    ∃ m n, a = some m ∧ b = some n ∧ m < n)

/-- A descriptor as the protobuf compiler emits it, down to its sub-messages. -/
inductive GeneratedMessage : MessageDescriptor → Prop
  | mk {fields : List (FieldDescriptor MessageDescriptor)} {sorted : List ℕ}
      (layout : GeneratedFields fields sorted)
      (nested : ∀ field ∈ fields, ∀ descriptor, field.descriptor = some descriptor → GeneratedMessage descriptor) :
      GeneratedMessage (.mk fields sorted)

end Generated

end FeatureRuntime
