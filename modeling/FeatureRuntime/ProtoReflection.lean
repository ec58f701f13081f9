import FeatureRuntime.Native

/-! `proto_reflection::toNative`: building a protobuf message from the own properties of a JS
object. -/
namespace FeatureRuntime

/-- `binarySearchField` between `low` and `high`, in at most `fuel` probes. The result is the
position of the field in the descriptor. -/
def binarySearch (name : String) (names : List String) (sorted : List ℕ) : ℕ → ℤ → ℤ → Option ℕ
  | 0, _, _ => none
  | fuel + 1, low, high =>
    if low ≤ high then
      let mid := (low + high) / 2
      match sorted[mid.toNat]? with
      | none => none
      | some index =>
        match names[index]? with
        | none => none
        | some probe =>
          if probe = name then some index
          else if probe < name then binarySearch name names sorted fuel (mid + 1) high
          else binarySearch name names sorted fuel low (mid - 1)
    else none

/-- `binarySearchField`; the interval shrinks with every probe. -/
def binarySearchField (name : String) (fields : List (FieldDescriptor MessageDescriptor))
    (sorted : List ℕ) : Option ℕ :=
  binarySearch name (fields.map (·.name)) sorted (fields.length + 1) 0 (fields.length - 1)

/-- The fields of a message under construction. -/
structure MessageState where
  values : List (ℕ × ProtoValue) := []
  cases : List (ℕ × ℕ) := []

/-- What `protobuf_c_message_init` stores in a field: the static default of a string or of bytes. The
union of a oneof is zero. -/
def FieldDescriptor.initial (field : FieldDescriptor MessageDescriptor) : Option ProtoValue :=
  if field.label = .repeated ∨ field.isOneof then none
  else
    match field.type, field.defaultValue with
    | .string, some text => some (.staticString text)
    | .bytes, some text => some (.staticBytes text.toUTF8.toList)
    | _, _ => none

/-- `protobuf_c_message_init`. -/
def initValues (fields : List (FieldDescriptor MessageDescriptor)) : List (ℕ × ProtoValue) :=
  (fields.filterMap (fun field => field.initial.map (fun value => (field.offset,value)))).reverse

/-- The outcome of converting one field or item: its content afterwards. -/
structure ProtoResult where
  ok : Bool
  content : Option ProtoValue
  state : ConvertState

abbrev MessageConverter := JSValue → ConvertState → ProtoResult

/-- `toProtoField` on a single value. -/
def toProtoValue (ctx : JSContext) (type : ProtobufType) (nested : MessageConverter)
    (value : JSValue) (old : Option ProtoValue) (st : ConvertState) : ProtoResult :=
  let number := (ctx.toNumber value).getD .nan
  match type with
  | .message => nested value st
  | .int32 | .sint32 | .sfixed32 | .uint32 | .fixed32 | .enum =>
    ⟨true,some (.int number.toInt32),st⟩
  | .int64 | .sint64 | .sfixed64 | .uint64 | .fixed64 => ⟨true,some (.int number.toInt64),st⟩
  | .float => ⟨true,some (.float number),st⟩
  | .double => ⟨true,some (.double number),st⟩
  | .bool => ⟨true,some (.bool (ctx.toBool value)),st⟩
  | .string =>
    match ctx.toCString value with
    | some text => ⟨true,some (.string st.nextBlock (cString text)),st.alloc⟩
    | none => ⟨false,old,st.report .nullDereference⟩
  | .bytes =>
    match value with
    | .string text => ⟨true,some (.bytes st.nextBlock text.toUTF8.toList),st.alloc⟩
    | .object id =>
      match ctx.arrayBufferData id with
      | some (b :: data) => ⟨true,some (.bytes st.nextBlock (b :: data)),st.alloc⟩
      | _ => ⟨true,old,st⟩
    | _ => ⟨true,old,st⟩

def toProtoItems (convert : JSValue → ConvertState → ProtoResult) :
    List JSValue → ConvertState → Bool × List (Option ProtoValue) × ConvertState
  | [], st => (true,[],st)
  | value :: values, st =>
    let r := convert value st
    if r.ok then
      let rest := toProtoItems convert values r.state
      (rest.1,r.content :: rest.2.1,rest.2.2)
    else (false,[r.content],r.state)

/-- `JS_GetPropertyUint32` for every index below the length. -/
def arrayItems (ctx : JSContext) (array : JSValue) : List JSValue :=
  match array with
  | .object id => (List.range (ctx.arraySize array)).map (ctx.getPropertyUint32 id)
  | _ => []

def getProtoTypeSize (P : Platform) : ProtobufType → ℕ
  | .int32 | .sint32 | .sfixed32 | .uint32 | .fixed32 | .float | .enum => 4
  | .int64 | .sint64 | .sfixed64 | .uint64 | .fixed64 | .double => 8
  | .bool => 1
  | .string | .message => P.pointerSize
  | .bytes => 2 * P.pointerSize

/-- What an item takes in the array of a message; a `protobuf_c_boolean` is an int. -/
def itemWidth (P : Platform) : ProtobufType → ℕ
  | .bool => 4
  | type => getProtoTypeSize P type

/-- The items of a repeated field are stored one after the other in a buffer whose size is a 32-bit
product; the array of the message has to lie inside it. -/
def ConvertState.storeItems (st : ConvertState) (itemSize width stored length : ℕ) : ConvertState :=
  if width * stored ≤ itemSize * length % 2 ^ 32 then st else st.report .wildWrite

def toProtoField (P : Platform) (ctx : JSContext) (label : ProtobufLabel) (type : ProtobufType)
    (nested : MessageConverter) (value : JSValue) (old : Option ProtoValue) (st : ConvertState) :
    ProtoResult :=
  match label with
  | .required =>
    if value = .exception then ⟨false,old,st⟩ else toProtoValue ctx type nested value old st
  | .repeated =>
    if ctx.isArray value then
      let items := arrayItems ctx value
      let r := toProtoItems (fun item st => toProtoValue ctx type nested item none st) items st.alloc
      ⟨r.1,some (.repeated st.nextBlock r.2.1),r.2.2.storeItems (getProtoTypeSize P type) (itemWidth P type) r.2.1.length items.length⟩
    else ⟨false,old,st⟩
  | _ => toProtoValue ctx type nested value old st

def MessageState.store (ms : MessageState) (offset : ℕ) (content : Option ProtoValue) :
    MessageState :=
  match content with
  | some value => { ms with values := (offset,value) :: ms.values }
  | none => { ms with values := ms.values.filter (fun entry => entry.1 ≠ offset) }

/-- Stores `field.id` in the case word of a oneof; `none` when the word is already set. -/
def MessageState.selectCase (ms : MessageState) (field : FieldDescriptor MessageDescriptor) :
    Option MessageState :=
  if field.isOneof then
    if (ms.cases.lookup field.quantifierOffset).getD 0 = 0 then
      some { ms with cases := (field.quantifierOffset,field.id) :: ms.cases }
    else none
  else some ms

abbrev FieldConverter :=
  FieldDescriptor MessageDescriptor × (JSValue → Option ProtoValue → ConvertState → ProtoResult)

/-- The loop of `toNative` over the own properties. -/
def fillMessage (converters : List FieldConverter) (sorted : List ℕ) :
    List (String × JSValue) → MessageState → ConvertState → Bool × MessageState × ConvertState
  | [], ms, st => (true,ms,st)
  | (name,value) :: props, ms, st =>
    match (binarySearchField name (converters.map (·.1)) sorted).bind (converters[·]?) with
    | none => (false,ms,st)
    | some (field,convert) =>
      match ms.selectCase field with
      | none => (false,ms,st)
      | some ms =>
        let r := convert value (ms.values.lookup field.offset) st
        let ms := ms.store field.offset r.content
        if r.ok then fillMessage converters sorted props ms r.state else (false,ms,r.state)

/-- `toNative`: the message block is created first and released when a property is refused. A value
that is no object has no properties. -/
def buildMessage (ctx : JSContext) (converters : List FieldConverter) (sorted : List ℕ)
    (value : JSValue) (st : ConvertState) : ProtoResult :=
  let fields := converters.map (·.1)
  let props := match value with
    | .object id => ctx.ownProperties id
    | _ => []
  let r := fillMessage converters sorted props { values := initValues fields } st.alloc
  let message := ProtoValue.message st.nextBlock fields r.2.1.values r.2.1.cases
  if r.1 then ⟨true,some message,r.2.2⟩ else ⟨false,none,r.2.2.free message.release⟩

mutual

def protoToNative (P : Platform) (ctx : JSContext) : MessageDescriptor → MessageConverter
  | .mk fields sorted => buildMessage ctx (fieldConverters P ctx fields) sorted

def fieldConverters (P : Platform) (ctx : JSContext) : List (FieldDescriptor MessageDescriptor) → List FieldConverter
  | [] => []
  | ⟨name,id,label,type,quantifierOffset,offset,descriptor,isOneof,defaultValue⟩ :: fields =>
    (⟨name,id,label,type,quantifierOffset,offset,descriptor,isOneof,defaultValue⟩,
      toProtoField P ctx label type (nestedConverter P ctx descriptor)) ::
      fieldConverters P ctx fields

def nestedConverter (P : Platform) (ctx : JSContext) : Option MessageDescriptor → MessageConverter
  | none => fun _ st => ⟨false,none,st.report .nullDereference⟩
  | some descriptor => protoToNative P ctx descriptor

end

section StoreItems

variable (st : ConvertState) (itemSize width stored length : ℕ)

@[simp] theorem storeItems_freed : (st.storeItems itemSize width stored length).freed = st.freed := by
  unfold ConvertState.storeItems
  split_ifs <;> rfl

@[simp] theorem storeItems_nextBlock :
    (st.storeItems itemSize width stored length).nextBlock = st.nextBlock := by
  unfold ConvertState.storeItems
  split_ifs <;> rfl

end StoreItems

end FeatureRuntime
