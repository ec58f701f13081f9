import FeatureRuntime.BufferViews
import FeatureRuntime.CText
import FeatureRuntime.IntegerConversion
import FeatureRuntime.ProtoWire

/-! The MQTT message codec: the checks of a message object, `encode` into a `Uint8Array` and `decode` out of a buffer. -/
namespace FeatureRuntime
namespace Mqtt

/-- A script value; `other` is a symbol or a BigInt. -/
inductive MqttValue
  | undefined
  | null
  | bool (value : Bool)
  | number (value : JSNumber)
  | string (units : List UInt16)
  | array
  | arrayBuffer (bytes : List UInt8)
  | view (view : BufferView)
  | object (properties : String → MqttValue)
  | other

inductive FtType
  | none
  | undef
  | null
  | array
  | number
  | bool
  | string
  | object
  | buffer
  | typedBuffer
  deriving DecidableEq, Repr

/-- `ft_get_type`. -/
def getType : MqttValue → FtType
  | .undefined => .undef
  | .null => .null
  | .bool _ => .bool
  | .number _ => .number
  | .string _ => .string
  | .array => .array
  | .arrayBuffer _ => .buffer
  | .view _ => .typedBuffer
  | .object _ => .object
  | .other => .none

/-- `ft_obj_get_property`. -/
def getProperty : MqttValue → String → MqttValue
  | .object properties,name => properties name
  | _,_ => .undefined

/-- `toNativeBuffer`: of a typed array it takes the buffer, and not what the array covers of it. -/
def toNativeBuffer : MqttValue → Option (List UInt8)
  | .view view => some view.buffer
  | .arrayBuffer bytes => some bytes
  | _ => none

/-- Strings of the engine as C strings: `JS_ToCString` and `JS_NewString`. -/
structure TextCodec where
  toCString : List UInt16 → List UInt8
  newString : List UInt8 → List UInt16
  newString_toCString : ∀ units, 0 ∉ units → newString (toCString units) = units
  noNul_toCString : ∀ units, 0 ∉ units → 0 ∉ toCString units
  noNul_newString : ∀ bytes, 0 ∉ bytes → 0 ∉ newString bytes

def TextCodec.text (T : TextCodec) (units : List UInt16) : CText := ⟨cstr (T.toCString units ++ [0]),notMem_cstr _⟩

/-- `MqttMessage`: in proto3 a string that was not received is empty. -/
structure MqttMessage where
  ts : BitVec 64
  id : CText
  carId : CText
  packageName : CText
  action : CText
  data : List UInt8

/-- `mqtt_message__pack` and `mqtt_message__unpack`; the format goes up to two gigabytes. -/
structure WireCodec where
  pack : MqttMessage → List UInt8
  unpack : List UInt8 → Option MqttMessage
  unpack_pack : ∀ m, (pack m).length < 2 ^ 31 → unpack (pack m) = some m

inductive MessageType
  | string
  | int64
  | bytes
  deriving DecidableEq, Repr

structure FieldInfo where
  name : String
  type : MessageType

def fields : List FieldInfo :=
  [⟨"ts",.int64⟩,⟨"id",.string⟩,⟨"carId",.string⟩,⟨"packageName",.string⟩,⟨"action",.string⟩,⟨"data",.bytes⟩]

def verifyType (value : MqttValue) : MessageType → Bool
  | .int64 => getType value = .number
  | .string => getType value = .string
  | .bytes => getType value = .typedBuffer

def verify (obj : MqttValue) : Bool :=
  getType obj = .object && fields.all fun f => verifyType (getProperty obj f.name) f.type

namespace MqttMessage

def emptyText : CText := ⟨[],List.not_mem_nil⟩

/-- `MQTT_MESSAGE__INIT`. -/
def init : MqttMessage := ⟨0,emptyText,emptyText,emptyText,emptyText,[]⟩

def getString (m : MqttMessage) (name : String) : Option CText :=
  if name = "id" then some m.id
  else if name = "carId" then some m.carId
  else if name = "packageName" then some m.packageName
  else if name = "action" then some m.action
  else none

def setString (m : MqttMessage) (name : String) (text : CText) : Option MqttMessage :=
  if name = "id" then some { m with id := text }
  else if name = "carId" then some { m with carId := text }
  else if name = "packageName" then some { m with packageName := text }
  else if name = "action" then some { m with action := text }
  else none

end MqttMessage

section Calls

variable (T : TextCodec) (W : WireCodec)

/-- `ft_to_int64`: the timestamp stays 0 when the conversion fails. -/
def toInt64 : MqttValue → ℤ
  | .number number => number.toInt64
  | _ => 0

/-- `ft_to_string`; a null pointer is packed as the empty string. -/
def toText : MqttValue → CText
  | .string units => T.text units
  | _ => MqttMessage.emptyText

/-- One turn of the loop of `encode`. -/
def encodeField (obj : MqttValue) (m : MqttMessage) (f : FieldInfo) : Option MqttMessage :=
  let value := getProperty obj f.name
  match f.type with
  | .int64 => some { m with ts := BitVec.ofInt 64 (toInt64 value) }
  | .string => m.setString f.name (toText T value)
  | .bytes => some { m with data := (toNativeBuffer value).getD [] }

/-- `system_mqttmessage_wrap_encode`; `none` is a crash. The packed size goes through an `int` into `malloc`, so that the
packing of two gigabytes writes to a null pointer or behind a shorter block. -/
def encode : Option MqttValue → Option MqttValue
  | none => some .undefined
  | some obj =>
    if verify obj = false then some .undefined
    else (fields.foldlM (encodeField T obj) MqttMessage.init).bind fun m =>
      if (W.pack m).length < 2 ^ 31 then some (.view (.whole (W.pack m))) else none

/-- One turn of the loop of `decode`. -/
def decodeField (m : MqttMessage) (properties : String → MqttValue) (f : FieldInfo) : Option (String → MqttValue) :=
  match f.type with
  | .int64 => some (Function.update properties f.name (.number (.ofInt64 m.ts.toInt)))
  | .string => (m.getString f.name).map fun text =>
      Function.update properties f.name (.string (T.newString text.bytes))
  | .bytes => some (Function.update properties f.name (.view (.whole m.data)))

/-- `system_mqttmessage_wrap_decode`. -/
def decode : Option MqttValue → Option MqttValue
  | none => some .undefined
  | some buffer =>
    match toNativeBuffer buffer with
    | none => some .undefined
    | some bytes =>
      match W.unpack bytes with
      | none => some .undefined
      | some m => (fields.foldlM (decodeField T m) fun _ => .undefined).map .object

end Calls
end Mqtt
end FeatureRuntime
