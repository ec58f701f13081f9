import Mathlib.Algebra.GroupWithZero.Nat
import Mathlib.Data.List.Basic
import Mathlib.Data.Int.Notation

/-! Type descriptors of a feature: `FeatureType` with its primitive tags and complex headers,
the flags derived from them, and the size and word-count functions the framework uses. -/
namespace FeatureRuntime

/-- `FeaturePrimitiveType`: the types that are a bare tag. -/
inductive PrimitiveType
  | void | int | int8 | uint8 | int16 | uint16 | int32 | uint32 | int64 | uint64
  | float | double | boolean | string | anyRef | jsonObj | arrayBuffer
  deriving DecidableEq, Repr

/-- `ProtobufCLabel`; `none` marks an element of a repeated field. -/
inductive ProtobufLabel
  | required | optional | repeated | none
  deriving DecidableEq, Repr

/-- `ProtobufCType`. -/
inductive ProtobufType
  | int32 | sint32 | sfixed32 | int64 | sint64 | sfixed64 | uint32 | fixed32 | uint64 | fixed64
  | float | double | bool | enum | string | bytes | message
  deriving DecidableEq, Repr

/-- `ProtobufCFieldDescriptor` over message descriptors `D`. Members of one oneof share the
`quantifierOffset` of their case word and the `offset` of their union. -/
structure FieldDescriptor (D : Type) where
  name : String
  id : ℕ
  label : ProtobufLabel
  type : ProtobufType
  quantifierOffset : ℕ
  offset : ℕ
  descriptor : Option D
  isOneof : Bool
  defaultValue : Option String

/-- `ProtobufCMessageDescriptor`. -/
inductive MessageDescriptor
  | mk (fields : List (FieldDescriptor MessageDescriptor)) (fieldsSortedByName : List ℕ)

/-- The union of an `OptionalType`: one machine word read as a number, a C string or a pointer. -/
structure OptionalValue where
  bits : BitVec 64 := 0
  str : Option String := none
  ptr : ℕ := 0
  deriving DecidableEq, Repr

namespace OptionalValue

def ival (v : OptionalValue) : ℤ := (v.bits.setWidth 32).toInt
def uval (v : OptionalValue) : ℤ := (v.bits.setWidth 32).toNat
def lval (v : OptionalValue) : ℤ := v.bits.toInt
def ulval (v : OptionalValue) : ℤ := v.bits.toNat
def fval (v : OptionalValue) : BitVec 64 := v.bits

end OptionalValue

/-- `ObjectMember`: a named struct member at a byte offset. -/
structure ObjectMember (T : Type) where
  name : String
  type : T
  offset : ℕ

/-- `FeatureType`: a primitive tag or the complex header it points to. Parameter lists end in
`FT_PARAM_REST_END` exactly when `hasRest` is set. -/
inductive FeatureType
  | primitive (type : PrimitiveType)
  | structMap (size : ℕ) (members : List (ObjectMember FeatureType))
  | optional (type : FeatureType) (value : OptionalValue)
  | callback (parameters : List FeatureType) (hasRest : Bool)
  | array (elementType : FeatureType)
  | promise (resolveType : FeatureType)
  | interface (desc : ℕ)
  | protobuf (desc : MessageDescriptor)

/-- Induction on descriptors, with the hypothesis for every member of a struct. -/
@[elab_as_elim]
theorem FeatureType.induction {P : FeatureType → Prop} (primitive : ∀ p, P (.primitive p))
    (structMap : ∀ size members, (∀ m ∈ members, P m.type) → P (.structMap size members))
    (optional : ∀ t v, P t → P (.optional t v))
    (callback : ∀ ps rest, P (.callback ps rest))
    (array : ∀ t, P t → P (.array t))
    (promise : ∀ t, P (.promise t))
    (interface : ∀ d, P (.interface d))
    (protobuf : ∀ d, P (.protobuf d)) : ∀ t, P t
  | .primitive p => primitive p
  | .structMap size members =>
    structMap size members (fun m _ => FeatureType.induction primitive structMap optional callback
      array promise interface protobuf m.type)
  | .optional t v => optional t v (FeatureType.induction primitive structMap optional callback
      array promise interface protobuf t)
  | .callback ps rest => callback ps rest
  | .array t => array t (FeatureType.induction primitive structMap optional callback
      array promise interface protobuf t)
  | .promise t => promise t
  | .interface d => interface d
  | .protobuf d => protobuf d
termination_by t => sizeOf t
decreasing_by
  · have hm := List.sizeOf_lt_of_mem ‹m ∈ members›
    have ht : sizeOf m.type < sizeOf m := by cases m; simp; omega
    simp only [FeatureType.structMap.sizeOf_spec]
    omega
  · simp; omega
  · simp

/-- `CallbackType`: the parameter list a registered callback is invoked with. -/
structure CallbackType where
  parameters : List FeatureType
  hasRest : Bool

/-- `MemberMethod`: parameter list and return type; the stub is the observer of a call. -/
structure MemberMethod where
  parameters : List FeatureType
  hasRest : Bool
  returnType : FeatureType

/-- `sizeof(void*)` of the target: the sources support 32-bit and 64-bit systems. -/
structure Platform where
  pointerSize : ℕ
  supported : pointerSize = 4 ∨ pointerSize = 8

def Platform.bits32 : Platform := ⟨4,.inl rfl⟩
def Platform.bits64 : Platform := ⟨8,.inr rfl⟩

/-- `TypeFlags`: passed by value, managed pointer, or unmanaged pointer. -/
inductive TypeFlag
  | value | pointer | unmanaged
  deriving DecidableEq, Repr

def PrimitiveType.flag : PrimitiveType → TypeFlag
  | .string | .anyRef | .jsonObj | .arrayBuffer => .pointer
  | _ => .value

namespace FeatureType

/-- `FT_GET_REAL_TYPE`: looks through one optional header. -/
def realType : FeatureType → FeatureType
  | .optional t _ => t
  | t => t

/-- The flag bits of `FT_GET_TYPE_ENUM`. -/
def typeFlag : FeatureType → TypeFlag
  | .primitive p => p.flag
  | .structMap .. | .array .. | .protobuf .. => .pointer
  | .optional .. | .callback .. => .value
  | .promise .. | .interface .. => .unmanaged

/-- `FT_GET_FLAG`. -/
def flag (t : FeatureType) : TypeFlag := t.realType.typeFlag

/-- `FT_IS_REFERENCE`: both kinds of pointer carry the pointer bit. -/
def isReference (t : FeatureType) : Bool := t.flag != .value

/-- `FT_NEED_FREE`. -/
def needFree (t : FeatureType) : Bool := t.flag == .pointer

/-- `FT_IS_PROMISE`. -/
def isPromise : FeatureType → Bool
  | .promise _ => true
  | _ => false

/-- `COMPLEX_OPTIONAL` as the outermost header. -/
def isOptional : FeatureType → Bool
  | .optional .. => true
  | _ => false

end FeatureType

/-- The fixed-size cases of `getValueSize`; pointers are handled before. -/
def PrimitiveType.valueSize (P : Platform) : PrimitiveType → ℕ
  | .void => 0
  | .int => 4
  | .int8 | .uint8 => 1
  | .int16 | .uint16 => 2
  | .int32 | .uint32 => 4
  | .int64 | .uint64 => 8
  | .double => 8
  | .float => 4
  | .boolean => 1
  | .string | .anyRef => P.pointerSize
  | .jsonObj | .arrayBuffer => 0

def getValueSize (P : Platform) (featureType : FeatureType) : ℕ :=
  let t := featureType.realType
  if t.isReference then P.pointerSize
  else match t with
    | .primitive p => p.valueSize P
    | .callback .. => 4
    | _ => 0

/-- The number of optional parameters `getParamCount` reports. -/
def optionalCount (parameters : List FeatureType) : ℕ := parameters.countP (·.isOptional)

end FeatureRuntime
