import FeatureRuntime.Description

/-! Types in the JIDL compiler: the nodes after `Resolve`, their JSON form, and the feature type that
the generator writes for them. -/
namespace FeatureRuntime.Jidl

/-- The names of `primary_types` and of the elements of typed arrays. -/
inductive BaseName
  | int | float | double | string | boolean | long | uint | ulong | null | array | object
  | jsonobject | void
  | uint8 | int8 | uint16 | int16 | uint32 | int32 | uint64 | int64
  deriving DecidableEq, Repr

/-- The classes of the definitions that a type name can resolve to. -/
inductive DefineKind
  | callback | struct | classType | interface | enum | userType | message
  deriving DecidableEq, Repr

/-- A type node after `Resolve`. -/
inductive TypeNode
  | primary (name : BaseName)
  | primaryArray (base : BaseName)
  | idArray (name : String)
  | typedArray (base : BaseName)
  | uniqueBuffer
  | define (kind : DefineKind) (name : String)
  deriving DecidableEq, Repr

def TypeNode.isNullable : TypeNode → Bool
  | .define .interface _ | .define .classType _ | .define .struct _ | .define .callback _ => true
  | .primaryArray _ | .idArray _ => true
  | .primary .object | .primary .jsonobject => true
  | _ => false

/-- `referred_type` of a JSON reference. -/
inductive ReferredType
  | callback | struct | classType | interface | enum | userType | id
  deriving DecidableEq, Repr

inductive AstType
  | name (n : BaseName)
  | array (element : AstType)
  | uniqueBuffer
  | reference (referredType : ReferredType) (referredName : String)
  | message (messageName : String)
  | promise (resolveType : AstType)
  deriving DecidableEq, Repr

/-- `GetTypeJson`. -/
def TypeNode.json : TypeNode → AstType
  | .primary n => .name n
  | .primaryArray base | .typedArray base => .array (.name base)
  | .idArray name => .array (.reference .id name)
  | .uniqueBuffer => .uniqueBuffer
  | .define .callback name => .reference .callback name
  | .define .struct name => .reference .struct name
  | .define .classType name => .reference .classType name
  | .define .interface name => .reference .interface name
  | .define .enum name => .reference .enum name
  | .define .userType name => .reference .userType name
  | .define .message name => .message name

/-- What `base_feature_type_map` maps a name to. -/
inductive BaseFeature
  | primitive (type : PrimitiveType)
  | array
  deriving DecidableEq, Repr

def baseFeatureTypeMap : BaseName → Option BaseFeature
  | .int | .int32 => some (.primitive .int)
  | .uint | .uint32 => some (.primitive .uint32)
  | .long | .int64 => some (.primitive .int64)
  | .ulong | .uint64 => some (.primitive .uint64)
  | .float => some (.primitive .float)
  | .double => some (.primitive .double)
  | .boolean => some (.primitive .boolean)
  | .string => some (.primitive .string)
  | .uint8 => some (.primitive .uint8)
  | .int8 => some (.primitive .int8)
  | .uint16 => some (.primitive .uint16)
  | .int16 => some (.primitive .int16)
  | .void => some (.primitive .void)
  | .object => some (.primitive .anyRef)
  | .jsonobject => some (.primitive .jsonObj)
  | .array => some .array
  | .null => none

/-- The `ft_info` of a type: the enumerator or the emitted object it names. -/
inductive FtInfo
  | base (type : PrimitiveType)
  | array (element : FtInfo)
  | callback (name : String)
  | struct (name : String)
  | interface (name : String)
  | message (name : String)
  /-- `FT_INT` marked complex, as which an enum is written. -/
  | complexInt
  deriving DecidableEq, Repr

def FtInfo.isComplex : FtInfo → Bool
  | .base _ => false
  | _ => true

structure NameSets where
  callbackIdSet : List String
  structNameSet : List String
  interfaceNameSet : List String
  deriving DecidableEq, Repr

variable (names : NameSets)

/-- `_GenReferredFeatureInfo`; without a `type` in the info the next use of it fails. -/
def genReferredFeatureInfo (referredType : ReferredType) (referredName : String) : Option FtInfo :=
  match referredType with
  | .callback => if referredName ∈ names.callbackIdSet then some (.callback referredName) else none
  | .struct => if referredName ∈ names.structNameSet then some (.struct referredName) else none
  | .interface =>
    if referredName ∈ names.interfaceNameSet then some (.interface referredName) else none
  | .id =>
    if referredName ∈ names.callbackIdSet then some (.callback referredName)
    else if referredName ∈ names.structNameSet then some (.struct referredName)
    else if referredName ∈ names.interfaceNameSet then some (.interface referredName)
    else none
  | .enum => some .complexInt
  | .classType | .userType => none

/-- `GenerateFeatureInfo`; `none` is an exception. -/
def generateFeatureInfo : AstType → Option FtInfo
  | .name n =>
    match baseFeatureTypeMap n with
    | some (.primitive type) => some (.base type)
    | some .array => some (.array (.base .anyRef))
    | none => none
  | .array element => (generateFeatureInfo element).map .array
  | .reference referredType referredName => genReferredFeatureInfo names referredType referredName
  | .message messageName => some (.message messageName)
  | .uniqueBuffer | .promise _ => none

/-- The emitted objects that the infos of a module name. -/
structure Descriptors where
  callback : String → CallbackType
  struct : String → ℕ × List (ObjectMember FeatureType)
  interface : String → ℕ
  message : String → MessageDescriptor

def FtInfo.featureType (d : Descriptors) : FtInfo → Option FeatureType
  | .base type => some (.primitive type)
  | .array element => (element.featureType d).map .array
  | .callback name => some (.callback (d.callback name).parameters (d.callback name).hasRest)
  | .struct name => some (.structMap (d.struct name).1 (d.struct name).2)
  | .interface name => some (.interface (d.interface name))
  | .message name => some (.protobuf (d.message name))
  | .complexInt => none

theorem FtInfo.isOptional_eq_false {d : Descriptors} {info : FtInfo} {type : FeatureType}
    (h : info.featureType d = some type) : type.isOptional = false := by
  cases info with
  | array element =>
    obtain ⟨inner,-,rfl⟩ := Option.map_eq_some_iff.mp h
    rfl
  | complexInt => cases h
  | _ =>
    cases h
    rfl

end FeatureRuntime.Jidl
