import FeatureRuntime.Native
import FeatureRuntime.RefCount

/-! `convertValueToTarget`: JS values from native ones, with the references that the conversion owns on the way.
The fields of a protobuf message are those of `ProtoTarget`. -/
namespace FeatureRuntime

open RefCount

/-- A `JSValue` as it is owned: a counted block of the engine, or a value without a count. -/
inductive EngineValue
  | plain (value : JSValue)
  | block (ptr : ℕ)
  deriving DecidableEq

inductive EngineNode
  | string (text : String)
  | object (properties : List (String × EngineValue))
  | array (elements : List EngineValue)
  /-- An object of another kind, with the blocks it holds. -/
  | other (held : List ℕ)

namespace EngineValue

def null : EngineValue := .plain .null

def refs : EngineValue → List ℕ
  | .plain _ => []
  | .block ptr => [ptr]

/-- The value behind an `ft_value_t`. -/
def ofTarget : JSValue → EngineValue
  | .object id => .block id
  | value => .plain value

end EngineValue

def EngineNode.refs : EngineNode → List ℕ
  | .string _ => []
  | .object properties => properties.flatMap (fun p => p.2.refs)
  | .array elements => elements.flatMap EngineValue.refs
  | .other held => held

/-- The heap of the engine. A fault is the use of a value that was never written, or of a block that
is gone. -/
structure EngineState where
  heap : Heap EngineNode
  fault : Bool := false

structure TargetEnv where
  platform : Platform
  /-- `JS_NewInt64`. -/
  newInt64 : ℤ → JSNumber
  /-- `JS_NewString` on bytes that are no UTF-8: it puts U+FFFD in the place of what it cannot decode. -/
  newString : List UInt8 → String
  /-- `JS_ParseJSON` succeeds. -/
  parseJson : String → Bool
  /-- `target_` of an initialized instance; `none` for one that is no native interface. -/
  interfaceTarget : ℕ → Option ℕ

namespace EngineState

def fail (s : EngineState) : EngineState := { s with fault := true }

def create (s : EngineState) (node : EngineNode) : EngineValue × EngineState :=
  (.block (alloc s.heap node).1,{ s with heap := (alloc s.heap node).2 })

/-- `JS_DupValue`. -/
def dupValue (s : EngineState) : EngineValue → EngineState
  | .plain _ => s
  | .block ptr =>
    match dup s.heap ptr with
    | some heap => { s with heap := heap }
    | none => s.fail

/-- `value_translator::freeValue` on a variable; `none` was never written. -/
def freeValue (s : EngineState) : Option EngineValue → EngineState
  | none => s.fail
  | some (.plain _) => s
  | some (.block ptr) =>
    match freeAll EngineNode.refs s.heap [ptr] with
    | some heap => { s with heap := heap }
    | none => s.fail

/-- `setStructField`: the object takes over the field, and gives back an earlier one of the name. -/
def setStructField (s : EngineState) (target : ℕ) (name : String) (field : Option EngineValue) :
    EngineState :=
  match field, s.heap[target]? with
  | some value, some (some ⟨rc,.object properties⟩) =>
    let rest := properties.filter (fun p => p.1 ≠ name)
    let s : EngineState :=
      { s with heap := s.heap.set target (some ⟨rc,.object (rest ++ [(name,value)])⟩) }
    (properties.filter (fun p => p.1 = name)).foldl (fun s p => s.freeValue (some p.2)) s
  | _, _ => s.fail

/-- `arraySet` at the index after the last element. -/
def arraySet (s : EngineState) (target : ℕ) (element : Option EngineValue) : EngineState :=
  match element, s.heap[target]? with
  | some value, some (some ⟨rc,.array elements⟩) =>
    { s with heap := s.heap.set target (some ⟨rc,.array (elements ++ [value])⟩) }
  | _, _ => s.fail

end EngineState

section Leaves

def intAt : Slot Native → ℤ
  | .value (.int value) | .value (.callback value) => value
  | _ => 0

def boolAt : Slot Native → Bool
  | .value (.bool value) => value
  | _ => false

def floatAt : Slot Native → JSNumber
  | .value (.float value) | .value (.double value) => value
  | _ => .float64 0

/-- `JS_NewUint32`: a double above the small integers. -/
def newUint32 (value : ℤ) : JSNumber :=
  if value ≤ 2147483647 then .int value
  else .float64 (BitVec.ofNat 64 (1054 * 2 ^ 52 + (value.toNat - 2 ^ 31) * 2 ^ 21))

/-- `value_translator::toTarget` for the numeric types and booleans. -/
def toTarget (E : TargetEnv) (type : PrimitiveType) (native : Slot Native) : JSValue :=
  match type with
  | .boolean => .bool (boolAt native)
  | .uint8 | .uint16 | .uint32 => .number (newUint32 (intAt native))
  | .int64 => .number (E.newInt64 (intAt native))
  | .uint64 => .bigInt (intAt native)
  | .float | .double => .number (floatAt native)
  | _ => .number (.int (intAt native))

end Leaves

/-- The outcome of a conversion: its return value, and the variable it was to write. -/
structure Targeted where
  ok : Bool
  target : Option EngineValue
  state : EngineState

namespace EngineState

def wrote (s : EngineState) (value : JSValue) : Targeted := ⟨true,some (.plain value),s⟩

def wroteNew (s : EngineState) (node : EngineNode) : Targeted :=
  ⟨true,some (s.create node).1,(s.create node).2⟩

def wroteDup (s : EngineState) (value : EngineValue) : Targeted :=
  ⟨true,some value,s.dupValue value⟩

end EngineState

/-- `convertValueToTarget` on a primitive type. -/
def convertPrimitiveToTarget (E : TargetEnv) (type : PrimitiveType) (native : Slot Native)
    (target : Option EngineValue) (s : EngineState) : Targeted :=
  match type with
  | .void => ⟨false,target,s⟩
  | .string =>
    match native with
    | .value (.string _ text) => s.wroteNew (.string (cString text))
    | .value (.illFormed _ text) => s.wroteNew (.string (cString (E.newString text.bytes)))
    | _ => s.wroteNew (.string "")
  | .anyRef =>
    match native with
    | .value (.anyRef _ value) => s.wroteDup (.ofTarget value)
    | _ => s.wrote .null
  | .jsonObj =>
    match native with
    | .value (.jsonObj _ text) =>
      -- a text that does not parse is only logged
      if E.parseJson text then s.wroteNew (.other []) else ⟨true,target,s⟩
    | _ => s.wrote .null
  | .arrayBuffer =>
    match native with
    | .value (.arrayBuffer _ value) => s.wroteDup (.ofTarget value)
    | _ => s.wrote .null
  | type => s.wrote (toTarget E type native)

/-- The bytes that a conversion accesses in a slot: those of the type below the optional headers. -/
def accessSize (P : Platform) : FeatureType → ℕ
  | .optional type _ => accessSize P type
  | type => getValueSize P type

def convertElementsToTarget (convert : Slot Native → Option EngineValue → EngineState → Targeted)
    (array : ℕ) : List (Option Native) → EngineState → Bool × EngineState
  | [], s => (true,s)
  | element :: elements, s =>
    let r := convert (.ofOption element) none s
    if r.ok then convertElementsToTarget convert array elements (r.state.arraySet array r.target)
    else (false,(r.state.freeValue r.target).freeValue (some (.block array)))

mutual

/-- `convertValueToTarget` into a variable with the given content. -/
def convertValueToTarget (E : TargetEnv) : FeatureType → Slot Native → Option EngineValue → EngineState → Targeted
  | .primitive type, native, target, s => convertPrimitiveToTarget E type native target s
  | .structMap _ members, native, _, s =>
    let new := s.create (.object [])
    match native with
    | .value (.structMap _ _ memory) =>
      let r := convertMembersToTarget E members memory (alloc s.heap (.object [])).1 new.2
      ⟨r.1,some new.1,r.2⟩
    | _ => ⟨true,some .null,new.2.freeValue (some new.1)⟩
  | .optional type _, native, target, s =>
    let r := convertValueToTarget E type native target s
    if r.ok then r else ⟨false,r.target,r.state.freeValue r.target⟩
  | .callback .., native, _, s => s.wrote (.number (.int (intAt native)))
  | .array elementType, native, _, s =>
    match native with
    | .value (.array _ _ size _ elements) =>
      let new := s.create (.array [])
      let r := convertElementsToTarget (convertValueToTarget E elementType)
        (alloc s.heap (.array [])).1 (elements.take size.toNat) new.2
      ⟨r.1,some new.1,r.2⟩
    | _ => s.wrote .null
  | .promise _, _, target, s => ⟨false,target,s⟩
  | .interface _, native, target, s =>
    match native with
    | .value (.instance handle) =>
      match E.interfaceTarget handle with
      | some ptr => s.wroteDup (.block ptr)
      | none => ⟨false,target,s⟩
    | _ => s.wrote .null
  -- the fields of the message, and what stays behind of one that is not set, are left out
  | .protobuf _, _, _, s => s.wroteNew (.object [])

def convertMembersToTarget (E : TargetEnv) : List (ObjectMember FeatureType) →
    List (Write Native) → ℕ → EngineState → Bool × EngineState
  | [], _, _, s => (true,s)
  | ⟨name,type,offset⟩ :: members, memory, object, s =>
    let r := convertValueToTarget E type
      (load memory offset (accessSize E.platform type)) none s
    if r.ok then
      convertMembersToTarget E members memory object (r.state.setStructField object name r.target)
    else (false,r.state.freeValue r.target)

end

end FeatureRuntime
