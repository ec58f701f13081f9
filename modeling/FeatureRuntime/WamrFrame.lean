import FeatureRuntime.GuestValues
import FeatureRuntime.TargetConvertor

/-! `FeatureInstanceWamr::doInvokeCallback`: the arguments of a callback packed into the cells of a
WAMR call frame. -/
namespace FeatureRuntime

section Patterns

/-- `(double)target`: the number that is read off the 64 bits, as a double. -/
def castTarget (bits : BitVec 64) : BitVec 64 := BitVec.ofNat 64 (Binary64.encode bits.toNat)

def fixedPattern : BitVec 64 := 0x43D0F43D0F43D0F4#64

variable {value other : ℤ}

end Patterns

section Guest

/-- `wasm_value_type_t`. -/
inductive WasmType
  | i32
  | f64
  | stringref
  | anyref
  | structref
  | arrayref
  deriving DecidableEq

/-- `ft_type_to_wasm_type`. -/
def FeatureType.wasmType (type : FeatureType) : Option WasmType :=
  match type.realType with
  | .primitive .boolean => some .i32
  | .primitive .string => some .stringref
  | .primitive .anyRef => some .anyref
  | .primitive .void | .primitive .jsonObj | .primitive .arrayBuffer => none
  | .primitive _ => some .f64
  | .structMap .. => some .structref
  | .array _ => some .arrayref
  | _ => none

/-- The types that the module of the guest defines, and the instances that are native interfaces. -/
structure GuestModule where
  definesStruct : List WasmType → Bool
  definesArray : WasmType → Bool
  isInterface : ℕ → Bool

/-- How the conversion of a value ends; `broken` goes through a null pointer or makes an object of no type. -/
inductive GuestConversion
  | converted
  | refused
  | broken
  deriving DecidableEq

def convertElementsToGuest (convert : Slot Native → GuestConversion) : List (Option Native) → GuestConversion
  | [] => .converted
  | element :: elements =>
    match convert (.ofOption element) with
    | .converted => convertElementsToGuest convert elements
    | stop => stop

mutual

/-- `convertValueToTarget` with the value translator of WAMR. A JSON text is only logged, and a protobuf message
becomes a null object once its descriptor has been read. -/
def convertToGuest (M : GuestModule) (P : Platform) : FeatureType → Slot Native → GuestConversion
  | .primitive .void, _ => .refused
  | .primitive .arrayBuffer, native => if native.isZero then .converted else .refused
  | .primitive _, _ => .converted
  | .structMap _ members, native =>
    match native with
    | .value (.structMap _ _ memory) =>
      match members.mapM (fun m => m.type.wasmType) with
      | some types =>
        if members ≠ [] ∧ M.definesStruct types then convertMembersToGuest M P members memory else .refused
      | none => .refused
    | _ => .converted
  | .optional type _, native => convertToGuest M P type native
  | .callback .., _ => .converted
  | .array elementType, native =>
    match native with
    | .value (.array _ _ size _ elements) =>
      match elementType.wasmType with
      -- The index of a type that is not found is unsigned, and goes for a type.
      | some type =>
        if M.definesArray type then convertElementsToGuest (convertToGuest M P elementType) (elements.take size.toNat)
        else .broken
      | none => .refused
    | _ => .converted
  | .promise _, _ => .refused
  | .interface _, native =>
    match native with
    | .value (.instance handle) => if M.isInterface handle then .converted else .refused
    | _ => .converted
  | .protobuf _, native => if native.isZero then .broken else .converted

def convertMembersToGuest (M : GuestModule) (P : Platform) : List (ObjectMember FeatureType) → List (Write Native) →
    GuestConversion
  | [], _ => .converted
  | ⟨_,type,offset⟩ :: members, memory =>
    match convertToGuest M P type (load memory offset (accessSize P type)) with
    | .converted => convertMembersToGuest M P members memory
    | stop => stop

end

end Guest

/-- An argument of a callback with its declared type; `N` are the native values that no frame shows. -/
inductive CallbackArg (N : Type)
  | void
  | integer (type : IntegerType) (value : ℤ) (low : type.low ≤ value) (high : value < type.high)
  | float (bits : BitVec 32)
  | double (bits : BitVec 64)
  | boolean (value : Bool)
  | string (text : Option String)
  | anyRef (value : Option N)
  | jsonObj (value : Option N)
  | arrayBuffer (buffer : Option N)
  | complex (type : FeatureType) (isComplex : ∀ p, type ≠ .primitive p) (value : Slot Native)

/-- The 64 bits of a converted value: a number, a reference to a guest string, or a target that is never read. -/
inductive WamrTarget
  | word (bits : BitVec 64)
  | string (text : String)
  | unread

/-- A boxed element of the array of the rest arguments. -/
inductive AnyValue
  | null
  | boolean (value : Bool)
  | number (bits : BitVec 64)
  | string (text : String)
  deriving DecidableEq

/-- What a cell or two of the frame hold. `G` are the guest objects of a closure. -/
inductive FrameValue (G : Type)
  | ref (object : G)
  | number (bits : BitVec 64)
  | string (text : String)
  | array (elements : List AnyValue)
  deriving DecidableEq

/-- `argv`, by what has been written where, and the bytes that are taken. -/
structure CallFrame (G : Type) where
  writes : List (ℕ × FrameValue G)
  filled : ℕ
  deriving DecidableEq

/-- The fields of the closure object of a callback. -/
structure WamrClosure (G : Type) where
  context : G
  thiz : G
  func : G

/-- How packing stops: a conversion failed, or did worse, or a write past the end of `argv`. -/
inductive FrameStop
  | refused
  | broken
  | overrun
  deriving DecidableEq

/-- What `doInvokeCallback` did. -/
inductive FrameOutcome (G : Type)
  | error
  | broken
  | overrun
  | called (func : G) (cells : ℕ) (writes : List (ℕ × FrameValue G))
  deriving DecidableEq

/-- A call for a callback signature: one argument for each parameter, and the rest arguments. -/
structure CallbackCall (N : Type) where
  fixed : List (CallbackArg N)
  hasRest : Bool
  rest : List (CallbackArg N)
  rest_nil : hasRest = false → rest = []

/-- `sizeof(argv)`. -/
def argvBytes : ℕ := 256

namespace CallbackArg

variable {N : Type}

/-- `FeatureType` of the argument. -/
def type : CallbackArg N → FeatureType
  | .void => .primitive .void
  | .integer type _ _ _ => .primitive type.primitive
  | .float _ => .primitive .float
  | .double _ => .primitive .double
  | .boolean _ => .primitive .boolean
  | .string _ => .primitive .string
  | .anyRef _ => .primitive .anyRef
  | .jsonObj _ => .primitive .jsonObj
  | .arrayBuffer _ => .primitive .arrayBuffer
  | .complex type _ _ => type

/-- `argToTarget`. A null string becomes an empty one, a failed JSON conversion is only logged, and a buffer has no
counterpart in WAMR. What is not passed by reference is extracted into a block of `FeatureMalloc`, and `free` then gets
a pointer into that block. -/
def argToTarget (M : GuestModule) (P : Platform) : CallbackArg N → Except FrameStop WamrTarget
  | .void => .error .refused
  | .integer _ value _ _ => .ok (.word (JSNumber.doubleBits value))
  | .double bits => .ok (.word bits)
  | .string text => .ok (.string (text.getD ""))
  | .float _ | .boolean _ | .anyRef _ | .jsonObj _ => .ok .unread
  | .arrayBuffer buffer => if buffer.isNone then .ok .unread else .error .refused
  | .complex type _ value =>
    if type.isReference = false then .error .broken
    else
      match convertToGuest M P type value with
      | .converted => .ok .unread
      | .refused => .error .refused
      | .broken => .error .broken

end CallbackArg

namespace CallFrame

variable {G : Type}

/-- A write of `width` bytes at the end of what is filled; `none` goes past `argv`. -/
def store (frame : CallFrame G) (width : ℕ) (value : FrameValue G) : Option (CallFrame G) :=
  if frame.filled + width ≤ argvBytes then
    some ⟨frame.writes ++ [(frame.filled,value)],frame.filled + width⟩
  else none

end CallFrame

def FrameStop.outcome {G : Type} : FrameStop → FrameOutcome G
  | .refused => .error
  | .broken => .broken
  | .overrun => .overrun

def FrameValue.width {G : Type} (P : Platform) : FrameValue G → ℕ
  | .number _ => 8
  | .ref _ | .string _ | .array _ => P.pointerSize

def frameLayout {G : Type} (P : Platform) : ℕ → List (FrameValue G) → List (ℕ × FrameValue G)
  | _, [] => []
  | position, value :: values => (position,value) :: frameLayout P (position + value.width P) values

namespace CallbackArg

variable {G N : Type}

/-- The value of an argument as a guest parameter, for the types that `fillArg` supports. -/
def value : CallbackArg N → Option (FrameValue G)
  | .integer type value _ _ =>
    if type = .int ∨ type = .int32 ∨ type = .uint32 then some (.number (JSNumber.doubleBits value)) else none
  | .double bits => some (.number bits)
  | .string text => some (.string (text.getD ""))
  | _ => none

def anyValue : CallbackArg N → Option AnyValue
  | .integer type value _ _ =>
    if type = .int ∨ type = .int32 ∨ type = .uint32 then some (.number (JSNumber.doubleBits value)) else none
  | .double bits => some (.number bits)
  | .string text => some (.string (text.getD ""))
  | _ => none

end CallbackArg

def CallbackCall.values {G N : Type} (call : CallbackCall N) : Option (List (FrameValue G)) := do
  let fixed ← call.fixed.mapM CallbackArg.value
  if call.hasRest then
    let elements ← call.rest.mapM CallbackArg.anyValue
    return fixed ++ [.array elements]
  else return fixed

def frameBytes {G : Type} (P : Platform) : List (FrameValue G) → ℕ
  | [] => 0
  | value :: values => value.width P + frameBytes P values

/-- The guest is called with one value for each declared parameter, in its place in a frame inside `argv`; or it
is not called, because some argument or all of them together cannot be passed. -/
def Delivered {G N : Type} (P : Platform) (callback : Option (WamrClosure G)) (call : CallbackCall N) :
    FrameOutcome G → Prop
  | .error => callback = none ∨
      ∀ values : List (FrameValue G), call.values = some values → argvBytes < 2 * P.pointerSize + frameBytes P values
  | .broken | .overrun => False
  | .called func cells writes => ∃ closure values, callback = some closure ∧ call.values = some values ∧
      func = closure.func ∧
      writes = frameLayout P 0 (.ref closure.context :: .ref closure.thiz :: values) ∧
      4 * cells = 2 * P.pointerSize + frameBytes P values ∧ 4 * cells ≤ argvBytes

end FeatureRuntime
