import FeatureRuntime.ScriptObjects
import FeatureRuntime.ValueTranslator

/-! Guest values of the plain types, how QuickJS and WAMR hold them, and the value translators of the two backends. -/
namespace FeatureRuntime

namespace JSNumber

def doubleBits (value : ℤ) : BitVec 64 :=
  BitVec.ofNat 64 ((if value < 0 then 2 ^ 63 else 0) + Binary64.encode value.natAbs)

def bits : JSNumber → BitVec 64
  | .int value => doubleBits value
  | .float64 bits => bits

def Holds : JSNumber → ℤ → Prop
  | .int held, value => held = value ∧ -2 ^ 31 ≤ value ∧ value < 2 ^ 31
  | .float64 bits, value => bits = doubleBits value ∧ isExact value = true

def isInt : JSNumber → Bool
  | .int _ => true
  | .float64 _ => false

theorem trunc_doubleBits {value : ℤ} (hbound : value.natAbs ≤ 2 ^ 64) (hexact : isExact value = true) :
    (JSNumber.float64 (doubleBits value)).trunc = some value := by
  have htrunc := trunc_float64 (Binary64.encode_lt hbound) (decide (value < 0))
  have hround : Binary64.round value.natAbs = value.natAbs :=
    Binary64.round_eq_self_iff.mpr (of_decide_eq_true hexact)
  simp only [decide_eq_true_eq,Binary64.magnitude_encode,hround] at htrunc
  rw [doubleBits,htrunc]
  congr 1
  split_ifs <;> omega

namespace Holds

variable {number : JSNumber} {value : ℤ}

theorem trunc_bits (h : number.Holds value) (hbound : value.natAbs ≤ 2 ^ 64) :
    (JSNumber.float64 number.bits).trunc = some value := by
  cases number with
  | int held =>
    obtain ⟨rfl,hlow,hhigh⟩ := h
    exact trunc_doubleBits hbound (isExact_of_int32 hlow hhigh)
  | float64 bits =>
    obtain ⟨rfl,hexact⟩ := h
    exact trunc_doubleBits hbound hexact

theorem trunc (h : number.Holds value) (hbound : value.natAbs ≤ 2 ^ 64) : number.trunc = some value := by
  cases number with
  | int held => exact congrArg some h.1
  | float64 bits => exact h.trunc_bits hbound

end Holds
end JSNumber

/-- A guest value of a type; its integers fit the type, and its strings are texts, without lone surrogates. -/
inductive GuestValue : PlainType → Type
  | boolean (value : Bool) : GuestValue .boolean
  | integer {type : IntegerType} (number : JSNumber) (value : ℤ) (holds : number.Holds value)
      (low : type.low ≤ value) (high : value < type.high) : GuestValue (.integer type)
  | double (number : JSNumber) : GuestValue .double
  | string (text : String) : GuestValue .string
  | struct {members : List (String × PlainType)} (fields : ∀ i : Fin members.length, GuestValue (members.get i).2) :
      GuestValue (.struct members)
  | array {elementType : PlainType} {length : ℕ} (items : Fin length → GuestValue elementType) :
      GuestValue (.array elementType)

/-- A guest value as the WAMR backend sees it: the 64 bits of a slot, or an object. A field is what
`getStructField` leaves in the variable it is given. -/
inductive WasmValue
  | slot (bits : BitVec 64)
  | string (text : String)
  | struct (fields : List WasmValue)
  | array (items : List WasmValue)

namespace WasmValue

def field : WasmValue → ℕ → WasmValue
  | .struct fields, i => fields.getD i (.slot 0)
  | _, _ => .slot 0

def item : WasmValue → ℕ → WasmValue
  | .array items, i => items.getD i (.slot 0)
  | _, _ => .slot 0

def upperHalf : WasmValue → BitVec 32
  | .slot bits => bits.extractLsb' 32 32
  | _ => 0

def cast (type : IntegerType) (bits : BitVec 64) : Except ConvertFailure ℤ :=
  match (JSNumber.float64 bits).trunc with
  | some value => if type.low ≤ value ∧ value < type.high then .ok value else .error .undefined
  | none => .error .undefined

/-- `toNative` of the WAMR backend reads every slot as a double. -/
def toNative : PrimitiveType → WasmValue → Except ConvertFailure PlainNative
  | .boolean, .slot bits => .ok (.bool (bits.toNat % 2 ^ 63 != 0))
  | .int, .slot bits | .int32, .slot bits => .int <$> cast .int32 bits
  | .int8, .slot bits => (fun value => .int (narrow 8 true value)) <$> cast .int32 bits
  | .int16, .slot bits => (fun value => .int (narrow 16 true value)) <$> cast .int32 bits
  | .uint8, .slot bits => (fun value => .int (narrow 8 false value)) <$> cast .uint32 bits
  | .uint16, .slot bits => (fun value => .int (narrow 16 false value)) <$> cast .uint32 bits
  | .uint32, .slot bits => .int <$> cast .uint32 bits
  | .int64, .slot bits => .int <$> cast .int64 bits
  | .uint64, .slot bits => .int <$> cast .uint64 bits
  | .double, .slot bits => .ok (.double bits)
  | _, _ => .error .undefined

end WasmValue

/-- The string objects of the WebAssembly runtime. -/
structure WasmStrings where
  /-- `wasm_string_get_length`. -/
  getLength : String → ℕ
  /-- `wasm_string_to_cstring` into a buffer of the given size. -/
  toCString : String → ℕ → String

/-- Only the empty string has no length, and a buffer of the length and one more has room for the text. -/
structure WasmStrings.Documented (S : WasmStrings) : Prop where
  getLength_eq_zero : ∀ text, S.getLength text = 0 ↔ text = ""
  cString_toCString : ∀ text, cString (S.toCString text (S.getLength text + 1)) = cString text

namespace ValueTranslator

def qjs (ctx : JSContext) : ValueTranslator JSValue where
  isNull := JSContext.isNull
  isUndefined := JSContext.isUndefined
  isString := JSContext.isString
  isPlainObject := ctx.isPlainObject
  isArray := ctx.isArray
  toNative type target :=
    match FeatureRuntime.toNative type target with
    | some (.bool value) => .ok (.bool value)
    | some (.int value) => .ok (.int value)
    | some (.double number) => .ok (.double number.bits)
    | _ => .error .refused
  toCString
    | .string text => .ok (some text)
    | .object id => .ok (ctx.jsonStringify id)
    | target => .ok (ctx.toCString target)
  getStructField target name _ := (ctx.getProperty target name != .undefined,ctx.getProperty target name)
  arraySize := ctx.arraySize
  arrayGet := ctx.arrayGet

/-- The translator of the WAMR backend. An array is a struct object too; what its fields are plays no part. -/
def wamr (S : WasmStrings) : ValueTranslator WasmValue where
  isNull
    | .slot bits => bits == 0
    | _ => false
  isUndefined
    | .slot bits => bits == 0
    | _ => false
  isString
    | .string _ => true
    | _ => false
  isPlainObject
    | .struct _ | .array _ => true
    | _ => false
  isArray
    | .array _ => true
    | _ => false
  toNative := WasmValue.toNative
  toCString
    | .string text => .ok (if 0 < S.getLength text then some (S.toCString text (S.getLength text + 1)) else none)
    | _ => .error .refused
  getStructField target _ i :=
    match target with
    | .struct _ | .array _ => (true,target.field i)
    | _ => (false,.slot 0)
  arraySize
    | .array items => items.length
    | _ => 0
  arrayGet := WasmValue.item

end ValueTranslator

namespace GuestValue

def native : {type : PlainType} → GuestValue type → PlainNative
  | _, .boolean value => .bool value
  | _, .integer _ value .. => .int value
  | _, .double number => .double number.bits
  | _, .string text => .string (cString text)
  | _, .struct fields => .struct (List.ofFn (fun i => some (fields i).native))
  | _, .array items => .array (List.ofFn (fun i => some (items i).native))

def JsHolds (ctx : JSContext) : {type : PlainType} → GuestValue type → JSValue → Prop
  | _, .boolean value, target => target = .bool value
  | _, .integer number .., target => target = .number number
  | _, .double number, target => target = .number number
  | _, .string text, target => target = .string text
  | .struct members, .struct fields, target =>
    ctx.isPlainObject target = true ∧ ∀ i, (fields i).JsHolds ctx (ctx.getProperty target (members.get i).1)
  | _, @GuestValue.array _ length items, target =>
    ctx.isArray target = true ∧ ctx.arraySize target = length ∧ ∀ i, (items i).JsHolds ctx (ctx.arrayGet target i)

/-- The value in WebAssembly. A boolean is 32 bits wide: an argument and an element are extended with zero, a field is
stored over one half of a variable that was never set. -/
def WasmHolds : {type : PlainType} → GuestValue type → (inStruct : Bool) → WasmValue → Prop
  | _, .boolean value, inStruct, target => ∃ bits, target = .slot bits ∧
    bits.extractLsb' 0 32 = (if value then 1 else 0) ∧ (inStruct = false → bits.extractLsb' 32 32 = 0)
  | _, .integer number .., _, target => target = .slot number.bits
  | _, .double number, _, target => target = .slot number.bits
  | _, .string text, _, target => target = .string text
  | _, .struct fields, _, target =>
    ∃ slots, target = .struct (List.ofFn slots) ∧ ∀ i, (fields i).WasmHolds true (slots i)
  | _, .array items, _, target =>
    ∃ slots, target = .array (List.ofFn slots) ∧ ∀ i, (items i).WasmHolds false (slots i)

/-- The value gets through the QuickJS backend: the signed types of up to 32 bits take tagged ints only, and
`JS_ToIndex` ends at 53 bits. -/
def Fits : {type : PlainType} → GuestValue type → Prop
  | .integer type, .integer number value .. =>
    match type with
    | .int | .int8 | .int16 | .int32 => number.isInt = true
    | .uint64 => value < 2 ^ 53
    | _ => True
  | _, .struct fields => ∀ i, (fields i).Fits
  | _, .array items => ∀ i, (items i).Fits
  | _, _ => True

/-- The value gets through the WAMR backend: no string is empty, and `false` does not lie next to bits that make the
double other than zero. -/
def Survives : {type : PlainType} → GuestValue type → WasmValue → Prop
  | _, .boolean value, target => value = true ∨ target.upperHalf = 0 ∨ target.upperHalf = 0x80000000
  | _, .string text, _ => text ≠ ""
  | _, .struct fields, target => ∀ i, (fields i).Survives (target.field i)
  | _, .array items, target => ∀ i, (items i).Survives (target.item i)
  | _, _, _ => True

end GuestValue
end FeatureRuntime
