import FeatureRuntime.MachineInt
import Mathlib.Data.List.Basic
import Mathlib.Data.Nat.Notation

/-! JS values and the engine as the converter sees them: kinds, property reads, and the number
conversions of the language. -/
namespace FeatureRuntime

/-- A JS number: a small integer, or a double given by its bits. -/
inductive JSNumber
  | int (value : ℤ)
  | float64 (bits : BitVec 64)
  deriving DecidableEq, Repr

namespace JSNumber

/-- The integer part; `none` for NaN and the infinities. -/
def trunc : JSNumber → Option ℤ
  | .int value => some value
  | .float64 bits =>
    let exponent := (bits.extractLsb' 52 11).toNat
    let fraction := (bits.extractLsb' 0 52).toNat
    if exponent = 2047 then none
    else
      let magnitude : ℕ :=
        if exponent < 1023 then 0
        else if 1075 ≤ exponent then (2 ^ 52 + fraction) * 2 ^ (exponent - 1075)
        else (2 ^ 52 + fraction) / 2 ^ (1075 - exponent)
      some (if bits.msb then -magnitude else magnitude)

def nan : JSNumber := .float64 0x7FF8000000000000#64

def isNaN : JSNumber → Bool
  | .int _ => false
  | .float64 bits => bits.extractLsb' 52 11 = 2047#11 ∧ bits.extractLsb' 0 52 ≠ 0#52

/-- `JS_ToInt32`. -/
def toInt32 (n : JSNumber) : ℤ := toInt (n.trunc.getD 0)

/-- `JS_ToUint32`. -/
def toUint32 (n : JSNumber) : ℤ := n.trunc.getD 0 % 2 ^ 32

/-- `JS_ToInt64`. -/
def toInt64 (n : JSNumber) : ℤ := (n.trunc.getD 0).bmod (2 ^ 64)

/-- `JS_ToIndex`; `none` is the RangeError. -/
def toIndex (n : JSNumber) : Option ℤ :=
  match n.trunc with
  | some value => if 0 ≤ value ∧ value ≤ 2 ^ 53 - 1 then some value else none
  | none => if n.isNaN then some 0 else none

end JSNumber

/-- A `JSValue`; objects are references, and `exception` is what a throwing read returns. A string is given by its text, so
one with a lone surrogate, which is no text, is left out. -/
inductive JSValue
  | undefined
  | null
  | exception
  | bool (value : Bool)
  | number (value : JSNumber)
  | bigInt (value : ℤ)
  | string (value : String)
  | symbol (id : ℕ)
  | object (id : ℕ)
  deriving DecidableEq, Repr

/-- The JS engine: what its calls return for the objects the application passed in. -/
structure JSContext where
  arrayObject : ℕ → Bool
  functionObject : ℕ → Bool
  typedArrayObject : ℕ → Bool
  /-- `JS_GetArrayBuffer`: the bytes of an attached buffer. -/
  arrayBufferData : ℕ → Option (List UInt8)
  getPropertyStr : ℕ → String → JSValue
  getPropertyUint32 : ℕ → ℕ → JSValue
  /-- The own enumerable properties in their order, with the value each read returns. -/
  ownProperties : ℕ → List (String × JSValue)
  /-- The C string of `JSON.stringify`; `none` when it throws. -/
  jsonStringify : ℕ → Option String
  /-- `JS_ToCString`; `none` when the conversion throws. -/
  toCString : JSValue → Option String
  /-- `ToNumber`; `none` when the conversion throws. -/
  toNumber : JSValue → Option JSNumber
  toBool : JSValue → Bool
  /-- `JS_GetOpaque` with the class id of feature objects. -/
  getOpaque : ℕ → Option ℕ

def JSContext.ofProperties (property : ℕ → String → JSValue) : JSContext where
  arrayObject _ := false
  functionObject _ := false
  typedArrayObject _ := false
  arrayBufferData _ := none
  getPropertyStr := property
  getPropertyUint32 _ _ := .undefined
  ownProperties _ := []
  jsonStringify _ := some "{}"
  toCString
    | .string text => some text
    | _ => none
  toNumber
    | .number n => some n
    | _ => none
  toBool v := v = .bool true
  getOpaque _ := none

def cString (s : String) : String := String.ofList (s.toList.takeWhile (· ≠ Char.ofNat 0))

namespace JSContext

variable (ctx : JSContext)

def isNull : JSValue → Bool
  | .null => true
  | _ => false

def isUndefined : JSValue → Bool
  | .undefined => true
  | _ => false

def isNullish (target : JSValue) : Bool := isNull target || isUndefined target

def isString : JSValue → Bool
  | .string _ => true
  | _ => false

def isObject : JSValue → Bool
  | .object _ => true
  | _ => false

def isArray : JSValue → Bool
  | .object id => ctx.arrayObject id
  | _ => false

def isFunction : JSValue → Bool
  | .object id => ctx.functionObject id
  | _ => false

def isArrayBuffer : JSValue → Bool
  | .object id => (ctx.arrayBufferData id).isSome
  | _ => false

/-- `isPlainObject`: an object that is no array, function, buffer or view of a buffer. -/
def isPlainObject : JSValue → Bool
  | .object id =>
    !ctx.arrayObject id && !ctx.functionObject id && (ctx.arrayBufferData id).isNone && !ctx.typedArrayObject id
  | _ => false

/-- `JS_GetPropertyStr`. -/
def getProperty (target : JSValue) (name : String) : JSValue :=
  match target with
  | .object id => ctx.getPropertyStr id name
  | .undefined | .null | .exception => .exception
  | _ => .undefined

def arraySize (array : JSValue) : ℕ :=
  match array with
  | .object id =>
    if ctx.arrayObject id then
      match ctx.toNumber (ctx.getPropertyStr id "length") with
      | some n => n.toUint32.toNat
      | none => 0
    else 0
  | _ => 0

/-- `arrayGet`: a throwing read counts as undefined. -/
def arrayGet (array : JSValue) (idx : ℕ) : JSValue :=
  match array with
  | .object id =>
    if ctx.arrayObject id then
      match ctx.getPropertyUint32 id idx with
      | .exception => .undefined
      | v => v
    else .undefined
  | _ => .undefined

/-- `interfaceFromTarget` before its check. -/
def interfaceFromTarget : JSValue → Option ℕ
  | .object id => ctx.getOpaque id
  | _ => none

/-- `JS_SetPropertyStr` on a data property. -/
def setProperty (target : JSValue) (name : String) (value : JSValue) : JSContext :=
  match target with
  | .object id =>
    { ctx with getPropertyStr := fun i n => if i = id ∧ n = name then value else ctx.getPropertyStr i n }
  | _ => ctx

theorem isNullish_iff {v : JSValue} : isNullish v = true ↔ v = .null ∨ v = .undefined := by
  cases v <;> simp [isNullish,isNull,isUndefined]

end JSContext
end FeatureRuntime
