import Mathlib.Data.List.Basic
import Mathlib.Data.Nat.Notation

/-! The wire format of flat proto3 messages: numbers in base 128 with continuation bits, fields with their tags in the
order of their numbers, and no trace of a field that has its default. -/
namespace FeatureRuntime
namespace ProtoWire

def varint (n : ℕ) : List UInt8 :=
  if n < 128 then [UInt8.ofNat n] else UInt8.ofNat (n % 128 + 128) :: varint (n / 128)
termination_by n
decreasing_by omega

def readVarint : List UInt8 → Option (ℕ × List UInt8)
  | [] => none
  | byte :: rest =>
    if byte.toNat < 128 then some (byte.toNat,rest)
    else (readVarint rest).map fun read => (byte.toNat - 128 + 128 * read.1,read.2)

theorem readVarint_varint (n : ℕ) (rest : List UInt8) : readVarint (varint n ++ rest) = some (n,rest) := by
  induction n using Nat.strongRecOn with
  | ind n ih =>
    rw [varint]
    split_ifs with hlast
    · have hbyte : (UInt8.ofNat n).toNat = n := Nat.mod_eq_of_lt (by omega)
      rw [List.cons_append,readVarint,hbyte,if_pos hlast,List.nil_append]
    · have hbyte : (UInt8.ofNat (n % 128 + 128)).toNat = n % 128 + 128 := Nat.mod_eq_of_lt (by omega)
      rw [List.cons_append,readVarint,hbyte,if_neg (by omega),ih (n / 128) (by omega),Option.map_some]
      congr 2
      omega

inductive WireKind
  | number
  | bytes
  deriving DecidableEq, Repr

inductive WireValue
  | number (value : ℕ)
  | bytes (value : List UInt8)
  deriving DecidableEq, Repr

namespace WireKind

def tag (number : ℕ) : WireKind → ℕ
  | .number => 8 * number
  | .bytes => 8 * number + 2

def default : WireKind → WireValue
  | .number => .number 0
  | .bytes => .bytes []

end WireKind

namespace WireValue

def kind : WireValue → WireKind
  | .number _ => .number
  | .bytes _ => .bytes

def payload : WireValue → List UInt8
  | .number value => varint value
  | .bytes value => varint value.length ++ value

end WireValue

def packField (number : ℕ) (value : WireValue) : List UInt8 :=
  if value = value.kind.default then [] else varint (value.kind.tag number) ++ value.payload

def packFields : ℕ → List WireValue → List UInt8
  | _,[] => []
  | number,value :: values => packField number value ++ packFields (number + 1) values

def readPayload (kind : WireKind) (input : List UInt8) : Option (WireValue × List UInt8) :=
  match kind,readVarint input with
  | _,none => none
  | .number,some (value,rest) => some (.number value,rest)
  | .bytes,some (length,rest) =>
    if length ≤ rest.length then some (.bytes (rest.take length),rest.drop length) else none

def readField (number : ℕ) (kind : WireKind) (input : List UInt8) : Option (WireValue × List UInt8) :=
  match readVarint input with
  | some (tag,rest) => if tag = kind.tag number then readPayload kind rest else some (kind.default,input)
  | none => some (kind.default,input)

/-- A field with another tag has its default. -/
def readFields : ℕ → List WireKind → List UInt8 → Option (List WireValue)
  | _,[],input => if input = [] then some [] else none
  | number,kind :: kinds,input =>
    (readField number kind input).bind fun read => (readFields (number + 1) kinds read.2).map (read.1 :: ·)

theorem readPayload_payload (value : WireValue) (rest : List UInt8) :
    readPayload value.kind (value.payload ++ rest) = some (value,rest) := by
  cases value with
  | number value => simp only [WireValue.kind,WireValue.payload,readPayload,readVarint_varint]
  | bytes value =>
    simp only [WireValue.kind,WireValue.payload,readPayload,List.append_assoc,readVarint_varint]
    rw [if_pos (by simp),List.take_left,List.drop_left]

theorem tag_le (values : List WireValue) (number : ℕ) {tag : ℕ} {rest : List UInt8}
    (h : readVarint (packFields number values) = some (tag,rest)) : 8 * number ≤ tag := by
  induction values generalizing number with
  | nil => exact absurd h (by simp [packFields,readVarint])
  | cons value values ih =>
    rw [packFields,packField] at h
    split_ifs at h with hdefault
    · have hle := ih (number + 1) h
      omega
    · rw [List.append_assoc,readVarint_varint] at h
      obtain ⟨rfl,-⟩ := Prod.mk.inj (Option.some.inj h)
      cases hkind : value.kind <;> simp [WireKind.tag]

theorem readField_pack (number : ℕ) (value : WireValue) (values : List WireValue) :
    readField number value.kind (packField number value ++ packFields (number + 1) values) =
      some (value,packFields (number + 1) values) := by
  rw [packField]
  split_ifs with hdefault
  · rw [List.nil_append,readField]
    split
    · rename_i tag rest hread
      have hle := tag_le values (number + 1) hread
      have hne : tag ≠ value.kind.tag number := by
        cases hkind : value.kind <;> simp only [WireKind.tag] <;> omega
      rw [if_neg hne,← hdefault]
    · rw [← hdefault]
  · rw [List.append_assoc,readField,readVarint_varint]
    exact (if_pos rfl).trans (readPayload_payload value _)

theorem readFields_packFields (values : List WireValue) (number : ℕ) :
    readFields number (values.map WireValue.kind) (packFields number values) = some values := by
  induction values generalizing number with
  | nil => rfl
  | cons value values ih =>
    rw [List.map_cons,packFields,readFields,readField_pack,Option.bind_some,ih,Option.map_some]

end ProtoWire
end FeatureRuntime
