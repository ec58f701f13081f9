import Mathlib.Data.List.Basic
import Mathlib.Data.Nat.Notation

/-! Base64 with padding, and that decoding undoes it. -/
namespace FeatureRuntime.Base64

def char (v : ℕ) : UInt8 :=
  if v < 26 then UInt8.ofNat (v + 65)
  else if v < 52 then UInt8.ofNat (v + 71)
  else if v < 62 then UInt8.ofNat (v - 4)
  else if v = 62 then 43
  else 47

def value (c : UInt8) : Option ℕ :=
  if 65 ≤ c ∧ c ≤ 90 then some (c.toNat - 65)
  else if 97 ≤ c ∧ c ≤ 122 then some (c.toNat - 71)
  else if 48 ≤ c ∧ c ≤ 57 then some (c.toNat + 4)
  else if c = 43 then some 62
  else if c = 47 then some 63
  else none

def pad : UInt8 := 61

def first (a : UInt8) : ℕ := a.toNat / 4

def second (a b : UInt8) : ℕ := a.toNat % 4 * 16 + b.toNat / 16

def third (b c : UInt8) : ℕ := b.toNat % 16 * 4 + c.toNat / 64

def fourth (c : UInt8) : ℕ := c.toNat % 64

def joinFirst (i j : ℕ) : UInt8 := UInt8.ofNat (i * 4 + j / 16)

def joinSecond (j k : ℕ) : UInt8 := UInt8.ofNat (j % 16 * 16 + k / 4)

def joinThird (k l : ℕ) : UInt8 := UInt8.ofNat (k % 4 * 64 + l)

/-- Padded to whole groups of four. -/
def encode : List UInt8 → List UInt8
  | [] => []
  | [a] => [char (first a),char (second a 0),pad,pad]
  | [a,b] => [char (first a),char (second a b),char (third b 0),pad]
  | a :: b :: c :: rest =>
    char (first a) :: char (second a b) :: char (third b c) :: char (fourth c) :: encode rest

/-- Padding ends the text. -/
def decode : List UInt8 → Option (List UInt8)
  | [] => some []
  | w :: x :: y :: z :: rest => do
    let i ← value w
    let j ← value x
    if z = pad ∧ rest = [] then
      if y = pad then return [joinFirst i j]
      else do
        let k ← value y
        return [joinFirst i j,joinSecond j k]
    else do
      let k ← value y
      let l ← value z
      let tail ← decode rest
      return joinFirst i j :: joinSecond j k :: joinThird k l :: tail
  | _ => none

theorem value_char : ∀ v < 64, value (char v) = some v := by decide

theorem char_ne_pad : ∀ v < 64, char v ≠ pad := by decide

theorem char_ne_zero : ∀ v < 64, char v ≠ 0 := by decide

section Groups

variable (a b c : UInt8)

theorem first_lt : first a < 64 := by
  have := a.toNat_lt
  unfold first
  omega

theorem second_lt : second a b < 64 := by
  have := b.toNat_lt
  unfold second
  omega

theorem third_lt : third b c < 64 := by
  have := c.toNat_lt
  unfold third
  omega

theorem fourth_lt : fourth c < 64 := by
  unfold fourth
  omega

theorem join_first : joinFirst (first a) (second a b) = a := by
  have hb := b.toNat_lt
  have h : first a * 4 + second a b / 16 = a.toNat := by
    unfold first second
    omega
  rw [joinFirst,h,UInt8.ofNat_toNat]

theorem join_second : joinSecond (second a b) (third b c) = b := by
  have hb := b.toNat_lt
  have hc := c.toNat_lt
  have h : second a b % 16 * 16 + third b c / 4 = b.toNat := by
    unfold second third
    omega
  rw [joinSecond,h,UInt8.ofNat_toNat]

theorem join_third : joinThird (third b c) (fourth c) = c := by
  have hc := c.toNat_lt
  have h : third b c % 4 * 64 + fourth c = c.toNat := by
    unfold third fourth
    omega
  rw [joinThird,h,UInt8.ofNat_toNat]

end Groups

theorem decode_encode (bytes : List UInt8) : decode (encode bytes) = some bytes := by
  induction bytes using encode.induct with
  | case1 => rfl
  | case2 a =>
    unfold encode decode
    rw [value_char _ (first_lt a),value_char _ (second_lt a 0)]
    simp [join_first]
  | case3 a b =>
    unfold encode decode
    rw [value_char _ (first_lt a),value_char _ (second_lt a b),value_char _ (third_lt b 0)]
    simp [join_first,join_second,char_ne_pad _ (third_lt b 0)]
  | case4 a b c rest ih =>
    unfold encode decode
    rw [value_char _ (first_lt a),value_char _ (second_lt a b),value_char _ (third_lt b c),
      value_char _ (fourth_lt c),ih]
    simp [join_first,join_second,join_third,char_ne_pad _ (fourth_lt c)]

theorem length_encode (bytes : List UInt8) : (encode bytes).length = (bytes.length + 2) / 3 * 4 := by
  induction bytes using encode.induct with
  | case1 => rfl
  | case2 a => simp [encode]
  | case3 a b => simp [encode]
  | case4 a b c rest ih =>
    rw [encode,List.length_cons,List.length_cons,List.length_cons,List.length_cons,ih]
    simp only [List.length_cons]
    omega

theorem zero_notMem_encode (bytes : List UInt8) : 0 ∉ encode bytes := by
  induction bytes using encode.induct with
  | case1 => exact List.not_mem_nil
  | case2 a =>
    simp only [encode,List.mem_cons,List.not_mem_nil,or_false,not_or]
    exact ⟨(char_ne_zero _ (first_lt a)).symm,(char_ne_zero _ (second_lt a 0)).symm,by decide,by decide⟩
  | case3 a b =>
    simp only [encode,List.mem_cons,List.not_mem_nil,or_false,not_or]
    exact ⟨(char_ne_zero _ (first_lt a)).symm,(char_ne_zero _ (second_lt a b)).symm,
      (char_ne_zero _ (third_lt b 0)).symm,by decide⟩
  | case4 a b c rest ih =>
    simp only [encode,List.mem_cons,not_or]
    exact ⟨(char_ne_zero _ (first_lt a)).symm,(char_ne_zero _ (second_lt a b)).symm,
      (char_ne_zero _ (third_lt b c)).symm,(char_ne_zero _ (fourth_lt c)).symm,ih⟩

end FeatureRuntime.Base64
