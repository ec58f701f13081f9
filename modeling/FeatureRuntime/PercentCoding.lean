import Mathlib.Data.List.Basic
import Mathlib.Data.Nat.Init
import Mathlib.Data.Nat.Notation

/-! Percent coding of bytes with an arbitrary set of bytes that stand for themselves, and a lenient
decoder that drops a percent sign without two bytes behind it. -/
namespace FeatureRuntime.Percent

def sign : UInt8 := 37

def digit (v : ℕ) : UInt8 := if v < 10 then UInt8.ofNat (v + 48) else UInt8.ofNat (v + 55)

section Encode

variable (plain : UInt8 → Bool)

def encodeByte (c : UInt8) : List UInt8 :=
  if plain c then [c] else [sign,digit (c.toNat / 16),digit (c.toNat % 16)]

def encode (s : List UInt8) : List UInt8 := s.flatMap (encodeByte plain)

def wellFormed (isDigit : UInt8 → Bool) : List UInt8 → Bool
  | c :: a :: b :: rest =>
    if c = sign then isDigit a && isDigit b && wellFormed isDigit rest
    else plain c && wellFormed isDigit (a :: b :: rest)
  | s => s.all (fun c => c ≠ sign && plain c)

end Encode

def decode (value : UInt8 → UInt8 → UInt8) : List UInt8 → List UInt8
  | c :: a :: b :: rest =>
    if c = sign then value a b :: decode value rest else c :: decode value (a :: b :: rest)
  | s => s.filter (· ≠ sign)

variable {plain : UInt8 → Bool} {isDigit : UInt8 → Bool} {value : UInt8 → UInt8 → UInt8}

@[simp] theorem decode_nil : decode value [] = [] := rfl

@[simp] theorem wellFormed_nil : wellFormed plain isDigit [] = true := rfl

variable {c : UInt8}

theorem decode_of_ne (h : c ≠ sign) (rest : List UInt8) : decode value (c :: rest) = c :: decode value rest := by
  match rest with
  | [] => simp [decode,h]
  | [a] => simp [decode,h]
  | a :: b :: rest => rw [decode,if_neg h]

@[simp] theorem decode_escape (a b : UInt8) (rest : List UInt8) :
    decode value (sign :: a :: b :: rest) = value a b :: decode value rest := by
  rw [decode,if_pos rfl]

theorem decode_lone {rest : List UInt8} (h : rest.length < 2) : decode value (sign :: rest) = decode value rest := by
  match rest with
  | [] => simp [decode]
  | [a] => simp [decode]
  | _ :: _ :: rest =>
    simp only [List.length_cons] at h
    omega

theorem wellFormed_of_ne (h : c ≠ sign) (rest : List UInt8) :
    wellFormed plain isDigit (c :: rest) = (plain c && wellFormed plain isDigit rest) := by
  match rest with
  | [] => simp [wellFormed,h]
  | [a] => simp [wellFormed,h]
  | a :: b :: rest => rw [wellFormed,if_neg h]

@[simp] theorem wellFormed_escape (a b : UInt8) (rest : List UInt8) :
    wellFormed plain isDigit (sign :: a :: b :: rest) =
      (isDigit a && isDigit b && wellFormed plain isDigit rest) := by
  rw [wellFormed,if_pos rfl]

/-- Induction on the percent signs that are followed by two bytes and on the other bytes. -/
theorem induction_on {motive : List UInt8 → Prop} (s : List UInt8) (nil : motive [])
    (escape : ∀ a b rest, motive rest → motive (sign :: a :: b :: rest))
    (lone : ∀ rest, rest.length < 2 → motive rest → motive (sign :: rest))
    (byte : ∀ c rest, c ≠ sign → motive rest → motive (c :: rest)) : motive s := by
  induction hn : s.length using Nat.strong_induction_on generalizing s with
  | _ n ih =>
    subst hn
    cases s with
    | nil => exact nil
    | cons c rest =>
      have hrest : motive rest := ih rest.length (by simp) rest rfl
      by_cases hc : c = sign
      · subst hc
        match rest with
        | [] => exact lone [] (by simp) hrest
        | [a] => exact lone [a] (by simp) hrest
        | a :: b :: rest => exact escape a b rest (ih rest.length (by simp; omega) rest rfl)
      · exact byte c rest hc hrest

theorem length_decode_le (s : List UInt8) : (decode value s).length ≤ s.length := by
  induction s using induction_on with
  | nil => simp
  | escape a b rest ih =>
    simp only [decode_escape,List.length_cons]
    omega
  | lone rest h ih =>
    rw [decode_lone h,List.length_cons]
    omega
  | byte c rest h ih =>
    rw [decode_of_ne h,List.length_cons,List.length_cons]
    omega

theorem decode_eq_self_iff (s : List UInt8) : decode value s = s ↔ sign ∉ s := by
  induction s using induction_on with
  | nil => simp
  | escape a b rest ih =>
    refine iff_of_false (fun heq => ?_) (by simp)
    have hlen := congrArg List.length heq
    have hle := @length_decode_le value rest
    simp only [decode_escape,List.length_cons] at hlen
    omega
  | lone rest h ih =>
    refine iff_of_false (fun heq => ?_) (by simp)
    have hlen := congrArg List.length heq
    have hle := @length_decode_le value rest
    rw [decode_lone h,List.length_cons] at hlen
    omega
  | byte c rest h ih =>
    rw [decode_of_ne h,List.cons.injEq,List.mem_cons,ih]
    simp [Ne.symm h]

theorem length_encode_le (s : List UInt8) : (encode plain s).length ≤ 3 * s.length := by
  induction s with
  | nil => simp [encode]
  | cons c s ih =>
    have hbyte : (encodeByte plain c).length ≤ 3 := by
      simp only [encodeByte]
      split_ifs <;> simp
    simp only [encode,List.flatMap_cons,List.length_append,List.length_cons] at ih ⊢
    omega

theorem ne_sign (hplain : plain sign = false) (hc : plain c = true) : c ≠ sign := by
  intro heq
  rw [heq,hplain] at hc
  exact Bool.noConfusion hc

theorem encode_cons_plain (h : plain c = true) (s : List UInt8) : encode plain (c :: s) = c :: encode plain s := by
  simp [encode,encodeByte,h]

theorem encode_cons_escape (h : plain c = false) (s : List UInt8) : encode plain (c :: s) =
      sign :: digit (c.toNat / 16) :: digit (c.toNat % 16) :: encode plain s := by
  simp [encode,encodeByte,h]

theorem decode_encode (hplain : plain sign = false)
    (hvalue : ∀ c : UInt8, value (digit (c.toNat / 16)) (digit (c.toNat % 16)) = c)
    (s : List UInt8) : decode value (encode plain s) = s := by
  induction s with
  | nil => simp [encode]
  | cons c s ih =>
    cases hc : plain c with
    | true =>
      rw [encode_cons_plain hc,decode_of_ne (ne_sign hplain hc),ih]
    | false =>
      rw [encode_cons_escape hc,decode_escape,hvalue,ih]

theorem wellFormed_encode (hplain : plain sign = false)
    (hdigit : ∀ v < 16, isDigit (digit v) = true) (s : List UInt8) :
    wellFormed plain isDigit (encode plain s) = true := by
  induction s with
  | nil => simp [encode]
  | cons c s ih =>
    cases hc : plain c with
    | true =>
      rw [encode_cons_plain hc,wellFormed_of_ne (ne_sign hplain hc),hc,ih]
      rfl
    | false =>
      have hlt := c.toNat_lt
      have hhigh := hdigit (c.toNat / 16) (by omega)
      have hlow := hdigit (c.toNat % 16) (by omega)
      rw [encode_cons_escape hc,wellFormed_escape,hhigh,hlow,ih]
      rfl

theorem notMem_encode (hplain : plain c = false) (hsign : c ≠ sign)
    (hdigit : ∀ v < 16, digit v ≠ c) (s : List UInt8) : c ∉ encode plain s := by
  intro hmem
  obtain ⟨b,-,hb⟩ := List.mem_flatMap.mp hmem
  have hlt := b.toNat_lt
  simp only [encodeByte] at hb
  split_ifs at hb with hpb
  · rw [List.mem_singleton.mp hb,hpb] at hplain
    exact Bool.noConfusion hplain
  · simp only [List.mem_cons,List.not_mem_nil,or_false] at hb
    rcases hb with hb | hb | hb
    · exact hsign hb
    · exact hdigit _ (by omega) hb.symm
    · exact hdigit _ (by omega) hb.symm

end FeatureRuntime.Percent
