import Mathlib.Data.Nat.Log
import Mathlib.Tactic.Ring
import Mathlib.Tactic.LinearCombination

/-! Naturals as 64-bit floating point numbers: rounding to 53 significant bits, ties to even, and
the bit patterns of the results. -/
namespace FeatureRuntime
namespace Binary64

def ulp (n : ℕ) : ℕ := 2 ^ (n.log2 - 52)

def significand (n : ℕ) : ℕ :=
  let kept := n / ulp n
  let rest := n % ulp n
  if ulp n < 2 * rest ∨ 2 * rest = ulp n ∧ kept % 2 = 1 then kept + 1 else kept

def round (n : ℕ) : ℕ := significand n * ulp n

/-- The bits of the rounded number. -/
def encode (n : ℕ) : ℕ :=
  if n = 0 then 0 else (n.log2 + 1022) * 2 ^ 52 + significand n * 2 ^ (52 - n.log2)

/-- The whole part of a number. -/
def magnitude (exponent fraction : ℕ) : ℕ :=
  if exponent < 1023 then 0
  else if 1075 ≤ exponent then (2 ^ 52 + fraction) * 2 ^ (exponent - 1075)
  else (2 ^ 52 + fraction) / 2 ^ (1075 - exponent)

variable {n : ℕ}

theorem ulp_pos (n : ℕ) : 0 < ulp n := Nat.two_pow_pos _

theorem ulp_eq_one (h : n < 2 ^ 53) : ulp n = 1 := by
  have hlog : n.log2 ≤ 52 := by
    rcases Nat.eq_zero_or_pos n with rfl | hpos
    · decide
    · exact Nat.lt_succ_iff.mp ((Nat.log2_lt hpos.ne').mpr h)
  rw [ulp,Nat.sub_eq_zero_of_le hlog,Nat.pow_zero]

theorem ulp_le (h : n ≤ 2 ^ 64) : ulp n ≤ 2 ^ 12 := by
  refine Nat.pow_le_pow_right (by decide) ?_
  have hlog : n.log2 ≤ 64 := by
    rcases Nat.eq_zero_or_pos n with rfl | hpos
    · decide
    · exact (Nat.pow_le_pow_iff_right (by decide)).mp ((Nat.log2_self_le hpos.ne').trans h)
  omega

theorem significand_of_dvd (h : ulp n ∣ n) : significand n = n / ulp n := by
  have hrest : n % ulp n = 0 := Nat.mod_eq_zero_of_dvd h
  have hpos := ulp_pos n
  unfold significand
  dsimp only
  rw [hrest,if_neg (by omega)]

theorem round_eq_self_iff : round n = n ↔ ulp n ∣ n := by
  constructor
  · intro h
    exact ⟨significand n,by rw [Nat.mul_comm]; exact h.symm⟩
  · intro h
    rw [round,significand_of_dvd h,Nat.div_mul_cancel h]

theorem round_near (n : ℕ) : n < round n + ulp n ∧ round n < n + ulp n := by
  have hpos := ulp_pos n
  have hsplit := Nat.div_add_mod n (ulp n)
  have hrest := Nat.mod_lt n hpos
  have hcomm : ulp n * (n / ulp n) = n / ulp n * ulp n := Nat.mul_comm ..
  unfold round significand
  dsimp only
  split_ifs with hup
  · rw [Nat.add_mul,Nat.one_mul]
    omega
  · omega

theorem significand_mem (h : 52 ≤ n.log2) : 2 ^ 52 ≤ significand n ∧ significand n ≤ 2 ^ 53 := by
  have hne : n ≠ 0 := by
    rintro rfl
    simp at h
  have hlow : 2 ^ 52 * ulp n ≤ n := by
    rw [ulp,← Nat.pow_add,Nat.add_sub_cancel' h]
    exact Nat.log2_self_le hne
  have hhigh : n < 2 ^ 53 * ulp n := by
    have hexp : 53 + (n.log2 - 52) = n.log2 + 1 := by omega
    rw [ulp,← Nat.pow_add,hexp]
    exact Nat.lt_log2_self
  have hle : 2 ^ 52 ≤ n / ulp n := (Nat.le_div_iff_mul_le (ulp_pos n)).mpr hlow
  have hlt : n / ulp n < 2 ^ 53 := (Nat.div_lt_iff_lt_mul (ulp_pos n)).mpr hhigh
  unfold significand
  dsimp only
  split_ifs <;> omega

theorem significand_eq (hsmall : n.log2 < 52) : significand n = n := by
  have hulp : ulp n = 1 := by rw [ulp,Nat.sub_eq_zero_of_le hsmall.le,Nat.pow_zero]
  rw [significand_of_dvd (hulp ▸ Nat.one_dvd n),hulp,Nat.div_one]

def scaled (exponent fraction : ℕ) : ℕ := if exponent = 0 then fraction else (2 ^ 52 + fraction) * 2 ^ (exponent - 1)

theorem magnitude_of_scaled {exponent fraction n unit : ℕ} (hunit : unit = 1074) (hfraction : fraction < 2 ^ 52)
    (h : scaled exponent fraction = n * 2 ^ unit) : magnitude exponent fraction = n := by
  have hsmall : exponent < 1023 → scaled exponent fraction < 2 ^ unit := by
    intro hexponent
    unfold scaled
    split_ifs with hzero
    · exact hfraction.trans (Nat.pow_lt_pow_right (by decide) (by omega))
    · calc (2 ^ 52 + fraction) * 2 ^ (exponent - 1)
          < 2 ^ 53 * 2 ^ (exponent - 1) := Nat.mul_lt_mul_of_pos_right (by omega) (Nat.two_pow_pos _)
        _ = 2 ^ (53 + (exponent - 1)) := (Nat.pow_add ..).symm
        _ ≤ 2 ^ unit := Nat.pow_le_pow_right (by decide) (by omega)
  unfold magnitude
  split_ifs with hlow hhigh
  · have hlt := hsmall hlow
    rw [h] at hlt
    have hone : n < 1 := Nat.lt_of_mul_lt_mul_right (a := 2 ^ unit) (by rw [Nat.one_mul]; exact hlt)
    omega
  · have hexponent : exponent - 1 = exponent - 1075 + unit := by omega
    rw [scaled,if_neg (by omega),hexponent,Nat.pow_add,← Nat.mul_assoc] at h
    exact Nat.eq_of_mul_eq_mul_right (Nat.two_pow_pos _) h
  · have hexponent : unit = 1075 - exponent + (exponent - 1) := by omega
    rw [scaled,if_neg (by omega),hexponent,Nat.pow_add,← Nat.mul_assoc] at h
    rw [Nat.eq_of_mul_eq_mul_right (Nat.two_pow_pos _) h,Nat.mul_div_cancel _ (Nat.two_pow_pos _)]

theorem scaled_encode (n : ℕ) {unit : ℕ} (hunit : unit = 1074) :
    scaled (encode n / 2 ^ 52) (encode n % 2 ^ 52) = round n * 2 ^ unit := by
  rcases Nat.eq_zero_or_pos n with rfl | hpos
  · have hround : round 0 = 0 := rfl
    rw [hround,Nat.zero_mul]
    rfl
  have hnormal : ∀ exponent fraction, encode n / 2 ^ 52 = exponent + 1 → encode n % 2 ^ 52 = fraction →
      scaled (encode n / 2 ^ 52) (encode n % 2 ^ 52) = (2 ^ 52 + fraction) * 2 ^ exponent := by
    intro exponent fraction hexponent hfraction
    rw [hexponent,hfraction,scaled,if_neg (by omega),Nat.add_sub_cancel]
  rcases Nat.lt_or_ge n.log2 52 with hsmall | hlarge
  · have hulp : ulp n = 1 := by rw [ulp,Nat.sub_eq_zero_of_le hsmall.le,Nat.pow_zero]
    have hsig := significand_eq hsmall
    have hlow : 2 ^ 52 ≤ n * 2 ^ (52 - n.log2) := by
      have hpower : 2 ^ n.log2 * 2 ^ (52 - n.log2) = 2 ^ 52 := by rw [← Nat.pow_add,Nat.add_sub_cancel' hsmall.le]
      rw [← hpower]
      exact Nat.mul_le_mul_right _ (Nat.log2_self_le hpos.ne')
    have hhigh : n * 2 ^ (52 - n.log2) < 2 ^ 53 := by
      have hpower : 2 ^ (n.log2 + 1) * 2 ^ (52 - n.log2) = 2 ^ 53 := by
        rw [← Nat.pow_add]
        congr 1
        omega
      rw [← hpower]
      exact Nat.mul_lt_mul_of_pos_right Nat.lt_log2_self (Nat.two_pow_pos _)
    have hpattern : encode n = (n.log2 + 1022) * 2 ^ 52 + n * 2 ^ (52 - n.log2) := by
      rw [encode,if_neg hpos.ne',hsig]
    have hfraction : 2 ^ 52 + encode n % 2 ^ 52 = n * 2 ^ (52 - n.log2) := by omega
    have hunits : 52 - n.log2 + (n.log2 + 1022) = unit := by omega
    rw [hnormal (n.log2 + 1022) _ (by omega) rfl,hfraction,Nat.mul_assoc,← Nat.pow_add,hunits,
      round,hsig,hulp,Nat.mul_one]
  · obtain ⟨hlow,hhigh⟩ := significand_mem hlarge
    have hpattern : encode n = (n.log2 + 1022) * 2 ^ 52 + significand n := by
      rw [encode,if_neg hpos.ne',Nat.sub_eq_zero_of_le hlarge,Nat.pow_zero,Nat.mul_one]
    have hunits : n.log2 + 1022 = n.log2 - 52 + unit := by omega
    rcases hhigh.lt_or_eq with hlt | hcarry
    · have hfraction : 2 ^ 52 + encode n % 2 ^ 52 = significand n := by omega
      rw [hnormal (n.log2 + 1022) _ (by omega) rfl,hfraction,hunits,Nat.pow_add,← Nat.mul_assoc]
      rfl
    · have hfraction : encode n % 2 ^ 52 = 0 := by omega
      rw [hnormal (n.log2 + 1023) 0 (by omega) hfraction,round,hcarry,ulp,Nat.add_zero,
        show n.log2 + 1023 = n.log2 - 52 + unit + 1 by omega,Nat.pow_succ,Nat.pow_add]
      ring

theorem magnitude_encode (n : ℕ) : magnitude (encode n / 2 ^ 52) (encode n % 2 ^ 52) = round n :=
  magnitude_of_scaled rfl (Nat.mod_lt _ (Nat.two_pow_pos 52)) (scaled_encode n rfl)

theorem encode_lt (h : n ≤ 2 ^ 64) : encode n / 2 ^ 52 < 2047 := by
  rcases Nat.eq_zero_or_pos n with rfl | hpos
  · decide
  have hlog : n.log2 ≤ 64 :=
    (Nat.pow_le_pow_iff_right (by decide)).mp ((Nat.log2_self_le hpos.ne').trans h)
  have hscaled : significand n * 2 ^ (52 - n.log2) ≤ 2 ^ 53 := by
    rcases Nat.lt_or_ge n.log2 52 with hsmall | hlarge
    · have hhigh : 2 ^ (n.log2 + 1) * 2 ^ (52 - n.log2) = 2 ^ 53 := by
        rw [← Nat.pow_add]
        congr 1
        omega
      rw [significand_eq hsmall,← hhigh]
      exact Nat.mul_le_mul_right _ Nat.lt_log2_self.le
    · rw [Nat.sub_eq_zero_of_le hlarge,Nat.pow_zero,Nat.mul_one]
      exact (significand_mem hlarge).2
  rw [encode,if_neg hpos.ne']
  omega

theorem round_lt_iff (h : n ≤ 2 ^ 63) : round n ≤ 2 ^ 63 ∧ (round n < 2 ^ 63 ↔ n < 2 ^ 63 - 512) := by
  rcases Nat.lt_or_ge n (2 ^ 62) with hsmall | hlarge
  · have hulp := ulp_le (h.trans (by decide))
    have hnear := round_near n
    omega
  rcases h.lt_or_eq with hlt | heq
  · have hlog : n.log2 = 62 := (Nat.log2_eq_iff (by omega)).mpr ⟨hlarge,hlt⟩
    have hulp : ulp n = 1024 := by
      rw [ulp,hlog]
      rfl
    rw [round,significand,hulp]
    split_ifs <;> omega
  · subst heq
    decide

end Binary64
end FeatureRuntime
