import Mathlib.Algebra.Group.Int.Defs
import Mathlib.Algebra.Group.Nat.Defs
import Mathlib.Data.Int.Notation
import Mathlib.Data.Nat.Notation

/-! Arithmetic of `int32_t` and of `size_t`: checked signed results, and the conversions that
wrap. -/
namespace FeatureRuntime

/-- `INT32_MAX`. -/
def intMax : ℤ := 2147483647

def toInt (x : ℤ) : ℤ := x.bmod 4294967296

theorem toInt_of_le {x : ℤ} (h0 : 0 ≤ x) (h : x ≤ intMax) : toInt x = x := by
  unfold intMax at h
  rw [toInt,Int.bmod_def]
  omega

theorem toInt_succ_intMax : toInt (intMax + 1) = -2147483648 := by decide

def signed (x : ℤ) : Option ℤ := if -intMax - 1 ≤ x ∧ x ≤ intMax then some x else none

theorem signed_of_le {x : ℤ} (h0 : 0 ≤ x) (h : x ≤ intMax) : signed x = some x := by
  have hlow : -intMax - 1 ≤ x := by
    unfold intMax
    omega
  simp [signed,hlow,h]

/-- Conversion to a `size_t` with the given number of values. -/
def sizeT (space : ℕ) (x : ℤ) : ℕ := (x % space).toNat

theorem sizeT_natCast {space n : ℕ} (h : n < space) : sizeT space n = n := by
  have hmod : (n : ℤ) % space = n := Int.emod_eq_of_lt (by omega) (by omega)
  rw [sizeT,hmod,Int.toNat_natCast]

theorem sizeT_of_lt {space n : ℕ} {x : ℤ} (hx : x = n) (h : n < space) : sizeT space x = n := by
  rw [hx,sizeT_natCast h]

end FeatureRuntime
