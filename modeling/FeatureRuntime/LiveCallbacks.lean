import Mathlib.Data.Int.Notation
import Mathlib.Tactic.Tauto

/-! Which callbacks of the instances of a feature are registered, as far as a feature can tell. -/
namespace FeatureRuntime.LiveCallbacks

variable {ι : Type} [DecidableEq ι]

/-- The framework registers a callback of an argument; where the argument has none its number is zero. -/
def register (live : ι → ℤ → Bool) (feature : ι) (id : ℤ) : ι → ℤ → Bool :=
  fun other n => live other n || decide (other = feature ∧ n = id ∧ 0 < id)

/-- `FeatureRemoveCallback`. -/
def remove (live : ι → ℤ → Bool) (feature : ι) (id : ℤ) : ι → ℤ → Bool :=
  fun other n => live other n && !decide (other = feature ∧ n = id)

/-- `REMOVE_ALL_CALLBACK`. -/
def removeAll (live : ι → ℤ → Bool) (feature : ι) (callback fail : ℤ) : ι → ℤ → Bool :=
  remove (remove live feature callback) feature fail

@[simp] theorem register_iff (live : ι → ℤ → Bool) (feature other : ι) (id n : ℤ) :
    register live feature id other n = true ↔ live other n = true ∨ other = feature ∧ n = id ∧ 0 < id := by
  simp [register]

@[simp] theorem remove_iff (live : ι → ℤ → Bool) (feature other : ι) (id n : ℤ) :
    remove live feature id other n = true ↔ live other n = true ∧ ¬ (other = feature ∧ n = id) := by
  simp only [remove,Bool.and_eq_true,Bool.not_eq_true',decide_eq_false_iff_not]

@[simp] theorem removeAll_iff (live : ι → ℤ → Bool) (feature other : ι) (callback fail n : ℤ) :
    removeAll live feature callback fail other n = true ↔
      live other n = true ∧ ¬ (other = feature ∧ (n = callback ∨ n = fail)) := by
  simp only [removeAll,remove_iff]
  tauto

end FeatureRuntime.LiveCallbacks
