import Mathlib.Data.List.Basic
import Mathlib.Data.Nat.Notation

/-! Lists that grow at their end while one of their elements is filled: what a reader of the other
elements can rely on. -/
namespace FeatureRuntime

variable {α : Type*}

/-- Elements from `low` on that are in one list are in the other. -/
def AgreeFrom (xs ys : List α) (low : ℕ) : Prop :=
  ∀ i, low ≤ i → ∀ x, xs[i]? = some x → ys[i]? = some x

/-- The list has changed in one element only, and has new ones. -/
structure GrowsAt (id : ℕ) (xs ys : List α) : Prop where
  length : xs.length ≤ ys.length
  kept : ∀ i < xs.length, i ≠ id → ys[i]? = xs[i]?

variable {xs ys zs : List α} {id low : ℕ}

theorem agreeFrom_refl (xs : List α) (low : ℕ) : AgreeFrom xs xs low := fun _ _ _ h => h

theorem AgreeFrom.trans (h : AgreeFrom xs ys low) (h' : AgreeFrom ys zs low) : AgreeFrom xs zs low :=
  fun i hi x hx => h' i hi x (h i hi x hx)

theorem agreeFrom_of_start (h : xs <+: ys) (low : ℕ) : AgreeFrom xs ys low := by
  obtain ⟨rest,rfl⟩ := h
  intro i _ x hx
  rw [List.getElem?_append_left (List.getElem?_eq_some_iff.mp hx).1]
  exact hx

theorem agreeFrom_set (h : id < low) (xs : List α) (x : α) : AgreeFrom xs (xs.set id x) low := by
  intro i hi y hy
  rw [List.getElem?_set_ne (by omega)]
  exact hy

theorem GrowsAt.refl (id : ℕ) (xs : List α) : GrowsAt id xs xs :=
  ⟨Nat.le_refl _,fun _ _ _ => rfl⟩

theorem GrowsAt.trans (h : GrowsAt id xs ys) (h' : GrowsAt id ys zs) : GrowsAt id xs zs :=
  ⟨Nat.le_trans h.length h'.length,fun i hi hne => by
    rw [h'.kept i (Nat.lt_of_lt_of_le hi h.length) hne,h.kept i hi hne]⟩

theorem growsAt_of_start (h : xs <+: ys) : GrowsAt id xs ys := by
  obtain ⟨rest,rfl⟩ := h
  exact ⟨by simp,fun i hi _ => List.getElem?_append_left hi⟩

theorem growsAt_set (id : ℕ) (xs : List α) (x : α) : GrowsAt id xs (xs.set id x) :=
  ⟨by simp,fun i _ hne => List.getElem?_set_ne hne.symm⟩

theorem GrowsAt.prefix_of_last {x : α} (h : GrowsAt xs.length (xs ++ [x]) ys) : xs <+: ys := by
  rw [List.prefix_iff_getElem?]
  intro i hi
  have hlast : i < (xs ++ [x]).length := by
    rw [List.length_append]
    omega
  rw [h.kept i hlast (Nat.ne_of_lt hi),List.getElem?_append_left hi,List.getElem?_eq_getElem hi]

theorem GrowsAt.agreeFrom (h : GrowsAt id xs ys) : AgreeFrom xs ys (id + 1) := by
  intro i hi x hx
  rw [h.kept i (List.getElem?_eq_some_iff.mp hx).1 (by omega)]
  exact hx

end FeatureRuntime
