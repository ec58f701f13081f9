import Mathlib.Algebra.Group.Int.Defs
import Mathlib.Data.Int.Notation
import Mathlib.Data.Nat.Notation

/-! Binary search between two positions, by a probe that says on which side of a position the wanted one is. The numbers
of the machine end at some greatest one, and a probe can be out of range. -/
namespace FeatureRuntime

/-- The position that the probe takes, if there is one. It is undefined where a sum is too large or a probe fails. -/
def bisect (max : ℤ) (probe : ℤ → Option Ordering) (low high : ℤ) : Option (Option ℤ) :=
  if low ≤ high then
    if max < low + high then none
    else
      match probe ((low + high) / 2) with
      | none => none
      | some .eq => some (some ((low + high) / 2))
      | some .lt => bisect max probe ((low + high) / 2 + 1) high
      | some .gt => bisect max probe low ((low + high) / 2 - 1)
  else some none
termination_by (high + 1 - low).toNat

/-- Up to some position the probe points up, and from some position on it points down. -/
structure Sided (probe : ℤ → Option Ordering) (low high : ℤ) : Prop where
  defined : ∀ i, low ≤ i → i ≤ high → (probe i).isSome = true
  below : ∀ i j, low ≤ i → i < j → j ≤ high → probe j = some .lt → probe i = some .lt
  above : ∀ i j, low ≤ i → i < j → j ≤ high → probe i = some .gt → probe j = some .gt

section Bisect

variable {max low high m : ℤ} {probe : ℤ → Option Ordering}

theorem Sided.mono {low' high' : ℤ} (h : Sided probe low high) (hlow : low ≤ low') (hhigh : high' ≤ high) :
    Sided probe low' high' where
  defined i hi hi' := h.defined i (by omega) (by omega)
  below i j hi hij hj := h.below i j (by omega) hij (by omega)
  above i j hi hij hj := h.above i j (by omega) hij (by omega)

theorem bisect_sound (h : bisect max probe low high = some (some m)) : low ≤ m ∧ m ≤ high ∧ probe m = some .eq := by
  fun_induction bisect max probe low high with
  | case1 => cases h
  | case2 => cases h
  | case3 low high hle hsum hprobe =>
    obtain rfl := Option.some.inj (Option.some.inj h)
    exact ⟨by omega,by omega,hprobe⟩
  | case4 low high hle hsum hprobe ih =>
    obtain ⟨hlow,hhigh,heq⟩ := ih h
    exact ⟨by omega,hhigh,heq⟩
  | case5 low high hle hsum hprobe ih =>
    obtain ⟨hlow,hhigh,heq⟩ := ih h
    exact ⟨hlow,by omega,heq⟩
  | case6 => cases h

theorem bisect_complete (h : Sided probe low high) (hnone : bisect max probe low high = some none) (hlow : low ≤ m)
    (hhigh : m ≤ high) : probe m ≠ some .eq := by
  fun_induction bisect max probe low high with
  | case1 => cases hnone
  | case2 => cases hnone
  | case3 => cases hnone
  | case4 low high hle hsum hprobe ih =>
    intro heq
    by_cases hside : m ≤ (low + high) / 2
    · obtain hlt | rfl := Int.lt_or_eq_of_le hside
      · have hbelow := h.below m _ hlow hlt (by omega) hprobe
        rw [heq] at hbelow
        cases hbelow
      · rw [heq] at hprobe
        cases hprobe
    · exact ih (h.mono (by omega) (Int.le_refl _)) hnone (by omega) hhigh heq
  | case5 low high hle hsum hprobe ih =>
    intro heq
    by_cases hside : (low + high) / 2 ≤ m
    · obtain hlt | rfl := Int.lt_or_eq_of_le hside
      · have habove := h.above _ m (by omega) hlt hhigh hprobe
        rw [heq] at habove
        cases habove
      · rw [heq] at hprobe
        cases hprobe
    · exact ih (h.mono (Int.le_refl _) (by omega)) hnone hlow (by omega) heq
  | case6 => omega

theorem bisect_isSome (h : ∀ i, low ≤ i → i ≤ high → (probe i).isSome = true) (hmax : 2 * high ≤ max) :
    (bisect max probe low high).isSome = true := by
  fun_induction bisect max probe low high with
  | case1 low high hle hsum => omega
  | case2 low high hle hsum hprobe =>
    have hdefined := h ((low + high) / 2) (by omega) (by omega)
    rw [hprobe] at hdefined
    cases hdefined
  | case3 => rfl
  | case4 low high hle hsum hprobe ih => exact ih (fun i hi => h i (by omega)) hmax
  | case5 low high hle hsum hprobe ih => exact ih (fun i hi hi' => h i hi (by omega)) (by omega)
  | case6 => rfl

end Bisect

end FeatureRuntime
