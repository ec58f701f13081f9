import Mathlib.Data.List.Infix
import Mathlib.Logic.Function.Basic

/-! Deterministic labelled systems: guarded runs, properties of every state of a run, and the
induction rules that derive them from facts about one step. -/
namespace FeatureRuntime.Transition

variable {σ α : Type*} (step : σ → α → σ)

def run (s : σ) (labels : List α) : σ := labels.foldl step s

@[simp] theorem run_nil (s : σ) : run step s [] = s := rfl

@[simp] theorem run_cons (s : σ) (a : α) (labels : List α) :
    run step s (a :: labels) = run step (step s a) labels := rfl

theorem run_append (s : σ) (xs ys : List α) : run step s (xs ++ ys) = run step (run step s xs) ys := by
  simp [run,List.foldl_append]

/-- Every label meets `good` in the state before it. -/
def Guarded (good : σ → α → Prop) : σ → List α → Prop
  | _, [] => True
  | s, a :: labels => good s a ∧ Guarded good (step s a) labels

/-- `P` holds initially and after every label of the run. -/
def Always (P : σ → Prop) : σ → List α → Prop
  | s, [] => P s
  | s, a :: labels => P s ∧ Always P (step s a) labels

variable {step}

theorem Always.head {P : σ → Prop} {s : σ} {labels : List α} (h : Always step P s labels) : P s := by
  cases labels with
  | nil => exact h
  | cons a labels => exact h.1

theorem always_iff_reached {P : σ → Prop} (s : σ) (labels : List α) :
    Always step P s labels ↔ ∀ pre, pre <+: labels → P (run step s pre) := by
  induction labels generalizing s with
  | nil => simp [Always]
  | cons a labels ih =>
    simp only [Always,ih]
    constructor
    · rintro ⟨hs,hrest⟩ pre hpre
      cases pre with
      | nil => exact hs
      | cons b pre =>
        obtain ⟨rfl,htail⟩ := List.cons_prefix_cons.mp hpre
        exact hrest pre htail
    · intro h
      refine ⟨h [] List.nil_prefix,fun pre hpre => ?_⟩
      exact h (a :: pre) (List.cons_prefix_cons.mpr ⟨rfl,hpre⟩)

theorem Always.last {P : σ → Prop} {s : σ} {labels : List α} (h : Always step P s labels) : P (run step s labels) :=
  (always_iff_reached s labels).mp h labels List.prefix_rfl

theorem Always.mono {P Q : σ → Prop} (hPQ : ∀ s, P s → Q s) {s : σ} {labels : List α}
    (h : Always step P s labels) : Always step Q s labels := by
  rw [always_iff_reached] at h ⊢
  exact fun pre hpre => hPQ _ (h pre hpre)

theorem Guarded.always {good : σ → α → Prop} {I : σ → Prop}
    (hstep : ∀ s a, I s → good s a → I (step s a)) {s : σ} (hs : I s) {labels : List α}
    (h : Guarded step good s labels) : Always step I s labels := by
  induction labels generalizing s with
  | nil => exact hs
  | cons a labels ih => exact ⟨hs,ih (hstep s a hs h.1) h.2⟩

theorem Guarded.and {good good' : σ → α → Prop} {s : σ} {labels : List α} (h : Guarded step good s labels)
    (h' : Guarded step good' s labels) : Guarded step (fun s a => good s a ∧ good' s a) s labels := by
  induction labels generalizing s with
  | nil => trivial
  | cons a labels ih => exact ⟨⟨h.1,h'.1⟩,ih h.2 h'.2⟩

theorem guarded_append {good : σ → α → Prop} (s : σ) (xs ys : List α) :
    Guarded step good s (xs ++ ys) ↔ Guarded step good s xs ∧ Guarded step good (run step s xs) ys := by
  induction xs generalizing s with
  | nil => simp [Guarded]
  | cons a xs ih => simp only [List.cons_append,Guarded,ih,run_cons,and_assoc]

theorem Guarded.imp {good good' : σ → α → Prop} {I : σ → Prop} (himp : ∀ s a, I s → good s a → good' s a)
    (hstep : ∀ s a, I s → good s a → I (step s a)) {s : σ} (hs : I s) {labels : List α}
    (h : Guarded step good s labels) : Guarded step good' s labels := by
  induction labels generalizing s with
  | nil => trivial
  | cons a labels ih => exact ⟨himp s a hs h.1,ih (hstep s a hs h.1) h.2⟩

theorem guarded_iff {good good' : σ → α → Prop} {I : σ → Prop} (hiff : ∀ s a, I s → (good s a ↔ good' s a))
    (hstep : ∀ s a, I s → good s a → I (step s a)) {s : σ} (hs : I s) (labels : List α) :
    Guarded step good s labels ↔ Guarded step good' s labels := by
  induction labels generalizing s with
  | nil => exact Iff.rfl
  | cons a labels ih =>
    constructor
    · intro h
      exact ⟨(hiff s a hs).mp h.1,(ih (hstep s a hs h.1)).mp h.2⟩
    · intro h
      have hgood := (hiff s a hs).mpr h.1
      exact ⟨hgood,(ih (hstep s a hs hgood)).mpr h.2⟩

theorem run_invariant {I : σ → Prop} (hstep : ∀ s a, I s → I (step s a)) {s : σ} (hs : I s)
    (labels : List α) : I (run step s labels) := by
  induction labels generalizing s with
  | nil => exact hs
  | cons a labels ih => exact ih (hstep s a hs)

theorem Always.keeps {P D : σ → Prop} (hkeep : ∀ s a, D s → P (step s a) → D (step s a)) {s : σ}
    (hs : D s) {labels : List α} (h : Always step P s labels) : D (run step s labels) := by
  induction labels generalizing s with
  | nil => exact hs
  | cons a labels ih => exact ih (hkeep s a hs h.2.head) h.2

theorem guarded_of_forall {good : σ → α → Prop} (h : ∀ s a, good s a) (s : σ) (labels : List α) :
    Guarded step good s labels := by
  induction labels generalizing s with
  | nil => trivial
  | cons a labels ih => exact ⟨h s a,ih (step s a)⟩

/-- Among runs that meet an assumption: when a step outside the guard dooms the run, a run that holds
`P` throughout and is not doomed at its end is guarded. -/
theorem Always.guarded {assumed good : σ → α → Prop} {I P D : σ → Prop}
    (hstep : ∀ s a, I s → assumed s a → good s a → I (step s a))
    (hdoom : ∀ s a, I s → ¬ good s a → ¬ P (step s a) ∨ D (step s a))
    (hkeep : ∀ s a, D s → P (step s a) → D (step s a)) {s : σ} (hs : I s) {labels : List α}
    (hassumed : Guarded step assumed s labels) (h : Always step P s labels)
    (hend : ¬ D (run step s labels)) : Guarded step good s labels := by
  induction labels generalizing s with
  | nil => trivial
  | cons a labels ih =>
    have hgood : good s a := by
      by_contra hbad
      rcases hdoom s a hs hbad with hP | hD
      · exact hP h.2.head
      · exact hend (h.2.keeps hkeep hD)
    exact ⟨hgood,ih (hstep s a hs hassumed.1 hgood) hassumed.2 h.2 hend⟩

/-- When a step outside the guard dooms the run, and a doomed state stays doomed as long as `P`
holds, `P` holds along a run whose last state is not doomed exactly when the run is guarded. -/
theorem always_iff_guarded_of_doomed {good : σ → α → Prop} {I P D : σ → Prop}
    (hIP : ∀ s, I s → P s) (hstep : ∀ s a, I s → good s a → I (step s a))
    (hdoom : ∀ s a, I s → ¬ good s a → ¬ P (step s a) ∨ D (step s a))
    (hkeep : ∀ s a, D s → P (step s a) → D (step s a)) {s : σ} (hs : I s) (labels : List α)
    (hend : P (run step s labels) → ¬ D (run step s labels)) :
    Always step P s labels ↔ Guarded step good s labels := by
  constructor
  · intro h
    exact h.guarded (fun s a hs _ hgood => hstep s a hs hgood) hdoom hkeep hs
      (guarded_of_forall (fun _ _ => trivial) s labels) (hend h.last)
  · intro h
    exact (h.always hstep hs).mono hIP

theorem always_iff_guarded {good : σ → α → Prop} {I P : σ → Prop} (hIP : ∀ s, I s → P s)
    (hstep : ∀ s a, I s → good s a → I (step s a))
    (hbreak : ∀ s a, I s → ¬ good s a → ¬ P (step s a)) {s : σ} (hs : I s) (labels : List α) :
    Always step P s labels ↔ Guarded step good s labels := by
  have hnever : ∀ s a, I s → ¬ good s a → ¬ P (step s a) ∨ False :=
    fun s a hs hbad => .inl (hbreak s a hs hbad)
  exact always_iff_guarded_of_doomed (D := fun _ => False) hIP hstep hnever (fun _ _ h _ => h) hs labels
    (fun _ h => h)

def pointwise {ι : Type*} [DecidableEq ι] (step : σ → α → σ) (s : ι → σ) (a : ι × α) : ι → σ :=
  Function.update s a.1 (step (s a.1) a.2)

theorem always_pointwise_iff_guarded {ι : Type*} [DecidableEq ι] {good : σ → α → Prop} {I P : σ → Prop}
    (hIP : ∀ s, I s → P s) (hstep : ∀ s a, I s → good s a → I (step s a))
    (hbreak : ∀ s a, I s → ¬ good s a → ¬ P (step s a)) {s : ι → σ} (hs : ∀ i, I (s i)) (labels : List (ι × α)) :
    Always (pointwise step) (fun s => ∀ i, P (s i)) s labels ↔
      Guarded (pointwise step) (fun s a => good (s a.1) a.2) s labels := by
  have hkeep : ∀ (s : ι → σ) (a : ι × α), (∀ i, I (s i)) → good (s a.1) a.2 → ∀ i, I (pointwise step s a i) := by
    intro s a h hgood i
    by_cases hi : i = a.1
    · subst hi
      simpa [pointwise] using hstep _ _ (h _) hgood
    · simpa [pointwise,hi] using h i
  have hlose : ∀ (s : ι → σ) (a : ι × α), (∀ i, I (s i)) → ¬ good (s a.1) a.2 → ¬ ∀ i, P (pointwise step s a i) := by
    intro s a h hbad hP
    apply hbreak _ _ (h a.1) hbad
    simpa [pointwise] using hP a.1
  exact always_iff_guarded (fun _ h i => hIP _ (h i)) hkeep hlose hs labels

end FeatureRuntime.Transition
