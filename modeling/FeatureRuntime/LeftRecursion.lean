import Mathlib.Data.List.Basic

/-! Lists in a grammar with left recursion: their derivations, and the semantic actions that a parser runs
bottom up on them. -/
namespace FeatureRuntime.LeftRecursion

universe u

/-- A derivation of `list : element | list element`; a separator leaves no value. -/
inductive LeftList (α : Type u)
  | one (element : α)
  | more (list : LeftList α) (element : α)

/-- A derivation of `list : | list element`. -/
inductive LeftStar (α : Type u)
  | nil
  | more (list : LeftStar α) (element : α)

def LeftList.elements {α : Type u} : LeftList α → List α
  | .one element => [element]
  | .more list element => list.elements ++ [element]

def LeftStar.elements {α : Type u} : LeftStar α → List α
  | .nil => []
  | .more list element => list.elements ++ [element]

/-- The semantic actions of the two alternatives, on the values of their symbols. -/
structure ListActions (ε β γ : Type u) where
  one : β → Except ε γ
  more : γ → β → Except ε γ

/-- The semantic actions when the first alternative is empty. -/
structure StarActions (ε β γ : Type u) where
  nil : Except ε γ
  more : γ → β → Except ε γ

section Run

variable {ε α β γ : Type u}

def LeftList.run (A : ListActions ε β γ) (f : α → Except ε β) : LeftList α → Except ε γ
  | .one element => do
    let p1 ← f element
    A.one p1
  | .more list element => do
    let p1 ← list.run A f
    let p2 ← f element
    A.more p1 p2

def LeftStar.run (A : StarActions ε β γ) (f : α → Except ε β) : LeftStar α → Except ε γ
  | .nil => A.nil
  | .more list element => do
    let p1 ← list.run A f
    let p2 ← f element
    A.more p1 p2

end Run

section Except

variable {ε α β : Type u}

@[simp] theorem ok_bind (a : α) (f : α → Except ε β) : (Except.ok a >>= f) = f a := rfl

@[simp] theorem error_bind (e : ε) (f : α → Except ε β) : (Except.error e >>= f) = .error e := rfl

@[simp] theorem pure_eq_ok (a : α) : (pure a : Except ε α) = .ok a := rfl

end Except

section Accumulate

variable {ε α β : Type u}

/-- The first value becomes a list, and each further one goes to its end. -/
structure ListActions.Accumulates (A : ListActions ε β (List β)) : Prop where
  one : ∀ b, A.one b = .ok [b]
  more : ∀ l b, A.more l b = .ok (l ++ [b])

structure StarActions.Accumulates (A : StarActions ε β (List β)) : Prop where
  nil : A.nil = .ok []
  more : ∀ l b, A.more l b = .ok (l ++ [b])

theorem mapM_concat (f : α → Except ε β) (l : List α) (a : α) : (l ++ [a]).mapM f = (do
      let p1 ← l.mapM f
      let p2 ← f a
      .ok (p1 ++ [p2])) := by
  rw [List.mapM_append]
  cases l.mapM f with
  | error e => rfl
  | ok p1 =>
    rw [ok_bind,ok_bind]
    cases h : f a <;> simp [h]

variable {A : ListActions ε β (List β)}

theorem LeftList.run_eq_mapM (hA : A.Accumulates) (f : α → Except ε β)
    (list : LeftList α) : list.run A f = list.elements.mapM f := by
  induction list with
  | one element =>
    simp only [run,elements,hA.one]
    cases h : f element <;> simp [h]
  | more list element ih =>
    rw [run,elements,mapM_concat,ih]
    simp only [hA.more]

theorem LeftStar.run_eq_mapM {A : StarActions ε β (List β)} (hA : A.Accumulates) (f : α → Except ε β)
    (list : LeftStar α) : list.run A f = list.elements.mapM f := by
  induction list with
  | nil => exact hA.nil
  | more list element ih =>
    rw [run,elements,mapM_concat,ih]
    simp only [hA.more]

theorem mapM_eq_ok_map_iff (f : α → Except ε β) (g : α → β) (l : List α) :
    l.mapM f = .ok (l.map g) ↔ ∀ a ∈ l, f a = .ok (g a) := by
  induction l with
  | nil => simp
  | cons a l ih =>
    rw [List.mapM_cons,List.forall_mem_cons,← ih]
    cases f a with
    | error e => simp
    | ok b =>
      cases l.mapM f with
      | error e => simp
      | ok bs => simp

theorem LeftList.run_eq_ok_iff (hA : A.Accumulates) (f : α → Except ε β) (g : α → β) (list : LeftList α) :
    list.run A f = .ok (list.elements.map g) ↔ ∀ a ∈ list.elements, f a = .ok (g a) := by
  rw [run_eq_mapM hA]
  exact mapM_eq_ok_map_iff f g list.elements

theorem LeftStar.run_eq_ok_iff {A : StarActions ε β (List β)} (hA : A.Accumulates) (f : α → Except ε β)
    (g : α → β) (list : LeftStar α) :
    list.run A f = .ok (list.elements.map g) ↔ ∀ a ∈ list.elements, f a = .ok (g a) := by
  rw [run_eq_mapM hA]
  exact mapM_eq_ok_map_iff f g list.elements

theorem LeftList.run_eq_ok (hA : A.Accumulates) {f : α → Except ε β}
    {g : α → β} (h : ∀ a, f a = .ok (g a)) (list : LeftList α) :
    list.run A f = .ok (list.elements.map g) := (run_eq_ok_iff hA f g list).mpr (fun a _ => h a)

theorem LeftList.elements_ne_nil (list : LeftList α) : list.elements ≠ [] := by
  cases list <;> simp [elements]

end Accumulate

section Build

variable {ε α β : Type u}

theorem map_eq_ok_iff {f : α → β} (hf : Function.Injective f) (x : Except ε α) (a : α) :
    f <$> x = .ok (f a) ↔ x = .ok a := by
  cases x with
  | error e => exact iff_of_false nofun nofun
  | ok b => exact ⟨fun h => congrArg _ (hf (Except.ok.inj h)),fun h => congrArg _ (congrArg f (Except.ok.inj h))⟩

end Build

end FeatureRuntime.LeftRecursion
