import Mathlib.Data.List.Forall2
import Mathlib.Data.Nat.Notation
import Mathlib.Logic.Relation

/-! What a node of a hierarchy inherits: contributions are collected from the parents in order,
each with all that it inherits itself, and then from the node. The recursion is bounded, since a
hierarchy may have cycles; without them every large enough bound gives the same. -/
namespace FeatureRuntime.Inheritance

section MapM

variable {α β γ : Type*}

variable {l : List α}

/-- A sequence of partial results exists exactly when each of them does. -/
theorem mapM_eq_some_iff {f : α → Option β} {bs : List β} :
    l.mapM f = some bs ↔ List.Forall₂ (fun a b => f a = some b) l bs := by
  induction l generalizing bs with
  | nil =>
    rw [List.mapM_nil,List.forall₂_nil_left_iff]
    exact ⟨fun h => (Option.some.inj h).symm,fun h => congrArg some h.symm⟩
  | cons a l ih =>
    rw [List.mapM_cons,List.forall₂_cons_left_iff]
    cases ha : f a with
    | none => simp
    | some b =>
      cases hl : l.mapM f with
      | none =>
        refine iff_of_false (by simp) ?_
        rintro ⟨_,us,-,hus,-⟩
        rw [← ih,hl] at hus
        cases hus
      | some us =>
        constructor
        · intro h
          cases h
          exact ⟨b,us,rfl,ih.mp hl,rfl⟩
        · rintro ⟨_,vs,hb,hvs,rfl⟩
          cases hb
          rw [← ih,hl] at hvs
          cases hvs
          rfl

theorem getElem?_result {R : α → β → Prop} {bs : List β} (h : List.Forall₂ R l bs)
    {i : ℕ} {a : α} (ha : l[i]? = some a) : ∃ b, bs[i]? = some b ∧ R a b := by
  induction h generalizing i with
  | nil => simp at ha
  | cons hab _ ih =>
    cases i with
    | zero =>
      obtain rfl := Option.some.inj ha
      exact ⟨_,rfl,hab⟩
    | succ i => exact ih ha

theorem exists_result {R : α → β → Prop} {bs : List β} (h : List.Forall₂ R l bs)
    {a : α} (ha : a ∈ l) : ∃ b ∈ bs, R a b := by
  obtain ⟨i,hi⟩ := List.getElem?_of_mem ha
  obtain ⟨b,hb,hR⟩ := getElem?_result h hi
  exact ⟨b,List.mem_of_getElem? hb,hR⟩

theorem mapM_congr {f g : α → Option β} (h : ∀ a ∈ l, f a = g a) : l.mapM f = l.mapM g := by
  induction l with
  | nil => rfl
  | cons a l ih =>
    rw [List.mapM_cons,List.mapM_cons,h a List.mem_cons_self,ih (fun b hb => h b (List.mem_cons_of_mem _ hb))]

end MapM

section Collect

variable {K M N : Type*}

/-- Collects from the parents of a node and from the node itself, at most `depth` levels deep. -/
def collect (parents : K → List K) (own : K → Option M) (combine : M → M → M) (init : M) : ℕ → K → Option M
  | 0, _ => none
  | depth + 1, k => do
    let inherited ← (parents k).mapM (collect parents own combine init depth)
    let mine ← own k
    return combine (inherited.foldl combine init) mine

def inherit (parents : K → List K) (own : K → Option M) (combine : M → M → M) (init : M)
    (depth : ℕ) (k : K) : Option M := do
  let inherited ← (parents k).mapM (collect parents own combine init depth)
  return inherited.foldl combine init

variable {parents : K → List K} {own : K → Option M} {combine : M → M → M} {init : M}
  {depth : ℕ} {k : K} {a : M}

theorem inherit_eq_some_iff : inherit parents own combine init depth k = some a ↔
      ∃ inherited, List.Forall₂ (fun p b => collect parents own combine init depth p = some b)
        (parents k) inherited ∧ a = inherited.foldl combine init := by
  unfold inherit
  simp only [← mapM_eq_some_iff]
  cases (parents k).mapM (collect parents own combine init depth) with
  | none => simp
  | some inherited => simp [eq_comm]

theorem collect_succ_eq_some_iff : collect parents own combine init (depth + 1) k = some a ↔
      ∃ b mine, inherit parents own combine init depth k = some b ∧ own k = some mine ∧ a = combine b mine := by
  rw [collect,inherit]
  cases (parents k).mapM (collect parents own combine init depth) with
  | none => simp
  | some inherited =>
    cases own k with
    | none => simp
    | some mine => simp [eq_comm]

theorem collect_succ (h : collect parents own combine init depth k = some a) :
    collect parents own combine init (depth + 1) k = some a := by
  induction depth generalizing k a with
  | zero => cases h
  | succ depth ih =>
    rw [collect_succ_eq_some_iff] at h ⊢
    obtain ⟨b,mine,hb,hmine,ha⟩ := h
    obtain ⟨inherited,hinherited,hfold⟩ := inherit_eq_some_iff.mp hb
    exact ⟨b,mine,inherit_eq_some_iff.mpr ⟨inherited,hinherited.imp (fun _ _ => ih),hfold⟩,hmine,ha⟩

theorem inherit_succ (h : inherit parents own combine init depth k = some a) :
    inherit parents own combine init (depth + 1) k = some a := by
  rw [inherit_eq_some_iff] at h ⊢
  obtain ⟨inherited,hinherited,ha⟩ := h
  exact ⟨inherited,hinherited.imp (fun _ _ => collect_succ),ha⟩

def Ancestor (parents : K → List K) : K → K → Prop :=
  Relation.TransGen (fun k p => p ∈ parents k)

theorem Ancestor.parent {p : K} (h : p ∈ parents k) : Ancestor parents k p :=
  Relation.TransGen.single h

theorem Ancestor.of_parent {p n : K} (h : p ∈ parents k) (hn : Ancestor parents p n) :
    Ancestor parents k n :=
  Relation.TransGen.head h hn

theorem Ancestor.mem {S : K → Prop} {n : K} (h : Ancestor parents k n)
    (hk : ∀ p ∈ parents k, S p) (hclosed : ∀ m, S m → ∀ p ∈ parents m, S p) : S n := by
  induction h with
  | single hp => exact hk _ hp
  | tail _ hp ih => exact hclosed _ ih _ hp

section Congr

variable {parents' : K → List K} {own' : K → Option M}

theorem collect_congr (h : ∀ n, Ancestor parents k n → parents n = parents' n ∧ own n = own' n)
    (hparents : parents k = parents' k) (hown : own k = own' k) (depth : ℕ) :
    collect parents own combine init depth k = collect parents' own' combine init depth k := by
  induction depth generalizing k with
  | zero => rfl
  | succ depth ih =>
    rw [collect,collect,← hparents,← hown,mapM_congr]
    intro p hp
    obtain ⟨hpp,hpo⟩ := h p (Ancestor.parent hp)
    exact ih (fun n hn => h n (Ancestor.of_parent hp hn)) hpp hpo

theorem inherit_congr (h : ∀ n, Ancestor parents k n → parents n = parents' n ∧ own n = own' n)
    (hparents : parents k = parents' k) (depth : ℕ) :
    inherit parents own combine init depth k = inherit parents' own' combine init depth k := by
  rw [inherit,inherit,← hparents,mapM_congr]
  intro p hp
  obtain ⟨hpp,hpo⟩ := h p (Ancestor.parent hp)
  exact collect_congr (fun n hn => h n (Ancestor.of_parent hp hn)) hpp hpo depth

end Congr

section Relation

variable (R : M → N → Prop) (own' : K → Option N) (combine' : N → N → N) (init' : N)
variable (hinit : R init init') (hcombine : ∀ {a a' b b'}, R a a' → R b b' → R (combine a b) (combine' a' b'))
include hinit hcombine

/-- Relations between what the parents collect pass to what is inherited from them. -/
theorem inherit_rel_of_collect
    (hcollect : ∀ p b, collect parents own combine init depth p = some b →
      ∃ b', collect parents own' combine' init' depth p = some b' ∧ R b b')
    (h : inherit parents own combine init depth k = some a) :
    ∃ b, inherit parents own' combine' init' depth k = some b ∧ R a b := by
  obtain ⟨as,has,rfl⟩ := inherit_eq_some_iff.mp h
  have hparents : ∃ bs, List.Forall₂ (fun p b => collect parents own' combine' init' depth p = some b) (parents k)
        bs ∧ List.Forall₂ R as bs := by
    clear h
    generalize parents k = ps at has
    induction has with
    | nil => exact ⟨[],.nil,.nil⟩
    | cons hp _ ih =>
      obtain ⟨bs,hbs,hR⟩ := ih
      obtain ⟨b,hb,hRb⟩ := hcollect _ _ hp
      exact ⟨b :: bs,.cons hb hbs,.cons hRb hR⟩
  have hlift : Relator.LiftFun R (Relator.LiftFun R R) combine combine' :=
    fun _ _ hab _ _ hcd => hcombine hab hcd
  obtain ⟨bs,hbs,hR⟩ := hparents
  exact ⟨_,inherit_eq_some_iff.mpr ⟨bs,hbs,rfl⟩,List.rel_foldl hlift hinit hR⟩

variable (hown : ∀ k a, own k = some a → ∃ b, own' k = some b ∧ R a b)
include hown

/-- Contributions that exist together are collected together, and a relation that the combinations
keep relates what is collected. -/
theorem collect_rel (h : collect parents own combine init depth k = some a) :
    ∃ b, collect parents own' combine' init' depth k = some b ∧ R a b := by
  induction depth generalizing k a with
  | zero => cases h
  | succ depth ih =>
    obtain ⟨b,mine,hb,hmine,rfl⟩ := collect_succ_eq_some_iff.mp h
    obtain ⟨mine',hmine',hrel⟩ := hown k mine hmine
    obtain ⟨b',hb',hR⟩ :=
      inherit_rel_of_collect R own' combine' init' hinit hcombine (fun _ _ => ih) hb
    exact ⟨_,collect_succ_eq_some_iff.mpr ⟨b',mine',hb',hmine',rfl⟩,hcombine hR hrel⟩

theorem inherit_rel (h : inherit parents own combine init depth k = some a) :
    ∃ b, inherit parents own' combine' init' depth k = some b ∧ R a b :=
  inherit_rel_of_collect R own' combine' init' hinit hcombine
    (fun _ _ => collect_rel R own' combine' init' hinit hcombine hown) h

end Relation

theorem collect_property {P : M → Prop} (hinit : P init)
    (hcombine : ∀ {a b}, P a → P b → P (combine a b)) (hown : ∀ k a, own k = some a → P a)
    (h : collect parents own combine init depth k = some a) : P a := by
  obtain ⟨-,-,ha⟩ := collect_rel (fun a (_ : Unit) => P a) (fun _ => some ()) (fun _ _ => ()) ()
    hinit hcombine (fun k a hk => ⟨(),rfl,hown k a hk⟩) h
  exact ha

end Collect

end FeatureRuntime.Inheritance
