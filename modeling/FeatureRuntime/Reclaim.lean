import FeatureRuntime.RefCount

/-! What goes with the last reference to a block: the blocks that nobody else reaches. Any procedure
that only recounts and frees blocks, and leaves a ledger behind, gives back exactly that. -/
namespace FeatureRuntime.RefCount

variable {α : Type*}

/-- The addresses reached from references in `ext` through the bodies of live blocks. -/
inductive Reachable (refs : α → List ℕ) (h : Heap α) (ext : List ℕ) : ℕ → Prop
  | root {p : ℕ} (hp : p ∈ ext) (hne : p ≠ 0) : Reachable refs h ext p
  | step {p q : ℕ} {b : Block α} (hp : Reachable refs h ext p) (hb : h[p]? = some (some b))
      (hq : q ∈ refs b.body) (hne : q ≠ 0) : Reachable refs h ext q

/-- The block at `p` owns a reference to `q`. -/
def Holds (refs : α → List ℕ) (h : Heap α) (p q : ℕ) : Prop :=
  ∃ b, h[p]? = some (some b) ∧ q ∈ refs b.body

def Acyclic (refs : α → List ℕ) (h : Heap α) : Prop := WellFounded (Holds refs h)

inductive CellReduces : Option (Block α) → Option (Block α) → Prop
  | refl (cell : Option (Block α)) : CellReduces cell cell
  | recount (b : Block α) (rc : ℕ) : CellReduces (some b) (some { b with rc := rc })
  | free (b : Block α) : CellReduces (some b) none

def Reduces (h h' : Heap α) : Prop := List.Forall₂ CellReduces h h'

/-- What is left when a reference to `p` was given back and `ext` are the references that remain:
the blocks reached from them, each recounted by the references from blocks that are gone. -/
structure Released (refs : α → List ℕ) (h h' : Heap α) (p : ℕ) (ext : List ℕ) : Prop where
  reduces : Reduces h h'
  kept : ∀ (q : ℕ) (b : Block α), h[q]? = some (some b) → Reachable refs h ext q →
    ∃ rc, h'[q]? = some (some { b with rc := rc }) ∧
      rc + heldBy refs h q + [p].count q = b.rc + heldBy refs h' q
  freed : ∀ (q : ℕ) (b : Block α), h[q]? = some (some b) → ¬ Reachable refs h ext q → h'[q]? = some none

variable {refs : α → List ℕ} {h h' h'' : Heap α} {ext : List ℕ}

theorem acyclic_of_rank (rank : ℕ → ℕ) (hrank : ∀ p q, Holds refs h p q → rank p < rank q) :
    Acyclic refs h :=
  Subrelation.wf (hrank _ _) (InvImage.wf rank Nat.lt_wfRel.wf)

theorem CellReduces.trans {c c' c'' : Option (Block α)} (h₁ : CellReduces c c')
    (h₂ : CellReduces c' c'') : CellReduces c c'' := by
  cases h₁ with
  | refl => exact h₂
  | recount b rc =>
    cases h₂ with
    | refl => exact .recount b rc
    | recount _ rc' => exact .recount b rc'
    | free => exact .free b
  | free b =>
    cases h₂
    exact .free b

theorem Reduces.refl : ∀ h : Heap α, Reduces h h
  | [] => .nil
  | c :: h => .cons (.refl c) (Reduces.refl h)

theorem Reduces.trans (h₁ : Reduces h h') (h₂ : Reduces h' h'') : Reduces h h'' := by
  induction h₁ generalizing h'' with
  | nil => exact h₂
  | cons hc _ ih =>
    cases h₂ with
    | cons hc' hrest => exact .cons (hc.trans hc') (ih hrest)

variable {q : ℕ}

theorem Reduces.cell (hr : Reduces h h') {c : Option (Block α)} (hq : h[q]? = some c) :
    ∃ c', h'[q]? = some c' ∧ CellReduces c c' := by
  induction hr generalizing q with
  | nil => simp at hq
  | cons hc _ ih =>
    cases q with
    | zero =>
      obtain rfl := Option.some.inj hq
      exact ⟨_,rfl,hc⟩
    | succ q => exact ih hq

variable {b : Block α}

theorem Reduces.live (hr : Reduces h h') (hq : h'[q]? = some (some b)) :
    ∃ b₀, h[q]? = some (some b₀) ∧ b₀.body = b.body := by
  induction hr generalizing q with
  | nil => simp at hq
  | cons hc _ ih =>
    cases q with
    | zero =>
      obtain rfl := Option.some.inj hq
      cases hc with
      | refl => exact ⟨b,rfl,rfl⟩
      | recount b₀ rc => exact ⟨b₀,rfl,rfl⟩
    | succ q => exact ih hq

theorem Reduces.set (hr : Reduces h h') {c c' : Option (Block α)} (hq : h'[q]? = some c)
    (hc : CellReduces c c') : Reduces h (h'.set q c') := by
  refine hr.trans ?_
  clear hr
  induction h' generalizing q with
  | nil => simp at hq
  | cons a h' ih =>
    cases q with
    | zero =>
      obtain rfl := Option.some.inj hq
      exact .cons hc (Reduces.refl h')
    | succ q => exact .cons (.refl a) (ih hq)

theorem heldBy_pos {p q : ℕ} (hp : h[p]? = some (some b)) (hq : q ∈ refs b.body) : 0 < heldBy refs h q := by
  have hheld := heldBy_set refs hp none q
  have hcount : 0 < (refs b.body).count q := List.count_pos_iff.mpr hq
  simp only [cellRefs,Option.elim_some,Option.elim_none,List.count_nil] at hheld
  omega

theorem exists_holder (hq : 0 < heldBy refs h q) : ∃ p, Holds refs h p q := by
  obtain ⟨n,hn,hpos⟩ := List.sum_pos_iff_exists_pos_nat.mp hq
  obtain ⟨cell,hcell,rfl⟩ := List.mem_map.mp hn
  obtain ⟨p,hp⟩ := List.getElem?_of_mem hcell
  cases cell with
  | none => simp [cellRefs] at hpos
  | some b => exact ⟨p,b,hp,List.count_pos_iff.mp hpos⟩

theorem Reachable.mono {ext' : List ℕ} (hq : Reachable refs h ext q) (hext : ext ⊆ ext') :
    Reachable refs h ext' q := by
  induction hq with
  | root hp hne => exact .root (hext hp) hne
  | step _ hb hq hne ih => exact .step ih hb hq hne

theorem Reachable.live (hq : Reachable refs h ext q) (hr : Reduces h h')
    (hl : Ledger refs h' ext) : ∃ b, h'[q]? = some (some b) := by
  induction hq with
  | root hp hne => exact hl.live_of_mem hp hne
  | step hp hb hq hne ih =>
    obtain ⟨b',hb'⟩ := ih
    obtain ⟨b₀,hb₀,hbody⟩ := hr.live hb'
    rw [hb] at hb₀
    cases hb₀
    have hheld := heldBy_pos hb' (hbody ▸ hq)
    have hrc := hl.rc_eq _ hne
    exact exists_of_rcOf_pos (by omega)

theorem reachable_of_live (hacyclic : Acyclic refs h) (hr : Reduces h h') (hl : Ledger refs h' ext) (q : ℕ) :
    ∀ b, h'[q]? = some (some b) → Reachable refs h ext q := by
  induction q using hacyclic.induction with
  | h q ih =>
    intro b hb
    have hne := hl.ne_zero hb
    have hrc := hl.rc_eq q hne
    have hpos := hl.rc_pos q b hb
    rw [rcOf_of_get hb] at hrc
    by_cases hmem : q ∈ ext
    · exact .root hmem hne
    · rw [List.count_eq_zero.mpr hmem] at hrc
      obtain ⟨p,b',hb',hq⟩ := exists_holder (show 0 < heldBy refs h' q by omega)
      obtain ⟨b₀,hb₀,hbody⟩ := hr.live hb'
      have hp := ih p ⟨b₀,hb₀,hbody ▸ hq⟩ b' hb'
      exact .step hp hb₀ (hbody ▸ hq) hne

/-- A reduced heap with a ledger of the references that remain is what is left of the heap. -/
theorem Ledger.released {p : ℕ} (hl : Ledger refs h (p :: ext)) (hacyclic : Acyclic refs h)
    (hr : Reduces h h') (hl' : Ledger refs h' ext) : Released refs h h' p ext where
  reduces := hr
  kept q b hb hq := by
    obtain ⟨b',hb'⟩ := hq.live hr hl'
    obtain ⟨c,hc,hcell⟩ := hr.cell hb
    rw [hb'] at hc
    obtain rfl := Option.some.inj hc
    have hrc := hl.rc_eq q (hl.ne_zero hb)
    have hrc' := hl'.rc_eq q (hl.ne_zero hb)
    rw [rcOf_of_get hb,List.count_cons] at hrc
    rw [rcOf_of_get hb'] at hrc'
    refine ⟨b'.rc,?_,?_⟩
    · cases hcell <;> exact hb'
    · rw [List.count_singleton]
      omega
  freed q b hb hq := by
    obtain ⟨c,hc,-⟩ := hr.cell hb
    cases c with
    | none => exact hc
    | some b' => exact absurd (reachable_of_live hacyclic hr hl' q b' hc) hq

/-- The heap without the blocks at `ps`. -/
def hide (ps : List ℕ) (h : Heap α) : Heap α := ps.foldr (fun p h => h.set p none) h

@[simp] theorem hide_nil (h : Heap α) : hide [] h = h := rfl

theorem hide_cons (p : ℕ) (ps : List ℕ) (h : Heap α) : hide (p :: ps) h = (hide ps h).set p none := rfl

theorem getElem?_set_map (p : ℕ) (c : Option (Block α)) (q : ℕ) :
    (h.set p c)[q]? = if p = q then (h[q]?).map (fun _ => c) else h[q]? := by
  rw [List.getElem?_set]
  split_ifs with hpq hlt
  · subst hpq
    rw [List.getElem?_eq_getElem hlt]
    rfl
  · subst hpq
    rw [List.getElem?_eq_none (Nat.le_of_not_lt hlt)]
    rfl
  · rfl

theorem getElem?_hide (ps : List ℕ) (q : ℕ) :
    (hide ps h)[q]? = if q ∈ ps then (h[q]?).map (fun _ => none) else h[q]? := by
  induction ps with
  | nil => rfl
  | cons p ps ih =>
    rw [hide_cons,getElem?_set_map,ih]
    by_cases hpq : p = q
    · subst hpq
      cases h[p]? <;> by_cases hp : p ∈ ps <;> simp [hp]
    · simp [hpq,Ne.symm hpq]

theorem getElem?_of_hide {ps : List ℕ} (hb : (hide ps h)[q]? = some (some b)) : q ∉ ps ∧ h[q]? = some (some b) := by
  rw [getElem?_hide] at hb
  split_ifs at hb with hmem
  · cases hcell : h[q]? <;> simp [hcell] at hb
  · exact ⟨hmem,hb⟩

theorem hide_set {ps : List ℕ} {p : ℕ} (hp : p ∉ ps) (c : Option (Block α)) :
    hide ps (h.set p c) = (hide ps h).set p c := by
  induction ps with
  | nil => rfl
  | cons q ps ih =>
    rw [List.mem_cons,not_or] at hp
    rw [hide_cons,hide_cons,ih hp.2,List.set_comm _ _ hp.1]

theorem hide_set_of_mem {ps : List ℕ} {p : ℕ} (hp : p ∈ ps) (c : Option (Block α)) :
    hide ps (h.set p c) = hide ps h := by
  apply List.ext_getElem?
  intro q
  rw [getElem?_hide,getElem?_hide,getElem?_set_map]
  by_cases hpq : p = q
  · subst hpq
    simp [hp,Function.comp_def]
  · simp [hpq]

def liveCount (h : Heap α) : ℕ := h.countP Option.isSome

theorem Reduces.liveCount_le (hr : Reduces h h') : liveCount h' ≤ liveCount h := by
  induction hr with
  | nil => exact Nat.le_refl _
  | cons hc _ ih =>
    unfold liveCount at ih ⊢
    rw [List.countP_cons,List.countP_cons]
    cases hc <;> simp <;> omega

theorem liveCount_set_none {p : ℕ} (hp : h[p]? = some (some b)) : liveCount (h.set p none) + 1 = liveCount h := by
  induction h generalizing p with
  | nil => simp at hp
  | cons c h ih =>
    cases p with
    | zero =>
      obtain rfl := Option.some.inj hp
      simp [liveCount]
    | succ p =>
      have hrest := ih hp
      unfold liveCount at hrest ⊢
      rw [List.set_cons_succ,List.countP_cons,List.countP_cons]
      omega

/-- The block at `q` goes when `ps` are given back: they and blocks that go account for every
reference to it. -/
inductive Gone (refs : α → List ℕ) (h : Heap α) (ps : List ℕ) : ℕ → Prop
  | intro {q : ℕ} {b : Block α} (hb : h[q]? = some (some b))
      (hown : b.rc = heldBy refs h q + ps.count q)
      (hholders : ∀ p, Holds refs h p q → Gone refs h ps p) : Gone refs h ps q

section Gone

variable {ps work : List ℕ} {start : Heap α} {fuel : ℕ}

theorem Gone.freed {q : ℕ} (hq : Gone refs h ps q) (hl : Ledger refs h (ps ++ ext))
    (hr : Reduces h h') (hl' : Ledger refs h' ext) : h'[q]? = some none := by
  induction hq with
  | @intro q b hb hown _ ih =>
    obtain ⟨c,hc,-⟩ := hr.cell hb
    cases c with
    | none => exact hc
    | some b' =>
      exfalso
      have hne := hl.ne_zero hb
      have hrc := hl.rc_eq q hne
      have hrc' := hl'.rc_eq q hne
      have hpos := hl'.rc_pos q b' hc
      rw [rcOf_of_get hb,List.count_append] at hrc
      rw [rcOf_of_get hc] at hrc'
      obtain ⟨p,b₁,hb₁,hmem⟩ := exists_holder (show 0 < heldBy refs h' q by omega)
      obtain ⟨b₀,hb₀,hbody⟩ := hr.live hb₁
      have hnone := ih p ⟨b₀,hb₀,hbody ▸ hmem⟩
      rw [hb₁] at hnone
      cases hnone

/-- A block whose last reference a run gives back goes, when those that the run freed do. -/
theorem Ledger.gone_of_last (hl : Ledger refs start (ps ++ ext)) (hr : Reduces start h) {p : ℕ}
    (hfreed : ∀ q b, start[q]? = some (some b) → h[q]? = some none → Gone refs start ps q)
    (hl' : Ledger refs h (p :: work ++ ext)) {b : Block α} (hb : h[p]? = some (some b))
    (hlast : b.rc = 1) : Gone refs start ps p := by
  have hne := hl'.ne_zero hb
  have hrc' := hl'.rc_eq p hne
  rw [rcOf_of_get hb,hlast,List.cons_append,List.count_cons_self,List.count_append] at hrc'
  obtain ⟨b₀,hb₀,hbody⟩ := hr.live hb
  have hrc := hl.rc_eq p hne
  rw [rcOf_of_get hb₀,List.count_append] at hrc
  refine .intro hb₀ (by omega) ?_
  rintro q ⟨c,hc,hmem⟩
  obtain ⟨c',hc',-⟩ := hr.cell hc
  cases c' with
  | none => exact hfreed q c hc hc'
  | some c' =>
    obtain ⟨c₀,hc₀,hbody'⟩ := hr.live hc'
    rw [hc] at hc₀
    cases hc₀
    have hheld := heldBy_pos hc' (hbody' ▸ hmem)
    omega

theorem Ledger.freeValues_gone (hl : Ledger refs start (ps ++ ext)) (hr : Reduces start h)
    (hfreed : ∀ q b, start[q]? = some (some b) → h[q]? = some none → Gone refs start ps q)
    (hl' : Ledger refs h (work ++ ext)) (hfree : RefCount.freeValues refs fuel work h = some h') :
    Reduces start h' ∧ ∀ q b, start[q]? = some (some b) → h'[q]? = some none → Gone refs start ps q := by
  induction fuel generalizing h work with
  | zero =>
    cases work with
    | nil =>
      cases hfree
      exact ⟨hr,hfreed⟩
    | cons p work => cases hfree
  | succ fuel ih =>
    cases work with
    | nil =>
      cases hfree
      exact ⟨hr,hfreed⟩
    | cons p work =>
      rw [RefCount.freeValues] at hfree
      split_ifs at hfree with hp
      · refine ih hr hfreed (hl'.congr fun q hq => ?_) hfree
        rw [hp,List.cons_append,List.count_cons_of_ne hq.symm]
      · obtain ⟨b,hb⟩ := hl'.live_of_mem (List.mem_append_left ext List.mem_cons_self) hp
        have hpos := hl'.rc_pos p b hb
        rw [hb] at hfree
        dsimp only at hfree
        rw [lowered_of_pos hpos] at hfree
        split_ifs at hfree with hmore
        · refine ih (hr.set hb (.recount b _)) (fun q c hc hnone => ?_) ?_ hfree
          · rw [getElem?_set_cell hb] at hnone
            split_ifs at hnone
            · cases hnone
            · exact hfreed q c hc hnone
          · refine hl'.set hb hmore fun q _ => ?_
            simp only [List.cons_append,List.count_cons,beq_iff_eq]
            split_ifs <;> omega
        · have hlast : b.rc = 1 := by omega
          refine ih (hr.set hb (.free b)) (fun q c hc hnone => ?_) ?_ hfree
          · rw [getElem?_set_cell hb] at hnone
            split_ifs at hnone with hpq
            · subst hpq
              exact hl.gone_of_last hr hfreed hl' hb hlast
            · exact hfreed q c hc hnone
          · rw [List.append_assoc]
            exact hl'.erase hb (fun _ => rfl) hlast

theorem Ledger.freeAll_gone (hl : Ledger refs h (ps ++ ext)) :
    ∃ h', RefCount.freeAll refs h ps = some h' ∧ Ledger refs h' ext ∧ Reduces h h' ∧
      ∀ q b, h[q]? = some (some b) → (h'[q]? = some none ↔ Gone refs h ps q) := by
  obtain ⟨h',hfree,hl'⟩ := hl.freeAll
  obtain ⟨hr,hgone⟩ := hl.freeValues_gone (Reduces.refl h)
    (fun q b hb hnone => by rw [hb] at hnone; cases hnone) hl hfree
  exact ⟨h',hfree,hl',hr,fun q b hb => ⟨hgone q b hb,fun hq => hq.freed hl hr hl'⟩⟩

end Gone

end FeatureRuntime.RefCount
