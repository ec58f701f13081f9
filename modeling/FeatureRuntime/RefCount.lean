import Mathlib.Algebra.GroupWithZero.Nat
import Mathlib.Data.List.Basic
import Mathlib.Data.Nat.Notation

/-! Reference-counted heaps. A block owns one reference for every pointer in its body, and a block
whose last reference is given back gives back the references it owns. Addresses are list indices;
address 0 is the null pointer. -/
namespace FeatureRuntime.RefCount

structure Block (α : Type*) where
  rc : ℕ
  body : α
  deriving DecidableEq

/-- The cells in the order of their allocation; a freed cell is `none`. -/
abbrev Heap (α : Type*) := List (Option (Block α))

variable {α : Type*} (refs : α → List ℕ)

def cellRefs (cell : Option (Block α)) : List ℕ := cell.elim [] (fun b => refs b.body)

/-- The number of references to `p` that are owned by blocks of the heap. -/
def heldBy (h : Heap α) (p : ℕ) : ℕ := (h.map (fun cell => (cellRefs refs cell).count p)).sum

def refTotal (h : Heap α) : ℕ := (h.map (fun cell => (cellRefs refs cell).length)).sum

def rcOf (h : Heap α) (p : ℕ) : ℕ :=
  match h[p]? with
  | some (some b) => b.rc
  | _ => 0

def alloc (h : Heap α) (body : α) : ℕ × Heap α := (h.length,h ++ [some ⟨1,body⟩])

def dup (h : Heap α) (p : ℕ) : Option (Heap α) :=
  match h[p]? with
  | some (some b) => some (h.set p (some { b with rc := b.rc + 1 }))
  | _ => none

/-- A 32-bit count after one more reference: a count of 0 gives none, and the largest one comes
round to 0. -/
def raised (rc : ℕ) : ℕ := if rc = 0 then 0 else (rc + 1) % 2 ^ 32

/-- A 32-bit count after a reference is given back. -/
def lowered (rc : ℕ) : ℕ := if rc = 0 then 2 ^ 32 - 1 else rc - 1

/-- `dup` on a 32-bit count. -/
def dupWrap (h : Heap α) (p : ℕ) : Option (Heap α) :=
  match h[p]? with
  | some (some b) => some (h.set p (some { b with rc := raised b.rc }))
  | _ => none

def dupAll (h : Heap α) : List ℕ → Option (Heap α)
  | [] => some h
  | p :: ps => (dupWrap h p).bind (dupAll · ps)

def freeValues : ℕ → List ℕ → Heap α → Option (Heap α)
  | _, [], h => some h
  | 0, _ :: _, _ => none
  | fuel + 1, p :: rest, h =>
    if p = 0 then freeValues fuel rest h
    else
      match h[p]? with
      | some (some b) =>
        if lowered b.rc > 0 then freeValues fuel rest (h.set p (some { b with rc := lowered b.rc }))
        else freeValues fuel (refs b.body ++ rest) (h.set p none)
      | _ => none

def freeAll (h : Heap α) (ps : List ℕ) : Option (Heap α) :=
  freeValues refs (refTotal refs h + ps.length) ps h

def setBody (h : Heap α) (p : ℕ) (body : α) : Option (Heap α) :=
  match h[p]? with
  | some (some b) => some (h.set p (some { b with body := body }))
  | _ => none

/-- Every reference count is the number of references owned by blocks plus those in `ext`. -/
structure Ledger (h : Heap α) (ext : List ℕ) : Prop where
  null : h[0]? = some none
  rc_pos : ∀ (p : ℕ) (b : Block α), h[p]? = some (some b) → 0 < b.rc
  rc_eq : ∀ p, p ≠ 0 → rcOf h p = heldBy refs h p + ext.count p

theorem raised_of_lt {rc : ℕ} (hpos : 0 < rc) (hroom : rc + 1 < 2 ^ 32) : raised rc = rc + 1 := by
  rw [raised,if_neg (by omega),Nat.mod_eq_of_lt hroom]

theorem lowered_of_pos {rc : ℕ} (hpos : 0 < rc) : lowered rc = rc - 1 := if_neg (by omega)

theorem sum_map_set {β : Type*} {l : List β} {i : ℕ} {a : β} (h : l[i]? = some a) (f : β → ℕ) (b : β) :
    ((l.set i b).map f).sum + f a = (l.map f).sum + f b := by
  induction l generalizing i with
  | nil => simp at h
  | cons c l ih =>
    cases i with
    | zero =>
      simp only [List.getElem?_cons_zero,Option.some.injEq] at h
      simp only [List.set_cons_zero,List.map_cons,List.sum_cons,h]
      omega
    | succ i =>
      have hrest := ih (by simpa using h)
      simp only [List.set_cons_succ,List.map_cons,List.sum_cons]
      omega

variable {h : Heap α}

variable {cell : Option (Block α)} {p : ℕ}

theorem heldBy_set (hp : h[p]? = some cell) (cell' : Option (Block α)) (q : ℕ) :
    heldBy refs (h.set p cell') q + (cellRefs refs cell).count q = heldBy refs h q + (cellRefs refs cell').count q :=
  sum_map_set hp _ cell'

theorem refTotal_set (hp : h[p]? = some cell) (cell' : Option (Block α)) :
    refTotal refs (h.set p cell') + (cellRefs refs cell).length = refTotal refs h + (cellRefs refs cell').length :=
  sum_map_set hp _ cell'

variable {refs} {ext : List ℕ}

theorem getElem?_set_cell (hp : h[p]? = some cell) (cell' : Option (Block α)) (q : ℕ) :
    (h.set p cell')[q]? = if p = q then some cell' else h[q]? := by
  have hlt := (List.getElem?_eq_some_iff.mp hp).1
  by_cases heq : p = q
  · subst heq
    simp [hlt]
  · simp [heq]

theorem rcOf_set (hp : h[p]? = some cell) (cell' : Option (Block α)) (q : ℕ) :
    rcOf (h.set p cell') q = if p = q then cell'.elim 0 (·.rc) else rcOf h q := by
  unfold rcOf
  rw [getElem?_set_cell hp]
  split_ifs
  · cases cell' <;> rfl
  · rfl

theorem rcOf_of_get {b : Block α} (hp : h[p]? = some (some b)) : rcOf h p = b.rc := by
  simp [rcOf,hp]

theorem exists_of_rcOf_pos (hp : 0 < rcOf h p) : ∃ b, h[p]? = some (some b) := by
  unfold rcOf at hp
  split at hp
  · next b hb => exact ⟨b,hb⟩
  · omega

theorem heldBy_pos_iff : 0 < heldBy refs h p ↔ ∃ (q : ℕ) (b : Block α), h[q]? = some (some b) ∧ p ∈ refs b.body := by
  have hflat : heldBy refs h p = (h.flatMap (cellRefs refs)).count p := List.count_flatMap.symm
  rw [hflat,List.count_pos_iff,List.mem_flatMap]
  constructor
  · rintro ⟨cell,hcell,hp⟩
    obtain ⟨q,hq⟩ := List.mem_iff_getElem?.mp hcell
    cases cell with
    | none => simp [cellRefs] at hp
    | some b => exact ⟨q,b,hq,hp⟩
  · rintro ⟨q,b,hq,hp⟩
    exact ⟨some b,List.mem_of_getElem? hq,hp⟩

namespace Ledger

variable {b : Block α} {p : ℕ}

theorem ne_zero (hl : Ledger refs h ext) (hp : h[p]? = some (some b)) : p ≠ 0 := by
  rintro rfl
  rw [hl.null] at hp
  simp at hp

theorem live_of_mem (hl : Ledger refs h ext) (hp : p ∈ ext) (hne : p ≠ 0) : ∃ b, h[p]? = some (some b) := by
  have hcount := List.count_pos_iff.mpr hp
  have hrc := hl.rc_eq p hne
  exact exists_of_rcOf_pos (by omega)

variable {ext' : List ℕ}

theorem congr (hl : Ledger refs h ext) (heq : ∀ p, p ≠ 0 → ext'.count p = ext.count p) : Ledger refs h ext' where
  null := hl.null
  rc_pos := hl.rc_pos
  rc_eq p hp := by rw [hl.rc_eq p hp,heq p hp]

/-- Exchanging a live block for another one, with the references each side accounts for. -/
theorem set (hl : Ledger refs h ext) {b b' : Block α} (hp : h[p]? = some (some b))
    (hpos : 0 < b'.rc) (heq : ∀ q, q ≠ 0 → (if q = p then b'.rc else 0) + (refs b.body).count q + ext.count q =
        (if q = p then b.rc else 0) + (refs b'.body).count q + ext'.count q) :
    Ledger refs (h.set p (some b')) ext' := by
  have hp0 := hl.ne_zero hp
  refine ⟨?_,?_,?_⟩
  · rw [getElem?_set_cell hp,if_neg hp0]
    exact hl.null
  · intro q c hq
    rw [getElem?_set_cell hp] at hq
    split_ifs at hq with hpq
    · rw [← Option.some.inj (Option.some.inj hq)]
      exact hpos
    · exact hl.rc_pos q c hq
  · intro q hq
    have hheld := heldBy_set refs hp (some b') q
    have hrc := hl.rc_eq q hq
    have hsplit := heq q hq
    rw [rcOf_set hp]
    simp only [cellRefs,Option.elim_some] at hheld
    by_cases hpq : p = q
    · subst hpq
      rw [rcOf_of_get hp] at hrc
      simp only [if_true,Option.elim_some] at hsplit ⊢
      omega
    · rw [if_neg (Ne.symm hpq),if_neg (Ne.symm hpq)] at hsplit
      rw [if_neg hpq]
      omega

theorem dup (hl : Ledger refs h ext) (hp : h[p]? = some (some b)) :
    ∃ h', RefCount.dup h p = some h' ∧ Ledger refs h' (p :: ext) := by
  refine ⟨h.set p (some { b with rc := b.rc + 1 }),by simp [RefCount.dup,hp],?_⟩
  refine hl.set hp (Nat.succ_pos _) (fun q _ => ?_)
  simp only [List.count_cons,beq_iff_eq]
  split_ifs <;> omega

variable {ps : List ℕ}

theorem dupWrap (hl : Ledger refs h ext) (hp : h[p]? = some (some b)) (hroom : b.rc + 1 < 2 ^ 32) :
    RefCount.dupWrap h p = RefCount.dup h p := by
  simp only [RefCount.dupWrap,RefCount.dup,hp,raised_of_lt (hl.rc_pos p b hp) hroom]

/-- References are taken to live blocks whose counts do not come round. -/
theorem dupAll (hl : Ledger refs h ext) (hps : ∀ p ∈ ps, 0 < rcOf h p ∧ rcOf h p + ps.count p < 2 ^ 32) :
    ∃ h', RefCount.dupAll h ps = some h' ∧ Ledger refs h' (ps ++ ext) := by
  induction ps generalizing h ext with
  | nil => exact ⟨h,rfl,hl⟩
  | cons p ps ih =>
    obtain ⟨hlive,hroom⟩ := hps p List.mem_cons_self
    obtain ⟨b,hb⟩ := exists_of_rcOf_pos hlive
    rw [rcOf_of_get hb,List.count_cons_self] at hroom
    obtain ⟨h1,hdup,hl1⟩ := hl.dup hb
    have hkeep : ∀ q ∈ ps, 0 < rcOf h1 q ∧ rcOf h1 q + ps.count q < 2 ^ 32 := by
      intro q hq
      obtain ⟨hq0,hqroom⟩ := hps q (List.mem_cons_of_mem _ hq)
      obtain rfl : h.set p (some { b with rc := b.rc + 1 }) = h1 := by
        simpa [RefCount.dup,hb] using hdup
      rw [rcOf_set hb]
      split_ifs with hpq
      · subst hpq
        simp only [Option.elim_some]
        omega
      · rw [List.count_cons_of_ne hpq] at hqroom
        exact ⟨hq0,hqroom⟩
    obtain ⟨h2,hall,hl2⟩ := ih hl1 hkeep
    rw [← hl.dupWrap hb (by omega)] at hdup
    refine ⟨h2,by simp only [RefCount.dupAll,hdup,Option.bind_some,hall],hl2.congr (fun q _ => ?_)⟩
    simp only [List.cons_append,List.count_cons,List.count_append]
    omega

theorem setBody (hl : Ledger refs h ext) (hp : h[p]? = some (some b)) (body : α) (heq : ∀ q, q ≠ 0 →
      (refs b.body).count q + ext.count q = (refs body).count q + ext'.count q) :
    ∃ h', RefCount.setBody h p body = some h' ∧ Ledger refs h' ext' := by
  refine ⟨h.set p (some { b with body := body }),by simp [RefCount.setBody,hp],?_⟩
  have hpos : 0 < ({ b with body := body } : Block α).rc := hl.rc_pos p b hp
  refine hl.set hp hpos (fun q hq => ?_)
  have := heq q hq
  simp only
  omega

theorem alloc (hl : Ledger refs h ext) (body : α)
    (heq : ∀ q, q ≠ 0 → ext.count q = (refs body).count q + ext'.count q) :
    Ledger refs (RefCount.alloc h body).2 ((RefCount.alloc h body).1 :: ext') := by
  have hlen : 0 < h.length := (List.getElem?_eq_some_iff.mp hl.null).1
  have hget : ∀ q, (h ++ [some ⟨1,body⟩])[q]? =
      if q = h.length then some (some ⟨1,body⟩) else h[q]? := by
    intro q
    split_ifs with hq
    · subst hq
      simp
    · rcases Nat.lt_or_ge q h.length with hlt | hge
      · exact List.getElem?_append_left hlt
      · rw [List.getElem?_eq_none (by simp; omega),List.getElem?_eq_none hge]
  refine ⟨?_,?_,?_⟩
  · simp only [RefCount.alloc]
    rw [hget,if_neg (by omega)]
    exact hl.null
  · intro q b hq
    simp only [RefCount.alloc] at hq
    rw [hget] at hq
    split_ifs at hq with hqh
    · rw [← Option.some.inj (Option.some.inj hq)]
      exact Nat.one_pos
    · exact hl.rc_pos q b hq
  · intro q hq
    have hrc := hl.rc_eq q hq
    have hsplit := heq q hq
    have hheld : heldBy refs (RefCount.alloc h body).2 q = heldBy refs h q + (refs body).count q := by
      simp [RefCount.alloc,heldBy,cellRefs]
    have hnew : rcOf (RefCount.alloc h body).2 q = if q = h.length then 1 else rcOf h q := by
      simp only [RefCount.alloc,rcOf,hget]
      split_ifs <;> rfl
    rw [hheld,hnew,List.count_cons]
    simp only [RefCount.alloc,beq_iff_eq]
    by_cases hqh : q = h.length
    · have hzero : rcOf h q = 0 := by
        simp [rcOf,List.getElem?_eq_none (Nat.le_of_eq hqh.symm)]
      rw [if_pos hqh,if_pos hqh.symm]
      omega
    · rw [if_neg hqh,if_neg (Ne.symm hqh)]
      omega

/-- The last reference to a block is given back, and those it owns become external. -/
theorem erase (hl : Ledger refs h ext) (hp : h[p]? = some (some b))
    {rest : List ℕ} (hext : ∀ q, ext.count q = (p :: rest).count q) (hlast : b.rc = 1) :
    Ledger refs (h.set p none) (refs b.body ++ rest) := by
  have hp0 := hl.ne_zero hp
  refine ⟨?_,?_,?_⟩
  · rw [getElem?_set_cell hp,if_neg hp0]
    exact hl.null
  · intro q c hq
    rw [getElem?_set_cell hp] at hq
    split_ifs at hq with hpq
    · simp at hq
    · exact hl.rc_pos q c hq
  · intro q hq
    have hheld := heldBy_set refs hp none q
    have hrc := hl.rc_eq q hq
    have hcount := hext q
    rw [rcOf_set hp,List.count_append]
    rw [List.count_cons] at hcount
    simp only [cellRefs,Option.elim_some,Option.elim_none,List.count_nil] at hheld
    simp only [beq_iff_eq] at hcount
    split_ifs at hcount ⊢ with hpq
    · subst hpq
      rw [rcOf_of_get hp] at hrc
      simp only [Option.elim_none]
      omega
    · omega

/-- Giving back references never fails, and the ledger no longer counts them. -/
theorem freeValues {fuel : ℕ} (hl : Ledger refs h (ps ++ ext)) (hfuel : refTotal refs h + ps.length ≤ fuel) :
    ∃ h', RefCount.freeValues refs fuel ps h = some h' ∧ Ledger refs h' ext := by
  induction fuel generalizing h ps with
  | zero =>
    obtain rfl : ps = [] := List.length_eq_zero_iff.mp (by omega)
    exact ⟨h,rfl,hl⟩
  | succ fuel ih =>
    cases ps with
    | nil => exact ⟨h,rfl,hl⟩
    | cons p rest =>
      rw [List.length_cons] at hfuel
      by_cases hp0 : p = 0
      · simp only [RefCount.freeValues,if_pos hp0]
        refine ih (hl.congr (fun q hq => ?_)) (by omega)
        rw [hp0,List.cons_append,List.count_cons_of_ne hq.symm]
      · obtain ⟨b,hb⟩ := hl.live_of_mem (by simp : p ∈ p :: rest ++ ext) hp0
        have hpos := hl.rc_pos p b hb
        simp only [RefCount.freeValues,if_neg hp0,hb,lowered_of_pos hpos]
        split_ifs with hmore
        · have hset : Ledger refs (h.set p (some { b with rc := b.rc - 1 })) (rest ++ ext) := by
            refine hl.set hb hmore (fun q _ => ?_)
            simp only [List.cons_append,List.count_cons,beq_iff_eq]
            split_ifs <;> omega
          have htotal := refTotal_set refs hb (some { b with rc := b.rc - 1 })
          simp only [cellRefs,Option.elim_some] at htotal
          exact ih hset (by omega)
        · have herase : Ledger refs (h.set p none) (refs b.body ++ (rest ++ ext)) :=
            hl.erase hb (fun _ => rfl) (by omega)
          have htotal := refTotal_set refs hb none
          simp only [cellRefs,Option.elim_some,Option.elim_none,List.length_nil] at htotal
          rw [← List.append_assoc] at herase
          exact ih herase (by rw [List.length_append]; omega)

theorem freeAll (hl : Ledger refs h (ps ++ ext)) : ∃ h', RefCount.freeAll refs h ps = some h' ∧ Ledger refs h' ext :=
  hl.freeValues (Nat.le_refl _)

/-- Blocks that are held by references outside the worklist, or by one another, survive. -/
theorem freeValues_keeps {S : ℕ → Prop} {fuel : ℕ} (hl : Ledger refs h (ps ++ ext))
    (hroot : ∀ p, S p → p ∈ ext ∨ ∃ q b, S q ∧ h[q]? = some (some b) ∧ p ∈ refs b.body)
    {h' : Heap α} (hfree : RefCount.freeValues refs fuel ps h = some h') (hp : S p)
    (hb : h[p]? = some (some b)) :
    ∃ b', h'[p]? = some (some b') ∧ b'.body = b.body := by
  induction fuel generalizing h ps p b with
  | zero =>
    cases ps with
    | nil => exact ⟨b,Option.some.inj hfree ▸ hb,rfl⟩
    | cons q rest => simp [RefCount.freeValues] at hfree
  | succ fuel ih =>
    cases ps with
    | nil => exact ⟨b,Option.some.inj hfree ▸ hb,rfl⟩
    | cons q rest =>
      by_cases hq0 : q = 0
      · simp only [RefCount.freeValues,if_pos hq0] at hfree
        refine ih (hl.congr (fun r hr => ?_)) hroot hfree hp hb
        rw [hq0,List.cons_append,List.count_cons_of_ne hr.symm]
      · obtain ⟨c,hc⟩ := hl.live_of_mem (by simp : q ∈ q :: rest ++ ext) hq0
        have hrc := hl.rc_eq q hq0
        rw [rcOf_of_get hc,List.cons_append,List.count_cons_self,List.count_append] at hrc
        have hpos := hl.rc_pos q c hc
        simp only [RefCount.freeValues,if_neg hq0,hc,lowered_of_pos hpos] at hfree
        split_ifs at hfree with hmore
        · have hset : Ledger refs (h.set q (some { c with rc := c.rc - 1 })) (rest ++ ext) := by
            refine hl.set hc hmore (fun r _ => ?_)
            simp only [List.cons_append,List.count_cons,beq_iff_eq]
            split_ifs <;> omega
          have hroot' : ∀ r, S r → r ∈ ext ∨ ∃ t d, S t ∧
              (h.set q (some { c with rc := c.rc - 1 }))[t]? = some (some d) ∧ r ∈ refs d.body := by
            intro r hr
            refine (hroot r hr).imp_right ?_
            rintro ⟨t,d,ht,htd,hrd⟩
            by_cases hqt : q = t
            · subst hqt
              obtain rfl : c = d := by simpa [hc] using htd
              exact ⟨q,{ c with rc := c.rc - 1 },ht,by rw [getElem?_set_cell hc,if_pos rfl],hrd⟩
            · exact ⟨t,d,ht,by rw [getElem?_set_cell hc,if_neg hqt,htd],hrd⟩
          by_cases hqp : q = p
          · subst hqp
            obtain rfl : c = b := by simpa [hc] using hb
            have hself : (h.set q (some { c with rc := c.rc - 1 }))[q]? =
                some (some { c with rc := c.rc - 1 }) := by rw [getElem?_set_cell hc,if_pos rfl]
            obtain ⟨b',hb',hbody⟩ := ih hset hroot' hfree hp hself
            exact ⟨b',hb',hbody⟩
          · exact ih hset hroot' hfree hp (by rw [getElem?_set_cell hc,if_neg hqp,hb])
        · -- the last reference is given back, so nothing of `S` holds the block
          have hnot : ¬ S q := by
            intro hSq
            rcases hroot q hSq with hmem | ⟨t,d,_,htd,hqd⟩
            · have := List.count_pos_iff.mpr hmem
              omega
            · have := heldBy_pos_iff.mpr ⟨t,d,htd,hqd⟩
              omega
          have herase : Ledger refs (h.set q none) (refs c.body ++ (rest ++ ext)) :=
            hl.erase hc (fun _ => rfl) (by omega)
          rw [← List.append_assoc] at herase
          have hne : ∀ t, S t → q ≠ t := fun t ht heq => hnot (heq ▸ ht)
          refine ih herase (fun r hr => (hroot r hr).imp_right ?_) hfree hp
            (by rw [getElem?_set_cell hc,if_neg (hne p hp),hb])
          rintro ⟨t,d,ht,htd,hrd⟩
          exact ⟨t,d,ht,by rw [getElem?_set_cell hc,if_neg (hne t ht),htd],hrd⟩

theorem freeAll_keeps {S : ℕ → Prop} (hl : Ledger refs h (ps ++ ext))
    (hroot : ∀ p, S p → p ∈ ext ∨ ∃ q b, S q ∧ h[q]? = some (some b) ∧ p ∈ refs b.body)
    {h' : Heap α} (hfree : RefCount.freeAll refs h ps = some h') (hp : S p)
    (hb : h[p]? = some (some b)) :
    ∃ b', h'[p]? = some (some b') ∧ b'.body = b.body :=
  hl.freeValues_keeps hroot hfree hp hb

end Ledger

/-- `Q` holds of the body of every live block. -/
def All (Q : α → Prop) (h : Heap α) : Prop := ∀ (p : ℕ) (b : Block α), h[p]? = some (some b) → Q b.body

section Bodies

variable {Q : α → Prop}

theorem All.set (hall : All Q h) {p : ℕ} {cell : Option (Block α)} (hp : h[p]? = some cell)
    {cell' : Option (Block α)} (hcell : ∀ b, cell' = some b → Q b.body) :
    All Q (h.set p cell') := by
  intro q b hq
  rw [getElem?_set_cell hp] at hq
  split_ifs at hq
  · exact hcell b (Option.some.inj hq)
  · exact hall q b hq

theorem All.setBody (hall : All Q h) {p : ℕ} {body : α} (hbody : Q body) {h' : Heap α}
    (hset : RefCount.setBody h p body = some h') : All Q h' := by
  unfold RefCount.setBody at hset
  split at hset
  · next b hb =>
    obtain rfl := Option.some.inj hset
    exact hall.set hb (by rintro _ ⟨⟩; exact hbody)
  · simp at hset

theorem All.alloc (hall : All Q h) {body : α} (hbody : Q body) : All Q (RefCount.alloc h body).2 := by
  intro p b hp
  simp only [RefCount.alloc] at hp
  rcases Nat.lt_or_ge p h.length with hlt | hge
  · rw [List.getElem?_append_left hlt] at hp
    exact hall p b hp
  · rw [List.getElem?_append_right hge] at hp
    have hmem := List.mem_of_getElem? hp
    simp only [List.mem_singleton,Option.some.injEq] at hmem
    exact hmem ▸ hbody

variable {ps : List ℕ}

theorem dupAll_get {h h' : Heap α} (hdup : RefCount.dupAll h ps = some h') (p : ℕ) :
    (h'[p]?).map (Option.map Block.body) = (h[p]?).map (Option.map Block.body) := by
  induction ps generalizing h with
  | nil => rw [Option.some.inj hdup]
  | cons q ps ih =>
    simp only [RefCount.dupAll,RefCount.dupWrap] at hdup
    split at hdup
    · next b hb =>
      rw [Option.bind_some] at hdup
      rw [ih hdup,getElem?_set_cell hb]
      split_ifs with hqp
      · rw [← hqp,hb]
        rfl
      · rfl
    · simp at hdup

theorem All.dupAll (hall : All Q h) {h' : Heap α} (hdup : RefCount.dupAll h ps = some h') : All Q h' := by
  intro p b hp
  have hbody := dupAll_get hdup p
  rw [hp] at hbody
  cases hcell : h[p]? with
  | none => simp [hcell] at hbody
  | some cell =>
    cases cell with
    | none => simp [hcell] at hbody
    | some c =>
      simp only [hcell,Option.map_some,Option.some.injEq] at hbody
      exact hbody ▸ hall p c hcell

theorem freeValues_get {fuel : ℕ} {h h' : Heap α}
    (hfree : RefCount.freeValues refs fuel ps h = some h') {p : ℕ} {b' : Block α}
    (hp : h'[p]? = some (some b')) : ∃ b, h[p]? = some (some b) ∧ b.body = b'.body := by
  induction fuel generalizing ps h with
  | zero =>
    cases ps with
    | nil => exact ⟨b',Option.some.inj hfree ▸ hp,rfl⟩
    | cons q rest => simp [RefCount.freeValues] at hfree
  | succ fuel ih =>
    cases ps with
    | nil => exact ⟨b',Option.some.inj hfree ▸ hp,rfl⟩
    | cons q rest =>
      simp only [RefCount.freeValues] at hfree
      split_ifs at hfree
      · exact ih hfree
      · split at hfree
        · next c hc =>
          split_ifs at hfree
          · obtain ⟨b,hb,hbody⟩ := ih hfree
            rw [getElem?_set_cell hc] at hb
            split_ifs at hb with hqp
            · subst hqp
              obtain rfl := Option.some.inj (Option.some.inj hb)
              exact ⟨c,hc,hbody⟩
            · exact ⟨b,hb,hbody⟩
          · obtain ⟨b,hb,hbody⟩ := ih hfree
            rw [getElem?_set_cell hc] at hb
            split_ifs at hb with hqp
            · simp at hb
            · exact ⟨b,hb,hbody⟩
        · simp at hfree

theorem freeValues_length {fuel : ℕ} {h h' : Heap α}
    (hfree : RefCount.freeValues refs fuel ps h = some h') : h'.length = h.length := by
  induction fuel generalizing ps h with
  | zero =>
    cases ps with
    | nil => rw [Option.some.inj hfree]
    | cons q rest => simp [RefCount.freeValues] at hfree
  | succ fuel ih =>
    cases ps with
    | nil => rw [Option.some.inj hfree]
    | cons q rest =>
      simp only [RefCount.freeValues] at hfree
      split_ifs at hfree
      · exact ih hfree
      · split at hfree
        · split_ifs at hfree
          · rw [ih hfree,List.length_set]
          · rw [ih hfree,List.length_set]
        · simp at hfree

theorem All.freeValues {fuel : ℕ} {h h' : Heap α} (hall : All Q h)
    (hfree : RefCount.freeValues refs fuel ps h = some h') : All Q h' := by
  intro p b' hp
  obtain ⟨b,hb,hbody⟩ := freeValues_get hfree hp
  exact hbody ▸ hall p b hb

end Bodies
end FeatureRuntime.RefCount
