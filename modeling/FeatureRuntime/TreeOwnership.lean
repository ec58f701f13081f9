import FeatureRuntime.ValueTree

/-! `FeatureFreeValue` on a tree of blocks, measured by the references that remain: which blocks go,
and which trees the walk handles. -/
namespace FeatureRuntime

open RefCount

/-- The walk of `FeatureFreeValue` gives back the references of the block and frees it. -/
def ValueBlock.plain (b : ValueBlock) : Bool :=
  match b.header with
  | .protobuf _ => false
  | .featureType (.optional ..) | .featureType (.protobuf _) => false
  | .featureType (.primitive .arrayBuffer) => false
  | _ => true

/-- A dup followed by a free changes nothing; a free frees what only the root reaches, gives back one
reference for every edge that is gone, and lets no count become negative. -/
structure ManagesTree (heap : Heap ValueBlock) (ptr : ℕ) (ext : List ℕ) : Prop where
  dup_free : ∃ heap', featureDupValue heap ptr = some (ptr,heap') ∧
    ∀ fuel, 0 < fuel → ValueHeap.freeValue fuel ptr { heap := heap' } = some { heap := heap }
  instance_dup_free : ∃ heap', featureInstanceDupValue heap ptr = some (ptr,heap') ∧
    ∀ fuel, 0 < fuel → ValueHeap.freeValue fuel ptr { heap := heap' } = some { heap := heap }
  free : ∃ heap', (∀ fuel, heap.length < fuel →
      ValueHeap.freeValue fuel ptr { heap := heap } = some { heap := heap' }) ∧
    Released ValueBlock.refs heap heap' ptr ext

namespace ValueHeap

section Calls

variable {s : ValueHeap} {ptr fuel : ℕ} {b : Block ValueBlock}

theorem freeValue_null : freeValue (fuel + 1) 0 s = some s := by
  rw [freeValue,if_pos rfl]

theorem freeValue_zero (hptr : ptr ≠ 0) (hb : s.heap[ptr]? = some (some b)) (hrc : b.rc = 0) :
    freeValue (fuel + 1) ptr s = some
      { heap := s.heap.set ptr (some { b with rc := 4294967295 }), negative := true } := by
  have hdesired : (b.rc + 4294967295) % 4294967296 = 4294967295 := by omega
  have hzero : decide (b.rc = 0) = true := decide_eq_true hrc
  rw [freeValue,if_neg hptr,hb]
  dsimp only
  rw [if_pos (by omega),hdesired,hzero,Bool.or_true]

theorem freeValue_more (hptr : ptr ≠ 0) (hb : s.heap[ptr]? = some (some b)) (hrc : 1 < b.rc)
    (hword : b.rc < 4294967296) :
    freeValue (fuel + 1) ptr s = some { s with heap := s.heap.set ptr (some { b with rc := b.rc - 1 }) } := by
  have hdesired : (b.rc + 4294967295) % 4294967296 = b.rc - 1 := by omega
  have hnonzero : decide (b.rc = 0) = false := decide_eq_false (by omega)
  rw [freeValue,if_neg hptr,hb]
  simp only [hdesired,hnonzero,Bool.or_false]
  rw [if_pos (by omega)]

theorem freeValue_last (hptr : ptr ≠ 0) (hb : s.heap[ptr]? = some (some b)) (hrc : b.rc = 1)
    (hplain : b.body.plain = true) :
    freeValue (fuel + 1) ptr s = (b.body.refs.foldlM (fun s q => freeValue fuel q s)
        { s with heap := s.heap.set ptr (some { b with rc := 0 }) }).bind (·.freeBlock ptr) := by
  have hdesired : (b.rc + 4294967295) % 4294967296 = 0 := by omega
  have hnonzero : decide (b.rc = 0) = false := decide_eq_false (by omega)
  rw [freeValue,if_neg hptr,hb]
  dsimp only
  rw [hdesired,hnonzero,Bool.or_false,if_neg (by omega)]
  obtain ⟨rc,⟨header,payload⟩⟩ := b
  cases header with
  | refCountOnly => simp [ValueBlock.refs]
  | protobuf desc => simp [ValueBlock.plain] at hplain
  | featureType type =>
    cases type with
    | optional => simp [ValueBlock.plain] at hplain
    | protobuf => simp [ValueBlock.plain] at hplain
    | primitive p => cases p <;> simp_all [ValueBlock.plain,ValueBlock.refs,FeatureType.ownedPointers]
    | _ => simp [ValueBlock.refs]

end Calls

/-- A walk over `heap`, part of one that started on `start`: the blocks at `dying` are being walked,
and `rest` are the references that the walks have yet to give back and those that remain. -/
structure Draining (start : Heap ValueBlock) (dying : List ℕ) (heap : Heap ValueBlock)
    (rest : List ℕ) : Prop where
  ledger : Ledger ValueBlock.refs (hide dying heap) rest
  reduces : Reduces start (hide dying heap)
  words : ∀ p, rcOf (hide dying heap) p < 4294967296

structure Drains (start : Heap ValueBlock) (dying : List ℕ) (heap heap' : Heap ValueBlock)
    (rest : List ℕ) : Prop where
  draining : Draining start dying heap' rest
  reduces : Reduces (hide dying heap) (hide dying heap')
  untouched : ∀ p ∈ dying, heap'[p]? = heap[p]?

section Walk

variable {start heap : Heap ValueBlock} {ext dying rest : List ℕ}

/-- The last reference to a block is not one of those that the remaining references reach. -/
theorem Draining.not_reachable {ptr : ℕ} (h : Draining start dying heap (ptr :: rest))
    (hext : ext ⊆ rest) {b : Block ValueBlock} (hb : (hide dying heap)[ptr]? = some (some b))
    (hrc : b.rc = 1) : ¬ Reachable ValueBlock.refs start ext ptr := by
  have hne := h.ledger.ne_zero hb
  have hcount := h.ledger.rc_eq ptr hne
  rw [rcOf_of_get hb,hrc,List.count_cons_self] at hcount
  intro hreach
  cases hreach with
  | root hp _ =>
    have hmem := List.count_pos_iff.mpr (hext hp)
    omega
  | step hp hb₀ hq _ =>
    have hkept := (hp.mono hext).mono (List.subset_cons_self ptr rest)
    obtain ⟨c,hc⟩ := hkept.live h.reduces h.ledger
    obtain ⟨c₀,hc₀,hbody⟩ := h.reduces.live hc
    rw [hb₀] at hc₀
    cases hc₀
    have hheld := heldBy_pos hc (hbody ▸ hq)
    omega

theorem Drains.trans {heap' heap'' : Heap ValueBlock} {rest' : List ℕ}
    (h : Drains start dying heap heap' rest') (h' : Drains start dying heap' heap'' rest) :
    Drains start dying heap heap'' rest :=
  ⟨h'.draining,h.reduces.trans h'.reduces,fun p hp => (h'.untouched p hp).trans (h.untouched p hp)⟩

/-- Giving back `ptr` with enough fuel succeeds, and drains the heap. -/
def FreesWell (start : Heap ValueBlock) (dying : List ℕ) (ptr : ℕ) (heap : Heap ValueBlock) (rest : List ℕ) : Prop :=
  ∃ heap', (∀ fuel, liveCount (hide dying heap) < fuel →
    freeValue fuel ptr { heap := heap } = some { heap := heap' }) ∧
    Drains start dying heap heap' rest

theorem foldlM_drains {bound : ℕ} {children : List ℕ}
    (hwalk : ∀ ptr heap rest, Draining start dying heap (ptr :: rest) → ext ⊆ rest →
      liveCount (hide dying heap) < bound → FreesWell start dying ptr heap rest)
    (h : Draining start dying heap (children ++ rest)) (hext : ext ⊆ rest)
    (hbound : liveCount (hide dying heap) < bound) :
    ∃ heap', (∀ fuel, liveCount (hide dying heap) < fuel →
      children.foldlM (fun s q => freeValue fuel q s) { heap := heap } =
        some { heap := heap' }) ∧ Drains start dying heap heap' rest := by
  induction children generalizing heap with
  | nil => exact ⟨heap,fun _ _ => rfl,h,Reduces.refl _,fun _ _ => rfl⟩
  | cons q children ih =>
    obtain ⟨heap₁,hfree,hdrains⟩ := hwalk q heap (children ++ rest) h
      (List.subset_append_of_subset_right _ hext) hbound
    have hless := hdrains.reduces.liveCount_le
    obtain ⟨heap₂,hrest,hdrains'⟩ := ih hdrains.draining (by omega)
    refine ⟨heap₂,fun fuel hfuel => ?_,hdrains.trans hdrains'⟩
    rw [List.foldlM_cons,hfree fuel hfuel]
    exact hrest fuel (by omega)

theorem Draining.more {ptr : ℕ} (h : Draining start dying heap (ptr :: rest))
    {b : Block ValueBlock} (hb : (hide dying heap)[ptr]? = some (some b)) (hrc : 1 < b.rc) :
    Drains start dying heap (heap.set ptr (some { b with rc := b.rc - 1 })) rest := by
  obtain ⟨hdying,hget⟩ := getElem?_of_hide hb
  have hhide := hide_set (h := heap) hdying (some { b with rc := b.rc - 1 })
  have hreduces : Reduces (hide dying heap) ((hide dying heap).set ptr (some { b with rc := b.rc - 1 })) :=
    (Reduces.refl _).set hb (.recount b _)
  refine ⟨⟨?_,?_,fun p => ?_⟩,?_,fun p hp => ?_⟩
  · rw [hhide]
    refine h.ledger.set hb (Nat.sub_pos_of_lt hrc) fun q _ => ?_
    simp only [List.count_cons,beq_iff_eq]
    split_ifs <;> omega
  · rw [hhide]
    exact h.reduces.trans hreduces
  · rw [hhide,rcOf_set hb]
    have hword := h.words ptr
    rw [rcOf_of_get hb] at hword
    split_ifs
    · exact Nat.lt_of_le_of_lt (Nat.sub_le _ _) hword
    · exact h.words p
  · rw [hhide]
    exact hreduces
  · have hne : ptr ≠ p := fun heq => hdying (heq ▸ hp)
    exact List.getElem?_set_ne hne

theorem Draining.last {ptr : ℕ} (h : Draining start dying heap (ptr :: rest))
    {b : Block ValueBlock} (hb : (hide dying heap)[ptr]? = some (some b)) (hrc : b.rc = 1) :
    Draining start (ptr :: dying) (heap.set ptr (some { b with rc := 0 }))
      (b.body.refs ++ rest) := by
  have hhide : hide (ptr :: dying) (heap.set ptr (some { b with rc := 0 })) =
      (hide dying heap).set ptr none := hide_set_of_mem List.mem_cons_self _
  refine ⟨?_,?_,fun p => ?_⟩
  · rw [hhide]
    exact h.ledger.erase hb (fun _ => rfl) hrc
  · rw [hhide]
    exact h.reduces.set hb (.free b)
  · rw [hhide,rcOf_set hb]
    split_ifs
    · exact Nat.zero_lt_succ _
    · exact h.words p

theorem Drains.freed {ptr : ℕ} {b : Block ValueBlock} {heap' : Heap ValueBlock}
    (hb : (hide dying heap)[ptr]? = some (some b))
    (h : Drains start (ptr :: dying) (heap.set ptr (some { b with rc := 0 })) heap' rest) :
    Drains start dying heap (heap'.set ptr none) rest := by
  obtain ⟨hdying,hget⟩ := getElem?_of_hide hb
  have hbefore : hide (ptr :: dying) (heap.set ptr (some { b with rc := 0 })) =
      (hide dying heap).set ptr none := hide_set_of_mem List.mem_cons_self _
  have hafter : hide dying (heap'.set ptr none) = hide (ptr :: dying) heap' :=
    hide_set hdying none
  obtain ⟨⟨hledger,hstart,hwords⟩,hreduces,huntouched⟩ := h
  rw [hbefore] at hreduces
  refine ⟨⟨hafter ▸ hledger,hafter ▸ hstart,hafter ▸ hwords⟩,?_,fun p hp => ?_⟩
  · rw [hafter]
    exact ((Reduces.refl _).set hb (.free b)).trans hreduces
  · have hne : ptr ≠ p := fun heq => hdying (heq ▸ hp)
    rw [List.getElem?_set_ne hne,huntouched p (List.mem_cons_of_mem _ hp),List.getElem?_set_ne hne]

/-- Giving back a reference, as long as the blocks that go are plain: by induction on the number of
blocks, each of which is walked once. -/
theorem freeValue_drains (hplain : ∀ (p : ℕ) (b : Block ValueBlock), start[p]? = some (some b) →
      ¬ Reachable ValueBlock.refs start ext p → b.body.plain = true) (bound : ℕ) :
    ∀ (dying : List ℕ) (ptr : ℕ) (heap : Heap ValueBlock) (rest : List ℕ),
      Draining start dying heap (ptr :: rest) → ext ⊆ rest →
      liveCount (hide dying heap) < bound → FreesWell start dying ptr heap rest := by
  induction bound with
  | zero => exact fun _ _ _ _ _ _ h => absurd h (Nat.not_lt_zero _)
  | succ bound ih =>
    intro dying ptr heap rest h hext hbound
    by_cases hptr : ptr = 0
    · subst hptr
      refine ⟨heap,fun fuel hfuel => ?_,⟨?_,h.reduces,h.words⟩,Reduces.refl _,fun _ _ => rfl⟩
      · obtain ⟨fuel,rfl⟩ := Nat.exists_eq_add_one_of_ne_zero (Nat.ne_zero_of_lt hfuel)
        exact freeValue_null
      · exact h.ledger.congr fun p hp => by rw [List.count_cons_of_ne hp.symm]
    · obtain ⟨b,hb⟩ := h.ledger.live_of_mem List.mem_cons_self hptr
      have hget := (getElem?_of_hide hb).2
      have hpos := h.ledger.rc_pos ptr b hb
      by_cases hlast : b.rc = 1
      · have hmine : b.body.plain = true := by
          obtain ⟨b₀,hb₀,hbody⟩ := h.reduces.live hb
          rw [← hbody]
          exact hplain ptr b₀ hb₀ (h.not_reachable hext hb hlast)
        have hless : liveCount (hide (ptr :: dying) (heap.set ptr (some { b with rc := 0 }))) + 1 =
            liveCount (hide dying heap) := by
          rw [hide_set_of_mem List.mem_cons_self,hide_cons]
          exact liveCount_set_none hb
        obtain ⟨heap₁,hwalk,hdrains⟩ :=
          foldlM_drains (ih (ptr :: dying)) (h.last hb hlast) hext (by omega)
        refine ⟨heap₁.set ptr none,fun fuel hfuel => ?_,hdrains.freed hb⟩
        obtain ⟨fuel,rfl⟩ := Nat.exists_eq_add_one_of_ne_zero (Nat.ne_zero_of_lt hfuel)
        have hstill := hdrains.untouched ptr List.mem_cons_self
        rw [List.getElem?_set_self (List.getElem?_eq_some_iff.mp hget).1] at hstill
        rw [freeValue_last hptr hget hlast hmine]
        dsimp only
        rw [hwalk fuel (by omega),Option.bind_some,freeBlock,hstill]
      · have hword := h.words ptr
        rw [rcOf_of_get hb] at hword
        refine ⟨_,fun fuel hfuel => ?_,h.more hb (by omega)⟩
        obtain ⟨fuel,rfl⟩ := Nat.exists_eq_add_one_of_ne_zero (Nat.ne_zero_of_lt hfuel)
        exact freeValue_more hptr hget (by omega) hword

end Walk

/-- What a walk keeps that lets no count become negative: counts of zero stay, and only plain blocks
go. -/
structure Quiet (s s' : ValueHeap) : Prop where
  negative : s.negative = false
  zero : ∀ (p : ℕ) (b : Block ValueBlock), s.heap[p]? = some (some b) → b.rc = 0 → s'.heap[p]? = some (some b)
  plain : ∀ (p : ℕ) (b : Block ValueBlock), s.heap[p]? = some (some b) → s'.heap[p]? = some none → b.body.plain = true
  body : ∀ (p : ℕ) (b' : Block ValueBlock), s'.heap[p]? = some (some b') →
    ∃ b, s.heap[p]? = some (some b) ∧ b.body = b'.body
  length : s'.heap.length = s.heap.length

section Quiet

variable {s s' s'' : ValueHeap} {fuel ptr : ℕ}

theorem Quiet.refl (h : s.negative = false) : Quiet s s :=
  ⟨h,fun _ _ hb _ => hb,fun _ _ hb hnone => by simp [hb] at hnone,fun _ b hb => ⟨b,hb,rfl⟩,rfl⟩

theorem Quiet.trans (h : Quiet s s') (h' : Quiet s' s'') : Quiet s s'' where
  negative := h.negative
  zero p b hb hrc := h'.zero p b (h.zero p b hb hrc) hrc
  plain p b hb hnone := by
    have hlt : p < s'.heap.length := by
      rw [h.length]
      exact (List.getElem?_eq_some_iff.mp hb).1
    cases hcell : s'.heap[p]? with
    | none => exact absurd hlt (Nat.not_lt.mpr (List.getElem?_eq_none_iff.mp hcell))
    | some cell =>
      cases cell with
      | none => exact h.plain p b hb hcell
      | some b' =>
        obtain ⟨b₀,hb₀,hbody⟩ := h.body p b' hcell
        rw [hb] at hb₀
        cases hb₀
        rw [hbody]
        exact h'.plain p b' hcell hnone
  body p b'' hb'' := by
    obtain ⟨b',hb',hbody'⟩ := h'.body p b'' hb''
    obtain ⟨b,hb,hbody⟩ := h.body p b' hb'
    exact ⟨b,hb,hbody.trans hbody'⟩
  length := h'.length.trans h.length

theorem Quiet.recount {b : Block ValueBlock} (h : s.negative = false)
    (hb : s.heap[ptr]? = some (some b)) (hrc : b.rc ≠ 0) (rc : ℕ) :
    Quiet s { s with heap := s.heap.set ptr (some { b with rc := rc }) } := by
  refine ⟨h,fun p c hc hzero => ?_,fun p c hc hnone => ?_,fun p c hc => ?_,List.length_set⟩
  · have hne : ptr ≠ p := by
      rintro rfl
      rw [hb] at hc
      cases hc
      exact hrc hzero
    rwa [List.getElem?_set_ne hne]
  · rw [getElem?_set_cell hb] at hnone
    split_ifs at hnone
    · cases hnone
    · rw [hc] at hnone
      cases hnone
  · rw [getElem?_set_cell hb] at hc
    split_ifs at hc with hpq
    · subst hpq
      cases hc
      exact ⟨b,hb,rfl⟩
    · exact ⟨c,hc,rfl⟩

theorem foldlM_quiet {A : Type} {f : ValueHeap → A → Option ValueHeap}
    (hf : ∀ a s s', f s a = some s' → s'.negative = false → Quiet s s') {as : List A}
    (hfold : as.foldlM f s = some s') (h : s'.negative = false) : Quiet s s' := by
  induction as generalizing s with
  | nil =>
    cases hfold
    exact .refl h
  | cons a as ih =>
    rw [List.foldlM_cons] at hfold
    obtain ⟨s₁,hfirst,hrest⟩ := Option.bind_eq_some_iff.mp hfold
    have hquiet := ih hrest
    exact (hf a s s₁ hfirst hquiet.negative).trans hquiet

theorem releaseItem_quiet {freeV rel : ℕ → ValueHeap → Option ValueHeap}
    (hfree : ∀ p s s', freeV p s = some s' → s'.negative = false → Quiet s s')
    (hrel : ∀ p s s', rel p s = some s' → s'.negative = false → Quiet s s') {type : ProtobufType}
    {length : ℕ} (hitem : releaseItem freeV rel type length ptr s = some s')
    (h : s'.negative = false) : Quiet s s' := by
  have hsame : some s = some s' → Quiet s s' := by
    rintro ⟨⟩
    exact .refl h
  unfold releaseItem at hitem
  cases type with
  | string =>
    dsimp only at hitem
    split_ifs at hitem
    · exact hfree _ _ _ hitem h
    · exact hsame hitem
  | bytes =>
    dsimp only at hitem
    split_ifs at hitem
    · exact hfree _ _ _ hitem h
    · exact hsame hitem
  | message => exact hrel _ _ _ hitem h
  | _ => exact hsame hitem

theorem releaseField_quiet {freeV rel : ℕ → ValueHeap → Option ValueHeap}
    (hfree : ∀ p s s', freeV p s = some s' → s'.negative = false → Quiet s s')
    (hrel : ∀ p s s', rel p s = some s' → s'.negative = false → Quiet s s') {payload : Payload}
    {field : FieldDescriptor MessageDescriptor}
    (hfield : releaseField freeV rel payload field s = some s') (h : s'.negative = false) :
    Quiet s s' := by
  unfold releaseField at hfield
  split_ifs at hfield with hskip hrepeated
  · cases hfield
    exact .refl h
  · obtain ⟨s₁,hitems,hraw⟩ := Option.bind_eq_some_iff.mp hfield
    unfold freeRaw at hraw
    split_ifs at hraw
    cases hraw
    split_ifs at hitems
    · exact foldlM_quiet (fun a s s' hitem => releaseItem_quiet hfree hrel hitem) hitems h
    · cases hitems
      exact .refl h
  · exact releaseItem_quiet hfree hrel hfield h

theorem Quiet.free {b : Block ValueBlock} (h : Quiet s s') (hb : s.heap[ptr]? = some (some b))
    (hrc : b.rc ≠ 0) (hplain : b.body.plain = true) (hfree : s'.freeBlock ptr = some s'') :
    Quiet s s'' := by
  unfold freeBlock at hfree
  split at hfree
  · rename_i c hc
    cases hfree
    refine ⟨h.negative,fun p d hd hzero => ?_,fun p d hd hnone => ?_,fun p d hd => ?_,
      List.length_set.trans h.length⟩
    · have hne : ptr ≠ p := by
        rintro rfl
        rw [hb] at hd
        cases hd
        exact hrc hzero
      rw [List.getElem?_set_ne hne]
      exact h.zero p d hd hzero
    · rw [getElem?_set_cell hc] at hnone
      split_ifs at hnone with hpq
      · subst hpq
        rw [hb] at hd
        cases hd
        exact hplain
      · exact h.plain p d hd hnone
    · rw [getElem?_set_cell hc] at hd
      split_ifs at hd
      · cases hd
      · exact h.body p d hd
  · cases hfree

theorem freeValue_zero_noisy {b : Block ValueBlock} (hptr : ptr ≠ 0)
    (hb : s.heap[ptr]? = some (some b)) (hrc : b.rc = 0)
    (hfree : freeValue fuel ptr s = some s') : s'.negative = true := by
  cases fuel with
  | zero => cases hfree
  | succ fuel =>
    rw [freeValue_zero hptr hb hrc] at hfree
    cases hfree
    rfl

theorem freeBlock_negative (hfree : s.freeBlock ptr = some s') : s'.negative = s.negative := by
  unfold freeBlock at hfree
  split at hfree
  · cases hfree
    rfl
  · cases hfree

/-- A block whose count was not zero is recounted, or walked and freed. -/
theorem freeValue_cases {b : Block ValueBlock} (hptr : ptr ≠ 0) (hb : s.heap[ptr]? = some (some b)) (hrc : b.rc ≠ 0)
    (hfree : freeValue (fuel + 1) ptr s = some s') :
    (∃ rc, s' = { s with heap := s.heap.set ptr (some { b with rc := rc }) }) ∨
    ∃ s₁, s₁.freeBlock ptr = some s' ∧
      let dying : ValueHeap := { s with heap := s.heap.set ptr (some { b with rc := 0 }) }
      (b.body.plain = true ∧ b.body.refs.foldlM (fun s q => freeValue fuel q s) dying = some s₁) ∨
      freeValue fuel ptr dying = some s₁ ∨ release fuel ptr dying = some s₁ := by
  have hnonzero : decide (b.rc = 0) = false := decide_eq_false hrc
  rw [freeValue,if_neg hptr,hb] at hfree
  dsimp only at hfree
  rw [hnonzero,Bool.or_false] at hfree
  by_cases hmore : (b.rc + 4294967295) % 4294967296 > 0
  · rw [if_pos hmore] at hfree
    exact .inl ⟨_,(Option.some.inj hfree).symm⟩
  · right
    have hzero : (b.rc + 4294967295) % 4294967296 = 0 := by omega
    rw [if_neg hmore,hzero] at hfree
    obtain ⟨rc,⟨header,payload⟩⟩ := b
    cases header with
    | refCountOnly => exact ⟨_,hfree,.inl ⟨rfl,rfl⟩⟩
    | protobuf desc =>
      obtain ⟨s₁,hwalk,hself⟩ := Option.bind_eq_some_iff.mp hfree
      exact ⟨s₁,hself,.inr (.inr hwalk)⟩
    | featureType type =>
      cases type with
      | optional => cases hfree
      | protobuf => cases hfree
      | primitive p =>
        cases p with
        | arrayBuffer =>
          obtain ⟨s₁,hwalk,hself⟩ := Option.bind_eq_some_iff.mp hfree
          exact ⟨s₁,hself,.inr (.inl hwalk)⟩
        | _ => exact ⟨_,hfree,.inl ⟨rfl,rfl⟩⟩
      | _ =>
        obtain ⟨s₁,hwalk,hself⟩ := Option.bind_eq_some_iff.mp hfree
        exact ⟨s₁,hself,.inl ⟨rfl,hwalk⟩⟩

/-- Both walks keep what can be kept as long as no count becomes negative, and the release of a
message without references lets one. -/
theorem walks_quiet (fuel : ℕ) : (∀ ptr s s', freeValue fuel ptr s = some s' → s'.negative = false → Quiet s s') ∧
    (∀ ptr s s', release fuel ptr s = some s' → s'.negative = false → Quiet s s') ∧
    ∀ ptr s s' (b : Block ValueBlock), ptr ≠ 0 → s.heap[ptr]? = some (some b) → b.rc = 0 →
      release fuel ptr s = some s' → s'.negative = true := by
  induction fuel with
  | zero => exact ⟨fun _ _ _ h => (nomatch h),fun _ _ _ h => (nomatch h),
      fun _ _ _ _ _ _ _ h => (nomatch h)⟩
  | succ fuel ih =>
    obtain ⟨hfree,hrel,hnoisy⟩ := ih
    have hfields : ∀ {fields : List (FieldDescriptor MessageDescriptor)} {payload : Payload}
        {s s' : ValueHeap}, fields.foldlM (fun s field =>
          releaseField (freeValue fuel) (release fuel) payload field s) s = some s' →
        s'.negative = false → Quiet s s' :=
      fun hfold => foldlM_quiet (fun _ _ _ => releaseField_quiet hfree hrel) hfold
    refine ⟨fun ptr s s' hwalk h => ?_,fun ptr s s' hwalk h => ?_,
      fun ptr s s' b hptr hb hrc hwalk => ?_⟩
    · by_cases hptr : ptr = 0
      · subst hptr
        rw [freeValue_null] at hwalk
        cases hwalk
        exact .refl h
      · cases hcell : s.heap[ptr]? with
        | none =>
          rw [freeValue,if_neg hptr,hcell] at hwalk
          cases hwalk
        | some cell =>
          cases cell with
          | none =>
            rw [freeValue,if_neg hptr,hcell] at hwalk
            cases hwalk
          | some b =>
            have hrc : b.rc ≠ 0 := by
              intro hrc
              rw [freeValue_zero_noisy hptr hcell hrc hwalk] at h
              cases h
            rcases freeValue_cases hptr hcell hrc hwalk with ⟨rc,rfl⟩ | ⟨s₁,hself,hcases⟩
            · have hs : s.negative = false := h
              exact .recount hs hcell hrc rc
            · have hquiet : s₁.negative = false := freeBlock_negative hself ▸ h
              -- the block is seen at zero by whatever comes back to it
              have hdying : (s.heap.set ptr (some { b with rc := 0 }))[ptr]? =
                  some (some { b with rc := 0 }) :=
                List.getElem?_set_self (List.getElem?_eq_some_iff.mp hcell).1
              rcases hcases with ⟨hplain,hfold⟩ | hself' | hrelease
              · have hchildren := foldlM_quiet (fun q s s' => hfree q s s') hfold hquiet
                have hs : s.negative = false := hchildren.negative
                exact ((Quiet.recount hs hcell hrc 0).trans hchildren).free hcell hrc hplain hself
              · rw [freeValue_zero_noisy hptr hdying rfl hself'] at hquiet
                cases hquiet
              · rw [hnoisy ptr _ _ _ hptr hdying rfl hrelease] at hquiet
                cases hquiet
    · rw [release] at hwalk
      split_ifs at hwalk with hptr
      · cases hwalk
        exact .refl h
      · split at hwalk
        · obtain ⟨s₁,hfold,hself⟩ := Option.bind_eq_some_iff.mp hwalk
          have hquiet := hfree ptr s₁ s' hself h
          exact (hfields hfold hquiet.negative).trans hquiet
        · cases hwalk
    · by_contra hquiet
      rw [Bool.not_eq_true] at hquiet
      rw [release,if_neg hptr] at hwalk
      split at hwalk
      · obtain ⟨s₁,hfold,hself⟩ := Option.bind_eq_some_iff.mp hwalk
        have hkept := (hfields hfold (hfree ptr s₁ s' hself hquiet).negative).zero ptr b hb hrc
        rw [freeValue_zero_noisy hptr hkept hrc hself] at hquiet
        cases hquiet
      · cases hwalk

end Quiet

end ValueHeap

section Trees

variable {heap : Heap ValueBlock} {ptr : ℕ} {ext : List ℕ}

/-- A dup is undone by a free exactly when it does not exhaust the count. -/
theorem freeValue_dup {b : Block ValueBlock} (hptr : ptr ≠ 0) (hb : heap[ptr]? = some (some b))
    (hrc : b.rc ≠ 0) (hword : b.rc < 4294967296) :
    (∀ fuel, 0 < fuel → ValueHeap.freeValue fuel ptr
      { heap := heap.set ptr (some { b with rc := (b.rc + 1) % 4294967296 }) } =
        some { heap := heap }) ↔ b.rc + 1 < 4294967296 := by
  have hset : ∀ c, (heap.set ptr (some c))[ptr]? = some (some c) := fun c =>
    List.getElem?_set_self (List.getElem?_eq_some_iff.mp hb).1
  constructor
  · intro h
    by_contra hmax
    have hzero : (b.rc + 1) % 4294967296 = 0 := by omega
    have hone := h 1 Nat.one_pos
    rw [hzero,ValueHeap.freeValue_zero hptr (hset _) rfl] at hone
    have hnegative := congrArg (Option.map ValueHeap.negative) hone
    cases hnegative
  · intro h fuel hfuel
    obtain ⟨fuel,rfl⟩ := Nat.exists_eq_add_one_of_ne_zero (Nat.ne_zero_of_lt hfuel)
    rw [Nat.mod_eq_of_lt h,ValueHeap.freeValue_more hptr (hset _) (by dsimp only; omega) h]
    have hback : heap.set ptr (some b) = heap := by
      obtain ⟨hlt,hget⟩ := List.getElem?_eq_some_iff.mp hb
      rw [← hget,List.set_getElem_self]
    simp [hback]

/-- The functions manage a tree exactly when its count is not exhausted and no array buffer, no
message and no block of an impossible type goes with the root. -/
theorem managesTree_iff (hl : Ledger ValueBlock.refs heap (ptr :: ext))
    (hacyclic : Acyclic ValueBlock.refs heap) (hword : ∀ p, rcOf heap p < 4294967296)
    (hptr : ptr ≠ 0) :
    ManagesTree heap ptr ext ↔ rcOf heap ptr + 1 < 4294967296 ∧
      ∀ (p : ℕ) (b : Block ValueBlock), heap[p]? = some (some b) →
        ¬ Reachable ValueBlock.refs heap ext p → b.body.plain = true := by
  obtain ⟨b,hb⟩ := hl.live_of_mem List.mem_cons_self hptr
  have hpos := Nat.pos_iff_ne_zero.mp (hl.rc_pos ptr b hb)
  have hroot := hword ptr
  rw [rcOf_of_get hb] at hroot ⊢
  have hdup : featureDupValue heap ptr = some (ptr,heap.set ptr (some { b with rc := (b.rc + 1) % 4294967296 })) := by
    rw [featureDupValue,if_neg hptr,hb]
    exact if_neg hpos
  constructor
  · intro h
    obtain ⟨heap₁,hdup₁,hundo⟩ := h.dup_free
    obtain ⟨heap',hfree,hreleased⟩ := h.free
    rw [hdup] at hdup₁
    cases hdup₁
    refine ⟨(freeValue_dup hptr hb hpos hroot).mp hundo,fun p b hp hreach => ?_⟩
    have hquiet := (ValueHeap.walks_quiet _).1 ptr _ _ (hfree _ (Nat.lt_succ_self _)) rfl
    exact hquiet.plain p b hp (hreleased.freed p b hp hreach)
  · rintro ⟨hmax,hplain⟩
    have hundo := (freeValue_dup hptr hb hpos hroot).mpr hmax
    refine ⟨⟨_,hdup,hundo⟩,⟨_,by rw [featureInstanceDupValue,hb],hundo⟩,?_⟩
    obtain ⟨heap',hfree,hdrains⟩ := ValueHeap.freeValue_drains hplain _ [] ptr heap ext
      ⟨hl,Reduces.refl heap,hword⟩ (List.Subset.refl ext) (Nat.lt_succ_self _)
    refine ⟨heap',fun fuel hfuel => hfree fuel ?_,
      hl.released hacyclic hdrains.reduces hdrains.draining.ledger⟩
    exact Nat.lt_of_le_of_lt List.countP_le_length hfuel

end Trees

/-- A struct whose name and optional alias are one string, of which the caller keeps a reference. -/
def aliasedRecord : Heap ValueBlock :=
  [none,some ⟨1,⟨.featureType (.structMap 16 [⟨"name",.primitive .string,0⟩,
      ⟨"alias",.optional (.primitive .string) {},8⟩]),{ pointer := fun _ => 2, fits := Payload.fits_nil }⟩⟩,
    some ⟨3,⟨.featureType (.primitive .string),{ fits := Payload.fits_nil }⟩⟩]

theorem managesTree_of_aliasedRecord : ManagesTree aliasedRecord 1 [2] := by
  have hcells : ∀ p b, aliasedRecord[p]? = some (some b) → p = 1 ∨ p = 2 := by
    intro p b hb
    match p, hb with
    | 1, _ => exact .inl rfl
    | 2, _ => exact .inr rfl
  refine (managesTree_iff ⟨rfl,?_,?_⟩ (acyclic_of_rank id ?_) ?_ Nat.one_ne_zero).mpr ⟨by decide,?_⟩
  · intro p b hb
    rcases hcells p b hb with rfl | rfl <;> cases hb <;> decide
  · intro p hp
    match p, hp with
    | 1, _ => decide
    | 2, _ => decide
    | n + 3, _ => simp [aliasedRecord,rcOf,heldBy,cellRefs,ValueBlock.refs,
        FeatureType.ownedPointers,FeatureType.realType,FeatureType.needFree,FeatureType.flag,
        FeatureType.typeFlag,PrimitiveType.flag]
  · rintro p q ⟨b,hb,hq⟩
    rcases hcells p b hb with rfl | rfl <;> cases hb
    · have hq : q = 2 := by
        simpa [ValueBlock.refs,FeatureType.ownedPointers,FeatureType.realType,
          FeatureType.needFree,FeatureType.flag,FeatureType.typeFlag,
          PrimitiveType.flag] using hq
      subst hq
      decide
    · cases hq
  · intro p
    match p with
    | 0 => decide
    | 1 => decide
    | 2 => decide
    | n + 3 => simp [aliasedRecord,rcOf]
  · intro p b hb _
    rcases hcells p b hb with rfl | rfl <;> cases hb <;> rfl

/-- An array buffer is given back once more after its last reference. -/
theorem arrayBuffer_counts_below_zero :
    ¬ ManagesTree [none,some ⟨1,⟨.featureType (.primitive .arrayBuffer),{}⟩⟩] 1 [] := by
  intro h
  obtain ⟨heap',hfree,-⟩ := h.free
  have hnegative := congrArg (Option.map ValueHeap.negative) (hfree 3 (by decide))
  cases hnegative

end FeatureRuntime
