import FeatureRuntime.SystemEvents

/-! The number of subscriptions that is recorded for every event: a detached instance takes its
subscriptions off it, a call of `unsubscribe` does not. -/
namespace FeatureRuntime.SystemEvents

variable {F : Type} (s : SystemEvents F)

/-- The number of subscriptions that is recorded for every event. -/
structure Counted (s : SystemEvents F) : Prop where
  counted : ∀ eventName, (s.eventSubsInfo eventName).getD 0 = (s.liveSubs eventName).length
  nonzero : ∀ eventName, s.eventSubsInfo eventName ≠ some 0

theorem counted_init : Counted ({} : SystemEvents F) where
  counted eventName := by simp [liveSubs,gather]
  nonzero := by simp

namespace Counted

variable {s}

theorem frame (hc : s.Counted) {t : SystemEvents F} (hinfo : t.eventSubsInfo = s.eventSubsInfo)
    (hcontexts : ∀ p, gather p t.contexts = gather p s.contexts) : t.Counted where
  counted eventName := by rw [hinfo,liveSubs,hcontexts]; exact hc.counted eventName
  nonzero := by rw [hinfo]; exact hc.nonzero

theorem freeSubs (hs : s.Entries) (hc : s.Counted) {eventName : String} {id : ℤ}
    (hid : id ∈ s.liveSubs eventName) : (s.freeSubs eventName id).Counted := by
  obtain ⟨_,hgather,_⟩ := hs.freeSubs eventName id
  have hinfo : (s.removeSubscribe none id).eventSubsInfo = s.eventSubsInfo := by
    unfold SystemEvents.removeSubscribe
    split <;> rfl
  have hcount := hc.counted eventName
  have hpos : 0 < (s.liveSubs eventName).length := List.length_pos_of_mem hid
  cases hname : s.eventSubsInfo eventName with
  | none =>
    rw [hname] at hcount
    simp only [Option.getD_none] at hcount
    omega
  | some count =>
    rw [hname] at hcount
    simp only [Option.getD_some] at hcount
    have hafter : (s.freeSubs eventName id).eventSubsInfo = Function.update s.eventSubsInfo eventName
        (if count - 1 = 0 then none else some (count - 1)) := by
      unfold SystemEvents.freeSubs removeEventSubsInfoGlobal
      rw [hinfo,hname]
    refine ⟨fun name => ?_,fun name => ?_⟩
    · have hold := hc.counted name
      rw [hafter,liveSubs,hgather]
      rw [liveSubs] at hold hcount hid hpos
      by_cases heq : name = eventName
      · subst heq
        rw [Function.update_self,List.length_erase_of_mem hid]
        split_ifs <;> simp only [Option.getD_none,Option.getD_some] <;> omega
      · rw [Function.update_of_ne heq,List.erase_of_not_mem]
        · exact hold
        · intro hmem
          obtain ⟨_,n,h1,h2⟩ := hs.key_unique hmem hid
          simp only [decide_eq_true_eq] at h1 h2
          exact heq (h1.symm.trans h2)
    · rw [hafter,Function.update_apply]
      split_ifs with h1 h2
      · nofun
      · exact fun h => h2 (Option.some.inj h)
      · exact hc.nonzero name

theorem freeAll (hs : s.Entries) (hc : s.Counted) {subs : List (String × ℤ)}
    (hnodup : (subs.map Prod.snd).Nodup) (hmem : ∀ sub ∈ subs, sub.2 ∈ s.liveSubs sub.1) :
    (subs.foldl (fun s sub => s.freeSubs sub.1 sub.2) s).Counted := by
  induction subs generalizing s with
  | nil => exact hc
  | cons sub subs ih =>
    obtain ⟨hfree,hgather,_⟩ := hs.freeSubs sub.1 sub.2
    rw [List.map_cons,List.nodup_cons] at hnodup
    apply ih hfree (hc.freeSubs hs (hmem sub List.mem_cons_self)) hnodup.2
    intro other hother
    have hne : other.2 ≠ sub.2 := fun h => hnodup.1 (h ▸ List.mem_map_of_mem hother)
    rw [liveSubs,hgather,List.mem_erase_of_ne hne]
    exact hmem other (List.mem_cons_of_mem _ hother)

theorem release (hs : s.Entries) (hc : s.Counted) (q : EventInstance → Bool) : (s.release q).Counted := by
  have hnodup : (gather (fun h _ => q h) s.contexts).Nodup := hs.linked_nodup.sublist (gather_sublist _ _)
  have hfree : ((s.contexts.filter (fun c => q c.handle)).foldl freeContext s).Counted := by
    rw [foldl_freeContext]
    apply hc.freeAll hs
    · rw [subsOf_ids]
      exact hnodup
    · intro sub hsub
      simp only [subsOf,List.mem_flatMap,List.mem_filter,List.mem_map] at hsub
      obtain ⟨c,⟨hc,_⟩,id,hid,rfl⟩ := hsub
      exact (mem_gather _ _).mpr ⟨c,hc,by simp,hid⟩
  obtain ⟨_,hgather,_⟩ := hs.freeManagers q
  obtain ⟨_,hgather',_⟩ := hs.freeAll (subsOf (s.contexts.filter (fun c => q c.handle)))
  rw [← foldl_freeContext,subsOf_ids] at hgather'
  exact hfree.frame rfl (fun p => (hgather p).trans (hgather' p).symm)

theorem addEventSubsInfo (handle : EventInstance) (eventName : String) (cb : ℤ) (hs : s.Entries) (hc : s.Counted)
    (hopen : ∃ c ∈ s.contexts, c.handle = handle ∧ c.eventName = eventName) :
    (s.addEventSubsInfo handle eventName cb).2.Counted := by
  rw [hs.addEventSubsInfo_eq]
  split_ifs with hlt
  · have hcount := hc.counted eventName
    refine ⟨fun name => ?_,fun name => ?_⟩
    · have hperm := gather_link (fun _ n => n = name) handle eventName s.eventSubsId hopen
      have hold := hc.counted name
      rw [liveSubs] at hold hcount ⊢
      simp only [addEventSubsInfoGlobal]
      rw [hperm.length_eq,List.length_append,Function.update_apply]
      by_cases heq : name = eventName
      · subst heq
        cases hname : s.eventSubsInfo name with
        | none =>
          rw [hname] at hcount
          simp only [Option.getD_none] at hcount
          simp [← hcount]
        | some count =>
          rw [hname] at hcount
          simp only [Option.getD_some] at hcount
          simp [hcount,add_comm]
      · simp [heq,Ne.symm heq,hold]
    · simp only [addEventSubsInfoGlobal,Function.update_apply]
      split_ifs with heq
      · intro h
        have h := Option.some.inj h
        cases hname : s.eventSubsInfo eventName with
        | none => simp [hname] at h
        | some count =>
          rw [hname] at hcount h
          rw [Option.getD_some] at hcount
          have h : count + 1 = 0 := h
          omega
      · exact hc.nonzero name
  · exact hc.frame rfl (fun _ => rfl)

end Counted

variable [DecidableEq F]

/-- The recorded numbers, the map and the lists agree; publishing is open while somebody is subscribed; no
id is given twice. -/
structure Accounted (s : SystemEvents F) : Prop where
  noFault : s.fault = false
  counted : ∀ eventName, (s.eventSubsInfo eventName).getD 0 = (s.liveSubs eventName).length
  subscribed : ∀ eventName, s.isEventSubscribed eventName = true ↔
    ∃ c ∈ s.contexts, c.eventName = eventName ∧ c.subsLinklist ≠ []
  entries : ∀ id, (s.subsMap id).isSome → s.linked.count id = 1
  issued_once : s.issued.Nodup

/-- A call of `unsubscribe` removes no subscription, and the counters of the ids have a next value. -/
def KeepsCount (s : SystemEvents F) (op : SystemEventOp F) : Prop :=
  s.HasNext op ∧
    match op with
    | .unsubscribe handle id => s.detached handle = false → s.instanceMatchId handle id = false
    | _ => True

structure Accounts (s : SystemEvents F) : Prop where
  entries : s.Entries
  counted : s.Counted
  noFault : s.fault = false

namespace Accounts

variable {s}

omit [DecidableEq F] in
theorem accounted (hs : s.Accounts) : s.Accounted where
  noFault := hs.noFault
  counted := hs.counted.counted
  subscribed eventName := by
    have hcount := hs.counted.counted eventName
    have hnonzero := hs.counted.nonzero eventName
    have hlive : (∃ c ∈ s.contexts, c.eventName = eventName ∧ c.subsLinklist ≠ []) ↔ s.liveSubs eventName ≠ [] := by
      rw [Ne,List.eq_nil_iff_forall_not_mem]
      push Not
      simp only [liveSubs,mem_gather,decide_eq_true_eq]
      constructor
      · rintro ⟨c,hc,hname,hne⟩
        obtain ⟨id,hid⟩ := List.exists_mem_of_ne_nil _ hne
        exact ⟨id,c,hc,hname,hid⟩
      · rintro ⟨id,c,hc,hname,hid⟩
        exact ⟨c,hc,hname,List.ne_nil_of_mem hid⟩
    rw [hlive,← List.length_pos_iff]
    unfold isEventSubscribed
    cases hname : s.eventSubsInfo eventName with
    | none =>
      rw [hname,Option.getD_none] at hcount
      simp only [Bool.false_eq_true,false_iff]
      omega
    | some count =>
      rw [hname] at hcount hnonzero
      rw [Option.getD_some] at hcount
      simp only [decide_eq_true_eq,ne_eq]
      rw [Ne,Option.some.injEq] at hnonzero
      constructor <;> intro h <;> omega
  entries id hid := by rw [hs.entries.entries,if_pos hid]
  issued_once := hs.entries.issued_nodup

theorem subscribe (hs : s.Accounts) (handle : EventInstance) (eventName : Option String)
    (callback : Option F) (subscribed : Bool) :
    (s.subscribe handle eventName callback subscribed).2.Counted := by
  obtain ⟨_,hinfo,_,_,hcontexts,_⟩ := convertCallback_same (s := s) handle callback
  rcases s.subscribe_cases handle eventName callback subscribed with ⟨_,heq⟩ | ⟨_,name,topic,_,_,heq⟩
  · rw [heq]
    exact hs.counted.frame hinfo (fun p => congrArg (gather p) hcontexts)
  · rw [heq]
    have hopen := hs.entries.openContext handle name callback (s.listen handle.proto topic)
    have hcounted : Counted { (s.convertCallback handle callback).2 with
        topicsMap := s.listen handle.proto topic
        contexts := EventContext.openContext handle name s.contexts } :=
      hs.counted.frame hinfo (fun p => gather_openContext p _ _ _)
    exact hcounted.addEventSubsInfo handle name _ hopen (openContext_mem _ _ _)

theorem step (hs : s.Accounts) (op : SystemEventOp F) (hgood : s.KeepsCount op) : (s.step op).Accounts := by
  refine ⟨hs.entries.step op,?_,(hs.entries.step_fault hs.noFault op).mpr hgood.1⟩
  unfold SystemEvents.step
  rw [hs.noFault,if_neg Bool.false_ne_true]
  cases op with
  | subscribe handle eventName callback subscribed =>
    dsimp only
    split
    · exact hs.counted
    · exact hs.subscribe handle eventName callback subscribed
  | unsubscribe handle id =>
    dsimp only
    split
    · exact hs.counted
    · next hattached =>
      unfold SystemEvents.unsubscribe
      rw [hgood.2 (by simpa using hattached),if_neg Bool.false_ne_true]
      exact hs.counted
  | detach handle =>
    dsimp only
    split
    · exact hs.counted
    · exact hs.counted.release hs.entries _
  | destroy proto =>
    exact (hs.counted.release hs.entries (fun handle => decide (handle.proto = proto))).frame rfl
      (fun _ => rfl)

/-- A subscription removed by `unsubscribe` leaves its number behind. -/
theorem not_accounted (hs : s.Accounts) (op : SystemEventOp F) (hbad : ¬ s.KeepsCount op) :
    ¬ (s.step op).Accounted := by
  intro hall
  have hnext := (hs.entries.step_fault hs.noFault op).mp hall.noFault
  cases op with
  | unsubscribe handle id =>
    simp only [KeepsCount,hnext,true_and,Classical.not_imp,Bool.not_eq_false] at hbad
    obtain ⟨hattached,hmatch⟩ := hbad
    unfold SystemEvents.step at hall
    rw [hs.noFault,if_neg Bool.false_ne_true] at hall
    dsimp only at hall
    rw [hattached,if_neg Bool.false_ne_true] at hall
    unfold SystemEvents.unsubscribe at hall
    rw [if_pos hmatch] at hall
    have hsome : (s.subsMap id).isSome := by
      unfold instanceMatchId at hmatch
      split at hmatch
      · next h => simp [h]
      · exact Bool.noConfusion hmatch
    obtain ⟨c,hc,_,hid⟩ := (mem_gather _ _).mp ((hs.entries.mem_linked id).mpr hsome)
    have hmem : id ∈ s.liveSubs c.eventName := (mem_gather _ _).mpr ⟨c,hc,by simp,hid⟩
    obtain ⟨_,_,hgather⟩ := hs.entries.removeSubscribe (some handle) id
    have hinfo : (s.removeSubscribe (some handle) id).eventSubsInfo = s.eventSubsInfo := by
      unfold SystemEvents.removeSubscribe
      split <;> rfl
    have hnew := hall.counted c.eventName
    have hold := hs.counted.counted c.eventName
    have hpos := List.length_pos_of_mem hmem
    rw [liveSubs] at hold hpos hmem
    rw [hinfo,liveSubs,hgather,List.length_erase_of_mem hmem] at hnew
    omega
  | _ => exact hbad ⟨hnext,trivial⟩

omit [DecidableEq F] in
theorem init : Accounts ({} : SystemEvents F) where
  entries := entries_init
  counted := counted_init
  noFault := rfl

end Accounts

/-- Subscriptions are accounted for along a run exactly when no call of `unsubscribe` removes one and the
counter of the ids does not overflow. -/
theorem accounted_iff (ops : List (SystemEventOp F)) : Transition.Always step Accounted ({} : SystemEvents F) ops ↔
      Transition.Guarded step KeepsCount ({} : SystemEvents F) ops :=
  Transition.always_iff_guarded (I := Accounts) (fun _ hs => hs.accounted) (fun _ op hs hgood => hs.step op hgood)
    (fun _ op hs hbad => hs.not_accounted op hbad) Accounts.init ops

/-- The only subscription is removed, and its event still counts as subscribed. -/
theorem unsubscribed_still_counted : ¬ Transition.Always step Accounted ({} : SystemEvents ℕ)
    [.subscribe ⟨0,0⟩ (some "news") (some 7) true,.unsubscribe ⟨0,0⟩ 0] := by
  intro hall
  exact absurd (hall.last.counted "news") (by decide)

end FeatureRuntime.SystemEvents
