import FeatureRuntime.SystemEvents

/-! Subscriptions of different instances: `unsubscribe` is guarded by the callback id alone, which other
subscriptions, and the tables of other instances, may have as well. -/
namespace FeatureRuntime.SystemEvents

variable {F : Type} (s : SystemEvents F)

def owned (handle : EventInstance) : List ℤ := gather (fun h _ => h = handle) s.contexts

def deliveries (handle : EventInstance) (eventName : String) : List F :=
  (gather (fun h name => h = handle ∧ name = eventName) s.contexts).filterMap (fun id =>
    (s.subsMap id).bind (fun cb => ((s.callbacks handle).invokeCallback cb).map Invocation.cb))

variable [DecidableEq F]

/-- A call of `unsubscribe` removes subscriptions of its own instance only, and callbacks that no live
subscription of it uses. No step overflows a counter. -/
def StepIsolated (s : SystemEvents F) (op : SystemEventOp F) : Prop :=
  (s.step op).fault = false ∧
    match op with
    | .unsubscribe handle _ =>
      (∀ i ∈ s.linked, i ∉ (s.step op).linked → i ∈ s.owned handle) ∧
      (∀ cb, s.checkCallbackId handle cb = true → (s.step op).checkCallbackId handle cb = false →
        ∀ i ∈ (s.step op).owned handle, (s.step op).subsMap i ≠ some cb)
    | _ => True

/-- When the caller of `unsubscribe` has a callback with the number of the subscription, the subscription is
its own, and the only one of its live ones with that callback. -/
def KeepsIsolation (s : SystemEvents F) (op : SystemEventOp F) : Prop :=
  s.HasNext op ∧
    match op with
    | .unsubscribe handle id =>
      s.detached handle = false → ∀ cb, s.subsMap id = some cb → s.checkCallbackId handle cb = true →
        id ∈ s.owned handle ∧ ∀ i ∈ s.owned handle, i ≠ id → s.subsMap i ≠ some cb
    | _ => True

structure Separate (s : SystemEvents F) : Prop where
  entries : s.Entries
  bounded : ∀ handle, (s.callbacks handle).Bounded

section Instance

variable (handle : EventInstance) {contexts : List EventContext}

def own (contexts : List EventContext) : List EventContext := contexts.filter (fun c => c.handle = handle)

theorem own_cons (c : EventContext) :
    own handle (c :: contexts) = (if c.handle = handle then [c] else []) ++ own handle contexts := by
  unfold own
  rw [List.filter_cons]
  by_cases hc : c.handle = handle
  · simp [hc]
  · simp [hc]

theorem gather_own {p : EventInstance → String → Bool} (hp : ∀ h name, p h name = true → h = handle) :
    gather p contexts = gather p (own handle contexts) := by
  unfold gather own
  rw [List.filter_filter]
  congr 1
  apply List.filter_congr
  intro c _
  by_cases hc : p c.handle c.eventName = true
  · simp [hp _ _ hc]
  · simp [hc]

theorem own_openContext (other : EventInstance) (name : String) :
    own handle (EventContext.openContext other name contexts) =
      if other = handle then EventContext.openContext other name (own handle contexts) else own handle contexts := by
  have hany : other = handle → (own handle contexts).any (fun c => c.handle = other ∧ c.eventName = name) =
      contexts.any (fun c => c.handle = other ∧ c.eventName = name) := by
    rintro rfl
    rw [Bool.eq_iff_iff]
    simp only [own,List.any_eq_true,List.mem_filter,decide_eq_true_eq]
    constructor
    · rintro ⟨c,⟨hc,_⟩,hkey⟩
      exact ⟨c,hc,hkey⟩
    · rintro ⟨c,hc,hkey⟩
      exact ⟨c,⟨hc,hkey.1⟩,hkey⟩
  unfold EventContext.openContext
  by_cases hother : other = handle
  · rw [if_pos hother,hany hother]
    split_ifs
    · rfl
    · simp [own,hother]
  · rw [if_neg hother]
    split_ifs
    · rfl
    · simp [own,hother]

theorem own_link (other : EventInstance) (name : String) (id : ℤ) :
    own handle (EventContext.link other name id contexts) =
      if other = handle then EventContext.link other name id (own handle contexts) else own handle contexts := by
  induction contexts with
  | nil => simp [EventContext.link,own]
  | cons c contexts ih =>
    have hlink : EventContext.link other name id (c :: contexts) =
        if c.handle = other ∧ c.eventName = name then
          { c with subsLinklist := c.subsLinklist ++ [id] } :: contexts
        else c :: EventContext.link other name id contexts := rfl
    rw [hlink]
    by_cases hother : other = handle
    · subst hother
      rw [if_pos rfl] at ih ⊢
      by_cases hkey : c.handle = other ∧ c.eventName = name
      · rw [if_pos hkey,own_cons,own_cons]
        simp [hkey.1,EventContext.link,hkey.2]
      · rw [if_neg hkey,own_cons,own_cons,ih]
        by_cases hc : c.handle = other
        · have hname : c.eventName ≠ name := fun h => hkey ⟨hc,h⟩
          simp [hc,EventContext.link,hname]
        · simp only [hc,if_false,List.nil_append]
    · rw [if_neg hother] at ih ⊢
      by_cases hkey : c.handle = other ∧ c.eventName = name
      · rw [if_pos hkey,own_cons,own_cons]
        have hc : c.handle ≠ handle := fun h => hother (hkey.1.symm.trans h)
        simp [hc]
      · rw [if_neg hkey,own_cons,own_cons,ih]

theorem own_unlink (id : ℤ) :
    own handle (contexts.map (EventContext.unlink id)) = (own handle contexts).map (EventContext.unlink id) := by
  unfold own
  rw [List.filter_map]
  rfl

theorem own_unlink_of_not_mem {id : ℤ} (hid : id ∉ gather (fun h _ => h = handle) contexts) :
    own handle (contexts.map (EventContext.unlink id)) = own handle contexts := by
  rw [own_unlink]
  conv_rhs => rw [← List.map_id (own handle contexts)]
  apply List.map_congr_left
  intro c hc
  obtain ⟨hc,hown⟩ := List.mem_filter.mp hc
  have hnot : id ∉ c.subsLinklist := fun h => hid ((mem_gather _ _).mpr ⟨c,hc,by simpa using hown,h⟩)
  unfold EventContext.unlink
  rw [List.erase_of_not_mem hnot]
  rfl

end Instance

namespace Separate

variable {s}

omit [DecidableEq F] in
theorem check_pos (hs : s.Separate) {handle : EventInstance} {cb : ℤ}
    (h : s.checkCallbackId handle cb = true) : 0 < cb := by
  obtain ⟨data,hdata⟩ := Option.isSome_iff_exists.mp h
  exact ((hs.bounded handle).ids cb data hdata).1

theorem check_convert (hs : s.Separate) (handle : EventInstance) {cb : F} (hid : s.HasId handle cb) :
    (s.convertCallback handle (some cb)).2.checkCallbackId handle (s.convertCallback handle (some cb)).1 = true ∧
      ((s.convertCallback handle (some cb)).2.callbacks handle).Bounded := by
  simp only [convertCallback,if_pos hid,checkCallbackId,Function.update_self]
  rcases (hs.bounded handle).addCallback_cases cb subscribeCb with ⟨data,hdata,_,hadd⟩ | ⟨hnone,hadd⟩
  · rw [hadd]
    exact ⟨by simp [hdata],hs.bounded handle⟩
  · have hlt : (s.callbacks handle).currCid < intMax := by
      refine hid.resolve_left (fun hpos => ?_)
      rcases (s.callbacks handle).findCallbackId_cases cb with ⟨data,hdata,_⟩ | ⟨hzero,_⟩
      · rw [hnone] at hdata
        cases hdata
      · omega
    have hnonneg := (hs.bounded handle).nonneg
    rw [hadd,toInt_of_le (by omega) (by omega)]
    exact ⟨by simp [CallbackManager.getCallbackData],(hs.bounded handle).insert_next hlt _⟩

omit [DecidableEq F] in
theorem check_convert_none (hs : s.Separate) (handle : EventInstance) : s.checkCallbackId handle (-1) = false := by
  by_contra h
  have := hs.check_pos ((Bool.not_eq_false _).mp h)
  omega

theorem convertCallback (hs : s.Separate) (handle : EventInstance) (callback : Option F)
    (other : EventInstance) : ((s.convertCallback handle callback).2.callbacks other).Bounded := by
  cases callback with
  | none => exact hs.bounded other
  | some cb =>
    by_cases hid : s.HasId handle cb
    · by_cases hother : other = handle
      · rw [hother]
        exact (hs.check_convert handle hid).2
      · simp only [SystemEvents.convertCallback,if_pos hid,Function.update_of_ne hother]
        exact hs.bounded other
    · simp only [SystemEvents.convertCallback,if_neg hid]
      exact hs.bounded other

omit [DecidableEq F] in
theorem addEventSubsInfo_callbacks (s : SystemEvents F) (handle : EventInstance) (name : String) (cb : ℤ) :
    (s.addEventSubsInfo handle name cb).2.callbacks = s.callbacks := by
  unfold addEventSubsInfo
  split
  · rfl
  · dsimp only
    split <;> rfl

omit [DecidableEq F] in
theorem removeSubscribe_bounded (hs : s.Separate) (handle : Option EventInstance) (id : ℤ)
    (other : EventInstance) : ((s.removeSubscribe handle id).callbacks other).Bounded := by
  unfold removeSubscribe
  split
  · exact hs.bounded other
  · cases handle with
    | none => exact hs.bounded other
    | some handle =>
      by_cases hother : other = handle
      · subst hother
        simp only [Function.update_self]
        exact (hs.bounded other).eraseCallback _
      · simp only [Function.update_of_ne hother]
        exact hs.bounded other

omit [DecidableEq F] in
theorem freeSubs_callbacks (s : SystemEvents F) (name : String) (id : ℤ) :
    (s.freeSubs name id).callbacks = s.callbacks ∧ (s.freeSubs name id).detached = s.detached ∧
      (s.freeSubs name id).topicsMap = s.topicsMap ∧ (s.freeSubs name id).eventSubsId = s.eventSubsId := by
  unfold freeSubs removeSubscribe removeEventSubsInfoGlobal
  split <;> dsimp only <;> split <;> exact ⟨rfl,rfl,rfl,rfl⟩

omit [DecidableEq F] in
theorem freeManagers_callbacks (s : SystemEvents F) (q : EventInstance → Bool) :
    (s.freeManagers q).callbacks = s.callbacks ∧ (s.freeManagers q).detached = s.detached ∧
      (s.freeManagers q).topicsMap = s.topicsMap ∧ (s.freeManagers q).eventSubsId = s.eventSubsId := by
  have hall : ∀ subs : List (String × ℤ), ∀ s : SystemEvents F,
      let t := subs.foldl (fun s sub => s.freeSubs sub.1 sub.2) s
      t.callbacks = s.callbacks ∧ t.detached = s.detached ∧ t.topicsMap = s.topicsMap ∧
        t.eventSubsId = s.eventSubsId := by
    intro subs
    induction subs with
    | nil => exact fun s => ⟨rfl,rfl,rfl,rfl⟩
    | cons sub subs ih =>
      intro s
      obtain ⟨h1,h2,h3,h4⟩ := freeSubs_callbacks s sub.1 sub.2
      obtain ⟨h5,h6,h7,h8⟩ := ih (s.freeSubs sub.1 sub.2)
      exact ⟨h5.trans h1,h6.trans h2,h7.trans h3,h8.trans h4⟩
  unfold freeManagers
  rw [foldl_freeContext]
  exact hall _ s

theorem step (hs : s.Separate) (op : SystemEventOp F) : (s.step op).Separate := by
  refine ⟨hs.entries.step op,fun other => ?_⟩
  have hrelease : ∀ q : EventInstance → Bool, ((s.release q).callbacks other).Bounded := by
    intro q
    have hold := hs.bounded other
    have hcallbacks := (freeManagers_callbacks s q).1
    unfold release
    dsimp only
    rw [hcallbacks]
    split_ifs
    · exact ⟨hold.nonneg,hold.le_max,fun k data hk => by simp [CallbackManager.getCallbackData] at hk⟩
    · exact hold
  unfold SystemEvents.step
  split
  · exact hs.bounded other
  · cases op with
    | subscribe handle eventName callback subscribed =>
      dsimp only
      split
      · exact hs.bounded other
      · rcases s.subscribe_cases handle eventName callback subscribed with ⟨_,heq⟩ | ⟨_,name,topic,_,_,heq⟩
        · rw [heq]
          exact hs.convertCallback handle callback other
        · rw [heq,addEventSubsInfo_callbacks]
          exact hs.convertCallback handle callback other
    | unsubscribe handle id =>
      dsimp only
      split
      · exact hs.bounded other
      · unfold SystemEvents.unsubscribe
        split
        · exact hs.removeSubscribe_bounded (some handle) id other
        · exact hs.bounded other
    | detach handle =>
      dsimp only
      split
      · exact hs.bounded other
      · exact hrelease _
    | destroy proto => exact hrelease (fun handle => decide (handle.proto = proto))

omit [DecidableEq F] in
theorem init : Separate ({} : SystemEvents F) where
  entries := entries_init
  bounded _ := ⟨le_rfl,by simp [intMax],by simp [CallbackManager.getCallbackData]⟩

omit [DecidableEq F] in
theorem removeSubscribe_check (hs : s.Separate) {handle : EventInstance} {id cb : ℤ}
    (hid : s.subsMap id = some cb) (hcheck : s.checkCallbackId handle cb = true) (k : ℤ) :
    (s.removeSubscribe (some handle) id).checkCallbackId handle k =
      if k = cb then false else s.checkCallbackId handle k := by
  have hpos := hs.check_pos hcheck
  unfold checkCallbackId removeSubscribe
  rw [hid]
  simp only [Function.update_self]
  split_ifs with h
  · rw [h,CallbackManager.eraseCallback_removes _ hpos]
    rfl
  · rw [CallbackManager.eraseCallback_keeps _ h]

/-- A step is isolated exactly when the removed subscription is the caller's and its callback is not used
by another one. -/
theorem stepIsolated_iff (hs : s.Separate) (hfault : s.fault = false) (op : SystemEventOp F) :
    s.StepIsolated op ↔ s.KeepsIsolation op := by
  unfold StepIsolated KeepsIsolation
  rw [hs.entries.step_fault hfault]
  apply and_congr_right
  intro _
  cases op with
  | unsubscribe handle id =>
    dsimp only
    have hstep : s.step (.unsubscribe handle id) =
        if s.detached handle then s else s.unsubscribe handle id := by
      unfold SystemEvents.step
      rw [hfault,if_neg Bool.false_ne_true]
    rw [hstep]
    by_cases hdetached : s.detached handle = true
    · rw [if_pos hdetached]
      refine iff_of_true ⟨fun i hi hno => absurd hi hno,fun cb h1 h2 => ?_⟩ (fun h => by simp [hdetached] at h)
      rw [h1] at h2
      exact Bool.noConfusion h2
    · rw [if_neg hdetached]
      have hattached : s.detached handle = false := by simpa using hdetached
      unfold SystemEvents.unsubscribe instanceMatchId
      cases hid : s.subsMap id with
      | none =>
        simp only [Bool.false_eq_true,if_false]
        refine iff_of_true ⟨fun i hi hno => absurd hi hno,fun cb h1 h2 => ?_⟩ (fun _ _ h => nomatch h)
        rw [h1] at h2
        exact Bool.noConfusion h2
      | some cb =>
        dsimp only
        by_cases hcheck : s.checkCallbackId handle cb = true
        · rw [if_pos hcheck]
          obtain ⟨_,hmap,hgather⟩ := hs.entries.removeSubscribe (some handle) id
          have hlinked : (s.removeSubscribe (some handle) id).linked = s.linked.erase id := hgather _
          have howned : (s.removeSubscribe (some handle) id).owned handle = (s.owned handle).erase id := hgather _
          have hnodup : (s.owned handle).Nodup := hs.entries.linked_nodup.sublist (gather_sublist _ _)
          have hmem : id ∈ s.linked := (hs.entries.mem_linked id).mpr (by simp [hid])
          constructor
          · rintro ⟨hown,hused⟩ _ k hk _
            obtain rfl := Option.some.inj hk
            refine ⟨hown id hmem ?_,fun i hi hne heq => ?_⟩
            · rw [hlinked,hs.entries.linked_nodup.mem_erase_iff]
              exact fun h => h.1 rfl
            · refine hused cb hcheck ?_ i ?_ ?_
              · rw [hs.removeSubscribe_check hid hcheck,if_pos rfl]
              · rw [howned,hnodup.mem_erase_iff]
                exact ⟨hne,hi⟩
              · rw [hmap,if_neg hne,heq]
          · intro hgood
            obtain ⟨hown,hused⟩ := hgood hattached cb rfl hcheck
            refine ⟨fun i hi hno => ?_,fun k h1 h2 i hi => ?_⟩
            · rw [hlinked,hs.entries.linked_nodup.mem_erase_iff,not_and'] at hno
              rw [not_not.mp (hno hi)]
              exact hown
            · rw [howned,hnodup.mem_erase_iff] at hi
              rw [hs.removeSubscribe_check hid hcheck] at h2
              split_ifs at h2 with hk
              · rw [hmap,if_neg hi.1,hk]
                exact hused i hi.2 hi.1
              · rw [h1] at h2
                exact Bool.noConfusion h2
        · rw [if_neg hcheck]
          refine iff_of_true ⟨fun i hi hno => absurd hi hno,fun k h1 h2 => ?_⟩ (fun _ k hk h => ?_)
          · rw [h1] at h2
            exact Bool.noConfusion h2
          · obtain rfl := Option.some.inj hk
            exact absurd h hcheck
  | _ => exact Iff.rfl

end Separate

omit [DecidableEq F] in
theorem Entries.free_others {s : SystemEvents F} (hs : s.Entries) (handle : EventInstance)
    {subs : List (String × ℤ)} (hsubs : ∀ sub ∈ subs, sub.2 ∉ s.owned handle) :
    let t := subs.foldl (fun s sub => s.freeSubs sub.1 sub.2) s
    own handle t.contexts = own handle s.contexts ∧ ∀ i ∈ s.owned handle, t.subsMap i = s.subsMap i := by
  induction subs generalizing s with
  | nil => exact ⟨rfl,fun _ _ => rfl⟩
  | cons sub subs ih =>
    obtain ⟨hfree,hgather,_⟩ := hs.freeSubs sub.1 sub.2
    obtain ⟨_,hmap,_⟩ := hs.removeSubscribe none sub.2
    obtain ⟨hmap',hcontexts,_⟩ := Entries.removeEventSubsInfoGlobal_same (s.removeSubscribe none sub.2) sub.1
    have hsub := hsubs sub List.mem_cons_self
    have howned : (s.freeSubs sub.1 sub.2).owned handle = s.owned handle := by
      unfold owned
      rw [hgather]
      exact List.erase_of_not_mem hsub
    obtain ⟨hown,hkeep⟩ := ih hfree (fun other hother => by
      rw [howned]
      exact hsubs other (List.mem_cons_of_mem _ hother))
    refine ⟨hown.trans ?_,fun i hi => ?_⟩
    · have hremoved : own handle (s.removeSubscribe none sub.2).contexts = own handle s.contexts := by
        unfold SystemEvents.removeSubscribe
        split
        · rfl
        · exact own_unlink_of_not_mem handle hsub
      exact (congrArg (own handle) hcontexts).trans hremoved
    · have hne : i ≠ sub.2 := fun h => hsub (h ▸ hi)
      refine (hkeep i (howned.symm ▸ hi)).trans ?_
      refine (congrFun hmap' i).trans ?_
      rw [hmap,if_neg hne]

omit [DecidableEq F] in
theorem Entries.freeManagers_own {s : SystemEvents F} (hs : s.Entries) (q : EventInstance → Bool)
    (handle : EventInstance) :
    own handle (s.freeManagers q).contexts = (if q handle then [] else own handle s.contexts) ∧
      (q handle = false → ∀ i ∈ s.owned handle, (s.freeManagers q).subsMap i = s.subsMap i) := by
  have hfilter : ∀ contexts, own handle (contexts.filter (fun c => !q c.handle)) =
      if q handle then [] else own handle contexts := by
    intro contexts
    unfold own
    rw [List.filter_filter]
    split_ifs with hq
    · rw [List.filter_eq_nil_iff]
      intro c _ h
      rw [Bool.and_eq_true,decide_eq_true_eq,Bool.not_eq_true'] at h
      rw [h.1,hq] at h
      exact Bool.noConfusion h.2
    · apply List.filter_congr
      intro c _
      by_cases hc : c.handle = handle
      · simp [hc,hq]
      · simp [hc]
  unfold SystemEvents.freeManagers
  dsimp only
  rw [hfilter,foldl_freeContext]
  by_cases hq : q handle = true
  · rw [if_pos hq,if_pos hq]
    exact ⟨rfl,fun h => by simp [hq] at h⟩
  · rw [if_neg hq,if_neg hq]
    have hsubs : ∀ sub ∈ subsOf (s.contexts.filter (fun c => q c.handle)), sub.2 ∉ s.owned handle := by
      intro sub hsub hown
      have hmem : sub.2 ∈ gather (fun h _ => q h) s.contexts := by
        rw [← subsOf_ids]
        exact List.mem_map_of_mem hsub
      obtain ⟨h,_,h1,h2⟩ := hs.key_unique hmem hown
      rw [decide_eq_true_eq] at h2
      exact hq (h2 ▸ h1)
    obtain ⟨hown,hkeep⟩ := hs.free_others handle hsubs
    exact ⟨hown,fun _ => hkeep⟩

/-- Two states that an instance cannot tell apart. -/
structure Agree (handle : EventInstance) (s t : SystemEvents F) : Prop where
  subsId : s.eventSubsId = t.eventSubsId
  topics : s.topicsMap = t.topicsMap
  detached : s.detached = t.detached
  callbacks : s.callbacks handle = t.callbacks handle
  own : own handle s.contexts = own handle t.contexts
  subsMap : ∀ i ∈ s.owned handle, s.subsMap i = t.subsMap i

namespace Agree

variable {s} {t : SystemEvents F} {handle : EventInstance}

omit [DecidableEq F] in
theorem owned (h : Agree handle s t) : s.owned handle = t.owned handle := by
  have hgather : ∀ u : SystemEvents F, u.owned handle =
      gather (fun k _ => k = handle) (SystemEvents.own handle u.contexts) :=
    fun u => gather_own handle (fun k _ hk => of_decide_eq_true hk)
  rw [hgather s,hgather t,h.own]

omit [DecidableEq F] in
theorem deliveries (h : Agree handle s t) (eventName : String) :
    s.deliveries handle eventName = t.deliveries handle eventName := by
  have hkey : ∀ (k : EventInstance) (name : String), decide (k = handle ∧ name = eventName) = true → k = handle :=
    fun k name hk => (of_decide_eq_true hk).1
  have hgather : ∀ u : SystemEvents F, gather (fun k name => k = handle ∧ name = eventName) u.contexts =
      gather (fun k name => k = handle ∧ name = eventName) (SystemEvents.own handle u.contexts) :=
    fun u => gather_own handle hkey
  unfold SystemEvents.deliveries
  rw [h.callbacks,hgather t,← h.own,← hgather s]
  apply List.filterMap_congr
  intro id hid
  obtain ⟨c,hc,hname,hmem⟩ := (mem_gather _ _).mp hid
  have hown : id ∈ s.owned handle :=
    (mem_gather _ _).mpr ⟨c,hc,by simpa using hkey _ _ hname,hmem⟩
  rw [h.subsMap id hown]

theorem convertCallback (h : Agree handle s t) (other : EventInstance) (callback : Option F)
    (hs : ∀ cb, callback = some cb → s.HasId other cb) (ht : ∀ cb, callback = some cb → t.HasId other cb) :
    Agree handle (s.convertCallback other callback).2 (t.convertCallback other callback).2 ∧
      (other = handle → (s.convertCallback other callback).1 = (t.convertCallback other callback).1) := by
  cases callback with
  | none => exact ⟨h,fun _ => rfl⟩
  | some cb =>
    simp only [SystemEvents.convertCallback,if_pos (hs cb rfl),if_pos (ht cb rfl)]
    refine ⟨⟨h.subsId,h.topics,h.detached,?_,h.own,h.subsMap⟩,fun hother => ?_⟩
    · by_cases hother : other = handle
      · subst hother
        simp only [Function.update_self,h.callbacks]
      · simp only [Function.update_of_ne (Ne.symm hother),h.callbacks]
    · rw [hother,h.callbacks]

omit [DecidableEq F] in
theorem addEventSubsInfo (h : Agree handle s t) (hs : s.Entries) (ht : t.Entries) (other : EventInstance)
    (name : String) {cb cb' : ℤ} (hcb : other = handle → cb = cb') (hlt : s.eventSubsId < intMax)
    (hopen : ∃ c ∈ s.contexts, c.handle = other ∧ c.eventName = name) :
    Agree handle (s.addEventSubsInfo other name cb).2 (t.addEventSubsInfo other name cb').2 := by
  rw [hs.addEventSubsInfo_eq,ht.addEventSubsInfo_eq,if_pos hlt,if_pos (h.subsId ▸ hlt)]
  refine ⟨?_,h.topics,h.detached,h.callbacks,?_,fun i hi => ?_⟩
  · simp only [addEventSubsInfoGlobal,h.subsId]
  · simp only [addEventSubsInfoGlobal,own_link,h.own,h.subsId]
  · simp only [addEventSubsInfoGlobal,SystemEvents.owned] at hi
    rw [(gather_link _ other name s.eventSubsId hopen).mem_iff,List.mem_append] at hi
    simp only [addEventSubsInfoGlobal,← h.subsId,Function.update_apply]
    rcases hi with hi | hi
    · simp only [decide_eq_true_eq] at hi
      split_ifs at hi with hother
      · rw [List.mem_singleton] at hi
        rw [if_pos hi,if_pos hi,hcb hother]
      · exact absurd hi List.not_mem_nil
    · have hmapped := (hs.mem_linked i).mp ((gather_sublist _ _).subset hi)
      have hne : i ≠ s.eventSubsId := (hs.issued_lt i (hs.mapped i hmapped)).ne
      rw [if_neg hne,if_neg hne]
      exact h.subsMap i hi

omit [DecidableEq F] in
theorem release (h : Agree handle s t) (hs : s.Entries) (ht : t.Entries) (q : EventInstance → Bool) :
    Agree handle (s.release q) (t.release q) := by
  obtain ⟨hc,hd,htopics,hid⟩ := Separate.freeManagers_callbacks s q
  obtain ⟨hc',hd',htopics',hid'⟩ := Separate.freeManagers_callbacks t q
  obtain ⟨hown,hmap⟩ := hs.freeManagers_own q handle
  obtain ⟨hown',hmap'⟩ := ht.freeManagers_own q handle
  refine ⟨?_,?_,?_,?_,?_,fun i hi => ?_⟩
  · exact hid.trans (h.subsId.trans hid'.symm)
  · exact htopics.trans (h.topics.trans htopics'.symm)
  · simp only [SystemEvents.release,hd,hd',h.detached]
  · simp only [SystemEvents.release,hc,hc',h.callbacks]
  · refine hown.trans ?_
    rw [h.own]
    exact hown'.symm
  · have hgather : i ∈ gather (fun k _ => k = handle) (SystemEvents.own handle (s.freeManagers q).contexts) := by
      rw [← gather_own handle (fun k _ hk => of_decide_eq_true hk)]
      exact hi
    rw [hown] at hgather
    by_cases hq : q handle = true
    · rw [if_pos hq] at hgather
      exact absurd hgather List.not_mem_nil
    · rw [if_neg hq,← gather_own handle (fun k _ hk => of_decide_eq_true hk)] at hgather
      have hq : q handle = false := by simpa using hq
      have hi' : i ∈ t.owned handle := h.owned ▸ hgather
      exact (hmap hq i hgather).trans ((h.subsMap i hgather).trans (hmap' hq i hi').symm)

theorem subscribe (h : Agree handle s t) (hs : s.Separate) (ht : t.Separate) {other : EventInstance}
    {eventName : Option String} {callback : Option F} {subscribed : Bool} (hattached : s.detached other = false)
    (hgood : s.HasNext (.subscribe other eventName callback subscribed))
    (hgood' : t.HasNext (.subscribe other eventName callback subscribed)) :
    Agree handle (s.subscribe other eventName callback subscribed).2
      (t.subscribe other eventName callback subscribed).2 := by
  obtain ⟨hid,hlt⟩ := hgood hattached
  obtain ⟨hid',hlt'⟩ := hgood' (h.detached ▸ hattached)
  obtain ⟨hconvert,hcb⟩ := h.convertCallback other callback hid hid'
  have hcheck : (s.convertCallback other callback).2.checkCallbackId other (s.convertCallback other callback).1 =
      (t.convertCallback other callback).2.checkCallbackId other (t.convertCallback other callback).1 := by
    cases callback with
    | none => exact (hs.check_convert_none other).trans (ht.check_convert_none other).symm
    | some cb => exact (hs.check_convert other (hid cb rfl)).1.trans (ht.check_convert other (hid' cb rfl)).1.symm
  have haccepted : s.Accepted other eventName callback subscribed ↔
      t.Accepted other eventName callback subscribed := by
    unfold Accepted
    rw [hcheck,h.topics]
  rcases s.subscribe_cases other eventName callback subscribed with ⟨hno,heq⟩ | ⟨hyes,name,topic,hname,htopic,heq⟩
  · rcases t.subscribe_cases other eventName callback subscribed with ⟨_,heq'⟩ | ⟨hyes',_⟩
    · rw [heq,heq']
      exact hconvert
    · exact absurd (haccepted.mpr hyes') hno
  · rcases t.subscribe_cases other eventName callback subscribed with
      ⟨hno',_⟩ | ⟨_,name',topic',hname',htopic',heq'⟩
    · exact absurd (haccepted.mp hyes) hno'
    · obtain rfl := Option.some.inj (hname.symm.trans hname')
      obtain rfl := Option.some.inj (htopic.symm.trans htopic')
      rw [heq,heq']
      obtain ⟨_,_,hsubs,_,hcontexts,_⟩ := convertCallback_same (s := s) other callback
      obtain ⟨_,_,_,_,hcontexts',_⟩ := convertCallback_same (s := t) other callback
      refine addEventSubsInfo ?_ (hs.entries.openContext other name callback _)
        (ht.entries.openContext other name callback _) other name hcb ?_ (openContext_mem _ _ _)
      · refine ⟨hconvert.subsId,?_,hconvert.detached,hconvert.callbacks,?_,fun i hi => ?_⟩
        · simp only [listen,h.topics]
        · simp only [own_openContext,h.own]
        · refine hconvert.subsMap i ?_
          unfold SystemEvents.owned at hi ⊢
          rw [hcontexts]
          rwa [gather_openContext] at hi
      · exact hsubs ▸ hlt hyes

omit [DecidableEq F] in
theorem removeSubscribe (h : Agree handle s t) (hs : s.Entries) {id : ℤ} (hmem : id ∈ s.owned handle) :
    Agree handle (s.removeSubscribe (some handle) id) (t.removeSubscribe (some handle) id) := by
  obtain ⟨cb,hcb⟩ := Option.isSome_iff_exists.mp ((hs.mem_linked id).mp ((gather_sublist _ _).subset hmem))
  have hcb' : t.subsMap id = some cb := h.subsMap id hmem ▸ hcb
  have hstate : ∀ u : SystemEvents F, u.subsMap id = some cb → u.removeSubscribe (some handle) id = { u with
      subsMap := Function.update u.subsMap id none
      contexts := u.contexts.map (EventContext.unlink id)
      callbacks := Function.update u.callbacks handle ((u.callbacks handle).eraseCallback cb).2 } := by
    intro u hu
    unfold SystemEvents.removeSubscribe
    rw [hu]
  rw [hstate s hcb,hstate t hcb']
  refine ⟨h.subsId,h.topics,h.detached,?_,?_,fun i hi => ?_⟩
  · simp only [Function.update_self,h.callbacks]
  · simp only [own_unlink,h.own]
  · simp only [Function.update_apply]
    split_ifs with heq
    · rfl
    · refine h.subsMap i ?_
      have hgather := (hs.removeSubscribe (some handle) id).2.2 (fun k _ => k = handle)
      rw [hstate s hcb] at hgather
      unfold SystemEvents.owned at hi ⊢
      rw [hgather] at hi
      exact List.mem_of_mem_erase hi

/-- An id of no subscription of the instance matches nothing there. -/
theorem unmatched {u : SystemEvents F} {id : ℤ} (hno : id ∉ u.owned handle) (hattached : u.detached handle = false)
    (hgood : u.KeepsIsolation (.unsubscribe handle id)) : u.instanceMatchId handle id = false := by
  unfold instanceMatchId
  split
  · next cb hcb =>
    by_contra htrue
    exact hno (hgood.2 hattached cb hcb ((Bool.not_eq_false _).mp htrue)).1
  · rfl

theorem unsubscribe (h : Agree handle s t) (hs : s.Separate) {id : ℤ} (hattached : s.detached handle = false)
    (hgood : s.KeepsIsolation (.unsubscribe handle id)) (hgood' : t.KeepsIsolation (.unsubscribe handle id)) :
    Agree handle (s.unsubscribe handle id) (t.unsubscribe handle id) := by
  unfold SystemEvents.unsubscribe
  by_cases hmem : id ∈ s.owned handle
  · have hmatch : s.instanceMatchId handle id = t.instanceMatchId handle id := by
      simp only [instanceMatchId,checkCallbackId,h.subsMap id hmem,h.callbacks]
    rw [← hmatch]
    split_ifs
    · exact h.removeSubscribe hs.entries hmem
    · exact h
  · have hmem' : id ∉ t.owned handle := fun hid => hmem (h.owned.symm ▸ hid)
    rw [unmatched hmem hattached hgood,unmatched hmem' (h.detached ▸ hattached) hgood']
    exact h

/-- A call of the instance itself, or one that is not `unsubscribe`. -/
theorem step (h : Agree handle s t) (hs : s.Separate) (ht : t.Separate) (hsf : s.fault = false)
    (htf : t.fault = false) (op : SystemEventOp F) (hgood : s.KeepsIsolation op) (hgood' : t.KeepsIsolation op)
    (hop : ∀ other id, op = .unsubscribe other id → other = handle) : Agree handle (s.step op) (t.step op) := by
  unfold SystemEvents.step
  rw [hsf,htf,if_neg Bool.false_ne_true,if_neg Bool.false_ne_true]
  cases op with
  | subscribe other eventName callback subscribed =>
    dsimp only
    rw [← h.detached]
    split_ifs with hdetached
    · exact h
    · exact h.subscribe hs ht (by simpa using hdetached) hgood.1 hgood'.1
  | unsubscribe other id =>
    obtain rfl := hop other id rfl
    dsimp only
    rw [← h.detached]
    split_ifs with hdetached
    · exact h
    · exact h.unsubscribe hs (by simpa using hdetached) hgood hgood'
  | detach other =>
    dsimp only
    rw [← h.detached]
    split_ifs
    · exact h
    · exact h.release hs.entries ht.entries _
  | destroy proto =>
    have hrelease := h.release hs.entries ht.entries (fun k => decide (k.proto = proto))
    refine ⟨hrelease.subsId,?_,hrelease.detached,hrelease.callbacks,hrelease.own,hrelease.subsMap⟩
    obtain ⟨_,_,htopics,_⟩ := Separate.freeManagers_callbacks s (fun k => decide (k.proto = proto))
    obtain ⟨_,_,htopics',_⟩ := Separate.freeManagers_callbacks t (fun k => decide (k.proto = proto))
    simp only [SystemEvents.destroy,SystemEvents.release,htopics,htopics',h.topics]

/-- A call of `unsubscribe` by another instance. -/
theorem step_foreign (h : Agree handle s t) (hs : s.Separate) (hsf : s.fault = false) {other : EventInstance}
    {id : ℤ} (hother : other ≠ handle) (hgood : s.KeepsIsolation (.unsubscribe other id)) :
    Agree handle (s.step (.unsubscribe other id)) t := by
  unfold SystemEvents.step
  rw [hsf,if_neg Bool.false_ne_true]
  dsimp only
  by_cases hdetached : s.detached other = true
  · rw [if_pos hdetached]
    exact h
  · rw [if_neg hdetached]
    have hattached : s.detached other = false := by simpa using hdetached
    unfold SystemEvents.unsubscribe instanceMatchId
    cases hid : s.subsMap id with
    | none => exact h
    | some cb =>
      dsimp only
      split_ifs with hcheck
      · have hown := (hgood.2 hattached cb hid hcheck).1
        have hnot : id ∉ s.owned handle := by
          intro hmem
          obtain ⟨k,_,h1,h2⟩ := hs.entries.key_unique hown hmem
          exact hother ((of_decide_eq_true h1).symm.trans (of_decide_eq_true h2))
        have hkeep := own_unlink_of_not_mem handle hnot
        unfold SystemEvents.removeSubscribe
        rw [hid]
        refine ⟨h.subsId,h.topics,h.detached,?_,hkeep.trans h.own,fun i hi => ?_⟩
        · simp only [Function.update_of_ne (Ne.symm hother),h.callbacks]
        · have hi' : i ∈ s.owned handle := by
            unfold SystemEvents.owned at hi ⊢
            rw [gather_own handle (fun k _ hk => of_decide_eq_true hk)] at hi ⊢
            rwa [hkeep] at hi
          have hne : i ≠ id := fun heq => hnot (heq ▸ hi')
          simp only [Function.update_of_ne hne]
          exact h.subsMap i hi'
      · exact h

end Agree

/-- The run without the calls of `unsubscribe` by other instances. -/
def withoutForeign (handle : EventInstance) (ops : List (SystemEventOp F)) : List (SystemEventOp F) :=
  ops.filter (fun
    | .unsubscribe other _ => other = handle
    | _ => true)

/-- Two runs that differ in the calls of `unsubscribe` by other instances. -/
theorem Agree.run {s t : SystemEvents F} {handle : EventInstance} (h : Agree handle s t) (hs : s.Separate)
    (ht : t.Separate) (hsf : s.fault = false) (htf : t.fault = false) (ops : List (SystemEventOp F))
    (hgood : Transition.Guarded SystemEvents.step KeepsIsolation s ops)
    (hgood' : Transition.Guarded SystemEvents.step KeepsIsolation t (withoutForeign handle ops)) :
    Agree handle (Transition.run SystemEvents.step s ops)
      (Transition.run SystemEvents.step t (withoutForeign handle ops)) := by
  induction ops generalizing s t with
  | nil => exact h
  | cons op ops ih =>
    have hfault := (hs.entries.step_fault hsf op).mpr hgood.1.1
    by_cases hkept : ∀ other id, op = .unsubscribe other id → other = handle
    · have hcons : withoutForeign handle (op :: ops) = op :: withoutForeign handle ops := by
        apply List.filter_cons_of_pos
        cases op with
        | unsubscribe other id => simpa using hkept other id rfl
        | _ => rfl
      rw [hcons] at hgood' ⊢
      have hfault' := (ht.entries.step_fault htf op).mpr hgood'.1.1
      exact ih (h.step hs ht hsf htf op hgood.1 hgood'.1 hkept) (hs.step op) (ht.step op) hfault hfault' hgood.2
        hgood'.2
    · push Not at hkept
      obtain ⟨other,id,rfl,hother⟩ := hkept
      have hcons : withoutForeign handle (.unsubscribe other id :: ops) = withoutForeign handle ops := by
        apply List.filter_cons_of_neg
        simpa using hother
      rw [hcons] at hgood' ⊢
      exact ih (h.step_foreign hs hsf hother hgood.1) (hs.step _) ht hfault htf hgood.2 hgood'

/-- Every step of a run is isolated exactly when every removed subscription is the caller's, and its callback
not used by another live one of it; and what is then delivered to an instance does not depend on the calls of
`unsubscribe` by the others. -/
theorem isolated_iff (ops : List (SystemEventOp F)) :
    (Transition.Guarded step StepIsolated ({} : SystemEvents F) ops ↔
      Transition.Guarded step KeepsIsolation ({} : SystemEvents F) ops) ∧
    ∀ handle, Transition.Guarded step KeepsIsolation ({} : SystemEvents F) ops →
      Transition.Guarded step KeepsIsolation ({} : SystemEvents F) (withoutForeign handle ops) →
      ∀ eventName, (Transition.run step ({} : SystemEvents F) ops).deliveries handle eventName =
        (Transition.run step ({} : SystemEvents F) (withoutForeign handle ops)).deliveries handle eventName := by
  constructor
  · refine Transition.guarded_iff (I := fun s : SystemEvents F => s.Separate ∧ s.fault = false)
      (fun s op hs => hs.1.stepIsolated_iff hs.2 op) (fun s op hs hgood => ⟨hs.1.step op,hgood.1⟩)
      ⟨Separate.init,rfl⟩ ops
  · intro handle hgood hgood' eventName
    have hagree : Agree handle ({} : SystemEvents F) {} := ⟨rfl,rfl,rfl,rfl,rfl,fun _ _ => rfl⟩
    exact (hagree.run Separate.init Separate.init rfl rfl ops hgood hgood').deliveries eventName

/-- Two instances subscribe, and the second one ends its own subscription. -/
theorem own_unsubscribe_isolated :
    (Transition.run step ({} : SystemEvents ℕ) [.subscribe ⟨0,0⟩ (some "news") (some 7) true,
      .subscribe ⟨1,0⟩ (some "news") (some 8) true,.unsubscribe ⟨1,0⟩ 1]).deliveries ⟨0,0⟩ "news" =
    (Transition.run step ({} : SystemEvents ℕ) [.subscribe ⟨0,0⟩ (some "news") (some 7) true,
      .subscribe ⟨1,0⟩ (some "news") (some 8) true]).deliveries ⟨0,0⟩ "news" := by
  have hfirst : ({} : SystemEvents ℕ).KeepsIsolation (.subscribe ⟨0,0⟩ (some "news") (some 7) true) :=
    ⟨fun _ => ⟨fun _ _ => .inr (by decide),fun _ => by decide⟩,trivial⟩
  have hsecond : (({} : SystemEvents ℕ).step (.subscribe ⟨0,0⟩ (some "news") (some 7) true)).KeepsIsolation
      (.subscribe ⟨1,0⟩ (some "news") (some 8) true) :=
    ⟨fun _ => ⟨fun _ _ => .inr (by decide),fun _ => by decide⟩,trivial⟩
  refine (isolated_iff [.subscribe ⟨0,0⟩ (some "news") (some 7) true,
    .subscribe ⟨1,0⟩ (some "news") (some 8) true,.unsubscribe ⟨1,0⟩ 1]).2 ⟨0,0⟩
    ⟨hfirst,hsecond,⟨trivial,fun _ cb hcb _ => ?_⟩,trivial⟩ ⟨hfirst,hsecond,trivial⟩ "news"
  obtain rfl : 1 = cb := Option.some.inj hcb
  exact ⟨by decide,by decide⟩

/-- An instance whose first callback has the number 1, too, ends the subscription of another instance. -/
theorem foreign_subscription_removed : ¬ ∀ ops : List (SystemEventOp ℕ),
    Transition.Guarded step StepIsolated ({} : SystemEvents ℕ) ops := by
  intro h
  have hrun := h [.subscribe ⟨0,0⟩ (some "news") (some 7) true,.subscribe ⟨1,0⟩ (some "news") (some 8) true,
    .unsubscribe ⟨1,0⟩ 0]
  exact absurd (hrun.2.2.1.2.1 0 (by decide) (by decide)) (by decide)

end FeatureRuntime.SystemEvents
