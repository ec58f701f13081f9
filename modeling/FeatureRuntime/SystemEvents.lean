import FeatureRuntime.CallbackManager
import FeatureRuntime.Transition

/-! The subscriptions of the system events: the global map of the subscriptions, the number of them for
every event, and the lists of the instances, which subscribe, unsubscribe and detach. -/
namespace FeatureRuntime

/-- A feature instance: the handle of its prototype and its place there. -/
structure EventInstance where
  proto : ℕ
  pos : ℕ
  deriving DecidableEq

/-- `feature_topics`. -/
inductive Topic
  | user
  | battery
  deriving DecidableEq

/-- The events of `topic_info_t`. -/
def Topic.events : Topic → List String
  | .user => ["USER_EVENT"]
  | .battery => ["usual.event.BATTERY_CHANGED","usual.event.CHARGING","usual.event.DISCHARGING"]

def isSystemEvent (eventName : String) : Bool := "usual.event.".toList.isPrefixOf eventName.toList

/-- `GetTopicInfoGlobal`. -/
def topicInfoGlobal (event : String) : Option Topic :=
  [Topic.user,Topic.battery].find? (fun topic => topic.events.contains event)

/-- An entry of the maps `_topics_map`, `subs_man` and `events` with its keys (the topic is that of the
event), and the ids of the linked subscriptions. -/
structure EventContext where
  handle : EventInstance
  eventName : String
  subsLinklist : List ℤ := []
  deriving DecidableEq

/-- The globals of `event_context.cpp`, the event managers of all prototypes, and the callbacks of the
instances; `issued` lists the subscription ids given so far. -/
structure SystemEvents (F : Type) where
  /-- `__subs_map`, with the callback of a subscription. -/
  subsMap : ℤ → Option ℤ := fun _ => none
  eventSubsInfo : String → Option ℤ := fun _ => none
  eventSubsId : ℤ := 0
  /-- The prototypes and topics with a `TopicListener`. -/
  topicsMap : ℕ → Topic → Bool := fun _ _ => false
  contexts : List EventContext := []
  callbacks : EventInstance → CallbackManager F := fun _ => {}
  detached : EventInstance → Bool := fun _ => false
  /-- A signed addition overflowed. -/
  fault : Bool := false
  issued : List ℤ := []

inductive SystemEventOp (F : Type)
  /-- The parameter of `subscribe`, and whether `uv_topic_subscribe` succeeds. -/
  | subscribe (handle : EventInstance) (eventName : Option String) (callback : Option F) (subscribed : Bool)
  | unsubscribe (handle : EventInstance) (id : ℤ)
  | detach (handle : EventInstance)
  | destroy (proto : ℕ)

/-- The type of `subscribe_cb`. -/
def subscribeCb : CallbackType :=
  ⟨[.structMap 16 [⟨"params",.primitive .anyRef,0⟩,⟨"package",.primitive .string,8⟩]],false⟩

namespace EventContext

variable (handle : EventInstance) (eventName : String) (id : ℤ)

def openContext (contexts : List EventContext) : List EventContext :=
  if contexts.any (fun c => c.handle = handle ∧ c.eventName = eventName) then contexts
  else contexts ++ [{ handle := handle, eventName := eventName }]

/-- `weakref_list_add_tail` to the list of an event of an instance. -/
def link : List EventContext → List EventContext
  | [] => []
  | c :: contexts =>
    if c.handle = handle ∧ c.eventName = eventName then
      { c with subsLinklist := c.subsLinklist ++ [id] } :: contexts
    else c :: link contexts

/-- `weakref_list_delete` of a subscription, in whichever list it is. -/
def unlink (c : EventContext) : EventContext := { c with subsLinklist := c.subsLinklist.erase id }

end EventContext

namespace SystemEvents

variable {F : Type} (s : SystemEvents F)

/-- `FeatureCheckCallbackId`. -/
def checkCallbackId (handle : EventInstance) (cid : ℤ) : Bool :=
  ((s.callbacks handle).getCallbackData cid).isSome

def instanceMatchId (handle : EventInstance) (id : ℤ) : Bool :=
  match s.subsMap id with
  | some cb => s.checkCallbackId handle cb
  | none => false

def addEventSubsInfoGlobal (eventName : String) : SystemEvents F :=
  let count := match s.eventSubsInfo eventName with
    | some count => count + 1
    | none => 1
  { s with eventSubsInfo := Function.update s.eventSubsInfo eventName (some count) }

def removeEventSubsInfoGlobal (eventName : String) : SystemEvents F :=
  match s.eventSubsInfo eventName with
  | none => s
  | some count =>
    let rest := if count - 1 = 0 then none else some (count - 1)
    { s with eventSubsInfo := Function.update s.eventSubsInfo eventName rest }

def isEventSubscribed (eventName : String) : Bool :=
  match s.eventSubsInfo eventName with
  | some count => count ≠ 0
  | none => false

/-- `removeSubscribe`; a null handle keeps the callback. -/
def removeSubscribe (handle : Option EventInstance) (id : ℤ) : SystemEvents F :=
  match s.subsMap id with
  | none => s
  | some cb =>
    { s with
      subsMap := Function.update s.subsMap id none
      contexts := s.contexts.map (EventContext.unlink id)
      callbacks :=
        match handle with
        | none => s.callbacks
        | some handle => Function.update s.callbacks handle ((s.callbacks handle).eraseCallback cb).2 }

/-- `EventContext::addEventSubsInfo`. -/
def addEventSubsInfo (handle : EventInstance) (eventName : String) (cb : ℤ) : ℤ × SystemEvents F :=
  match signed (s.eventSubsId + 1) with
  | none => (-1,{ s with fault := true })
  | some next =>
    let id := s.eventSubsId
    let s := { s with eventSubsId := next }
    if (s.subsMap id).isSome then (-1,s)
    else
      (id,{ s with
        subsMap := Function.update s.subsMap id (some cb)
        contexts := EventContext.link handle eventName id s.contexts
        issued := s.issued ++ [id] }.addEventSubsInfoGlobal eventName)

/-- `SubscriptionManager::addEvent`. -/
def addEvent (handle : EventInstance) (eventName : String) (cb : ℤ) : ℤ × SystemEvents F :=
  if topicInfoGlobal eventName = none ∧ isSystemEvent eventName then (-1,s)
  else
    { s with contexts := EventContext.openContext handle eventName s.contexts }.addEventSubsInfo
      handle eventName cb

/-- The topic of `EventManager::subscribeEvent`. -/
def topicInfo (eventName : String) : Option Topic :=
  if isSystemEvent eventName then topicInfoGlobal eventName else some .user

def listen (proto : ℕ) (topic : Topic) : ℕ → Topic → Bool :=
  Function.update s.topicsMap proto (Function.update (s.topicsMap proto) topic true)

/-- `EventManager::subscribeEvent`. -/
def subscribeEvent (handle : EventInstance) (eventName : String) (cb : ℤ) (subscribed : Bool) : ℤ × SystemEvents F :=
  match topicInfo eventName with
  | none => (-1,s)
  | some topic =>
    if s.topicsMap handle.proto topic then s.addEvent handle eventName cb
    else if subscribed then
      { s with topicsMap := s.listen handle.proto topic }.addEvent handle eventName cb
    else (-1,s)

def HasId [DecidableEq F] (handle : EventInstance) (cb : F) : Prop :=
  0 < (s.callbacks handle).findCallbackId cb ∨ (s.callbacks handle).currCid < intMax

instance [DecidableEq F] (handle : EventInstance) (cb : F) : Decidable (s.HasId handle cb) :=
  inferInstanceAs (Decidable (_ ∨ _))

def convertCallback [DecidableEq F] (handle : EventInstance) (callback : Option F) : ℤ × SystemEvents F :=
  match callback with
  | none => (-1,s)
  | some cb =>
    if s.HasId handle cb then
      let r := (s.callbacks handle).addCallback cb subscribeCb
      (r.1,{ s with callbacks := Function.update s.callbacks handle r.2 })
    else (-1,{ s with fault := true })

/-- `system_event_wrap_subscribe`; `none` is undefined. -/
def subscribe [DecidableEq F] (handle : EventInstance) (eventName : Option String) (callback : Option F)
    (subscribed : Bool) : Option ℤ × SystemEvents F :=
  let (cb,s) := s.convertCallback handle callback
  match eventName with
  | none => (none,s)
  | some eventName =>
    if eventName = "" ∨ s.checkCallbackId handle cb = false then (none,s)
    else
      let (res,s) := s.subscribeEvent handle eventName cb subscribed
      (if res < 0 then none else some res,s)

/-- `system_event_wrap_unsubscribe`. -/
def unsubscribe (handle : EventInstance) (id : ℤ) : SystemEvents F :=
  if s.instanceMatchId handle id then s.removeSubscribe (some handle) id else s

/-- One subscription in `EventContext::~EventContext`. -/
def freeSubs (eventName : String) (id : ℤ) : SystemEvents F :=
  (s.removeSubscribe none id).removeEventSubsInfoGlobal eventName

/-- `EventContext::~EventContext`. -/
def freeContext (c : EventContext) : SystemEvents F :=
  c.subsLinklist.foldl (fun s id => s.freeSubs c.eventName id) s

def freeManagers (p : EventInstance → Bool) : SystemEvents F :=
  let s := (s.contexts.filter (fun c => p c.handle)).foldl freeContext s
  { s with contexts := s.contexts.filter (fun c => !p c.handle) }

/-- `onDetached`, then the callbacks of the instances are released. -/
def release (p : EventInstance → Bool) : SystemEvents F :=
  let s := s.freeManagers p
  { s with
    detached := fun handle => p handle || s.detached handle
    callbacks := fun handle =>
      if p handle then { s.callbacks handle with callbacks := ∅ } else s.callbacks handle }

/-- `onDestroy`: the listeners of a prototype go, and the instances with it. -/
def destroy (proto : ℕ) : SystemEvents F :=
  { s.release (fun handle => handle.proto = proto) with
    topicsMap := Function.update s.topicsMap proto (fun _ => false) }

def step [DecidableEq F] (s : SystemEvents F) (op : SystemEventOp F) : SystemEvents F :=
  if s.fault then s
  else
    match op with
    | .subscribe handle eventName callback subscribed =>
      if s.detached handle then s else (s.subscribe handle eventName callback subscribed).2
    | .unsubscribe handle id => if s.detached handle then s else s.unsubscribe handle id
    | .detach handle => if s.detached handle then s else s.release (fun h => h = handle)
    | .destroy proto => s.destroy proto

def gather (p : EventInstance → String → Bool) (contexts : List EventContext) : List ℤ :=
  (contexts.filter (fun c => p c.handle c.eventName)).flatMap EventContext.subsLinklist

def linked : List ℤ := gather (fun _ _ => true) s.contexts

def liveSubs (eventName : String) : List ℤ := gather (fun _ name => name = eventName) s.contexts

section Gather

variable (p : EventInstance → String → Bool) (contexts : List EventContext)

theorem gather_cons (c : EventContext) : gather p (c :: contexts) =
    (if p c.handle c.eventName then c.subsLinklist else []) ++ gather p contexts := by
  unfold gather
  rw [List.filter_cons]
  split_ifs <;> simp

theorem mem_gather {id : ℤ} :
    id ∈ gather p contexts ↔ ∃ c ∈ contexts, p c.handle c.eventName = true ∧ id ∈ c.subsLinklist := by
  simp only [gather,List.mem_flatMap,List.mem_filter,and_assoc]

theorem gather_sublist (contexts : List EventContext) :
    (gather p contexts).Sublist (gather (fun _ _ => true) contexts) := by
  induction contexts with
  | nil => exact List.Sublist.refl _
  | cons c contexts ih =>
    rw [gather_cons,gather_cons,if_pos rfl]
    apply List.Sublist.append _ ih
    split_ifs
    · exact List.Sublist.refl _
    · exact List.nil_sublist _

theorem gather_openContext (handle : EventInstance) (eventName : String) :
    gather p (EventContext.openContext handle eventName contexts) = gather p contexts := by
  unfold EventContext.openContext
  split_ifs
  · rfl
  · simp [gather]

theorem openContext_mem (handle : EventInstance) (eventName : String) :
    ∃ c ∈ EventContext.openContext handle eventName contexts, c.handle = handle ∧ c.eventName = eventName := by
  unfold EventContext.openContext
  split_ifs with h
  · simpa using h
  · exact ⟨_,List.mem_append_right _ List.mem_cons_self,rfl,rfl⟩

theorem gather_link (handle : EventInstance) (eventName : String) (id : ℤ) {contexts : List EventContext}
    (h : ∃ c ∈ contexts, c.handle = handle ∧ c.eventName = eventName) :
    (gather p (EventContext.link handle eventName id contexts)).Perm
      ((if p handle eventName then [id] else []) ++ gather p contexts) := by
  induction contexts with
  | nil => simp at h
  | cons c contexts ih =>
    unfold EventContext.link
    by_cases hc : c.handle = handle ∧ c.eventName = eventName
    · rw [if_pos hc,gather_cons,gather_cons]
      dsimp only
      rw [hc.1,hc.2]
      split_ifs
      · rw [← List.append_assoc]
        exact List.perm_append_comm.append_right _
      · exact List.Perm.refl _
    · rw [if_neg hc,gather_cons,gather_cons]
      have htail : ∃ c ∈ contexts, c.handle = handle ∧ c.eventName = eventName := by
        obtain ⟨c',hmem,hkey⟩ := h
        rcases List.mem_cons.mp hmem with rfl | hmem
        · exact absurd hkey hc
        · exact ⟨c',hmem,hkey⟩
      refine ((ih htail).append_left _).trans ?_
      rw [← List.append_assoc,← List.append_assoc]
      exact List.perm_append_comm.append_right _

theorem gather_unlink (id : ℤ) {contexts : List EventContext} (h : (gather (fun _ _ => true) contexts).count id ≤ 1) :
    gather p (contexts.map (EventContext.unlink id)) = (gather p contexts).erase id := by
  induction contexts with
  | nil => rfl
  | cons c contexts ih =>
    rw [gather_cons,if_pos rfl,List.count_append] at h
    have hcons : gather p (c.unlink id :: contexts.map (EventContext.unlink id)) =
        (if p c.handle c.eventName then c.subsLinklist.erase id else []) ++
          gather p (contexts.map (EventContext.unlink id)) := gather_cons p _ (c.unlink id)
    rw [List.map_cons,hcons,gather_cons,ih (by omega)]
    by_cases hc : id ∈ c.subsLinklist
    · have hpos := List.count_pos_iff.mpr hc
      have hnot : id ∉ gather p contexts := by
        intro hmem
        have := List.count_pos_iff.mpr ((gather_sublist p contexts).subset hmem)
        omega
      rw [List.erase_of_not_mem hnot]
      split_ifs
      · rw [List.erase_append_left _ hc]
      · rw [List.nil_append,List.erase_of_not_mem hnot]
    · rw [List.erase_of_not_mem hc]
      split_ifs
      · rw [List.erase_append_right _ hc]
      · rfl

theorem gather_count_add {p q : EventInstance → String → Bool} (hpq : ∀ h n, p h n = true → q h n = false)
    (contexts : List EventContext) (id : ℤ) : (gather p contexts).count id + (gather q contexts).count id ≤
      (gather (fun _ _ => true) contexts).count id := by
  induction contexts with
  | nil => simp [gather]
  | cons c contexts ih =>
    rw [gather_cons,gather_cons,gather_cons,if_pos rfl]
    simp only [List.count_append]
    by_cases hp : p c.handle c.eventName = true
    · rw [if_pos hp,hpq _ _ hp]
      simp only [Bool.false_eq_true,if_false,List.count_nil]
      omega
    · rw [if_neg hp]
      split_ifs <;> simp only [List.count_nil] <;> omega

theorem gather_filter (q : EventContext → Bool) {contexts : List EventContext}
    (h : ∀ c ∈ contexts, q c = false → c.subsLinklist = []) :
    gather p (contexts.filter q) = gather p contexts := by
  induction contexts with
  | nil => rfl
  | cons c contexts ih =>
    have htail := ih (fun c hc => h c (List.mem_cons_of_mem _ hc))
    rw [List.filter_cons]
    by_cases hq : q c = true
    · rw [if_pos hq,gather_cons,gather_cons,htail]
    · rw [if_neg hq,gather_cons,htail,h c List.mem_cons_self (by simpa using hq)]
      simp

end Gather

/-- Every entry of the map is in one list, once, under an id that was given to nothing else. -/
structure Entries (s : SystemEvents F) : Prop where
  entries : ∀ id, s.linked.count id = if (s.subsMap id).isSome then 1 else 0
  issued_nodup : s.issued.Nodup
  issued_lt : ∀ id ∈ s.issued, id < s.eventSubsId
  mapped : ∀ id, (s.subsMap id).isSome → id ∈ s.issued
  nonneg : 0 ≤ s.eventSubsId
  le_max : s.eventSubsId ≤ intMax

namespace Entries

variable {s}

theorem mem_linked (hs : s.Entries) (id : ℤ) : id ∈ s.linked ↔ (s.subsMap id).isSome := by
  rw [← List.count_pos_iff,hs.entries]
  split_ifs with h <;> simp [h]

theorem linked_nodup (hs : s.Entries) : s.linked.Nodup := by
  rw [List.nodup_iff_count_le_one]
  intro id
  rw [hs.entries]
  split_ifs <;> omega

theorem frame (hs : s.Entries) {t : SystemEvents F} (hmap : t.subsMap = s.subsMap)
    (hcontexts : ∀ p, gather p t.contexts = gather p s.contexts) (hissued : t.issued = s.issued)
    (hid : t.eventSubsId = s.eventSubsId) : t.Entries where
  entries id := by rw [linked,hcontexts,hmap]; exact hs.entries id
  issued_nodup := by rw [hissued]; exact hs.issued_nodup
  issued_lt := by rw [hissued,hid]; exact hs.issued_lt
  mapped := by rw [hmap,hissued]; exact hs.mapped
  nonneg := by rw [hid]; exact hs.nonneg
  le_max := by rw [hid]; exact hs.le_max

theorem removeSubscribe (hs : s.Entries) (handle : Option EventInstance) (id : ℤ) :
    (s.removeSubscribe handle id).Entries ∧
      (∀ i, (s.removeSubscribe handle id).subsMap i = if i = id then none else s.subsMap i) ∧
      (∀ p, gather p (s.removeSubscribe handle id).contexts = (gather p s.contexts).erase id) := by
  unfold SystemEvents.removeSubscribe
  have hcount := hs.entries id
  cases hid : s.subsMap id with
  | none =>
    rw [hid] at hcount
    refine ⟨hs,fun i => ?_,fun p => ?_⟩
    · split_ifs with h
      · rw [h,hid]
      · rfl
    · have hnot : id ∉ s.linked := by rw [hs.mem_linked,hid]; simp
      exact (List.erase_of_not_mem (fun h => hnot ((gather_sublist p _).subset h))).symm
  | some cb =>
    rw [hid] at hcount
    have hgather : ∀ p, gather p (s.contexts.map (EventContext.unlink id)) = (gather p s.contexts).erase id :=
      fun p => gather_unlink p id (by rw [linked] at hcount; rw [hcount]; simp)
    refine ⟨⟨fun i => ?_,hs.issued_nodup,hs.issued_lt,fun i hi => ?_,hs.nonneg,hs.le_max⟩,fun i => ?_,hgather⟩
    · have hold := hs.entries i
      rw [linked] at hold hcount ⊢
      rw [hgather,List.count_erase]
      by_cases heq : i = id
      · subst heq
        simp [hcount]
      · simpa [heq,Ne.symm heq] using hold
    · dsimp only at hi
      by_cases heq : i = id
      · simp [heq] at hi
      · rw [Function.update_of_ne heq] at hi
        exact hs.mapped i hi
    · simp only [Function.update_apply]

theorem removeEventSubsInfoGlobal_same (s : SystemEvents F) (eventName : String) :
    let t := s.removeEventSubsInfoGlobal eventName
    t.subsMap = s.subsMap ∧ t.contexts = s.contexts ∧ t.issued = s.issued ∧
      t.eventSubsId = s.eventSubsId ∧ t.fault = s.fault := by
  intro t
  have ht : t = s.removeEventSubsInfoGlobal eventName := rfl
  unfold removeEventSubsInfoGlobal at ht
  split at ht <;> (rw [ht]; exact ⟨rfl,rfl,rfl,rfl,rfl⟩)

theorem removeSubscribe_fault (s : SystemEvents F) (handle : Option EventInstance) (id : ℤ) :
    (s.removeSubscribe handle id).fault = s.fault := by
  unfold SystemEvents.removeSubscribe
  split <;> rfl

theorem freeSubs (hs : s.Entries) (eventName : String) (id : ℤ) : (s.freeSubs eventName id).Entries ∧
      (∀ p, gather p (s.freeSubs eventName id).contexts = (gather p s.contexts).erase id) ∧
      (s.freeSubs eventName id).fault = s.fault := by
  obtain ⟨hremoved,_,hgather⟩ := hs.removeSubscribe none id
  obtain ⟨hmap,hcontexts,hissued,hid,hfault⟩ :=
    removeEventSubsInfoGlobal_same (s.removeSubscribe none id) eventName
  refine ⟨hremoved.frame hmap (fun p => ?_) hissued hid,fun p => ?_,?_⟩
  · exact congrArg (gather p) hcontexts
  · rw [← hgather p]
    exact congrArg (gather p) hcontexts
  · exact hfault.trans (removeSubscribe_fault s none id)

theorem key_unique (hs : s.Entries) {p q : EventInstance → String → Bool} {id : ℤ}
    (hp : id ∈ gather p s.contexts) (hq : id ∈ gather q s.contexts) : ∃ h n, p h n = true ∧ q h n = true := by
  by_contra hnone
  push Not at hnone
  have hle := gather_count_add (fun h n hpn => by simpa using hnone h n hpn) s.contexts id
  have hone := hs.entries id
  have h1 := List.count_pos_iff.mpr hp
  have h2 := List.count_pos_iff.mpr hq
  rw [linked] at hone
  split_ifs at hone <;> omega

theorem freeAll (hs : s.Entries) (subs : List (String × ℤ)) :
    let t := subs.foldl (fun s sub => s.freeSubs sub.1 sub.2) s
    t.Entries ∧ (∀ p, gather p t.contexts = (gather p s.contexts).diff (subs.map Prod.snd)) ∧ t.fault = s.fault := by
  induction subs generalizing s with
  | nil => exact ⟨hs,fun _ => rfl,rfl⟩
  | cons sub subs ih =>
    obtain ⟨hfree,hgather,hfault⟩ := hs.freeSubs sub.1 sub.2
    obtain ⟨hrest,hgathers,hfaults⟩ := ih hfree
    refine ⟨hrest,fun p => ?_,hfaults.trans hfault⟩
    rw [List.map_cons,List.diff_cons,← hgather p]
    exact hgathers p

end Entries

def subsOf (contexts : List EventContext) : List (String × ℤ) :=
  contexts.flatMap (fun c => c.subsLinklist.map (fun id => (c.eventName,id)))

theorem foldl_freeContext (contexts : List EventContext) :
    contexts.foldl freeContext s = (subsOf contexts).foldl (fun s sub => s.freeSubs sub.1 sub.2) s := by
  simp only [subsOf,List.foldl_flatMap,List.foldl_map]
  rfl

theorem subsOf_ids (q : EventInstance → Bool) (contexts : List EventContext) :
    (subsOf (contexts.filter (fun c => q c.handle))).map Prod.snd = gather (fun h _ => q h) contexts := by
  simp [subsOf,gather,List.map_flatMap,Function.comp_def]

section Release

variable {s} (hs : s.Entries) (q : EventInstance → Bool)
include hs

/-- The subscriptions of released instances are gone, the others stay. -/
theorem Entries.freeManagers : (s.freeManagers q).Entries ∧ (∀ p, gather p (s.freeManagers q).contexts =
        (gather p s.contexts).diff (gather (fun h _ => q h) s.contexts)) ∧
      (s.freeManagers q).fault = s.fault := by
  obtain ⟨hentries,hgather,hfault⟩ := hs.freeAll (subsOf (s.contexts.filter (fun c => q c.handle)))
  rw [← foldl_freeContext] at hentries hgather hfault
  rw [subsOf_ids] at hgather
  have hnodup : (gather (fun h _ => q h) s.contexts).Nodup := hs.linked_nodup.sublist (gather_sublist _ _)
  have hempty : ∀ c ∈ ((s.contexts.filter (fun c => q c.handle)).foldl freeContext s).contexts,
      (!q c.handle) = false → c.subsLinklist = [] := by
    intro c hc hq
    rw [List.eq_nil_iff_forall_not_mem]
    intro id hid
    have hmem : id ∈ gather (fun h _ => q h)
        ((s.contexts.filter (fun c => q c.handle)).foldl freeContext s).contexts :=
      (mem_gather _ _).mpr ⟨c,hc,by simpa using hq,hid⟩
    rw [hgather,hnodup.mem_sdiff_iff] at hmem
    exact hmem.2 hmem.1
  have hgather' : ∀ p, gather p (s.freeManagers q).contexts =
      gather p ((s.contexts.filter (fun c => q c.handle)).foldl freeContext s).contexts :=
    fun p => gather_filter p (fun c => !q c.handle) hempty
  exact ⟨hentries.frame rfl hgather' rfl rfl,fun p => (hgather' p).trans (hgather p),hfault⟩

theorem Entries.release : (s.release q).Entries :=
  (hs.freeManagers q).1.frame rfl (fun _ => rfl) rfl rfl

end Release

section Subscribe

variable [DecidableEq F] {s}

/-- The call of `subscribe` reaches the list of its event. -/
def Accepted (s : SystemEvents F) (handle : EventInstance) (eventName : Option String) (callback : Option F)
    (subscribed : Bool) : Prop :=
  ∃ name topic, eventName = some name ∧ name ≠ "" ∧
    (s.convertCallback handle callback).2.checkCallbackId handle (s.convertCallback handle callback).1 = true ∧
    topicInfo name = some topic ∧ (s.topicsMap handle.proto topic = true ∨ subscribed = true)

theorem convertCallback_same (handle : EventInstance) (callback : Option F) :
    let t := (s.convertCallback handle callback).2
    t.subsMap = s.subsMap ∧ t.eventSubsInfo = s.eventSubsInfo ∧ t.eventSubsId = s.eventSubsId ∧
      t.topicsMap = s.topicsMap ∧ t.contexts = s.contexts ∧ t.detached = s.detached ∧
      t.issued = s.issued := by
  intro t
  have ht : t = (s.convertCallback handle callback).2 := rfl
  unfold convertCallback at ht
  cases callback with
  | none =>
    rw [ht]
    exact ⟨rfl,rfl,rfl,rfl,rfl,rfl,rfl⟩
  | some cb =>
    dsimp only at ht
    split at ht <;> (rw [ht]; exact ⟨rfl,rfl,rfl,rfl,rfl,rfl,rfl⟩)

theorem convertCallback_fault (handle : EventInstance) (callback : Option F) :
    (s.convertCallback handle callback).2.fault =
      (s.fault || decide (∃ cb, callback = some cb ∧ ¬ s.HasId handle cb)) := by
  unfold convertCallback
  cases callback with
  | none => simp
  | some cb =>
    dsimp only
    split <;> simp_all

omit [DecidableEq F] in
theorem addEvent_of_topic {name : String} {topic : Topic} (htopic : topicInfo name = some topic)
    (handle : EventInstance) (cb : ℤ) : s.addEvent handle name cb =
      { s with contexts := EventContext.openContext handle name s.contexts }.addEventSubsInfo handle name cb := by
  unfold addEvent
  rw [if_neg]
  rintro ⟨hnone,hsystem⟩
  simp [topicInfo,hsystem,hnone] at htopic

/-- What a call of `subscribe` does: the conversion of its callback, and then nothing, or a new entry. -/
theorem subscribe_cases (s : SystemEvents F) (handle : EventInstance) (eventName : Option String)
    (callback : Option F) (subscribed : Bool) :
    (¬ s.Accepted handle eventName callback subscribed ∧
      (s.subscribe handle eventName callback subscribed).2 = (s.convertCallback handle callback).2) ∨
    (s.Accepted handle eventName callback subscribed ∧ ∃ name topic, eventName = some name ∧
      topicInfo name = some topic ∧
      (s.subscribe handle eventName callback subscribed).2 =
        ({ (s.convertCallback handle callback).2 with
            topicsMap := s.listen handle.proto topic
            contexts := EventContext.openContext handle name s.contexts }.addEventSubsInfo handle name
          (s.convertCallback handle callback).1).2) := by
  obtain ⟨_,_,_,htopics,hcontexts,_⟩ := convertCallback_same (s := s) handle callback
  unfold subscribe
  cases eventName with
  | none =>
    refine .inl ⟨?_,rfl⟩
    rintro ⟨_,_,h,_⟩
    exact nomatch h
  | some name =>
    dsimp only
    by_cases hrefused : name = "" ∨ (s.convertCallback handle callback).2.checkCallbackId handle
          (s.convertCallback handle callback).1 = false
    · rw [if_pos hrefused]
      refine .inl ⟨?_,rfl⟩
      rintro ⟨_,_,heq,hname,hcheck,_⟩
      obtain rfl := Option.some.inj heq
      rcases hrefused with h | h
      · exact hname h
      · rw [hcheck] at h
        exact Bool.noConfusion h
    · rw [if_neg hrefused]
      rw [not_or,Bool.not_eq_false] at hrefused
      unfold subscribeEvent
      cases htopic : topicInfo name with
      | none =>
        refine .inl ⟨?_,rfl⟩
        rintro ⟨_,_,heq,_,_,h,_⟩
        obtain rfl := Option.some.inj heq
        rw [htopic] at h
        exact nomatch h
      | some topic =>
        dsimp only
        rw [htopics]
        by_cases hlistener : s.topicsMap handle.proto topic = true
        · rw [if_pos hlistener,addEvent_of_topic htopic,hcontexts]
          refine .inr ⟨⟨name,topic,rfl,hrefused.1,hrefused.2,htopic,.inl hlistener⟩,name,topic,rfl,htopic,?_⟩
          have hlisten : s.listen handle.proto topic = s.topicsMap := by
            unfold listen
            rw [← hlistener,Function.update_eq_self,Function.update_eq_self]
          rw [hlisten,← htopics]
        · rw [if_neg hlistener]
          by_cases hsubscribed : subscribed = true
          · rw [if_pos hsubscribed,addEvent_of_topic htopic]
            refine .inr ⟨⟨name,topic,rfl,hrefused.1,hrefused.2,htopic,.inr hsubscribed⟩,name,topic,rfl,htopic,?_⟩
            simp only [hcontexts,listen,htopics]
          · rw [if_neg hsubscribed]
            refine .inl ⟨?_,rfl⟩
            rintro ⟨_,_,heq,_,_,h,hor⟩
            obtain rfl := Option.some.inj heq
            obtain rfl := Option.some.inj (htopic.symm.trans h)
            exact hor.elim hlistener hsubscribed

end Subscribe

section AddEventSubsInfo

variable {s} (handle : EventInstance) (eventName : String) (cb : ℤ)

/-- The next id is not in the map, so that only the counter can stop a subscription. -/
theorem Entries.addEventSubsInfo_eq (hs : s.Entries) : s.addEventSubsInfo handle eventName cb =
    if s.eventSubsId < intMax then
      (s.eventSubsId,{ s with
        eventSubsId := s.eventSubsId + 1
        subsMap := Function.update s.subsMap s.eventSubsId (some cb)
        contexts := EventContext.link handle eventName s.eventSubsId s.contexts
        issued := s.issued ++ [s.eventSubsId] }.addEventSubsInfoGlobal eventName)
    else (-1,{ s with fault := true }) := by
  unfold SystemEvents.addEventSubsInfo
  have hfree : ¬ (s.subsMap s.eventSubsId).isSome = true :=
    fun h => absurd (hs.issued_lt _ (hs.mapped _ h)) (lt_irrefl _)
  have hnonneg := hs.nonneg
  by_cases hlt : s.eventSubsId < intMax
  · rw [signed_of_le (by omega) (by omega),if_pos hlt]
    dsimp only
    rw [if_neg hfree]
  · have hnone : signed (s.eventSubsId + 1) = none := by
      unfold signed
      rw [if_neg (by omega)]
    rw [hnone,if_neg hlt]

theorem Entries.addEventSubsInfo (hs : s.Entries)
    (hopen : ∃ c ∈ s.contexts, c.handle = handle ∧ c.eventName = eventName) :
    (s.addEventSubsInfo handle eventName cb).2.Entries := by
  rw [hs.addEventSubsInfo_eq]
  split_ifs with hlt
  · have hfresh : s.eventSubsId ∉ s.issued := fun h => absurd (hs.issued_lt _ h) (lt_irrefl _)
    refine ⟨fun i => ?_,?_,fun i hi => ?_,fun i hi => ?_,?_,?_⟩
    · have hperm := gather_link (fun _ _ => true) handle eventName s.eventSubsId hopen
      have hold := hs.entries i
      change (gather (fun _ _ => true) (EventContext.link handle eventName s.eventSubsId s.contexts)).count i =
        if (Function.update s.subsMap s.eventSubsId (some cb) i).isSome then 1 else 0
      rw [linked] at hold
      rw [hperm.count_eq,if_pos rfl,List.count_append,hold]
      by_cases heq : i = s.eventSubsId
      · subst heq
        have hnone : ¬ (s.subsMap s.eventSubsId).isSome = true := fun h => hfresh (hs.mapped _ h)
        simp [hnone]
      · simp [heq,Ne.symm heq]
    · simp only [addEventSubsInfoGlobal]
      rw [List.nodup_append]
      refine ⟨hs.issued_nodup,List.nodup_singleton _,fun a ha b hb => ?_⟩
      rw [List.mem_singleton] at hb
      rintro rfl
      exact hfresh (hb ▸ ha)
    · simp only [addEventSubsInfoGlobal,List.mem_append,List.mem_singleton] at hi ⊢
      rcases hi with hi | rfl
      · have := hs.issued_lt i hi
        omega
      · omega
    · simp only [addEventSubsInfoGlobal,Function.update_apply,List.mem_append,List.mem_singleton] at hi ⊢
      split_ifs at hi with heq
      · exact .inr heq
      · exact .inl (hs.mapped i hi)
    · have := hs.nonneg
      simp only [addEventSubsInfoGlobal]
      omega
    · simp only [addEventSubsInfoGlobal]
      omega
  · exact hs.frame rfl (fun _ => rfl) rfl rfl

end AddEventSubsInfo

section Step

variable [DecidableEq F] {s}

theorem Entries.openContext (hs : s.Entries) (handle : EventInstance) (name : String) (callback : Option F)
    (topics : ℕ → Topic → Bool) :
    Entries { (s.convertCallback handle callback).2 with
      topicsMap := topics
      contexts := EventContext.openContext handle name s.contexts } := by
  obtain ⟨hmap,_,hid,_,_,_,hissued⟩ := convertCallback_same (s := s) handle callback
  exact hs.frame hmap (fun p => gather_openContext p _ _ _) hissued hid

def HasNext (s : SystemEvents F) : SystemEventOp F → Prop
  | .subscribe handle eventName callback subscribed =>
    s.detached handle = false → (∀ cb, callback = some cb → s.HasId handle cb) ∧
      (s.Accepted handle eventName callback subscribed → s.eventSubsId < intMax)
  | _ => True

theorem Entries.subscribe_fault (hs : s.Entries) (hfault : s.fault = false) (handle : EventInstance)
    (eventName : Option String) (callback : Option F) (subscribed : Bool) :
    (s.subscribe handle eventName callback subscribed).2.fault = false ↔
      (∀ cb, callback = some cb → s.HasId handle cb) ∧
        (s.Accepted handle eventName callback subscribed → s.eventSubsId < intMax) := by
  have hid : (s.convertCallback handle callback).2.fault = false ↔ ∀ cb, callback = some cb → s.HasId handle cb := by
    rw [convertCallback_fault,hfault,Bool.false_or,decide_eq_false_iff_not]
    push Not
    rfl
  rcases s.subscribe_cases handle eventName callback subscribed with
    ⟨hno,heq⟩ | ⟨haccepted,name,topic,_,_,heq⟩
  · rw [heq,hid]
    exact ⟨fun h => ⟨h,fun h => absurd h hno⟩,And.left⟩
  · have hopen := hs.openContext handle name callback (s.listen handle.proto topic)
    obtain ⟨_,_,hsubs,_⟩ := convertCallback_same (s := s) handle callback
    rw [heq,hopen.addEventSubsInfo_eq,← hid]
    dsimp only
    by_cases hlt : s.eventSubsId < intMax
    · rw [hsubs,if_pos hlt]
      exact ⟨fun h => ⟨h,fun _ => hlt⟩,And.left⟩
    · rw [hsubs,if_neg hlt]
      exact ⟨fun h => Bool.noConfusion h,fun h => absurd (h.2 haccepted) hlt⟩

theorem Entries.step_fault (hs : s.Entries) (hfault : s.fault = false) (op : SystemEventOp F) :
    (s.step op).fault = false ↔ s.HasNext op := by
  unfold SystemEvents.step
  rw [hfault,if_neg Bool.false_ne_true]
  cases op with
  | subscribe handle eventName callback subscribed =>
    dsimp only [HasNext]
    by_cases hdetached : s.detached handle = true
    · rw [if_pos hdetached]
      exact iff_of_true hfault (fun h => by simp [hdetached] at h)
    · rw [if_neg hdetached,hs.subscribe_fault hfault]
      exact ⟨fun h _ => h,fun h => h (by simpa using hdetached)⟩
  | unsubscribe handle id =>
    refine iff_of_true ?_ trivial
    dsimp only
    unfold SystemEvents.unsubscribe
    split_ifs
    · exact hfault
    · exact (removeSubscribe_fault s _ id).trans hfault
    · exact hfault
  | detach handle =>
    refine iff_of_true ?_ trivial
    dsimp only
    split_ifs
    · exact hfault
    · exact (hs.freeManagers (fun h => decide (h = handle))).2.2.trans hfault
  | destroy proto =>
    exact iff_of_true ((hs.freeManagers (fun h => decide (h.proto = proto))).2.2.trans hfault) trivial

theorem Entries.step (hs : s.Entries) (op : SystemEventOp F) : (s.step op).Entries := by
  unfold SystemEvents.step
  split
  · exact hs
  · cases op with
    | subscribe handle eventName callback subscribed =>
      dsimp only
      split
      · exact hs
      · rcases s.subscribe_cases handle eventName callback subscribed with
          ⟨_,heq⟩ | ⟨_,name,topic,_,_,heq⟩
        · rw [heq]
          obtain ⟨hmap,_,hid,_,hcontexts,_,hissued⟩ := convertCallback_same (s := s) handle callback
          exact hs.frame hmap (fun p => congrArg (gather p) hcontexts) hissued hid
        · rw [heq]
          exact (hs.openContext handle name callback _).addEventSubsInfo handle name _ (openContext_mem _ _ _)
    | unsubscribe handle id =>
      dsimp only
      split
      · exact hs
      · unfold SystemEvents.unsubscribe
        split
        · exact (hs.removeSubscribe (some handle) id).1
        · exact hs
    | detach handle =>
      dsimp only
      split
      · exact hs
      · exact hs.release _
    | destroy proto =>
      exact (hs.release (fun handle => decide (handle.proto = proto))).frame rfl (fun _ => rfl) rfl rfl

omit [DecidableEq F] in
theorem entries_init : Entries ({} : SystemEvents F) where
  entries id := by simp [linked,gather]
  issued_nodup := List.nodup_nil
  issued_lt := by simp
  mapped := by simp
  nonneg := le_rfl
  le_max := by simp [intMax]

/-- Whoever subscribes, unsubscribes and goes, every subscription in the map is linked once, under one event of one
instance, nothing else is linked, and no id is given out twice. -/
theorem entries_kept (ops : List (SystemEventOp F)) : Entries (Transition.run step ({} : SystemEvents F) ops) :=
  Transition.run_invariant (fun _ op h => h.step op) entries_init ops

end Step

end SystemEvents
end FeatureRuntime
