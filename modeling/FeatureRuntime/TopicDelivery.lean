import Mathlib.Data.List.MinMax
import Mathlib.Data.Prod.Lex
import Mathlib.Data.String.Basic
import FeatureRuntime.SystemEvents

/-! The delivery of a sample of a topic: the walk over the instances, their events and the subscriptions
of an event, whose callbacks subscribe, unsubscribe and detach instances while it runs. -/
namespace FeatureRuntime

/-- The keys of a context in `subs_man` and `events`. -/
def EventContext.key (c : EventContext) : EventInstance × String := (c.handle,c.eventName)

/-- A sample of a topic: its event, for one of the user, and what `func` answers. -/
structure TopicSample where
  eventName : String
  deal : EventInstance → String → Bool

/-- A running `handleTopicData`. -/
structure TopicWalk where
  proto : ℕ
  topic : Topic
  sample : TopicSample
  /-- The context of the iterators. -/
  key : Option (EventInstance × String) := none
  /-- `temp` while a list is walked; `some none` is the head of the list. -/
  temp : Option (Option ℤ) := none

/-- The subscriptions, the running delivery, and what the last sample was delivered to. -/
structure TopicDelivery (F : Type) where
  events : SystemEvents F := {}
  walk : Option TopicWalk := none
  /-- A callback or the event loop runs, not a function of the feature. -/
  inScript : Bool := true
  /-- Freed memory was read. -/
  fault : Bool := false
  /-- The matching subscriptions when the last sample came. -/
  expected : List ℤ := []
  received : List ℤ := []

inductive TopicDeliveryOp (F : Type)
  | script (op : SystemEventOp F)
  /-- `uv_topic` calls back for a listener. -/
  | topicData (proto : ℕ) (topic : Topic) (sample : TopicSample)
  /-- The running callback returns, or the delivery goes on. -/
  | next

namespace TopicWalk

variable (w : TopicWalk)

def Listens (c : EventContext) : Prop :=
  c.handle.proto = w.proto ∧ SystemEvents.topicInfo c.eventName = some w.topic

instance (c : EventContext) : Decidable (w.Listens c) := inferInstanceAs (Decidable (_ ∧ _))

def order (addr : EventInstance ↪ ℕ) (key : EventInstance × String) : ℕ ×ₗ String :=
  toLex (addr key.1,key.2)

def Beyond (addr : EventInstance ↪ ℕ) (c : EventContext) : Prop :=
  ∀ key ∈ w.key, order addr key < order addr c.key

instance (addr : EventInstance ↪ ℕ) (c : EventContext) : Decidable (w.Beyond addr c) :=
  inferInstanceAs (Decidable (∀ key ∈ w.key, _))

end TopicWalk

/-- The conditions on the event name and on the data in `handleEvent`. -/
def TopicSample.Matches (sample : TopicSample) (c : EventContext) : Prop :=
  (isSystemEvent c.eventName = true ∨ c.eventName = sample.eventName) ∧ sample.deal c.handle c.eventName = true

instance (sample : TopicSample) (c : EventContext) : Decidable (sample.Matches c) :=
  inferInstanceAs (Decidable (_ ∧ _))

def nextSubs (id : ℤ) (subs : List ℤ) : Option ℤ := (subs.dropWhile (· ≠ id)).tail.head?

namespace TopicDelivery

variable {F : Type} (addr : EventInstance ↪ ℕ) (s : TopicDelivery F)

def calls (events : SystemEvents F) (handle : EventInstance) (id : ℤ) : Bool :=
  (events.subsMap id).any (events.checkCallbackId handle)

/-- `FeatureInvokeCallback` for a subscription, when the one behind it is in `temp`. -/
def visit (w : TopicWalk) (c : EventContext) (id : ℤ) : TopicDelivery F :=
  let w := { w with temp := some (nextSubs id c.subsLinklist) }
  if calls s.events c.handle id then
    { s with walk := some w, inScript := true, received := s.received ++ [id] }
  else { s with walk := some w, inScript := false }

/-- `handleEvent`, up to the first callback. -/
def handleEvent (w : TopicWalk) (c : EventContext) : TopicDelivery F :=
  let w := { w with key := some c.key, temp := none }
  if w.sample.Matches c ∧ s.events.detached c.handle = false then
    match c.subsLinklist with
    | [] => { s with walk := some w, inScript := false }
    | id :: _ => s.visit w c id
  else { s with walk := some w, inScript := false }

def nextContext (w : TopicWalk) : Option EventContext :=
  (s.events.contexts.filter (fun c => w.Listens c ∧ w.Beyond addr c)).argmin
    (fun c => TopicWalk.order addr c.key)

def next : TopicDelivery F :=
  match s.walk with
  | none => s
  | some w =>
    match w.temp with
    | none =>
      match s.nextContext addr w with
      | none => { s with walk := none, inScript := true }
      | some c => s.handleEvent w c
    | some temp =>
      -- the list head is in the context, so that the end of the list reads the context as well
      match s.events.contexts.find? (fun c => w.key = some c.key) with
      | none => { s with fault := true }
      | some c =>
        match temp with
        | none => { s with walk := some { w with temp := none }, inScript := false }
        | some id => if id ∈ c.subsLinklist then s.visit w c id else { s with fault := true }

/-- `handleTopicData` begins. -/
def topicData (proto : ℕ) (topic : Topic) (sample : TopicSample) : TopicDelivery F :=
  let w : TopicWalk := { proto := proto, topic := topic, sample := sample }
  { s with
    walk := some w
    inScript := false
    expected := (s.events.contexts.filter (fun c => w.Listens c ∧ sample.Matches c)).flatMap
      EventContext.subsLinklist
    received := [] }

def step [DecidableEq F] (s : TopicDelivery F) (op : TopicDeliveryOp F) : TopicDelivery F :=
  if s.fault ∨ s.events.fault then s
  else
    match op with
    | .script (.destroy proto) =>
      if s.walk.isNone then { s with events := s.events.step (.destroy proto) } else s
    | .script op => if s.inScript then { s with events := s.events.step op } else s
    | .topicData proto topic sample =>
      if s.walk.isNone ∧ s.events.topicsMap proto topic then s.topicData proto topic sample else s
    | .next => s.next addr

/-- No freed memory is read and no counter overflows; no subscription is called twice with a sample, and
those that stay registered are called by the end of the delivery. -/
structure Delivered (s : TopicDelivery F) : Prop where
  noFault : s.fault = false
  noOverflow : s.events.fault = false
  once : s.received.Nodup
  delivered : s.walk = none → ∀ id ∈ s.expected, id ∈ s.events.linked → id ∈ s.received

/-- A script removes neither the subscription that the delivery has in `temp` nor the callback of another
one, and detaches no instance while its callback runs. -/
def Tolerable [DecidableEq F] (s : TopicDelivery F) : TopicDeliveryOp F → Prop
  | .script op => s.inScript = true → s.events.HasNext op ∧
      match op with
      | .unsubscribe handle id => s.events.detached handle = false → s.events.instanceMatchId handle id = true →
          (∀ w, s.walk = some w → w.temp ≠ some (some id)) ∧
          ∀ c ∈ s.events.contexts, c.handle = handle → ∀ i ∈ c.subsLinklist, i ≠ id →
            s.events.subsMap i ≠ s.events.subsMap id
      | .detach handle => ∀ w, s.walk = some w → ∀ key, w.key = some key → key.1 ≠ handle
      | _ => True
  | _ => True

/-- The lists that a delivery walks: one context for an event of an instance, the subscriptions in the order
of their ids, and the callback of each in the table of its instance. -/
structure Lists (events : SystemEvents F) : Prop where
  noOverflow : events.fault = false
  entries : events.Entries
  keyed : (events.contexts.map EventContext.key).Nodup
  sorted : ∀ c ∈ events.contexts, c.subsLinklist.Pairwise (· < ·)
  attached : ∀ c ∈ events.contexts, events.detached c.handle = false
  served : ∀ c ∈ events.contexts, ∀ id ∈ c.subsLinklist, calls events c.handle id = true

theorem lists_init : Lists ({} : SystemEvents F) where
  noOverflow := rfl
  entries := SystemEvents.entries_init
  keyed := List.nodup_nil
  sorted _ h := absurd h List.not_mem_nil
  attached _ h := absurd h List.not_mem_nil
  served _ h := absurd h List.not_mem_nil

section Edits

variable {s t u : SystemEvents F}

/-- Subscriptions were freed, and nothing else happened to the lists and the callbacks. -/
structure Frees (s t : SystemEvents F) : Prop where
  contexts : ∃ f : EventContext → EventContext,
    (∀ c, (f c).key = c.key ∧ (f c).subsLinklist.Sublist c.subsLinklist) ∧ t.contexts = s.contexts.map f
  subsMap : ∀ id, t.subsMap id = none ∨ t.subsMap id = s.subsMap id
  callbacks : t.callbacks = s.callbacks
  detached : t.detached = s.detached
  eventSubsId : t.eventSubsId = s.eventSubsId

theorem Frees.refl (s : SystemEvents F) : Frees s s :=
  ⟨⟨id,fun _ => ⟨rfl,List.Sublist.refl _⟩,(List.map_id _).symm⟩,fun _ => .inr rfl,rfl,rfl,rfl⟩

theorem Frees.trans (hst : Frees s t) (htu : Frees t u) : Frees s u := by
  obtain ⟨f,hf,hcf⟩ := hst.contexts
  obtain ⟨g,hg,hcg⟩ := htu.contexts
  refine ⟨⟨g ∘ f,fun c => ⟨(hg _).1.trans (hf c).1,(hg _).2.trans (hf c).2⟩,?_⟩,fun id => ?_,
    htu.callbacks.trans hst.callbacks,htu.detached.trans hst.detached,htu.eventSubsId.trans hst.eventSubsId⟩
  · rw [hcg,hcf,List.map_map]
  · cases htu.subsMap id with
    | inl h => exact .inl h
    | inr h => rw [h]; exact hst.subsMap id

theorem freeSubs_frees (s : SystemEvents F) (eventName : String) (id : ℤ) : Frees s (s.freeSubs eventName id) := by
  have hremove : Frees s (s.removeSubscribe none id) := by
    unfold SystemEvents.removeSubscribe
    split
    · exact Frees.refl s
    · refine ⟨⟨EventContext.unlink id,fun c => ⟨rfl,List.erase_sublist⟩,rfl⟩,fun i => ?_,rfl,rfl,rfl⟩
      dsimp only
      rw [Function.update_apply]
      split_ifs
      · exact .inl rfl
      · exact .inr rfl
  refine hremove.trans ?_
  unfold SystemEvents.freeSubs SystemEvents.removeEventSubsInfoGlobal
  split
  · exact Frees.refl _
  · exact ⟨(Frees.refl _).contexts,fun _ => .inr rfl,rfl,rfl,rfl⟩

theorem foldl_frees {α : Type} {f : SystemEvents F → α → SystemEvents F} (hf : ∀ s a, Frees s (f s a))
    (as : List α) (s : SystemEvents F) : Frees s (as.foldl f s) := by
  induction as generalizing s with
  | nil => exact Frees.refl s
  | cons a as ih => exact (hf s a).trans (ih _)

theorem freeContexts_frees (contexts : List EventContext) (s : SystemEvents F) :
    Frees s (contexts.foldl SystemEvents.freeContext s) :=
  foldl_frees (f := SystemEvents.freeContext)
    (fun s c => foldl_frees (fun s id => freeSubs_frees s c.eventName id) c.subsLinklist s) contexts s

theorem calls_of_subsMap {handle : EventInstance} {id : ℤ} (hmap : t.subsMap id = s.subsMap id)
    (hcallbacks : t.callbacks handle = s.callbacks handle) : calls t handle id = calls s handle id := by
  unfold calls SystemEvents.checkCallbackId
  rw [hmap,hcallbacks]

/-- What a script leaves of the lists: contexts of the same keys, whose subscriptions were there or are new. -/
structure Edits (s t : SystemEvents F) : Prop where
  grows : s.eventSubsId ≤ t.eventSubsId
  old : ∀ c' ∈ t.contexts, ∀ id ∈ c'.subsLinklist,
    (∃ c ∈ s.contexts, c.key = c'.key ∧ id ∈ c.subsLinklist) ∨ s.eventSubsId ≤ id

theorem Edits.refl (s : SystemEvents F) : Edits s s :=
  ⟨le_rfl,fun c' hc' _ hid => .inl ⟨c',hc',rfl,hid⟩⟩

/-- The context with some keys stays, with the subscriptions that `p` selects. -/
def KeepsContext (t : SystemEvents F) (c : EventContext) (p : ℤ → Prop) : Prop :=
  ∃ c' ∈ t.contexts, c'.key = c.key ∧ ∀ id ∈ c.subsLinklist, p id → id ∈ c'.subsLinklist

theorem Frees.edits (h : Frees s t) {q : EventContext → Bool} (hcontexts : u.contexts = t.contexts.filter q)
    (hid : u.eventSubsId = t.eventSubsId) : Edits s u := by
  obtain ⟨f,hf,hmap⟩ := h.contexts
  refine ⟨(hid.trans h.eventSubsId).ge,fun c' hc' id hmem => .inl ?_⟩
  rw [hcontexts,hmap] at hc'
  obtain ⟨c,hc,rfl⟩ := List.mem_map.mp (List.mem_of_mem_filter hc')
  exact ⟨c,hc,(hf c).1.symm,(hf c).2.subset hmem⟩

theorem mem_linked {c : EventContext} (hc : c ∈ s.contexts) {id : ℤ} (hid : id ∈ c.subsLinklist) :
    id ∈ s.linked := (SystemEvents.mem_gather _ _).mpr ⟨c,hc,rfl,hid⟩

variable (hs : Lists s)
include hs

theorem Lists.context_unique {c c' : EventContext} (hc : c ∈ s.contexts) (hc' : c' ∈ s.contexts)
    (hkey : c.key = c'.key) : c = c' := List.inj_on_of_nodup_map hs.keyed hc hc' hkey

theorem Lists.key_unique {c c' : EventContext} (hc : c ∈ s.contexts) (hc' : c' ∈ s.contexts) {id : ℤ}
    (hid : id ∈ c.subsLinklist) (hid' : id ∈ c'.subsLinklist) : c.key = c'.key := by
  obtain ⟨h,n,hp,hq⟩ := hs.entries.key_unique
    (p := fun h n => decide ((h,n) = c.key)) (q := fun h n => decide ((h,n) = c'.key))
    ((SystemEvents.mem_gather _ _).mpr ⟨c,hc,by simp [EventContext.key],hid⟩)
    ((SystemEvents.mem_gather _ _).mpr ⟨c',hc',by simp [EventContext.key],hid'⟩)
  exact (of_decide_eq_true hp).symm.trans (of_decide_eq_true hq)

theorem Lists.lt_eventSubsId {c : EventContext} (hc : c ∈ s.contexts) {id : ℤ} (hid : id ∈ c.subsLinklist) :
    id < s.eventSubsId := by
  apply hs.entries.issued_lt
  apply hs.entries.mapped
  exact (hs.entries.mem_linked id).mp (mem_linked hc hid)

/-- Contexts that were freed from, or dropped, keep the lists in order. -/
theorem Lists.frees (h : Frees s t) {q : EventContext → Bool} (hcontexts : u.contexts = t.contexts.filter q)
    (hentries : u.Entries) (hmap : u.subsMap = t.subsMap) (hfault : u.fault = false)
    (hdetached : ∀ c, q c = true → u.detached c.handle = t.detached c.handle)
    (hcallbacks : ∀ c, q c = true → u.callbacks c.handle = t.callbacks c.handle) : Lists u := by
  obtain ⟨f,hf,hmapped⟩ := h.contexts
  have hold : ∀ c' ∈ u.contexts, q c' = true ∧ ∃ c ∈ s.contexts, f c = c' := by
    intro c' hc'
    rw [hcontexts,hmapped,List.mem_filter,List.mem_map] at hc'
    exact ⟨hc'.2,hc'.1⟩
  have hkeys : ∀ c, (f c).handle = c.handle := fun c => congrArg Prod.fst (hf c).1
  refine ⟨hfault,hentries,?_,fun c' hc' => ?_,fun c' hc' => ?_,fun c' hc' id hid => ?_⟩
  · rw [hcontexts]
    apply List.Nodup.sublist (List.filter_sublist.map _)
    rw [hmapped,List.map_map]
    have hcomp : EventContext.key ∘ f = EventContext.key := funext (fun c => (hf c).1)
    rw [hcomp]
    exact hs.keyed
  · obtain ⟨_,c,hc,rfl⟩ := hold c' hc'
    exact (hs.sorted c hc).sublist (hf c).2
  · obtain ⟨hq,c,hc,rfl⟩ := hold c' hc'
    rw [hdetached _ hq,h.detached,hkeys]
    exact hs.attached c hc
  · obtain ⟨hq,c,hc,rfl⟩ := hold c' hc'
    have hsome := (hentries.mem_linked id).mp ((SystemEvents.mem_gather _ _).mpr ⟨f c,hc',rfl,hid⟩)
    have hsame : u.subsMap id = s.subsMap id := by
      rw [hmap] at hsome ⊢
      refine (h.subsMap id).resolve_left (fun hnone => ?_)
      rw [hnone] at hsome
      exact Bool.noConfusion hsome
    rw [calls_of_subsMap hsame ((hcallbacks _ hq).trans (congrFun h.callbacks _)),hkeys]
    exact hs.served c hc id ((hf c).2.subset hid)

/-- The instances that go take their contexts with them, and no others. -/
theorem Lists.release (q : EventInstance → Bool) : Lists (s.release q) ∧ Edits s (s.release q) ∧
      ∀ c ∈ s.contexts, q c.handle = false → KeepsContext (s.release q) c (fun _ => True) := by
  have hfrees : Frees s ((s.contexts.filter (fun c => q c.handle)).foldl SystemEvents.freeContext s) :=
    freeContexts_frees _ s
  have hlists : Lists (s.release q) := by
    refine hs.frees hfrees rfl (hs.entries.release q) rfl ?_ (fun c hc => ?_) (fun c hc => ?_)
    · exact ((hs.entries.freeManagers q).2.2).trans hs.noOverflow
    · have hq : q c.handle = false := by simpa using hc
      simp [SystemEvents.release,SystemEvents.freeManagers,hq]
    · have hq : q c.handle = false := by simpa using hc
      simp [SystemEvents.release,SystemEvents.freeManagers,hq]
  refine ⟨hlists,hfrees.edits rfl rfl,fun c hc hq => ?_⟩
  obtain ⟨f,hf,hmapped⟩ := hfrees.contexts
  have hkept : f c ∈ (s.release q).contexts := by
    change f c ∈ List.filter _ _
    rw [hmapped]
    refine List.mem_filter.mpr ⟨List.mem_map_of_mem hc,?_⟩
    have hhandle : (f c).handle = c.handle := congrArg Prod.fst (hf c).1
    simp [hhandle,hq]
  refine ⟨f c,hkept,(hf c).1,fun id hid _ => ?_⟩
  -- the subscription stays linked under its keys, and these are the keys of one context
  have hgather := (hs.entries.freeManagers q).2.1 (fun h n => decide ((h,n) = c.key))
  have hmem : id ∈ SystemEvents.gather (fun h n => decide ((h,n) = c.key)) s.contexts :=
    (SystemEvents.mem_gather _ _).mpr ⟨c,hc,by simp [EventContext.key],hid⟩
  have hnot : id ∉ SystemEvents.gather (fun h _ => q h) s.contexts := by
    intro hreleased
    obtain ⟨c',hc',hq',hid'⟩ := (SystemEvents.mem_gather _ _).mp hreleased
    have hkey := hs.key_unique hc hc' hid hid'
    have hhandle : c.handle = c'.handle := congrArg Prod.fst hkey
    rw [← hhandle,hq] at hq'
    exact Bool.noConfusion hq'
  have hnodup := hs.entries.linked_nodup.sublist
    (SystemEvents.gather_sublist (fun h n => decide ((h,n) = c.key)) s.contexts)
  have hafter : id ∈ SystemEvents.gather (fun h n => decide ((h,n) = c.key)) (s.freeManagers q).contexts := by
    rw [hgather,hnodup.mem_sdiff_iff]
    exact ⟨hmem,hnot⟩
  obtain ⟨c',hc',hkey,hid'⟩ := (SystemEvents.mem_gather _ _).mp hafter
  have hsame : c' = f c :=
    hlists.context_unique hc' hkept ((of_decide_eq_true hkey).trans (hf c).1.symm)
  exact hsame ▸ hid'

/-- A call of `unsubscribe` removes one subscription, with a callback that no other one of the caller has. -/
theorem Lists.unsubscribe (handle : EventInstance) (id : ℤ)
    (hshared : s.instanceMatchId handle id = true → ∀ c ∈ s.contexts, c.handle = handle →
      ∀ i ∈ c.subsLinklist, i ≠ id → s.subsMap i ≠ s.subsMap id) :
    Lists (s.unsubscribe handle id) ∧ Edits s (s.unsubscribe handle id) ∧
      ∀ c ∈ s.contexts, KeepsContext (s.unsubscribe handle id) c (· ≠ id) := by
  have hsame : Lists s ∧ Edits s s ∧ ∀ c ∈ s.contexts, KeepsContext s c (· ≠ id) :=
    ⟨hs,Edits.refl s,fun c hc => ⟨c,hc,rfl,fun _ hi _ => hi⟩⟩
  unfold SystemEvents.unsubscribe
  by_cases hmatch : s.instanceMatchId handle id = true
  · rw [if_pos hmatch]
    have hentries := (hs.entries.removeSubscribe (some handle) id).1
    unfold SystemEvents.removeSubscribe at hentries ⊢
    cases hcb : s.subsMap id with
    | none => exact hsame
    | some cb =>
      simp only [hcb] at hentries
      have hcontext : ∀ c' ∈ s.contexts.map (EventContext.unlink id), ∃ c ∈ s.contexts,
          c'.key = c.key ∧ c'.subsLinklist = c.subsLinklist.erase id := by
        intro c' hc'
        obtain ⟨c,hc,rfl⟩ := List.mem_map.mp hc'
        exact ⟨c,hc,rfl,rfl⟩
      refine ⟨⟨hs.noOverflow,hentries,?_,fun c' hc' => ?_,fun c' hc' => ?_,fun c' hc' i hi => ?_⟩,
        ⟨le_rfl,fun c' hc' i hi => .inl ?_⟩,fun c hc => ⟨c.unlink id,List.mem_map_of_mem hc,rfl,fun i hi hne => ?_⟩⟩
      · rw [List.map_map]
        exact hs.keyed
      · obtain ⟨c,hc,_,hsubs⟩ := hcontext c' hc'
        rw [hsubs]
        exact (hs.sorted c hc).sublist List.erase_sublist
      · obtain ⟨c,hc,hkey,_⟩ := hcontext c' hc'
        have hhandle : c'.handle = c.handle := congrArg Prod.fst hkey
        rw [hhandle]
        exact hs.attached c hc
      · obtain ⟨c,hc,hkey,hsubs⟩ := hcontext c' hc'
        have hhandle : c'.handle = c.handle := congrArg Prod.fst hkey
        have hnodup : c.subsLinklist.Nodup := (hs.sorted c hc).imp (fun h => h.ne)
        rw [hsubs,hnodup.mem_erase_iff] at hi
        have hold := hs.served c hc i hi.2
        rw [hhandle]
        unfold calls at hold ⊢
        dsimp only
        rw [Function.update_of_ne hi.1]
        cases hother : s.subsMap i with
        | none =>
          rw [hother] at hold
          exact Bool.noConfusion hold
        | some other =>
          rw [hother] at hold
          simp only [Option.any_some,SystemEvents.checkCallbackId] at hold ⊢
          by_cases heq : c.handle = handle
          · have hne : other ≠ cb := by
              rintro rfl
              exact hshared hmatch c hc heq i hi.2 hi.1 (hother.trans hcb.symm)
            rw [heq] at hold
            rw [heq,Function.update_self,CallbackManager.eraseCallback_keeps _ hne]
            exact hold
          · rw [Function.update_of_ne heq]
            exact hold
      · obtain ⟨c,hc,hkey,hsubs⟩ := hcontext c' hc'
        rw [hsubs] at hi
        exact ⟨c,hc,hkey.symm,List.mem_of_mem_erase hi⟩
      · exact (List.mem_erase_of_ne hne).mpr hi
  · rw [if_neg hmatch]
    exact hsame

end Edits

section Subscribe

variable {s : SystemEvents F}

theorem link_keys (handle : EventInstance) (eventName : String) (id : ℤ) (contexts : List EventContext) :
    (EventContext.link handle eventName id contexts).map EventContext.key = contexts.map EventContext.key := by
  induction contexts with
  | nil => rfl
  | cons c contexts ih =>
    unfold EventContext.link
    split_ifs
    · rfl
    · rw [List.map_cons,List.map_cons,ih]

variable {contexts : List EventContext} {handle : EventInstance} {eventName : String}

theorem mem_link {id : ℤ} {c' : EventContext} (hc' : c' ∈ EventContext.link handle eventName id contexts) :
    ∃ c ∈ contexts, c'.key = c.key ∧ (c'.subsLinklist = c.subsLinklist ∨
      (c.key = (handle,eventName) ∧ c'.subsLinklist = c.subsLinklist ++ [id])) := by
  induction contexts with
  | nil => exact absurd hc' List.not_mem_nil
  | cons c contexts ih =>
    unfold EventContext.link at hc'
    split_ifs at hc' with h
    · rcases List.mem_cons.mp hc' with rfl | hc'
      · exact ⟨c,List.mem_cons_self,rfl,.inr ⟨Prod.ext h.1 h.2,rfl⟩⟩
      · exact ⟨c',List.mem_cons_of_mem _ hc',rfl,.inl rfl⟩
    · rcases List.mem_cons.mp hc' with rfl | hc'
      · exact ⟨c',List.mem_cons_self,rfl,.inl rfl⟩
      · obtain ⟨d,hd,hrest⟩ := ih hc'
        exact ⟨d,List.mem_cons_of_mem _ hd,hrest⟩

theorem link_keeps (handle : EventInstance) (eventName : String) (id : ℤ)
    {c : EventContext} (hc : c ∈ contexts) : ∃ c' ∈ EventContext.link handle eventName id contexts,
      c'.key = c.key ∧ c.subsLinklist ⊆ c'.subsLinklist := by
  induction contexts with
  | nil => exact absurd hc List.not_mem_nil
  | cons d contexts ih =>
    unfold EventContext.link
    split_ifs with h
    · rcases List.mem_cons.mp hc with rfl | hc
      · exact ⟨_,List.mem_cons_self,rfl,List.subset_append_left _ _⟩
      · exact ⟨c,List.mem_cons_of_mem _ hc,rfl,List.Subset.refl _⟩
    · rcases List.mem_cons.mp hc with rfl | hc
      · exact ⟨c,List.mem_cons_self,rfl,List.Subset.refl _⟩
      · obtain ⟨c',hc',hrest⟩ := ih hc
        exact ⟨c',List.mem_cons_of_mem _ hc',hrest⟩

theorem mem_openContext {c' : EventContext} (hc' : c' ∈ EventContext.openContext handle eventName contexts) :
    c' ∈ contexts ∨ (c'.handle = handle ∧ c'.subsLinklist = []) := by
  unfold EventContext.openContext at hc'
  split_ifs at hc'
  · exact .inl hc'
  · rcases List.mem_append.mp hc' with hc' | hc'
    · exact .inl hc'
    · rw [List.mem_singleton.mp hc']
      exact .inr ⟨rfl,rfl⟩

theorem openContext_subset (handle : EventInstance) (eventName : String) (contexts : List EventContext) :
    contexts ⊆ EventContext.openContext handle eventName contexts := by
  unfold EventContext.openContext
  split_ifs
  · exact List.Subset.refl _
  · exact List.subset_append_left _ _

theorem openContext_keyed (h : (contexts.map EventContext.key).Nodup) (handle : EventInstance) (eventName : String) :
    ((EventContext.openContext handle eventName contexts).map EventContext.key).Nodup := by
  unfold EventContext.openContext
  split_ifs with hany
  · exact h
  · rw [List.map_append,List.nodup_append]
    refine ⟨h,List.nodup_singleton _,fun key hkey key' hkey' => ?_⟩
    rw [List.map_singleton,List.mem_singleton] at hkey'
    rintro rfl
    obtain ⟨c,hc,heq⟩ := List.mem_map.mp hkey
    rw [hkey'] at heq
    apply hany
    rw [List.any_eq_true]
    exact ⟨c,hc,decide_eq_true ⟨congrArg Prod.fst heq,congrArg Prod.snd heq⟩⟩

theorem Lists.link (hs : Lists s) {t : SystemEvents F} {cb : ℤ}
    (hattached : s.detached handle = false) (hfault : t.fault = false) (hentries : t.Entries)
    (hcontexts : t.contexts = EventContext.link handle eventName s.eventSubsId
      (EventContext.openContext handle eventName s.contexts))
    (hmap : t.subsMap = Function.update s.subsMap s.eventSubsId (some cb))
    (hid : t.eventSubsId = s.eventSubsId + 1) (hdetached : t.detached = s.detached)
    (hcalls : ∀ h i, t.subsMap i = s.subsMap i → calls s h i = true → calls t h i = true)
    (hnew : calls t handle s.eventSubsId = true) :
    Lists t ∧ Edits s t ∧ ∀ c ∈ s.contexts, KeepsContext t c (fun _ => True) := by
  have hold : ∀ c' ∈ t.contexts, (∃ c ∈ s.contexts, c'.key = c.key ∧ c'.subsLinklist = c.subsLinklist) ∨
      (c'.handle = handle ∧ (c'.subsLinklist = [] ∨ c'.subsLinklist = [s.eventSubsId])) ∨
      ∃ c ∈ s.contexts, c'.key = c.key ∧ c.handle = handle ∧ c'.subsLinklist = c.subsLinklist ++ [s.eventSubsId] := by
    intro c' hc'
    rw [hcontexts] at hc'
    obtain ⟨c,hc,hkey,hsubs⟩ := mem_link hc'
    have hhandle : c'.handle = c.handle := congrArg Prod.fst hkey
    cases mem_openContext hc with
    | inl hc =>
      cases hsubs with
      | inl hsubs => exact .inl ⟨c,hc,hkey,hsubs⟩
      | inr hsubs => exact .inr (.inr ⟨c,hc,hkey,congrArg Prod.fst hsubs.1,hsubs.2⟩)
    | inr hempty =>
      refine .inr (.inl ⟨hhandle.trans hempty.1,?_⟩)
      cases hsubs with
      | inl hsubs => exact .inl (hsubs.trans hempty.2)
      | inr hsubs =>
        rw [hempty.2] at hsubs
        exact .inr hsubs.2
  have hserved : ∀ c ∈ s.contexts, ∀ i ∈ c.subsLinklist, calls t c.handle i = true := by
    intro c hc i hi
    refine hcalls _ _ ?_ (hs.served c hc i hi)
    rw [hmap,Function.update_of_ne (hs.lt_eventSubsId hc hi).ne]
  refine ⟨⟨hfault,hentries,?_,fun c' hc' => ?_,fun c' hc' => ?_,fun c' hc' i hi => ?_⟩,
    ⟨by omega,fun c' hc' i hi => ?_⟩,fun c hc => ?_⟩
  · rw [hcontexts,link_keys]
    exact openContext_keyed hs.keyed handle eventName
  · rcases hold c' hc' with ⟨c,hc,_,hsubs⟩ | ⟨_,hsubs | hsubs⟩ | ⟨c,hc,_,_,hsubs⟩
    · rw [hsubs]
      exact hs.sorted c hc
    · rw [hsubs]
      exact List.Pairwise.nil
    · rw [hsubs]
      exact List.pairwise_singleton _ _
    · rw [hsubs,List.pairwise_append]
      refine ⟨hs.sorted c hc,List.pairwise_singleton _ _,fun i hi j hj => ?_⟩
      rw [List.mem_singleton.mp hj]
      exact hs.lt_eventSubsId hc hi
  · rw [hdetached]
    rcases hold c' hc' with ⟨c,hc,hkey,_⟩ | ⟨hhandle,_⟩ | ⟨c,hc,hkey,hhandle,_⟩
    · have hhandle : c'.handle = c.handle := congrArg Prod.fst hkey
      rw [hhandle]
      exact hs.attached c hc
    · rw [hhandle]
      exact hattached
    · have hsame : c'.handle = c.handle := congrArg Prod.fst hkey
      rw [hsame,hhandle]
      exact hattached
  · rcases hold c' hc' with ⟨c,hc,hkey,hsubs⟩ | ⟨hhandle,hsubs | hsubs⟩ | ⟨c,hc,hkey,hhandle,hsubs⟩
    · have hhandle : c'.handle = c.handle := congrArg Prod.fst hkey
      rw [hhandle]
      exact hserved c hc i (hsubs ▸ hi)
    · rw [hsubs] at hi
      exact absurd hi List.not_mem_nil
    · rw [hsubs,List.mem_singleton] at hi
      rw [hhandle,hi]
      exact hnew
    · have hsame : c'.handle = c.handle := congrArg Prod.fst hkey
      rw [hsubs] at hi
      rw [hsame]
      rcases List.mem_append.mp hi with hi | hi
      · exact hserved c hc i hi
      · rw [List.mem_singleton.mp hi,hhandle]
        exact hnew
  · rcases hold c' hc' with ⟨c,hc,hkey,hsubs⟩ | ⟨_,hsubs | hsubs⟩ | ⟨c,hc,hkey,_,hsubs⟩
    · exact .inl ⟨c,hc,hkey.symm,hsubs ▸ hi⟩
    · rw [hsubs] at hi
      exact absurd hi List.not_mem_nil
    · rw [hsubs,List.mem_singleton] at hi
      exact .inr hi.ge
    · rw [hsubs] at hi
      rcases List.mem_append.mp hi with hi | hi
      · exact .inl ⟨c,hc,hkey.symm,hi⟩
      · exact .inr (List.mem_singleton.mp hi).ge
  · obtain ⟨c',hc',hkey,hsubset⟩ := link_keeps handle eventName s.eventSubsId
      (openContext_subset handle eventName s.contexts hc)
    exact ⟨c',hcontexts ▸ hc',hkey,fun i hi _ => hsubset hi⟩

variable [DecidableEq F]

theorem convertCallback_checks (handle : EventInstance) (callback : Option F) {h : EventInstance} {cid : ℤ}
    (hcheck : s.checkCallbackId h cid = true) :
    (s.convertCallback handle callback).2.checkCallbackId h cid = true := by
  unfold SystemEvents.convertCallback
  cases callback with
  | none => exact hcheck
  | some cb =>
    dsimp only
    split_ifs
    · unfold SystemEvents.checkCallbackId at hcheck ⊢
      dsimp only
      by_cases heq : h = handle
      · subst heq
        rw [Function.update_self]
        unfold CallbackManager.addCallback CallbackManager.getCallbackData at *
        dsimp only
        split_ifs
        · exact hcheck
        · dsimp only
          rw [IdMap.get_insert]
          split_ifs
          · rfl
          · exact hcheck
      · rw [Function.update_of_ne heq]
        exact hcheck
    · exact hcheck

/-- A call of `subscribe` adds at most one subscription, at the end of a list. -/
theorem Lists.subscribe (hs : Lists s) (handle : EventInstance) (eventName : Option String)
    (callback : Option F) (subscribed : Bool) (hattached : s.detached handle = false)
    (hnext : s.HasNext (.subscribe handle eventName callback subscribed)) :
    Lists (s.subscribe handle eventName callback subscribed).2 ∧
      Edits s (s.subscribe handle eventName callback subscribed).2 ∧
      ∀ c ∈ s.contexts, KeepsContext (s.subscribe handle eventName callback subscribed).2 c (fun _ => True) := by
  have hfault := (hs.entries.subscribe_fault hs.noOverflow handle eventName callback subscribed).mpr
    (hnext hattached)
  obtain ⟨hmap,_,hid,_,hcontexts,hdetached,hissued⟩ :=
    SystemEvents.convertCallback_same (s := s) handle callback
  have hcalls : ∀ {u : SystemEvents F}, u.callbacks = (s.convertCallback handle callback).2.callbacks →
      ∀ {h i}, u.subsMap i = s.subsMap i → calls s h i = true → calls u h i = true := by
    intro u hu h i hi hold
    unfold calls at hold ⊢
    rw [hi]
    cases hcb : s.subsMap i with
    | none =>
      rw [hcb] at hold
      exact Bool.noConfusion hold
    | some cb =>
      rw [hcb] at hold
      have hchecked := convertCallback_checks handle callback hold
      unfold SystemEvents.checkCallbackId at hchecked
      simp only [Option.any_some,SystemEvents.checkCallbackId,hu]
      exact hchecked
  rcases s.subscribe_cases handle eventName callback subscribed with
    ⟨_,heq⟩ | ⟨haccepted,name,topic,hname,_,heq⟩
  · rw [heq] at hfault ⊢
    refine ⟨⟨hfault,?_,?_,?_,?_,?_⟩,⟨hid.ge,?_⟩,?_⟩
    · exact hs.entries.frame hmap (fun p => congrArg (SystemEvents.gather p) hcontexts) hissued hid
    · rw [hcontexts]
      exact hs.keyed
    · rw [hcontexts]
      exact hs.sorted
    · rw [hcontexts,hdetached]
      exact hs.attached
    · rw [hcontexts]
      exact fun c hc i hi => hcalls rfl (congrFun hmap i) (hs.served c hc i hi)
    · rw [hcontexts]
      exact fun c' hc' i hi => .inl ⟨c',hc',rfl,hi⟩
    · exact fun c hc => ⟨c,hcontexts ▸ hc,rfl,fun _ hi _ => hi⟩
  · have hlt := (hnext hattached).2 haccepted
    have hopen := hs.entries.openContext handle name callback (s.listen handle.proto topic)
    have hentries := hopen.addEventSubsInfo handle name (s.convertCallback handle callback).1
      (SystemEvents.openContext_mem _ _ _)
    obtain ⟨_,_,_,_,hcheck,_⟩ := haccepted
    rw [heq] at hfault ⊢
    rw [hopen.addEventSubsInfo_eq] at hentries hfault ⊢
    simp only [hid,hmap,hlt,if_true] at hentries hfault ⊢
    refine hs.link hattached hfault hentries rfl rfl rfl hdetached (fun _ _ hi => hcalls (by rfl) hi) ?_
    simp only [calls,SystemEvents.addEventSubsInfoGlobal,Function.update_self,Option.any_some]
    exact hcheck

/-- A tolerable step of a script keeps the lists, and the context of the delivery with what `temp` names. -/
theorem Lists.step (hs : Lists s) (op : SystemEventOp F) (hnext : s.HasNext op)
    (hshared : ∀ handle id, op = .unsubscribe handle id → s.detached handle = false →
      s.instanceMatchId handle id = true → ∀ c ∈ s.contexts, c.handle = handle → ∀ i ∈ c.subsLinklist, i ≠ id →
        s.subsMap i ≠ s.subsMap id) :
    Lists (s.step op) ∧ Edits s (s.step op) ∧
      ∀ c ∈ s.contexts, op ≠ .detach c.handle → (∀ proto, op ≠ .destroy proto) →
        KeepsContext (s.step op) c (fun i => ∀ handle, op = .unsubscribe handle i →
          s.detached handle = true ∨ s.instanceMatchId handle i = false) := by
  have hsame : ∀ p : EventContext → ℤ → Prop, Lists s ∧ Edits s s ∧ ∀ c ∈ s.contexts, op ≠ .detach c.handle →
      (∀ proto, op ≠ .destroy proto) → KeepsContext s c (p c) :=
    fun _ => ⟨hs,Edits.refl s,fun c hc _ _ => ⟨c,hc,rfl,fun _ hi _ => hi⟩⟩
  have hkeep : ∀ {t : SystemEvents F} {c : EventContext} {p q : ℤ → Prop}, KeepsContext t c p →
      (∀ i, q i → p i) → KeepsContext t c q := by
    rintro t c p q ⟨c',hc',hkey,hsubs⟩ hpq
    exact ⟨c',hc',hkey,fun i hi hq => hsubs i hi (hpq i hq)⟩
  unfold SystemEvents.step
  rw [if_neg (by simp [hs.noOverflow])]
  cases op with
  | subscribe handle eventName callback subscribed =>
    dsimp only
    by_cases hdetached : s.detached handle = true
    · rw [if_pos hdetached]
      exact hsame _
    · rw [if_neg hdetached]
      obtain ⟨hlists,hedits,hcontexts⟩ :=
        hs.subscribe handle eventName callback subscribed (by simpa using hdetached) hnext
      exact ⟨hlists,hedits,fun c hc _ _ => hkeep (hcontexts c hc) (fun _ _ => trivial)⟩
  | unsubscribe handle id =>
    dsimp only
    by_cases hdetached : s.detached handle = true
    · rw [if_pos hdetached]
      exact hsame _
    · rw [if_neg hdetached]
      have hattached : s.detached handle = false := by simpa using hdetached
      obtain ⟨hlists,hedits,hcontexts⟩ := hs.unsubscribe handle id (hshared handle id rfl hattached)
      refine ⟨hlists,hedits,fun c hc _ _ => ?_⟩
      by_cases hmatch : s.instanceMatchId handle id = true
      · refine hkeep (hcontexts c hc) (fun i hi => ?_)
        rintro rfl
        rcases hi handle rfl with h | h
        · exact hdetached h
        · rw [hmatch] at h
          exact Bool.noConfusion h
      · unfold SystemEvents.unsubscribe
        rw [if_neg hmatch]
        exact ⟨c,hc,rfl,fun _ hi _ => hi⟩
  | detach handle =>
    dsimp only
    by_cases hdetached : s.detached handle = true
    · rw [if_pos hdetached]
      exact hsame _
    · rw [if_neg hdetached]
      obtain ⟨hlists,hedits,hcontexts⟩ := hs.release (fun h => decide (h = handle))
      refine ⟨hlists,hedits,fun c hc hne _ => hkeep (hcontexts c hc ?_) (fun _ _ => trivial)⟩
      rw [decide_eq_false_iff_not]
      rintro rfl
      exact hne rfl
  | destroy proto =>
    obtain ⟨hlists,hedits,_⟩ := hs.release (fun h => decide (h.proto = proto))
    refine ⟨⟨hlists.noOverflow,?_,hlists.keyed,hlists.sorted,hlists.attached,hlists.served⟩,
      ⟨hedits.grows,hedits.old⟩,fun c _ _ hdestroy => absurd rfl (hdestroy proto)⟩
    exact hlists.entries.frame rfl (fun _ => rfl) rfl rfl

end Subscribe

/-- The subscription is still to come: in a context that the iterators have not reached, or from `temp` on
in the list that is walked. -/
def Ahead (w : TopicWalk) (c : EventContext) (id : ℤ) : Prop :=
  w.Beyond addr c ∨ (w.key = some c.key ∧ ∃ temp, w.temp = some (some temp) ∧ temp ≤ id)

/-- The matching subscriptions have been called, or removed, or are still to come, and those to come have not
been called. -/
structure Walking (s : TopicDelivery F) : Prop where
  noFault : s.fault = false
  lists : Lists s.events
  quiet : ∀ w, s.walk = some w → w.temp = none → s.inScript = false
  listed : ∀ w, s.walk = some w → ∀ temp, w.temp = some temp →
    ∃ c ∈ s.events.contexts, w.key = some c.key ∧ ∀ id, temp = some id → id ∈ c.subsLinklist
  once : s.received.Nodup
  given : ∀ id ∈ s.received ++ s.expected, id < s.events.eventSubsId
  ahead : ∀ w, s.walk = some w → ∀ c ∈ s.events.contexts, ∀ id ∈ c.subsLinklist, Ahead addr w c id → id ∉ s.received
  due : ∀ id ∈ s.expected, id ∈ s.events.linked → id ∈ s.received ∨
    ∃ w c, s.walk = some w ∧ c ∈ s.events.contexts ∧ id ∈ c.subsLinklist ∧ w.Listens c ∧ w.sample.Matches c ∧
      Ahead addr w c id

theorem walking_init : Walking addr ({} : TopicDelivery F) where
  noFault := rfl
  lists := lists_init
  quiet _ h := nomatch h
  listed _ h := nomatch h
  once := List.nodup_nil
  given _ h := absurd h List.not_mem_nil
  ahead _ h := nomatch h
  due _ h := absurd h List.not_mem_nil

namespace Walking

variable {addr} {s}

theorem delivered (hs : Walking addr s) : s.Delivered := by
  refine ⟨hs.noFault,hs.lists.noOverflow,hs.once,fun hwalk id hid hlinked => ?_⟩
  refine (hs.due id hid hlinked).resolve_right ?_
  rintro ⟨w,_,h,_⟩
  rw [hwalk] at h
  exact nomatch h

/-- A script changes the subscriptions while the delivery waits for it. -/
theorem script (hs : Walking addr s) {t : SystemEvents F} (hlists : Lists t) (hedits : Edits s.events t)
    (hkeep : ∀ w, s.walk = some w → ∀ temp, w.temp = some temp → ∀ c ∈ s.events.contexts,
      w.key = some c.key → KeepsContext t c (fun id => temp = some id)) :
    Walking addr { s with events := t } := by
  refine ⟨hs.noFault,hlists,hs.quiet,fun w hw temp htemp => ?_,hs.once,fun id hid => ?_,
    fun w hw c' hc' id hid hahead => ?_,fun id hid hlinked => ?_⟩
  · obtain ⟨c,hc,hkey,hlisted⟩ := hs.listed w hw temp htemp
    obtain ⟨c',hc',hkey',hsubs⟩ := hkeep w hw temp htemp c hc hkey
    exact ⟨c',hc',hkey'.symm ▸ hkey,fun id hid => hsubs id (hlisted id hid) hid⟩
  · exact (hs.given id hid).trans_le hedits.grows
  · cases hedits.old c' hc' id hid with
    | inl h =>
      obtain ⟨c,hc,hkey,hold⟩ := h
      refine hs.ahead w hw c hc id hold ?_
      unfold Ahead TopicWalk.Beyond at hahead ⊢
      rw [hkey]
      exact hahead
    | inr hnew =>
      intro hreceived
      have hlt := hs.given id (List.mem_append_left _ hreceived)
      omega
  · have hlt := hs.given id (List.mem_append_right _ hid)
    obtain ⟨c',hc',_,hid'⟩ := (SystemEvents.mem_gather _ _).mp hlinked
    obtain ⟨c,hc,hkey,hold⟩ := (hedits.old c' hc' id hid').resolve_right (by omega)
    refine (hs.due id hid (mem_linked hc hold)).imp_right ?_
    rintro ⟨w,d,hw,hd,hidd,hlistens,hmatches,hahead⟩
    have hsame : d.key = c'.key := (hs.lists.key_unique hd hc hidd hold).trans hkey
    have hhandle : d.handle = c'.handle := congrArg Prod.fst hsame
    have hname : d.eventName = c'.eventName := congrArg Prod.snd hsame
    refine ⟨w,c',hw,hc',hid',?_,?_,?_⟩
    · unfold TopicWalk.Listens at hlistens ⊢
      rw [← hhandle,← hname]
      exact hlistens
    · unfold TopicSample.Matches at hmatches ⊢
      rw [← hhandle,← hname]
      exact hmatches
    · unfold Ahead TopicWalk.Beyond at hahead ⊢
      rw [← hsame]
      exact hahead

end Walking

section NextSubs

/-- In a list that is in the order of the ids, the subscription behind another is the next higher one. -/
theorem nextSubs_spec {id : ℤ} {subs : List ℤ} (hsorted : subs.Pairwise (· < ·)) (hid : id ∈ subs) :
    (∀ j, nextSubs id subs = some j → j ∈ subs ∧ id < j) ∧
      ∀ i ∈ subs, id < i → ∃ j, nextSubs id subs = some j ∧ j ≤ i := by
  induction subs with
  | nil => exact absurd hid List.not_mem_nil
  | cons a subs ih =>
    rw [List.pairwise_cons] at hsorted
    by_cases ha : a = id
    · subst ha
      have hnext : nextSubs a (a :: subs) = subs.head? := by simp [nextSubs]
      rw [hnext]
      cases subs with
      | nil => simp
      | cons b subs =>
        have hb := (List.pairwise_cons.mp hsorted.2).1
        refine ⟨fun j hj => ?_,fun i hi hlt => ⟨b,rfl,?_⟩⟩
        · obtain rfl := Option.some.inj hj
          exact ⟨by simp,hsorted.1 _ List.mem_cons_self⟩
        · rcases List.mem_cons.mp hi with rfl | hi
          · exact absurd hlt (lt_irrefl _)
          · rcases List.mem_cons.mp hi with rfl | hi
            · exact le_rfl
            · exact (hb i hi).le
    · have hmem : id ∈ subs := (List.mem_cons.mp hid).resolve_left (Ne.symm ha)
      have hnext : nextSubs id (a :: subs) = nextSubs id subs := by simp [nextSubs,ha]
      obtain ⟨hfound,hall⟩ := ih hsorted.2 hmem
      rw [hnext]
      refine ⟨fun j hj => ⟨List.mem_cons_of_mem _ (hfound j hj).1,(hfound j hj).2⟩,fun i hi hlt => ?_⟩
      rcases List.mem_cons.mp hi with rfl | hi
      · exact absurd (hsorted.1 id hmem) hlt.not_gt
      · exact hall i hi hlt

end NextSubs

namespace Walking

variable {addr} {s} {w : TopicWalk} {c : EventContext} (hs : Walking addr s) (hw : s.walk = some w)
include hs hw

/-- The subscription in `temp` is called. -/
theorem visit {id : ℤ} (htemp : w.temp = some (some id)) (hc : c ∈ s.events.contexts)
    (hkey : w.key = some c.key) (hid : id ∈ c.subsLinklist) : Walking addr (s.visit w c id) := by
  obtain ⟨hnext,hbehind⟩ := nextSubs_spec (hs.lists.sorted c hc) hid
  have hcontext : ∀ d ∈ s.events.contexts, w.key = some d.key → d = c := by
    intro d hd hdkey
    exact hs.lists.context_unique hd hc (Option.some.inj (hdkey.symm.trans hkey))
  have hnot : id ∉ s.received := hs.ahead w hw c hc id hid (.inr ⟨hkey,id,htemp,le_rfl⟩)
  unfold TopicDelivery.visit
  rw [if_pos (hs.lists.served c hc id hid)]
  refine ⟨hs.noFault,hs.lists,?_,?_,?_,fun i hi => ?_,?_,fun i hi hlinked => ?_⟩
  · rintro w' hw' h
    obtain rfl := Option.some.inj hw'
    exact nomatch h
  · rintro w' hw' temp h
    obtain rfl := Option.some.inj hw'
    obtain rfl := Option.some.inj h
    exact ⟨c,hc,hkey,fun j hj => (hnext j hj).1⟩
  · rw [List.nodup_append]
    refine ⟨hs.once,List.nodup_singleton _,fun a ha b hb => ?_⟩
    rw [List.mem_singleton.mp hb]
    rintro rfl
    exact hnot ha
  · rw [List.append_assoc,List.mem_append,List.mem_append,List.mem_singleton] at hi
    rcases hi with hi | rfl | hi
    · exact hs.given i (List.mem_append_left _ hi)
    · exact hs.lists.lt_eventSubsId hc hid
    · exact hs.given i (List.mem_append_right _ hi)
  · rintro w' hw' d hd i hi hahead
    obtain rfl := Option.some.inj hw'
    rw [List.mem_append,List.mem_singleton,not_or]
    cases hahead with
    | inl hbeyond =>
      refine ⟨hs.ahead w hw d hd i hi (.inl hbeyond),?_⟩
      rintro rfl
      have hlt := hbeyond c.key hkey
      rw [hs.lists.key_unique hd hc hi hid] at hlt
      exact lt_irrefl _ hlt
    | inr hlist =>
      obtain ⟨hdkey,j,hj,hle⟩ := hlist
      have hlt := (hnext j (Option.some.inj hj)).2
      exact ⟨hs.ahead w hw d hd i hi (.inr ⟨hdkey,id,htemp,by omega⟩),by omega⟩
  · dsimp only
    rw [List.mem_append,List.mem_singleton]
    rcases hs.due i hi hlinked with hreceived | ⟨w',d,hw',hd,hid',hlistens,hmatches,hahead⟩
    · exact .inl (.inl hreceived)
    · obtain rfl := Option.some.inj (hw.symm.trans hw')
      cases hahead with
      | inl hbeyond => exact .inr ⟨_,d,rfl,hd,hid',hlistens,hmatches,.inl hbeyond⟩
      | inr hlist =>
        obtain ⟨hdkey,j,hj,hle⟩ := hlist
        obtain rfl := Option.some.inj (Option.some.inj (htemp.symm.trans hj))
        obtain rfl := hcontext d hd hdkey
        rcases hle.eq_or_lt with rfl | hlt
        · exact .inl (.inr rfl)
        · obtain ⟨j,hj,hle⟩ := hbehind i hid' hlt
          exact .inr ⟨_,d,rfl,hd,hid',hlistens,hmatches,.inr ⟨hdkey,j,congrArg some hj,hle⟩⟩

/-- The iterators reach the next context, whose list is walked from its first subscription on when the
sample matches. -/
theorem reach (htemp : w.temp = none) (hc : c ∈ s.events.contexts) (hbeyond : w.Beyond addr c)
    (hleast : ∀ d ∈ s.events.contexts, w.Listens d → w.Beyond addr d →
      TopicWalk.order addr c.key ≤ TopicWalk.order addr d.key) (temp : Option (Option ℤ))
    (hlisted : ∀ t, temp = some t → ∃ id, t = some id ∧ id ∈ c.subsLinklist)
    (hfirst : w.sample.Matches c → ∀ i ∈ c.subsLinklist, ∃ id, temp = some (some id) ∧ id ≤ i) :
    Walking addr { s with walk := some { w with key := some c.key, temp := temp }, inScript := false } := by
  have horder : ∀ d ∈ s.events.contexts, w.Listens d → w.Beyond addr d →
      d = c ∨ TopicWalk.order addr c.key < TopicWalk.order addr d.key := by
    intro d hd hlistens hd'
    rcases (hleast d hd hlistens hd').eq_or_lt with heq | hlt
    · left
      apply hs.lists.context_unique hd hc
      have hpair := toLex.injective heq
      exact Prod.ext (addr.injective (congrArg Prod.fst hpair)).symm (congrArg Prod.snd hpair).symm
    · exact .inr hlt
  refine ⟨hs.noFault,hs.lists,fun _ _ _ => rfl,?_,hs.once,hs.given,?_,fun i hi hlinked => ?_⟩
  · rintro w' hw' t h
    obtain rfl := Option.some.inj hw'
    obtain ⟨id,rfl,hid⟩ := hlisted t h
    refine ⟨c,hc,rfl,fun j hj => ?_⟩
    obtain rfl := Option.some.inj hj
    exact hid
  · rintro w' hw' d hd i hi hahead
    obtain rfl := Option.some.inj hw'
    refine hs.ahead w hw d hd i hi (.inl ?_)
    cases hahead with
    | inl hd' => exact fun key hmem => (hbeyond key hmem).trans (hd' c.key rfl)
    | inr hlist =>
      have hsame : c.key = d.key := Option.some.inj hlist.1
      unfold TopicWalk.Beyond at hbeyond ⊢
      rw [← hsame]
      exact hbeyond
  · refine (hs.due i hi hlinked).imp_right ?_
    rintro ⟨w',d,hw',hd,hid,hlistens,hmatches,hahead⟩
    obtain rfl := Option.some.inj (hw.symm.trans hw')
    refine ⟨_,d,rfl,hd,hid,hlistens,hmatches,?_⟩
    cases hahead with
    | inr hlist =>
      obtain ⟨_,_,h,_⟩ := hlist
      rw [htemp] at h
      exact nomatch h
    | inl hd' =>
      cases horder d hd hlistens hd' with
      | inl hsame =>
        subst hsame
        obtain ⟨id,htemp,hle⟩ := hfirst hmatches i hid
        exact .inr ⟨rfl,id,htemp,hle⟩
      | inr hlt =>
        refine .inl (fun key hkey => ?_)
        obtain rfl := Option.some.inj hkey
        exact hlt

theorem handleEvent (htemp : w.temp = none) (hc : c ∈ s.events.contexts) (hbeyond : w.Beyond addr c)
    (hleast : ∀ d ∈ s.events.contexts, w.Listens d → w.Beyond addr d →
      TopicWalk.order addr c.key ≤ TopicWalk.order addr d.key) : Walking addr (s.handleEvent w c) := by
  have hreach := hs.reach hw htemp hc hbeyond hleast
  unfold TopicDelivery.handleEvent
  by_cases hmatch : w.sample.Matches c ∧ s.events.detached c.handle = false
  · simp only [hmatch,and_self,if_true]
    cases hsubs : c.subsLinklist with
    | nil =>
      refine hreach none (fun _ h => nomatch h) (fun _ i hi => ?_)
      rw [hsubs] at hi
      exact absurd hi List.not_mem_nil
    | cons id rest =>
      have hsorted := hs.lists.sorted c hc
      rw [hsubs] at hsorted
      have hfirst := hreach (some (some id)) (fun t h => ⟨id,(Option.some.inj h).symm,by simp [hsubs]⟩)
        (fun _ i hi => by
          refine ⟨id,rfl,?_⟩
          rw [hsubs] at hi
          rcases List.mem_cons.mp hi with rfl | hi
          · exact le_rfl
          · exact (List.rel_of_pairwise_cons hsorted hi).le)
      exact hfirst.visit rfl rfl hc rfl (by simp [hsubs])
  · simp only [hmatch,if_false]
    refine hreach none (fun _ h => nomatch h) (fun hmatches => ?_)
    exact absurd ⟨hmatches,hs.lists.attached c hc⟩ hmatch

omit hw in
theorem next : Walking addr (s.next addr) := by
  unfold TopicDelivery.next
  cases hwalk : s.walk with
  | none => exact hs
  | some w =>
    dsimp only
    cases htemp : w.temp with
    | none =>
      dsimp only
      cases hcontext : s.nextContext addr w with
      | none =>
        refine ⟨hs.noFault,hs.lists,fun _ h => (nomatch h),fun _ h => (nomatch h),hs.once,hs.given,
          fun _ h => (nomatch h),fun i hi hlinked => .inl ?_⟩
        refine (hs.due i hi hlinked).resolve_right ?_
        rintro ⟨w',d,hw',hd,_,hlistens,_,hahead⟩
        obtain rfl := Option.some.inj (hwalk.symm.trans hw')
        rw [nextContext,List.argmin_eq_none,List.filter_eq_nil_iff] at hcontext
        apply hcontext d hd
        cases hahead with
        | inl hbeyond => exact decide_eq_true ⟨hlistens,hbeyond⟩
        | inr hlist =>
          obtain ⟨_,_,h,_⟩ := hlist
          rw [htemp] at h
          exact nomatch h
      | some c =>
        have hleast : c ∈ (s.events.contexts.filter (fun c => w.Listens c ∧ w.Beyond addr c)).argmin
            (fun c => TopicWalk.order addr c.key) := hcontext
        have hmem := List.argmin_mem hleast
        rw [List.mem_filter,decide_eq_true_eq] at hmem
        refine hs.handleEvent hwalk htemp hmem.1 hmem.2.2 (fun d hd hlistens hbeyond => ?_)
        have hfilter : d ∈ s.events.contexts.filter (fun c => w.Listens c ∧ w.Beyond addr c) :=
          List.mem_filter.mpr ⟨hd,decide_eq_true ⟨hlistens,hbeyond⟩⟩
        exact List.le_of_mem_argmin (f := fun c => TopicWalk.order addr c.key) hfilter hleast
    | some temp =>
      obtain ⟨c,hc,hkey,hlisted⟩ := hs.listed w hwalk temp htemp
      have hfind : s.events.contexts.find? (fun d => w.key = some d.key) = some c := by
        cases hfind : s.events.contexts.find? (fun d => w.key = some d.key) with
        | none =>
          rw [List.find?_eq_none] at hfind
          exact absurd (decide_eq_true hkey) (hfind c hc)
        | some d =>
          have hd : w.key = some d.key := by simpa using List.find?_some hfind
          rw [hs.lists.context_unique (List.mem_of_find?_eq_some hfind) hc (Option.some.inj (hd.symm.trans hkey))]
      dsimp only
      rw [hfind]
      dsimp only
      cases temp with
      | some id =>
        dsimp only
        rw [if_pos (hlisted id rfl)]
        exact hs.visit hwalk htemp hc hkey (hlisted id rfl)
      | none =>
        refine ⟨hs.noFault,hs.lists,fun _ _ _ => rfl,?_,hs.once,hs.given,?_,fun i hi hlinked => ?_⟩
        · rintro w' hw' t h
          obtain rfl := Option.some.inj hw'
          exact nomatch h
        · rintro w' hw' d hd i hi hahead
          obtain rfl := Option.some.inj hw'
          refine hs.ahead w hwalk d hd i hi (.inl (hahead.resolve_right ?_))
          rintro ⟨_,_,h,_⟩
          exact nomatch h
        · refine (hs.due i hi hlinked).imp_right ?_
          rintro ⟨w',d,hw',hd,hid,hlistens,hmatches,hahead⟩
          obtain rfl := Option.some.inj (hwalk.symm.trans hw')
          refine ⟨_,d,rfl,hd,hid,hlistens,hmatches,.inl (hahead.resolve_right ?_)⟩
          rintro ⟨_,_,h,_⟩
          rw [htemp] at h
          exact nomatch h

omit hw in
theorem topicData (proto : ℕ) (topic : Topic) (sample : TopicSample) :
    Walking addr (s.topicData proto topic sample) := by
  have hexpected : ∀ i ∈ (s.topicData proto topic sample).expected, ∃ c ∈ s.events.contexts,
      i ∈ c.subsLinklist ∧ c.handle.proto = proto ∧ SystemEvents.topicInfo c.eventName = some topic ∧
        sample.Matches c := by
    intro i hi
    obtain ⟨c,hc,hid⟩ := List.mem_flatMap.mp hi
    rw [List.mem_filter,decide_eq_true_eq] at hc
    exact ⟨c,hc.1,hid,hc.2.1.1,hc.2.1.2,hc.2.2⟩
  refine ⟨hs.noFault,hs.lists,fun _ _ _ => rfl,?_,List.nodup_nil,fun i hi => ?_,
    fun _ _ _ _ _ _ _ => List.not_mem_nil,fun i hi _ => .inr ?_⟩
  · rintro w' hw' t h
    obtain rfl := Option.some.inj hw'
    exact nomatch h
  · obtain ⟨c,hc,hid,_⟩ := hexpected i hi
    exact hs.lists.lt_eventSubsId hc hid
  · obtain ⟨c,hc,hid,hproto,htopic,hmatches⟩ := hexpected i hi
    exact ⟨_,c,rfl,hc,hid,⟨hproto,htopic⟩,hmatches,.inl (fun key hkey => nomatch hkey)⟩

end Walking

section Run

variable [DecidableEq F] {addr} {s}

theorem Walking.step (hs : Walking addr s) (op : TopicDeliveryOp F) (hop : s.Tolerable op) :
    Walking addr (s.step addr op) := by
  have hscript : ∀ e : SystemEventOp F, s.events.HasNext e →
      (∀ handle id, e = .unsubscribe handle id → s.events.detached handle = false →
        s.events.instanceMatchId handle id = true →
        (∀ w, s.walk = some w → w.temp ≠ some (some id)) ∧
        ∀ c ∈ s.events.contexts, c.handle = handle → ∀ i ∈ c.subsLinklist, i ≠ id →
          s.events.subsMap i ≠ s.events.subsMap id) →
      (∀ w, s.walk = some w → ∀ c ∈ s.events.contexts, w.key = some c.key →
        e ≠ .detach c.handle ∧ ∀ proto, e ≠ .destroy proto) →
      Walking addr { s with events := s.events.step e } := by
    intro e hnext hunsubscribe hcurrent
    obtain ⟨hlists,hedits,hcontexts⟩ := hs.lists.step e hnext
      (fun handle id he hdetached hmatch => (hunsubscribe handle id he hdetached hmatch).2)
    refine hs.script hlists hedits (fun w hw temp htemp c hc hkey => ?_)
    obtain ⟨hdetach,hdestroy⟩ := hcurrent w hw c hc hkey
    obtain ⟨c',hc',hkey',hsubs⟩ := hcontexts c hc hdetach hdestroy
    refine ⟨c',hc',hkey',fun id hid heq => hsubs id hid (fun handle he => ?_)⟩
    by_contra hnone
    rw [not_or,Bool.not_eq_true,Bool.not_eq_false] at hnone
    exact (hunsubscribe handle id he hnone.1 hnone.2).1 w hw (htemp.trans (congrArg some heq))
  unfold TopicDelivery.step
  rw [if_neg (by simp [hs.noFault,hs.lists.noOverflow])]
  cases op with
  | script e =>
    cases e with
    | destroy proto =>
      dsimp only
      split_ifs with hwalk
      · refine hscript _ trivial (fun _ _ h => nomatch h) (fun w hw => ?_)
        rw [hw] at hwalk
        exact Bool.noConfusion hwalk
      · exact hs
    | subscribe handle eventName callback subscribed =>
      dsimp only
      split_ifs with hrun
      · exact hscript _ (hop hrun).1 (fun _ _ h => nomatch h) (fun _ _ _ _ _ => ⟨nofun,nofun⟩)
      · exact hs
    | unsubscribe handle id =>
      dsimp only
      split_ifs with hrun
      · refine hscript _ trivial (fun h i he => ?_) (fun _ _ _ _ _ => ⟨nofun,nofun⟩)
        obtain ⟨rfl,rfl⟩ := SystemEventOp.unsubscribe.inj he
        exact (hop hrun).2
      · exact hs
    | detach handle =>
      dsimp only
      split_ifs with hrun
      · refine hscript _ trivial (fun _ _ h => nomatch h) (fun w hw c _ hkey => ⟨fun he => ?_,nofun⟩)
        exact (hop hrun).2 w hw c.key hkey (SystemEventOp.detach.inj he).symm
      · exact hs
  | topicData proto topic sample =>
    dsimp only
    split_ifs
    · exact hs.topicData proto topic sample
    · exact hs
  | next => exact hs.next

/-- In a run of tolerable steps, no freed memory is read and every subscription that stays gets the sample
exactly once. -/
theorem mutation_tolerated (addr : EventInstance ↪ ℕ) (ops : List (TopicDeliveryOp F))
    (h : Transition.Guarded (step addr) Tolerable {} ops) : Transition.Always (step addr) Delivered {} ops := by
  have hwalking : Transition.Always (step addr) (Walking addr) ({} : TopicDelivery F) ops :=
    h.always (fun _ op hs hop => hs.step op hop) (walking_init addr)
  exact hwalking.mono (fun _ hs => hs.delivered)

end Run

def place : EventInstance ↪ ℕ :=
  ⟨fun handle => Nat.pair handle.proto handle.pos,fun a b h => by
    cases a
    cases b
    simpa using h⟩

/-- The first of two callbacks unsubscribes itself. -/
theorem subscribed_delivered : Transition.Always (step place) Delivered ({} : TopicDelivery Bool)
    [.script (.subscribe ⟨0,0⟩ (some "news") (some true) true),
      .script (.subscribe ⟨0,0⟩ (some "news") (some false) true),.topicData 0 .user ⟨"news",fun _ _ => true⟩,
      .next,.script (.unsubscribe ⟨0,0⟩ 0),.next,.next,.next] := by
  apply mutation_tolerated
  refine ⟨fun _ => ⟨fun _ => ⟨fun cb _ => .inr ?_,fun _ => ?_⟩,trivial⟩,
    fun _ => ⟨fun _ => ⟨fun cb _ => .inr ?_,fun _ => ?_⟩,trivial⟩,trivial,trivial,
    fun _ => ⟨trivial,fun _ _ => ⟨fun w hw => ?_,fun c hc _ i hi hne => ?_⟩⟩,trivial,trivial,trivial,trivial⟩
  · decide
  · decide
  · decide
  · decide
  · obtain rfl := Option.some.inj hw
    decide
  · obtain rfl := List.mem_singleton.mp hc
    obtain rfl | hi := List.mem_cons.mp hi
    · exact absurd rfl hne
    · obtain rfl := List.mem_singleton.mp hi
      decide

/-- The first of two callbacks unsubscribes the second one. -/
theorem next_removed : ¬ ∀ ops, Transition.Always (step place) Delivered ({} : TopicDelivery Bool) ops := by
  intro h
  have hfault := (h [.script (.subscribe ⟨0,0⟩ (some "news") (some true) true),
    .script (.subscribe ⟨0,0⟩ (some "news") (some false) true),.topicData 0 .user ⟨"news",fun _ _ => true⟩,
    .next,.script (.unsubscribe ⟨0,0⟩ 1),.next]).last.noFault
  revert hfault
  decide

end TopicDelivery
end FeatureRuntime
