import FeatureRuntime.MachineInt
import FeatureRuntime.Transition
import Mathlib.Data.List.Nodup
import Mathlib.Data.List.TakeWhile

/-! Topic subscriptions of a message channel: the callbacks of every action, the receivers at the
broadcast transport, and what a message is delivered to. -/
namespace FeatureRuntime

/-- Whether a channel belongs to the C interface, which has no feature instance, and whether messages
to JS callbacks go through the event loop. -/
structure ChannelMode where
  inC : Bool
  posts : Bool
  deriving DecidableEq, Repr

/-- A callback of an action: an id of the instance, or a function with its user data. -/
inductive Subscriber
  | callback (id : ℤ)
  | native (cb userData : ℕ)
  deriving DecidableEq, Repr

def Subscriber.id : Subscriber → ℤ
  | .callback id => id
  | .native cb _ => toInt cb

/-- A message with the callbacks that got it and those that were registered when it came. -/
structure Delivery where
  action : String
  data : String
  recipients : List Subscriber
  expected : List Subscriber

/-- `CallData`: a message on its way to the event loop. -/
structure CallData where
  action : String
  data : String
  vectorId : List ℤ
  expected : List Subscriber

/-- The state of the subscriptions of a `MessageChannel`; `wanted` is what they are meant to be. -/
structure MessageChannel where
  actionCbMap : String → Option (List ℤ) := fun _ => none
  subscribeMap : ℤ → Option (ℕ × ℕ) := fun _ => none
  /-- `broadcast_reply_` has a receiver for the action. -/
  broadcastReply : String → Bool := fun _ => false
  /-- The receivers for an action that the activity manager calls. -/
  receivers : String → ℕ := fun _ => 0
  /-- The callback ids that the instance knows. -/
  callbacks : ℤ → Bool := fun _ => false
  posts : List CallData := []
  wanted : String → List Subscriber := fun _ => []
  delivered : List Delivery := []
  /-- The activity manager can be reached: in lite mode an instance needs the native context of its manager. -/
  reaches : Bool := true

inductive SubscriptionOp
  /-- The id comes from the conversion of the argument, which registers it. -/
  | registerReceiver (action : String) (actionCb : ℤ)
  | unregisterReceiver (action : String)
  | unregisterReceiverCb (action : String) (actionCb : ℤ)
  | registerReceiverForC (action : String) (cb userData : ℕ)
  | unregisterReceiverForC (action : String)
  /-- A message is broadcast. -/
  | message (action data : String)
  /-- The event loop runs the oldest posted message. -/
  | runPost
  /-- The manager of an instance gets or loses its native context in lite mode. -/
  | nativeContext (there : Bool)

namespace MessageChannel

variable (mode : ChannelMode) (s : MessageChannel)

section Transport

/-- `ClientConnection::registerReceiver`. Without the native context there is only an error in the log. -/
def transportRegister (action : String) : MessageChannel :=
  { s with
    broadcastReply := Function.update s.broadcastReply action true
    receivers := if s.reaches then Function.update s.receivers action (s.receivers action + 1) else s.receivers }

/-- `ClientConnection::unregisterReceiver`. -/
def transportUnregister (action : String) : MessageChannel :=
  if s.broadcastReply action then
    { s with
      broadcastReply := Function.update s.broadcastReply action false
      receivers := if s.reaches then Function.update s.receivers action (s.receivers action - 1) else s.receivers }
  else s

end Transport

/-- `FeatureRemoveCallback`, which refuses the null instance of a C channel. -/
def removeCallbacks (ids : List ℤ) : MessageChannel :=
  if mode.inC then s else { s with callbacks := fun id => s.callbacks id && decide (id ∉ ids) }

def want (action : String) (subscribers : List Subscriber) : MessageChannel :=
  { s with wanted := Function.update s.wanted action subscribers }

def addWanted (action : String) (sub : Subscriber) : MessageChannel :=
  if sub ∈ s.wanted action then s else s.want action (s.wanted action ++ [sub])

/-- `MessageChannel::registerReceiver`. -/
def register (action : String) (actionCb : ℤ) : MessageChannel :=
  let s := if s.actionCbMap action = none then s.transportRegister action else s
  { s with
    actionCbMap := Function.update s.actionCbMap action
      (some ((s.actionCbMap action).getD [] ++ [actionCb])) }

def convertCallback (actionCb : ℤ) : MessageChannel :=
  { s with callbacks := fun id => s.callbacks id || decide (id = actionCb ∧ 0 < actionCb) }

def registerReceiver (action : String) (actionCb : ℤ) : MessageChannel :=
  ((s.convertCallback actionCb).register action actionCb).addWanted action (.callback actionCb)

def unregisterReceiver (action : String) : MessageChannel :=
  match s.actionCbMap action with
  | none => s
  | some ids =>
    let s := s.removeCallbacks mode ids
    ({ s with actionCbMap := Function.update s.actionCbMap action none }.transportUnregister
      action).want action []

def unregisterReceiverCb (action : String) (actionCb : ℤ) : MessageChannel :=
  let s := s.convertCallback actionCb
  match s.actionCbMap action with
  | none => s
  | some ids =>
    let s := if actionCb ∈ ids then s.removeCallbacks mode [actionCb] else s
    let vec := ids.erase actionCb
    let s :=
      if vec = [] then
        { s with actionCbMap := Function.update s.actionCbMap action none }.transportUnregister action
      else { s with actionCbMap := Function.update s.actionCbMap action (some vec) }
    s.want action ((s.wanted action).filter (fun sub => sub.id ≠ actionCb))

def registerReceiverForC (action : String) (cb userData : ℕ) : MessageChannel :=
  let id := toInt cb
  let s := { s with
    subscribeMap :=
      if (s.subscribeMap id).isSome then s.subscribeMap
      else Function.update s.subscribeMap id (some (cb,userData)) }
  (s.register action id).addWanted action (.native cb userData)

def unregisterReceiverForC (action : String) : MessageChannel :=
  let s := s.unregisterReceiver mode action
  let ids := (s.actionCbMap action).getD []
  { s with
    actionCbMap := Function.update s.actionCbMap action (some ids)
    subscribeMap := fun id => if id ∈ ids then none else s.subscribeMap id }.want action []

def invoked (ids : List ℤ) : List Subscriber :=
  (ids.takeWhile (fun id => decide (0 < id) && s.callbacks id)).map .callback

/-- `subscribe_map_[id]`. -/
def entry (id : ℤ) : ℕ × ℕ := (s.subscribeMap id).getD (0,0)

def deliver (action data : String) (recipients expected : List Subscriber) : MessageChannel :=
  { s with delivered := s.delivered ++ [⟨action,data,recipients,expected⟩] }

/-- `MessageChannel::onReceive`. -/
def onReceive (action data : String) : MessageChannel :=
  match s.actionCbMap action with
  | none => s.deliver action data [] (s.wanted action)
  | some vec =>
    if mode.inC then
      { s with
        subscribeMap := fun id => if id ∈ vec then some (s.entry id) else s.subscribeMap id }.deliver
        action data (vec.map (fun id => .native (s.entry id).1 (s.entry id).2)) (s.wanted action)
    else if mode.posts then
      { s with posts := s.posts ++ [⟨action,data,vec,s.wanted action⟩] }
    else s.deliver action data (s.invoked vec) (s.wanted action)

def message (action data : String) : MessageChannel :=
  if s.receivers action = 0 then s.deliver action data [] (s.wanted action)
  else Nat.iterate (fun s => s.onReceive mode action data) (s.receivers action) s

def runPost : MessageChannel :=
  match s.posts with
  | [] => s
  | post :: posts =>
    { s with posts := posts }.deliver post.action post.data (s.invoked post.vectorId) post.expected

def step (s : MessageChannel) : SubscriptionOp → MessageChannel
  | .registerReceiver action actionCb => s.registerReceiver action actionCb
  | .unregisterReceiver action => s.unregisterReceiver mode action
  | .unregisterReceiverCb action actionCb => s.unregisterReceiverCb mode action actionCb
  | .registerReceiverForC action cb userData => s.registerReceiverForC action cb userData
  | .unregisterReceiverForC action => s.unregisterReceiverForC mode action
  | .message action data => s.message mode action data
  | .runPost => s.runPost
  | .nativeContext there => { s with reaches := mode.inC || there }

def ids (action : String) : List ℤ := (s.actionCbMap action).getD []

/-- The channel has one receiver for exactly the actions with a callback, the ids of a C channel have
their entries, and messages go to the callbacks that were registered, to each one once. -/
structure Subscribed : Prop where
  registered : ∀ action, s.receivers action = if s.wanted action = [] then 0 else 1
  entries : mode.inC = true → ∀ action, ∀ id ∈ s.ids action, (s.subscribeMap id).isSome
  delivered : ∀ d ∈ s.delivered, d.recipients = d.expected ∧ d.recipients.Nodup

/-- No callback of `ids` is registered for another action or waits in a posted message. -/
def Unshared (action : String) (ids : List ℤ) : Prop :=
  ∀ id ∈ ids, (∀ other, other ≠ action → id ∉ s.ids other) ∧ ∀ post ∈ s.posts, id ∉ post.vectorId

/-- A callback is registered where it is not registered yet, with an id that serves no other
function, and not for an action that the C interface unsubscribed before; callbacks are taken off an
instance when nothing else needs them; and the manager of an instance has its native context. -/
def Orderly (s : MessageChannel) : SubscriptionOp → Prop
  | .registerReceiver action actionCb =>
    mode.inC = false ∧ 0 < actionCb ∧ actionCb ∉ s.ids action ∧ s.actionCbMap action ≠ some []
  | .registerReceiverForC action cb userData =>
    mode.inC = true ∧ cb ≠ 0 ∧ toInt cb ∉ s.ids action ∧ s.actionCbMap action ≠ some [] ∧
      ∀ entry, s.subscribeMap (toInt cb) = some entry → entry = (cb,userData)
  | .unregisterReceiver action => mode.inC = true ∨ s.Unshared action (s.ids action)
  | .unregisterReceiverCb action actionCb =>
    mode.inC = true ∨ actionCb ∉ s.ids action ∨ s.Unshared action [actionCb]
  | .unregisterReceiverForC action => mode.inC = true ∨ s.Unshared action (s.ids action)
  | .nativeContext there => mode.inC = true ∨ there = true
  | _ => True

variable {mode} {s}

def Live (s : MessageChannel) (sub : Subscriber) : Prop :=
  ∃ id, sub = .callback id ∧ 0 < id ∧ s.callbacks id = true

def Entered (s : MessageChannel) (sub : Subscriber) : Prop :=
  ∃ cb userData, sub = .native cb userData ∧ s.subscribeMap (toInt cb) = some (cb,userData)

/-- The ids of every action are those of its subscribers, who can all be called, and the transport
knows the actions that have some. -/
structure SubscriptionInvariant (mode : ChannelMode) (s : MessageChannel) : Prop where
  lists : ∀ action, s.ids action = (s.wanted action).map Subscriber.id
  nodup : ∀ action, (s.ids action).Nodup
  registered : ∀ action, s.receivers action = if s.wanted action = [] then 0 else 1
  reply : ∀ action, s.broadcastReply action = true ↔ s.wanted action ≠ []
  live : mode.inC = false → ∀ action, ∀ sub ∈ s.wanted action, s.Live sub
  entered : mode.inC = true → ∀ action, ∀ sub ∈ s.wanted action, s.Entered sub
  posts : ∀ post ∈ s.posts, mode.inC = false ∧ post.vectorId = post.expected.map Subscriber.id ∧
    post.vectorId.Nodup ∧ ∀ sub ∈ post.expected, s.Live sub
  delivered : ∀ d ∈ s.delivered, d.recipients = d.expected ∧ d.recipients.Nodup
  reaches : s.reaches = true

namespace SubscriptionInvariant

theorem init : SubscriptionInvariant mode {} where
  lists _ := rfl
  nodup _ := List.nodup_nil
  registered _ := rfl
  reply _ := by simp
  live _ _ _ h := (nomatch h)
  entered _ _ _ h := (nomatch h)
  posts _ h := (nomatch h)
  delivered _ h := (nomatch h)
  reaches := rfl

theorem subscribed (h : SubscriptionInvariant mode s) : s.Subscribed mode where
  registered := h.registered
  entries hmode action id hid := by
    rw [h.lists,List.mem_map] at hid
    obtain ⟨sub,hsub,rfl⟩ := hid
    obtain ⟨cb,userData,rfl,hentry⟩ := h.entered hmode action sub hsub
    rw [Subscriber.id,hentry]
    rfl
  delivered := h.delivered

theorem wanted_nodup (h : SubscriptionInvariant mode s) (action : String) : (s.wanted action).Nodup := by
  have hids := h.nodup action
  rw [h.lists] at hids
  exact hids.of_map

theorem weaken (h : SubscriptionInvariant mode s) {callbacks : ℤ → Bool} {subscribeMap : ℤ → Option (ℕ × ℕ)}
    (hcallbacks : ∀ id, s.callbacks id = true → callbacks id = true)
    (hentries : ∀ id pair, s.subscribeMap id = some pair → subscribeMap id = some pair) :
    SubscriptionInvariant mode { s with callbacks := callbacks, subscribeMap := subscribeMap } := by
  have hlive : ∀ sub, s.Live sub → Live { s with callbacks := callbacks, subscribeMap := subscribeMap } sub := by
    rintro sub ⟨id,rfl,hpos,hid⟩
    exact ⟨id,rfl,hpos,hcallbacks id hid⟩
  refine ⟨h.lists,h.nodup,h.registered,h.reply,?_,?_,?_,h.delivered,h.reaches⟩
  · intro hmode action sub hsub
    exact hlive sub (h.live hmode action sub hsub)
  · intro hmode action sub hsub
    obtain ⟨cb,userData,rfl,hentry⟩ := h.entered hmode action sub hsub
    exact ⟨cb,userData,rfl,hentries _ _ hentry⟩
  · intro post hpost
    obtain ⟨hmode,hids,hnodup,hposted⟩ := h.posts post hpost
    exact ⟨hmode,hids,hnodup,fun sub hsub => hlive sub (hposted sub hsub)⟩

theorem convertCallback (h : SubscriptionInvariant mode s) (actionCb : ℤ) :
    SubscriptionInvariant mode (s.convertCallback actionCb) :=
  h.weaken (fun id hid => by rw [hid,Bool.true_or]) (fun _ _ hentry => hentry)

theorem apply_ite_update {β : Type} {f : String → β} {x : β} {a b : String} {c : Prop} [Decidable c] (h : a ≠ b) :
    (if c then Function.update f b x else f) a = f a := by
  split_ifs
  · exact Function.update_of_ne h _ _
  · rfl

/-- A change of the callbacks of one action, with the transport following it. -/
theorem replace (h : SubscriptionInvariant mode s) {s' : MessageChannel} (action : String)
    (hother : ∀ a, a ≠ action → s'.ids a = s.ids a ∧ s'.wanted a = s.wanted a ∧
      s'.receivers a = s.receivers a ∧ s'.broadcastReply a = s.broadcastReply a)
    (hlists : s'.ids action = (s'.wanted action).map Subscriber.id)
    (hnodup : (s'.ids action).Nodup)
    (hregistered : s'.receivers action = if s'.wanted action = [] then 0 else 1)
    (hreply : s'.broadcastReply action = true ↔ s'.wanted action ≠ [])
    (hlive : mode.inC = false → ∀ a, ∀ sub ∈ s'.wanted a, s'.Live sub)
    (hentered : mode.inC = true → ∀ a, ∀ sub ∈ s'.wanted a, s'.Entered sub)
    (hposts : ∀ post ∈ s'.posts, post ∈ s.posts ∧ ∀ sub ∈ post.expected, s'.Live sub)
    (hdelivered : s'.delivered = s.delivered) (hreaches : s'.reaches = s.reaches) : SubscriptionInvariant mode s' := by
  have hcase : ∀ {P : String → Prop}, P action → (∀ a, a ≠ action → P a) → ∀ a, P a := by
    intro P hself hrest a
    by_cases ha : a = action
    · exact ha ▸ hself
    · exact hrest a ha
  refine ⟨hcase hlists fun a ha => ?_,hcase hnodup fun a ha => ?_,hcase hregistered fun a ha => ?_,
    hcase hreply fun a ha => ?_,hlive,hentered,?_,hdelivered ▸ h.delivered,hreaches.trans h.reaches⟩
  · obtain ⟨hids,hwanted,-⟩ := hother a ha
    rw [hids,hwanted,h.lists]
  · rw [(hother a ha).1]
    exact h.nodup a
  · obtain ⟨-,hwanted,hreceivers,-⟩ := hother a ha
    rw [hreceivers,hwanted,h.registered]
  · obtain ⟨-,hwanted,-,hbroadcast⟩ := hother a ha
    rw [hbroadcast,hwanted,h.reply]
  · intro post hpost
    obtain ⟨hold,hexpected⟩ := hposts post hpost
    obtain ⟨hmode,hids,hpostNodup,-⟩ := h.posts post hold
    exact ⟨hmode,hids,hpostNodup,hexpected⟩

end SubscriptionInvariant

variable {action : String}

theorem register_addWanted {sub : Subscriber} (hnew : sub ∉ s.wanted action) (hreaches : s.reaches = true) :
    (s.register action sub.id).addWanted action sub =
      { s with
        actionCbMap := Function.update s.actionCbMap action (some (s.ids action ++ [sub.id]))
        broadcastReply :=
          if s.actionCbMap action = none then Function.update s.broadcastReply action true
          else s.broadcastReply
        receivers :=
          if s.actionCbMap action = none then
            Function.update s.receivers action (s.receivers action + 1)
          else s.receivers
        wanted := Function.update s.wanted action (s.wanted action ++ [sub]) } := by
  by_cases hnone : s.actionCbMap action = none <;>
    simp [register,addWanted,want,ids,transportRegister,hnone,hnew,hreaches]

variable {registered : List ℤ}

theorem unregisterReceiver_eq (hmap : s.actionCbMap action = some registered) (hreaches : s.reaches = true) :
    s.unregisterReceiver mode action =
      { s with
        callbacks :=
          if mode.inC then s.callbacks else fun id => s.callbacks id && decide (id ∉ registered)
        actionCbMap := Function.update s.actionCbMap action none
        broadcastReply :=
          if s.broadcastReply action then Function.update s.broadcastReply action false
          else s.broadcastReply
        receivers :=
          if s.broadcastReply action then
            Function.update s.receivers action (s.receivers action - 1)
          else s.receivers
        wanted := Function.update s.wanted action [] } := by
  by_cases hmode : mode.inC = true <;> by_cases hreply : s.broadcastReply action = true <;>
    simp [unregisterReceiver,hmap,removeCallbacks,transportUnregister,want,hmode,hreply,hreaches]

namespace SubscriptionInvariant

variable {action : String}

/-- One more subscriber of an action that the C interface did not unsubscribe. -/
theorem subscribe (h : SubscriptionInvariant mode s) {sub : Subscriber}
    (hnew : sub.id ∉ s.ids action) (hmap : s.actionCbMap action ≠ some [])
    (hlive : mode.inC = false → s.Live sub) (hentered : mode.inC = true → s.Entered sub) :
    SubscriptionInvariant mode ((s.register action sub.id).addWanted action sub) := by
  have hsub : sub ∉ s.wanted action := by
    intro hin
    rw [h.lists] at hnew
    exact hnew (List.mem_map_of_mem hin)
  have hempty : s.actionCbMap action = none ↔ s.wanted action = [] := by
    have hids := h.lists action
    unfold ids at hids
    cases hcase : s.actionCbMap action with
    | none =>
      rw [hcase,Option.getD_none] at hids
      exact iff_of_true rfl (List.map_eq_nil_iff.mp hids.symm)
    | some vec =>
      rw [hcase] at hmap hids
      have hvec : vec ≠ [] := by simpa using hmap
      simp only [reduceCtorEq,false_iff]
      intro hwanted
      rw [hwanted] at hids
      exact hvec hids
  rw [register_addWanted hsub h.reaches]
  apply h.replace action
  · intro a ha
    refine ⟨?_,Function.update_of_ne ha _ _,apply_ite_update ha,apply_ite_update ha⟩
    simp [ids,Function.update_of_ne ha]
  · simp [ids,Function.update_self,← h.lists]
  · have hids := h.nodup action
    simp only [ids,Function.update_self,Option.getD_some]
    refine List.nodup_append.mpr ⟨hids,List.pairwise_singleton _ _,fun a ha b hb => ?_⟩
    rw [List.mem_singleton.mp hb]
    rintro rfl
    exact hnew ha
  · have hcount := h.registered action
    simp only [Function.update_self,List.append_eq_nil_iff,List.cons_ne_nil,and_false,if_false]
    split_ifs with hnone
    · rw [Function.update_self,hcount,if_pos (hempty.mp hnone)]
    · rw [hcount,if_neg (fun hw => hnone (hempty.mpr hw))]
  · dsimp only
    rw [Function.update_self]
    simp only [ne_eq,List.append_eq_nil_iff,List.cons_ne_nil,and_false,not_false_eq_true,iff_true]
    split_ifs with hnone
    · exact Function.update_self ..
    · exact (h.reply action).mpr (fun hw => hnone (hempty.mpr hw))
  · intro hmode a other hother
    dsimp only at hother
    by_cases ha : a = action
    · subst ha
      rw [Function.update_self] at hother
      rcases List.mem_append.mp hother with hold | hsame
      · exact h.live hmode a other hold
      · rw [List.mem_singleton.mp hsame]
        exact hlive hmode
    · rw [Function.update_of_ne ha] at hother
      exact h.live hmode a other hother
  · intro hmode a other hother
    dsimp only at hother
    by_cases ha : a = action
    · subst ha
      rw [Function.update_self] at hother
      rcases List.mem_append.mp hother with hold | hsame
      · exact h.entered hmode a other hold
      · rw [List.mem_singleton.mp hsame]
        exact hentered hmode
    · rw [Function.update_of_ne ha] at hother
      exact h.entered hmode a other hother
  · intro post hpost
    exact ⟨hpost,(h.posts post hpost).2.2.2⟩
  · rfl
  · rfl

/-- The subscribers that keep their callbacks when others are taken off. -/
theorem live_removed (h : SubscriptionInvariant mode s) (hmode : mode.inC = false)
    {removed : List ℤ} (hunshared : s.Unshared action removed) :
    (∀ a, a ≠ action → ∀ sub ∈ s.wanted a, ∃ id, sub = .callback id ∧ 0 < id ∧ s.callbacks id = true ∧ id ∉ removed) ∧
    ∀ post ∈ s.posts, ∀ sub ∈ post.expected,
      ∃ id, sub = .callback id ∧ 0 < id ∧ s.callbacks id = true ∧ id ∉ removed := by
  constructor
  · intro a ha sub hsub
    obtain ⟨id,rfl,hpos,hid⟩ := h.live hmode a sub hsub
    refine ⟨id,rfl,hpos,hid,fun hin => (hunshared id hin).1 a ha ?_⟩
    rw [h.lists]
    exact List.mem_map_of_mem hsub
  · intro post hpost sub hsub
    obtain ⟨-,hids,-,hlive⟩ := h.posts post hpost
    obtain ⟨id,rfl,hpos,hid⟩ := hlive sub hsub
    refine ⟨id,rfl,hpos,hid,fun hin => (hunshared id hin).2 post hpost ?_⟩
    rw [hids]
    exact List.mem_map_of_mem hsub

theorem unregisterReceiver (h : SubscriptionInvariant mode s)
    (hgood : mode.inC = true ∨ s.Unshared action (s.ids action)) :
    SubscriptionInvariant mode (s.unregisterReceiver mode action) := by
  cases hmap : s.actionCbMap action with
  | none => simpa [MessageChannel.unregisterReceiver,hmap] using h
  | some registered =>
    have hids : s.ids action = registered := by rw [ids,hmap,Option.getD_some]
    rw [hids] at hgood
    rw [unregisterReceiver_eq hmap h.reaches]
    apply h.replace action
    · intro a ha
      refine ⟨?_,Function.update_of_ne ha _ _,apply_ite_update ha,apply_ite_update ha⟩
      simp [ids,Function.update_of_ne ha]
    · simp [ids,Function.update_self]
    · simp [ids,Function.update_self]
    · have hcount := h.registered action
      have hreply := h.reply action
      simp only [Function.update_self,if_true]
      by_cases hwanted : s.wanted action = []
      · rw [if_neg (fun hb => hreply.mp hb hwanted),hcount,if_pos hwanted]
      · rw [if_pos (hreply.mpr hwanted),Function.update_self,hcount,if_neg hwanted]
    · dsimp only
      rw [Function.update_self]
      split_ifs with hb
      · simp [Function.update_self]
      · simp [hb]
    · intro hmode a sub hsub
      dsimp only at hsub
      have ha : a ≠ action := by
        rintro rfl
        rw [Function.update_self] at hsub
        cases hsub
      rw [Function.update_of_ne ha] at hsub
      have hunshared := hgood.resolve_left (by simp [hmode])
      obtain ⟨id,rfl,hpos,hid,hout⟩ := (h.live_removed hmode hunshared).1 a ha sub hsub
      exact ⟨id,rfl,hpos,by simp [hmode,hid,hout]⟩
    · intro hmode a sub hsub
      dsimp only at hsub
      have ha : a ≠ action := by
        rintro rfl
        rw [Function.update_self] at hsub
        cases hsub
      rw [Function.update_of_ne ha] at hsub
      exact h.entered hmode a sub hsub
    · intro post hpost
      refine ⟨hpost,fun sub hsub => ?_⟩
      have hmode := (h.posts post hpost).1
      have hunshared := hgood.resolve_left (by simp [hmode])
      obtain ⟨id,rfl,hpos,hid,hout⟩ := (h.live_removed hmode hunshared).2 post hpost sub hsub
      exact ⟨id,rfl,hpos,by simp [hmode,hid,hout]⟩
    · rfl
    · rfl

end SubscriptionInvariant

theorem unregisterReceiverCb_eq {actionCb : ℤ} (hmap : s.actionCbMap action = some registered)
    (hreaches : s.reaches = true) :
    s.unregisterReceiverCb mode action actionCb =
      { s with
        callbacks :=
          (if actionCb ∈ registered then (s.convertCallback actionCb).removeCallbacks mode [actionCb]
            else s.convertCallback actionCb).callbacks
        actionCbMap := Function.update s.actionCbMap action
          (if registered.erase actionCb = [] then none else some (registered.erase actionCb))
        broadcastReply :=
          if registered.erase actionCb = [] ∧ s.broadcastReply action = true then
            Function.update s.broadcastReply action false
          else s.broadcastReply
        receivers :=
          if registered.erase actionCb = [] ∧ s.broadcastReply action = true then
            Function.update s.receivers action (s.receivers action - 1)
          else s.receivers
        wanted := Function.update s.wanted action
          ((s.wanted action).filter (fun sub => sub.id ≠ actionCb)) } := by
  simp only [unregisterReceiverCb,MessageChannel.convertCallback,hmap,removeCallbacks,transportUnregister,want]
  by_cases hvec : registered.erase actionCb = [] <;> by_cases hreply : s.broadcastReply action = true <;>
    by_cases hin : actionCb ∈ registered <;>
    by_cases hmode : mode.inC = true <;>
    simp only [hvec,hreply,hin,hmode,hreaches,if_true,if_false,true_and,false_and,Bool.false_eq_true]

theorem callbacks_removed {actionCb id : ℤ} (hid : s.callbacks id = true)
    (hkeep : actionCb ∉ registered ∨ id ≠ actionCb) :
    (if actionCb ∈ registered then (s.convertCallback actionCb).removeCallbacks mode [actionCb]
      else s.convertCallback actionCb).callbacks id = true := by
  have hconvert : (s.convertCallback actionCb).callbacks id = true := by
    simp [MessageChannel.convertCallback,hid]
  split_ifs with hin
  · unfold removeCallbacks
    split_ifs
    · exact hconvert
    · simp [hconvert,hkeep.resolve_left (not_not_intro hin)]
  · exact hconvert

namespace SubscriptionInvariant

variable {action : String}

theorem unregisterReceiverCb (h : SubscriptionInvariant mode s) {actionCb : ℤ}
    (hgood : mode.inC = true ∨ actionCb ∉ s.ids action ∨ s.Unshared action [actionCb]) :
    SubscriptionInvariant mode (s.unregisterReceiverCb mode action actionCb) := by
  cases hmap : s.actionCbMap action with
  | none =>
    simpa [MessageChannel.unregisterReceiverCb,hmap,MessageChannel.convertCallback] using h.convertCallback actionCb
  | some registered =>
    have hids : s.ids action = registered := by rw [ids,hmap,Option.getD_some]
    have hnodup := h.nodup action
    have hlist := h.lists action
    rw [hids] at hgood hnodup hlist
    -- the ids and the subscribers that stay are those with another id
    have herase : registered.erase actionCb =
        ((s.wanted action).filter (fun sub => sub.id ≠ actionCb)).map Subscriber.id := by
      rw [hnodup.erase_eq_filter,hlist,List.filter_map]
      congr 1
      apply List.filter_congr
      intro sub _
      simp [bne,beq_eq_decide]
    have hempty : registered.erase actionCb = [] ↔ (s.wanted action).filter (fun sub => sub.id ≠ actionCb) = [] := by
      rw [herase,List.map_eq_nil_iff]
    have hkeep : ∀ sub, mode.inC = false → (∃ id, sub = .callback id ∧ 0 < id ∧
        s.callbacks id = true ∧ (actionCb ∉ registered ∨ id ≠ actionCb)) →
        Live (s.unregisterReceiverCb mode action actionCb) sub := by
      rintro sub hmode ⟨id,rfl,hpos,hid,hother⟩
      refine ⟨id,rfl,hpos,?_⟩
      rw [unregisterReceiverCb_eq hmap h.reaches]
      exact callbacks_removed hid hother
    have hshared : mode.inC = false → actionCb ∈ registered → s.Unshared action [actionCb] :=
      fun hmode hin => (hgood.resolve_left (by simp [hmode])).resolve_left (not_not_intro hin)
    apply h.replace action
    · intro a ha
      rw [unregisterReceiverCb_eq hmap h.reaches]
      refine ⟨?_,Function.update_of_ne ha _ _,apply_ite_update ha,apply_ite_update ha⟩
      simp [ids,Function.update_of_ne ha]
    · rw [unregisterReceiverCb_eq hmap h.reaches]
      simp only [ids,Function.update_self,← herase]
      split_ifs with hvec
      · exact hvec.symm
      · rfl
    · rw [unregisterReceiverCb_eq hmap h.reaches]
      simp only [ids,Function.update_self]
      split_ifs
      · exact List.nodup_nil
      · exact hnodup.erase _
    · have hcount := h.registered action
      have hreply := h.reply action
      rw [unregisterReceiverCb_eq hmap h.reaches]
      simp only [Function.update_self,← hempty]
      by_cases hvec : registered.erase actionCb = []
      · by_cases hwanted : s.wanted action = []
        · have hfalse : ¬s.broadcastReply action = true := fun hb => hreply.mp hb hwanted
          simp [hvec,hfalse,hcount,hwanted]
        · simp [hvec,hreply.mpr hwanted,hcount,hwanted]
      · have hwanted : s.wanted action ≠ [] := by
          intro hw
          rw [hlist,hw] at hvec
          exact hvec rfl
        simp [hvec,hcount,hwanted]
    · have hreply := h.reply action
      rw [unregisterReceiverCb_eq hmap h.reaches]
      simp only [Function.update_self,ne_eq,← hempty]
      by_cases hvec : registered.erase actionCb = []
      · by_cases hb : s.broadcastReply action = true <;> simp [hvec,hb]
      · have hwanted : s.wanted action ≠ [] := by
          intro hw
          rw [hlist,hw] at hvec
          exact hvec rfl
        simp [hvec,hreply.mpr hwanted]
    · intro hmode a sub hsub
      apply hkeep sub hmode
      rw [unregisterReceiverCb_eq hmap h.reaches] at hsub
      dsimp only at hsub
      by_cases ha : a = action
      · subst ha
        rw [Function.update_self] at hsub
        obtain ⟨hsub,hne⟩ := List.mem_filter.mp hsub
        obtain ⟨id,rfl,hpos,hid⟩ := h.live hmode a sub hsub
        exact ⟨id,rfl,hpos,hid,.inr (of_decide_eq_true hne)⟩
      · rw [Function.update_of_ne ha] at hsub
        by_cases hin : actionCb ∈ registered
        · obtain ⟨id,rfl,hpos,hid,hout⟩ :=
            (h.live_removed hmode (hshared hmode hin)).1 a ha sub hsub
          exact ⟨id,rfl,hpos,hid,.inr (by simpa using hout)⟩
        · obtain ⟨id,rfl,hpos,hid⟩ := h.live hmode a sub hsub
          exact ⟨id,rfl,hpos,hid,.inl hin⟩
    · intro hmode a sub hsub
      rw [unregisterReceiverCb_eq hmap h.reaches] at hsub ⊢
      dsimp only at hsub
      by_cases ha : a = action
      · subst ha
        rw [Function.update_self] at hsub
        exact h.entered hmode a sub (List.mem_filter.mp hsub).1
      · rw [Function.update_of_ne ha] at hsub
        exact h.entered hmode a sub hsub
    · intro post hpost
      have hold : post ∈ s.posts := by rwa [unregisterReceiverCb_eq hmap h.reaches] at hpost
      obtain ⟨hmode,-,-,hlive⟩ := h.posts post hold
      refine ⟨hold,fun sub hsub => hkeep sub hmode ?_⟩
      by_cases hin : actionCb ∈ registered
      · obtain ⟨id,rfl,hpos,hid,hout⟩ :=
          (h.live_removed hmode (hshared hmode hin)).2 post hold sub hsub
        exact ⟨id,rfl,hpos,hid,.inr (by simpa using hout)⟩
      · obtain ⟨id,rfl,hpos,hid⟩ := hlive sub hsub
        exact ⟨id,rfl,hpos,hid,.inl hin⟩
    · rw [unregisterReceiverCb_eq hmap h.reaches]
    · rw [unregisterReceiverCb_eq hmap h.reaches]

theorem registerReceiver (h : SubscriptionInvariant mode s) {actionCb : ℤ}
    (hgood : s.Orderly mode (.registerReceiver action actionCb)) :
    SubscriptionInvariant mode (s.registerReceiver action actionCb) := by
  obtain ⟨hmode,hpos,hnew,hmap⟩ := hgood
  exact (h.convertCallback actionCb).subscribe hnew hmap
    (fun _ => ⟨actionCb,rfl,hpos,by simp [MessageChannel.convertCallback,hpos]⟩)
    (fun hc => Bool.noConfusion (hmode.symm.trans hc))

theorem registerReceiverForC (h : SubscriptionInvariant mode s)
    {cb userData : ℕ} (hgood : s.Orderly mode (.registerReceiverForC action cb userData)) :
    SubscriptionInvariant mode (s.registerReceiverForC action cb userData) := by
  obtain ⟨hmode,-,hnew,hmap,hentry⟩ := hgood
  have hentries : ∀ id pair, s.subscribeMap id = some pair →
      (if (s.subscribeMap (toInt cb)).isSome then s.subscribeMap
        else Function.update s.subscribeMap (toInt cb) (some (cb,userData))) id = some pair := by
    intro id pair hpair
    split_ifs with hsome
    · exact hpair
    · have hne : id ≠ toInt cb := by
        intro heq
        rw [← heq,hpair] at hsome
        exact hsome rfl
      rw [Function.update_of_ne hne,hpair]
  have hself : (if (s.subscribeMap (toInt cb)).isSome then s.subscribeMap
      else Function.update s.subscribeMap (toInt cb) (some (cb,userData))) (toInt cb) =
        some (cb,userData) := by
    split_ifs with hsome
    · obtain ⟨entry,he⟩ := Option.isSome_iff_exists.mp hsome
      rw [he,hentry entry he]
    · exact Function.update_self ..
  have hweak := h.weaken (fun _ hid => hid) hentries
  have hnew' : (Subscriber.native cb userData).id ∉ s.ids action := hnew
  have hsubscribe := hweak.subscribe hnew' hmap
    (fun hc => Bool.noConfusion (hc.symm.trans hmode)) (fun _ => ⟨cb,userData,rfl,hself⟩)
  unfold MessageChannel.registerReceiverForC
  exact hsubscribe

theorem unregisterReceiverForC (h : SubscriptionInvariant mode s)
    (hgood : mode.inC = true ∨ s.Unshared action (s.ids action)) :
    SubscriptionInvariant mode (s.unregisterReceiverForC mode action) := by
  have hrest := h.unregisterReceiver hgood
  have hnone : (s.unregisterReceiver mode action).actionCbMap action = none := by
    cases hmap : s.actionCbMap action with
    | none => simp [MessageChannel.unregisterReceiver,hmap]
    | some registered =>
      rw [unregisterReceiver_eq hmap h.reaches]
      exact Function.update_self ..
  have hids : (s.unregisterReceiver mode action).ids action = [] := by
    rw [ids,hnone,Option.getD_none]
  have hwanted : (s.unregisterReceiver mode action).wanted action = [] := by
    rw [hrest.lists] at hids
    exact List.map_eq_nil_iff.mp hids
  have hsame : ∀ a, Function.update (s.unregisterReceiver mode action).wanted action [] a =
      (s.unregisterReceiver mode action).wanted a := by
    intro a
    rw [← hwanted,Function.update_eq_self]
  unfold MessageChannel.unregisterReceiverForC
  simp only [hnone,Option.getD_none,List.not_mem_nil,if_false,want]
  apply hrest.replace action
  · intro a ha
    exact ⟨by simp [ids,Function.update_of_ne ha],Function.update_of_ne ha _ _,rfl,rfl⟩
  · simp [ids,Function.update_self]
  · simp [ids,Function.update_self]
  · simp [hwanted,hrest.registered]
  · simp [hwanted,hrest.reply]
  · intro hmode a sub hsub
    dsimp only at hsub
    rw [hsame] at hsub
    exact hrest.live hmode a sub hsub
  · intro hmode a sub hsub
    dsimp only at hsub
    rw [hsame] at hsub
    exact hrest.entered hmode a sub hsub
  · intro post hpost
    exact ⟨hpost,(hrest.posts post hpost).2.2.2⟩
  · rfl
  · rfl

theorem deliver (h : SubscriptionInvariant mode s) (action data : String)
    {recipients expected : List Subscriber} (heq : recipients = expected)
    (hnodup : expected.Nodup) :
    SubscriptionInvariant mode (s.deliver action data recipients expected) := by
  refine ⟨h.lists,h.nodup,h.registered,h.reply,h.live,h.entered,h.posts,fun d hd => ?_,h.reaches⟩
  rcases List.mem_append.mp hd with hold | hnew
  · exact h.delivered d hold
  · rw [List.mem_singleton.mp hnew]
    exact ⟨heq,heq ▸ hnodup⟩

theorem invoked_live {subs : List Subscriber} (hlive : ∀ sub ∈ subs, s.Live sub) :
    s.invoked (subs.map Subscriber.id) = subs := by
  have hall : ∀ id ∈ subs.map Subscriber.id, (decide (0 < id) && s.callbacks id) = true := by
    intro id hid
    obtain ⟨sub,hsub,rfl⟩ := List.mem_map.mp hid
    obtain ⟨id,rfl,hpos,hcb⟩ := hlive sub hsub
    simp only [Subscriber.id,hpos,hcb,decide_true,Bool.and_self]
  rw [invoked,List.takeWhile_eq_self_iff.mpr hall,List.map_map]
  refine (List.map_congr_left fun sub hsub => ?_).trans (List.map_id _)
  obtain ⟨id,rfl,-⟩ := hlive sub hsub
  rfl

theorem entries_entered {subs : List Subscriber} (hentered : ∀ sub ∈ subs, s.Entered sub) :
    (subs.map Subscriber.id).map (fun id => Subscriber.native (s.entry id).1 (s.entry id).2) =
      subs := by
  rw [List.map_map]
  refine (List.map_congr_left fun sub hsub => ?_).trans (List.map_id _)
  obtain ⟨cb,userData,rfl,hentry⟩ := hentered sub hsub
  simp only [Function.comp_apply,Subscriber.id,entry,hentry,Option.getD_some,id_eq]

theorem onReceive (h : SubscriptionInvariant mode s) (action data : String) :
    SubscriptionInvariant mode (s.onReceive mode action data) := by
  have hlist := h.lists action
  unfold ids at hlist
  unfold MessageChannel.onReceive
  cases hmap : s.actionCbMap action with
  | none =>
    rw [hmap,Option.getD_none] at hlist
    have hwanted := List.map_eq_nil_iff.mp hlist.symm
    exact h.deliver action data hwanted.symm (h.wanted_nodup action)
  | some vec =>
    rw [hmap,Option.getD_some] at hlist
    dsimp only
    split_ifs with hmode hposts
    · have hentered := h.entered hmode action
      have hkeep : ∀ id pair, s.subscribeMap id = some pair →
          (if id ∈ vec then some (s.entry id) else s.subscribeMap id) = some pair := by
        intro id pair hpair
        rw [entry,hpair,Option.getD_some,ite_self]
      rw [hlist,entries_entered hentered]
      rw [hlist] at hkeep
      exact (h.weaken (fun _ hid => hid) hkeep).deliver action data rfl (h.wanted_nodup action)
    · have hmode : mode.inC = false := by simpa using hmode
      refine ⟨h.lists,h.nodup,h.registered,h.reply,h.live,h.entered,fun post hpost => ?_,h.delivered,h.reaches⟩
      rcases List.mem_append.mp hpost with hold | hnew
      · exact h.posts post hold
      · rw [List.mem_singleton.mp hnew]
        have hnodup := h.nodup action
        rw [h.lists,← hlist] at hnodup
        exact ⟨hmode,hlist,hnodup,h.live hmode action⟩
    · have hlive := h.live (by simpa using hmode) action
      rw [hlist,invoked_live hlive]
      exact h.deliver action data rfl (h.wanted_nodup action)

theorem message (h : SubscriptionInvariant mode s) (action data : String) :
    SubscriptionInvariant mode (s.message mode action data) := by
  have hcount := h.registered action
  unfold MessageChannel.message
  split_ifs at hcount with hwanted
  · rw [if_pos hcount]
    exact h.deliver action data hwanted.symm (h.wanted_nodup action)
  · rw [if_neg (by omega),hcount]
    exact h.onReceive action data

theorem runPost (h : SubscriptionInvariant mode s) : SubscriptionInvariant mode s.runPost := by
  unfold MessageChannel.runPost
  cases hposts : s.posts with
  | nil => exact h
  | cons post posts =>
    have hmem : ∀ p, p = post ∨ p ∈ posts → p ∈ s.posts := by
      rw [hposts]
      simp
    obtain ⟨-,hids,hnodup,hlive⟩ := h.posts post (hmem post (.inl rfl))
    have hrest : SubscriptionInvariant mode { s with posts := posts } :=
      ⟨h.lists,h.nodup,h.registered,h.reply,h.live,h.entered,fun p hp => h.posts p (hmem p (.inr hp)),h.delivered,
        h.reaches⟩
    dsimp only
    rw [hids] at hnodup ⊢
    exact hrest.deliver post.action post.data (invoked_live hlive) hnodup.of_map

theorem step (h : SubscriptionInvariant mode s) (op : SubscriptionOp)
    (hgood : s.Orderly mode op) : SubscriptionInvariant mode (s.step mode op) := by
  cases op with
  | registerReceiver action actionCb => exact h.registerReceiver hgood
  | unregisterReceiver action => exact h.unregisterReceiver hgood
  | unregisterReceiverCb action actionCb => exact h.unregisterReceiverCb hgood
  | registerReceiverForC action cb userData => exact h.registerReceiverForC hgood
  | unregisterReceiverForC action => exact h.unregisterReceiverForC hgood
  | nativeContext there =>
    refine ⟨h.lists,h.nodup,h.registered,h.reply,h.live,h.entered,h.posts,h.delivered,?_⟩
    change (mode.inC || there) = true
    rwa [Bool.or_eq_true]
  | message action data => exact h.message action data
  | runPost => exact h.runPost

end SubscriptionInvariant

/-- Subscriptions do what they are meant to along every run that is orderly, in every mode. -/
theorem subscribed_of_orderly (mode : ChannelMode) (ops : List SubscriptionOp)
    (h : Transition.Guarded (step mode) (Orderly mode) {} ops) :
    Transition.Always (step mode) (Subscribed mode) {} ops :=
  (h.always (fun _ op h hgood => h.step op hgood) SubscriptionInvariant.init).mono
    (fun _ h => h.subscribed)

/-- A listener that gets a message through the event loop. -/
theorem subscribed_listener : Transition.Always (step ⟨false,true⟩) (Subscribed ⟨false,true⟩) {}
      [.nativeContext true,.registerReceiver "topic" 1,.message "topic" "hello",.runPost] :=
  subscribed_of_orderly _ _ ⟨.inr rfl,⟨rfl,by decide,by decide,by decide⟩,trivial,trivial,trivial⟩

/-- The C interface cannot subscribe to a topic again: the empty entry that unsubscribing leaves
behind hides that the channel has no receiver. -/
theorem resubscribed_action_has_no_receiver : ¬Transition.Always (step ⟨true,false⟩) (Subscribed ⟨true,false⟩) {}
      [.registerReceiverForC "topic" 8 1,.unregisterReceiverForC "topic",.registerReceiverForC "topic" 8 1] := by
  intro h
  have hregistered := h.last.registered "topic"
  revert hregistered
  decide

end MessageChannel
end FeatureRuntime
