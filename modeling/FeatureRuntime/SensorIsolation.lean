import FeatureRuntime.Sensor
import FeatureRuntime.Transition

/-! What the instances of `system.sensor` receive, whatever the others do. -/
namespace FeatureRuntime

/-- The calls of the instances, and the callbacks of topics that are closed. -/
inductive SensorOp (ι : Type)
  | subscribeSingle (feature : ι) (sensor : SingleSensor) (callback fail : ℤ) (world : SensorWorld)
  | unsubscribeSingle (feature : ι) (magic : SensorMagic) (world : SensorWorld)
  | subscribe (feature : ι) (param : SensorParam) (world : SensorWorld)
  | unsubscribe (feature : ι) (fd : ℤ) (world : SensorWorld)
  | topicClose (address : ℕ)
  | detach (feature : ι) (world : SensorWorld)

/-- The table, and what the instances are subscribed to by their own calls: a callback for a sensor, and users by
their place. -/
structure SensorSubscriptions (ι : Type) where
  sensors : Sensors ι
  single : ι → SensorMagic → Option ℤ
  multi : ℕ → Bool

namespace Sensors

open LiveCallbacks

variable {ι : Type} [DecidableEq ι]

def received (s : Sensors ι) (feature : ι) (magic : SensorMagic) : List ℤ :=
  (((s.events magic).toList ++ s.dropped.filter (fun event => event.magic = magic)).filter (fun event =>
    event.topic = .running ∧ event.feature = some feature ∧ s.live feature event.callback)).map SensorEvent.callback

def Reaches (s : Sensors ι) (user : SensorUser ι) : Prop :=
  user.topic = .running ∧ s.live user.feature user.callback = true

theorem subscribe_of_idle {world : SensorWorld} {s : Sensors ι} {feature : ι} {magic : SensorMagic} {callback fail : ℤ}
    (hlive : s.live feature callback = true)
    (hidle : ∀ event, s.events magic = some event → event.subscribed = false) :
    subscribe world s feature magic callback fail = subscribeNew world s feature magic callback fail := by
  simp only [subscribe,hlive,Bool.true_eq_false,if_false]
  cases hevent : s.events magic with
  | none => rfl
  | some event => simp [hidle event hevent]

theorem subscribe_of_subscribed {world : SensorWorld} {s : Sensors ι} {feature : ι} {magic : SensorMagic}
    {event : SensorEvent ι} {callback fail : ℤ} (hlive : s.live feature callback = true)
    (hevent : s.events magic = some event) (hsubscribed : event.subscribed = true) :
    subscribe world s feature magic callback fail = (true,{ s with
      events := Function.update s.events magic (some { event with callback := callback, fail := fail })
      live := removeAll s.live feature event.callback event.fail }) := by
  simp [subscribe,hlive,hevent,hsubscribed]

/-- `system_sensor_onCreate`. -/
def onCreate : Sensors ι := ⟨fun _ => none,[],[],fun _ _ => false,fun _ => false⟩

end Sensors

namespace SensorSubscriptions

open Sensors LiveCallbacks

variable {ι : Type} [DecidableEq ι]

def registered (s : Sensors ι) (feature : ι) (callback fail : ℤ) : Sensors ι :=
  { s with live := register (register s.live feature callback) feature fail }

/-- The subscriptions to sensors after a call of `subscribe`, which tells whether there is one. -/
def claim (single : ι → SensorMagic → Option ℤ) (feature : ι) (magic : SensorMagic) (callback : ℤ) (subscribed : Bool) :
    ι → SensorMagic → Option ℤ :=
  if subscribed then Function.update single feature (Function.update (single feature) magic (some callback)) else single

/-- The users that are subscribed to after a call of `subscribe`, which tells whether there is one more. -/
def claimUser (multi : ℕ → Bool) (address : ℕ) (subscribed : Bool) : ℕ → Bool :=
  if subscribed then Function.update multi address true else multi

def release (w : SensorSubscriptions ι) (given : SensorUser ι → Prop) [DecidablePred given] : ℕ → Bool :=
  fun address => w.multi address && !(w.sensors.users[address]?.any (fun user => given user))

def step (w : SensorSubscriptions ι) : SensorOp ι → SensorSubscriptions ι
  | .subscribeSingle feature sensor callback fail world =>
    if w.sensors.detached feature then w
    else
      let r := subscribeSingle world (registered w.sensors feature callback fail) feature sensor callback fail
      { w with
        sensors := r.2
        single := claim w.single feature sensor.magic callback r.1 }
  | .unsubscribeSingle feature magic world =>
    if w.sensors.detached feature then w
    else
      { w with
        sensors := w.sensors.unsubscribe world feature magic false
        single := Function.update w.single feature (Function.update (w.single feature) magic none) }
  | .subscribe feature param world =>
    if w.sensors.detached feature then w
    else
      let r := wrapSubscribe world (registered w.sensors feature param.callback param.fail) feature param
      { w with
        sensors := r.2
        multi := claimUser w.multi w.sensors.users.length r.1.isSome }
  | .unsubscribe feature fd world =>
    if w.sensors.detached feature then w
    else
      { w with
        sensors := w.sensors.multiUnsubscribe world fd
        multi := w.release (fun user => user.feature = feature ∧ user.fd = fd) }
  | .topicClose address => { w with sensors := w.sensors.topicClose address }
  | .detach feature world =>
    if w.sensors.detached feature then w
    else
      { sensors := w.sensors.onDetached world feature
        single := Function.update w.single feature (fun _ => none)
        multi := w.release (fun user => user.feature = feature) }

/-- Every instance receives just what it is subscribed to by its own calls, each with its callback, and an instance
that is detached receives nothing. No sample comes to a record that was freed: what it would call is anybody's. -/
structure Isolated (w : SensorSubscriptions ι) : Prop where
  single : ∀ feature magic, w.sensors.received feature magic = (w.single feature magic).toList
  multi : ∀ (address : ℕ) user, w.sensors.users[address]? = some user →
    (w.sensors.Reaches user ↔ w.multi address = true)
  detached : ∀ feature, w.sensors.detached feature = true → (∀ magic, w.sensors.received feature magic = []) ∧
    ∀ user ∈ w.sensors.users, user.feature = feature → ¬ w.sensors.Reaches user
  whole : ∀ user ∈ w.sensors.users, user.topic = .running → user.freed = 0
  wholeEvents : ∀ magic event, w.sensors.events magic = some event → event.freed = 0

variable (w : SensorSubscriptions ι)

/-- A subscription of an instance uses a callback, other than its subscription to a sensor and its users of a number. -/
def UsesBesides (feature : ι) (magic : Option SensorMagic) (fd : Option ℤ) (id : ℤ) : Prop :=
  (∃ other, w.single feature other = some id ∧ some other ≠ magic) ∨
    ∃ (address : ℕ) (user : SensorUser ι), w.sensors.users[address]? = some user ∧ w.multi address = true ∧
      user.feature = feature ∧ user.callback = id ∧ some user.fd ≠ fd

def Uses (feature : ι) (id : ℤ) : Prop := w.UsesBesides feature none none id

/-- The framework hands out the number of a callback once: it is registered still, or no record has it. -/
def Handed (feature : ι) (id : ℤ) : Prop :=
  0 < id → w.sensors.live feature id = true ∨
    (∀ magic event, w.sensors.events magic = some event → event.feature = some feature → event.callback ≠ id) ∧
      ∀ user ∈ w.sensors.users, user.feature = feature → user.callback ≠ id

def SingleRefused (sensor : SingleSensor) (callback : ℤ) (world : SensorWorld) : Prop :=
  sensor = .stepCounter ∨ callback ≤ 0 ∨
    (∀ event, w.sensors.events sensor.magic = some event → event.subscribed = false) ∧
      (world.memory = false ∨ world.subscribe = false)

/-- The call of `subscribe` is refused, and its callbacks are removed. -/
def ParamRefused (param : SensorParam) (world : SensorWorld) : Prop :=
  param.callback ≤ 0 ∨ getSensorMagic param.type = none ∨ param.interval ∉ ["low".toList,"mid".toList,"high".toList] ∨
    world.memory = false ∨ world.subscribe = false ∨ world.setInterval = false

/-- The condition on a call for one sensor: where there is a subscription it is the instance's own and runs, and no
callback is removed that another subscription of the instance uses. -/
structure SubscribeMeets (feature : ι) (sensor : SingleSensor) (success failure : ℤ) (world : SensorWorld) : Prop where
  callback : w.Handed feature success
  fail : w.Handed feature failure
  refused : sensor.known = true → w.SingleRefused sensor success world →
    ¬ w.Uses feature success ∧ ¬ w.Uses feature failure
  own : sensor.known = true → 0 < success → ∀ event, w.sensors.events sensor.magic = some event →
    event.subscribed = true → event.feature = some feature ∧ event.topic = .running ∧
      ∀ id, id = event.callback ∨ id = event.fail → success ≠ id ∧ ¬ w.UsesBesides feature (some sensor.magic) none id

def Meets : SensorOp ι → Prop
  | .subscribeSingle feature sensor callback fail world =>
    w.sensors.detached feature = false → w.SubscribeMeets feature sensor callback fail world
  | .unsubscribeSingle feature magic _ =>
    w.sensors.detached feature = false → ∀ event, w.sensors.events magic = some event →
      (∀ other, other ≠ feature → w.single other magic = none) ∧
        ∀ id, id = event.callback ∨ id = event.fail → ¬ w.UsesBesides feature (some magic) none id
  | .subscribe feature param world =>
    w.sensors.detached feature = false → w.Handed feature param.callback ∧ w.Handed feature param.fail ∧
      (ParamRefused param world → ¬ w.Uses feature param.callback ∧ ¬ w.Uses feature param.fail) ∧
        (world.setInterval = true ∨ ParamRefused param { world with setInterval := true })
  | .unsubscribe feature fd _ =>
    w.sensors.detached feature = false → ∀ (address : ℕ) user, w.sensors.users[address]? = some user →
      user.listed = true → user.fd = fd → (w.multi address = true → user.feature = feature) ∧
        ∀ id, id = user.callback ∨ id = user.fail → ¬ w.UsesBesides user.feature none
          (if user.feature = feature then some fd else none) id
  | .topicClose address => ∀ user, w.sensors.users[address]? = some user → user.topic = .closing →
      0 < user.complete → ¬ w.Uses user.feature user.complete
  | .detach feature _ =>
    w.sensors.detached feature = false → ∀ other, other ≠ feature → (∀ magic, w.single other magic = none) ∧
      ∀ (address : ℕ) user, w.sensors.users[address]? = some user → user.feature = other → w.multi address = false

/-- The records and the subscriptions by own calls agree, a record that is lost or has no subscription is quiet, and
an instance that is detached has no callback. -/
structure Sync : Prop where
  eventOwn : ∀ magic event feature, w.sensors.events magic = some event → event.topic = .running →
    event.feature = some feature → w.sensors.live feature event.callback = true →
      w.single feature magic = some event.callback
  ownEvent : ∀ feature magic id, w.single feature magic = some id → ∃ event, w.sensors.events magic = some event ∧
    event.topic = .running ∧ event.feature = some feature ∧ event.callback = id ∧ w.sensors.live feature id = true
  userOwn : ∀ (address : ℕ) user, w.sensors.users[address]? = some user → w.sensors.Reaches user →
    w.multi address = true
  ownUser : ∀ address, w.multi address = true → ∃ user, w.sensors.users[address]? = some user ∧
    w.sensors.Reaches user ∧ user.listed = true
  idle : ∀ magic event, w.sensors.events magic = some event → event.subscribed = false → event.topic ≠ .running
  dropped : ∀ event ∈ w.sensors.dropped, event.topic = .running → event.feature = none
  deaf : ∀ feature id, w.sensors.detached feature = true → w.sensors.live feature id = false
  positive : ∀ feature id, w.sensors.live feature id = true → 0 < id
  whole : ∀ user ∈ w.sensors.users, user.topic = .running → user.freed = 0
  wholeEvents : ∀ magic event, w.sensors.events magic = some event → event.freed = 0

variable {w}

theorem Sync.received_eq (h : w.Sync) (feature : ι) (magic : SensorMagic) :
    w.sensors.received feature magic = (w.single feature magic).toList := by
  have hdropped : (w.sensors.dropped.filter (fun event => event.magic = magic)).filter (fun event =>
      event.topic = .running ∧ event.feature = some feature ∧ w.sensors.live feature event.callback) = [] := by
    apply List.filter_eq_nil_iff.mpr
    intro event hevent hreached
    have hfeature := h.dropped event (List.mem_filter.mp hevent).1
    simp_all
  simp only [received,List.filter_append,hdropped,List.append_nil]
  cases hsingle : w.single feature magic with
  | some id =>
    obtain ⟨event,hevent,htopic,hfeature,rfl,hlive⟩ := h.ownEvent feature magic id hsingle
    simp [hevent,htopic,hfeature,hlive]
  | none =>
    cases hevent : w.sensors.events magic with
    | none => simp
    | some event =>
      have hquiet : ¬ (event.topic = .running ∧ event.feature = some feature ∧
          w.sensors.live feature event.callback = true) := by
        rintro ⟨htopic,hfeature,hlive⟩
        have hown := h.eventOwn magic event feature hevent htopic hfeature hlive
        rw [hsingle] at hown
        cases hown
      simp [hquiet]

theorem Sync.isolated (h : w.Sync) : w.Isolated := by
  refine ⟨h.received_eq,fun address user huser => ?_,fun feature hdetached => ⟨fun magic => ?_,?_⟩,h.whole,h.wholeEvents⟩
  · constructor
    · exact h.userOwn address user huser
    · intro hown
      obtain ⟨user',huser',hreaches,-⟩ := h.ownUser address hown
      obtain rfl := Option.some.inj (huser.symm.trans huser')
      exact hreaches
  · apply List.map_eq_nil_iff.mpr
    apply List.filter_eq_nil_iff.mpr
    intro event _ hreached
    simp [h.deaf feature event.callback hdetached] at hreached
  · rintro user - rfl hreaches
    have hdeaf := h.deaf user.feature user.callback hdetached
    rw [hreaches.2] at hdeaf
    cases hdeaf

variable {feature : ι}

theorem Sync.register (h : w.Sync) {id : ℤ} (hhanded : w.Handed feature id)
    (hdetached : w.sensors.detached feature = false) :
    Sync { w with sensors := { w.sensors with live := LiveCallbacks.register w.sensors.live feature id } } := by
  constructor
  · intro magic event other hevent htopic hfeature hlive
    rcases (register_iff ..).mp hlive with hold | ⟨rfl,rfl,hpositive⟩
    · exact h.eventOwn magic event other hevent htopic hfeature hold
    · rcases hhanded hpositive with hold | ⟨hnone,-⟩
      · exact h.eventOwn magic event other hevent htopic hfeature hold
      · exact absurd rfl (hnone magic event hevent hfeature)
  · intro other magic n hsingle
    obtain ⟨event,hevent,htopic,hfeature,hcallback,hlive⟩ := h.ownEvent other magic n hsingle
    exact ⟨event,hevent,htopic,hfeature,hcallback,(register_iff ..).mpr (.inl hlive)⟩
  · rintro address user huser ⟨htopic,hlive⟩
    rcases (register_iff ..).mp hlive with hold | ⟨hfeature,hcallback,hpositive⟩
    · exact h.userOwn address user huser ⟨htopic,hold⟩
    · rcases hhanded hpositive with hold | ⟨-,hnone⟩
      · rw [← hfeature,← hcallback] at hold
        exact h.userOwn address user huser ⟨htopic,hold⟩
      · exact absurd hcallback (hnone user (List.mem_of_getElem? huser) hfeature)
  · intro address hmulti
    obtain ⟨user,huser,⟨htopic,hlive⟩,hlisted⟩ := h.ownUser address hmulti
    exact ⟨user,huser,⟨htopic,(register_iff ..).mpr (.inl hlive)⟩,hlisted⟩
  · exact h.idle
  · exact h.dropped
  · intro other n hother
    have hold := h.deaf other n hother
    by_contra hlive
    rcases (register_iff ..).mp (Bool.of_not_eq_false hlive) with hlive | ⟨rfl,-,-⟩
    · rw [hold] at hlive
      cases hlive
    · rw [hdetached] at hother
      cases hother
  · intro other n hlive
    rcases (register_iff ..).mp hlive with hlive | ⟨-,rfl,hpositive⟩
    · exact h.positive other n hlive
    · exact hpositive
  · exact h.whole
  · exact h.wholeEvents

omit [DecidableEq ι] in
theorem Sync.restrict (h : w.Sync) {live : ι → ℤ → Bool} {single : ι → SensorMagic → Option ℤ} {multi : ℕ → Bool}
    (hlive : ∀ feature id, live feature id = true → w.sensors.live feature id = true)
    (hsingle : ∀ feature magic id, single feature magic = some id ↔
      w.single feature magic = some id ∧ live feature id = true)
    (hmulti : ∀ (address : ℕ) user, w.sensors.users[address]? = some user →
      (multi address = true ↔ w.multi address = true ∧ live user.feature user.callback = true))
    (hnone : ∀ address, multi address = true → w.multi address = true) :
    Sync ⟨{ w.sensors with live := live },single,multi⟩ := by
  constructor
  · intro magic event feature hevent htopic hfeature hheard
    exact (hsingle ..).mpr ⟨h.eventOwn magic event feature hevent htopic hfeature (hlive _ _ hheard),hheard⟩
  · intro feature magic id hown
    obtain ⟨hold,hheard⟩ := (hsingle ..).mp hown
    obtain ⟨event,hevent,htopic,hfeature,hcallback,-⟩ := h.ownEvent feature magic id hold
    exact ⟨event,hevent,htopic,hfeature,hcallback,hheard⟩
  · rintro address user huser ⟨htopic,hheard⟩
    exact (hmulti address user huser).mpr ⟨h.userOwn address user huser ⟨htopic,hlive _ _ hheard⟩,hheard⟩
  · intro address hown
    obtain ⟨user,huser,⟨htopic,-⟩,hlisted⟩ := h.ownUser address (hnone address hown)
    exact ⟨user,huser,⟨htopic,((hmulti address user huser).mp hown).2⟩,hlisted⟩
  · exact h.idle
  · exact h.dropped
  · intro feature id hdetached
    have hold := h.deaf feature id hdetached
    by_contra hheard
    have hold' := hlive feature id (Bool.of_not_eq_false hheard)
    rw [hold] at hold'
    cases hold'
  · exact fun feature id hheard => h.positive feature id (hlive feature id hheard)
  · exact h.whole
  · exact h.wholeEvents

theorem Handed.register {feature other : ι} {id n : ℤ} (h : w.Handed feature id) :
    Handed { w with sensors := { w.sensors with live := LiveCallbacks.register w.sensors.live other n } } feature id := by
  intro hpositive
  rcases h hpositive with hlive | hnone
  · exact .inl ((register_iff ..).mpr (.inl hlive))
  · exact .inr hnone

variable {callback fail : ℤ}

theorem Sync.registered (h : w.Sync) (hcallback : w.Handed feature callback)
    (hfail : w.Handed feature fail) (hdetached : w.sensors.detached feature = false) :
    Sync { w with sensors := SensorSubscriptions.registered w.sensors feature callback fail } :=
  (h.register hcallback hdetached).register hfail.register hdetached

variable {magic : SensorMagic}

omit [DecidableEq ι] in
theorem Sync.live_of_single (h : w.Sync) {id : ℤ}
    (hsingle : w.single feature magic = some id) : w.sensors.live feature id = true := by
  obtain ⟨event,-,-,-,-,hlive⟩ := h.ownEvent feature magic id hsingle
  exact hlive

variable {address : ℕ} {user : SensorUser ι}

omit [DecidableEq ι] in
theorem Sync.live_of_multi (h : w.Sync) (huser : w.sensors.users[address]? = some user)
    (hmulti : w.multi address = true) : w.sensors.live user.feature user.callback = true := by
  obtain ⟨user',huser',hreaches,-⟩ := h.ownUser address hmulti
  obtain rfl := Option.some.inj (huser.symm.trans huser')
  exact hreaches.2

omit [DecidableEq ι] in
theorem uses_of_single {id : ℤ} (h : w.single feature magic = some id) :
    w.Uses feature id :=
  .inl ⟨magic,h,by simp⟩

omit [DecidableEq ι] in
theorem uses_of_multi (huser : w.sensors.users[address]? = some user)
    (hmulti : w.multi address = true) : w.Uses user.feature user.callback :=
  .inr ⟨address,user,huser,hmulti,rfl,rfl,by simp⟩

omit [DecidableEq ι] in
theorem Sync.removeUnused (h : w.Sync) {live : ι → ℤ → Bool}
    (hlive : ∀ feature id, live feature id = true → w.sensors.live feature id = true)
    (hunused : ∀ feature id, w.Uses feature id → w.sensors.live feature id = true → live feature id = true) :
    Sync { w with sensors := { w.sensors with live := live } } := by
  apply h.restrict hlive
  · intro feature magic id
    exact ⟨fun hsingle => ⟨hsingle,hunused _ _ (uses_of_single hsingle) (h.live_of_single hsingle)⟩,fun hsingle => hsingle.1⟩
  · intro address user huser
    exact ⟨fun hmulti => ⟨hmulti,hunused _ _ (uses_of_multi huser hmulti) (h.live_of_multi huser hmulti)⟩,
      fun hmulti => hmulti.1⟩
  · exact fun address hmulti => hmulti

theorem Sync.refuse (h : w.Sync) (hcallback : ¬ w.Uses feature callback)
    (hfail : ¬ w.Uses feature fail) : Sync { w with sensors := w.sensors.refuse feature callback fail } := by
  apply h.removeUnused
  · intro other id hlive
    exact ((removeAll_iff ..).mp hlive).1
  · intro other id huses hlive
    refine (removeAll_iff ..).mpr ⟨hlive,?_⟩
    rintro ⟨rfl,rfl | rfl⟩
    · exact hcallback huses
    · exact hfail huses

omit [DecidableEq ι] in
/-- What holds of every record still does, when it holds of the one that is put. -/
theorem forall_update {events : SensorMagic → Option (SensorEvent ι)} {p : SensorEvent ι → Prop}
    (h : ∀ other event, events other = some event → p event) {new : Option (SensorEvent ι)}
    (hnew : ∀ event, new = some event → p event) :
    ∀ other event, Function.update events magic new other = some event → p event := by
  intro other event hevent
  by_cases hother : other = magic
  · subst hother
    exact hnew event (by simpa using hevent)
  · rw [Function.update_of_ne hother] at hevent
    exact h other event hevent

omit [DecidableEq ι] in
theorem Sync.dropIdle (h : w.Sync)
    (hidle : ∀ event, w.sensors.events magic = some event → event.subscribed = false) (quiet : List (SensorEvent ι))
    (hquiet : ∀ event ∈ quiet, event.topic ≠ .running) :
    Sync { w with sensors := { w.sensors with
      events := Function.update w.sensors.events magic none
      dropped := w.sensors.dropped ++ (w.sensors.events magic).toList ++ quiet } } := by
  constructor
  · intro other event feature hevent
    by_cases hother : other = magic
    · subst hother
      simp at hevent
    · simp only [Function.update_of_ne hother] at hevent
      exact h.eventOwn other event feature hevent
  · intro feature other id hsingle
    obtain ⟨event,hevent,htopic,hrest⟩ := h.ownEvent feature other id hsingle
    refine ⟨event,?_,htopic,hrest⟩
    have hother : other ≠ magic := by
      rintro rfl
      exact h.idle other event hevent (hidle event hevent) htopic
    simpa only [Function.update_of_ne hother] using hevent
  · exact h.userOwn
  · exact h.ownUser
  · exact forall_update h.idle nofun
  · intro event hevent htopic
    simp only [List.mem_append,Option.mem_toList] at hevent
    rcases hevent with (hevent | hevent) | hevent
    · exact h.dropped event hevent htopic
    · exact absurd htopic (h.idle magic event hevent (hidle event hevent))
    · exact absurd htopic (hquiet event hevent)
  · exact h.deaf
  · exact h.positive
  · exact h.whole
  · exact forall_update h.wholeEvents nofun

omit [DecidableEq ι] in
theorem wholeEvents_update {events : SensorMagic → Option (SensorEvent ι)} {magic : SensorMagic}
    {event : SensorEvent ι} (h : ∀ magic event, events magic = some event → event.freed = 0) (hfreed : event.freed = 0) :
    ∀ other event', Function.update events magic (some event) other = some event' → event'.freed = 0 := by
  refine forall_update h (fun event' hevent => ?_)
  obtain rfl := Option.some.inj hevent
  exact hfreed

/-- A record with a subscription comes into the table, or gets another callback there. -/
theorem Sync.putEvent (h : w.Sync) (magic : SensorMagic) (event : SensorEvent ι)
    (hfree : ∀ other, other ≠ feature → w.single other magic = none) (hsubscribed : event.subscribed = true)
    (htopic : event.topic = .running) (hfeature : event.feature = some feature)
    (hlive : w.sensors.live feature event.callback = true) (hfreed : event.freed = 0) :
    Sync { w with
      sensors := { w.sensors with events := Function.update w.sensors.events magic (some event) }
      single := Function.update w.single feature (Function.update (w.single feature) magic (some event.callback)) } := by
  constructor
  · intro other event' feature' hevent hrunning hfeature' hheard
    by_cases hother : other = magic
    · subst hother
      obtain rfl : event = event' := by simpa using hevent
      obtain rfl := Option.some.inj (hfeature.symm.trans hfeature')
      simp
    · simp only [Function.update_of_ne hother] at hevent
      have hold := h.eventOwn other event' feature' hevent hrunning hfeature' hheard
      by_cases hsame : feature' = feature
      · subst hsame
        simpa [Function.update_of_ne hother] using hold
      · simpa [Function.update_of_ne hsame] using hold
  · intro other magic' id hsingle
    by_cases hother : magic' = magic
    · subst hother
      by_cases hsame : other = feature
      · subst hsame
        obtain rfl : event.callback = id := by simpa using hsingle
        exact ⟨event,by simp,htopic,hfeature,rfl,hlive⟩
      · simp [Function.update_of_ne hsame,hfree other hsame] at hsingle
    · have hold : w.single other magic' = some id := by
        by_cases hsame : other = feature
        · subst hsame
          simpa [Function.update_of_ne hother] using hsingle
        · simpa [Function.update_of_ne hsame] using hsingle
      obtain ⟨old,hevent,hrest⟩ := h.ownEvent other magic' id hold
      exact ⟨old,by simpa only [Function.update_of_ne hother] using hevent,hrest⟩
  · exact h.userOwn
  · exact h.ownUser
  · refine forall_update h.idle (fun event' hevent hidle => ?_)
    obtain rfl := Option.some.inj hevent
    rw [hsubscribed] at hidle
    cases hidle
  · exact h.dropped
  · exact h.deaf
  · exact h.positive
  · exact h.whole
  · exact wholeEvents_update h.wholeEvents hfreed

omit [DecidableEq ι] in
theorem Sync.free_of_none (h : w.Sync) (hnone : w.sensors.events magic = none) (feature : ι) :
    w.single feature magic = none := by
  by_contra hsome
  obtain ⟨id,hid⟩ := Option.ne_none_iff_exists'.mp hsome
  obtain ⟨event,hevent,-⟩ := h.ownEvent feature magic id hid
  rw [hnone] at hevent
  cases hevent

variable {event : SensorEvent ι}

omit [DecidableEq ι] in
theorem Sync.free_of_feature (h : w.Sync) {feature other : ι}
    (hevent : w.sensors.events magic = some event) (hfeature : event.feature = some feature) (hother : other ≠ feature) :
    w.single other magic = none := by
  by_contra hsome
  obtain ⟨id,hid⟩ := Option.ne_none_iff_exists'.mp hsome
  obtain ⟨event',hevent',-,hfeature',-⟩ := h.ownEvent other magic id hid
  obtain rfl := Option.some.inj (hevent.symm.trans hevent')
  exact hother (Option.some.inj (hfeature'.symm.trans hfeature))

variable {world : SensorWorld}

/-- `subscribe` without a subscription in the table. -/
theorem Sync.subscribeNew (h : w.Sync)
    (hidle : ∀ event, w.sensors.events magic = some event → event.subscribed = false)
    (hlive : w.sensors.live feature callback = true)
    (hrefused : world.memory = false ∨ world.subscribe = false → ¬ w.Uses feature callback ∧ ¬ w.Uses feature fail) :
    Sync { w with
      sensors := (Sensors.subscribeNew world w.sensors feature magic callback fail).2
      single := claim w.single feature magic callback
        (Sensors.subscribeNew world w.sensors feature magic callback fail).1 } := by
  simp only [Sensors.subscribeNew]
  by_cases hmemory : world.memory = false
  · rw [if_pos hmemory]
    obtain ⟨hcallback,hfail⟩ := hrefused (.inl hmemory)
    exact h.refuse hcallback hfail
  · rw [if_neg hmemory]
    by_cases hsubscribe : world.subscribe = false
    · rw [if_pos hsubscribe]
      obtain ⟨hcallback,hfail⟩ := hrefused (.inr hsubscribe)
      apply (h.refuse hcallback hfail).dropIdle hidle [_]
      simp
    · rw [if_neg hsubscribe]
      have hdropped := h.dropIdle hidle [] (by simp)
      have hput := hdropped.putEvent magic ⟨magic,some feature,callback,fail,true,.running,0⟩
        (fun other _ => hdropped.free_of_none (by simp) other) rfl rfl rfl hlive rfl
      simpa [claim] using hput

omit [DecidableEq ι] in
theorem usesBesides_of_single {magic other : SensorMagic} {fd : Option ℤ} {id : ℤ}
    (h : w.single feature other = some id) (hother : other ≠ magic) : w.UsesBesides feature (some magic) fd id :=
  .inl ⟨other,h,by simpa using hother⟩

omit [DecidableEq ι] in
theorem usesBesides_of_multi {magic : Option SensorMagic}
    (huser : w.sensors.users[address]? = some user) (hmulti : w.multi address = true) :
    w.UsesBesides user.feature magic none user.callback :=
  .inr ⟨address,user,huser,hmulti,rfl,rfl,by simp⟩

/-- `subscribe` with a subscription of the instance in the table. -/
theorem Sync.subscribeAgain (h : w.Sync)
    (hevent : w.sensors.events magic = some event) (hsubscribed : event.subscribed = true)
    (htopic : event.topic = .running) (hfeature : event.feature = some feature)
    (hlive : w.sensors.live feature callback = true)
    (hother : ∀ id, id = event.callback ∨ id = event.fail → callback ≠ id ∧
      ¬ w.UsesBesides feature (some magic) none id) :
    Sync { w with
      sensors := { w.sensors with
        events := Function.update w.sensors.events magic (some { event with callback := callback, fail := fail })
        live := removeAll w.sensors.live feature event.callback event.fail }
      single := Function.update w.single feature (Function.update (w.single feature) magic (some callback)) } := by
  have hput := h.putEvent magic { event with callback := callback, fail := fail }
    (fun _ hne => h.free_of_feature hevent hfeature hne) hsubscribed htopic hfeature hlive
    (h.wholeEvents magic event hevent)
  refine hput.removeUnused ?_ ?_
  · intro other id hheard
    exact ((removeAll_iff ..).mp hheard).1
  · intro other id huses hheard
    refine (removeAll_iff ..).mpr ⟨hheard,?_⟩
    rintro ⟨rfl,hid⟩
    obtain ⟨hne,hunused⟩ := hother id hid
    rcases huses with ⟨magic',hsingle,-⟩ | ⟨address,user,huser,hmulti,rfl,rfl,-⟩
    · by_cases hmagic : magic' = magic
      · subst hmagic
        exact hne (by simpa using hsingle)
      · simp only [Function.update_self,Function.update_of_ne hmagic] at hsingle
        exact hunused (usesBesides_of_single hsingle hmagic)
    · exact hunused (usesBesides_of_multi huser hmulti)

/-- `subscribe` under its condition. -/
theorem Sync.subscribe (h : w.Sync) (hrefused : w.sensors.live feature callback = false ∨
      (∀ event, w.sensors.events magic = some event → event.subscribed = false) ∧
        (world.memory = false ∨ world.subscribe = false) → ¬ w.Uses feature callback ∧ ¬ w.Uses feature fail)
    (hown : w.sensors.live feature callback = true → ∀ event, w.sensors.events magic = some event →
      event.subscribed = true → event.feature = some feature ∧ event.topic = .running ∧
        ∀ id, id = event.callback ∨ id = event.fail → callback ≠ id ∧ ¬ w.UsesBesides feature (some magic) none id) :
    Sync { w with
      sensors := (Sensors.subscribe world w.sensors feature magic callback fail).2
      single := claim w.single feature magic callback
        (Sensors.subscribe world w.sensors feature magic callback fail).1 } := by
  by_cases hlive : w.sensors.live feature callback = false
  · simp only [Sensors.subscribe,hlive,if_true]
    obtain ⟨hcallback,hfail⟩ := hrefused (.inl hlive)
    exact h.refuse hcallback hfail
  · have hheard := Bool.of_not_eq_false hlive
    by_cases hidle : ∀ event, w.sensors.events magic = some event → event.subscribed = false
    · rw [Sensors.subscribe_of_idle hheard hidle]
      exact h.subscribeNew hidle hheard (fun hfailed => hrefused (.inr ⟨hidle,hfailed⟩))
    · push Not at hidle
      obtain ⟨event,hevent,hsubscribed⟩ := hidle
      have hsubscribed := Bool.of_not_eq_false hsubscribed
      obtain ⟨hfeature,htopic,hother⟩ := hown hheard event hevent hsubscribed
      rw [Sensors.subscribe_of_subscribed hheard hevent hsubscribed]
      exact h.subscribeAgain hevent hsubscribed htopic hfeature hheard hother

theorem live_registered {s : Sensors ι} (hpositive : 0 < callback) :
    (SensorSubscriptions.registered s feature callback fail).live feature callback = true := by
  simp [SensorSubscriptions.registered,hpositive]

theorem nonpositive_of_registered {s : Sensors ι}
    (hlive : (SensorSubscriptions.registered s feature callback fail).live feature callback = false) : callback ≤ 0 := by
  by_contra hpositive
  rw [live_registered (by omega)] at hlive
  cases hlive

theorem Sync.positive_of_registered (h : w.Sync)
    (hlive : (SensorSubscriptions.registered w.sensors feature callback fail).live feature callback = true) :
    0 < callback := by
  rcases (register_iff ..).mp hlive with hold | ⟨-,rfl,hpositive⟩
  · rcases (register_iff ..).mp hold with hold | ⟨-,-,hpositive⟩
    · exact h.positive feature callback hold
    · exact hpositive
  · exact hpositive

omit [DecidableEq ι] in
theorem Sync.not_uses_zero (h : w.Sync) (feature : ι) : ¬ w.Uses feature 0 := by
  rintro (⟨magic,hsingle,-⟩ | ⟨address,user,huser,hmulti,-,hzero,-⟩)
  · exact absurd (h.positive _ _ (h.live_of_single hsingle)) (by omega)
  · exact absurd (h.positive _ _ (h.live_of_multi huser hmulti)) (by omega)

theorem Sync.subscribeSingle (h : w.Sync) {sensor : SingleSensor}
    (hdetached : w.sensors.detached feature = false) (hmeets : w.SubscribeMeets feature sensor callback fail world) :
    (w.step (.subscribeSingle feature sensor callback fail world)).Sync := by
  have hregistered := h.registered hmeets.callback hmeets.fail hdetached
  have hcall (known : sensor.known = true) (other : ℤ) (hother : other = fail ∨ other = 0) :
      Sync { w with
        sensors := (Sensors.subscribe world (SensorSubscriptions.registered w.sensors feature callback fail) feature
          sensor.magic callback other).2
        single := claim w.single feature sensor.magic callback
          (Sensors.subscribe world (SensorSubscriptions.registered w.sensors feature callback fail) feature
            sensor.magic callback other).1 } := by
    apply hregistered.subscribe
    · intro hrefused
      have hunused := hmeets.refused known (.inr (hrefused.imp_left nonpositive_of_registered))
      refine ⟨hunused.1,?_⟩
      rcases hother with rfl | rfl
      · exact hunused.2
      · exact h.not_uses_zero feature
    · intro hlive
      exact hmeets.own known (h.positive_of_registered hlive)
  simp only [step,hdetached,Bool.false_eq_true,if_false]
  cases sensor with
  | accelerometer interval =>
    simp only [Sensors.subscribeSingle]
    by_cases hknown : (SingleSensor.accelerometer interval).known = true
    · rw [if_pos hknown]
      exact hcall hknown fail (.inl rfl)
    · rw [if_neg hknown]
      exact hregistered
  | light => exact hcall rfl 0 (.inr rfl)
  | stepCounter =>
    obtain ⟨hcallback,hfail⟩ := hmeets.refused rfl (.inl rfl)
    exact hregistered.refuse hcallback hfail
  | compass => exact hcall rfl fail (.inl rfl)
  | proximity => exact hcall rfl fail (.inl rfl)
  | pressure => exact hcall rfl fail (.inl rfl)
  | ambientTemperature => exact hcall rfl fail (.inl rfl)
  | humidity => exact hcall rfl fail (.inl rfl)

omit [DecidableEq ι] in
theorem endEvent_freed (world : SensorWorld) (magic : SensorMagic) (detach : Bool) (event : SensorEvent ι) :
    (endEvent world magic detach event).freed = event.freed := by
  simp only [endEvent]
  split_ifs <;> rfl

omit [DecidableEq ι] in
theorem endEvent_cases (world : SensorWorld) (magic : SensorMagic) (event : SensorEvent ι) :
    endEvent world magic false event = event ∨ (endEvent world magic false event).topic ≠ .running := by
  simp only [endEvent]
  split_ifs <;> simp_all

omit [DecidableEq ι] in
theorem Sync.stopEvent (h : w.Sync)
    (hfree : ∀ feature, w.single feature magic = none) (htopic : event.topic ≠ .running) (hfreed : event.freed = 0) :
    Sync { w with sensors := { w.sensors with events := Function.update w.sensors.events magic (some event) } } := by
  constructor
  · intro other event' feature hevent hrunning
    by_cases hother : other = magic
    · subst hother
      obtain rfl : event = event' := by simpa using hevent
      exact absurd hrunning htopic
    · simp only [Function.update_of_ne hother] at hevent
      exact h.eventOwn other event' feature hevent hrunning
  · intro feature other id hsingle
    have hother : other ≠ magic := by
      rintro rfl
      rw [hfree feature] at hsingle
      cases hsingle
    obtain ⟨event',hevent,hrest⟩ := h.ownEvent feature other id hsingle
    exact ⟨event',by simpa only [Function.update_of_ne hother] using hevent,hrest⟩
  · exact h.userOwn
  · exact h.ownUser
  · refine forall_update h.idle (fun event' hevent _ => ?_)
    obtain rfl := Option.some.inj hevent
    exact htopic
  · exact h.dropped
  · exact h.deaf
  · exact h.positive
  · exact h.whole
  · exact wholeEvents_update h.wholeEvents hfreed

/-- An instance gives up its subscription to a sensor, with the callbacks of the record. -/
theorem Sync.giveUp (h : w.Sync) (hevent : w.sensors.events magic = some event)
    (hunused : ∀ id, id = event.callback ∨ id = event.fail → ¬ w.UsesBesides feature (some magic) none id) :
    Sync { w with
      sensors := { w.sensors with live := removeAll w.sensors.live feature event.callback event.fail }
      single := Function.update w.single feature (Function.update (w.single feature) magic none) } := by
  apply h.restrict
  · intro other id hlive
    exact ((removeAll_iff ..).mp hlive).1
  · intro other magic' id
    rw [removeAll_iff]
    by_cases hother : other = feature
    · subst hother
      by_cases hmagic : magic' = magic
      · subst hmagic
        refine iff_of_false (by simp) ?_
        rintro ⟨hsingle,-,hkept⟩
        obtain ⟨event',hevent',-,-,rfl,-⟩ := h.ownEvent other magic' id hsingle
        obtain rfl := Option.some.inj (hevent.symm.trans hevent')
        exact hkept ⟨rfl,.inl rfl⟩
      · simp only [Function.update_self,Function.update_of_ne hmagic]
        refine ⟨fun hsingle => ⟨hsingle,h.live_of_single hsingle,?_⟩,fun hsingle => hsingle.1⟩
        rintro ⟨-,hid⟩
        exact hunused id hid (usesBesides_of_single hsingle hmagic)
    · simp only [Function.update_of_ne hother]
      exact ⟨fun hsingle => ⟨hsingle,h.live_of_single hsingle,fun hsame => hother hsame.1⟩,fun hsingle => hsingle.1⟩
  · intro address user huser
    rw [removeAll_iff]
    refine ⟨fun hmulti => ⟨hmulti,h.live_of_multi huser hmulti,?_⟩,fun hmulti => hmulti.1⟩
    rintro ⟨rfl,hid⟩
    exact hunused _ hid (usesBesides_of_multi huser hmulti)
  · exact fun address hmulti => hmulti

/-- A call that ends the subscription to one sensor under its condition. -/
theorem Sync.unsubscribeSingle (h : w.Sync)
    (hdetached : w.sensors.detached feature = false) (hmeets : w.Meets (.unsubscribeSingle feature magic world)) :
    (w.step (.unsubscribeSingle feature magic world)).Sync := by
  have hothers := hmeets hdetached
  simp only [step,hdetached,Bool.false_eq_true,if_false,Sensors.unsubscribe]
  cases hevent : w.sensors.events magic with
  | none =>
    have hsame : Function.update w.single feature (Function.update (w.single feature) magic none) = w.single := by
      funext other magic'
      by_cases hother : other = feature
      · subst hother
        by_cases hmagic : magic' = magic
        · subst hmagic
          simp [h.free_of_none hevent]
        · simp [Function.update_of_ne hmagic]
      · simp [Function.update_of_ne hother]
    rw [hsame]
    exact h
  | some event =>
    obtain ⟨hfree,hunused⟩ := hothers event hevent
    have hgiven := h.giveUp hevent hunused
    dsimp only
    rcases endEvent_cases world magic event with hsame | htopic
    · rw [hsame]
      have hkept : Function.update w.sensors.events magic (some event) = w.sensors.events := by
        rw [← hevent]
        exact Function.update_eq_self magic w.sensors.events
      rw [hkept]
      exact hgiven
    · refine hgiven.stopEvent (fun other => ?_) htopic ((endEvent_freed ..).trans (h.wholeEvents magic event hevent))
      by_cases hother : other = feature
      · subst hother
        simp
      · simpa [Function.update_of_ne hother] using hfree other hother

omit [DecidableEq ι] in
theorem Sync.multi_lt (h : w.Sync) (hmulti : w.multi address = true) : address < w.sensors.users.length := by
  obtain ⟨user,huser,-⟩ := h.ownUser address hmulti
  exact (List.getElem?_eq_some_iff.mp huser).1

omit [DecidableEq ι] in
/-- One more user, which its instance is subscribed to just if a sample reaches it. -/
theorem Sync.addUser (h : w.Sync) {subscribed : Bool}
    (hown : w.sensors.Reaches user ↔ subscribed = true) (hlisted : subscribed = true → user.listed = true)
    (hwhole : user.topic = .running → user.freed = 0) :
    Sync { w with
      sensors := { w.sensors with users := w.sensors.users ++ [user] }
      multi := claimUser w.multi w.sensors.users.length subscribed } := by
  have hmulti (address : ℕ) : claimUser w.multi w.sensors.users.length subscribed address = true ↔
      if address = w.sensors.users.length then subscribed = true else w.multi address = true := by
    by_cases hlast : address = w.sensors.users.length
    · have hnot : w.multi address = false := by
        by_contra hold
        have := h.multi_lt (Bool.of_not_eq_false hold)
        omega
      subst hlast
      cases subscribed <;> simp [claimUser,hnot]
    · cases subscribed <;> simp [claimUser,hlast,Function.update_of_ne]
  constructor
  · exact h.eventOwn
  · exact h.ownEvent
  · intro address user' huser' hreaches
    rw [hmulti]
    by_cases hlast : address = w.sensors.users.length
    · subst hlast
      obtain rfl : user = user' := by simpa using huser'
      rw [if_pos rfl]
      exact hown.mp hreaches
    · rw [if_neg hlast]
      have hlt : address < w.sensors.users.length := by
        have := (List.getElem?_eq_some_iff.mp huser').1
        simp at this
        omega
      rw [List.getElem?_append_left hlt] at huser'
      exact h.userOwn address user' huser' hreaches
  · intro address haddress
    rw [hmulti] at haddress
    by_cases hlast : address = w.sensors.users.length
    · subst hlast
      rw [if_pos rfl] at haddress
      exact ⟨user,by simp,hown.mpr haddress,hlisted haddress⟩
    · rw [if_neg hlast] at haddress
      obtain ⟨user',huser',hrest⟩ := h.ownUser address haddress
      refine ⟨user',?_,hrest⟩
      rwa [List.getElem?_append_left (h.multi_lt haddress)]
  · exact h.idle
  · exact h.dropped
  · exact h.deaf
  · exact h.positive
  · intro user' huser'
    obtain hold | hnew := List.mem_append.mp huser'
    · exact h.whole user' hold
    · rwa [List.mem_singleton.mp hnew]
  · exact h.wholeEvents

omit [DecidableEq ι] in
/-- A call that comes as far as `uv_topic_set_interval`, which fails. -/
theorem not_interval_refused {param : SensorParam} (hpositive : 0 < param.callback)
    (hmagic : getSensorMagic param.type = some magic)
    (hknown : ¬ (param.interval ≠ "low".toList ∧ param.interval ≠ "mid".toList ∧ param.interval ≠ "high".toList))
    (hmemory : ¬ world.memory = false) (hsubscribe : ¬ world.subscribe = false) (hset : world.setInterval = false) :
    ¬ (world.setInterval = true ∨ ParamRefused param { world with setInterval := true }) := by
  have hknown : param.interval ∈ ["low".toList,"mid".toList,"high".toList] := by
    simp only [List.mem_cons,List.not_mem_nil,or_false]
    tauto
  rw [hset]
  rintro (hnot | hnot | hnot | hnot | hnot | hnot | hnot)
  · cases hnot
  · omega
  · rw [hmagic] at hnot
    cases hnot
  · exact hnot hknown
  · exact hmemory hnot
  · exact hsubscribe hnot
  · cases hnot

/-- A call of `subscribe` under its condition. -/
theorem Sync.subscribeMulti (h : w.Sync) {param : SensorParam}
    (hdetached : w.sensors.detached feature = false) (hmeets : w.Meets (.subscribe feature param world)) :
    (w.step (.subscribe feature param world)).Sync := by
  obtain ⟨hcallback,hfail,hunused,hinterval⟩ := hmeets hdetached
  have hregistered := h.registered hcallback hfail hdetached
  have hrefused (hnot : ParamRefused param world) := hregistered.refuse (hunused hnot).1 (hunused hnot).2
  simp only [step,hdetached,Bool.false_eq_true,if_false,wrapSubscribe]
  by_cases hlive : (SensorSubscriptions.registered w.sensors feature param.callback param.fail).live feature
      param.callback = false
  · rw [if_pos hlive]
    exact hrefused (.inl (nonpositive_of_registered hlive))
  · rw [if_neg hlive]
    cases hmagic : getSensorMagic param.type with
    | none => exact hrefused (.inr (.inl hmagic))
    | some magic =>
      simp only
      split_ifs with hknown hmemory hsubscribe hset
      · exact hrefused (.inr (.inr (.inl (by simpa using hknown))))
      · exact hrefused (.inr (.inr (.inr (.inl hmemory))))
      · refine (hrefused (.inr (.inr (.inr (.inr (.inl hsubscribe)))))).addUser ?_ (by simp) (by simp [newUser])
        simp [Reaches,newUser]
      · have hpositive := h.positive_of_registered (Bool.of_not_eq_false hlive)
        exact absurd hinterval (not_interval_refused hpositive hmagic hknown hmemory hsubscribe hset)
      · refine hregistered.addUser ?_ (fun _ => rfl) (fun _ => rfl)
        simpa [Reaches,newUser] using hlive

theorem foldl_removeAll_iff (users : List (SensorUser ι)) (live : ι → ℤ → Bool) (feature : ι) (id : ℤ) :
    users.foldl (fun live user => removeAll live user.feature user.callback user.fail) live feature id = true ↔
      live feature id = true ∧
        ∀ user ∈ users, ¬ (feature = user.feature ∧ (id = user.callback ∨ id = user.fail)) := by
  induction users generalizing live with
  | nil => simp
  | cons user users ih =>
    rw [List.foldl_cons,ih,removeAll_iff]
    simp only [List.mem_cons,forall_eq_or_imp]
    tauto

omit [DecidableEq ι] in
theorem closeUser_eq (world : SensorWorld) (address : ℕ) (user : SensorUser ι) :
    ∃ topic, closeUser world address user = { user with topic := topic } ∧ (topic = .running → user.topic = .running) := by
  simp only [closeUser]
  split_ifs
  · exact ⟨_,rfl,by simp⟩
  · exact ⟨_,rfl,by simp⟩
  · exact ⟨user.topic,rfl,fun h => h⟩

omit [DecidableEq ι] in
/-- Users that nobody is subscribed to are closed, and the others are left alone. -/
theorem Sync.changeUsers (h : w.Sync) {users : List (SensorUser ι)}
    (hkept : ∀ (address : ℕ) user, w.sensors.users[address]? = some user → w.multi address = true →
      users[address]? = some user)
    (hquiet : ∀ (address : ℕ) user, users[address]? = some user → ∃ old, w.sensors.users[address]? = some old ∧
      user.feature = old.feature ∧ user.callback = old.callback ∧
        (user.topic = .running → old.topic = .running ∧ user.freed = old.freed)) :
    Sync { w with sensors := { w.sensors with users := users } } := by
  constructor
  · exact h.eventOwn
  · exact h.ownEvent
  · rintro address user huser ⟨htopic,hlive⟩
    obtain ⟨old,hold,hfeature,hcallback,hrunning⟩ := hquiet address user huser
    simp only [hfeature,hcallback] at hlive
    exact h.userOwn address old hold ⟨(hrunning htopic).1,hlive⟩
  · intro address hmulti
    obtain ⟨user,huser,hrest⟩ := h.ownUser address hmulti
    exact ⟨user,hkept address user huser hmulti,hrest⟩
  · exact h.idle
  · exact h.dropped
  · exact h.deaf
  · exact h.positive
  · intro user huser htopic
    obtain ⟨address,haddress⟩ := List.mem_iff_getElem?.mp huser
    obtain ⟨old,hold,-,-,hrunning⟩ := hquiet address user haddress
    rw [(hrunning htopic).2]
    exact h.whole old (List.mem_of_getElem? hold) (hrunning htopic).1
  · exact h.wholeEvents

omit [DecidableEq ι] in
theorem release_iff {given : SensorUser ι → Prop} [DecidablePred given]
    (huser : w.sensors.users[address]? = some user) :
    w.release given address = true ↔ w.multi address = true ∧ ¬ given user := by
  simp [release,huser]

omit [DecidableEq ι] in
theorem release_le {given : SensorUser ι → Prop} [DecidablePred given]
    (h : w.release given address = true) : w.multi address = true := by
  simp only [release,Bool.and_eq_true] at h
  exact h.1

/-- The callbacks of the entries of a number are removed, and the subscriptions of the instance given up. -/
theorem Sync.giveUpNumber (h : w.Sync) {fd : ℤ}
    (hentries : ∀ (address : ℕ) user, w.sensors.users[address]? = some user → user.listed = true → user.fd = fd →
      (w.multi address = true → user.feature = feature) ∧ ∀ id, id = user.callback ∨ id = user.fail →
        ¬ w.UsesBesides user.feature none (if user.feature = feature then some fd else none) id) :
    Sync { w with
      sensors := { w.sensors with
        live := (w.sensors.users.filter (fun user => user.listed ∧ user.fd = fd)).foldl
          (fun live user => removeAll live user.feature user.callback user.fail) w.sensors.live }
      multi := w.release (fun user => user.feature = feature ∧ user.fd = fd) } := by
  have hentry {user : SensorUser ι} (huser : user ∈ w.sensors.users.filter (fun user => user.listed ∧ user.fd = fd)) :
      ∀ id, id = user.callback ∨ id = user.fail →
        ¬ w.UsesBesides user.feature none (if user.feature = feature then some fd else none) id := by
    obtain ⟨hmem,hboth⟩ := List.mem_filter.mp huser
    obtain ⟨address,haddress⟩ := List.mem_iff_getElem?.mp hmem
    have hboth : user.listed = true ∧ user.fd = fd := by simpa using hboth
    exact (hentries address user haddress hboth.1 hboth.2).2
  apply h.restrict
  · intro other id hlive
    exact ((foldl_removeAll_iff ..).mp hlive).1
  · intro other magic id
    rw [foldl_removeAll_iff]
    refine ⟨fun hsingle => ⟨hsingle,h.live_of_single hsingle,?_⟩,fun hsingle => hsingle.1⟩
    rintro user huser ⟨rfl,hid⟩
    exact hentry huser id hid (.inl ⟨magic,hsingle,by simp⟩)
  · intro address user huser
    rw [foldl_removeAll_iff,release_iff huser]
    constructor
    · rintro ⟨hmulti,hkept⟩
      refine ⟨hmulti,h.live_of_multi huser hmulti,?_⟩
      rintro user' huser' ⟨hfeature,hid⟩
      refine hentry huser' user.callback hid (.inr ⟨address,user,huser,hmulti,hfeature,rfl,?_⟩)
      by_cases hsame : user'.feature = feature
      · rw [if_pos hsame]
        intro hfd
        exact hkept ⟨hfeature.trans hsame,Option.some.inj hfd⟩
      · simp [hsame]
    · rintro ⟨hmulti,-,hkept⟩
      refine ⟨hmulti,?_⟩
      rintro ⟨-,hfd⟩
      obtain ⟨user',huser',-,hlisted⟩ := h.ownUser address hmulti
      obtain rfl := Option.some.inj (huser.symm.trans huser')
      exact hkept user (List.mem_filter.mpr ⟨List.mem_of_getElem? huser,by simp [hlisted,hfd]⟩) ⟨rfl,.inl rfl⟩
  · exact fun address => release_le

/-- A call that ends a subscription by its number under its condition. -/
theorem Sync.unsubscribeMulti (h : w.Sync) {fd : ℤ}
    (hdetached : w.sensors.detached feature = false) (hmeets : w.Meets (.unsubscribe feature fd world)) :
    (w.step (.unsubscribe feature fd world)).Sync := by
  have hentries := hmeets hdetached
  simp only [step,hdetached,Bool.false_eq_true,if_false,multiUnsubscribe]
  apply (h.giveUpNumber hentries).changeUsers
  · intro address user huser hmulti
    obtain ⟨hmulti,hkept⟩ := (release_iff (w := w) huser).mp hmulti
    have hentry : ¬ (user.listed = true ∧ user.fd = fd) := fun hentry =>
      hkept ⟨(hentries address user huser hentry.1 hentry.2).1 hmulti,hentry.2⟩
    simp [huser,hentry]
  · intro address user huser
    simp only [List.getElem?_mapIdx] at huser
    obtain ⟨old,hold,rfl⟩ := Option.map_eq_some_iff.mp huser
    obtain ⟨topic,hclosed,htopic⟩ := closeUser_eq world address old
    refine ⟨old,hold,?_⟩
    split_ifs
    · rw [hclosed]
      exact ⟨rfl,rfl,fun hrunning => ⟨htopic hrunning,rfl⟩⟩
    · exact ⟨rfl,rfl,fun hrunning => ⟨hrunning,rfl⟩⟩

theorem Sync.topicClose (h : w.Sync) (hmeets : w.Meets (.topicClose address)) :
    (w.step (.topicClose address)).Sync := by
  simp only [step,Sensors.topicClose]
  cases huser : w.sensors.users[address]? with
  | none => exact h
  | some user =>
    by_cases hclosing : user.topic = .closing
    · simp only [hclosing,if_true]
      have hremoved : Sync { w with sensors := { w.sensors with
          live := if 0 < user.complete then remove w.sensors.live user.feature user.complete else w.sensors.live } } := by
        split_ifs with hcomplete
        · have hunused := hmeets user huser hclosing hcomplete
          apply h.removeUnused
          · intro feature id hlive
            exact ((remove_iff ..).mp hlive).1
          · intro feature id huses hlive
            refine (remove_iff ..).mpr ⟨hlive,?_⟩
            rintro ⟨rfl,rfl⟩
            exact hunused huses
        · exact h
      apply hremoved.changeUsers
      · intro other user' huser' hmulti
        have hother : address ≠ other := by
          rintro rfl
          obtain ⟨old,hold,⟨hrunning,-⟩,-⟩ := h.ownUser address hmulti
          obtain rfl := Option.some.inj (huser.symm.trans hold)
          rw [hclosing] at hrunning
          cases hrunning
        rwa [List.getElem?_set_ne hother]
      · intro other user' huser'
        by_cases hother : address = other
        · subst hother
          have hlt := (List.getElem?_eq_some_iff.mp huser).1
          rw [List.getElem?_set_self hlt] at huser'
          obtain rfl := Option.some.inj huser'
          exact ⟨user,huser,rfl,rfl,by simp⟩
        · rw [List.getElem?_set_ne hother] at huser'
          exact ⟨user',huser',rfl,rfl,fun hrunning => ⟨hrunning,rfl⟩⟩
    · simp only [hclosing,if_false]
      exact h

omit [DecidableEq ι] in
theorem endEvent_detached (hidle : event.subscribed = false → event.topic ≠ .running)
    (htopic : (endEvent world magic true event).topic = .running) :
    (endEvent world magic true event).feature = none := by
  simp only [endEvent] at htopic ⊢
  split_ifs at htopic ⊢ with hsubscribed
  · exact absurd htopic (hidle hsubscribed)
  all_goals simp_all

/-- The records that the instances have when one of them is detached. -/
structure Detaching (world : SensorWorld) (s t : Sensors ι) : Prop where
  users : t.users = s.users
  live : t.live = s.live
  detached : t.detached = s.detached
  events : ∀ magic event, t.events magic = some event → s.events magic = some event
  dropped : ∀ event ∈ t.dropped, event ∈ s.dropped ∨
    ∃ magic old, s.events magic = some old ∧ event = endEvent world magic true old

theorem Detaching.unsubscribe {s t : Sensors ι} (h : Detaching world s t) (feature : ι)
    (magic : SensorMagic) : Detaching world s (t.unsubscribe world feature magic true) := by
  simp only [Sensors.unsubscribe]
  cases hevent : t.events magic with
  | none => exact h
  | some event =>
    simp only [if_true]
    refine ⟨h.users,h.live,h.detached,?_,?_⟩
    · intro other event' hevent'
      by_cases hother : other = magic
      · subst hother
        simp at hevent'
      · simp only [Function.update_of_ne hother] at hevent'
        exact h.events other event' hevent'
    · intro event' hevent'
      rcases List.mem_append.mp hevent' with hold | hnew
      · exact h.dropped event' hold
      · exact .inr ⟨magic,event,h.events magic event hevent,List.mem_singleton.mp hnew⟩

theorem unsubscribe_events (world : SensorWorld) (s : Sensors ι) (feature : ι) (magic other : SensorMagic) :
    (s.unsubscribe world feature magic true).events other = if other = magic then none else s.events other := by
  simp only [Sensors.unsubscribe]
  cases hevent : s.events magic with
  | none =>
    by_cases hother : other = magic
    · simp [hother,hevent]
    · simp [hother]
  | some event => simp [Function.update_apply]

theorem detaching_foldl (world : SensorWorld) (feature : ι) (sensors : List SensorMagic) {s t : Sensors ι}
    (h : Detaching world s t) : Detaching world s
        (sensors.foldl (fun s magic => s.unsubscribe world feature magic true) t) ∧
      ∀ magic, magic ∈ sensors ∨ t.events magic = none →
        (sensors.foldl (fun s magic => s.unsubscribe world feature magic true) t).events magic = none := by
  induction sensors generalizing t with
  | nil => exact ⟨h,by simp⟩
  | cons sensor sensors ih =>
    obtain ⟨hkept,hnone⟩ := ih (h.unsubscribe feature sensor)
    refine ⟨hkept,fun magic hmagic => hnone magic ?_⟩
    rw [unsubscribe_events]
    by_cases hsame : magic = sensor
    · exact .inr (if_pos hsame)
    · rw [if_neg hsame]
      simpa [hsame] using hmagic

theorem mem_allSensors (magic : SensorMagic) : magic ∈ allSensors := by
  cases magic <;> decide

theorem Sync.detach (h : w.Sync)
    (hdetached : w.sensors.detached feature = false) (hmeets : w.Meets (.detach feature world)) :
    (w.step (.detach feature world)).Sync := by
  have hothers := hmeets hdetached
  simp only [step,hdetached,Bool.false_eq_true,if_false,onDetached]
  have hsame : Detaching world w.sensors w.sensors := ⟨rfl,rfl,rfl,fun _ _ h => h,fun _ h => .inl h⟩
  obtain ⟨hkept,hnone⟩ := detaching_foldl world feature allSensors hsame
  have hunowned (address : ℕ) : w.release (fun user => user.feature = feature) address = false := by
    apply Bool.eq_false_iff.mpr
    intro hmulti
    obtain ⟨user,huser,-⟩ := h.ownUser address (release_le hmulti)
    obtain ⟨hold,hfeature⟩ := (release_iff huser).mp hmulti
    rw [(hothers user.feature hfeature).2 address user huser rfl] at hold
    cases hold
  constructor
  · intro magic event other hevent
    rw [hnone magic (.inl (mem_allSensors magic))] at hevent
    cases hevent
  · intro other magic id hsingle
    by_cases hother : other = feature
    · subst hother
      simp at hsingle
    · simp [Function.update_of_ne hother,(hothers other hother).1] at hsingle
  · rintro address user huser ⟨htopic,hlive⟩
    simp only [Bool.and_eq_true,Bool.not_eq_true',decide_eq_false_iff_not] at hlive
    simp only [List.getElem?_mapIdx] at huser
    obtain ⟨old,hold,rfl⟩ := Option.map_eq_some_iff.mp huser
    obtain ⟨topic,hclosed,hrunning⟩ := closeUser_eq world address old
    have hsame : old.topic = .running ∧ w.sensors.live old.feature old.callback = true ∧ old.feature ≠ feature := by
      split_ifs at htopic hlive
      · rw [hclosed] at htopic hlive
        exact ⟨hrunning htopic,hlive.1,hlive.2⟩
      · exact ⟨htopic,hlive.1,hlive.2⟩
    have hmulti := h.userOwn address old hold ⟨hsame.1,hsame.2.1⟩
    rw [(hothers old.feature hsame.2.2).2 address old hold rfl] at hmulti
    cases hmulti
  · intro address hmulti
    exact absurd hmulti (Bool.eq_false_iff.mp (hunowned address))
  · intro magic event hevent
    rw [hnone magic (.inl (mem_allSensors magic))] at hevent
    cases hevent
  · intro event hevent htopic
    rcases hkept.dropped event hevent with hold | ⟨magic,old,hold,rfl⟩
    · exact h.dropped event hold htopic
    · exact endEvent_detached (h.idle magic old hold) htopic
  · intro other id hother
    by_cases hsame : other = feature
    · simp [hsame]
    · simp only [Function.update_of_ne hsame] at hother
      simp [h.deaf other id hother]
  · intro other id hlive
    simp only [Bool.and_eq_true] at hlive
    exact h.positive other id hlive.1
  · intro user huser htopic
    obtain ⟨address,hlt,rfl⟩ := List.mem_mapIdx.mp huser
    obtain ⟨topic,hclosed,hrunning⟩ := closeUser_eq world address w.sensors.users[address]
    have hold := h.whole _ (List.getElem_mem hlt)
    split_ifs at htopic ⊢
    · rw [hclosed] at htopic ⊢
      exact hold (hrunning htopic)
    · exact hold htopic
  · intro magic event hevent
    rw [hnone magic (.inl (mem_allSensors magic))] at hevent
    cases hevent

/-- Every operation that meets its condition keeps the records and the subscriptions in agreement. -/
theorem Sync.step (h : w.Sync) (op : SensorOp ι) (hmeets : w.Meets op) : (w.step op).Sync := by
  cases op with
  | topicClose address => exact h.topicClose hmeets
  | subscribeSingle feature sensor callback fail world =>
    cases hdetached : w.sensors.detached feature with
    | true => simpa [SensorSubscriptions.step,hdetached] using h
    | false => exact h.subscribeSingle hdetached (hmeets hdetached)
  | unsubscribeSingle feature magic world =>
    cases hdetached : w.sensors.detached feature with
    | true => simpa [SensorSubscriptions.step,hdetached] using h
    | false => exact h.unsubscribeSingle hdetached hmeets
  | subscribe feature param world =>
    cases hdetached : w.sensors.detached feature with
    | true => simpa [SensorSubscriptions.step,hdetached] using h
    | false => exact h.subscribeMulti hdetached hmeets
  | unsubscribe feature fd world =>
    cases hdetached : w.sensors.detached feature with
    | true => simpa [SensorSubscriptions.step,hdetached] using h
    | false => exact h.unsubscribeMulti hdetached hmeets
  | detach feature world =>
    cases hdetached : w.sensors.detached feature with
    | true => simpa [SensorSubscriptions.step,hdetached] using h
    | false => exact h.detach hdetached hmeets

def init : SensorSubscriptions ι := ⟨onCreate,fun _ _ => none,fun _ => false⟩

omit [DecidableEq ι] in
theorem Sync.init : (init : SensorSubscriptions ι).Sync := by
  constructor <;> simp [SensorSubscriptions.init,onCreate]

/-- In every run whose operations meet their conditions, whatever the order of the calls of all instances, every instance
receives just what it has subscribed to by its own calls, and after its detach nothing. -/
theorem isolated_of_meets (ops : List (SensorOp ι)) (h : Transition.Guarded SensorSubscriptions.step Meets init ops) :
    Transition.Always SensorSubscriptions.step Isolated init ops :=
  (h.always (fun _ op hs hmeets => hs.step op hmeets) Sync.init).mono (fun _ hs => hs.isolated)

def workingSensors : SensorWorld := ⟨true,true,true,7,fun _ => true,fun _ => true⟩

/-- Two instances, each with a subscription to a sensor of its own and with the same number for its callback. -/
def twoSensors : List (SensorOp ℕ) :=
  [.subscribeSingle 0 .compass 1 2 workingSensors,.subscribeSingle 1 .light 1 0 workingSensors]

theorem two_sensors_isolated : Transition.Always SensorSubscriptions.step Isolated init twoSensors := by
  apply isolated_of_meets twoSensors
  refine ⟨fun _ => ?_,fun _ => ?_,trivial⟩
  · constructor
    · simp [Handed,init,onCreate]
    · simp [Handed,init,onCreate]
    · simp [SingleRefused,workingSensors]
    · simp [init,onCreate]
  · have hfirst : (init.step (.subscribeSingle 0 .compass 1 2 workingSensors) : SensorSubscriptions ℕ).sensors.events =
        Function.update (fun _ => none) .compa (some ⟨.compa,some 0,1,2,true,.running,0⟩) := rfl
    have husers : (init.step (.subscribeSingle 0 .compass 1 2 workingSensors) : SensorSubscriptions ℕ).sensors.users =
        [] := rfl
    constructor
    · intro _
      refine .inr ⟨fun magic event hevent hfeature => ?_,by simp [husers]⟩
      by_cases hmagic : magic = .compa
      · subst hmagic
        obtain rfl : _ = event := by simpa [hfirst] using hevent
        cases hfeature
      · simp [hfirst,Function.update_of_ne hmagic] at hevent
    · intro hnever
      cases hnever
    · simp [SingleRefused,workingSensors]
    · intro _ _ event hevent
      simp [hfirst,SingleSensor.magic] at hevent

/-- An instance that has no subscription ends that of another. -/
theorem foreign_subscription_ended : ¬ ∀ ops : List (SensorOp ℕ),
    Transition.Always SensorSubscriptions.step Isolated init ops := by
  intro h
  have hlast := (h [.subscribeSingle 0 .compass 1 2 workingSensors,.unsubscribeSingle 1 .compa workingSensors]).last
  exact absurd (hlast.single 0 .compa) (by decide)

end SensorSubscriptions
end FeatureRuntime
