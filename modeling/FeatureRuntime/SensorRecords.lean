import FeatureRuntime.SensorIsolation

/-! The records of `system.sensor` over whole runs: each is freed once, and none while its topic may call back. -/
namespace FeatureRuntime

inductive SensorRecordOp (ι : Type)
  | call (op : SensorOp ι)
  | getRecentData (feature : ι) (param : RecentParam) (world : SensorWorld)
  | topicSample (address : ℕ) (wristUp : Bool) (world : SensorWorld)

/-- A user is still to be freed, by the callback of its topic, which is closing or will be closed by an entry of the
table or by its one sample; or it was freed once, and its topic is closed. -/
def SensorUser.Kept {ι : Type} (user : SensorUser ι) : Prop :=
  user.freed = 0 ∧ (user.topic = .closing ∨ user.listed = true ∧ user.topic.isOpen ∨
    user.oneshot = true ∧ user.topic = .running) ∨ user.freed = 1 ∧ user.topic = .closed

namespace SensorSubscriptions

open Sensors LiveCallbacks

variable {ι : Type} [DecidableEq ι]

def recordStep (w : SensorSubscriptions ι) : SensorRecordOp ι → SensorSubscriptions ι
  | .call op => w.step op
  | .getRecentData feature param world =>
    if w.sensors.detached feature then w
    else
      let s := registered w.sensors feature param.success param.fail
      { w with
        sensors := { s with live := register s.live feature param.complete }.getRecentData world feature param }
  | .topicSample address wristUp world => { w with sensors := w.sensors.topicSample world address wristUp }

/-- Every record is freed once and not before its topic is closed: an event of the table is not freed yet, one that the
table has lost is. An instance that is detached has no topic open and no record in the table. -/
structure Lifetimes (w : SensorSubscriptions ι) : Prop where
  users : ∀ user ∈ w.sensors.users, user.Kept
  events : ∀ magic event, w.sensors.events magic = some event → event.freed = 0
  dropped : ∀ event ∈ w.sensors.dropped, event.freed = 1 ∧ event.topic = .closed
  detachedUsers : ∀ user ∈ w.sensors.users, w.sensors.detached user.feature = true → ¬ user.topic.isOpen
  detachedEvents : ∀ magic event feature, w.sensors.events magic = some event → event.feature = some feature →
    w.sensors.detached feature = false

variable (w : SensorSubscriptions ι)

def KeepsRecords : SensorRecordOp ι → Prop
  | .call (.subscribeSingle feature sensor callback _ world) =>
    w.sensors.detached feature = false → sensor.known = true → sensor ≠ .stepCounter →
      0 < callback → world.memory = true →
        ∀ event, w.sensors.events sensor.magic = some event → event.subscribed = true
  | .call (.unsubscribeSingle _ _ _) => True
  | .call (.subscribe feature param world) =>
    w.sensors.detached feature = false → ParamRefused param { world with setInterval := true } ∨ world.setInterval = true
  | .call (.unsubscribe feature fd world) =>
    w.sensors.detached feature = false → ∀ (address : ℕ) user, w.sensors.users[address]? = some user →
      user.listed = true → user.fd = fd → world.close (.user address) = true
  | .call (.topicClose _) => True
  | .call (.detach feature world) =>
    w.sensors.detached feature = false → (∀ magic, w.sensors.events magic = none) ∧
      ∀ (address : ℕ) user, w.sensors.users[address]? = some user →
        (user.listed = true → world.close (.user address) = true) ∧
          (user.feature = feature → user.oneshot = true → user.topic ≠ .running)
  | .getRecentData feature param world =>
    w.sensors.detached feature = false → param.success ≤ 0 ∨ getSensorMagic param.type = none ∨ world.memory = false ∨
      world.subscribe = true
  | .topicSample address wristUp world => ∀ user, w.sensors.users[address]? = some user → user.topic = .running →
      user.oneshot = true → (user.magic = .wristTilt → wristUp = true) →
        world.close (.user address) = true ∨ world.unsubscribe (.user address) = false

variable {w}

/-- What a call leaves alone: the users, which instances are detached, and callbacks that are not registered. -/
structure Frame (s t : Sensors ι) : Prop where
  users : t.users = s.users
  detached : t.detached = s.detached
  live : ∀ feature id, t.live feature id = true → s.live feature id = true

omit [DecidableEq ι] in
theorem Frame.refl (s : Sensors ι) : Frame s s := ⟨rfl,rfl,fun _ _ h => h⟩

theorem refuse_frame (s : Sensors ι) (feature : ι) (callback fail : ℤ) : Frame s (s.refuse feature callback fail) :=
  ⟨rfl,rfl,fun _ _ h => ((removeAll_iff ..).mp h).1⟩

theorem subscribeNew_frame (world : SensorWorld) (s : Sensors ι) (feature : ι) (magic : SensorMagic)
    (callback fail : ℤ) : Frame s (subscribeNew world s feature magic callback fail).2 := by
  simp only [subscribeNew]
  split_ifs
  · exact refuse_frame s feature callback fail
  · exact ⟨rfl,rfl,(refuse_frame s feature callback fail).live⟩
  · exact ⟨rfl,rfl,fun _ _ h => h⟩

theorem subscribe_frame (world : SensorWorld) (s : Sensors ι) (feature : ι) (magic : SensorMagic)
    (callback fail : ℤ) : Frame s (subscribe world s feature magic callback fail).2 := by
  simp only [subscribe]
  split_ifs
  · exact refuse_frame s feature callback fail
  · cases s.events magic with
    | none => exact subscribeNew_frame world s feature magic callback fail
    | some event =>
      simp only
      split_ifs
      · exact ⟨rfl,rfl,(refuse_frame s feature event.callback event.fail).live⟩
      · exact subscribeNew_frame world s feature magic callback fail

theorem subscribeSingle_frame (world : SensorWorld) (s : Sensors ι) (feature : ι) (sensor : SingleSensor)
    (callback fail : ℤ) : Frame s (subscribeSingle world s feature sensor callback fail).2 := by
  cases sensor with
  | accelerometer interval =>
    simp only [subscribeSingle]
    split_ifs
    · exact subscribe_frame world s feature .accel callback fail
    · exact Frame.refl s
  | stepCounter => exact refuse_frame s feature callback fail
  | _ => exact subscribe_frame world s feature _ callback _

theorem unsubscribe_frame (world : SensorWorld) (s : Sensors ι) (feature : ι) (magic : SensorMagic) :
    Frame s (s.unsubscribe world feature magic false) := by
  simp only [Sensors.unsubscribe]
  cases s.events magic with
  | none => exact Frame.refl s
  | some event => exact ⟨rfl,rfl,(refuse_frame s feature event.callback event.fail).live⟩

section Events

def EventsKept (s : Sensors ι) : Prop :=
  (∀ magic event, s.events magic = some event → event.freed = 0) ∧
    (∀ event ∈ s.dropped, event.freed = 1 ∧ event.topic = .closed) ∧
    ∀ magic event feature, s.events magic = some event → event.feature = some feature → s.detached feature = false

omit [DecidableEq ι] in
theorem update_eq_some_iff (events : SensorMagic → Option (SensorEvent ι)) (magic other : SensorMagic)
    (new event : SensorEvent ι) : Function.update events magic (some new) other = some event ↔
      other = magic ∧ new = event ∨ other ≠ magic ∧ events other = some event := by
  by_cases h : other = magic
  · subst h
    simp
  · simp [h,Function.update_of_ne]

omit [DecidableEq ι] in
theorem events_of_update {events : SensorMagic → Option (SensorEvent ι)} {magic other : SensorMagic}
    {event : SensorEvent ι} (h : Function.update events magic none other = some event) : events other = some event := by
  by_cases hother : other = magic
  · subst hother
    simp at h
  · rwa [Function.update_of_ne hother] at h

variable {world : SensorWorld} {magic : SensorMagic} {s : Sensors ι}

theorem subscribeNew_kept_iff {feature : ι}
    {callback fail : ℤ} (h : EventsKept s) (hdetached : s.detached feature = false) :
    EventsKept (subscribeNew world s feature magic callback fail).2 ↔
      (world.memory = true → s.events magic = none) := by
  obtain ⟨hevents,hdropped,hfeatures⟩ := h
  have hlost (quiet : List (SensorEvent ι)) (hquiet : ∀ event ∈ quiet, event.freed = 1 ∧ event.topic = .closed) :
      (∀ event ∈ s.dropped ++ (s.events magic).toList ++ quiet, event.freed = 1 ∧ event.topic = .closed) ↔
        s.events magic = none := by
    constructor
    · intro h
      by_contra hsome
      obtain ⟨event,hevent⟩ := Option.ne_none_iff_exists'.mp hsome
      have hfreed := (h event (by simp [hevent])).1
      rw [hevents magic event hevent] at hfreed
      cases hfreed
    · intro hnone event hevent
      simp only [hnone,Option.toList_none,List.append_nil,List.mem_append] at hevent
      exact hevent.elim (hdropped event) (hquiet event)
  simp only [subscribeNew]
  split_ifs with hmemory hsubscribe
  · exact iff_of_true ⟨hevents,hdropped,hfeatures⟩ (by simp [hmemory])
  · rw [Bool.not_eq_false] at hmemory
    simp only [hmemory,forall_const]
    rw [← hlost [⟨magic,some feature,callback,fail,true,.closed,1⟩] (by simp)]
    refine ⟨fun h => h.2.1,fun h => ⟨fun other event hevent => ?_,h,fun other event feature' hevent => ?_⟩⟩
    · exact hevents other event (events_of_update hevent)
    · exact hfeatures other event feature' (events_of_update hevent)
  · rw [Bool.not_eq_false] at hmemory
    simp only [hmemory,forall_const]
    rw [← hlost [] (by simp),List.append_nil]
    refine ⟨fun h => h.2.1,fun h => ⟨fun other event hevent => ?_,h,fun other event feature' hevent hfeature => ?_⟩⟩
    · rcases (update_eq_some_iff ..).mp hevent with ⟨-,rfl⟩ | ⟨-,hold⟩
      · rfl
      · exact hevents other event hold
    · rcases (update_eq_some_iff ..).mp hevent with ⟨-,rfl⟩ | ⟨-,hold⟩
      · obtain rfl := Option.some.inj hfeature
        exact hdetached
      · exact hfeatures other event feature' hold hfeature

/-- A subscription is kept unless it takes the place of a record that has none. -/
theorem subscribe_kept_iff {feature : ι}
    {callback fail : ℤ} (h : EventsKept s) (hdetached : s.detached feature = false) :
    EventsKept (subscribe world s feature magic callback fail).2 ↔
      (s.live feature callback = true → world.memory = true →
        ∀ event, s.events magic = some event → event.subscribed = true) := by
  obtain ⟨hevents,hdropped,hfeatures⟩ := h
  by_cases hlive : s.live feature callback = false
  · simp only [subscribe,hlive,if_true]
    exact iff_of_true ⟨hevents,hdropped,hfeatures⟩ (by simp)
  · have hheard := Bool.of_not_eq_false hlive
    by_cases hidle : ∀ event, s.events magic = some event → event.subscribed = false
    · rw [subscribe_of_idle hheard hidle,subscribeNew_kept_iff ⟨hevents,hdropped,hfeatures⟩ hdetached]
      constructor
      · intro h _ hmemory event hevent
        rw [h hmemory] at hevent
        cases hevent
      · intro h hmemory
        by_contra hsome
        obtain ⟨event,hevent⟩ := Option.ne_none_iff_exists'.mp hsome
        have hsubscribed := h hheard hmemory event hevent
        rw [hidle event hevent] at hsubscribed
        cases hsubscribed
    · push Not at hidle
      obtain ⟨old,hold,hsubscribed⟩ := hidle
      have hsubscribed := Bool.of_not_eq_false hsubscribed
      rw [subscribe_of_subscribed hheard hold hsubscribed]
      refine iff_of_true ⟨fun other event hevent => ?_,hdropped,fun other event feature' hevent hfeature => ?_⟩ ?_
      · rcases (update_eq_some_iff ..).mp hevent with ⟨-,rfl⟩ | ⟨-,hold'⟩
        · exact hevents magic old hold
        · exact hevents other event hold'
      · rcases (update_eq_some_iff ..).mp hevent with ⟨-,rfl⟩ | ⟨-,hold'⟩
        · exact hfeatures magic old feature' hold hfeature
        · exact hfeatures other event feature' hold' hfeature
      · intro _ _ event hevent
        obtain rfl := Option.some.inj (hold.symm.trans hevent)
        exact hsubscribed

omit [DecidableEq ι] in
theorem endEvent_feature (world : SensorWorld) (magic : SensorMagic) (event : SensorEvent ι) :
    (endEvent world magic false event).feature = event.feature := by
  simp only [endEvent,Bool.false_eq_true,if_false]
  split_ifs <;> rfl

theorem unsubscribe_kept {feature : ι} (h : EventsKept s) : EventsKept (s.unsubscribe world feature magic false) := by
  obtain ⟨hevents,hdropped,hfeatures⟩ := h
  simp only [Sensors.unsubscribe]
  cases hold : s.events magic with
  | none => exact ⟨hevents,hdropped,hfeatures⟩
  | some old =>
    refine ⟨fun other event hevent => ?_,hdropped,fun other event feature' hevent hfeature => ?_⟩
    · rcases (update_eq_some_iff ..).mp hevent with ⟨-,rfl⟩ | ⟨-,hold'⟩
      · rw [endEvent_freed]
        exact hevents magic old hold
      · exact hevents other event hold'
    · rcases (update_eq_some_iff ..).mp hevent with ⟨-,rfl⟩ | ⟨-,hold'⟩
      · rw [endEvent_feature] at hfeature
        exact hfeatures magic old feature' hold hfeature
      · exact hfeatures other event feature' hold' hfeature

end Events

section Users

def UsersKept (s : Sensors ι) : Prop :=
  (∀ user ∈ s.users, user.Kept) ∧ ∀ user ∈ s.users, s.detached user.feature = true → ¬ user.topic.isOpen

omit [DecidableEq ι] in
theorem lifetimes_iff (w : SensorSubscriptions ι) : w.Lifetimes ↔ EventsKept w.sensors ∧ UsersKept w.sensors := by
  constructor
  · intro h
    exact ⟨⟨h.events,h.dropped,h.detachedEvents⟩,h.users,h.detachedUsers⟩
  · rintro ⟨⟨hevents,hdropped,hfeatures⟩,husers,hdetached⟩
    exact ⟨husers,hevents,hdropped,hdetached,hfeatures⟩

variable {s : Sensors ι}

omit [DecidableEq ι] in
theorem usersKept_append_iff {live : ι → ℤ → Bool} (user : SensorUser ι) (h : UsersKept s)
    (hdetached : s.detached user.feature = false) :
    UsersKept { s with users := s.users ++ [user], live := live } ↔ user.Kept := by
  constructor
  · intro h
    exact h.1 user (by simp)
  · intro hkept
    constructor
    · intro other hother
      rcases List.mem_append.mp hother with hold | hnew
      · exact h.1 other hold
      · rwa [List.mem_singleton.mp hnew]
    · intro other hother hgone
      rcases List.mem_append.mp hother with hold | hnew
      · exact h.2 other hold hgone
      · rw [List.mem_singleton.mp hnew] at hgone
        exact absurd hgone (Bool.eq_false_iff.mp hdetached)

variable {world : SensorWorld}

theorem wrapSubscribe_kept_iff {feature : ι} {param : SensorParam}
    (h : UsersKept s) (hdetached : s.detached feature = false)
    (hlive : s.live feature param.callback = true ↔ 0 < param.callback) :
    UsersKept (wrapSubscribe world s feature param).2 ↔
      ParamRefused param { world with setInterval := true } ∨ world.setInterval = true := by
  simp only [wrapSubscribe]
  by_cases hheard : s.live feature param.callback = false
  · rw [if_pos hheard]
    refine iff_of_true h (.inl (.inl ?_))
    by_contra hpositive
    rw [hlive.mpr (by omega)] at hheard
    cases hheard
  · rw [if_neg hheard]
    cases hmagic : getSensorMagic param.type with
    | none => exact iff_of_true h (.inl (.inr (.inl hmagic)))
    | some magic =>
      simp only
      split_ifs with hinterval hmemory hsubscribe hset
      · exact iff_of_true h (.inl (.inr (.inr (.inl (by simpa using hinterval)))))
      · exact iff_of_true h (.inl (.inr (.inr (.inr (.inl hmemory)))))
      · refine (usersKept_append_iff { newUser world feature magic param with freed := 1 } h hdetached).trans (iff_of_true ?_ ?_)
        · exact .inr ⟨rfl,rfl⟩
        · exact .inl (.inr (.inr (.inr (.inr (.inl hsubscribe)))))
      · refine (usersKept_append_iff { newUser world feature magic param with topic := .running, freed := 1 } h hdetached).trans (iff_of_false ?_ ?_)
        · simp [SensorUser.Kept,newUser]
        · have hpositive := hlive.mp (Bool.of_not_eq_false hheard)
          exact fun hnot => not_interval_refused hpositive hmagic hinterval hmemory hsubscribe hset hnot.symm
      · refine (usersKept_append_iff { newUser world feature magic param with topic := .running, listed := true } h hdetached).trans (iff_of_true ?_ ?_)
        · exact .inl ⟨rfl,.inr (.inl ⟨rfl,.inl rfl⟩)⟩
        · exact .inr (Bool.of_not_eq_false hset)

/-- A request for one sample is kept unless its topic cannot be opened. -/
theorem getRecentData_kept_iff {feature : ι} {param : RecentParam}
    (h : UsersKept s) (hdetached : s.detached feature = false)
    (hlive : s.live feature param.success = true ↔ 0 < param.success) :
    UsersKept (s.getRecentData world feature param) ↔
      param.success ≤ 0 ∨ getSensorMagic param.type = none ∨ world.memory = false ∨ world.subscribe = true := by
  simp only [getRecentData]
  by_cases hheard : s.live feature param.success = false
  · rw [if_pos hheard]
    refine iff_of_true h (.inl ?_)
    by_contra hpositive
    rw [hlive.mpr (by omega)] at hheard
    cases hheard
  · rw [if_neg hheard]
    have hpositive := hlive.mp (Bool.of_not_eq_false hheard)
    cases hmagic : getSensorMagic param.type with
    | none => exact iff_of_true h (.inr (.inl rfl))
    | some magic =>
      simp only
      split_ifs with hmemory hsubscribe
      · exact iff_of_true h (.inr (.inr (.inl hmemory)))
      · refine (usersKept_append_iff ⟨world.fd,magic,feature,param.success,param.fail,param.complete,true,false,.closed,0⟩
          h hdetached).trans (iff_of_false ?_ ?_)
        · simp [SensorUser.Kept,UvTopic.isOpen]
        · simp [hmemory,hsubscribe]
          omega
      · refine (usersKept_append_iff ⟨world.fd,magic,feature,param.success,param.fail,param.complete,true,false,.running,0⟩
          h hdetached).trans (iff_of_true ?_ ?_)
        · exact .inl ⟨rfl,.inr (.inr ⟨rfl,rfl⟩)⟩
        · exact .inr (.inr (.inr (Bool.of_not_eq_false hsubscribe)))

omit [DecidableEq ι] in
/-- Users that are changed one by one are kept just if each of them is. -/
theorem usersKept_of_changed {s t : Sensors ι} (h : UsersKept s) {f : ℕ → SensorUser ι → SensorUser ι}
    (husers : t.users = s.users.mapIdx f)
    (hfeature : ∀ (address : ℕ) user, s.users[address]? = some user → (f address user).feature = user.feature)
    (hopen : ∀ (address : ℕ) user, s.users[address]? = some user → (f address user).topic.isOpen → user.topic.isOpen)
    (hsame : t.detached = s.detached) :
    UsersKept t ↔ ∀ (address : ℕ) user, s.users[address]? = some user → (f address user).Kept := by
  have hmem {P : SensorUser ι → Prop} : (∀ user ∈ s.users.mapIdx f, P user) ↔
      ∀ (address : ℕ) user, s.users[address]? = some user → P (f address user) := by
    simp only [List.mem_mapIdx]
    constructor
    · intro h address user huser
      obtain ⟨hlt,rfl⟩ := List.getElem?_eq_some_iff.mp huser
      exact h _ ⟨address,hlt,rfl⟩
    · rintro h _ ⟨address,hlt,rfl⟩
      exact h address _ (List.getElem?_eq_getElem hlt)
  simp only [UsersKept,husers,hsame,hmem]
  refine and_iff_left_of_imp fun _ address user huser hgone htopic => ?_
  rw [hfeature address user huser] at hgone
  exact h.2 user (List.mem_of_getElem? huser) hgone (hopen address user huser htopic)

variable (w) in
/-- An entry of the table has an open topic of its own, and callbacks have positive numbers. -/
structure Orderly : Prop where
  listed : ∀ user ∈ w.sensors.users, user.listed = true → user.oneshot = false ∧ user.topic.isOpen
  positive : ∀ feature id, w.sensors.live feature id = true → 0 < id

omit [DecidableEq ι] in
theorem closeUser_fields (world : SensorWorld) (address : ℕ) (user : SensorUser ι) :
    (closeUser world address user).feature = user.feature ∧ (closeUser world address user).freed = user.freed ∧
      (closeUser world address user).oneshot = user.oneshot ∧ (closeUser world address user).listed = user.listed := by
  simp only [closeUser]
  split_ifs <;> exact ⟨rfl,rfl,rfl,rfl⟩

variable {user : SensorUser ι}

omit [DecidableEq ι] in
theorem closeUser_open_iff (world : SensorWorld) (address : ℕ) (hopen : user.topic.isOpen) :
    (closeUser world address user).topic.isOpen ↔ world.close (.user address) = false := by
  simp only [closeUser]
  split_ifs with hclose hstop
  · simp [hclose,UvTopic.isOpen]
  · simp [hclose,UvTopic.isOpen]
  · simp [hclose,hopen]

variable {address : ℕ}

omit [DecidableEq ι] in
theorem closeUser_closing
    (hclose : world.close (.user address) = true) : (closeUser world address user).topic = .closing := by
  simp [closeUser,hclose]

omit [DecidableEq ι] in
theorem isOpen_of_closeUser (h : (closeUser world address user).topic.isOpen) : user.topic.isOpen := by
  simp only [closeUser] at h
  split_ifs at h with hclose hstop
  · simp [UvTopic.isOpen] at h
  · exact .inl hstop.2
  · exact h

omit [DecidableEq ι] in
theorem freed_of_open (h : user.Kept) (hopen : user.topic.isOpen) : user.freed = 0 := by
  rcases h with ⟨hfreed,-⟩ | ⟨-,hclosed⟩
  · exact hfreed
  · rw [hclosed] at hopen
    rcases hopen with h | h <;> cases h

omit [DecidableEq ι] in
theorem unlisted_kept_iff (world : SensorWorld) (address : ℕ) (h : user.Kept)
    (hopen : user.topic.isOpen) (honce : user.oneshot = false) :
    ({ closeUser world address user with listed := false } : SensorUser ι).Kept ↔
      world.close (.user address) = true := by
  obtain ⟨-,hfreed,honeshot,-⟩ := closeUser_fields world address user
  simp only [SensorUser.Kept,hfreed,honeshot,honce,freed_of_open h hopen]
  cases hclose : world.close (.user address) with
  | true => simp [closeUser_closing hclose]
  | false =>
    have hstill := (closeUser_open_iff world address hopen).mpr hclose
    rcases hstill with hstill | hstill <;> simp [hstill]

theorem multiUnsubscribe_kept_iff {fd : ℤ} (horderly : w.Orderly) (h : UsersKept w.sensors) :
    UsersKept (w.sensors.multiUnsubscribe world fd) ↔ ∀ (address : ℕ) user, w.sensors.users[address]? = some user →
      user.listed = true → user.fd = fd → world.close (.user address) = true := by
  refine (@usersKept_of_changed ι w.sensors (w.sensors.multiUnsubscribe world fd) h _ rfl ?_ ?_ rfl).trans ?_
  · intro address user _
    split_ifs
    · exact (closeUser_fields world address user).1
    · rfl
  · intro address user _ hopen
    split_ifs at hopen
    · exact isOpen_of_closeUser hopen
    · exact hopen
  · refine forall_congr' fun address => forall₂_congr fun user huser => ?_
    have hmem := List.mem_of_getElem? huser
    by_cases hentry : user.listed = true ∧ user.fd = fd
    · rw [if_pos hentry]
      obtain ⟨honce,hopen⟩ := horderly.listed user hmem hentry.1
      rw [unlisted_kept_iff world address (h.1 user hmem) hopen honce]
      simp [hentry]
    · rw [if_neg hentry]
      exact iff_of_true (h.1 user hmem) (fun hlisted hfd => absurd ⟨hlisted,hfd⟩ hentry)

theorem set_eq_mapIdx {α : Type} (xs : List α) (i : ℕ) (x : α) :
    xs.set i x = xs.mapIdx (fun j y => if j = i then x else y) := by
  apply List.ext_getElem?
  intro j
  simp only [List.getElem?_mapIdx]
  by_cases h : i = j
  · subst h
    by_cases hlt : i < xs.length
    · simp [hlt]
    · simp [hlt]
  · simp [List.getElem?_set_ne h,Ne.symm h]

omit [DecidableEq ι] in
theorem usersKept_set_iff {live : ι → ℤ → Bool} (h : UsersKept s)
    {old user : SensorUser ι} (hold : s.users[address]? = some old) (hfeature : user.feature = old.feature)
    (hopen : user.topic.isOpen → old.topic.isOpen) :
    UsersKept { s with users := s.users.set address user, live := live } ↔ user.Kept := by
  refine (@usersKept_of_changed ι s { s with users := s.users.set address user, live := live } h _
    (set_eq_mapIdx s.users address user) ?_ ?_ rfl).trans ?_
  · intro other user' huser'
    split_ifs with hother
    · subst hother
      obtain rfl := Option.some.inj (hold.symm.trans huser')
      exact hfeature
    · rfl
  · intro other user' huser' htopic
    split_ifs at htopic with hother
    · subst hother
      obtain rfl := Option.some.inj (hold.symm.trans huser')
      exact hopen htopic
    · exact htopic
  · constructor
    · intro h
      simpa using h address old hold
    · intro hkept other user' huser'
      split_ifs
      · exact hkept
      · exact h.1 user' (List.mem_of_getElem? huser')

theorem topicClose_kept (h : UsersKept w.sensors) : UsersKept (w.sensors.topicClose address) := by
  simp only [Sensors.topicClose]
  cases huser : w.sensors.users[address]? with
  | none => exact h
  | some user =>
    simp only
    by_cases hclosing : user.topic = .closing
    · rw [if_pos hclosing]
      refine Iff.mpr (usersKept_set_iff h huser rfl (by simp [UvTopic.isOpen])) (.inr ⟨?_,rfl⟩)
      rcases h.1 user (List.mem_of_getElem? huser) with ⟨hfreed,-⟩ | ⟨-,hclosed⟩
      · simp [hfreed]
      · rw [hclosing] at hclosed
        cases hclosed
    · rw [if_neg hclosing]
      exact h

/-- A topic that was to run once is kept unless it is stopped and not closed. -/
theorem topicSample_kept_iff {wristUp : Bool} (horderly : w.Orderly)
    (h : UsersKept w.sensors) : UsersKept (w.sensors.topicSample world address wristUp) ↔
      ∀ user, w.sensors.users[address]? = some user → user.topic = .running → user.oneshot = true →
        (user.magic = .wristTilt → wristUp = true) →
          world.close (.user address) = true ∨ world.unsubscribe (.user address) = false := by
  simp only [Sensors.topicSample]
  cases huser : w.sensors.users[address]? with
  | none => exact iff_of_true h (by simp)
  | some user =>
    simp only [Option.some.injEq,forall_eq']
    by_cases hends : user.topic = .running ∧ user.oneshot = true ∧ (user.magic = .wristTilt → wristUp = true)
    · rw [if_pos hends]
      obtain ⟨hrunning,honce,hup⟩ := hends
      have hmem := List.mem_of_getElem? huser
      have hunlisted : user.listed = false := by
        by_contra hlisted
        rw [(horderly.listed user hmem (Bool.of_not_eq_false hlisted)).1] at honce
        cases honce
      obtain ⟨hfeature,hfreed,honeshot,hlisted⟩ := closeUser_fields world address user
      rw [usersKept_set_iff h huser hfeature isOpen_of_closeUser]
      simp only [SensorUser.Kept,hfreed,honeshot,hlisted,hunlisted,freed_of_open (h.1 user hmem) (.inl hrunning)]
      cases hclose : world.close (.user address) <;> cases hstop : world.unsubscribe (.user address) <;>
        simp_all [closeUser]
    · rw [if_neg hends]
      refine iff_of_true h (fun hrunning honce hup => absurd ⟨hrunning,honce,hup⟩ hends)

end Users

section Detach

theorem onDetached_events (world : SensorWorld) (s : Sensors ι) (feature : ι) (magic : SensorMagic) :
    (s.onDetached world feature).events magic = none :=
  (detaching_foldl world feature allSensors ⟨rfl,rfl,rfl,fun _ _ h => h,fun _ h => .inl h⟩).2 magic
    (.inl (mem_allSensors magic))

theorem mem_dropped_foldl (world : SensorWorld) (feature : ι) (sensors : List SensorMagic) (s : Sensors ι)
    {event : SensorEvent ι} (h : event ∈ s.dropped) :
    event ∈ (sensors.foldl (fun s magic => s.unsubscribe world feature magic true) s).dropped := by
  induction sensors generalizing s with
  | nil => exact h
  | cons magic sensors ih =>
    apply ih
    simp only [Sensors.unsubscribe]
    cases s.events magic with
    | none => exact h
    | some old => exact List.mem_append_left _ h

theorem lost_foldl (world : SensorWorld) (feature : ι) (sensors : List SensorMagic) (s : Sensors ι) {magic : SensorMagic}
    {old : SensorEvent ι} (hmagic : magic ∈ sensors) (hold : s.events magic = some old) :
    endEvent world magic true old ∈
      (sensors.foldl (fun s magic => s.unsubscribe world feature magic true) s).dropped := by
  induction sensors generalizing s with
  | nil => cases hmagic
  | cons other sensors ih =>
    by_cases hsame : magic = other
    · subst hsame
      rw [List.foldl_cons]
      apply mem_dropped_foldl world feature sensors
      simp [Sensors.unsubscribe,hold]
    · apply ih _ ((List.mem_cons.mp hmagic).resolve_left hsame)
      rw [unsubscribe_events,if_neg hsame,hold]

theorem onDetached_eventsKept_iff {world : SensorWorld} {s : Sensors ι} {feature : ι} (h : EventsKept s) :
    EventsKept (s.onDetached world feature) ↔ ∀ magic, s.events magic = none := by
  constructor
  · intro hkept magic
    by_contra hsome
    obtain ⟨old,hold⟩ := Option.ne_none_iff_exists'.mp hsome
    have hfreed := (hkept.2.1 _ (lost_foldl world feature allSensors s (mem_allSensors magic) hold)).1
    rw [endEvent_freed,h.1 magic old hold] at hfreed
    cases hfreed
  · intro hnone
    refine ⟨?_,?_,?_⟩
    · intro magic event hevent
      rw [onDetached_events] at hevent
      cases hevent
    · intro event hevent
      obtain ⟨hkept,-⟩ := detaching_foldl world feature allSensors
        (⟨rfl,rfl,rfl,fun _ _ h => h,fun _ h => .inl h⟩ : Detaching world s s)
      rcases hkept.dropped event hevent with hold | ⟨magic,old,hold,-⟩
      · exact h.2.1 event hold
      · rw [hnone magic] at hold
        cases hold
    · intro magic event feature' hevent
      rw [onDetached_events] at hevent
      cases hevent

theorem onDetached_usersKept_iff {world : SensorWorld} {feature : ι} (horderly : w.Orderly) (h : UsersKept w.sensors) :
    UsersKept (w.sensors.onDetached world feature) ↔ ∀ (address : ℕ) user, w.sensors.users[address]? = some user →
      (user.listed = true → world.close (.user address) = true) ∧
        (user.feature = feature → user.oneshot = true → user.topic ≠ .running) := by
  have hchanged (address : ℕ) {user : SensorUser ι} (huser : w.sensors.users[address]? = some user) :
      (w.sensors.onDetached world feature).users[address]? =
        some (if user.listed then { closeUser world address user with listed := false } else user) := by
    simp [onDetached,huser]
  constructor
  · intro hkept address user huser
    have hmem := List.mem_of_getElem? huser
    have hmem' := List.mem_of_getElem? (hchanged address huser)
    constructor
    · intro hlisted
      obtain ⟨honce,hopen⟩ := horderly.listed user hmem hlisted
      rw [if_pos hlisted] at hmem'
      exact (unlisted_kept_iff world address (h.1 user hmem) hopen honce).mp (hkept.1 _ hmem')
    · rintro rfl honce hrunning
      have hunlisted : ¬ user.listed = true := by
        intro hlisted
        rw [(horderly.listed user hmem hlisted).1] at honce
        cases honce
      rw [if_neg hunlisted] at hmem'
      exact hkept.2 user hmem' (by simp [onDetached]) (.inl hrunning)
  · intro hmeets
    have huser' {user' : SensorUser ι} (hmem' : user' ∈ (w.sensors.onDetached world feature).users) :
        ∃ (address : ℕ) (user : SensorUser ι), w.sensors.users[address]? = some user ∧
          user' = if user.listed then { closeUser world address user with listed := false } else user := by
      obtain ⟨address,haddress⟩ := List.mem_iff_getElem?.mp hmem'
      have hlt : address < w.sensors.users.length := by
        have := (List.getElem?_eq_some_iff.mp haddress).1
        simpa [onDetached] using this
      have huser := List.getElem?_eq_getElem hlt
      exact ⟨address,_,huser,Option.some.inj (haddress.symm.trans (hchanged address huser))⟩
    constructor
    · intro user' hmem'
      obtain ⟨address,user,huser,rfl⟩ := huser' hmem'
      have hmem := List.mem_of_getElem? huser
      split_ifs with hlisted
      · obtain ⟨honce,hopen⟩ := horderly.listed user hmem hlisted
        exact (unlisted_kept_iff world address (h.1 user hmem) hopen honce).mpr ((hmeets address user huser).1 hlisted)
      · exact h.1 user hmem
    · intro user' hmem' hgone
      obtain ⟨address,user,huser,rfl⟩ := huser' hmem'
      have hmem := List.mem_of_getElem? huser
      split_ifs at hgone ⊢ with hlisted
      · simp [closeUser_closing ((hmeets address user huser).1 hlisted),UvTopic.isOpen]
      · by_cases hfeature : user.feature = feature
        · intro hopen
          have honce := (hmeets address user huser).2 hfeature
          rcases h.1 user hmem with ⟨-,hclosing | ⟨hlisted',-⟩ | ⟨honeshot,hrunning⟩⟩ | ⟨-,hclosed⟩
          · simp [UvTopic.isOpen,hclosing] at hopen
          · exact hlisted hlisted'
          · exact honce honeshot hrunning
          · simp [UvTopic.isOpen,hclosed] at hopen
        · refine h.2 user hmem ?_
          simpa [onDetached,Function.update_of_ne hfeature] using hgone

end Detach

section Orders

theorem positive_registered (horderly : w.Orderly) {feature other : ι} {callback fail id : ℤ}
    (h : (registered w.sensors feature callback fail).live other id = true) : 0 < id := by
  rcases (register_iff ..).mp h with hold | ⟨-,rfl,hpositive⟩
  · rcases (register_iff ..).mp hold with hold | ⟨-,rfl,hpositive⟩
    · exact horderly.positive other id hold
    · exact hpositive
  · exact hpositive

theorem live_registered_iff (horderly : w.Orderly) {feature : ι} {callback fail : ℤ} :
    (registered w.sensors feature callback fail).live feature callback = true ↔ 0 < callback :=
  ⟨positive_registered horderly,live_registered⟩

variable {single : ι → SensorMagic → Option ℤ} {multi : ℕ → Bool}

omit [DecidableEq ι] in
theorem Orderly.append {t : Sensors ι} (horderly : w.Orderly) (users : List (SensorUser ι))
    (hlisted : ∀ user ∈ users, user.listed = true → user.oneshot = false ∧ user.topic.isOpen)
    (husers : t.users = w.sensors.users ++ users) (hlive : ∀ feature id, t.live feature id = true → 0 < id)
    : Orderly ⟨t,single,multi⟩ := by
  refine ⟨fun user hmem => ?_,hlive⟩
  rw [husers] at hmem
  exact (List.mem_append.mp hmem).elim (horderly.listed user) (hlisted user)

theorem wrapSubscribe_orderly (world : SensorWorld) (s : Sensors ι) (feature : ι) (param : SensorParam) :
    ∃ users, (∀ user ∈ users, user.listed = true → user.oneshot = false ∧ user.topic.isOpen) ∧
      (wrapSubscribe world s feature param).2.users = s.users ++ users ∧
      ∀ other id, (wrapSubscribe world s feature param).2.live other id = true → s.live other id = true := by
  have hrefused := (refuse_frame s feature param.callback param.fail).live
  simp only [wrapSubscribe]
  by_cases hheard : s.live feature param.callback = false
  · rw [if_pos hheard]
    exact ⟨[],by simp,by simp [Sensors.refuse],hrefused⟩
  · rw [if_neg hheard]
    cases getSensorMagic param.type with
    | none => exact ⟨[],by simp,by simp [Sensors.refuse],hrefused⟩
    | some magic =>
      simp only
      split_ifs
      · exact ⟨[],by simp,by simp [Sensors.refuse],hrefused⟩
      · exact ⟨[],by simp,by simp [Sensors.refuse],hrefused⟩
      · exact ⟨[_],by simp [newUser],rfl,hrefused⟩
      · exact ⟨[_],by simp [newUser],rfl,hrefused⟩
      · exact ⟨[_],by simp [newUser,UvTopic.isOpen],rfl,fun _ _ h => h⟩

theorem getRecentData_orderly (world : SensorWorld) (s : Sensors ι) (feature : ι) (param : RecentParam) :
    ∃ users, (∀ user ∈ users, user.listed = false) ∧ (s.getRecentData world feature param).users = s.users ++ users ∧
      ∀ other id, (s.getRecentData world feature param).live other id = true → s.live other id = true := by
  have hrefused : ∀ other id, remove (removeAll s.live feature param.success param.fail) feature param.complete other id =
      true → s.live other id = true := fun other id h =>
    ((removeAll_iff ..).mp ((remove_iff ..).mp h).1).1
  simp only [getRecentData]
  by_cases hheard : s.live feature param.success = false
  · rw [if_pos hheard]
    exact ⟨[],by simp,by simp,hrefused⟩
  · rw [if_neg hheard]
    cases getSensorMagic param.type with
    | none => exact ⟨[],by simp,by simp,hrefused⟩
    | some magic =>
      simp only
      split_ifs
      · exact ⟨[],by simp,by simp,hrefused⟩
      · exact ⟨[_],by simp,rfl,hrefused⟩
      · exact ⟨[_],by simp,rfl,fun _ _ h => h⟩

omit [DecidableEq ι] in
theorem Orderly.change {t : Sensors ι} (horderly : w.Orderly)
    (husers : ∀ user ∈ t.users, user.listed = true → user ∈ w.sensors.users)
    (hlive : ∀ feature id, t.live feature id = true → w.sensors.live feature id = true)
    : Orderly ⟨t,single,multi⟩ :=
  ⟨fun user hmem hlisted => horderly.listed user (husers user hmem hlisted) hlisted,
    fun feature id h => horderly.positive feature id (hlive feature id h)⟩

omit [DecidableEq ι] in
theorem mem_of_mapIdx_listed {users : List (SensorUser ι)} {f : ℕ → SensorUser ι → SensorUser ι}
    (hf : ∀ address user, (f address user).listed = true → f address user = user) {user : SensorUser ι}
    (hmem : user ∈ users.mapIdx f) (hlisted : user.listed = true) : user ∈ users := by
  obtain ⟨address,hlt,rfl⟩ := List.mem_mapIdx.mp hmem
  rw [hf address _ hlisted]
  exact List.getElem_mem hlt

omit [DecidableEq ι] in
theorem mem_of_set_unlisted {users : List (SensorUser ι)} {address : ℕ} {user other : SensorUser ι}
    (hunlisted : user.listed = false) (hmem : other ∈ users.set address user) (hlisted : other.listed = true) :
    other ∈ users := by
  rcases List.mem_or_eq_of_mem_set hmem with hold | rfl
  · exact hold
  · rw [hunlisted] at hlisted
    cases hlisted

theorem Orderly.topicClose (horderly : w.Orderly) (address : ℕ)
    : Orderly ⟨w.sensors.topicClose address,single,multi⟩ := by
  simp only [Sensors.topicClose]
  cases huser : w.sensors.users[address]? with
  | none => exact ⟨horderly.listed,horderly.positive⟩
  | some user =>
    by_cases hclosing : user.topic = .closing
    · simp only [hclosing,if_true]
      have hunlisted : user.listed = false := by
        by_contra hlisted
        obtain ⟨-,hopen⟩ := horderly.listed user (List.mem_of_getElem? huser) (Bool.of_not_eq_false hlisted)
        simp [UvTopic.isOpen,hclosing] at hopen
      refine horderly.change (fun other hmem hlisted => mem_of_set_unlisted ?_ hmem hlisted) (fun feature id h => ?_)
      · exact hunlisted
      · dsimp only at h
        split_ifs at h
        · exact ((remove_iff ..).mp h).1
        · exact h
    · simp only [hclosing,if_false]
      exact ⟨horderly.listed,horderly.positive⟩

theorem Orderly.topicSample (horderly : w.Orderly) (world : SensorWorld) (address : ℕ) (wristUp : Bool) :
    Orderly { w with sensors := w.sensors.topicSample world address wristUp } := by
  simp only [Sensors.topicSample]
  cases huser : w.sensors.users[address]? with
  | none => exact horderly
  | some user =>
    by_cases hends : user.topic = .running ∧ user.oneshot = true ∧ (user.magic = .wristTilt → wristUp = true)
    · simp only [if_pos hends]
      have hunlisted : user.listed = false := by
        by_contra hlisted
        have honce := (horderly.listed user (List.mem_of_getElem? huser) (Bool.of_not_eq_false hlisted)).1
        rw [hends.2.1] at honce
        cases honce
      refine horderly.change (fun other hmem hlisted => mem_of_set_unlisted ?_ hmem hlisted) (fun feature id h => ?_)
      · exact (closeUser_fields world address user).2.2.2.trans hunlisted
      · exact ((removeAll_iff ..).mp h).1
    · simp only [if_neg hends]
      exact horderly

theorem Orderly.step (horderly : w.Orderly) (op : SensorOp ι) : (w.step op).Orderly := by
  cases op with
  | subscribeSingle feature sensor callback fail world =>
    simp only [SensorSubscriptions.step]
    split_ifs
    · exact horderly
    · have hframe := subscribeSingle_frame world (registered w.sensors feature callback fail) feature sensor callback fail
      refine horderly.append [] (by simp) (by simpa [registered] using hframe.users) ?_
      exact fun other id h => positive_registered horderly (hframe.live other id h)
  | unsubscribeSingle feature magic world =>
    simp only [SensorSubscriptions.step]
    split_ifs
    · exact horderly
    · have hframe := unsubscribe_frame world w.sensors feature magic
      exact horderly.append [] (by simp) (by simpa using hframe.users)
        (fun other id h => horderly.positive other id (hframe.live other id h))
  | subscribe feature param world =>
    simp only [SensorSubscriptions.step]
    split_ifs
    · exact horderly
    · obtain ⟨users,hlisted,husers,hlive⟩ := wrapSubscribe_orderly world
        (registered w.sensors feature param.callback param.fail) feature param
      exact horderly.append users hlisted husers (fun other id h => positive_registered horderly (hlive other id h))
  | unsubscribe feature fd world =>
    simp only [SensorSubscriptions.step]
    split_ifs
    · exact horderly
    · refine horderly.change (fun user hmem hlisted => mem_of_mapIdx_listed (fun address user hlisted => ?_) hmem hlisted)
        (fun other id h => ((foldl_removeAll_iff ..).mp h).1)
      split_ifs at hlisted ⊢
      rfl
  | topicClose address => exact horderly.topicClose address
  | detach feature world =>
    simp only [SensorSubscriptions.step]
    split_ifs
    · exact horderly
    · refine horderly.change (fun user hmem hlisted => mem_of_mapIdx_listed (fun address user hlisted => ?_) hmem hlisted)
        (fun other id h => ?_)
      · split_ifs at hlisted ⊢
        rfl
      · simp only [onDetached,Bool.and_eq_true] at h
        exact h.1

theorem Orderly.recordStep (horderly : w.Orderly) (op : SensorRecordOp ι) : (w.recordStep op).Orderly := by
  cases op with
  | call op => exact horderly.step op
  | topicSample address wristUp world => exact horderly.topicSample world address wristUp
  | getRecentData feature param world =>
    simp only [SensorSubscriptions.recordStep]
    split_ifs
    · exact horderly
    · obtain ⟨users,hlisted,husers,hlive⟩ := getRecentData_orderly world
        { registered w.sensors feature param.success param.fail with
          live := register (registered w.sensors feature param.success param.fail).live feature param.complete } feature param
      refine horderly.append users (fun user hmem hheld => ?_) husers (fun other id h => ?_)
      · rw [hlisted user hmem] at hheld
        cases hheld
      · rcases (register_iff ..).mp (hlive other id h) with hold | ⟨-,rfl,hpositive⟩
        · exact positive_registered horderly hold
        · exact hpositive

end Orders

section Runs

omit [DecidableEq ι] in
theorem usersKept_congr {s t : Sensors ι} (husers : t.users = s.users) (hdetached : t.detached = s.detached) :
    UsersKept t ↔ UsersKept s := by
  simp only [UsersKept,husers,hdetached]

/-- The records of the single sensors are as they were. -/
structure SameEvents (s t : Sensors ι) : Prop where
  events : t.events = s.events
  dropped : t.dropped = s.dropped
  detached : t.detached = s.detached

omit [DecidableEq ι] in
theorem eventsKept_congr {s t : Sensors ι} (h : SameEvents s t) : EventsKept t ↔ EventsKept s := by
  simp only [EventsKept,h.events,h.dropped,h.detached]

theorem subscribeSingle_kept_iff {world : SensorWorld} {s : Sensors ι} {feature : ι} {sensor : SingleSensor}
    {callback fail : ℤ} (h : EventsKept s) (hdetached : s.detached feature = false)
    (hlive : s.live feature callback = true ↔ 0 < callback) :
    EventsKept (subscribeSingle world s feature sensor callback fail).2 ↔
      (sensor.known = true → sensor ≠ .stepCounter → 0 < callback → world.memory = true →
        ∀ event, s.events sensor.magic = some event → event.subscribed = true) := by
  cases sensor with
  | accelerometer interval =>
    simp only [subscribeSingle]
    by_cases hknown : (SingleSensor.accelerometer interval).known = true
    · rw [if_pos hknown,subscribe_kept_iff h hdetached,hlive]
      simp [hknown,SingleSensor.magic]
    · rw [if_neg hknown]
      exact iff_of_true h (fun hk => absurd hk hknown)
  | stepCounter => exact iff_of_true h (by simp)
  | _ =>
    simp only [subscribeSingle]
    rw [subscribe_kept_iff h hdetached,hlive]
    simp [SingleSensor.known,SingleSensor.magic]

theorem wrapSubscribe_sameEvents (world : SensorWorld) (s : Sensors ι) (feature : ι) (param : SensorParam) :
    SameEvents s (wrapSubscribe world s feature param).2 := by
  simp only [wrapSubscribe]
  by_cases hheard : s.live feature param.callback = false
  · rw [if_pos hheard]
    exact ⟨rfl,rfl,rfl⟩
  · rw [if_neg hheard]
    cases getSensorMagic param.type with
    | none => exact ⟨rfl,rfl,rfl⟩
    | some magic =>
      simp only
      split_ifs <;> exact ⟨rfl,rfl,rfl⟩

theorem getRecentData_sameEvents (world : SensorWorld) (s : Sensors ι) (feature : ι) (param : RecentParam) :
    SameEvents s (s.getRecentData world feature param) := by
  simp only [getRecentData]
  by_cases hheard : s.live feature param.success = false
  · rw [if_pos hheard]
    exact ⟨rfl,rfl,rfl⟩
  · rw [if_neg hheard]
    cases getSensorMagic param.type with
    | none => exact ⟨rfl,rfl,rfl⟩
    | some magic =>
      simp only
      split_ifs <;> exact ⟨rfl,rfl,rfl⟩

theorem topicClose_sameEvents (s : Sensors ι) (address : ℕ) : SameEvents s (s.topicClose address) := by
  simp only [Sensors.topicClose]
  cases s.users[address]? with
  | none => exact ⟨rfl,rfl,rfl⟩
  | some user =>
    simp only
    split_ifs <;> exact ⟨rfl,rfl,rfl⟩

theorem topicSample_sameEvents (world : SensorWorld) (s : Sensors ι) (address : ℕ) (wristUp : Bool) :
    SameEvents s (s.topicSample world address wristUp) := by
  simp only [Sensors.topicSample]
  cases s.users[address]? with
  | none => exact ⟨rfl,rfl,rfl⟩
  | some user =>
    simp only
    split_ifs <;> exact ⟨rfl,rfl,rfl⟩

omit [DecidableEq ι] in
theorem lifetimes_ite_iff {detached : Bool} {w' : SensorSubscriptions ι} {condition : Prop} (h : w.Lifetimes)
    (hcall : detached = false → (w'.Lifetimes ↔ condition)) :
    (if detached = true then w else w').Lifetimes ↔ (detached = false → condition) := by
  cases detached with
  | true => exact iff_of_true h (fun hfalse => by cases hfalse)
  | false => exact (hcall rfl).trans ⟨fun hc _ => hc,fun hc => hc rfl⟩

/-- A call of an instance keeps the records just under its condition. -/
theorem call_kept_iff (horderly : w.Orderly) (h : w.Lifetimes) (op : SensorOp ι) :
    (w.step op).Lifetimes ↔ w.KeepsRecords (.call op) := by
  have hw := h
  rw [lifetimes_iff] at h
  obtain ⟨hevents,husers⟩ := h
  cases op with
  | subscribeSingle feature sensor callback fail world =>
    simp only [SensorSubscriptions.step,KeepsRecords]
    refine lifetimes_ite_iff hw (fun hdetached => ?_)
    have hframe := subscribeSingle_frame world (registered w.sensors feature callback fail) feature sensor callback fail
    rw [lifetimes_iff,usersKept_congr hframe.users hframe.detached]
    refine (and_iff_left husers).trans ?_
    exact subscribeSingle_kept_iff hevents hdetached (live_registered_iff horderly)
  | unsubscribeSingle feature magic world =>
    refine iff_of_true ?_ trivial
    simp only [SensorSubscriptions.step]
    split_ifs
    · exact hw
    · have hframe := unsubscribe_frame world w.sensors feature magic
      rw [lifetimes_iff,usersKept_congr hframe.users hframe.detached]
      exact ⟨unsubscribe_kept hevents,husers⟩
  | subscribe feature param world =>
    simp only [SensorSubscriptions.step,KeepsRecords]
    refine lifetimes_ite_iff hw (fun hdetached => ?_)
    have hsame := wrapSubscribe_sameEvents world
      (registered w.sensors feature param.callback param.fail) feature param
    rw [lifetimes_iff,eventsKept_congr hsame]
    refine (and_iff_right hevents).trans ?_
    exact wrapSubscribe_kept_iff husers hdetached (live_registered_iff horderly)
  | unsubscribe feature fd world =>
    simp only [SensorSubscriptions.step,KeepsRecords]
    refine lifetimes_ite_iff hw (fun hdetached => ?_)
    rw [lifetimes_iff]
    exact (and_iff_right hevents).trans (multiUnsubscribe_kept_iff horderly husers)
  | topicClose address =>
    refine iff_of_true ?_ trivial
    have hsame := topicClose_sameEvents w.sensors address
    simp only [SensorSubscriptions.step]
    rw [lifetimes_iff,eventsKept_congr hsame]
    exact ⟨hevents,topicClose_kept husers⟩
  | detach feature world =>
    simp only [SensorSubscriptions.step,KeepsRecords]
    refine lifetimes_ite_iff hw (fun hdetached => ?_)
    rw [lifetimes_iff]
    exact and_congr (onDetached_eventsKept_iff hevents) (onDetached_usersKept_iff horderly husers)

theorem recordStep_kept_iff (horderly : w.Orderly) (h : w.Lifetimes) (op : SensorRecordOp ι) :
    (w.recordStep op).Lifetimes ↔ w.KeepsRecords op := by
  have hw := h
  rw [lifetimes_iff] at h
  obtain ⟨hevents,husers⟩ := h
  cases op with
  | call op => exact call_kept_iff horderly hw op
  | getRecentData feature param world =>
    simp only [recordStep,KeepsRecords]
    refine lifetimes_ite_iff hw (fun hdetached => ?_)
    have hsame := getRecentData_sameEvents world
      { registered w.sensors feature param.success param.fail with
        live := register (registered w.sensors feature param.success param.fail).live feature param.complete } feature param
    rw [lifetimes_iff,eventsKept_congr hsame]
    refine (and_iff_right hevents).trans (getRecentData_kept_iff husers hdetached ?_)
    constructor
    · intro hlive
      rcases (register_iff ..).mp hlive with hold | ⟨-,hsame,hpositive⟩
      · exact positive_registered horderly hold
      · rw [hsame]
        exact hpositive
    · intro hpositive
      exact (register_iff ..).mpr (.inl (live_registered hpositive))
  | topicSample address wristUp world =>
    have hsame := topicSample_sameEvents world w.sensors address wristUp
    simp only [recordStep,KeepsRecords]
    rw [lifetimes_iff,eventsKept_congr hsame]
    exact (and_iff_right hevents).trans (topicSample_kept_iff horderly husers)

/-- Along a run the records are freed once each, none while its topic may call back, and no topic of a detached instance
is open, if and only if every operation meets its condition. -/
theorem lifetimes_kept_iff (ops : List (SensorRecordOp ι)) :
    Transition.Always recordStep Lifetimes init ops ↔ Transition.Guarded recordStep KeepsRecords init ops := by
  refine Transition.always_iff_guarded (I := fun w : SensorSubscriptions ι => w.Orderly ∧ w.Lifetimes)
    (fun _ h => h.2) (fun w op h hgood => ⟨h.1.recordStep op,(recordStep_kept_iff h.1 h.2 op).mpr hgood⟩)
    (fun w op h hbad hkept => hbad ((recordStep_kept_iff h.1 h.2 op).mp hkept)) ?_ ops
  refine ⟨⟨by simp [init,onCreate],by simp [init,onCreate]⟩,?_⟩
  constructor <;> simp [init,onCreate]

/-- A subscription to one sensor that lasts until its instance is detached. -/
theorem event_never_freed : ¬ ∀ ops : List (SensorRecordOp ℕ), Transition.Always recordStep Lifetimes init ops := by
  intro h
  have hlast := (h [.call (.subscribeSingle 0 .compass 1 2 workingSensors),.call (.detach 0 workingSensors)]).last
  have hlost := hlast.dropped ⟨.compa,some 0,1,2,false,.closed,0⟩ (List.mem_singleton.mpr rfl)
  exact absurd hlost.1 (by decide)

end Runs

end SensorSubscriptions
end FeatureRuntime
