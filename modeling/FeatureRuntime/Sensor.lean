import FeatureRuntime.AppPath
import FeatureRuntime.LiveCallbacks
import Mathlib.Logic.Function.Basic

/-! `system.sensor`: the table of topics that all instances of the feature share, and the records behind it. -/
namespace FeatureRuntime

/-- `sensor_magic_t`. -/
inductive SensorMagic
  | gnss
  | baro
  | accel
  | compa
  | prox
  | light
  | step
  | ambientTemperature
  | humidity
  | wristTilt
  deriving DecidableEq

/-- Where a topic stands: a topic that runs or is stopped is open, and one that is closing calls back once more. -/
inductive UvTopic
  | running
  | stopped
  | closing
  | closed
  deriving DecidableEq

def UvTopic.isOpen (topic : UvTopic) : Prop := topic = .running ∨ topic = .stopped

/-- `sensor_event_t`, with how often it was freed. -/
structure SensorEvent (ι : Type) where
  magic : SensorMagic
  feature : Option ι
  callback : ℤ
  fail : ℤ
  subscribed : Bool
  topic : UvTopic
  freed : ℕ

/-- `sensorMulti_user_t`, with the entry of the multimap that points to it, and with how often it was freed. -/
structure SensorUser (ι : Type) where
  fd : ℤ
  magic : SensorMagic
  feature : ι
  callback : ℤ
  fail : ℤ
  complete : ℤ
  oneshot : Bool
  listed : Bool
  topic : UvTopic
  freed : ℕ

/-- `SensorContext`, with every record that was ever allocated: an event that the table has lost is dropped, and a user
has its place in the order of allocation. An instance has callbacks that are registered. -/
structure Sensors (ι : Type) where
  events : SensorMagic → Option (SensorEvent ι)
  dropped : List (SensorEvent ι)
  users : List (SensorUser ι)
  live : ι → ℤ → Bool
  detached : ι → Bool

/-- The topics that a call of uORB can be about. -/
inductive SensorTopic
  | event (magic : SensorMagic)
  | user (address : ℕ)

structure SensorWorld where
  memory : Bool
  subscribe : Bool
  setInterval : Bool
  fd : ℤ
  unsubscribe : SensorTopic → Bool
  close : SensorTopic → Bool

/-- The sensors that have a subscription of their own. -/
inductive SingleSensor
  | accelerometer (interval : CString)
  | compass
  | proximity
  | light
  | stepCounter
  | pressure
  | ambientTemperature
  | humidity

/-- The parameter of `subscribe`; what nobody has written to it is the number of its complete callback. -/
structure SensorParam where
  type : ℤ
  interval : CString
  callback : ℤ
  fail : ℤ
  residue : ℤ

/-- The parameter of `getRecentData`. -/
structure RecentParam where
  type : ℤ
  success : ℤ
  fail : ℤ
  complete : ℤ

/-- The index of a sensor in `sensor_orb_table`. -/
def SensorMagic.index : SensorMagic → ℤ
  | .gnss => 0
  | .baro => 1
  | .accel => 2
  | .compa => 3
  | .prox => 4
  | .light => 5
  | .step => 6
  | .ambientTemperature => 7
  | .humidity => 12
  | .wristTilt => 22

def SingleSensor.magic : SingleSensor → SensorMagic
  | .accelerometer _ => .accel
  | .compass => .compa
  | .proximity => .prox
  | .light => .light
  | .stepCounter => .step
  | .pressure => .baro
  | .ambientTemperature => .ambientTemperature
  | .humidity => .humidity

def SingleSensor.known : SingleSensor → Bool
  | .accelerometer interval => interval = "game".toList ∨ interval = "ui".toList ∨ interval = "normal".toList
  | _ => true

namespace Sensors

open LiveCallbacks

def allSensors : List SensorMagic :=
  [.gnss,.baro,.accel,.compa,.prox,.light,.step,.ambientTemperature,.humidity,.wristTilt]

def getSensorMagic (type : ℤ) : Option SensorMagic := allSensors.find? (fun magic => magic.index = type)

variable {ι : Type} [DecidableEq ι]

variable (world : SensorWorld) (s : Sensors ι)

/-- `unsubscribe` of a record that is in the table. -/
def endEvent (magic : SensorMagic) (detach : Bool) (event : SensorEvent ι) : SensorEvent ι :=
  if event.subscribed = false then event
  else if world.unsubscribe (.event magic) = false then
    if detach then { event with feature := none } else event
  else if world.close (.event magic) = false then
    { event with feature := if detach then none else event.feature, topic := .stopped }
  else { event with subscribed := false, topic := .closed }

def unsubscribe (feature : ι) (magic : SensorMagic) (detach : Bool) : Sensors ι :=
  match s.events magic with
  | none => s
  | some event =>
    if detach then
      { s with
        events := Function.update s.events magic none
        dropped := s.dropped ++ [endEvent world magic detach event] }
    else
      { s with
        events := Function.update s.events magic (some (endEvent world magic detach event))
        live := removeAll s.live feature event.callback event.fail }

def refuse (feature : ι) (callback fail : ℤ) : Sensors ι := { s with live := removeAll s.live feature callback fail }

/-- `subscribe`, for a table that has no record with a subscription. -/
def subscribeNew (feature : ι) (magic : SensorMagic) (callback fail : ℤ) : Bool × Sensors ι :=
  if world.memory = false then (false,s.refuse feature callback fail)
  else
    let event : SensorEvent ι := ⟨magic,some feature,callback,fail,true,.running,0⟩
    if world.subscribe = false then
      (false,{ s.refuse feature callback fail with
        events := Function.update s.events magic none
        dropped := s.dropped ++ (s.events magic).toList ++ [{ event with topic := .closed, freed := 1 }] })
    else
      (true,{ s with
        events := Function.update s.events magic (some event)
        dropped := s.dropped ++ (s.events magic).toList })

/-- `subscribe`, with whether it succeeds. A subscription that there is gets other callbacks. -/
def subscribe (feature : ι) (magic : SensorMagic) (callback fail : ℤ) : Bool × Sensors ι :=
  if s.live feature callback = false then (false,s.refuse feature callback fail)
  else
    match s.events magic with
    | none => subscribeNew world s feature magic callback fail
    | some event =>
      if event.subscribed then
        (true,{ s with
          events := Function.update s.events magic (some { event with callback := callback, fail := fail })
          live := removeAll s.live feature event.callback event.fail })
      else subscribeNew world s feature magic callback fail

/-- The functions that subscribe to one sensor. The accelerometer needs a known interval, the light sensor takes no
fail callback, and there is no step counter. -/
def subscribeSingle (feature : ι) (sensor : SingleSensor) (callback fail : ℤ) : Bool × Sensors ι :=
  match sensor with
  | .accelerometer interval =>
    if (SingleSensor.accelerometer interval).known then subscribe world s feature .accel callback fail else (false,s)
  | .light => subscribe world s feature .light callback 0
  | .stepCounter => (false,s.refuse feature callback fail)
  | sensor => subscribe world s feature sensor.magic callback fail

/-- `uv_topic_unsubscribe` and `uv_topic_close` of the topic of a user. -/
def closeUser (address : ℕ) (user : SensorUser ι) : SensorUser ι :=
  if world.close (.user address) then { user with topic := .closing }
  else if world.unsubscribe (.user address) ∧ user.topic = .running then { user with topic := .stopped }
  else user

/-- `multi_unsubscribe`, for the entries of a number, of all multimaps. -/
def multiUnsubscribe (fd : ℤ) : Sensors ι :=
  { s with
    users := s.users.mapIdx (fun address user =>
      if user.listed ∧ user.fd = fd then { closeUser world address user with listed := false } else user)
    live := (s.users.filter (fun user => user.listed ∧ user.fd = fd)).foldl
      (fun live user => removeAll live user.feature user.callback user.fail) s.live }

/-- A user that `subscribe` has allocated. -/
def newUser (feature : ι) (magic : SensorMagic) (param : SensorParam) : SensorUser ι where
  fd := world.fd
  magic := magic
  feature := feature
  callback := param.callback
  fail := param.fail
  complete := param.residue
  oneshot := false
  listed := false
  topic := .closed
  freed := 0

/-- `system_sensor_wrap_subscribe`, with the number it returns; none stands for -1. -/
def wrapSubscribe (feature : ι) (param : SensorParam) : Option ℤ × Sensors ι :=
  let refused := s.refuse feature param.callback param.fail
  if s.live feature param.callback = false then (none,refused)
  else
    match getSensorMagic param.type with
    | none => (none,refused)
    | some magic =>
      let user := newUser world feature magic param
      if param.interval ≠ "low".toList ∧ param.interval ≠ "mid".toList ∧ param.interval ≠ "high".toList then (none,refused)
      else if world.memory = false then (none,refused)
      else if world.subscribe = false then (none,{ refused with users := s.users ++ [{ user with freed := 1 }] })
      -- The record goes, and its topic goes on.
      else if world.setInterval = false then
        (none,{ refused with users := s.users ++ [{ user with topic := .running, freed := 1 }] })
      else (some world.fd,{ s with users := s.users ++ [{ user with topic := .running, listed := true }] })

/-- `system_sensor_wrap_getRecentData`. -/
def getRecentData (feature : ι) (param : RecentParam) : Sensors ι :=
  let refused := { s with live := remove (removeAll s.live feature param.success param.fail) feature param.complete }
  if s.live feature param.success = false then refused
  else
    match getSensorMagic param.type with
    | none => refused
    | some magic =>
      if world.memory = false then refused
      else
        let user : SensorUser ι :=
          ⟨world.fd,magic,feature,param.success,param.fail,param.complete,true,false,.closed,0⟩
        if world.subscribe = false then { refused with users := s.users ++ [user] }
        else { s with users := s.users ++ [{ user with topic := .running }] }

/-- `sensor_topic_close_cb`. -/
def topicClose (address : ℕ) : Sensors ι :=
  match s.users[address]? with
  | none => s
  | some user =>
    if user.topic = .closing then
      { s with
        users := s.users.set address { user with topic := .closed, freed := user.freed + 1 }
        live := if 0 < user.complete then remove s.live user.feature user.complete else s.live }
    else s

/-- `sensor_topic_cb`, once it has called its instance: a topic that was to run once is closed. -/
def topicSample (address : ℕ) (wristUp : Bool) : Sensors ι :=
  match s.users[address]? with
  | none => s
  | some user =>
    if user.topic = .running ∧ user.oneshot ∧ (user.magic = .wristTilt → wristUp) then
      { s with
        users := s.users.set address (closeUser world address user)
        live := removeAll s.live user.feature user.callback user.fail }
    else s

/-- `system_sensor_onDetached`, and what the framework does after it. -/
def onDetached (feature : ι) : Sensors ι :=
  let ended := allSensors.foldl (fun s magic => unsubscribe world s feature magic true) s
  { ended with
    users := s.users.mapIdx (fun address user =>
      if user.listed then { closeUser world address user with listed := false } else user)
    live := fun other n => s.live other n && !decide (other = feature)
    detached := Function.update s.detached feature true }

end Sensors
end FeatureRuntime
