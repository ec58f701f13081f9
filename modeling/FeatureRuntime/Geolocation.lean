import FeatureRuntime.LiveCallbacks
import Mathlib.Data.Nat.Notation
import Mathlib.Logic.Function.Basic

/-! `system.geolocation`: the requests and the subscribers that wait for the GNSS topic, the timer, and the context that
all of them share. -/
namespace FeatureRuntime

/-- A request of `getLocation`, with the number of its promise. -/
structure GeoRequest (ι : Type) where
  feature : ι
  pid : ℕ
  time : ℤ
  timeout : ℤ

structure GeoSubscriber (ι : Type) where
  feature : ι
  callback : ℤ
  fail : ℤ

inductive GeoTimer
  | running
  | closing
  | closed
  deriving DecidableEq

/-- `location_context`, with the topics that are closing, what the framework knows of the callbacks and the instances,
the promises that are settled, and what became of the context. -/
structure Geolocation (ι : Type) where
  topicList : List ℕ
  closing : List ℕ
  timer : GeoTimer
  getList : List (GeoRequest ι)
  subList : List (GeoSubscriber ι)
  refCount : ℤ
  freed : ℕ
  /-- A record was used after it had been freed. -/
  fault : Bool
  live : ι → ℤ → Bool
  detached : ι → Bool
  settled : List ℕ
  delivered : List (ℕ × ι)
  nextPid : ℕ
  nextTopic : ℕ

inductive GeoCall
  | getLocation (now timeout : ℤ)
  | subscribe (callback fail : ℤ)
  | unsubscribe
  deriving DecidableEq

/-- What happens: a call, a batch of samples, with the calls that a subscriber makes while it is given one, a tick of the
timer, a detach, the end of the feature, and the callbacks of what is closed. -/
inductive GeoOp (ι : Type)
  | call (feature : ι) (call : GeoCall)
  | batch (samples : List Bool) (inside : ℕ → ι → List GeoCall)
  | tick (now : ℤ)
  | detach (feature : ι)
  | destroy
  | topicClosed (topic : ℕ)
  | timerClosed

namespace Geolocation

open LiveCallbacks

variable {ι : Type} [DecidableEq ι] (s : Geolocation ι)

/-- `geolocation_is_active`. -/
def isActive : Bool := !s.getList.isEmpty || !s.subList.isEmpty

def openTopic : Geolocation ι :=
  { s with
    topicList := s.topicList ++ [s.nextTopic]
    refCount := s.refCount + 1
    nextTopic := s.nextTopic + 1 }

def closeIdle : Geolocation ι :=
  match s.topicList with
  | [] => s
  | topic :: rest => if s.isActive then s else { s with topicList := rest, closing := s.closing ++ [topic] }

/-- `system_geolocation_wrap_getLocation`; the framework gives the number of the promise. -/
def getLocation (feature : ι) (now timeout : ℤ) : Geolocation ι :=
  let pid := s.nextPid
  let s := { s with nextPid := pid + 1 }
  if 100 < s.getList.length then { s with settled := s.settled ++ [pid] }
  else
    let s := if s.isActive then s else s.openTopic
    { s with getList := s.getList ++ [⟨feature,pid,now,timeout⟩] }

/-- `system_geolocation_wrap_subscribe`. A callback that is not valid is told about and then taken. -/
def subscribe (feature : ι) (callback fail : ℤ) : Geolocation ι :=
  match s.subList.find? (fun sub => sub.feature = feature) with
  | some old =>
    { s with
      live := removeAll s.live feature old.callback old.fail
      subList := s.subList.map (fun sub => if sub.feature = feature then ⟨feature,callback,fail⟩ else sub) }
  | none =>
    let s := if s.isActive then s else s.openTopic
    { s with subList := s.subList ++ [⟨feature,callback,fail⟩] }

def unsubscribe (feature : ι) : Geolocation ι :=
  match s.subList.find? (fun sub => sub.feature = feature) with
  | some old =>
    closeIdle { s with
      live := removeAll s.live feature old.callback old.fail
      subList := s.subList.eraseP (fun sub => sub.feature = feature) }
  | none => s

def perform (feature : ι) : GeoCall → Geolocation ι
  | .getLocation now timeout => s.getLocation feature now timeout
  | .subscribe callback fail =>
    subscribe { s with live := register (register s.live feature callback) feature fail } feature callback fail
  | .unsubscribe => s.unsubscribe feature

/-- The subscriber at a place of the list is given a sample, and makes its calls. The loop goes on from its node, which
must not be freed. -/
def deliver (inside : ℕ → ι → List GeoCall) (sample : ℕ) (s : Geolocation ι) (place : ℕ) : Geolocation ι :=
  if s.fault then s
  else
    match s.subList[place]? with
    | none => s
    | some sub =>
      if s.live sub.feature sub.callback = false then s
      else
        let after := (inside sample sub.feature).foldl (fun s call => s.perform sub.feature call)
          { s with delivered := s.delivered ++ [(sample,sub.feature)] }
        if .unsubscribe ∈ inside sample sub.feature then { after with fault := true } else after

/-- One sample of a batch: the last one resolves the first request, and every valid one goes to all subscribers. -/
def onSample (inside : ℕ → ι → List GeoCall) (s : Geolocation ι) (sample : ℕ) (valid last : Bool) : Geolocation ι :=
  if valid then
    let s :=
      match s.getList with
      | request :: rest => if last then { s with getList := rest, settled := s.settled ++ [request.pid] } else s
      | [] => s
    (List.range s.subList.length).foldl (deliver inside sample) s
  else s

/-- The loop of `gnss_topic_cb`, which ends where a topic is closed. -/
def onSamples (inside : ℕ → ι → List GeoCall) (s : Geolocation ι) (sample : ℕ) : List Bool → Geolocation ι
  | [] => s
  | valid :: rest =>
    let s := onSample inside s sample valid rest.isEmpty
    if s.isActive = false ∧ s.topicList ≠ [] then s.closeIdle else onSamples inside s (sample + 1) rest

def gnssTopicCb (inside : ℕ → ι → List GeoCall) (samples : List Bool) : Geolocation ι :=
  if 0 < s.freed then { s with fault := true } else onSamples inside s 0 samples

def expired (now : ℤ) (request : GeoRequest ι) : Bool := now - request.time > request.timeout.tdiv 1000

/-- `geolocation_timer_handler`, which looks at the first request only. -/
def timerHandler (now : ℤ) : Geolocation ι :=
  closeIdle { s with
    getList := s.getList.dropWhile (expired now)
    settled := s.settled ++ (s.getList.takeWhile (expired now)).map GeoRequest.pid }

/-- `system_geolocation_onDetached`, and what the framework does after it. -/
def onDetached (feature : ι) : Geolocation ι :=
  let s := { s with getList := s.getList.filter (fun request => request.feature ≠ feature) }
  let s := s.unsubscribe feature
  { s with
    live := fun other id => s.live other id && !decide (other = feature)
    detached := Function.update s.detached feature true }

/-- `system_geolocation_onDestroy`. -/
def onDestroy : Geolocation ι :=
  { s with timer := .closing, getList := [], topicList := [], closing := s.closing ++ s.topicList }

def destroy : Geolocation ι :=
  let features := s.getList.map GeoRequest.feature ++ s.subList.map GeoSubscriber.feature
  (features.foldl onDetached s).onDestroy

def release : Geolocation ι :=
  { s with
    refCount := s.refCount - 1
    freed := if s.refCount - 1 = 0 then s.freed + 1 else s.freed
    fault := s.fault || decide (0 < s.freed) }

def step (s : Geolocation ι) : GeoOp ι → Geolocation ι
  | .call feature call => if s.detached feature ∨ s.timer ≠ .running then s else s.perform feature call
  | .batch samples inside =>
    s.topicList.foldl (fun s topic => if topic ∈ s.topicList then s.gnssTopicCb inside samples else s)
      { s with delivered := [] }
  | .tick now => if s.timer ≠ .running then s else if 0 < s.freed then { s with fault := true } else s.timerHandler now
  | .detach feature => if s.detached feature ∨ s.timer ≠ .running then s else s.onDetached feature
  | .destroy => if s.timer ≠ .running then s else s.destroy
  | .topicClosed topic => if topic ∈ s.closing then release { s with closing := s.closing.erase topic } else s
  | .timerClosed => if s.timer = .closing then release { s with timer := .closed } else s

/-- `system_geolocation_onCreate`. -/
def onCreate : Geolocation ι where
  topicList := []
  closing := []
  timer := .running
  getList := []
  subList := []
  refCount := 1
  freed := 0
  fault := false
  live := fun _ _ => false
  detached := fun _ => false
  settled := []
  delivered := []
  nextPid := 0
  nextTopic := 0

end Geolocation
end FeatureRuntime
