import FeatureRuntime.LiveCallbacks
import Mathlib.Data.Nat.Notation
import Mathlib.Logic.Function.Basic

/-! `service.health`: the requests for recent samples and the subscriptions, the topics of uORB that serve both, and what
the code takes from the heap for them. -/
namespace FeatureRuntime

inductive HealthMagic
  | heartrate
  deriving DecidableEq

def getHealthMagic (type : ℤ) : Option HealthMagic := if type = 0 then some .heartrate else none

/-- An entry of `dataTypes`, with what uORB answers for its topic. -/
structure HealthEntry where
  type : ℤ
  present : Bool
  subscribes : Bool

/-- `HealthMetaData` of a request, with the number of the request. -/
structure HealthWaiting (ι : Type) where
  feature : ι
  request : ℕ

/-- `HealthMetaData` of a subscription. -/
structure HealthSubscriber (ι : Type) where
  feature : ι
  callback : ℤ
  fail : ℤ

structure HealthTopic (ι : Type) where
  magic : HealthMagic
  topicList : List ℕ
  getList : List (HealthWaiting ι)
  subList : List (HealthSubscriber ι)

/-- `HealthGetMeta`; a sample of the array is missing where there was none to take. -/
structure HealthRequest where
  pid : ℕ
  num : ℕ
  supported : ℕ
  array : List (Option ℤ)
  freed : Bool

/-- What is taken from the heap: the records of requests and of topics, the topics of the loop, the arrays, the JSON
objects and the JSON texts. -/
inductive HealthResource
  | request
  | record
  | topic
  | array
  | object
  | text
  deriving DecidableEq

/-- How a promise was settled, with samples or rejected, and whether its instance was there. -/
structure HealthOutcome (ι : Type) where
  feature : ι
  pid : ℕ
  attached : Bool
  supported : ℕ
  samples : Option (List (Option ℤ))

/-- `HealthContext` with the records of topics in the order of their making, the requests, and what the framework and the
heap know. -/
structure Health (ι : Type) where
  records : List (HealthTopic ι)
  event : HealthMagic → Option ℕ
  requests : List HealthRequest
  closing : List ℕ
  refCount : ℤ
  isDestroy : Bool
  freed : ℕ
  /-- A record was used after it had been freed. -/
  fault : Bool
  live : ι → ℤ → Bool
  detached : ι → Bool
  settled : List (HealthOutcome ι)
  made : HealthResource → ℕ
  released : HealthResource → ℕ
  nextPid : ℕ
  nextTopic : ℕ

inductive HealthCall
  | getRecentSamples (dataTypes : List HealthEntry)
  | subscribeSample (type callback fail : ℤ) (subscribes : Bool)
  | unsubscribeSample (type : Option ℤ)

/-- What happens: a call, a batch of samples on a topic, with the calls that a subscriber makes while it is given one, a
detach, the end of the feature, and the callback of a topic that is closed. -/
inductive HealthOp (ι : Type)
  | call (feature : ι) (call : HealthCall)
  | batch (topic : ℕ) (samples : List ℤ) (inside : ℕ → ι → List HealthCall)
  | detach (feature : ι)
  | destroy
  | topicClosed (topic : ℕ)

def HealthCall.drops (magic : HealthMagic) : HealthCall → Bool
  | .unsubscribeSample (some type) => decide (getHealthMagic type = some magic)
  | _ => false

namespace Health

open LiveCallbacks

variable {ι : Type} (s : Health ι)

def make (resource : HealthResource) : Health ι :=
  { s with made := fun other => s.made other + if other = resource then 1 else 0 }

def release (resource : HealthResource) : Health ι :=
  { s with released := fun other => s.released other + if other = resource then 1 else 0 }

/-- `FeaturePromiseResolve` and `FeaturePromiseReject`; the framework hears neither of an instance that is detached. -/
def settle (feature : ι) (pid supported : ℕ) (samples : Option (List (Option ℤ))) : Health ι :=
  if s.detached feature then s
  else { s with settled := s.settled ++ [⟨feature,pid,!s.detached feature,supported,samples⟩] }

def change (address : ℕ) (f : HealthTopic ι → HealthTopic ι) : Health ι :=
  { s with records := s.records.modify address f }

/-- `health_sensor_is_active`. -/
def isActive (address : ℕ) : Bool :=
  s.records[address]?.any (fun record => !record.getList.isEmpty || !record.subList.isEmpty)

def subsOf (address : ℕ) : List (HealthSubscriber ι) := s.records[address]?.elim [] HealthTopic.subList

def newRecord (magic : HealthMagic) : Health ι :=
  { s.make .record with records := s.records ++ [⟨magic,[],[],[]⟩] }

def addressFor (magic : HealthMagic) : ℕ := (s.event magic).getD s.records.length

def withRecord (magic : HealthMagic) : Health ι := if (s.event magic).isSome then s else s.newRecord magic

def openTopic (address : ℕ) : Health ι :=
  let s := s.make .topic
  { s.change address (fun record => { record with topicList := record.topicList ++ [s.nextTopic] }) with
    refCount := s.refCount + 1
    nextTopic := s.nextTopic + 1 }

/-- A topic whose `uv_topic_subscribe` fails. -/
def failTopic : Health ι := (s.make .topic).release .topic

def closeIdle (address : ℕ) : Health ι :=
  match s.records[address]?.bind (fun record => record.topicList.head?) with
  | none => s
  | some topic =>
    if s.isActive address then s
    else
      { s.change address (fun record => { record with topicList := record.topicList.tail }) with
        closing := s.closing ++ [topic] }

/-- The loop of `service_health_wrap_getRecentSamples`: how many entries are left, and the records of their topics;
nothing where a topic fails. A record that the loop makes is not kept in `event`. -/
def collect (s : Health ι) (num : ℕ) (tmpList : List ℕ) : List HealthEntry → Health ι × Option (ℕ × List ℕ)
  | [] => (s,some (num,tmpList))
  | entry :: rest =>
    match getHealthMagic entry.type with
    | none => collect s (num - 1) tmpList rest
    | some magic =>
      if entry.present = false then collect s (num - 1) tmpList rest
      else
        let address := s.addressFor magic
        let s := s.withRecord magic
        if s.isActive address then collect s num (tmpList ++ [address]) rest
        else if entry.subscribes then collect (s.openTopic address) num (tmpList ++ [address]) rest
        else (s.failTopic,none)

/-- `service_health_wrap_getRecentSamples`; the framework gives the number of the promise. -/
def getRecentSamples (feature : ι) (dataTypes : List HealthEntry) : Health ι :=
  let pid := s.nextPid
  let s := { s with nextPid := pid + 1 }
  if dataTypes = [] then s.settle feature pid 0 none
  else
    match collect (s.make .request) dataTypes.length [] dataTypes with
    | (s,none) => (s.release .request).settle feature pid 0 none
    | (s,some (num,tmpList)) =>
      if num = 0 then (s.release .request).settle feature pid 0 none
      else
        let waiting : HealthWaiting ι := ⟨feature,s.requests.length⟩
        let s := tmpList.foldl (fun s address => s.change address (fun record =>
          { record with getList := record.getList ++ [waiting] })) s
        { s.make .array with requests := s.requests ++ [⟨pid,num,num,[],false⟩] }

variable [DecidableEq ι]

def refuse (feature : ι) (callback fail : ℤ) : Health ι := { s with live := removeAll s.live feature callback fail }

/-- `service_health_wrap_subscribeSample`. -/
def subscribeSample (feature : ι) (type callback fail : ℤ) (subscribes : Bool) : Health ι :=
  if s.live feature callback = false then s.refuse feature callback fail
  else
    match getHealthMagic type with
    | none => s.refuse feature callback fail
    | some magic =>
      let address := s.addressFor magic
      let s := { s.withRecord magic with event := Function.update s.event magic (some address) }
      match (s.subsOf address).find? (fun sub => sub.feature = feature) with
      | some old =>
        { s.change address (fun record => { record with
            subList := record.subList.map (fun sub => if sub.feature = feature then ⟨feature,callback,fail⟩ else sub) })
          with live := removeAll s.live feature old.callback old.fail }
      | none =>
        let add := fun record : HealthTopic ι => { record with subList := record.subList ++ [⟨feature,callback,fail⟩] }
        if s.isActive address then s.change address add
        else if subscribes then (s.openTopic address).change address add
        else s.failTopic.refuse feature callback fail

def unsubscribe (address : ℕ) (feature : ι) : Health ι :=
  match (s.subsOf address).find? (fun sub => sub.feature = feature) with
  | none => s
  | some old =>
    closeIdle { s.change address (fun record => { record with
        subList := record.subList.eraseP (fun sub => sub.feature = feature) })
      with live := removeAll s.live feature old.callback old.fail } address

/-- `service_health_wrap_unsubscribeSample`; the argument has a number or not. -/
def unsubscribeSample (feature : ι) (type : Option ℤ) : Health ι :=
  match (type.bind getHealthMagic).bind s.event with
  | none => s
  | some address => s.unsubscribe address feature

def perform (feature : ι) : HealthCall → Health ι
  | .getRecentSamples dataTypes => s.getRecentSamples feature dataTypes
  | .subscribeSample type callback fail subscribes =>
    subscribeSample { s with live := register (register s.live feature callback) feature fail } feature type callback fail
      subscribes
  | .unsubscribeSample type => s.unsubscribeSample feature type

/-- The subscriber at a place of the list is given a sample, and makes its calls. The loop goes on from its node, which
must not be freed. The calls are those of an instance that is in the list, so it gets no longer on the way, and shorter only
by that node: the places from before the loop are enough. -/
def deliver (inside : ℕ → ι → List HealthCall) (address sample : ℕ) (s : Health ι) (place : ℕ) : Health ι :=
  match s.records[address]? with
  | none => s
  | some record =>
    match record.subList[place]? with
    | none => s
    | some sub =>
      if s.fault ∨ s.live sub.feature sub.callback = false then s
      else
        let calls := inside sample sub.feature
        let after := calls.foldl (fun s call => s.perform sub.feature call) s
        if calls.any (HealthCall.drops record.magic) then { after with fault := true } else after

def noRequest (address : ℕ) : Bool := s.records[address]?.all (fun record => record.getList.isEmpty)

/-- The loop of `health_topic_cb`. The text of a sample is forgotten where its object is freed, and the object is kept
where it is the last one and a request waits. -/
def onSamples (inside : ℕ → ι → List HealthCall) (address : ℕ) (s : Health ι) (sample : ℕ) : List ℤ → Health ι
  | [] => s
  | _ :: rest =>
    let s := (s.make .text).make .object
    let s := (List.range (s.subsOf address).length).foldl (deliver inside address sample) s
    let s := if rest ≠ [] ∨ s.noRequest address then s.release .object else s.release .text
    onSamples inside address s (sample + 1) rest

omit [DecidableEq ι] in
def finish (feature : ι) (request : HealthRequest) : Health ι :=
  ((s.settle feature request.pid request.supported (some request.array)).release .array).release .request

omit [DecidableEq ι] in
/-- The first request of a topic is given the last sample of the batch; the text and the object are made anew. -/
def serve (address : ℕ) (samples : List ℤ) : Health ι :=
  match s.records[address]?.bind (fun record => record.getList.head?) with
  | none => s
  | some waiting =>
    match s.requests[waiting.request]? with
    | none => s
    | some request =>
      if request.freed then { s with fault := true }
      else
        let array := request.array ++ [samples.getLast?]
        let served := { request with num := request.num - 1, array := array, freed := decide (request.num - 1 = 0) }
        let s := { s with requests := s.requests.set waiting.request served }
        let s := if request.num - 1 = 0 then s.finish waiting.feature served else s
        let s := s.change address (fun record => { record with getList := record.getList.tail })
        if samples = [] then s else (((s.make .text).make .object).release .object).release .text

def healthTopicCb (inside : ℕ → ι → List HealthCall) (address : ℕ) (samples : List ℤ) : Health ι :=
  ((onSamples inside address s 0 samples).serve address samples).closeIdle address

def detachTopic (feature : ι) (s : Health ι) (magic : HealthMagic) : Health ι :=
  match s.event magic with
  | none => s
  | some address =>
    (s.change address (fun record => { record with
      getList := record.getList.filter (fun waiting => waiting.feature ≠ feature) })).unsubscribe address feature

def magics : List HealthMagic := [.heartrate]

/-- `service_health_onDetached`, and what the framework does after it. -/
def onDetached (feature : ι) : Health ι :=
  let s := magics.foldl (detachTopic feature) s
  { s with
    live := fun other id => s.live other id && !decide (other = feature)
    detached := Function.update s.detached feature true }

omit [DecidableEq ι] in
def destroyTopic (s : Health ι) (magic : HealthMagic) : Health ι :=
  match s.event magic with
  | none => s
  | some address =>
    { s.change address (fun record => { record with topicList := [], getList := [] }) with
      closing := s.closing ++ s.records[address]?.elim [] HealthTopic.topicList }

/-- `service_health_onDestroy`, after the detach of the instances that are there. -/
def destroy (features : List ι) : Health ι :=
  let s := features.foldl (fun s feature => s.onDetached feature) s
  magics.foldl destroyTopic { s with isDestroy := true }

omit [DecidableEq ι] in
/-- `health_topic_close_cb`. -/
def topicClosed (topic : ℕ) : Health ι :=
  let s := s.release .topic
  { s with
    closing := s.closing.erase topic
    refCount := s.refCount - 1
    freed := if s.refCount - 1 = 0 ∧ s.isDestroy then s.freed + 1 else s.freed
    fault := s.fault || decide (0 < s.freed) }

omit [DecidableEq ι] in
def features : List ι :=
  s.records.flatMap (fun record =>
    record.getList.map HealthWaiting.feature ++ record.subList.map HealthSubscriber.feature)

def step (s : Health ι) : HealthOp ι → Health ι
  | .call feature call => if s.detached feature ∨ s.isDestroy then s else s.perform feature call
  | .batch topic samples inside =>
    match s.records.findIdx? (fun record => decide (topic ∈ record.topicList)) with
    | none => s
    | some address => s.healthTopicCb inside address samples
  | .detach feature => if s.detached feature ∨ s.isDestroy then s else s.onDetached feature
  | .destroy => if s.isDestroy then s else s.destroy s.features
  | .topicClosed topic => if topic ∈ s.closing then s.topicClosed topic else s

/-- `service_health_onCreate`. -/
def onCreate : Health ι where
  records := []
  event := fun _ => none
  requests := []
  closing := []
  refCount := 0
  isDestroy := false
  freed := 0
  fault := false
  live := fun _ _ => false
  detached := fun _ => false
  settled := []
  made := fun _ => 0
  released := fun _ => 0
  nextPid := 0
  nextTopic := 0

end Health
end FeatureRuntime
