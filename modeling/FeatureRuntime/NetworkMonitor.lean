import FeatureRuntime.Transition
import Mathlib.Data.Nat.Notation
import Mathlib.Tactic.Common

/-! `SystemNetworkImpl`: subscriptions to the state of the network, their monitoring tasks and the netlink datagrams that
wake them. -/
namespace FeatureRuntime

inductive NetType
  | wifi | bluetooth | none | ethernet | cellular | tun
  deriving DecidableEq

def NetType.tryFrom (value : UInt8) : Option NetType :=
  match value.toNat with
  | 1 => some .wifi
  | 2 => some .bluetooth
  | 3 => some .none
  | 4 => some .ethernet
  | 5 => some .cellular
  | 6 => some .tun
  | _ => Option.none

/-- What `uv_netstatus_gettype` returns and stores. -/
structure NetAnswer where
  result : ℤ
  typeValue : UInt8

/-- `fetch_current_network_type`. -/
def NetAnswer.fetch (answer : NetAnswer) : Option NetType :=
  if answer.result ≠ 0 then none else NetType.tryFrom answer.typeValue

/-- A netlink message: `nlmsg_len`, the two bytes of `nlmsg_type`, and the rest of the header with the body. -/
structure NetlinkMessage where
  len : Fin 4 → UInt8
  low : UInt8
  high : UInt8
  rest : List UInt8
  header : 10 ≤ rest.length

/-- `RTM_NEWLINK`. -/
def NetlinkMessage.Newlink (m : NetlinkMessage) : Prop := m.low.toNat + 256 * m.high.toNat = 16

instance (m : NetlinkMessage) : Decidable m.Newlink := inferInstanceAs (Decidable (_ = _))

def NetlinkMessage.bytes (m : NetlinkMessage) : List UInt8 :=
  m.len 0 :: m.len 1 :: m.len 2 :: m.len 3 :: m.low :: m.high :: m.rest

abbrev Datagram := List NetlinkMessage

/-- What `socket.recv` stores in a buffer of 128 bytes. -/
def Datagram.received (d : Datagram) : List UInt8 := (d.flatMap NetlinkMessage.bytes).take 128

def isNewlinkEvent (buf : List UInt8) : Bool :=
  if buf.length < 16 then false else (buf.getD 4 0).toNat + 256 * (buf.getD 5 0).toNat == 16

inductive NetPhase
  | called (valid : Bool)
  | waiting (old : ℕ)
  | monitoring
  | finished
  deriving DecidableEq

/-- A call of `subscribe`, with the id of its callback (0 for none), the socket of its monitoring task, on which an error
may come in place of a datagram, and whether its stop channel has fired. -/
structure NetSubscription where
  phase : NetPhase
  callback : ℕ := 0
  queue : List (Option Datagram) := []
  stopped : Bool := false
  lastType : Option NetType := none

inductive NetEvent
  | called (k : ℕ)
  | unsubscribed
  | started (k : ℕ)
  | received (k : ℕ) (d : Datagram)
  | evaluated (k : ℕ) (type : Option NetType)
  | posted (k : ℕ) (type : NetType)
  | delivered (k : ℕ) (type : NetType)
  /-- The id of the callback is not registered any more when the post runs. -/
  | lost (k : ℕ) (type : NetType)

/-- The instance, the tasks it spawned, the callbacks it posted and the ids that are registered. `current` has the stop
sender and the join handle; the log has the latest event first. -/
structure SystemNetwork where
  count : ℕ := 0
  subs : ℕ → NetSubscription := fun _ => { phase := .finished }
  current : Option ℕ := none
  queries : ℕ := 0
  posted : List (ℕ × NetType) := []
  registered : ℕ → Bool := fun _ => false
  log : List NetEvent := []

/-- What can happen: calls from the script, a datagram or an error on a socket, a poll of the task of a subscription and
the run of the next posted callback. A function that is registered still comes with the id that it has. -/
inductive NetOp
  | subscribe (callback : ℕ)
  | unsubscribe
  | arrive (k : ℕ) (d : Option Datagram)
  | poll (k : ℕ) (socket : Bool)
  | runPosted

namespace SystemNetwork

variable (answers : ℕ → NetAnswer) (s : SystemNetwork) (k : ℕ)

def setSub (sub : NetSubscription) : SystemNetwork := { s with subs := Function.update s.subs k sub }

def tell (event : NetEvent) : SystemNetwork := { s with log := event :: s.log }

/-- `fetch_current_network_type` in the task of a subscription. -/
def evaluate : SystemNetwork :=
  { s with queries := s.queries + 1 }.tell (.evaluated k (answers s.queries).fetch)

/-- `cb.invoke`, which posts, and the assignment of `last_type`. -/
def invoke (type : NetType) : SystemNetwork :=
  ({ s with posted := s.posted ++ [(k,type)] }.setSub k { s.subs k with lastType := some type }).tell (.posted k type)

def stop (j : ℕ) : SystemNetwork := s.setSub j { s.subs j with stopped := true }

def tryStopMonitoring : SystemNetwork :=
  match s.current with
  | none => s
  | some j => { s.stop j with current := none }

/-- The subscription, its task or a post has an `Arc` of the callback. -/
def holds : Bool :=
  (match (s.subs k).phase with
    | .called valid => valid
    | .waiting _ | .monitoring => true
    | .finished => false) || s.posted.any (·.1 = k)

/-- `FeatureCallback::drop`, with the last `Arc`. -/
def dropCallback : SystemNetwork :=
  if s.holds k then s else { s with registered := Function.update s.registered (s.subs k).callback false }

/-- `subscribe` from the initial callback on. A sender that is still there is dropped. -/
def start : SystemNetwork :=
  let s' := (s.tell (.started k)).evaluate answers k
  let s' := match (answers s.queries).fetch with
    | some type => s'.invoke k type
    | none => s'
  let s' := s'.tryStopMonitoring
  { s'.setSub k { s'.subs k with phase := .monitoring } with current := some k }

def receive (d : Datagram) : SystemNetwork :=
  let s' := s.tell (.received k d)
  if isNewlinkEvent d.received then
    let s' := s'.evaluate answers k
    match (answers s.queries).fetch with
    | some type => if (s.subs k).lastType ≠ some type then s'.invoke k type else s'
    | none => s'
  else s'

/-- The loop up to the first `recv` without a datagram; the flag says that it broke. -/
def drain : List (Option Datagram) → SystemNetwork → SystemNetwork × Bool
  | [], s => (s,false)
  | none :: _, s => (s,true)
  | some d :: queue, s => drain queue (s.receive answers k d)

/-- A poll of a monitoring task: `select` polls the monitoring future before the stop channel. -/
def pollMonitor : SystemNetwork :=
  let r := drain answers k (s.subs k).queue s
  let ended := r.2 || (r.1.subs k).stopped
  (r.1.setSub k { r.1.subs k with queue := [], phase := if ended then .finished else .monitoring }).dropCallback k

def poll (socket : Bool) : SystemNetwork :=
  match (s.subs k).phase with
  | .called valid =>
    if !valid then s.setSub k { s.subs k with phase := .finished }
    else if !socket then (s.setSub k { s.subs k with phase := .finished }).dropCallback k
    else
      match s.current with
      | none => s.start answers k
      | some old =>
        let s' := s.tryStopMonitoring
        if (s.subs old).phase = .finished then s'.start answers k
        else s'.setSub k { s'.subs k with phase := .waiting old }
  | .waiting old => if (s.subs old).phase = .finished then s.start answers k else s
  | .monitoring => s.pollMonitor answers k
  | .finished => s

def listens (phase : NetPhase) : Bool :=
  match phase with
  | .waiting _ | .monitoring => true
  | _ => false

def step : NetOp → SystemNetwork
  | .subscribe callback =>
    { s.setSub s.count { phase := .called (0 < callback), callback := callback } with
      count := s.count + 1
      registered := Function.update s.registered callback (0 < callback) }.tell (.called s.count)
  | .unsubscribe => s.tryStopMonitoring.tell .unsubscribed
  | .arrive k d =>
    if listens (s.subs k).phase then s.setSub k { s.subs k with queue := (s.subs k).queue ++ [d] } else s
  | .poll k socket => s.poll answers k socket
  | .runPosted =>
    match s.posted with
    | [] => s
    | (k,type) :: posted =>
      let told := if s.registered (s.subs k).callback then NetEvent.delivered k type else .lost k type
      ({ s with posted := posted }.tell told).dropCallback k

end SystemNetwork

end FeatureRuntime
