import FeatureRuntime.Transition
import Mathlib.Data.List.Sort
import Mathlib.Logic.Function.Basic

/-! The interconnect context: the connection to the phone, the `onopen` handler and the calls it
waits for, and the send tasks with their timers. -/
namespace FeatureRuntime

/-- The values of `status_`. -/
inductive MiwearStatus
  | clientInit
  | clientIdSent
  | connectFailed
  | connectionClosed
  | clientOnline
  | phoneConnected
  | phoneDisconnected
  | phoneUninstalled
  deriving DecidableEq, Repr

namespace InterconnectContext

/-- `__IsConnecting`. -/
def isConnectingStatus (status : MiwearStatus) : Bool :=
  status = .clientInit ∨ status = .clientIdSent

inductive StatusCode
  | invalidArgs | timeout | disconnect
  deriving DecidableEq, Repr

inductive Settlement
  | resolve
  | reject (code : StatusCode) (errMsg : String)
  deriving DecidableEq, Repr

inductive SendResult
  | ok | failed | timeout
  deriving DecidableEq, Repr

/-- What `ProcessSendResult` does to the promise. -/
def SendResult.settlement : SendResult → Settlement
  | .ok => .resolve
  | .timeout => .reject .timeout "send timeout"
  | .failed => .reject .disconnect "connection broken"

/-- What `uv_miwear_send` does: it refuses, accepts and reports later, or accepts and has reported
when it returns. -/
inductive SendOutcome
  | refused | accepted | reported (status : ℤ)
  deriving DecidableEq, Repr

/-- A `SendTask` at its address; `timer` says that its timer is not null. -/
structure SendTask where
  address : ℕ
  msg : String
  pid : ℕ
  timer : Bool
  deriving DecidableEq, Repr

end InterconnectContext

open InterconnectContext

/-- An `InterconnectContext` that has begun to connect, with its interface instance. The fields from
`opens` on say what happened. -/
structure InterconnectContext where
  status : MiwearStatus := .clientInit
  isPendingConnect : Bool := false
  /-- `handle_` is set. -/
  handle : Bool := false
  connFunc : ℕ := 0
  /-- `send_tasks_`, in the order of the set. -/
  sendTasks : List SendTask := []
  /-- The callback ids that the interface instance knows. -/
  callbacks : ℕ → Bool := fun _ => false
  /-- The running send timers, by the address of the task they hold. -/
  timers : List ℕ := []
  /-- The tasks that `uv_miwear_send` has yet to report, by address. -/
  inFlight : List ℕ := []
  /-- `miwear_->data` is not null. -/
  data : Bool := true
  /-- The object data of the interface instance is not null. -/
  objectData : Bool := false
  /-- The calls of `onopen` with their `isReconnected`. -/
  opens : List (ℕ × Bool) := []
  promises : ℕ := 0
  /-- The promises of the messages that were handed to `uv_miwear_send`. -/
  handed : List ℕ := []
  settled : List (ℕ × Settlement) := []
  /-- A deleted task was read, or the iteration of the set went on from an erased element. -/
  fault : Bool := false

inductive InterconnectOp
  /-- `interconnect.instance()`. -/
  | createInstance
  /-- A status message of the wear service; the last argument is what `uv_miwear_send` does with the
  tasks of the flush. -/
  | message (status : ℤ) (miwearStatus : MiwearStatus) (outcome : ℕ → SendOutcome)
  /-- The callback id comes from the conversion of the value, which registers it; 0 is no function. -/
  | setOnOpen (onopen : ℕ)
  /-- `data` is the text of the message, if it converts to one; the address is what `new` returns. -/
  | send (data : Option String) (address : ℕ) (outcome : SendOutcome)
  | timeout (address : ℕ)
  | completed (address : ℕ) (status : ℤ)
  | shutdown

namespace InterconnectContext

variable (c : InterconnectContext)

def isConnecting : Bool := isConnectingStatus c.status

def isConnected : Bool := c.status = .phoneConnected

def settle (pid : ℕ) (settlement : Settlement) : InterconnectContext :=
  { c with settled := c.settled ++ [(pid,settlement)] }

/-- `ProcessSendResult`: the task is erased, its promise settled, and the task deleted. -/
def processSendResult (address : ℕ) (result : SendResult) : InterconnectContext :=
  match c.sendTasks.find? (fun task => task.address = address) with
  | none => c
  | some task =>
    { c with sendTasks := c.sendTasks.filter (fun other => other.address ≠ address) }.settle
      task.pid result.settlement

/-- `__timer_send_cb`, which reads the task first. -/
def timerSendCb (address : ℕ) : InterconnectContext :=
  if c.sendTasks.any (fun task => task.address = address) then c.processSendResult address .timeout
  else { c with fault := true }

def miwearSendCb (address : ℕ) (status : ℤ) : InterconnectContext :=
  if c.data then c.processSendResult address (if status = 0 then .ok else .failed) else c

/-- `SendMsg`; what `uv_miwear_send` returns is not looked at. -/
def sendMsg (task : SendTask) (outcome : SendOutcome) : InterconnectContext :=
  let c := { c with handed := c.handed ++ [task.pid] }
  match outcome with
  | .refused => c
  | .accepted => { c with inFlight := task.address :: c.inFlight }
  | .reported status => c.miwearSendCb task.address status

def closeTimer (address : ℕ) : InterconnectContext :=
  { c with
    timers := c.timers.filter (· ≠ address)
    sendTasks := c.sendTasks.map fun task =>
      if task.address = address then { task with timer := false } else task }

/-- `ProcessPendingSendTasks` over the tasks that are left. When the task that was just sent is no
longer in the set, the iteration goes on from an erased element. -/
def processPendingSendTasks (outcome : ℕ → SendOutcome) : InterconnectContext → List SendTask → InterconnectContext
  | c, [] => c
  | c, task :: tasks =>
    if task.timer then
      let c := (c.closeTimer task.address).sendMsg task (outcome task.address)
      if c.sendTasks.any (fun other => other.address = task.address) then
        processPendingSendTasks outcome c tasks
      else { c with fault := true }
    else processPendingSendTasks outcome c tasks

def invokeConnect (isReconnect : Bool) : InterconnectContext :=
  if c.connFunc = 0 then { c with isPendingConnect := true }
  else if c.handle && c.callbacks c.connFunc then
    { c with opens := c.opens ++ [(c.connFunc,isReconnect)] }
  else c

def clearPendingConnect : InterconnectContext := { c with isPendingConnect := false }

/-- `__miwear_connect_cb` for a status message. -/
def miwearConnectCb (status : ℤ) (miwearStatus : MiwearStatus) (outcome : ℕ → SendOutcome) :
    InterconnectContext :=
  if !c.data then c
  else if status ≠ 0 then c
  else
    let oldStatus := c.status
    let c := { c with status := miwearStatus }
    match miwearStatus with
    | .phoneConnected =>
      (processPendingSendTasks outcome c c.sendTasks).invokeConnect (isConnectingStatus oldStatus)
    | .phoneDisconnected => c.clearPendingConnect
    | _ => c

def setConnFunc (func : ℕ) : InterconnectContext :=
  let c := { c with
    callbacks := Function.update c.callbacks c.connFunc false
    connFunc := func }
  if c.isPendingConnect then { c.invokeConnect true with isPendingConnect := false } else c

/-- `MiwearConnect_set_onopen`. -/
def setOnOpen (onopen : ℕ) : InterconnectContext :=
  if c.objectData then
    { c with callbacks := fun id => c.callbacks id || decide (id = onopen ∧ 0 < onopen) }.setConnFunc
      onopen
  else c

def getMsg : Option String → Option String
  | none => none
  | some value => if value.length = 0 then none else some value

/-- `CreateSendTask`; `send_tasks_` is ordered by address. -/
def createSendTask (address : ℕ) (msg : String) (pid : ℕ) (timer : Bool) : InterconnectContext :=
  { c with
    sendTasks := c.sendTasks.orderedInsert (fun task other => task.address ≤ other.address)
      ⟨address,msg,pid,timer⟩ }

/-- `PendingSendTask` for a message that is valid. -/
def pendingSendTask (address : ℕ) (msg : String) (pid : ℕ) : InterconnectContext :=
  { c.createSendTask address msg pid true with timers := address :: c.timers }

/-- `MiwearConnect_send` with the promise it was given. -/
def miwearConnectSend (pid : ℕ) (data : Option String) (address : ℕ) (outcome : SendOutcome) :
    InterconnectContext :=
  if !c.objectData then c.settle pid (.reject .disconnect "conn has been shoutdown")
  else if c.isConnected then
    match getMsg data with
    | none => c.settle pid (.reject .invalidArgs "invalid args")
    | some msg => (c.createSendTask address msg pid false).sendMsg ⟨address,msg,pid,false⟩ outcome
  else if c.isConnecting then
    match getMsg data with
    | none => c.settle pid (.reject .invalidArgs "invalid args")
    | some msg => c.pendingSendTask address msg pid
  else c.settle pid (.reject .disconnect "disconnect")

/-- `shutdown` with `destroy`. The manager has finalized the interface instance before. -/
def shutdown : InterconnectContext :=
  { c with
    objectData := false
    data := false
    timers := c.timers.filter fun address =>
      !c.sendTasks.any fun task => task.address = address && task.timer
    sendTasks := [] }

/-- The allocator returns no address of a live task, timers fire while they run, and accepted sends
are reported once. -/
def step (c : InterconnectContext) : InterconnectOp → InterconnectContext
  | .createInstance => if c.handle || !c.data then c else { c with handle := true, objectData := true }
  | .message status miwearStatus outcome => c.miwearConnectCb status miwearStatus outcome
  | .setOnOpen onopen => c.setOnOpen onopen
  | .send data address outcome =>
    if c.sendTasks.any (fun task => task.address = address) then c
    else { c with promises := c.promises + 1 }.miwearConnectSend c.promises data address outcome
  | .timeout address =>
    if address ∈ c.timers then { c with timers := c.timers.filter (· ≠ address) }.timerSendCb address
    else c
  | .completed address status =>
    if address ∈ c.inFlight then
      { c with inFlight := c.inFlight.erase address }.miwearSendCb address status
    else c
  | .shutdown => c.shutdown

end InterconnectContext
end FeatureRuntime
