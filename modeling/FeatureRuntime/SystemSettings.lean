import FeatureRuntime.AppPath
import FeatureRuntime.LiveCallbacks
import Mathlib.Logic.Function.Basic

/-! `system.settings`: the requests and the subscriptions that `miwear_settings` serves from a thread of its own, and the
queue that brings its messages to the loop, where the script runs between them. -/
namespace FeatureRuntime

/-- `SetReq` and `GetReq`. -/
inductive SettingsKind
  | set
  | get (key : CString)

/-- A `RequestCallback` of `request_set_`: the number of the object, and where the heap has put it. -/
structure SettingsRequest (ι : Type) where
  object : ℕ
  address : ℕ
  feature : ι
  pid : ℕ
  kind : SettingsKind

/-- A `SubInfo` of `sub_set_`. -/
structure SettingsSub (ι : Type) where
  object : ℕ
  address : ℕ
  feature : ι
  key : CString
  cid : ℤ

/-- What `miwear_settings` has been given as the argument of its callback, with the object that was there, and the key. -/
structure SettingsArgument where
  object : ℕ
  address : ℕ
  key : CString
  deriving DecidableEq

/-- A message of `msg_queue_`, and what its data says where it is a JSON text. -/
structure SettingsMessage where
  number : ℕ
  argument : SettingsArgument
  status : ℤ
  value : Option ℕ

/-- What `ProcessMessageAsyncCallback` still does: it looks for the request of a message, erases and deletes one that it has
called, looks for the subscription, and destroys the message. -/
inductive SettingsAct
  | request (message : SettingsMessage)
  | erase (object address : ℕ)
  | sub (message : SettingsMessage)
  | destroy (message : SettingsMessage)

/-- How a promise was settled: the request's object, the object that the reply was sent for, the key that the value
belongs to, and the error. -/
structure SettingsOutcome where
  pid : ℕ
  object : Option ℕ
  reply : Option ℕ
  key : Option CString
  error : Option (ℤ × String)

structure SettingsNotice (ι : Type) where
  feature : ι
  cid : ℤ
  key : CString
  value : ℕ

/-- `MiwearSettings` with the objects of its two sets, what the backend holds, what the loop still does of the messages that
it has taken, and what the framework and the heap know. -/
structure SystemSettings (ι : Type) where
  requests : List (SettingsRequest ι)
  subs : List (SettingsSub ι)
  held : List SettingsArgument
  registrations : List SettingsArgument
  queue : List SettingsMessage
  todo : List SettingsAct
  live : ι → ℤ → Bool
  detached : ι → Bool
  destroyed : Bool
  closed : Bool
  settled : List SettingsOutcome
  refused : List ℕ
  notified : List (SettingsNotice ι)
  deleted : List ℕ
  freed : List ℕ
  nextObject : ℕ
  nextMessage : ℕ
  nextPid : ℕ

/-- The argument of `setProp`: a string or a number, with its text where there is one, or something else. -/
inductive SettingsValue
  | text (s : Option CString)
  | other

/-- What happens: the calls of the instances, with the address that the heap gives and the answer of the backend; the
replies and the changes that the backend reports; the loop, which takes the messages and then goes on, when the script that
it has called has returned; and the end. -/
inductive SettingsOp (ι : Type)
  | getProp (feature : ι) (key : Option CString) (address : ℕ) (accepted : Bool)
  | setProp (feature : ι) (key : Option CString) (value : Option SettingsValue) (address : ℕ) (accepted : Bool)
  | subscribeProp (feature : ι) (key : Option CString) (cid : ℤ) (address : ℕ) (accepted : Bool)
  | unsubscribeProp (feature : ι) (key : CString) (accepted : Bool)
  | reply (argument : SettingsArgument) (status : ℤ) (value : Option ℕ)
  | change (key : CString) (status : ℤ) (value : Option ℕ)
  | processMessages
  | next
  | detach (feature : ι)
  | destroy
  | asyncClosed

namespace SystemSettings

open LiveCallbacks

/-- `FT_ERR_GENERAL`. -/
def errGeneral : ℤ := 200

/-- `FT_ERR_ARGS`. -/
def errArgs : ℤ := 202

/-- `FT_ERR_TASK_FAILED`. -/
def errTaskFailed : ℤ := 1000

variable {ι : Type} (s : SystemSettings ι)

/-- `FeaturePromiseResolve` and `FeaturePromiseReject`; the framework hears neither of an instance that is detached. -/
def settle (feature : ι) (outcome : SettingsOutcome) : SystemSettings ι :=
  if s.detached feature then s else { s with settled := s.settled ++ [outcome] }

def reject (feature : ι) (pid : ℕ) (code : ℤ) (message : String) : SystemSettings ι :=
  s.settle feature ⟨pid,none,none,none,some (code,message)⟩

def inUse (address : ℕ) : Bool :=
  s.requests.any (fun request => request.address = address) || s.subs.any (fun sub => sub.address = address)

/-- The request is made and handed to the backend, which keeps its address; where the backend refuses it is deleted. -/
def submit (feature : ι) (pid : ℕ) (kind : SettingsKind) (key : CString) (address : ℕ) (accepted : Bool) :
    SystemSettings ι :=
  let object := s.nextObject
  if accepted then
    { s with
      nextObject := object + 1
      requests := s.requests ++ [⟨object,address,feature,pid,kind⟩]
      held := s.held ++ [⟨object,address,key⟩] }
  else { s with nextObject := object + 1, deleted := s.deleted ++ [object], refused := s.refused ++ [pid] }

/-- `system_settings_wrap_getProp`, which does not look at the status of `GetProp`. -/
def getProp (feature : ι) (key : Option CString) (address : ℕ) (accepted : Bool) : SystemSettings ι :=
  let pid := s.nextPid
  let s := { s with nextPid := pid + 1 }
  match key with
  | none => s.reject feature pid errArgs "key is nullptr"
  | some key => s.submit feature pid (.get key) key address accepted

/-- `system_settings_wrap_setProp`. -/
def setProp (feature : ι) (key : Option CString) (value : Option SettingsValue) (address : ℕ) (accepted : Bool) :
    SystemSettings ι :=
  let pid := s.nextPid
  let s := { s with nextPid := pid + 1 }
  match key,value with
  | some key,some (.text (some _)) =>
    let s := s.submit feature pid .set key address accepted
    if accepted then s else s.settle feature ⟨pid,none,none,none,some (errGeneral,"miwear_settings_setprop failed")⟩
  | some _,some (.text none) => s.reject feature pid errArgs "conver to string failed"
  | some _,some .other => s.reject feature pid errArgs "setprop should be string or number"
  | _,_ => s.reject feature pid errArgs "key or value is nullptr"

/-- `SetReq::Call` and `GetReq::Call`: the key whose value a get is resolved with, and the error. -/
def answer (kind : SettingsKind) (status : ℤ) (value : Option ℕ) : Option CString × Option (ℤ × String) :=
  match kind with
  | .set => (none,if status = 0 then none else some (errGeneral,"miwear_settings setprop failed"))
  | .get key =>
    if status = 0 then if value.isSome then (some key,none) else (none,some (errTaskFailed,"invalid json string"))
    else (none,some (errGeneral,"miwear_settings: getprop failed"))

/-- The request at the address of a message is called; it is erased and deleted after that. -/
def callRequest (message : SettingsMessage) : SystemSettings ι :=
  match s.requests.find? (fun request => request.address = message.argument.address) with
  | none => s
  | some request =>
    let result := answer request.kind message.status message.value
    let s := s.settle request.feature
      ⟨request.pid,some request.object,some message.argument.object,result.1,result.2⟩
    { s with todo := .erase request.object request.address :: s.todo }

def eraseRequest (object address : ℕ) : SystemSettings ι :=
  { s with
    requests := s.requests.filter (fun request => request.address ≠ address)
    deleted := s.deleted ++ [object] }

/-- `SubInfo::Call`, of the subscription that is at the address of a message: what it invokes. -/
def notice (message : SettingsMessage) : Option (SettingsNotice ι) := do
  let sub ← s.subs.find? (fun sub => sub.address = message.argument.address)
  let value ← (if message.status = 0 then message.value else none)
  if s.live sub.feature sub.cid then some ⟨sub.feature,sub.cid,message.argument.key,value⟩ else none

def act : SettingsAct → SystemSettings ι
  | .request message => s.callRequest message
  | .erase object address => s.eraseRequest object address
  | .sub message => { s with notified := s.notified ++ (s.notice message).toList }
  | .destroy message => { s with freed := s.freed ++ [message.number] }

def next : SystemSettings ι :=
  match s.todo with
  | [] => s
  | act :: todo => { s with todo := todo }.act act

/-- The subscriptions, the messages and what is notified stay as they are, and no request goes. -/
structure Frame (s t : SystemSettings ι) : Prop where
  subs : t.subs = s.subs
  registrations : t.registrations = s.registrations
  live : t.live = s.live
  destroyed : t.destroyed = s.destroyed
  queue : t.queue = s.queue
  todo : t.todo = s.todo
  notified : t.notified = s.notified
  requests : ∀ request ∈ s.requests, request ∈ t.requests

theorem Frame.trans {s t u : SystemSettings ι} (h : s.Frame t) (h' : t.Frame u) : s.Frame u :=
  ⟨h'.subs.trans h.subs,h'.registrations.trans h.registrations,h'.live.trans h.live,h'.destroyed.trans h.destroyed,
    h'.queue.trans h.queue,h'.todo.trans h.todo,h'.notified.trans h.notified,
    fun request hrequest => h'.requests request (h.requests request hrequest)⟩

theorem frame_settle (s : SystemSettings ι) (feature : ι) (outcome : SettingsOutcome) :
    s.Frame (s.settle feature outcome) := by
  simp only [settle]
  split_ifs
  · exact ⟨rfl,rfl,rfl,rfl,rfl,rfl,rfl,fun _ hrequest => hrequest⟩
  · exact ⟨rfl,rfl,rfl,rfl,rfl,rfl,rfl,fun _ hrequest => hrequest⟩

theorem frame_submit (s : SystemSettings ι) (feature : ι) (pid : ℕ) (kind : SettingsKind) (key : CString)
    (address : ℕ) (accepted : Bool) : s.Frame (s.submit feature pid kind key address accepted) := by
  simp only [submit]
  split_ifs
  · exact ⟨rfl,rfl,rfl,rfl,rfl,rfl,rfl,fun _ hrequest => List.mem_append_left _ hrequest⟩
  · exact ⟨rfl,rfl,rfl,rfl,rfl,rfl,rfl,fun _ hrequest => hrequest⟩

theorem frame_getProp (s : SystemSettings ι) (feature : ι) (key : Option CString) (address : ℕ) (accepted : Bool) :
    s.Frame (s.getProp feature key address accepted) := by
  have hnew : s.Frame { s with nextPid := s.nextPid + 1 } :=
    ⟨rfl,rfl,rfl,rfl,rfl,rfl,rfl,fun _ hrequest => hrequest⟩
  cases key with
  | none => exact hnew.trans (frame_settle _ _ _)
  | some key => exact hnew.trans (frame_submit _ _ _ _ _ _ _)

theorem frame_setProp (s : SystemSettings ι) (feature : ι) (key : Option CString) (value : Option SettingsValue)
    (address : ℕ) (accepted : Bool) : s.Frame (s.setProp feature key value address accepted) := by
  have hnew : s.Frame { s with nextPid := s.nextPid + 1 } :=
    ⟨rfl,rfl,rfl,rfl,rfl,rfl,rfl,fun _ hrequest => hrequest⟩
  simp only [setProp]
  split
  · split_ifs
    · exact hnew.trans (frame_submit _ _ _ _ _ _ _)
    · exact (hnew.trans (frame_submit _ _ _ _ _ _ _)).trans (frame_settle _ _ _)
  · exact hnew.trans (frame_settle _ _ _)
  · exact hnew.trans (frame_settle _ _ _)
  · exact hnew.trans (frame_settle _ _ _)

/-- `ProcessMessageAsyncCallback`, which takes the messages of the queue. -/
def processMessages : SystemSettings ι :=
  { s with queue := [], todo := s.queue.flatMap (fun message => [.request message,.sub message,.destroy message]) }

/-- `MiwearSettingsCallback`: the message is cloned and put into the queue. -/
def miwearSettingsCallback (argument : SettingsArgument) (status : ℤ) (value : Option ℕ) : SystemSettings ι :=
  { s with queue := s.queue ++ [⟨s.nextMessage,argument,status,value⟩], nextMessage := s.nextMessage + 1 }

def change (key : CString) (status : ℤ) (value : Option ℕ) : SystemSettings ι :=
  (s.registrations.filter (fun argument => argument.key = key)).foldl
    (fun s argument => s.miwearSettingsCallback argument status value) s

/-- The messages of a change are put into the queue, one for each registration. -/
theorem foldl_callback_eq (arguments : List SettingsArgument) (status : ℤ) (value : Option ℕ) (s : SystemSettings ι) :
    ∃ messages nextMessage, arguments.foldl (fun s argument => s.miwearSettingsCallback argument status value) s =
        { s with queue := s.queue ++ messages, nextMessage := nextMessage } ∧
      messages.map (fun message => (message.argument,message.status,message.value)) =
        arguments.map (fun argument => (argument,status,value)) := by
  induction arguments generalizing s with
  | nil => exact ⟨[],s.nextMessage,by simp,rfl⟩
  | cons argument rest ih =>
    obtain ⟨messages,nextMessage,hstate,hmap⟩ := ih (s.miwearSettingsCallback argument status value)
    refine ⟨⟨s.nextMessage,argument,status,value⟩ :: messages,nextMessage,?_,?_⟩
    · rw [List.foldl_cons,hstate]
      simp [miwearSettingsCallback]
    · rw [List.map_cons,List.map_cons,hmap]

variable [DecidableEq ι]

def findSub (feature : ι) (key : CString) : Option (SettingsSub ι) :=
  s.subs.find? (fun sub => sub.key = key ∧ sub.feature = feature)

/-- `SubscribeProp`, and the promise of `subscribeProp`. -/
def subscribeProp (feature : ι) (key : Option CString) (cid : ℤ) (address : ℕ) (accepted : Bool) : SystemSettings ι :=
  let pid := s.nextPid
  let s := { s with nextPid := pid + 1 }
  match key with
  | none => s.reject feature pid errArgs "key is nullptr"
  | some key =>
    let resolved : SettingsOutcome := ⟨pid,none,none,none,none⟩
    match s.findSub feature key with
    | some old =>
      settle { s with
        live := remove s.live feature old.cid
        subs := s.subs.map (fun sub =>
          if sub.key = key ∧ sub.feature = feature then { sub with cid := cid } else sub) } feature resolved
    | none =>
      let object := s.nextObject
      if accepted then
        settle { s with
          nextObject := object + 1
          subs := s.subs ++ [⟨object,address,feature,key,cid⟩]
          registrations := s.registrations ++ [⟨object,address,key⟩] } feature resolved
      else
        reject { s with
          nextObject := object + 1
          deleted := s.deleted ++ [object]
          live := remove s.live feature cid } feature pid errGeneral "miwear_settings_subscribe failed"

/-- A subscription is about no request and no message. -/
theorem subscribeProp_frame (s : SystemSettings ι) (feature : ι) (key : Option CString) (cid : ℤ) (address : ℕ)
    (accepted : Bool) : let t := s.subscribeProp feature key cid address accepted
    t.todo = s.todo ∧ t.queue = s.queue ∧ t.notified = s.notified ∧ ∀ request ∈ s.requests, request ∈ t.requests := by
  have hsettle : ∀ (t : SystemSettings ι) outcome, t.todo = s.todo → t.queue = s.queue → t.notified = s.notified →
      t.requests = s.requests → let u := t.settle feature outcome
      u.todo = s.todo ∧ u.queue = s.queue ∧ u.notified = s.notified ∧ ∀ request ∈ s.requests, request ∈ u.requests := by
    intro t outcome htodo hqueue hnotified hrequests
    have hframe := frame_settle t feature outcome
    exact ⟨hframe.todo.trans htodo,hframe.queue.trans hqueue,hframe.notified.trans hnotified,hrequests ▸ hframe.requests⟩
  simp only [subscribeProp]
  split
  · exact hsettle _ _ rfl rfl rfl rfl
  · split
    · exact hsettle _ _ rfl rfl rfl rfl
    · split_ifs
      · exact hsettle _ _ rfl rfl rfl rfl
      · exact hsettle _ _ rfl rfl rfl rfl

def dropSubs (given : SettingsSub ι → Bool) : SystemSettings ι :=
  { s with
    deleted := s.deleted ++ (s.subs.filter given).map SettingsSub.object
    live := fun feature id =>
      s.live feature id && !(s.subs.filter given).any (fun sub => decide (sub.feature = feature ∧ sub.cid = id))
    subs := s.subs.filter (fun sub => !given sub) }

/-- `UnsubscribeProp`; `miwear_settings_unsubscribe_prop` drops all registrations of the key. -/
def unsubscribeProp (feature : ι) (key : CString) (accepted : Bool) : SystemSettings ι :=
  if accepted then
    dropSubs { s with registrations := s.registrations.filter (fun argument => argument.key ≠ key) }
      (fun sub => sub.key = key ∧ sub.feature = feature)
  else s

/-- `MiwearSettings::Detach`, and what the framework does after it. -/
def detach (feature : ι) : SystemSettings ι :=
  let requests := s.requests.filter (fun request => request.feature = feature)
  let s := dropSubs { s with
    deleted := s.deleted ++ requests.map SettingsRequest.object
    requests := s.requests.filter (fun request => request.feature ≠ feature) } (fun sub => sub.feature = feature)
  { s with
    live := fun other id => s.live other id && !decide (other = feature)
    detached := Function.update s.detached feature true }

/-- `MiwearSettings::Destroy`, after the detach of the instances that are there. -/
def destroy : SystemSettings ι :=
  let features := s.requests.map SettingsRequest.feature ++ s.subs.map SettingsSub.feature
  { features.foldl (fun s feature => s.detach feature) s with destroyed := true, held := [], registrations := [] }

omit [DecidableEq ι] in
/-- `MiwearSettings::~MiwearSettings`: the objects of the sets are deleted, and then those that the queue names, which have
all been deleted before. -/
def asyncClosed : SystemSettings ι :=
  { s with
    deleted := s.deleted ++ s.subs.map SettingsSub.object ++ s.requests.map SettingsRequest.object ++
      s.queue.map (fun message => message.argument.object)
    freed := s.freed ++ s.queue.map SettingsMessage.number
    subs := []
    requests := []
    queue := []
    closed := true }

/-- The calls of an instance come with its callbacks and an address that is free. The framework hears no calls of an
instance that is detached, and none after the end; nor does the backend report anything then. The loop takes messages, and
closes the handle, when it is done with those that it has. -/
def step (s : SystemSettings ι) : SettingsOp ι → SystemSettings ι
  | .getProp feature key address accepted =>
    if s.detached feature ∨ s.destroyed ∨ s.inUse address then s else s.getProp feature key address accepted
  | .setProp feature key value address accepted =>
    if s.detached feature ∨ s.destroyed ∨ s.inUse address then s else s.setProp feature key value address accepted
  | .subscribeProp feature key cid address accepted =>
    if s.detached feature ∨ s.destroyed ∨ s.inUse address then s
    else subscribeProp { s with live := register s.live feature cid } feature key cid address accepted
  | .unsubscribeProp feature key accepted =>
    if s.detached feature ∨ s.destroyed then s else s.unsubscribeProp feature key accepted
  | .reply argument status value =>
    if argument ∈ s.held then s.miwearSettingsCallback argument status value else s
  | .change key status value => s.change key status value
  | .processMessages => if s.destroyed ∨ s.todo.isEmpty = false then s else s.processMessages
  | .next => s.next
  | .detach feature => if s.detached feature ∨ s.destroyed then s else s.detach feature
  | .destroy => if s.destroyed then s else s.destroy
  | .asyncClosed => if s.destroyed ∧ s.closed = false ∧ s.todo.isEmpty then s.asyncClosed else s

/-- `system_settings_onCreate`. -/
def onCreate : SystemSettings ι where
  requests := []
  subs := []
  held := []
  registrations := []
  queue := []
  todo := []
  live := fun _ _ => false
  detached := fun _ => false
  destroyed := false
  closed := false
  settled := []
  refused := []
  notified := []
  deleted := []
  freed := []
  nextObject := 0
  nextMessage := 0
  nextPid := 0

end SystemSettings
end FeatureRuntime
