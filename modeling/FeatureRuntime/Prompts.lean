import FeatureRuntime.AppPath
import Mathlib.Data.Int.Notation

/-! `system.prompt`: the manager of an instance on the thread of the app, the server of its prompts on the thread of the user
interface, and what passes between the two. -/
namespace FeatureRuntime

def toastQueueLimit : ℕ := 10

def promptLoopPeriod : ℕ := 100

inductive PromptEvent
  | success
  | cancel
  | complete
  deriving DecidableEq

/-- What a toast has on the screen; an object may be deleted along with its parent. -/
inductive ToastObject
  | none
  | drawn
  | gone
  deriving DecidableEq

structure PromptToast where
  msg : CString
  duration : ℕ
  counter : ℕ
  obj : ToastObject

/-- A dialog with the context of its events; `number` says which call of `showDialog` it is for. -/
structure PromptDialog where
  title : CString
  msg : CString
  autoCancel : Bool
  number : ℕ

/-- What can be pressed: a button, or the dialog around them. -/
inductive DialogTarget
  | ok
  | cancel
  | background

structure DialogInfo where
  title : Option CString
  message : Option CString
  autocancel : Bool
  success : ℤ
  cancel : ℤ
  complete : ℤ

structure DialogCallbackInfo where
  success : ℤ
  cancel : ℤ
  complete : ℤ
  number : ℕ

namespace DialogCallbackInfo

def callback (info : DialogCallbackInfo) : PromptEvent → ℤ
  | .success => info.success
  | .cancel => info.cancel
  | .complete => info.complete

def ids (info : DialogCallbackInfo) : List ℤ := [info.success,info.cancel,info.complete]

theorem callback_mem_ids (info : DialogCallbackInfo) (event : PromptEvent) : info.callback event ∈ info.ids := by
  cases event <;> simp [callback,ids]

end DialogCallbackInfo

structure DialogTaskData where
  title : CString
  message : CString
  autocancel : Bool
  number : ℕ

/-- The tasks that the manager posts to the thread of the user interface. -/
inductive PromptTask
  | initServer
  | showToast (msg : CString) (duration : ℤ)
  | showDialog (data : DialogTaskData)
  | destroyServer

def PromptTask.dialog : PromptTask → Option ℕ
  | .showDialog data => some data.number
  | _ => none

/-- An event on its way back to the thread of the app. -/
structure FeaturePostEventData where
  number : ℕ
  event : PromptEvent
  index : ℤ

/-- An event was reported for a call of `showDialog`, with the callback for it, and whether the script heard it. -/
structure DialogReport where
  number : ℕ
  event : PromptEvent
  index : ℤ
  callback : ℤ
  heard : Bool

structure PromptServer where
  timer : Bool
  cur : Option PromptToast
  toasts : List PromptToast
  dialogs : List PromptDialog

namespace PromptServer

variable (server : PromptServer)

/-- `PromptServer::push` on one of the queues: what is dropped, and the queue. -/
def push {α : Type} (queue : List α) (prompt : α) : List α × List α :=
  let queue := queue ++ [prompt]
  if toastQueueLimit ≤ queue.length then (queue.take 1,queue.drop 1) else ([],queue)

theorem push_of_lt {α : Type} {queue : List α} (h : queue.length + 1 < toastQueueLimit) (prompt : α) :
    push queue prompt = ([],queue ++ [prompt]) := by
  simp [push,Nat.not_le.mpr h]

theorem length_push {α : Type} (queue : List α) (prompt : α) :
    (push queue prompt).1.length + (push queue prompt).2.length = queue.length + 1 := by
  simp only [push]
  split_ifs
  · rw [← List.length_append,List.take_append_drop,List.length_append,List.length_singleton]
  · simp

theorem mem_of_mem_push {α : Type} {queue : List α} {prompt x : α}
    (h : x ∈ (push queue prompt).1 ∨ x ∈ (push queue prompt).2) : x ∈ queue ∨ x = prompt := by
  simp only [push] at h
  split_ifs at h
  · have hmem : x ∈ queue ++ [prompt] := h.elim List.mem_of_mem_take List.mem_of_mem_drop
    simpa using hmem
  · simpa using h

def expire (tick : ℕ) : List PromptToast × PromptServer :=
  match server.cur with
  | none => ([],server)
  | some toast =>
    let toast := { toast with counter := toast.counter + tick }
    if toast.duration ≤ toast.counter then ([toast],{ server with cur := none })
    else ([],{ server with cur := some toast })

def nextToast : PromptServer :=
  match server.cur,server.toasts with
  | none,toast :: toasts => { server with cur := some { toast with obj := .drawn }, toasts := toasts }
  | _,_ => server

def allToasts : List PromptToast := server.cur.toList ++ server.toasts

@[simp] theorem dialogs_expire (tick : ℕ) : (server.expire tick).2.dialogs = server.dialogs := by
  simp only [expire]
  split
  · rfl
  · split_ifs <;> rfl

@[simp] theorem toasts_expire (tick : ℕ) : (server.expire tick).2.toasts = server.toasts := by
  simp only [expire]
  split
  · rfl
  · split_ifs <;> rfl

theorem length_expire (tick : ℕ) :
    (server.expire tick).1.length + (server.expire tick).2.allToasts.length = server.allToasts.length := by
  cases hcur : server.cur with
  | none => simp [expire,hcur]
  | some toast =>
    simp only [expire,hcur,allToasts]
    split_ifs <;> simp [Nat.add_comm]

@[simp] theorem dialogs_nextToast : server.nextToast.dialogs = server.dialogs := by
  simp only [nextToast]
  split <;> rfl

theorem length_nextToast : server.nextToast.allToasts.length = server.allToasts.length := by
  simp only [nextToast]
  split
  · rename_i hcur htoasts
    simp [allToasts,hcur,htoasts]
  · rfl

theorem mem_of_mem_nextToast {toast : PromptToast} (h : toast ∈ server.nextToast.toasts) : toast ∈ server.toasts := by
  simp only [nextToast] at h
  split at h
  · rename_i htoasts
    rw [htoasts]
    exact List.mem_cons_of_mem _ h
  · exact h

end PromptServer

inductive PromptResource
  | prompt
  | context
  | record
  deriving DecidableEq

structure Prompts where
  /-- The instance is attached, and its manager exists. -/
  manager : Bool
  /-- How often `showDialog` was called. -/
  next : ℕ
  dialogCallbacks : List DialogCallbackInfo
  /-- The callbacks of the instance that are registered. -/
  live : ℤ → Bool
  tasks : List PromptTask
  server : Option PromptServer
  screen : List PromptDialog
  posted : List FeaturePostEventData
  reports : List DialogReport
  /-- The dialogs that were drawn. -/
  shown : List ℕ
  made : PromptResource → ℕ
  released : PromptResource → ℕ
  /-- Something was used after it had been freed. -/
  fault : Bool

namespace Prompts

variable (s : Prompts)

/-- `PromptManager::PromptManager`, in `onRequired`. -/
def init : Prompts where
  manager := true
  next := 0
  dialogCallbacks := []
  live := fun _ => false
  tasks := [.initServer]
  server := some ⟨false,none,[],[]⟩
  screen := []
  posted := []
  reports := []
  shown := []
  made := fun _ => 0
  released := fun _ => 0
  fault := false

def make (resource : PromptResource) : Prompts :=
  { s with made := fun other => s.made other + if other = resource then 1 else 0 }

def release (resource : PromptResource) (n : ℕ) : Prompts :=
  { s with released := fun other => s.released other + if other = resource then n else 0 }

/-- The number of a dialog is an `uint32_t`. -/
def dialogId (number : ℕ) : ℕ := number % 4294967296

def findDialogInfo (id : ℕ) : Option DialogCallbackInfo :=
  s.dialogCallbacks.find? (fun info => dialogId info.number == id)

def eraseDialogInfo (id : ℕ) : Prompts :=
  { s with dialogCallbacks := s.dialogCallbacks.filter (fun info => dialogId info.number != id) }

/-- The conversion of the arguments registers the callbacks among them; a callback that is missing has the number zero. -/
def register (ids : List ℤ) : Prompts := { s with live := fun id => s.live id || decide (id ∈ ids ∧ 0 < id) }

/-- `system_prompt_wrap_showDialog` and `PromptManager::ShowDialog`. -/
def showDialog (info : DialogInfo) : Prompts :=
  if s.manager = false then s
  else
    let record : DialogCallbackInfo := ⟨info.success,info.cancel,info.complete,s.next⟩
    let s := s.register record.ids
    let s := (s.make .record).eraseDialogInfo (dialogId s.next)
    { s with
      next := s.next + 1
      dialogCallbacks := s.dialogCallbacks ++ [record]
      tasks := s.tasks ++ [.showDialog ⟨info.title.getD [],info.message.getD [],info.autocancel,s.next⟩] }

/-- `system_prompt_wrap_showToast` and `PromptManager::ShowToast`, with the duration in milliseconds. -/
def showToast (message : Option CString) (duration : ℤ) : Prompts :=
  if s.manager = false then s
  else
    match message with
    | none => s
    | some message =>
      if message = [] then s else { s with tasks := s.tasks ++ [.showToast message duration] }

/-- `system_prompt_onDetached` and `PromptManager::~PromptManager`; the framework then drops the callbacks. -/
def onDetached : Prompts :=
  if s.manager = false then s
  else
    { s with
      manager := false
      dialogCallbacks := []
      tasks := s.tasks ++ [.destroyServer]
      live := fun _ => false }

def deleteToasts (toasts : List PromptToast) : Prompts :=
  { s.release .prompt toasts.length with fault := s.fault || toasts.any (fun toast => toast.obj = .gone) }

/-- `PromptManager::ShowToastTask`, with `PromptToast::setAttr`. -/
def showToastTask (server : PromptServer) (msg : CString) (duration : ℤ) : Prompts :=
  let toast : PromptToast := ⟨msg,if 1500 ≤ duration ∧ duration ≤ 10000 then duration.toNat else 1500,0,.none⟩
  let (dropped,toasts) := PromptServer.push server.toasts toast
  { s.make .prompt with server := some { server with toasts := toasts } }.deleteToasts dropped

/-- `PromptManager::ShowDialogTask`. A dialog that has not been drawn sends nothing when it is deleted. -/
def showDialogTask (server : PromptServer) (data : DialogTaskData) : Prompts :=
  let dialog : PromptDialog := ⟨data.title,data.message,data.autocancel,data.number⟩
  let (dropped,dialogs) := PromptServer.push server.dialogs dialog
  { (s.make .prompt).make .context with
    server := some { server with dialogs := dialogs } }.release .prompt dropped.length

/-- `PromptServer::uninit`. -/
def uninit (server : PromptServer) : Prompts :=
  ({ s with server := none }.deleteToasts (server.toasts ++ server.cur.toList)).release .prompt server.dialogs.length

def runTask : Prompts :=
  match s.tasks with
  | [] => s
  | task :: tasks =>
    let s := { s with tasks := tasks }
    match s.server with
    | none => { s with fault := true }
    | some server =>
      match task with
      | .initServer => { s with server := some { server with timer := true } }
      | .showToast msg duration => s.showToastTask server msg duration
      | .showDialog data => s.showDialogTask server data
      | .destroyServer => s.uninit server

/-- `PromptServer::Dialogs::run`. -/
def runDialogs (server : PromptServer) : Prompts :=
  match server.dialogs with
  | [] => { s with server := some server }
  | dialog :: dialogs =>
    { s with
      server := some { server with dialogs := dialogs }
      screen := s.screen ++ [dialog]
      shown := s.shown ++ [dialog.number] }

/-- `PromptServer::run`. -/
def run : Prompts :=
  match s.server with
  | none => s
  | some server =>
    if server.timer = false then s
    else
      let (expired,server) := server.expire promptLoopPeriod
      (s.deleteToasts expired).runDialogs server.nextToast

/-- `Prompt::sendEvent`, with `PromptManager::DialogEventCallback`. -/
def sendEvent (number : ℕ) (event : PromptEvent) (index : ℤ) : Prompts :=
  let s := if s.manager then { s with posted := s.posted ++ [⟨number,event,index⟩] } else s
  if event = .complete then s.release .context 1 else s

def deleteObject (place : ℕ) (dialog : PromptDialog) : Prompts :=
  { s with screen := s.screen.eraseIdx place }.sendEvent dialog.number .complete 0

/-- The event for what was pressed, in `PromptDialog::handleLvglEvent`. -/
def pressed (dialog : PromptDialog) : DialogTarget → Option (PromptEvent × ℤ)
  | .ok => some (.success,0)
  | .cancel => some (.cancel,1)
  | .background => if dialog.autoCancel then some (.cancel,0) else none

/-- `PromptDialog::handleLvglEvent`, with `PromptDialog::close`. -/
def handleLvglEvent (place : ℕ) (dialog : PromptDialog) (target : DialogTarget) : Prompts :=
  let s :=
    match pressed dialog target with
    | none => s
    | some (event,index) => s.sendEvent dialog.number event index
  (s.deleteObject place dialog).release .prompt 1

/-- What `PromptDialog::draw` listens to. -/
def listens : DialogTarget → Bool
  | .ok => true
  | .cancel => true
  | .background => false

def press (place : ℕ) (target : DialogTarget) : Prompts :=
  match s.screen[place]? with
  | none => s
  | some dialog => if listens target then s.handleLvglEvent place dialog target else s

def dismiss (place : ℕ) : Prompts :=
  match s.screen[place]? with
  | none => s
  | some dialog => s.deleteObject place dialog

def dismissToast : Prompts :=
  { s with server := s.server.map (fun server =>
      { server with cur := server.cur.map (fun toast => { toast with obj := .gone }) }) }

/-- The callback for an event is invoked; the script may call `showDialog` in it. -/
def report (info : DialogCallbackInfo) (data : FeaturePostEventData) (inside : List DialogInfo) : Prompts :=
  let id := info.callback data.event
  let heard := decide (0 ≤ id) && s.live id
  let s := { s with reports := s.reports ++ [⟨info.number,data.event,data.index,id,heard⟩] }
  if heard then inside.foldl showDialog s else s

/-- `PromptManager::HandleDialogEventOnAppThread`. -/
def handleDialogEvent (data : FeaturePostEventData) (inside : List DialogInfo) : Prompts :=
  if s.manager = false then s
  else
    match s.findDialogInfo (dialogId data.number) with
    | none => s
    | some info =>
      let s := s.report info data inside
      if data.event = .complete then (s.release .record 1).eraseDialogInfo (dialogId data.number) else s

def runPosted (inside : List DialogInfo) : Prompts :=
  match s.posted with
  | [] => s
  | data :: posted => { s with posted := posted }.handleDialogEvent data inside

end Prompts

inductive PromptOp
  | showDialog (info : DialogInfo)
  | showToast (message : Option CString) (duration : ℤ)
  | runTask
  | timer
  | press (place : ℕ) (target : DialogTarget)
  | dismiss (place : ℕ)
  | dismissToast
  | runPosted (inside : List DialogInfo)
  | detach

namespace Prompts

def step (s : Prompts) : PromptOp → Prompts
  | .showDialog info => s.showDialog info
  | .showToast message duration => s.showToast message duration
  | .runTask => s.runTask
  | .timer => s.run
  | .press place target => s.press place target
  | .dismiss place => s.dismiss place
  | .dismissToast => s.dismissToast
  | .runPosted inside => s.runPosted inside
  | .detach => s.onDetached

theorem press_background (s : Prompts) (place : ℕ) : s.press place .background = s := by
  simp only [press,listens]
  split <;> rfl

def waiting (s : Prompts) : List PromptDialog := (s.server.map PromptServer.dialogs).getD []

def toasts (s : Prompts) : List PromptToast := (s.server.map PromptServer.allToasts).getD []

def held (s : Prompts) : PromptResource → ℕ
  | .prompt => s.toasts.length + s.waiting.length + s.screen.length
  | .context => s.waiting.length + s.screen.length
  | .record => s.dialogCallbacks.length

/-- The calls of `showDialog` whose dialogs wait, or are on the screen. -/
def opened (s : Prompts) : List ℕ :=
  s.screen.map PromptDialog.number ++ (s.waiting.map PromptDialog.number ++ s.tasks.filterMap PromptTask.dialog)

def listed (s : Prompts) : List ℕ :=
  s.shown ++ (s.waiting.map PromptDialog.number ++ s.tasks.filterMap PromptTask.dialog)

def coming (s : Prompts) (ends : Bool) : List ℕ :=
  (s.posted.filter (fun data => decide (data.event = .complete) = ends)).map FeaturePostEventData.number

/-- The calls that were completed, or answered with `success` or `cancel`. -/
def told (s : Prompts) (ends : Bool) : List ℕ :=
  (s.reports.filter (fun report => decide (report.event = .complete) = ends)).map DialogReport.number

/-- What is promised: a call is answered and completed at most once, and as long as the instance is attached it is completed or
its dialog is open or about to be; a callback that was given is heard; dialogs are shown in the order of the calls; what was
made and not deleted has an owner; a callback that is registered belongs to a record; and nothing is used after it has been
freed. -/
structure Right (s : Prompts) : Prop where
  answered : (s.told false).Nodup
  completed : (s.told true).Nodup
  every : s.manager = true → ∀ number, number < s.next →
    number ∈ s.told true ∨ number ∈ s.coming true ∨ number ∈ s.opened
  heard : ∀ report ∈ s.reports, 0 < report.callback → report.heard = true
  ordered : s.shown.Pairwise (· < ·)
  owned : ∀ resource, s.made resource = s.released resource + s.held resource
  removed : ∀ id, s.live id = true → ∃ info ∈ s.dialogCallbacks, id ∈ info.ids
  safe : s.fault = false

end Prompts
end FeatureRuntime
