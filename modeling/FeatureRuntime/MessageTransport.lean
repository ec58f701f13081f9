import FeatureRuntime.MachineInt
import FeatureRuntime.Transition
import Mathlib.Logic.Function.Basic

/-! The requests of a `ClientConnection`: reply objects, the tasks of its board with their timers,
and the replies, time-outs and send failures that complete them. -/
namespace FeatureRuntime

/-- `timer_` of a task; an expired timer stays allocated until it is stopped. -/
inductive TimerState
  | none | armed | expired
  deriving DecidableEq, Repr

/-- `MsgTask` with the `MessageReply` that it holds, given by its address. -/
structure MsgTask where
  pid : ℤ
  reply : ℕ
  isDone : Bool := false
  timer : TimerState := .armed
  /-- The reply object still points to its connection and its channel. -/
  attached : Bool := true
  deriving DecidableEq, Repr

namespace MsgTask

/-- `getReplyId`: the address of the reply object as an `int32_t`. -/
def replyId (task : MsgTask) : ℤ := toInt task.reply

def stopTimer (task : MsgTask) : MsgTask := { task with timer := .none }

def answer (replyId : ℤ) (task : MsgTask) : MsgTask :=
  if task.isDone ∨ task.replyId = replyId then { task.stopTimer with isDone := true } else task

variable (replyId : ℤ) (task : MsgTask)

@[simp] theorem answer_reply : (task.answer replyId).reply = task.reply := by
  unfold answer
  split_ifs <;> rfl

@[simp] theorem answer_pid : (task.answer replyId).pid = task.pid := by
  unfold answer
  split_ifs <;> rfl

@[simp] theorem answer_attached : (task.answer replyId).attached = task.attached := by
  unfold answer
  split_ifs <;> rfl

@[simp] theorem answer_isDone :
    (task.answer replyId).isDone = (task.isDone || decide (task.replyId = replyId)) := by
  unfold answer
  split_ifs with h
  · simpa using h
  · simp [not_or.mp h]

end MsgTask

inductive CompletionCause
  /-- A peer called `onReply` on the reply object of `sender`. -/
  | reply (sender : ℕ) (message : String)
  | timeout
  /-- The caller was told that the request was not sent. -/
  | sendFailed
  deriving DecidableEq, Repr

/-- A completion, as the client channel sees it; requests are numbered in the order they are made. -/
structure Completion where
  request : ℕ
  pid : ℤ
  cause : CompletionCause
  deriving DecidableEq, Repr

/-- The message mode of `ClientConnection`. Tasks are shared: a copy of the board refers to the same
ones, so they are kept by request, and `taskList` is `task_list_` of the board. -/
structure ClientConnection where
  requests : ℕ := 0
  tasks : ℕ → Option MsgTask := fun _ => none
  taskList : List ℕ := []
  /-- The requests whose `sendMessage` has not returned from the service yet. -/
  sending : List ℕ := []
  completions : List Completion := []
  /-- `clearUvTimer` ran; the connection is deleted right after it. -/
  cleared : Bool := false

inductive TransportOp
  /-- `sendMessage`: the service that was looked up, if any, and the address of the new reply. -/
  | sendMessage (found : Bool) (reply : ℕ) (pid : ℤ)
  /-- The service returns from the call that a request made. -/
  | sent (request : ℕ) (ok : Bool)
  /-- A peer calls `onReply` on the reply object of a request. -/
  | onReply (request : ℕ) (message : String)
  | timerExpired (request : ℕ)
  | clearUvTimer

namespace ClientConnection

variable (s : ClientConnection)

def setTask (request : ℕ) (task : MsgTask) : ClientConnection :=
  { s with tasks := Function.update s.tasks request (some task) }

def complete (request : ℕ) (pid : ℤ) (cause : CompletionCause) : ClientConnection :=
  { s with completions := s.completions ++ [⟨request,pid,cause⟩] }

/-- `MsgTask::doing` for a message to the reply object of `sender`. -/
def doing (request : ℕ) (task : MsgTask) (sender : ℕ) (message : String) : ClientConnection :=
  let s := s.setTask request { task with isDone := true }
  if task.attached then s.complete request task.pid (.reply sender message) else s

/-- `TaskBoard::executeTask` on a list of tasks; also returns what is left of the list. -/
def executeTask (sender : ℕ) (replyId : ℤ) (message : String) : List ℕ → ClientConnection → List ℕ × ClientConnection
  | [], s => ([],s)
  | request :: board, s =>
    match s.tasks request with
    | none => executeTask sender replyId message board s
    | some task =>
      if task.isDone then
        executeTask sender replyId message board (s.setTask request task.stopTimer)
      else if task.replyId = replyId then
        executeTask sender replyId message board ((s.doing request task sender message).setTask request
            { task.stopTimer with isDone := true })
      else
        let rest := executeTask sender replyId message board s
        (request :: rest.1,rest.2)

def freshReply (reply : ℕ) : Bool :=
  (List.range s.requests).all (fun r => (s.tasks r).all (fun task => task.reply ≠ reply))

/-- `ClientConnection::sendMessage` up to the call of the service. The task is committed before it. -/
def sendMessage (found : Bool) (reply : ℕ) (pid : ℤ) : ClientConnection :=
  let request := s.requests
  if s.cleared then s
  else if found then
    if s.freshReply reply then
      { s with
        requests := request + 1
        tasks := Function.update s.tasks request (some { pid := pid, reply := reply })
        taskList := s.taskList ++ [request]
        sending := request :: s.sending }
    else s
  else { s.complete request pid .sendFailed with requests := request + 1 }

/-- The rest of `sendMessage`; a caller that gets -1 rejects the promise. -/
def sent (request : ℕ) (ok : Bool) : ClientConnection :=
  if request ∈ s.sending then
    let s := { s with sending := s.sending.erase request }
    if ok then s else s.complete request ((s.tasks request).elim 0 (·.pid)) .sendFailed
  else s

/-- `MessageReply::onReply`. The board it works on is a copy, for `getTaskBoard` returns a reference
to a constant and the variable is declared `auto`. -/
def onReply (request : ℕ) (message : String) : ClientConnection :=
  match s.tasks request with
  | some task =>
    if task.attached then (executeTask request task.replyId message s.taskList s).2 else s
  | none => s

def timerExpired (request : ℕ) : ClientConnection :=
  match s.tasks request with
  | some task =>
    if task.timer = .armed then
      if task.isDone then s.setTask request { task with timer := .expired }
      else
        let s := s.setTask request { task with timer := .expired, isDone := true }
        if task.attached then s.complete request task.pid .timeout else s
    else s
  | none => s

/-- `TaskBoard::clearTimer`. -/
def clearUvTimer : ClientConnection :=
  { s with
    tasks := fun request =>
      if request ∈ s.taskList then
        (s.tasks request).map (fun task => { task.stopTimer with attached := false })
      else s.tasks request
    taskList := []
    cleared := true }

def step (s : ClientConnection) : TransportOp → ClientConnection
  | .sendMessage found reply pid => s.sendMessage found reply pid
  | .sent request ok => s.sent request ok
  | .onReply request message => s.onReply request message
  | .timerExpired request => s.timerExpired request
  | .clearUvTimer => s.clearUvTimer

def Pending (request : ℕ) (task : MsgTask) : Prop :=
  s.tasks request = some task ∧ request ∈ s.taskList ∧ task.isDone = false

/-- The tasks of the board are those of distinct earlier requests; tasks that are not on the board
any more are out of use. -/
structure BoardShape : Prop where
  nodup : s.taskList.Nodup
  member : ∀ r ∈ s.taskList, ∃ task, s.tasks r = some task ∧ task.attached = true
  retired : ∀ r task, s.tasks r = some task → r ∉ s.taskList → task.attached = false ∧ task.timer = .none
  bound : ∀ r task, s.tasks r = some task → r < s.requests
  sendingNodup : s.sending.Nodup
  sendingTask : ∀ r ∈ s.sending, ∃ task, s.tasks r = some task
  /-- Live reply objects have different addresses: what the allocator guarantees, and a step asks of a new one. -/
  distinct : ∀ r r' task task', s.tasks r = some task → s.tasks r' = some task' → task.reply = task'.reply → r = r'
  completed : ∀ c ∈ s.completions, c.request < s.requests

variable {s}

@[simp] theorem setTask_tasks_self (request : ℕ) (task : MsgTask) :
    (s.setTask request task).tasks request = some task := Function.update_self ..

theorem setTask_tasks_of_ne {request r : ℕ} (h : r ≠ request) (task : MsgTask) :
    (s.setTask request task).tasks r = s.tasks r := Function.update_of_ne h ..

section Execute

variable (sender : ℕ) (replyId : ℤ) (message : String)

def answered (s : ClientConnection) (request : ℕ) : Option Completion :=
  (s.tasks request).bind (fun task =>
    if task.isDone = false ∧ task.replyId = replyId ∧ task.attached = true then
      some ⟨request,task.pid,.reply sender message⟩
    else none)

theorem answered_congr {s s' : ClientConnection} {request : ℕ} (h : s'.tasks request = s.tasks request) :
    answered sender replyId message s' request = answered sender replyId message s request := by
  rw [answered,answered,h]

/-- A message goes to every pending task with the id, and keeps every task on the board. -/
theorem executeTask_eq {board : List ℕ} (hnodup : board.Nodup) (s : ClientConnection) :
    (executeTask sender replyId message board s).2 =
      { s with
        tasks := fun r =>
          if r ∈ board then (s.tasks r).map (MsgTask.answer replyId) else s.tasks r
        completions := s.completions ++
          board.filterMap (answered sender replyId message s) } := by
  induction board generalizing s with
  | nil => simp [executeTask]
  | cons r board ih =>
    obtain ⟨hr,hnodup⟩ := List.nodup_cons.mp hnodup
    have hstep : ∀ s' : ClientConnection, (∀ q, q ≠ r → s'.tasks q = s.tasks q) →
        board.filterMap (answered sender replyId message s') =
          board.filterMap (answered sender replyId message s) := by
      intro s' hs'
      apply List.filterMap_congr
      intro q hq
      exact answered_congr _ _ _ (hs' q (fun h => hr (h ▸ hq)))
    have htasks : ∀ (task : ℕ → Option MsgTask), (∀ q, q ≠ r → task q = s.tasks q) →
        task r = (s.tasks r).map (MsgTask.answer replyId) →
        (fun q => if q ∈ board then (task q).map (MsgTask.answer replyId) else task q) =
          fun q => if q ∈ r :: board then (s.tasks q).map (MsgTask.answer replyId)
            else s.tasks q := by
      intro task hother hself
      funext q
      by_cases hq : q = r
      · subst hq
        simp [hr,hself]
      · simp [hq,hother q hq]
    rw [executeTask]
    cases htask : s.tasks r with
    | none =>
      simp only [ih hnodup,List.filterMap_cons,answered,htask,Option.bind_none]
      congr 1
      exact htasks s.tasks (fun _ _ => rfl) (by simp [htask])
    | some task =>
      dsimp only
      split_ifs with hdone hid
      · rw [ih hnodup,hstep _ (fun q hq => by simp [setTask,hq])]
        simp only [setTask,List.filterMap_cons,answered,htask,Option.bind_some,hdone]
        congr 1
        apply htasks
        · intro q hq
          simp [hq]
        · simp [htask,MsgTask.answer,hdone,MsgTask.stopTimer]
      · have hanswer : (Function.update (Function.update s.tasks r (some { task with isDone := true })) r
            (some { task.stopTimer with isDone := true })) r =
            (s.tasks r).map (MsgTask.answer replyId) := by
          simp [htask,MsgTask.answer,hid,MsgTask.stopTimer]
        have hupdate := htasks _ (fun q hq => by
          rw [Function.update_of_ne hq,Function.update_of_ne hq]) hanswer
        rw [ih hnodup,hstep _ (fun q hq => by
          unfold doing
          split_ifs <;> simp [setTask,complete,hq])]
        cases hattached : task.attached with
        | true =>
          simp only [doing,setTask,complete,List.filterMap_cons,answered,htask,
            Option.bind_some,hdone,hid,hattached,and_self,if_true,List.append_assoc,
            List.singleton_append]
          rw [mk.injEq]
          exact ⟨rfl,by simpa only [hattached] using hupdate,rfl,rfl,rfl,rfl⟩
        | false =>
          simp only [doing,setTask,List.filterMap_cons,answered,htask,
            Option.bind_some,hattached,if_false,and_false,Bool.false_eq_true]
          rw [mk.injEq]
          exact ⟨rfl,by simpa only [hattached] using hupdate,rfl,rfl,rfl,rfl⟩
      · simp only [ih hnodup,List.filterMap_cons,answered,htask,Option.bind_some,hid,false_and,and_false,if_false]
        congr 1
        apply htasks _ (fun _ _ => rfl)
        simp [htask,MsgTask.answer,hdone,hid]

end Execute

/-- A change of the tasks on the board that leaves their reply objects alone. -/
theorem BoardShape.retask (h : s.BoardShape) {tasks : ℕ → Option MsgTask}
    (hout : ∀ r, r ∉ s.taskList → tasks r = s.tasks r)
    (hin : ∀ r task', tasks r = some task' → ∃ task, s.tasks r = some task ∧
      task'.reply = task.reply ∧ task'.attached = task.attached)
    (hkeep : ∀ r task, s.tasks r = some task → ∃ task', tasks r = some task')
    {completions : List Completion} (hcompleted : ∀ c ∈ completions, c.request < s.requests) :
    BoardShape { s with tasks := tasks, completions := completions } where
  nodup := h.nodup
  member r hr := by
    obtain ⟨task,htask,hattached⟩ := h.member r hr
    obtain ⟨task',htask'⟩ := hkeep r task htask
    obtain ⟨old,hold,-,heq⟩ := hin r task' htask'
    rw [htask,Option.some.injEq] at hold
    exact ⟨task',htask',by rw [heq,← hold,hattached]⟩
  retired r task htask hr := h.retired r task (by rw [← hout r hr]; exact htask) hr
  bound r task htask := by
    obtain ⟨old,hold,-⟩ := hin r task htask
    exact h.bound r old hold
  sendingNodup := h.sendingNodup
  sendingTask r hr := by
    obtain ⟨task,htask⟩ := h.sendingTask r hr
    exact hkeep r task htask
  distinct r r' task task' htask htask' heq := by
    obtain ⟨old,hold,hreply,-⟩ := hin r task htask
    obtain ⟨old',hold',hreply',-⟩ := hin r' task' htask'
    exact h.distinct r r' old old' hold hold' (by rw [← hreply,← hreply',heq])
  completed := hcompleted

variable {request : ℕ}

theorem BoardShape.complete (h : s.BoardShape) (hr : request < s.requests) (pid : ℤ)
    (cause : CompletionCause) : (s.complete request pid cause).BoardShape := by
  refine h.retask (fun _ _ => rfl) (fun r task htask => ⟨task,htask,rfl,rfl⟩)
    (fun r task htask => ⟨task,htask⟩) ?_
  intro c hc
  rcases List.mem_append.mp hc with hc | hc
  · exact h.completed c hc
  · rw [List.mem_singleton.mp hc]
    exact hr

theorem BoardShape.mem_of_armed (h : s.BoardShape) {task : MsgTask}
    (htask : s.tasks request = some task) (harmed : task.timer = .armed) :
    request ∈ s.taskList := by
  by_contra hout
  have hnone := (h.retired request task htask hout).2
  rw [harmed] at hnone
  cases hnone

theorem BoardShape.sendMessage (h : s.BoardShape) (found : Bool) (reply : ℕ) (pid : ℤ) :
    (s.sendMessage found reply pid).BoardShape := by
  unfold ClientConnection.sendMessage
  have hnone : s.tasks s.requests = none := by
    cases htask : s.tasks s.requests with
    | none => rfl
    | some task => exact absurd (h.bound _ _ htask) (lt_irrefl _)
  have hnotin : s.requests ∉ s.taskList := by
    intro hin
    obtain ⟨task,htask,-⟩ := h.member _ hin
    rw [hnone] at htask
    cases htask
  split_ifs with hcleared hfound hfresh
  · exact h
  · have hother : ∀ r task, s.tasks r = some task → task.reply ≠ reply := by
      intro r task htask
      have := List.all_eq_true.mp hfresh r (List.mem_range.mpr (h.bound r task htask))
      simpa [htask] using this
    constructor
    · rw [List.nodup_append]
      exact ⟨h.nodup,List.pairwise_singleton _ _,fun a ha b hb => by
        rw [List.mem_singleton.mp hb]
        rintro rfl
        exact hnotin ha⟩
    · intro r hr
      dsimp only at hr ⊢
      by_cases hnew : r = s.requests
      · subst hnew
        exact ⟨_,Function.update_self ..,rfl⟩
      · rw [Function.update_of_ne hnew]
        exact h.member r ((List.mem_append.mp hr).resolve_right (by simpa using hnew))
    · intro r task htask hr
      dsimp only at htask hr
      rw [List.mem_append,not_or,List.mem_singleton] at hr
      rw [Function.update_of_ne hr.2] at htask
      exact h.retired r task htask hr.1
    · intro r task htask
      dsimp only at htask ⊢
      by_cases hnew : r = s.requests
      · omega
      · rw [Function.update_of_ne hnew] at htask
        exact Nat.lt_succ_of_lt (h.bound r task htask)
    · refine List.nodup_cons.mpr ⟨fun hin => ?_,h.sendingNodup⟩
      obtain ⟨task,htask⟩ := h.sendingTask _ hin
      rw [hnone] at htask
      cases htask
    · intro r hr
      dsimp only
      by_cases hnew : r = s.requests
      · subst hnew
        exact ⟨_,Function.update_self ..⟩
      · rw [Function.update_of_ne hnew]
        exact h.sendingTask r ((List.mem_cons.mp hr).resolve_left hnew)
    · intro r r' task task' htask htask' heq
      dsimp only at htask htask'
      by_cases hnew : r = s.requests
      · by_cases hnew' : r' = s.requests
        · rw [hnew,hnew']
        · subst hnew
          rw [Function.update_self,Option.some.injEq] at htask
          rw [Function.update_of_ne hnew'] at htask'
          subst htask
          exact absurd heq.symm (hother r' task' htask')
      · rw [Function.update_of_ne hnew] at htask
        by_cases hnew' : r' = s.requests
        · subst hnew'
          rw [Function.update_self,Option.some.injEq] at htask'
          subst htask'
          exact absurd heq (hother r task htask)
        · rw [Function.update_of_ne hnew'] at htask'
          exact h.distinct r r' task task' htask htask' heq
    · intro c hc
      exact Nat.lt_succ_of_lt (h.completed c hc)
  · exact h
  · refine ⟨h.nodup,h.member,h.retired,?_,h.sendingNodup,h.sendingTask,h.distinct,?_⟩
    · intro r task htask
      exact Nat.lt_succ_of_lt (h.bound r task htask)
    · intro c hc
      rcases List.mem_append.mp hc with hc | hc
      · exact Nat.lt_succ_of_lt (h.completed c hc)
      · rw [List.mem_singleton.mp hc]
        exact Nat.lt_succ_self _

theorem BoardShape.sent (h : s.BoardShape) (request : ℕ) (ok : Bool) : (s.sent request ok).BoardShape := by
  unfold ClientConnection.sent
  split_ifs with hin hok
  · exact { h with
      sendingNodup := h.sendingNodup.erase _
      sendingTask := fun r hr => h.sendingTask r (List.mem_of_mem_erase hr) }
  · obtain ⟨task,htask⟩ := h.sendingTask request hin
    have herase : BoardShape { s with sending := s.sending.erase request } :=
      { h with
        sendingNodup := h.sendingNodup.erase _
        sendingTask := fun r hr => h.sendingTask r (List.mem_of_mem_erase hr) }
    exact herase.complete (h.bound request task htask) _ _
  · exact h

theorem BoardShape.onReply_eq (h : s.BoardShape) {task : MsgTask}
    (htask : s.tasks request = some task) (hattached : task.attached = true) (message : String) :
    s.onReply request message =
      { s with
        tasks := fun r =>
          if r ∈ s.taskList then (s.tasks r).map (MsgTask.answer task.replyId) else s.tasks r
        completions := s.completions ++
          s.taskList.filterMap (answered request task.replyId message s) } := by
  simp only [onReply,htask,hattached,if_true]
  exact executeTask_eq _ _ _ h.nodup s

theorem mem_answered {sender : ℕ} {replyId : ℤ} {message : String} {board : List ℕ} {c : Completion} :
    c ∈ board.filterMap (answered sender replyId message s) ↔
      ∃ r ∈ board, ∃ task, s.tasks r = some task ∧ task.isDone = false ∧
        task.replyId = replyId ∧ task.attached = true ∧ c = ⟨r,task.pid,.reply sender message⟩ := by
  rw [List.mem_filterMap]
  constructor
  · rintro ⟨r,hr,hc⟩
    obtain ⟨task,htask,hif⟩ := Option.bind_eq_some_iff.mp hc
    split_ifs at hif with hcond
    exact ⟨r,hr,task,htask,hcond.1,hcond.2.1,hcond.2.2,(Option.some.inj hif).symm⟩
  · rintro ⟨r,hr,task,htask,hdone,hid,hattached,rfl⟩
    exact ⟨r,hr,by rw [answered,htask,Option.bind_some,if_pos ⟨hdone,hid,hattached⟩]⟩

theorem onReply_cases (s : ClientConnection) (request : ℕ) (message : String) :
    s.onReply request message = s ∨ ∃ task, s.tasks request = some task ∧ task.attached = true := by
  unfold ClientConnection.onReply
  cases s.tasks request with
  | none => exact .inl rfl
  | some task =>
    cases hattached : task.attached with
    | false => exact .inl (by simp [hattached])
    | true => exact .inr ⟨task,rfl,hattached⟩

theorem BoardShape.onReply (h : s.BoardShape) (request : ℕ) (message : String) :
    (s.onReply request message).BoardShape := by
  obtain hsame | ⟨task,htask,hattached⟩ := onReply_cases s request message
  · rw [hsame]
    exact h
  · rw [h.onReply_eq htask hattached]
    apply h.retask
    · intro r hr
      rw [if_neg hr]
    · intro r task' htask'
      split_ifs at htask' with hr
      · obtain ⟨old,hold,rfl⟩ := Option.map_eq_some_iff.mp htask'
        exact ⟨old,hold,MsgTask.answer_reply _ _,MsgTask.answer_attached _ _⟩
      · exact ⟨task',htask',rfl,rfl⟩
    · intro r task' htask'
      split_ifs
      · exact ⟨_,by rw [htask',Option.map_some]⟩
      · exact ⟨task',htask'⟩
    · intro c hc
      rcases List.mem_append.mp hc with hc | hc
      · exact h.completed c hc
      · obtain ⟨r,-,task',htask',-,-,-,rfl⟩ := mem_answered.mp hc
        exact h.bound r task' htask'

theorem BoardShape.setTask (h : s.BoardShape) {task task' : MsgTask}
    (htask : s.tasks request = some task) (hin : request ∈ s.taskList)
    (hreply : task'.reply = task.reply) (hattached : task'.attached = task.attached) :
    (s.setTask request task').BoardShape := by
  apply h.retask
  · intro r hr
    exact Function.update_of_ne (fun heq => hr (by rw [heq]; exact hin)) _ _
  · intro r old hold
    by_cases heq : r = request
    · subst heq
      rw [Function.update_self,Option.some.injEq] at hold
      subst hold
      exact ⟨task,htask,hreply,hattached⟩
    · rw [Function.update_of_ne heq] at hold
      exact ⟨old,hold,rfl,rfl⟩
  · intro r old hold
    by_cases heq : r = request
    · subst heq
      exact ⟨task',Function.update_self ..⟩
    · exact ⟨old,by rw [Function.update_of_ne heq,hold]⟩
  · exact h.completed

theorem BoardShape.timerExpired (h : s.BoardShape) (request : ℕ) : (s.timerExpired request).BoardShape := by
  unfold ClientConnection.timerExpired
  cases htask : s.tasks request with
  | none => exact h
  | some task =>
    dsimp only
    split_ifs with harmed hdone hattached
    · exact h.setTask htask (h.mem_of_armed htask harmed) rfl rfl
    · have hset : (s.setTask request { task with timer := .expired, isDone := true }).BoardShape :=
        h.setTask htask (h.mem_of_armed htask harmed) rfl rfl
      exact hset.complete (h.bound request task htask) _ _
    · exact h.setTask htask (h.mem_of_armed htask harmed) rfl rfl
    · exact h

theorem BoardShape.clearUvTimer (h : s.BoardShape) : s.clearUvTimer.BoardShape := by
  have hold : ∀ r task', s.clearUvTimer.tasks r = some task' → ∃ task, s.tasks r = some task ∧
      task'.reply = task.reply ∧ task'.attached = false ∧ task'.timer = .none := by
    intro r task' htask'
    dsimp only [ClientConnection.clearUvTimer] at htask'
    split_ifs at htask' with hr
    · obtain ⟨task,htask,rfl⟩ := Option.map_eq_some_iff.mp htask'
      exact ⟨task,htask,rfl,rfl,rfl⟩
    · exact ⟨task',htask',rfl,h.retired r task' htask' hr⟩
  refine ⟨List.nodup_nil,fun _ hr => (nomatch hr),?_,?_,h.sendingNodup,?_,?_,h.completed⟩
  · intro r task' htask' _
    obtain ⟨-,-,-,hrest⟩ := hold r task' htask'
    exact hrest
  · intro r task' htask'
    obtain ⟨task,htask,-⟩ := hold r task' htask'
    exact h.bound r task htask
  · intro r hr
    obtain ⟨task,htask⟩ := h.sendingTask r hr
    dsimp only [ClientConnection.clearUvTimer]
    split_ifs
    · exact ⟨_,by rw [htask,Option.map_some]⟩
    · exact ⟨task,htask⟩
  · intro r r' task' task'' htask' htask'' heq
    obtain ⟨task,htask,hreply,-⟩ := hold r task' htask'
    obtain ⟨other,hother,hreply',-⟩ := hold r' task'' htask''
    exact h.distinct r r' task other htask hother (by rw [← hreply,← hreply',heq])

theorem BoardShape.step (h : s.BoardShape) (op : TransportOp) : (s.step op).BoardShape := by
  cases op with
  | sendMessage found reply pid => exact h.sendMessage found reply pid
  | sent request ok => exact h.sent request ok
  | onReply request message => exact h.onReply request message
  | timerExpired request => exact h.timerExpired request
  | clearUvTimer => exact h.clearUvTimer

theorem boardShape_init : BoardShape {} := by
  refine ⟨List.nodup_nil,?_,?_,?_,List.nodup_nil,?_,?_,?_⟩ <;> intros <;> simp_all

/-- However sends, replies, time-outs and the end of the connection interleave, the tasks of the board are live and
distinct, and a task that left it has neither a timer nor a reply object that points back. -/
theorem board_kept (ops : List TransportOp) : (Transition.run step {} ops).BoardShape :=
  Transition.run_invariant (fun _ op h => h.step op) boardShape_init ops

end ClientConnection
end FeatureRuntime
