import FeatureRuntime.MessageTransport

/-! Settlement of requests on the board: what a completion leaves behind, and when it is the only
one. -/
namespace FeatureRuntime.ClientConnection

open Transition

variable (s : ClientConnection)

def delivered (request : ℕ) : ℕ := s.completions.countP (fun c => c.request = request)

/-- Every request is completed at most once, and by a message to its own reply object. -/
structure DeliversOnce : Prop where
  once : ∀ request, s.delivered request ≤ 1
  own : ∀ c ∈ s.completions, ∀ sender message, c.cause = .reply sender message → sender = c.request

def Forgotten (request : ℕ) : Prop :=
  request ∉ s.taskList ∧ ∀ task, s.tasks request = some task → task.timer = .none

/-- Completions are delivered once, and the board forgets the completed requests. -/
structure Settles : Prop where
  deliversOnce : s.DeliversOnce
  cleared : ∀ c ∈ s.completions, s.Forgotten c.request

def Quiet (s : ClientConnection) : TransportOp → Prop
  | .sent request ok => ok = false → request ∈ s.sending → request ∉ s.taskList
  | .onReply request _ => ∀ task, s.tasks request = some task → task.attached = true →
    ∀ r task', s.Pending r task' → task'.replyId ≠ task.replyId
  | .timerExpired request => ∀ task, s.Pending request task → task.timer ≠ .armed
  | _ => True

/-- No send fails after its task was committed, and the id of a reply object that a message arrives
for names no other pending task. -/
def Orderly (s : ClientConnection) : TransportOp → Prop
  | .sent request ok => ok = false → request ∉ s.sending
  | .onReply request _ => ∀ task, s.tasks request = some task →
    ∀ r task', s.Pending r task' → task'.replyId = task.replyId → r = request
  | _ => True

variable {s}

theorem delivered_append (completions : List Completion) (request : ℕ) :
    delivered { s with completions := s.completions ++ completions } request =
      s.delivered request + completions.countP (fun c => c.request = request) :=
  List.countP_append

theorem delivered_complete (request : ℕ) (pid : ℤ) (cause : CompletionCause) (r : ℕ) :
    (s.complete request pid cause).delivered r = s.delivered r + if request = r then 1 else 0 := by
  unfold ClientConnection.complete
  rw [delivered_append]
  by_cases heq : request = r <;> simp [heq]

theorem delivered_eq_zero {request : ℕ} (h : ∀ c ∈ s.completions, c.request ≠ request) : s.delivered request = 0 := by
  rw [delivered,List.countP_eq_zero]
  simpa using h

theorem delivered_new (h : s.BoardShape) : s.delivered s.requests = 0 :=
  delivered_eq_zero (fun c hc => (h.completed c hc).ne)

theorem DeliversOnce.complete (h : s.DeliversOnce) {request : ℕ} (hnone : s.delivered request = 0)
    (cause : CompletionCause)
    (hown : ∀ sender message, cause = .reply sender message → sender = request) (pid : ℤ) :
    (s.complete request pid cause).DeliversOnce where
  once r := by
    rw [delivered_complete]
    split_ifs with heq
    · rw [← heq,hnone]
    · exact h.once r
  own c hc sender message hcause := by
    rcases List.mem_append.mp hc with hold | hnew
    · exact h.own c hold sender message hcause
    · obtain rfl := List.mem_singleton.mp hnew
      exact hown sender message hcause

section Once

/-- Completed requests have no task, or one that is done. -/
structure OnceInvariant (s : ClientConnection) : Prop where
  shape : s.BoardShape
  deliversOnce : s.DeliversOnce
  done : ∀ r task, s.tasks r = some task → task.isDone = false → s.delivered r = 0

theorem onceInvariant_init : OnceInvariant {} where
  shape := boardShape_init
  deliversOnce := ⟨fun _ => Nat.zero_le _,fun _ hc => (nomatch hc)⟩
  done _ _ _ _ := rfl

theorem OnceInvariant.sendMessage (h : s.OnceInvariant) (found : Bool) (reply : ℕ) (pid : ℤ) :
    (s.sendMessage found reply pid).OnceInvariant := by
  refine ⟨h.shape.sendMessage found reply pid,?_,?_⟩
  · unfold ClientConnection.sendMessage
    split_ifs
    · exact h.deliversOnce
    · exact ⟨h.deliversOnce.once,h.deliversOnce.own⟩
    · exact h.deliversOnce
    · have hdone := h.deliversOnce.complete (delivered_new h.shape) .sendFailed
        (fun _ _ heq => (nomatch heq)) pid
      exact ⟨hdone.once,hdone.own⟩
  · unfold ClientConnection.sendMessage
    split_ifs
    · exact h.done
    · intro r task htask hdone
      dsimp only at htask
      by_cases hnew : r = s.requests
      · subst hnew
        exact delivered_new h.shape
      · rw [Function.update_of_ne hnew] at htask
        exact h.done r task htask hdone
    · exact h.done
    · intro r task htask hdone
      have hr := h.shape.bound r task htask
      have hcount := delivered_complete (s := s) s.requests pid .sendFailed r
      rw [if_neg (by omega),h.done r task htask hdone] at hcount
      exact hcount

theorem countP_answered_le (sender : ℕ) (replyId : ℤ) (message : String) (board : List ℕ) (r : ℕ) :
    (board.filterMap (answered sender replyId message s)).countP (fun c => c.request = r) ≤
      board.count r := by
  induction board with
  | nil => exact le_rfl
  | cons q board ih =>
    rw [List.filterMap_cons,List.count_cons]
    cases hq : answered sender replyId message s q with
    | none => exact ih.trans (Nat.le_add_right _ _)
    | some c =>
      have hrequest : c.request = q := by
        obtain ⟨task,-,hif⟩ := Option.bind_eq_some_iff.mp hq
        split_ifs at hif
        rw [← Option.some.inj hif]
      simp only [List.countP_cons,hrequest,decide_eq_true_eq,beq_iff_eq]
      exact Nat.add_le_add_right ih _

/-- The tasks and completions after a message, seen from one request. -/
theorem delivered_onReply (h : s.BoardShape) {request : ℕ} {task : MsgTask}
    (htask : s.tasks request = some task) (hattached : task.attached = true) (message : String)
    (r : ℕ) :
    (s.onReply request message).delivered r = s.delivered r ∨
      (s.onReply request message).delivered r = s.delivered r + 1 ∧
        ∃ task', s.Pending r task' ∧ task'.replyId = task.replyId := by
  rw [h.onReply_eq htask hattached]
  have hcount : delivered { s with
      tasks := fun r =>
        if r ∈ s.taskList then (s.tasks r).map (MsgTask.answer task.replyId) else s.tasks r
      completions := s.completions ++
        s.taskList.filterMap (answered request task.replyId message s) } r =
      s.delivered r + (s.taskList.filterMap (answered request task.replyId message s)).countP
        (fun c => c.request = r) := List.countP_append
  rw [hcount]
  have hle := (countP_answered_le (s := s) request task.replyId message s.taskList r).trans
    (List.nodup_iff_count.mp h.nodup r)
  obtain hzero | hone := Nat.le_one_iff_eq_zero_or_eq_one.mp hle
  · left
    rw [hzero]
    rfl
  · right
    refine ⟨by rw [hone],?_⟩
    obtain ⟨c,hc,hr⟩ := List.countP_pos_iff.mp (hone ▸ Nat.one_pos)
    obtain ⟨q,hq,task',htask',hdone,hid,-,rfl⟩ := mem_answered.mp hc
    obtain rfl : q = r := by simpa using hr
    exact ⟨task',⟨htask',hq,hdone⟩,hid⟩

theorem OnceInvariant.onReply (h : s.OnceInvariant) {request : ℕ} {message : String}
    (hgood : s.Orderly (.onReply request message)) :
    (s.onReply request message).OnceInvariant := by
  obtain hsame | ⟨task,htask,hattached⟩ := onReply_cases s request message
  · rw [hsame]
    exact h
  · have hcount := delivered_onReply h.shape htask hattached message
    refine ⟨h.shape.onReply request message,⟨?_,?_⟩,?_⟩
    · intro r
      obtain hsame | ⟨hmore,task',hpending,-⟩ := hcount r
      · rw [hsame]
        exact h.deliversOnce.once r
      · rw [hmore,h.done r task' hpending.1 hpending.2.2]
    · intro c hc sender message' hcause
      rw [h.shape.onReply_eq htask hattached] at hc
      rcases List.mem_append.mp hc with hold | hnew
      · exact h.deliversOnce.own c hold sender message' hcause
      · obtain ⟨r,hr,task',htask',hdone,hid,-,rfl⟩ := mem_answered.mp hnew
        cases hcause
        exact (hgood task htask r task' ⟨htask',hr,hdone⟩ hid).symm
    · intro r new hnew hdone
      -- a task that is still pending was not addressed
      have hstill : ∃ old, s.tasks r = some old ∧ old.isDone = false ∧
          (r ∈ s.taskList → old.replyId ≠ task.replyId) := by
        rw [h.shape.onReply_eq htask hattached] at hnew
        dsimp only at hnew
        split_ifs at hnew with hr
        · obtain ⟨old,hold,rfl⟩ := Option.map_eq_some_iff.mp hnew
          rw [MsgTask.answer_isDone,Bool.or_eq_false_iff,decide_eq_false_iff_not] at hdone
          exact ⟨old,hold,hdone.1,fun _ => hdone.2⟩
        · exact ⟨new,hnew,hdone,fun hin => absurd hin hr⟩
      obtain ⟨old,hold,holdDone,hid⟩ := hstill
      obtain hsame | ⟨-,task',hpending,hid'⟩ := hcount r
      · rw [hsame]
        exact h.done r old hold holdDone
      · obtain rfl : old = task' := Option.some.inj (hold.symm.trans hpending.1)
        exact absurd hid' (hid hpending.2.1)

theorem OnceInvariant.sent (h : s.OnceInvariant) {request : ℕ} {ok : Bool}
    (hgood : s.Orderly (.sent request ok)) : (s.sent request ok).OnceInvariant := by
  have hshape := h.shape.sent request ok
  unfold ClientConnection.sent at hshape ⊢
  split_ifs at hshape ⊢ with hin hok
  · exact ⟨hshape,⟨h.deliversOnce.once,h.deliversOnce.own⟩,h.done⟩
  · exact absurd hin (hgood (by simpa using hok))
  · exact h

theorem OnceInvariant.timerExpired (h : s.OnceInvariant) (request : ℕ) : (s.timerExpired request).OnceInvariant := by
  have hshape := h.shape.timerExpired request
  unfold ClientConnection.timerExpired at hshape ⊢
  cases htask : s.tasks request with
  | none => exact h
  | some task =>
    simp only [htask] at hshape ⊢
    have hother : ∀ {task' : MsgTask} {r new}, (s.setTask request task').tasks r = some new →
        r ≠ request → s.tasks r = some new := by
      intro task' r new hnew hr
      rwa [setTask_tasks_of_ne hr] at hnew
    split_ifs at hshape ⊢ with harmed hdone hattached
    · refine ⟨hshape,⟨h.deliversOnce.once,h.deliversOnce.own⟩,fun r new hnew hnewDone => ?_⟩
      by_cases hr : r = request
      · subst hr
        rw [setTask_tasks_self,Option.some.injEq] at hnew
        subst hnew
        exact absurd hdone (by simpa using hnewDone)
      · exact h.done r new (hother hnew hr) hnewDone
    · have hnone := h.done request task htask (by simpa using hdone)
      refine ⟨hshape,?_,fun r new hnew hnewDone => ?_⟩
      · have hset : (s.setTask request { task with timer := .expired, isDone := true }).DeliversOnce :=
          ⟨h.deliversOnce.once,h.deliversOnce.own⟩
        exact hset.complete hnone .timeout (fun _ _ heq => (nomatch heq)) task.pid
      · by_cases hr : r = request
        · subst hr
          have hself := (setTask_tasks_self (s := s) r
            { task with timer := .expired, isDone := true }).symm.trans hnew
          cases hself
          cases hnewDone
        · rw [delivered_complete,if_neg (Ne.symm hr)]
          exact h.done r new (hother hnew hr) hnewDone
    · refine ⟨hshape,⟨h.deliversOnce.once,h.deliversOnce.own⟩,fun r new hnew hnewDone => ?_⟩
      by_cases hr : r = request
      · subst hr
        exact h.done r task htask (by simpa using hdone)
      · exact h.done r new (hother hnew hr) hnewDone
    · exact h

theorem OnceInvariant.clearUvTimer (h : s.OnceInvariant) : s.clearUvTimer.OnceInvariant := by
  refine ⟨h.shape.clearUvTimer,⟨h.deliversOnce.once,h.deliversOnce.own⟩,?_⟩
  intro r new hnew hdone
  dsimp only [ClientConnection.clearUvTimer] at hnew
  split_ifs at hnew
  · obtain ⟨old,hold,rfl⟩ := Option.map_eq_some_iff.mp hnew
    exact h.done r old hold hdone
  · exact h.done r new hnew hdone

theorem OnceInvariant.step (h : s.OnceInvariant) (op : TransportOp) (hgood : s.Orderly op) :
    (s.step op).OnceInvariant := by
  cases op with
  | sendMessage found reply pid => exact h.sendMessage found reply pid
  | sent request ok => exact h.sent hgood
  | onReply request message => exact h.onReply hgood
  | timerExpired request => exact h.timerExpired request
  | clearUvTimer => exact h.clearUvTimer

end Once

section Single

def Completes (s s' : ClientConnection) (c : Completion) : Prop :=
  ∃ task, s.Pending c.request task ∧ c.pid = task.pid ∧
    (c.cause = .timeout ∨ ∃ message, c.cause = .reply c.request message) ∧
    ∀ task', s'.tasks c.request = some task' → task'.isDone = true

/-- What a step that makes no request does: it brings at most one completion, and every task that is
not done was not done before. -/
structure Advances (s s' : ClientConnection) (new : List Completion) : Prop where
  completions : s'.completions = s.completions ++ new
  requests : s'.requests = s.requests
  taskList : ∀ r ∈ s'.taskList, r ∈ s.taskList
  tasks : ∀ r task', s'.tasks r = some task' → task'.isDone = false →
    ∃ task, s.tasks r = some task ∧ task.isDone = false ∧ task.pid = task'.pid
  single : new = [] ∨ (∃ r pid, new = [⟨r,pid,.sendFailed⟩]) ∨ ∃ c, new = [c] ∧ s.Completes s' c

theorem Advances.refl (s : ClientConnection) : s.Advances s [] where
  completions := (List.append_nil _).symm
  requests := rfl
  taskList _ hr := hr
  tasks _ task' htask' hdone := ⟨task',htask',hdone,rfl⟩
  single := .inl rfl

theorem Advances.pending {s' : ClientConnection} {new : List Completion} (h : s.Advances s' new)
    {r : ℕ} {task' : MsgTask} (hpending : s'.Pending r task') :
    ∃ task, s.Pending r task ∧ task.pid = task'.pid := by
  obtain ⟨task,htask,hdone,hpid⟩ := h.tasks r task' hpending.1 hpending.2.2
  exact ⟨task,⟨htask,h.taskList r hpending.2.1,hdone⟩,hpid⟩

theorem filterMap_eq_single {α β : Type*} [DecidableEq α] {f : α → Option β} {a : α} {l : List α}
    (hnodup : l.Nodup) (hother : ∀ b ∈ l, b ≠ a → f b = none) :
    l.filterMap f = if a ∈ l then (f a).toList else [] := by
  induction l with
  | nil => rfl
  | cons b l ih =>
    obtain ⟨hb,hnodup⟩ := List.nodup_cons.mp hnodup
    have hrest := ih hnodup (fun c hc => hother c (List.mem_cons_of_mem _ hc))
    rw [List.filterMap_cons]
    by_cases hba : b = a
    · subst hba
      rw [if_neg hb] at hrest
      cases f b <;> simp [hrest]
    · rw [hother b List.mem_cons_self hba]
      simp [hrest,Ne.symm hba]

theorem advances_sent (request : ℕ) (ok : Bool) : ∃ new, s.Advances (s.sent request ok) new := by
  unfold ClientConnection.sent
  split_ifs
  · exact ⟨[],⟨(List.append_nil _).symm,rfl,fun _ hr => hr,
      fun r task' htask' hdone => ⟨task',htask',hdone,rfl⟩,.inl rfl⟩⟩
  · exact ⟨_,⟨rfl,rfl,fun _ hr => hr,fun r task' htask' hdone => ⟨task',htask',hdone,rfl⟩,
      .inr (.inl ⟨request,_,rfl⟩)⟩⟩
  · exact ⟨[],.refl s⟩

theorem BoardShape.advances_onReply (h : s.BoardShape) {request : ℕ} {message : String}
    (hgood : s.Orderly (.onReply request message)) :
    ∃ new, s.Advances (s.onReply request message) new := by
  obtain hsame | ⟨task,htask,hattached⟩ := onReply_cases s request message
  · rw [hsame]
    exact ⟨[],Advances.refl s⟩
  · rw [h.onReply_eq htask hattached]
    refine ⟨_,⟨rfl,rfl,fun _ hr => hr,?_,?_⟩⟩
    · intro r task' htask' hdone
      dsimp only at htask'
      split_ifs at htask'
      · obtain ⟨old,hold,rfl⟩ := Option.map_eq_some_iff.mp htask'
        rw [MsgTask.answer_isDone,Bool.or_eq_false_iff] at hdone
        exact ⟨old,hold,hdone.1,(MsgTask.answer_pid _ _).symm⟩
      · exact ⟨task',htask',hdone,rfl⟩
    · have hother : ∀ r ∈ s.taskList, r ≠ request → answered request task.replyId message s r = none := by
        intro r hr hne
        by_contra hsome
        obtain ⟨c,hc⟩ := Option.ne_none_iff_exists'.mp hsome
        obtain ⟨old,hold,hif⟩ := Option.bind_eq_some_iff.mp hc
        split_ifs at hif with hcond
        exact hne (hgood task htask r old ⟨hold,hr,hcond.1⟩ hcond.2.1)
      rw [filterMap_eq_single h.nodup hother]
      split_ifs with hin
      · cases hanswer : answered request task.replyId message s request with
        | none => exact .inl rfl
        | some c =>
          obtain ⟨old,hold,hif⟩ := Option.bind_eq_some_iff.mp hanswer
          split_ifs at hif with hcond
          obtain rfl := Option.some.inj hif
          refine .inr (.inr ⟨_,rfl,old,⟨hold,hin,hcond.1⟩,rfl,.inr ⟨message,rfl⟩,?_⟩)
          intro new hnew
          dsimp only at hnew
          rw [if_pos hin,hold,Option.map_some,Option.some.injEq] at hnew
          rw [← hnew,MsgTask.answer_isDone,decide_eq_true hcond.2.1,Bool.or_true]
      · exact .inl rfl

theorem BoardShape.advances_timerExpired (h : s.BoardShape) (request : ℕ) :
    ∃ new, s.Advances (s.timerExpired request) new := by
  unfold ClientConnection.timerExpired
  cases htask : s.tasks request with
  | none => exact ⟨[],.refl s⟩
  | some task =>
    dsimp only
    -- the task that changes is done afterwards
    have hset : ∀ (task' : MsgTask), task'.isDone = true → ∀ r new,
        (s.setTask request task').tasks r = some new → new.isDone = false →
        ∃ old, s.tasks r = some old ∧ old.isDone = false ∧ old.pid = new.pid := by
      intro task' hdone r new hnew hnewDone
      by_cases hr : r = request
      · subst hr
        rw [setTask_tasks_self,Option.some.injEq] at hnew
        rw [← hnew,hdone] at hnewDone
        cases hnewDone
      · rw [setTask_tasks_of_ne hr] at hnew
        exact ⟨new,hnew,hnewDone,rfl⟩
    split_ifs with harmed hdone hattached
    · exact ⟨[],⟨(List.append_nil _).symm,rfl,fun _ hr => hr,hset _ hdone,.inl rfl⟩⟩
    · refine ⟨[⟨request,task.pid,.timeout⟩],⟨rfl,rfl,fun _ hr => hr,hset _ rfl,.inr (.inr ⟨_,rfl,
        task,⟨htask,h.mem_of_armed htask harmed,by simpa using hdone⟩,rfl,.inl rfl,?_⟩)⟩⟩
      intro new hnew
      have hself := (setTask_tasks_self (s := s) request
        { task with timer := .expired, isDone := true }).symm.trans hnew
      rw [← Option.some.inj hself]
    · exact ⟨[],⟨(List.append_nil _).symm,rfl,fun _ hr => hr,hset _ rfl,.inl rfl⟩⟩
    · exact ⟨[],.refl s⟩

end Single

section Cleared

/-- No task of the board is done, and no completed request is on the board or under way. -/
structure QuietInvariant (s : ClientConnection) : Prop where
  shape : s.BoardShape
  settles : s.Settles
  pending : ∀ r ∈ s.taskList, ∀ task, s.tasks r = some task → task.isDone = false
  open_ : ∀ r ∈ s.sending, s.delivered r = 0

theorem quietInvariant_init : QuietInvariant {} where
  shape := boardShape_init
  settles := ⟨onceInvariant_init.deliversOnce,fun _ hc => (nomatch hc)⟩
  pending _ hr := (nomatch hr)
  open_ _ hr := (nomatch hr)

theorem QuietInvariant.sendMessage (h : s.QuietInvariant) (found : Bool) (reply : ℕ) (pid : ℤ) :
    (s.sendMessage found reply pid).QuietInvariant := by
  have hshape := h.shape.sendMessage found reply pid
  have hsending : ∀ r ∈ s.sending, r ≠ s.requests := by
    rintro r hr rfl
    obtain ⟨task,htask⟩ := h.shape.sendingTask _ hr
    exact absurd (h.shape.bound _ _ htask) (lt_irrefl _)
  unfold ClientConnection.sendMessage at hshape ⊢
  split_ifs at hshape ⊢
  · exact h
  · refine ⟨hshape,⟨⟨h.settles.deliversOnce.once,h.settles.deliversOnce.own⟩,?_⟩,?_,?_⟩
    · intro c hc
      have hlt := h.shape.completed c hc
      obtain ⟨hout,htimer⟩ := h.settles.cleared c hc
      refine ⟨?_,fun task htask => htimer task ?_⟩
      · rw [List.mem_append,List.mem_singleton,not_or]
        exact ⟨hout,hlt.ne⟩
      · dsimp only at htask
        rwa [Function.update_of_ne hlt.ne] at htask
    · intro r hr task htask
      dsimp only at hr htask
      by_cases hnew : r = s.requests
      · subst hnew
        rw [Function.update_self,Option.some.injEq] at htask
        rw [← htask]
      · rw [Function.update_of_ne hnew] at htask
        exact h.pending r ((List.mem_append.mp hr).resolve_right (by simpa using hnew)) task htask
    · intro r hr
      rcases List.mem_cons.mp hr with rfl | hr
      · exact delivered_new h.shape
      · exact h.open_ r hr
  · exact h
  · have hdone := h.settles.deliversOnce.complete (delivered_new h.shape) .sendFailed
      (fun _ _ heq => (nomatch heq)) pid
    refine ⟨hshape,⟨⟨hdone.once,hdone.own⟩,?_⟩,h.pending,?_⟩
    · intro c hc
      rcases List.mem_append.mp hc with hold | hnew
      · exact h.settles.cleared c hold
      · rw [List.mem_singleton.mp hnew]
        refine ⟨fun hin => ?_,fun task htask => absurd (h.shape.bound _ _ htask) (lt_irrefl _)⟩
        obtain ⟨task,htask,-⟩ := h.shape.member _ hin
        exact absurd (h.shape.bound _ _ htask) (lt_irrefl _)
    · intro r hr
      have hcount := delivered_complete (s := s) s.requests pid .sendFailed r
      rw [if_neg (hsending r hr).symm,h.open_ r hr] at hcount
      exact hcount

theorem QuietInvariant.sent (h : s.QuietInvariant) {request : ℕ} {ok : Bool}
    (hgood : s.Quiet (.sent request ok)) : (s.sent request ok).QuietInvariant := by
  have hshape := h.shape.sent request ok
  unfold ClientConnection.sent at hshape ⊢
  split_ifs at hshape ⊢ with hin hok
  · exact ⟨hshape,⟨⟨h.settles.deliversOnce.once,h.settles.deliversOnce.own⟩,h.settles.cleared⟩,
      h.pending,fun r hr => h.open_ r (List.mem_of_mem_erase hr)⟩
  · have hout := hgood (by simpa using hok) hin
    have hdone := h.settles.deliversOnce.complete (h.open_ request hin) .sendFailed
      (fun _ _ heq => (nomatch heq)) ((s.tasks request).elim 0 (·.pid))
    refine ⟨hshape,⟨⟨hdone.once,hdone.own⟩,?_⟩,h.pending,?_⟩
    · intro c hc
      rcases List.mem_append.mp hc with hold | hnew
      · exact h.settles.cleared c hold
      · rw [List.mem_singleton.mp hnew]
        exact ⟨hout,fun task htask => (h.shape.retired request task htask hout).2⟩
    · intro r hr
      have hne : r ≠ request := (h.shape.sendingNodup.mem_erase_iff.mp hr).1
      have hcount := delivered_complete (s := s) request ((s.tasks request).elim 0 (·.pid))
        .sendFailed r
      rw [if_neg hne.symm,h.open_ r (List.mem_of_mem_erase hr)] at hcount
      exact hcount
  · exact h

theorem QuietInvariant.onReply (h : s.QuietInvariant) {request : ℕ} {message : String}
    (hgood : s.Quiet (.onReply request message)) :
    (s.onReply request message).QuietInvariant := by
  obtain hsame | ⟨task,htask,hattached⟩ := onReply_cases s request message
  · rw [hsame]
    exact h
  · have hshape := h.shape.onReply request message
    have hid := hgood task htask hattached
    have hnone : s.taskList.filterMap (answered request task.replyId message s) = [] := by
      rw [List.eq_nil_iff_forall_not_mem]
      intro c hc
      obtain ⟨r,hr,task',htask',hdone,heq,-⟩ := mem_answered.mp hc
      exact hid r task' ⟨htask',hr,hdone⟩ heq
    rw [h.shape.onReply_eq htask hattached,hnone,List.append_nil] at hshape ⊢
    refine ⟨hshape,⟨⟨h.settles.deliversOnce.once,h.settles.deliversOnce.own⟩,?_⟩,?_,h.open_⟩
    · intro c hc
      obtain ⟨hout,htimer⟩ := h.settles.cleared c hc
      refine ⟨hout,fun new hnew => htimer new ?_⟩
      dsimp only at hnew
      rwa [if_neg hout] at hnew
    · intro r hr new hnew
      dsimp only at hr hnew
      rw [if_pos hr] at hnew
      obtain ⟨old,hold,rfl⟩ := Option.map_eq_some_iff.mp hnew
      have hdone := h.pending r hr old hold
      rw [MsgTask.answer_isDone,hdone,Bool.false_or,decide_eq_false_iff_not]
      exact hid r old ⟨hold,hr,hdone⟩

theorem QuietInvariant.timerExpired (h : s.QuietInvariant) {request : ℕ}
    (hgood : s.Quiet (.timerExpired request)) : (s.timerExpired request).QuietInvariant := by
  unfold ClientConnection.timerExpired
  cases htask : s.tasks request with
  | none => exact h
  | some task =>
    dsimp only
    by_cases harmed : task.timer = .armed
    · have hin := h.shape.mem_of_armed htask harmed
      exact absurd harmed (hgood task ⟨htask,hin,h.pending request hin task htask⟩)
    · rw [if_neg harmed]
      exact h

theorem QuietInvariant.clearUvTimer (h : s.QuietInvariant) : s.clearUvTimer.QuietInvariant := by
  refine ⟨h.shape.clearUvTimer,
    ⟨⟨h.settles.deliversOnce.once,h.settles.deliversOnce.own⟩,?_⟩,fun _ hr => (nomatch hr),h.open_⟩
  intro c hc
  refine ⟨fun hin => (nomatch hin),fun task htask => ?_⟩
  obtain ⟨hout,-⟩ := h.settles.cleared c hc
  dsimp only [ClientConnection.clearUvTimer] at htask
  rw [if_neg hout] at htask
  exact (h.shape.retired c.request task htask hout).2

theorem QuietInvariant.step (h : s.QuietInvariant) (op : TransportOp) (hgood : s.Quiet op) :
    (s.step op).QuietInvariant := by
  cases op with
  | sendMessage found reply pid => exact h.sendMessage found reply pid
  | sent request ok => exact h.sent hgood
  | onReply request message => exact h.onReply hgood
  | timerExpired request => exact h.timerExpired hgood
  | clearUvTimer => exact h.clearUvTimer

theorem not_settles_of_not_quiet (h : s.BoardShape) {op : TransportOp} (hbad : ¬s.Quiet op) :
    ¬(s.step op).Settles := by
  intro hsettles
  cases op with
  | sendMessage found reply pid => exact hbad trivial
  | clearUvTimer => exact hbad trivial
  | sent request ok =>
    apply hbad
    rintro rfl hin
    have hnew : (⟨request,(s.tasks request).elim 0 (·.pid),.sendFailed⟩ : Completion) ∈
        (s.sent request false).completions := by
      simp [ClientConnection.sent,hin,ClientConnection.complete]
    have hout := (hsettles.cleared _ hnew).1
    simpa [ClientConnection.step,ClientConnection.sent,hin,ClientConnection.complete] using hout
  | onReply request message =>
    apply hbad
    intro task htask hattached r task' hpending hid
    obtain ⟨old,hold,holdAttached⟩ := h.member r hpending.2.1
    obtain rfl : old = task' := Option.some.inj (hold.symm.trans hpending.1)
    rw [ClientConnection.step,h.onReply_eq htask hattached] at hsettles
    have hnew : (⟨r,old.pid,.reply request message⟩ : Completion) ∈
        s.taskList.filterMap (answered request task.replyId message s) :=
      mem_answered.mpr ⟨r,hpending.2.1,old,hold,hpending.2.2,hid,holdAttached,rfl⟩
    exact (hsettles.cleared _ (List.mem_append_right s.completions hnew)).1 hpending.2.1
  | timerExpired request =>
    apply hbad
    intro task hpending harmed
    obtain ⟨old,hold,holdAttached⟩ := h.member request hpending.2.1
    obtain rfl : old = task := Option.some.inj (hold.symm.trans hpending.1)
    have hstep : s.step (.timerExpired request) =
        (s.setTask request { old with timer := .expired, isDone := true }).complete request old.pid
          .timeout := by
      simp [ClientConnection.step,ClientConnection.timerExpired,hold,harmed,hpending.2.2,holdAttached]
    rw [hstep] at hsettles
    have hnew : (⟨request,old.pid,.timeout⟩ : Completion) ∈
        ((s.setTask request { old with timer := .expired, isDone := true }).complete request old.pid
          .timeout).completions := List.mem_append_right _ (List.mem_singleton_self _)
    exact (hsettles.cleared _ hnew).1 hpending.2.1

end Cleared

/-- Requests are settled along a run exactly when nothing completes one whose task is on the board.
Whatever completes them, they are completed once, unless a send fails after its commit or the id of
a reply object names another pending task as well. -/
theorem settles_iff_quiet (ops : List TransportOp) : (Always step Settles {} ops ↔ Guarded step Quiet {} ops) ∧
      (Guarded step Orderly {} ops → Always step DeliversOnce {} ops) := by
  constructor
  · exact always_iff_guarded (fun _ h => h.settles) (fun _ op h hgood => h.step op hgood)
      (fun _ _ h hbad => not_settles_of_not_quiet h.shape hbad) quietInvariant_init ops
  · intro h
    exact (h.always (fun _ op h hgood => h.step op hgood) onceInvariant_init).mono
      (fun _ h => h.deliversOnce)

/-- A reply is in order where the tasks on the board have reply ids of their own. -/
theorem orderly_onReply {s : ClientConnection} {request : ℕ} (message : String) (h : ∀ r ∈ s.taskList,
    (s.tasks r).map (·.replyId) = (s.tasks request).map (·.replyId) → r = request) :
    s.Orderly (.onReply request message) := by
  intro task htask r task' hpending hid
  exact h r hpending.2.1 (by rw [htask,hpending.1,Option.map_some,Option.map_some,hid])

/-- Two requests, answered in the other order. -/
theorem delivered_once_pong : Always step DeliversOnce {} [.sendMessage true 64 7,.sendMessage true 128 8,.sent 0 true,
    .sent 1 true,.onReply 1 "second",.onReply 0 "pong"] := by
  refine (settles_iff_quiet _).2 ⟨trivial,trivial,fun h => (nomatch h),fun h => (nomatch h),
    orderly_onReply "second" ?_,orderly_onReply "pong" ?_,trivial⟩ <;> decide

/-- A request that is answered: its task stays on the board. -/
theorem answered_stays_on_board :
    ¬Always step Settles {} [.sendMessage true 64 7,.sent 0 true,.onReply 0 "pong"] := by
  intro h
  have hcleared := h.last.cleared ⟨0,7,.reply 0 "pong"⟩ (by decide)
  exact hcleared.1 (by decide)

end FeatureRuntime.ClientConnection
