import FeatureRuntime.PermissionsManager

/-! The task queue of the feature manager: posts from any thread, runs from the event loop and the
run of the destructor, interleaved step by step. -/
namespace FeatureRuntime

/-- `TaskData`; `taskCb` is whichever of the two function pointers `isExt` selects. -/
structure TaskData where
  instance_ : ℕ
  taskCb : Option ℕ
  data : ℤ
  isExt : Bool
  deriving DecidableEq, Repr

/-- A call of `runAllTasks` on the stack: the task whose callback runs, and the tasks behind it in
the list taken over from the queue. -/
structure TaskRun where
  mode : TaskMode
  taskData : Option TaskData := none
  tasks : List TaskData
  deriving DecidableEq, Repr

/-- `draining` is the run of the destructor, `cleanup` what the destructor does after it. -/
inductive ManagerPhase
  | alive | draining | cleanup | destroyed
  deriving DecidableEq, Repr

/-- The queue of a manager with the runs on the stack, innermost first. -/
structure TaskManager where
  phase : ManagerPhase := .alive
  /-- Posts that hold their instance reference and have not reached the lock of `enqueueTask`. -/
  posting : List TaskData := []
  taskQueue : List TaskData := []
  runs : List TaskRun := []
  detached : List ℕ := []
  /-- References to an instance taken by `addTask` and `addTaskExt` and not given back yet. -/
  instanceRefs : ℕ → ℤ := fun _ => 0
  accepted : List TaskData := []
  executed : List (TaskData × TaskMode) := []
  released : List TaskData := []
  /-- A null function was called. -/
  fault : Bool := false

inductive TaskOp
  | featurePost (handle taskCb : Option ℕ) (data : ℤ)
  | featurePostExt (handle taskCbExt : Option ℕ) (data : ℤ)
  /-- `addTaskExt` from the permission functions, which pass one of their own static functions. -/
  | permissionTask (inst task : ℕ) (data : ℤ)
  /-- One of the posts gets the lock of `enqueueTask`. -/
  | enqueueTask (k : ℕ)
  | asyncCb
  | destroy
  /-- The next task of the innermost run is called. -/
  | callTask
  /-- The callback returns, and the instance reference is given back. -/
  | freeInstanceHandle
  | endRun
  | destroyed
  /-- `onDetached` of an instance. -/
  | detach (inst : ℕ)

namespace TaskManager

variable (s : TaskManager)

/-- `addTask` and `addTaskExt` up to `enqueueTask`. -/
def addTask (task : TaskData) : TaskManager :=
  if s.phase = .destroyed then s
  else
    { s with
      posting := s.posting ++ [task]
      instanceRefs := Function.update s.instanceRefs task.instance_
        (s.instanceRefs task.instance_ + 1) }

/-- `FEATURE_INSTANCE_CHECK`: the instance behind a handle that is not null and not detached. -/
def checkInstance (handle : Option ℕ) : Option ℕ := handle.filter (fun inst => inst ∉ s.detached)

def featurePost (handle taskCb : Option ℕ) (data : ℤ) : TaskManager :=
  match s.checkInstance handle with
  | none => s
  | some inst => if taskCb = none then s else s.addTask ⟨inst,taskCb,data,false⟩

def featurePostExt (handle taskCbExt : Option ℕ) (data : ℤ) : TaskManager :=
  match s.checkInstance handle with
  | none => s
  | some inst => s.addTask ⟨inst,taskCbExt,data,true⟩

def enqueueTask (k : ℕ) : TaskManager :=
  match s.posting[k]? with
  | none => s
  | some task =>
    if s.phase = .destroyed then s
    else
      { s with
        posting := s.posting.eraseIdx k
        taskQueue := s.taskQueue ++ [task]
        accepted := s.accepted ++ [task] }

/-- `runAllTasks` up to its loop. -/
def runAllTasks (mode : TaskMode) : TaskManager :=
  { s with runs := { mode := mode, tasks := s.taskQueue } :: s.runs, taskQueue := [] }

/-- `feature_async_cb`: the event loop calls it, and calls nothing else meanwhile. -/
def asyncCb : TaskManager :=
  if s.phase = .alive ∧ s.runs = [] then s.runAllTasks .normal else s

/-- `~FeatureManager`, which a task may call as well. -/
def destroy : TaskManager :=
  if s.phase = .alive then { s.runAllTasks .free with phase := .draining } else s

def callTask : TaskManager :=
  match s.runs with
  | ⟨mode,none,task :: tasks⟩ :: runs =>
    if s.phase = .cleanup then s
    else
      { s with
        runs := ⟨mode,some task,tasks⟩ :: runs
        executed := s.executed ++ [(task,mode)]
        fault := s.fault || task.taskCb.isNone }
  | _ => s

def freeInstanceHandle : TaskManager :=
  match s.runs with
  | ⟨mode,some task,tasks⟩ :: runs =>
    if s.phase = .cleanup then s
    else
      { s with
        runs := ⟨mode,none,tasks⟩ :: runs
        released := s.released ++ [task]
        instanceRefs := Function.update s.instanceRefs task.instance_
          (s.instanceRefs task.instance_ - 1) }
  | _ => s

def endRun : TaskManager :=
  match s.runs with
  | ⟨mode,none,[]⟩ :: runs =>
    if s.phase = .cleanup then s
    else { s with runs := runs, phase := if mode = .free then .cleanup else s.phase }
  | _ => s

/-- The end of the destructor: whatever is left in `task_queue_` goes with it. -/
def finishDestroy : TaskManager :=
  if s.phase = .cleanup then { s with phase := .destroyed } else s

def step (s : TaskManager) : TaskOp → TaskManager
  | .featurePost handle taskCb data => s.featurePost handle taskCb data
  | .featurePostExt handle taskCbExt data => s.featurePostExt handle taskCbExt data
  | .permissionTask inst task data => s.addTask ⟨inst,some task,data,true⟩
  | .enqueueTask k => s.enqueueTask k
  | .asyncCb => s.asyncCb
  | .destroy => s.destroy
  | .callTask => s.callTask
  | .freeInstanceHandle => s.freeInstanceHandle
  | .endRun => s.endRun
  | .destroyed => s.finishDestroy
  | .detach inst => { s with detached := inst :: s.detached }

def waiting : List TaskData := s.runs.flatMap (·.tasks)

def current : List TaskData := s.runs.flatMap (·.taskData.toList)

/-- Tasks are called in the order of their acceptance and give their references back once; nothing
is left over by an idle or a destroyed manager. -/
structure Delivered (s : TaskManager) : Prop where
  called : s.fault = false
  order : s.executed.map Prod.fst <+: s.accepted
  once : s.released.Subperm (s.executed.map Prod.fst)
  idle : s.runs = [] → s.taskQueue = [] → s.executed.map Prod.fst = s.accepted ∧ s.released.Perm s.accepted
  destroyed : s.phase = .destroyed → s.executed.map Prod.fst = s.accepted
  balanced : s.phase = .destroyed → s.runs = [] → s.released.Perm s.accepted ∧ ∀ inst, s.instanceRefs inst = 0

/-- No null function is posted, no task reaches the queue once the destructor took it over, the
destructor starts where no run has tasks left and ends where no post is under way. -/
def Orderly (s : TaskManager) : TaskOp → Prop
  | .featurePostExt handle taskCbExt _ =>
    s.phase = .destroyed ∨ s.checkInstance handle = none ∨ taskCbExt ≠ none
  | .enqueueTask k => s.posting[k]? = none ∨ s.phase = .alive ∨ s.phase = .destroyed
  | .destroy => s.phase = .alive → s.waiting = []
  | .destroyed => s.phase = .cleanup → s.posting = []
  | _ => True

def Phased : ManagerPhase → List TaskRun → Prop
  | .draining, run :: runs => run.mode = .free ∧ ∀ r ∈ runs, r.mode = .normal
  | .draining, [] => False
  | _, runs => ∀ r ∈ runs, r.mode = .normal

/-- Every task is where its reference says, whatever the order of the steps. -/
structure Accounted (s : TaskManager) : Prop where
  phased : Phased s.phase s.runs
  accepted : s.accepted.Perm (s.executed.map Prod.fst ++ s.waiting ++ s.taskQueue)
  started : (s.executed.map Prod.fst).Perm (s.released ++ s.current)
  refs : ∀ inst, s.instanceRefs inst =
    (s.posting ++ s.current ++ s.waiting ++ s.taskQueue).countP (·.instance_ = inst)
  null : ∀ call ∈ s.executed, call.1.taskCb = none → s.fault = true

variable {s}

theorem accounted_init : Accounted {} where
  phased := fun _ h => (nomatch h)
  accepted := .nil
  started := .nil
  refs _ := rfl
  null _ h := (nomatch h)

theorem Accounted.addTask (h : s.Accounted) (task : TaskData) : (s.addTask task).Accounted := by
  unfold TaskManager.addTask
  split_ifs
  · exact h
  · refine ⟨h.phased,h.accepted,h.started,fun inst => ?_,h.null⟩
    have hrefs := h.refs inst
    simp only [List.countP_append] at hrefs ⊢
    by_cases hinst : task.instance_ = inst
    · subst hinst
      simp [current,waiting] at hrefs ⊢
      omega
    · simp [current,waiting,hinst,Ne.symm hinst] at hrefs ⊢
      omega

theorem Accounted.enqueueTask (h : s.Accounted) (k : ℕ) : (s.enqueueTask k).Accounted := by
  unfold TaskManager.enqueueTask
  cases hk : s.posting[k]? with
  | none => exact h
  | some task =>
    dsimp only
    split_ifs
    · exact h
    · refine ⟨h.phased,?_,h.started,fun inst => ?_,h.null⟩
      · rw [← List.append_assoc]
        exact h.accepted.append_right [task]
      · have hrefs := h.refs inst
        have hperm : s.posting.Perm (task :: s.posting.eraseIdx k) := by
          obtain ⟨hlt,rfl⟩ := List.getElem?_eq_some_iff.mp hk
          exact (List.getElem_cons_eraseIdx_perm hlt).symm
        simp only [List.countP_append,hperm.countP_eq,List.countP_cons,List.countP_nil,current,waiting] at hrefs ⊢
        omega

theorem Accounted.runAllTasks (h : s.Accounted) (mode : TaskMode) {phase : ManagerPhase}
    (hphase : Phased phase (s.runAllTasks mode).runs) :
    Accounted { s.runAllTasks mode with phase := phase } := by
  refine ⟨hphase,?_,h.started,fun inst => ?_,h.null⟩
  · have hperm := h.accepted
    rw [List.append_assoc] at hperm
    apply hperm.trans
    simpa [waiting,TaskManager.runAllTasks] using List.Perm.append_left _ List.perm_append_comm
  · have hrefs := h.refs inst
    simp only [current,waiting,TaskManager.runAllTasks,List.countP_append,List.flatMap_cons,
      Option.toList_none,List.nil_append,List.countP_nil] at hrefs ⊢
    omega

theorem Accounted.asyncCb (h : s.Accounted) : s.asyncCb.Accounted := by
  unfold TaskManager.asyncCb
  split_ifs with hidle
  · refine h.runAllTasks .normal ?_
    rw [hidle.1]
    simp [Phased,TaskManager.runAllTasks,hidle.2]
  · exact h

theorem Accounted.destroy (h : s.Accounted) : s.destroy.Accounted := by
  unfold TaskManager.destroy
  split_ifs with hphase
  · have hruns := h.phased
    rw [hphase] at hruns
    exact h.runAllTasks .free ⟨rfl,hruns⟩
  · exact h

theorem Phased.head {phase : ManagerPhase} {run run' : TaskRun} {runs : List TaskRun}
    (h : Phased phase (run :: runs)) (hmode : run'.mode = run.mode) :
    Phased phase (run' :: runs) := by
  cases phase <;> simpa [Phased,hmode] using h

theorem Accounted.callTask (h : s.Accounted) : s.callTask.Accounted := by
  unfold TaskManager.callTask
  split
  · rename_i mode task tasks runs hruns
    split_ifs
    · exact h
    · obtain ⟨hphased,haccepted,hstarted,hrefs,hnull⟩ := h
      simp only [waiting,current,hruns,List.flatMap_cons,Option.toList_none,
        List.nil_append] at haccepted hstarted hrefs
      refine ⟨(hruns ▸ hphased).head rfl,?_,?_,fun inst => ?_,fun call hcall hcb => ?_⟩
      · simpa [waiting] using haccepted
      · have hmore : (s.executed.map Prod.fst ++ [task]).Perm
            (task :: (s.released ++ runs.flatMap (·.taskData.toList))) :=
          List.perm_append_comm.trans (hstarted.cons task)
        simpa [current] using hmore.trans List.perm_middle.symm
      · have hinst := hrefs inst
        simp only [current,waiting,List.flatMap_cons,Option.toList_some,List.countP_append,
          List.countP_cons,List.countP_nil,List.cons_append] at hinst ⊢
        omega
      · dsimp only at hcall ⊢
        rcases List.mem_append.mp hcall with hcall | hcall
        · rw [hnull call hcall hcb,Bool.true_or]
        · obtain rfl := List.mem_singleton.mp hcall
          simp [show task.taskCb = none from hcb]
  · exact h

theorem Accounted.freeInstanceHandle (h : s.Accounted) : s.freeInstanceHandle.Accounted := by
  unfold TaskManager.freeInstanceHandle
  split
  · rename_i mode task tasks runs hruns
    split_ifs
    · exact h
    · obtain ⟨hphased,haccepted,hstarted,hrefs,hnull⟩ := h
      simp only [waiting,current,hruns,List.flatMap_cons,Option.toList_some] at haccepted hstarted hrefs
      refine ⟨(hruns ▸ hphased).head rfl,?_,?_,fun inst => ?_,hnull⟩
      · simpa [waiting] using haccepted
      · simpa [current] using hstarted
      · have hinst := hrefs inst
        simp only [current,waiting,List.flatMap_cons,Option.toList_none,List.countP_append,
          List.countP_cons,List.countP_nil,List.nil_append] at hinst ⊢
        by_cases htask : task.instance_ = inst
        · subst htask
          simp at hinst ⊢
          omega
        · simp [htask,Ne.symm htask] at hinst ⊢
          omega
  · exact h

theorem Accounted.endRun (h : s.Accounted) : s.endRun.Accounted := by
  unfold TaskManager.endRun
  split
  · rename_i mode runs hruns
    split_ifs with hcleanup hmode
    · exact h
    · obtain ⟨hphased,haccepted,hstarted,hrefs,hnull⟩ := h
      simp only [waiting,current,hruns,List.flatMap_cons,Option.toList_none,
        List.nil_append] at haccepted hstarted hrefs
      refine ⟨?_,haccepted,hstarted,hrefs,hnull⟩
      rw [hruns] at hphased
      subst hmode
      cases hphase : s.phase <;> rw [hphase] at hphased <;> simp_all [Phased]
    · obtain ⟨hphased,haccepted,hstarted,hrefs,hnull⟩ := h
      simp only [waiting,current,hruns,List.flatMap_cons,Option.toList_none,
        List.nil_append] at haccepted hstarted hrefs
      refine ⟨?_,haccepted,hstarted,hrefs,hnull⟩
      rw [hruns] at hphased
      cases hphase : s.phase <;> rw [hphase] at hphased <;> simp_all [Phased]
  · exact h

theorem Accounted.finishDestroy (h : s.Accounted) : s.finishDestroy.Accounted := by
  unfold TaskManager.finishDestroy
  split_ifs with hphase
  · have hruns := h.phased
    rw [hphase] at hruns
    exact ⟨hruns,h.accepted,h.started,h.refs,h.null⟩
  · exact h

theorem Accounted.step (h : s.Accounted) (op : TaskOp) : (s.step op).Accounted := by
  cases op with
  | featurePost handle taskCb data =>
    unfold TaskManager.step TaskManager.featurePost
    dsimp only
    split
    · exact h
    · split_ifs
      · exact h
      · exact h.addTask _
  | featurePostExt handle taskCbExt data =>
    unfold TaskManager.step TaskManager.featurePostExt
    dsimp only
    split
    · exact h
    · exact h.addTask _
  | permissionTask inst task data => exact h.addTask _
  | enqueueTask k => exact h.enqueueTask k
  | asyncCb => exact h.asyncCb
  | destroy => exact h.destroy
  | callTask => exact h.callTask
  | freeInstanceHandle => exact h.freeInstanceHandle
  | endRun => exact h.endRun
  | destroyed => exact h.finishDestroy
  | detach inst => exact ⟨h.phased,h.accepted,h.started,h.refs,h.null⟩

/-- Even when posts arrive during and after the end, or the end comes inside a task: an accepted task was called, waits
in a run or is in the queue, a called one is under way or gave its reference back, each once, and the references to an
instance are those of the posts and tasks that still have theirs. -/
theorem tasks_accounted (ops : List TaskOp) : (Transition.run step {} ops).Accounted :=
  Transition.run_invariant (fun _ op h => h.step op) accounted_init ops

def behind (s : TaskManager) : List TaskData :=
  match s.phase with
  | .alive => []
  | .draining => s.runs.tail.flatMap (·.tasks)
  | .cleanup | .destroyed => s.waiting

structure Inv (s : TaskManager) : Prop where
  accounted : s.Accounted
  order : s.accepted = s.executed.map Prod.fst ++ s.waiting ++ s.taskQueue
  callable : ∀ task ∈ s.posting ++ s.accepted, task.taskCb ≠ none
  called : s.fault = false
  late : s.phase ≠ .alive → s.taskQueue = []
  behind : s.behind = []
  settled : s.phase = .destroyed → s.posting = []

theorem inv_init : Inv {} :=
  ⟨accounted_init,rfl,fun _ h => (nomatch h),rfl,fun _ => rfl,rfl,fun _ => rfl⟩

theorem Inv.delivered (h : s.Inv) : s.Delivered := by
  have hreleased : s.current = [] → s.released.Perm (s.executed.map Prod.fst) := by
    intro hcurrent
    simpa [hcurrent] using h.accounted.started.symm
  have hdestroyed : s.phase = .destroyed → s.executed.map Prod.fst = s.accepted := by
    intro hphase
    have hwaiting : s.waiting = [] := by simpa [TaskManager.behind,hphase] using h.behind
    simp [h.order,hwaiting,h.late (by simp [hphase])]
  constructor
  · exact h.called
  · rw [h.order,List.append_assoc]
    exact List.prefix_append _ _
  · exact (List.sublist_append_left _ _).subperm.trans h.accounted.started.symm.subperm
  · intro hruns hqueue
    have hdone : s.executed.map Prod.fst = s.accepted := by
      simp [h.order,waiting,hruns,hqueue]
    exact ⟨hdone,hdone ▸ hreleased (by simp [current,hruns])⟩
  · exact hdestroyed
  · intro hphase hruns
    refine ⟨hdestroyed hphase ▸ hreleased (by simp [current,hruns]),fun inst => ?_⟩
    rw [h.accounted.refs,h.settled hphase,h.late (by simp [hphase])]
    simp [current,waiting,hruns]

theorem Inv.addTask (h : s.Inv) {task : TaskData} (htask : task.taskCb ≠ none) : (s.addTask task).Inv := by
  have haccounted := h.accounted.addTask task
  unfold TaskManager.addTask at haccounted ⊢
  split_ifs at haccounted ⊢ with hphase
  · exact h
  · refine ⟨haccounted,h.order,fun t ht => ?_,h.called,h.late,h.behind,
      fun hdestroyed => absurd hdestroyed hphase⟩
    simp only [List.append_assoc,List.mem_append,List.mem_singleton] at ht
    rcases ht with ht | rfl | ht
    · exact h.callable t (List.mem_append_left _ ht)
    · exact htask
    · exact h.callable t (List.mem_append_right _ ht)

theorem Inv.enqueueTask (h : s.Inv) {k : ℕ} (hgood : s.Orderly (.enqueueTask k)) : (s.enqueueTask k).Inv := by
  have haccounted := h.accounted.enqueueTask k
  unfold TaskManager.enqueueTask at haccounted ⊢
  cases hk : s.posting[k]? with
  | none => exact h
  | some task =>
    simp only [hk] at haccounted ⊢
    split_ifs at haccounted ⊢ with hphase
    · exact h
    · have halive : s.phase = .alive := by
        rcases hgood with hnone | halive | hdestroyed
        · rw [hk] at hnone
          cases hnone
        · exact halive
        · exact absurd hdestroyed hphase
      refine ⟨haccounted,?_,fun t ht => ?_,h.called,fun hlate => absurd halive hlate,h.behind,
        fun hdestroyed => absurd hdestroyed hphase⟩
      · simp [h.order,waiting]
      · simp only [List.mem_append,List.mem_singleton] at ht
        rcases ht with ht | ht | rfl
        · exact h.callable t (List.mem_append_left _ ((List.eraseIdx_sublist _ _).mem ht))
        · exact h.callable t (List.mem_append_right _ ht)
        · exact h.callable t (List.mem_append_left _ (List.mem_of_getElem? hk))

theorem Inv.asyncCb (h : s.Inv) : s.asyncCb.Inv := by
  have haccounted := h.accounted.asyncCb
  unfold TaskManager.asyncCb at haccounted ⊢
  split_ifs at haccounted ⊢ with hidle
  · refine ⟨haccounted,?_,h.callable,h.called,fun _ => rfl,?_,h.settled⟩
    · simpa [waiting,runAllTasks,hidle.2] using h.order
    · simp [TaskManager.behind,runAllTasks,hidle.1]
  · exact h

theorem Inv.destroy (h : s.Inv) (hgood : s.Orderly .destroy) : s.destroy.Inv := by
  have haccounted := h.accounted.destroy
  unfold TaskManager.destroy at haccounted ⊢
  split_ifs at haccounted ⊢ with hphase
  · have hwaiting : s.waiting = [] := hgood hphase
    refine ⟨haccounted,?_,h.callable,h.called,fun _ => rfl,hwaiting,
      fun hdestroyed => (nomatch hdestroyed)⟩
    have horder := h.order
    simp only [waiting] at hwaiting
    simpa [waiting,runAllTasks,hwaiting] using horder
  · exact h

theorem Inv.callTask (h : s.Inv) : s.callTask.Inv := by
  have haccounted := h.accounted.callTask
  unfold TaskManager.callTask at haccounted ⊢
  split at haccounted
  · rename_i mode task tasks runs hruns
    split_ifs at haccounted ⊢ with hphase
    · exact h
    · have horder := h.order
      simp only [waiting,hruns,List.flatMap_cons] at horder
      have hcallable : task.taskCb ≠ none :=
        h.callable task (List.mem_append_right _ (by rw [horder]; simp))
      refine ⟨haccounted,?_,h.callable,?_,h.late,?_,h.settled⟩
      · simpa [waiting] using horder
      · simpa [h.called,Option.isSome_iff_ne_none] using hcallable
      · have hbehind := h.behind
        revert hbehind
        cases hp : s.phase <;> simp [TaskManager.behind,waiting,hp,hruns]
  · exact h

theorem Inv.freeInstanceHandle (h : s.Inv) : s.freeInstanceHandle.Inv := by
  have haccounted := h.accounted.freeInstanceHandle
  unfold TaskManager.freeInstanceHandle at haccounted ⊢
  split at haccounted
  · rename_i mode task tasks runs hruns
    split_ifs at haccounted ⊢ with hphase
    · exact h
    · have horder := h.order
      simp only [waiting,hruns,List.flatMap_cons] at horder
      refine ⟨haccounted,?_,h.callable,h.called,h.late,?_,h.settled⟩
      · simpa [waiting] using horder
      · have hbehind := h.behind
        revert hbehind
        cases hp : s.phase <;> simp [TaskManager.behind,waiting,hp,hruns]
  · exact h

theorem Inv.endRun (h : s.Inv) : s.endRun.Inv := by
  have haccounted := h.accounted.endRun
  unfold TaskManager.endRun at haccounted ⊢
  split at haccounted
  · rename_i mode runs hruns
    split_ifs at haccounted ⊢ with hcleanup hmode
    · exact h
    · -- only the destructor runs the queue in this mode
      have hphase : s.phase = .draining := by
        have hphased := h.accounted.phased
        rw [hruns] at hphased
        cases hp : s.phase with
        | draining => rfl
        | _ =>
          rw [hp] at hphased
          simpa [hmode] using hphased _ (List.mem_cons_self)
      refine ⟨haccounted,?_,h.callable,h.called,fun _ => h.late (by simp [hphase]),?_,
        fun hdestroyed => (nomatch hdestroyed)⟩
      · simpa [waiting,hruns] using h.order
      · simpa [TaskManager.behind,waiting,hphase,hruns] using h.behind
    · refine ⟨haccounted,?_,h.callable,h.called,h.late,?_,h.settled⟩
      · simpa [waiting,hruns] using h.order
      · have hbehind := h.behind
        have hphased := h.accounted.phased
        rw [hruns] at hphased
        revert hbehind
        cases hp : s.phase <;> rw [hp] at hphased <;> simp_all [TaskManager.behind,waiting,Phased]
  · exact h

theorem Inv.finishDestroy (h : s.Inv) (hgood : s.Orderly .destroyed) : s.finishDestroy.Inv := by
  have haccounted := h.accounted.finishDestroy
  unfold TaskManager.finishDestroy at haccounted ⊢
  split_ifs at haccounted ⊢ with hphase
  · refine ⟨haccounted,h.order,h.callable,h.called,fun _ => h.late (by simp [hphase]),?_,
      fun _ => hgood hphase⟩
    simpa [TaskManager.behind,waiting,hphase] using h.behind
  · exact h

theorem Inv.step (h : s.Inv) {op : TaskOp} (hgood : s.Orderly op) : (s.step op).Inv := by
  cases op with
  | featurePost handle taskCb data =>
    unfold TaskManager.step featurePost
    dsimp only
    split
    · exact h
    · split_ifs with hcb
      · exact h
      · exact h.addTask hcb
  | featurePostExt handle taskCbExt data =>
    unfold TaskManager.step featurePostExt
    dsimp only
    split
    · exact h
    · rename_i inst hinst
      rcases hgood with hphase | hnone | hcb
      · simpa [TaskManager.addTask,hphase] using h
      · rw [hinst] at hnone
        cases hnone
      · exact h.addTask hcb
  | permissionTask inst task data => exact h.addTask (Option.some_ne_none task)
  | enqueueTask k => exact h.enqueueTask hgood
  | asyncCb => exact h.asyncCb
  | destroy => exact h.destroy hgood
  | callTask => exact h.callTask
  | freeInstanceHandle => exact h.freeInstanceHandle
  | endRun => exact h.endRun
  | destroyed => exact h.finishDestroy hgood
  | detach inst =>
    exact ⟨h.accounted.step (.detach inst),h.order,h.callable,h.called,h.late,h.behind,h.settled⟩

structure Grows (s s' : TaskManager) : Prop where
  fault : s.fault = true → s'.fault = true
  tasks : ∀ task ∈ s.posting ++ s.accepted, task ∈ s'.posting ++ s'.accepted
  late : s.phase ≠ .alive → s'.phase ≠ .alive ∧ s.taskQueue <+: s'.taskQueue
  destroyed : s.phase = .destroyed → s'.phase = .destroyed ∧ s'.posting = s.posting
  behind : s.phase ≠ .alive → s.phase ≠ .destroyed → s'.behind = s.behind

theorem Grows.refl (s : TaskManager) : Grows s s :=
  ⟨id,fun _ h => h,fun h => ⟨h,List.prefix_rfl⟩,fun h => ⟨h,rfl⟩,fun _ _ => rfl⟩

theorem grows_addTask (s : TaskManager) (task : TaskData) : Grows s (s.addTask task) := by
  unfold addTask
  split_ifs with hphase
  · exact Grows.refl s
  · refine ⟨id,fun t ht => ?_,fun h => ⟨h,List.prefix_rfl⟩,fun h => absurd h hphase,
      fun _ _ => rfl⟩
    simp only [List.mem_append] at ht ⊢
    tauto

theorem grows_enqueueTask (s : TaskManager) (k : ℕ) : Grows s (s.enqueueTask k) := by
  unfold enqueueTask
  cases hk : s.posting[k]? with
  | none => exact Grows.refl s
  | some task =>
    dsimp only
    split_ifs with hphase
    · exact Grows.refl s
    · refine ⟨id,fun t ht => ?_,fun h => ⟨h,List.prefix_append _ _⟩,fun h => absurd h hphase,
        fun _ _ => rfl⟩
      obtain ⟨hlt,rfl⟩ := List.getElem?_eq_some_iff.mp hk
      have hperm := List.getElem_cons_eraseIdx_perm hlt
      simp only [List.mem_append,← hperm.mem_iff,List.mem_cons] at ht ⊢
      tauto

theorem Accounted.grows_step (h : s.Accounted) (op : TaskOp) : Grows s (s.step op) := by
  have hphased := h.phased
  cases op with
  | featurePost handle taskCb data =>
    unfold TaskManager.step featurePost
    dsimp only
    split
    · exact Grows.refl s
    · split_ifs
      · exact Grows.refl s
      · exact grows_addTask s _
  | featurePostExt handle taskCbExt data =>
    unfold TaskManager.step featurePostExt
    dsimp only
    split
    · exact Grows.refl s
    · exact grows_addTask s _
  | permissionTask inst task data => exact grows_addTask s _
  | enqueueTask k => exact grows_enqueueTask s k
  | asyncCb =>
    unfold TaskManager.step TaskManager.asyncCb
    dsimp only
    split_ifs with hidle
    · exact ⟨id,fun _ ht => ht,fun hlate => absurd hidle.1 hlate,
        fun hdestroyed => by simp [hidle.1] at hdestroyed,fun hlate => absurd hidle.1 hlate⟩
    · exact Grows.refl s
  | destroy =>
    unfold TaskManager.step TaskManager.destroy
    dsimp only
    split_ifs with hphase
    · exact ⟨id,fun _ ht => ht,fun hlate => absurd hphase hlate,
        fun hdestroyed => by simp [hphase] at hdestroyed,fun hlate => absurd hphase hlate⟩
    · exact Grows.refl s
  | callTask =>
    unfold TaskManager.step TaskManager.callTask
    dsimp only
    split
    · rename_i mode task tasks runs hruns
      split_ifs with hcleanup
      · exact Grows.refl s
      · refine ⟨fun hfault => by simp [hfault],fun _ ht => ht,fun hlate => ⟨hlate,List.prefix_rfl⟩,
          fun hdestroyed => ⟨hdestroyed,rfl⟩,fun hlate hdestroyed => ?_⟩
        cases hp : s.phase <;> simp_all [TaskManager.behind]
    · exact Grows.refl s
  | freeInstanceHandle =>
    unfold TaskManager.step TaskManager.freeInstanceHandle
    dsimp only
    split
    · rename_i mode task tasks runs hruns
      split_ifs with hcleanup
      · exact Grows.refl s
      · refine ⟨id,fun _ ht => ht,fun hlate => ⟨hlate,List.prefix_rfl⟩,
          fun hdestroyed => ⟨hdestroyed,rfl⟩,fun hlate hdestroyed => ?_⟩
        cases hp : s.phase <;> simp_all [TaskManager.behind]
    · exact Grows.refl s
  | endRun =>
    unfold TaskManager.step TaskManager.endRun
    dsimp only
    split
    · rename_i mode runs hruns
      rw [hruns] at hphased
      split_ifs with hcleanup hmode
      · exact Grows.refl s
      · refine ⟨id,fun _ ht => ht,fun _ => ⟨by simp,List.prefix_rfl⟩,
          fun hdestroyed => ?_,fun hlate hdestroyed => ?_⟩
        · rw [hdestroyed] at hphased
          simpa [hmode] using hphased _ List.mem_cons_self
        · cases hp : s.phase <;> simp_all [TaskManager.behind,TaskManager.waiting]
      · refine ⟨id,fun _ ht => ht,fun hlate => ⟨hlate,List.prefix_rfl⟩,
          fun hdestroyed => ⟨hdestroyed,rfl⟩,fun hlate hdestroyed => ?_⟩
        cases hp : s.phase <;> simp_all [Phased]
    · exact Grows.refl s
  | destroyed =>
    unfold TaskManager.step TaskManager.finishDestroy
    dsimp only
    split_ifs with hphase
    · exact ⟨id,fun _ ht => ht,fun _ => ⟨by simp,List.prefix_rfl⟩,fun _ => ⟨rfl,rfl⟩,
        fun _ _ => by simp [TaskManager.behind,TaskManager.waiting,hphase]⟩
    · exact Grows.refl s
  | detach inst =>
    exact ⟨id,fun _ ht => ht,fun h => ⟨h,List.prefix_rfl⟩,fun h => ⟨h,rfl⟩,fun _ _ => rfl⟩

inductive Doomed (s : TaskManager) : Prop
  | fault (h : s.fault = true)
  | null {task : TaskData} (hmem : task ∈ s.posting ++ s.accepted) (h : task.taskCb = none)
  | late (hphase : s.phase ≠ .alive) (h : s.taskQueue ≠ [])
  | abandoned (hphase : s.phase ≠ .alive) (hphase' : s.phase ≠ .destroyed) (h : s.behind ≠ [])
  | stranded (hphase : s.phase = .destroyed) (h : s.posting ≠ [])

theorem Accounted.nothing_left (h : s.Accounted) (hall : s.executed.map Prod.fst = s.accepted) :
    s.waiting = [] ∧ s.taskQueue = [] := by
  have hlength := h.accepted.length_eq
  rw [hall,List.length_append,List.length_append] at hlength
  constructor <;> apply List.eq_nil_of_length_eq_zero <;> omega

theorem Doomed.step (h : s.Doomed) (haccounted : s.Accounted) (op : TaskOp)
    (hdelivered : (s.step op).Delivered) : (s.step op).Doomed := by
  have hgrows := haccounted.grows_step op
  cases h with
  | fault h => exact .fault (hgrows.fault h)
  | null hmem h => exact .null (hgrows.tasks _ hmem) h
  | late hphase h =>
    obtain ⟨hphase',hqueue⟩ := hgrows.late hphase
    exact .late hphase' fun hnil => h (List.prefix_nil.mp (hnil ▸ hqueue))
  | abandoned hphase hphase' h =>
    rw [← hgrows.behind hphase hphase'] at h
    apply Doomed.abandoned (hgrows.late hphase).1 ?_ h
    intro hdestroyed
    apply h
    simpa [TaskManager.behind,hdestroyed] using
      ((haccounted.step op).nothing_left (hdelivered.destroyed hdestroyed)).1
  | stranded hphase h =>
    obtain ⟨hphase',hposting⟩ := hgrows.destroyed hphase
    exact .stranded hphase' (hposting ▸ h)

theorem doomed_step {op : TaskOp} (hbad : ¬ s.Orderly op) : (s.step op).Doomed := by
  cases op with
  | featurePostExt handle taskCbExt data =>
    simp only [Orderly,not_or,not_not] at hbad
    obtain ⟨hphase,hcheck,rfl⟩ := hbad
    obtain ⟨inst,hinst⟩ := Option.ne_none_iff_exists'.mp hcheck
    have hnull : (⟨inst,none,data,true⟩ : TaskData).taskCb = none := rfl
    apply Doomed.null _ hnull
    simp [TaskManager.step,featurePostExt,hinst,TaskManager.addTask,hphase]
  | enqueueTask k =>
    simp only [Orderly,not_or] at hbad
    obtain ⟨hk,halive,hdestroyed⟩ := hbad
    obtain ⟨task,htask⟩ := Option.ne_none_iff_exists'.mp hk
    apply Doomed.late <;> simp [TaskManager.step,TaskManager.enqueueTask,htask,halive,hdestroyed]
  | destroy =>
    simp only [Orderly,Classical.not_imp] at hbad
    obtain ⟨hphase,hwaiting⟩ := hbad
    apply Doomed.abandoned <;> simp_all [TaskManager.step,TaskManager.destroy,TaskManager.behind,runAllTasks,waiting]
  | destroyed =>
    simp only [Orderly,Classical.not_imp] at hbad
    obtain ⟨hphase,hposting⟩ := hbad
    apply Doomed.stranded <;> simp [TaskManager.step,TaskManager.finishDestroy,hphase,hposting]
  | _ => exact absurd trivial hbad

theorem Doomed.not_delivered (h : s.Doomed) (haccounted : s.Accounted)
    (hphase : s.phase = .destroyed) (hruns : s.runs = []) : ¬ s.Delivered := by
  intro hdelivered
  have hall := hdelivered.destroyed hphase
  have hposting : s.posting = [] := by
    rw [List.eq_nil_iff_forall_not_mem]
    intro task hmem
    have hrefs := haccounted.refs task.instance_
    rw [(hdelivered.balanced hphase hruns).2,eq_comm] at hrefs
    have hnone := List.countP_eq_zero.mp (Int.natCast_eq_zero.mp hrefs)
    simpa using hnone task (by simp [hmem])
  cases h with
  | fault h => simp [hdelivered.called] at h
  | null hmem h =>
    rw [hposting,List.nil_append,← hall] at hmem
    obtain ⟨call,hcall,rfl⟩ := List.mem_map.mp hmem
    simpa [hdelivered.called] using haccounted.null call hcall h
  | late hlate h => exact h (haccounted.nothing_left hall).2
  | abandoned hlate hdestroyed h => exact hdestroyed hphase
  | stranded hdestroyed h => exact h hposting

/-- Orderly runs deliver every task, and of the runs that destroy the manager only they do. -/
theorem delivers_iff (ops : List TaskOp) :
    (Transition.Guarded step Orderly {} ops → Transition.Always step Delivered {} ops) ∧
    ((Transition.run step {} ops).phase = .destroyed → (Transition.run step {} ops).runs = [] →
      (Transition.Always step Delivered {} ops ↔ Transition.Guarded step Orderly {} ops)) := by
  constructor
  · intro h
    exact (h.always (fun _ _ hs hgood => hs.step hgood) inv_init).mono fun _ => Inv.delivered
  · intro hphase hruns
    refine Transition.always_iff_guarded_of_doomed (I := Inv)
      (D := fun s => s.Accounted ∧ s.Doomed) (fun _ => Inv.delivered)
      (fun _ _ hs hgood => hs.step hgood)
      (fun _ op hs hbad => .inr ⟨hs.accounted.step op,doomed_step hbad⟩)
      (fun _ op hs hdelivered => ⟨hs.1.step op,hs.2.step hs.1 op hdelivered⟩) inv_init ops ?_
    exact fun hdelivered hdoomed => hdoomed.2.not_delivered hdoomed.1 hphase hruns hdelivered

/-- A post from a task that the event loop runs, and the destructor behind both. -/
theorem delivers_of_nested_post :
    Transition.Always step Delivered {} [.featurePost (some 1) (some 7) 0,.enqueueTask 0,.asyncCb,
      .callTask,.featurePost (some 1) (some 8) 0,.enqueueTask 0,.freeInstanceHandle,.endRun,
      .destroy,.callTask,.freeInstanceHandle,.endRun,.destroyed] :=
  (delivers_iff _).1 (by
    refine ⟨trivial,?_,trivial,trivial,trivial,?_,trivial,trivial,?_,trivial,trivial,trivial,?_,
      trivial⟩ <;> simp +decide [Orderly])

/-- A post that passed the instance check is detached from, and reaches the queue behind the
destructor's back. -/
theorem late_post_lost : ¬ Transition.Always step Delivered {} [.featurePost (some 1) (some 7) 0,.detach 1,.destroy,
      .enqueueTask 0,.endRun,.destroyed] := by
  intro h
  have hdelivered := (h.last).destroyed rfl
  cases hdelivered

end TaskManager

end FeatureRuntime
