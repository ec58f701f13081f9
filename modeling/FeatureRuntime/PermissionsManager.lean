import FeatureRuntime.IdMap
import FeatureRuntime.Transition

/-! The permission protocol: feature methods that open a request, decisions of the host on the raw
handles it was given, the manager's task queue, and the detach of instances. -/
namespace FeatureRuntime

/-- `FeaturePermsRejectReason`. -/
inductive PermsRejectReason
  | denied | error | noBg
  deriving DecidableEq, Repr

/-- `PermissionsInfo`; `request` numbers the objects in the order of their creation. -/
structure PermissionsInfo where
  instance_ : ℕ
  request : ℕ
  rejectReason : PermsRejectReason
  deriving DecidableEq, Repr

inductive PermissionsTaskKind
  | request | grant | reject
  deriving DecidableEq, Repr

/-- A `TaskData` of the protocol. `data` is the address of a `PermissionsInfo`, and `request` the
object that lived there when the task was queued. -/
structure PermissionsTask where
  kind : PermissionsTaskKind
  instance_ : ℕ
  data : ℤ
  request : ℕ
  deriving DecidableEq, Repr

inductive TaskMode
  | normal | free
  deriving DecidableEq, Repr

inductive PermissionsOutcome
  | granted
  | rejected (reason : PermsRejectReason)
  deriving DecidableEq, Repr

/-- The deferred method or the reject handlers of one object are running. -/
structure PermissionsFrame where
  addr : ℤ
  request : ℕ
  deriving DecidableEq, Repr

/-- `perms` is `perms_set_` with the object behind each pointer: an object is alive exactly while
its pointer is in the set. -/
structure PermissionsManager where
  hasCb : Bool := false
  perms : IdMap PermissionsInfo := ∅
  nextRequest : ℕ := 0
  queue : List PermissionsTask := []
  running : List PermissionsTask := []
  mode : TaskMode := .normal
  executing : Option PermissionsFrame := none
  detached : List ℕ := []
  /-- The handles the permissions callback passed to the host. -/
  given : List ℤ := []
  outcomes : List (ℕ × PermissionsOutcome) := []
  /-- A task read a `PermissionsInfo` that had been deleted. -/
  fault : Bool := false

inductive PermissionsOp
  | setPermissionsCallback (hasCb : Bool)
  /-- `FeatureRequestPermissions`; the allocator places the object at `addr`. -/
  | requestPermissions (inst : ℕ) (addr : ℤ)
  | grantPermissions (addr : ℤ)
  | rejectPermissions (addr : ℤ) (reason : PermsRejectReason)
  /-- `runAllTasks` takes over the queue. -/
  | runAllTasks (mode : TaskMode)
  /-- The next task of the run, up to the deferred method or the reject handlers. -/
  | runTask
  /-- The deferred method or the reject handlers return. -/
  | finishTask
  | detach (inst : ℕ)

namespace PermissionsManager

/-- The object created as number `request` read through its address. -/
def read (s : PermissionsManager) (addr : ℤ) (request : ℕ) : Option PermissionsInfo :=
  s.perms[addr]?.filter (fun info => info.request = request)

def addTaskExt (s : PermissionsManager) (task : PermissionsTask) : PermissionsManager :=
  { s with queue := s.queue ++ [task] }

/-- `FeatureInstance::requestPermissions` behind the instance check. A live object never shares
its address with a new one. -/
def requestPermissions (s : PermissionsManager) (inst : ℕ) (addr : ℤ) : PermissionsManager :=
  if inst ∈ s.detached ∨ s.hasCb = false ∨ s.perms.contains addr = true then s
  else
    { s with
      perms := s.perms.insert addr ⟨inst,s.nextRequest,.denied⟩
      nextRequest := s.nextRequest + 1
      queue := s.queue ++ [⟨.request,inst,addr,s.nextRequest⟩] }

/-- `FeatureGrantPermissions`: `CheckPermissions`, then the task is queued. -/
def grantPermissions (s : PermissionsManager) (addr : ℤ) : PermissionsManager :=
  if addr ∈ s.given then
    match s.perms[addr]? with
    | none => s
    | some info => s.addTaskExt ⟨.grant,info.instance_,addr,info.request⟩
  else s

/-- `FeatureRejectPermissions`: the reason is stored at once. -/
def rejectPermissions (s : PermissionsManager) (addr : ℤ) (reason : PermsRejectReason) :
    PermissionsManager :=
  if addr ∈ s.given then
    match s.perms[addr]? with
    | none => s
    | some info =>
      { s with perms := s.perms.insert addr { info with rejectReason := reason } }.addTaskExt
        ⟨.reject,info.instance_,addr,info.request⟩
  else s

def runAllTasks (s : PermissionsManager) (mode : TaskMode) : PermissionsManager :=
  if s.running = [] ∧ s.executing = none then
    { s with running := s.queue, queue := [], mode := mode }
  else s

/-- `permission_request_task`: the set is consulted before the object. -/
def permissionRequestTask (s : PermissionsManager) (task : PermissionsTask) : PermissionsManager :=
  match s.perms[task.data]? with
  | none => s
  | some _ => if s.hasCb then { s with given := task.data :: s.given } else s

/-- `grant_permissions_task` and `reject_permissions_task`: the object is read before the set is
consulted, and its outcome begins. A pointer to a deleted object is never good again, also if another one is made there. -/
def decisionTask (s : PermissionsManager) (task : PermissionsTask)
    (outcome : PermissionsInfo → PermissionsOutcome) : PermissionsManager :=
  match s.read task.data task.request with
  | none => { s with fault := true }
  | some info =>
    { s with
      executing := some ⟨task.data,info.request⟩
      outcomes := (info.request,outcome info) :: s.outcomes }

def grantPermissionsTask (s : PermissionsManager) (task : PermissionsTask) : PermissionsManager :=
  s.decisionTask task (fun _ => .granted)

def rejectPermissionsTask (s : PermissionsManager) (task : PermissionsTask) : PermissionsManager :=
  s.decisionTask task (fun info => .rejected info.rejectReason)

def taskCallback (s : PermissionsManager) (task : PermissionsTask) : PermissionsManager :=
  if s.mode = .normal ∧ task.instance_ ∉ s.detached then
    match task.kind with
    | .request => s.permissionRequestTask task
    | .grant => s.grantPermissionsTask task
    | .reject => s.rejectPermissionsTask task
  else s

def runTask (s : PermissionsManager) : PermissionsManager :=
  match s.executing, s.running with
  | none, task :: rest => { s with running := rest }.taskCallback task
  | _, _ => s

/-- `releaseArgs` of the object whose outcome ran, then `RemovePermissions`. -/
def finishTask (s : PermissionsManager) : PermissionsManager :=
  match s.executing with
  | none => s
  | some f =>
    match s.read f.addr f.request with
    | none => { s with fault := true }
    | some _ => { s with executing := none, perms := s.perms.erase f.addr }

/-- `FeatureInstance::onDetached` with `RemoveInstancePermissions`. -/
def detach (s : PermissionsManager) (inst : ℕ) : PermissionsManager :=
  { s with
    detached := inst :: s.detached
    perms := s.perms.filter (fun _ info => info.instance_ != inst) }

def step (s : PermissionsManager) (op : PermissionsOp) : PermissionsManager :=
  if s.fault then s
  else
    match op with
    | .setPermissionsCallback hasCb => { s with hasCb := hasCb }
    | .requestPermissions inst addr => s.requestPermissions inst addr
    | .grantPermissions addr => s.grantPermissions addr
    | .rejectPermissions addr reason => s.rejectPermissions addr reason
    | .runAllTasks mode => s.runAllTasks mode
    | .runTask => s.runTask
    | .finishTask => s.finishTask
    | .detach inst => s.detach inst

/-- No task read a deleted object, and no request has two outcomes. -/
structure Safe (s : PermissionsManager) : Prop where
  noFault : s.fault = false
  outcomes_nodup : (s.outcomes.map Prod.fst).Nodup

def isPending (s : PermissionsManager) (task : PermissionsTask) : Bool :=
  task.kind != .request && decide (task.instance_ ∉ s.detached)

def pending (s : PermissionsManager) : List PermissionsTask :=
  ((if s.mode = .normal then s.running else []) ++ s.queue).filter s.isPending

def Undecided (s : PermissionsManager) (addr : ℤ) : Prop :=
  addr ∉ s.pending.map (·.data) ∧ addr ∉ s.executing.map (·.addr)

/-- The host decides a live request only while it is undecided, and an instance is not detached
from inside the deferred method or the reject handlers of its own request. -/
def Orderly (s : PermissionsManager) : PermissionsOp → Prop
  | .grantPermissions addr | .rejectPermissions addr _ =>
    addr ∈ s.given → s.perms.contains addr = true → s.Undecided addr
  | .detach inst => ∀ f ∈ s.executing, ∀ info ∈ s.perms[f.addr]?, info.instance_ ≠ inst
  | _ => True

theorem read_eq_some {s : PermissionsManager} {addr : ℤ} {request : ℕ} {info : PermissionsInfo} :
    s.read addr request = some info ↔ s.perms[addr]? = some info ∧ info.request = request := by
  simp [read,Option.filter_eq_some_iff]

structure Inv (s : PermissionsManager) : Prop extends Safe s where
  request_lt : ∀ (a : ℤ) (info : PermissionsInfo), s.perms[a]? = some info → info.request < s.nextRequest
  request_inj : ∀ (a b : ℤ) (info info' : PermissionsInfo), s.perms[a]? = some info →
    s.perms[b]? = some info' → info.request = info'.request → a = b
  outcomes_lt : ∀ o ∈ s.outcomes, o.1 < s.nextRequest
  outcome_executing : ∀ (a : ℤ) (info : PermissionsInfo), s.perms[a]? = some info →
    info.request ∈ s.outcomes.map Prod.fst → a ∈ s.executing.map (·.addr)
  executing_live : ∀ f ∈ s.executing, ∃ info, s.read f.addr f.request = some info
  pending_nodup : (s.pending.map (·.data)).Nodup
  pending_live : ∀ task ∈ s.pending, task.data ∉ s.executing.map (·.addr) ∧
    ∃ info, s.read task.data task.request = some info ∧ info.instance_ = task.instance_

theorem inv_init : Inv {} where
  noFault := rfl
  outcomes_nodup := List.nodup_nil
  request_lt := by simp
  request_inj := by simp
  outcomes_lt := by simp
  outcome_executing := by simp
  executing_live := by simp
  pending_nodup := by simp [pending]
  pending_live := by simp [pending]

section Preservation

variable {s : PermissionsManager}

theorem pending_addTaskExt (s : PermissionsManager) (task : PermissionsTask) :
    (s.addTaskExt task).pending = s.pending ++ if s.isPending task then [task] else [] := by
  simp only [pending,addTaskExt,← List.append_assoc]
  rw [List.filter_append,List.filter_singleton,cond_eq_ite]
  rfl

variable {task : PermissionsTask} {info : PermissionsInfo}

theorem Inv.addTaskExt (hs : s.Inv)
    (hread : s.read task.data task.request = some info) (hinst : info.instance_ = task.instance_)
    (hundecided : s.Undecided task.data) : (s.addTaskExt task).Inv := by
  have hmem : ∀ t ∈ (s.addTaskExt task).pending, t ∈ s.pending ∨ t = task := by
    intro t ht
    rw [pending_addTaskExt] at ht
    split_ifs at ht
    · simpa using ht
    · exact .inl (by simpa using ht)
  refine { hs with pending_nodup := ?_, pending_live := ?_ }
  · rw [pending_addTaskExt]
    split_ifs
    · rw [List.map_append,List.nodup_append]
      refine ⟨hs.pending_nodup,List.nodup_singleton _,?_⟩
      intro a ha b hb heq
      rw [List.map_singleton,List.mem_singleton] at hb
      exact hundecided.1 (hb ▸ heq ▸ ha)
    · simpa using hs.pending_nodup
  · intro t ht
    rcases hmem t ht with hold | rfl
    · exact hs.pending_live t hold
    · exact ⟨hundecided.2,info,hread,hinst⟩

theorem Inv.setRejectReason (hs : s.Inv) {addr : ℤ}
    (hinfo : s.perms[addr]? = some info) (reason : PermsRejectReason) :
    ({ s with perms := s.perms.insert addr { info with rejectReason := reason } } :
      PermissionsManager).Inv := by
  have hback : ∀ (a : ℤ) (i : PermissionsInfo),
      (s.perms.insert addr { info with rejectReason := reason })[a]? = some i →
      ∃ old, s.perms[a]? = some old ∧ i.request = old.request := by
    intro a i h
    rw [IdMap.get_insert] at h
    split_ifs at h with heq
    · subst heq
      exact ⟨info,hinfo,by rw [← Option.some.inj h]⟩
    · exact ⟨i,h,rfl⟩
  have hforth : ∀ (a : ℤ) (r : ℕ) (i : PermissionsInfo), s.read a r = some i →
      ∃ new, ({ s with perms := s.perms.insert addr { info with rejectReason := reason } } :
        PermissionsManager).read a r = some new ∧ new.instance_ = i.instance_ := by
    intro a r i h
    obtain ⟨hget,hreq⟩ := read_eq_some.mp h
    by_cases heq : a = addr
    · subst heq
      rw [hinfo] at hget
      obtain rfl := Option.some.inj hget
      exact ⟨{ info with rejectReason := reason },read_eq_some.mpr ⟨Std.TreeMap.getElem?_insert_self,hreq⟩,rfl⟩
    · exact ⟨i,read_eq_some.mpr ⟨by rw [IdMap.get_insert_ne _ heq]; exact hget,hreq⟩,rfl⟩
  refine { hs with request_lt := ?_, request_inj := ?_, outcome_executing := ?_
                   executing_live := ?_, pending_live := ?_ }
  · intro a i h
    obtain ⟨old,hold,hreq⟩ := hback a i h
    exact hreq ▸ hs.request_lt a old hold
  · intro a b i j hi hj hij
    obtain ⟨old,hold,hreq⟩ := hback a i hi
    obtain ⟨old',hold',hreq'⟩ := hback b j hj
    exact hs.request_inj a b old old' hold hold' (by rw [← hreq,← hreq',hij])
  · intro a i h hout
    obtain ⟨old,hold,hreq⟩ := hback a i h
    exact hs.outcome_executing a old hold (hreq ▸ hout)
  · intro f hf
    obtain ⟨i,hi⟩ := hs.executing_live f hf
    obtain ⟨new,hnew,-⟩ := hforth _ _ i hi
    exact ⟨new,hnew⟩
  · intro task htask
    obtain ⟨hexec,i,hi,hinst⟩ := hs.pending_live task htask
    obtain ⟨new,hnew,heq⟩ := hforth _ _ i hi
    exact ⟨hexec,new,hnew,heq.trans hinst⟩

theorem Inv.requestPermissions (hs : s.Inv) (inst : ℕ) (addr : ℤ) : (s.requestPermissions inst addr).Inv := by
  unfold PermissionsManager.requestPermissions
  split_ifs with hno
  · exact hs
  have hfree : s.perms[addr]? = none := by
    rw [← IdMap.contains_eq_false_iff]
    exact Bool.eq_false_iff.mpr (fun h => hno (.inr (.inr h)))
  set info : PermissionsInfo := ⟨inst,s.nextRequest,.denied⟩ with hinfo
  have hcases : ∀ (a : ℤ) (i : PermissionsInfo), (s.perms.insert addr info)[a]? = some i →
      (a = addr ∧ i = info) ∨ s.perms[a]? = some i := by
    intro a i h
    rw [IdMap.get_insert] at h
    split_ifs at h with heq
    · exact .inl ⟨heq.symm,(Option.some.inj h).symm⟩
    · exact .inr h
  set s' : PermissionsManager := { s with
    perms := s.perms.insert addr info
    nextRequest := s.nextRequest + 1
    queue := s.queue ++ [⟨.request,inst,addr,s.nextRequest⟩] } with hs'
  have hread : ∀ (a : ℤ) (r : ℕ) (i : PermissionsInfo), s.read a r = some i → s'.read a r = some i := by
    intro a r i h
    obtain ⟨hget,hreq⟩ := read_eq_some.mp h
    refine read_eq_some.mpr ⟨?_,hreq⟩
    have hne : a ≠ addr := by
      rintro rfl
      simp [hfree] at hget
    rw [hs',IdMap.get_insert_ne _ hne]
    exact hget
  have hpending : s'.pending = s.pending := by
    have hadd := pending_addTaskExt s ⟨.request,inst,addr,s.nextRequest⟩
    simp only [isPending,bne_self_eq_false,Bool.false_and,Bool.false_eq_true,if_false,List.append_nil] at hadd
    exact hadd
  refine { hs with request_lt := ?_, request_inj := ?_, outcomes_lt := ?_, outcome_executing := ?_
                   executing_live := ?_, pending_nodup := ?_, pending_live := ?_ }
  · intro a i h
    rcases hcases a i h with ⟨-,rfl⟩ | hold
    · exact Nat.lt_succ_self _
    · exact Nat.lt_succ_of_lt (hs.request_lt a i hold)
  · intro a b i j hi hj hij
    rcases hcases a i hi with ⟨rfl,rfl⟩ | hi' <;> rcases hcases b j hj with ⟨rfl,rfl⟩ | hj'
    · rfl
    · exact absurd hij (hs.request_lt b j hj').ne'
    · exact absurd hij (hs.request_lt a i hi').ne
    · exact hs.request_inj a b i j hi' hj' hij
  · exact fun o ho => Nat.lt_succ_of_lt (hs.outcomes_lt o ho)
  · intro a i h hout
    rcases hcases a i h with ⟨-,rfl⟩ | hold
    · obtain ⟨o,ho,hreq⟩ := List.mem_map.mp hout
      exact absurd hreq (hs.outcomes_lt o ho).ne
    · exact hs.outcome_executing a i hold hout
  · intro f hf
    obtain ⟨i,hi⟩ := hs.executing_live f hf
    exact ⟨i,hread _ _ i hi⟩
  · rw [hpending]
    exact hs.pending_nodup
  · intro task htask
    rw [hpending] at htask
    obtain ⟨hexec,i,hi,hinst⟩ := hs.pending_live task htask
    exact ⟨hexec,i,hread _ _ i hi,hinst⟩

theorem Inv.grantPermissions (hs : s.Inv) {addr : ℤ} (hgood : s.Orderly (.grantPermissions addr)) :
    (s.grantPermissions addr).Inv := by
  unfold PermissionsManager.grantPermissions
  split_ifs with hgiven
  · cases hinfo : s.perms[addr]? with
    | none => exact hs
    | some info =>
      have hlive := (IdMap.contains_iff _ _).mpr ⟨info,hinfo⟩
      exact hs.addTaskExt (read_eq_some.mpr ⟨hinfo,rfl⟩) rfl (hgood hgiven hlive)
  · exact hs

theorem Inv.rejectPermissions (hs : s.Inv) {addr : ℤ} {reason : PermsRejectReason}
    (hgood : s.Orderly (.rejectPermissions addr reason)) :
    (s.rejectPermissions addr reason).Inv := by
  unfold PermissionsManager.rejectPermissions
  split_ifs with hgiven
  · cases hinfo : s.perms[addr]? with
    | none => exact hs
    | some info =>
      have hlive := (IdMap.contains_iff _ _).mpr ⟨info,hinfo⟩
      refine (hs.setRejectReason hinfo reason).addTaskExt
        (read_eq_some.mpr ⟨Std.TreeMap.getElem?_insert_self,rfl⟩) rfl (hgood hgiven hlive)
  · exact hs

theorem Inv.runAllTasks (hs : s.Inv) (mode : TaskMode) : (s.runAllTasks mode).Inv := by
  unfold PermissionsManager.runAllTasks
  split_ifs with hidle
  · have hsub : ∀ task ∈ ({ s with running := s.queue, queue := [], mode := mode } :
        PermissionsManager).pending, task ∈ s.pending := by
      intro task htask
      simp only [pending,hidle.1,ite_self,List.nil_append,List.append_nil] at htask ⊢
      obtain ⟨hmem,hpend⟩ := List.mem_filter.mp htask
      split_ifs at hmem
      · exact List.mem_filter.mpr ⟨hmem,hpend⟩
      · simp at hmem
    refine { hs with pending_nodup := ?_, pending_live := fun task htask =>
      hs.pending_live task (hsub task htask) }
    have hnodup := hs.pending_nodup
    simp only [pending,hidle.1,ite_self,List.nil_append,List.append_nil] at hnodup ⊢
    split_ifs
    · exact hnodup
    · simp
  · exact hs

theorem pending_cons {rest : List PermissionsTask} (hrun : s.running = task :: rest) (hmode : s.mode = .normal) :
    s.pending = (if s.isPending task then [task] else []) ++
      ({ s with running := rest } : PermissionsManager).pending := by
  simp only [pending,hrun,hmode,if_true,List.cons_append,List.filter_cons]
  split_ifs <;> rfl

theorem Inv.dropTask (hs : s.Inv) {rest : List PermissionsTask}
    (hrun : s.running = task :: rest) : ({ s with running := rest } : PermissionsManager).Inv := by
  have hsub : ({ s with running := rest } : PermissionsManager).pending.Sublist s.pending := by
    by_cases hmode : s.mode = .normal
    · rw [pending_cons hrun hmode]
      exact List.sublist_append_right _ _
    · have hsame : ({ s with running := rest } : PermissionsManager).isPending = s.isPending := rfl
      simp only [pending,hmode,if_false,hsame]
      exact List.Sublist.refl _
  exact { hs with pending_nodup := hs.pending_nodup.sublist (hsub.map _)
                  pending_live := fun t ht => hs.pending_live t (hsub.subset ht) }

theorem Inv.permissionRequestTask (hs : s.Inv) (task : PermissionsTask) : (s.permissionRequestTask task).Inv := by
  unfold PermissionsManager.permissionRequestTask
  cases s.perms[task.data]? with
  | none => exact hs
  | some info =>
    simp only
    split_ifs
    · exact { hs with }
    · exact hs

/-- The outcome of an object that is alive, has none yet and is not decided again. -/
theorem Inv.decisionTask (hs : s.Inv) (hidle : s.executing = none) (hread : s.read task.data task.request = some info)
    (hnot : task.data ∉ s.pending.map (·.data)) (outcome : PermissionsInfo → PermissionsOutcome) :
    (s.decisionTask task outcome).Inv := by
  obtain ⟨hget,hreq⟩ := read_eq_some.mp hread
  have hnew : info.request ∉ s.outcomes.map Prod.fst := by
    intro hmem
    simpa [hidle] using hs.outcome_executing _ _ hget hmem
  simp only [PermissionsManager.decisionTask,hread]
  refine { hs with outcomes_nodup := ?_, outcomes_lt := ?_, outcome_executing := ?_
                   executing_live := ?_, pending_live := ?_ }
  · exact List.nodup_cons.mpr ⟨hnew,hs.outcomes_nodup⟩
  · exact List.forall_mem_cons.mpr ⟨hs.request_lt _ _ hget,hs.outcomes_lt⟩
  · intro a i hi hout
    rcases List.mem_cons.mp hout with heq | hout
    · rw [hs.request_inj a task.data i info hi hget heq]
      rfl
    · have := hs.outcome_executing a i hi hout
      simp [hidle] at this
  · intro f hf
    obtain rfl := Option.mem_some_iff.mp hf
    exact ⟨info,read_eq_some.mpr ⟨hget,rfl⟩⟩
  · intro t ht
    refine ⟨?_,(hs.pending_live t ht).2⟩
    intro hmem
    have heq : task.data = t.data := by simpa using hmem
    exact hnot (heq ▸ List.mem_map_of_mem ht)

theorem runTask_cases (s : PermissionsManager) :
    s.runTask = s ∨ ∃ task rest, s.executing = none ∧ s.running = task :: rest ∧
      s.runTask = { s with running := rest }.taskCallback task := by
  rcases s with ⟨_,_,_,_,_ | ⟨task,rest⟩,_,_ | f,_,_,_,_⟩
  · exact .inl rfl
  · exact .inl rfl
  · exact .inr ⟨task,rest,rfl,rfl,rfl⟩
  · exact .inl rfl

theorem Inv.runTask (hs : s.Inv) : s.runTask.Inv := by
  rcases s.runTask_cases with hsame | ⟨task,rest,hexec,hrun,heq⟩
  · rwa [hsame]
  · rw [heq,taskCallback]
    have hdrop := hs.dropTask hrun
    split_ifs with hcond
    · -- a decision of an attached instance reads an object that is still alive
      have hdecision : task.kind ≠ .request → ∀ outcome,
          (({ s with running := rest } : PermissionsManager).decisionTask task outcome).Inv := by
        intro hkind outcome
        have hpend : s.isPending task = true := by
          simp only [isPending,Bool.and_eq_true,bne_iff_ne,decide_eq_true_eq]
          exact ⟨hkind,hcond.2⟩
        have hall := pending_cons hrun hcond.1
        rw [if_pos hpend] at hall
        obtain ⟨-,info,hread,-⟩ := hs.pending_live task (by rw [hall]; exact List.mem_cons_self)
        have hnodup := hs.pending_nodup
        rw [hall,List.map_append,List.nodup_append] at hnodup
        refine hdrop.decisionTask hexec hread (fun hmem => ?_) outcome
        exact hnodup.2.2 task.data (by simp) task.data hmem rfl
      cases hkind : task.kind with
      | request => exact hdrop.permissionRequestTask task
      | grant => exact hdecision (by simp [hkind]) _
      | reject => exact hdecision (by simp [hkind]) _
    · exact hdrop

theorem Inv.finishTask (hs : s.Inv) : s.finishTask.Inv := by
  unfold PermissionsManager.finishTask
  cases hexec : s.executing with
  | none => exact hs
  | some f =>
    obtain ⟨info,hinfo⟩ := hs.executing_live f (by simp [hexec])
    have hget := (read_eq_some.mp hinfo).1
    simp only [hinfo]
    have hold : ∀ (a : ℤ) (i : PermissionsInfo),
        (s.perms.erase f.addr)[a]? = some i ↔ a ≠ f.addr ∧ s.perms[a]? = some i := by
      intro a i
      rw [IdMap.get_erase]
      split_ifs with heq
      · simp [heq]
      · simp [Ne.symm heq]
    refine { hs with request_lt := ?_, request_inj := ?_, outcome_executing := ?_
                     executing_live := by simp, pending_live := ?_ }
    · exact fun a i h => hs.request_lt a i ((hold a i).mp h).2
    · exact fun a b i j hi hj => hs.request_inj a b i j ((hold a i).mp hi).2 ((hold b j).mp hj).2
    · intro a i hi hout
      obtain ⟨hne,hi⟩ := (hold a i).mp hi
      have := hs.outcome_executing a i hi hout
      simp [hexec,Ne.symm hne] at this
    · intro task htask
      obtain ⟨hne,i,hi,hinst⟩ := hs.pending_live task htask
      obtain ⟨hi,hreq⟩ := read_eq_some.mp hi
      have hne' : task.data ≠ f.addr := by
        rintro heq
        simp [hexec,heq] at hne
      exact ⟨by simp,i,read_eq_some.mpr ⟨(hold _ _).mpr ⟨hne',hi⟩,hreq⟩,hinst⟩

theorem Inv.detach (hs : s.Inv) {inst : ℕ} (hgood : s.Orderly (.detach inst)) : (s.detach inst).Inv := by
  have hold : ∀ (a : ℤ) (i : PermissionsInfo),
      (s.detach inst).perms[a]? = some i ↔ s.perms[a]? = some i ∧ i.instance_ ≠ inst := by
    intro a i
    simp only [PermissionsManager.detach]
    rw [Std.TreeMap.getElem?_filter',Option.filter_eq_some_iff]
    simp
  have hsub : (s.detach inst).pending.Sublist s.pending := by
    refine List.monotone_filter_right _ (fun task htask => ?_)
    simp only [isPending,PermissionsManager.detach,List.mem_cons,not_or,Bool.and_eq_true,
      decide_eq_true_eq] at htask ⊢
    exact ⟨htask.1,htask.2.2⟩
  refine { hs with request_lt := ?_, request_inj := ?_, outcome_executing := ?_
                   executing_live := ?_, pending_nodup := hs.pending_nodup.sublist (hsub.map _)
                   pending_live := ?_ }
  · exact fun a i h => hs.request_lt a i ((hold a i).mp h).1
  · exact fun a b i j hi hj => hs.request_inj a b i j ((hold a i).mp hi).1 ((hold b j).mp hj).1
  · exact fun a i hi => hs.outcome_executing a i ((hold a i).mp hi).1
  · intro f hf
    obtain ⟨i,hi⟩ := hs.executing_live f hf
    obtain ⟨hget,hreq⟩ := read_eq_some.mp hi
    exact ⟨i,read_eq_some.mpr ⟨(hold _ _).mpr ⟨hget,hgood f hf i hget⟩,hreq⟩⟩
  · intro task htask
    obtain ⟨hne,i,hi,hinst⟩ := hs.pending_live task (hsub.subset htask)
    obtain ⟨hget,hreq⟩ := read_eq_some.mp hi
    have hattached : task.instance_ ≠ inst := by
      have hpend := (List.mem_filter.mp htask).2
      simp only [isPending,PermissionsManager.detach,List.mem_cons,not_or,Bool.and_eq_true,
        decide_eq_true_eq] at hpend
      exact hpend.2.1
    exact ⟨hne,i,read_eq_some.mpr ⟨(hold _ _).mpr ⟨hget,hinst ▸ hattached⟩,hreq⟩,hinst⟩

theorem Inv.step (hs : s.Inv) {op : PermissionsOp} (hgood : s.Orderly op) : (s.step op).Inv := by
  unfold PermissionsManager.step
  rw [hs.noFault,if_neg (by simp)]
  cases op with
  | setPermissionsCallback hasCb => exact { hs with noFault := rfl }
  | requestPermissions inst addr => exact hs.requestPermissions inst addr
  | grantPermissions addr => exact hs.grantPermissions hgood
  | rejectPermissions addr reason => exact hs.rejectPermissions hgood
  | runAllTasks mode => exact hs.runAllTasks mode
  | runTask => exact hs.runTask
  | finishTask => exact hs.finishTask
  | detach inst => exact hs.detach hgood

/-- Along every orderly interleaving no task reads a deleted object, and every request is granted
or rejected at most once. -/
theorem permissions_safe_of_orderly (ops : List PermissionsOp)
    (h : Transition.Guarded step Orderly {} ops) : Transition.Always step Safe {} ops :=
  (h.always (I := Inv) (fun _ _ hs hgood => hs.step hgood) inv_init).mono (fun _ hs => hs.toSafe)

/-- One request of instance 0, granted once by the host while a second one is opened. -/
theorem permissions_safe_of_single_grant : Transition.Always step Safe {}
      [.setPermissionsCallback true,.requestPermissions 0 16,.runAllTasks .normal,.runTask,
        .grantPermissions 16,.requestPermissions 0 32,.runAllTasks .normal,.runTask,
        .finishTask,.runTask] := by
  refine permissions_safe_of_orderly _ ⟨trivial,trivial,trivial,trivial,?_,trivial,trivial,trivial,
    trivial,trivial,trivial⟩
  intro _ _
  exact ⟨by decide,by decide⟩

/-- Two grants of one handle: the second task reads the object that the first one deleted. -/
theorem second_grant_reads_deleted : ¬ Transition.Always step Safe {}
      [.setPermissionsCallback true,.requestPermissions 0 16,.runAllTasks .normal,.runTask,
        .grantPermissions 16,.grantPermissions 16,.runAllTasks .normal,.runTask,.finishTask,
        .runTask] := by
  intro h
  have hfault := h.last.noFault
  exact absurd hfault (by decide)

end Preservation
end PermissionsManager
end FeatureRuntime
