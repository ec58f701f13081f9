import FeatureRuntime.Transition
import Mathlib.Data.List.Basic
import Mathlib.Data.List.Nodup
import Mathlib.Data.Int.Notation

/-! `WorkerManager`: the workers of an instance, the requests that libuv has of them, and what becomes of
their records and buffers. -/
namespace FeatureRuntime

structure FeatureWorker where
  /-- Whether `user_data` is set. -/
  userData : Bool
  /-- Whether `do_free` is set. -/
  doFree : Bool
  pid : ℤ
  status : ℤ
  deriving DecidableEq, Repr

inductive UvRequestState
  | queued | started | canceled
  deriving DecidableEq, Repr

inductive WorkerEvent
  /-- `create` has returned the worker. -/
  | created (w : ℕ)
  /-- The record of the worker is read or written. -/
  | touched (w : ℕ)
  /-- The record of the worker is deleted. -/
  | deleted (w : ℕ)
  /-- `FeatureWorkerCancel` is called; `requested` tells whether it calls `uv_cancel`. -/
  | cancelCall (w : ℕ) (requested : Bool)
  /-- `FeatureWorkerIsValid` is called. -/
  | validCall (w : ℕ) (answer : Bool)
  /-- The after-work callback of the worker has returned. -/
  | ran (w : ℕ)
  /-- The buffer is given to `do_free`, or to `free`. -/
  | released (w : ℕ) (byDoFree : Bool)
  deriving DecidableEq, Repr

/-- An instance with its worker manager. A worker is the index of its record. -/
structure WorkerSystem where
  workers : List FeatureWorker := []
  pendingTasks : List ℕ := []
  /-- Whether `_loop` is set. -/
  loop : Bool := false
  /-- Whether the instance, and with it the manager, is there. -/
  alive : Bool := true
  /-- The requests that libuv has. -/
  queue : List (ℕ × UvRequestState) := []
  /-- The worker whose after-work callback runs. -/
  callback : Option ℕ := none
  events : List WorkerEvent := []
  fault : Bool := false

/-- What happens next: a call of the framework's functions, a step of libuv, or the end of the instance. -/
inductive WorkerOp
  | init
  | create (pid : ℤ) (bufSize : ℕ) (allocated : Bool) (doFree : Bool)
  | commit (w : ℕ) (ret : ℤ)
  | isValid (w : ℕ)
  | cancel (w : ℕ)
  /-- A thread of the pool takes up a request and runs `do_work`. -/
  | start (w : ℕ)
  /-- The loop calls the after-work function of a request, which calls `do_after_worker`. -/
  | afterWork (w : ℕ) (status : ℤ)
  /-- `do_after_worker` returns. -/
  | afterReturn
  | destroy

def featureWorkerInited : ℤ := 0

def featureWorkerRunning : ℤ := 2

def featureWorkerCancelSuccess : ℤ := 0

def featureWorkerCancelInvalid : ℤ := 2

namespace WorkerSystem

def crash (s : WorkerSystem) : WorkerSystem := { s with fault := true }

def emit (s : WorkerSystem) (e : WorkerEvent) : WorkerSystem := { s with events := s.events ++ [e] }

def setStatus (s : WorkerSystem) (w : ℕ) (status : ℤ) : WorkerSystem :=
  emit { s with workers := s.workers.modify w (fun r => { r with status := status }) } (.touched w)

def create (s : WorkerSystem) (pid : ℤ) (bufSize : ℕ) (allocated : Bool) (doFree : Bool) : WorkerSystem :=
  let w : FeatureWorker :=
    { userData := bufSize ≠ 0 && allocated, doFree := doFree, pid := pid, status := featureWorkerInited }
  emit { s with workers := s.workers ++ [w], pendingTasks := s.pendingTasks ++ [s.workers.length] }
    (.created s.workers.length)

def requested (s : WorkerSystem) (w : ℕ) : Bool := s.queue.any (fun r => r.1 = w)

/-- `uv_queue_work`: it needs a loop, and a request that it does not have already. -/
def uvQueueWork (s : WorkerSystem) (w : ℕ) (ret : ℤ) : WorkerSystem :=
  if !s.loop || s.requested w then s.crash
  else if ret = 0 then { s with queue := s.queue ++ [(w,.queued)] }
  else s

def commit (s : WorkerSystem) (w : ℕ) (ret : ℤ) : WorkerSystem := (s.emit (.touched w)).uvQueueWork w ret

def checkValid (s : WorkerSystem) (w : ℕ) : Bool := s.pendingTasks.contains w

/-- `uv_cancel`: it takes back a request that no thread has taken up. -/
def uvCancel (s : WorkerSystem) (w : ℕ) : WorkerSystem :=
  { s with queue := s.queue.map (fun r => if r = (w,.queued) then (w,.canceled) else r) }

/-- `WorkerManager::cancel`. -/
def managerCancel (s : WorkerSystem) (w : ℕ) : WorkerSystem × Bool :=
  if s.pendingTasks.contains w then (s,false) else ((s.emit (.touched w)).uvCancel w,true)

/-- `FeatureWorkerCancel`. -/
def cancel (s : WorkerSystem) (w : ℕ) : WorkerSystem × ℤ :=
  if !s.checkValid w then (s.emit (.cancelCall w false),featureWorkerCancelInvalid)
  else
    let result := s.managerCancel w
    (result.1.emit (.cancelCall w result.2),featureWorkerCancelSuccess)

/-- `FeatureWorkerIsValid`. -/
def isValid (s : WorkerSystem) (w : ℕ) : WorkerSystem := s.emit (.validCall w (s.checkValid w))

def start (s : WorkerSystem) (w : ℕ) : WorkerSystem :=
  if (w,.queued) ∈ s.queue then
    setStatus { s with queue := s.queue.map (fun r => if r.1 = w then (w,.started) else r) } w featureWorkerRunning
  else s

def afterWork (s : WorkerSystem) (w : ℕ) (status : ℤ) : WorkerSystem :=
  if s.callback = none ∧ ((w,.started) ∈ s.queue ∨ (w,.canceled) ∈ s.queue) then
    setStatus { s with queue := s.queue.filter (fun r => r.1 ≠ w), callback := some w } w status
  else s

def afterReturn (s : WorkerSystem) : WorkerSystem :=
  match s.callback with
  | none => s
  | some w =>
    let s := (emit { s with callback := none } (.ran w)).emit (.touched w)
    match s.workers[w]? with
    | some r => if r.userData then s.emit (.released w r.doFree) else s
    | none => s

/-- `~FeatureInstance`: the manager goes with its list; the records and the requests stay. -/
def destroy (s : WorkerSystem) : WorkerSystem := { s with alive := false, pendingTasks := [] }

/-- One step. Calls need the instance, and those that read a record need a worker; after a crash nothing
happens. -/
def step (s : WorkerSystem) (op : WorkerOp) : WorkerSystem :=
  if s.fault then s
  else
    match op with
    | .init => if s.alive then { s with loop := true } else s
    | .create pid bufSize allocated doFree => if s.alive then s.create pid bufSize allocated doFree else s
    | .commit w ret => if s.alive ∧ w < s.workers.length then s.commit w ret else s
    | .isValid w => if s.alive then s.isValid w else s
    | .cancel w => if s.alive then (s.cancel w).1 else s
    | .start w => s.start w
    | .afterWork w status => s.afterWork w status
    | .afterReturn => s.afterReturn
    | .destroy => if s.alive then s.destroy else s

/-! What a run should look like. -/

def buffer (s : WorkerSystem) (w : ℕ) : Bool := s.workers[w]?.any FeatureWorker.userData

def isRelease (w : ℕ) : WorkerEvent → Bool
  | .released v _ => v = w
  | _ => false

def releaseCount (events : List WorkerEvent) (w : ℕ) : ℕ := events.countP (isRelease w)

def Unfinished (before : List WorkerEvent) (w : ℕ) : Prop := .created w ∈ before ∧ .ran w ∉ before

def EventOk (before : List WorkerEvent) : WorkerEvent → Prop
  | .touched w => .deleted w ∉ before
  | .cancelCall w requested => Unfinished before w → requested = true
  | .validCall w answer => answer = true ↔ Unfinished before w
  | _ => True

def Truthful (events : List WorkerEvent) : Prop :=
  ∀ before e after, events = before ++ e :: after → EventOk before e

/-- The promised lifecycle, in one state of a run. -/
structure Lifecycle (s : WorkerSystem) : Prop where
  noFault : s.fault = false
  truthful : Truthful s.events
  own : ∀ w byDoFree, .released w byDoFree ∈ s.events →
    ∃ r, s.workers[w]? = some r ∧ r.userData = true ∧ r.doFree = byDoFree
  atMostOnce : ∀ w, releaseCount s.events w ≤ 1
  /-- A worker that is done, and after the end of the instance one that is not under way, has released its
  buffer. -/
  once : ∀ w, s.buffer w = true → (.ran w ∈ s.events ∨
    s.alive = false ∧ s.requested w = false ∧ s.callback ≠ some w) → releaseCount s.events w = 1

/-- The steps that the functions can take: the loop is set before a worker is committed, and libuv does not
have the worker; a worker is not cancelled before it is done, not checked when it is done, and not done twice
with a buffer; and at the end of the instance every worker with a buffer is committed. -/
def Regular (s : WorkerSystem) : WorkerOp → Prop
  | .commit w _ => s.alive = true → w < s.workers.length → s.loop = true ∧ s.requested w = false
  | .isValid w => s.alive = true → .ran w ∉ s.events
  | .cancel w => s.alive = true → w < s.workers.length → .ran w ∈ s.events
  | .afterReturn => ∀ w, s.callback = some w → s.buffer w = true → .ran w ∉ s.events
  | .destroy => s.alive = true → ∀ w, s.buffer w = true →
      s.requested w = true ∨ s.callback = some w ∨ .ran w ∈ s.events
  | _ => True

theorem truthful_concat (events : List WorkerEvent) (e : WorkerEvent) :
    Truthful (events ++ [e]) ↔ Truthful events ∧ EventOk events e := by
  constructor
  · intro h
    refine ⟨fun before d after heq => h before d (after ++ [e]) (by simp [heq]),h events e [] rfl⟩
  · rintro ⟨hevents,he⟩ before d after heq
    rcases List.eq_nil_or_concat after with rfl | ⟨after,last,rfl⟩
    · obtain ⟨rfl,hlast⟩ := List.append_inj' heq rfl
      obtain rfl := List.head_eq_of_cons_eq hlast
      exact he
    · have hsplit : events ++ [e] = (before ++ d :: after) ++ [last] := by simpa using heq
      exact hevents before d after (List.append_inj' hsplit rfl).1

structure Inv (s : WorkerSystem) : Prop where
  noFault : s.fault = false
  truthful : Truthful s.events
  notDeleted : ∀ w, .deleted w ∉ s.events
  created : ∀ w, .created w ∈ s.events ↔ w < s.workers.length
  pending : s.alive = true → ∀ w, w ∈ s.pendingTasks ↔ w < s.workers.length
  queued : ∀ r ∈ s.queue, r.1 < s.workers.length
  running : ∀ w, s.callback = some w → w < s.workers.length
  ran : ∀ w, .ran w ∈ s.events → w < s.workers.length
  own : ∀ w byDoFree, .released w byDoFree ∈ s.events →
    ∃ r, s.workers[w]? = some r ∧ r.userData = true ∧ r.doFree = byDoFree
  releases : ∀ w, releaseCount s.events w = if s.buffer w then s.events.count (.ran w) else 0
  once : ∀ w, s.buffer w = true → s.events.count (.ran w) ≤ 1
  committed : s.alive = false → ∀ w, s.buffer w = true →
    s.requested w = true ∨ s.callback = some w ∨ .ran w ∈ s.events

variable {s : WorkerSystem}

theorem Inv.lifecycle (h : Inv s) : Lifecycle s := by
  refine ⟨h.noFault,h.truthful,h.own,fun w => ?_,fun w hbuffer hdone => ?_⟩
  · rw [h.releases w]
    split_ifs with hbuffer
    · exact h.once w hbuffer
    · exact Nat.zero_le 1
  · have hran : .ran w ∈ s.events := by
      rcases hdone with hran | ⟨halive,hrequested,hcallback⟩
      · exact hran
      · rcases h.committed halive w hbuffer with hq | hc | hran
        · rw [hrequested] at hq
          cases hq
        · exact absurd hc hcallback
        · exact hran
    have hpos := List.count_pos_iff.mpr hran
    have hone := h.once w hbuffer
    rw [h.releases w,if_pos hbuffer]
    omega

/-! What each step keeps. -/

def Quiet : WorkerEvent → Prop
  | .touched _ | .cancelCall _ _ | .validCall _ _ => True
  | _ => False

variable {w : ℕ}

theorem buffer_lt (h : s.buffer w = true) : w < s.workers.length := by
  by_contra hge
  have hnone : s.workers[w]? = none := List.getElem?_eq_none (by omega)
  rw [buffer,hnone] at h
  cases h

theorem Inv.emit (h : Inv s) {e : WorkerEvent} (hquiet : Quiet e) (hok : EventOk s.events e) : Inv (s.emit e) := by
  have hmem : ∀ d, ¬ Quiet d → (d ∈ s.events ++ [e] ↔ d ∈ s.events) := by
    intro d hd
    rw [List.mem_append,List.mem_singleton]
    exact or_iff_left (fun heq => hd (heq ▸ hquiet))
  have hran : ∀ w, (s.events ++ [e]).count (.ran w) = s.events.count (.ran w) := by
    intro w
    have hne : e ≠ .ran w := by
      rintro rfl
      exact hquiet
    rw [List.count_append,List.count_singleton,if_neg (by simpa using hne),Nat.add_zero]
  have hreleases : ∀ w, releaseCount (s.events ++ [e]) w = releaseCount s.events w := by
    intro w
    have hfalse : isRelease w e = false := by cases e <;> first | rfl | exact absurd hquiet id
    simp [releaseCount,hfalse]
  refine ⟨h.noFault,(truthful_concat _ _).mpr ⟨h.truthful,hok⟩,fun w => ?_,fun w => ?_,h.pending,h.queued,
    h.running,fun w hw => ?_,fun w byDoFree hw => ?_,fun w => ?_,fun w hbuffer => ?_,fun halive w hbuffer => ?_⟩
  · exact (hmem _ id).not.mpr (h.notDeleted w)
  · exact (hmem _ id).trans (h.created w)
  · exact h.ran w ((hmem _ id).mp hw)
  · exact h.own w byDoFree ((hmem _ id).mp hw)
  · exact (hreleases w).trans ((h.releases w).trans (by rw [← hran w]; rfl))
  · exact (hran w).trans_le (h.once w hbuffer)
  · exact (h.committed halive w hbuffer).imp_right (Or.imp_right (hmem _ id).mpr)

theorem Inv.modify (h : Inv s) (w : ℕ) (status : ℤ) :
    Inv { s with workers := s.workers.modify w (fun r => { r with status := status }) } := by
  have hget : ∀ v, (s.workers.modify w (fun r => { r with status := status }))[v]? =
      s.workers[v]?.map (fun r => if w = v then { r with status := status } else r) := by
    intro v
    rw [List.getElem?_modify]
    split_ifs <;> cases s.workers[v]? <;> rfl
  have hbuffer : ∀ v, buffer { s with workers := s.workers.modify w (fun r => { r with status := status }) } v =
      s.buffer v := by
    intro v
    simp only [buffer,hget]
    cases s.workers[v]? with
    | none => rfl
    | some r => by_cases hv : w = v <;> simp [hv]
  have hlength : (s.workers.modify w (fun r => { r with status := status })).length = s.workers.length :=
    List.length_modify _ _ _
  refine ⟨h.noFault,h.truthful,h.notDeleted,fun v => ?_,fun halive v => ?_,fun r hr => ?_,fun v hv => ?_,
    fun v hv => ?_,fun v byDoFree hv => ?_,fun v => ?_,fun v hv => ?_,fun halive v hv => ?_⟩
  · exact (h.created v).trans (by rw [hlength])
  · exact (h.pending halive v).trans (by rw [hlength])
  · exact hlength.symm ▸ h.queued r hr
  · exact hlength.symm ▸ h.running v hv
  · exact hlength.symm ▸ h.ran v hv
  · obtain ⟨r,hr,hdata,hfree⟩ := h.own v byDoFree hv
    refine ⟨if w = v then { r with status := status } else r,?_,?_,?_⟩
    · rw [hget,hr]
      rfl
    · split_ifs <;> exact hdata
    · split_ifs <;> exact hfree
  · rw [hbuffer]
    exact h.releases v
  · rw [hbuffer] at hv
    exact h.once v hv
  · rw [hbuffer] at hv
    exact h.committed halive v hv

theorem Inv.setStatus (h : Inv s) (w : ℕ) (status : ℤ) : Inv (s.setStatus w status) :=
  (h.modify w status).emit trivial (h.notDeleted w)

theorem Inv.untouched (h : Inv s) (hw : s.workers.length ≤ w) :
    s.events.count (.ran w) = 0 ∧ releaseCount s.events w = 0 := by
  refine ⟨List.count_eq_zero.mpr (fun hran => ?_),?_⟩
  · have hlt := h.ran w hran
    omega
  · have hbuffer : s.buffer w = false := by
      rw [← Bool.not_eq_true]
      exact fun hb => absurd (buffer_lt hb) (by omega)
    rw [h.releases w,hbuffer]
    rfl

theorem Inv.create (h : Inv s) (halive : s.alive = true) (pid : ℤ) (bufSize : ℕ)
    (allocated doFree : Bool) : Inv (s.create pid bufSize allocated doFree) := by
  have hold : ∀ w, w < s.workers.length → ∀ r : FeatureWorker, (s.workers ++ [r])[w]? = s.workers[w]? :=
    fun w hw r => List.getElem?_append_left hw
  have hevents : ∀ d, (∀ w, d ≠ .created w) → (d ∈ s.events ++ [.created s.workers.length] ↔ d ∈ s.events) := by
    intro d hd
    rw [List.mem_append,List.mem_singleton]
    exact or_iff_left (hd _)
  have hran : ∀ w, (s.events ++ [WorkerEvent.created s.workers.length]).count (.ran w) = s.events.count (.ran w) := by
    intro w
    simp
  have hreleases : ∀ w, releaseCount (s.events ++ [WorkerEvent.created s.workers.length]) w =
      releaseCount s.events w := by
    intro w
    simp [releaseCount,isRelease]
  have hbuffer : ∀ w, w < s.workers.length → (s.create pid bufSize allocated doFree).buffer w = s.buffer w := by
    intro w hw
    simp only [buffer,WorkerSystem.create,WorkerSystem.emit,hold w hw]
  have hlt : ∀ w, w < s.workers.length → w < (s.create pid bufSize allocated doFree).workers.length := by
    intro w hw
    simp only [WorkerSystem.create,WorkerSystem.emit,List.length_append,List.length_singleton]
    omega
  refine ⟨h.noFault,(truthful_concat _ _).mpr ⟨h.truthful,trivial⟩,fun w => ?_,fun w => ?_,fun _ w => ?_,
    fun r hr => hlt _ (h.queued r hr),fun w hw => hlt _ (h.running w hw),fun w hw => ?_,fun w byDoFree hw => ?_,
    fun w => ?_,fun w hbuffer' => ?_,fun hdead => ?_⟩
  · exact (hevents _ (by simp)).not.mpr (h.notDeleted w)
  · simp only [WorkerSystem.create,WorkerSystem.emit,List.mem_append,List.mem_singleton,h.created w,
      WorkerEvent.created.injEq,List.length_append,List.length_singleton]
    omega
  · simp only [WorkerSystem.create,WorkerSystem.emit,List.mem_append,List.mem_singleton,h.pending halive w,
      List.length_append,List.length_singleton]
    omega
  · exact hlt w (h.ran w ((hevents _ (by simp)).mp hw))
  · obtain ⟨r,hr,hrest⟩ := h.own w byDoFree ((hevents _ (by simp)).mp hw)
    exact ⟨r,(hold w (List.getElem?_eq_some_iff.mp hr).1 _).trans hr,hrest⟩
  · refine (hreleases w).trans ?_
    by_cases hw : w < s.workers.length
    · rw [hbuffer w hw,h.releases w]
      exact (if_congr Iff.rfl (hran w).symm rfl)
    · obtain ⟨hrun,hrelease⟩ := h.untouched (Nat.le_of_not_lt hw)
      rw [hrelease]
      split_ifs
      · exact ((hran w).trans hrun).symm
      · rfl
  · refine (hran w).trans_le ?_
    by_cases hw : w < s.workers.length
    · exact h.once w ((hbuffer w hw).symm.trans hbuffer')
    · rw [(h.untouched (Nat.le_of_not_lt hw)).1]
      exact Nat.zero_le 1
  · exact absurd halive (by simp [show s.alive = false from hdead])

theorem Inv.commit (h : Inv s) (hw : w < s.workers.length) (hloop : s.loop = true)
    (hfree : s.requested w = false) (ret : ℤ) : Inv (s.commit w ret) := by
  have htouch := h.emit (e := .touched w) trivial (h.notDeleted w)
  have hfree' : (s.emit (.touched w)).requested w = false := hfree
  have hloop' : (s.emit (.touched w)).loop = true := hloop
  rw [WorkerSystem.commit,uvQueueWork,hfree',hloop']
  simp only [Bool.not_true,Bool.or_false,Bool.false_eq_true,if_false]
  split_ifs with hret
  · refine { htouch with queued := fun r hr => ?_, committed := fun halive v hbuffer => ?_ }
    · rcases List.mem_append.mp hr with hr | hr
      · exact htouch.queued r hr
      · rw [List.mem_singleton.mp hr]
        exact hw
    · refine (htouch.committed halive v hbuffer).imp_left (fun hq => ?_)
      simp only [requested,List.any_append] at hq ⊢
      rw [hq,Bool.true_or]
  · exact htouch

theorem checkValid_iff (h : Inv s) (halive : s.alive = true) (w : ℕ) :
    s.checkValid w = true ↔ w < s.workers.length := by
  rw [checkValid,List.contains_iff_mem,h.pending halive]

theorem Inv.isValid (h : Inv s) (halive : s.alive = true) (hran : .ran w ∉ s.events) : Inv (s.isValid w) := by
  refine h.emit trivial ?_
  exact (checkValid_iff h halive w).trans ⟨fun hw => ⟨(h.created w).mpr hw,hran⟩,fun hw => (h.created w).mp hw.1⟩

theorem cancel_eq (s : WorkerSystem) (w : ℕ) : (s.cancel w).1 = s.emit (.cancelCall w false) := by
  rw [WorkerSystem.cancel]
  split_ifs with hvalid
  · rfl
  · have hmem : s.pendingTasks.contains w = true := by simpa [checkValid] using hvalid
    simp only [managerCancel,hmem,if_true]

theorem Inv.cancel (h : Inv s) (hran : w < s.workers.length → .ran w ∈ s.events) : Inv (s.cancel w).1 := by
  rw [cancel_eq]
  refine h.emit trivial (fun hunfinished => ?_)
  exact absurd (hran ((h.created w).mp hunfinished.1)) hunfinished.2

theorem requested_map (s : WorkerSystem) (f : ℕ × UvRequestState → ℕ × UvRequestState)
    (hf : ∀ r, (f r).1 = r.1) (w : ℕ) : requested { s with queue := s.queue.map f } w = s.requested w := by
  simp only [requested,List.any_map]
  congr 1
  funext r
  simp [hf]

theorem Inv.start (h : Inv s) (w : ℕ) : Inv (s.start w) := by
  rw [WorkerSystem.start]
  split_ifs with hqueued
  · refine Inv.setStatus ?_ w featureWorkerRunning
    have hkey : ∀ r : ℕ × UvRequestState, (if r.1 = w then (w,UvRequestState.started) else r).1 = r.1 := by
      intro r
      split_ifs with hr
      · exact hr.symm
      · rfl
    refine { h with queued := fun r hr => ?_, committed := fun halive v hbuffer => ?_ }
    · obtain ⟨r',hr',rfl⟩ := List.mem_map.mp hr
      rw [hkey]
      exact h.queued r' hr'
    · rw [requested_map s _ hkey]
      exact h.committed halive v hbuffer
  · exact h

theorem Inv.afterWork (h : Inv s) (w : ℕ) (status : ℤ) : Inv (s.afterWork w status) := by
  rw [WorkerSystem.afterWork]
  split_ifs with hready
  · refine Inv.setStatus ?_ w status
    have hw : w < s.workers.length := by
      rcases hready.2 with hr | hr
      · exact h.queued _ hr
      · exact h.queued _ hr
    refine { h with
      queued := fun r hr => h.queued r (List.mem_of_mem_filter hr)
      running := fun v hv => Option.some.inj hv ▸ hw
      committed := fun halive v hbuffer => ?_ }
    by_cases hv : v = w
    · subst hv
      exact .inr (.inl rfl)
    · rcases h.committed halive v hbuffer with hq | hc | hran
      · left
        obtain ⟨r,hr,hkey⟩ := List.any_eq_true.mp hq
        refine List.any_eq_true.mpr ⟨r,List.mem_filter.mpr ⟨hr,?_⟩,hkey⟩
        have hne : r.1 ≠ w := fun heq => hv ((of_decide_eq_true hkey).symm.trans heq)
        exact decide_eq_true hne
      · rw [hready.1] at hc
        cases hc
      · exact .inr (.inr hran)
  · exact h

theorem releaseCount_append (events events' : List WorkerEvent) (w : ℕ) :
    releaseCount (events ++ events') w = releaseCount events w + releaseCount events' w := List.countP_append

def finishEvents (w : ℕ) (r : FeatureWorker) : List WorkerEvent :=
  [.ran w,.touched w] ++ if r.userData then [.released w r.doFree] else []

theorem mem_finishEvents {r : FeatureWorker} {d : WorkerEvent} : d ∈ finishEvents w r ↔
    d = .ran w ∨ d = .touched w ∨ r.userData = true ∧ d = .released w r.doFree := by
  rw [finishEvents]
  cases r.userData <;> simp

theorem count_ran_finishEvents (w v : ℕ) (r : FeatureWorker) :
    (finishEvents w r).count (.ran v) = if w = v then 1 else 0 := by
  rw [finishEvents]
  by_cases hv : w = v <;> cases r.userData <;> simp [hv]

theorem releaseCount_finishEvents (w v : ℕ) (r : FeatureWorker) :
    releaseCount (finishEvents w r) v = if w = v ∧ r.userData = true then 1 else 0 := by
  rw [finishEvents]
  by_cases hv : w = v <;> cases r.userData <;> simp [releaseCount,isRelease,hv]

theorem afterReturn_eq {r : FeatureWorker} (hcallback : s.callback = some w) (hr : s.workers[w]? = some r) :
    s.afterReturn = { s with callback := none, events := s.events ++ finishEvents w r } := by
  simp only [WorkerSystem.afterReturn,hcallback,WorkerSystem.emit,hr,finishEvents]
  split_ifs <;> simp

theorem Truthful.finish {events : List WorkerEvent} (h : Truthful events) (hw : .deleted w ∉ events)
    (r : FeatureWorker) : Truthful (events ++ finishEvents w r) := by
  have hran := (truthful_concat events (.ran w)).mpr ⟨h,trivial⟩
  have htouched := (truthful_concat (events ++ [.ran w]) (.touched w)).mpr
    ⟨hran,fun hd => hw (by simpa using hd)⟩
  rw [finishEvents]
  cases r.userData with
  | false => simpa using htouched
  | true => simpa using (truthful_concat _ (.released w r.doFree)).mpr ⟨htouched,trivial⟩

theorem Inv.afterReturn (h : Inv s)
    (honce : ∀ w, s.callback = some w → s.buffer w = true → .ran w ∉ s.events) : Inv s.afterReturn := by
  cases hcallback : s.callback with
  | none =>
    rw [WorkerSystem.afterReturn,hcallback]
    exact h
  | some w =>
    have hw := h.running w hcallback
    obtain ⟨r,hr⟩ : ∃ r, s.workers[w]? = some r := ⟨_,List.getElem?_eq_getElem hw⟩
    have hdata : s.buffer w = r.userData := by
      rw [buffer,hr]
      rfl
    have hran : ∀ v, (s.events ++ finishEvents w r).count (.ran v) =
        s.events.count (.ran v) + if w = v then 1 else 0 := by
      intro v
      rw [List.count_append,count_ran_finishEvents]
    have hold : ∀ d, d ≠ .ran w → d ≠ .touched w → d ≠ .released w r.doFree →
        (d ∈ s.events ++ finishEvents w r ↔ d ∈ s.events) := by
      intro d hran htouched hreleased
      rw [List.mem_append,mem_finishEvents]
      simp [hran,htouched,hreleased]
    rw [afterReturn_eq hcallback hr]
    refine ⟨h.noFault,h.truthful.finish (h.notDeleted w) r,fun v => ?_,fun v => ?_,h.pending,h.queued,nofun,
      fun v hv => ?_,fun v byDoFree hv => ?_,fun v => ?_,fun v hv => ?_,fun halive v hv => ?_⟩
    · exact (hold (.deleted v) (by simp) (by simp) (by simp)).not.mpr (h.notDeleted v)
    · exact (hold (.created v) (by simp) (by simp) (by simp)).trans (h.created v)
    · rcases List.mem_append.mp hv with hv | hv
      · exact h.ran v hv
      · rcases mem_finishEvents.mp hv with hv | hv | ⟨_,hv⟩
        · rw [WorkerEvent.ran.inj hv]
          exact hw
        · cases hv
        · cases hv
    · rcases List.mem_append.mp hv with hv | hv
      · exact h.own v byDoFree hv
      · rcases mem_finishEvents.mp hv with hv | hv | ⟨huser,hv⟩
        · cases hv
        · cases hv
        · obtain ⟨rfl,rfl⟩ := WorkerEvent.released.inj hv
          exact ⟨r,hr,huser,rfl⟩
    · have hcount : releaseCount (s.events ++ finishEvents w r) v =
          if s.buffer v = true then (s.events ++ finishEvents w r).count (.ran v) else 0 := by
        rw [releaseCount_append,releaseCount_finishEvents,h.releases v,hran]
        by_cases hv : w = v
        · subst hv
          rw [hdata]
          cases r.userData <;> simp
        · simp [hv]
      exact hcount
    · refine (hran v).trans_le ?_
      have hle := h.once v hv
      split_ifs with hwv
      · subst hwv
        have hzero := List.count_eq_zero.mpr (honce w hcallback hv)
        omega
      · omega
    · rcases h.committed halive v hv with hq | hc | hrun
      · exact .inl hq
      · rw [hcallback] at hc
        obtain rfl := Option.some.inj hc
        exact .inr (.inr (List.mem_append_right _ (mem_finishEvents.mpr (.inl rfl))))
      · exact .inr (.inr (List.mem_append_left _ hrun))

theorem Inv.destroy (h : Inv s)
    (hcommitted : ∀ w, s.buffer w = true → s.requested w = true ∨ s.callback = some w ∨ .ran w ∈ s.events) :
    Inv s.destroy :=
  { h with pending := nofun, committed := fun _ => hcommitted }

theorem Inv.step (h : Inv s) {op : WorkerOp} (hregular : Regular s op) : Inv (s.step op) := by
  unfold WorkerSystem.step
  rw [h.noFault,if_neg (by decide)]
  cases op with
  | init =>
    dsimp only
    split_ifs
    · exact ⟨rfl,h.truthful,h.notDeleted,h.created,h.pending,h.queued,h.running,h.ran,h.own,h.releases,
        h.once,h.committed⟩
    · exact h
  | create pid bufSize allocated doFree =>
    dsimp only
    split_ifs with halive
    · exact h.create halive pid bufSize allocated doFree
    · exact h
  | commit w ret =>
    dsimp only
    split_ifs with hcall
    · obtain ⟨hloop,hfree⟩ := hregular hcall.1 hcall.2
      exact h.commit hcall.2 hloop hfree ret
    · exact h
  | isValid w =>
    dsimp only
    split_ifs with halive
    · exact h.isValid halive (hregular halive)
    · exact h
  | cancel w =>
    dsimp only
    split_ifs with halive
    · exact h.cancel (hregular halive)
    · exact h
  | start w => exact h.start w
  | afterWork w status => exact h.afterWork w status
  | afterReturn => exact h.afterReturn hregular
  | destroy =>
    dsimp only
    split_ifs with halive
    · exact h.destroy (hregular halive)
    · exact h

theorem inv_init : Inv {} := by
  refine ⟨rfl,?_,nofun,fun w => ?_,fun _ w => ?_,nofun,nofun,nofun,nofun,fun w => ?_,fun w hw => ?_,nofun⟩
  · intro before e after heq
    cases before <;> cases heq
  · simp
  · simp
  · simp [releaseCount,buffer]
  · simp

theorem Inv.breaks (h : Inv s) {op : WorkerOp} (hbad : ¬ Regular s op) : ¬ Lifecycle (s.step op) := by
  intro hl
  unfold WorkerSystem.step at hl
  rw [h.noFault,if_neg (by decide)] at hl
  cases op with
  | init => exact hbad trivial
  | create => exact hbad trivial
  | start => exact hbad trivial
  | afterWork => exact hbad trivial
  | commit w ret =>
    refine hbad (fun halive hw => ?_)
    dsimp only at hl
    rw [if_pos ⟨halive,hw⟩] at hl
    have hfault := hl.noFault
    rw [WorkerSystem.commit,uvQueueWork] at hfault
    split_ifs at hfault with hcrash
    · cases hfault
    all_goals
      rw [Bool.or_eq_true,not_or,Bool.not_eq_true,Bool.not_eq_false'] at hcrash
      exact ⟨hcrash.1,Bool.eq_false_iff.mpr hcrash.2⟩
  | isValid w =>
    refine hbad (fun halive hran => ?_)
    dsimp only at hl
    rw [if_pos halive] at hl
    have hok := ((truthful_concat _ _).mp hl.truthful).2
    exact (hok.mp ((checkValid_iff h halive w).mpr (h.ran w hran))).2 hran
  | cancel w =>
    refine hbad (fun halive hw => ?_)
    dsimp only at hl
    rw [if_pos halive,cancel_eq] at hl
    have hok := ((truthful_concat _ _).mp hl.truthful).2
    by_contra hran
    exact absurd (hok ⟨(h.created w).mpr hw,hran⟩) (by decide)
  | afterReturn =>
    refine hbad (fun w hcallback hbuffer hran => ?_)
    dsimp only at hl
    obtain ⟨r,hr⟩ : ∃ r, s.workers[w]? = some r := ⟨_,List.getElem?_eq_getElem (h.running w hcallback)⟩
    have hdata : r.userData = true := by
      rw [buffer,hr] at hbuffer
      exact hbuffer
    rw [afterReturn_eq hcallback hr] at hl
    have hle := hl.atMostOnce w
    have hpos := List.count_pos_iff.mpr hran
    have hreleases := h.releases w
    rw [if_pos hbuffer] at hreleases
    simp only [releaseCount_append,releaseCount_finishEvents,hdata,and_self,if_true] at hle
    omega
  | destroy =>
    refine hbad (fun halive w hbuffer => ?_)
    dsimp only at hl
    rw [if_pos halive] at hl
    by_contra hnone
    rw [not_or,not_or] at hnone
    obtain ⟨hqueue,hcallback,hran⟩ := hnone
    have hone := hl.once w hbuffer (.inr ⟨rfl,Bool.eq_false_iff.mpr hqueue,hcallback⟩)
    have hreleases := h.releases w
    rw [if_pos hbuffer,List.count_eq_zero.mpr hran] at hreleases
    exact absurd (hreleases.symm.trans hone) (by decide)

/-- For every sequence of steps: the lifecycle is as promised in every state exactly when every step is
regular. -/
theorem worker_lifecycle_iff (ops : List WorkerOp) :
    Transition.Always step Lifecycle ({} : WorkerSystem) ops ↔ Transition.Guarded step Regular {} ops :=
  Transition.always_iff_guarded (fun _ h => h.lifecycle) (fun _ _ h hgood => h.step hgood)
    (fun _ _ h hbad => h.breaks hbad) inv_init ops

/-- A worker that is not done is not cancelled. -/
theorem cancel_not_requested : ¬ ∀ ops : List WorkerOp, Transition.Always step Lifecycle ({} : WorkerSystem) ops := by
  intro h
  have hlast := (h [.create 1 0 true false,.cancel 0]).last
  have hok := hlast.truthful [.created 0] (.cancelCall 0 false) [] rfl
  exact absurd (hok ⟨by decide,by decide⟩) (by decide)

end WorkerSystem
end FeatureRuntime
