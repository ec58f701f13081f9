import FeatureRuntime.Description
import FeatureRuntime.IdMap
import FeatureRuntime.MachineInt
import FeatureRuntime.Transition

/-! `PromiseManager` and the settling entry points of an instance. Settling calls back into JS
before the entry is removed, so the machine keeps a stack of suspended settles on which every
operation may be issued again. -/
namespace FeatureRuntime

/-- The JS handlers a settle can call; the two resolving functions of a JS promise count as
`success` and `fail`. -/
inductive Handler
  | success | fail | complete
  deriving DecidableEq, Repr

/-- `PromiseData::promise_type` with the handlers that are not undefined. -/
inductive PromiseKind
  | promise
  | callbacks (success fail complete : Bool)
  deriving DecidableEq

/-- A `PromiseData` object at its address. -/
structure PromiseData where
  addr : ℕ
  resolveType : FeatureType
  kind : PromiseKind

/-- `FeaturePromiseResolve`, whose argument may fail to convert, or `FeaturePromiseReject`. -/
inductive Settle
  | resolve (converts : Bool)
  | reject
  deriving DecidableEq

def Settle.handler : Settle → Handler
  | .resolve _ => .success
  | .reject => .fail

namespace PromiseData

def defines (d : PromiseData) : Handler → Bool
  | .success => match d.kind with | .promise => true | .callbacks s _ _ => s
  | .fail => match d.kind with | .promise => true | .callbacks _ f _ => f
  | .complete => match d.kind with | .promise => false | .callbacks _ _ c => c

def isVoid (d : PromiseData) : Bool :=
  match d.resolveType with
  | .primitive .void => true
  | _ => false

/-- `arg_to_target` succeeds or is skipped. -/
def argOk (d : PromiseData) : Settle → Bool
  | .resolve converts => d.isVoid || converts
  | .reject => true

def silent (d : PromiseData) (how : Settle) : Bool :=
  if d.defines how.handler then !d.argOk how else !d.defines .complete

end PromiseData

inductive SettlePhase
  | main | complete
  deriving DecidableEq

/-- A settle suspended in a JS handler. `later` records that the pid had been settled before. -/
structure SettleFrame where
  pid : ℤ
  data : PromiseData
  phase : SettlePhase
  ret : ℤ
  later : Bool

structure HandlerCall where
  pid : ℤ
  handler : Handler
  later : Bool
  deriving DecidableEq

structure SettleReturn where
  pid : ℤ
  ret : ℤ
  later : Bool
  deriving DecidableEq

/-- The manager, its suspended settles, and the history of the instance: the objects not yet
deleted, the pids settled so far, the handler calls and the return values. -/
structure PromiseManager where
  promises : IdMap PromiseData := ∅
  currPid : ℤ := 0
  nextAddr : ℕ := 0
  live : List (ℤ × ℕ) := []
  stack : List SettleFrame := []
  attempted : List ℤ := []
  calls : List HandlerCall := []
  returns : List SettleReturn := []
  /-- A deleted `PromiseData` was read, or `curr_pid_` overflowed. -/
  fault : Bool := false

inductive PromiseOp
  | addPromise (resolveType : FeatureType) (initOk : Bool)
  | addAsyncCallbacks (resolveType : FeatureType) (success fail complete : Bool)
  | settle (pid : ℤ) (how : Settle)
  /-- The handler on top of the stack returns. -/
  | handlerReturn
  | releasePromises

namespace PromiseManager

/-- The tail of `addPromise` and `addAsyncCallbacks`, after `init`. -/
def register (s : PromiseManager) (resolveType : FeatureType) (kind : PromiseKind) :
    PromiseManager :=
  { s with
    promises := s.promises.insert s.currPid ⟨s.nextAddr,resolveType,kind⟩
    nextAddr := s.nextAddr + 1
    live := (s.currPid,s.nextAddr) :: s.live
    currPid := toInt (s.currPid + 1)
    fault := s.currPid == intMax }

/-- `doResolvePromise` or `doRejectPromise` returned `ret`; `removePromise` follows. -/
def finish (s : PromiseManager) (pid ret : ℤ) (later : Bool) : PromiseManager :=
  match s.promises[pid]? with
  | none => { s with returns := ⟨pid,-2,later⟩ :: s.returns }
  | some data =>
    { s with
      promises := s.promises.erase pid
      live := s.live.filter (fun entry => entry.2 ≠ data.addr)
      returns := ⟨pid,ret,later⟩ :: s.returns }

/-- `invoke_js_Callback`: the settle is suspended until the handler returns. -/
def invoke (s : PromiseManager) (handler : Handler) (frame : SettleFrame) : PromiseManager :=
  { s with
    stack := frame :: s.stack
    calls := ⟨frame.pid,handler,frame.later⟩ :: s.calls }

/-- The end of `PromiseData::resolve` and `reject`: the complete handler, when there is one. -/
def callComplete (s : PromiseManager) (pid : ℤ) (data : PromiseData) (ret : ℤ) (later : Bool) :
    PromiseManager :=
  if data.defines .complete then s.invoke .complete ⟨pid,data,.complete,ret,later⟩
  else s.finish pid ret later

def attempt (s : PromiseManager) (pid : ℤ) : PromiseManager :=
  if 0 ≤ pid ∧ pid < s.currPid then { s with attempted := pid :: s.attempted } else s

/-- `resolvePromise` and `rejectPromise`, up to the first JS handler. -/
def settle (s : PromiseManager) (pid : ℤ) (how : Settle) : PromiseManager :=
  let later := decide (pid ∈ s.attempted)
  let s := s.attempt pid
  match s.promises[pid]? with
  | none => s.finish pid (-1) later
  | some data =>
    if data.defines how.handler then
      if data.argOk how then s.invoke how.handler ⟨pid,data,.main,0,later⟩
      else s.finish pid (-1) later
    else s.callComplete pid data (-1) later

/-- What the suspended settle does next. After the main handler it reads `*this` again, after the
complete handler it does not. -/
def handlerReturn (s : PromiseManager) : PromiseManager :=
  match s.stack with
  | [] => s
  | f :: rest =>
    let popped := { s with stack := rest }
    match f.phase with
    | .main =>
      if s.live.any (fun entry => entry.2 == f.data.addr) then
        popped.callComplete f.pid f.data f.ret f.later
      else { s with fault := true }
    | .complete => popped.finish f.pid f.ret f.later

def releasePromises (s : PromiseManager) : PromiseManager :=
  { s with
    promises := ∅
    live := s.live.filter (fun entry => entry.2 ∉ s.promises.toList.map (·.2.addr)) }

def step (s : PromiseManager) (op : PromiseOp) : PromiseManager :=
  if s.fault then s
  else
    match op with
    | .addPromise resolveType initOk => if initOk then s.register resolveType .promise else s
    | .addAsyncCallbacks resolveType success fail complete =>
      s.register resolveType (.callbacks success fail complete)
    | .settle pid how => s.settle pid how
    | .handlerReturn => s.handlerReturn
    | .releasePromises => s.releasePromises

def mains (s : PromiseManager) : List ℤ :=
  (s.calls.filter (fun c => c.handler ≠ .complete)).map (·.pid)

def completes (s : PromiseManager) : List ℤ :=
  (s.calls.filter (fun c => c.handler = .complete)).map (·.pid)

/-- Every pid is settled at most once, a later settle of it calls nothing and reports failure, no
deleted object was read, and the live promises have distinct pids. -/
structure SettledOnce (s : PromiseManager) : Prop where
  noFault : s.fault = false
  mains_nodup : s.mains.Nodup
  completes_nodup : s.completes.Nodup
  later_silent : ∀ c ∈ s.calls, c.later = false
  later_fails : ∀ r ∈ s.returns, r.later = true → r.ret < 0
  pids_nodup : (s.live.map Prod.fst).Nodup

/-- The condition on an operation: the pid counter is in range; a pid with a suspended settle and
a registered promise is settled again only from its complete handler and without calling anything;
the promises are not released from a main handler. -/
def Undisturbed (s : PromiseManager) : PromiseOp → Prop
  | .addPromise _ initOk => initOk = true → s.currPid < intMax
  | .addAsyncCallbacks .. => s.currPid < intMax
  | .settle pid how => ∀ f ∈ s.stack, f.pid = pid → ∀ data, s.promises[pid]? = some data →
      f.phase = .complete ∧ data.silent how = true
  | .handlerReturn => True
  | .releasePromises => ∀ f ∈ s.stack, f.phase = .complete

@[simp] theorem mains_invoke_main (s : PromiseManager) {handler : Handler}
    (h : handler ≠ .complete) (f : SettleFrame) :
    (s.invoke handler f).mains = f.pid :: s.mains := by
  simp [mains,invoke,h]

@[simp] theorem completes_invoke_main (s : PromiseManager) {handler : Handler}
    (h : handler ≠ .complete) (f : SettleFrame) :
    (s.invoke handler f).completes = s.completes := by
  simp [completes,invoke,h]

@[simp] theorem mains_invoke_complete (s : PromiseManager) (f : SettleFrame) :
    (s.invoke .complete f).mains = s.mains := by
  simp [mains,invoke]

@[simp] theorem completes_invoke_complete (s : PromiseManager) (f : SettleFrame) :
    (s.invoke .complete f).completes = f.pid :: s.completes := by
  simp [completes,invoke]

theorem handler_ne_complete (how : Settle) : how.handler ≠ .complete := by
  cases how <;> simp [Settle.handler]

/-- The invariant while the settle of `active`, if any, is being executed: its frame is off the
stack and its promise may still be registered. -/
structure InvWhile (s : PromiseManager) (active : Option ℤ) : Prop extends SettledOnce s where
  currPid_nonneg : 0 ≤ s.currPid
  currPid_le : s.currPid ≤ intMax
  registered : ∀ (pid : ℤ) (d : PromiseData), s.promises[pid]? = some d →
    0 ≤ pid ∧ pid < s.currPid ∧ d.addr < s.nextAddr
  live_iff : ∀ pid a, (pid,a) ∈ s.live ↔ ∃ d, s.promises[pid]? = some d ∧ d.addr = a
  addr_inj : ∀ (p q : ℤ) (d e : PromiseData), s.promises[p]? = some d → s.promises[q]? = some e →
    d.addr = e.addr → p = q
  frames : ∀ f ∈ s.stack, f.later = false ∧ f.pid ∈ s.attempted
  stack_nodup : (s.stack.map (·.pid)).Nodup
  main_live : ∀ f ∈ s.stack, f.phase = .main → s.promises[f.pid]? = some f.data ∧ f.pid ∉ s.completes
  attempted_lt : ∀ pid ∈ s.attempted, pid < s.currPid
  suspended : ∀ pid ∈ s.attempted, some pid ≠ active → ∀ d, s.promises[pid]? = some d → ∃ f ∈ s.stack, f.pid = pid
  calls_attempted : ∀ c ∈ s.calls, c.pid ∈ s.attempted

abbrev Inv (s : PromiseManager) : Prop := s.InvWhile none

theorem inv_init : Inv {} where
  noFault := rfl
  mains_nodup := List.nodup_nil
  completes_nodup := List.nodup_nil
  later_silent := by simp
  later_fails := by simp
  pids_nodup := List.nodup_nil
  currPid_nonneg := le_rfl
  currPid_le := by simp [intMax]
  registered := by simp
  live_iff := by simp
  addr_inj := by simp
  frames := by simp
  stack_nodup := List.nodup_nil
  main_live := by simp
  attempted_lt := by simp
  suspended := by simp
  calls_attempted := by simp

section Preservation

variable {s : PromiseManager} {active : Option ℤ} {pid : ℤ} {data : PromiseData}

theorem InvWhile.pid_nonneg (hs : s.InvWhile active) (h : s.promises[pid]? = some data) : 0 ≤ pid :=
  (hs.registered pid data h).1

theorem InvWhile.pid_lt (hs : s.InvWhile active) (h : s.promises[pid]? = some data) :
    pid < s.currPid := (hs.registered pid data h).2.1

theorem InvWhile.mem_live (hs : s.InvWhile active) (h : s.promises[pid]? = some data) :
    (pid,data.addr) ∈ s.live := (hs.live_iff pid data.addr).mpr ⟨data,h,rfl⟩

theorem Inv.register (hs : s.Inv) (hlt : s.currPid < intMax) (resolveType : FeatureType)
    (kind : PromiseKind) : (s.register resolveType kind).Inv := by
  have hnonneg := hs.currPid_nonneg
  have hnext : toInt (s.currPid + 1) = s.currPid + 1 := toInt_of_le (by omega) (by omega)
  have hfresh : s.promises[s.currPid]? = none := by
    cases h : s.promises[s.currPid]? with
    | none => rfl
    | some d => exact absurd (hs.pid_lt h) (lt_irrefl _)
  have hother : ∀ (p : ℤ) (d : PromiseData), s.promises[p]? = some d →
      (s.register resolveType kind).promises[p]? = some d := by
    intro p d h
    have := hs.pid_lt h
    simp only [PromiseManager.register]
    rwa [IdMap.get_insert_ne _ (by omega)]
  have hcases : ∀ (p : ℤ) (d : PromiseData), (s.register resolveType kind).promises[p]? = some d →
      (p = s.currPid ∧ d = ⟨s.nextAddr,resolveType,kind⟩) ∨ s.promises[p]? = some d := by
    intro p d h
    simp only [PromiseManager.register,IdMap.get_insert] at h
    split_ifs at h with heq
    · exact .inl ⟨heq.symm,(Option.some.inj h).symm⟩
    · exact .inr h
  refine { mains_nodup := hs.mains_nodup, completes_nodup := hs.completes_nodup
           later_silent := hs.later_silent, later_fails := hs.later_fails
           frames := hs.frames, stack_nodup := hs.stack_nodup, calls_attempted := hs.calls_attempted
           noFault := ?_, pids_nodup := ?_, currPid_nonneg := ?_, currPid_le := ?_
           registered := ?_, live_iff := ?_, addr_inj := ?_, main_live := ?_, attempted_lt := ?_
           suspended := ?_ }
  · simp only [PromiseManager.register,beq_eq_false_iff_ne]
    omega
  · simp only [PromiseManager.register,List.map_cons,List.nodup_cons]
    refine ⟨fun hmem => ?_,hs.pids_nodup⟩
    obtain ⟨⟨p,a⟩,hlive,hp⟩ := List.mem_map.mp hmem
    obtain ⟨d,hd,-⟩ := (hs.live_iff p a).mp hlive
    have := hs.pid_lt hd
    simp only at hp
    omega
  · simp only [PromiseManager.register,hnext]
    omega
  · simp only [PromiseManager.register,hnext]
    omega
  · intro p d h
    simp only [PromiseManager.register,hnext]
    rcases hcases p d h with ⟨rfl,rfl⟩ | hold
    · simp only
      omega
    · have := hs.registered p d hold
      omega
  · intro p a
    simp only [PromiseManager.register,List.mem_cons,Prod.mk.injEq]
    constructor
    · rintro (⟨rfl,rfl⟩ | hlive)
      · exact ⟨_,Std.TreeMap.getElem?_insert_self,rfl⟩
      · obtain ⟨d,hd,ha⟩ := (hs.live_iff p a).mp hlive
        exact ⟨d,hother p d hd,ha⟩
    · rintro ⟨d,hd,ha⟩
      rcases hcases p d hd with ⟨hp,rfl⟩ | hold
      · exact .inl ⟨hp,ha.symm⟩
      · exact .inr ((hs.live_iff p a).mpr ⟨d,hold,ha⟩)
  · intro p q d e hp hq hde
    rcases hcases p d hp with ⟨rfl,rfl⟩ | hp' <;> rcases hcases q e hq with ⟨rfl,rfl⟩ | hq'
    · rfl
    · have := (hs.registered q e hq').2.2
      simp only at hde
      omega
    · have := (hs.registered p d hp').2.2
      simp only at hde
      omega
    · exact hs.addr_inj p q d e hp' hq' hde
  · intro f hf hmain
    obtain ⟨hreg,hcomplete⟩ := hs.main_live f hf hmain
    exact ⟨hother _ _ hreg,hcomplete⟩
  · intro p hp
    have := hs.attempted_lt p hp
    simp only [PromiseManager.register,hnext]
    omega
  · intro p hp hne d hd
    rcases hcases p d hd with ⟨rfl,-⟩ | hold
    · exact absurd (hs.attempted_lt _ hp) (lt_irrefl _)
    · exact hs.suspended p hp hne d hold

/-- The settle of `pid` ends: its entry is removed, or it was gone already. -/
theorem InvWhile.finish (hs : s.InvWhile (some pid))
    (hmain : ∀ f ∈ s.stack, f.phase = .main → f.pid ≠ pid) {ret : ℤ} {later : Bool}
    (hret : later = true → ret < 0) : (s.finish pid ret later).Inv := by
  unfold PromiseManager.finish
  have hreturn : ∀ r : ℤ, (later = true → r < 0) → ∀ x ∈ ⟨pid,r,later⟩ :: s.returns, x.later = true → x.ret < 0 := by
    intro r hr x hx hlater
    rcases List.mem_cons.mp hx with rfl | hx
    · exact hr hlater
    · exact hs.later_fails x hx hlater
  cases hreg : s.promises[pid]? with
  | none =>
    refine { hs with later_fails := hreturn (-2) (fun _ => by decide), suspended := ?_ }
    intro p hp _ d hd
    have hne : p ≠ pid := by
      rintro rfl
      simp [hreg] at hd
    exact hs.suspended p hp (by simpa using hne) d hd
  | some data =>
    have hold : ∀ (p : ℤ) (d : PromiseData),
        (s.promises.erase pid)[p]? = some d ↔ p ≠ pid ∧ s.promises[p]? = some d := by
      intro p d
      rw [IdMap.get_erase]
      split_ifs with heq
      · simp [heq]
      · simp [Ne.symm heq]
    refine { hs with later_fails := hreturn ret hret, pids_nodup := ?_, registered := ?_
                     live_iff := ?_, addr_inj := ?_, main_live := ?_, suspended := ?_ }
    · exact hs.pids_nodup.sublist (List.filter_sublist.map _)
    · exact fun p d h => hs.registered p d ((hold p d).mp h).2
    · intro p a
      simp only [List.mem_filter,decide_eq_true_eq,hs.live_iff,hold]
      constructor
      · rintro ⟨⟨d,hd,rfl⟩,hne⟩
        refine ⟨d,⟨fun heq => hne ?_,hd⟩,rfl⟩
        subst heq
        rw [hreg] at hd
        rw [Option.some.inj hd]
      · rintro ⟨d,⟨hp,hd⟩,rfl⟩
        exact ⟨⟨d,hd,rfl⟩,fun heq => hp (hs.addr_inj p pid d data hd hreg heq)⟩
    · intro p q d e hp hq
      exact hs.addr_inj p q d e ((hold p d).mp hp).2 ((hold q e).mp hq).2
    · intro f hf hphase
      obtain ⟨hlive,hcomplete⟩ := hs.main_live f hf hphase
      exact ⟨(hold _ _).mpr ⟨hmain f hf hphase,hlive⟩,hcomplete⟩
    · intro p hp _ d hd
      obtain ⟨hne,hd⟩ := (hold p d).mp hd
      exact hs.suspended p hp (by simpa using hne) d hd

/-- The first settle of a pid suspends itself in a handler it has not called before. -/
theorem InvWhile.invoke (hs : s.InvWhile (some pid)) (hattempted : pid ∈ s.attempted)
    (hstack : pid ∉ s.stack.map (·.pid)) {handler : Handler} {phase : SettlePhase} {ret : ℤ}
    (hmains : handler ≠ .complete → pid ∉ s.mains)
    (hcompletes : handler = .complete → pid ∉ s.completes)
    (hphase : phase = .main → s.promises[pid]? = some data ∧ handler ≠ .complete ∧ pid ∉ s.completes) :
    (s.invoke handler ⟨pid,data,phase,ret,false⟩).Inv := by
  refine { hs with mains_nodup := ?_, completes_nodup := ?_, later_silent := ?_, frames := ?_
                   stack_nodup := ?_, main_live := ?_, suspended := ?_, calls_attempted := ?_ }
  · by_cases h : handler = .complete
    · subst h
      simpa using hs.mains_nodup
    · simpa [h] using ⟨hmains h,hs.mains_nodup⟩
  · by_cases h : handler = .complete
    · subst h
      simpa using ⟨hcompletes rfl,hs.completes_nodup⟩
    · simpa [h] using hs.completes_nodup
  · intro c hc
    rcases List.mem_cons.mp hc with rfl | hc
    · rfl
    · exact hs.later_silent c hc
  · intro f hf
    rcases List.mem_cons.mp hf with rfl | hf
    · exact ⟨rfl,hattempted⟩
    · exact hs.frames f hf
  · exact List.nodup_cons.mpr ⟨hstack,hs.stack_nodup⟩
  · intro f hf hmain
    rcases List.mem_cons.mp hf with rfl | hf
    · obtain ⟨hreg,hne,hnot⟩ := hphase hmain
      exact ⟨hreg,by simpa [hne] using hnot⟩
    · obtain ⟨hreg,hnot⟩ := hs.main_live f hf hmain
      refine ⟨hreg,?_⟩
      have hpid : f.pid ≠ pid := fun heq => hstack (heq ▸ List.mem_map_of_mem hf)
      by_cases h : handler = .complete
      · subst h
        simpa using ⟨hpid,hnot⟩
      · simpa [h] using hnot
  · intro p hp _ d hd
    by_cases h : p = pid
    · exact ⟨_,List.mem_cons_self,h.symm⟩
    · obtain ⟨f,hf,hfp⟩ := hs.suspended p hp (by simpa using h) d hd
      exact ⟨f,List.mem_cons_of_mem _ hf,hfp⟩
  · intro c hc
    rcases List.mem_cons.mp hc with rfl | hc
    · exact hattempted
    · exact hs.calls_attempted c hc

theorem InvWhile.callComplete (hs : s.InvWhile (some pid)) (hattempted : pid ∈ s.attempted)
    (hstack : pid ∉ s.stack.map (·.pid)) (hcompletes : pid ∉ s.completes) (ret : ℤ) :
    (s.callComplete pid data ret false).Inv := by
  unfold PromiseManager.callComplete
  split_ifs
  · exact hs.invoke hattempted hstack (by simp) (fun _ => hcompletes) (by simp)
  · exact hs.finish (fun f hf _ heq => hstack (heq ▸ List.mem_map_of_mem hf)) (by simp)

theorem Inv.attempt (hs : s.Inv) (pid : ℤ) : (s.attempt pid).InvWhile (some pid) := by
  unfold PromiseManager.attempt
  split_ifs with hissued
  · refine { hs with frames := ?_, attempted_lt := ?_, suspended := ?_, calls_attempted := ?_ }
    · exact fun f hf => ⟨(hs.frames f hf).1,List.mem_cons_of_mem _ (hs.frames f hf).2⟩
    · exact List.forall_mem_cons.mpr ⟨hissued.2,hs.attempted_lt⟩
    · intro p hp hne d hd
      have hne' : p ≠ pid := by simpa using hne
      exact hs.suspended p ((List.mem_cons.mp hp).resolve_left hne') (by simp) d hd
    · exact fun c hc => List.mem_cons_of_mem _ (hs.calls_attempted c hc)
  · exact { hs with suspended := fun p hp _ d hd => hs.suspended p hp (by simp) d hd }

@[simp] theorem attempt_promises (s : PromiseManager) (pid : ℤ) :
    (s.attempt pid).promises = s.promises := by
  unfold attempt
  split_ifs <;> rfl

@[simp] theorem attempt_stack (s : PromiseManager) (pid : ℤ) : (s.attempt pid).stack = s.stack := by
  unfold attempt
  split_ifs <;> rfl

@[simp] theorem attempt_calls (s : PromiseManager) (pid : ℤ) : (s.attempt pid).calls = s.calls := by
  unfold attempt
  split_ifs <;> rfl

@[simp] theorem attempt_mains (s : PromiseManager) (pid : ℤ) : (s.attempt pid).mains = s.mains := by
  simp [mains]

@[simp] theorem attempt_completes (s : PromiseManager) (pid : ℤ) :
    (s.attempt pid).completes = s.completes := by
  simp [completes]

theorem InvWhile.mem_attempt (hs : s.InvWhile active) (h : s.promises[pid]? = some data) :
    pid ∈ (s.attempt pid).attempted := by
  simp [PromiseManager.attempt,hs.pid_nonneg h,hs.pid_lt h]

theorem InvWhile.fresh (hs : s.InvWhile active) (h : pid ∉ s.attempted) :
    pid ∉ s.stack.map (·.pid) ∧ pid ∉ s.mains ∧ pid ∉ s.completes := by
  refine ⟨?_,?_,?_⟩
  · intro hmem
    obtain ⟨f,hf,rfl⟩ := List.mem_map.mp hmem
    exact h (hs.frames f hf).2
  all_goals
    intro hmem
    obtain ⟨c,hc,rfl⟩ := List.mem_map.mp hmem
    exact h (hs.calls_attempted c (List.mem_filter.mp hc).1)

theorem settle_silent {how : Settle} (h : s.promises[pid]? = some data) (hsilent : data.silent how = true) :
    s.settle pid how = (s.attempt pid).finish pid (-1) (decide (pid ∈ s.attempted)) := by
  unfold PromiseData.silent at hsilent
  simp only [settle,attempt_promises,h,callComplete]
  split_ifs at hsilent ⊢ with hdef hok hcomplete
  · simp [hok] at hsilent
  · rfl
  · simp [hcomplete] at hsilent
  · rfl

theorem settle_calls {how : Settle} (h : s.promises[pid]? = some data) (hcalls : data.silent how = false) :
    ∃ handler f, s.settle pid how = (s.attempt pid).invoke handler f ∧ f.pid = pid ∧
      f.later = decide (pid ∈ s.attempted) := by
  unfold PromiseData.silent at hcalls
  simp only [settle,attempt_promises,h,callComplete]
  split_ifs at hcalls ⊢ with hdef hok hcomplete
  · exact ⟨_,_,rfl,rfl,rfl⟩
  · simp [hok] at hcalls
  · exact ⟨_,_,rfl,rfl,rfl⟩
  · simp [hcomplete] at hcalls

theorem Inv.settle (hs : s.Inv) {how : Settle} (hgood : s.Undisturbed (.settle pid how)) :
    (s.settle pid how).Inv := by
  have hattempt := hs.attempt pid
  cases hreg : s.promises[pid]? with
  | none =>
    simp only [PromiseManager.settle,attempt_promises,hreg]
    refine hattempt.finish (fun f hf hmain heq => ?_) (fun _ => by decide)
    rw [attempt_stack] at hf
    have hlive := (hs.main_live f hf hmain).1
    rw [heq,hreg] at hlive
    simp at hlive
  | some data =>
    by_cases hlater : pid ∈ s.attempted
    · -- the earlier settle is still suspended in its complete handler
      obtain ⟨f,hf,hpid⟩ := hs.suspended pid hlater (by simp) data hreg
      rw [settle_silent hreg (hgood f hf hpid data hreg).2]
      refine hattempt.finish (fun g hg hmain heq => ?_) (fun _ => by decide)
      rw [attempt_stack] at hg
      have hcomplete := (hgood g hg heq data hreg).1
      rw [hmain] at hcomplete
      simp at hcomplete
    · obtain ⟨hstack,hmains,hcompletes⟩ := hs.fresh hlater
      have hmem := hs.mem_attempt hreg
      simp only [PromiseManager.settle,attempt_promises,hreg,hlater,decide_false]
      split_ifs with hdef hok
      · refine hattempt.invoke hmem (by simpa using hstack) (fun _ => by simpa using hmains)
          (fun h => absurd h (handler_ne_complete how)) (fun _ => ?_)
        exact ⟨by simpa using hreg,handler_ne_complete how,by simpa using hcompletes⟩
      · exact hattempt.finish (fun f hf _ heq => hstack (heq ▸ List.mem_map_of_mem (by simpa using hf)))
          (by simp)
      · exact hattempt.callComplete hmem (by simpa using hstack) (by simpa using hcompletes) (-1)

/-- Taking the top frame off the stack leaves its settle in execution. -/
theorem Inv.pop (hs : s.Inv) {f : SettleFrame} {rest : List SettleFrame} (hstack : s.stack = f :: rest) :
    ({ s with stack := rest } : PromiseManager).InvWhile (some f.pid) ∧ f.pid ∉ rest.map (·.pid) := by
  have hsub : ∀ g ∈ rest, g ∈ s.stack := fun g hg => hstack ▸ List.mem_cons_of_mem _ hg
  have hnodup := hs.stack_nodup
  rw [hstack,List.map_cons,List.nodup_cons] at hnodup
  refine ⟨?_,hnodup.1⟩
  refine { hs with frames := fun g hg => hs.frames g (hsub g hg), stack_nodup := hnodup.2
                   main_live := fun g hg => hs.main_live g (hsub g hg), suspended := ?_ }
  intro p hp hne d hd
  obtain ⟨g,hg,hgp⟩ := hs.suspended p hp (by simp) d hd
  rw [hstack] at hg
  rcases List.mem_cons.mp hg with rfl | hg
  · exact absurd (congrArg some hgp.symm) hne
  · exact ⟨g,hg,hgp⟩

theorem Inv.handlerReturn (hs : s.Inv) : s.handlerReturn.Inv := by
  unfold PromiseManager.handlerReturn
  cases hstack : s.stack with
  | nil => exact hs
  | cons f rest =>
    obtain ⟨hpop,hnot⟩ := hs.pop hstack
    have htop : f ∈ s.stack := hstack ▸ List.mem_cons_self
    obtain ⟨hlater,hattempted⟩ := hs.frames f htop
    cases hphase : f.phase with
    | main =>
      obtain ⟨hreg,hcompletes⟩ := hs.main_live f htop hphase
      have hlive : s.live.any (fun entry => entry.2 == f.data.addr) = true :=
        List.any_eq_true.mpr ⟨_,hs.mem_live hreg,by simp⟩
      simp only [hphase,hlive,if_true,hlater]
      exact hpop.callComplete hattempted hnot hcompletes f.ret
    | complete =>
      simp only [hphase]
      exact hpop.finish (fun g hg _ heq => hnot (heq ▸ List.mem_map_of_mem hg)) (by simp [hlater])

theorem Inv.releasePromises (hs : s.Inv) (hgood : s.Undisturbed .releasePromises) :
    s.releasePromises.Inv := by
  have hnone : s.releasePromises.live = [] := by
    simp only [PromiseManager.releasePromises,List.filter_eq_nil_iff]
    rintro ⟨p,a⟩ hlive
    obtain ⟨d,hd,rfl⟩ := (hs.live_iff p a).mp hlive
    simpa using ⟨p,d,hd,rfl⟩
  refine { hs with pids_nodup := by rw [hnone]; exact List.nodup_nil, registered := ?_
                   live_iff := ?_, addr_inj := ?_, main_live := ?_, suspended := ?_ }
  all_goals simp only [PromiseManager.releasePromises]
  · simp
  · simpa [PromiseManager.releasePromises] using hnone
  · simp
  · intro f hf hmain
    rw [hgood f hf] at hmain
    simp at hmain
  · simp

theorem Inv.step (hs : s.Inv) {op : PromiseOp} (hgood : s.Undisturbed op) : (s.step op).Inv := by
  unfold PromiseManager.step
  rw [hs.noFault,if_neg (by simp)]
  cases op with
  | addPromise resolveType initOk =>
    simp only
    split_ifs with hinit
    · exact hs.register (hgood hinit) resolveType .promise
    · exact hs
  | addAsyncCallbacks resolveType success fail complete =>
    exact hs.register hgood resolveType _
  | settle pid how => exact hs.settle hgood
  | handlerReturn => exact hs.handlerReturn
  | releasePromises => exact hs.releasePromises hgood

def Doomed (s : PromiseManager) : Prop :=
  s.fault = true ∨ ∃ f ∈ s.stack, f.phase = .main ∧ f.data.addr < s.nextAddr ∧ ∀ entry ∈ s.live, entry.2 ≠ f.data.addr

/-- No suspended settle is resumed and no object is created. -/
structure Grows (s s' : PromiseManager) : Prop where
  fault : s'.fault = s.fault
  stack : s.stack ⊆ s'.stack
  nextAddr : s'.nextAddr = s.nextAddr
  live : s'.live ⊆ s.live

theorem Grows.trans {s s' s'' : PromiseManager} (h : s.Grows s') (h' : s'.Grows s'') :
    s.Grows s'' :=
  ⟨h'.fault.trans h.fault,List.Subset.trans h.stack h'.stack,h'.nextAddr.trans h.nextAddr,
    List.Subset.trans h'.live h.live⟩

theorem grows_finish (s : PromiseManager) (pid ret : ℤ) (later : Bool) : s.Grows (s.finish pid ret later) := by
  unfold finish
  cases s.promises[pid]? with
  | none => exact ⟨rfl,List.Subset.refl _,rfl,List.Subset.refl _⟩
  | some data => exact ⟨rfl,List.Subset.refl _,rfl,List.filter_subset_self _⟩

theorem grows_invoke (s : PromiseManager) (handler : Handler) (f : SettleFrame) : s.Grows (s.invoke handler f) :=
  ⟨rfl,List.subset_cons_self _ _,rfl,List.Subset.refl _⟩

theorem grows_callComplete (s : PromiseManager) (pid : ℤ) (data : PromiseData) (ret : ℤ)
    (later : Bool) : s.Grows (s.callComplete pid data ret later) := by
  unfold callComplete
  split_ifs
  · exact grows_invoke _ _ _
  · exact grows_finish _ _ _ _

theorem grows_attempt (s : PromiseManager) (pid : ℤ) : s.Grows (s.attempt pid) := by
  unfold attempt
  split_ifs
  · exact ⟨rfl,List.Subset.refl _,rfl,List.Subset.refl _⟩
  · exact ⟨rfl,List.Subset.refl _,rfl,List.Subset.refl _⟩

theorem grows_settle (s : PromiseManager) (pid : ℤ) (how : Settle) : s.Grows (s.settle pid how) := by
  refine (grows_attempt s pid).trans ?_
  unfold settle
  cases h : (s.attempt pid).promises[pid]? with
  | none =>
    simp only [h]
    exact grows_finish _ _ _ _
  | some data =>
    simp only [h]
    split_ifs
    · exact grows_invoke _ _ _
    · exact grows_finish _ _ _ _
    · exact grows_callComplete _ _ _ _ _

theorem Doomed.grows {s s' : PromiseManager} (h : s.Doomed) (hgrows : s.Grows s') : s'.Doomed := by
  rcases h with hfault | ⟨f,hf,hmain,hlt,hdead⟩
  · exact .inl (hgrows.fault.trans hfault)
  · exact .inr ⟨f,hgrows.stack hf,hmain,hgrows.nextAddr ▸ hlt,fun e he => hdead e (hgrows.live he)⟩

/-- A run that lost an object under a suspended main handler never gets it back. -/
theorem Doomed.step {s : PromiseManager} (h : s.Doomed) (op : PromiseOp) : (s.step op).Doomed := by
  unfold PromiseManager.step
  split_ifs with hfault
  · exact h
  obtain ⟨f,hf,hmain,hlt,hdead⟩ := h.resolve_left hfault
  have hregister : ∀ resolveType kind, (s.register resolveType kind).Doomed := by
    intro resolveType kind
    refine .inr ⟨f,hf,hmain,Nat.lt_succ_of_lt hlt,List.forall_mem_cons.mpr ⟨?_,hdead⟩⟩
    exact (Nat.ne_of_lt hlt).symm
  cases op with
  | addPromise resolveType initOk =>
    simp only
    split_ifs
    · exact hregister _ _
    · exact h
  | addAsyncCallbacks resolveType success fail complete => exact hregister _ _
  | settle pid how => exact h.grows (grows_settle s pid how)
  | handlerReturn =>
    simp only [handlerReturn]
    cases hstack : s.stack with
    | nil => simp [hstack] at hf
    | cons top rest =>
      rw [hstack] at hf
      rcases List.mem_cons.mp hf with rfl | hf
      · -- the doomed settle itself resumes, and reads its deleted object
        have hgone : s.live.any (fun entry => entry.2 == f.data.addr) = false :=
          List.any_eq_false.mpr (fun e he => by simpa using hdead e he)
        simp only [hmain,hgone,Bool.false_eq_true,if_false]
        exact .inl rfl
      · have hpop : ({ s with stack := rest } : PromiseManager).Doomed :=
          .inr ⟨f,hf,hmain,hlt,hdead⟩
        cases hphase : top.phase with
        | main =>
          simp only [hphase]
          split_ifs
          · exact hpop.grows (grows_callComplete _ _ _ _ _)
          · exact .inl rfl
        | complete =>
          simp only [hphase]
          exact hpop.grows (grows_finish _ _ _ _)
  | releasePromises =>
    exact .inr ⟨f,hf,hmain,hlt,fun e he => hdead e (List.mem_of_mem_filter he)⟩

theorem Inv.doomed_finish (hs : s.Inv) {f : SettleFrame} (hf : f ∈ s.stack) (hmain : f.phase = .main)
    (ret : ℤ) (later : Bool) : ((s.attempt f.pid).finish f.pid ret later).Doomed := by
  have hreg := (hs.main_live f hf hmain).1
  refine .inr ⟨f,?_,hmain,?_,?_⟩
  · exact (grows_finish _ _ _ _).stack ((grows_attempt s f.pid).stack hf)
  · rw [(grows_finish _ _ _ _).nextAddr,(grows_attempt s f.pid).nextAddr]
    exact (hs.registered _ _ hreg).2.2
  · intro e he
    simp only [PromiseManager.finish,attempt_promises,hreg] at he
    simpa using (List.mem_filter.mp he).2

theorem Inv.bad_step (hs : s.Inv) {op : PromiseOp} (hbad : ¬ s.Undisturbed op) :
    ¬ (s.step op).SettledOnce ∨ (s.step op).Doomed := by
  unfold PromiseManager.step
  rw [hs.noFault,if_neg (by simp)]
  have hoverflow : ¬ s.currPid < intMax → ∀ resolveType kind, ¬ (s.register resolveType kind).SettledOnce := by
    intro hlt resolveType kind h
    have heq : s.currPid = intMax := le_antisymm hs.currPid_le (not_lt.mp hlt)
    simpa [PromiseManager.register,heq] using h.noFault
  cases op with
  | addPromise resolveType initOk =>
    simp only [Undisturbed,Classical.not_imp] at hbad
    simp only [hbad.1,if_true]
    exact .inl (hoverflow hbad.2 _ _)
  | addAsyncCallbacks resolveType success fail complete => exact .inl (hoverflow hbad _ _)
  | settle pid how =>
    simp only [Undisturbed,not_forall] at hbad
    obtain ⟨f,hf,rfl,data,hreg,hnot⟩ := hbad
    have hlater : decide (f.pid ∈ s.attempted) = true := by simpa using (hs.frames f hf).2
    simp only
    cases hsilent : data.silent how with
    | false =>
      -- the second settle of the pid calls a handler
      left
      intro h
      obtain ⟨handler,g,heq,-,hg⟩ := settle_calls hreg hsilent
      have hcall := h.later_silent ⟨g.pid,handler,g.later⟩ (by rw [heq]; exact List.mem_cons_self)
      simp [hg,hlater] at hcall
    | true =>
      right
      have hmain : f.phase = .main := by
        cases hphase : f.phase with
        | main => rfl
        | complete => exact absurd ⟨hphase,hsilent⟩ hnot
      rw [settle_silent hreg hsilent]
      exact hs.doomed_finish hf hmain _ _
  | handlerReturn => exact absurd trivial hbad
  | releasePromises =>
    simp only [Undisturbed,not_forall] at hbad
    obtain ⟨f,hf,hphase⟩ := hbad
    right
    have hmain : f.phase = .main := by
      cases h : f.phase with
      | main => rfl
      | complete => exact absurd h hphase
    have hreg := (hs.main_live f hf hmain).1
    refine .inr ⟨f,hf,hmain,(hs.registered _ _ hreg).2.2,fun e he heq => ?_⟩
    have hgone := (List.mem_filter.mp he).2
    simp only [decide_eq_true_eq,heq] at hgone
    exact hgone (List.mem_map.mpr ⟨_,Std.TreeMap.mem_toList_iff_getElem?_eq_some.mpr hreg,rfl⟩)

/-- Every pid is settled at most once along an undisturbed run; along a run whose handlers have
all returned, only then. -/
theorem settled_once_iff_undisturbed (ops : List PromiseOp) :
    (Transition.Guarded step Undisturbed {} ops → Transition.Always step SettledOnce {} ops) ∧
    ((Transition.run step {} ops).stack = [] → Transition.Always step SettledOnce {} ops →
      Transition.Guarded step Undisturbed {} ops) := by
  constructor
  · intro h
    exact (h.always (I := Inv) (fun _ _ hs hgood => hs.step hgood) inv_init).mono
      (fun _ hs => hs.toSettledOnce)
  · intro hreturned
    refine (Transition.always_iff_guarded_of_doomed (I := Inv) (D := Doomed)
      (fun _ hs => hs.toSettledOnce) (fun _ _ hs hgood => hs.step hgood)
      (fun _ _ hs hbad => hs.bad_step hbad) (fun _ _ h _ => h.step _) inv_init ops ?_).mp
    rintro hlast (hfault | ⟨f,hf,-⟩)
    · simp [hlast.noFault] at hfault
    · simp [hreturned] at hf

/-- A promise with three handlers, resolved once while both of its handlers run and return. -/
theorem settled_once_of_single_resolve : Transition.Guarded step Undisturbed {}
      [.addAsyncCallbacks (.primitive .void) true true true,.settle 0 (.resolve true),
        .handlerReturn,.handlerReturn] := by
  refine (settled_once_iff_undisturbed _).2 rfl ((settled_once_iff_undisturbed _).1 ⟨?_,?_,trivial,trivial,trivial⟩)
  · simp [Undisturbed,intMax]
  · intro f hf
    exact absurd hf List.not_mem_nil

/-- The success handler rejects its own promise, and the fail handler is called as well. -/
theorem settled_twice_from_handler : ¬ Transition.Always step SettledOnce {}
      [.addAsyncCallbacks (.primitive .void) true true false,.settle 0 (.resolve true),.settle 0 .reject] := by
  intro h
  have hlater := h.last.later_silent ⟨0,.fail,true⟩ (List.Mem.head _)
  simp at hlater

end Preservation
end PromiseManager
end FeatureRuntime
