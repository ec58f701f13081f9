import FeatureRuntime.ConnectionEvents

/-! The send tasks of an interconnect context over a run: who waits for a task, and when its promise
is settled. -/
namespace FeatureRuntime.InterconnectContext

/-- Promises are settled and messages handed over at most once, no deleted task and no erased element
is used, and until the shutdown an unsettled promise waits for a timer or for a report. -/
structure SendsWaited (c : InterconnectContext) : Prop where
  settledOnce : (c.settled.map Prod.fst).Nodup
  handedOnce : c.handed.Nodup
  noFault : c.fault = false
  waiting : c.data = true → ∀ pid < c.promises, pid ∉ c.settled.map Prod.fst →
    ∃ task ∈ c.sendTasks, task.pid = pid ∧ (task.address ∈ c.timers ∨ task.address ∈ c.inFlight)

/-- No send is refused, and none of a flush is reported before `uv_miwear_send` returns. -/
def Accepts (c : InterconnectContext) : InterconnectOp → Prop
  | .message status miwearStatus outcome =>
    c.data = true → status = 0 → miwearStatus = .phoneConnected →
      ∀ task ∈ c.sendTasks, task.timer = true → outcome task.address = .accepted
  | .send data address outcome =>
    (∀ task ∈ c.sendTasks, task.address ≠ address) → c.objectData = true → c.isConnected = true →
      (getMsg data).isSome → outcome ≠ .refused
  | _ => True

/-- Every task of the set has a running timer or is in flight, and every promise that is not settled
has a task. -/
structure SendInvariant (c : InterconnectContext) : Prop where
  addresses : (c.sendTasks.map SendTask.address).Nodup
  pids : (c.sendTasks.map SendTask.pid).Nodup
  timers : ∀ address, address ∈ c.timers ↔ ∃ task ∈ c.sendTasks, task.address = address ∧ task.timer = true
  inFlight : c.data = true → c.inFlight.Nodup ∧
    ∀ address ∈ c.inFlight, ∃ task ∈ c.sendTasks, task.address = address ∧ task.timer = false
  owned : ∀ task ∈ c.sendTasks, task.timer = false → task.address ∈ c.inFlight
  live : ∀ task ∈ c.sendTasks, task.pid < c.promises ∧ task.pid ∉ c.settled.map Prod.fst ∧
    (task.timer = true → task.pid ∉ c.handed)
  past : (∀ pid ∈ c.settled.map Prod.fst, pid < c.promises) ∧ ∀ pid ∈ c.handed, pid < c.promises
  settledOnce : (c.settled.map Prod.fst).Nodup
  handedOnce : c.handed.Nodup
  noFault : c.fault = false
  unsettled : c.data = true → ∀ pid < c.promises, pid ∉ c.settled.map Prod.fst → ∃ task ∈ c.sendTasks, task.pid = pid
  closed : c.data = false → c.sendTasks = [] ∧ c.objectData = false

/-- The tasks, their timers and the promises are the same in both contexts. -/
structure SameSends (c c' : InterconnectContext) : Prop where
  sendTasks : c'.sendTasks = c.sendTasks
  timers : c'.timers = c.timers
  inFlight : c'.inFlight = c.inFlight
  data : c'.data = c.data
  objectData : c'.objectData = c.objectData ∨ c.data = true
  promises : c'.promises = c.promises
  handed : c'.handed = c.handed
  settled : c'.settled = c.settled
  fault : c'.fault = c.fault

variable {c c' : InterconnectContext}

namespace SendInvariant

theorem init : SendInvariant {} := by
  constructor <;> simp

theorem waited (h : SendInvariant c) : SendsWaited c where
  settledOnce := h.settledOnce
  handedOnce := h.handedOnce
  noFault := h.noFault
  waiting hdata pid hpid hunsettled := by
    obtain ⟨task,htask,heq⟩ := h.unsettled hdata pid hpid hunsettled
    refine ⟨task,htask,heq,?_⟩
    cases htimer : task.timer with
    | true => exact .inl ((h.timers _).mpr ⟨task,htask,rfl,htimer⟩)
    | false => exact .inr (h.owned task htask htimer)

theorem same (h : SendInvariant c) (hsame : SameSends c c') : SendInvariant c' := by
  obtain ⟨hsendTasks,htimers,hinFlight,hdata,hobject,hpromises,hhanded,hsettled,hfault⟩ := hsame
  constructor
  · rw [hsendTasks]
    exact h.addresses
  · rw [hsendTasks]
    exact h.pids
  · rw [hsendTasks,htimers]
    exact h.timers
  · rw [hsendTasks,hinFlight,hdata]
    exact h.inFlight
  · rw [hsendTasks,hinFlight]
    exact h.owned
  · rw [hsendTasks,hpromises,hsettled,hhanded]
    exact h.live
  · rw [hpromises,hsettled,hhanded]
    exact h.past
  · rw [hsettled]
    exact h.settledOnce
  · rw [hhanded]
    exact h.handedOnce
  · rw [hfault]
    exact h.noFault
  · rw [hsendTasks,hdata,hpromises,hsettled]
    exact h.unsettled
  · intro hclosed
    rw [hdata] at hclosed
    rw [hsendTasks]
    refine ⟨(h.closed hclosed).1,?_⟩
    rcases hobject with hobject | hopen
    · rw [hobject]
      exact (h.closed hclosed).2
    · exact Bool.noConfusion (hopen.symm.trans hclosed)

theorem eq_of_address (h : SendInvariant c) {task other : SendTask} (htask : task ∈ c.sendTasks)
    (hother : other ∈ c.sendTasks) (heq : task.address = other.address) : task = other :=
  List.inj_on_of_nodup_map h.addresses htask hother heq

theorem eq_of_pid (h : SendInvariant c) {task other : SendTask} (htask : task ∈ c.sendTasks)
    (hother : other ∈ c.sendTasks) (heq : task.pid = other.pid) : task = other :=
  List.inj_on_of_nodup_map h.pids htask hother heq

theorem find (h : SendInvariant c) {task : SendTask} (htask : task ∈ c.sendTasks) :
    c.sendTasks.find? (fun other => other.address = task.address) = some task := by
  cases hfind : c.sendTasks.find? (fun other => other.address = task.address) with
  | none =>
    have hnone := List.find?_eq_none.mp hfind task htask
    simp at hnone
  | some other =>
    have haddress : other.address = task.address := by simpa using List.find?_some hfind
    rw [h.eq_of_address (List.mem_of_find?_eq_some hfind) htask haddress]

/-- A task is settled and leaves the set, its timer and the tasks in flight. -/
theorem settleTask (h : SendInvariant c) {task : SendTask} (htask : task ∈ c.sendTasks)
    (settlement : Settlement) : SendInvariant { c with
      sendTasks := c.sendTasks.filter (fun other => other.address ≠ task.address)
      timers := c.timers.filter (· ≠ task.address)
      inFlight := c.inFlight.filter (· ≠ task.address)
      settled := c.settled ++ [(task.pid,settlement)] } := by
  have hmem : ∀ other, other ∈ c.sendTasks.filter (fun other => other.address ≠ task.address) ↔
      other ∈ c.sendTasks ∧ other.address ≠ task.address := by
    intro other
    rw [List.mem_filter,decide_eq_true_eq]
  have hsettled : ∀ pid, pid ∈ (c.settled ++ [(task.pid,settlement)]).map Prod.fst ↔
      pid ∈ c.settled.map Prod.fst ∨ pid = task.pid := by
    intro pid
    rw [List.map_append,List.mem_append]
    simp
  constructor
  · exact h.addresses.sublist (List.filter_sublist.map _)
  · exact h.pids.sublist (List.filter_sublist.map _)
  · intro address
    dsimp only
    rw [List.mem_filter,h.timers,decide_eq_true_eq]
    constructor
    · rintro ⟨⟨other,hother,heq,htimer⟩,hne⟩
      exact ⟨other,(hmem other).mpr ⟨hother,heq ▸ hne⟩,heq,htimer⟩
    · rintro ⟨other,hother,heq,htimer⟩
      obtain ⟨hother,hne⟩ := (hmem other).mp hother
      exact ⟨⟨other,hother,heq,htimer⟩,heq ▸ hne⟩
  · intro hdata
    obtain ⟨hnodup,htasks⟩ := h.inFlight hdata
    refine ⟨hnodup.filter _,fun address haddress => ?_⟩
    obtain ⟨haddress,hne⟩ := List.mem_filter.mp haddress
    obtain ⟨other,hother,heq,htimer⟩ := htasks address haddress
    exact ⟨other,(hmem other).mpr ⟨hother,heq ▸ of_decide_eq_true hne⟩,heq,htimer⟩
  · intro other hother htimer
    obtain ⟨hother,hne⟩ := (hmem other).mp hother
    exact List.mem_filter.mpr ⟨h.owned other hother htimer,decide_eq_true hne⟩
  · intro other hother
    obtain ⟨hother,hne⟩ := (hmem other).mp hother
    obtain ⟨hbound,hnot,hhanded⟩ := h.live other hother
    refine ⟨hbound,fun hin => ?_,hhanded⟩
    rcases (hsettled _).mp hin with hin | heq
    · exact hnot hin
    · exact hne (congrArg SendTask.address (h.eq_of_pid hother htask heq))
  · refine ⟨fun pid hpid => ?_,h.past.2⟩
    rcases (hsettled _).mp hpid with hpid | rfl
    · exact h.past.1 pid hpid
    · exact (h.live task htask).1
  · dsimp only
    rw [List.map_append]
    exact h.settledOnce.append (List.nodup_singleton _) (List.disjoint_singleton.mpr (h.live task htask).2.1)
  · exact h.handedOnce
  · exact h.noFault
  · intro hdata pid hpid hnot
    have hnot' := fun hin => hnot ((hsettled pid).mpr hin)
    obtain ⟨other,hother,heq⟩ := h.unsettled hdata pid hpid (fun hin => hnot' (.inl hin))
    refine ⟨other,(hmem other).mpr ⟨hother,fun haddress => ?_⟩,heq⟩
    apply hnot'
    right
    rw [← heq,h.eq_of_address hother htask haddress]
  · intro hclosed
    have hnone := (h.closed hclosed).1
    rw [hnone] at htask
    cases htask

end SendInvariant

theorem processSendResult_eq {address : ℕ} {task : SendTask}
    (hfind : c.sendTasks.find? (fun other => other.address = address) = some task)
    (result : SendResult) : c.processSendResult address result = { c with
      sendTasks := c.sendTasks.filter (fun other => other.address ≠ address)
      settled := c.settled ++ [(task.pid,result.settlement)] } := by
  unfold processSendResult
  rw [hfind]
  rfl

theorem sendMsg_reported_eq (hdata : c.data = true) {task found : SendTask}
    (hfind : c.sendTasks.find? (fun other => other.address = task.address) = some found)
    (status : ℤ) : c.sendMsg task (.reported status) = { c with
      handed := c.handed ++ [task.pid]
      sendTasks := c.sendTasks.filter (fun other => other.address ≠ task.address)
      settled := c.settled ++
        [(found.pid,SendResult.settlement (if status = 0 then .ok else .failed))] } := by
  have hresult := processSendResult_eq (c := { c with handed := c.handed ++ [task.pid] }) hfind
    (if status = 0 then .ok else .failed)
  rw [← hresult]
  exact if_pos hdata

namespace SendInvariant

variable {task : SendTask}

theorem address_notMem_inFlight (h : SendInvariant c) (hdata : c.data = true)
    (htask : task ∈ c.sendTasks) (htimer : task.timer = true) : task.address ∉ c.inFlight := by
  intro hin
  obtain ⟨other,hother,heq,hnone⟩ := (h.inFlight hdata).2 _ hin
  rw [h.eq_of_address hother htask heq,htimer] at hnone
  cases hnone

theorem address_notMem_timers (h : SendInvariant c)
    (htask : task ∈ c.sendTasks) (htimer : task.timer = false) : task.address ∉ c.timers := by
  intro hin
  obtain ⟨other,hother,heq,hsome⟩ := (h.timers _).mp hin
  rw [h.eq_of_address hother htask heq,htimer] at hsome
  cases hsome

theorem data_of_mem (h : SendInvariant c) (htask : task ∈ c.sendTasks) : c.data = true := by
  by_contra hdata
  rw [(h.closed (by simpa using hdata)).1] at htask
  cases htask

theorem timeout (h : SendInvariant c) (address : ℕ) : SendInvariant (c.step (.timeout address)) := by
  unfold InterconnectContext.step
  dsimp only
  split_ifs with haddress
  swap
  · exact h
  obtain ⟨task,htask,rfl,htimer⟩ := (h.timers address).mp haddress
  have hany : c.sendTasks.any (fun other => other.address = task.address) = true :=
    List.any_eq_true.mpr ⟨task,htask,by simp⟩
  have hinFlight : c.inFlight.filter (· ≠ task.address) = c.inFlight := by
    rw [List.filter_eq_self]
    intro address hin
    apply decide_eq_true
    rintro rfl
    exact h.address_notMem_inFlight (h.data_of_mem htask) htask htimer hin
  unfold timerSendCb
  rw [if_pos hany,processSendResult_eq (c := { c with timers := c.timers.filter (· ≠ task.address) })
    (h.find htask)]
  have hsettled := h.settleTask htask SendResult.timeout.settlement
  rw [hinFlight] at hsettled
  exact hsettled

theorem completed (h : SendInvariant c) (address : ℕ) (status : ℤ) :
    SendInvariant (c.step (.completed address status)) := by
  unfold InterconnectContext.step
  dsimp only
  split_ifs with haddress
  swap
  · exact h
  unfold miwearSendCb
  dsimp only
  by_cases hdata : c.data = true
  · obtain ⟨hnodup,htasks⟩ := h.inFlight hdata
    obtain ⟨task,htask,rfl,htimer⟩ := htasks address haddress
    have htimers : c.timers.filter (· ≠ task.address) = c.timers := by
      rw [List.filter_eq_self]
      intro address hin
      apply decide_eq_true
      rintro rfl
      exact h.address_notMem_timers htask htimer hin
    have hinFlight : c.inFlight.erase task.address = c.inFlight.filter (· ≠ task.address) := by
      rw [hnodup.erase_eq_filter]
      simp [bne,beq_eq_decide]
    rw [if_pos hdata,processSendResult_eq (c := { c with inFlight := c.inFlight.erase task.address })
      (h.find htask),hinFlight]
    have hsettled := h.settleTask htask
      (SendResult.settlement (if status = 0 then .ok else .failed))
    rw [htimers] at hsettled
    exact hsettled
  · rw [if_neg hdata]
    have hnone := (h.closed (by simpa using hdata)).1
    refine { h with inFlight := fun hopen => absurd hopen hdata, owned := fun task htask => ?_ }
    rw [hnone] at htask
    cases htask

theorem shutdown (h : SendInvariant c) : SendInvariant c.shutdown := by
  refine { h with
    addresses := List.nodup_nil
    pids := List.nodup_nil
    timers := fun address => ?_
    inFlight := fun hdata => Bool.noConfusion hdata
    owned := fun task htask => by cases htask
    live := fun task htask => by cases htask
    unsettled := fun hdata => Bool.noConfusion hdata
    closed := fun _ => ⟨rfl,rfl⟩ }
  unfold InterconnectContext.shutdown
  dsimp only
  rw [List.mem_filter,h.timers]
  constructor
  · rintro ⟨⟨task,htask,heq,htimer⟩,hnone⟩
    simp only [Bool.not_eq_true',List.any_eq_false] at hnone
    simpa [heq,htimer] using hnone task htask
  · rintro ⟨task,htask,-⟩
    cases htask

theorem settleNew (h : SendInvariant c) (settlement : Settlement) :
    SendInvariant ({ c with promises := c.promises + 1 }.settle c.promises settlement) := by
  have hsettled : ∀ pid, pid ∈ (c.settled ++ [(c.promises,settlement)]).map Prod.fst ↔
      pid ∈ c.settled.map Prod.fst ∨ pid = c.promises := by
    intro pid
    rw [List.map_append,List.mem_append]
    simp
  have hnew : c.promises ∉ c.settled.map Prod.fst := fun hin => lt_irrefl _ (h.past.1 _ hin)
  refine { h with
    live := fun task htask => ?_
    past := ⟨fun pid hpid => ?_,fun pid hpid => Nat.lt_succ_of_lt (h.past.2 pid hpid)⟩
    settledOnce := ?_
    unsettled := fun hdata pid hpid hnot => ?_ }
  · obtain ⟨hbound,hnot,hhanded⟩ := h.live task htask
    refine ⟨Nat.lt_succ_of_lt hbound,fun hin => ?_,hhanded⟩
    rcases (hsettled _).mp hin with hin | heq
    · exact hnot hin
    · exact hbound.ne heq
  · rcases (hsettled _).mp hpid with hpid | rfl
    · exact Nat.lt_succ_of_lt (h.past.1 pid hpid)
    · exact Nat.lt_succ_self _
  · change ((c.settled ++ [(c.promises,settlement)]).map Prod.fst).Nodup
    rw [List.map_append]
    exact h.settledOnce.append (List.nodup_singleton _) (List.disjoint_singleton.mpr hnew)
  · have hnot' := fun hin => hnot ((hsettled pid).mpr hin)
    have hne : pid ≠ c.promises := fun heq => hnot' (.inr heq)
    exact h.unsettled hdata pid (by change pid < c.promises + 1 at hpid; omega)
      (fun hin => hnot' (.inl hin))

theorem insertTask (h : SendInvariant c) (hdata : c.data = true) {address : ℕ}
    (hfresh : ∀ task ∈ c.sendTasks, task.address ≠ address) (msg : String) (timer : Bool) :
    SendInvariant { c.createSendTask address msg c.promises timer with
      promises := c.promises + 1
      timers := if timer then address :: c.timers else c.timers
      inFlight := if timer then c.inFlight else address :: c.inFlight
      handed := if timer then c.handed else c.handed ++ [c.promises] } := by
  have hperm := List.perm_orderedInsert
    (fun task other : SendTask => task.address ≤ other.address)
    (⟨address,msg,c.promises,timer⟩ : SendTask) c.sendTasks
  have hmem : ∀ task, task ∈ (c.createSendTask address msg c.promises timer).sendTasks ↔
      task = ⟨address,msg,c.promises,timer⟩ ∨ task ∈ c.sendTasks := by
    intro task
    rw [createSendTask,hperm.mem_iff,List.mem_cons]
  have hnew : c.promises ∉ c.settled.map Prod.fst := fun hin => lt_irrefl _ (h.past.1 _ hin)
  have hunhanded : c.promises ∉ c.handed := fun hin => lt_irrefl _ (h.past.2 _ hin)
  have hhanded : ∀ pid, pid ∈ (if timer then c.handed else c.handed ++ [c.promises]) →
      pid ∈ c.handed ∨ pid = c.promises ∧ timer = false := by
    intro pid hpid
    cases timer with
    | true => exact .inl hpid
    | false =>
      rcases List.mem_append.mp hpid with hold | hlast
      · exact .inl hold
      · exact .inr ⟨List.mem_singleton.mp hlast,rfl⟩
  constructor
  · refine (hperm.map SendTask.address).nodup_iff.mpr (List.nodup_cons.mpr ⟨?_,h.addresses⟩)
    rintro hin
    obtain ⟨task,htask,heq⟩ := List.mem_map.mp hin
    exact hfresh task htask heq
  · refine (hperm.map SendTask.pid).nodup_iff.mpr (List.nodup_cons.mpr ⟨?_,h.pids⟩)
    rintro hin
    obtain ⟨task,htask,heq⟩ := List.mem_map.mp hin
    exact (h.live task htask).1.ne heq
  · intro other
    simp only [hmem]
    have hold := h.timers other
    constructor
    · intro hin
      cases timer with
      | true =>
        rcases List.mem_cons.mp hin with rfl | hin
        · exact ⟨_,.inl rfl,rfl,rfl⟩
        · obtain ⟨task,htask,heq,hset⟩ := hold.mp hin
          exact ⟨task,.inr htask,heq,hset⟩
      | false =>
        obtain ⟨task,htask,heq,hset⟩ := hold.mp hin
        exact ⟨task,.inr htask,heq,hset⟩
    · rintro ⟨task,rfl | htask,heq,hset⟩
      · simp only at heq hset
        rw [hset,heq]
        exact List.mem_cons_self
      · have hin := hold.mpr ⟨task,htask,heq,hset⟩
        split_ifs
        · exact List.mem_cons_of_mem _ hin
        · exact hin
  · intro _
    obtain ⟨hnodup,htasks⟩ := h.inFlight hdata
    simp only [hmem]
    have hold : ∀ other ∈ c.inFlight, ∃ task, (task = ⟨address,msg,c.promises,timer⟩ ∨ task ∈ c.sendTasks) ∧
          task.address = other ∧ task.timer = false := by
      intro other hin
      obtain ⟨task,htask,heq,hset⟩ := htasks other hin
      exact ⟨task,.inr htask,heq,hset⟩
    cases timer with
    | true => exact ⟨hnodup,hold⟩
    | false =>
      refine ⟨List.nodup_cons.mpr ⟨fun hin => ?_,hnodup⟩,fun other hin => ?_⟩
      · obtain ⟨task,htask,heq,-⟩ := htasks address hin
        exact hfresh task htask heq
      · rcases List.mem_cons.mp hin with rfl | hin
        · exact ⟨_,.inl rfl,rfl,rfl⟩
        · exact hold other hin
  · intro task htask hset
    rcases (hmem task).mp htask with rfl | htask
    · simp only at hset
      simp [hset]
    · have hin := h.owned task htask hset
      dsimp only
      split_ifs
      · exact hin
      · exact List.mem_cons_of_mem _ hin
  · intro task htask
    rcases (hmem task).mp htask with rfl | htask
    · refine ⟨Nat.lt_succ_self _,hnew,fun hset hin => ?_⟩
      rcases hhanded _ hin with hin | ⟨-,hunset⟩
      · exact hunhanded hin
      · exact Bool.noConfusion (hset.symm.trans hunset)
    · obtain ⟨hbound,hnot,hun⟩ := h.live task htask
      refine ⟨Nat.lt_succ_of_lt hbound,hnot,fun hset hin => ?_⟩
      rcases hhanded _ hin with hin | ⟨heq,-⟩
      · exact hun hset hin
      · exact hbound.ne heq
  · refine ⟨fun pid hpid => Nat.lt_succ_of_lt (h.past.1 pid hpid),fun pid hpid => ?_⟩
    rcases hhanded _ hpid with hpid | ⟨rfl,-⟩
    · exact Nat.lt_succ_of_lt (h.past.2 pid hpid)
    · exact Nat.lt_succ_self _
  · exact h.settledOnce
  · cases timer with
    | true => exact h.handedOnce
    | false =>
      exact h.handedOnce.append (List.nodup_singleton _) (List.disjoint_singleton.mpr hunhanded)
  · exact h.noFault
  · intro _ pid hpid hnot
    by_cases heq : pid = c.promises
    · exact ⟨_,(hmem _).mpr (.inl rfl),heq.symm⟩
    · obtain ⟨task,htask,hsame⟩ := h.unsettled hdata pid
        (by change pid < c.promises + 1 at hpid; omega) hnot
      exact ⟨task,(hmem _).mpr (.inr htask),hsame⟩
  · exact fun hclosed => Bool.noConfusion (hdata.symm.trans hclosed)

theorem mem_closeTimer (h : SendInvariant c) (htask : task ∈ c.sendTasks)
    (other : SendTask) : other ∈ (c.closeTimer task.address).sendTasks ↔
      other = { task with timer := false } ∨ other ∈ c.sendTasks ∧ other.address ≠ task.address := by
  unfold closeTimer
  rw [List.mem_map]
  constructor
  · rintro ⟨old,hold,rfl⟩
    split_ifs with heq
    · left
      rw [h.eq_of_address hold htask heq]
    · exact .inr ⟨hold,heq⟩
  · rintro (rfl | ⟨hother,hne⟩)
    · exact ⟨task,htask,if_pos rfl⟩
    · exact ⟨other,hother,if_neg hne⟩

theorem map_closeTimer (c : InterconnectContext) (address : ℕ) :
    (c.closeTimer address).sendTasks.map SendTask.address = c.sendTasks.map SendTask.address ∧
    (c.closeTimer address).sendTasks.map SendTask.pid = c.sendTasks.map SendTask.pid := by
  unfold closeTimer
  dsimp only
  rw [List.map_map,List.map_map]
  constructor <;>
  · apply List.map_congr_left
    intro task _
    dsimp only [Function.comp_apply]
    split_ifs <;> rfl

theorem sendPending (h : SendInvariant c) (htask : task ∈ c.sendTasks) (htimer : task.timer = true) :
    SendInvariant ((c.closeTimer task.address).sendMsg task .accepted) := by
  have hdata := h.data_of_mem htask
  have hmem := h.mem_closeTimer htask
  obtain ⟨haddresses,hpids⟩ := map_closeTimer c task.address
  obtain ⟨hbound,hunsettled,hunhanded⟩ := h.live task htask
  have hhanded : ∀ pid, pid ∈ c.handed ++ [task.pid] ↔ pid ∈ c.handed ∨ pid = task.pid := by
    intro pid
    rw [List.mem_append,List.mem_singleton]
  constructor
  · exact haddresses ▸ h.addresses
  · exact hpids ▸ h.pids
  · intro address
    change address ∈ c.timers.filter (· ≠ task.address) ↔ ∃ other ∈ (c.closeTimer task.address).sendTasks, _
    rw [List.mem_filter,h.timers,decide_eq_true_eq]
    simp only [hmem]
    constructor
    · rintro ⟨⟨other,hother,rfl,hset⟩,hne⟩
      exact ⟨other,.inr ⟨hother,hne⟩,rfl,hset⟩
    · rintro ⟨other,rfl | ⟨hother,hne⟩,rfl,hset⟩
      · cases hset
      · exact ⟨⟨other,hother,rfl,hset⟩,hne⟩
  · intro _
    obtain ⟨hnodup,htasks⟩ := h.inFlight hdata
    refine ⟨List.nodup_cons.mpr ⟨h.address_notMem_inFlight hdata htask htimer,hnodup⟩,?_⟩
    intro address haddress
    rcases List.mem_cons.mp haddress with rfl | haddress
    · exact ⟨_,(hmem _).mpr (.inl rfl),rfl,rfl⟩
    · obtain ⟨other,hother,rfl,hset⟩ := htasks address haddress
      refine ⟨other,(hmem other).mpr (.inr ⟨hother,fun heq => ?_⟩),rfl,hset⟩
      rw [h.eq_of_address hother htask heq,htimer] at hset
      cases hset
  · intro other hother hset
    rcases (hmem other).mp hother with rfl | ⟨hother,-⟩
    · exact List.mem_cons_self
    · exact List.mem_cons_of_mem _ (h.owned other hother hset)
  · intro other hother
    rcases (hmem other).mp hother with rfl | ⟨hother,hne⟩
    · exact ⟨hbound,hunsettled,fun hset => Bool.noConfusion hset⟩
    · obtain ⟨hbound',hnot,hun⟩ := h.live other hother
      refine ⟨hbound',hnot,fun hset hin => ?_⟩
      rcases (hhanded _).mp hin with hin | heq
      · exact hun hset hin
      · exact hne (congrArg SendTask.address (h.eq_of_pid hother htask heq))
  · refine ⟨h.past.1,fun pid hpid => ?_⟩
    rcases (hhanded _).mp hpid with hpid | rfl
    · exact h.past.2 pid hpid
    · exact hbound
  · exact h.settledOnce
  · exact h.handedOnce.append (List.nodup_singleton _) (List.disjoint_singleton.mpr (hunhanded htimer))
  · exact h.noFault
  · intro _ pid hpid hnot
    obtain ⟨other,hother,heq⟩ := h.unsettled hdata pid hpid hnot
    by_cases hsame : other.address = task.address
    · refine ⟨_,(hmem _).mpr (.inl rfl),?_⟩
      rw [← heq,h.eq_of_address hother htask hsame]
    · exact ⟨other,(hmem other).mpr (.inr ⟨hother,hsame⟩),heq⟩
  · exact fun hclosed => Bool.noConfusion (hdata.symm.trans hclosed)

theorem flush (h : SendInvariant c) {outcome : ℕ → SendOutcome} {tasks : List SendTask}
    (hnodup : (tasks.map SendTask.address).Nodup) (htasks : ∀ task ∈ tasks, task ∈ c.sendTasks)
    (haccepted : ∀ task ∈ tasks, task.timer = true → outcome task.address = .accepted) :
    SendInvariant (processPendingSendTasks outcome c tasks) := by
  induction tasks generalizing c with
  | nil => exact h
  | cons task tasks ih =>
    obtain ⟨hhead,hnodup⟩ := List.nodup_cons.mp hnodup
    have hrest : ∀ other ∈ tasks, other ∈ c.sendTasks :=
      fun other hother => htasks other (List.mem_cons_of_mem _ hother)
    have haccepted' : ∀ other ∈ tasks, other.timer = true → outcome other.address = .accepted :=
      fun other hother => haccepted other (List.mem_cons_of_mem _ hother)
    have htask := htasks task List.mem_cons_self
    unfold processPendingSendTasks
    split_ifs with htimer
    · rw [haccepted task List.mem_cons_self htimer]
      have hmem := h.mem_closeTimer htask
      have hany : ((c.closeTimer task.address).sendMsg task .accepted).sendTasks.any
          (fun other => other.address = task.address) = true :=
        List.any_eq_true.mpr ⟨_,(hmem _).mpr (.inl rfl),by simp⟩
      dsimp only
      rw [if_pos hany]
      apply ih (h.sendPending htask htimer) hnodup ?_ haccepted'
      intro other hother
      refine (hmem other).mpr (.inr ⟨hrest other hother,fun heq => ?_⟩)
      exact hhead (heq ▸ List.mem_map_of_mem hother)
    · exact ih h hnodup hrest haccepted'

theorem send (h : SendInvariant c) {data : Option String} {address : ℕ} {outcome : SendOutcome}
    (hgood : c.Accepts (.send data address outcome)) :
    SendInvariant (c.step (.send data address outcome)) := by
  unfold InterconnectContext.step
  dsimp only
  split_ifs with hlive
  · exact h
  have hfresh : ∀ task ∈ c.sendTasks, task.address ≠ address := by
    intro task htask heq
    exact hlive (List.any_eq_true.mpr ⟨task,htask,decide_eq_true heq⟩)
  unfold miwearConnectSend
  by_cases hobject : c.objectData = true
  swap
  · rw [if_pos (by simpa using hobject)]
    exact h.settleNew _
  have hdata : c.data = true := by
    by_contra hdata
    have hnone := (h.closed (by simpa using hdata)).2
    exact Bool.noConfusion (hobject.symm.trans hnone)
  rw [if_neg (by simpa using hobject)]
  split_ifs with hconnected hconnecting
  · cases hmsg : getMsg data with
    | none => exact h.settleNew _
    | some msg =>
      have hsome : (getMsg data).isSome := by rw [hmsg]; rfl
      have haccepted := h.insertTask hdata hfresh msg false
      cases outcome with
      | refused => exact absurd rfl (hgood hfresh hobject hconnected hsome)
      | accepted => exact haccepted
      | reported status =>
        -- the task that is reported at once is settled like one in flight
        have htask : (⟨address,msg,c.promises,false⟩ : SendTask) ∈
            (c.createSendTask address msg c.promises false).sendTasks :=
          (List.perm_orderedInsert _ _ _).mem_iff.mpr List.mem_cons_self
        have hsettled := haccepted.settleTask htask
          (SendResult.settlement (if status = 0 then .ok else .failed))
        have htimers : c.timers.filter (· ≠ address) = c.timers := by
          rw [List.filter_eq_self]
          intro other hin
          apply decide_eq_true
          rintro rfl
          obtain ⟨task,htask,heq,-⟩ := (h.timers other).mp hin
          exact hfresh task htask heq
        have hinFlight : (address :: c.inFlight).filter (· ≠ address) = c.inFlight := by
          rw [List.filter_cons_of_neg (by simp),List.filter_eq_self]
          intro other hin
          apply decide_eq_true
          rintro rfl
          obtain ⟨task,htask,heq,-⟩ := (h.inFlight hdata).2 other hin
          exact hfresh task htask heq
        dsimp only [Bool.false_eq_true,if_false] at hsettled
        rw [if_neg Bool.false_ne_true,if_neg Bool.false_ne_true,if_neg Bool.false_ne_true,htimers,
          hinFlight] at hsettled
        have hfind := haccepted.find htask
        have hsent := sendMsg_reported_eq (c := ({ c with
          promises := c.promises + 1 } : InterconnectContext).createSendTask address msg c.promises false)
          hdata hfind status
        dsimp only
        rw [hsent]
        exact hsettled
  · cases hmsg : getMsg data with
    | none => exact h.settleNew _
    | some msg => exact h.insertTask hdata hfresh msg true
  · exact h.settleNew _

end SendInvariant

/-- A promise that is not settled although its task neither has a timer nor is in flight. -/
structure Stranded (c : InterconnectContext) (pid address : ℕ) : Prop where
  data : c.data = true
  bound : pid < c.promises
  unsettled : pid ∉ c.settled.map Prod.fst
  atAddress : ∀ task ∈ c.sendTasks, task.pid = pid → task.address = address
  timers : address ∉ c.timers
  inFlight : address ∉ c.inFlight

namespace Stranded

variable {pid address : ℕ}

theorem not_waited (h : c.Stranded pid address) : ¬c.SendsWaited := by
  intro hwaited
  obtain ⟨task,htask,heq,hwaits⟩ := hwaited.waiting h.data pid h.bound h.unsettled
  rw [h.atAddress task htask heq] at hwaits
  exact hwaits.elim h.timers h.inFlight

theorem closeTimer (h : c.Stranded pid address) (other : ℕ) : (c.closeTimer other).Stranded pid address where
  data := h.data
  bound := h.bound
  unsettled := h.unsettled
  atAddress task htask heq := by
    obtain ⟨old,hold,rfl⟩ := List.mem_map.mp htask
    have haddress := h.atAddress old hold
    split_ifs at heq ⊢ <;> exact haddress heq
  timers hin := h.timers (List.mem_filter.mp hin).1
  inFlight := h.inFlight

end Stranded

theorem sendMsg_reported (hdata : c.data = true) (task : SendTask) (status : ℤ) :
    (c.sendMsg task (.reported status)).sendTasks.any (fun other => other.address = task.address) = false := by
  rw [List.any_eq_false]
  intro other hother heq
  have haddress := of_decide_eq_true heq
  unfold sendMsg miwearSendCb processSendResult at hother
  dsimp only at hother
  rw [if_pos hdata] at hother
  split at hother
  · next hnone => exact List.find?_eq_none.mp hnone other hother heq
  · exact of_decide_eq_true (List.mem_filter.mp hother).2 haddress

/-- A flush leaves a stranded promise stranded, or goes on from an erased element. -/
theorem Stranded.flush {pid address : ℕ} (h : c.Stranded pid address) (outcome : ℕ → SendOutcome)
    {tasks : List SendTask} (htasks : ∀ task ∈ tasks, task.address ≠ address) :
    (processPendingSendTasks outcome c tasks).fault = true ∨
      (processPendingSendTasks outcome c tasks).Stranded pid address := by
  induction tasks generalizing c with
  | nil => exact .inr h
  | cons task tasks ih =>
    have hrest := fun other hother => htasks other (List.mem_cons_of_mem _ hother)
    have hne := htasks task List.mem_cons_self
    unfold processPendingSendTasks
    dsimp only
    split_ifs with htimer hany
    · have hclosed := h.closeTimer task.address
      cases houtcome : outcome task.address with
      | refused => exact ih ⟨h.data,h.bound,h.unsettled,hclosed.atAddress,hclosed.timers,h.inFlight⟩ hrest
      | accepted =>
        apply ih ?_ hrest
        refine ⟨h.data,h.bound,h.unsettled,hclosed.atAddress,hclosed.timers,fun hin => ?_⟩
        rcases List.mem_cons.mp hin with heq | hin
        · exact hne heq.symm
        · exact h.inFlight hin
      | reported status =>
        rw [houtcome,sendMsg_reported hclosed.data] at hany
        cases hany
    · exact .inl rfl
    · exact ih h hrest

/-- A flush in which some send is not accepted strands a promise, or goes on from an erased
element. -/
theorem SendInvariant.flush_not_accepted (h : SendInvariant c) {outcome : ℕ → SendOutcome}
    {tasks : List SendTask} (hnodup : (tasks.map SendTask.address).Nodup)
    (htasks : ∀ task ∈ tasks, task ∈ c.sendTasks)
    (hbad : ∃ task ∈ tasks, task.timer = true ∧ outcome task.address ≠ .accepted) :
    (processPendingSendTasks outcome c tasks).fault = true ∨
      ∃ pid address, (processPendingSendTasks outcome c tasks).Stranded pid address := by
  induction tasks generalizing c with
  | nil =>
    obtain ⟨task,htask,-⟩ := hbad
    cases htask
  | cons task tasks ih =>
    obtain ⟨hhead,hnodup⟩ := List.nodup_cons.mp hnodup
    have hother : ∀ other ∈ tasks, other.address ≠ task.address :=
      fun other hother heq => hhead (heq ▸ List.mem_map_of_mem hother)
    have hrest : ∀ other ∈ tasks, other ∈ c.sendTasks :=
      fun other hother => htasks other (List.mem_cons_of_mem _ hother)
    have htask := htasks task List.mem_cons_self
    have hmem := h.mem_closeTimer htask
    have hdata := h.data_of_mem htask
    have hlater : task.timer = false ∨ outcome task.address = .accepted →
        ∃ other ∈ tasks, other.timer = true ∧ outcome other.address ≠ .accepted := by
      intro hfine
      obtain ⟨other,hin,htimer,hnot⟩ := hbad
      rcases List.mem_cons.mp hin with rfl | hin
      · rcases hfine with hfine | hfine
        · exact Bool.noConfusion (htimer.symm.trans hfine)
        · exact absurd hfine hnot
      · exact ⟨other,hin,htimer,hnot⟩
    unfold processPendingSendTasks
    dsimp only
    split_ifs with htimer hany
    · cases houtcome : outcome task.address with
      | accepted =>
        refine ih (h.sendPending htask htimer) hnodup ?_ (hlater (.inr houtcome))
        exact fun other hin => (hmem other).mpr (.inr ⟨hrest other hin,hother other hin⟩)
      | refused =>
        obtain ⟨hbound,hunsettled,-⟩ := h.live task htask
        have hstranded : ((c.closeTimer task.address).sendMsg task .refused).Stranded task.pid
            task.address := by
          refine ⟨hdata,hbound,hunsettled,fun other hin heq => ?_,fun hin => ?_,
            h.address_notMem_inFlight hdata htask htimer⟩
          · rcases (hmem other).mp hin with rfl | ⟨hin,-⟩
            · rfl
            · rw [h.eq_of_pid hin htask heq]
          · exact of_decide_eq_true (List.mem_filter.mp hin).2 rfl
        rcases hstranded.flush outcome hother with hfault | hstill
        · exact .inl hfault
        · exact .inr ⟨_,_,hstill⟩
      | reported status =>
        have hclosed : (c.closeTimer task.address).data = true := hdata
        rw [houtcome,sendMsg_reported hclosed] at hany
        cases hany
    · exact .inl rfl
    · exact ih h hnodup hrest (hlater (.inl (by simpa using htimer)))

theorem SendInvariant.send_refused (h : SendInvariant c) {data : Option String} {address : ℕ}
    {outcome : SendOutcome} (hbad : ¬c.Accepts (.send data address outcome)) :
    ¬(c.step (.send data address outcome)).SendsWaited := by
  simp only [Accepts,not_forall,not_not] at hbad
  obtain ⟨hfresh,hobject,hconnected,hsome,rfl⟩ := hbad
  have hdata : c.data = true := by
    by_contra hdata
    exact Bool.noConfusion (hobject.symm.trans (h.closed (by simpa using hdata)).2)
  have hlive : ¬c.sendTasks.any (fun task => task.address = address) = true := by
    simpa using hfresh
  obtain ⟨msg,hmsg⟩ := Option.isSome_iff_exists.mp hsome
  have hstep : c.step (.send data address .refused) =
      { c.createSendTask address msg c.promises false with
        promises := c.promises + 1
        handed := c.handed ++ [c.promises] } := by
    unfold InterconnectContext.step miwearConnectSend
    dsimp only
    have hconnected' : ({ c with promises := c.promises + 1 } : InterconnectContext).isConnected = true :=
      hconnected
    rw [if_neg hlive,if_neg (by simpa using hobject),if_pos hconnected',hmsg]
    rfl
  rw [hstep]
  refine @Stranded.not_waited _ c.promises address ⟨hdata,Nat.lt_succ_self _,?_,?_,?_,?_⟩
  · exact fun hin => lt_irrefl _ (h.past.1 _ hin)
  · intro task htask heq
    rcases List.mem_cons.mp ((List.perm_orderedInsert _ _ _).mem_iff.mp htask) with rfl | htask
    · rfl
    · exact absurd heq (h.live task htask).1.ne
  · intro hin
    obtain ⟨task,htask,heq,-⟩ := (h.timers address).mp hin
    exact hfresh task htask heq
  · intro hin
    obtain ⟨task,htask,heq,-⟩ := (h.inFlight hdata).2 address hin
    exact hfresh task htask heq

theorem invokeConnect_sameSends (c : InterconnectContext) (isReconnect : Bool) :
    SameSends c (c.invokeConnect isReconnect) := by
  unfold invokeConnect
  split_ifs <;> exact ⟨rfl,rfl,rfl,rfl,.inl rfl,rfl,rfl,rfl,rfl⟩

theorem setOnOpen_sameSends (c : InterconnectContext) (onopen : ℕ) : SameSends c (c.setOnOpen onopen) := by
  unfold setOnOpen setConnFunc invokeConnect
  dsimp only
  split_ifs <;> exact ⟨rfl,rfl,rfl,rfl,.inl rfl,rfl,rfl,rfl,rfl⟩

theorem miwearConnectCb_sends (c : InterconnectContext) (status : ℤ) (miwearStatus : MiwearStatus)
    (outcome : ℕ → SendOutcome) :
    if c.data = true ∧ status = 0 ∧ miwearStatus = .phoneConnected then
      SameSends (processPendingSendTasks outcome { c with status := .phoneConnected } c.sendTasks)
        (c.miwearConnectCb status miwearStatus outcome)
    else SameSends c (c.miwearConnectCb status miwearStatus outcome) := by
  unfold miwearConnectCb clearPendingConnect
  by_cases hdata : c.data = true
  swap
  · simp only [hdata,false_and,if_false,Bool.false_eq_true,Bool.not_false,if_true]
    exact ⟨rfl,rfl,rfl,rfl,.inl rfl,rfl,rfl,rfl,rfl⟩
  have hthere : ¬(!c.data) = true := by simp [hdata]
  rw [if_neg hthere]
  by_cases hstatus : status = 0
  swap
  · simp only [hstatus,ne_eq,not_false_iff,false_and,and_false,if_false,if_true]
    exact ⟨rfl,rfl,rfl,rfl,.inl rfl,rfl,rfl,rfl,rfl⟩
  rw [if_neg (not_not.mpr hstatus)]
  cases miwearStatus with
  | phoneConnected =>
    rw [if_pos ⟨hdata,hstatus,rfl⟩]
    exact invokeConnect_sameSends _ _
  | _ =>
    rw [if_neg (fun hconnect => nomatch hconnect.2.2)]
    exact ⟨rfl,rfl,rfl,rfl,.inl rfl,rfl,rfl,rfl,rfl⟩

theorem SendsWaited.of_same (hsame : SameSends c c') (h : c'.SendsWaited) : c.SendsWaited := by
  obtain ⟨hsendTasks,htimers,hinFlight,hdata,-,hpromises,hhanded,hsettled,hfault⟩ := hsame
  constructor
  · rw [← hsettled]
    exact h.settledOnce
  · rw [← hhanded]
    exact h.handedOnce
  · rw [← hfault]
    exact h.noFault
  · rw [← hsendTasks,← htimers,← hinFlight,← hdata,← hpromises,← hsettled]
    exact h.waiting

theorem SendInvariant.step (h : SendInvariant c) (op : InterconnectOp) (hgood : c.Accepts op) :
    SendInvariant (c.step op) := by
  cases op with
  | message status miwearStatus outcome =>
    have hsends := c.miwearConnectCb_sends status miwearStatus outcome
    split_ifs at hsends with hconnect
    · obtain ⟨hdata,hstatus,hconnected⟩ := hconnect
      have hstart : SendInvariant { c with status := .phoneConnected } :=
        h.same ⟨rfl,rfl,rfl,rfl,.inl rfl,rfl,rfl,rfl,rfl⟩
      exact (hstart.flush h.addresses (fun _ htask => htask)
        (hgood hdata hstatus hconnected)).same hsends
    · exact h.same hsends
  | createInstance =>
    apply h.same
    unfold InterconnectContext.step
    dsimp only
    split_ifs with hexists
    · exact ⟨rfl,rfl,rfl,rfl,.inl rfl,rfl,rfl,rfl,rfl⟩
    · simp only [Bool.or_eq_true,not_or,Bool.not_eq_true,Bool.not_eq_false'] at hexists
      exact ⟨rfl,rfl,rfl,rfl,.inr hexists.2,rfl,rfl,rfl,rfl⟩
  | setOnOpen onopen => exact h.same (c.setOnOpen_sameSends onopen)
  | send data address outcome => exact h.send hgood
  | timeout address => exact h.timeout address
  | completed address status => exact h.completed address status
  | shutdown => exact h.shutdown

/-- An operation that is not accepted leaves a send unsettled for good, or goes on from an erased
element. -/
theorem SendInvariant.not_accepts (h : SendInvariant c) (op : InterconnectOp) (hbad : ¬c.Accepts op) :
    ¬(c.step op).SendsWaited := by
  cases op with
  | message status miwearStatus outcome =>
    simp only [Accepts,not_forall] at hbad
    obtain ⟨hdata,hstatus,hconnected,task,htask,htimer,hnot⟩ := hbad
    have hsends := c.miwearConnectCb_sends status miwearStatus outcome
    rw [if_pos ⟨hdata,hstatus,hconnected⟩] at hsends
    intro hwaited
    have hflushed := SendsWaited.of_same hsends hwaited
    have hstart : SendInvariant { c with status := .phoneConnected } :=
      h.same ⟨rfl,rfl,rfl,rfl,.inl rfl,rfl,rfl,rfl,rfl⟩
    rcases hstart.flush_not_accepted h.addresses (fun _ htask => htask)
      ⟨task,htask,htimer,hnot⟩ with hfault | ⟨pid,address,hstranded⟩
    · exact Bool.noConfusion (hfault.symm.trans hflushed.noFault)
    · exact hstranded.not_waited hflushed
  | send data address outcome => exact h.send_refused hbad
  | _ => exact absurd trivial hbad

/-- Sends are waited for along a run exactly when none is refused and none of a flush is reported
before `uv_miwear_send` returns. -/
theorem sendsWaited_iff_accepts (ops : List InterconnectOp) :
    Transition.Always InterconnectContext.step SendsWaited {} ops ↔
      Transition.Guarded InterconnectContext.step Accepts {} ops := by
  apply Transition.always_iff_guarded (I := SendInvariant)
  · exact fun _ h => h.waited
  · exact fun _ op h hgood => h.step op hgood
  · exact fun _ op h hbad => h.not_accepts op hbad
  · exact SendInvariant.init

/-- A send that is refused while the phone is connected. -/
theorem refused_send_never_settled : ¬Transition.Always InterconnectContext.step SendsWaited {}
    [.createInstance,.message 0 .phoneConnected (fun _ => .accepted),.send "ping" 8 .refused] := by
  intro h
  obtain ⟨task,-,-,hwaits⟩ := h.last.waiting rfl 0 (by decide) (by decide)
  have hnone : ¬(task.address ∈ ([] : List ℕ) ∨ task.address ∈ ([] : List ℕ)) := by simp
  exact hnone hwaits

end FeatureRuntime.InterconnectContext
