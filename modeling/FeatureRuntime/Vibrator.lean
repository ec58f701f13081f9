import FeatureRuntime.Transition
import Mathlib

/-! `system.vibrator`: the one interval task that all instances of a prototype share, and how it ends. -/
namespace FeatureRuntime

/-- A `StartObject`, with the callbacks whose ids are registered. -/
structure StartObject (N : Type) where
  duration : N
  interval : N
  count : N
  success : Bool
  fail : Bool
  complete : Bool

inductive VibratorReply
  | success (id : ℤ)
  | fail (data : String) (code : ℤ)
  | complete
  deriving DecidableEq, Repr

/-- `VibratorContext`; the owner is -1 while nothing plays. -/
structure VibratorContext where
  owner : ℤ := -1
  timer : Bool := false
  /-- The calls of `start`, by their numbers, and those whose `success` runs, the innermost first. -/
  calls : ℕ := 0
  starting : List ℕ := []
  replies : List (ℕ × VibratorReply) := []

/-- The calls of scripts with the answer of the driver, the return from a `success`, in which scripts may call again,
with whether `complete` is still registered, and the timer. -/
inductive VibratorOp (N : Type)
  | start (obj : StartObject N) (ret : ℤ)
  | startReturns (complete : Bool)
  | stop (id : ℤ) (ret : ℤ)
  | timerCb

namespace VibratorContext

variable {N : Type} (isPositiveInteger : N → Bool) (th : VibratorContext)

def tell (call : ℕ) (replies : List VibratorReply) : VibratorContext :=
  { th with replies := th.replies ++ replies.map (fun r => (call,r)) }

def startFail (obj : StartObject N) (data : String) (code : ℤ) : VibratorContext :=
  tell { th with calls := th.calls + 1 } th.calls
    ((if obj.fail then [.fail data code] else []) ++ if obj.complete then [.complete] else [])

/-- The rest of `start`, behind `success`. -/
def startTimer (call : ℕ) (complete : Bool) : VibratorContext :=
  tell { th with timer := true } call (if complete then [.complete] else [])

def start (obj : StartObject N) (ret : ℤ) : VibratorContext :=
  if !isPositiveInteger obj.duration || !isPositiveInteger obj.interval || !isPositiveInteger obj.count then
    th.startFail obj "unvaild arg" 202
  else if th.owner ≠ -1 then th.startFail obj "task already exists" 205
  else if ret < 0 then th.startFail obj "fail" ret
  else
    let call := th.calls
    let th := { th with owner := 1, calls := call + 1 }
    if obj.success then { th.tell call [.success 1] with starting := call :: th.starting }
    else th.startTimer call obj.complete

def startReturns (complete : Bool) : VibratorContext :=
  match th.starting with
  | [] => th
  | call :: starting => startTimer { th with starting } call complete

def clearOwner : VibratorContext :=
  { th with timer := false, owner := -1 }

/-- The timer is stopped before the driver is asked. -/
def stop (id ret : ℤ) : VibratorContext × Bool :=
  if id ≠ th.owner then (th,false)
  else if ret < 0 then ({ th with timer := false },false)
  else (th.clearOwner,true)

/-- `vibrator_start_timer_cb`, which the loop calls while no script runs. -/
def timerCb : VibratorContext :=
  if th.timer && th.starting.isEmpty then th.clearOwner else th

def step (th : VibratorContext) : VibratorOp N → VibratorContext
  | .start obj ret => th.start isPositiveInteger obj ret
  | .startReturns complete => th.startReturns complete
  | .stop id ret => (th.stop id ret).1
  | .timerCb => th.timerCb

def run (ops : List (VibratorOp N)) : VibratorContext := Transition.run (step isPositiveInteger) {} ops

variable {isPositiveInteger th}

/-- The task of the prototype stays, though no timer will end it. -/
def Stuck : Prop := th.owner = 1 ∧ th.timer = false ∧ th.starting = []

omit th in
theorem stuck_step_iff (th : VibratorContext) (op : VibratorOp N) : (th.step isPositiveInteger op).Stuck ↔
    (∃ ret, op = .stop 1 ret ∧ ret < 0 ∧ th.owner = 1 ∧ th.starting = []) ∨
      th.Stuck ∧ ∀ ret, op = .stop 1 ret → ret < 0 := by
  cases op with
  | start obj ret =>
    simp only [step,start]
    split_ifs with hargs hbusy hret <;> simp_all [Stuck,startFail,startTimer,tell]
  | startReturns complete =>
    simp only [step,startReturns]
    cases hstarting : th.starting <;> simp [Stuck,startTimer,tell,hstarting]
  | stop id ret =>
    simp only [step,stop,VibratorOp.stop.injEq]
    split_ifs with hid hret
    · constructor
      · rintro h
        exact .inr ⟨h,fun ret' heq => absurd (heq.1.trans h.1.symm) hid⟩
      · rintro (⟨ret',heq,-,howner,-⟩ | h)
        · exact absurd (heq.1.trans howner.symm) hid
        · exact h.1
    · have hid : id = th.owner := not_not.mp hid
      constructor
      · intro h
        exact .inl ⟨ret,⟨hid.trans h.1,rfl⟩,hret,h.1,h.2.2⟩
      · rintro (⟨ret',-,-,howner,hstarting⟩ | h)
        · exact ⟨howner,rfl,hstarting⟩
        · exact ⟨h.1.1,rfl,h.1.2.2⟩
    · have hid : id = th.owner := not_not.mp hid
      constructor
      · exact fun h => absurd h.1 (by simp [clearOwner])
      · rintro (⟨ret',heq,hneg,-⟩ | ⟨h,hall⟩)
        · exact absurd (heq.2 ▸ hneg) hret
        · exact absurd (hall ret ⟨hid.trans h.1,rfl⟩) hret
  | timerCb =>
    simp only [step,timerCb]
    split_ifs with htimer <;> simp_all [Stuck,clearOwner]

/-- The task is stuck exactly after a `stop` of it, outside of any `success`, that the driver refused, until it accepts
one. -/
theorem stuck_iff (ops : List (VibratorOp N)) : (run isPositiveInteger ops).Stuck ↔ ∃ before after ret,
    ops = before ++ .stop 1 ret :: after ∧ ret < 0 ∧ (run isPositiveInteger before).owner = 1 ∧
      (run isPositiveInteger before).starting = [] ∧ ∀ ret', .stop 1 ret' ∈ after → ret' < 0 := by
  induction ops using List.reverseRecOn with
  | nil => simp [run,Stuck]
  | append_singleton ops op ih =>
    have hrun : run isPositiveInteger (ops ++ [op]) = (run isPositiveInteger ops).step isPositiveInteger op := by
      rw [run,Transition.run_append]
      rfl
    rw [hrun,stuck_step_iff,ih]
    constructor
    · rintro (⟨ret,rfl,hret,howner⟩ | ⟨⟨before,after,ret,rfl,hret,howner,hstarting,hall⟩,hop⟩)
      · exact ⟨ops,[],ret,rfl,hret,howner.1,howner.2,fun _ h => absurd h List.not_mem_nil⟩
      · refine ⟨before,after ++ [op],ret,by simp,hret,howner,hstarting,fun ret' h => ?_⟩
        rcases List.mem_append.mp h with h | h
        · exact hall ret' h
        · exact hop ret' (List.mem_singleton.mp h).symm
    · rintro ⟨before,after,ret,heq,hret,howner,hstarting,hall⟩
      rcases List.eq_nil_or_concat after with rfl | ⟨after,last,rfl⟩
      · obtain ⟨rfl,hop⟩ := List.append_inj' heq rfl
        exact .inl ⟨ret,(List.cons.inj hop).1,hret,howner,hstarting⟩
      · rw [List.concat_eq_append,← List.cons_append,← List.append_assoc] at heq
        obtain ⟨rfl,hop⟩ := List.append_inj' heq rfl
        obtain rfl := (List.cons.inj hop).1
        rw [List.concat_eq_append] at hall
        refine .inr ⟨⟨before,after,ret,rfl,hret,howner,hstarting,fun ret' h => ?_⟩,fun ret' h => ?_⟩
        · exact hall ret' (List.mem_append_left _ h)
        · exact hall ret' (by simp [h])

end VibratorContext
end FeatureRuntime
