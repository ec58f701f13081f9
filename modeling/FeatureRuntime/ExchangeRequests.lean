import FeatureRuntime.CallbackManager
import FeatureRuntime.ExchangeKey
import FeatureRuntime.RequestRun

/-! The requests of `system.exchange`: the failing checks and the refusals of the property backend, which end a
request through `finish_callback`, and its answers, which end it through `exchange_cb`. -/
namespace FeatureRuntime

inductive ExchangeCallback
  | success (value : String)
  | fail (msg : String) (code : ℤ)
  | complete (msg : String)
  deriving DecidableEq

/-- What a request holds: its callback ids, the handle, the reference to the instance and the buffer in which
the key is put together; and its argument, which belongs to the caller. -/
inductive ExchangeResource
  | success
  | fail
  | complete
  | handle
  | feature
  | tmpcat
  | argument
  deriving DecidableEq

abbrev ExchangeEvent := RequestEvent ExchangeCallback ExchangeResource

/-- A call of the script with its callback ids, whether its argument is null, and what the property backend
returns to it. -/
structure ExchangeCall where
  feature : ℕ
  op : ExchangeKind
  key : Option (List UInt8) := none
  value : Option (List UInt8) := none
  scope : Option (List UInt8) := none
  ids : CallbackIds := {}
  null : Bool := false
  ret : ℤ := 0

/-- The arguments of `exchange_cb`, without the key. -/
structure ExchangeAnswer where
  status : ℤ
  value : Option String

namespace Exchange

def errorCode : ℤ := 202

def convert : List ExchangeEvent := [.acquire .success,.acquire .fail,.acquire .complete]

/-- `exchange_malloc`. -/
def malloc : List ExchangeEvent := [.acquire .handle,.acquire .feature]

/-- `exchange_free`. -/
def free : List ExchangeEvent := [.release .feature,.release .handle]

def completeText (status : ℤ) : String := if status ≥ 0 then "success" else "fail"

def finishCallback (status : ℤ) (msg : String) : List ExchangeEvent :=
  [.invoke (if status = 0 then .success msg else .fail msg status),.invoke (.complete (completeText status)),
    .release .success,.release .fail,.release .complete] ++ free

/-- What `exchange_cb` invokes first. -/
def outcome (answer : ExchangeAnswer) : ExchangeCallback :=
  if answer.status ≥ 0 then .success (answer.value.getD "success") else .fail "fail" errorCode

/-- `exchange_cb`. An instance that is gone has no callbacks. -/
def exchangeCb (live : Bool) (answer : ExchangeAnswer) : List ExchangeEvent :=
  .touch .handle ::
    (if live then [.invoke (outcome answer),.invoke (.complete (completeText answer.status))] else []) ++
    [.release .complete,.release .success,.release .fail] ++ free

def refusal : ExchangeKind → String
  | .set => "uv_property_set fail"
  | .get => "uv_property_get failed"
  | _ => "uv_property_delete failed"

variable (limits : PropertyLimits)

def check (q : ExchangeCall) : ExchangeCheck := (q.op.args q.key q.value q.scope).getAndCheck limits

def checkBuffer : ExchangeCheck → List ExchangeEvent
  | .error => []
  | .ok _ => [.acquire .tmpcat,.touch .tmpcat,.release .tmpcat]
  | .undefined => [.touch .tmpcat]

def conclude (q : ExchangeCall) : ExchangeCheck → List ExchangeEvent
  | .error => finishCallback errorCode "param is invalid"
  | .undefined => []
  | .ok _ =>
    if q.op = .clear then finishCallback 0 "success"
    else if q.ret ≠ 0 then finishCallback errorCode (refusal q.op)
    else []

/-- `system_exchange_wrap_set`, `_get`, `_remove` and `_clear`. -/
def start (q : ExchangeCall) : List ExchangeEvent :=
  if q.null then malloc ++ [.touch .argument]
  else convert ++ malloc ++ checkBuffer (check limits q) ++ conclude q (check limits q)

def accepted (q : ExchangeCall) : Bool :=
  !q.null && match check limits q with
  | .ok _ => q.op ≠ .clear ∧ q.ret = 0
  | _ => false

def functions : RequestFunctions ExchangeCall ExchangeAnswer ExchangeEvent where
  feature := ExchangeCall.feature
  start := start limits
  accepted := accepted limits
  answer _ live answer := exchangeCb live answer
  ids q := [q.ids.success,q.ids.fail,q.ids.complete]
  invokes q
    | .invoke (.success _) => some q.ids.success
    | .invoke (.fail _ _) => some q.ids.fail
    | .invoke (.complete _) => some q.ids.complete
    | _ => none
  removes q
    | .release .success => some q.ids.success
    | .release .fail => some q.ids.fail
    | .release .complete => some q.ids.complete
    | _ => none

/-- One outcome, then `complete` with the text that agrees with it, and everything released once. -/
structure Completed (events : List ExchangeEvent) : Prop where
  told : (∃ value, RequestEvent.invoked events = [.success value,.complete "success"]) ∨
    ∃ msg code, RequestEvent.invoked events = [.fail msg code,.complete "fail"]
  settled : RequestEvent.Settled events

def Sound (q : ExchangeCall) : Prop :=
  q.null = false ∧ (∃ key, check limits q = .ok key) ∧ (q.op ≠ .clear → q.ret = 0)

section Traces

def Ends (check : ExchangeCheck) : Prop := check ≠ .undefined

theorem settled_finish {check : ExchangeCheck} (hcheck : Ends check) (status : ℤ) (msg : String) :
    RequestEvent.Settled (convert ++ malloc ++ checkBuffer check ++ finishCallback status msg) := by
  intro r
  cases check with
  | undefined => exact absurd rfl hcheck
  | error => cases r <;> first | exact .inr rfl | exact .inl rfl
  | ok key => cases r <;> first | exact .inr rfl | exact .inl rfl

theorem settled_cb (key : List UInt8) (live : Bool) (answer : ExchangeAnswer) :
    RequestEvent.Settled (convert ++ malloc ++ checkBuffer (.ok key) ++ exchangeCb live answer) := by
  intro r
  cases live <;> cases r <;> first | exact .inr rfl | exact .inl rfl

/-- `finish_callback` ends a request rightly exactly when the status is not positive. -/
theorem completed_finish_iff {check : ExchangeCheck} (hcheck : Ends check) (status : ℤ) (msg : String) :
    Completed (convert ++ malloc ++ checkBuffer check ++ finishCallback status msg) ↔ status ≤ 0 := by
  have hinvoked : RequestEvent.invoked (convert ++ malloc ++ checkBuffer check ++ finishCallback status msg) =
      [if status = 0 then .success msg else .fail msg status,.complete (completeText status)] := by
    cases check with
    | undefined => exact absurd rfl hcheck
    | error => rfl
    | ok key => rfl
  unfold completeText at hinvoked
  constructor
  · intro h
    by_contra hpos
    rw [if_neg (by omega),if_pos (by omega)] at hinvoked
    rcases h.told with ⟨value,htold⟩ | ⟨msg,code,htold⟩
    · rw [hinvoked] at htold
      simp at htold
    · rw [hinvoked] at htold
      simp at htold
  · intro hle
    refine ⟨?_,settled_finish hcheck status msg⟩
    rcases eq_or_lt_of_le hle with rfl | hlt
    · exact .inl ⟨msg,hinvoked⟩
    · rw [if_neg hlt.ne,if_neg (by omega)] at hinvoked
      exact .inr ⟨msg,status,hinvoked⟩

/-- `exchange_cb` ends a request rightly exactly on a live instance. -/
theorem completed_cb_iff (key : List UInt8) (live : Bool) (answer : ExchangeAnswer) :
    Completed (convert ++ malloc ++ checkBuffer (.ok key) ++ exchangeCb live answer) ↔ live = true := by
  cases live with
  | false =>
    refine iff_of_false (fun h => ?_) (by decide)
    rcases h.told with ⟨value,htold⟩ | ⟨msg,code,htold⟩ <;> cases htold
  | true =>
    refine iff_of_true ⟨?_,settled_cb key true answer⟩ rfl
    have hinvoked : RequestEvent.invoked (convert ++ malloc ++ checkBuffer (.ok key) ++ exchangeCb true answer) =
        [outcome answer,.complete (completeText answer.status)] := rfl
    unfold outcome completeText at hinvoked
    by_cases hstatus : answer.status ≥ 0
    · rw [if_pos hstatus,if_pos hstatus] at hinvoked
      exact .inl ⟨_,hinvoked⟩
    · rw [if_neg hstatus,if_neg hstatus] at hinvoked
      exact .inr ⟨_,_,hinvoked⟩

theorem not_completed_undefined : ¬ Completed (convert ++ malloc ++ checkBuffer .undefined) := by
  intro h
  rcases h.settled .tmpcat with habsent | hreleased
  · exact absurd habsent (by decide)
  · exact absurd hreleased (by decide)

variable {limits} {q : ExchangeCall}

theorem accepted_iff : accepted limits q = true ↔
    q.null = false ∧ ∃ key, check limits q = .ok key ∧ q.op ≠ .clear ∧ q.ret = 0 := by
  unfold accepted
  cases check limits q <;> simp

theorem start_of_accepted {key : List UInt8} (hnull : q.null = false) (hcheck : check limits q = .ok key)
    (hop : q.op ≠ .clear) (hret : q.ret = 0) : start limits q = convert ++ malloc ++ checkBuffer (.ok key) := by
  unfold start conclude
  rw [hnull,if_neg Bool.false_ne_true,hcheck]
  dsimp only
  rw [if_neg hop,if_neg (not_not.mpr hret),List.append_nil]

/-- A call that the backend does not get ends rightly exactly when it is sound. -/
theorem completed_start_iff (h : accepted limits q = false) : Completed (start limits q) ↔ Sound limits q := by
  unfold start Sound
  cases hnull : q.null with
  | true =>
    refine iff_of_false (fun hcompleted => ?_) (fun hsound => Bool.noConfusion hsound.1)
    rcases hcompleted.told with ⟨value,htold⟩ | ⟨msg,code,htold⟩ <;> cases htold
  | false =>
    rw [if_neg Bool.false_ne_true]
    cases hcheck : check limits q with
    | error =>
      refine (completed_finish_iff (ExchangeCheck.noConfusion ·) errorCode _).trans (iff_of_false (by decide) ?_)
      rintro ⟨_,⟨key,h⟩,_⟩
      exact ExchangeCheck.noConfusion h
    | undefined =>
      rw [show conclude q .undefined = [] from rfl,List.append_nil]
      refine iff_of_false not_completed_undefined ?_
      rintro ⟨_,⟨key,h⟩,_⟩
      exact ExchangeCheck.noConfusion h
    | ok key =>
      unfold conclude
      dsimp only
      by_cases hop : q.op = .clear
      · rw [if_pos hop]
        exact (completed_finish_iff (ExchangeCheck.noConfusion ·) 0 _).trans
          (iff_of_true le_rfl ⟨rfl,⟨key,rfl⟩,fun h => absurd hop h⟩)
      · have hret : q.ret ≠ 0 := by
          intro hret
          rw [accepted_iff.mpr ⟨hnull,key,hcheck,hop,hret⟩] at h
          exact Bool.noConfusion h
        rw [if_neg hop,if_pos hret]
        exact (completed_finish_iff (ExchangeCheck.noConfusion ·) errorCode _).trans
          (iff_of_false (by decide) (fun h => hret (h.2.2 hop)))

end Traces

variable {limits}

def run (limits : PropertyLimits) (ops : List (RequestLabel ExchangeCall ExchangeAnswer)) :
    RequestRun ExchangeCall ExchangeAnswer ExchangeEvent :=
  Transition.run (RequestRun.step (functions limits)) {} ops

/-- In every run whose open calls share no callbacks: what happens for a sound request of a live instance is
always a part of one right completion, whose callbacks are found, and a finished request of a live instance is
completed rightly exactly when it is sound; one whose answer comes after its instance is never completed. -/
theorem exchange_completed_iff (ops : List (RequestLabel ExchangeCall ExchangeAnswer))
    (hshared : Transition.Guarded (RequestRun.step (functions limits)) (RequestRun.Unshared (functions limits)) {} ops)
    (n : ℕ) (q : ExchangeCall) (hq : (run limits ops).calls[n]? = some q) :
    ((run limits ops).detached q.feature = false →
      (Sound limits q → (∃ whole, Completed whole ∧ (run limits ops).events n <+: whole) ∧
        n ∉ (run limits ops).missed) ∧
      ((run limits ops).Finished (functions limits) n →
        (Completed ((run limits ops).events n) ∧ n ∉ (run limits ops).missed ↔ Sound limits q))) ∧
      ∀ answer, (run limits ops).answers n = some (false,answer) →
        (run limits ops).Finished (functions limits) n → ¬ Completed ((run limits ops).events n) := by
  have hs : RequestRun.History (functions limits) (run limits ops) :=
    RequestRun.history_run (functions limits) ops
  have hfound : (run limits ops).detached q.feature = false → n ∉ (run limits ops).missed :=
    (RequestRun.delivers_run ops hshared).not_missed hq
  generalize run limits ops = s at hq hs hfound ⊢
  have hwhole : ∀ live answer, s.answers n ≠ none → ∃ key, check limits q = .ok key ∧
      (functions limits).whole q (some (live,answer)) =
        convert ++ malloc ++ checkBuffer (.ok key) ++ exchangeCb live answer := by
    intro live answer hanswer
    obtain ⟨hnull,key,hcheck,hop,hret⟩ := accepted_iff.mp (hs.accepted n q hq hanswer)
    refine ⟨key,hcheck,?_⟩
    change start limits q ++ exchangeCb live answer = _
    rw [start_of_accepted hnull hcheck hop hret]
  refine ⟨fun hlive => ?_,fun answer hanswer hend hcompleted => ?_⟩
  · simp only [hfound hlive,not_false_eq_true,and_true]
    cases hanswer : s.answers n with
    | none =>
      cases haccepted : accepted limits q with
      | false =>
        refine ⟨fun h => ⟨start limits q,(completed_start_iff haccepted).mpr h,?_⟩,fun hend => ?_⟩
        · exact hs.part_of_whole hq none (.inl hanswer)
        · rw [(hs.finished hq hend).1,hanswer]
          exact completed_start_iff haccepted
      | true =>
        obtain ⟨hnull,key,hcheck,hop,hret⟩ := accepted_iff.mp haccepted
        refine ⟨fun _ => ⟨_,(completed_cb_iff key true ⟨0,none⟩).mpr rfl,?_⟩,fun hend => ?_⟩
        · rw [← start_of_accepted hnull hcheck hop hret]
          exact hs.part_of_whole hq (some (true,⟨0,none⟩)) (.inl hanswer)
        · exact absurd hanswer (hend.2 q hq haccepted)
    | some result =>
      obtain ⟨live,answer⟩ := result
      obtain rfl : live = true := by
        by_contra hdead
        rw [Bool.not_eq_true] at hdead
        exact hs.live_answer hq hlive answer (hdead ▸ hanswer)
      obtain ⟨hnull,_,_,_,hret⟩ := accepted_iff.mp (hs.accepted n q hq (by simp [hanswer]))
      obtain ⟨key,hcheck,heq⟩ := hwhole true answer (by simp [hanswer])
      have hright := (completed_cb_iff key true answer).mpr rfl
      refine ⟨fun _ => ⟨_,hright,heq ▸ hs.part_of_whole hq _ (.inr hanswer)⟩,fun hend => ?_⟩
      rw [(hs.finished hq hend).1,hanswer,heq]
      exact iff_of_true hright ⟨hnull,⟨key,hcheck⟩,fun _ => hret⟩
  · obtain ⟨key,_,heq⟩ := hwhole false answer (by simp [hanswer])
    rw [(hs.finished hq hend).1,hanswer,heq] at hcompleted
    exact Bool.noConfusion ((completed_cb_iff key false answer).mp hcompleted)

def getCall : ExchangeCall :=
  { feature := 0, op := .get, key := some (utf8 "k"), scope := some (utf8 "global"), ids := ⟨1,2,3⟩ }

/-- A `get` that the backend answers. -/
def getOps : List (RequestLabel ExchangeCall ExchangeAnswer) :=
  .call getCall :: (List.replicate 8 .next ++ [.answer 0 ⟨0,some "v"⟩] ++ List.replicate 8 .next)

theorem get_exchanged : Completed ((run ⟨127,255⟩ getOps).events 0) := by
  have hshared : Transition.Guarded (RequestRun.step (functions ⟨127,255⟩))
      (RequestRun.Unshared (functions ⟨127,255⟩)) {} getOps :=
    ⟨fun n _ q' hq' => (by cases hq'),RequestRun.unshared_of_no_call _ (by simp)⟩
  apply ((((exchange_completed_iff getOps hshared 0 getCall rfl).1 rfl).2 ⟨rfl,fun _ _ _ h => by cases h⟩).mpr ?_).1
  exact ⟨rfl,⟨_,rfl⟩,fun _ => rfl⟩

/-- A `get` without a key fails and completes with `success`. -/
theorem get_completes_wrong :
    ¬ ∀ ops n q, (run ⟨127,255⟩ ops).calls[n]? = some q → (run ⟨127,255⟩ ops).Finished (functions ⟨127,255⟩) n →
      Completed ((run ⟨127,255⟩ ops).events n) := by
  intro h
  have hget := h ([.call { feature := 0, op := .get, key := some [], scope := some (utf8 "global") }] ++
    List.replicate 12 .next) 0 _ rfl ⟨rfl,fun _ hq haccepted => by cases hq; cases haccepted⟩
  rcases hget.told with ⟨value,htold⟩ | ⟨msg,code,htold⟩
  · cases htold
  · have hlast : some (ExchangeCallback.complete "success") = some (.complete "fail") := congrArg List.getLast? htold
    exact absurd hlast (by decide)

end Exchange
end FeatureRuntime
