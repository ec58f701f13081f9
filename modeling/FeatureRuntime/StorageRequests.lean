import FeatureRuntime.CallbackManager

/-! The requests of `system.storage`: the failing checks and the results of the database, which end a
request through `finish_callback`. -/
namespace FeatureRuntime

/-- `STORAGE_OP`. -/
inductive StorageKind
  | get
  | set
  | clear
  | delete
  | key
  | setToDelete
  | none
  deriving DecidableEq

structure StorageHandle where
  feature : ℕ
  op : StorageKind := .none
  ids : CallbackIds := {}
  buf : Option String := none

structure StorageCall where
  feature : ℕ
  ids : CallbackIds
  deriving DecidableEq

/-- A callback of a call is invoked, its callbacks are removed, or its handle is freed. -/
inductive StorageAnswer
  | success (msg : String)
  | fail (msg : Option String) (code : ℤ)
  | complete (msg : String)
  | removed
  | freed
  deriving DecidableEq

structure StorageEvent where
  call : ℕ
  answer : StorageAnswer
  /-- The instance knew the callback. -/
  called : Bool

/-- The arguments of a call and what the database returns; a null string is `none`. -/
inductive StorageRequest
  | get (key defaultValue : Option String) (ret : ℤ)
  | set (key value : Option String) (ret : ℤ)
  | clear (close init : ℤ)
  | delete (key : Option String) (ret : ℤ)
  | key (index ret : ℤ)

/-- What a call does before it returns: the operation and the buffer of its handle, the results it ends
with, and whether the database will call `storage_cb`. -/
structure StorageStart where
  op : StorageKind := .none
  buf : Option String := none
  finishes : List (ℤ × Option String)
  accepted : Bool := false

/-- The rest of the functions that are under way, innermost first. -/
inductive StorageAction
  /-- `finish_callback`. -/
  | finish (call feature : ℕ) (ids : CallbackIds) (status : ℤ) (msg : Option String)
  | invoke (call feature : ℕ) (id : ℤ) (answer : StorageAnswer)
  | removeAll (call feature : ℕ) (ids : CallbackIds)
  /-- `storage_free`. -/
  | free (call : ℕ)
  /-- The function returns to the script or to the event loop. -/
  | ret

/-- The handles by the calls that made them, the callbacks of the instances, and what happened so far. -/
structure Storage where
  handles : ℕ → Option StorageHandle := fun _ => none
  registered : ℕ → ℤ → Bool := fun _ _ => false
  detached : ℕ → Bool := fun _ => false
  /-- The database has the request. -/
  pending : ℕ → Bool := fun _ => false
  todo : List StorageAction := []
  /-- A callback or the event loop runs, not a function of the feature. -/
  inScript : Bool := true
  fault : Bool := false
  calls : List StorageCall := []
  events : List StorageEvent := []

inductive StorageOp
  /-- A call of an instance, whose prototype has its data or not. -/
  | call (feature : ℕ) (th : Bool) (ids : CallbackIds) (request : StorageRequest)
  /-- A call whose argument is null: every function reads through it. -/
  | callNull (feature : ℕ)
  /-- The database calls `storage_cb`. -/
  | storageCb (call : ℕ) (status : ℤ) (key : String) (value : Option String)
  | detach (feature : ℕ)
  /-- The running callback returns, or the running function goes on. -/
  | next

def unqliteNotfound : ℤ := -6

def emptyKey (key : Option String) : Bool := key.getD "" = ""

/-- `STORAGE_CHECK_IF`, which does not return. -/
def storageCheckIf (ret : ℤ) (msg : String) : List (ℤ × Option String) :=
  if ret ≠ 0 then [(ret,some msg)] else []

namespace StorageStart

def failed (status : ℤ) (msg : Option String) : StorageStart := { finishes := [(status,msg)] }

/-- `system_storage_wrap_get`. -/
def get (th : Bool) (key defaultValue : Option String) (ret : ℤ) : StorageStart :=
  if th = false then failed (-1) (some "FeatureGetObjectData fail")
  else if emptyKey key then failed (-1) defaultValue
  else
    { op := .get
      buf := defaultValue
      finishes := storageCheckIf ret "uv_db_get fail"
      accepted := ret = 0 }

/-- `system_storage_wrap_set`. -/
def set (th : Bool) (key value : Option String) (ret : ℤ) : StorageStart :=
  if th = false then failed 202 (some "FeatureGetObjectData fail")
  else if emptyKey key then failed 202 (some "fail")
  else
    match value with
    | none => failed 202 (some "fail")
    | some value =>
      { op := if value = "" then .setToDelete else .set
        buf := some value
        finishes := storageCheckIf ret "uv_db_set fail"
        accepted := ret = 0 }

/-- `system_storage_wrap_clear`. -/
def clear (th : Bool) (close init : ℤ) : StorageStart :=
  if th = false then failed (-1) (some "FeatureGetObjectData fail")
  else
    { finishes := storageCheckIf close "uv_db_close fail" ++ storageCheckIf init "uv_db_init fail" ++
        [(init,some "succcess")] }

/-- `system_storage_wrap_delete`. -/
def delete (th : Bool) (key : Option String) (ret : ℤ) : StorageStart :=
  if th = false then failed 202 (some "FeatureGetObjectData fail")
  else if emptyKey key then failed 202 (some "fail")
  else
    { op := .delete
      finishes := storageCheckIf ret "uv_db_delete fail"
      accepted := ret = 0 }

/-- `system_storage_wrap_key`. -/
def key (th : Bool) (index ret : ℤ) : StorageStart :=
  if th = false then failed (-1) (some "FeatureGetObjectData fail")
  else if index < 0 then failed (-1) (some "fail")
  else
    { op := .key
      finishes := if ret < 0 then [(ret,some "uv_db_key fail")] else []
      accepted := ret = 0 }

end StorageStart

def StorageRequest.start (th : Bool) : StorageRequest → StorageStart
  | .get k defaultValue ret => StorageStart.get th k defaultValue ret
  | .set k value ret => StorageStart.set th k value ret
  | .clear close init => StorageStart.clear th close init
  | .delete k ret => StorageStart.delete th k ret
  | .key index ret => StorageStart.key th index ret

namespace StorageAnswer

/-- The outcome that `finish_callback` tells. -/
def outcome (status : ℤ) (msg : Option String) : StorageAnswer :=
  if status = 0 then .success (msg.getD "success") else .fail msg status

/-- The text of `finish_callback` for `complete`. -/
def completion (status : ℤ) : StorageAnswer := .complete (if 0 ≤ status then "success" else "fail")

def id (ids : CallbackIds) : StorageAnswer → ℤ
  | .success _ => ids.success
  | .fail _ _ => ids.fail
  | .complete _ => ids.complete
  | _ => -1

end StorageAnswer

namespace Storage

variable (uvStrerror : ℤ → String) (s : Storage)

/-- The status and the message that `storage_cb` ends a request with. -/
def cbResult (handle : StorageHandle) (status : ℤ) (key : String) (value : Option String) : ℤ × Option String :=
  if status = unqliteNotfound ∧ handle.op = .get then (0,handle.buf)
  else if status = unqliteNotfound ∧ handle.op = .setToDelete then (0,some "0")
  else if status = 0 then
    (0,if handle.op = .get then value else if handle.op = .key then some key else some "0")
  else
    let status := if status = unqliteNotfound ∧ handle.op = .delete then 200 else status
    (status,some (uvStrerror status))

def startCall (feature : ℕ) (ids : CallbackIds) (start : StorageStart) : Storage :=
  let call := s.calls.length
  let handle : StorageHandle :=
    { feature := feature, op := start.op, ids := if start.op = .none then {} else ids, buf := start.buf }
  { s with
    registered := Function.update s.registered feature (fun id =>
      s.registered feature id || (decide (0 < id) && (id == ids.success || id == ids.fail || id == ids.complete)))
    calls := s.calls ++ [⟨feature,ids⟩]
    handles := Function.update s.handles call (some handle)
    pending := Function.update s.pending call start.accepted
    inScript := false
    todo := start.finishes.map (fun r => .finish call feature ids r.1 r.2) ++ .ret :: s.todo }

def storageCb (call : ℕ) (status : ℤ) (key : String) (value : Option String) : Storage :=
  match s.handles call with
  | none => { s with fault := true }
  | some handle =>
    let r := cbResult uvStrerror handle status key value
    { s with
      pending := Function.update s.pending call false
      inScript := false
      todo := .finish call handle.feature handle.ids r.1 r.2 :: .ret :: s.todo }

def perform : StorageAction → Storage
  | .finish call feature ids status msg =>
    if s.detached feature then { s with todo := .free call :: s.todo }
    else
      let outcome := StorageAnswer.outcome status msg
      { s with todo := [.invoke call feature (outcome.id ids) outcome,
          .invoke call feature ids.complete (.completion status),.removeAll call feature ids,.free call] ++ s.todo }
  | .invoke call feature id answer =>
    { s with
      events := s.events ++ [⟨call,answer,s.registered feature id⟩]
      inScript := s.registered feature id }
  | .removeAll call feature ids =>
    { s with
      registered := Function.update s.registered feature (fun id =>
        s.registered feature id && !(id == ids.success || id == ids.fail || id == ids.complete))
      events := s.events ++ [⟨call,.removed,true⟩] }
  | .free call =>
    match s.handles call with
    | none => { s with fault := true }
    | some _ => { s with
        handles := Function.update s.handles call none
        events := s.events ++ [⟨call,.freed,true⟩] }
  | .ret => { s with inScript := true }

def next : Storage :=
  match s.todo with
  | [] => s
  | action :: todo => { s with todo := todo, inScript := false }.perform action

def step (op : StorageOp) : Storage :=
  if s.fault then s
  else
    match op with
    | .call feature th ids request =>
      if s.inScript ∧ s.detached feature = false then s.startCall feature ids (request.start th) else s
    | .callNull feature => if s.inScript ∧ s.detached feature = false then { s with fault := true } else s
    | .storageCb call status key value =>
      if s.inScript ∧ s.pending call then s.storageCb uvStrerror call status key value else s
    | .detach feature =>
      if s.inScript then
        { s with
          detached := Function.update s.detached feature true
          registered := Function.update s.registered feature (fun _ => false) }
      else s
    | .next => s.next

def answersOf (call : ℕ) : List StorageAnswer := (s.events.filter (fun e => e.call = call)).map StorageEvent.answer

/-- The answers to a request with some outcome: the text for `complete` agrees with the outcome. -/
def full (outcome : StorageAnswer) : List StorageAnswer :=
  let text := match outcome with
    | .success _ => "success"
    | _ => "fail"
  [outcome,.complete text,.removed,.freed]

/-- `success` or `fail`. -/
def IsOutcome : StorageAnswer → Prop
  | .success _ => True
  | .fail _ _ => True
  | _ => False

/-- Every request of a live instance has got a part of its answers, in their order, each at the callback that
the script gave, and all of them when nothing is under way and the database does not have the request. -/
structure Completed (s : Storage) : Prop where
  noFault : s.fault = false
  answered : ∀ n c, s.calls[n]? = some c → s.detached c.feature = false →
    ∃ outcome, IsOutcome outcome ∧ s.answersOf n <+: full outcome ∧
      (s.todo = [] → s.pending n = false → s.answersOf n = full outcome) ∧
      (s.pending n = true → s.answersOf n = [])
  called : ∀ e ∈ s.events, ∀ c, s.calls[e.call]? = some c → s.detached c.feature = false →
    0 < e.answer.id c.ids → e.called = true

/-- The status of a request that its call ends is not positive, and `clear` finds no error. -/
def RightRequest (th : Bool) : StorageRequest → Prop
  | .get key _ ret => th = true → emptyKey key = false → ret ≤ 0
  | .set key value ret => th = true ∧ emptyKey key = false ∧ value ≠ none ∧ ret ≤ 0
  | .clear close init => th = true → close = 0 ∧ init = 0
  | .delete key ret => th = true ∧ emptyKey key = false ∧ ret ≤ 0
  | .key index ret => th = true → 0 ≤ index → ret ≤ 0

def Right (s : Storage) : StorageOp → Prop
  | .call feature th _ request => s.inScript = true → s.detached feature = false → RightRequest th request
  | .callNull feature => ¬ (s.inScript = true ∧ s.detached feature = false)
  | .storageCb call status _ _ =>
    s.inScript = true → s.pending call = true → status ≤ 0 ∧
      ∀ handle, s.handles call = some handle → handle.op = .delete → status ≠ unqliteNotfound
  | _ => True

def Unshared (s : Storage) : StorageOp → Prop
  | .call feature _ ids _ =>
    ∀ n c, s.calls[n]? = some c → c.feature = feature → .removed ∉ s.answersOf n →
      ∀ id ∈ [c.ids.success,c.ids.fail,c.ids.complete], 0 < id → id ∉ [ids.success,ids.fail,ids.complete]
  | _ => True

def expand : StorageAction → List (ℕ × StorageAnswer)
  | .finish call _ _ status msg =>
    [(call,.outcome status msg),(call,.completion status),(call,.removed),(call,.freed)]
  | .invoke call _ _ answer => [(call,answer)]
  | .removeAll call _ _ => [(call,.removed)]
  | .free call => [(call,.freed)]
  | .ret => []

def select (n : ℕ) (answers : List (ℕ × StorageAnswer)) : List StorageAnswer :=
  answers.filterMap (fun a => if a.1 = n then some a.2 else none)

def promised (n : ℕ) : List StorageAnswer := s.answersOf n ++ select n (s.todo.flatMap expand)

section Lists

variable {s}

theorem select_append (n : ℕ) (xs ys : List (ℕ × StorageAnswer)) :
    select n (xs ++ ys) = select n xs ++ select n ys := List.filterMap_append

theorem answersOf_snoc {t : Storage} {e : StorageEvent} (h : t.events = s.events ++ [e]) (n : ℕ) :
    t.answersOf n = s.answersOf n ++ select n [(e.call,e.answer)] := by
  unfold answersOf select
  rw [h,List.filter_append,List.map_append]
  by_cases he : e.call = n <;> simp [he]

theorem full_split {outcome a : StorageAnswer} {xs ys : List StorageAnswer} (ho : IsOutcome outcome)
    (h : full outcome = xs ++ a :: ys) (ha : a ≠ .freed) : .removed ∉ xs := by
  cases outcome with
  | removed => exact ho.elim
  | freed => exact ho.elim
  | complete => exact ho.elim
  | _ =>
    rcases xs with _ | ⟨x,_ | ⟨y,_ | ⟨z,_ | ⟨w,xs⟩⟩⟩⟩ <;> simp [full] at h ⊢ <;> grind

theorem full_count_freed {outcome : StorageAnswer} (ho : IsOutcome outcome) : (full outcome).count .freed = 1 := by
  cases outcome <;> first | rfl | exact ho.elim

theorem full_count_removed {outcome : StorageAnswer} (ho : IsOutcome outcome) :
    (full outcome).count .removed = 1 := by
  cases outcome <;> first | rfl | exact ho.elim

theorem full_outcome_iff (status : ℤ) (msg : Option String) : (∃ outcome, IsOutcome outcome ∧
      [StorageAnswer.outcome status msg,.completion status,.removed,.freed] = full outcome) ↔ status ≤ 0 := by
  unfold StorageAnswer.outcome StorageAnswer.completion
  constructor
  · rintro ⟨outcome,ho,heq⟩
    by_contra hpos
    rw [if_neg (by omega),if_pos (by omega)] at heq
    simp only [full,List.cons.injEq] at heq
    obtain ⟨rfl,heq,_⟩ := heq
    simp at heq
  · intro hle
    by_cases h0 : status = 0
    · subst h0
      exact ⟨.success (msg.getD "success"),trivial,rfl⟩
    · rw [if_neg h0,if_neg (by omega)]
      exact ⟨.fail msg status,trivial,rfl⟩

end Lists

/-- The answers of one run of `finish_callback`. -/
def finishAnswers (r : ℤ × Option String) : List StorageAnswer :=
  [.outcome r.1 r.2,.completion r.1,.removed,.freed]

def EndsOnce (finishes : List (ℤ × Option String)) : Prop :=
  ∃ outcome, IsOutcome outcome ∧ finishes.flatMap finishAnswers = full outcome

theorem endsOnce_singleton (status : ℤ) (msg : Option String) : EndsOnce [(status,msg)] ↔ status ≤ 0 := by
  rw [← full_outcome_iff status msg]
  rfl

theorem endsOnce_checkIf (ret : ℤ) (msg : String) : ret = 0 ∨ EndsOnce (storageCheckIf ret msg) ↔ ret ≤ 0 := by
  unfold storageCheckIf
  by_cases h : ret = 0
  · simp [h]
  · rw [if_pos h,endsOnce_singleton]
    simp [h]

theorem EndsOnce.length_eq {finishes : List (ℤ × Option String)} (h : EndsOnce finishes) : finishes.length = 1 := by
  obtain ⟨outcome,_,heq⟩ := h
  have hlength := congrArg List.length heq
  simp only [List.length_flatMap,finishAnswers,full,List.length_cons,List.length_nil,List.map_const',
    List.sum_replicate] at hlength
  simpa using hlength

theorem start_accepted (th : Bool) (request : StorageRequest) (h : (request.start th).accepted = true) :
    (request.start th).finishes = [] ∧ (request.start th).op ≠ .none := by
  cases request with
  | get key defaultValue ret =>
    simp only [StorageRequest.start,StorageStart.get] at h ⊢
    split_ifs at h ⊢
    · exact Bool.noConfusion h
    · exact Bool.noConfusion h
    · have h : ret = 0 := by simpa using h
      exact ⟨by simp [storageCheckIf,h],nofun⟩
  | set key value ret =>
    simp only [StorageRequest.start,StorageStart.set] at h ⊢
    split_ifs at h ⊢
    · exact Bool.noConfusion h
    · exact Bool.noConfusion h
    · cases value with
      | none => exact Bool.noConfusion h
      | some value =>
        have h : ret = 0 := by simpa using h
        refine ⟨by simp [storageCheckIf,h],?_⟩
        dsimp only
        split_ifs <;> nofun
  | clear close init =>
    simp only [StorageRequest.start,StorageStart.clear] at h
    split_ifs at h
    exact Bool.noConfusion h
  | delete key ret =>
    simp only [StorageRequest.start,StorageStart.delete] at h ⊢
    split_ifs at h ⊢
    · exact Bool.noConfusion h
    · exact Bool.noConfusion h
    · have h : ret = 0 := by simpa using h
      exact ⟨by simp [storageCheckIf,h],nofun⟩
  | key index ret =>
    simp only [StorageRequest.start,StorageStart.key] at h ⊢
    split_ifs at h ⊢
    · exact Bool.noConfusion h
    · exact Bool.noConfusion h
    · next hlt =>
      have h : ret = 0 := by simpa using h
      omega
    · exact ⟨rfl,nofun⟩

/-- A call ends its request once, or the database has it, exactly for the right requests. -/
theorem rightRequest_iff (th : Bool) (request : StorageRequest) : RightRequest th request ↔
    ((request.start th).accepted = true ∨ EndsOnce (request.start th).finishes) := by
  have hfailed : ∀ (status : ℤ) (msg : Option String), ((StorageStart.failed status msg).accepted = true ∨
      EndsOnce (StorageStart.failed status msg).finishes) ↔ status ≤ 0 := by
    intro status msg
    rw [StorageStart.failed,endsOnce_singleton]
    simp
  have hminus : (-1 : ℤ) ≤ 0 := by decide
  have hpos : ¬ (202 : ℤ) ≤ 0 := by decide
  cases request with
  | get key defaultValue ret =>
    simp only [RightRequest,StorageRequest.start,StorageStart.get]
    split_ifs with hth hkey
    · rw [hfailed]
      simp [hth]
    · rw [hfailed]
      simp [hkey]
    · simp only [decide_eq_true_eq,endsOnce_checkIf]
      exact ⟨fun h => h (by simpa using hth) (by simpa using hkey),fun h _ _ => h⟩
  | set key value ret =>
    simp only [RightRequest,StorageRequest.start,StorageStart.set]
    split_ifs with hth hkey
    · rw [hfailed]
      simp [hth]
    · rw [hfailed]
      simp [hkey]
    · cases value with
      | none =>
        dsimp only
        rw [hfailed]
        simp
      | some value =>
        simp only [decide_eq_true_eq,endsOnce_checkIf]
        exact ⟨fun h => h.2.2.2,fun h => ⟨by simpa using hth,by simpa using hkey,nofun,h⟩⟩
  | clear close init =>
    simp only [RightRequest,StorageRequest.start,StorageStart.clear]
    split_ifs with hth
    · rw [hfailed]
      simp [hth]
    · simp only [false_or]
      constructor
      · intro h
        obtain ⟨rfl,rfl⟩ := h (by simpa using hth)
        exact (endsOnce_singleton 0 _).mpr le_rfl
      · intro h _
        have hlength := h.length_eq
        unfold storageCheckIf at hlength
        by_contra hne
        rw [not_and_or] at hne
        rcases hne with hne | hne
        · rw [if_pos hne] at hlength
          simp only [List.length_append,List.length_cons,List.length_nil] at hlength
          omega
        · rw [if_pos hne] at hlength
          simp only [List.length_append,List.length_cons,List.length_nil] at hlength
          omega
  | delete key ret =>
    simp only [RightRequest,StorageRequest.start,StorageStart.delete]
    split_ifs with hth hkey
    · rw [hfailed]
      simp [hth]
    · rw [hfailed]
      simp [hkey]
    · simp only [decide_eq_true_eq,endsOnce_checkIf]
      exact ⟨fun h => h.2.2,fun h => ⟨by simpa using hth,by simpa using hkey,h⟩⟩
  | key index ret =>
    simp only [RightRequest,StorageRequest.start,StorageStart.key]
    split_ifs with hth hindex hlt
    · rw [hfailed]
      simp [hth]
    · rw [hfailed]
      exact iff_of_true (fun _ h => absurd h (by omega)) hminus
    · rw [endsOnce_singleton]
      simp only [decide_eq_true_eq]
      constructor <;> intros <;> omega
    · simp only [decide_eq_true_eq]
      constructor
      · intro h
        exact .inl (le_antisymm (h (by simpa using hth) (by omega)) (by omega))
      · rintro (h | h) _ _
        · omega
        · exact absurd h.length_eq (by simp)

/-- The status that `storage_cb` ends a request with. -/
theorem cbResult_le_iff (handle : StorageHandle) (status : ℤ) (key : String) (value : Option String) :
    (cbResult uvStrerror handle status key value).1 ≤ 0 ↔
      status ≤ 0 ∧ (handle.op = .delete → status ≠ unqliteNotfound) := by
  unfold cbResult
  have hneg : unqliteNotfound ≤ 0 := by decide
  by_cases h1 : status = unqliteNotfound ∧ handle.op = .get
  · rw [if_pos h1]
    refine iff_of_true le_rfl ⟨h1.1 ▸ hneg,fun h => ?_⟩
    rw [h1.2] at h
    exact nomatch h
  · rw [if_neg h1]
    by_cases h2 : status = unqliteNotfound ∧ handle.op = .setToDelete
    · rw [if_pos h2]
      refine iff_of_true le_rfl ⟨h2.1 ▸ hneg,fun h => ?_⟩
      rw [h2.2] at h
      exact nomatch h
    · rw [if_neg h2]
      by_cases h3 : status = 0
      · rw [if_pos h3,h3]
        exact iff_of_true le_rfl ⟨le_rfl,fun _ => by decide⟩
      · rw [if_neg h3]
        dsimp only
        by_cases h4 : status = unqliteNotfound ∧ handle.op = .delete
        · rw [if_pos h4]
          exact iff_of_false (by decide) (fun h => h.2 h4.2 h4.1)
        · rw [if_neg h4]
          exact ⟨fun h => ⟨h,fun hop hstatus => h4 ⟨hstatus,hop⟩⟩,And.left⟩

def Agreed (calls : List StorageCall) : StorageAction → Prop
  | .finish call feature ids _ _ => calls[call]? = some ⟨feature,ids⟩
  | .invoke call feature id answer => ∃ c, calls[call]? = some c ∧ c.feature = feature ∧ id = answer.id c.ids ∧
      answer ≠ .removed ∧ answer ≠ .freed
  | .removeAll call feature ids => calls[call]? = some ⟨feature,ids⟩
  | .free call => call < calls.length
  | .ret => True

/-- The answers to every call, those under way included, are the answers of one outcome. -/
structure Answers (s : Storage) : Prop where
  fresh : ∀ n, s.calls.length ≤ n → s.promised n = [] ∧ s.pending n = false
  waiting : ∀ n, s.pending n = true → s.promised n = []
  promised : ∀ n c, s.calls[n]? = some c → s.detached c.feature = false → s.pending n = false →
    ∃ outcome, IsOutcome outcome ∧ s.promised n = full outcome
  freed_once : ∀ n < s.calls.length, s.pending n = false → (s.promised n).count .freed = 1
  removed_once : ∀ n, (s.promised n).count .removed ≤ 1
  agreed : ∀ action ∈ s.todo, Agreed s.calls action

/-- The handles that are not freed, with what `storage_cb` reads from them. -/
structure Handles (s : Storage) : Prop where
  live : ∀ n < s.calls.length, (s.handles n).isSome ↔ .freed ∉ s.answersOf n
  ids : ∀ n c handle, s.calls[n]? = some c → s.handles n = some handle → s.pending n = true →
    handle.feature = c.feature ∧ handle.ids = c.ids

/-- The callbacks of an unfinished call are registered and its own. -/
structure Deliveries (s : Storage) : Prop where
  registered : ∀ n c, s.calls[n]? = some c → s.detached c.feature = false → .removed ∉ s.answersOf n →
    ∀ id ∈ [c.ids.success,c.ids.fail,c.ids.complete], 0 < id → s.registered c.feature id = true
  disjoint : ∀ n m c d, n ≠ m → s.calls[n]? = some c → s.calls[m]? = some d → c.feature = d.feature →
    .removed ∉ s.answersOf n → .removed ∉ s.answersOf m →
    ∀ id ∈ [c.ids.success,c.ids.fail,c.ids.complete], 0 < id → id ∉ [d.ids.success,d.ids.fail,d.ids.complete]
  called : ∀ e ∈ s.events, ∀ c, s.calls[e.call]? = some c → s.detached c.feature = false →
    0 < e.answer.id c.ids → e.called = true

structure Requests (s : Storage) : Prop where
  noFault : s.fault = false
  answers : s.Answers
  handles : s.Handles
  deliveries : s.Deliveries

namespace Requests

variable {uvStrerror} {s}

theorem completed (hs : s.Requests) : s.Completed where
  noFault := hs.noFault
  answered n c hc hattached := by
    cases hpending : s.pending n with
    | true =>
      have hnil := hs.answers.waiting n hpending
      have hevents : s.answersOf n = [] := (List.append_eq_nil_iff.mp hnil).1
      exact ⟨.success "",trivial,hevents ▸ List.nil_prefix,fun _ h => Bool.noConfusion h,fun _ => hevents⟩
    | false =>
      obtain ⟨outcome,ho,heq⟩ := hs.answers.promised n c hc hattached hpending
      refine ⟨outcome,ho,heq ▸ List.prefix_append _ _,fun htodo _ => ?_,nofun⟩
      rw [← heq,Storage.promised,htodo]
      simp [select]
  called := hs.deliveries.called

end Requests

section Perform

variable {s} {action : StorageAction} {rest : List StorageAction}

variable {t : Storage}

theorem promised_event {e : StorageEvent} (htodo : s.todo = action :: rest)
    (hexpand : expand action = [(e.call,e.answer)]) (hevents : t.events = s.events ++ [e]) (ht : t.todo = rest)
    (n : ℕ) : t.promised n = s.promised n := by
  unfold promised
  rw [answersOf_snoc hevents,ht,htodo,List.flatMap_cons,hexpand,select_append,List.append_assoc]

/-- What is promised stays so, while the instance of a call that ends lives. -/
theorem perform_promised (htodo : s.todo = action :: rest)
    (hattached : ∀ call feature ids status msg, action = .finish call feature ids status msg →
      s.detached feature = false)
    (hfault : ({ s with todo := rest, inScript := false }.perform action).fault = false) (n : ℕ) :
    ({ s with todo := rest, inScript := false }.perform action).promised n = s.promised n := by
  cases action with
  | finish call feature ids status msg =>
    have hlive := hattached call feature ids status msg rfl
    simp only [perform,hlive,Bool.false_eq_true,if_false]
    unfold promised
    rw [htodo]
    rfl
  | invoke call feature id answer => exact promised_event htodo rfl rfl rfl n
  | removeAll call feature ids => exact promised_event htodo rfl rfl rfl n
  | free call =>
    cases hhandle : s.handles call with
    | none =>
      simp only [perform,hhandle] at hfault
      exact Bool.noConfusion hfault
    | some handle =>
      simp only [perform,hhandle]
      exact promised_event htodo rfl rfl rfl n
  | ret =>
    unfold promised
    rw [htodo]
    rfl

theorem Answers.keep (hs : s.Answers) (hcalls : t.calls = s.calls)
    (hdetached : t.detached = s.detached) (hpending : t.pending = s.pending)
    (hpromised : ∀ n, t.promised n = s.promised n) (hagreed : ∀ a ∈ t.todo, Agreed s.calls a) : t.Answers where
  fresh n hn := by
    rw [hcalls] at hn
    rw [hpromised,hpending]
    exact hs.fresh n hn
  waiting n hn := by
    rw [hpending] at hn
    rw [hpromised]
    exact hs.waiting n hn
  promised n c hc hattached hn := by
    rw [hcalls] at hc
    rw [hdetached] at hattached
    rw [hpending] at hn
    rw [hpromised]
    exact hs.promised n c hc hattached hn
  freed_once n hn hp := by
    rw [hcalls] at hn
    rw [hpending] at hp
    rw [hpromised]
    exact hs.freed_once n hn hp
  removed_once n := by
    rw [hpromised]
    exact hs.removed_once n
  agreed a ha := by
    rw [hcalls]
    exact hagreed a ha

theorem Handles.keep (hs : s.Handles) (hcalls : t.calls = s.calls) (hhandles : t.handles = s.handles)
    (hpending : t.pending = s.pending) (hfreed : ∀ n, .freed ∈ t.answersOf n ↔ .freed ∈ s.answersOf n) :
    t.Handles where
  live n hn := by
    rw [hcalls] at hn
    rw [hhandles,hfreed]
    exact hs.live n hn
  ids n c handle hc hhandle hp := by
    rw [hcalls] at hc
    rw [hhandles] at hhandle
    rw [hpending] at hp
    exact hs.ids n c handle hc hhandle hp

theorem Deliveries.keep (hs : s.Deliveries) (hcalls : t.calls = s.calls)
    (hdetached : t.detached = s.detached) (hregistered : t.registered = s.registered)
    (hremoved : ∀ n, .removed ∈ t.answersOf n ↔ .removed ∈ s.answersOf n)
    (hcalled : ∀ e ∈ t.events, e ∈ s.events ∨ ∀ c, s.calls[e.call]? = some c → s.detached c.feature = false →
      0 < e.answer.id c.ids → e.called = true) : t.Deliveries where
  registered n c hc hattached hn := by
    rw [hcalls] at hc
    rw [hdetached] at hattached
    rw [hremoved] at hn
    rw [hregistered]
    exact hs.registered n c hc hattached hn
  disjoint n m c d hne hc hd hfeature hn hm := by
    rw [hcalls] at hc hd
    rw [hremoved] at hn hm
    exact hs.disjoint n m c d hne hc hd hfeature hn hm
  called e he c hc hattached hpos := by
    rw [hcalls] at hc
    rw [hdetached] at hattached
    rcases hcalled e he with hold | hnew
    · exact hs.called e hold c hc hattached hpos
    · exact hnew c hc hattached hpos

theorem mem_answersOf_snoc {e : StorageEvent} (h : t.events = s.events ++ [e]) (n : ℕ)
    (a : StorageAnswer) : a ∈ t.answersOf n ↔ a ∈ s.answersOf n ∨ (e.call = n ∧ e.answer = a) := by
  rw [answersOf_snoc h,List.mem_append]
  unfold select
  by_cases he : e.call = n
  · simp [he,eq_comm]
  · simp [he]

namespace Requests

theorem agreed_head (hs : s.Requests) (htodo : s.todo = action :: rest) :
    Agreed s.calls action ∧ ∀ a ∈ rest, Agreed s.calls a :=
  ⟨hs.answers.agreed action (htodo ▸ List.mem_cons_self),
    fun a ha => hs.answers.agreed a (htodo ▸ List.mem_cons_of_mem _ ha)⟩

variable {call feature : ℕ}

theorem perform_finish {ids : CallbackIds} {status : ℤ} {msg : Option String}
    (hs : s.Requests) (htodo : s.todo = .finish call feature ids status msg :: rest) :
    ({ s with todo := rest, inScript := false }.perform (.finish call feature ids status msg)).Requests := by
  obtain ⟨hagreed,hrest⟩ := hs.agreed_head htodo
  by_cases hdetached : s.detached feature = true
  · -- nobody is told, and the handle is freed
    simp only [perform,hdetached,if_true]
    have hexpand : ∀ n, s.promised n = s.answersOf n ++ (select n (expand (.finish call feature ids status msg)) ++
        select n (rest.flatMap expand)) := by
      intro n
      unfold promised
      rw [htodo,List.flatMap_cons,select_append]
    have hpromised : ∀ n, n ≠ call →
        Storage.promised { s with todo := .free call :: rest, inScript := false } n = s.promised n := by
      intro n hn
      rw [hexpand]
      unfold promised
      simp [expand,select,Ne.symm hn,answersOf]
    have hcall : Storage.promised { s with todo := .free call :: rest, inScript := false } call =
        s.answersOf call ++ (.freed :: select call (rest.flatMap expand)) := by
      unfold promised
      simp [expand,select,answersOf]
    have hold : s.promised call = s.answersOf call ++ ([.outcome status msg,.completion status,.removed,.freed] ++
        select call (rest.flatMap expand)) := by
      rw [hexpand]
      simp [expand,select]
    have hnofreed : ∀ a : StorageAnswer, a = .outcome status msg ∨ a = .completion status → a ≠ .freed := by
      rintro a (rfl | rfl)
      · unfold StorageAnswer.outcome
        split_ifs <;> nofun
      · nofun
    have hlt : call < s.calls.length := (List.getElem?_eq_some_iff.mp hagreed).1
    have hidle : s.pending call = false := by
      by_contra hp
      have hnil := hs.answers.waiting call (by simpa using hp)
      rw [hold] at hnil
      simp at hnil
    refine ⟨hs.noFault,⟨fun n hn => ?_,fun n hn => ?_,fun n c hc hattached hn => ?_,fun n hn hp => ?_,fun n => ?_,
      fun a ha => ?_⟩,hs.handles.keep rfl rfl rfl (fun _ => Iff.rfl),
      hs.deliveries.keep rfl rfl rfl (fun _ => Iff.rfl) (fun e he => .inl he)⟩
    · have hne : n ≠ call := fun h => absurd hlt (not_lt.mpr (h ▸ hn))
      rw [hpromised n hne]
      exact hs.answers.fresh n hn
    · have hne : n ≠ call := by
        rintro rfl
        rw [hidle] at hn
        exact Bool.noConfusion hn
      rw [hpromised n hne]
      exact hs.answers.waiting n hn
    · have hne : n ≠ call := by
        rintro rfl
        rw [hagreed] at hc
        obtain rfl := Option.some.inj hc
        rw [hdetached] at hattached
        exact Bool.noConfusion hattached
      rw [hpromised n hne]
      exact hs.answers.promised n c hc hattached hn
    · have hcount := hs.answers.freed_once n hn hp
      by_cases hne : n = call
      · subst hne
        rw [hold] at hcount
        rw [hcall]
        have h1 := hnofreed _ (.inl rfl)
        have h2 := hnofreed _ (.inr rfl)
        simpa [List.count_append,List.count_cons,h1,h2] using hcount
      · rw [hpromised n hne]
        exact hcount
    · have hcount := hs.answers.removed_once n
      by_cases hne : n = call
      · subst hne
        rw [hold] at hcount
        rw [hcall]
        simp only [List.count_append,List.count_cons] at hcount ⊢
        simp only [List.count_nil] at hcount
        simp
        omega
      · rw [hpromised n hne]
        exact hcount
    · rcases List.mem_cons.mp ha with rfl | ha
      · exact hlt
      · exact hrest a ha
  · have hattached : s.detached feature = false := by simpa using hdetached
    have hpromised := perform_promised htodo (fun _ _ _ _ _ heq => by cases heq; exact hattached)
      (by simp only [perform,hattached]; exact hs.noFault)
    simp only [perform,hattached,Bool.false_eq_true,if_false] at hpromised ⊢
    refine ⟨hs.noFault,hs.answers.keep rfl rfl rfl hpromised (fun a ha => ?_),
      hs.handles.keep rfl rfl rfl (fun _ => Iff.rfl),
      hs.deliveries.keep rfl rfl rfl (fun _ => Iff.rfl) (fun e he => .inl he)⟩
    simp only [List.cons_append,List.nil_append,List.mem_cons] at ha
    rcases ha with rfl | rfl | rfl | rfl | ha
    · refine ⟨_,hagreed,rfl,rfl,?_,?_⟩
      · unfold StorageAnswer.outcome
        split_ifs <;> nofun
      · unfold StorageAnswer.outcome
        split_ifs <;> nofun
    · exact ⟨_,hagreed,rfl,rfl,nofun,nofun⟩
    · exact hagreed
    · exact (List.getElem?_eq_some_iff.mp hagreed).1
    · exact hrest a ha

theorem perform_invoke {id : ℤ} {answer : StorageAnswer} (hs : s.Requests)
    (htodo : s.todo = .invoke call feature id answer :: rest) :
    ({ s with todo := rest, inScript := false }.perform (.invoke call feature id answer)).Requests := by
  obtain ⟨⟨c,hc,hfeature,hid,hremoved,hfreed⟩,hrest⟩ := hs.agreed_head htodo
  have hpromised := perform_promised htodo (fun _ _ _ _ _ heq => nomatch heq) hs.noFault
  have hmem := mem_answersOf_snoc (s := s)
    (t := { s with todo := rest, inScript := false }.perform (.invoke call feature id answer)) rfl
  refine ⟨hs.noFault,hs.answers.keep rfl rfl rfl hpromised hrest,
    hs.handles.keep rfl rfl rfl (fun n => ?_),hs.deliveries.keep rfl rfl rfl (fun n => ?_) (fun e he => ?_)⟩
  · rw [hmem]
    simp [hfreed]
  · rw [hmem]
    simp [hremoved]
  · rcases List.mem_append.mp he with he | he
    · exact .inl he
    · refine .inr (fun d hd hattached hpos => ?_)
      obtain rfl := List.mem_singleton.mp he
      obtain rfl := Option.some.inj (hc.symm.trans hd)
      -- the callbacks of the call are not removed before it is told
      have hidle : s.pending call = false := by
        by_contra hp
        have hnil := hs.answers.waiting call (by simpa using hp)
        unfold promised at hnil
        rw [htodo] at hnil
        simp [expand,select] at hnil
      obtain ⟨outcome,ho,hfull⟩ := hs.answers.promised call c hc hattached hidle
      unfold promised at hfull
      rw [htodo,List.flatMap_cons,select_append] at hfull
      simp only [expand,select,List.filterMap_cons,List.filterMap_nil,if_true,List.singleton_append] at hfull
      have hnot := full_split ho hfull.symm hfreed
      rw [← hfeature,hid]
      refine hs.deliveries.registered call c hc hattached hnot _ ?_ hpos
      cases answer with
      | success => simp [StorageAnswer.id]
      | fail => simp [StorageAnswer.id]
      | complete => simp [StorageAnswer.id]
      | removed => exact absurd rfl hremoved
      | freed => exact absurd rfl hfreed

theorem not_removed (hs : s.Requests) {call : ℕ} (hmem : .removed ∈ select call (s.todo.flatMap expand)) :
    .removed ∉ s.answersOf call := by
  intro hold
  have hcount := hs.answers.removed_once call
  have h1 := List.count_pos_iff.mpr hmem
  have h2 := List.count_pos_iff.mpr hold
  rw [promised,List.count_append] at hcount
  omega

theorem perform_removeAll {ids : CallbackIds} (hs : s.Requests)
    (htodo : s.todo = .removeAll call feature ids :: rest) :
    ({ s with todo := rest, inScript := false }.perform (.removeAll call feature ids)).Requests := by
  obtain ⟨hagreed,hrest⟩ := hs.agreed_head htodo
  have hpromised := perform_promised htodo (fun _ _ _ _ _ heq => nomatch heq) hs.noFault
  have hmem := mem_answersOf_snoc (s := s)
    (t := { s with todo := rest, inScript := false }.perform (.removeAll call feature ids)) rfl
  have hbefore : .removed ∉ s.answersOf call := by
    apply hs.not_removed
    rw [htodo]
    simp [expand,select]
  refine ⟨hs.noFault,hs.answers.keep rfl rfl rfl hpromised hrest,
    hs.handles.keep rfl rfl rfl (fun n => ?_),⟨fun n c hc hattached hn id hid hpos => ?_,
      fun n m c d hne hc hd hfeature hn hm => ?_,fun e he c hc hattached hpos => ?_⟩⟩
  · rw [hmem]
    simp
  · rw [hmem,not_or] at hn
    have hne : n ≠ call := fun h => hn.2 ⟨h.symm,rfl⟩
    have hold := hs.deliveries.registered n c hc hattached hn.1 id hid hpos
    simp only [perform]
    by_cases hfeature : c.feature = feature
    · have hother := hs.deliveries.disjoint n call c _ hne hc hagreed hfeature hn.1 hbefore id hid hpos
      simp only [List.mem_cons,List.not_mem_nil,or_false,not_or] at hother
      rw [hfeature] at hold ⊢
      rw [Function.update_self,hold]
      simp [hother]
    · rw [Function.update_of_ne hfeature]
      exact hold
  · rw [hmem,not_or] at hn hm
    exact hs.deliveries.disjoint n m c d hne hc hd hfeature hn.1 hm.1
  · rcases List.mem_append.mp he with he | he
    · exact hs.deliveries.called e he c hc hattached hpos
    · obtain rfl := List.mem_singleton.mp he
      rfl

theorem perform_free {call : ℕ} (hs : s.Requests) (htodo : s.todo = .free call :: rest) :
    ({ s with todo := rest, inScript := false }.perform (.free call)).Requests := by
  obtain ⟨hlt,hrest⟩ := hs.agreed_head htodo
  have hlt : call < s.calls.length := hlt
  have hselect : .freed ∈ select call (s.todo.flatMap expand) := by
    rw [htodo]
    simp [expand,select]
  have hidle : s.pending call = false := by
    by_contra hp
    have hnil := hs.answers.waiting call (by simpa using hp)
    rw [promised,List.append_eq_nil_iff] at hnil
    rw [hnil.2] at hselect
    exact absurd hselect List.not_mem_nil
  have hbefore : .freed ∉ s.answersOf call := by
    intro hold
    have hcount := hs.answers.freed_once call hlt hidle
    have h1 := List.count_pos_iff.mpr hselect
    have h2 := List.count_pos_iff.mpr hold
    rw [promised,List.count_append] at hcount
    omega
  obtain ⟨handle,hhandle⟩ := Option.isSome_iff_exists.mp ((hs.handles.live call hlt).mpr hbefore)
  have hperform : { s with todo := rest, inScript := false }.perform (.free call) = { s with
      todo := rest
      inScript := false
      handles := Function.update s.handles call none
      events := s.events ++ [⟨call,.freed,true⟩] } := by
    simp only [perform,hhandle]
  have hpromised := perform_promised htodo (fun _ _ _ _ _ heq => nomatch heq)
    (by rw [hperform]; exact hs.noFault)
  rw [hperform] at hpromised ⊢
  have hmem := mem_answersOf_snoc (s := s) (e := ⟨call,.freed,true⟩) (t := { s with
      todo := rest
      inScript := false
      handles := Function.update s.handles call none
      events := s.events ++ [⟨call,.freed,true⟩] }) rfl
  refine ⟨hs.noFault,hs.answers.keep rfl rfl rfl hpromised hrest,⟨fun n hn => ?_,fun n c h hc hh hp => ?_⟩,
    hs.deliveries.keep rfl rfl rfl (fun n => ?_) (fun e he => ?_)⟩
  · rw [hmem]
    by_cases hne : n = call
    · subst hne
      simp
    · dsimp only at hn ⊢
      rw [Function.update_of_ne hne,hs.handles.live n hn]
      simp [Ne.symm hne]
  · have hne : n ≠ call := by
      rintro rfl
      rw [hidle] at hp
      exact Bool.noConfusion hp
    dsimp only at hh
    rw [Function.update_of_ne hne] at hh
    exact hs.handles.ids n c h hc hh hp
  · rw [hmem]
    simp
  · rcases List.mem_append.mp he with he | he
    · exact .inl he
    · obtain rfl := List.mem_singleton.mp he
      exact .inr (fun _ _ _ _ => rfl)

theorem next (hs : s.Requests) : s.next.Requests := by
  unfold Storage.next
  cases htodo : s.todo with
  | nil => exact hs
  | cons action rest =>
    cases action with
    | finish call feature ids status msg => exact hs.perform_finish htodo
    | invoke call feature id answer => exact hs.perform_invoke htodo
    | removeAll call feature ids => exact hs.perform_removeAll htodo
    | free call => exact hs.perform_free htodo
    | ret =>
      have hpromised := perform_promised htodo (fun _ _ _ _ _ heq => nomatch heq) hs.noFault
      exact ⟨hs.noFault,hs.answers.keep rfl rfl rfl hpromised (hs.agreed_head htodo).2,
        hs.handles.keep rfl rfl rfl (fun _ => Iff.rfl),
        hs.deliveries.keep rfl rfl rfl (fun _ => Iff.rfl) (fun e he => .inl he)⟩

end Requests

end Perform

section Start

variable {s}

theorem select_finishes (n call feature : ℕ) (ids : CallbackIds) (finishes : List (ℤ × Option String)) :
    select n ((finishes.map (fun r => StorageAction.finish call feature ids r.1 r.2)).flatMap expand) =
      if n = call then finishes.flatMap finishAnswers else [] := by
  induction finishes with
  | nil => simp [select]
  | cons r finishes ih =>
    rw [List.map_cons,List.flatMap_cons,select_append,ih,List.flatMap_cons]
    by_cases hn : n = call
    · simp [hn,expand,select,finishAnswers]
    · simp [hn,Ne.symm hn,expand,select]

theorem promised_startCall (feature : ℕ) (ids : CallbackIds) (start : StorageStart) (n : ℕ) :
    (s.startCall feature ids start).promised n =
      s.answersOf n ++ ((if n = s.calls.length then start.finishes.flatMap finishAnswers else []) ++
        select n (s.todo.flatMap expand)) := by
  unfold promised
  have htodo : (s.startCall feature ids start).todo =
      start.finishes.map (fun r => .finish s.calls.length feature ids r.1 r.2) ++ .ret :: s.todo := rfl
  rw [htodo,List.flatMap_append,select_append,select_finishes,List.flatMap_cons]
  rfl

theorem promised_startCall_of_ne (feature : ℕ) (ids : CallbackIds) (start : StorageStart) {n : ℕ}
    (hn : n ≠ s.calls.length) : (s.startCall feature ids start).promised n = s.promised n := by
  rw [promised_startCall,if_neg hn,List.nil_append]
  rfl

theorem promised_storageCb {call : ℕ} {handle : StorageHandle} (hhandle : s.handles call = some handle)
    (status : ℤ) (key : String) (value : Option String) (n : ℕ) :
    (s.storageCb uvStrerror call status key value).promised n =
      s.answersOf n ++ ((if n = call then finishAnswers (cbResult uvStrerror handle status key value) else []) ++
        select n (s.todo.flatMap expand)) := by
  unfold Storage.storageCb
  rw [hhandle]
  unfold promised
  simp only [List.flatMap_cons,select_append]
  by_cases hn : n = call
  · simp [hn,expand,select,finishAnswers,answersOf]
  · simp [hn,Ne.symm hn,expand,select,answersOf]

theorem promised_storageCb_of_ne {call : ℕ} {handle : StorageHandle} (hhandle : s.handles call = some handle)
    (status : ℤ) (key : String) (value : Option String) {n : ℕ} (hn : n ≠ call) :
    (s.storageCb uvStrerror call status key value).promised n = s.promised n := by
  rw [promised_storageCb uvStrerror hhandle,if_neg hn,List.nil_append]
  rfl

namespace Requests

theorem promised_new (hs : s.Requests) (feature : ℕ) (ids : CallbackIds) (start : StorageStart) :
    (s.startCall feature ids start).promised s.calls.length = start.finishes.flatMap finishAnswers := by
  have hnil := (hs.answers.fresh s.calls.length le_rfl).1
  rw [promised,List.append_eq_nil_iff] at hnil
  rw [promised_startCall,if_pos rfl,hnil.1,hnil.2]
  simp

theorem startCall_cases (s : Storage) {feature : ℕ} {ids : CallbackIds} {start : StorageStart} {n : ℕ} {c : StorageCall}
    (hc : (s.startCall feature ids start).calls[n]? = some c) :
    (n = s.calls.length ∧ c = ⟨feature,ids⟩) ∨ (n ≠ s.calls.length ∧ s.calls[n]? = some c) := by
  change (s.calls ++ [⟨feature,ids⟩])[n]? = some c at hc
  rw [List.getElem?_append] at hc
  split_ifs at hc with hlt
  · exact .inr ⟨by omega,hc⟩
  · rw [List.getElem?_singleton] at hc
    split_ifs at hc with h0
    exact .inl ⟨by omega,(Option.some.inj hc).symm⟩

theorem answersOf_new (hs : s.Requests) : s.answersOf s.calls.length = [] :=
  (List.append_eq_nil_iff.mp (hs.answers.fresh s.calls.length le_rfl).1).1

section StartCall

variable {feature : ℕ} {ids : CallbackIds} {start : StorageStart}

/-- The new call ends once where the storage refuses it, and the others are not concerned. -/
theorem startCall_answers (hs : s.Requests) (haccepted : start.accepted = true → start.finishes = [])
    (hends : start.accepted = false → EndsOnce start.finishes) : (s.startCall feature ids start).Answers := by
  have hnew := hs.promised_new feature ids start
  have hold : ∀ n, n ≠ s.calls.length → (s.startCall feature ids start).promised n = s.promised n :=
    fun n hn => promised_startCall_of_ne feature ids start hn
  have hcalls : (s.startCall feature ids start).calls = s.calls ++ [⟨feature,ids⟩] := rfl
  have hpending : (s.startCall feature ids start).pending =
      Function.update s.pending s.calls.length start.accepted := rfl
  refine ⟨fun n hn => ?_,fun n hn => ?_,fun n c hc hattached hn => ?_,fun n hn hp => ?_,fun n => ?_,fun a ha => ?_⟩
  · rw [hcalls,List.length_append,List.length_singleton] at hn
    have hne : n ≠ s.calls.length := by omega
    rw [hold n hne,hpending,Function.update_of_ne hne]
    exact hs.answers.fresh n (by omega)
  · rw [hpending] at hn
    by_cases hne : n = s.calls.length
    · subst hne
      rw [Function.update_self] at hn
      rw [hnew,haccepted hn]
      rfl
    · rw [Function.update_of_ne hne] at hn
      rw [hold n hne]
      exact hs.answers.waiting n hn
  · rw [hpending] at hn
    rcases startCall_cases s hc with ⟨rfl,rfl⟩ | ⟨hne,hc⟩
    · rw [Function.update_self] at hn
      rw [hnew]
      exact hends hn
    · rw [Function.update_of_ne hne] at hn
      rw [hold n hne]
      exact hs.answers.promised n c hc hattached hn
  · rw [hpending] at hp
    rw [hcalls,List.length_append,List.length_singleton] at hn
    by_cases hne : n = s.calls.length
    · subst hne
      rw [Function.update_self] at hp
      obtain ⟨outcome,ho,heq⟩ := hends hp
      rw [hnew,heq,full_count_freed ho]
    · rw [Function.update_of_ne hne] at hp
      rw [hold n hne]
      exact hs.answers.freed_once n (by omega) hp
  · by_cases hne : n = s.calls.length
    · subst hne
      rw [hnew]
      cases haccept : start.accepted with
      | true =>
        rw [haccepted haccept]
        simp
      | false =>
        obtain ⟨outcome,ho,heq⟩ := hends haccept
        rw [heq,full_count_removed ho]
    · rw [hold n hne]
      exact hs.answers.removed_once n
  · have hlast : s.calls.length < (s.calls ++ [(⟨feature,ids⟩ : StorageCall)]).length := by simp
    have hweaken : ∀ a, Agreed s.calls a → Agreed (s.calls ++ [⟨feature,ids⟩]) a := by
      intro a ha
      have hkeep : ∀ {n : ℕ} {c : StorageCall}, s.calls[n]? = some c → (s.calls ++ [⟨feature,ids⟩])[n]? = some c := by
        intro n c hc
        rw [List.getElem?_append_left (List.getElem?_eq_some_iff.mp hc).1]
        exact hc
      cases a with
      | finish => exact hkeep ha
      | invoke =>
        obtain ⟨c,hc,hrest⟩ := ha
        exact ⟨c,hkeep hc,hrest⟩
      | removeAll => exact hkeep ha
      | free call => exact Nat.lt_of_lt_of_le ha (by simp)
      | ret => trivial
    rcases List.mem_append.mp ha with ha | ha
    · obtain ⟨r,_,rfl⟩ := List.mem_map.mp ha
      exact List.getElem?_concat_length
    · rcases List.mem_cons.mp ha with rfl | ha
      · trivial
      · exact hweaken a (hs.answers.agreed a ha)

theorem startCall_handles (hs : s.Requests) (haccepted : start.accepted = true → start.op ≠ .none) :
    (s.startCall feature ids start).Handles := by
  have hcalls : (s.startCall feature ids start).calls = s.calls ++ [⟨feature,ids⟩] := rfl
  have hpending : (s.startCall feature ids start).pending =
      Function.update s.pending s.calls.length start.accepted := rfl
  refine ⟨fun n hn => ?_,fun n c h hc hh hp => ?_⟩
  · rw [hcalls,List.length_append,List.length_singleton] at hn
    change (Function.update s.handles s.calls.length _ n).isSome = true ↔ .freed ∉ s.answersOf n
    by_cases hne : n = s.calls.length
    · subst hne
      simp [hs.answersOf_new]
    · rw [Function.update_of_ne hne]
      exact hs.handles.live n (by omega)
  · rw [hpending] at hp
    change Function.update s.handles s.calls.length _ n = some h at hh
    rcases startCall_cases s hc with ⟨rfl,rfl⟩ | ⟨hne,hc⟩
    · rw [Function.update_self] at hp hh
      obtain rfl := Option.some.inj hh
      simp [haccepted hp]
    · rw [Function.update_of_ne hne] at hp hh
      exact hs.handles.ids n c h hc hh hp

/-- The new call brings no callback that another one of its instance still needs. -/
theorem startCall_deliveries (hs : s.Requests)
    (hunshared : ∀ n c, s.calls[n]? = some c → c.feature = feature → .removed ∉ s.answersOf n →
      ∀ id ∈ [c.ids.success,c.ids.fail,c.ids.complete], 0 < id → id ∉ [ids.success,ids.fail,ids.complete]) :
    (s.startCall feature ids start).Deliveries := by
  refine ⟨fun n c hc hattached hn id hid hpos => ?_,fun n m c d hne hc hd hfeature hn hm => ?_,
    fun e he c hc hattached hpos => ?_⟩
  · change .removed ∉ s.answersOf n at hn
    change Function.update s.registered feature _ c.feature id = true
    rcases startCall_cases s hc with ⟨rfl,rfl⟩ | ⟨hne,hc⟩
    · simp only [List.mem_cons,List.not_mem_nil,or_false] at hid
      rw [Function.update_self]
      rcases hid with rfl | rfl | rfl <;> simp [hpos]
    · have hreg := hs.deliveries.registered n c hc hattached hn id hid hpos
      by_cases hfeature : c.feature = feature
      · rw [hfeature] at hreg ⊢
        rw [Function.update_self,hreg,Bool.true_or]
      · rw [Function.update_of_ne hfeature]
        exact hreg
  · change .removed ∉ s.answersOf n at hn
    change .removed ∉ s.answersOf m at hm
    rcases startCall_cases s hc with ⟨rfl,rfl⟩ | ⟨hn',hc⟩
    · rcases startCall_cases s hd with ⟨rfl,rfl⟩ | ⟨hm',hd⟩
      · exact absurd rfl hne
      · intro id hid hpos hmem
        exact hunshared m d hd hfeature.symm hm id hmem hpos hid
    · rcases startCall_cases s hd with ⟨rfl,rfl⟩ | ⟨hm',hd⟩
      · exact hunshared n c hc hfeature hn
      · exact hs.deliveries.disjoint n m c d hne hc hd hfeature hn hm
  · change e ∈ s.events at he
    rcases startCall_cases s hc with ⟨hnew',_⟩ | ⟨_,hc⟩
    · have hmem : e.answer ∈ s.answersOf s.calls.length := by
        unfold answersOf
        exact List.mem_map_of_mem (List.mem_filter.mpr ⟨he,by simpa using hnew'⟩)
      rw [hs.answersOf_new] at hmem
      exact absurd hmem List.not_mem_nil
    · exact hs.deliveries.called e he c hc hattached hpos

theorem startCall (hs : s.Requests) (haccepted : start.accepted = true → start.finishes = [] ∧ start.op ≠ .none)
    (hends : start.accepted = false → EndsOnce start.finishes)
    (hunshared : ∀ n c, s.calls[n]? = some c → c.feature = feature → .removed ∉ s.answersOf n →
      ∀ id ∈ [c.ids.success,c.ids.fail,c.ids.complete], 0 < id → id ∉ [ids.success,ids.fail,ids.complete]) :
    (s.startCall feature ids start).Requests :=
  ⟨hs.noFault,hs.startCall_answers (fun h => (haccepted h).1) hends,hs.startCall_handles (fun h => (haccepted h).2),
    hs.startCall_deliveries hunshared⟩

end StartCall

theorem storageCb (hs : s.Requests) {call : ℕ} {status : ℤ} {key : String} {value : Option String}
    (hpending : s.pending call = true)
    (hstatus : status ≤ 0 ∧ ∀ handle, s.handles call = some handle → handle.op = .delete → status ≠ unqliteNotfound) :
    (s.storageCb uvStrerror call status key value).Requests := by
  have hlt : call < s.calls.length := by
    by_contra hge
    rw [(hs.answers.fresh call (by omega)).2] at hpending
    exact Bool.noConfusion hpending
  obtain ⟨c,hc⟩ : ∃ c, s.calls[call]? = some c := ⟨_,List.getElem?_eq_getElem hlt⟩
  have hnil := hs.answers.waiting call hpending
  rw [promised,List.append_eq_nil_iff] at hnil
  have hlive : .freed ∉ s.answersOf call := by simp [hnil.1]
  obtain ⟨handle,hhandle⟩ := Option.isSome_iff_exists.mp ((hs.handles.live call hlt).mpr hlive)
  obtain ⟨hfeature,hids⟩ := hs.handles.ids call c handle hc hhandle hpending
  have hold : ∀ n, n ≠ call → (s.storageCb uvStrerror call status key value).promised n = s.promised n :=
    fun n hn => promised_storageCb_of_ne uvStrerror hhandle status key value hn
  have hnew : (s.storageCb uvStrerror call status key value).promised call =
      finishAnswers (cbResult uvStrerror handle status key value) := by
    rw [promised_storageCb uvStrerror hhandle,if_pos rfl,hnil.1,hnil.2]
    simp
  have hends : EndsOnce [cbResult uvStrerror handle status key value] :=
    (endsOnce_singleton _ _).mpr ((cbResult_le_iff uvStrerror handle status key value).mpr
      ⟨hstatus.1,hstatus.2 handle hhandle⟩)
  obtain ⟨outcome,ho,heq⟩ := hends
  have heq : finishAnswers (cbResult uvStrerror handle status key value) = full outcome := by
    rw [← heq]
    simp
  rw [heq] at hnew
  have hstate : s.storageCb uvStrerror call status key value = { s with
      pending := Function.update s.pending call false
      inScript := false
      todo := .finish call handle.feature handle.ids (cbResult uvStrerror handle status key value).1
        (cbResult uvStrerror handle status key value).2 :: .ret :: s.todo } := by
    unfold Storage.storageCb
    rw [hhandle]
  have hupdate : ∀ n, (s.storageCb uvStrerror call status key value).pending n =
      if n = call then false else s.pending n := by
    intro n
    rw [hstate]
    simp only [Function.update_apply]
  have hcalls : (s.storageCb uvStrerror call status key value).calls = s.calls := by rw [hstate]
  refine ⟨?_,⟨fun n hn => ?_,fun n hn => ?_,fun n d hd hattached hn => ?_,fun n hn hp => ?_,fun n => ?_,
    fun a ha => ?_⟩,?_,?_⟩
  · rw [hstate]
    exact hs.noFault
  · rw [hcalls] at hn
    have hne : n ≠ call := by omega
    rw [hold n hne,hupdate,if_neg hne]
    exact hs.answers.fresh n hn
  · rw [hupdate] at hn
    split_ifs at hn with hne
    rw [hold n hne]
    exact hs.answers.waiting n hn
  · rw [hupdate] at hn
    by_cases hne : n = call
    · subst hne
      exact ⟨outcome,ho,hnew⟩
    · rw [if_neg hne] at hn
      rw [hold n hne]
      rw [hcalls] at hd
      refine hs.answers.promised n d hd ?_ hn
      rw [hstate] at hattached
      exact hattached
  · rw [hupdate] at hp
    rw [hcalls] at hn
    by_cases hne : n = call
    · subst hne
      rw [hnew,full_count_freed ho]
    · rw [if_neg hne] at hp
      rw [hold n hne]
      exact hs.answers.freed_once n hn hp
  · by_cases hne : n = call
    · subst hne
      rw [hnew,full_count_removed ho]
    · rw [hold n hne]
      exact hs.answers.removed_once n
  · rw [hcalls]
    rw [hstate] at ha
    rcases List.mem_cons.mp ha with rfl | ha
    · change s.calls[call]? = some ⟨handle.feature,handle.ids⟩
      rw [hc,hfeature,hids]
    · rcases List.mem_cons.mp ha with rfl | ha
      · trivial
      · exact hs.answers.agreed a ha
  · rw [hstate]
    refine ⟨hs.handles.live,fun n d h hd hh hp => hs.handles.ids n d h hd hh ?_⟩
    dsimp only at hp
    rw [Function.update_apply] at hp
    split_ifs at hp
    exact hp
  · rw [hstate]
    exact hs.deliveries.keep rfl rfl rfl (fun _ => Iff.rfl) (fun e he => .inl he)

end Requests

end Start

namespace Requests

variable {s}

theorem init : Requests {} where
  noFault := rfl
  answers := ⟨fun _ _ => ⟨rfl,rfl⟩,fun _ h => Bool.noConfusion h,fun n c h => by simp at h,
    fun n h => absurd h (Nat.not_lt_zero n),fun _ => Nat.zero_le _,fun a h => absurd h List.not_mem_nil⟩
  handles := ⟨fun n h => absurd h (Nat.not_lt_zero n),fun n c h hc => by simp at hc⟩
  deliveries := ⟨fun n c h => by simp at h,fun n m c d _ h => by simp at h,fun e h => absurd h List.not_mem_nil⟩

theorem detach (hs : s.Requests) (feature : ℕ) : Requests { s with
    detached := Function.update s.detached feature true
    registered := Function.update s.registered feature (fun _ => false) } := by
  have hattached : ∀ f, Function.update s.detached feature true f = false → f ≠ feature ∧ s.detached f = false := by
    intro f hf
    rw [Function.update_apply] at hf
    split_ifs at hf with h
    exact ⟨h,hf⟩
  refine ⟨hs.noFault,⟨hs.answers.fresh,hs.answers.waiting,fun n c hc hf => ?_,hs.answers.freed_once,
    hs.answers.removed_once,hs.answers.agreed⟩,⟨hs.handles.live,hs.handles.ids⟩,⟨fun n c hc hf hn id hid hpos => ?_,
    hs.deliveries.disjoint,fun e he c hc hf => ?_⟩⟩
  · exact hs.answers.promised n c hc (hattached c.feature hf).2
  · obtain ⟨hne,hf⟩ := hattached c.feature hf
    dsimp only
    rw [Function.update_of_ne hne]
    exact hs.deliveries.registered n c hc hf hn id hid hpos
  · exact hs.deliveries.called e he c hc (hattached c.feature hf).2

theorem step (hs : s.Requests) (op : StorageOp) (hunshared : s.Unshared op) (hright : s.Right op) :
    (s.step uvStrerror op).Requests := by
  unfold Storage.step
  rw [if_neg (by simp [hs.noFault])]
  cases op with
  | call feature th ids request =>
    dsimp only
    split_ifs with h
    · refine hs.startCall (start_accepted th request) (fun hnot => ?_) hunshared
      refine ((rightRequest_iff th request).mp (hright h.1 h.2)).resolve_left (fun haccepted => ?_)
      rw [hnot] at haccepted
      exact Bool.noConfusion haccepted
    · exact hs
  | callNull feature =>
    dsimp only
    rw [if_neg hright]
    exact hs
  | storageCb call status key value =>
    dsimp only
    split_ifs with h
    · exact hs.storageCb uvStrerror h.2 (hright h.1 h.2)
    · exact hs
  | detach feature =>
    dsimp only
    split_ifs
    · exact hs.detach feature
    · exact hs
  | next => exact hs.next

end Requests

def Doomed (s : Storage) : Prop :=
  s.fault = true ∨ (∃ feature, s.detached feature = true) ∨
    ∃ n c, s.calls[n]? = some c ∧ s.pending n = false ∧ ¬ ∃ outcome, IsOutcome outcome ∧ s.promised n = full outcome

def Settled (s : Storage) : Prop := s.todo = [] ∧ ∀ feature, s.detached feature = false

section Doom

variable {s}

theorem Completed.not_doomed (hs : s.Completed) (hend : s.Settled) : ¬ s.Doomed := by
  rintro (h | ⟨feature,h⟩ | ⟨n,c,hc,hpending,hnone⟩)
  · rw [hs.noFault] at h
    exact Bool.noConfusion h
  · rw [hend.2 feature] at h
    exact Bool.noConfusion h
  · obtain ⟨outcome,ho,_,hfull,_⟩ := hs.answered n c hc (hend.2 c.feature)
    refine hnone ⟨outcome,ho,?_⟩
    rw [promised,hend.1,hfull hend.1 hpending]
    simp [select]

theorem Doomed.step (hs : s.Doomed) (op : StorageOp) (hP : (s.step uvStrerror op).fault = false) :
    (s.step uvStrerror op).Doomed := by
  by_cases hfault : s.fault = true
  · have hsame : s.step uvStrerror op = s := if_pos hfault
    rw [hsame] at hP
    exact absurd hfault (by simp [hP])
  by_cases hdetached : ∃ feature, s.detached feature = true
  · obtain ⟨feature,h⟩ := hdetached
    refine .inr (.inl ⟨feature,?_⟩)
    unfold Storage.step
    rw [if_neg hfault]
    cases op with
    | call => dsimp only; split_ifs <;> exact h
    | callNull => dsimp only; split_ifs <;> exact h
    | storageCb =>
      dsimp only
      split_ifs
      · unfold Storage.storageCb
        split <;> exact h
      · exact h
    | detach other =>
      dsimp only
      split_ifs
      · dsimp only
        rw [Function.update_apply]
        split_ifs
        · rfl
        · exact h
      · exact h
    | next =>
      dsimp only [Storage.next]
      split
      · exact h
      · next action rest _ =>
        cases action with
        | finish => dsimp only [perform]; split_ifs <;> exact h
        | free => dsimp only [perform]; split <;> exact h
        | _ => exact h
  · obtain ⟨n,c,hc,hpending,hnone⟩ := (hs.resolve_left hfault).resolve_left hdetached
    push Not at hdetached
    have hattached : ∀ feature, s.detached feature = false := fun feature => by simpa using hdetached feature
    have hlt : n < s.calls.length := (List.getElem?_eq_some_iff.mp hc).1
    have hkeep : ∀ t : Storage, t.calls[n]? = some c → t.pending n = false → t.promised n = s.promised n →
        t.Doomed := by
      intro t htc htp hpromised
      exact .inr (.inr ⟨n,c,htc,htp,hpromised ▸ hnone⟩)
    unfold Storage.step at hP ⊢
    rw [if_neg hfault] at hP ⊢
    cases op with
    | call feature th ids request =>
      dsimp only at hP ⊢
      split_ifs at hP ⊢
      · refine hkeep _ ?_ ?_ (promised_startCall_of_ne feature ids _ hlt.ne)
        · change (s.calls ++ [⟨feature,ids⟩])[n]? = some c
          rw [List.getElem?_append_left hlt]
          exact hc
        · change Function.update s.pending s.calls.length _ n = false
          rw [Function.update_of_ne hlt.ne]
          exact hpending
      · exact hs
    | callNull feature =>
      dsimp only at hP ⊢
      split_ifs at hP ⊢
      exact hs
    | storageCb call status key value =>
      dsimp only at hP ⊢
      split_ifs at hP ⊢ with h
      · have hne : n ≠ call := by
          rintro rfl
          rw [hpending] at h
          exact Bool.noConfusion h.2
        cases hhandle : s.handles call with
        | none =>
          simp only [Storage.storageCb,hhandle] at hP
          exact Bool.noConfusion hP
        | some handle =>
          refine hkeep _ ?_ ?_ (promised_storageCb_of_ne uvStrerror hhandle status key value hne)
          · simp only [Storage.storageCb,hhandle]
            exact hc
          · simp only [Storage.storageCb,hhandle,Function.update_of_ne hne]
            exact hpending
      · exact hs
    | detach feature =>
      dsimp only at hP ⊢
      split_ifs
      · exact .inr (.inl ⟨feature,by simp⟩)
      · exact hs
    | next =>
      dsimp only at hP ⊢
      unfold Storage.next at hP ⊢
      cases htodo : s.todo with
      | nil => exact hs
      | cons action rest =>
        rw [htodo] at hP
        dsimp only at hP ⊢
        have hpromised := perform_promised htodo (fun _ feature _ _ _ _ => hattached feature) hP n
        have hsame : ({ s with todo := rest, inScript := false }.perform action).calls = s.calls ∧
            ({ s with todo := rest, inScript := false }.perform action).pending = s.pending := by
          cases action with
          | finish => dsimp only [perform]; split_ifs <;> exact ⟨rfl,rfl⟩
          | free => dsimp only [perform]; split <;> exact ⟨rfl,rfl⟩
          | _ => exact ⟨rfl,rfl⟩
        refine hkeep _ ?_ ?_ hpromised
        · rw [hsame.1]
          exact hc
        · rw [hsame.2]
          exact hpending

theorem Requests.doomed (hs : s.Requests) (op : StorageOp) (hbad : ¬ s.Right op) : (s.step uvStrerror op).Doomed := by
  unfold Storage.step
  rw [if_neg (by simp [hs.noFault])]
  cases op with
  | call feature th ids request =>
    simp only [Right,Classical.not_imp] at hbad
    obtain ⟨hscript,hattached,hbad⟩ := hbad
    rw [rightRequest_iff,not_or,Bool.not_eq_true] at hbad
    dsimp only
    rw [if_pos ⟨hscript,hattached⟩]
    refine .inr (.inr ⟨s.calls.length,⟨feature,ids⟩,List.getElem?_concat_length,?_,?_⟩)
    · change Function.update s.pending s.calls.length _ s.calls.length = false
      rw [Function.update_self]
      exact hbad.1
    · rw [hs.promised_new]
      exact hbad.2
  | callNull feature =>
    dsimp only
    rw [if_pos (not_not.mp hbad)]
    exact .inl rfl
  | storageCb call status key value =>
    simp only [Right,Classical.not_imp] at hbad
    obtain ⟨hscript,hpending,hbad⟩ := hbad
    have hlt : call < s.calls.length := by
      by_contra hge
      rw [(hs.answers.fresh call (by omega)).2] at hpending
      exact Bool.noConfusion hpending
    have hnil := hs.answers.waiting call hpending
    rw [promised,List.append_eq_nil_iff] at hnil
    obtain ⟨handle,hhandle⟩ := Option.isSome_iff_exists.mp
      ((hs.handles.live call hlt).mpr (by simp [hnil.1]))
    dsimp only
    rw [if_pos ⟨hscript,hpending⟩]
    refine .inr (.inr ⟨call,s.calls[call],?_,?_,?_⟩)
    · simp only [Storage.storageCb,hhandle]
      exact List.getElem?_eq_getElem hlt
    · simp only [Storage.storageCb,hhandle,Function.update_self]
    · rw [promised_storageCb uvStrerror hhandle,if_pos rfl,hnil.1,hnil.2,List.nil_append,List.append_nil]
      intro hends
      have hle := (cbResult_le_iff uvStrerror handle status key value).mp
        ((full_outcome_iff _ (cbResult uvStrerror handle status key value).2).mp hends)
      refine hbad ⟨hle.1,fun handle' hhandle' hop => ?_⟩
      obtain rfl := Option.some.inj (hhandle.symm.trans hhandle')
      exact hle.2 hop
  | detach feature => exact absurd trivial hbad
  | next => exact absurd trivial hbad

end Doom

/-- Among the runs whose calls share no callbacks with unfinished ones: every request is answered once when
every step is right, and only then in a run that ends with its instances alive. -/
theorem completed_iff (ops : List StorageOp) (hown : Transition.Guarded (step uvStrerror) Unshared {} ops) :
    (Transition.Guarded (step uvStrerror) Right {} ops → Transition.Always (step uvStrerror) Completed {} ops) ∧
    (Settled (Transition.run (step uvStrerror) {} ops) →
      (Transition.Always (step uvStrerror) Completed {} ops ↔ Transition.Guarded (step uvStrerror) Right {} ops)) := by
  have hright : Transition.Guarded (step uvStrerror) Right {} ops →
      Transition.Always (step uvStrerror) Completed {} ops := by
    intro h
    have hboth := hown.and h
    have hrun : Transition.Always (step uvStrerror) Requests {} ops :=
      hboth.always (fun _ op hs hgood => hs.step uvStrerror op hgood.1 hgood.2) Requests.init
    exact hrun.mono (fun _ hs => hs.completed)
  refine ⟨hright,fun hend => ⟨fun h => ?_,hright⟩⟩
  exact Transition.Always.guarded (I := Requests) (D := Doomed)
    (fun _ op hs hunshared hgood => hs.step uvStrerror op hunshared hgood)
    (fun _ op hs hbad => .inr (hs.doomed uvStrerror op hbad))
    (fun _ op hs hP => hs.step uvStrerror op hP.noFault) Requests.init hown h
    (h.last.not_doomed hend)

/-- A `get` that the database answers. -/
theorem get_completed : Transition.Always (step (fun _ => "")) Completed {}
      [.call 0 true ⟨1,2,3⟩ (.get (some "k") none 0),.next,.storageCb 0 0 "k" (some "v"),.next,.next,.next] := by
  apply (completed_iff (fun _ => "") _ _).1
  · refine ⟨fun _ _ _ _ => le_rfl,trivial,fun _ _ => ⟨le_rfl,fun handle hhandle hop => ?_⟩,trivial,trivial,trivial,
      trivial⟩
    obtain rfl := Option.some.inj hhandle
    exact StorageKind.noConfusion hop
  · refine ⟨fun n c h => ?_,trivial,trivial,trivial,trivial,trivial,trivial⟩
    simp at h

/-- A `set` with an empty key fails and completes with `success`. -/
theorem set_completes_wrong : ¬ ∀ ops, Transition.Always (step (fun _ => "")) Completed {} ops := by
  intro h
  obtain ⟨outcome,ho,_,hfull,_⟩ := (h [.call 0 true ⟨1,2,3⟩ (.set (some "") (some "v") 0),.next,.next,.next,.next,
    .next,.next,.next,.next]).last.answered 0 ⟨0,⟨1,2,3⟩⟩ rfl rfl
  have hanswers : [StorageAnswer.fail (some "fail") 202,.complete "success",.removed,.freed] = full outcome :=
    hfull rfl rfl
  cases outcome <;> simp [full] at hanswers

end Storage
end FeatureRuntime
