import FeatureRuntime.StorageRequests
import FeatureRuntime.Transition

/-! The two ways to read a value of the storage: `get`, which ends through its handle, and `get_sync`, which
tells its callbacks itself. -/
namespace FeatureRuntime

/-- What the script is told of a read. A null string is `none`. -/
inductive GetOutcome
  | success (value : Option String)
  | fail (msg : Option String) (code : ℤ)

/-- The callback that is told, and the text for `complete`. -/
structure GetTold where
  outcome : GetOutcome
  text : String

/-- The same one of `success` and `fail` with the same value or code. -/
def GetOutcome.Same : GetOutcome → GetOutcome → Prop
  | .success v,.success w => v = w
  | .fail _ code,.fail _ code' => code = code'
  | _,_ => False

structure GetTold.Agrees (t t' : GetTold) : Prop where
  outcome : t.outcome.Same t'.outcome
  text : t.text = t'.text

/-- A read: what it is called with and what the database answers. The asynchronous call may be refused at
once, or be answered by `storage_cb`. -/
structure StorageRead where
  th : Bool
  key : Option String
  defaultValue : Option String
  status : ℤ
  value : Option String
  refused : Bool

namespace Storage

variable (uvStrerror : ℤ → String)

/-- `system_storage_wrap_get_sync` on a live instance. -/
def getSync (r : StorageRead) : GetTold :=
  if r.th = false then ⟨.fail (some "FeatureGetObjectData fail") (-1),"fail"⟩
  else if emptyKey r.key then ⟨.fail (some "key is empty") 202,"fail"⟩
  else if r.status = 0 then ⟨.success r.value,"success"⟩
  else if r.status = unqliteNotfound then ⟨.success (some (r.defaultValue.getD "")),"success"⟩
  else ⟨.fail (some (uvStrerror r.status)) r.status,"fail"⟩

/-- A call of `get`, what runs until it returns, the answer of the database, and what runs then. -/
def getOps (feature : ℕ) (ids : CallbackIds) (r : StorageRead) : List StorageOp :=
  .call feature r.th ids (.get r.key r.defaultValue (if r.refused then r.status else 0)) ::
    (List.replicate 6 .next ++ .storageCb 0 r.status (r.key.getD "") r.value :: List.replicate 6 .next)

def getAnswers (feature : ℕ) (ids : CallbackIds) (r : StorageRead) : List StorageAnswer :=
  (Transition.run (step uvStrerror) {} (getOps feature ids r)).answersOf 0

def toldOf : List StorageAnswer → Option GetTold
  | .success msg :: .complete text :: _ => some ⟨.success (some msg),text⟩
  | .fail msg code :: .complete text :: _ => some ⟨.fail msg code,text⟩
  | _ => none

/-- The status and the message that a `get` ends with. -/
def getResult (r : StorageRead) : ℤ × Option String :=
  if r.th = false then (-1,some "FeatureGetObjectData fail")
  else if emptyKey r.key then (-1,r.defaultValue)
  else if r.refused = true ∧ r.status ≠ 0 then (r.status,some "uv_db_get fail")
  else if r.status = unqliteNotfound then (0,r.defaultValue)
  else if r.status = 0 then (0,r.value)
  else (r.status,some (uvStrerror r.status))

/-- The data of the prototype is there, and the read fails with a negative status, or finds a value, or finds
none when there is a default for it and the database takes the call. Without the data both fail. -/
def ReadMeets (r : StorageRead) : Prop :=
  r.th = true → emptyKey r.key = false ∧ r.status ≤ 0 ∧ (r.status = 0 → r.value ≠ none) ∧
    (r.status = unqliteNotfound → r.refused = false ∧ r.defaultValue ≠ none)

theorem finish_run {s : Storage} {feature : ℕ} {ids : CallbackIds} {status : ℤ} {msg : Option String}
    {handle : StorageHandle} (htodo : s.todo = [.finish 0 feature ids status msg,.ret])
    (hfault : s.fault = false) (hlive : s.detached feature = false) (hhandle : s.handles 0 = some handle) :
    let t := Transition.run (step uvStrerror) s (List.replicate 6 .next)
    t.answersOf 0 = s.answersOf 0 ++ finishAnswers (status,msg) ∧ t.pending = s.pending ∧
      t.fault = false ∧ t.inScript = true ∧ t.todo = [] := by
  simp [List.replicate,step,next,perform,hfault,htodo,hlive,hhandle,answersOf,finishAnswers]

theorem idle_run {s : Storage} (htodo : s.todo = [] ∨ s.todo = [.ret]) (hfault : s.fault = false)
    (hinScript : s.todo = [] → s.inScript = true) :
    let t := Transition.run (step uvStrerror) s (List.replicate 6 .next)
    t.answersOf 0 = s.answersOf 0 ∧ t.pending = s.pending ∧ t.handles = s.handles ∧
      t.detached = s.detached ∧ t.fault = false ∧ t.inScript = true ∧ t.todo = [] := by
  rcases htodo with htodo | htodo
  · simp [List.replicate,step,next,hfault,htodo,hinScript htodo,answersOf]
  · simp [List.replicate,step,next,perform,hfault,htodo,answersOf]

theorem answers_of_failed (feature : ℕ) (ids : CallbackIds) (r : StorageRead) (result : ℤ × Option String)
    {start : StorageStart} (hstart : StorageRequest.start r.th
      (.get r.key r.defaultValue (if r.refused then r.status else 0)) = start)
    (hfinishes : start.finishes = [result]) (haccepted : start.accepted = false) :
    getAnswers uvStrerror feature ids r = finishAnswers result := by
  obtain ⟨status,msg⟩ := result
  have hcall : step uvStrerror {} (.call feature r.th ids
      (.get r.key r.defaultValue (if r.refused then r.status else 0))) =
        startCall {} feature ids start := by
    rw [← hstart]
    rfl
  have htodo : (startCall {} feature ids start).todo = [.finish 0 feature ids status msg,.ret] := by
    simp [startCall,hfinishes]
  obtain ⟨hanswers,hpending,hfault,hinScript,hdone⟩ := finish_run uvStrerror htodo rfl rfl rfl
  simp only [getAnswers,getOps,Transition.run_cons,Transition.run_append,hcall]
  have hnone : (startCall {} feature ids start).pending 0 = false := by simp [startCall,haccepted]
  rw [← hpending] at hnone
  have hcb : ∀ t : Storage, t.fault = false → t.pending 0 = false →
      step uvStrerror t (.storageCb 0 r.status (r.key.getD "") r.value) = t := by
    intro t hfault hnone
    simp [step,hfault,hnone]
  rw [hcb _ hfault hnone,(idle_run uvStrerror (.inl hdone) hfault (fun _ => hinScript)).1,hanswers]
  rfl

/-- A call that `storage_cb` ends. -/
theorem answers_of_accepted (feature : ℕ) (ids : CallbackIds) (r : StorageRead) {start : StorageStart}
    (hstart : StorageRequest.start r.th (.get r.key r.defaultValue (if r.refused then r.status else 0)) = start)
    (hfinishes : start.finishes = []) (haccepted : start.accepted = true) :
    ∃ handle : StorageHandle, handle.op = start.op ∧ handle.buf = start.buf ∧ getAnswers uvStrerror feature ids r =
        finishAnswers (cbResult uvStrerror handle r.status (r.key.getD "") r.value) := by
  have hcall : step uvStrerror {} (.call feature r.th ids
      (.get r.key r.defaultValue (if r.refused then r.status else 0))) =
        startCall {} feature ids start := by
    rw [← hstart]
    rfl
  have htodo : (startCall {} feature ids start).todo = [.ret] := by simp [startCall,hfinishes]
  obtain ⟨handle,hhandle,hop,hbuf,hfeature⟩ : ∃ handle : StorageHandle,
      (startCall {} feature ids start).handles 0 = some handle ∧ handle.op = start.op ∧
        handle.buf = start.buf ∧ handle.feature = feature := ⟨_,rfl,rfl,rfl,rfl⟩
  refine ⟨handle,hop,hbuf,?_⟩
  obtain ⟨hanswers,hpending,hhandles,hdetached,hfault,hinScript,hdone⟩ :=
    idle_run uvStrerror (.inr htodo) rfl (fun hnil => absurd (hnil.symm.trans htodo) (by simp))
  simp only [getAnswers,getOps,Transition.run_cons,Transition.run_append,hcall]
  have hsome : (startCall {} feature ids start).pending 0 = true := by simp [startCall,haccepted]
  have hlive : (startCall {} feature ids start).detached handle.feature = false := rfl
  have hnil : (startCall {} feature ids start).answersOf 0 = [] := rfl
  rw [← hpending] at hsome
  rw [← hhandles] at hhandle
  rw [← hdetached] at hlive
  rw [hnil] at hanswers
  generalize Transition.run (step uvStrerror) (startCall {} feature ids start) (List.replicate 6 .next) = t at *
  -- The database answers when the call has returned.
  let result := cbResult uvStrerror handle r.status (r.key.getD "") r.value
  let answered : Storage :=
    { t with
      pending := Function.update t.pending 0 false
      inScript := false
      todo := [.finish 0 handle.feature handle.ids result.1 result.2,.ret] }
  have hcb : step uvStrerror t (.storageCb 0 r.status (r.key.getD "") r.value) = answered := by
    simp [step,storageCb,hfault,hinScript,hsome,hhandle,hdone,result,answered]
  have hfinish := (finish_run uvStrerror (s := answered) rfl hfault hlive hhandle).1
  have hbefore : answered.answersOf 0 = [] := hanswers
  rw [hcb,hfinish,hbefore]
  rfl

/-- A `get` runs `finish_callback` once. -/
theorem getAnswers_eq (feature : ℕ) (ids : CallbackIds) (r : StorageRead) :
    getAnswers uvStrerror feature ids r = finishAnswers (getResult uvStrerror r) := by
  cases hth : r.th with
  | false =>
    rw [getResult,if_pos hth]
    refine answers_of_failed uvStrerror feature ids r _ rfl ?_ ?_ <;>
      simp [hth,StorageRequest.start,StorageStart.get,StorageStart.failed]
  | true =>
    rw [getResult,if_neg (by simp [hth])]
    by_cases hkey : emptyKey r.key = true
    · rw [if_pos hkey]
      refine answers_of_failed uvStrerror feature ids r _ rfl ?_ ?_ <;>
        simp [hth,hkey,StorageRequest.start,StorageStart.get,StorageStart.failed]
    · rw [if_neg hkey]
      by_cases hrefused : r.refused = true ∧ r.status ≠ 0
      · rw [if_pos hrefused]
        refine answers_of_failed uvStrerror feature ids r _ rfl ?_ ?_ <;>
          simp [hth,hkey,hrefused.1,hrefused.2,StorageRequest.start,StorageStart.get,storageCheckIf]
      · have hzero : (if r.refused then r.status else 0) = 0 := by
          split_ifs with h
          · by_contra hne
            exact hrefused ⟨h,hne⟩
          · rfl
        obtain ⟨handle,hop,hbuf,hanswers⟩ := answers_of_accepted uvStrerror feature ids r rfl
          (by simp [hth,hkey,hzero,StorageRequest.start,StorageStart.get,storageCheckIf])
          (by simp [hth,hkey,hzero,StorageRequest.start,StorageStart.get])
        have hget : handle.op = .get := by
          rw [hop]
          simp [hth,hkey,StorageRequest.start,StorageStart.get]
        have hdefault : handle.buf = r.defaultValue := by
          rw [hbuf]
          simp [hth,hkey,StorageRequest.start,StorageStart.get]
        rw [hanswers,if_neg hrefused,cbResult,hget,hdefault]
        simp

/-- What `finish_callback` tells of a result. -/
def resultTold (result : ℤ × Option String) : GetTold where
  outcome := if result.1 = 0 then .success (some (result.2.getD "success")) else .fail result.2 result.1
  text := if 0 ≤ result.1 then "success" else "fail"

theorem toldOf_finishAnswers (result : ℤ × Option String) :
    toldOf (finishAnswers result) = some (resultTold result) := by
  simp only [finishAnswers,StorageAnswer.outcome,StorageAnswer.completion,resultTold]
  split_ifs <;> rfl

section Answered

/-! A read that reaches the database: it answers with a value, with no value, or with a failure. -/

variable {r : StorageRead} (hth : r.th = true) (hkey : emptyKey r.key = false)
include hth hkey

theorem found_agrees_iff (hzero : r.status = 0) :
    (resultTold (getResult uvStrerror r)).Agrees (getSync uvStrerror r) ↔ r.value ≠ none := by
  have hne : (0 : ℤ) ≠ unqliteNotfound := by decide
  have hresult : getResult uvStrerror r = (0,r.value) := by
    simp [getResult,hth,hkey,hzero,hne]
  have hsync : getSync uvStrerror r = ⟨.success r.value,"success"⟩ := by
    simp [getSync,hth,hkey,hzero]
  rw [hresult,hsync]
  constructor
  · intro h hnone
    have hvalue : some (r.value.getD "success") = r.value := h.outcome
    rw [hnone] at hvalue
    exact absurd hvalue (by simp)
  · intro h
    obtain ⟨value,hvalue⟩ := Option.ne_none_iff_exists'.mp h
    rw [hvalue]
    exact ⟨rfl,rfl⟩

theorem missing_agrees_iff (hmissing : r.status = unqliteNotfound) :
    (resultTold (getResult uvStrerror r)).Agrees (getSync uvStrerror r) ↔
      r.refused = false ∧ r.defaultValue ≠ none := by
  have hzero : r.status ≠ 0 := by
    rw [hmissing]
    decide
  have hsync : getSync uvStrerror r = ⟨.success (some (r.defaultValue.getD "")),"success"⟩ := by
    rw [getSync,if_neg (by simp [hth]),if_neg (by simp [hkey]),if_neg hzero,if_pos hmissing]
  rw [hsync]
  cases hrefused : r.refused with
  | true =>
    have hresult : getResult uvStrerror r = (r.status,some "uv_db_get fail") := by
      simp [getResult,hth,hkey,hrefused,hzero]
    rw [hresult]
    refine iff_of_false (fun h => ?_) (fun h => absurd h.1 (by decide))
    have houtcome := h.outcome
    simp [resultTold,hzero,GetOutcome.Same] at houtcome
  | false =>
    have hresult : getResult uvStrerror r = (0,r.defaultValue) := by
      simp [getResult,hth,hkey,hrefused,hmissing]
    rw [hresult]
    constructor
    · intro h
      refine ⟨rfl,fun hnone => ?_⟩
      have hvalue : some (r.defaultValue.getD "success") = some (r.defaultValue.getD "") := h.outcome
      rw [hnone] at hvalue
      exact absurd hvalue (by decide)
    · intro h
      obtain ⟨value,hvalue⟩ := Option.ne_none_iff_exists'.mp h.2
      rw [hvalue]
      exact ⟨rfl,rfl⟩

theorem failed_agrees_iff (hzero : r.status ≠ 0) (hmissing : r.status ≠ unqliteNotfound) :
    (resultTold (getResult uvStrerror r)).Agrees (getSync uvStrerror r) ↔ r.status ≤ 0 := by
  have hresult : ∃ msg, getResult uvStrerror r = (r.status,msg) := by
    cases hrefused : r.refused with
    | true => exact ⟨some "uv_db_get fail",by simp [getResult,hth,hkey,hrefused,hzero]⟩
    | false =>
      exact ⟨some (uvStrerror r.status),by simp [getResult,hth,hkey,hrefused,hmissing,hzero]⟩
  have hsync : getSync uvStrerror r = ⟨.fail (some (uvStrerror r.status)) r.status,"fail"⟩ := by
    rw [getSync,if_neg (by simp [hth]),if_neg (by simp [hkey]),if_neg hzero,if_neg hmissing]
  obtain ⟨msg,hresult⟩ := hresult
  rw [hresult,hsync]
  simp only [resultTold,if_neg hzero]
  constructor
  · intro h
    by_contra hpos
    have htext : (if 0 ≤ r.status then "success" else "fail") = "fail" := h.text
    rw [if_pos (by omega)] at htext
    exact absurd htext (by decide)
  · intro h
    rw [if_neg (by omega)]
    exact ⟨rfl,rfl⟩

end Answered

/-- For every read on a live instance: `get` and `get_sync` tell the same outcome and the same text exactly
when the read meets the condition. -/
theorem gets_agree_iff (feature : ℕ) (ids : CallbackIds) (r : StorageRead) :
    (∃ told, toldOf (getAnswers uvStrerror feature ids r) = some told ∧
      told.Agrees (getSync uvStrerror r)) ↔ ReadMeets r := by
  rw [getAnswers_eq,toldOf_finishAnswers]
  simp only [Option.some.injEq,exists_eq_left',ReadMeets]
  cases hth : r.th with
  | false =>
    refine iff_of_true ?_ nofun
    simp only [getResult,getSync,hth,if_true]
    exact ⟨rfl,rfl⟩
  | true =>
    simp only [true_imp_iff]
    cases hkey : emptyKey r.key with
    | true =>
      refine iff_of_false (fun h => ?_) (fun h => absurd h.1 (by decide))
      simp only [getResult,getSync,hth,hkey,Bool.true_eq_false,if_false,if_true] at h
      exact absurd h.outcome (by simp [resultTold,GetOutcome.Same])
    | false =>
      simp only [true_and]
      by_cases hzero : r.status = 0
      · have hne : (0 : ℤ) ≠ unqliteNotfound := by decide
        rw [found_agrees_iff uvStrerror hth hkey hzero,hzero]
        simp [hne]
      · by_cases hmissing : r.status = unqliteNotfound
        · have hle : r.status ≤ 0 := by
            rw [hmissing]
            decide
          have hne : unqliteNotfound ≠ 0 := by decide
          rw [missing_agrees_iff uvStrerror hth hkey hmissing]
          simp [hmissing ▸ hle,hmissing,hne]
        · rw [failed_agrees_iff uvStrerror hth hkey hzero hmissing]
          simp [hzero,hmissing]

def emptyKeyRead : StorageRead := ⟨true,some "",none,0,none,false⟩

/-- `get` fails with -1 where `get_sync` fails with 202. -/
theorem empty_key_disagrees : ¬ ∀ (uvStrerror : ℤ → String) (feature : ℕ) (ids : CallbackIds) (r : StorageRead),
      ∃ told, toldOf (getAnswers uvStrerror feature ids r) = some told ∧ told.Agrees (getSync uvStrerror r) := by
  intro h
  obtain ⟨told,htold,hagrees⟩ := h (fun _ => "") 0 ⟨1,2,3⟩ emptyKeyRead
  rw [getAnswers_eq,toldOf_finishAnswers] at htold
  obtain rfl := Option.some.inj htold
  have hcode : (-1 : ℤ) = 202 := hagrees.outcome
  exact absurd hcode (by decide)

end Storage

end FeatureRuntime
