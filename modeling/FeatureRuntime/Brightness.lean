import FeatureRuntime.LiveCallbacks
import FeatureRuntime.RequestRun

/-! `system.brightness` over libuv: the records of its requests, which the backend is given as the argument of its
callback, and their three callbacks, in which the script runs. -/
namespace FeatureRuntime

inductive BrightnessType
  | getMode
  | setMode
  | getValue
  | setValue
  | keepOn

/-- The callbacks of a request; a number that is not positive is none. -/
structure BrightnessParam where
  success : ℤ
  fail : ℤ
  complete : ℤ

inductive BrightnessReport
  | success (value mode : ℤ)
  | fail (message : String) (code : ℤ)
  | complete

/-- A callback was invoked, and whether its instance was detached then. -/
structure BrightnessEvent where
  request : ℕ
  report : BrightnessReport
  late : Bool

/-- What a function that is under way still does for its request: the invocations and removals of `do_callback`, and what
is freed after them. -/
inductive BrightnessAct
  | success (value : ℤ)
  | fail (code : ℤ)
  | complete
  | removeCallbacks
  | freeRecord
  | freeParam
  deriving DecidableEq

/-- The record of a request: its data, whether it is in the list of its instance and the backend has yet to complete it,
how often its parameter and the record have been freed, and the answer of the backend, which is success where it completed
the request with status zero. -/
structure BrightnessRecord (ι : Type) where
  feature : ι
  type : BrightnessType
  param : BrightnessParam
  listed : Bool
  held : Bool
  paramFreed : ℕ
  freed : ℕ
  outcome : Option Bool

structure Brightness (ι : Type) where
  records : List (BrightnessRecord ι)
  live : ι → ℤ → Bool
  detached : ι → Bool
  events : List BrightnessEvent
  /-- What the functions under way still do, the innermost first. -/
  todo : List (ℕ × BrightnessAct)
  /-- A record was used after it had been freed. -/
  fault : Bool

/-- The calls, with the status that the backend returns at once. -/
inductive BrightnessCall
  | getValue (status : ℤ)
  | setValue (status : ℤ)
  | getMode (status : ℤ)
  | setMode (status : ℤ)
  | setKeepScreenOn (keep : Bool) (turned status : ℤ)

/-- What happens: a call, also from the script of a callback; a completion by the backend; a detach; or the function under
way does what is next, which is when the callback that it has invoked has returned. -/
inductive BrightnessOp (ι : Type)
  | call (feature : ι) (call : BrightnessCall) (param : BrightnessParam)
  | complete (request : ℕ) (status value : ℤ)
  | detach (feature : ι)
  | next

namespace Brightness

open LiveCallbacks

/-- `FT_ERR_GENERAL`. -/
def errGeneral : ℤ := 200

variable {ι : Type} [DecidableEq ι] (s : Brightness ι)

omit [DecidableEq ι] in
/-- `FeatureInvokeCallback`. -/
def invoke (feature : ι) (id : ℤ) (request : ℕ) (report : BrightnessReport) : Brightness ι :=
  if s.live feature id then { s with events := s.events ++ [⟨request,report,s.detached feature⟩] } else s

def removeCallbacks (feature : ι) (param : BrightnessParam) : Brightness ι :=
  { s with live := remove (remove (remove s.live feature param.success) feature param.fail) feature param.complete }

/-- `do_callback`, which is given the instance and the numbers of the callbacks by value. -/
def doCallback (value code : ℤ) : List BrightnessAct :=
  [if code ≥ 0 then .success value else .fail code,.complete,.removeCallbacks]

omit [DecidableEq ι] in
def change (request : ℕ) (f : BrightnessRecord ι → BrightnessRecord ι) : Brightness ι :=
  { s with records := s.records.modify request f }

omit [DecidableEq ι] in
/-- `__brightness_get`, with the type and the parameter of the request. -/
def brightnessGet (feature : ι) (type : BrightnessType) (param : BrightnessParam) : Brightness ι :=
  { s with records := s.records ++ [⟨feature,type,param,true,true,0,0,none⟩] }

def answerRecord (ok : Bool) (record : BrightnessRecord ι) : BrightnessRecord ι :=
  { record with held := false, outcome := some ok }

def freeParam (record : BrightnessRecord ι) : BrightnessRecord ι := { record with paramFreed := record.paramFreed + 1 }

/-- The parameter is freed, the record is taken off the list and freed. -/
def freeRecord (record : BrightnessRecord ι) : BrightnessRecord ι :=
  { record with paramFreed := record.paramFreed + 1, freed := record.freed + 1, listed := false }

omit [DecidableEq ι] in
/-- A request has its answer, and a function goes on with it. -/
def answer (request : ℕ) (ok : Bool) (acts : List BrightnessAct) : Brightness ι :=
  { s.change request (answerRecord ok) with todo := acts.map (fun act => (request,act)) ++ s.todo }

omit [DecidableEq ι] in
def submit (feature : ι) (type : BrightnessType) (param : BrightnessParam) (status : ℤ) : Brightness ι :=
  let request := s.records.length
  let s := s.brightnessGet feature type param
  if status ≠ 0 then s.answer request false (doCallback status errGeneral ++ [.freeRecord]) else s

section Calls

omit [DecidableEq ι]

/-- `system_brightness_wrap_getValue`. -/
def getValue (feature : ι) (param : BrightnessParam) (status : ℤ) : Brightness ι := s.submit feature .getValue param status

/-- `system_brightness_wrap_setValue`. -/
def setValue (feature : ι) (param : BrightnessParam) (status : ℤ) : Brightness ι := s.submit feature .setValue param status

/-- `system_brightness_wrap_getMode`. -/
def getMode (feature : ι) (param : BrightnessParam) (status : ℤ) : Brightness ι := s.submit feature .getMode param status

/-- `system_brightness_wrap_setMode`. -/
def setMode (feature : ι) (param : BrightnessParam) (status : ℤ) : Brightness ι := s.submit feature .setMode param status

/-- `system_brightness_wrap_setKeepScreenOn`, which turns the screen on first, and frees no record where it fails. -/
def setKeepScreenOn (feature : ι) (param : BrightnessParam) (keep : Bool) (turned status : ℤ) : Brightness ι :=
  let request := s.records.length
  let s := s.brightnessGet feature .keepOn param
  if keep ∧ turned ≠ 0 then s.answer request false [.freeParam]
  else if status ≠ 0 then s.answer request false (doCallback status errGeneral ++ [.freeParam])
  else s

def reportedValue (type : BrightnessType) (status value : ℤ) : ℤ :=
  match type with
  | .getValue | .getMode => value
  | .setValue | .setMode | .keepOn => if status = 0 then 0 else -1

/-- `brightness_cb`; the mark `is_close` of a request is never set. -/
def brightnessCb (request : ℕ) (status value : ℤ) : Brightness ι :=
  match s.records[request]? with
  | none => s
  | some record =>
    if 0 < record.freed then { s with fault := true }
    else
      s.answer request (status = 0) (doCallback (reportedValue record.type status value) (if status = 0 then 1 else 0) ++
        [.freeRecord])

end Calls

/-- What is freed is found through the record. -/
def act (request : ℕ) (record : BrightnessRecord ι) : BrightnessAct → Brightness ι
  | .success value => s.invoke record.feature record.param.success request (.success value value)
  | .fail code => s.invoke record.feature record.param.fail request (.fail "execute error" code)
  | .complete => s.invoke record.feature record.param.complete request .complete
  | .removeCallbacks => s.removeCallbacks record.feature record.param
  | .freeRecord => if 0 < record.freed then { s with fault := true } else s.change request freeRecord
  | .freeParam => if 0 < record.freed then { s with fault := true } else s.change request freeParam

def next : Brightness ι :=
  match s.todo with
  | [] => s
  | (request,act) :: todo =>
    match s.records[request]? with
    | none => s
    | some record => { s with todo := todo }.act request record act

/-- `detach` and what the framework does after it: the records of the list are freed, whether the backend holds them or
not. -/
def detach (feature : ι) : Brightness ι :=
  { s with
    records := s.records.map (fun record =>
      if record.feature = feature ∧ record.listed then freeRecord record else record)
    live := fun other id => s.live other id && !decide (other = feature)
    detached := Function.update s.detached feature true }

def registered (feature : ι) (param : BrightnessParam) : Brightness ι :=
  { s with
    live := register (register (register s.live feature param.success) feature param.fail) feature param.complete }

def perform (feature : ι) (param : BrightnessParam) : BrightnessCall → Brightness ι
  | .getValue status => s.getValue feature param status
  | .setValue status => s.setValue feature param status
  | .getMode status => s.getMode feature param status
  | .setMode status => s.setMode feature param status
  | .setKeepScreenOn keep turned status => s.setKeepScreenOn feature param keep turned status

/-- The framework hears no calls of an instance that is detached. The backend completes what it has taken, once, and from
the event loop: when no function is under way. -/
def step (s : Brightness ι) : BrightnessOp ι → Brightness ι
  | .call feature call param => if s.detached feature then s else (s.registered feature param).perform feature param call
  | .complete request status value =>
    if s.todo.isEmpty ∧ s.records[request]?.any BrightnessRecord.held then s.brightnessCb request status value else s
  | .detach feature => if s.detached feature then s else s.detach feature
  | .next => s.next

omit [DecidableEq ι] in
def init : Brightness ι := ⟨[],fun _ _ => false,fun _ => false,[],[],false⟩

end Brightness
end FeatureRuntime
