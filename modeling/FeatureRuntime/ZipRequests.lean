import FeatureRuntime.FileRequests
import FeatureRuntime.ZipExtraction

/-! The requests of `system.zip`: what the extraction of an archive comes to, what the script is told of it,
and the life of a request between the worker pool, the instance and the callbacks. -/
namespace FeatureRuntime

/-- One turn of the loop that reads an entry: an error, or bytes and whether they are written. -/
inductive ZipRead
  | error (errno : Errno)
  | data (written : Bool)

/-- An entry, with what the archive and the system answer while it is extracted; `made` says whether its
directory is there in the end. -/
structure ZipEntry where
  name : ZipName
  closing : Bool := false
  info : ℤ := 0
  buffer : Bool := true
  made : Bool := true
  openFile : ℤ := 0
  fopen : Bool := true
  fopenAgain : Bool := true
  reads : List ZipRead := []
  fclose : Bool := true
  close : ℤ := 0
  next : ℤ := 0

/-- An archive: whether it opens under its name or with `.zip` behind it, whether the directory can be
entered, and what the archive has. -/
structure ZipArchive where
  openSrc : Bool := true
  openZip : Bool := false
  chdir : Bool := true
  globalInfo : ℤ := 0
  entries : List ZipEntry

namespace ZipEntry

variable (entry : ZipEntry)

/-- The loop of `unzReadCurrentFile` and `fwrite`: the code it leaves. -/
def transfer : List ZipRead → ℤ
  | [] => 0
  | .error errno :: _ => -errno.val
  | .data written :: reads => if written then transfer reads else -1

def opened : Bool := entry.fopen || entry.name.directory.isSome && entry.fopenAgain

/-- `do_extract_currentfile`: its result. -/
def extractCurrentFile : ℤ :=
  if entry.info ≠ 0 then entry.info
  else if entry.buffer = false then -104
  else if entry.name.isDirectory then 0
  else if entry.openFile ≠ 0 then entry.openFile
  else
    let err := if entry.opened then transfer entry.reads else 0
    if err = 0 then entry.close else err

def Extracted : Prop :=
  entry.info = 0 ∧ entry.buffer = true ∧
    if entry.name.isDirectory then entry.made = true
    else entry.openFile = 0 ∧ entry.opened = true ∧ transfer entry.reads = 0 ∧ entry.fclose = true ∧
      entry.close = 0

instance : Decidable entry.Extracted :=
  inferInstanceAs (Decidable (entry.info = 0 ∧ entry.buffer = true ∧
    if entry.name.isDirectory then entry.made = true
    else entry.openFile = 0 ∧ entry.opened = true ∧ transfer entry.reads = 0 ∧ entry.fclose = true ∧
      entry.close = 0))

end ZipEntry

namespace ZipArchive

/-- The loop of `_do_extract_zip_work_cb`: the entries that it comes to. -/
def visited : List ZipEntry → List ZipEntry
  | [] => []
  | entry :: entries =>
    if entry.closing then []
    else if entry.extractCurrentFile ≠ 0 ∨ entries ≠ [] ∧ entry.next ≠ 0 then [entry]
    else entry :: visited entries

variable (archive : ZipArchive)

/-- `_do_extract_zip_work_cb` gets past its checks and sets the flag, whatever the loop came to. -/
def unzipped : Bool :=
  (archive.openSrc || archive.openZip) && archive.chdir && archive.globalInfo == 0

def Whole : Prop :=
  archive.unzipped = true ∧ (visited archive.entries).length = archive.entries.length ∧
    ∀ entry ∈ archive.entries, entry.Extracted

instance : Decidable archive.Whole :=
  inferInstanceAs (Decidable (archive.unzipped = true ∧ (visited archive.entries).length = archive.entries.length ∧
    ∀ entry ∈ archive.entries, entry.Extracted))

end ZipArchive

inductive ZipCallback
  | success
  | fail (msg : String) (code : ℤ)
  | complete
  deriving DecidableEq

/-- The callback ids, and the record of a request with what it holds. -/
inductive ZipResource
  | success
  | fail
  | complete
  | record
  | handle
  | srcPath
  | dstPath
  deriving DecidableEq

abbrev ZipEvent := RequestEvent ZipCallback ZipResource

/-- A call of `decompress`: its arguments and callback ids, whether the record is allocated, whether there is a loop, whether
the archive is there, what libuv returns to the submission, and what the memory of the record holds where the
flag of its success is. -/
structure ZipCall where
  feature : ℕ
  srcUri : Option CString
  dstUri : Option CString
  ids : CallbackIds := {}
  record : Bool := true
  loop : Bool := true
  access : Bool := true
  queued : ℤ := 0
  flag : Bool := false

/-- What a call has acquired when it submits its work or fails, and its failure. -/
structure ZipPrepared where
  held : List ZipResource
  failure : Option (String × ℤ) := none

inductive ZipPhase
  | idle
  /-- In `zr_arr`, but not with libuv. -/
  | refused
  | queued
  | cancelled
  | working
  | worked (flag : Bool)
  | ended
  deriving DecidableEq

/-- What the running functions of the main thread still do: an event, or `getZipContext` with what follows
it. -/
inductive ZipTask
  | run (request : ℕ) (event : ZipEvent)
  | context (request : ℕ)
  deriving DecidableEq

structure ZipState where
  calls : List ZipCall := []
  phase : ℕ → ZipPhase := fun _ => .idle
  /-- The archive as the work of a request found it. -/
  archive : ℕ → Option ZipArchive := fun _ => none
  /-- `zr_arr` of an instance, less its null pointers. -/
  zrArr : ℕ → List ℕ := fun _ => []
  detached : ℕ → Bool := fun _ => false
  todo : List ZipTask := []
  log : List (ℕ × ZipEvent) := []
  /-- The ids that calls have lost to others, and the calls that invoked a callback in vain. -/
  lost : List (ℕ × ℤ) := []
  missed : List ℕ := []

inductive ZipOrder
  | call (q : ZipCall)
  /-- A worker takes a request. -/
  | work (request : ℕ)
  | worked (request : ℕ) (archive : ZipArchive)
  /-- The event loop completes a request. -/
  | after (request : ℕ)
  | detach (feature : ℕ)
  /-- The running callback returns, or the running function goes on. -/
  | next

namespace Zip

/-- The checks of `system_zip_wrap_decompress`. -/
def prepare (C : PathConfig) (pkg : CString) (q : ZipCall) : ZipPrepared :=
  if q.record = false then { held := [], failure := some ("malloc fail",File.errGeneral) }
  else if q.loop = false then { held := [.record], failure := some ("uvloop is null",File.errGeneral) }
  else match q.srcUri,q.dstUri with
    | some srcUri,some dstUri =>
      if isPathInTmp srcUri || isPathInTmp dstUri then
        { held := [.record], failure := some ("invalid file path",File.errArgs) }
      else
        let srcPath := File.loadPath C pkg true srcUri
        let dstPath := C.appRelativeToAbsolutePath pkg dstUri
        let held := [.record,.handle] ++ (File.holding .srcPath srcPath ++ File.holding .dstPath dstPath)
        if srcPath.isNone || dstPath.isNone then
          { held := held, failure := some ("invalid file path",File.errArgs) }
        else if q.access = false then
          { held := held, failure := some ("src path invalid!",File.errPathNotExists) }
        else { held := held }
    | _,_ => { held := [.record], failure := some ("invalid file path",File.errArgs) }

/-- `freeZipReq`, given what the record holds. -/
def freeZipReq (held : List ZipResource) : List ZipEvent :=
  ([.handle,.srcPath,.dstPath,.record].filter (· ∈ held)).map .release

def submitted : List ZipResource := [.record,.handle,.srcPath,.dstPath]

def acquired (held : List ZipResource) : List ZipEvent :=
  [.acquire .success,.acquire .fail,.acquire .complete] ++ held.map .acquire

def removeAllCallback : List ZipEvent := [.release .success,.release .fail,.release .complete]

def failing (held : List ZipResource) : List ZipEvent :=
  .invoke .complete :: (removeAllCallback ++ freeZipReq held)

/-- The end of `__extract_zip_after_work_cb` up to the context, after the callback of the result. -/
def completing : List ZipEvent := [.touch .record,.invoke .complete,.touch .record] ++ removeAllCallback

def outcome (uvStrerror : ℤ → String) (flag : Bool) : ZipCallback :=
  if flag then .success else .fail (uvStrerror 0) (File.errorCodeMap 0)

def rules : CallbackRules ZipCall ZipEvent where
  feature := ZipCall.feature
  ids q := [q.ids.success,q.ids.fail,q.ids.complete]
  invokes q
    | .invoke .success => some q.ids.success
    | .invoke (.fail _ _) => some q.ids.fail
    | .invoke .complete => some q.ids.complete
    | _ => none
  removes q
    | .release .success => some q.ids.success
    | .release .fail => some q.ids.fail
    | .release .complete => some q.ids.complete
    | _ => none

end Zip

namespace ZipState

open Zip

variable (C : PathConfig) (pkg : CString) (uvStrerror : ℤ → String) (s : ZipState)

def tell (n : ℕ) (events : List ZipEvent) : List (ℕ × ZipEvent) :=
  s.log ++ events.map (fun e => (n,e))

/-- `system_zip_wrap_decompress`. -/
def call (q : ZipCall) : ZipState :=
  if s.detached q.feature then s
  else match (prepare C pkg q).failure with
    | some (msg,code) =>
      { s with
        calls := s.calls ++ [q]
        phase := Function.update s.phase s.calls.length .ended
        todo := (failing (prepare C pkg q).held).map (.run s.calls.length) ++ s.todo
        log := s.tell s.calls.length (acquired (prepare C pkg q).held ++ [.invoke (.fail msg code)]) }
    | none =>
      { s with
        calls := s.calls ++ [q]
        phase := Function.update s.phase s.calls.length (if q.queued = 0 then .queued else .refused)
        zrArr := Function.update s.zrArr q.feature (s.zrArr q.feature ++ [s.calls.length])
        log := s.tell s.calls.length (acquired (prepare C pkg q).held) }

def work (n : ℕ) : ZipState :=
  if s.phase n = .queued then
    { s with
      phase := Function.update s.phase n .working
      log := s.tell n [.touch .record] }
  else s

/-- `_do_extract_zip_work_cb`. -/
def worked (n : ℕ) (archive : ZipArchive) : ZipState :=
  match s.calls[n]? with
  | none => s
  | some q =>
    if s.phase n = .working then
      { s with
        phase := Function.update s.phase n (.worked (archive.unzipped || q.flag))
        archive := Function.update s.archive n (some archive)
        log := s.tell n [.touch .record] }
    else s

def drop (n : ℕ) : ZipState :=
  { s with
    phase := Function.update s.phase n .ended
    log := s.tell n (.touch .record :: freeZipReq submitted) }

/-- `__extract_zip_after_work_cb`. -/
def after (n : ℕ) : ZipState :=
  match s.calls[n]?,s.todo,s.phase n with
  | some _,[],.cancelled => s.drop n
  | some q,[],.worked flag =>
    if s.detached q.feature then s.drop n
    else
      { s with
        phase := Function.update s.phase n .ended
        todo := completing.map (.run n) ++ [.context n]
        log := s.tell n [.touch .record,.invoke (outcome uvStrerror flag)]
        missed := s.missed ++ rules.misses s.calls s.detached s.lost (n,.invoke (outcome uvStrerror flag)) }
  | _,_,_ => s

def detach (feature : ℕ) : ZipState :=
  if s.detached feature then s
  else
    { s with
      phase := fun n => if n ∈ s.zrArr feature ∧ s.phase n = .queued then .cancelled else s.phase n
      zrArr := Function.update s.zrArr feature []
      detached := Function.update s.detached feature true
      log := s.log ++ (s.zrArr feature).map (fun n => (n,.touch .record)) }

def next : ZipState :=
  match s.todo with
  | [] => s
  | .run n event :: todo =>
    { s with
      todo := todo
      log := s.tell n [event]
      lost := s.lost ++ rules.robs s.calls (n,event)
      missed := s.missed ++ rules.misses s.calls s.detached s.lost (n,event) }
  | .context n :: todo =>
    match s.calls[n]? with
    | none => { s with todo := todo }
    | some q =>
      if s.detached q.feature then { s with todo := todo }
      else
        { s with
          todo := todo
          zrArr := Function.update s.zrArr q.feature ((s.zrArr q.feature).filter (· ≠ n))
          log := s.tell n (freeZipReq submitted) }

def step : ZipOrder → ZipState
  | .call q => s.call C pkg q
  | .work n => s.work n
  | .worked n archive => s.worked n archive
  | .after n => s.after uvStrerror n
  | .detach feature => s.detach feature
  | .next => s.next

def events (n : ℕ) : List ZipEvent := RequestRun.select n s.log

def Finished (n : ℕ) : Prop := s.todo = [] ∧ (s.phase n = .ended ∨ s.phase n = .refused)

end ZipState

namespace Zip

def Truthful (archive : Option ZipArchive) : ZipCallback → Prop
  | .success => ∃ a, archive = some a ∧ a.Whole
  | .fail _ _ => ¬ ∃ a, archive = some a ∧ a.Whole
  | .complete => False

/-- What the script is told is a part of one true outcome and then `complete`; the record is used only while it
is held. A finished request of a live instance has told all of it, and its record, where it had one, has been
freed. The callbacks of a live instance are found. -/
structure Right (s : ZipState) (n : ℕ) (q : ZipCall) : Prop where
  safe : RequestEvent.stage .record (s.events n) ≠ .misused
  told : ∃ o, Truthful (s.archive n) o ∧ RequestEvent.invoked (s.events n) <+: [o,.complete]
  freed : s.Finished n → RequestEvent.stage .record (s.events n) = if q.record then .released else .absent
  answered : s.Finished n → s.detached q.feature = false →
    ∃ o, Truthful (s.archive n) o ∧ RequestEvent.invoked (s.events n) = [o,.complete]
  found : s.detached q.feature = false → n ∉ s.missed

def request : ZipTask → ℕ
  | .run n _ => n
  | .context n => n

/-- A request that is not over. -/
def Open (s : ZipState) (n : ℕ) : Prop :=
  n < s.calls.length ∧ (s.phase n ≠ .ended ∨ ∃ task ∈ s.todo, request task = n)

/-- No submission is refused; an archive that is opened, entered and counted is extracted to its end, and the
memory of the flag is clear for any other one; no instance is detached by a callback of a request
of its own that worked; and no call shares a callback with one of its instance that is not over. -/
def Meets (C : PathConfig) (pkg : CString) (s : ZipState) : ZipOrder → Prop
  | .call q => ((prepare C pkg q).failure = none → q.queued = 0) ∧
      ∀ n, Open s n → ∀ q', s.calls[n]? = some q' → q'.feature = q.feature →
        ∀ id ∈ rules.ids q', 0 < id → id ∉ rules.ids q
  | .worked n archive => ∀ q, s.calls[n]? = some q →
      if archive.unzipped then archive.Whole else q.flag = false
  | .detach feature => ∀ n q, s.calls[n]? = some q → q.feature = feature → .context n ∉ s.todo
  | _ => True

/-- What is known of one request: where it is, its archive, what happened and what is under way. -/
structure View where
  phase : ZipPhase
  archive : Option ZipArchive
  events : List ZipEvent
  tasks : List ZipTask

def taskEvents : ZipTask → List ZipEvent
  | .run _ event => [event]
  | .context _ => freeZipReq submitted

def View.promised (v : View) : List ZipEvent := v.events ++ v.tasks.flatMap taskEvents

/-- The record is held and nobody has been told anything. -/
structure View.Waits (v : View) : Prop where
  stage : RequestEvent.stage .record v.events = .held
  invoked : RequestEvent.invoked v.events = []
  tasks : v.tasks = []

structure View.Settles (v : View) (n : ℕ) (q : ZipCall) (gone : Bool) : Prop where
  stage : RequestEvent.stage .record v.promised = if q.record then .released else .absent
  told : (∃ o, Truthful v.archive o ∧ RequestEvent.invoked v.promised = [o,.complete]) ∨
    RequestEvent.invoked v.promised = [] ∧ gone = true
  live : .context n ∈ v.tasks → gone = false

def View.Fine (v : View) (n : ℕ) (q : ZipCall) (gone : Bool) : Prop :=
  match v.phase with
  | .idle => False
  | .refused => False
  | .queued => v.Waits ∧ q.record = true ∧ v.archive = none
  | .cancelled => v.Waits ∧ q.record = true ∧ gone = true
  | .working => v.Waits ∧ q.record = true ∧ v.archive = none
  | .worked flag => v.Waits ∧ q.record = true ∧ ∃ a, v.archive = some a ∧ (flag = true ↔ a.Whole)
  | .ended => v.Settles n q gone

def view (s : ZipState) (n : ℕ) : View :=
  ⟨s.phase n,s.archive n,s.events n,s.todo.filter (request · = n)⟩

/-- Every request is in a state of its own, and the pointers of an instance are those of its requests that
are not over. -/
structure Inv (s : ZipState) : Prop where
  fine : ∀ n q, s.calls[n]? = some q → (view s n).Fine n q (s.detached q.feature)
  fresh : ∀ n, s.calls.length ≤ n → view s n = ⟨.idle,none,[],[]⟩
  held : ∀ feature n, n ∈ s.zrArr feature → ∃ q, s.calls[n]? = some q ∧ q.feature = feature ∧
    (s.phase n = .ended → .context n ∈ s.todo)
  emptied : ∀ feature, s.detached feature = true → s.zrArr feature = []

theorem stage_append (r : ZipResource) (xs ys : List ZipEvent) :
    RequestEvent.stage r (xs ++ ys) = ys.foldl (RequestEvent.advance r) (RequestEvent.stage r xs) :=
  List.foldl_append

theorem invoked_append (xs ys : List ZipEvent) :
    RequestEvent.invoked (xs ++ ys) = RequestEvent.invoked xs ++ RequestEvent.invoked ys := by
  induction xs with
  | nil => rfl
  | cons e xs ih =>
    cases e with
    | invoke c =>
      rw [List.cons_append,RequestEvent.invoked,RequestEvent.invoked,ih]
      rfl
    | acquire r => exact ih
    | touch r => exact ih
    | release r => exact ih

theorem misused_of_part {r : ZipResource} {xs : List ZipEvent} (h : RequestEvent.stage r xs = .misused)
    (ys : List ZipEvent) : RequestEvent.stage r (xs ++ ys) = .misused := by
  rw [stage_append,h]
  induction ys with
  | nil => rfl
  | cons e ys ih =>
    have hstep : RequestEvent.advance r .misused e = .misused := by
      cases e <;> simp [RequestEvent.advance]
    rw [List.foldl_cons,hstep,ih]

theorem exists_truthful (archive : Option ZipArchive) : ∃ o, Truthful archive o := by
  by_cases hwhole : ∃ a, archive = some a ∧ a.Whole
  · exact ⟨.success,hwhole⟩
  · exact ⟨.fail "" 0,hwhole⟩

theorem events_tell (s : ZipState) (n m : ℕ) (events : List ZipEvent) :
    RequestRun.select m (s.tell n events) = s.events m ++ if m = n then events else [] := by
  unfold ZipState.tell ZipState.events
  rw [RequestRun.select_append]
  split_ifs with hm
  · rw [hm,RequestRun.select_own]
  · rw [RequestRun.select_other (Ne.symm hm)]

theorem filter_own (n : ℕ) (events : List ZipEvent) (todo : List ZipTask) :
    (events.map (ZipTask.run n) ++ todo).filter (request · = n) =
      events.map (ZipTask.run n) ++ todo.filter (request · = n) := by
  rw [List.filter_append,List.filter_eq_self.mpr]
  intro task htask
  obtain ⟨event,_,rfl⟩ := List.mem_map.mp htask
  exact decide_eq_true rfl

theorem filter_other {n m : ℕ} (hm : m ≠ n) (events : List ZipEvent) (todo : List ZipTask) :
    (events.map (ZipTask.run n) ++ todo).filter (request · = m) = todo.filter (request · = m) := by
  rw [List.filter_append,List.filter_eq_nil_iff.mpr,List.nil_append]
  intro task htask
  obtain ⟨event,_,rfl⟩ := List.mem_map.mp htask
  exact fun h => hm (of_decide_eq_true h).symm

theorem flatMap_run (n : ℕ) (events : List ZipEvent) : (events.map (ZipTask.run n)).flatMap taskEvents = events := by
  induction events with
  | nil => rfl
  | cons e events ih =>
    rw [List.map_cons,List.flatMap_cons,ih]
    rfl

theorem mem_tasks_iff (s : ZipState) (n : ℕ) : .context n ∈ (view s n).tasks ↔ .context n ∈ s.todo := by
  unfold view
  rw [List.mem_filter]
  exact and_iff_left (decide_eq_true rfl)

theorem prepare_held (C : PathConfig) (pkg : CString) (q : ZipCall) : (prepare C pkg q).held = [] ∧ q.record = false ∨
      q.record = true ∧ ((prepare C pkg q).held = [.record] ∨ ∃ srcPath dstPath, (prepare C pkg q).held =
          [.record,.handle] ++ (File.holding .srcPath srcPath ++ File.holding .dstPath dstPath)) := by
  unfold prepare
  by_cases hrecord : q.record = false
  · rw [if_pos hrecord]
    exact .inl ⟨rfl,hrecord⟩
  rw [if_neg hrecord]
  refine .inr ⟨by simpa using hrecord,?_⟩
  by_cases hloop : q.loop = false
  · rw [if_pos hloop]
    exact .inl rfl
  rw [if_neg hloop]
  cases q.srcUri with
  | none => exact .inl rfl
  | some srcUri =>
    cases q.dstUri with
    | none => exact .inl rfl
    | some dstUri =>
      dsimp only
      split_ifs
      · exact .inl rfl
      · exact .inr ⟨_,_,rfl⟩
      · exact .inr ⟨_,_,rfl⟩
      · exact .inr ⟨_,_,rfl⟩

variable {q : ZipCall}

theorem prepare_submitted {C : PathConfig} {pkg : CString} (h : (prepare C pkg q).failure = none) :
    (prepare C pkg q).held = submitted ∧ q.record = true := by
  unfold prepare at h ⊢
  by_cases hrecord : q.record = false
  · rw [if_pos hrecord] at h
    cases h
  rw [if_neg hrecord] at h ⊢
  refine ⟨?_,by simpa using hrecord⟩
  by_cases hloop : q.loop = false
  · rw [if_pos hloop] at h
    cases h
  rw [if_neg hloop] at h ⊢
  cases hsrc : q.srcUri with
  | none =>
    rw [hsrc] at h
    cases h
  | some srcUri =>
    cases hdst : q.dstUri with
    | none =>
      rw [hsrc,hdst] at h
      cases h
    | some dstUri =>
      rw [hsrc,hdst] at h
      dsimp only at h ⊢
      split_ifs at h ⊢ with htmp hnone
      rw [Bool.or_eq_true,not_or] at hnone
      cases hsrcPath : File.loadPath C pkg true srcUri with
      | none => exact absurd (congrArg Option.isNone hsrcPath) hnone.1
      | some srcPath =>
        cases hdstPath : C.appRelativeToAbsolutePath pkg dstUri with
        | none => exact absurd (congrArg Option.isNone hdstPath) hnone.2
        | some dstPath => rfl

theorem failing_settles (C : PathConfig) (pkg : CString) (q : ZipCall) (msg : String) (code : ℤ) (n : ℕ) :
    View.Settles ⟨.ended,none,acquired (prepare C pkg q).held ++ [.invoke (.fail msg code)],
      (failing (prepare C pkg q).held).map (.run n)⟩ n q false := by
  refine ⟨?_,.inl ⟨.fail msg code,?_,?_⟩,fun _ => rfl⟩
  · unfold View.promised
    rw [flatMap_run]
    rcases prepare_held C pkg q with ⟨hheld,hrecord⟩ | ⟨hrecord,hheld | ⟨srcPath,dstPath,hheld⟩⟩
    · rw [hheld,hrecord]
      rfl
    · rw [hheld,hrecord]
      rfl
    · rw [hheld,hrecord]
      cases srcPath <;> cases dstPath <;> rfl
  · rintro ⟨a,ha,_⟩
    cases ha
  · unfold View.promised
    rw [flatMap_run]
    rcases prepare_held C pkg q with ⟨hheld,_⟩ | ⟨_,hheld | ⟨srcPath,dstPath,hheld⟩⟩
    · rw [hheld]
      rfl
    · rw [hheld]
      rfl
    · rw [hheld]
      cases srcPath <;> cases dstPath <;> rfl

variable {n : ℕ}

theorem calls_append {calls : List ZipCall} {q q' : ZipCall} (h : (calls ++ [q])[n]? = some q') :
    calls[n]? = some q' ∧ n ≠ calls.length ∨ n = calls.length ∧ q' = q := by
  rw [List.getElem?_append] at h
  split_ifs at h with hlt
  · exact .inl ⟨h,hlt.ne⟩
  · rw [List.getElem?_singleton] at h
    split_ifs at h with heq
    exact .inr ⟨by omega,(Option.some.inj h).symm⟩

variable {C : PathConfig} {pkg : CString} {uvStrerror : ℤ → String} {s : ZipState}

theorem Inv.init : Inv {} where
  fine n q h := by simp at h
  fresh n _ := rfl
  held feature n h := by cases h
  emptied feature h := by cases h

/-- A call keeps the invariant if it adds a request in a good state, and a pointer to it at most. -/
theorem Inv.add (hs : Inv s) (s' : ZipState) (q : ZipCall) (hcalls : s'.calls = s.calls ++ [q])
    (hdetached : s'.detached = s.detached) (hlive : s.detached q.feature = false)
    (hnew : (view s' s.calls.length).Fine s.calls.length q (s.detached q.feature))
    (hold : ∀ n, n ≠ s.calls.length → view s' n = view s n)
    (harr : ∀ feature n, n ∈ s'.zrArr feature → n ∈ s.zrArr feature ∨
      feature = q.feature ∧ n = s.calls.length ∧ s'.phase n ≠ .ended) : Inv s' := by
  refine ⟨fun n q' hq => ?_,fun n hn => ?_,fun feature n hn => ?_,fun feature hgone => ?_⟩
  · rw [hcalls] at hq
    rw [hdetached]
    obtain ⟨hq,hne⟩ | ⟨rfl,rfl⟩ := calls_append hq
    · rw [hold n hne]
      exact hs.fine n q' hq
    · exact hnew
  · rw [hcalls,List.length_append,List.length_singleton] at hn
    rw [hold n (by omega)]
    exact hs.fresh n (by omega)
  · rw [hcalls]
    obtain hn | ⟨rfl,rfl,hphase⟩ := harr feature n hn
    · obtain ⟨q',hq,hfeature,hended⟩ := hs.held feature n hn
      have hlt := (List.getElem?_eq_some_iff.mp hq).1
      refine ⟨q',?_,hfeature,fun hphase => ?_⟩
      · rw [List.getElem?_append_left hlt]
        exact hq
      · rw [← mem_tasks_iff,hold n hlt.ne,mem_tasks_iff]
        apply hended
        have hsame := congrArg View.phase (hold n hlt.ne)
        exact hsame.symm.trans hphase
    · exact ⟨q,List.getElem?_concat_length,rfl,fun h => absurd h hphase⟩
  · rw [hdetached] at hgone
    refine List.eq_nil_iff_forall_not_mem.mpr (fun n hn => ?_)
    obtain hn | ⟨rfl,_⟩ := harr feature n hn
    · rw [hs.emptied feature hgone] at hn
      cases hn
    · rw [hlive] at hgone
      cases hgone

theorem Inv.call (hs : Inv s) (q : ZipCall) (hmeets : (prepare C pkg q).failure = none → q.queued = 0) :
    Inv (s.call C pkg q) := by
  unfold ZipState.call
  by_cases hdetached : s.detached q.feature = true
  · rw [if_pos hdetached]
    exact hs
  rw [if_neg hdetached]
  rw [Bool.not_eq_true] at hdetached
  have hfresh := hs.fresh s.calls.length le_rfl
  have harchive : s.archive s.calls.length = none := congrArg View.archive hfresh
  have hevents : s.events s.calls.length = [] := congrArg View.events hfresh
  have htasks : s.todo.filter (request · = s.calls.length) = [] := congrArg View.tasks hfresh
  cases hfailure : (prepare C pkg q).failure with
  | some failure =>
    obtain ⟨msg,code⟩ := failure
    dsimp only
    refine hs.add _ q rfl rfl hdetached ?_ ?_ ?_
    · unfold view ZipState.events
      dsimp only
      rw [Function.update_self,events_tell,if_pos rfl,harchive,hevents,filter_own,htasks,
        List.append_nil,List.nil_append,hdetached]
      exact failing_settles C pkg q msg code s.calls.length
    · intro n hn
      unfold view ZipState.events
      dsimp only
      rw [Function.update_of_ne hn,events_tell,if_neg hn,List.append_nil,filter_other hn]
      rfl
    · exact fun feature n hn => .inl hn
  | none =>
    have hqueued := hmeets hfailure
    obtain ⟨hheld,hrecord⟩ := prepare_submitted hfailure
    dsimp only
    refine hs.add _ q rfl rfl hdetached ?_ ?_ ?_
    · unfold view ZipState.events
      dsimp only
      rw [Function.update_self,events_tell,if_pos rfl,harchive,hevents,htasks,hheld,List.nil_append,if_pos hqueued]
      exact ⟨⟨rfl,rfl,rfl⟩,hrecord,rfl⟩
    · intro n hn
      unfold view ZipState.events
      dsimp only
      rw [Function.update_of_ne hn,events_tell,if_neg hn,List.append_nil]
      rfl
    · intro feature n hn
      dsimp only at hn
      by_cases hfeature : feature = q.feature
      · subst hfeature
        rw [Function.update_self] at hn
        obtain hn | hn := List.mem_append.mp hn
        · exact .inl hn
        · obtain rfl := List.mem_singleton.mp hn
          refine .inr ⟨rfl,rfl,?_⟩
          dsimp only
          rw [Function.update_self,if_pos hqueued]
          nofun
      · rw [Function.update_of_ne hfeature] at hn
        exact .inl hn

/-- A step keeps the invariant if it changes one request, to a good state, and adds no pointer. -/
theorem Inv.change (hs : Inv s) (s' : ZipState) (hq : s.calls[n]? = some q)
    (hcalls : s'.calls = s.calls) (hdetached : s'.detached = s.detached)
    (hnew : (view s' n).Fine n q (s.detached q.feature)) (hold : ∀ m, m ≠ n → view s' m = view s m)
    (harr : ∀ feature m, m ∈ s'.zrArr feature → m ∈ s.zrArr feature ∧
      (m = n → s'.phase n = .ended → .context n ∈ s'.todo)) : Inv s' := by
  refine ⟨fun m q' hq' => ?_,fun m hm => ?_,fun feature m hm => ?_,fun feature hgone => ?_⟩
  · rw [hcalls] at hq'
    rw [hdetached]
    by_cases hne : m = n
    · subst hne
      obtain rfl := Option.some.inj (hq.symm.trans hq')
      exact hnew
    · rw [hold m hne]
      exact hs.fine m q' hq'
  · rw [hcalls] at hm
    have hlt := (List.getElem?_eq_some_iff.mp hq).1
    rw [hold m (by omega)]
    exact hs.fresh m hm
  · obtain ⟨hm,hended⟩ := harr feature m hm
    obtain ⟨q',hq',hfeature,hwas⟩ := hs.held feature m hm
    refine ⟨q',hcalls ▸ hq',hfeature,fun hphase => ?_⟩
    by_cases hne : m = n
    · subst hne
      exact hended rfl hphase
    · rw [← mem_tasks_iff,hold m hne,mem_tasks_iff]
      apply hwas
      exact (congrArg View.phase (hold m hne)).symm.trans hphase
  · rw [hdetached] at hgone
    refine List.eq_nil_iff_forall_not_mem.mpr (fun m hm => ?_)
    have hm := (harr feature m hm).1
    rw [hs.emptied feature hgone] at hm
    cases hm

theorem Inv.exists_call (hs : Inv s) (h : view s n ≠ ⟨.idle,none,[],[]⟩) : ∃ q, s.calls[n]? = some q := by
  have hlt : n < s.calls.length := by
    by_contra hn
    exact h (hs.fresh n (not_lt.mp hn))
  exact ⟨s.calls[n],List.getElem?_eq_getElem hlt⟩

variable {v : View}

theorem waits_touch (h : v.Waits) (k : ℕ) (phase : ZipPhase) (archive : Option ZipArchive) :
    View.Waits ⟨phase,archive,v.events ++ List.replicate k (.touch .record),v.tasks⟩ := by
  have hpart : RequestEvent.stage .record (v.events ++ List.replicate k (.touch .record)) = .held ∧
      RequestEvent.invoked (v.events ++ List.replicate k (.touch .record)) = [] := by
    induction k with
    | zero =>
      rw [List.replicate_zero,List.append_nil]
      exact ⟨h.stage,h.invoked⟩
    | succ k ih =>
      rw [List.replicate_succ',← List.append_assoc,stage_append,invoked_append,ih.1,ih.2]
      exact ⟨rfl,rfl⟩
  exact ⟨hpart.1,hpart.2,h.tasks⟩

theorem view_moved (s : ZipState) (n : ℕ) (phase : ZipPhase) (archive : ℕ → Option ZipArchive) :
    view { s with
      phase := Function.update s.phase n phase
      archive := archive
      log := s.tell n [.touch .record] } n =
      ⟨phase,archive n,(view s n).events ++ List.replicate 1 (.touch .record),(view s n).tasks⟩ := by
  unfold view ZipState.events
  dsimp only
  rw [Function.update_self,events_tell,if_pos rfl]
  rfl

theorem view_unmoved (s : ZipState) {n m : ℕ} (hm : m ≠ n) (phase : ZipPhase)
    (archive : ℕ → Option ZipArchive) (harchive : archive m = s.archive m) (events : List ZipEvent) :
    view { s with
      phase := Function.update s.phase n phase
      archive := archive
      log := s.tell n events } m = view s m := by
  unfold view ZipState.events
  dsimp only
  rw [Function.update_of_ne hm,events_tell,if_neg hm,List.append_nil,harchive]
  rfl

theorem Inv.work (hs : Inv s) (n : ℕ) : Inv (s.work n) := by
  unfold ZipState.work
  by_cases hphase : s.phase n = .queued
  · rw [if_pos hphase]
    obtain ⟨q,hq⟩ := hs.exists_call (n := n) (fun h => by
      have hidle : s.phase n = .idle := congrArg View.phase h
      rw [hphase] at hidle
      cases hidle)
    have hfine := hs.fine n q hq
    unfold View.Fine at hfine
    rw [show (view s n).phase = .queued from hphase] at hfine
    refine hs.change _ hq rfl rfl ?_ ?_ ?_
    · rw [view_moved s n .working s.archive]
      exact ⟨waits_touch hfine.1 1 .working _,hfine.2.1,hfine.2.2⟩
    · exact fun m hm => view_unmoved s hm .working s.archive rfl _
    · refine fun feature m hm => ⟨hm,fun _ hended => ?_⟩
      dsimp only at hended
      rw [Function.update_self] at hended
      cases hended
  · rw [if_neg hphase]
    exact hs

theorem Inv.worked (hs : Inv s) (n : ℕ) (archive : ZipArchive)
    (hmeets : ∀ q, s.calls[n]? = some q → if archive.unzipped then archive.Whole else q.flag = false) :
    Inv (s.worked n archive) := by
  unfold ZipState.worked
  cases hq : s.calls[n]? with
  | none => exact hs
  | some q =>
    dsimp only
    by_cases hphase : s.phase n = .working
    · rw [if_pos hphase]
      have hfine := hs.fine n q hq
      unfold View.Fine at hfine
      rw [show (view s n).phase = .working from hphase] at hfine
      have hflag : (archive.unzipped || q.flag) = true ↔ archive.Whole := by
        have hwhole := hmeets q hq
        cases hunzipped : archive.unzipped with
        | true =>
          rw [hunzipped,if_pos rfl] at hwhole
          exact iff_of_true rfl hwhole
        | false =>
          rw [hunzipped,if_neg Bool.false_ne_true] at hwhole
          rw [hwhole]
          refine iff_of_false Bool.false_ne_true (fun h => ?_)
          rw [h.1] at hunzipped
          cases hunzipped
      refine hs.change _ hq rfl rfl ?_ ?_ ?_
      · rw [view_moved s n (.worked (archive.unzipped || q.flag)) (Function.update s.archive n (some archive))]
        exact ⟨waits_touch hfine.1 1 _ _,hfine.2.1,archive,Function.update_self ..,hflag⟩
      · exact fun m hm => view_unmoved s hm _ _ (Function.update_of_ne hm _ _) _
      · refine fun feature m hm => ⟨hm,fun _ hended => ?_⟩
        dsimp only at hended
        rw [Function.update_self] at hended
        cases hended
    · rw [if_neg hphase]
      exact hs

/-- The record of a request that waits is given up when its instance is gone. -/
theorem Inv.drop (hs : Inv s) (hq : s.calls[n]? = some q) (hwaits : (view s n).Waits)
    (hrecord : q.record = true) (hgone : s.detached q.feature = true) : Inv (s.drop n) := by
  refine hs.change _ hq rfl rfl ?_ ?_ ?_
  · have hview : view (s.drop n) n = ⟨.ended,s.archive n,
        (view s n).events ++ (.touch .record :: freeZipReq submitted),(view s n).tasks⟩ := by
      unfold view ZipState.events ZipState.drop
      dsimp only
      rw [Function.update_self,events_tell,if_pos rfl]
      rfl
    rw [hview,hwaits.tasks,hgone]
    refine ⟨?_,.inr ⟨?_,rfl⟩,fun h => by cases h⟩
    · unfold View.promised
      rw [List.flatMap_nil,List.append_nil,stage_append,hwaits.stage,hrecord]
      rfl
    · unfold View.promised
      rw [List.flatMap_nil,List.append_nil,invoked_append,hwaits.invoked]
      rfl
  · exact fun m hm => view_unmoved s hm .ended s.archive rfl _
  · intro feature m hm
    refine ⟨hm,fun heq _ => ?_⟩
    obtain ⟨q',hq',hfeature,_⟩ := hs.held feature m hm
    rw [heq,hq] at hq'
    obtain rfl := Option.some.inj hq'
    have hm : m ∈ s.zrArr feature := hm
    rw [hs.emptied feature (hfeature ▸ hgone)] at hm
    cases hm

theorem outcome_truthful {archive : ZipArchive} {flag : Bool} (h : flag = true ↔ archive.Whole) :
    Truthful (some archive) (outcome uvStrerror flag) := by
  cases flag with
  | true => exact ⟨archive,rfl,h.mp rfl⟩
  | false =>
    rintro ⟨a,ha,hwhole⟩
    obtain rfl := Option.some.inj ha
    exact Bool.false_ne_true (h.mpr hwhole)

theorem completing_settles (hwaits : v.Waits) {archive : ZipArchive} {flag : Bool}
    (hflag : flag = true ↔ archive.Whole) (hrecord : q.record = true) (n : ℕ) :
    View.Settles ⟨.ended,some archive,v.events ++ [.touch .record,.invoke (outcome uvStrerror flag)],
      completing.map (.run n) ++ [.context n]⟩ n q false := by
  have hahead : (completing.map (ZipTask.run n) ++ [ZipTask.context n]).flatMap taskEvents =
      completing ++ freeZipReq submitted := by
    rw [List.flatMap_append,flatMap_run]
    rfl
  refine ⟨?_,.inl ⟨outcome uvStrerror flag,outcome_truthful hflag,?_⟩,fun _ => rfl⟩
  · unfold View.promised
    rw [hahead,stage_append,stage_append,hwaits.stage,hrecord]
    rfl
  · unfold View.promised
    rw [hahead,invoked_append,invoked_append,hwaits.invoked]
    rfl

theorem Inv.after (hs : Inv s) (n : ℕ) : Inv (s.after uvStrerror n) := by
  unfold ZipState.after
  cases hq : s.calls[n]? with
  | none => exact hs
  | some q =>
    cases htodo : s.todo with
    | cons task todo => exact hs
    | nil =>
      have hfine := hs.fine n q hq
      unfold View.Fine at hfine
      cases hphase : s.phase n with
      | idle => exact hs
      | refused => exact hs
      | queued => exact hs
      | working => exact hs
      | ended => exact hs
      | cancelled =>
        rw [show (view s n).phase = .cancelled from hphase] at hfine
        exact hs.drop hq hfine.1 hfine.2.1 hfine.2.2
      | worked flag =>
        rw [show (view s n).phase = .worked flag from hphase] at hfine
        obtain ⟨hwaits,hrecord,archive,harchive,hflag⟩ := hfine
        dsimp only
        cases hgone : s.detached q.feature with
        | true => exact hs.drop hq hwaits hrecord hgone
        | false =>
          rw [if_neg Bool.false_ne_true]
          refine hs.change _ hq rfl rfl ?_ ?_ ?_
          · have hwhole : (completing.map (ZipTask.run n) ++ [ZipTask.context n]).filter (request · = n) =
                completing.map (ZipTask.run n) ++ [ZipTask.context n] := by
              rw [filter_own]
              congr 1
              exact List.filter_eq_self.mpr (fun task htask => by
                rw [List.mem_singleton.mp htask]
                exact decide_eq_true rfl)
            unfold view ZipState.events
            dsimp only
            rw [Function.update_self,events_tell,if_pos rfl,hwhole,
              show s.archive n = some archive from harchive,hgone]
            exact completing_settles hwaits hflag hrecord n
          · intro m hm
            have hnone : (completing.map (ZipTask.run n) ++ [ZipTask.context n]).filter (request · = m) = [] := by
              rw [filter_other hm]
              exact List.filter_eq_nil_iff.mpr (fun task htask => by
                rw [List.mem_singleton.mp htask]
                exact fun h => hm (of_decide_eq_true h).symm)
            unfold view ZipState.events
            dsimp only
            rw [Function.update_of_ne hm,events_tell,if_neg hm,List.append_nil,hnone,htodo]
            rfl
          · exact fun feature m hm => ⟨hm,fun _ _ =>
              List.mem_append_right _ (List.mem_singleton_self _)⟩

theorem select_touches (l : List ℕ) (n : ℕ) : RequestRun.select n (l.map (fun m => (m,(.touch .record : ZipEvent)))) =
      List.replicate (l.count n) (.touch .record) := by
  induction l with
  | nil => rfl
  | cons m l ih =>
    rw [List.map_cons,List.count_cons]
    by_cases hm : m = n
    · have hhead : RequestRun.select n ((m,(.touch .record : ZipEvent)) ::
          l.map (fun m => (m,(.touch .record : ZipEvent)))) = .touch .record ::
            RequestRun.select n (l.map (fun m => (m,(.touch .record : ZipEvent)))) := by
        simp [RequestRun.select,hm]
      rw [hhead,ih,if_pos (beq_iff_eq.mpr hm),List.replicate_succ]
    · have htail : RequestRun.select n ((m,(.touch .record : ZipEvent)) ::
          l.map (fun m => (m,(.touch .record : ZipEvent)))) =
            RequestRun.select n (l.map (fun m => (m,(.touch .record : ZipEvent)))) := by
        simp [RequestRun.select,hm]
      rw [htail,ih,if_neg (fun h => hm (beq_iff_eq.mp h)),Nat.add_zero]

theorem fine_gone {gone : Bool} (h : v.Fine n q gone) (hidle : .context n ∉ v.tasks) : v.Fine n q true := by
  unfold View.Fine at h ⊢
  cases hphase : v.phase with
  | idle => rw [hphase] at h; exact h
  | refused => rw [hphase] at h; exact h
  | queued => rw [hphase] at h; exact h
  | working => rw [hphase] at h; exact h
  | worked flag => rw [hphase] at h; exact h
  | cancelled =>
    rw [hphase] at h
    exact ⟨h.1,h.2.1,rfl⟩
  | ended =>
    rw [hphase] at h
    exact ⟨h.stage,h.told.imp_right (fun hnone => ⟨hnone.1,rfl⟩),fun hmem => absurd hmem hidle⟩

theorem fine_detached {gone : Bool} (h : v.Fine n q gone) (hphase : v.phase ≠ .ended) (k : ℕ) :
    View.Fine ⟨if v.phase = .queued then .cancelled else v.phase,v.archive,
      v.events ++ List.replicate k (.touch .record),v.tasks⟩ n q true := by
  unfold View.Fine at h ⊢
  cases hv : v.phase with
  | idle => rw [hv] at h; exact h.elim
  | refused => rw [hv] at h; exact h.elim
  | ended => exact absurd hv hphase
  | queued =>
    rw [hv] at h
    exact ⟨waits_touch h.1 k _ _,h.2.1,rfl⟩
  | cancelled =>
    rw [hv] at h
    exact ⟨waits_touch h.1 k _ _,h.2.1,rfl⟩
  | working =>
    rw [hv] at h
    exact ⟨waits_touch h.1 k _ _,h.2⟩
  | worked flag =>
    rw [hv] at h
    exact ⟨waits_touch h.1 k _ _,h.2⟩

theorem Inv.detach (hs : Inv s) (feature : ℕ)
    (hmeets : ∀ n q, s.calls[n]? = some q → q.feature = feature → .context n ∉ s.todo) :
    Inv (s.detach feature) := by
  unfold ZipState.detach
  by_cases hgone : s.detached feature = true
  · rw [if_pos hgone]
    exact hs
  rw [if_neg hgone]
  have hview : ∀ n, view { s with
      phase := fun n => if n ∈ s.zrArr feature ∧ s.phase n = .queued then .cancelled else s.phase n
      zrArr := Function.update s.zrArr feature []
      detached := Function.update s.detached feature true
      log := s.log ++ (s.zrArr feature).map (fun n => (n,.touch .record)) } n =
      ⟨if n ∈ s.zrArr feature ∧ s.phase n = .queued then .cancelled else s.phase n,s.archive n,
        (view s n).events ++ List.replicate ((s.zrArr feature).count n) (.touch .record),
        (view s n).tasks⟩ := by
    intro n
    unfold view ZipState.events
    dsimp only
    rw [RequestRun.select_append,select_touches]
  have hother : ∀ n, n ∉ s.zrArr feature → view { s with
      phase := fun n => if n ∈ s.zrArr feature ∧ s.phase n = .queued then .cancelled else s.phase n
      zrArr := Function.update s.zrArr feature []
      detached := Function.update s.detached feature true
      log := s.log ++ (s.zrArr feature).map (fun n => (n,.touch .record)) } n = view s n := by
    intro n hn
    rw [hview n,if_neg (fun h => hn h.1),List.count_eq_zero.mpr hn,List.replicate_zero,List.append_nil]
    rfl
  refine ⟨fun n q hq => ?_,fun n hn => ?_,fun feature' n hn => ?_,fun feature' hgone' => ?_⟩
  · dsimp only
    have hfine := hs.fine n q hq
    by_cases hfeature : q.feature = feature
    · rw [hfeature,Function.update_self]
      have hidle : .context n ∉ s.todo := hmeets n q hq hfeature
      by_cases hmem : n ∈ s.zrArr feature
      · obtain ⟨_,_,_,hended⟩ := hs.held feature n hmem
        have hphase : (view s n).phase ≠ .ended := fun h => hidle (hended h)
        rw [hview n]
        have hdetached := fine_detached hfine hphase ((s.zrArr feature).count n)
        have hcond : (n ∈ s.zrArr feature ∧ s.phase n = .queued) = ((view s n).phase = .queued) :=
          propext (and_iff_right hmem)
        simp only [hcond]
        exact hdetached
      · rw [hother n hmem]
        exact fine_gone hfine (fun h => hidle ((mem_tasks_iff s n).mp h))
    · have hmem : n ∉ s.zrArr feature := by
        intro hmem
        obtain ⟨q',hq',hfeature',_⟩ := hs.held feature n hmem
        obtain rfl := Option.some.inj (hq.symm.trans hq')
        exact hfeature hfeature'
      rw [hother n hmem,Function.update_of_ne hfeature]
      exact hfine
  · have hmem : n ∉ s.zrArr feature := by
      intro hmem
      obtain ⟨_,hq',_⟩ := hs.held feature n hmem
      exact absurd (List.getElem?_eq_some_iff.mp hq').1 (not_lt.mpr hn)
    rw [hother n hmem]
    exact hs.fresh n hn
  · dsimp only at hn ⊢
    by_cases hfeature : feature' = feature
    · subst hfeature
      rw [Function.update_self] at hn
      cases hn
    · rw [Function.update_of_ne hfeature] at hn
      obtain ⟨q,hq,hown,hended⟩ := hs.held feature' n hn
      refine ⟨q,hq,hown,fun hphase => hended ?_⟩
      by_cases hcond : n ∈ s.zrArr feature ∧ s.phase n = .queued
      · rw [if_pos hcond] at hphase
        cases hphase
      · rwa [if_neg hcond] at hphase
  · dsimp only at hgone' ⊢
    by_cases hfeature : feature' = feature
    · subst hfeature
      exact Function.update_self ..
    · rw [Function.update_of_ne hfeature] at hgone' ⊢
      exact hs.emptied feature' hgone'

theorem Inv.settles (hs : Inv s) {task : ZipTask} (htask : task ∈ s.todo) :
    ∃ q, s.calls[request task]? = some q ∧ s.phase (request task) = .ended ∧
      (view s (request task)).Settles (request task) q (s.detached q.feature) := by
  have hmem : task ∈ (view s (request task)).tasks :=
    List.mem_filter.mpr ⟨htask,decide_eq_true rfl⟩
  obtain ⟨q,hq⟩ := hs.exists_call (n := request task) (fun h => by
    rw [h] at hmem
    cases hmem)
  have hfine := hs.fine (request task) q hq
  unfold View.Fine at hfine
  have hbusy : ¬ (view s (request task)).Waits := by
    intro hwaits
    rw [hwaits.tasks] at hmem
    cases hmem
  refine ⟨q,hq,?_⟩
  cases hphase : (view s (request task)).phase with
  | idle => rw [hphase] at hfine; exact hfine.elim
  | refused => rw [hphase] at hfine; exact hfine.elim
  | queued => rw [hphase] at hfine; exact absurd hfine.1 hbusy
  | cancelled => rw [hphase] at hfine; exact absurd hfine.1 hbusy
  | working => rw [hphase] at hfine; exact absurd hfine.1 hbusy
  | worked flag => rw [hphase] at hfine; exact absurd hfine.1 hbusy
  | ended =>
    rw [hphase] at hfine
    exact ⟨hphase,hfine⟩

theorem settles_next {gone : Bool} {task : ZipTask} {tasks : List ZipTask}
    (h : v.Settles n q gone) (htasks : v.tasks = task :: tasks) (phase : ZipPhase) :
    View.Settles ⟨phase,v.archive,v.events ++ taskEvents task,tasks⟩ n q gone := by
  have hsame : View.promised ⟨phase,v.archive,v.events ++ taskEvents task,tasks⟩ = v.promised := by
    unfold View.promised
    dsimp only
    rw [htasks,List.flatMap_cons,List.append_assoc]
  refine ⟨?_,?_,fun hmem => h.live ?_⟩
  · rw [hsame]
    exact h.stage
  · rw [hsame]
    exact h.told
  · rw [htasks]
    exact List.mem_cons_of_mem task hmem

theorem Inv.next (hs : Inv s) : Inv s.next := by
  unfold ZipState.next
  cases htodo : s.todo with
  | nil => exact hs
  | cons task todo =>
    have htask : task ∈ s.todo := by
      rw [htodo]
      exact List.mem_cons_self
    obtain ⟨q,hq,hphase,hsettles⟩ := hs.settles htask
    have htasks : (view s (request task)).tasks = task :: todo.filter (request · = request task) := by
      unfold view
      dsimp only
      rw [htodo]
      exact List.filter_cons_of_pos (decide_eq_true rfl)
    have hother : ∀ m, m ≠ request task → s.todo.filter (request · = m) = todo.filter (request · = m) := by
      intro m hm
      rw [htodo,List.filter_cons_of_neg]
      exact fun h => hm (of_decide_eq_true h).symm
    have hnext := settles_next hsettles htasks .ended
    cases task with
    | run n event =>
      have hq : s.calls[n]? = some q := hq
      have hphase : s.phase n = .ended := hphase
      have hother : ∀ m, m ≠ n → s.todo.filter (request · = m) = todo.filter (request · = m) := hother
      dsimp only
      refine hs.change _ hq rfl rfl ?_ ?_ ?_
      · unfold view ZipState.events View.Fine
        dsimp only
        rw [events_tell,if_pos rfl,hphase]
        exact hnext
      · intro m hm
        unfold view ZipState.events
        dsimp only
        rw [events_tell,if_neg hm,List.append_nil,hother m hm]
        rfl
      · intro feature m hm
        refine ⟨hm,fun heq _ => ?_⟩
        obtain ⟨_,_,_,hended⟩ := hs.held feature m hm
        have hmem := hended (heq ▸ hphase)
        rw [htodo,heq] at hmem
        cases hmem with
        | tail _ hmem => exact hmem
    | context n =>
      have hlive : s.detached q.feature = false := by
        apply hsettles.live
        rw [htasks]
        exact List.mem_cons_self
      have hq : s.calls[n]? = some q := hq
      have hphase : s.phase n = .ended := hphase
      have hother : ∀ m, m ≠ n → s.todo.filter (request · = m) = todo.filter (request · = m) := hother
      simp only [hq,hlive,Bool.false_eq_true,if_false]
      refine hs.change _ hq rfl rfl ?_ ?_ ?_
      · unfold view ZipState.events View.Fine
        dsimp only
        rw [events_tell,if_pos rfl,hphase]
        exact hnext
      · intro m hm
        unfold view ZipState.events
        dsimp only
        rw [events_tell,if_neg hm,List.append_nil,hother m hm]
        rfl
      · intro feature m hm
        dsimp only at hm
        by_cases hfeature : feature = q.feature
        · subst hfeature
          rw [Function.update_self,List.mem_filter] at hm
          exact ⟨hm.1,fun heq => absurd heq (of_decide_eq_true hm.2)⟩
        · rw [Function.update_of_ne hfeature] at hm
          refine ⟨hm,fun heq => ?_⟩
          obtain ⟨q',hq',hown,_⟩ := hs.held feature m hm
          rw [heq] at hq'
          obtain rfl := Option.some.inj (hq.symm.trans hq')
          exact absurd hown.symm hfeature

theorem Inv.step (hs : Inv s) (op : ZipOrder) (hmeets : Meets C pkg s op) : Inv (s.step C pkg uvStrerror op) := by
  cases op with
  | call q => exact hs.call q hmeets.1
  | work n => exact hs.work n
  | worked n archive => exact hs.worked n archive hmeets
  | after n => exact hs.after n
  | detach feature => exact hs.detach feature hmeets
  | next => exact hs.next

def Delivers (s : ZipState) : Prop := rules.Delivers s.calls s.detached (Open s) s.lost s.missed

/-- A call adds tasks of its own at most. -/
theorem Delivers.add (hs : Delivers s) (s' : ZipState) (q : ZipCall) (hmeets : Meets C pkg s (.call q))
    (hcalls : s'.calls = s.calls ++ [q])
    (hsame : s'.detached = s.detached ∧ s'.lost = s.lost ∧ s'.missed = s.missed)
    (hphase : ∀ n, n ≠ s.calls.length → s'.phase n = s.phase n)
    (htodo : ∀ task ∈ s'.todo, task ∈ s.todo ∨ request task = s.calls.length) : Delivers s' := by
  unfold Delivers
  rw [hcalls,hsame.1,hsame.2.1,hsame.2.2]
  refine hs.enter q (fun n hn => ?_) hmeets.2
  obtain ⟨hlt,hopen⟩ := hn
  rw [hcalls,List.length_append,List.length_singleton] at hlt
  by_cases hne : n = s.calls.length
  · exact .inr hne
  refine .inl ⟨by omega,by omega,hopen.imp (hphase n hne ▸ ·) ?_⟩
  rintro ⟨task,htask,hown⟩
  exact ⟨task,(htodo task htask).resolve_right (fun h => hne (hown.symm.trans h)),hown⟩

theorem Delivers.call (hs : Delivers s) (q : ZipCall) (hmeets : Meets C pkg s (.call q)) :
    Delivers (s.call C pkg q) := by
  unfold ZipState.call
  by_cases hdetached : s.detached q.feature = true
  · rw [if_pos hdetached]
    exact hs
  rw [if_neg hdetached]
  cases hfailure : (prepare C pkg q).failure with
  | some failure =>
    refine hs.add _ q hmeets rfl ⟨rfl,rfl,rfl⟩ (fun n hn => Function.update_of_ne hn _ _) (fun task htask => ?_)
    rcases List.mem_append.mp htask with htask | htask
    · obtain ⟨event,_,rfl⟩ := List.mem_map.mp htask
      exact .inr rfl
    · exact .inl htask
  | none =>
    exact hs.add _ q hmeets rfl ⟨rfl,rfl,rfl⟩ (fun n hn => Function.update_of_ne hn _ _) (fun task htask => .inl htask)

/-- A request that is not over is the only one whose phase or tasks change. -/
theorem Delivers.change (hs : Delivers s) (hopen : Open s n) (s' : ZipState) (hcalls : s'.calls = s.calls)
    (hsame : s'.detached = s.detached ∧ s'.lost = s.lost ∧ s'.missed = s.missed)
    (hphase : ∀ m, m ≠ n → s'.phase m = s.phase m)
    (htodo : ∀ task ∈ s'.todo, task ∈ s.todo ∨ request task = n) : Delivers s' := by
  unfold Delivers
  rw [hcalls,hsame.1,hsame.2.1,hsame.2.2]
  refine hs.mono (fun m hm => ?_) (fun _ => id)
  by_cases hne : m = n
  · exact hne ▸ hopen
  refine ⟨hcalls ▸ hm.1,hm.2.imp (hphase m hne ▸ ·) ?_⟩
  rintro ⟨task,htask,hown⟩
  exact ⟨task,(htodo task htask).resolve_right (fun h => hne (hown.symm.trans h)),hown⟩

theorem Delivers.after (hs : Delivers s) (n : ℕ) : Delivers (s.after uvStrerror n) := by
  unfold ZipState.after
  split
  · next hq _ hphase =>
    exact hs.change ⟨(List.getElem?_eq_some_iff.mp hq).1,.inl (by simp [hphase])⟩ (s.drop n) rfl ⟨rfl,rfl,rfl⟩
      (fun m hm => Function.update_of_ne hm _ _) (fun task htask => .inl htask)
  · next flag hq _ hphase =>
    have hopen : Open s n := ⟨(List.getElem?_eq_some_iff.mp hq).1,.inl (by simp [hphase])⟩
    split_ifs
    · exact hs.change hopen (s.drop n) rfl ⟨rfl,rfl,rfl⟩
        (fun m hm => Function.update_of_ne hm _ _) (fun task htask => .inl htask)
    · generalize outcome uvStrerror flag = o
      have hrobs : rules.robs s.calls (n,.invoke o) = [] := by
        unfold CallbackRules.robs
        rw [hq]
        rfl
      have hemit : Delivers { s with
          lost := s.lost ++ rules.robs s.calls (n,.invoke o)
          missed := s.missed ++ rules.misses s.calls s.detached s.lost (n,.invoke o) } :=
        hs.emit (n,.invoke o) (fun _ _ => hopen)
      rw [hrobs,List.append_nil] at hemit
      refine hemit.change hopen _ rfl ⟨rfl,rfl,rfl⟩ (fun m hm => Function.update_of_ne hm _ _)
        (fun task htask => .inr ?_)
      simp only [completing,removeAllCallback,List.mem_append,List.mem_map,List.mem_singleton] at htask
      rcases htask with ⟨event,_,rfl⟩ | rfl <;> rfl
  · exact hs

theorem Delivers.next (hs : Delivers s) : Delivers s.next := by
  unfold ZipState.next
  have hless : ∀ {task todo}, s.todo = task :: todo → ∀ phase : ℕ → ZipPhase, ∀ m, (m < s.calls.length ∧
      (s.phase m ≠ .ended ∨ ∃ t ∈ todo, request t = m)) → Open s m := by
    rintro task todo htodo _ m ⟨hlt,hopen⟩
    refine ⟨hlt,hopen.imp_right ?_⟩
    rintro ⟨t,ht,hown⟩
    exact ⟨t,htodo ▸ List.mem_cons_of_mem task ht,hown⟩
  split
  · exact hs
  · next n event todo htodo =>
    refine (hs.emit (n,event) (fun q hq => ?_)).mono (hless htodo s.phase) (fun _ => id)
    exact ⟨(List.getElem?_eq_some_iff.mp hq).1,.inr ⟨.run n event,htodo ▸ List.mem_cons_self,rfl⟩⟩
  · next n todo htodo =>
    split
    · exact hs.mono (hless htodo s.phase) (fun _ => id)
    · split_ifs
      · exact hs.mono (hless htodo s.phase) (fun _ => id)
      · exact hs.mono (hless htodo s.phase) (fun _ => id)

theorem Delivers.step (hs : Delivers s) (op : ZipOrder) (hmeets : Meets C pkg s op) :
    Delivers (s.step C pkg uvStrerror op) := by
  cases op with
  | call q => exact hs.call q hmeets
  | work n =>
    change Delivers (s.work n)
    unfold ZipState.work
    split_ifs with hphase
    · refine hs.mono (fun m hm => ⟨hm.1,hm.2.imp_left (fun hended => ?_)⟩) (fun _ => id)
      by_cases hne : m = n
      · rw [hne,hphase]
        nofun
      · dsimp only at hended
        rwa [Function.update_of_ne hne] at hended
    · exact hs
  | worked n archive =>
    change Delivers (s.worked n archive)
    unfold ZipState.worked
    split
    · exact hs
    · next q hq =>
      split_ifs with hphase
      · exact hs.change ⟨(List.getElem?_eq_some_iff.mp hq).1,.inl (by simp [hphase])⟩ _ rfl ⟨rfl,rfl,rfl⟩
          (fun m hm => Function.update_of_ne hm _ _) (fun task htask => .inl htask)
      · exact hs
  | after n => exact hs.after n
  | detach feature =>
    change Delivers (s.detach feature)
    unfold ZipState.detach
    split_ifs
    · exact hs
    · refine hs.mono (fun m hm => ⟨hm.1,hm.2.imp_left (fun hended hphase => hended ?_)⟩) (fun other hgone => ?_)
      · dsimp only
        rw [Function.update_apply]
        split_ifs
        · rfl
        · exact hgone
      · dsimp only
        rw [if_neg (fun h => by simp [hphase] at h)]
        exact hphase
  | next => exact hs.next

theorem View.Waits.right (hwaits : (view s n).Waits)
    (hphase : s.phase n ≠ .ended ∧ s.phase n ≠ .refused) (hfound : s.detached q.feature = false → n ∉ s.missed) :
    Right s n q := by
  have hstage : RequestEvent.stage .record (s.events n) = .held := hwaits.stage
  have hinvoked : RequestEvent.invoked (s.events n) = [] := hwaits.invoked
  obtain ⟨o,ho⟩ := exists_truthful (s.archive n)
  refine ⟨?_,⟨o,ho,?_⟩,fun hend => ?_,fun hend => ?_,hfound⟩
  · rw [hstage]
    nofun
  · rw [hinvoked]
    exact List.nil_prefix
  · exact absurd hend.2 (fun h => h.elim hphase.1 hphase.2)
  · exact absurd hend.2 (fun h => h.elim hphase.1 hphase.2)

theorem View.Settles.right (h : (view s n).Settles n q (s.detached q.feature))
    (hfound : s.detached q.feature = false → n ∉ s.missed) : Right s n q := by
  have hpromised : (view s n).promised = s.events n ++ (view s n).tasks.flatMap taskEvents := rfl
  have hdone : s.Finished n → (view s n).promised = s.events n := by
    intro hend
    have htasks : (view s n).tasks = [] := by
      unfold view
      dsimp only
      rw [hend.1]
      rfl
    rw [hpromised,htasks,List.flatMap_nil,List.append_nil]
  have hstage := h.stage
  have htold := h.told
  refine ⟨fun hmisused => ?_,?_,fun hend => ?_,fun hend hlive => ?_,hfound⟩
  · rw [hpromised,misused_of_part hmisused] at hstage
    split_ifs at hstage
  · rw [hpromised,invoked_append] at htold
    obtain ⟨o,ho,hinvoked⟩ | ⟨hnone,_⟩ := htold
    · exact ⟨o,ho,hinvoked ▸ List.prefix_append _ _⟩
    · obtain ⟨o,ho⟩ := exists_truthful (s.archive n)
      rw [(List.append_eq_nil_iff.mp hnone).1]
      exact ⟨o,ho,List.nil_prefix⟩
  · rw [← hdone hend]
    exact hstage
  · rw [hdone hend] at htold
    obtain hsome | ⟨_,hgone⟩ := htold
    · exact hsome
    · rw [hlive] at hgone
      cases hgone

theorem Inv.right (hs : Inv s) (hdelivers : Delivers s) (n : ℕ) (q : ZipCall) (hq : s.calls[n]? = some q) :
    Right s n q := by
  have hfound : s.detached q.feature = false → n ∉ s.missed := hdelivers.not_missed hq
  have hfine := hs.fine n q hq
  unfold View.Fine at hfine
  have hphase : ∀ phase, (view s n).phase = phase → s.phase n = phase := fun _ h => h
  cases hview : (view s n).phase with
  | idle => rw [hview] at hfine; exact hfine.elim
  | refused => rw [hview] at hfine; exact hfine.elim
  | queued =>
    rw [hview] at hfine
    exact hfine.1.right (by rw [hphase _ hview]; exact ⟨nofun,nofun⟩) hfound
  | cancelled =>
    rw [hview] at hfine
    exact hfine.1.right (by rw [hphase _ hview]; exact ⟨nofun,nofun⟩) hfound
  | working =>
    rw [hview] at hfine
    exact hfine.1.right (by rw [hphase _ hview]; exact ⟨nofun,nofun⟩) hfound
  | worked flag =>
    rw [hview] at hfine
    exact hfine.1.right (by rw [hphase _ hview]; exact ⟨nofun,nofun⟩) hfound
  | ended =>
    rw [hview] at hfine
    exact hfine.right hfound

end Zip
end FeatureRuntime
