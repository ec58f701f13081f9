import FeatureRuntime.AppPath
import FeatureRuntime.CallbackManager
import FeatureRuntime.RequestRun

/-! The requests of `system.file`: the checks of a call, which end it at once, and the results of libuv, which
end it later; what a request holds, and what of it each end gives back. -/
namespace FeatureRuntime

inductive FileCallback
  | success
  | fail (msg : String) (code : ℤ)
  | complete
  deriving DecidableEq

/-- What a request holds: its callback ids, the record, the reference to the instance, the paths of a `FsReq`,
the strings and buffers of a `FileReq`, and what it hands to the script; and its argument, which belongs to the
caller. -/
inductive FileResource
  | success
  | fail
  | complete
  | record
  | feature
  | path
  | newPath
  | pkgname
  | filename
  | buf
  | rootFile
  | result
  | script
  | argument
  deriving DecidableEq

abbrev FileEvent := RequestEvent FileCallback FileResource

/-- The argument of `writeArrayBuffer`. -/
inductive FileBuffer
  | absent
  | other
  | buffer (len : ℕ)
  deriving DecidableEq

/-- The calls with their arguments; a null string is `none`. -/
inductive FileRequest
  | move (srcUri dstUri : Option CString)
  | copy (srcUri dstUri : Option CString)
  | delete (uri : Option CString)
  | access (uri : Option CString)
  | readText (uri : Option CString)
  | readArrayBuffer (uri : Option CString) (position length : ℤ)
  | writeText (uri text : Option CString) (append : Bool)
  | writeArrayBuffer (uri : Option CString) (buffer : FileBuffer) (position : ℤ) (append : Bool)
  | list (uri : Option CString)
  | get (uri : Option CString) (recursive : Bool)
  | mkdir (uri : Option CString) (recursive : Bool)
  | rmdir (uri : Option CString) (recursive : Bool)

/-- A call of the script: its callback ids, whether its argument is null, whether there is a loop, and what
libuv returns to the submission. -/
structure FileCall where
  feature : ℕ
  request : FileRequest
  ids : CallbackIds := {}
  null : Bool := false
  loop : Bool := true
  queued : ℤ := 0

/-- An `errno`. -/
structure Errno where
  val : ℤ
  pos : 0 < val

inductive SysResult
  | ok (value : ℕ)
  | error (errno : Errno)

/-- The system calls of `__load_file_work_cb`: `stat`, the two tests of the disk, the two times `open`, `lseek`
and `read` or `write`. -/
structure LoadCalls where
  stat : SysResult
  disk : Bool := true
  diskAgain : Bool := true
  openFile : SysResult
  openAgain : SysResult
  lseek : SysResult
  transfer : SysResult

/-- What libuv reports: the result or the status, what a work callback on a file met, and for a directory the
code that the work left and whether it built the tree. -/
structure FileAnswer where
  status : ℤ
  load : LoadCalls
  dirResult : ℤ
  hasRoot : Bool

/-- What a call has acquired when it submits its work or fails, and its failure. -/
structure FilePrepared where
  held : List FileResource := []
  failure : Option (ℤ × String) := none

namespace File

/-- `FT_ERR_GENERAL`. -/
def errGeneral : ℤ := 200

/-- `FT_ERR_ARGS`. -/
def errArgs : ℤ := 202

/-- `FT_ERR_IOERROR`. -/
def errIoerror : ℤ := 300

/-- `FT_ERR_PATH_NOT_EXISTS`. -/
def errPathNotExists : ℤ := 301

def enospc : ℤ := 28

def errorCodeMap (error : ℤ) : ℤ :=
  if error = -2 then errPathNotExists else if error = -22 then errArgs else errIoerror

def checkStr (s : Option CString) : Bool := s.getD [] ≠ []

section Calls

variable (C : PathConfig) (pkg : CString) (uvStrerror : ℤ → String)

def noLoop : FilePrepared := { failure := some (errGeneral,"uvloop is null") }

def invalidPath : FilePrepared := { failure := some (errArgs,"invalid file path") }

def holding {R : Type} (r : R) (p : Option CString) : List R := if p.isSome then [r] else []

def fileCopyOrMove (loop move : Bool) : Option CString → Option CString → FilePrepared
  | some srcUri,some dstUri =>
    if loop = false then noLoop
    else if (!move && isPathInTmp srcUri) || isPathInTmp dstUri then invalidPath
    else
      let path := C.appRelativeToAbsolutePath pkg srcUri
      let newPath := C.appRelativeToAbsolutePath pkg dstUri
      let held := holding .path path ++ holding .newPath newPath
      if path.isNone || newPath.isNone then { invalidPath with held := held } else { held := held }
  | _,_ => if loop = false then noLoop else invalidPath

def fileAccessOrDelete (loop : Bool) : Option CString → FilePrepared
  | some uri =>
    if loop = false then noLoop
    else if isPathInTmp uri then invalidPath
    else if (C.appRelativeToAbsolutePath pkg uri).isNone then invalidPath
    else { held := [.path] }
  | none => if loop = false then noLoop else invalidPath

/-- The `filename` of `__file_load`. -/
def loadPath (reads : Bool) (uri : CString) : Option CString :=
  if uri.head? = some '/' ∧ reads then C.fileLoadPath pkg uri else C.appRelativeToAbsolutePath pkg uri

/-- The part of `__file_load` that depends on the parameters: the buffer that it fills, or its failure. -/
def loadParam : FileRequest → FilePrepared
  | .writeText _ text _ =>
    if checkStr text then { held := [.buf] } else { failure := some (errArgs,"invalid text") }
  | .writeArrayBuffer _ buffer position append =>
    if buffer = .absent ∨ position < 0 ∧ append = false then { failure := some (errArgs,"invalid array buffer") }
    else if buffer = .other then { failure := some (errArgs,"invalid array buffer type") }
    else { held := [.buf] }
  | .readArrayBuffer _ position length =>
    if 0 ≤ position ∧ (0 ≤ length ∨ length = -2147483648) then {}
    else { failure := some (errorCodeMap (-22),uvStrerror (-22)) }
  | _ => {}

def fileLoad (loop reads : Bool) (uri : Option CString) (request : FileRequest) : FilePrepared :=
  if loop = false then { noLoop with held := [.pkgname] }
  else if checkStr uri = false ∨ reads = false ∧ isPathInTmp (uri.getD []) then
    { invalidPath with held := [.pkgname] }
  else if (loadPath C pkg reads (uri.getD [])).isNone then { invalidPath with held := [.pkgname] }
  else
    let param := loadParam uvStrerror request
    { param with held := .pkgname :: .filename :: param.held }

def dirLoad (loop changes : Bool) : Option CString → FilePrepared
  | none => if loop = false then { noLoop with held := [.pkgname] }
    else { held := [.pkgname], failure := some (errArgs,"invalid path") }
  | some uri =>
    if loop = false then { noLoop with held := [.pkgname] }
    else if changes && isPathInTmp uri || (C.appRelativeToAbsolutePath pkg uri).isNone then
      { held := [.pkgname], failure := some (errArgs,"invalid path") }
    else { held := [.pkgname,.filename] }

end Calls

def prepare (C : PathConfig) (pkg : CString) (uvStrerror : ℤ → String) (q : FileCall) : FilePrepared :=
  match q.request with
  | .move srcUri dstUri => fileCopyOrMove C pkg q.loop true srcUri dstUri
  | .copy srcUri dstUri => fileCopyOrMove C pkg q.loop false srcUri dstUri
  | .delete uri => fileAccessOrDelete C pkg q.loop uri
  | .access uri => fileAccessOrDelete C pkg q.loop uri
  | .readText uri => fileLoad C pkg uvStrerror q.loop true uri q.request
  | .readArrayBuffer uri _ _ => fileLoad C pkg uvStrerror q.loop true uri q.request
  | .writeText uri _ _ => fileLoad C pkg uvStrerror q.loop false uri q.request
  | .writeArrayBuffer uri _ _ _ => fileLoad C pkg uvStrerror q.loop false uri q.request
  | .list uri => dirLoad C pkg q.loop false uri
  | .get uri _ => dirLoad C pkg q.loop false uri
  | .mkdir uri _ => dirLoad C pkg q.loop true uri
  | .rmdir uri _ => dirLoad C pkg q.loop true uri

def convert : List FileEvent := [.acquire .success,.acquire .fail,.acquire .complete]

/-- The common part of `__invoke_fs_cb` and `__invoke_fr_cb`. The callbacks of an instance that is gone went
with it. -/
def invokeCb (live : Bool) (status : ℤ) (errMsg : String) (succParam : Bool) : List FileEvent :=
  (if live then [.invoke (if status ≠ 0 then .fail errMsg status else .success),.invoke .complete] else []) ++
    [.release .success,.release .fail,.release .complete] ++
    (if succParam then [.release .result] else []) ++ [.release .feature]

def invokeFsCb (live : Bool) (status : ℤ) (errMsg : String) (succParam : Bool) : List FileEvent :=
  invokeCb live status errMsg succParam ++ [.release .record]

/-- `freeFileReq`, given what the record holds. -/
def freeFileReq (held : List FileResource) : List FileEvent :=
  ([.filename,.buf,.rootFile,.pkgname].filter (· ∈ held)).map .release ++ [.release .record]

def invokeFrCb (held : List FileResource) (live : Bool) (status : ℤ) (errMsg : String) (succParam : Bool) :
    List FileEvent :=
  invokeCb live status errMsg succParam ++ freeFileReq held

/-- The calls with a `FsReq`. -/
def isFs : FileRequest → Bool
  | .move _ _ => true
  | .copy _ _ => true
  | .delete _ => true
  | .access _ => true
  | _ => false

def afterSubmission : FileRequest → List FileEvent
  | .delete _ => [.release .path]
  | .access _ => [.release .path]
  | _ => []

section Functions

variable (C : PathConfig) (pkg : CString) (uvStrerror : ℤ → String)

def start (q : FileCall) : List FileEvent :=
  if q.null then
    .acquire .record :: (if isFs q.request then [] else [.acquire .feature]) ++ [.touch .argument]
  else
  let p := prepare C pkg uvStrerror q
  convert ++ [.acquire .record,.acquire .feature] ++ p.held.map .acquire ++
    match p.failure with
    | some (status,msg) =>
      if isFs q.request then invokeFsCb true status msg false else invokeFrCb p.held true status msg false
    | none => afterSubmission q.request

def accepted (q : FileCall) : Bool := !q.null && (prepare C pkg uvStrerror q).failure.isNone && q.queued = 0

/-- `__uv_fs_req_cb`; the path of the file that was copied or moved becomes the parameter of `success`. -/
def uvFsReqCb (request : FileRequest) (live : Bool) (result : ℤ) : List FileEvent :=
  .touch .record ::
    if result < 0 then invokeFsCb live (errorCodeMap result) (uvStrerror result) false
    else
      match request with
      | .move _ dstUri | .copy _ dstUri =>
        match dstUri.bind (C.appRelativeToAbsolutePath pkg) with
        | none => []
        | some newPath =>
          -- A null relative path is passed to `strlen`.
          if (C.appAbsoluteToRelativePath pkg newPath).isNone then [.touch .result]
          else .acquire .result :: invokeFsCb live 0 "" true
      | _ => invokeFsCb live 0 "" false

/-- The code of an `open` that fails again after the directories were made. -/
def openFailure (calls : LoadCalls) : Option ℤ :=
  match calls.openFile,calls.openAgain with
  | .error _,.error errno => some (-errno.val)
  | _,_ => none

/-- `stat`, where the length of the file is asked for. -/
def sized (request : FileRequest) : Bool :=
  match request with
  | .readText _ => true
  | .readArrayBuffer _ _ length => length = -2147483648
  | _ => false

/-- The write goes to the end; a second `open` comes with other flags in the record. -/
def appends (request : FileRequest) (calls : LoadCalls) : Bool :=
  match request,calls.openFile with
  | .writeText _ _ append,.ok _ => append
  | .writeArrayBuffer _ _ _ append,.ok _ => append
  | _,_ => false

def writesNothing (request : FileRequest) : Bool :=
  match request with
  | .writeArrayBuffer _ (.buffer len) _ _ => len = 0
  | _ => false

/-- `lseek` and then `read` or `write`. -/
def seekAndTransfer (seek : Bool) (calls : LoadCalls) : ℤ :=
  match (if seek then calls.lseek else .ok 0),calls.transfer with
  | .error errno,_ => -errno.val
  | .ok _,.error errno => -errno.val
  | .ok _,.ok n => n

/-- `lseek` succeeds. -/
def seeks (calls : LoadCalls) : Bool :=
  match calls.lseek with
  | .ok _ => true
  | .error _ => false

/-- `__load_file_work_cb` for a file that is read: the code that it leaves, and whether it has allocated the
buffer. -/
def readWork (request : FileRequest) (calls : LoadCalls) : ℤ × Bool :=
  match (if sized request then calls.stat else .ok 0),openFailure calls with
  | .error errno,_ => (-errno.val,false)
  | .ok _,some code => (code,false)
  | .ok _,none => (seekAndTransfer true calls,seeks calls)

/-- `__load_file_work_cb` for a file that is written. -/
def writeWork (request : FileRequest) (calls : LoadCalls) : ℤ :=
  if calls.disk = false then -enospc
  else
    match openFailure calls with
    | some code => code
    | none =>
      if calls.diskAgain = false then -enospc
      else if writesNothing request then 0
      else seekAndTransfer (!appends request calls) calls

/-- `__load_file_work_cb`. -/
def loadFileWork (request : FileRequest) (calls : LoadCalls) : ℤ × Bool :=
  match request with
  | .readText _ => readWork request calls
  | .readArrayBuffer _ _ _ => readWork request calls
  | _ => (writeWork request calls,false)

/-- What `__load_after_work_cb` makes for the script, and what it gives back after the callbacks. -/
def loadResult : FileRequest → List FileEvent × Bool × List FileEvent
  | .readText _ => ([.acquire .result,.touch .buf],true,[])
  | .readArrayBuffer _ _ _ => ([.touch .buf,.acquire .script,.acquire .result],true,[.release .script])
  | _ => ([],false,[])

/-- `__load_after_work_cb`, after its work where that was not cancelled. -/
def loadAfterWorkCb (request : FileRequest) (held : List FileResource) (live : Bool) (status : ℤ)
    (calls : LoadCalls) : List FileEvent :=
  if status ≠ 0 then .touch .record :: invokeFrCb held live (errorCodeMap status) (uvStrerror status) false
  else
    let (r,allocated) := loadFileWork request calls
    let held := if allocated then .buf :: held else held
    (if allocated then [.acquire .buf] else []) ++ .touch .record ::
      if r < 0 then invokeFrCb held live (errorCodeMap r) (uvStrerror r) false
      else
        let (made,succParam,rest) := loadResult request
        made ++ invokeFrCb held live 0 "" succParam ++ rest

/-- What `__load_dir_after_work_cb` makes for the script: nothing to hand over where there is no tree. -/
def dirResult (hasRoot : Bool) : FileRequest → Bool
  | .get _ _ => hasRoot
  | .list _ => true
  | _ => false

/-- The `success` of `get` declares an argument, which it does not get where there is no tree. -/
def lacksArgument (hasRoot : Bool) : FileRequest → Bool
  | .get _ _ => !hasRoot
  | _ => false

def queries : FileRequest → Bool
  | .get _ _ => true
  | .list _ => true
  | _ => false

/-- `__load_dir_after_work_cb`, after its work where that was not cancelled. -/
def loadDirAfterWorkCb (request : FileRequest) (held : List FileResource) (live : Bool) (answer : FileAnswer) :
    List FileEvent :=
  if answer.status ≠ 0 then
    .touch .record :: invokeFrCb held live (errorCodeMap answer.status) (uvStrerror answer.status) false
  else
    let hasRoot := queries request && answer.hasRoot
    let held := if hasRoot then .rootFile :: held else held
    (if hasRoot then [.acquire .rootFile] else []) ++ .touch .record ::
      if answer.dirResult < 0 then
        invokeFrCb held live (errorCodeMap answer.dirResult) (uvStrerror answer.dirResult) false
      else
        (if dirResult hasRoot request then [.acquire .result] else []) ++
          (if live && lacksArgument hasRoot request then [.touch .result] else []) ++
          invokeFrCb held live 0 "" (dirResult hasRoot request)

def complete (q : FileCall) (live : Bool) (answer : FileAnswer) : List FileEvent :=
  let held := (prepare C pkg uvStrerror q).held
  match q.request with
  | .move _ _ => uvFsReqCb C pkg uvStrerror q.request live answer.status
  | .copy _ _ => uvFsReqCb C pkg uvStrerror q.request live answer.status
  | .delete _ => uvFsReqCb C pkg uvStrerror q.request live answer.status
  | .access _ => uvFsReqCb C pkg uvStrerror q.request live answer.status
  | .list _ => loadDirAfterWorkCb uvStrerror q.request held live answer
  | .get _ _ => loadDirAfterWorkCb uvStrerror q.request held live answer
  | .mkdir _ _ => loadDirAfterWorkCb uvStrerror q.request held live answer
  | .rmdir _ _ => loadDirAfterWorkCb uvStrerror q.request held live answer
  | _ => loadAfterWorkCb uvStrerror q.request held live answer.status answer.load

def functions : RequestFunctions FileCall FileAnswer FileEvent where
  feature := FileCall.feature
  start := start C pkg uvStrerror
  accepted := accepted C pkg uvStrerror
  answer := complete C pkg uvStrerror
  ids q := [q.ids.success,q.ids.fail,q.ids.complete]
  invokes q
    | .invoke .success => some q.ids.success
    | .invoke (.fail _ _) => some q.ids.fail
    | .invoke .complete => some q.ids.complete
    | _ => none
  removes q
    | .release .success => some q.ids.success
    | .release .fail => some q.ids.fail
    | .release .complete => some q.ids.complete
    | _ => none

end Functions

/-- One outcome and then `complete`, and everything released once. -/
structure Completed (events : List FileEvent) : Prop where
  told : RequestEvent.invoked events = [.success,.complete] ∨
    ∃ msg code, RequestEvent.invoked events = [.fail msg code,.complete]
  settled : RequestEvent.Settled events

/-- `file_copy_or_move` gets past its checks of the arguments and builds a path. -/
def builds (C : PathConfig) (pkg : CString) (loop move : Bool) : Option CString → Option CString → Bool
  | some srcUri,some dstUri =>
    loop && !(!move && isPathInTmp srcUri || isPathInTmp dstUri) &&
      ((C.appRelativeToAbsolutePath pkg srcUri).isSome || (C.appRelativeToAbsolutePath pkg dstUri).isSome)
  | _,_ => false

/-- A call of `move` or `copy` builds a path. -/
def buildsPath (C : PathConfig) (pkg : CString) (q : FileCall) : Bool :=
  match q.request with
  | .move srcUri dstUri => builds C pkg q.loop true srcUri dstUri
  | .copy srcUri dstUri => builds C pkg q.loop false srcUri dstUri
  | _ => false

/-- The argument is there, no path of `move` or `copy` is built, and libuv takes what is submitted to it. -/
def Sound (C : PathConfig) (pkg : CString) (uvStrerror : ℤ → String) (q : FileCall) : Prop :=
  q.null = false ∧ buildsPath C pkg q = false ∧ ((prepare C pkg uvStrerror q).failure = none → q.queued = 0)

def opening (held : List FileResource) : List FileEvent :=
  convert ++ [.acquire .record,.acquire .feature] ++ held.map .acquire

section Traces

variable {uvStrerror : ℤ → String}

theorem completed_of {events : List FileEvent} {status : ℤ} {msg : String}
    (htold : RequestEvent.invoked events = [if status ≠ 0 then .fail msg status else .success,.complete])
    (hsettled : RequestEvent.Settled events) : Completed events := by
  refine ⟨?_,hsettled⟩
  by_cases hstatus : status = 0
  · rw [if_neg (not_not.mpr hstatus)] at htold
    exact .inl htold
  · rw [if_pos hstatus] at htold
    exact .inr ⟨msg,status,htold⟩

theorem completed_fr_failure {held : List FileResource} (hheld : held = [.pkgname] ∨ held = [.pkgname,.filename])
    (status : ℤ) (msg : String) : Completed (opening held ++ invokeFrCb held true status msg false) := by
  rcases hheld with rfl | rfl
  · apply completed_of rfl
    intro r
    cases r <;> first | exact .inr rfl | exact .inl rfl
  · apply completed_of rfl
    intro r
    cases r <;> first | exact .inr rfl | exact .inl rfl

variable {C : PathConfig} {pkg : CString}

theorem completed_fs_failure_iff {held : List FileResource} (hheld : held ∈ [[],[.path],[.newPath],[.path,.newPath]])
    (status : ℤ) (msg : String) :
    Completed (opening held ++ invokeFsCb true status msg false) ↔ held = [] := by
  constructor
  · intro h
    simp only [List.mem_cons,List.not_mem_nil,or_false] at hheld
    rcases hheld with rfl | rfl | rfl | rfl
    · rfl
    · rcases h.settled .path with h | h <;> cases h
    · rcases h.settled .newPath with h | h <;> cases h
    · rcases h.settled .path with h | h <;> cases h
  · rintro rfl
    apply completed_of rfl
    intro r
    cases r <;> first | exact .inr rfl | exact .inl rfl

theorem not_completed_opening (held : List FileResource) (request : FileRequest) :
    ¬ Completed (opening held ++ afterSubmission request) := by
  have hafter : RequestEvent.invoked (afterSubmission request) = [] := by cases request <;> rfl
  have hheld : RequestEvent.invoked (held.map RequestEvent.acquire ++ afterSubmission request) = [] := by
    induction held with
    | nil => exact hafter
    | cons r held ih => exact ih
  have hnone : RequestEvent.invoked (opening held ++ afterSubmission request) = [] := by
    unfold opening
    rw [List.append_assoc]
    exact hheld
  intro h
  rcases h.told with htold | ⟨msg,code,htold⟩
  · rw [hnone] at htold
    exact absurd htold (List.cons_ne_nil _ _).symm
  · rw [hnone] at htold
    exact absurd htold (List.cons_ne_nil _ _).symm

end Traces

section Checks

variable (C : PathConfig) (pkg : CString) (uvStrerror : ℤ → String)

/-- The checks of a request fail with some of its resources, or come to the submission with all of them. -/
structure Prepares (p : FilePrepared) (partial' : List (List FileResource)) (all : List FileResource) : Prop where
  failed : p.failure ≠ none → p.held ∈ partial'
  submitted : p.failure = none → p.held = all

theorem fileAccessOrDelete_spec (loop : Bool) (uri : Option CString) :
    Prepares (fileAccessOrDelete C pkg loop uri) [[]] [.path] := by
  unfold fileAccessOrDelete noLoop invalidPath
  cases uri with
  | none => split_ifs <;> exact ⟨fun _ => by simp,fun h => by simp at h⟩
  | some uri =>
    dsimp only
    split_ifs
    · exact ⟨fun _ => by simp,fun h => by simp at h⟩
    · exact ⟨fun _ => by simp,fun h => by simp at h⟩
    · exact ⟨fun _ => by simp,fun h => by simp at h⟩
    · exact ⟨fun h => absurd rfl h,fun _ => rfl⟩

theorem dirLoad_spec (loop changes : Bool) (uri : Option CString) :
    Prepares (dirLoad C pkg loop changes uri) [[.pkgname]] [.pkgname,.filename] := by
  unfold dirLoad noLoop
  cases uri with
  | none =>
    dsimp only
    split_ifs <;> exact ⟨fun _ => by simp,fun h => by simp at h⟩
  | some uri =>
    dsimp only
    split_ifs
    · exact ⟨fun _ => by simp,fun h => by simp at h⟩
    · exact ⟨fun _ => by simp,fun h => by simp at h⟩
    · exact ⟨fun h => absurd rfl h,fun _ => rfl⟩

def loadBuffer : FileRequest → List FileResource
  | .writeText _ _ _ => [.buf]
  | .writeArrayBuffer _ _ _ _ => [.buf]
  | _ => []

theorem loadParam_spec (request : FileRequest) :
    Prepares (loadParam uvStrerror request) [[]] (loadBuffer request) := by
  cases request with
  | writeText uri text append =>
    dsimp only [loadParam]
    split_ifs
    · exact ⟨fun h => absurd rfl h,fun _ => rfl⟩
    · exact ⟨fun _ => by simp,fun h => by simp at h⟩
  | writeArrayBuffer uri buffer position append =>
    dsimp only [loadParam]
    split_ifs
    · exact ⟨fun _ => by simp,fun h => by simp at h⟩
    · exact ⟨fun _ => by simp,fun h => by simp at h⟩
    · exact ⟨fun h => absurd rfl h,fun _ => rfl⟩
  | readArrayBuffer uri position length =>
    dsimp only [loadParam]
    split_ifs
    · exact ⟨fun h => absurd rfl h,fun _ => rfl⟩
    · exact ⟨fun _ => by simp,fun h => by simp at h⟩
  | _ => exact ⟨fun h => absurd rfl h,fun _ => rfl⟩

theorem fileLoad_spec (loop reads : Bool) (uri : Option CString) (request : FileRequest) :
    Prepares (fileLoad C pkg uvStrerror loop reads uri request) [[.pkgname],[.pkgname,.filename]]
      ([.pkgname,.filename] ++ loadBuffer request) := by
  unfold fileLoad noLoop invalidPath
  split_ifs
  · exact ⟨fun _ => by simp,fun h => by simp at h⟩
  · exact ⟨fun _ => by simp,fun h => by simp at h⟩
  · exact ⟨fun _ => by simp,fun h => by simp at h⟩
  · have hparam := loadParam_spec uvStrerror request
    refine ⟨fun h => ?_,fun h => ?_⟩
    · have hheld := hparam.failed h
      rw [List.mem_singleton] at hheld
      dsimp only
      rw [hheld]
      simp
    · dsimp only
      rw [hparam.submitted h]
      rfl

theorem fileCopyOrMove_spec (loop move : Bool) (srcUri dstUri : Option CString) :
    Prepares (fileCopyOrMove C pkg loop move srcUri dstUri) [[],[.path],[.newPath]] [.path,.newPath] ∧
      ((fileCopyOrMove C pkg loop move srcUri dstUri).held = [] ↔ builds C pkg loop move srcUri dstUri = false) := by
  have hfailed : ∀ p : FilePrepared, p.failure ≠ none → p.held = [] →
      Prepares p [[],[.path],[.newPath]] [.path,.newPath] := by
    intro p hfailure hheld
    exact ⟨fun _ => by simp [hheld],fun h => absurd h hfailure⟩
  have hnull : ∀ b : Bool, (if b = false then noLoop else invalidPath).failure ≠ none ∧
      (if b = false then noLoop else invalidPath).held = [] := by decide
  cases srcUri with
  | none => exact ⟨hfailed _ (hnull loop).1 (hnull loop).2,iff_of_true (hnull loop).2 rfl⟩
  | some srcUri =>
    cases dstUri with
    | none => exact ⟨hfailed _ (hnull loop).1 (hnull loop).2,iff_of_true (hnull loop).2 rfl⟩
    | some dstUri =>
      dsimp only [fileCopyOrMove,builds]
      generalize (!move && isPathInTmp srcUri || isPathInTmp dstUri) = tmp
      generalize C.appRelativeToAbsolutePath pkg srcUri = path
      generalize C.appRelativeToAbsolutePath pkg dstUri = newPath
      have hargs : ∀ status msg, FilePrepared.failure { failure := some (status,msg) } ≠ none := by simp
      cases loop with
      | false => exact ⟨hfailed _ (hargs _ _) rfl,iff_of_true rfl rfl⟩
      | true =>
        cases tmp with
        | true => exact ⟨hfailed _ (hargs _ _) rfl,iff_of_true rfl rfl⟩
        | false =>
          cases path with
          | none =>
            cases newPath with
            | none => exact ⟨hfailed _ (hargs _ _) rfl,iff_of_true rfl rfl⟩
            | some newPath =>
              refine ⟨⟨fun _ => ?_,fun h => ?_⟩,iff_of_false ?_ Bool.noConfusion⟩
              · exact List.mem_cons_of_mem _ (List.mem_cons_of_mem _ List.mem_cons_self)
              · exact absurd h (hargs _ _)
              · exact List.cons_ne_nil FileResource.newPath []
          | some path =>
            cases newPath with
            | none =>
              refine ⟨⟨fun _ => ?_,fun h => ?_⟩,iff_of_false ?_ Bool.noConfusion⟩
              · exact List.mem_cons_of_mem _ List.mem_cons_self
              · exact absurd h (hargs _ _)
              · exact List.cons_ne_nil FileResource.path []
            | some newPath =>
              refine ⟨⟨fun h => absurd rfl h,fun _ => rfl⟩,iff_of_false ?_ Bool.noConfusion⟩
              exact List.cons_ne_nil FileResource.path [.newPath]

end Checks

section Completion

variable {C : PathConfig} {pkg : CString} {uvStrerror : ℤ → String} {q : FileCall}

theorem sound_of_failure (hnull : q.null = false) {status : ℤ} {msg : String} (h : (prepare C pkg uvStrerror q).failure = some (status,msg)) :
    Sound C pkg uvStrerror q ↔ buildsPath C pkg q = false := by
  refine ⟨fun hsound => hsound.2.1,fun hbuilds => ⟨hnull,hbuilds,fun hnone => ?_⟩⟩
  rw [h] at hnone
  exact absurd hnone (Option.some_ne_none _)

theorem start_failure (hnull : q.null = false) {status : ℤ} {msg : String} (h : (prepare C pkg uvStrerror q).failure = some (status,msg)) :
    start C pkg uvStrerror q = opening (prepare C pkg uvStrerror q).held ++
      if isFs q.request then invokeFsCb true status msg false
      else invokeFrCb (prepare C pkg uvStrerror q).held true status msg false := by
  dsimp only [start,opening]
  rw [hnull,h]
  rfl

theorem start_submitted (hnull : q.null = false) (h : (prepare C pkg uvStrerror q).failure = none) :
    start C pkg uvStrerror q = opening (prepare C pkg uvStrerror q).held ++ afterSubmission q.request := by
  dsimp only [start,opening]
  rw [hnull,h]
  rfl

theorem not_completed_null (h : q.null = true) : ¬ Completed (start C pkg uvStrerror q) := by
  intro hcompleted
  unfold start at hcompleted
  rw [if_pos h] at hcompleted
  generalize isFs q.request = fs at hcompleted
  cases fs <;> rcases hcompleted.told with htold | ⟨msg,code,htold⟩ <;> cases htold

/-- A call whose checks fail is completed by it, rightly unless a path was built. -/
theorem completed_failure_iff (hnull : q.null = false) {status : ℤ} {msg : String}
    (h : (prepare C pkg uvStrerror q).failure = some (status,msg)) :
    Completed (start C pkg uvStrerror q) ↔ buildsPath C pkg q = false := by
  have hfailed : (prepare C pkg uvStrerror q).failure ≠ none := by simp [h]
  rw [start_failure hnull h]
  have hcopy : ∀ move srcUri dstUri, prepare C pkg uvStrerror q = fileCopyOrMove C pkg q.loop move srcUri dstUri →
      (Completed (opening (prepare C pkg uvStrerror q).held ++ invokeFsCb true status msg false) ↔
        builds C pkg q.loop move srcUri dstUri = false) := by
    intro move srcUri dstUri heq
    rw [heq] at hfailed ⊢
    obtain ⟨hspec,hbuilds⟩ := fileCopyOrMove_spec C pkg q.loop move srcUri dstUri
    refine (completed_fs_failure_iff ?_ status msg).trans hbuilds
    have hmem := hspec.failed hfailed
    simp only [List.mem_cons,List.not_mem_nil,or_false] at hmem ⊢
    tauto
  have hfs : ∀ uri, prepare C pkg uvStrerror q = fileAccessOrDelete C pkg q.loop uri →
      Completed (opening (prepare C pkg uvStrerror q).held ++ invokeFsCb true status msg false) := by
    intro uri heq
    rw [heq] at hfailed ⊢
    have hmem := (fileAccessOrDelete_spec C pkg q.loop uri).failed hfailed
    refine (completed_fs_failure_iff ?_ status msg).mpr (List.mem_singleton.mp hmem)
    rw [List.mem_singleton.mp hmem]
    exact List.mem_cons_self
  have hload : ∀ reads uri, prepare C pkg uvStrerror q = fileLoad C pkg uvStrerror q.loop reads uri q.request →
      Completed (opening (prepare C pkg uvStrerror q).held ++
        invokeFrCb (prepare C pkg uvStrerror q).held true status msg false) := by
    intro reads uri heq
    rw [heq] at hfailed ⊢
    have hmem := (fileLoad_spec C pkg uvStrerror q.loop reads uri q.request).failed hfailed
    simp only [List.mem_cons,List.not_mem_nil,or_false] at hmem
    exact completed_fr_failure hmem status msg
  have hdir : ∀ changes uri, prepare C pkg uvStrerror q = dirLoad C pkg q.loop changes uri →
      Completed (opening (prepare C pkg uvStrerror q).held ++
        invokeFrCb (prepare C pkg uvStrerror q).held true status msg false) := by
    intro changes uri heq
    rw [heq] at hfailed ⊢
    have hmem := (dirLoad_spec C pkg q.loop changes uri).failed hfailed
    exact completed_fr_failure (.inl (List.mem_singleton.mp hmem)) status msg
  unfold buildsPath
  cases hrequest : q.request with
  | move srcUri dstUri => exact hcopy true srcUri dstUri (by unfold prepare; rw [hrequest])
  | copy srcUri dstUri => exact hcopy false srcUri dstUri (by unfold prepare; rw [hrequest])
  | delete uri => exact iff_of_true (hfs uri (by unfold prepare; rw [hrequest])) rfl
  | access uri => exact iff_of_true (hfs uri (by unfold prepare; rw [hrequest])) rfl
  | readText uri => exact iff_of_true (hload true uri (by unfold prepare; rw [hrequest])) rfl
  | readArrayBuffer uri => exact iff_of_true (hload true uri (by unfold prepare; rw [hrequest])) rfl
  | writeText uri => exact iff_of_true (hload false uri (by unfold prepare; rw [hrequest])) rfl
  | writeArrayBuffer uri => exact iff_of_true (hload false uri (by unfold prepare; rw [hrequest])) rfl
  | list uri => exact iff_of_true (hdir false uri (by unfold prepare; rw [hrequest])) rfl
  | get uri => exact iff_of_true (hdir false uri (by unfold prepare; rw [hrequest])) rfl
  | mkdir uri => exact iff_of_true (hdir true uri (by unfold prepare; rw [hrequest])) rfl
  | rmdir uri => exact iff_of_true (hdir true uri (by unfold prepare; rw [hrequest])) rfl

theorem completed_start_iff (h : accepted C pkg uvStrerror q = false) :
    Completed (start C pkg uvStrerror q) ↔ Sound C pkg uvStrerror q := by
  cases hnull : q.null with
  | true =>
    refine iff_of_false (not_completed_null hnull) (fun hsound => ?_)
    exact Bool.noConfusion (hnull.symm.trans hsound.1)
  | false =>
  cases hfailure : (prepare C pkg uvStrerror q).failure with
  | some failure =>
    obtain ⟨status,msg⟩ := failure
    rw [completed_failure_iff hnull hfailure,sound_of_failure hnull hfailure]
  | none =>
    rw [start_submitted hnull hfailure]
    refine iff_of_false (not_completed_opening _ _) (fun hsound => ?_)
    unfold accepted at h
    rw [hnull,hfailure,hsound.2.2 hfailure] at h
    exact Bool.noConfusion h

end Completion

section Runs

variable {C : PathConfig} {pkg : CString} {uvStrerror : ℤ → String}

def run (C : PathConfig) (pkg : CString) (uvStrerror : ℤ → String) (ops : List (RequestLabel FileCall FileAnswer)) :
    RequestRun FileCall FileAnswer FileEvent :=
  Transition.run (RequestRun.step (functions C pkg uvStrerror)) {} ops

end Runs

end File
end FeatureRuntime
