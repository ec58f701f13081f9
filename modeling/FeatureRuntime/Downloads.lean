import FeatureRuntime.CallbackManager

/-! The download tasks of an app: the calls of `system.request`, the transfers of the request library,
and the callbacks of the script, which may call again while a call or a completion is under way. -/
namespace FeatureRuntime

structure DownloadResult where
  success : Bool
  code : ℤ
  data : String
  deriving DecidableEq

/-- How a transfer ends; a finished one with the path of the file that the app sees. -/
inductive TransferEnd
  | done (uri : String)
  | error (body : String)
  | cancel
  deriving DecidableEq

/-- What a callback is told, or that the callbacks of a call are removed. -/
inductive Answer
  | success (data : String)
  | fail (msg : String) (code : ℤ)
  | complete
  | removed
  deriving DecidableEq

/-- `ReqInfo`, with the call that set its callbacks. -/
structure ReqInfo where
  featureHandle : ℕ
  share : Bool
  callbacks : CallbackIds := {}
  request : Bool := false
  uuid : String := ""
  call : Option ℕ := none

/-- What is known of a token: whether it was given to a running task, or to one that ended recently. -/
inductive TokenState
  | missing
  | unknown
  | running (token : String)
  | finished (e : TransferEnd)
  deriving DecidableEq

/-- A call of `onDownloadComplete`, or of `download`, which asks for no token. -/
structure DownloadCall where
  handle : ℕ
  ids : CallbackIds
  asked : Option TokenState

/-- An answer to a call that a callback of an instance received. -/
structure AnswerEvent where
  call : Option ℕ
  handle : ℕ
  answer : Answer
  deriving DecidableEq

/-- The rest of the functions that are under way, innermost first. -/
inductive DownloadAction
  /-- The outcome of a transfer, for the callbacks that the task has then. -/
  | answer (info : ℕ) (e : TransferEnd)
  | addResult (info : ℕ) (e : TransferEnd)
  | complete (info : ℕ)
  | removeAll (info : ℕ)
  /-- `weakref_list_delete` and `freeReqInfo`. -/
  | discard (info : ℕ)
  /-- `download` behind the cancellation of another exclusive task. -/
  | start (info call handle : ℕ) (ids : CallbackIds) (share : Bool) (url : Option String) (disk : Bool)
      (now rand : ℕ)
  | invoke (call handle : ℕ) (id : ℤ) (answer : Answer)
  | removeIds (call handle : ℕ) (ids : CallbackIds)
  /-- `freeReqInfo` of a task that was never linked. -/
  | free (info : ℕ)
  /-- The function returns to the script or to the event loop. -/
  | ret

/-- `RequestContext` with its tasks, the instances, and what happened so far. -/
structure Downloads where
  heap : ℕ → Option ReqInfo := fun _ => none
  allocated : ℕ := 0
  freed : List ℕ := []
  linklist : List ℕ := []
  shareInfo : Option ℕ := none
  downloadResults : Std.TreeMap String DownloadResult := ∅
  startUuid : ℕ := 0
  exit : Bool := false
  /-- The app ended in the middle of a completion. -/
  crashed : Bool := false
  detached : ℕ → Bool := fun _ => false
  registered : ℕ → ℤ → Bool := fun _ _ => false
  todo : List DownloadAction := []
  /-- A callback or the event loop runs, not a function of the feature. -/
  inScript : Bool := true
  fault : Bool := false
  calls : List DownloadCall := []
  events : List AnswerEvent := []
  /-- The tokens of committed downloads. -/
  issued : List String := []
  /-- How the downloads ended, by token. -/
  outcome : String → Option TransferEnd := fun _ => none
  /-- The finished downloads, oldest first. -/
  ended : List (String × TransferEnd) := []

inductive DownloadOp
  /-- `download`; whether `malloc` succeeds and the disk has space, and what `time` and `rand` return. -/
  | download (handle : ℕ) (ids : CallbackIds) (share malloc : Bool) (url : Option String) (disk : Bool)
      (now rand : ℕ)
  | onDownloadComplete (handle : ℕ) (token : Option String) (ids : CallbackIds)
  /-- The request library calls back. -/
  | transferEnds (info : ℕ) (e : TransferEnd)
  /-- A file is done whose path is none of the app, so that `strlen` reads a null pointer. -/
  | transferCrashes (info : ℕ)
  | detach (handle : ℕ)
  | destroy
  /-- The running callback returns, or the running function goes on. -/
  | next

def isValidUri (uri : Option String) : Bool :=
  match uri with
  | none => false
  | some uri =>
    let text := uri.toList
    let rest :=
      if "https://".toList.isPrefixOf text then some (text.drop 8)
      else if "http://".toList.isPrefixOf text then some (text.drop 7)
      else none
    match rest with
    | none => false
    | some [] => false
    | some rest => rest.all (fun c => !([' ','\t','\n','\x0b','\x0c','\r'].contains c))

/-- `uuid`. -/
def downloadUuid (now rand n : ℕ) : String := s!"{now}-{rand}-{n}"

namespace TransferEnd

def result : TransferEnd → DownloadResult
  | .done uri => ⟨true,0,uri⟩
  | .error body => ⟨false,1000,body⟩
  | .cancel => ⟨false,1002,"request is canceled"⟩

def id (ids : CallbackIds) : TransferEnd → ℤ
  | .done _ => ids.success
  | .error _ => ids.fail
  | .cancel => ids.fail

def answer : TransferEnd → Answer
  | .done uri => .success uri
  | .error body => .fail body 1000
  | .cancel => .fail "user cancel request" 2

theorem answer_ne_removed (e : TransferEnd) : e.answer ≠ .removed := by
  cases e <;> simp [answer]

end TransferEnd

namespace DownloadResult

def id (ids : CallbackIds) (r : DownloadResult) : ℤ := if r.success then ids.success else ids.fail

def answer (r : DownloadResult) : Answer := if r.success then .success r.data else .fail r.data r.code

end DownloadResult

def downloadResultCacheSize : ℕ := 10

def addResult (results : Std.TreeMap String DownloadResult) (uuid : String) (result : DownloadResult) :
    Std.TreeMap String DownloadResult :=
  let results := results.insert uuid result
  if results.size ≥ downloadResultCacheSize then
    match results.minKey? with
    | some key => results.erase key
    | none => results
  else results

namespace Downloads

variable (s : Downloads)

def recent : List (String × TransferEnd) := s.ended.drop (s.ended.length - (downloadResultCacheSize - 1))

def tokenState : Option String → TokenState
  | none => .missing
  | some token =>
    if token ∈ s.issued ∧ token ∉ s.ended.map Prod.fst then .running token
    else
      match s.recent.lookup token with
      | some e => .finished e
      | none => .unknown

def enterCall (handle : ℕ) (ids : CallbackIds) (asked : Option TokenState) : Downloads :=
  { s with
    registered := Function.update s.registered handle (fun id =>
      s.registered handle id || (decide (0 < id) && (id == ids.success || id == ids.fail || id == ids.complete)))
    calls := s.calls ++ [⟨handle,ids,asked⟩] }

/-- `FeatureInvokeCallback`. -/
def invokeCallback (call : Option ℕ) (handle : ℕ) (id : ℤ) (answer : Answer) : Downloads :=
  if s.registered handle id then
    { s with events := s.events ++ [⟨call,handle,answer⟩], inScript := true }
  else s

/-- `REMOVE_ALL_CALLBACK`. -/
def removeCallbacks (call : Option ℕ) (handle : ℕ) (ids : CallbackIds) : Downloads :=
  { s with
    registered := Function.update s.registered handle (fun id =>
      s.registered handle id && !(id == ids.success || id == ids.fail || id == ids.complete))
    events := s.events ++ [⟨call,handle,.removed⟩] }

def setInfo (info : ℕ) (f : ReqInfo → ReqInfo) : Downloads :=
  { s with heap := Function.update s.heap info ((s.heap info).map f) }

def freeReqInfo (info : ℕ) : Downloads :=
  match s.heap info with
  | none => { s with fault := true }
  | some _ => { s with heap := Function.update s.heap info none, freed := s.freed ++ [info] }

/-- Calls the outcome, if any, and `complete`, and removes the callbacks. -/
def answerCall (call handle : ℕ) (ids : CallbackIds) (id : ℤ) (answer : Answer) : List DownloadAction :=
  [.invoke call handle id answer,.invoke call handle ids.complete .complete,.removeIds call handle ids]

/-- `__request_cb`, with what is left of it. -/
def requestCb (info : ℕ) (e : TransferEnd) (rest : List DownloadAction) : Downloads :=
  match s.heap info with
  | none => { s with fault := true }
  | some req =>
    let s := { s with outcome := Function.update s.outcome req.uuid (some e), inScript := false }
    if s.detached req.featureHandle then
      { s with ended := s.ended ++ [(req.uuid,e)], todo := .discard info :: rest }
    else
      { s with
        shareInfo := if req.share then s.shareInfo else none
        todo := [.answer info e,.addResult info e,.complete info,.removeAll info,.discard info] ++ rest }

def requestCancel (info : ℕ) (rest : List DownloadAction) : Downloads :=
  match s.heap info with
  | none => { s with fault := true }
  | some req =>
    if req.request then s.requestCb info .cancel rest
    else { s with inScript := false, todo := rest }

/-- `download` up to the publication of the new task. -/
def download (handle : ℕ) (ids : CallbackIds) (share malloc : Bool) (url : Option String) (disk : Bool)
    (now rand : ℕ) : Downloads :=
  let call := s.calls.length
  let s := s.enterCall handle ids none
  if malloc then
    let info := s.allocated
    let s := { s with
      heap := Function.update s.heap info (some { featureHandle := handle, share := share })
      allocated := s.allocated + 1 }
    let rest := .start info call handle ids share url disk now rand :: s.todo
    match share, s.shareInfo with
    | false, some other => s.requestCancel other rest
    | _, _ => { s with inScript := false, todo := rest }
  else
    { s with
      inScript := false
      todo := answerCall call handle ids ids.fail (.fail "malloc fail" 200) ++ .ret :: s.todo }

/-- The first linked task with the token; `none` when a freed one is read on the way. -/
def findInfo (token : String) : List ℕ → Option (Option ℕ)
  | [] => some none
  | info :: infos =>
    match s.heap info with
    | none => none
    | some req => if req.uuid = token then some (some info) else findInfo token infos

def onDownloadComplete (handle : ℕ) (token : Option String) (ids : CallbackIds) : Downloads :=
  let call := s.calls.length
  let s := s.enterCall handle ids (some (s.tokenState token))
  match token with
  | none =>
    { s with
      inScript := false
      todo := answerCall call handle ids ids.fail (.fail "token is missing" 1001) ++ .ret :: s.todo }
  | some token =>
    match s.findInfo token s.linklist with
    | none => { s with fault := true }
    | some (some info) => s.setInfo info (fun req => { req with callbacks := ids, call := some call })
    | some none =>
      match s.downloadResults[token]? with
      | some r =>
        { s with
          inScript := false
          todo := answerCall call handle ids (r.id ids) r.answer ++ .ret :: s.todo }
      | none =>
        { s with
          inScript := false
          todo := answerCall call handle ids ids.fail (.fail "task not exist" 1001) ++ .ret :: s.todo }

/-- `download` from the publication on. -/
def start (info call handle : ℕ) (ids : CallbackIds) (share : Bool) (url : Option String) (disk : Bool)
    (now rand : ℕ) : Downloads :=
  let s := { s with shareInfo := if share then s.shareInfo else some info }
  if isValidUri url = false then
    { s with todo := answerCall call handle ids ids.fail (.fail "invalid url" 202) ++
        .free info :: .ret :: s.todo }
  else if disk = false then
    { s with todo := answerCall call handle ids ids.fail (.fail "no space to download file" 200) ++
        .free info :: .ret :: s.todo }
  else
    let token := downloadUuid now rand (s.startUuid + 1)
    let s := s.setInfo info (fun req => { req with request := true, uuid := token })
    { s with
      linklist := s.linklist ++ [info]
      startUuid := s.startUuid + 1
      issued := s.issued ++ [token]
      todo := answerCall call handle ids ids.success (.success token) ++ .ret :: s.todo }

def perform : DownloadAction → Downloads
  | .answer info e =>
    match s.heap info with
    | none => { s with fault := true }
    | some req => s.invokeCallback req.call req.featureHandle (e.id req.callbacks) e.answer
  | .addResult info e =>
    match s.heap info with
    | none => { s with fault := true }
    | some req => { s with
        downloadResults := FeatureRuntime.addResult s.downloadResults req.uuid e.result
        ended := s.ended ++ [(req.uuid,e)] }
  | .complete info =>
    match s.heap info with
    | none => { s with fault := true }
    | some req => s.invokeCallback req.call req.featureHandle req.callbacks.complete .complete
  | .removeAll info =>
    match s.heap info with
    | none => { s with fault := true }
    | some req => s.removeCallbacks req.call req.featureHandle req.callbacks
  | .discard info => { s with linklist := s.linklist.erase info }.freeReqInfo info
  | .start info call handle ids share url disk now rand =>
    s.start info call handle ids share url disk now rand
  | .invoke call handle id answer => s.invokeCallback (some call) handle id answer
  | .removeIds call handle ids => s.removeCallbacks (some call) handle ids
  | .free info => s.freeReqInfo info
  | .ret => { s with inScript := true }

def next : Downloads :=
  match s.todo with
  | [] => s
  | action :: todo => { s with todo := todo, inScript := false }.perform action

/-- `onDestroy`. -/
def destroy : Downloads :=
  { s.linklist.foldl freeReqInfo s with linklist := [], shareInfo := none, exit := true }

/-- One step. The script calls while it runs and its instance lives; the library calls back on the
request of a task, and the app exits, when nothing else is under way. `isGlobal` is never false, so
`onDetached` cancels nothing. -/
def step (op : DownloadOp) : Downloads :=
  if s.fault ∨ s.exit then s
  else
    match op with
    | .download handle ids share malloc url disk now rand =>
      if s.inScript ∧ s.detached handle = false then s.download handle ids share malloc url disk now rand
      else s
    | .onDownloadComplete handle token ids =>
      if s.inScript ∧ s.detached handle = false then s.onDownloadComplete handle token ids else s
    | .transferEnds info e =>
      if s.todo.isEmpty ∧ info ∈ s.linklist ∧ e ≠ .cancel then s.requestCb info e [.ret] else s
    | .transferCrashes info =>
      if s.todo.isEmpty ∧ info ∈ s.linklist ∧ ∀ req ∈ s.heap info, s.detached req.featureHandle = false then
        { s with crashed := true, exit := true }
      else s
    | .detach handle =>
      if s.inScript then
        { s with
          detached := Function.update s.detached handle true
          registered := Function.update s.registered handle (fun _ => false) }
      else s
    | .destroy => if s.todo.isEmpty then s.destroy else s
    | .next => s.next

def discards (todo : List DownloadAction) : List ℕ :=
  todo.filterMap (fun | .discard info => some info | _ => none)

/-- The tasks that a running call of `download` owns. -/
def owned (todo : List DownloadAction) : List ℕ :=
  todo.filterMap (fun | .start info .. => some info | .free info => some info | _ => none)

def Follows (rest : List DownloadAction) : DownloadAction → Prop
  | .answer info _ => info ∈ discards rest
  | .addResult info _ => info ∈ discards rest
  | .complete info => info ∈ discards rest
  | .removeAll info => info ∈ discards rest
  | .start .. => True
  | .ret => True
  | _ => rest ≠ []

def WellOrdered : List DownloadAction → Prop
  | [] => True
  | action :: rest => Follows rest action ∧ WellOrdered rest

/-- Every task is linked, or owned by a running call, or freed, once; the actions under way are on
live tasks; and the exclusive task is not one that ends. -/
structure Tasks (s : Downloads) : Prop where
  noFault : s.fault = false
  counted : ∀ info, (s.linklist ++ owned s.todo ++ s.freed).count info =
    if info < s.allocated then 1 else 0
  live : ∀ info, (s.heap info).isSome ↔ info ∈ s.linklist ∨ info ∈ owned s.todo
  requested : ∀ info req, s.heap info = some req → (req.request = true ↔ info ∈ s.linklist)
  discards_nodup : (discards s.todo).Nodup
  discards_linked : ∀ info ∈ discards s.todo, info ∈ s.linklist
  ordered : WellOrdered s.todo
  idle : s.todo = [] → s.inScript = true
  share_quiet : ∀ info, s.shareInfo = some info →
    info ∉ discards s.todo ∨ (s.inScript = false ∧ s.todo.head? = some (.discard info))
  share_allocated : ∀ info, s.shareInfo = some info → info < s.allocated
  share_exclusive : ∀ info req, s.shareInfo = some info → s.heap info = some req → req.share = false
  started : ∀ info call handle ids share url disk now rand,
    .start info call handle ids share url disk now rand ∈ s.todo → ∀ req, s.heap info = some req → req.share = share

def FindsLive (s : Downloads) : DownloadOp → Prop
  | .download _ _ share malloc .. => malloc = true → share = false → s.inScript = true →
      ∀ info, s.shareInfo = some info → (s.heap info).isSome
  | _ => True

theorem tasks_init : Tasks {} where
  noFault := rfl
  counted info := by simp [owned]
  live info := by simp [owned]
  requested := by simp
  discards_nodup := List.nodup_nil
  discards_linked := by simp [discards]
  ordered := trivial
  idle _ := rfl
  share_quiet := by simp
  share_allocated := by simp
  share_exclusive := by simp
  started := by simp

namespace Tasks

variable {s : Downloads}

theorem linklist_nodup (hs : s.Tasks) : s.linklist.Nodup := by
  rw [List.nodup_iff_count_le_one]
  intro info
  have h := hs.counted info
  simp only [List.count_append] at h
  split_ifs at h <;> omega

theorem freed_nodup (hs : s.Tasks) : s.freed.Nodup := by
  rw [List.nodup_iff_count_le_one]
  intro info
  have h := hs.counted info
  simp only [List.count_append] at h
  split_ifs at h <;> omega

variable {t : Downloads}

theorem advance (hs : s.Tasks) (hheap : t.heap = s.heap)
    (hallocated : t.allocated = s.allocated) (hfreed : t.freed = s.freed)
    (hlinklist : t.linklist = s.linklist) (hfault : t.fault = s.fault)
    (howned : owned t.todo = owned s.todo) (hdiscards : discards t.todo = discards s.todo)
    (hstarts : ∀ action ∈ t.todo, owned [action] ≠ [] → action ∈ s.todo)
    (hordered : WellOrdered t.todo) (hidle : t.todo = [] → t.inScript = true)
    (hshare : ∀ info, t.shareInfo = some info → s.shareInfo = some info ∧ info ∉ discards t.todo) :
    t.Tasks where
  noFault := by rw [hfault,hs.noFault]
  counted := by rw [hlinklist,howned,hfreed,hallocated]; exact hs.counted
  live := by rw [hheap,hlinklist,howned]; exact hs.live
  requested := by rw [hheap,hlinklist]; exact hs.requested
  discards_nodup := by rw [hdiscards]; exact hs.discards_nodup
  discards_linked := by rw [hdiscards,hlinklist]; exact hs.discards_linked
  ordered := hordered
  idle := hidle
  share_quiet info hinfo := .inl (hshare info hinfo).2
  share_allocated info hinfo := by rw [hallocated]; exact hs.share_allocated info (hshare info hinfo).1
  share_exclusive info req hinfo := by rw [hheap]; exact hs.share_exclusive info req (hshare info hinfo).1
  started info call handle ids share url disk now rand hmem := by
    rw [hheap]
    exact hs.started info call handle ids share url disk now rand (hstarts _ hmem (by simp [owned]))

variable {action : DownloadAction} {rest : List DownloadAction}

theorem ordered_head (hs : s.Tasks) (htodo : s.todo = action :: rest) : Follows rest action ∧ WellOrdered rest := by
  have h := hs.ordered
  rw [htodo] at h
  exact h

theorem share_not_discarded (hs : s.Tasks) (htodo : s.todo = action :: rest)
    (hplain : ∀ info, action ≠ .discard info) {info : ℕ} (hinfo : s.shareInfo = some info) :
    info ∉ discards s.todo := by
  refine (hs.share_quiet info hinfo).resolve_right (fun h => ?_)
  rw [htodo] at h
  exact hplain info (Option.some.inj h.2)

theorem live_of_discards (hs : s.Tasks) {info : ℕ} (hinfo : info ∈ discards s.todo) : ∃ req, s.heap info = some req :=
  Option.isSome_iff_exists.mp ((hs.live info).mpr (.inl (hs.discards_linked info hinfo)))

theorem not_owned_of_linked (hs : s.Tasks) {info : ℕ} (hinfo : info ∈ s.linklist) : info ∉ owned s.todo := by
  intro howned
  have h := hs.counted info
  have h1 := List.count_pos_iff.mpr hinfo
  have h2 := List.count_pos_iff.mpr howned
  simp only [List.count_append] at h
  split_ifs at h <;> omega

theorem perform_plain (hs : s.Tasks) (htodo : s.todo = action :: rest)
    (hplain : ∀ info, action ≠ .discard info) (howned : owned [action] = [])
    (hheap : t.heap = s.heap) (hallocated : t.allocated = s.allocated) (hfreed : t.freed = s.freed)
    (hlinklist : t.linklist = s.linklist) (hshare : t.shareInfo = s.shareInfo)
    (hfault : t.fault = s.fault) (ht : t.todo = rest) (hidle : rest = [] → t.inScript = true) :
    t.Tasks := by
  have hdiscards : discards s.todo = discards rest := by
    rw [htodo]
    cases action with
    | discard info => exact absurd rfl (hplain info)
    | _ => rfl
  refine hs.advance hheap hallocated hfreed hlinklist hfault ?_ ?_ ?_ ?_ ?_ ?_
  · rw [ht,htodo]
    change owned rest = owned ([action] ++ rest)
    simp only [owned,List.filterMap_append] at howned ⊢
    rw [howned,List.nil_append]
  · rw [ht,hdiscards]
  · rw [ht,htodo]
    exact fun a ha _ => List.mem_cons_of_mem _ ha
  · rw [ht]
    exact (hs.ordered_head htodo).2
  · rw [ht]
    exact hidle
  · intro info hinfo
    rw [hshare] at hinfo
    refine ⟨hinfo,?_⟩
    rw [ht,← hdiscards]
    exact hs.share_not_discarded htodo hplain hinfo

theorem release_task (hs : s.Tasks) {info : ℕ}
    (hheap : t.heap = Function.update s.heap info none) (hallocated : t.allocated = s.allocated)
    (hfreed : t.freed = s.freed ++ [info]) (hfault : t.fault = s.fault)
    (hshare : t.shareInfo = s.shareInfo)
    (hcount : ∀ i, (t.linklist ++ owned t.todo).count i + (if i = info then 1 else 0) =
      (s.linklist ++ owned s.todo).count i)
    (hlinklist : ∀ i, i ≠ info → (i ∈ t.linklist ↔ i ∈ s.linklist))
    (hdiscards : (discards t.todo).Nodup) (hlinked : ∀ i ∈ discards t.todo, i ≠ info ∧ i ∈ s.linklist)
    (hstarts : ∀ action ∈ t.todo, action ∈ s.todo) (hordered : WellOrdered t.todo)
    (hidle : t.todo ≠ []) (hquiet : ∀ i, s.shareInfo = some i → i ∉ discards t.todo) : t.Tasks := by
  have hget : ∀ i req, t.heap i = some req → i ≠ info ∧ s.heap i = some req := by
    intro i req hi
    rw [hheap] at hi
    by_cases heq : i = info
    · simp [heq] at hi
    · exact ⟨heq,by rwa [Function.update_of_ne heq] at hi⟩
  refine ⟨hfault.trans hs.noFault,fun i => ?_,fun i => ?_,fun i req hi => ?_,hdiscards,fun i hi => ?_,
    hordered,fun h => absurd h hidle,fun i hi => .inl (hquiet i (hshare ▸ hi)),
    fun i hi => hallocated ▸ hs.share_allocated i (hshare ▸ hi),fun i req hi hreq => ?_,
    fun i call handle ids share url disk now rand hmem req hreq => ?_⟩
  · have hold := hs.counted i
    have hnew := hcount i
    rw [hfreed,hallocated,← List.append_assoc]
    simp only [List.count_append,List.count_singleton,beq_iff_eq] at hold hnew ⊢
    rw [← hold]
    split_ifs at hnew ⊢ <;> omega
  · have hold := hs.counted i
    have hnew := hcount i
    have hlive := hs.live i
    simp only [List.count_append] at hold hnew
    simp only [← List.count_pos_iff] at hlive ⊢
    rw [hheap]
    by_cases heq : i = info
    · subst heq
      simp only [if_true] at hnew
      split_ifs at hold
      · simp only [Function.update_self,Option.isSome_none,Bool.false_eq_true,false_iff]
        omega
      · omega
    · rw [Function.update_of_ne heq,hlive]
      rw [if_neg heq] at hnew
      omega
  · obtain ⟨hne,hreq⟩ := hget i req hi
    rw [hlinklist i hne]
    exact hs.requested i req hreq
  · exact (hlinklist i (hlinked i hi).1).mpr (hlinked i hi).2
  · exact hs.share_exclusive i req (hshare ▸ hi) (hget i req hreq).2
  · exact hs.started i call handle ids share url disk now rand (hstarts _ hmem) req (hget i req hreq).2

/-- `weakref_list_delete` and `freeReqInfo`. -/
theorem perform_discard {info : ℕ} (hs : s.Tasks) (htodo : s.todo = .discard info :: rest) :
    ({ s with todo := rest, inScript := false }.perform (.discard info)).Tasks := by
  have hdiscards : discards s.todo = info :: discards rest := by rw [htodo]; rfl
  have howned : owned s.todo = owned rest := by rw [htodo]; rfl
  have hmem : info ∈ discards s.todo := by simp [hdiscards]
  have hlinked := hs.discards_linked info hmem
  have hnodup := hs.discards_nodup
  rw [hdiscards,List.nodup_cons] at hnodup
  obtain ⟨req,hreq⟩ := hs.live_of_discards hmem
  simp only [perform,freeReqInfo,hreq]
  refine hs.release_task rfl rfl rfl rfl rfl (fun i => ?_) (fun i hi => List.mem_erase_of_ne hi)
    hnodup.2 (fun i hi => ⟨?_,?_⟩) (fun a ha => htodo ▸ List.mem_cons_of_mem _ ha)
    (hs.ordered_head htodo).2 (hs.ordered_head htodo).1 (fun i hi => ?_)
  · have hpos := List.count_pos_iff.mpr hlinked
    rw [howned]
    simp only [List.count_append,List.count_erase,beq_iff_eq]
    by_cases heq : i = info
    · subst heq
      simp only [if_true]
      omega
    · rw [if_neg heq,if_neg (Ne.symm heq)]
      omega
  · exact fun heq => hnodup.1 (heq ▸ hi)
  · exact hs.discards_linked i (hdiscards ▸ List.mem_cons_of_mem _ hi)
  · rcases hs.share_quiet i hi with hquiet | ⟨_,hhead⟩
    · exact fun h => hquiet (hdiscards ▸ List.mem_cons_of_mem _ h)
    · rw [htodo,List.head?_cons,Option.some.injEq,DownloadAction.discard.injEq] at hhead
      exact hhead ▸ hnodup.1

/-- `freeReqInfo` of a task that was not linked. -/
theorem perform_free {info : ℕ} (hs : s.Tasks) (htodo : s.todo = .free info :: rest) :
    ({ s with todo := rest, inScript := false }.perform (.free info)).Tasks := by
  have hdiscards : discards s.todo = discards rest := by rw [htodo]; rfl
  have howned : owned s.todo = info :: owned rest := by rw [htodo]; rfl
  have hmem : info ∈ owned s.todo := by simp [howned]
  have hnot : info ∉ s.linklist := fun h => hs.not_owned_of_linked h hmem
  obtain ⟨req,hreq⟩ := Option.isSome_iff_exists.mp ((hs.live info).mpr (.inr hmem))
  simp only [perform,freeReqInfo,hreq]
  refine hs.release_task rfl rfl rfl rfl rfl (fun i => ?_) (fun i _ => Iff.rfl)
    (hdiscards ▸ hs.discards_nodup) (fun i hi => ?_) (fun a ha => htodo ▸ List.mem_cons_of_mem _ ha)
    (hs.ordered_head htodo).2 (hs.ordered_head htodo).1 (fun i hi => ?_)
  · rw [howned]
    simp only [List.count_append,List.count_cons,beq_iff_eq,eq_comm (a := info)]
    omega
  · have hi' := hs.discards_linked i (hdiscards ▸ hi)
    exact ⟨fun heq => hnot (heq ▸ hi'),hi'⟩
  · have hquiet := hs.share_not_discarded htodo nofun hi
    rwa [hdiscards] at hquiet

theorem invokeCallback_same (s : Downloads) (call : Option ℕ) (handle : ℕ) (id : ℤ) (answer : Answer) :
    let t := s.invokeCallback call handle id answer
    t.heap = s.heap ∧ t.allocated = s.allocated ∧ t.freed = s.freed ∧ t.linklist = s.linklist ∧
      t.shareInfo = s.shareInfo ∧ t.fault = s.fault ∧ t.todo = s.todo := by
  intro t
  have ht : t = s.invokeCallback call handle id answer := rfl
  unfold invokeCallback at ht
  split_ifs at ht <;> (rw [ht]; exact ⟨rfl,rfl,rfl,rfl,rfl,rfl,rfl⟩)

theorem perform_invoke (hs : s.Tasks) (htodo : s.todo = action :: rest)
    (hplain : ∀ info, action ≠ .discard info) (howned : owned [action] = []) (hne : rest ≠ [])
    (call : Option ℕ) (handle : ℕ) (id : ℤ) (answer : Answer) :
    ({ s with todo := rest, inScript := false }.invokeCallback call handle id answer).Tasks := by
  obtain ⟨hheap,hallocated,hfreed,hlinklist,hshare,hfault,ht⟩ :=
    invokeCallback_same { s with todo := rest, inScript := false } call handle id answer
  exact hs.perform_plain htodo hplain howned hheap hallocated hfreed hlinklist hshare hfault ht
    (fun h => absurd h hne)

section Start

variable {info call handle : ℕ} {ids : CallbackIds} {share : Bool} {url : Option String} {disk : Bool} {now rand : ℕ}

/-- The task of a call that starts is not discarded and is allocated. -/
theorem started_task (hs : s.Tasks) (htodo : s.todo = .start info call handle ids share url disk now rand :: rest) :
    info ∉ discards rest ∧ info < s.allocated ∧ ∃ req, s.heap info = some req ∧ req.share = share := by
  have hmem : info ∈ owned s.todo := by
    rw [htodo]
    exact List.mem_cons_self
  have hdiscards : discards s.todo = discards rest := by rw [htodo]; rfl
  refine ⟨?_,?_,?_⟩
  · intro h
    exact hs.not_owned_of_linked (hs.discards_linked info (hdiscards ▸ h)) hmem
  · have hcount := hs.counted info
    have hpos := List.count_pos_iff.mpr hmem
    simp only [List.count_append] at hcount
    split_ifs at hcount with h
    · exact h
    · omega
  · obtain ⟨req,hreq⟩ := Option.isSome_iff_exists.mp ((hs.live info).mpr (.inr hmem))
    refine ⟨req,hreq,hs.started info call handle ids share url disk now rand ?_ req hreq⟩
    rw [htodo]
    exact List.mem_cons_self

theorem started_share (hs : s.Tasks)
    (htodo : s.todo = .start info call handle ids share url disk now rand :: rest) {i : ℕ}
    (hi : (if share then s.shareInfo else some info) = some i) :
    i ∉ discards rest ∧ i < s.allocated ∧ ∀ r, s.heap i = some r → r.share = false := by
  obtain ⟨hquiet,hallocated,req,hreq,hshare⟩ := hs.started_task htodo
  split_ifs at hi with h
  · have hdiscards : discards s.todo = discards rest := by rw [htodo]; rfl
    exact ⟨hdiscards ▸ hs.share_not_discarded htodo nofun hi,hs.share_allocated i hi,
      fun r hr => hs.share_exclusive i r hi hr⟩
  · obtain rfl := Option.some.inj hi
    refine ⟨hquiet,hallocated,fun r hr => ?_⟩
    obtain rfl := Option.some.inj (hreq.symm.trans hr)
    simpa [h] using hshare

theorem answerCall_wellOrdered (id : ℤ) (answer : Answer) {later : List DownloadAction} (hne : later ≠ [])
    (h : WellOrdered later) : WellOrdered (answerCall call handle ids id answer ++ later) := by
  simp [answerCall,WellOrdered,Follows,hne,h]

theorem perform_start_refused (hs : s.Tasks)
    (htodo : s.todo = .start info call handle ids share url disk now rand :: rest) (id : ℤ) (answer : Answer) :
    Tasks { s with
      inScript := false
      shareInfo := if share then s.shareInfo else some info
      todo := answerCall call handle ids id answer ++ .free info :: .ret :: rest } := by
  have hdiscards : discards (answerCall call handle ids id answer ++ .free info :: .ret :: rest) = discards s.todo := by
    rw [htodo]
    rfl
  have howned : owned (answerCall call handle ids id answer ++ .free info :: .ret :: rest) = owned s.todo := by
    rw [htodo]
    rfl
  refine ⟨hs.noFault,?_,?_,hs.requested,?_,?_,?_,fun h => ?_,fun i hi => .inl ?_,
    fun i hi => (hs.started_share htodo hi).2.1,fun i r hi hr => (hs.started_share htodo hi).2.2 r hr,?_⟩
  · simp only [howned]
    exact hs.counted
  · simp only [howned]
    exact hs.live
  · simp only [hdiscards]
    exact hs.discards_nodup
  · simp only [hdiscards]
    exact hs.discards_linked
  · exact answerCall_wellOrdered id answer (by simp) ⟨by simp [Follows],trivial,(hs.ordered_head htodo).2⟩
  · simp [answerCall] at h
  · exact (hs.started_share htodo hi).1
  · intro i c h is sh u d n r hmem
    have hmem : .start i c h is sh u d n r ∈ rest := by simpa [answerCall] using hmem
    exact hs.started i c h is sh u d n r (htodo ▸ List.mem_cons_of_mem _ hmem)

theorem perform_start_linked (hs : s.Tasks)
    (htodo : s.todo = .start info call handle ids share url disk now rand :: rest) {token : String} (id : ℤ)
    (answer : Answer) {issued : List String} {startUuid : ℕ} :
    Tasks { ({ s with shareInfo := if share then s.shareInfo else some info }.setInfo info
        (fun req => { req with request := true, uuid := token })) with
      inScript := false
      linklist := s.linklist ++ [info]
      startUuid := startUuid
      issued := issued
      todo := answerCall call handle ids id answer ++ .ret :: rest } := by
  obtain ⟨-,-,req,hreq,-⟩ := hs.started_task htodo
  have hdiscards : discards (answerCall call handle ids id answer ++ .ret :: rest) = discards s.todo := by
    rw [htodo]
    rfl
  have howned : owned s.todo = info :: owned (answerCall call handle ids id answer ++ .ret :: rest) := by
    rw [htodo]
    rfl
  -- the record of the task is the one it had, or the one that is set now
  have hget : ∀ (v : ReqInfo) i r, Function.update s.heap info (some v) i = some r →
      (i = info ∧ r = v) ∨ (i ≠ info ∧ s.heap i = some r) := by
    intro v i r hr
    by_cases heq : i = info
    · subst heq
      exact .inl ⟨rfl,by simpa using hr.symm⟩
    · exact .inr ⟨heq,by rwa [Function.update_of_ne heq] at hr⟩
  simp only [setInfo,hreq,Option.map_some]
  refine ⟨hs.noFault,fun i => ?_,fun i => ?_,fun i r hr => ?_,?_,fun i hi => ?_,
    answerCall_wellOrdered id answer (by simp) ⟨trivial,(hs.ordered_head htodo).2⟩,fun h => ?_,fun i hi => .inl ?_,
    fun i hi => (hs.started_share htodo hi).2.1,fun i r hi hr => ?_,fun i c h is sh u d n r hmem q hq => ?_⟩
  · have hcount := hs.counted i
    rw [howned] at hcount
    simp only [List.count_append,List.count_cons,List.count_nil,beq_iff_eq] at hcount ⊢
    omega
  · have hlive := hs.live i
    rw [howned] at hlive
    by_cases heq : i = info
    · subst heq
      simp
    · simpa [heq] using hlive
  · rcases hget _ i r hr with ⟨rfl,rfl⟩ | ⟨heq,hr⟩
    · simp
    · simpa [heq] using hs.requested i r hr
  · simp only [hdiscards]
    exact hs.discards_nodup
  · simp only [hdiscards] at hi
    exact List.mem_append_left _ (hs.discards_linked i hi)
  · simp [answerCall] at h
  · exact (hs.started_share htodo hi).1
  · rcases hget _ i r hr with ⟨rfl,rfl⟩ | ⟨-,hr⟩
    · exact (hs.started_share htodo hi).2.2 req hreq
    · exact (hs.started_share htodo hi).2.2 r hr
  · have hstart : DownloadAction.start i c h is sh u d n r ∈ s.todo := by
      rw [htodo]
      exact List.mem_cons_of_mem _ (by simpa [answerCall] using hmem)
    rcases hget _ i q hq with ⟨rfl,rfl⟩ | ⟨-,hq⟩
    · exact hs.started i c h is sh u d n r hstart req hreq
    · exact hs.started i c h is sh u d n r hstart q hq

theorem perform_start (hs : s.Tasks) (htodo : s.todo = .start info call handle ids share url disk now rand :: rest) :
    ({ s with todo := rest, inScript := false }.start info call handle ids share url disk now rand).Tasks := by
  unfold start
  by_cases hurl : isValidUri url = false
  · simp only [hurl,if_true]
    exact hs.perform_start_refused htodo _ _
  by_cases hdisk : disk = false
  · simp only [if_neg hurl,hdisk,if_true]
    exact hs.perform_start_refused htodo _ _
  · simp only [if_neg hurl,if_neg hdisk]
    exact hs.perform_start_linked htodo _ _

end Start

theorem next (hs : s.Tasks) : s.next.Tasks := by
  unfold Downloads.next
  cases htodo : s.todo with
  | nil => exact hs
  | cons action rest =>
    have hordered := (hs.ordered_head htodo).1
    have hne : ∀ {info}, info ∈ discards rest → rest ≠ [] := by
      rintro info hinfo rfl
      exact absurd hinfo List.not_mem_nil
    have hlive : ∀ {info}, (∀ i, action ≠ .discard i) → info ∈ discards rest → ∃ req, s.heap info = some req := by
      intro info hplain hinfo
      refine hs.live_of_discards ?_
      rw [htodo]
      exact List.mem_filterMap.mpr (by
        obtain ⟨a,ha,hi⟩ := List.mem_filterMap.mp hinfo
        exact ⟨a,List.mem_cons_of_mem _ ha,hi⟩)
    cases action with
    | answer info e =>
      obtain ⟨req,hreq⟩ := hlive nofun hordered
      simp only [perform,hreq]
      exact hs.perform_invoke htodo nofun rfl (hne hordered) _ _ _ _
    | addResult info e =>
      obtain ⟨req,hreq⟩ := hlive nofun hordered
      simp only [perform,hreq]
      exact hs.perform_plain htodo nofun rfl rfl rfl rfl rfl rfl rfl rfl (fun h => absurd h (hne hordered))
    | complete info =>
      obtain ⟨req,hreq⟩ := hlive nofun hordered
      simp only [perform,hreq]
      exact hs.perform_invoke htodo nofun rfl (hne hordered) _ _ _ _
    | removeAll info =>
      obtain ⟨req,hreq⟩ := hlive nofun hordered
      simp only [perform,hreq]
      exact hs.perform_plain htodo nofun rfl rfl rfl rfl rfl rfl rfl rfl (fun h => absurd h (hne hordered))
    | discard info => exact hs.perform_discard htodo
    | start info call handle ids share url disk now rand => exact hs.perform_start htodo
    | invoke call handle id answer => exact hs.perform_invoke htodo nofun rfl hordered _ _ _ _
    | removeIds call handle ids =>
      exact hs.perform_plain htodo nofun rfl rfl rfl rfl rfl rfl rfl rfl (fun h => absurd h hordered)
    | free info => exact hs.perform_free htodo
    | ret => exact hs.perform_plain htodo nofun rfl rfl rfl rfl rfl rfl rfl rfl (fun _ => rfl)

theorem requestCb (hs : s.Tasks) {info : ℕ} (hinfo : info ∈ s.linklist) (hnot : info ∉ discards s.todo)
    (hne : s.todo ≠ []) (hquiet : ∀ i, s.shareInfo = some i → i ∉ discards s.todo) (e : TransferEnd) :
    (s.requestCb info e s.todo).Tasks := by
  obtain ⟨req,hreq⟩ := Option.isSome_iff_exists.mp ((hs.live info).mpr (.inl hinfo))
  have hlinked : ∀ i ∈ info :: discards s.todo, i ∈ s.linklist := by
    simpa [hinfo] using hs.discards_linked
  simp only [Downloads.requestCb,hreq]
  by_cases hdetached : s.detached req.featureHandle = true
  · rw [if_pos hdetached]
    refine ⟨hs.noFault,hs.counted,hs.live,hs.requested,List.nodup_cons.mpr ⟨hnot,hs.discards_nodup⟩,
      hlinked,⟨hne,hs.ordered⟩,by simp,fun i hi => ?_,hs.share_allocated,hs.share_exclusive,
      fun i c h is sh u d n r hmem => hs.started i c h is sh u d n r (by simpa using hmem)⟩
    by_cases heq : i = info
    · subst heq
      exact .inr ⟨rfl,rfl⟩
    · exact .inl (List.not_mem_cons_of_ne_of_not_mem heq (hquiet i hi))
  · rw [if_neg hdetached]
    have hkept : ∀ i, (if req.share then s.shareInfo else none) = some i → s.shareInfo = some i ∧ i ≠ info := by
      intro i hi
      split_ifs at hi with hshare
      refine ⟨hi,?_⟩
      rintro rfl
      rw [hs.share_exclusive i req hi hreq] at hshare
      exact Bool.noConfusion hshare
    refine ⟨hs.noFault,hs.counted,hs.live,hs.requested,List.nodup_cons.mpr ⟨hnot,hs.discards_nodup⟩,
      hlinked,?_,by simp,
      fun i hi => .inl (List.not_mem_cons_of_ne_of_not_mem (hkept i hi).2 (hquiet i (hkept i hi).1)),
      fun i hi => hs.share_allocated i (hkept i hi).1,
      fun i r hi => hs.share_exclusive i r (hkept i hi).1,
      fun i c h is sh u d n r hmem => hs.started i c h is sh u d n r (by simpa using hmem)⟩
    simp [WellOrdered,Follows,discards,hne,hs.ordered]

theorem quiet_of_script (hs : s.Tasks) (hscript : s.inScript = true) {info : ℕ}
    (hinfo : s.shareInfo = some info) : info ∉ discards s.todo :=
  (hs.share_quiet info hinfo).resolve_right (fun h => by simp [hscript] at h)

theorem unallocated (hs : s.Tasks) : s.heap s.allocated = none ∧ s.allocated ∉ s.linklist ∧
    s.allocated ∉ owned s.todo ∧ s.allocated ∉ s.freed := by
  have hcount := hs.counted s.allocated
  rw [if_neg (lt_irrefl _)] at hcount
  simp only [List.count_append,Nat.add_eq_zero_iff,List.count_eq_zero] at hcount
  refine ⟨?_,hcount.1.1,hcount.1.2,hcount.2⟩
  have hlive := (hs.live s.allocated).not.mpr (not_or.mpr ⟨hcount.1.1,hcount.1.2⟩)
  simpa using hlive

theorem malloc (hs : s.Tasks) (hscript : s.inScript = true) (call handle : ℕ) (ids : CallbackIds)
    (share : Bool) (url : Option String) (disk : Bool) (now rand : ℕ) :
    Tasks { s with
      heap := Function.update s.heap s.allocated (some { featureHandle := handle, share := share })
      allocated := s.allocated + 1
      inScript := false
      todo := .start s.allocated call handle ids share url disk now rand :: s.todo } := by
  obtain ⟨hnone,hnotlinked,hnotowned,hnotfreed⟩ := hs.unallocated
  have hget : ∀ (v : ReqInfo) i r, Function.update s.heap s.allocated (some v) i = some r →
      (i = s.allocated ∧ r = v) ∨ (i ≠ s.allocated ∧ s.heap i = some r) := by
    intro v i r hr
    by_cases heq : i = s.allocated
    · subst heq
      exact .inl ⟨rfl,by simpa using hr.symm⟩
    · exact .inr ⟨heq,by rwa [Function.update_of_ne heq] at hr⟩
  have howned : owned (.start s.allocated call handle ids share url disk now rand :: s.todo) =
      s.allocated :: owned s.todo := rfl
  refine ⟨hs.noFault,fun i => ?_,fun i => ?_,fun i r hr => ?_,hs.discards_nodup,hs.discards_linked,
    ?_,by simp,fun i hi => .inl (hs.quiet_of_script hscript hi),
    fun i hi => Nat.lt_succ_of_lt (hs.share_allocated i hi),fun i r hi hr => ?_,
    fun i c h is sh u d n q hmem r hr => ?_⟩
  · have hcount := hs.counted i
    simp only [howned,List.count_append,List.count_cons,beq_iff_eq] at hcount ⊢
    split_ifs at hcount ⊢ <;> omega
  · rw [howned]
    by_cases heq : i = s.allocated
    · subst heq
      simp
    · simpa [heq] using hs.live i
  · rcases hget _ i r hr with ⟨rfl,rfl⟩ | ⟨_,hr⟩
    · simp [hnotlinked]
    · exact hs.requested i r hr
  · exact ⟨trivial,hs.ordered⟩
  · rcases hget _ i r hr with ⟨rfl,rfl⟩ | ⟨_,hr⟩
    · exact absurd (hs.share_allocated _ hi) (lt_irrefl _)
    · exact hs.share_exclusive i r hi hr
  · rcases List.mem_cons.mp hmem with heq | hmem
    · simp only [DownloadAction.start.injEq] at heq
      obtain ⟨rfl,rfl,rfl,rfl,rfl,rfl,rfl,rfl,rfl⟩ := heq
      rcases hget _ _ r hr with ⟨_,rfl⟩ | ⟨hne,_⟩
      · rfl
      · exact absurd rfl hne
    · rcases hget _ i r hr with ⟨rfl,rfl⟩ | ⟨_,hr⟩
      · have hown : s.allocated ∈ owned s.todo := by
          unfold owned
          exact List.mem_filterMap.mpr ⟨_,hmem,rfl⟩
        exact absurd hown hnotowned
      · exact hs.started i c h is sh u d n q hmem r hr

/-- The functions under way are the same, so nothing changes for the tasks. -/
theorem frame (hs : s.Tasks) (hheap : t.heap = s.heap)
    (hallocated : t.allocated = s.allocated) (hfreed : t.freed = s.freed)
    (hlinklist : t.linklist = s.linklist) (hfault : t.fault = s.fault) (hscript : t.inScript = s.inScript)
    (hshare : t.shareInfo = s.shareInfo) (htodo : t.todo = s.todo) : t.Tasks where
  noFault := by rw [hfault,hs.noFault]
  counted := by rw [hlinklist,htodo,hfreed,hallocated]; exact hs.counted
  live := by rw [hheap,hlinklist,htodo]; exact hs.live
  requested := by rw [hheap,hlinklist]; exact hs.requested
  discards_nodup := by rw [htodo]; exact hs.discards_nodup
  discards_linked := by rw [htodo,hlinklist]; exact hs.discards_linked
  ordered := by rw [htodo]; exact hs.ordered
  idle := by rw [htodo,hscript]; exact hs.idle
  share_quiet := by rw [hshare,htodo,hscript]; exact hs.share_quiet
  share_allocated := by rw [hshare,hallocated]; exact hs.share_allocated
  share_exclusive := by rw [hshare,hheap]; exact hs.share_exclusive
  started := by rw [htodo,hheap]; exact hs.started

theorem enterCall (hs : s.Tasks) (handle : ℕ) (ids : CallbackIds) (asked : Option TokenState) :
    (s.enterCall handle ids asked).Tasks :=
  hs.frame rfl rfl rfl rfl rfl rfl rfl rfl

theorem answering (hs : s.Tasks) (hscript : s.inScript = true) (call handle : ℕ) (ids : CallbackIds)
    (id : ℤ) (answer : Answer) :
    Tasks { s with inScript := false, todo := answerCall call handle ids id answer ++ .ret :: s.todo } := by
  refine hs.advance rfl rfl rfl rfl rfl rfl rfl ?_ ?_ ?_ (fun i hi => ⟨hi,hs.quiet_of_script hscript hi⟩)
  · intro action hmem howned
    simp only [answerCall,List.cons_append,List.nil_append,List.mem_cons] at hmem
    rcases hmem with rfl | rfl | rfl | rfl | hmem
    · exact absurd rfl howned
    · exact absurd rfl howned
    · exact absurd rfl howned
    · exact absurd rfl howned
    · exact hmem
  · simp [answerCall,WellOrdered,Follows,hs.ordered]
  · simp [answerCall]

theorem findInfo_some (hs : s.Tasks) (token : String) {infos : List ℕ} (hinfos : ∀ i ∈ infos, i ∈ s.linklist) :
    ∃ found, s.findInfo token infos = some found ∧ ∀ info, found = some info → info ∈ infos := by
  induction infos with
  | nil => exact ⟨none,rfl,nofun⟩
  | cons info infos ih =>
    obtain ⟨req,hreq⟩ :=
      Option.isSome_iff_exists.mp ((hs.live info).mpr (.inl (hinfos info List.mem_cons_self)))
    obtain ⟨found,hfound,hmem⟩ := ih (fun i hi => hinfos i (List.mem_cons_of_mem _ hi))
    simp only [findInfo,hreq]
    by_cases heq : req.uuid = token
    · rw [if_pos heq]
      refine ⟨some info,rfl,fun i hi => ?_⟩
      obtain rfl := Option.some.inj hi
      exact List.mem_cons_self
    · rw [if_neg heq]
      exact ⟨found,hfound,fun i hi => List.mem_cons_of_mem _ (hmem i hi)⟩

theorem setInfo (hs : s.Tasks) (info : ℕ) {f : ReqInfo → ReqInfo}
    (hrequest : ∀ req, (f req).request = req.request) (hshare : ∀ req, (f req).share = req.share) :
    (s.setInfo info f).Tasks := by
  have hget : ∀ i r, (s.setInfo info f).heap i = some r →
      ∃ r0, s.heap i = some r0 ∧ r.request = r0.request ∧ r.share = r0.share := by
    intro i r hr
    simp only [Downloads.setInfo] at hr
    by_cases heq : i = info
    · subst heq
      rw [Function.update_self,Option.map_eq_some_iff] at hr
      obtain ⟨r0,h0,rfl⟩ := hr
      exact ⟨r0,h0,hrequest r0,hshare r0⟩
    · rw [Function.update_of_ne heq] at hr
      exact ⟨r,hr,rfl,rfl⟩
  have hsome : ∀ i, ((s.setInfo info f).heap i).isSome = (s.heap i).isSome := by
    intro i
    simp only [Downloads.setInfo]
    by_cases heq : i = info
    · subst heq
      simp
    · rw [Function.update_of_ne heq]
  refine ⟨hs.noFault,hs.counted,fun i => ?_,fun i r hr => ?_,hs.discards_nodup,hs.discards_linked,
    hs.ordered,hs.idle,hs.share_quiet,hs.share_allocated,fun i r hi hr => ?_,
    fun i c h is sh u d n q hmem r hr => ?_⟩
  · rw [hsome]
    exact hs.live i
  · obtain ⟨r0,h0,h1,_⟩ := hget i r hr
    rw [h1]
    exact hs.requested i r0 h0
  · obtain ⟨r0,h0,_,h2⟩ := hget i r hr
    rw [h2]
    exact hs.share_exclusive i r0 hi h0
  · obtain ⟨r0,h0,_,h2⟩ := hget i r hr
    rw [h2]
    exact hs.started i c h is sh u d n q hmem r0 h0

theorem onDownloadComplete (hs : s.Tasks) (hscript : s.inScript = true) (handle : ℕ)
    (token : Option String) (ids : CallbackIds) : (s.onDownloadComplete handle token ids).Tasks := by
  have he := hs.enterCall handle ids (some (s.tokenState token))
  unfold Downloads.onDownloadComplete
  cases token with
  | none => exact he.answering hscript _ _ _ _ _
  | some token =>
    obtain ⟨found,hfound,_⟩ := he.findInfo_some token (fun _ h => h)
    simp only [hfound]
    cases found with
    | some info => exact he.setInfo info (fun _ => rfl) (fun _ => rfl)
    | none =>
      dsimp only
      split
      · exact he.answering hscript _ _ _ _ _
      · exact he.answering hscript _ _ _ _ _

theorem download (hs : s.Tasks) (hscript : s.inScript = true) (handle : ℕ) (ids : CallbackIds)
    (share malloc : Bool) (url : Option String) (disk : Bool) (now rand : ℕ)
    (hlive : FindsLive s (.download handle ids share malloc url disk now rand)) :
    (s.download handle ids share malloc url disk now rand).Tasks := by
  have he := hs.enterCall handle ids none
  unfold Downloads.download
  cases malloc with
  | false => exact he.answering hscript _ _ _ _ _
  | true =>
    have hm := he.malloc hscript s.calls.length handle ids share url disk now rand
    simp only [if_true]
    split
    · next _ _ other hother =>
      -- the exclusive task before it is told to end
      obtain ⟨req,hreq⟩ := Option.isSome_iff_exists.mp (hlive rfl rfl hscript other hother)
      have hne : other ≠ s.allocated := (hs.share_allocated other hother).ne
      have hreq' : Function.update s.heap s.allocated
          (some { featureHandle := handle, share := false }) other = some req := by
        rw [Function.update_of_ne hne,hreq]
      unfold requestCancel
      simp only [Downloads.enterCall,hreq']
      split
      · next hrequest =>
        have hlinked := (hs.requested other req hreq).mp hrequest
        have hquiet : ∀ i, s.shareInfo = some i → i ∉ discards s.todo :=
          fun i hi => hs.quiet_of_script hscript hi
        have hcb := hm.requestCb hlinked (hquiet other hother) (by simp) hquiet .cancel
        simp only [Downloads.requestCb,Downloads.enterCall,hreq'] at hcb ⊢
        exact hcb
      · exact hm
    · exact hm

theorem freeAll {infos : List ℕ} (hnodup : infos.Nodup) {s : Downloads} (hlive : ∀ i ∈ infos, (s.heap i).isSome) :
    infos.foldl freeReqInfo s =
      { s with heap := fun i => if i ∈ infos then none else s.heap i, freed := s.freed ++ infos } := by
  induction infos generalizing s with
  | nil => simp
  | cons info infos ih =>
    obtain ⟨req,hreq⟩ := Option.isSome_iff_exists.mp (hlive info List.mem_cons_self)
    rw [List.nodup_cons] at hnodup
    have hone : s.freeReqInfo info =
        { s with heap := Function.update s.heap info none, freed := s.freed ++ [info] } := by
      simp only [freeReqInfo,hreq]
    rw [List.foldl_cons,hone,ih hnodup.2 (fun i hi => ?_)]
    · congr 1
      · funext i
        by_cases heq : i = info
        · simp [heq]
        · simp [heq]
      · simp
    · have hne : i ≠ info := fun heq => hnodup.1 (heq ▸ hi)
      dsimp only
      rw [Function.update_of_ne hne]
      exact hlive i (List.mem_cons_of_mem _ hi)

theorem destroy (hs : s.Tasks) (htodo : s.todo = []) : s.destroy.Tasks := by
  have hlive : ∀ i ∈ s.linklist, (s.heap i).isSome := fun i hi => (hs.live i).mpr (.inl hi)
  have howned : owned s.todo = [] := by rw [htodo]; rfl
  unfold Downloads.destroy
  rw [freeAll hs.linklist_nodup hlive]
  refine ⟨hs.noFault,fun i => ?_,fun i => ?_,fun i r hr => ?_,?_,?_,hs.ordered,hs.idle,nofun,nofun,nofun,
    fun i c h is sh u d n q hmem => ?_⟩
  · have hcount := hs.counted i
    simp only [howned,List.count_append,List.count_nil] at hcount ⊢
    omega
  · have h := hs.live i
    rw [howned] at h
    by_cases hi : i ∈ s.linklist
    · simp [howned,hi]
    · simpa [howned,hi] using h
  · dsimp only at hr
    split_ifs at hr with hi
    simpa [hi] using hs.requested i r hr
  · exact hs.discards_nodup
  · simp [htodo,discards]
  · dsimp only at hmem
    simp [htodo] at hmem

theorem returning (hs : s.Tasks) (htodo : s.todo = []) : Tasks { s with todo := [.ret] } := by
  have howned : owned [.ret] = owned s.todo := by rw [htodo]; rfl
  have hdiscards : discards [.ret] = discards s.todo := by rw [htodo]; rfl
  refine hs.advance rfl rfl rfl rfl rfl howned hdiscards ?_ ⟨trivial,trivial⟩ (by simp)
    (fun i hi => ⟨hi,List.not_mem_nil⟩)
  intro action haction howns
  obtain rfl := List.mem_singleton.mp haction
  exact absurd rfl howns

/-- The tasks stay in order along a run in which every exclusive download finds a live pointer. -/
theorem step (hs : s.Tasks) (op : DownloadOp) (hlive : FindsLive s op) : (s.step op).Tasks := by
  unfold Downloads.step
  by_cases hend : s.fault = true ∨ s.exit = true
  · rw [if_pos hend]
    exact hs
  · rw [if_neg hend]
    cases op with
    | download handle ids share malloc url disk now rand =>
      dsimp only
      split_ifs with h
      · exact hs.download h.1 handle ids share malloc url disk now rand hlive
      · exact hs
    | onDownloadComplete handle token ids =>
      dsimp only
      split_ifs with h
      · exact hs.onDownloadComplete h.1 handle token ids
      · exact hs
    | transferEnds info e =>
      dsimp only
      split_ifs with h
      · have htodo : s.todo = [] := List.isEmpty_iff.mp h.1
        have hcb := (hs.returning htodo).requestCb h.2.1 List.not_mem_nil (by simp) (fun i _ => List.not_mem_nil) e
        obtain ⟨req,hreq⟩ := Option.isSome_iff_exists.mp ((hs.live info).mpr (.inl h.2.1))
        simp only [Downloads.requestCb,hreq] at hcb ⊢
        exact hcb
      · exact hs
    | transferCrashes info =>
      dsimp only
      split_ifs
      · exact hs.frame rfl rfl rfl rfl rfl rfl rfl rfl
      · exact hs
    | detach handle =>
      dsimp only
      split_ifs
      · exact hs.frame rfl rfl rfl rfl rfl rfl rfl rfl
      · exact hs
    | destroy =>
      dsimp only
      split_ifs with h
      · exact hs.destroy (List.isEmpty_iff.mp h)
      · exact hs
    | next => exact hs.next

end Tasks

end Downloads
end FeatureRuntime
