import FeatureRuntime.CText
import FeatureRuntime.PermissionsManager
import FeatureRuntime.Transition
import Mathlib.Data.List.Perm.Subperm

/-! `system.packagemanager`: installations and removals, whose results come from other threads and are told to the
scripts through the task queue. -/
namespace FeatureRuntime

inductive PackageOperation
  | install | uninstall
  deriving DecidableEq, Repr

/-- The code of a result, by the names of the error maps. -/
inductive PackageCode
  | ok | nameNotFound | alreadyExists | notEnoughData | noMemory | other
  deriving DecidableEq, Repr

/-- The codes that the promise and the event of a result carry. -/
def errorMap : PackageOperation → PackageCode → ℤ × ℤ
  | _, .ok => (0,0)
  | _, .nameNotFound => (1000,202)
  | _, .alreadyExists => (1001,202)
  | .install, .notEnoughData => (1002,4102)
  | .install, .noMemory => (200,5101)
  | _, _ => (202,202)

/-- A `FeatureInstallListener` or `FeatureUninstallListener`, which holds its instance. -/
structure ResultListener where
  handle : ℕ
  pid : ℕ
  operation : PackageOperation
  deriving DecidableEq

structure PmResultPostData where
  handle : ℕ
  pid : ℕ
  packageName : String
  operation : PackageOperation
  code : PackageCode
  msg : String
  promiseCode : ℤ
  resultCode : ℤ
  deriving DecidableEq

/-- `StatusChangeEvent`. -/
structure PackageEvent where
  package : String
  operation : PackageOperation
  success : Bool
  msg : String
  code : ℤ
  deriving DecidableEq

/-- What a promise is settled with, no error or one, if it was pending, and the event behind it. -/
structure PackageTold where
  handle : ℕ
  pid : ℕ
  settles : Bool
  error : Option (ℤ × String)
  event : Option PackageEvent

structure PackageFeature where
  detached : List ℕ := []
  /-- The promises are numbered as the calls that they are made for; those that are not settled. -/
  calls : ℕ := 0
  promises : List ℕ := []
  listeners : List ResultListener := []
  posted : List PmResultPostData := []
  /-- The references to an instance that the feature took and has not given back. -/
  refs : ℕ → ℤ := fun _ => 0
  told : List PackageTold := []
  /-- The results that listeners were given, and those that nobody was told. -/
  reports : List (ℕ × ℕ) := []
  dropped : List (ℕ × ℕ) := []

/-- The calls of scripts, with the path that `app_relative_to_absolute_path` makes of a uri, and what other threads do. -/
inductive PackageOp
  | install (handle : ℕ) (uri : Option String) (path : Option String)
  | uninstall (handle : ℕ) (package : Option String)
  | onResult (l : ResultListener) (packageName : String) (code : PackageCode) (msg : String)
  | release (l : ResultListener)
  | handlePmResult (k : ℕ) (mode : TaskMode)
  | detach (handle : ℕ)

namespace PackageFeature

variable (s : PackageFeature)

def dup (handle : ℕ) : ℕ → ℤ := Function.update s.refs handle (s.refs handle + 1)

def free (handle : ℕ) : ℕ → ℤ := Function.update s.refs handle (s.refs handle - 1)

def call : PackageFeature := { s with calls := s.calls + 1, promises := s.calls :: s.promises }

/-- A promise is removed when it is settled, so that it is settled once. -/
def settle (handle pid : ℕ) (error : Option (ℤ × String)) (event : Option PackageEvent) : PackageFeature :=
  { s with
    told := s.told ++ [⟨handle,pid,pid ∈ s.promises,error,event⟩]
    promises := s.promises.erase pid }

def reject (handle pid : ℕ) : PackageFeature := s.settle handle pid (some (202,"parameter error")) none

def listen (l : ResultListener) : PackageFeature := { s with listeners := l :: s.listeners, refs := s.dup l.handle }

/-- The suffix of a uri, if it has one, must be that of a package. -/
def suffixAllowed (uri : String) : Bool :=
  match findLastOf '.' uri.toList with
  | none => true
  | some pos => String.ofList (uri.toList.drop (pos + 1)) ∈ ["rpk","apk"]

def install (handle pid : ℕ) (uri path : Option String) : PackageFeature :=
  match uri with
  | none => s.reject handle pid
  | some uri => if suffixAllowed uri && path.isSome then s.listen ⟨handle,pid,.install⟩ else s.reject handle pid

def uninstall (handle pid : ℕ) (package : Option String) : PackageFeature :=
  match package with
  | none => s.reject handle pid
  | some _ => s.listen ⟨handle,pid,.uninstall⟩

/-- `onInstallResult` and `onUninstallResult`; a post for a detached instance is refused, and its reference given back. -/
def onResult (l : ResultListener) (packageName : String) (code : PackageCode) (msg : String) : PackageFeature :=
  if l ∈ s.listeners then
    let s := { s with reports := (l.handle,l.pid) :: s.reports }
    if l.handle ∈ s.detached then { s with dropped := (l.handle,l.pid) :: s.dropped }
    else
      { s with
        posted := s.posted ++ [⟨l.handle,l.pid,packageName,l.operation,code,msg,(errorMap l.operation code).1,
          (errorMap l.operation code).2⟩]
        refs := s.dup l.handle }
  else s

def release (l : ResultListener) : PackageFeature :=
  if l ∈ s.listeners then { s with listeners := s.listeners.erase l, refs := s.free l.handle } else s

def settleResult (data : PmResultPostData) : PackageFeature :=
  s.settle data.handle data.pid (if data.code = .ok then none else some (data.promiseCode,data.msg))
    (some ⟨data.packageName,data.operation,data.code = .ok,if data.code = .ok then "" else data.msg,data.resultCode⟩)

/-- `HandlePmResultOnJsThread` of one of the posts. -/
def handlePmResult (k : ℕ) (mode : TaskMode) : PackageFeature :=
  match s.posted[k]? with
  | none => s
  | some data =>
    let s := { s with posted := s.posted.eraseIdx k, refs := s.free data.handle }
    if mode = .free ∨ data.handle ∈ s.detached then { s with dropped := (data.handle,data.pid) :: s.dropped }
    else s.settleResult data

def step (s : PackageFeature) : PackageOp → PackageFeature
  | .install handle uri path => s.call.install handle s.calls uri path
  | .uninstall handle package => s.call.uninstall handle s.calls package
  | .onResult l packageName code msg => s.onResult l packageName code msg
  | .release l => s.release l
  | .handlePmResult k mode => s.handlePmResult k mode
  | .detach handle => { s with detached := handle :: s.detached }

/-- The results that scripts were told. -/
def toldResults : List (ℕ × ℕ) := (s.told.filter (fun t => t.event.isSome)).map (fun t => (t.handle,t.pid))

def settled : List ℕ := (s.told.filter PackageTold.settles).map PackageTold.pid

/-- A promise is rejected at once, or with the codes of its operation, together with the event. -/
def Truthful (t : PackageTold) : Prop :=
  (t.error = some (202,"parameter error") ∧ t.event = none) ∨ ∃ package operation code msg,
    t.error = (if code = .ok then none else some ((errorMap operation code).1,msg)) ∧
      t.event = some ⟨package,operation,code = .ok,if code = .ok then "" else msg,(errorMap operation code).2⟩

/-- The references are those of the listeners and of the posts, every result was told, is on its way or was dropped,
nothing else was told, and no promise is settled twice. -/
structure Balanced : Prop where
  refs : ∀ handle, s.refs handle =
    s.listeners.countP (fun l => l.handle = handle) + s.posted.countP (fun d => d.handle = handle)
  results : s.reports.Perm (s.toldResults ++ s.posted.map (fun d => (d.handle,d.pid)) ++ s.dropped)
  truthful : ∀ t ∈ s.told, Truthful t
  once : (s.promises ++ s.settled).Nodup
  made : ∀ pid ∈ s.promises ++ s.settled, pid < s.calls
  codes : ∀ d ∈ s.posted, (d.promiseCode,d.resultCode) = errorMap d.operation d.code

variable {s}

theorem Balanced.call (h : s.Balanced) : s.call.Balanced := by
  refine ⟨h.refs,h.results,h.truthful,List.nodup_cons.mpr ⟨fun hmem => ?_,h.once⟩,fun pid hpid => ?_,h.codes⟩
  · exact absurd (h.made _ hmem) (Nat.lt_irrefl _)
  · rcases List.mem_cons.mp hpid with rfl | hpid
    · exact Nat.lt_succ_self _
    · exact (h.made pid hpid).trans (Nat.lt_succ_self _)

/-- The promises that are pending or settled stay the same. -/
theorem settle_perm (handle pid : ℕ) (error : Option (ℤ × String)) (event : Option PackageEvent) :
    ((s.settle handle pid error event).promises ++ (s.settle handle pid error event).settled).Perm
      (s.promises ++ s.settled) := by
  simp only [settle,settled,List.filter_append,List.map_append]
  by_cases hmem : pid ∈ s.promises
  · have hperm := (List.perm_cons_erase hmem).symm.append_right ((s.told.filter PackageTold.settles).map PackageTold.pid)
    simp only [hmem,decide_true,List.filter_cons_of_pos,List.filter_nil,List.map_cons,List.map_nil]
    refine List.Perm.trans ?_ hperm
    rw [← List.append_assoc]
    exact List.perm_append_singleton _ _
  · simp [hmem,List.erase_of_not_mem hmem]

theorem truthful_settle (h : ∀ t ∈ s.told, Truthful t) {handle pid : ℕ} {error : Option (ℤ × String)}
    {event : Option PackageEvent} (hnew : ∀ settles, Truthful ⟨handle,pid,settles,error,event⟩) :
    ∀ t ∈ (s.settle handle pid error event).told, Truthful t := by
  intro t ht
  rcases List.mem_append.mp ht with ht | ht
  · exact h t ht
  · rw [List.mem_singleton.mp ht]
    exact hnew _

theorem Balanced.reject (h : s.Balanced) (handle pid : ℕ) : (s.reject handle pid).Balanced := by
  have hperm := settle_perm (s := s) handle pid (some (202,"parameter error")) none
  refine ⟨h.refs,?_,truthful_settle h.truthful fun _ => .inl ⟨rfl,rfl⟩,hperm.nodup_iff.mpr h.once,
    fun p hp => h.made p (hperm.mem_iff.mp hp),h.codes⟩
  simpa [toldResults,PackageFeature.reject,settle] using h.results

theorem Balanced.listen (h : s.Balanced) (l : ResultListener) : (s.listen l).Balanced := by
  refine ⟨fun handle => ?_,h.results,h.truthful,h.once,h.made,h.codes⟩
  have hrefs := h.refs handle
  simp only [PackageFeature.listen,dup,List.countP_cons]
  by_cases hl : l.handle = handle
  · subst hl
    simp [hrefs]
    omega
  · simp [hl,Function.update_of_ne (Ne.symm hl),hrefs]

theorem Balanced.onResult (h : s.Balanced) (l : ResultListener) (packageName : String) (code : PackageCode)
    (msg : String) : (s.onResult l packageName code msg).Balanced := by
  unfold PackageFeature.onResult
  dsimp only
  split_ifs
  · refine ⟨h.refs,?_,h.truthful,h.once,h.made,h.codes⟩
    exact (h.results.cons _).trans List.perm_middle.symm
  · refine ⟨fun handle => ?_,?_,h.truthful,h.once,h.made,fun d hd => ?_⟩
    · have hrefs := h.refs handle
      simp only [dup,List.countP_append,List.countP_singleton]
      by_cases hl : l.handle = handle
      · subst hl
        simp [hrefs]
        omega
      · simp [hl,Function.update_of_ne (Ne.symm hl),hrefs]
    · refine (h.results.cons _).trans ?_
      simp only [toldResults,List.map_append,List.map_cons,List.map_nil,List.append_assoc,List.singleton_append]
      rw [← List.append_assoc,← List.append_assoc]
      exact List.perm_middle.symm
    · rcases List.mem_append.mp hd with hd | hd
      · exact h.codes d hd
      · rw [List.mem_singleton.mp hd]
  · exact h

theorem Balanced.release (h : s.Balanced) (l : ResultListener) : (s.release l).Balanced := by
  unfold PackageFeature.release
  split_ifs with hl
  · refine ⟨fun handle => ?_,h.results,h.truthful,h.once,h.made,h.codes⟩
    have hrefs := h.refs handle
    have hcount := (List.perm_cons_erase hl).countP_eq (fun l => decide (l.handle = handle))
    rw [List.countP_cons] at hcount
    by_cases hh : l.handle = handle
    · subst hh
      simp only [free,Function.update_self,hrefs,hcount,decide_true,if_true]
      push_cast
      omega
    · simp only [free,Function.update_of_ne (Ne.symm hh),hrefs,hcount,hh]
      simp
  · exact h

theorem Balanced.handlePmResult (h : s.Balanced) (k : ℕ) (mode : TaskMode) : (s.handlePmResult k mode).Balanced := by
  unfold PackageFeature.handlePmResult
  cases hk : s.posted[k]? with
  | none => exact h
  | some data =>
    obtain ⟨hlt,hdata⟩ := List.getElem?_eq_some_iff.mp hk
    have hperm := List.getElem_cons_eraseIdx_perm hlt
    rw [hdata] at hperm
    have hmem : data ∈ s.posted := List.mem_of_getElem? hk
    have hrefs : ∀ handle, s.free data.handle handle = s.listeners.countP (fun l => l.handle = handle) +
        (s.posted.eraseIdx k).countP (fun d => d.handle = handle) := by
      intro handle
      have hold := h.refs handle
      have hcount := hperm.countP_eq (fun d => decide (d.handle = handle))
      rw [List.countP_cons] at hcount
      by_cases hh : data.handle = handle
      · subst hh
        simp only [decide_true,if_true] at hcount
        simp only [free,Function.update_self,hold,← hcount]
        push_cast
        omega
      · simp only [hh,decide_false,Bool.false_eq_true,if_false] at hcount
        simp only [free,Function.update_of_ne (Ne.symm hh),hold,← hcount]
        simp
    have hmap := (hperm.map (fun d : PmResultPostData => (d.handle,d.pid))).symm
    have hresults := h.results.trans ((hmap.append_left s.toldResults).append_right s.dropped)
    have hcodes : ∀ d ∈ s.posted.eraseIdx k, (d.promiseCode,d.resultCode) = errorMap d.operation d.code :=
      fun d hd => h.codes d (List.mem_of_mem_eraseIdx hd)
    dsimp only
    split_ifs
    · refine ⟨hrefs,hresults.trans ?_,h.truthful,h.once,h.made,hcodes⟩
      simp only [List.map_cons,List.append_assoc,List.cons_append]
      refine List.Perm.append_left _ ?_
      exact List.perm_middle.symm
    · have hcode := h.codes data hmem
      have hperm := settle_perm (s := { s with posted := s.posted.eraseIdx k, refs := s.free data.handle }) data.handle
        data.pid (if data.code = .ok then none else some (data.promiseCode,data.msg))
        (some ⟨data.packageName,data.operation,data.code = .ok,if data.code = .ok then "" else data.msg,data.resultCode⟩)
      refine ⟨hrefs,hresults.trans ?_,truthful_settle h.truthful fun _ => .inr ?_,hperm.nodup_iff.mpr h.once,
        fun p hp => h.made p (hperm.mem_iff.mp hp),hcodes⟩
      · simp [toldResults,settleResult,settle]
      · refine ⟨data.packageName,data.operation,data.code,data.msg,?_,?_⟩ <;> rw [← hcode]

theorem Balanced.step (h : s.Balanced) (op : PackageOp) : (s.step op).Balanced := by
  cases op with
  | install handle uri path =>
    simp only [PackageFeature.step,PackageFeature.install]
    split
    · exact h.call.reject _ _
    · split_ifs
      · exact h.call.listen _
      · exact h.call.reject _ _
  | uninstall handle package =>
    simp only [PackageFeature.step,PackageFeature.uninstall]
    split
    · exact h.call.reject _ _
    · exact h.call.listen _
  | onResult l packageName code msg => exact h.onResult l packageName code msg
  | release l => exact h.release l
  | handlePmResult k mode => exact h.handlePmResult k mode
  | detach handle => exact ⟨h.refs,h.results,h.truthful,h.once,h.made,h.codes⟩

theorem balanced_init : Balanced {} where
  refs _ := rfl
  results := .nil
  truthful _ h := (nomatch h)
  once := .nil
  made _ h := (nomatch h)
  codes _ h := (nomatch h)

/-- In whatever order scripts call, results come in and posts run, the instance references are those of the listeners
and the posts, every result is told once, on its way or dropped, promise and event agree with its code, and a promise
is settled once, also by a result that is reported again. -/
theorem package_results (ops : List PackageOp) : (Transition.run step {} ops).Balanced :=
  Transition.run_invariant (fun _ op h => h.step op) balanced_init ops

end PackageFeature
end FeatureRuntime
