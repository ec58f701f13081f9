import FeatureRuntime.Prompts
import FeatureRuntime.Transition
import Mathlib.Data.List.Nodup
import Mathlib.Data.List.Perm.Basic

/-! Which calls of `showDialog` are answered and completed over whole runs, and what becomes of what is made for them. -/
namespace FeatureRuntime

namespace Prompts

theorem perm_cons_filter {α : Type} {key : α → ℕ} {xs : List α} (h : (xs.map key).Nodup) {a : α} (ha : a ∈ xs) :
    xs.Perm (a :: xs.filter (fun x => key x != key a)) := by
  induction xs with
  | nil => cases ha
  | cons x xs ih =>
    rw [List.map_cons,List.nodup_cons] at h
    have hother : ∀ y ∈ xs, key y ≠ key x := fun y hy hkey => h.1 (hkey ▸ List.mem_map_of_mem hy)
    cases ha with
    | head =>
      have hall : xs.filter (fun y => key y != key a) = xs := by
        rw [List.filter_eq_self]
        exact fun y hy => bne_iff_ne.mpr (hother y hy)
      rw [List.filter_cons_of_neg (by simp),hall]
    | tail _ ha =>
      have hkeep : key x ≠ key a := Ne.symm (hother a ha)
      rw [List.filter_cons_of_pos (p := fun y => key y != key a) (bne_iff_ne.mpr hkeep)]
      exact ((ih h.2 ha).cons x).trans (List.Perm.swap _ _ _)

def Follows : List FeaturePostEventData → Prop
  | [] => True
  | data :: posted =>
    (data.event ≠ .complete → ∃ later ∈ posted, later.event = .complete ∧ later.number = data.number) ∧ Follows posted

theorem Follows.append {xs ys : List FeaturePostEventData} (h : Follows xs) (h' : Follows ys) : Follows (xs ++ ys) := by
  induction xs with
  | nil => exact h'
  | cons data xs ih =>
    refine ⟨fun hanswer => ?_,ih h.2⟩
    obtain ⟨later,hlater,hends⟩ := h.1 hanswer
    exact ⟨later,List.mem_append_left _ hlater,hends⟩

variable {s : Prompts} {busy : List ℕ}

/-- What is known of the calls of `showDialog`; a call is busy while its record outlives the event that completes it. -/
structure Told (s : Prompts) (busy : List ℕ) : Prop where
  told : (s.told true ++ (s.coming true ++ s.opened)).Perm (List.range s.next)
  recorded : (s.dialogCallbacks.map DialogCallbackInfo.number).Perm (busy ++ (s.coming true ++ s.opened))
  keyed : (s.dialogCallbacks.map (fun info => dialogId info.number)).Nodup
  answered : (s.told false ++ (s.coming false ++ s.opened)).Nodup
  follows : Follows s.posted
  reported : ∀ report ∈ s.reports, report.number < s.next
  heard : ∀ report ∈ s.reports, 0 < report.callback → report.heard = true
  live : ∀ info ∈ s.dialogCallbacks, ∀ id ∈ info.ids, 0 < id → s.live id = true
  positive : ∀ id, s.live id = true → 0 < id
  removed : ∀ id, s.live id = true → ∃ info ∈ s.dialogCallbacks, id ∈ info.ids
  ordered : s.listed.Pairwise (· < ·)
  earlier : ∀ number ∈ s.listed, number < s.next
  ended : s.manager = false → s.dialogCallbacks = []

/-- What was made has an owner or has been deleted. -/
structure Owned (s : Prompts) : Prop where
  owned : ∀ resource, s.made resource = s.released resource + s.held resource
  safe : s.fault = false
  queued : ∀ server, s.server = some server → ∀ toast ∈ server.toasts, toast.obj ≠ .gone

/-- The task that ends the server is the last one. -/
structure Tasked (s : Prompts) : Prop where
  last : PromptTask.destroyServer ∉ s.tasks.dropLast
  attached : s.manager = true → PromptTask.destroyServer ∉ s.tasks
  closed : s.server = none → s.manager = false ∧ s.tasks = []

structure Sound (s : Prompts) (busy : List ℕ) : Prop extends Told s busy, Owned s, Tasked s

theorem Sound.right (h : s.Sound busy) : s.Right where
  answered := (List.nodup_append.mp h.answered).1
  completed := (List.nodup_append.mp (h.told.nodup_iff.mpr List.nodup_range)).1
  every := by
    intro _ number hnumber
    simpa using h.told.mem_iff.mpr (List.mem_range.mpr hnumber)
  heard := h.heard
  ordered := (List.pairwise_append.mp h.ordered).1
  owned := h.owned
  removed := h.removed
  safe := h.safe

variable {t : Prompts}

/-- Told of a state in which the calls, their dialogs and their events are the same. -/
theorem Told.congr (h : s.Told busy) (hmanager : t.manager = s.manager) (hnext : t.next = s.next)
    (hrecords : t.dialogCallbacks = s.dialogCallbacks) (hlive : t.live = s.live) (hopened : t.opened = s.opened)
    (hlisted : t.listed = s.listed) (hposted : t.posted = s.posted) (hreports : t.reports = s.reports) : t.Told busy := by
  have htold : ∀ ends, t.told ends = s.told ends := fun ends => by rw [Prompts.told,hreports,Prompts.told]
  have hcoming : ∀ ends, t.coming ends = s.coming ends := fun ends => by rw [coming,hposted,coming]
  constructor
  · rw [htold,hcoming,hopened,hnext]; exact h.told
  · rw [hrecords,hcoming,hopened]; exact h.recorded
  · rw [hrecords]; exact h.keyed
  · rw [htold,hcoming,hopened]; exact h.answered
  · rw [hposted]; exact h.follows
  · rw [hreports,hnext]; exact h.reported
  · rw [hreports]; exact h.heard
  · rw [hrecords,hlive]; exact h.live
  · rw [hlive]; exact h.positive
  · rw [hrecords,hlive]; exact h.removed
  · rw [hlisted]; exact h.ordered
  · rw [hlisted,hnext]; exact h.earlier
  · rw [hmanager,hrecords]; exact h.ended

theorem Told.idle (h : s.Told []) (hmanager : s.manager = false) : s.opened = [] ∧ s.posted = [] := by
  have hnone := h.recorded
  rw [h.ended hmanager,List.map_nil,List.nil_append,List.nil_perm,List.append_eq_nil_iff] at hnone
  refine ⟨hnone.2,?_⟩
  have hcoming := hnone.1
  simp only [coming,List.map_eq_nil_iff,List.filter_eq_nil_iff] at hcoming
  have hfollows := h.follows
  cases hposted : s.posted with
  | nil => rfl
  | cons data posted =>
    rw [hposted] at hcoming hfollows
    by_cases hends : data.event = .complete
    · exact absurd (by simp [hends]) (hcoming data List.mem_cons_self)
    · obtain ⟨later,hlater,hcomplete,-⟩ := hfollows.1 hends
      exact absurd (by simp [hcomplete]) (hcoming later (List.mem_cons_of_mem _ hlater))

theorem Told.manager_of_screen (h : s.Told []) (hscreen : s.screen ≠ []) : s.manager = true := by
  cases hmanager : s.manager with
  | true => rfl
  | false =>
    have hopened := (h.idle hmanager).1
    simp only [opened,List.append_eq_nil_iff,List.map_eq_nil_iff] at hopened
    exact absurd hopened.1 hscreen

theorem Told.find (h : s.Told busy) {number : ℕ} (hnumber : number ∈ busy ++ (s.coming true ++ s.opened)) :
    ∃ info ∈ s.dialogCallbacks, info.number = number ∧ s.findDialogInfo (dialogId number) = some info := by
  obtain ⟨info,hinfo,rfl⟩ := List.mem_map.mp (h.recorded.mem_iff.mpr hnumber)
  refine ⟨info,hinfo,rfl,?_⟩
  cases hfind : s.findDialogInfo (dialogId info.number) with
  | none =>
    rw [findDialogInfo,List.find?_eq_none] at hfind
    exact absurd (by simp) (hfind info hinfo)
  | some found =>
    rw [findDialogInfo] at hfind
    have hkey : dialogId found.number = dialogId info.number := by simpa using List.find?_some hfind
    rw [List.inj_on_of_nodup_map h.keyed (List.mem_of_find?_eq_some hfind) hinfo hkey]

def Unused (s : Prompts) (_ : DialogInfo) : Prop := s.manager = true → s.findDialogInfo (dialogId s.next) = none

def recordOf (s : Prompts) (info : DialogInfo) : DialogCallbackInfo := ⟨info.success,info.cancel,info.complete,s.next⟩

/-- What a call of `showDialog` does where it replaces no record. -/
def accept (s : Prompts) (info : DialogInfo) : Prompts :=
  { s with
    next := s.next + 1
    live := fun id => s.live id || decide (id ∈ (s.recordOf info).ids ∧ 0 < id)
    dialogCallbacks := s.dialogCallbacks ++ [s.recordOf info]
    tasks := s.tasks ++ [.showDialog ⟨info.title.getD [],info.message.getD [],info.autocancel,s.next⟩]
    made := (s.make .record).made }

variable {info : DialogInfo}

theorem Unused.other (h : s.Unused info) (hmanager : s.manager = true) :
    ∀ record ∈ s.dialogCallbacks, dialogId record.number ≠ dialogId s.next := by
  have hnone := h hmanager
  rw [findDialogInfo,List.find?_eq_none] at hnone
  exact fun record hrecord => by simpa using hnone record hrecord

theorem Unused.showDialog_eq (h : s.Unused info) (hmanager : s.manager = true) :
    s.showDialog info = s.accept info := by
  have herased : s.dialogCallbacks.filter (fun record => dialogId record.number != dialogId s.next) =
      s.dialogCallbacks := by
    rw [List.filter_eq_self]
    exact fun record hrecord => bne_iff_ne.mpr (h.other hmanager record hrecord)
  rw [Prompts.showDialog,if_neg (by simp [hmanager])]
  simp only [eraseDialogInfo,make,register]
  rw [herased]
  rfl

@[simp] theorem told_accept (s : Prompts) (info : DialogInfo) (ends : Bool) : (s.accept info).told ends = s.told ends := rfl

@[simp] theorem coming_accept (s : Prompts) (info : DialogInfo) (ends : Bool) :
    (s.accept info).coming ends = s.coming ends := rfl

@[simp] theorem waiting_accept (s : Prompts) (info : DialogInfo) : (s.accept info).waiting = s.waiting := rfl

@[simp] theorem dialogs_accept (s : Prompts) (info : DialogInfo) :
    (s.accept info).tasks.filterMap PromptTask.dialog = s.tasks.filterMap PromptTask.dialog ++ [s.next] := by
  simp [accept,PromptTask.dialog]

@[simp] theorem opened_accept (s : Prompts) (info : DialogInfo) : (s.accept info).opened = s.opened ++ [s.next] := by
  simp only [opened,waiting_accept,dialogs_accept,List.append_assoc]
  rfl

theorem Follows.mem {posted : List FeaturePostEventData} (h : Follows posted) {data : FeaturePostEventData}
    (hdata : data ∈ posted) : ∃ later ∈ posted, later.event = .complete ∧ later.number = data.number := by
  induction posted with
  | nil => cases hdata
  | cons first posted ih =>
    by_cases hends : data.event = .complete
    · exact ⟨data,hdata,hends,rfl⟩
    · have hlater : ∃ later ∈ posted, later.event = .complete ∧ later.number = data.number := by
        rcases List.mem_cons.mp hdata with rfl | hrest
        · exact h.1 hends
        · exact ih h.2 hrest
      obtain ⟨later,hmem,hcomplete⟩ := hlater
      exact ⟨later,List.mem_cons_of_mem _ hmem,hcomplete⟩

theorem Told.lt_next (h : s.Told busy) {number : ℕ}
    (hnumber : number ∈ s.told false ++ (s.coming false ++ s.opened)) : number < s.next := by
  rw [List.mem_append,List.mem_append] at hnumber
  have hknown : ∀ number ∈ s.told true ++ (s.coming true ++ s.opened), number < s.next := fun number hnumber =>
    List.mem_range.mp (h.told.mem_iff.mp hnumber)
  rcases hnumber with htold | hcoming | hopened
  · obtain ⟨report,hreport,rfl⟩ := List.mem_map.mp htold
    exact h.reported report (List.mem_filter.mp hreport).1
  · obtain ⟨data,hdata,rfl⟩ := List.mem_map.mp hcoming
    obtain ⟨later,hlater,hends,hsame⟩ := h.follows.mem (List.mem_filter.mp hdata).1
    apply hknown
    apply List.mem_append_right
    apply List.mem_append_left
    exact List.mem_map.mpr ⟨later,List.mem_filter.mpr ⟨hlater,by simp [hends]⟩,hsame⟩
  · exact hknown number (by simp [hopened])

@[simp] theorem listed_accept (s : Prompts) (info : DialogInfo) : (s.accept info).listed = s.listed ++ [s.next] := by
  simp only [listed,waiting_accept,dialogs_accept,List.append_assoc]
  rfl

theorem Told.accept (h : s.Told busy) (hmanager : s.manager = true) (hunused : s.Unused info) :
    (s.accept info).Told busy := by
  have hnew : ∀ number ∈ s.told false ++ (s.coming false ++ s.opened), ∀ other ∈ [s.next], number ≠ other := by
    intro number hnumber other hother
    rw [List.mem_singleton.mp hother]
    exact (h.lt_next hnumber).ne
  constructor
  · rw [told_accept,coming_accept,opened_accept,Prompts.accept,List.range_succ]
    simpa only [List.append_assoc] using h.told.append_right [s.next]
  · rw [coming_accept,opened_accept]
    simpa [Prompts.accept,recordOf] using h.recorded.append_right [s.next]
  · rw [Prompts.accept,List.map_append,List.nodup_append]
    refine ⟨h.keyed,by simp,?_⟩
    simpa [recordOf] using hunused.other hmanager
  · rw [told_accept,coming_accept,opened_accept]
    simpa only [List.append_assoc] using List.nodup_append.mpr ⟨h.answered,List.nodup_singleton s.next,hnew⟩
  · exact h.follows
  · exact fun report hreport => (h.reported report hreport).trans (Nat.lt_succ_self _)
  · exact h.heard
  · intro record hrecord id hid hpositive
    simp only [Prompts.accept,Bool.or_eq_true,decide_eq_true_eq]
    rcases List.mem_append.mp hrecord with hold | hnew
    · exact .inl (h.live record hold id hid hpositive)
    · rw [List.mem_singleton.mp hnew] at hid
      exact .inr ⟨hid,hpositive⟩
  · intro id hid
    simp only [Prompts.accept,Bool.or_eq_true,decide_eq_true_eq] at hid
    exact hid.elim (h.positive id) And.right
  · intro id hid
    simp only [Prompts.accept,Bool.or_eq_true,decide_eq_true_eq] at hid
    rcases hid with hold | hnew
    · obtain ⟨record,hrecord,hmem⟩ := h.removed id hold
      exact ⟨record,List.mem_append_left _ hrecord,hmem⟩
    · exact ⟨_,List.mem_append_right _ (List.mem_singleton_self _),hnew.1⟩
  · rw [listed_accept]
    exact List.pairwise_append.mpr ⟨h.ordered,List.pairwise_singleton _ s.next,fun number hnumber other hother => by
      rw [List.mem_singleton.mp hother]
      exact h.earlier number hnumber⟩
  · intro number hnumber
    rw [listed_accept,List.mem_append,List.mem_singleton] at hnumber
    rcases hnumber with hold | rfl
    · exact (h.earlier number hold).trans (Nat.lt_succ_self _)
    · exact Nat.lt_succ_self _
  · exact fun hdetached => absurd hmanager (by simpa [Prompts.accept] using hdetached)

theorem Owned.accept (h : s.Owned) (info : DialogInfo) : (s.accept info).Owned := by
  refine ⟨fun resource => ?_,h.safe,h.queued⟩
  have howned := h.owned resource
  cases resource with
  | prompt => exact howned
  | context => exact howned
  | record =>
    simp only [held] at howned
    simp only [Prompts.accept,make,held,List.length_append,List.length_singleton,if_true,howned]
    omega

variable {task : PromptTask}

theorem Tasked.post (h : s.Tasked) (hmanager : s.manager = true)
    (htask : task ≠ .destroyServer) (htasks : t.tasks = s.tasks ++ [task]) (hserver : t.server = s.server) : t.Tasked := by
  have hnone := h.attached hmanager
  constructor
  · rw [htasks,List.dropLast_concat]
    exact hnone
  · intro _
    rw [htasks,List.mem_append,List.mem_singleton,not_or]
    exact ⟨hnone,Ne.symm htask⟩
  · rw [hserver]
    intro hclosed
    rw [(h.closed hclosed).1] at hmanager
    cases hmanager

theorem Sound.showDialog (h : s.Sound busy) (hunused : s.Unused info) : (s.showDialog info).Sound busy := by
  cases hmanager : s.manager with
  | false => simpa [Prompts.showDialog,hmanager] using h
  | true =>
    rw [hunused.showDialog_eq hmanager]
    exact ⟨h.toTold.accept hmanager hunused,h.toOwned.accept info,h.toTasked.post hmanager (by simp) rfl rfl⟩

theorem Sound.showToast (h : s.Sound []) (message : Option CString) (duration : ℤ) :
    (s.showToast message duration).Sound [] := by
  simp only [Prompts.showToast]
  split_ifs with hdetached
  · exact h
  · cases message with
    | none => exact h
    | some message =>
      dsimp only
      split_ifs
      · exact h
      · have hmanager : s.manager = true := by simpa using hdetached
        refine ⟨h.toTold.congr rfl rfl rfl rfl ?_ ?_ rfl rfl,⟨h.owned,h.safe,h.queued⟩,
          h.toTasked.post (t := { s with tasks := s.tasks ++ [.showToast message duration] }) hmanager
            (by simp) rfl rfl⟩
        · simp [opened,waiting,PromptTask.dialog]
        · simp [listed,waiting,PromptTask.dialog]

theorem Owned.deleteToasts {toasts : List PromptToast} (hmade : ∀ resource, s.made resource =
      s.released resource + s.held resource + if resource = .prompt then toasts.length else 0)
    (hsafe : s.fault = false) (hqueued : ∀ server, s.server = some server → ∀ toast ∈ server.toasts, toast.obj ≠ .gone)
    (hthere : ∀ toast ∈ toasts, toast.obj ≠ .gone) : (s.deleteToasts toasts).Owned := by
  refine ⟨fun resource => ?_,?_,hqueued⟩
  · have hheld : (s.deleteToasts toasts).held resource = s.held resource := by
      cases resource <;> rfl
    rw [hheld]
    have hresource := hmade resource
    simp only [Prompts.deleteToasts,release]
    omega
  · simpa [Prompts.deleteToasts,release,hsafe] using hthere

theorem Tasked.serve (h : s.Tasked) (hmanager : t.manager = s.manager) (htasks : t.tasks = s.tasks)
    (hserver : t.server ≠ none) : t.Tasked :=
  ⟨htasks ▸ h.last,fun hattached => htasks ▸ h.attached (hmanager ▸ hattached),fun hclosed => absurd hclosed hserver⟩

variable {server : PromptServer}

theorem Sound.initServer (h : s.Sound []) (hserver : s.server = some server) :
    { s with server := some { server with timer := true } }.Sound [] := by
  refine ⟨h.toTold.congr rfl rfl rfl rfl ?_ ?_ rfl rfl,⟨fun resource => ?_,h.safe,?_⟩,h.toTasked.serve rfl rfl (by simp)⟩
  · simp [opened,waiting,hserver]
  · simp [listed,waiting,hserver]
  · have hresource := h.owned resource
    cases resource <;> simpa [held,toasts,waiting,hserver,PromptServer.allToasts] using hresource
  · intro other hother
    cases hother
    exact h.queued server hserver

theorem Sound.showToastTask (h : s.Sound []) (hserver : s.server = some server) (msg : CString)
    (duration : ℤ) : (s.showToastTask server msg duration).Sound [] := by
  refine ⟨h.toTold.congr rfl rfl rfl rfl ?_ ?_ rfl rfl,?_,?_⟩
  · simp [opened,waiting,hserver,Prompts.showToastTask,deleteToasts,release,make]
  · simp [listed,waiting,hserver,Prompts.showToastTask,deleteToasts,release,make]
  · have hqueued := h.queued server hserver
    have hthere : ∀ toast, toast.obj = .none → ∀ old, old ∈ (PromptServer.push server.toasts toast).1 ∨
        old ∈ (PromptServer.push server.toasts toast).2 → old.obj ≠ .gone := by
      intro toast hnone old hold
      rcases PromptServer.mem_of_mem_push hold with hmem | rfl
      · exact hqueued old hmem
      · simp [hnone]
    simp only [Prompts.showToastTask]
    apply Owned.deleteToasts
    · intro resource
      have hresource := h.owned resource
      cases resource with
      | prompt =>
        have hpush := PromptServer.length_push server.toasts
          ⟨msg,if 1500 ≤ duration ∧ duration ≤ 10000 then duration.toNat else 1500,0,.none⟩
        simp only [held,toasts,waiting,hserver,make,PromptServer.allToasts,Option.map_some,Option.getD_some,
          List.length_append,if_true] at hresource ⊢
        omega
      | context => simpa [held,waiting,hserver,make] using hresource
      | record => simpa [held,make] using hresource
    · exact h.safe
    · intro other hother
      cases hother
      exact fun old hold => hthere _ rfl old (.inr hold)
    · exact fun old hold => hthere _ rfl old (.inl hold)
  · exact h.toTasked.serve rfl rfl (by simp [Prompts.showToastTask,deleteToasts,release])

variable {tasks : List PromptTask}

theorem Tasked.tail (h : s.Tasked) (htasks : s.tasks = task :: tasks) :
    PromptTask.destroyServer ∉ tasks.dropLast ∧ (s.manager = true → PromptTask.destroyServer ∉ tasks) ∧
      (task = .destroyServer → tasks = [] ∧ s.manager = false) := by
  have hlast := h.last
  have hattached := h.attached
  rw [htasks] at hlast hattached
  refine ⟨?_,fun hmanager hmem => hattached hmanager (List.mem_cons_of_mem _ hmem),?_⟩
  · cases tasks with
    | nil => simp
    | cons next tasks => exact fun hmem => hlast (List.mem_cons_of_mem _ hmem)
  · intro hdestroys
    subst hdestroys
    constructor
    · cases tasks with
      | nil => rfl
      | cons next tasks => exact absurd List.mem_cons_self hlast
    · cases hmanager : s.manager with
      | false => rfl
      | true => exact absurd List.mem_cons_self (hattached hmanager)

theorem Tasked.take (h : s.Tasked) (htasks : s.tasks = task :: tasks)
    (hmanager : t.manager = s.manager) (hrest : t.tasks = tasks) (hserver : t.server ≠ none) : t.Tasked := by
  obtain ⟨hlast,hattached,-⟩ := h.tail htasks
  exact ⟨hrest ▸ hlast,fun hattach => hrest ▸ hattached (hmanager ▸ hattach),fun hclosed => absurd hclosed hserver⟩

theorem Sound.take (h : s.Sound []) (hserver : s.server = some server)
    (htasks : s.tasks = task :: tasks) (hdialog : task.dialog = none) :
    { s with tasks := tasks }.Sound [] := by
  have hsame : s.tasks.filterMap PromptTask.dialog = tasks.filterMap PromptTask.dialog := by
    rw [htasks,List.filterMap_cons_none hdialog]
  refine ⟨h.toTold.congr rfl rfl rfl rfl ?_ ?_ rfl rfl,⟨h.owned,h.safe,h.queued⟩,
    h.toTasked.take htasks rfl rfl (by simp [hserver])⟩
  · simp only [opened,hsame,waiting]
  · simp only [listed,hsame,waiting]

theorem Sound.showDialogTask (h : s.Sound []) (hserver : s.server = some server)
    {data : DialogTaskData} (htasks : s.tasks = .showDialog data :: tasks)
    (hroom : server.dialogs.length + 1 < toastQueueLimit) :
    ({ s with tasks := tasks }.showDialogTask server data).Sound [] := by
  have hdialog : s.tasks.filterMap PromptTask.dialog = data.number :: tasks.filterMap PromptTask.dialog := by
    rw [htasks,List.filterMap_cons_some (f := PromptTask.dialog) rfl]
  simp only [Prompts.showDialogTask,PromptServer.push_of_lt hroom]
  refine ⟨h.toTold.congr rfl rfl rfl rfl ?_ ?_ rfl rfl,⟨fun resource => ?_,h.safe,?_⟩,
    h.toTasked.take htasks rfl rfl (by simp [release])⟩
  · simp [opened,waiting,hserver,hdialog,release,make]
  · simp [listed,waiting,hserver,hdialog,release,make]
  · have hresource := h.owned resource
    cases resource with
    | prompt =>
      simp only [held,toasts,waiting,hserver,make,release,PromptServer.allToasts,Option.map_some,Option.getD_some,
        List.length_append,List.length_singleton,List.length_nil,if_true,reduceCtorEq,if_false] at hresource ⊢
      omega
    | context =>
      simp only [held,waiting,hserver,make,release,Option.map_some,Option.getD_some,List.length_append,
        List.length_singleton,List.length_nil,if_true,reduceCtorEq,if_false] at hresource ⊢
      omega
    | record => simpa [held,make,release] using hresource
  · intro other hother
    cases hother
    exact h.queued server hserver

theorem Sound.destroyServer (h : s.Sound []) (hserver : s.server = some server)
    (htasks : s.tasks = .destroyServer :: tasks) (hthere : ∀ toast ∈ server.cur, toast.obj ≠ .gone) :
    ({ s with tasks := tasks }.uninit server).Sound [] := by
  obtain ⟨hempty,hmanager⟩ := (h.toTasked.tail htasks).2.2 rfl
  have hopened := (h.idle hmanager).1
  simp only [opened,List.append_eq_nil_iff,List.map_eq_nil_iff] at hopened
  obtain ⟨hscreen,hwaiting,hdialogs⟩ := hopened
  have hnone : server.dialogs = [] := by simpa [waiting,hserver] using hwaiting
  subst hempty
  simp only [uninit,hnone,List.length_nil]
  refine ⟨h.toTold.congr rfl rfl rfl rfl ?_ ?_ rfl rfl,⟨fun resource => ?_,?_,?_⟩,⟨by simp [release,deleteToasts],?_,?_⟩⟩
  · simp [opened,waiting,release,deleteToasts,hserver,hnone,hdialogs]
  · simp [listed,waiting,release,deleteToasts,hserver,hnone,hdialogs]
  · have hresource := h.owned resource
    cases resource with
    | prompt =>
      simp only [held,toasts,waiting,hserver,hnone,release,deleteToasts,PromptServer.allToasts,Option.map_some,
        Option.getD_some,Option.map_none,Option.getD_none,List.length_append,List.length_nil,if_true] at hresource ⊢
      omega
    | context => simpa [held,waiting,hserver,hnone,release,deleteToasts] using hresource
    | record => simpa [held,release,deleteToasts] using hresource
  · have hqueued := h.queued server hserver
    have hall : ∀ toast ∈ server.toasts ++ server.cur.toList, toast.obj ≠ .gone := by
      intro toast htoast
      rcases List.mem_append.mp htoast with hwaits | hcur
      · exact hqueued toast hwaits
      · exact hthere toast (by simpa using hcur)
    simpa [release,deleteToasts,h.safe,or_imp,forall_and] using hall
  · intro other hother
    cases hother
  · simp [release,deleteToasts]
  · exact fun _ => ⟨hmanager,rfl⟩

def TaskMeets (server : PromptServer) : PromptTask → Prop
  | .showDialog _ => server.dialogs.length + 1 < toastQueueLimit
  | .destroyServer => ∀ toast ∈ server.cur, toast.obj ≠ .gone
  | _ => True

theorem Sound.runTask (h : s.Sound [])
    (hmeets : ∀ server, s.server = some server → ∀ task ∈ s.tasks.head?, TaskMeets server task) : s.runTask.Sound [] := by
  cases htasks : s.tasks with
  | nil =>
    simp only [Prompts.runTask,htasks]
    exact h
  | cons task tasks =>
    cases hserver : s.server with
    | none =>
      rw [(h.closed hserver).2] at htasks
      cases htasks
    | some server =>
      have htask := hmeets server hserver task (by simp [htasks])
      simp only [Prompts.runTask,htasks,hserver]
      cases task with
      | initServer => exact (h.take hserver htasks rfl).initServer hserver
      | showToast msg duration => exact (h.take hserver htasks rfl).showToastTask hserver msg duration
      | showDialog data => exact h.showDialogTask hserver htasks htask
      | destroyServer => exact h.destroyServer hserver htasks htask

theorem Sound.runDialogs (h : { s with server := some server }.Sound []) :
    (s.runDialogs server).Sound [] := by
  cases hdialogs : server.dialogs with
  | nil =>
    simp only [Prompts.runDialogs,hdialogs]
    exact h
  | cons dialog dialogs =>
    simp only [Prompts.runDialogs,hdialogs]
    refine ⟨h.toTold.congr rfl rfl rfl rfl ?_ ?_ rfl rfl,⟨fun resource => ?_,h.safe,?_⟩,h.toTasked.serve rfl rfl (by simp)⟩
    · simp [opened,waiting,hdialogs]
    · simp [listed,waiting,hdialogs]
    · have hresource := h.owned resource
      cases resource with
      | prompt =>
        simp only [held,toasts,waiting,hdialogs,PromptServer.allToasts,Option.map_some,Option.getD_some,List.length_append,
          List.length_nil,List.length_cons] at hresource ⊢
        omega
      | context =>
        simp only [held,waiting,hdialogs,Option.map_some,Option.getD_some,List.length_append,List.length_nil,
          List.length_cons] at hresource ⊢
        omega
      | record => exact hresource
    · intro other hother
      cases hother
      exact h.queued server rfl

def ToastThere (server : PromptServer) : Prop :=
  ∀ toast ∈ server.cur, toast.duration ≤ toast.counter + promptLoopPeriod → toast.obj ≠ .gone

theorem ToastThere.expired (h : ToastThere server) :
    ∀ toast ∈ (server.expire promptLoopPeriod).1, toast.obj ≠ .gone := by
  cases hcur : server.cur with
  | none => simp [PromptServer.expire,hcur]
  | some toast =>
    have htoast := h toast hcur
    simp only [PromptServer.expire,hcur]
    split_ifs with hover
    · simpa using htoast hover
    · simp

theorem Sound.run (h : s.Sound []) (hthere : ∀ server, s.server = some server → server.timer = true → ToastThere server) :
    s.run.Sound [] := by
  cases hserver : s.server with
  | none =>
    simp only [Prompts.run,hserver]
    exact h
  | some server =>
    simp only [Prompts.run,hserver]
    split_ifs with htimer
    · exact h
    · have hwaiting : (server.expire promptLoopPeriod).2.nextToast.dialogs = server.dialogs := by
        rw [PromptServer.dialogs_nextToast,PromptServer.dialogs_expire]
      apply Sound.runDialogs
      refine ⟨h.toTold.congr rfl rfl rfl rfl ?_ ?_ rfl rfl,?_,h.toTasked.serve rfl rfl (by simp)⟩
      · simp [opened,waiting,hserver,deleteToasts,release]
      · simp [listed,waiting,hserver,deleteToasts,release]
      · have hgone := (hthere server hserver (by simpa using htimer)).expired
        have hlength := server.length_expire promptLoopPeriod
        rw [← PromptServer.length_nextToast] at hlength
        refine Owned.deleteToasts
          (s := { s with server := some (server.expire promptLoopPeriod).2.nextToast }) ?_ h.safe ?_ hgone
        · intro resource
          have hresource := h.owned resource
          cases resource with
          | prompt =>
            simp only [held,toasts,waiting,hserver,hwaiting,Option.map_some,Option.getD_some,if_true] at hresource ⊢
            omega
          | context => simpa [held,waiting,hserver,hwaiting] using hresource
          | record => simpa [held] using hresource
        · intro other hother
          cases hother
          intro toast htoast
          have hmem := PromptServer.mem_of_mem_nextToast _ htoast
          rw [PromptServer.toasts_expire] at hmem
          exact h.queued server hserver toast hmem

/-- What closes a dialog: the answer and the event that completes the call are posted, and the dialog is deleted. -/
def answer (s : Prompts) (place : ℕ) (number : ℕ) (event : PromptEvent) (index : ℤ) : Prompts :=
  { s with
    screen := s.screen.eraseIdx place
    posted := s.posted ++ [⟨number,event,index⟩,⟨number,.complete,0⟩]
    released := ((s.release .context 1).release .prompt 1).released }

theorem press_eq (hmanager : s.manager = true) {place : ℕ} {dialog : PromptDialog} (hdialog : s.screen[place]? = some dialog)
    (target : DialogTarget) : s.press place target = s ∨
      ∃ event index, event ≠ .complete ∧ s.press place target = s.answer place dialog.number event index := by
  cases target with
  | background => exact .inl (press_background s place)
  | ok =>
    refine .inr ⟨.success,0,by simp,?_⟩
    simp [press,hdialog,listens,handleLvglEvent,pressed,sendEvent,deleteObject,hmanager,answer,release]
  | cancel =>
    refine .inr ⟨.cancel,1,by simp,?_⟩
    simp [press,hdialog,listens,handleLvglEvent,pressed,sendEvent,deleteObject,hmanager,answer,release]

theorem Sound.answer (h : s.Sound []) {place : ℕ} {dialog : PromptDialog} (hdialog : s.screen[place]? = some dialog)
    {event : PromptEvent} (hanswer : event ≠ .complete) (index : ℤ) :
    (s.answer place dialog.number event index).Sound [] := by
  obtain ⟨hplace,rfl⟩ := List.getElem?_eq_some_iff.mp hdialog
  have hperm : s.opened.Perm (s.screen[place].number :: (s.answer place s.screen[place].number event index).opened) := by
    have hscreen := (List.getElem_cons_eraseIdx_perm hplace).symm.map PromptDialog.number
    exact hscreen.append_right _
  have hcomes : (s.answer place s.screen[place].number event index).coming true =
      s.coming true ++ [s.screen[place].number] := by
    simp [coming,Prompts.answer,hanswer]
  have hanswers : (s.answer place s.screen[place].number event index).coming false =
      s.coming false ++ [s.screen[place].number] := by
    simp [coming,Prompts.answer,hanswer]
  have hmoved : ∀ xs : List ℕ, (xs ++ s.opened).Perm
      (xs ++ [s.screen[place].number] ++ (s.answer place s.screen[place].number event index).opened) := by
    intro xs
    rw [List.append_assoc]
    exact hperm.append_left xs
  refine ⟨⟨?_,?_,h.keyed,?_,?_,h.reported,h.heard,h.live,h.positive,h.removed,h.ordered,h.earlier,h.ended⟩,
    ⟨fun resource => ?_,h.safe,h.queued⟩,⟨h.last,h.attached,h.closed⟩⟩
  · rw [hcomes]
    exact ((hmoved _).symm.append_left _).trans h.told
  · rw [hcomes]
    exact h.recorded.trans ((hmoved _).append_left _)
  · rw [hanswers]
    exact ((hmoved _).append_left _).nodup_iff.mp h.answered
  · exact h.follows.append ⟨fun _ => ⟨_,List.mem_cons_self,rfl,rfl⟩,fun hnot => absurd rfl hnot,trivial⟩
  · have hresource := h.owned resource
    have hlength := List.length_eraseIdx_add_one hplace
    cases resource with
    | prompt =>
      simp only [held,toasts,waiting,Prompts.answer,release,reduceCtorEq,if_true,if_false] at hresource ⊢
      omega
    | context =>
      simp only [held,waiting,Prompts.answer,release,reduceCtorEq,if_true,if_false] at hresource ⊢
      omega
    | record => exact hresource

theorem Sound.press (h : s.Sound []) (place : ℕ) (target : DialogTarget) : (s.press place target).Sound [] := by
  cases hdialog : s.screen[place]? with
  | none => simpa [Prompts.press,hdialog] using h
  | some dialog =>
    have hmanager := h.manager_of_screen (List.ne_nil_of_mem (List.mem_of_getElem? hdialog))
    rcases press_eq hmanager hdialog target with hsame | ⟨event,index,hanswer,hpress⟩
    · rw [hsame]
      exact h
    · rw [hpress]
      exact h.answer hdialog hanswer index

theorem Sound.dismissToast (h : s.Sound []) : s.dismissToast.Sound [] := by
  cases hserver : s.server with
  | none =>
    have hsame : s.dismissToast = s := by
      simp only [Prompts.dismissToast,hserver,Option.map_none]
      rw [← hserver]
    rw [hsame]
    exact h
  | some server =>
    refine ⟨h.toTold.congr rfl rfl rfl rfl ?_ ?_ rfl rfl,⟨fun resource => ?_,h.safe,?_⟩,
      h.toTasked.serve rfl rfl (by simp [Prompts.dismissToast,hserver])⟩
    · simp [opened,waiting,Prompts.dismissToast,hserver]
    · simp [listed,waiting,Prompts.dismissToast,hserver]
    · have hresource := h.owned resource
      have hcur : (server.cur.map (fun toast => { toast with obj := .gone })).toList.length = server.cur.toList.length := by
        cases server.cur <;> rfl
      cases resource <;> simpa [held,toasts,waiting,PromptServer.allToasts,Prompts.dismissToast,hserver,hcur] using hresource
    · intro other hother
      simp only [Prompts.dismissToast,hserver,Option.map_some,Option.some.injEq] at hother
      subst hother
      exact h.queued server hserver

theorem Sound.onDetached (h : s.Sound []) (hdone : s.manager = true → s.dialogCallbacks = []) : s.onDetached.Sound [] := by
  simp only [Prompts.onDetached]
  split_ifs with hdetached
  · exact h
  · have hmanager : s.manager = true := by simpa using hdetached
    have hrecorded := h.recorded
    rw [hdone hmanager] at hrecorded
    have hopened : opened { s with
        manager := false, dialogCallbacks := [], tasks := s.tasks ++ [.destroyServer], live := fun _ => false } =
        s.opened := by
      simp [opened,waiting,PromptTask.dialog]
    have hlisted : listed { s with
        manager := false, dialogCallbacks := [], tasks := s.tasks ++ [.destroyServer], live := fun _ => false } =
        s.listed := by
      simp [listed,waiting,PromptTask.dialog]
    refine ⟨⟨?_,?_,by simp,?_,h.follows,h.reported,h.heard,by simp,by simp,by simp,?_,?_,fun _ => rfl⟩,
      ⟨fun resource => ?_,h.safe,h.queued⟩,⟨?_,by simp,?_⟩⟩
    · rw [hopened]
      exact h.told
    · rw [hopened]
      exact hrecorded
    · rw [hopened]
      exact h.answered
    · rw [hlisted]
      exact h.ordered
    · rw [hlisted]
      exact h.earlier
    · have hresource := h.owned resource
      cases resource with
      | record => simpa [held,hdone hmanager] using hresource
      | _ => exact hresource
    · rw [List.dropLast_concat]
      exact h.attached hmanager
    · intro hclosed
      rw [(h.closed hclosed).1] at hmanager
      cases hmanager

end Prompts
end FeatureRuntime
