import FeatureRuntime.PromptDialogs

/-! The events of the dialogs of `system.prompt`, the callbacks that may show further dialogs, and whole runs. -/
namespace FeatureRuntime

namespace Prompts

variable {s : Prompts} {busy : List ℕ}

/-- The condition on an event that the thread of the app takes: the calls made in its callback replace no record, and where it
completes a call, each callback that this call was given belongs to another call as well that is yet to be completed. -/
structure EventMeets (s : Prompts) (info : DialogCallbackInfo) (event : PromptEvent) (inside : List DialogInfo) : Prop where
  unused : 0 < info.callback event → Transition.Guarded Prompts.showDialog Unused s inside
  shared : event = .complete → ∀ id ∈ info.ids, 0 < id →
    (∃ other ∈ s.dialogCallbacks, other.number ≠ info.number ∧ id ∈ other.ids) ∨
      0 < info.callback event ∧ ∃ call ∈ inside, id ∈ [call.success,call.cancel,call.complete]

theorem guarded_showDialog_iff {t : Prompts} (hmanager : t.manager = s.manager) (hnext : t.next = s.next)
    (hrecords : t.dialogCallbacks = s.dialogCallbacks) (inside : List DialogInfo) :
    Transition.Guarded Prompts.showDialog Unused t inside ↔ Transition.Guarded Prompts.showDialog Unused s inside := by
  induction inside generalizing s t with
  | nil => exact Iff.rfl
  | cons call inside ih =>
    have hunused : t.Unused call ↔ s.Unused call := by simp only [Unused,findDialogInfo,hmanager,hnext,hrecords]
    simp only [Transition.Guarded,hunused]
    refine and_congr_right fun _ => ih ?_ ?_ ?_
    · simp only [Prompts.showDialog,hmanager]
      split_ifs
      · exact hmanager
      · exact hmanager
    · simp only [Prompts.showDialog,hmanager]
      split_ifs
      · exact hnext
      · simp [eraseDialogInfo,make,register,hnext]
    · simp only [Prompts.showDialog,hmanager]
      split_ifs
      · exact hrecords
      · simp [eraseDialogInfo,make,register,hnext,hrecords]

variable {inside : List DialogInfo}

theorem Sound.foldl (h : s.Sound busy)
    (hguarded : Transition.Guarded Prompts.showDialog Unused s inside) : (inside.foldl Prompts.showDialog s).Sound busy := by
  have hstep : ∀ (s : Prompts) info, s.Sound busy → s.Unused info → (s.showDialog info).Sound busy :=
    fun _ _ hs hunused => hs.showDialog hunused
  exact (hguarded.always hstep h).last

theorem showDialog_foldl (hmanager : s.manager = true)
    (h : Transition.Guarded Prompts.showDialog Unused s inside) : ∃ records,
    (inside.foldl Prompts.showDialog s).dialogCallbacks = s.dialogCallbacks ++ records ∧
      (∀ record ∈ records, s.next ≤ record.number) ∧
      (∀ id, (∃ record ∈ records, id ∈ record.ids) ↔ ∃ call ∈ inside, id ∈ [call.success,call.cancel,call.complete]) ∧
      (inside.foldl Prompts.showDialog s).manager = true ∧
      ∀ id, s.live id = true → (inside.foldl Prompts.showDialog s).live id = true := by
  induction inside generalizing s with
  | nil => exact ⟨[],by simp,by simp,by simp,hmanager,fun _ hid => hid⟩
  | cons call inside ih =>
    have haccept := Unused.showDialog_eq h.1 hmanager
    have hrest := h.2
    rw [haccept] at hrest
    obtain ⟨records,hrecords,hlater,hids,hkept,hlive⟩ := ih (s := s.accept call) hmanager hrest
    rw [List.foldl_cons,haccept]
    refine ⟨s.recordOf call :: records,?_,?_,fun id => ?_,hkept,fun id hid => hlive id (by simp [accept,hid])⟩
    · rw [hrecords]
      simp [accept]
    · intro record hrecord
      rcases List.mem_cons.mp hrecord with rfl | hmem
      · exact Nat.le_refl _
      · exact (Nat.le_succ _).trans (hlater record hmem)
    · simp only [List.mem_cons,exists_eq_or_imp] at hids ⊢
      rw [hids id]
      simp [recordOf,DialogCallbackInfo.ids]

def answering (s : Prompts) (info : DialogCallbackInfo) (data : FeaturePostEventData) (posted : List FeaturePostEventData) :
    Prompts :=
  { s with
    posted := posted
    reports := s.reports ++ [⟨info.number,data.event,data.index,info.callback data.event,
      decide (0 ≤ info.callback data.event) && s.live (info.callback data.event)⟩] }

variable {info : DialogCallbackInfo}

theorem Told.heard_iff (h : s.Told busy) (hinfo : info ∈ s.dialogCallbacks) (event : PromptEvent) :
    (decide (0 ≤ info.callback event) && s.live (info.callback event)) = true ↔ 0 < info.callback event := by
  rw [Bool.and_eq_true,decide_eq_true_eq]
  constructor
  · exact fun hboth => h.positive _ hboth.2
  · exact fun hpositive => ⟨Int.le_of_lt hpositive,h.live info hinfo _ (info.callback_mem_ids event) hpositive⟩

variable {posted : List FeaturePostEventData} {data : FeaturePostEventData}

theorem Sound.answering (h : s.Sound []) (hinfo : info ∈ s.dialogCallbacks) (hposted : s.posted = data :: posted)
    (hnumber : info.number = data.number) :
    (s.answering info data posted).Sound (if data.event = .complete then [data.number] else []) := by
  have hfollows := h.follows
  rw [hposted] at hfollows
  have hknown : data.number < s.next := by
    obtain ⟨later,hlater,hends,hsame⟩ := h.follows.mem (hposted ▸ List.mem_cons_self (a := data))
    apply List.mem_range.mp
    apply h.told.mem_iff.mp
    apply List.mem_append_right
    apply List.mem_append_left
    exact List.mem_map.mpr ⟨later,List.mem_filter.mpr ⟨hlater,by simp [hends]⟩,hsame⟩
  have hcomes : ∀ ends, s.coming ends =
      (if decide (data.event = .complete) = ends then [data.number] else []) ++ (s.answering info data posted).coming ends := by
    intro ends
    simp only [coming,hposted,Prompts.answering,List.filter_cons,decide_eq_true_eq]
    split_ifs <;> rfl
  have htells : ∀ ends, (s.answering info data posted).told ends =
      s.told ends ++ (if decide (data.event = .complete) = ends then [data.number] else []) := by
    intro ends
    simp only [Prompts.told,Prompts.answering,List.filter_append,List.map_append,List.filter_cons,List.filter_nil,
      decide_eq_true_eq]
    split_ifs
    · simp [hnumber]
    · rfl
  have htold := h.told
  have hrecorded := h.recorded
  have hanswered := h.answered
  rw [hcomes] at htold hrecorded hanswered
  simp only [List.append_assoc] at htold hanswered
  simp only [List.append_assoc,List.nil_append,decide_eq_true_eq] at hrecorded
  refine ⟨⟨?_,?_,h.keyed,?_,hfollows.2,?_,?_,h.live,h.positive,h.removed,h.ordered,h.earlier,h.ended⟩,
    ⟨h.owned,h.safe,h.queued⟩,⟨h.last,h.attached,h.closed⟩⟩
  · rw [htells,List.append_assoc]
    exact htold
  · exact hrecorded
  · rw [htells,List.append_assoc]
    exact hanswered
  · intro report hreport
    rcases List.mem_append.mp hreport with hold | hnew
    · exact h.reported report hold
    · rw [List.mem_singleton.mp hnew]
      exact hnumber ▸ hknown
  · intro report hreport hpositive
    rcases List.mem_append.mp hreport with hold | hnew
    · exact h.heard report hold hpositive
    · rw [List.mem_singleton.mp hnew] at hpositive ⊢
      exact (h.heard_iff hinfo data.event).mpr hpositive

/-- The record of a call goes when the call is completed, and leaves no callback behind. -/
theorem Sound.finish (h : s.Sound [info.number]) (hmanager : s.manager = true) (hinfo : info ∈ s.dialogCallbacks)
    (hshared : ∀ id ∈ info.ids, 0 < id → ∃ other ∈ s.dialogCallbacks, other.number ≠ info.number ∧ id ∈ other.ids) :
    ((s.release .record 1).eraseDialogInfo (dialogId info.number)).Sound [] := by
  have hperm := @perm_cons_filter _ (fun info => dialogId info.number) _ h.keyed _ hinfo
  have hsub : (s.dialogCallbacks.filter (fun other => dialogId other.number != dialogId info.number)).Sublist
      s.dialogCallbacks := List.filter_sublist
  refine ⟨⟨h.told,?_,(hsub.map _).nodup h.keyed,h.answered,h.follows,h.reported,h.heard,
    fun record hrecord => h.live record (hsub.subset hrecord),h.positive,?_,h.ordered,h.earlier,?_⟩,
    ⟨fun resource => ?_,h.safe,h.queued⟩,⟨h.last,h.attached,h.closed⟩⟩
  · have hnumbers := (hperm.map DialogCallbackInfo.number).symm.trans h.recorded
    rw [List.map_cons,List.singleton_append] at hnumbers
    exact hnumbers.cons_inv
  · intro id hid
    have hkeep : ∀ other ∈ s.dialogCallbacks, other.number ≠ info.number →
        other ∈ s.dialogCallbacks.filter (fun other => dialogId other.number != dialogId info.number) := by
      intro other hother hdiffers
      rw [List.mem_filter,bne_iff_ne]
      refine ⟨hother,fun hkey => hdiffers ?_⟩
      rw [List.inj_on_of_nodup_map h.keyed hother hinfo hkey]
    obtain ⟨record,hrecord,hmem⟩ := h.removed id hid
    by_cases hsame : record.number = info.number
    · have heq : record = info := List.inj_on_of_nodup_map h.keyed hrecord hinfo (by simp only [hsame])
      subst heq
      obtain ⟨other,hother,hdiffers,hothers⟩ := hshared id hmem (h.positive id hid)
      exact ⟨other,hkeep other hother hdiffers,hothers⟩
    · exact ⟨record,hkeep record hrecord hsame,hmem⟩
  · exact fun hdetached => absurd hmanager (by simpa [eraseDialogInfo,release] using hdetached)
  · have hresource := h.owned resource
    cases resource with
    | prompt => exact hresource
    | context => exact hresource
    | record =>
      have hlength := hperm.length_eq
      simp only [List.length_cons] at hlength
      simp only [held,eraseDialogInfo,release,if_true] at hresource ⊢
      omega

/-- The state after the callback for an event, in which `showDialog` may have been called. -/
def called (s : Prompts) (info : DialogCallbackInfo) (data : FeaturePostEventData) (posted : List FeaturePostEventData)
    (inside : List DialogInfo) : Prompts :=
  if (decide (0 ≤ info.callback data.event) && s.live (info.callback data.event)) = true then
    inside.foldl Prompts.showDialog (s.answering info data posted)
  else s.answering info data posted

theorem runPosted_eq (hmanager : s.manager = true) (hposted : s.posted = data :: posted)
    (hfind : s.findDialogInfo (dialogId data.number) = some info) (inside : List DialogInfo) :
    s.runPosted inside =
      if data.event = .complete then
        ((s.called info data posted inside).release .record 1).eraseDialogInfo (dialogId data.number)
      else s.called info data posted inside := by
  have htaken : s.runPosted inside = { s with posted := posted }.handleDialogEvent data inside := by
    simp only [runPosted,hposted]
  have hfound : findDialogInfo { s with posted := posted } (dialogId data.number) = some info := hfind
  rw [htaken,handleDialogEvent,if_neg (by simp [hmanager]),hfound]
  rfl

theorem Sound.head (h : s.Sound [])
    (hposted : s.posted = data :: posted) : s.manager = true ∧ ∃ info ∈ s.dialogCallbacks,
      info.number = data.number ∧ s.findDialogInfo (dialogId data.number) = some info := by
  constructor
  · cases hmanager : s.manager with
    | true => rfl
    | false =>
      rw [(h.idle hmanager).2] at hposted
      cases hposted
  · obtain ⟨later,hlater,hends,hsame⟩ := h.follows.mem (hposted ▸ List.mem_cons_self (a := data))
    apply h.find
    rw [List.nil_append]
    apply List.mem_append_left
    exact List.mem_map.mpr ⟨later,List.mem_filter.mpr ⟨hlater,by simp [hends]⟩,hsame⟩

/-- What a callback leaves, where the calls made in it replace no record. -/
theorem Sound.called (h : s.Sound []) (hmanager : s.manager = true) (hinfo : info ∈ s.dialogCallbacks)
    (hposted : s.posted = data :: posted) (hnumber : info.number = data.number)
    (hunused : 0 < info.callback data.event → Transition.Guarded Prompts.showDialog Unused s inside) : ∃ records,
    (s.called info data posted inside).dialogCallbacks = s.dialogCallbacks ++ records ∧
      (∀ record ∈ records, s.next ≤ record.number) ∧
      (∀ id, (∃ record ∈ records, id ∈ record.ids) ↔
        0 < info.callback data.event ∧ ∃ call ∈ inside, id ∈ [call.success,call.cancel,call.complete]) ∧
      (s.called info data posted inside).manager = true ∧
      (∀ id, s.live id = true → (s.called info data posted inside).live id = true) ∧
      (s.called info data posted inside).Sound (if data.event = .complete then [info.number] else []) := by
  have hsound := h.answering hinfo hposted hnumber
  rw [← hnumber] at hsound
  have hiff := h.heard_iff hinfo data.event
  by_cases hpositive : 0 < info.callback data.event
  · have hcalled : s.called info data posted inside = inside.foldl Prompts.showDialog (s.answering info data posted) := by
      rw [Prompts.called,if_pos (hiff.mpr hpositive)]
    have hguarded : Transition.Guarded Prompts.showDialog Unused (s.answering info data posted) inside :=
      (guarded_showDialog_iff (s := s) (t := s.answering info data posted) rfl rfl rfl inside).mpr (hunused hpositive)
    obtain ⟨records,hrecords,hlater,hids,hkept,hlive⟩ :=
      showDialog_foldl (s := s.answering info data posted) hmanager hguarded
    rw [hcalled]
    refine ⟨records,hrecords,hlater,fun id => ?_,hkept,hlive,hsound.foldl hguarded⟩
    rw [hids id]
    exact (and_iff_right hpositive).symm
  · have hcalled : s.called info data posted inside = s.answering info data posted := by
      rw [Prompts.called,if_neg (hiff.not.mpr hpositive)]
    rw [hcalled]
    exact ⟨[],(List.append_nil _).symm,by simp,by simp [hpositive],hmanager,fun _ hid => hid,hsound⟩

theorem Sound.runPosted (h : s.Sound []) (inside : List DialogInfo)
    (hmeets : ∀ data ∈ s.posted.head?, ∀ info, s.findDialogInfo (dialogId data.number) = some info →
      s.EventMeets info data.event inside) : (s.runPosted inside).Sound [] := by
  cases hposted : s.posted with
  | nil =>
    simp only [Prompts.runPosted,hposted]
    exact h
  | cons data posted =>
    obtain ⟨hmanager,info,hinfo,hnumber,hfind⟩ := h.head hposted
    have hevent := hmeets data (by simp [hposted]) info hfind
    obtain ⟨records,hrecords,hlater,hids,hkept,-,hsound⟩ := h.called hmanager hinfo hposted hnumber hevent.unused
    rw [runPosted_eq hmanager hposted hfind]
    split_ifs at hsound ⊢ with hends
    · have hmem : info ∈ (s.called info data posted inside).dialogCallbacks := by
        rw [hrecords]
        exact List.mem_append_left _ hinfo
      rw [← hnumber]
      apply hsound.finish hkept hmem
      intro id hid hpositive
      rw [hrecords]
      rcases hevent.shared hends id hid hpositive with ⟨other,hother,hdiffers,hothers⟩ | hinside
      · exact ⟨other,List.mem_append_left _ hother,hdiffers,hothers⟩
      · obtain ⟨record,hrecord,hthere⟩ := (hids id).mpr hinside
        have hknown : info.number < s.next := by
          have hcomes := h.recorded.mem_iff.mp (List.mem_map_of_mem hinfo)
          exact List.mem_range.mp (h.told.mem_iff.mp (List.mem_append_right _ hcomes))
        exact ⟨record,List.mem_append_right _ hrecord,(hknown.trans_le (hlater record hrecord)).ne',hthere⟩
    · exact hsound

/-- The condition on what happens: a call of `showDialog` replaces no record; no dialog is to wait where nine wait; an object
of LVGL's is deleted only by its prompt; an event meets its condition; and an instance is detached when all its dialogs are
completed. -/
def Meets (s : Prompts) : PromptOp → Prop
  | .showDialog info => s.Unused info
  | .runTask => ∀ server, s.server = some server → ∀ task ∈ s.tasks.head?, TaskMeets server task
  | .timer => ∀ server, s.server = some server → server.timer = true → ToastThere server
  | .dismiss place => s.screen[place]? = none
  | .runPosted inside => ∀ data ∈ s.posted.head?, ∀ info, s.findDialogInfo (dialogId data.number) = some info →
      s.EventMeets info data.event inside
  | .detach => s.manager = true → s.dialogCallbacks = []
  | _ => True

theorem Sound.step (h : s.Sound []) (op : PromptOp) (hmeets : s.Meets op) : (s.step op).Sound [] := by
  cases op with
  | showDialog info => exact h.showDialog hmeets
  | showToast message duration => exact h.showToast message duration
  | runTask => exact h.runTask hmeets
  | timer => exact h.run hmeets
  | press place target => exact h.press place target
  | dismiss place =>
    have hnone : s.screen[place]? = none := hmeets
    simpa [Prompts.step,dismiss,hnone] using h
  | dismissToast => exact h.dismissToast
  | runPosted inside => exact h.runPosted inside hmeets
  | detach => exact h.onDetached hmeets

def Leaked (s : Prompts) : Prop := s.released .record + s.dialogCallbacks.length < s.made .record

theorem Leaked.not_right (h : s.Leaked) : ¬ s.Right := by
  intro hright
  have howned := hright.owned .record
  simp only [Leaked,held] at h howned
  omega

theorem Leaked.showDialog (h : s.Leaked) (info : DialogInfo) : (s.showDialog info).Leaked := by
  have hlength : (s.dialogCallbacks.filter (fun record => dialogId record.number != dialogId s.next)).length ≤
      s.dialogCallbacks.length := List.length_filter_le _ _
  simp only [Prompts.showDialog]
  split_ifs
  · exact h
  · simp only [Leaked,eraseDialogInfo,make,register,List.length_append,List.length_singleton,if_true] at h ⊢
    omega

theorem Leaked.foldl (h : s.Leaked) (inside : List DialogInfo) : (inside.foldl Prompts.showDialog s).Leaked := by
  induction inside generalizing s with
  | nil => exact h
  | cons call inside ih => exact ih (h.showDialog call)

theorem Owned.leaked (h : s.Owned) {info : DialogInfo} (hused : ¬ s.Unused info) :
    s.manager = true ∧ (s.showDialog info).Leaked := by
  simp only [Unused,Classical.not_imp] at hused
  obtain ⟨hmanager,hfound⟩ := hused
  obtain ⟨record,hfind⟩ := Option.ne_none_iff_exists'.mp hfound
  rw [findDialogInfo] at hfind
  have hlength : (s.dialogCallbacks.filter (fun record => dialogId record.number != dialogId s.next)).length <
      s.dialogCallbacks.length := by
    rw [List.length_filter_lt_length_iff_exists]
    refine ⟨record,List.mem_of_find?_eq_some hfind,?_⟩
    simpa using List.find?_some hfind
  have howned := h.owned .record
  refine ⟨hmanager,?_⟩
  rw [Prompts.showDialog,if_neg (by simp [hmanager])]
  simp only [held] at howned
  simp only [Leaked,eraseDialogInfo,make,register,List.length_append,List.length_singleton,if_true]
  omega

theorem Sound.leaked (h : s.Sound busy)
    (hused : ¬ Transition.Guarded Prompts.showDialog Unused s inside) : (inside.foldl Prompts.showDialog s).Leaked := by
  induction inside generalizing s with
  | nil => exact absurd trivial hused
  | cons call inside ih =>
    rw [Transition.Guarded,not_and_or] at hused
    by_cases hunused : s.Unused call
    · exact ih (h.showDialog hunused) (hused.resolve_left (not_not_intro hunused))
    · exact (h.toOwned.leaked hunused).2.foldl inside

theorem taken_foldl {id : ℕ} (h : ∃ record ∈ s.dialogCallbacks, dialogId record.number = id) (inside : List DialogInfo) :
    ∃ record ∈ (inside.foldl Prompts.showDialog s).dialogCallbacks, dialogId record.number = id := by
  induction inside generalizing s with
  | nil => exact h
  | cons call inside ih =>
    apply ih
    simp only [Prompts.showDialog]
    split_ifs
    · exact h
    · obtain ⟨record,hrecord,hid⟩ := h
      by_cases hsame : dialogId s.next = id
      · exact ⟨_,List.mem_append_right _ (List.mem_singleton_self _),hsame⟩
      · refine ⟨record,List.mem_append_left _ ?_,hid⟩
        simp only [eraseDialogInfo,make,register,List.mem_filter,bne_iff_ne]
        exact ⟨hrecord,fun hother => hsame (hother.symm.trans hid)⟩

theorem Leaked.finish (h : s.Leaked) {id : ℕ} (htaken : ∃ record ∈ s.dialogCallbacks, dialogId record.number = id) :
    ((s.release .record 1).eraseDialogInfo id).Leaked := by
  have hlength : (s.dialogCallbacks.filter (fun record => dialogId record.number != id)).length <
      s.dialogCallbacks.length := by
    rw [List.length_filter_lt_length_iff_exists]
    obtain ⟨record,hrecord,hid⟩ := htaken
    exact ⟨record,hrecord,by simp [hid]⟩
  simp only [Leaked,eraseDialogInfo,release,if_true] at h ⊢
  omega

/-- An event outside its condition leaks a record, or leaves a callback behind. -/
theorem Sound.not_right_runPosted (h : s.Sound [])
    (hbad : ¬ ∀ data ∈ s.posted.head?, ∀ info, s.findDialogInfo (dialogId data.number) = some info →
      s.EventMeets info data.event inside) : ¬ (s.runPosted inside).Right := by
  cases hposted : s.posted with
  | nil => simp [hposted] at hbad
  | cons data posted =>
    obtain ⟨hmanager,info,hinfo,hnumber,hfind⟩ := h.head hposted
    have hevent : ¬ s.EventMeets info data.event inside := by
      simpa [hposted,hfind] using hbad
    rw [runPosted_eq hmanager hposted hfind]
    by_cases hunused : 0 < info.callback data.event → Transition.Guarded Prompts.showDialog Unused s inside
    · obtain ⟨records,hrecords,-,hids,-,hlive,-⟩ := h.called hmanager hinfo hposted hnumber hunused
      have hshared : ¬ (data.event = .complete → ∀ id ∈ info.ids, 0 < id →
          (∃ other ∈ s.dialogCallbacks, other.number ≠ info.number ∧ id ∈ other.ids) ∨
            0 < info.callback data.event ∧ ∃ call ∈ inside, id ∈ [call.success,call.cancel,call.complete]) :=
        fun hshared => hevent ⟨hunused,hshared⟩
      simp only [Classical.not_imp,Classical.not_forall,not_or] at hshared
      obtain ⟨hends,id,hid,hpositive,hother,hinside⟩ := hshared
      rw [if_pos hends]
      intro hright
      obtain ⟨record,hrecord,hmem⟩ := hright.removed id (hlive id (h.live info hinfo id hid hpositive))
      simp only [eraseDialogInfo,release,hrecords,List.mem_filter,bne_iff_ne] at hrecord
      rcases List.mem_append.mp hrecord.1 with hold | hnew
      · exact hother ⟨record,hold,fun hsame => hrecord.2 (by rw [hsame,hnumber]),hmem⟩
      · exact hinside ((hids id).mp ⟨record,hnew,hmem⟩)
    · rw [Classical.not_imp] at hunused
      obtain ⟨hpositive,hused⟩ := hunused
      have hiff := h.heard_iff hinfo data.event
      have hcalled : s.called info data posted inside = inside.foldl Prompts.showDialog (s.answering info data posted) := by
        rw [Prompts.called,if_pos (hiff.mpr hpositive)]
      have hused' : ¬ Transition.Guarded Prompts.showDialog Unused (s.answering info data posted) inside :=
        (guarded_showDialog_iff (s := s) (t := s.answering info data posted) rfl rfl rfl inside).not.mpr hused
      have hleaked := (h.answering hinfo hposted hnumber).leaked hused'
      have htaken := @taken_foldl (s.answering info data posted) (dialogId data.number)
        ⟨info,hinfo,by rw [hnumber]⟩ inside
      rw [hcalled]
      split_ifs
      · exact (hleaked.finish htaken).not_right
      · exact hleaked.not_right

/-- A dialog that has to make room takes the context of its events with it. -/
theorem Sound.not_right_runTask (h : s.Sound [])
    (hbad : ¬ ∀ server, s.server = some server → ∀ task ∈ s.tasks.head?, TaskMeets server task) : ¬ s.runTask.Right := by
  cases hserver : s.server with
  | none => simp [hserver] at hbad
  | some server =>
    cases htasks : s.tasks with
    | nil => simp [htasks] at hbad
    | cons task tasks =>
      have htask : ¬ TaskMeets server task := by simpa [hserver,htasks] using hbad
      simp only [Prompts.runTask,hserver,htasks]
      cases task with
      | initServer => exact absurd trivial htask
      | showToast msg duration => exact absurd trivial htask
      | showDialog data =>
        have hfull : toastQueueLimit ≤ server.dialogs.length + 1 := Nat.not_lt.mp htask
        intro hright
        have howned := h.owned .context
        have howned' := hright.owned .context
        simp only [held,waiting,hserver,Option.map_some,Option.getD_some] at howned
        simp only [Prompts.showDialogTask,PromptServer.push,held,waiting,release,make,List.length_append,
          List.length_singleton,hfull,if_true,reduceCtorEq,if_false,List.length_drop,Option.map_some,
          Option.getD_some] at howned'
        omega
      | destroyServer =>
        simp only [TaskMeets,Classical.not_forall,not_not] at htask
        obtain ⟨toast,hcur,hgone⟩ := htask
        intro hright
        have hsafe := hright.safe
        simp only [uninit,deleteToasts,release,Bool.or_eq_false_iff,List.any_eq_false,decide_eq_true_eq] at hsafe
        exact hsafe.2 toast (List.mem_append_right _ (by simpa using hcur)) hgone

theorem Sound.not_right (h : s.Sound []) (op : PromptOp) (hbad : ¬ s.Meets op) : ¬ (s.step op).Right := by
  cases op with
  | showDialog info => exact (h.toOwned.leaked hbad).2.not_right
  | showToast message duration => exact absurd trivial hbad
  | runTask => exact h.not_right_runTask hbad
  | timer =>
    simp only [Meets,ToastThere,Classical.not_forall,not_not] at hbad
    obtain ⟨server,hserver,htimer,toast,hcur,hover,hgone⟩ := hbad
    intro hright
    have hsafe := hright.safe
    have hcur' : server.cur = some toast := hcur
    simp only [Prompts.step,Prompts.run,hserver,htimer,Bool.true_eq_false,if_false,PromptServer.expire,hcur',hover,
      if_true] at hsafe
    have hfault : ∀ (t : Prompts) (server : PromptServer), (t.runDialogs server).fault = t.fault := by
      intro t server
      simp only [Prompts.runDialogs]
      split <;> rfl
    rw [hfault] at hsafe
    simp [deleteToasts,hgone] at hsafe
  | press place target => exact absurd trivial hbad
  | dismiss place =>
    obtain ⟨dialog,hdialog⟩ := Option.ne_none_iff_exists'.mp hbad
    obtain ⟨hplace,-⟩ := List.getElem?_eq_some_iff.mp hdialog
    intro hright
    have howned := h.owned .prompt
    have howned' := hright.owned .prompt
    have hlength := List.length_eraseIdx_add_one hplace
    have hmanager := h.manager_of_screen (List.ne_nil_of_mem (List.mem_of_getElem? hdialog))
    simp only [Prompts.step,dismiss,hdialog,deleteObject,sendEvent,hmanager,if_true,held,toasts,waiting,release,
      reduceCtorEq,if_false] at howned howned'
    omega
  | dismissToast => exact absurd trivial hbad
  | runPosted inside => exact h.not_right_runPosted hbad
  | detach =>
    simp only [Meets,Classical.not_imp] at hbad
    obtain ⟨hmanager,hopen⟩ := hbad
    intro hright
    have howned := h.owned .record
    have howned' := hright.owned .record
    have hlength := List.length_pos_iff.mpr hopen
    simp only [Prompts.step,Prompts.onDetached,hmanager,Bool.true_eq_false,if_false,held,List.length_nil] at howned howned'
    omega

theorem Sound.init : init.Sound [] := by
  refine ⟨⟨List.Perm.refl _,List.Perm.refl _,List.nodup_nil,List.nodup_nil,trivial,nofun,nofun,nofun,nofun,nofun,
    List.Pairwise.nil,nofun,fun _ => rfl⟩,⟨?_,rfl,?_⟩,⟨?_,?_,nofun⟩⟩
  · intro resource
    cases resource <;> rfl
  · intro server hserver
    cases hserver
    exact nofun
  · simp [Prompts.init]
  · simp [Prompts.init]

/-- Throughout a run of any number of instances every call is answered at most once and completed once, the dialogs of an
instance are shown in order and what was made is deleted once, exactly when every step meets its condition. -/
theorem dialogs_right_iff_meets {ι : Type} [DecidableEq ι] (ops : List (ι × PromptOp)) :
    Transition.Always (Transition.pointwise Prompts.step) (fun s => ∀ feature, (s feature).Right) (fun _ => init) ops ↔
      Transition.Guarded (Transition.pointwise Prompts.step) (fun s op => (s op.1).Meets op.2) (fun _ => init) ops :=
  Transition.always_pointwise_iff_guarded (I := fun s => s.Sound []) (fun _ h => h.right)
    (fun _ op h hmeets => h.step op hmeets) (fun _ op h hbad => h.not_right op hbad) (fun _ => Sound.init) ops

/-- The first of ten dialogs that are shown at once is dropped, and its call is never completed. -/
theorem dropped_not_completed : ¬ ∀ ops : List (ℕ × PromptOp),
    Transition.Always (Transition.pointwise Prompts.step) (fun s => ∀ feature, (s feature).Right) (fun _ => init) ops := by
  intro h
  have hright := (h (List.replicate 10 (0,.showDialog ⟨none,none,true,1,2,3⟩) ++ List.replicate 11 (0,.runTask))).last 0
  exact absurd (hright.every rfl 0 (by decide)) (by decide)

end Prompts
end FeatureRuntime
