import FeatureRuntime.SystemSettings
import FeatureRuntime.Transition
import Mathlib.Data.List.Nodup

/-! Which changes the instances of `system.settings` are given, whatever the others do. -/
namespace FeatureRuntime

/-- The settings, and what the instances are subscribed to by their own calls: a callback for a key. -/
structure SettingsSubscriptions (ι : Type) where
  settings : SystemSettings ι
  own : ι → CString → Option ℤ

def SettingsAct.message : SettingsAct → Option SettingsMessage
  | .sub message => some message
  | _ => none

/-- The settings, with the changes that every instance is still to be told, in their order; a callback that is invoked with
another one, or is not that of the subscription to the key, is wrong. -/
structure SettingsWatch (ι : Type) extends SettingsSubscriptions ι where
  owed : ι → List (CString × ℕ)
  wrong : Bool

namespace SystemSettings

variable {ι : Type}

/-- The messages for which no subscription has been looked for. -/
def pending (s : SystemSettings ι) : List SettingsMessage := s.todo.filterMap SettingsAct.message ++ s.queue

variable [DecidableEq ι]

/-- The change that a message will tell an instance. -/
def due (s : SystemSettings ι) (feature : ι) (argument : SettingsArgument) (told : Option ℕ) : Option (CString × ℕ) := do
  let sub ← s.subs.find? (fun sub => sub.address = argument.address)
  let value ← told
  if sub.feature = feature then some (argument.key,value) else none

def dueOf (s : SystemSettings ι) (feature : ι) (message : SettingsMessage) : Option (CString × ℕ) :=
  s.due feature message.argument (if message.status = 0 then message.value else none)

omit [DecidableEq ι] in
/-- The loop goes on: the subscriptions stay, and at most the message at hand is told. -/
theorem next_frame (s : SystemSettings ι) : s.next.subs = s.subs ∧ s.next.registrations = s.registrations ∧
    s.next.live = s.live ∧ s.next.destroyed = s.destroyed ∧
    ((s.next.pending = s.pending ∧ s.next.notified = s.notified) ∨ ∃ message, s.pending = message :: s.next.pending ∧
      s.next.notified = s.notified ++ (s.notice message).toList) := by
  rw [next]
  cases htodo : s.todo with
  | nil => exact ⟨rfl,rfl,rfl,rfl,.inl ⟨rfl,rfl⟩⟩
  | cons act todo =>
    cases act with
    | request message =>
      dsimp only [act,callRequest]
      split
      · exact ⟨rfl,rfl,rfl,rfl,.inl ⟨by simp [pending,htodo,List.filterMap_cons,SettingsAct.message],rfl⟩⟩
      · rename_i request _
        have hframe := frame_settle { s with todo := todo } request.feature ⟨request.pid,some request.object,
          some message.argument.object,(answer request.kind message.status message.value).1,
          (answer request.kind message.status message.value).2⟩
        refine ⟨hframe.subs,hframe.registrations,hframe.live,hframe.destroyed,.inl ⟨?_,hframe.notified⟩⟩
        simp [pending,htodo,List.filterMap_cons,SettingsAct.message,hframe.todo,hframe.queue]
    | erase object address =>
      exact ⟨rfl,rfl,rfl,rfl,.inl ⟨by simp [act,pending,htodo,List.filterMap_cons,SettingsAct.message,eraseRequest],rfl⟩⟩
    | sub message =>
      exact ⟨rfl,rfl,rfl,rfl,.inr ⟨message,by simp [act,pending,htodo,SettingsAct.message],rfl⟩⟩
    | destroy message =>
      exact ⟨rfl,rfl,rfl,rfl,.inl ⟨by simp [act,pending,htodo,List.filterMap_cons,SettingsAct.message],rfl⟩⟩

end SystemSettings

namespace SettingsSubscriptions

open SystemSettings LiveCallbacks

variable {ι : Type} [DecidableEq ι]

def claim (own : ι → CString → Option ℤ) (feature : ι) (key : CString) (cid : Option ℤ) : ι → CString → Option ℤ :=
  Function.update own feature (Function.update (own feature) key cid)

theorem claim_eq (own : ι → CString → Option ℤ) (feature : ι) (key : CString) (cid : Option ℤ) (other : ι)
    (other' : CString) : claim own feature key cid other other' =
      if other = feature ∧ other' = key then cid else own other other' := by
  by_cases hfeature : other = feature
  · subst hfeature
    by_cases hkey : other' = key
    · simp [claim,hkey]
    · simp [claim,hkey]
  · simp [claim,hfeature]

/-- The subscriptions by own calls after an operation: a call of `subscribeProp` counts where the backend accepts it, or
where there is one already. -/
def ownAfter (w : SettingsSubscriptions ι) : SettingsOp ι → ι → CString → Option ℤ
  | .subscribeProp feature (some key) cid address accepted =>
    if w.settings.detached feature ∨ w.settings.destroyed ∨ w.settings.inUse address then w.own
    else if accepted ∨ w.own feature key ≠ none then claim w.own feature key (some cid)
    else w.own
  | .unsubscribeProp feature key accepted =>
    if w.settings.detached feature ∨ w.settings.destroyed ∨ accepted = false then w.own
    else claim w.own feature key none
  | .detach feature =>
    if w.settings.detached feature ∨ w.settings.destroyed then w.own
    else Function.update w.own feature (fun _ => none)
  | .destroy => if w.settings.destroyed then w.own else fun _ _ => none
  | _ => w.own

def step (w : SettingsSubscriptions ι) (op : SettingsOp ι) : SettingsSubscriptions ι :=
  ⟨w.settings.step op,w.ownAfter op⟩

variable (w : SettingsSubscriptions ι)

/-- The condition on `subscribeProp`. -/
def SubscribeMeets (feature : ι) (key : CString) (cid : ℤ) (address : ℕ) (accepted : Bool) : Prop :=
  match w.own feature key with
  | some old => 0 < cid ∧ cid ≠ old ∧ ∀ other, other ≠ key → w.own feature other ≠ some old
  | none =>
    if accepted then 0 < cid ∧ (∀ argument ∈ w.settings.registrations, argument.address ≠ address) ∧
      ∀ message ∈ w.settings.pending, message.argument.address ≠ address
    else ∀ other, w.own feature other ≠ some cid

/-- The condition on what happens. A subscription brings a function, another one than it had, and is put where nothing is
registered and for which no message is on its way; no reply comes to a request whose place a subscription has taken; no
function is removed that another subscription of the instance uses; a key is given up where no other instance is subscribed
to it; and an instance is detached where another one is subscribed to each of its keys. -/
def Meets : SettingsOp ι → Prop
  | .subscribeProp feature (some key) cid address accepted =>
    w.settings.detached feature = false → w.settings.destroyed = false → w.settings.inUse address = false →
      w.SubscribeMeets feature key cid address accepted
  | .unsubscribeProp feature key accepted =>
    w.settings.detached feature = false → w.settings.destroyed = false → accepted = true →
      (∀ other, other ≠ feature → w.own other key = none) ∧
        ∀ cid, w.own feature key = some cid → ∀ other, other ≠ key → w.own feature other ≠ some cid
  | .detach feature => w.settings.detached feature = false → w.settings.destroyed = false →
      ∀ key, w.own feature key ≠ none → ∃ other, other ≠ feature ∧ w.own other key ≠ none
  | .reply argument _ _ => ∀ sub ∈ w.settings.subs, sub.address ≠ argument.address
  | _ => True

/-- The subscriptions of the settings are those by own calls; each has its callback, and one registration at its place. -/
structure Sync : Prop where
  subsOwn : ∀ sub ∈ w.settings.subs, w.own sub.feature sub.key = some sub.cid
  ownSubs : ∀ feature key cid, w.own feature key = some cid →
    ∃ sub ∈ w.settings.subs, sub.feature = feature ∧ sub.key = key ∧ sub.cid = cid
  one : (w.settings.subs.map (fun sub => (sub.feature,sub.key))).Nodup
  addresses : (w.settings.subs.map SettingsSub.address).Nodup
  place : ∀ sub ∈ w.settings.subs, w.settings.registrations.filter (fun argument => argument.address = sub.address) =
    [⟨sub.object,sub.address,sub.key⟩]
  registered : ∀ argument ∈ w.settings.registrations, ∃ feature, w.own feature argument.key ≠ none
  live : ∀ sub ∈ w.settings.subs, w.settings.live sub.feature sub.cid = true
  ended : w.settings.destroyed = true → w.settings.subs = []

variable {w}

variable {sub : SettingsSub ι}

omit [DecidableEq ι] in
theorem Sync.find_at (h : w.Sync) (hsub : sub ∈ w.settings.subs) :
    w.settings.subs.find? (fun other => other.address = sub.address) = some sub := by
  cases hfind : w.settings.subs.find? (fun other => other.address = sub.address) with
  | none => exact absurd (List.find?_eq_none.mp hfind sub hsub) (by simp)
  | some found =>
    have hfound : found.address = sub.address := by simpa using List.find?_some hfind
    rw [List.inj_on_of_nodup_map h.addresses (List.mem_of_find?_eq_some hfind) hsub hfound]

variable {feature : ι} {key : CString} {cid : ℤ}

omit [DecidableEq ι] in
theorem Sync.registered_iff (h : w.Sync) (key : CString) :
    (∃ argument ∈ w.settings.registrations, argument.key = key) ↔ ∃ feature, w.own feature key ≠ none := by
  constructor
  · rintro ⟨argument,hargument,rfl⟩
    exact h.registered argument hargument
  · rintro ⟨feature,hown⟩
    obtain ⟨cid,hcid⟩ := Option.ne_none_iff_exists'.mp hown
    obtain ⟨sub,hsub,-,rfl,-⟩ := h.ownSubs feature key cid hcid
    have hplace := h.place sub hsub
    refine ⟨⟨sub.object,sub.address,sub.key⟩,?_,rfl⟩
    exact (List.mem_filter.mp (hplace ▸ List.mem_singleton.mpr rfl)).1

omit [DecidableEq ι] in
theorem Sync.congr (h : w.Sync) {settings : SystemSettings ι} (hsubs : settings.subs = w.settings.subs)
    (hregistrations : settings.registrations = w.settings.registrations) (hlive : settings.live = w.settings.live)
    (hdestroyed : settings.destroyed = w.settings.destroyed) : Sync ⟨settings,w.own⟩ := by
  constructor
  · simpa only [hsubs] using h.subsOwn
  · simpa only [hsubs] using h.ownSubs
  · simpa only [hsubs] using h.one
  · simpa only [hsubs] using h.addresses
  · simpa only [hsubs,hregistrations] using h.place
  · simpa only [hregistrations] using h.registered
  · simpa only [hsubs,hlive] using h.live
  · simpa only [hsubs,hdestroyed] using h.ended

omit [DecidableEq ι] in
theorem Sync.frame (h : w.Sync) {settings : SystemSettings ι} (hframe : w.settings.Frame settings) :
    Sync ⟨settings,w.own⟩ := h.congr hframe.subs hframe.registrations hframe.live hframe.destroyed

theorem Sync.findSub_eq (h : w.Sync) (hsub : sub ∈ w.settings.subs) :
    w.settings.findSub sub.feature sub.key = some sub := by
  simp only [findSub]
  cases hfind : w.settings.subs.find? (fun other => other.key = sub.key ∧ other.feature = sub.feature) with
  | none => exact absurd (List.find?_eq_none.mp hfind sub hsub) (by simp)
  | some found =>
    have hfound : found.key = sub.key ∧ found.feature = sub.feature := by simpa using List.find?_some hfind
    rw [List.inj_on_of_nodup_map h.one (List.mem_of_find?_eq_some hfind) hsub (by rw [hfound.1,hfound.2])]

theorem Sync.findSub_none (h : w.Sync) (hown : w.own feature key = none) : w.settings.findSub feature key = none := by
  apply List.find?_eq_none.mpr
  intro sub hsub hsame
  have hboth : sub.key = key ∧ sub.feature = feature := by simpa using hsame
  have hsome := h.subsOwn sub hsub
  rw [hboth.1,hboth.2,hown] at hsome
  cases hsome

theorem Sync.update (h : w.Sync) (hsub : sub ∈ w.settings.subs) (hpositive : 0 < cid)
    (hother : cid ≠ sub.cid) (hunused : ∀ key, key ≠ sub.key → w.own sub.feature key ≠ some sub.cid) :
    Sync ⟨{ w.settings with
      live := remove (register w.settings.live sub.feature cid) sub.feature sub.cid
      subs := w.settings.subs.map (fun other =>
        if other.key = sub.key ∧ other.feature = sub.feature then { other with cid := cid } else other) },
      claim w.own sub.feature sub.key (some cid)⟩ := by
  have hkeep : ∀ {α : Type} (f : SettingsSub ι → α), (∀ other : SettingsSub ι, f { other with cid := cid } = f other) →
      (w.settings.subs.map (fun other =>
        if other.key = sub.key ∧ other.feature = sub.feature then { other with cid := cid } else other)).map f =
      w.settings.subs.map f := by
    intro α f hf
    rw [List.map_map]
    apply List.map_congr_left
    intro other _
    simp only [Function.comp_apply]
    split_ifs
    · exact hf other
    · rfl
  have hone := h.one
  have haddresses := h.addresses
  rw [← hkeep (fun other => (other.feature,other.key)) (fun _ => rfl)] at hone
  rw [← hkeep SettingsSub.address (fun _ => rfl)] at haddresses
  refine ⟨fun other hmem => ?_,fun feature key id hown => ?_,hone,haddresses,fun other hmem => ?_,
    fun argument hargument => ?_,fun other hmem => ?_,fun hdestroyed => ?_⟩
  · obtain ⟨old,hold,rfl⟩ := List.mem_map.mp hmem
    simp only [claim_eq]
    by_cases hsame : old.key = sub.key ∧ old.feature = sub.feature
    · simp [hsame]
    · have hsame' : ¬ (old.feature = sub.feature ∧ old.key = sub.key) := fun hboth => hsame hboth.symm
      simp only [hsame,hsame',if_false]
      exact h.subsOwn old hold
  · simp only [claim_eq] at hown
    split_ifs at hown with hsame
    · refine ⟨{ sub with cid := cid },List.mem_map.mpr ⟨sub,hsub,by simp⟩,hsame.1.symm,hsame.2.symm,
        Option.some.inj hown⟩
    · obtain ⟨old,hold,rfl,rfl,rfl⟩ := h.ownSubs feature key id hown
      refine ⟨old,List.mem_map.mpr ⟨old,hold,?_⟩,rfl,rfl,rfl⟩
      rw [if_neg (fun hboth => hsame hboth.symm)]
  · obtain ⟨old,hold,rfl⟩ := List.mem_map.mp hmem
    by_cases hsame : old.key = sub.key ∧ old.feature = sub.feature
    · simp only [hsame,and_self,if_true]
      rw [← hsame.1]
      exact h.place old hold
    · simp only [hsame,if_false]
      exact h.place old hold
  · obtain ⟨feature,hown⟩ := h.registered argument hargument
    refine ⟨feature,?_⟩
    simp only [claim_eq]
    split_ifs
    · simp
    · exact hown
  · obtain ⟨old,hold,rfl⟩ := List.mem_map.mp hmem
    simp only [remove_iff,register_iff]
    by_cases hsame : old.key = sub.key ∧ old.feature = sub.feature
    · simp only [hsame,and_self,if_true]
      exact ⟨.inr ⟨trivial,trivial,hpositive⟩,fun hremoved => hother hremoved.2⟩
    · simp only [hsame,if_false]
      refine ⟨.inl (h.live old hold),fun hremoved => ?_⟩
      have hown := h.subsOwn old hold
      rw [hremoved.1,hremoved.2] at hown
      exact hunused old.key (fun hkey => hsame ⟨hkey,hremoved.1⟩) hown
  · have hnone := h.ended hdestroyed
    rw [hnone] at hsub
    cases hsub

theorem Sync.add (h : w.Sync) {address : ℕ} (hpositive : 0 < cid)
    (hthere : w.settings.destroyed = false) (hown : w.own feature key = none)
    (hfree : w.settings.inUse address = false)
    (hplace : ∀ argument ∈ w.settings.registrations, argument.address ≠ address) :
    Sync ⟨{ w.settings with
      live := register w.settings.live feature cid
      nextObject := w.settings.nextObject + 1
      subs := w.settings.subs ++ [⟨w.settings.nextObject,address,feature,key,cid⟩]
      registrations := w.settings.registrations ++ [⟨w.settings.nextObject,address,key⟩] },
      claim w.own feature key (some cid)⟩ := by
  have haddress : ∀ sub ∈ w.settings.subs, sub.address ≠ address := by
    simp only [inUse,Bool.or_eq_false_iff,List.any_eq_false] at hfree
    intro sub hsub
    simpa using hfree.2 sub hsub
  have hother : ∀ sub ∈ w.settings.subs, ¬ (sub.feature = feature ∧ sub.key = key) := by
    rintro sub hsub ⟨rfl,rfl⟩
    rw [h.subsOwn sub hsub] at hown
    cases hown
  refine ⟨fun sub hmem => ?_,fun other key' id hother' => ?_,?_,?_,fun sub hmem => ?_,fun argument hargument => ?_,
    fun sub hmem => ?_,fun hdestroyed => ?_⟩
  · simp only [claim_eq]
    obtain hold | hnew := List.mem_append.mp hmem
    · rw [if_neg (hother sub hold)]
      exact h.subsOwn sub hold
    · rw [List.mem_singleton.mp hnew]
      simp
  · simp only [claim_eq] at hother'
    split_ifs at hother' with hsame
    · exact ⟨_,List.mem_append_right _ (List.mem_singleton.mpr rfl),hsame.1.symm,hsame.2.symm,Option.some.inj hother'⟩
    · obtain ⟨sub,hsub,hrest⟩ := h.ownSubs other key' id hother'
      exact ⟨sub,List.mem_append_left _ hsub,hrest⟩
  · rw [List.map_append,List.map_singleton,← List.concat_eq_append]
    apply h.one.concat
    intro hmem
    obtain ⟨sub,hsub,hsame⟩ := List.mem_map.mp hmem
    exact hother sub hsub (Prod.mk.inj hsame)
  · rw [List.map_append,List.map_singleton,← List.concat_eq_append]
    apply h.addresses.concat
    intro hmem
    obtain ⟨sub,hsub,hsame⟩ := List.mem_map.mp hmem
    exact haddress sub hsub hsame
  · obtain hold | hnew := List.mem_append.mp hmem
    · have hne : ¬ address = sub.address := fun hsame => haddress sub hold hsame.symm
      rw [List.filter_append,h.place sub hold]
      simp [hne]
    · rw [List.mem_singleton.mp hnew,List.filter_append]
      have hnone : w.settings.registrations.filter (fun argument => argument.address = address) = [] := by
        apply List.filter_eq_nil_iff.mpr
        intro argument hargument
        simpa using hplace argument hargument
      simp [hnone]
  · obtain hold | hnew := List.mem_append.mp hargument
    · obtain ⟨other,hsome⟩ := h.registered argument hold
      refine ⟨other,?_⟩
      simp only [claim_eq]
      split_ifs
      · simp
      · exact hsome
    · refine ⟨feature,?_⟩
      rw [List.mem_singleton.mp hnew]
      simp [claim_eq]
  · obtain hold | hnew := List.mem_append.mp hmem
    · exact (register_iff ..).mpr (.inl (h.live sub hold))
    · rw [List.mem_singleton.mp hnew]
      exact (register_iff ..).mpr (.inr ⟨rfl,rfl,hpositive⟩)
  · rw [hthere] at hdestroyed
    cases hdestroyed

omit [DecidableEq ι] in
theorem Sync.settle {settings : SystemSettings ι} {own : ι → CString → Option ℤ} (h : Sync ⟨settings,own⟩) (feature : ι)
    (outcome : SettingsOutcome) : Sync ⟨settings.settle feature outcome,own⟩ :=
  h.frame (frame_settle settings feature outcome)

omit [DecidableEq ι] in
theorem Sync.relive (h : w.Sync) {live : ι → ℤ → Bool}
    (hlive : ∀ sub ∈ w.settings.subs, live sub.feature sub.cid = true) :
    Sync ⟨{ w.settings with live := live },w.own⟩ :=
  ⟨h.subsOwn,h.ownSubs,h.one,h.addresses,h.place,h.registered,hlive,h.ended⟩

theorem Sync.subscribe (h : w.Sync) {address : ℕ} {accepted : Bool}
    (hthere : w.settings.destroyed = false) (hfree : w.settings.inUse address = false)
    (hmeets : w.SubscribeMeets feature key cid address accepted) :
    Sync ⟨subscribeProp { w.settings with live := register w.settings.live feature cid } feature (some key) cid address
        accepted,
      if accepted ∨ w.own feature key ≠ none then claim w.own feature key (some cid) else w.own⟩ := by
  simp only [SubscribeMeets] at hmeets
  cases hown : w.own feature key with
  | some old =>
    rw [hown] at hmeets
    obtain ⟨sub,hsub,rfl,rfl,rfl⟩ := h.ownSubs feature key old hown
    have hfind : findSub { w.settings with
        live := register w.settings.live sub.feature cid
        nextPid := w.settings.nextPid + 1 } sub.feature sub.key = some sub := h.findSub_eq hsub
    have hupdated := h.update hsub hmeets.1 hmeets.2.1 hmeets.2.2
    simp only [subscribeProp,hfind,ne_eq,reduceCtorEq,not_false_eq_true,or_true,if_true]
    apply Sync.settle
    exact hupdated.congr rfl rfl rfl rfl
  | none =>
    rw [hown] at hmeets
    have hfind : findSub { w.settings with
        live := register w.settings.live feature cid
        nextPid := w.settings.nextPid + 1 } feature key = none := h.findSub_none hown
    simp only [subscribeProp,hfind,ne_eq,not_true_eq_false,or_false]
    cases accepted with
    | true =>
      have hadded := h.add hmeets.1 hthere hown hfree hmeets.2.1
      simp only [if_true]
      apply Sync.settle
      exact hadded.congr rfl rfl rfl rfl
    | false =>
      have hunused : ∀ sub ∈ w.settings.subs,
          remove (register w.settings.live feature cid) feature cid sub.feature sub.cid = true := by
        intro sub hsub
        simp only [remove_iff,register_iff]
        refine ⟨.inl (h.live sub hsub),fun hremoved => ?_⟩
        have hsome := h.subsOwn sub hsub
        rw [hremoved.1,hremoved.2] at hsome
        exact hmeets sub.key hsome
      simp only [Bool.false_eq_true,if_false]
      apply Sync.settle
      exact (h.relive hunused).congr rfl rfl rfl rfl

theorem Sync.unsubscribe (h : w.Sync) (hothers : ∀ other, other ≠ feature → w.own other key = none)
    (hunused : ∀ cid, w.own feature key = some cid → ∀ other, other ≠ key → w.own feature other ≠ some cid) :
    Sync ⟨w.settings.unsubscribeProp feature key true,claim w.own feature key none⟩ := by
  have hkept : ∀ sub ∈ w.settings.subs, ¬ (sub.key = key ∧ sub.feature = feature) → sub.key ≠ key := by
    intro sub hsub hnot hkey
    have hsome := h.subsOwn sub hsub
    rw [hkey,hothers sub.feature (fun hfeature => hnot ⟨hkey,hfeature⟩)] at hsome
    cases hsome
  have hmem : ∀ {sub : SettingsSub ι}, sub ∈ w.settings.subs.filter (fun sub =>
      !decide (sub.key = key ∧ sub.feature = feature)) → sub ∈ w.settings.subs ∧ sub.key ≠ key := by
    intro sub hsub
    obtain ⟨hold,hnot⟩ := List.mem_filter.mp hsub
    exact ⟨hold,hkept sub hold (fun hboth => by simp [hboth] at hnot)⟩
  have hsublist := List.filter_sublist (p := fun sub : SettingsSub ι => !decide (sub.key = key ∧ sub.feature = feature))
    (l := w.settings.subs)
  simp only [unsubscribeProp,if_true,dropSubs]
  refine ⟨fun sub hsub => ?_,fun other key' id hown => ?_,h.one.sublist (hsublist.map _),
    h.addresses.sublist (hsublist.map _),fun sub hsub => ?_,fun argument hargument => ?_,fun sub hsub => ?_,
    fun hdestroyed => ?_⟩
  · obtain ⟨hold,hkey⟩ := hmem hsub
    simp only [claim_eq,hkey,and_false,if_false]
    exact h.subsOwn sub hold
  · simp only [claim_eq] at hown
    split_ifs at hown with hsame
    obtain ⟨sub,hsub,rfl,rfl,rfl⟩ := h.ownSubs other key' id hown
    refine ⟨sub,List.mem_filter.mpr ⟨hsub,?_⟩,rfl,rfl,rfl⟩
    rw [decide_eq_false (fun hboth => hsame hboth.symm)]
    rfl
  · obtain ⟨hold,hkey⟩ := hmem hsub
    simp only [List.filter_filter]
    have hplace := h.place sub hold
    have hcomm : w.settings.registrations.filter (fun argument =>
        decide (argument.address = sub.address) && decide (argument.key ≠ key)) =
        (w.settings.registrations.filter (fun argument => argument.address = sub.address)).filter
          (fun argument => argument.key ≠ key) := by
      rw [List.filter_filter]
      apply List.filter_congr
      intro argument _
      exact Bool.and_comm _ _
    rw [hcomm,hplace]
    simp [hkey]
  · obtain ⟨hold,hkey⟩ := List.mem_filter.mp hargument
    have hkey' : argument.key ≠ key := by simpa using hkey
    obtain ⟨other,hsome⟩ := h.registered argument hold
    refine ⟨other,?_⟩
    simp only [claim_eq,hkey',and_false,if_false]
    exact hsome
  · obtain ⟨hold,hkey⟩ := hmem hsub
    simp only [h.live sub hold,Bool.true_and,Bool.not_eq_true',List.any_eq_false]
    intro given hgiven
    obtain ⟨hgivenMem,hgivenSame⟩ := List.mem_filter.mp hgiven
    have hboth : given.key = key ∧ given.feature = feature := by simpa using hgivenSame
    simp only [decide_eq_true_eq]
    rintro ⟨hfeature,hcid⟩
    have hgivenOwn := h.subsOwn given hgivenMem
    have hsubOwn := h.subsOwn sub hold
    rw [hboth.1,hboth.2] at hgivenOwn
    rw [← hfeature,hboth.2,← hcid] at hsubOwn
    exact hunused given.cid hgivenOwn sub.key hkey hsubOwn
  · simp only [h.ended hdestroyed,List.filter_nil]

theorem Sync.detach (h : w.Sync)
    (hothers : ∀ key, w.own feature key ≠ none → ∃ other, other ≠ feature ∧ w.own other key ≠ none) :
    Sync ⟨w.settings.detach feature,Function.update w.own feature (fun _ => none)⟩ := by
  have hmem : ∀ {sub : SettingsSub ι}, sub ∈ w.settings.subs.filter (fun sub => !decide (sub.feature = feature)) →
      sub ∈ w.settings.subs ∧ sub.feature ≠ feature := by
    intro sub hsub
    obtain ⟨hold,hnot⟩ := List.mem_filter.mp hsub
    exact ⟨hold,by simpa using hnot⟩
  have hsublist := List.filter_sublist (p := fun sub : SettingsSub ι => !decide (sub.feature = feature))
    (l := w.settings.subs)
  simp only [SystemSettings.detach,dropSubs]
  refine ⟨fun sub hsub => ?_,fun other key id hown => ?_,h.one.sublist (hsublist.map _),
    h.addresses.sublist (hsublist.map _),fun sub hsub => h.place sub (hmem hsub).1,fun argument hargument => ?_,
    fun sub hsub => ?_,fun hdestroyed => ?_⟩
  · obtain ⟨hold,hne⟩ := hmem hsub
    simp only [Function.update_of_ne hne]
    exact h.subsOwn sub hold
  · by_cases hsame : other = feature
    · subst hsame
      simp at hown
    · simp only [Function.update_of_ne hsame] at hown
      obtain ⟨sub,hsub,rfl,rfl,rfl⟩ := h.ownSubs other key id hown
      exact ⟨sub,List.mem_filter.mpr ⟨hsub,by simpa using hsame⟩,rfl,rfl,rfl⟩
  · obtain ⟨other,hsome⟩ := h.registered argument hargument
    by_cases hsame : other = feature
    · subst hsame
      obtain ⟨another,hne,hown⟩ := hothers argument.key hsome
      exact ⟨another,by simpa [Function.update_of_ne hne] using hown⟩
    · exact ⟨other,by simpa [Function.update_of_ne hsame] using hsome⟩
  · obtain ⟨hold,hne⟩ := hmem hsub
    simp only [h.live sub hold,Bool.true_and,hne,decide_false,Bool.not_false,Bool.and_true,Bool.not_eq_true',
      List.any_eq_false]
    intro given hgiven
    obtain ⟨-,hgivenSame⟩ := List.mem_filter.mp hgiven
    have hfeature : given.feature = feature := by simpa using hgivenSame
    simp only [decide_eq_true_eq]
    rintro ⟨hsame,-⟩
    exact hne (hsame.symm.trans hfeature)
  · simp only [h.ended hdestroyed,List.filter_nil]

theorem Sync.destroy (hsubs : w.settings.destroy.subs = []) : Sync ⟨w.settings.destroy,fun _ _ => none⟩ := by
  refine ⟨?_,nofun,?_,?_,?_,nofun,?_,fun _ => hsubs⟩
  · simp only [hsubs]
    exact nofun
  · simp only [hsubs]
    exact List.nodup_nil
  · simp only [hsubs]
    exact List.nodup_nil
  · simp only [hsubs]
    exact nofun
  · simp only [hsubs]
    exact nofun

theorem destroy_subs (s : SystemSettings ι) : s.destroy.subs = [] := by
  have hall : ∀ (features : List ι) (t : SystemSettings ι), ∀ sub ∈ (features.foldl (fun s feature => s.detach feature) t).subs,
      sub ∈ t.subs ∧ sub.feature ∉ features := by
    intro features
    induction features with
    | nil => exact fun t sub hsub => ⟨hsub,by simp⟩
    | cons feature features ih =>
      intro t sub hsub
      obtain ⟨hmem,hothers⟩ := ih (t.detach feature) sub hsub
      obtain ⟨hold,hother⟩ := List.mem_filter.mp hmem
      have hne : sub.feature ≠ feature := by simpa using hother
      exact ⟨hold,by simp [hne,hothers]⟩
  apply List.eq_nil_iff_forall_not_mem.mpr
  intro sub hsub
  obtain ⟨hold,hnot⟩ := hall _ s sub hsub
  exact hnot (List.mem_append_right _ (List.mem_map.mpr ⟨sub,hold,rfl⟩))

/-- Every operation that meets its condition keeps the settings and the subscriptions by own calls in agreement. -/
theorem Sync.step (h : w.Sync) (op : SettingsOp ι) (hmeets : w.Meets op) : (w.step op).Sync := by
  cases op with
  | getProp feature key address accepted =>
    simp only [SettingsSubscriptions.step,SystemSettings.step,ownAfter]
    split_ifs
    · exact h
    · exact h.frame (frame_getProp w.settings feature key address accepted)
  | setProp feature key value address accepted =>
    simp only [SettingsSubscriptions.step,SystemSettings.step,ownAfter]
    split_ifs
    · exact h
    · exact h.frame (frame_setProp w.settings feature key value address accepted)
  | subscribeProp feature key cid address accepted =>
    cases key with
    | none =>
      simp only [SettingsSubscriptions.step,SystemSettings.step,ownAfter]
      split_ifs with hunheard
      · exact h
      · have hlive : ∀ sub ∈ w.settings.subs, register w.settings.live feature cid sub.feature sub.cid = true :=
          fun sub hsub => (register_iff ..).mpr (.inl (h.live sub hsub))
        apply Sync.settle
        exact (h.relive hlive).congr rfl rfl rfl rfl
    | some key =>
      simp only [SettingsSubscriptions.step,SystemSettings.step,ownAfter]
      by_cases hunheard : w.settings.detached feature = true ∨ w.settings.destroyed = true ∨ w.settings.inUse address = true
      · simp only [hunheard,if_true]
        exact h
      · simp only [hunheard,if_false]
        simp only [not_or,Bool.not_eq_true] at hunheard
        obtain ⟨hattached,hthere,hfree⟩ := hunheard
        exact h.subscribe hthere hfree (hmeets hattached hthere hfree)
  | unsubscribeProp feature key accepted =>
    simp only [SettingsSubscriptions.step,SystemSettings.step,ownAfter]
    by_cases hunheard : w.settings.detached feature = true ∨ w.settings.destroyed = true
    · simp only [hunheard,if_true,← or_assoc,true_or]
      exact h
    · simp only [hunheard,if_false,← or_assoc,false_or]
      simp only [not_or,Bool.not_eq_true] at hunheard
      cases accepted with
      | false => exact h
      | true =>
        obtain ⟨hothers,hunused⟩ := hmeets hunheard.1 hunheard.2 rfl
        exact h.unsubscribe hothers hunused
  | reply argument status value =>
    simp only [SettingsSubscriptions.step,SystemSettings.step,ownAfter]
    split_ifs
    · exact h.congr rfl rfl rfl rfl
    · exact h
  | change key status value =>
    obtain ⟨messages,nextMessage,hstate,-⟩ := foldl_callback_eq
      (w.settings.registrations.filter (fun argument => argument.key = key)) status value w.settings
    simp only [SettingsSubscriptions.step,SystemSettings.step,ownAfter,SystemSettings.change,hstate]
    exact h.congr rfl rfl rfl rfl
  | processMessages =>
    simp only [SettingsSubscriptions.step,SystemSettings.step,ownAfter]
    split_ifs
    · exact h
    · exact h.congr rfl rfl rfl rfl
  | next =>
    obtain ⟨hsubs,hregistrations,hlive,hdestroyed,-⟩ := next_frame w.settings
    exact h.congr hsubs hregistrations hlive hdestroyed
  | detach feature =>
    simp only [SettingsSubscriptions.step,SystemSettings.step,ownAfter]
    by_cases hunheard : w.settings.detached feature = true ∨ w.settings.destroyed = true
    · simp only [hunheard,if_true]
      exact h
    · simp only [hunheard,if_false]
      simp only [not_or,Bool.not_eq_true] at hunheard
      exact h.detach (hmeets hunheard.1 hunheard.2)
  | destroy =>
    simp only [SettingsSubscriptions.step,SystemSettings.step,ownAfter]
    split_ifs
    · exact h
    · exact Sync.destroy (destroy_subs w.settings)
  | asyncClosed =>
    simp only [SettingsSubscriptions.step,SystemSettings.step,ownAfter]
    split_ifs with hopen
    · exact h.congr (h.ended hopen.1).symm rfl rfl rfl
    · exact h

def init : SettingsSubscriptions ι := ⟨onCreate,fun _ _ => none⟩

omit [DecidableEq ι] in
theorem Sync.init : (init : SettingsSubscriptions ι).Sync := by
  constructor <;> simp [SettingsSubscriptions.init,onCreate]

variable {op : SettingsOp ι}

/-- A subscription is at the place where it was, or at a new one, for a key to which its instance had none. -/
def Follows (w : SettingsSubscriptions ι) (settings : SystemSettings ι) : Prop :=
  ∀ sub' ∈ settings.subs, (∃ sub ∈ w.settings.subs, sub.feature = sub'.feature ∧ sub.key = sub'.key ∧
    sub.address = sub'.address) ∨
      w.own sub'.feature sub'.key = none ∧ ∀ message ∈ w.settings.pending, message.argument.address ≠ sub'.address

omit [DecidableEq ι] in
theorem Follows.of_subs {settings : SystemSettings ι} (h : ∀ sub ∈ settings.subs, sub ∈ w.settings.subs) :
    w.Follows settings := fun sub hsub => .inl ⟨sub,h sub hsub,rfl,rfl,rfl⟩

theorem subscribe_follows {address : ℕ} {accepted : Bool} (hmeets : w.SubscribeMeets feature key cid address accepted)
    (h : w.Sync) (live : ι → ℤ → Bool) :
    w.Follows (subscribeProp { w.settings with live := live } feature (some key) cid address accepted) := by
  intro sub' hsub'
  simp only [subscribeProp] at hsub'
  split at hsub'
  · rw [(frame_settle _ _ _).subs] at hsub'
    obtain ⟨sub,hsub,rfl⟩ := List.mem_map.mp hsub'
    refine .inl ⟨sub,hsub,?_⟩
    split_ifs
    · exact ⟨rfl,rfl,rfl⟩
    · exact ⟨rfl,rfl,rfl⟩
  · rename_i hnone
    have hown : w.own feature key = none := by
      by_contra hsome
      obtain ⟨old,hold⟩ := Option.ne_none_iff_exists'.mp hsome
      obtain ⟨sub,hsub,rfl,rfl,-⟩ := h.ownSubs feature key old hold
      exact List.find?_eq_none.mp hnone sub hsub (by simp)
    split_ifs at hsub' with haccepted
    · rw [(frame_settle _ _ _).subs] at hsub'
      rcases List.mem_append.mp hsub' with hold | hnew
      · exact .inl ⟨sub',hold,rfl,rfl,rfl⟩
      · rw [List.mem_singleton.mp hnew]
        rw [SubscribeMeets,hown] at hmeets
        dsimp only at hmeets
        rw [if_pos haccepted] at hmeets
        exact .inr ⟨hown,hmeets.2.2⟩
    · rw [reject,(frame_settle _ _ _).subs] at hsub'
      exact .inl ⟨sub',hsub',rfl,rfl,rfl⟩

theorem step_follows (h : w.Sync) (hmeets : w.Meets op) : w.Follows (w.settings.step op) := by
  have hsame : w.Follows w.settings := Follows.of_subs (fun _ hsub => hsub)
  have hframe : ∀ settings, w.settings.Frame settings → w.Follows settings :=
    fun settings hframe => Follows.of_subs (fun _ hsub => hframe.subs ▸ hsub)
  cases op with
  | getProp feature key address accepted =>
    rw [SystemSettings.step]
    split_ifs
    · exact hsame
    · exact hframe _ (frame_getProp w.settings feature key address accepted)
  | setProp feature key value address accepted =>
    rw [SystemSettings.step]
    split_ifs
    · exact hsame
    · exact hframe _ (frame_setProp w.settings feature key value address accepted)
  | subscribeProp feature key cid address accepted =>
    rw [SystemSettings.step]
    split_ifs with hunheard
    · exact hsame
    · simp only [not_or,Bool.not_eq_true] at hunheard
      cases key with
      | none =>
        refine Follows.of_subs (fun sub hsub => ?_)
        rw [subscribeProp,reject,(frame_settle _ _ _).subs] at hsub
        exact hsub
      | some key => exact subscribe_follows (hmeets hunheard.1 hunheard.2.1 hunheard.2.2) h _
  | unsubscribeProp feature key accepted =>
    rw [SystemSettings.step,unsubscribeProp]
    split_ifs
    · exact hsame
    · exact Follows.of_subs (fun _ hsub => (List.mem_filter.mp hsub).1)
    · exact hsame
  | reply argument status value =>
    rw [SystemSettings.step]
    split_ifs
    · exact hsame
    · exact hsame
  | change key status value =>
    obtain ⟨messages,nextMessage,hstate,-⟩ := foldl_callback_eq
      (w.settings.registrations.filter (fun argument => argument.key = key)) status value w.settings
    rw [SystemSettings.step,SystemSettings.change,hstate]
    exact hsame
  | processMessages =>
    rw [SystemSettings.step]
    split_ifs
    · exact hsame
    · exact hsame
  | next => exact Follows.of_subs (fun _ hsub => (next_frame w.settings).1 ▸ hsub)
  | detach feature =>
    rw [SystemSettings.step]
    split_ifs
    · exact hsame
    · exact Follows.of_subs (fun _ hsub => (List.mem_filter.mp hsub).1)
  | destroy =>
    rw [SystemSettings.step]
    split_ifs
    · exact hsame
    · refine Follows.of_subs (fun sub hsub => ?_)
      rw [destroy_subs] at hsub
      cases hsub
  | asyncClosed =>
    rw [SystemSettings.step]
    split_ifs
    · exact Follows.of_subs (fun _ hsub => absurd hsub List.not_mem_nil)
    · exact hsame

/-- A message that is on its way to a subscription is for its key. -/
def Keyed (w : SettingsSubscriptions ι) : Prop :=
  ∀ message ∈ w.settings.pending, ∀ sub ∈ w.settings.subs, sub.address = message.argument.address →
    message.argument.key = sub.key

omit [DecidableEq ι] in
theorem Sync.find_eq (h : w.Sync) (hsub : sub ∈ w.settings.subs) {address : ℕ} (haddress : sub.address = address) :
    w.settings.subs.find? (fun other => other.address = address) = some sub := haddress ▸ h.find_at hsub

/-- What a message on its way will tell is, after an operation, what it would have told, of the keys that the instance is
still subscribed to. -/
theorem due_after (h : w.Sync) (hkeyed : w.Keyed) {w' : SettingsSubscriptions ι} (h' : w'.Sync)
    (hfollows : w.Follows w'.settings) {message : SettingsMessage} (hmessage : message ∈ w.settings.pending)
    (feature : ι) (told : Option ℕ) : w'.settings.due feature message.argument told =
      (w.settings.due feature message.argument told).filter (fun change => (w'.own feature change.1).isSome) := by
  cases told with
  | none => cases hfind : w.settings.subs.find? (fun sub => sub.address = message.argument.address) <;>
      cases hfind' : w'.settings.subs.find? (fun sub => sub.address = message.argument.address) <;>
        simp [SystemSettings.due,hfind,hfind']
  | some value =>
    cases hfind' : w'.settings.subs.find? (fun sub => sub.address = message.argument.address) with
    | some sub' =>
      have hsub' := List.mem_of_find?_eq_some hfind'
      have haddress' : sub'.address = message.argument.address := by simpa using List.find?_some hfind'
      rcases hfollows sub' hsub' with ⟨sub,hsub,hfeature,hkey,haddress⟩ | ⟨-,hnew⟩
      · have hown := h'.subsOwn sub' hsub'
        have hfind := h.find_eq hsub (haddress.trans haddress')
        have hmkey := hkeyed message hmessage sub hsub (haddress.trans haddress')
        simp only [SystemSettings.due,hfind,hfind',hfeature,hmkey,hkey,Option.bind_eq_bind,Option.bind_some]
        split_ifs with hsame
        · subst hsame
          simp [Option.filter_some,hown]
        · rfl
      · exact absurd haddress'.symm (hnew message hmessage)
    | none =>
      cases hfind : w.settings.subs.find? (fun sub => sub.address = message.argument.address) with
      | none => simp [SystemSettings.due,hfind,hfind']
      | some sub =>
        have hsub := List.mem_of_find?_eq_some hfind
        have haddress : sub.address = message.argument.address := by simpa using List.find?_some hfind
        have hmkey := hkeyed message hmessage sub hsub haddress
        -- the subscription is gone, and with it the key
        have hgone : w'.own sub.feature sub.key = none := by
          by_contra hsome
          obtain ⟨cid,hcid⟩ := Option.ne_none_iff_exists'.mp hsome
          obtain ⟨sub',hsub',hfeature,hkey,-⟩ := h'.ownSubs sub.feature sub.key cid hcid
          rcases hfollows sub' hsub' with ⟨old,hold,hfeature',hkey',haddress'⟩ | ⟨hnone,-⟩
          · have hsame : old = sub := List.inj_on_of_nodup_map h.one hold hsub
              (by rw [hfeature'.trans hfeature,hkey'.trans hkey])
            rw [h'.find_eq hsub' (haddress'.symm.trans (hsame ▸ haddress))] at hfind'
            cases hfind'
          · rw [hfeature,hkey,h.subsOwn sub hsub] at hnone
            cases hnone
        simp only [SystemSettings.due,hfind,hfind',hmkey,Option.bind_eq_bind,Option.bind_some,Option.bind_none]
        split_ifs with hsame
        · subst hsame
          simp [Option.filter_some,hgone]
        · rfl

omit [DecidableEq ι] in
theorem filterMap_filter_eq {α β : Type} {f : α → Option β} {p : α → Bool} {xs : List α}
    (h : ∀ a ∈ xs, f a ≠ none → p a = true) : xs.filterMap f = (xs.filter p).filterMap f := by
  induction xs with
  | nil => rfl
  | cons a xs ih =>
    have hrest := ih (fun b hb => h b (List.mem_cons_of_mem _ hb))
    cases hp : p a with
    | true => rw [List.filter_cons_of_pos hp,List.filterMap_cons,List.filterMap_cons,hrest]
    | false =>
      have hnone : f a = none := by
        by_contra hsome
        have htrue := h a List.mem_cons_self hsome
        rw [hp] at htrue
        cases htrue
      rw [List.filter_cons_of_neg (by simp [hp]),List.filterMap_cons_none hnone,hrest]

/-- A change is on its way to just the instances that are subscribed to the key, once. -/
theorem Sync.due_change (h : w.Sync) (feature : ι) (key : CString) (value : ℕ) :
    (w.settings.registrations.filter (fun argument => argument.key = key)).filterMap
      (fun argument => w.settings.due feature argument (some value)) =
        if w.own feature key = none then [] else [(key,value)] := by
  -- an argument that is due is that of a subscription of the instance to the key
  have hdue : ∀ argument ∈ w.settings.registrations.filter (fun argument => argument.key = key),
      w.settings.due feature argument (some value) ≠ none →
      ∃ sub ∈ w.settings.subs, sub.feature = feature ∧ sub.key = key ∧ argument.address = sub.address := by
    intro argument hargument hsome
    obtain ⟨hregistered,hkey⟩ := List.mem_filter.mp hargument
    cases hfind : w.settings.subs.find? (fun sub => sub.address = argument.address) with
    | none => simp [SystemSettings.due,hfind] at hsome
    | some sub =>
      have hsub := List.mem_of_find?_eq_some hfind
      have haddress : sub.address = argument.address := by simpa using List.find?_some hfind
      have hfeature : sub.feature = feature := by
        by_contra hne
        simp [SystemSettings.due,hfind,hne] at hsome
      have hplace : argument ∈ w.settings.registrations.filter (fun other => other.address = sub.address) :=
        List.mem_filter.mpr ⟨hregistered,by simp [haddress]⟩
      rw [h.place sub hsub,List.mem_singleton] at hplace
      refine ⟨sub,hsub,hfeature,?_,haddress.symm⟩
      rw [hplace] at hkey
      simpa using hkey
  cases hown : w.own feature key with
  | none =>
    rw [if_pos rfl,List.filterMap_eq_nil_iff]
    intro argument hargument
    by_contra hsome
    obtain ⟨sub,hsub,rfl,rfl,-⟩ := hdue argument hargument hsome
    rw [h.subsOwn sub hsub] at hown
    cases hown
  | some cid =>
    obtain ⟨sub,hsub,rfl,rfl,rfl⟩ := h.ownSubs feature key cid hown
    rw [if_neg (Option.some_ne_none _)]
    have honly : (w.settings.registrations.filter (fun argument => argument.key = sub.key)).filter
        (fun argument => argument.address = sub.address) = [⟨sub.object,sub.address,sub.key⟩] := by
      rw [List.filter_comm,h.place sub hsub]
      simp
    rw [filterMap_filter_eq (p := fun argument => decide (argument.address = sub.address)),honly]
    · simp [SystemSettings.due,h.find_at hsub]
    · intro argument hargument hsome
      obtain ⟨other,hother,hfeature,hkey,haddress⟩ := hdue argument hargument hsome
      have hsame : other = sub := List.inj_on_of_nodup_map h.one hother hsub (by rw [hfeature,hkey])
      simpa [hsame] using haddress

end SettingsSubscriptions

namespace SettingsWatch

open SystemSettings SettingsSubscriptions

variable {ι : Type} [DecidableEq ι] (w : SettingsWatch ι)

/-- A good change of a key concerns the instances that are subscribed to it. -/
def reportedTo (feature : ι) : SettingsOp ι → List (CString × ℕ)
  | .change key status value =>
    match (if status = 0 then value else none) with
    | some value => if w.own feature key = none then [] else [(key,value)]
    | none => []
  | _ => []

/-- What is owed to an instance after an operation: the changes of the keys that it is still subscribed to by its own calls,
and the new one. -/
def owedAfter (op : SettingsOp ι) (feature : ι) : List (CString × ℕ) :=
  (w.owed feature).filter (fun change => (w.ownAfter op feature change.1).isSome) ++ w.reportedTo feature op

/-- An instance is told a change. -/
def hear (w : SettingsWatch ι) (notice : SettingsNotice ι) : SettingsWatch ι :=
  match w.owed notice.feature with
  | [] => { w with wrong := true }
  | change :: rest =>
    if change = (notice.key,notice.value) ∧ w.own notice.feature notice.key = some notice.cid then
      { w with owed := Function.update w.owed notice.feature rest }
    else { w with wrong := true }

def step (w : SettingsWatch ι) (op : SettingsOp ι) : SettingsWatch ι :=
  ((w.settings.step op).notified.drop w.settings.notified.length).foldl hear
    ⟨w.toSettingsSubscriptions.step op,w.owedAfter op,w.wrong⟩

/-- Every instance is told the changes of just the keys that it is subscribed to by its own calls, each once, in their order
and with its callback, all of them when no message is on its way; and a key is registered just where an instance is
subscribed to it. -/
structure Isolated : Prop where
  told : w.wrong = false
  all : w.settings.queue = [] → w.settings.todo = [] → ∀ feature, w.owed feature = []
  registered : ∀ key, (∃ argument ∈ w.settings.registrations, argument.key = key) ↔
    ∃ feature, w.own feature key ≠ none

structure Watched : Prop where
  sync : w.Sync
  keyed : w.Keyed
  owed : ∀ feature, w.owed feature = w.settings.pending.filterMap (w.settings.dueOf feature)
  told : w.wrong = false

variable {w}

theorem Watched.isolated (h : w.Watched) : w.Isolated := by
  refine ⟨h.told,fun hqueue htodo feature => ?_,h.sync.registered_iff⟩
  rw [h.owed feature,pending,hqueue,htodo]
  rfl

/-- What the messages on their way will tell after an operation. -/
theorem Watched.due_after (h : w.Watched) {op : SettingsOp ι} (hmeets : w.Meets op) (feature : ι) :
    w.settings.pending.filterMap ((w.settings.step op).dueOf feature) =
      (w.owed feature).filter (fun change => (w.ownAfter op feature change.1).isSome) := by
  rw [h.owed feature,List.filter_filterMap]
  refine List.filterMap_congr (fun message hmessage => ?_)
  have hsync := h.sync.step op hmeets
  exact SettingsSubscriptions.due_after h.sync h.keyed hsync (step_follows h.sync hmeets) hmessage feature _

/-- An operation that tells nothing: the messages on their way are those from before and new ones. -/
theorem Watched.quiet (h : w.Watched) {op : SettingsOp ι} (hmeets : w.Meets op)
    (hnotified : (w.settings.step op).notified = w.settings.notified) (messages : List SettingsMessage)
    (hpending : (w.settings.step op).pending = w.settings.pending ++ messages)
    (hkeyed : ∀ message ∈ messages, ∀ sub ∈ (w.settings.step op).subs, sub.address = message.argument.address →
      message.argument.key = sub.key)
    (hreported : ∀ feature, messages.filterMap ((w.settings.step op).dueOf feature) = w.reportedTo feature op) :
    (w.step op).Watched := by
  have hstep : w.step op = ⟨w.toSettingsSubscriptions.step op,w.owedAfter op,w.wrong⟩ := by
    rw [step,hnotified,List.drop_length,List.foldl_nil]
  rw [hstep]
  refine ⟨h.sync.step op hmeets,fun message hmessage => ?_,fun feature => ?_,h.told⟩
  · change message ∈ (w.settings.step op).pending at hmessage
    rw [hpending] at hmessage
    rcases List.mem_append.mp hmessage with hold | hnew
    · intro sub hsub haddress
      rcases step_follows h.sync hmeets sub hsub with ⟨old,hold',-,hkey,hsame⟩ | ⟨-,hfresh⟩
      · exact (h.keyed message hold old hold' (hsame.trans haddress)).trans hkey
      · exact absurd haddress.symm (hfresh message hold)
    · exact hkeyed message hnew
  · change w.owedAfter op feature = (w.settings.step op).pending.filterMap ((w.settings.step op).dueOf feature)
    rw [hpending,List.filterMap_append,h.due_after hmeets,hreported,owedAfter]

theorem Watched.frame (h : w.Watched) {op : SettingsOp ι} (hmeets : w.Meets op)
    (hnotified : (w.settings.step op).notified = w.settings.notified)
    (hpending : (w.settings.step op).pending = w.settings.pending) (hreported : ∀ feature, w.reportedTo feature op = []) :
    (w.step op).Watched :=
  h.quiet hmeets hnotified [] (hpending.trans (List.append_nil _).symm) nofun (fun feature => (hreported feature).symm)

theorem Watched.change (h : w.Watched) (key : CString) (status : ℤ) (value : Option ℕ) :
    (w.step (.change key status value)).Watched := by
  obtain ⟨messages,nextMessage,hstate,hmap⟩ := foldl_callback_eq
    (w.settings.registrations.filter (fun argument => argument.key = key)) status value w.settings
  have hstep : w.settings.step (.change key status value) =
      { w.settings with queue := w.settings.queue ++ messages, nextMessage := nextMessage } := hstate
  refine h.quiet trivial (by rw [hstep]) messages ?_ (fun message hmessage sub hsub haddress => ?_)
    (fun feature => ?_)
  · rw [hstep,pending,pending,List.append_assoc]
  · rw [hstep] at hsub
    have hargument : message.argument ∈ w.settings.registrations := by
      have hmem : (message.argument,message.status,message.value) ∈
          (w.settings.registrations.filter (fun argument => argument.key = key)).map
            (fun argument => (argument,status,value)) := hmap ▸ List.mem_map_of_mem hmessage
      obtain ⟨argument,hmem',heq⟩ := List.mem_map.mp hmem
      obtain rfl : argument = message.argument := congrArg Prod.fst heq
      exact (List.mem_filter.mp hmem').1
    have hplace : message.argument ∈ w.settings.registrations.filter (fun argument => argument.address = sub.address) :=
      List.mem_filter.mpr ⟨hargument,decide_eq_true haddress.symm⟩
    rw [h.sync.place sub hsub,List.mem_singleton] at hplace
    rw [hplace]
  · have hdue : messages.filterMap ((w.settings.step (.change key status value)).dueOf feature) =
        (messages.map (fun message => (message.argument,message.status,message.value))).filterMap
          (fun told => w.settings.due feature told.1 (if told.2.1 = 0 then told.2.2 else none)) := by
      rw [List.filterMap_map,hstep]
      rfl
    rw [hdue,hmap,List.filterMap_map,reportedTo]
    cases htold : (if status = 0 then value else none) with
    | none =>
      refine List.filterMap_eq_nil_iff.mpr (fun argument _ => ?_)
      simp [Function.comp,htold,due]
    | some value =>
      refine Eq.trans ?_ (h.sync.due_change feature key value)
      refine List.filterMap_congr (fun argument _ => ?_)
      simp [Function.comp,htold]

/-- The loop goes on: the instance whose subscription a message finds is told just what it is owed next. -/
theorem Watched.next (h : w.Watched) : (w.step .next).Watched := by
  obtain ⟨hsubs,-,hlive,-,⟨hpending,hnotified⟩ | ⟨message,hpending,hnotified⟩⟩ := next_frame w.settings
  · exact h.frame trivial hnotified hpending (fun _ => rfl)
  have hsync : Sync ⟨w.settings.next,w.own⟩ := h.sync.step .next trivial
  have hkeyed : Keyed ⟨w.settings.next,w.own⟩ := by
    intro other hother
    change other ∈ w.settings.next.pending at hother
    rw [show (⟨w.settings.next,w.own⟩ : SettingsSubscriptions ι).settings.subs = w.settings.subs from hsubs]
    exact h.keyed other (hpending ▸ List.mem_cons_of_mem message hother)
  have hdue : ∀ feature, w.settings.next.dueOf feature = w.settings.dueOf feature := by
    intro feature
    funext other
    simp only [dueOf,due,hsubs]
  have howed : ∀ feature, w.owedAfter .next feature = (w.settings.dueOf feature message).toList ++
      w.settings.next.pending.filterMap (w.settings.next.dueOf feature) := by
    intro feature
    have hmeets : w.Meets .next := trivial
    have hafter := h.due_after hmeets feature
    change w.settings.pending.filterMap (w.settings.next.dueOf feature) = _ at hafter
    rw [hdue,hpending] at hafter
    rw [owedAfter,reportedTo,List.append_nil,hdue,← hafter,List.filterMap_cons]
    cases w.settings.dueOf feature message <;> rfl
    · exact fun _ _ => nofun
  have hstep : w.step .next = (w.settings.notice message).toList.foldl hear
      ⟨⟨w.settings.next,w.own⟩,w.owedAfter .next,w.wrong⟩ := by
    rw [step]
    change (w.settings.next.notified.drop _).foldl hear _ = _
    rw [hnotified,List.drop_left]
    rfl
  rw [hstep]
  have hmem : message ∈ w.settings.pending := hpending ▸ List.mem_cons_self
  have hsilent : w.settings.notice message = none → (∀ feature, w.settings.dueOf feature message = none) →
      Watched ((w.settings.notice message).toList.foldl hear ⟨⟨w.settings.next,w.own⟩,w.owedAfter .next,w.wrong⟩) := by
    intro hnotice hnone
    rw [hnotice]
    refine ⟨hsync,hkeyed,fun feature => ?_,h.told⟩
    exact (howed feature).trans (by rw [hnone feature]; rfl)
  cases hfind : w.settings.subs.find? (fun sub => sub.address = message.argument.address) with
  | none => exact hsilent (by rw [notice,hfind]; rfl) (fun feature => by rw [dueOf,due,hfind]; rfl)
  | some sub =>
    have hsub := List.mem_of_find?_eq_some hfind
    cases htold : (if message.status = 0 then message.value else none) with
    | none => exact hsilent (by rw [notice,hfind,htold]; rfl) (fun feature => by rw [dueOf,due,hfind,htold]; rfl)
    | some value =>
      have hkey := h.keyed message hmem sub hsub (by simpa using List.find?_some hfind)
      have hnotice : w.settings.notice message = some ⟨sub.feature,sub.cid,message.argument.key,value⟩ := by
        rw [notice,hfind,htold]
        exact if_pos (h.sync.live sub hsub)
      have hdueOf : ∀ feature, w.settings.dueOf feature message =
          if sub.feature = feature then some (message.argument.key,value) else none := by
        intro feature
        rw [dueOf,due,hfind,htold]
        rfl
      have hnow : w.owedAfter .next sub.feature = (message.argument.key,value) ::
          w.settings.next.pending.filterMap (w.settings.next.dueOf sub.feature) := by
        rw [howed,hdueOf,if_pos rfl]
        rfl
      have hown : w.own sub.feature message.argument.key = some sub.cid := by
        rw [hkey]
        exact h.sync.subsOwn sub hsub
      have hheard : hear ⟨⟨w.settings.next,w.own⟩,w.owedAfter .next,w.wrong⟩
          ⟨sub.feature,sub.cid,message.argument.key,value⟩ = ⟨⟨w.settings.next,w.own⟩,Function.update (w.owedAfter .next)
            sub.feature (w.settings.next.pending.filterMap (w.settings.next.dueOf sub.feature)),w.wrong⟩ := by
        simp [hear,hnow,hown]
      rw [hnotice,Option.toList_some,List.foldl_cons,List.foldl_nil,hheard]
      refine ⟨hsync,hkeyed,fun feature => ?_,h.told⟩
      by_cases hfeature : feature = sub.feature
      · subst hfeature
        exact Function.update_self ..
      · refine (Function.update_of_ne hfeature ..).trans ((howed feature).trans ?_)
        rw [hdueOf,if_neg (Ne.symm hfeature)]
        rfl

theorem Watched.step (h : w.Watched) (op : SettingsOp ι) (hmeets : w.Meets op) : (w.step op).Watched := by
  have hsame : w.settings.step op = w.settings → (∀ feature, w.reportedTo feature op = []) → (w.step op).Watched :=
    fun heq hreported => h.frame hmeets (congrArg notified heq) (congrArg pending heq) hreported
  have hframe : w.settings.Frame (w.settings.step op) → (∀ feature, w.reportedTo feature op = []) →
      (w.step op).Watched := by
    intro hframe hreported
    refine h.frame hmeets hframe.notified ?_ hreported
    rw [pending,pending,hframe.todo,hframe.queue]
  have hnothing : ∀ feature : ι, ([] : List (CString × ℕ)) = [] := fun _ => rfl
  cases op with
  | getProp feature key address accepted =>
    by_cases hunheard : w.settings.detached feature = true ∨ w.settings.destroyed = true ∨ w.settings.inUse address = true
    · exact hsame (by rw [SystemSettings.step,if_pos hunheard]) hnothing
    · refine hframe ?_ hnothing
      rw [SystemSettings.step,if_neg hunheard]
      exact frame_getProp w.settings feature key address accepted
  | setProp feature key value address accepted =>
    by_cases hunheard : w.settings.detached feature = true ∨ w.settings.destroyed = true ∨ w.settings.inUse address = true
    · exact hsame (by rw [SystemSettings.step,if_pos hunheard]) hnothing
    · refine hframe ?_ hnothing
      rw [SystemSettings.step,if_neg hunheard]
      exact frame_setProp w.settings feature key value address accepted
  | subscribeProp feature key cid address accepted =>
    by_cases hunheard : w.settings.detached feature = true ∨ w.settings.destroyed = true ∨ w.settings.inUse address = true
    · exact hsame (by rw [SystemSettings.step,if_pos hunheard]) hnothing
    · obtain ⟨htodo,hqueue,hnotified,-⟩ := subscribeProp_frame { w.settings with
        live := LiveCallbacks.register w.settings.live feature cid } feature key cid address accepted
      refine h.frame hmeets ?_ ?_ hnothing
      · rw [SystemSettings.step,if_neg hunheard]
        exact hnotified
      · rw [SystemSettings.step,if_neg hunheard,pending,pending,htodo,hqueue]
  | unsubscribeProp feature key accepted =>
    refine h.frame hmeets ?_ ?_ hnothing
    · rw [SystemSettings.step,unsubscribeProp]
      split_ifs <;> rfl
    · rw [SystemSettings.step,unsubscribeProp]
      split_ifs <;> rfl
  | reply argument status value =>
    by_cases hheld : argument ∈ w.settings.held
    · have hstep : w.settings.step (.reply argument status value) =
          w.settings.miwearSettingsCallback argument status value := by rw [SystemSettings.step,if_pos hheld]
      refine h.quiet hmeets (by rw [hstep]; rfl) [⟨w.settings.nextMessage,argument,status,value⟩] ?_
        (fun message hmessage sub hsub haddress => ?_) (fun feature => ?_)
      · rw [hstep,pending,pending,List.append_assoc]
        rfl
      · rw [List.mem_singleton.mp hmessage] at haddress
        rw [hstep] at hsub
        exact absurd haddress (hmeets sub hsub)
      · have hnone : w.settings.subs.find? (fun sub => sub.address = argument.address) = none :=
          List.find?_eq_none.mpr (fun sub hsub => by simpa using hmeets sub hsub)
        rw [hstep]
        simp [dueOf,due,miwearSettingsCallback,hnone,reportedTo]
    · exact hsame (by rw [SystemSettings.step,if_neg hheld]) hnothing
  | change key status value => exact h.change key status value
  | processMessages =>
    by_cases hunheard : w.settings.destroyed = true ∨ w.settings.todo.isEmpty = false
    · exact hsame (by rw [SystemSettings.step,if_pos hunheard]) hnothing
    · have hstep : w.settings.step .processMessages = w.settings.processMessages := by
        rw [SystemSettings.step,if_neg hunheard]
      refine h.frame hmeets (by rw [hstep]; rfl) ?_ hnothing
      simp only [not_or,Bool.not_eq_false,List.isEmpty_iff] at hunheard
      rw [hstep,pending,pending,processMessages,hunheard.2]
      simp [List.filterMap_flatMap,List.filterMap_cons,SettingsAct.message]
  | next => exact h.next
  | detach feature =>
    refine h.frame hmeets ?_ ?_ hnothing
    · rw [SystemSettings.step]
      split_ifs <;> rfl
    · rw [SystemSettings.step]
      split_ifs <;> rfl
  | destroy =>
    have hall : ∀ (features : List ι) (s : SystemSettings ι), let t := features.foldl (fun s feature => s.detach feature) s
        t.notified = s.notified ∧ t.pending = s.pending := by
      intro features
      induction features with
      | nil => exact fun s => ⟨rfl,rfl⟩
      | cons feature features ih => exact fun s => ih (s.detach feature)
    have hdestroy := hall (w.settings.requests.map SettingsRequest.feature ++ w.settings.subs.map SettingsSub.feature)
      w.settings
    refine h.frame hmeets ?_ ?_ hnothing
    · rw [SystemSettings.step]
      split_ifs
      · rfl
      · exact hdestroy.1
    · rw [SystemSettings.step]
      split_ifs
      · rfl
      · exact hdestroy.2
  | asyncClosed =>
    by_cases hopen : w.settings.destroyed = true ∧ w.settings.closed = false ∧ w.settings.todo.isEmpty = true
    · have hstep : w.settings.step .asyncClosed = w.settings.asyncClosed := by rw [SystemSettings.step,if_pos hopen]
      -- no subscription is left to which a message could be on its way
      have hnone : ∀ feature, w.owed feature = [] := by
        intro feature
        rw [h.owed feature]
        refine List.filterMap_eq_nil_iff.mpr (fun message _ => ?_)
        simp [dueOf,due,h.sync.ended hopen.1]
      have hwatch : w.step .asyncClosed = ⟨w.toSettingsSubscriptions.step .asyncClosed,w.owedAfter .asyncClosed,w.wrong⟩ := by
        rw [SettingsWatch.step,hstep]
        change (w.settings.notified.drop w.settings.notified.length).foldl hear _ = _
        rw [List.drop_length]
        rfl
      rw [hwatch]
      refine ⟨h.sync.step .asyncClosed trivial,?_,fun feature => ?_,h.told⟩
      · intro message _ sub hsub
        change sub ∈ (w.settings.step .asyncClosed).subs at hsub
        rw [hstep] at hsub
        cases hsub
      · change w.owedAfter .asyncClosed feature = (w.settings.step .asyncClosed).pending.filterMap _
        rw [owedAfter,hnone feature,hstep,pending]
        simp [asyncClosed,List.isEmpty_iff.mp hopen.2.2,reportedTo]
    · exact hsame (by rw [SystemSettings.step,if_neg hopen]) hnothing

omit [DecidableEq ι] in
def init : SettingsWatch ι := ⟨SettingsSubscriptions.init,fun _ => [],false⟩

theorem Watched.init : (init : SettingsWatch ι).Watched :=
  ⟨Sync.init,nofun,fun _ => rfl,rfl⟩

/-- In every run whose operations meet their conditions, whatever the order of the calls of all instances, every instance
is told the changes of just the keys that it has subscribed to by its own calls. -/
theorem subscribers_isolated_of_meets (ops : List (SettingsOp ι))
    (h : Transition.Guarded SettingsWatch.step (fun w op => w.Meets op) init ops) :
    Transition.Always SettingsWatch.step Isolated init ops :=
  (h.always (fun _ op hs hmeets => hs.step op hmeets) Watched.init).mono (fun _ hs => hs.isolated)

/-- Two instances with a key of their own and one that they share; a change of the shared key is on its way when one gives up
its own key, and the other one's callback asks for a setting; then the first is detached. -/
def sharedKey : List (SettingsOp ℕ) :=
  [.subscribeProp 0 (some ['a']) 1 100 true,.subscribeProp 1 (some ['a']) 1 200 true,
    .subscribeProp 0 (some ['b']) 2 300 true,.change ['a'] 0 (some 7),.unsubscribeProp 0 ['b'] true,.processMessages,
    .next,.next,.getProp 0 (some ['c']) 300 true,.next,.next,.next,.next,.detach 0]

def sharedOwn : ℕ → CString → Option ℤ :=
  claim (claim (claim (fun _ _ => none) 0 ['a'] (some 1)) 1 ['a'] (some 1)) 0 ['b'] (some 2)

theorem shared_key_isolated : Transition.Always SettingsWatch.step Isolated init sharedKey := by
  apply subscribers_isolated_of_meets sharedKey
  refine ⟨fun _ _ _ => ?_,fun _ _ _ => ?_,fun _ _ _ => ?_,trivial,fun _ _ _ => ?_,trivial,trivial,trivial,trivial,trivial,
    trivial,trivial,trivial,fun _ _ => ?_,trivial⟩
  · exact (show (0 : ℤ) < 1 ∧ (∀ argument ∈ ([] : List SettingsArgument), argument.address ≠ 100) ∧
      ∀ message ∈ ([] : List SettingsMessage), message.argument.address ≠ 100 by simp)
  · exact (show (0 : ℤ) < 1 ∧ (∀ argument ∈ [(⟨0,100,['a']⟩ : SettingsArgument)], argument.address ≠ 200) ∧
      ∀ message ∈ ([] : List SettingsMessage), message.argument.address ≠ 200 by simp)
  · exact (show (0 : ℤ) < 2 ∧ (∀ argument ∈ [(⟨0,100,['a']⟩ : SettingsArgument),⟨1,200,['a']⟩],
      argument.address ≠ 300) ∧ ∀ message ∈ ([] : List SettingsMessage), message.argument.address ≠ 300 by simp)
  · exact (show (∀ other, other ≠ 0 → sharedOwn other ['b'] = none) ∧
        ∀ cid, sharedOwn 0 ['b'] = some cid → ∀ other, other ≠ ['b'] → sharedOwn 0 other ≠ some cid by
      constructor
      · intro other hother
        simp [sharedOwn,claim_eq,hother]
      · intro cid hcid other hother
        obtain rfl : 2 = cid := by simpa [sharedOwn,claim_eq] using hcid
        simp [sharedOwn,claim_eq,hother])
  · exact (show ∀ key, claim sharedOwn 0 ['b'] none 0 key ≠ none →
        ∃ other, other ≠ 0 ∧ claim sharedOwn 0 ['b'] none other key ≠ none by
      intro key hkey
      have hshared : key = ['a'] := by
        by_contra hne
        simp [sharedOwn,claim_eq,hne] at hkey
      subst hshared
      exact ⟨1,by decide,by simp [sharedOwn,claim_eq]⟩)

/-- An instance that gives up a key takes it from another one as well: the next change does not reach it. -/
theorem foreign_key_dropped : ¬ ∀ ops : List (SettingsOp ℕ),
    Transition.Always SettingsWatch.step Isolated init ops := by
  intro h
  have hlast := (h [.subscribeProp 0 (some ['a']) 1 100 true,.subscribeProp 1 (some ['a']) 1 200 true,
    .unsubscribeProp 1 ['a'] true,.change ['a'] 0 (some 7),.processMessages]).last
  exact absurd (hlast.all rfl rfl 0) (by decide)

end SettingsWatch
end FeatureRuntime
