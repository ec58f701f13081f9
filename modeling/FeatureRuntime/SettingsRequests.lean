import FeatureRuntime.SystemSettings
import FeatureRuntime.Transition
import Mathlib.Data.List.Nodup
import Mathlib.Data.List.Range

/-! The promises of `system.settings`, and what becomes of its objects and messages. -/
namespace FeatureRuntime

def SettingsAct.erased : SettingsAct → Option ℕ
  | .erase object _ => some object
  | _ => none

def SettingsAct.destroyed : SettingsAct → Option ℕ
  | .destroy message => some message.number
  | _ => none

namespace SystemSettings

open LiveCallbacks

variable {ι : Type}

/-- The objects that the loop is about to delete. -/
def erasing (s : SystemSettings ι) : List ℕ := s.todo.filterMap SettingsAct.erased

/-- The loop has called the request, and is about to delete it. -/
def Called (s : SystemSettings ι) (request : SettingsRequest ι) : Prop :=
  .erase request.object request.address ∈ s.todo

/-- The messages that the loop has taken and not destroyed. -/
def taken (s : SystemSettings ι) : List ℕ := s.todo.filterMap SettingsAct.destroyed

/-- What is promised: no promise is settled twice, and one that a reply settles with the reply to its own request; a
request that the backend refuses is rejected; and every object and every message is deleted once, all of them when the
feature has ended. An object that the loop is about to delete counts as deleted. -/
structure Right (s : SystemSettings ι) : Prop where
  once : (s.settled.map SettingsOutcome.pid).Nodup
  own : ∀ outcome ∈ s.settled, outcome.reply = outcome.object
  refused : ∀ pid ∈ s.refused, ∃ outcome ∈ s.settled, outcome.pid = pid ∧ outcome.error ≠ none
  deleted : (s.deleted ++ s.erasing).Nodup
  freed : s.freed.Nodup
  ended : s.closed = true → (∀ object < s.nextObject, object ∈ s.deleted) ∧ ∀ number < s.nextMessage, number ∈ s.freed

/-- The condition on what happens: the backend takes every get; where a message is taken up and a request is at its address,
the message was sent for that request; no instance is detached from the script that its own request calls; and no message
waits when the feature has ended. -/
def Meets (s : SystemSettings ι) : SettingsOp ι → Prop
  | .getProp feature key address accepted =>
    s.detached feature = false → s.destroyed = false → s.inUse address = false → key ≠ none → accepted = true
  | .next => ∀ message todo, s.todo = .request message :: todo → ∀ request ∈ s.requests,
      request.address = message.argument.address → request.object = message.argument.object
  | .detach feature => s.detached feature = false → s.destroyed = false →
      ∀ request ∈ s.requests, request.feature = feature → ¬ s.Called request
  | .destroy => s.destroyed = false → ∀ request ∈ s.requests, ¬ s.Called request
  | .asyncClosed => s.destroyed = true → s.closed = false → s.todo = [] → s.queue = []
  | _ => True

/-- Every object is in one place, every message in one, and every promise is settled or waits, or its request is called. -/
structure Kept (s : SystemSettings ι) : Prop where
  objects : (s.deleted ++ s.requests.map SettingsRequest.object ++ s.subs.map SettingsSub.object).Perm
    (List.range s.nextObject)
  messages : (s.freed ++ s.taken ++ s.queue.map SettingsMessage.number).Perm (List.range s.nextMessage)
  settled : (s.settled.map SettingsOutcome.pid).Nodup
  pids : (s.requests.map SettingsRequest.pid).Nodup
  called : ∀ request ∈ s.requests, request.pid ∈ s.settled.map SettingsOutcome.pid → s.Called request
  issued : ∀ pid ∈ s.settled.map SettingsOutcome.pid ++ s.requests.map SettingsRequest.pid, pid < s.nextPid
  own : ∀ outcome ∈ s.settled, outcome.reply = outcome.object
  refused : ∀ pid ∈ s.refused, ∃ outcome ∈ s.settled, outcome.pid = pid ∧ outcome.error ≠ none
  attached : ∀ request ∈ s.requests, s.detached request.feature = false
  addresses : (s.requests.map SettingsRequest.address).Nodup
  known : (∀ argument ∈ s.held, argument.object < s.nextObject) ∧
    (∀ argument ∈ s.registrations, argument.object < s.nextObject) ∧
      ∀ message ∈ s.queue, message.argument.object < s.nextObject
  single : ∀ act ∈ s.todo.tail, ∀ object address, act ≠ .erase object address
  ended : s.destroyed = true → s.requests = [] ∧ s.subs = [] ∧ s.held = [] ∧ s.registrations = []
  closed : s.closed = true → s.destroyed = true ∧ s.queue = [] ∧ s.todo = []

/-- What the loop is about to delete is a request that is there. -/
structure Sound (s : SystemSettings ι) : Prop extends s.Kept where
  erasing : ∀ object address, .erase object address ∈ s.todo →
    ∃ request ∈ s.requests, request.object = object ∧ request.address = address

variable {s : SystemSettings ι}

theorem mem_erasing {object : ℕ} : object ∈ s.erasing ↔ ∃ address, .erase object address ∈ s.todo := by
  simp only [SystemSettings.erasing,List.mem_filterMap]
  constructor
  · rintro ⟨act,hact,hsome⟩
    cases act with
    | erase object' address =>
      obtain rfl := Option.some.inj hsome
      exact ⟨address,hact⟩
    | _ => cases hsome
  · rintro ⟨address,hact⟩
    exact ⟨_,hact,rfl⟩

theorem Kept.erasing_nodup (h : s.Kept) : s.erasing.Nodup := by
  have hsingle := h.single
  rw [SystemSettings.erasing]
  cases htodo : s.todo with
  | nil => exact List.nodup_nil
  | cons act todo =>
    rw [htodo] at hsingle
    have hnone : todo.filterMap SettingsAct.erased = [] := by
      refine List.filterMap_eq_nil_iff.mpr (fun act hact => ?_)
      cases act with
      | erase object address => exact absurd rfl (hsingle _ hact object address)
      | _ => rfl
    rw [List.filterMap_cons,hnone]
    cases act.erased <;> simp

theorem Sound.right (h : s.Sound) : s.Right := by
  have hobjects := h.objects.nodup_iff.mpr List.nodup_range
  have hmessages := h.messages.nodup_iff.mpr List.nodup_range
  refine ⟨h.settled,h.own,h.refused,?_,hmessages.of_append_left.of_append_left,
    fun hclosed => ⟨fun object hobject => ?_,fun number hnumber => ?_⟩⟩
  · rw [List.nodup_append]
    refine ⟨hobjects.of_append_left.of_append_left,h.erasing_nodup,fun object hobject other hother => ?_⟩
    obtain ⟨address,hact⟩ := mem_erasing.mp hother
    obtain ⟨request,hrequest,rfl,-⟩ := h.erasing _ _ hact
    exact (List.nodup_append.mp hobjects.of_append_left).2.2 object hobject _ (List.mem_map_of_mem hrequest)
  · obtain ⟨hdestroyed,-⟩ := h.closed hclosed
    obtain ⟨hrequests,hsubs,-⟩ := h.ended hdestroyed
    have hmem := h.objects.mem_iff.mpr (List.mem_range.mpr hobject)
    simpa [hrequests,hsubs] using hmem
  · have hmem := h.messages.mem_iff.mpr (List.mem_range.mpr hnumber)
    obtain ⟨-,hqueue,htodo⟩ := h.closed hclosed
    simpa [hqueue,taken,htodo] using hmem

theorem perm_range_succ {n : ℕ} {xs ys : List ℕ} (h : xs.Perm (List.range n)) (hys : ys.Perm (n :: xs)) :
    ys.Perm (List.range (n + 1)) := by
  rw [List.range_succ]
  exact (hys.trans (h.cons n)).trans (List.perm_append_singleton n (List.range n)).symm

theorem Kept.fresh (h : s.Kept) :
    s.nextPid ∉ s.settled.map SettingsOutcome.pid ∧ s.nextPid ∉ s.requests.map SettingsRequest.pid := by
  rw [← not_or,← List.mem_append]
  exact fun hmem => absurd (h.issued _ hmem) (Nat.lt_irrefl _)

theorem Kept.settleNew (h : s.Kept) (feature : ι) (outcome : SettingsOutcome) (hpid : outcome.pid = s.nextPid)
    (hown : outcome.reply = outcome.object) : (settle { s with nextPid := s.nextPid + 1 } feature outcome).Kept := by
  have hlater : ∀ pid ∈ s.settled.map SettingsOutcome.pid ++ s.requests.map SettingsRequest.pid, pid < s.nextPid + 1 :=
    fun pid hmem => Nat.lt_succ_of_lt (h.issued pid hmem)
  have hmem : ∀ pid, pid ∈ (s.settled ++ [outcome]).map SettingsOutcome.pid →
      pid ∈ s.settled.map SettingsOutcome.pid ∨ pid = s.nextPid := by
    intro pid hmem
    rw [List.map_append,List.map_singleton,hpid] at hmem
    exact (List.mem_append.mp hmem).imp_right List.mem_singleton.mp
  simp only [settle]
  split_ifs
  · exact { h with issued := hlater }
  · refine { h with settled := ?_, called := ?_, issued := ?_, own := ?_, refused := ?_ }
    · rw [List.map_append,List.map_singleton,← List.concat_eq_append]
      exact h.settled.concat (hpid ▸ h.fresh.1)
    · intro request hrequest hpid'
      rcases hmem _ hpid' with hold | hnew
      · exact h.called request hrequest hold
      · exact absurd (List.mem_map.mpr ⟨request,hrequest,hnew⟩) h.fresh.2
    · intro pid hpid'
      rcases List.mem_append.mp hpid' with hsettled | hwaits
      · rcases hmem _ hsettled with hold | rfl
        · exact hlater pid (List.mem_append_left _ hold)
        · exact Nat.lt_succ_self _
      · exact hlater pid (List.mem_append_right _ hwaits)
    · intro other hother
      obtain hold | hnew := List.mem_append.mp hother
      · exact h.own other hold
      · rw [List.mem_singleton.mp hnew]
        exact hown
    · intro pid hpid'
      obtain ⟨other,hother,hsame⟩ := h.refused pid hpid'
      exact ⟨other,List.mem_append_left _ hother,hsame⟩

variable {address : ℕ} {feature : ι}

theorem Kept.submit (h : s.Kept) (kind : SettingsKind) (key : CString)
    (hattached : s.detached feature = false) (hthere : s.destroyed = false) (hfree : s.inUse address = false) :
    (SystemSettings.submit { s with nextPid := s.nextPid + 1 } feature s.nextPid kind key address true).Kept := by
  have haddress : address ∉ s.requests.map SettingsRequest.address := by
    simp only [inUse,Bool.or_eq_false_iff,List.any_eq_false] at hfree
    intro hmem
    obtain ⟨request,hrequest,hsame⟩ := List.mem_map.mp hmem
    exact hfree.1 request hrequest (by simpa using hsame)
  simp only [SystemSettings.submit,if_true]
  refine { h with
    objects := ?_, pids := ?_, called := ?_, issued := ?_, attached := ?_, addresses := ?_, known := ?_, ended := ?_ }
  · refine perm_range_succ h.objects ?_
    simp only [List.map_append,List.map_singleton,List.append_assoc,List.singleton_append]
    rw [← List.append_assoc,← List.append_assoc]
    exact List.perm_middle
  · rw [List.map_append,List.map_singleton,← List.concat_eq_append]
    exact h.pids.concat h.fresh.2
  · intro request hrequest hpid
    obtain hold | hnew := List.mem_append.mp hrequest
    · exact h.called request hold hpid
    · rw [List.mem_singleton.mp hnew] at hpid
      exact absurd hpid h.fresh.1
  · intro pid hmem
    rw [List.map_append,← List.append_assoc,List.map_singleton] at hmem
    obtain hold | hnew := List.mem_append.mp hmem
    · exact Nat.lt_succ_of_lt (h.issued pid hold)
    · rw [List.mem_singleton.mp hnew]
      exact Nat.lt_succ_self _
  · intro request hrequest
    obtain hold | hnew := List.mem_append.mp hrequest
    · exact h.attached request hold
    · rw [List.mem_singleton.mp hnew]
      exact hattached
  · rw [List.map_append,List.map_singleton,← List.concat_eq_append]
    exact h.addresses.concat haddress
  · refine ⟨fun argument hargument => ?_,fun argument hargument => Nat.lt_succ_of_lt (h.known.2.1 argument hargument),
      fun message hmessage => Nat.lt_succ_of_lt (h.known.2.2 message hmessage)⟩
    obtain hold | hnew := List.mem_append.mp hargument
    · exact Nat.lt_succ_of_lt (h.known.1 argument hold)
    · rw [List.mem_singleton.mp hnew]
      exact Nat.lt_succ_self _
  · exact fun hdestroyed => absurd (hthere.symm.trans hdestroyed) Bool.false_ne_true

theorem Kept.passing (h : s.Kept) :
    Kept { s with nextObject := s.nextObject + 1, deleted := s.deleted ++ [s.nextObject] } := by
  refine { h with objects := ?_, known := ?_ }
  · refine perm_range_succ h.objects ?_
    simp only [List.append_assoc,List.singleton_append]
    exact List.perm_middle
  · exact ⟨fun argument hargument => Nat.lt_succ_of_lt (h.known.1 argument hargument),
      fun argument hargument => Nat.lt_succ_of_lt (h.known.2.1 argument hargument),
      fun message hmessage => Nat.lt_succ_of_lt (h.known.2.2 message hmessage)⟩

theorem Kept.refuse (h : s.Kept) (hattached : s.detached feature = false) (error : ℤ × String) :
    Kept (settle { s with nextPid := s.nextPid + 1, refused := s.refused ++ [s.nextPid] } feature
      ⟨s.nextPid,none,none,none,some error⟩) := by
  have hsettled := h.settleNew feature ⟨s.nextPid,none,none,none,some error⟩ rfl rfl
  simp only [settle,hattached,Bool.false_eq_true,if_false] at hsettled ⊢
  refine { hsettled with refused := fun pid hpid => ?_ }
  obtain hold | hnew := List.mem_append.mp hpid
  · exact hsettled.refused pid hold
  · rw [List.mem_singleton.mp hnew]
    exact ⟨_,List.mem_append_right _ (List.mem_singleton.mpr rfl),rfl,by simp⟩

theorem Kept.getProp (h : s.Kept) {key : Option CString} {accepted : Bool}
    (hattached : s.detached feature = false) (hthere : s.destroyed = false) (hfree : s.inUse address = false)
    (haccepted : key ≠ none → accepted = true) : (s.getProp feature key address accepted).Kept := by
  cases key with
  | none => exact h.settleNew feature _ rfl rfl
  | some key =>
    rw [haccepted (by simp)]
    exact h.submit (.get key) key hattached hthere hfree

theorem Kept.setProp (h : s.Kept) {key : Option CString} (value : Option SettingsValue)
    (accepted : Bool) (hattached : s.detached feature = false) (hthere : s.destroyed = false)
    (hfree : s.inUse address = false) : (s.setProp feature key value address accepted).Kept := by
  simp only [SystemSettings.setProp]
  split
  · cases accepted with
    | true => exact h.submit .set _ hattached hthere hfree
    | false => exact h.passing.refuse hattached _
  · exact h.settleNew feature _ rfl rfl
  · exact h.settleNew feature _ rfl rfl
  · exact h.settleNew feature _ rfl rfl

theorem Kept.relive (h : s.Kept) (live : ι → ℤ → Bool) : Kept { s with live := live } := { h with }

theorem Kept.miwearSettingsCallback (h : s.Kept) {argument : SettingsArgument} (status : ℤ) (value : Option ℕ)
    (hthere : s.destroyed = false) (hknown : argument.object < s.nextObject) :
    (s.miwearSettingsCallback argument status value).Kept := by
  refine { h with messages := ?_, known := ?_, closed := fun hclosed => ?_ }
  · refine perm_range_succ h.messages ?_
    simp only [SystemSettings.miwearSettingsCallback,List.map_append,List.map_singleton]
    rw [← List.append_assoc]
    exact List.perm_append_singleton _ _
  · refine ⟨h.known.1,h.known.2.1,fun message hmessage => ?_⟩
    obtain hold | hnew := List.mem_append.mp hmessage
    · exact h.known.2.2 message hold
    · rw [List.mem_singleton.mp hnew]
      exact hknown
  · exact absurd (hthere.symm.trans (h.closed hclosed).1) Bool.false_ne_true

theorem Kept.change (h : s.Kept) (key : CString) (status : ℤ) (value : Option ℕ) : (s.change key status value).Kept := by
  cases hthere : s.destroyed with
  | true =>
    have hnone := (h.ended hthere).2.2.2
    simpa [SystemSettings.change,hnone] using h
  | false =>
    have hall : ∀ arguments : List SettingsArgument, (∀ argument ∈ arguments, argument.object < s.nextObject) →
        ∀ t : SystemSettings ι, t.Kept → t.destroyed = false → t.nextObject = s.nextObject →
        (arguments.foldl (fun s argument => s.miwearSettingsCallback argument status value) t).Kept := by
      intro arguments
      induction arguments with
      | nil => exact fun _ t ht _ _ => ht
      | cons argument arguments ih =>
        intro hknown t ht htthere hobject
        refine ih (fun other hother => hknown other (List.mem_cons_of_mem _ hother)) _
          (ht.miwearSettingsCallback status value htthere ?_) htthere hobject
        rw [hobject]
        exact hknown argument List.mem_cons_self
    refine hall _ (fun argument hargument => ?_) s h hthere rfl
    exact h.known.2.1 argument (List.mem_filter.mp hargument).1

variable {requests : List (SettingsRequest ι)} {request : SettingsRequest ι}

/-- Where every address is there once, the request at one of them is all that is there. -/
theorem perm_at_address (hdistinct : (requests.map SettingsRequest.address).Nodup) (hrequest : request ∈ requests) :
    (request :: requests.filter (fun other => other.address ≠ request.address)).Perm requests := by
  induction requests with
  | nil => cases hrequest
  | cons first rest ih =>
    rw [List.map_cons,List.nodup_cons] at hdistinct
    obtain rfl | hrest := List.mem_cons.mp hrequest
    · have hothers : rest.filter (fun other => other.address ≠ request.address) = rest := by
        apply List.filter_eq_self.mpr
        intro other hother
        have hne : other.address ≠ request.address := fun hsame =>
          hdistinct.1 (List.mem_map.mpr ⟨other,hother,hsame⟩)
        simpa using hne
      rw [List.filter_cons_of_neg (by simp),hothers]
    · have hne : first.address ≠ request.address := fun hsame =>
        hdistinct.1 (List.mem_map.mpr ⟨request,hrest,hsame.symm⟩)
      rw [List.filter_cons_of_pos (by simpa using hne)]
      exact (List.Perm.swap first request _).trans ((ih hdistinct.2 hrest).cons first)

theorem find_at_address (hdistinct : (requests.map SettingsRequest.address).Nodup)
    (hrequest : request ∈ requests) (haddress : request.address = address) :
    requests.find? (fun other => other.address = address) = some request := by
  cases hfind : requests.find? (fun other => other.address = address) with
  | none => exact absurd (List.find?_eq_none.mp hfind request hrequest) (by simp [haddress])
  | some found =>
    have hfound : found.address = address := by simpa using List.find?_some hfind
    rw [List.inj_on_of_nodup_map hdistinct (List.mem_of_find?_eq_some hfind) hrequest (hfound.trans haddress.symm)]

variable {act : SettingsAct} {todo : List SettingsAct}

/-- The loop goes on, and not from a call of a request. -/
theorem Kept.advance (h : s.Kept) (htodo : s.todo = act :: todo) (hact : ∀ object address, act ≠ .erase object address)
    {freed : List ℕ} (hmessages : (freed ++ taken { s with todo := todo } ++ s.queue.map SettingsMessage.number).Perm
      (List.range s.nextMessage)) (notified : List (SettingsNotice ι)) :
    Kept { s with todo := todo, freed := freed, notified := notified } := by
  refine { h with messages := hmessages, called := fun request hrequest hpid => ?_, single := ?_, closed := ?_ }
  · have hcalled := h.called request hrequest hpid
    rw [Called,htodo] at hcalled
    exact (List.mem_cons.mp hcalled).resolve_left (Ne.symm (hact _ _))
  · have hsingle := h.single
    rw [htodo] at hsingle
    exact fun act' hact' => hsingle act' (List.mem_of_mem_tail hact')
  · intro hclosed
    have hnone := (h.closed hclosed).2.2
    rw [htodo] at hnone
    cases hnone

theorem taken_cons (htodo : s.todo = act :: todo) : s.taken = act.destroyed.toList ++ taken { s with todo := todo } := by
  rw [taken,htodo,List.filterMap_cons]
  cases act.destroyed <;> rfl

/-- The request at the address of a message is called with its own reply. -/
theorem Sound.callRequest {message : SettingsMessage} (h : s.Sound) (htodo : s.todo = .request message :: todo)
    (hmeets : ∀ request ∈ s.requests, request.address = message.argument.address →
      request.object = message.argument.object) : Sound ({ s with todo := todo }.callRequest message) := by
  have hkept : Kept { s with todo := todo } := by
    have hmessages := h.messages
    rw [taken_cons htodo] at hmessages
    exact h.toKept.advance htodo (fun _ _ => nofun) hmessages s.notified
  have hsingle := h.single
  rw [htodo,List.tail_cons] at hsingle
  have hnone : ∀ object address, .erase object address ∉ todo := fun object address hact => hsingle _ hact object address rfl
  simp only [SystemSettings.callRequest]
  cases hfind : s.requests.find? (fun request => request.address = message.argument.address) with
  | none => exact ⟨hkept,fun object address hact => absurd hact (hnone object address)⟩
  | some request =>
    have hrequest : request ∈ s.requests := List.mem_of_find?_eq_some hfind
    have haddress : request.address = message.argument.address := by simpa using List.find?_some hfind
    have hfresh : request.pid ∉ s.settled.map SettingsOutcome.pid :=
      fun hpid => hnone _ _ (hkept.called request hrequest hpid)
    simp only [settle,h.attached request hrequest,Bool.false_eq_true,if_false]
    refine ⟨{ hkept with
      settled := ?_, called := ?_, issued := ?_, own := ?_, refused := ?_, single := hsingle, closed := ?_ },?_⟩
    · rw [List.map_append,List.map_singleton,← List.concat_eq_append]
      exact h.settled.concat hfresh
    · intro other hother hpid
      rw [List.map_append,List.mem_append,List.map_singleton,List.mem_singleton] at hpid
      rcases hpid with hold | hnew
      · exact List.mem_cons_of_mem _ (hkept.called other hother hold)
      · obtain rfl := List.inj_on_of_nodup_map h.pids hother hrequest hnew
        exact List.mem_cons_self
    · intro pid hpid
      refine h.issued pid ?_
      simp only [List.map_append,List.map_singleton,List.mem_append,List.mem_singleton] at hpid ⊢
      rcases hpid with (hold | rfl) | hwaits
      · exact .inl hold
      · exact .inr (List.mem_map_of_mem hrequest)
      · exact .inr hwaits
    · intro outcome houtcome
      obtain hold | hnew := List.mem_append.mp houtcome
      · exact h.own outcome hold
      · rw [List.mem_singleton.mp hnew]
        exact congrArg some (hmeets request hrequest haddress).symm
    · intro pid hpid
      obtain ⟨outcome,houtcome,hsame⟩ := h.refused pid hpid
      exact ⟨outcome,List.mem_append_left _ houtcome,hsame⟩
    · intro hclosed
      have hnil := (h.closed hclosed).2.2
      rw [htodo] at hnil
      cases hnil
    · intro object address hact
      rcases List.mem_cons.mp hact with hnew | hold
      · injection hnew with hobject haddress'
        exact ⟨request,hrequest,hobject.symm,haddress'.symm⟩
      · exact absurd hold (hnone object address)

theorem Sound.eraseRequest {object : ℕ} (h : s.Sound) (htodo : s.todo = .erase object address :: todo) :
    Sound ({ s with todo := todo }.eraseRequest object address) := by
  obtain ⟨request,hrequest,rfl,rfl⟩ := h.erasing object address (htodo ▸ List.mem_cons_self)
  have hsingle := h.single
  rw [htodo,List.tail_cons] at hsingle
  have hnone : ∀ object address, .erase object address ∉ todo := fun object address hact => hsingle _ hact object address rfl
  have hsub := List.filter_sublist (p := fun other : SettingsRequest ι => decide (other.address ≠ request.address))
    (l := s.requests)
  have hperm := perm_at_address h.addresses hrequest
  refine ⟨{ h.toKept with
    objects := ?_, messages := ?_, pids := h.pids.sublist (hsub.map _), called := ?_, issued := ?_,
    attached := fun other hother => h.attached other (hsub.subset hother), addresses := h.addresses.sublist (hsub.map _),
    single := fun act hact => hsingle act (List.mem_of_mem_tail hact), ended := ?_, closed := ?_ },
    fun object address hact => absurd hact (hnone object address)⟩
  · refine List.Perm.trans ?_ h.objects
    have hobjects := ((hperm.map SettingsRequest.object).append_left s.deleted).append_right
      (s.subs.map SettingsSub.object)
    simpa [SystemSettings.eraseRequest] using hobjects
  · have hmessages := h.messages
    rwa [taken_cons htodo] at hmessages
  · intro other hother hpid
    obtain ⟨hmem,hne⟩ := List.mem_filter.mp hother
    have hcalled := h.called other hmem hpid
    rw [Called,htodo] at hcalled
    rcases List.mem_cons.mp hcalled with hsame | hold
    · injection hsame with _ haddress
      exact absurd haddress (by simpa using hne)
    · exact absurd hold (hnone _ _)
  · exact fun pid hpid => h.issued pid (((hsub.map _).append_left _).subset hpid)
  · intro hdestroyed
    rw [(h.ended hdestroyed).1] at hrequest
    cases hrequest
  · intro hclosed
    have hnil := (h.closed hclosed).2.2
    rw [htodo] at hnil
    cases hnil

theorem Sound.next (h : s.Sound) (hmeets : ∀ message todo, s.todo = .request message :: todo → ∀ request ∈ s.requests,
    request.address = message.argument.address → request.object = message.argument.object) : s.next.Sound := by
  rw [SystemSettings.next]
  cases htodo : s.todo with
  | nil => exact h
  | cons act todo =>
    have herasing : ∀ object address, .erase object address ∈ todo →
        ∃ request ∈ s.requests, request.object = object ∧ request.address = address :=
      fun object address hact => h.erasing object address (htodo ▸ List.mem_cons_of_mem _ hact)
    have hmessages := h.messages
    rw [taken_cons htodo] at hmessages
    cases act with
    | request message => exact h.callRequest htodo (hmeets message todo htodo)
    | erase object address => exact h.eraseRequest htodo
    | sub message => exact ⟨h.toKept.advance htodo (fun _ _ => nofun) hmessages _,herasing⟩
    | destroy message =>
      rw [← List.append_assoc] at hmessages
      exact ⟨h.toKept.advance htodo (fun _ _ => nofun) hmessages _,herasing⟩

theorem Sound.processMessages (h : s.Sound) (htodo : s.todo = []) (hthere : s.destroyed = false) :
    s.processMessages.Sound := by
  have hacts : ∀ object address, .erase object address ∉ s.processMessages.todo := by
    intro object address hact
    obtain ⟨message,_,hact⟩ := List.mem_flatMap.mp hact
    simp at hact
  have htaken : s.processMessages.taken = s.queue.map SettingsMessage.number := by
    simp only [taken,SystemSettings.processMessages,List.filterMap_flatMap]
    exact List.map_eq_flatMap.symm
  refine ⟨{ h.toKept with messages := ?_, called := ?_, known := ?_, single := ?_, closed := ?_ },
    fun object address hact => absurd hact (hacts object address)⟩
  · rw [htaken]
    have hmessages := h.messages
    rw [taken,htodo,List.filterMap_nil,List.append_nil] at hmessages
    exact (List.append_nil _).symm ▸ hmessages
  · intro request hrequest hpid
    have hcalled := h.called request hrequest hpid
    rw [Called,htodo] at hcalled
    cases hcalled
  · exact ⟨h.known.1,h.known.2.1,nofun⟩
  · rintro act hact object address rfl
    exact hacts object address (List.mem_of_mem_tail hact)
  · exact fun hclosed => absurd (hthere.symm.trans (h.closed hclosed).1) Bool.false_ne_true

variable [DecidableEq ι]

theorem Kept.subscribeProp (h : s.Kept) (key : Option CString) (cid : ℤ) (accepted : Bool)
    (hthere : s.destroyed = false) : (s.subscribeProp feature key cid address accepted).Kept := by
  simp only [SystemSettings.subscribeProp]
  split
  · exact h.settleNew feature _ rfl rfl
  · rename_i key
    split
    · rename_i old _
      have hchanged : Kept { s with
          live := remove s.live feature old.cid
          subs := s.subs.map (fun sub =>
            if sub.key = key ∧ sub.feature = feature then { sub with cid := cid } else sub) } := by
        refine { h with objects := ?_, ended := fun hdestroyed => ?_ }
        · have hobjects : (s.subs.map (fun sub =>
              if sub.key = key ∧ sub.feature = feature then { sub with cid := cid } else sub)).map SettingsSub.object =
              s.subs.map SettingsSub.object := by
            rw [List.map_map]
            apply List.map_congr_left
            intro sub _
            simp only [Function.comp_apply]
            split_ifs <;> rfl
          rw [hobjects]
          exact h.objects
        · exact absurd (hthere.symm.trans hdestroyed) Bool.false_ne_true
      exact hchanged.settleNew feature _ rfl rfl
    · cases accepted with
      | false => exact (h.passing.relive _).settleNew feature _ rfl rfl
      | true =>
        have hmade : Kept { s with
            nextObject := s.nextObject + 1
            subs := s.subs ++ [⟨s.nextObject,address,feature,key,cid⟩]
            registrations := s.registrations ++ [⟨s.nextObject,address,key⟩] } := by
          refine { h with objects := ?_, known := ?_, ended := fun hdestroyed => ?_ }
          · refine perm_range_succ h.objects ?_
            rw [List.map_append,← List.append_assoc,List.map_singleton]
            exact List.perm_append_singleton _ _
          · refine ⟨fun argument hargument => Nat.lt_succ_of_lt (h.known.1 argument hargument),
              fun argument hargument => ?_,fun message hmessage => Nat.lt_succ_of_lt (h.known.2.2 message hmessage)⟩
            obtain hold | hnew := List.mem_append.mp hargument
            · exact Nat.lt_succ_of_lt (h.known.2.1 argument hold)
            · rw [List.mem_singleton.mp hnew]
              exact Nat.lt_succ_self _
          · exact absurd (hthere.symm.trans hdestroyed) Bool.false_ne_true
        exact hmade.settleNew feature _ rfl rfl

theorem Kept.dropSubs (h : s.Kept) (given : SettingsSub ι → Bool) : (s.dropSubs given).Kept := by
  refine { h with objects := ?_, ended := fun hdestroyed => ?_ }
  · have hsubs := (List.filter_append_perm given s.subs).map SettingsSub.object
    refine List.Perm.trans ?_ h.objects
    rw [List.perm_iff_count] at hsubs ⊢
    intro object
    have hcount := hsubs object
    simp only [SystemSettings.dropSubs,List.map_append,List.count_append] at hcount ⊢
    omega
  · obtain ⟨hrequests,hsubs,hrest⟩ := h.ended hdestroyed
    exact ⟨hrequests,by simp [SystemSettings.dropSubs,hsubs],hrest⟩

theorem Kept.dropRequests (h : s.Kept) (feature : ι) : Kept { s with
    deleted := s.deleted ++ (s.requests.filter (fun request => request.feature = feature)).map SettingsRequest.object
    requests := s.requests.filter (fun request => request.feature ≠ feature) } := by
  have hsub := List.filter_sublist (p := fun request : SettingsRequest ι => decide (request.feature ≠ feature))
    (l := s.requests)
  refine { h with
    objects := ?_, pids := h.pids.sublist (hsub.map _),
    called := fun request hrequest => h.called request (hsub.subset hrequest),
    issued := fun pid hpid => h.issued pid (((hsub.map _).append_left _).subset hpid),
    attached := fun request hrequest => h.attached request (hsub.subset hrequest),
    addresses := h.addresses.sublist (hsub.map _), ended := fun hdestroyed => ?_ }
  · have hrequests := (List.filter_append_perm (fun request : SettingsRequest ι => decide (request.feature = feature))
      s.requests).map SettingsRequest.object
    refine List.Perm.trans ?_ h.objects
    rw [List.perm_iff_count] at hrequests ⊢
    intro object
    have hcount := hrequests object
    simp only [List.map_append,List.count_append,decide_not] at hcount ⊢
    omega
  · have hnone : s.requests = [] := (h.ended hdestroyed).1
    refine ⟨?_,(h.ended hdestroyed).2⟩
    simp [hnone]

theorem Kept.detach (h : s.Kept) (feature : ι) : (s.detach feature).Kept := by
  refine { (h.dropRequests feature).dropSubs (fun sub => sub.feature = feature) with attached := fun request hrequest => ?_ }
  obtain ⟨hmem,hother⟩ := List.mem_filter.mp hrequest
  have hne : request.feature ≠ feature := by simpa using hother
  simp only [SystemSettings.detach,Function.update_of_ne hne]
  exact h.attached request hmem

theorem Kept.detachAll (h : s.Kept) (features : List ι) :
    let after := features.foldl (fun s feature => s.detach feature) s
    after.Kept ∧ (∀ request ∈ after.requests, request ∈ s.requests ∧ request.feature ∉ features) ∧
      (∀ sub ∈ after.subs, sub ∈ s.subs ∧ sub.feature ∉ features) ∧ after.closed = s.closed ∧ after.todo = s.todo ∧
      after.nextObject = s.nextObject := by
  induction features generalizing s with
  | nil => exact ⟨h,fun _ hrequest => ⟨hrequest,by simp⟩,fun _ hsub => ⟨hsub,by simp⟩,rfl,rfl,rfl⟩
  | cons feature features ih =>
    obtain ⟨hsound,hrequests,hsubs,hclosed⟩ := ih (h.detach feature)
    refine ⟨hsound,fun request hrequest => ?_,fun sub hsub => ?_,hclosed⟩
    · obtain ⟨hmem,hothers⟩ := hrequests request hrequest
      obtain ⟨hold,hother⟩ := List.mem_filter.mp hmem
      have hne : request.feature ≠ feature := by simpa using hother
      exact ⟨hold,by simp [hne,hothers]⟩
    · obtain ⟨hmem,hothers⟩ := hsubs sub hsub
      obtain ⟨hold,hother⟩ := List.mem_filter.mp hmem
      have hne : sub.feature ≠ feature := by simpa using hother
      exact ⟨hold,by simp [hne,hothers]⟩

/-- After the end no object is in a set any more. -/
theorem Kept.destroy (h : s.Kept) (hthere : s.destroyed = false) : s.destroy.Kept ∧ s.destroy.todo = s.todo ∧
    ∀ object < s.nextObject, object ∈ s.destroy.deleted := by
  obtain ⟨hkept,hrequests,hsubs,hclosed,htodo,hnext⟩ :=
    h.detachAll (s.requests.map SettingsRequest.feature ++ s.subs.map SettingsSub.feature)
  have hnorequests := List.eq_nil_iff_forall_not_mem.mpr (fun request hrequest => (hrequests request hrequest).2
    (List.mem_append_left _ (List.mem_map.mpr ⟨request,(hrequests request hrequest).1,rfl⟩)))
  have hnosubs := List.eq_nil_iff_forall_not_mem.mpr (fun sub hsub => (hsubs sub hsub).2
    (List.mem_append_right _ (List.mem_map.mpr ⟨sub,(hsubs sub hsub).1,rfl⟩)))
  refine ⟨{ hkept with
    known := ⟨nofun,nofun,hkept.known.2.2⟩, ended := fun _ => ⟨hnorequests,hnosubs,rfl,rfl⟩, closed := fun hended => ?_ },
    htodo,fun object hobject => ?_⟩
  · rw [show s.destroy.closed = s.closed from hclosed] at hended
    exact absurd (hthere.symm.trans (h.closed hended).1) Bool.false_ne_true
  · have hmem := hkept.objects.mem_iff.mpr (List.mem_range.mpr (hnext ▸ hobject))
    rw [hnorequests,hnosubs,List.map_nil,List.map_nil,List.append_nil,List.append_nil] at hmem
    exact hmem

omit [DecidableEq ι] in
theorem Sound.asyncClosed (h : s.Sound) (hdestroyed : s.destroyed = true) (htodo : s.todo = []) (hempty : s.queue = []) :
    s.asyncClosed.Sound := by
  obtain ⟨hrequests,hsubs,-⟩ := h.ended hdestroyed
  have hobjects := h.objects
  have hissued := h.issued
  simp only [hrequests,hsubs,List.map_nil,List.append_nil] at hobjects hissued
  refine ⟨{ h.toKept with
    objects := ?_, messages := ?_, pids := List.nodup_nil, called := nofun, issued := ?_, attached := nofun,
    addresses := List.nodup_nil, known := ⟨h.known.1,h.known.2.1,nofun⟩,
    ended := fun hended => ⟨rfl,rfl,(h.ended hended).2.2⟩, closed := fun _ => ⟨hdestroyed,rfl,htodo⟩ },
    fun object address hact => ?_⟩
  · simpa [SystemSettings.asyncClosed,hrequests,hsubs,hempty] using hobjects
  · have hmessages := h.messages
    rw [hempty] at hmessages
    simpa [SystemSettings.asyncClosed,hempty,taken] using hmessages
  · simpa [SystemSettings.asyncClosed] using hissued
  · change .erase object address ∈ s.todo at hact
    rw [htodo] at hact
    cases hact

omit [DecidableEq ι] in
theorem Sound.keep {t : SystemSettings ι} (h : s.Sound) (hkept : t.Kept) (htodo : t.todo = s.todo)
    (hrequests : ∀ request ∈ s.requests, request ∈ t.requests) : t.Sound := by
  refine ⟨hkept,fun object address hact => ?_⟩
  obtain ⟨request,hrequest,hsame⟩ := h.erasing object address (htodo ▸ hact)
  exact ⟨request,hrequests request hrequest,hsame⟩

omit [DecidableEq ι] in
theorem Sound.change (h : s.Sound) (key : CString) (status : ℤ) (value : Option ℕ) : (s.change key status value).Sound := by
  have hkept := h.toKept.change key status value
  obtain ⟨messages,nextMessage,hstate,-⟩ := foldl_callback_eq
    (s.registrations.filter (fun argument => argument.key = key)) status value s
  rw [SystemSettings.change,hstate] at hkept ⊢
  exact h.keep hkept rfl (fun _ hrequest => hrequest)

theorem Sound.step (h : s.Sound) (op : SettingsOp ι) (hmeets : s.Meets op) : (s.step op).Sound := by
  have hall : ∀ request ∈ s.requests, request ∈ s.requests := fun _ hrequest => hrequest
  cases op with
  | getProp feature key address accepted =>
    simp only [SystemSettings.step]
    split_ifs with hunheard
    · exact h
    · simp only [not_or,Bool.not_eq_true] at hunheard
      obtain ⟨hattached,hthere,hfree⟩ := hunheard
      have hframe := frame_getProp s feature key address accepted
      exact h.keep (h.toKept.getProp hattached hthere hfree (hmeets hattached hthere hfree)) hframe.todo hframe.requests
  | setProp feature key value address accepted =>
    simp only [SystemSettings.step]
    split_ifs with hunheard
    · exact h
    · simp only [not_or,Bool.not_eq_true] at hunheard
      have hframe := frame_setProp s feature key value address accepted
      exact h.keep (h.toKept.setProp value accepted hunheard.1 hunheard.2.1 hunheard.2.2) hframe.todo hframe.requests
  | subscribeProp feature key cid address accepted =>
    simp only [SystemSettings.step]
    split_ifs with hunheard
    · exact h
    · simp only [not_or,Bool.not_eq_true] at hunheard
      obtain ⟨htodo,-,-,hrequests⟩ := subscribeProp_frame { s with live := register s.live feature cid } feature key cid
        address accepted
      exact h.keep ((h.toKept.relive _).subscribeProp key cid accepted hunheard.2.1) htodo hrequests
  | unsubscribeProp feature key accepted =>
    simp only [SystemSettings.step]
    split_ifs with hunheard
    · exact h
    · simp only [SystemSettings.unsubscribeProp]
      split_ifs
      · simp only [not_or,Bool.not_eq_true] at hunheard
        have hdropped : Kept { s with registrations := s.registrations.filter (fun argument => argument.key ≠ key) } := by
          refine { h.toKept with known := ⟨h.known.1,fun argument hargument => ?_,h.known.2.2⟩, ended := fun hdestroyed => ?_ }
          · exact h.known.2.1 argument (List.mem_filter.mp hargument).1
          · exact absurd (hunheard.2.symm.trans hdestroyed) Bool.false_ne_true
        exact h.keep (hdropped.dropSubs _) rfl hall
      · exact h
  | reply argument status value =>
    simp only [SystemSettings.step]
    split_ifs with hheld
    · have hthere : s.destroyed = false := by
        by_contra hdestroyed
        simp [(h.ended (by simpa using hdestroyed)).2.2.1] at hheld
      exact h.keep (h.toKept.miwearSettingsCallback status value hthere (h.known.1 argument hheld)) rfl hall
    · exact h
  | change key status value => exact h.change key status value
  | processMessages =>
    simp only [SystemSettings.step]
    split_ifs with hunheard
    · exact h
    · simp only [not_or,Bool.not_eq_true,Bool.not_eq_false,List.isEmpty_iff] at hunheard
      exact h.processMessages hunheard.2 hunheard.1
  | next => exact h.next hmeets
  | detach feature =>
    simp only [SystemSettings.step]
    split_ifs with hunheard
    · exact h
    · simp only [not_or,Bool.not_eq_true] at hunheard
      refine ⟨h.toKept.detach feature,fun object address hact => ?_⟩
      obtain ⟨request,hrequest,rfl,rfl⟩ := h.erasing object address hact
      refine ⟨request,List.mem_filter.mpr ⟨hrequest,?_⟩,rfl,rfl⟩
      simpa using fun hfeature => hmeets hunheard.1 hunheard.2 request hrequest hfeature hact
  | destroy =>
    simp only [SystemSettings.step]
    split_ifs with hdestroyed
    · exact h
    · have hthere : s.destroyed = false := by simpa using hdestroyed
      obtain ⟨hkept,htodo,-⟩ := h.toKept.destroy hthere
      refine ⟨hkept,fun object address hact => ?_⟩
      rw [htodo] at hact
      obtain ⟨request,hrequest,rfl,rfl⟩ := h.erasing object address hact
      exact absurd hact (hmeets hthere request hrequest)
  | asyncClosed =>
    simp only [SystemSettings.step]
    split_ifs with hopen
    · have htodo := List.isEmpty_iff.mp hopen.2.2
      exact h.asyncClosed hopen.1 htodo (hmeets hopen.1 hopen.2.1 htodo)
    · exact h

omit [DecidableEq ι] in
/-- Nothing is deleted that the loop is about to delete. -/
theorem Right.not_erasing (h : s.Right) {object address : ℕ} (hdeleted : object ∈ s.deleted)
    (hact : .erase object address ∈ s.todo) : False :=
  (List.nodup_append.mp h.deleted).2.2 object hdeleted object (mem_erasing.mpr ⟨address,hact⟩) rfl

theorem Sound.not_right (h : s.Sound) (op : SettingsOp ι) (hbad : ¬ s.Meets op) : ¬ (s.step op).Right := by
  intro hright
  cases op with
  | getProp feature key address accepted =>
    simp only [Meets,not_forall] at hbad
    obtain ⟨hattached,hthere,hfree,hkey,haccepted⟩ := hbad
    rw [Bool.not_eq_true] at haccepted
    subst haccepted
    obtain ⟨key,rfl⟩ := Option.ne_none_iff_exists'.mp hkey
    have hstep : s.step (.getProp feature (some key) address false) = { s with
        nextPid := s.nextPid + 1
        nextObject := s.nextObject + 1
        deleted := s.deleted ++ [s.nextObject]
        refused := s.refused ++ [s.nextPid] } := by
      simp [SystemSettings.step,hattached,hthere,hfree,SystemSettings.getProp,SystemSettings.submit]
    rw [hstep] at hright
    obtain ⟨outcome,houtcome,hpid,-⟩ := hright.refused s.nextPid (List.mem_append_right _ (List.mem_singleton.mpr rfl))
    have hissued := h.issued outcome.pid (List.mem_append_left _ (List.mem_map.mpr ⟨outcome,houtcome,rfl⟩))
    omega
  | next =>
    simp only [Meets,not_forall] at hbad
    obtain ⟨message,todo,htodo,request,hrequest,haddress,hwrong⟩ := hbad
    -- the request is settled with a reply that is not its own
    have hsettled : (⟨request.pid,some request.object,some message.argument.object,
        (answer request.kind message.status message.value).1,(answer request.kind message.status message.value).2⟩ :
        SettingsOutcome) ∈ (s.step .next).settled := by
      simp [SystemSettings.step,SystemSettings.next,htodo,SystemSettings.act,SystemSettings.callRequest,
        find_at_address h.addresses hrequest haddress,settle,h.attached request hrequest]
    exact hwrong (Option.some.inj (hright.own _ hsettled)).symm
  | detach feature =>
    simp only [Meets,not_forall,not_not] at hbad
    obtain ⟨hattached,hthere,request,hrequest,rfl,hcalled⟩ := hbad
    have hstep : s.step (.detach request.feature) = s.detach request.feature := by
      simp [SystemSettings.step,hattached,hthere]
    rw [hstep] at hright
    refine hright.not_erasing (List.mem_append_left _ (List.mem_append_right _ ?_)) hcalled
    exact List.mem_map_of_mem (List.mem_filter.mpr ⟨hrequest,decide_eq_true rfl⟩)
  | destroy =>
    simp only [Meets,not_forall,not_not] at hbad
    obtain ⟨hthere,request,hrequest,hcalled⟩ := hbad
    have hstep : s.step .destroy = s.destroy := by simp [SystemSettings.step,hthere]
    rw [hstep] at hright
    obtain ⟨-,htodo,hdeleted⟩ := h.toKept.destroy hthere
    have hobject : request.object < s.nextObject := by
      refine List.mem_range.mp (h.objects.mem_iff.mp (List.mem_append_left _ (List.mem_append_right _ ?_)))
      exact List.mem_map_of_mem hrequest
    rw [Called,← htodo] at hcalled
    exact hright.not_erasing (hdeleted _ hobject) hcalled
  | asyncClosed =>
    simp only [Meets,not_forall] at hbad
    obtain ⟨hdestroyed,hopen,htodo,hwaiting⟩ := hbad
    have hstep : s.step .asyncClosed = s.asyncClosed := by simp [SystemSettings.step,hdestroyed,hopen,htodo]
    rw [hstep] at hright
    obtain ⟨hrequests,hsubs,-⟩ := h.ended hdestroyed
    obtain ⟨message,rest,hqueue⟩ := List.exists_cons_of_ne_nil hwaiting
    -- the object of a message that waits has been deleted with its instance
    have hdeleted : message.argument.object ∈ s.deleted := by
      have hmem := h.objects.mem_iff.mpr (List.mem_range.mpr (h.known.2.2 message (by simp [hqueue])))
      simpa [hrequests,hsubs] using hmem
    have hnodup := hright.deleted.of_append_left
    simp only [SystemSettings.asyncClosed,hrequests,hsubs,hqueue,List.map_nil,List.append_nil,List.map_cons] at hnodup
    exact (List.nodup_append.mp hnodup).2.2 _ hdeleted _ List.mem_cons_self rfl
  | setProp feature key value address accepted => exact hbad trivial
  | subscribeProp feature key cid address accepted => exact hbad trivial
  | unsubscribeProp feature key accepted => exact hbad trivial
  | reply argument status value => exact hbad trivial
  | change key status value => exact hbad trivial
  | processMessages => exact hbad trivial

omit [DecidableEq ι] in
theorem Sound.onCreate : (onCreate : SystemSettings ι).Sound := by
  refine ⟨by constructor <;> simp [SystemSettings.onCreate,taken],?_⟩
  simp [SystemSettings.onCreate]

/-- Throughout a run the promises are settled with their own replies and the objects and messages deleted once exactly when
every step meets its condition. -/
theorem requests_right_iff (ops : List (SettingsOp ι)) : Transition.Always SystemSettings.step Right onCreate ops ↔
      Transition.Guarded SystemSettings.step Meets onCreate ops :=
  Transition.always_iff_guarded (fun _ h => h.right) (fun _ op h hmeets => h.step op hmeets)
    (fun _ op h hbad => h.not_right op hbad) Sound.onCreate ops

/-- The reply to the request of an instance that is detached settles the request of another, which was made where the first
one had been. -/
theorem foreign_reply_delivered : ¬ ∀ ops : List (SettingsOp ℕ),
    Transition.Always SystemSettings.step Right onCreate ops := by
  intro h
  have hright := (h [.getProp 0 (some ['a']) 4096 true,.detach 0,.setProp 1 (some ['b']) (some (.text (some ['1']))) 4096 true,
    .reply ⟨0,4096,['a']⟩ (-1) none,.processMessages,.next]).last
  exact absurd (hright.own ⟨1,some 1,some 0,none,some (errGeneral,"miwear_settings setprop failed")⟩ (.head _)) (by decide)

end SystemSettings
end FeatureRuntime
