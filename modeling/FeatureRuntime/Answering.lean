import Mathlib.Data.List.Basic
import Mathlib.Data.Nat.Notation
import Mathlib.Tactic.SplitIfs

/-! Calls that answer through callbacks: what a call tells of its operation, and whether that is the truth. -/
namespace FeatureRuntime

inductive ReplyCallback
  | success
  | fail
  | complete
  deriving DecidableEq

/-- A call performs its operation, invokes a callback or removes one. -/
inductive ReplyEvent (R : Type*)
  | perform
  | success (result : R)
  | fail (msg : String) (code : ℕ)
  | complete
  | remove (callback : ReplyCallback)
  deriving DecidableEq

namespace ReplyEvent

variable {R : Type*}

def invocation : ReplyEvent R → Option ReplyCallback
  | .success _ => some .success
  | .fail _ _ => some .fail
  | .complete => some .complete
  | _ => none

def removal : ReplyEvent R → Option ReplyCallback
  | .remove callback => some callback
  | _ => none

/-- A call tells the truth: a success, with the result, exactly of an operation that was performed and has come to
a result; a failure of no such operation; an operation that is not supported is not performed; `complete` comes
once and last, and each callback that was supplied is removed once. -/
structure Truthful (supplied : ReplyCallback → Bool) (supported : Prop) (outcome : Option R)
    (events : List (ReplyEvent R)) : Prop where
  success : ∀ result, .success result ∈ events ↔ supplied .success = true ∧ .perform ∈ events ∧ outcome = some result
  fail : ∀ msg code, .fail msg code ∈ events → ¬ (.perform ∈ events ∧ outcome.isSome = true)
  unsupported : ¬ supported → .perform ∉ events
  complete : supplied .complete = true →
    ∃ before, events.filterMap invocation = before ++ [.complete] ∧ .complete ∉ before
  removed : ∀ callback, supplied callback = true → (events.filterMap removal).count callback = 1

/-- What is told of an outcome. Where there is a result and nobody to hear of it, this falls through to `fail`. -/
def told (supplied : ReplyCallback → Bool) (outcome : Option R) (msg : String) (code : ℕ) : List (ReplyEvent R) :=
  match outcome,supplied .success with
  | some result,true => [.success result]
  | _,_ => if supplied .fail then [.fail msg code] else []

def closing (supplied : ReplyCallback → Bool) (outcome : Option R) (msg : String) (code : ℕ)
    (removes : List ReplyCallback) : List (ReplyEvent R) :=
  told supplied outcome msg code ++ (if supplied .complete then [.complete] else []) ++ removes.map .remove

section Told

variable {supplied : ReplyCallback → Bool} {outcome : Option R} {msg : String} {code : ℕ}

theorem success_mem_told {result : R} :
    .success result ∈ told supplied outcome msg code ↔ supplied .success = true ∧ outcome = some result := by
  unfold told
  cases outcome with
  | none =>
    cases supplied .fail <;> simp
  | some result' =>
    cases supplied .success with
    | true => simp [eq_comm]
    | false => cases supplied .fail <;> simp

theorem fail_mem_told {msg' : String} {code' : ℕ} (h : .fail msg' code' ∈ told supplied outcome msg code) :
    supplied .fail = true ∧ (outcome.isSome = true → supplied .success = false) := by
  revert h
  unfold told
  cases outcome with
  | none => cases supplied .fail <;> simp
  | some result => cases supplied .success <;> cases supplied .fail <;> simp

theorem fail_told (hfail : supplied .fail = true) (hsuccess : outcome.isSome = true → supplied .success = false) :
    .fail msg code ∈ told supplied outcome msg code := by
  unfold told
  rw [if_pos hfail]
  cases outcome with
  | none => exact List.mem_singleton_self _
  | some result =>
    rw [hsuccess rfl]
    exact List.mem_singleton_self _

theorem told_cases (supplied : ReplyCallback → Bool) (outcome : Option R) (msg : String) (code : ℕ) :
    told supplied outcome msg code = [] ∨ (∃ result, told supplied outcome msg code = [.success result]) ∨
      told supplied outcome msg code = [.fail msg code] := by
  unfold told
  split
  · exact .inr (.inl ⟨_,rfl⟩)
  · split_ifs
    · exact .inr (.inr rfl)
    · exact .inl rfl

theorem complete_notMem_told : .complete ∉ (told supplied outcome msg code).filterMap invocation := by
  obtain h | ⟨result,h⟩ | h := told_cases supplied outcome msg code <;>
    (rw [h]; simp [invocation])

theorem perform_notMem_told : .perform ∉ told supplied outcome msg code := by
  obtain h | ⟨result,h⟩ | h := told_cases supplied outcome msg code <;>
    (rw [h]; simp)

theorem removal_told : (told supplied outcome msg code).filterMap removal = [] := by
  obtain h | ⟨result,h⟩ | h := told_cases supplied outcome msg code <;>
    (rw [h]; simp [removal])

end Told

section Calls

variable {supplied : ReplyCallback → Bool} {supported : Prop} {outcome : Option R} {body : List (ReplyEvent R)}
  {msg : String} {code : ℕ} {removes : List ReplyCallback}

theorem filterMap_body {α : Type*} {f : ReplyEvent R → Option α} (hbody : ∀ event ∈ body, event = .perform)
    (hf : f .perform = none) : body.filterMap f = [] := by
  apply List.filterMap_eq_nil_iff.mpr
  intro event hevent
  rw [hbody event hevent,hf]

theorem invocation_removes : (removes.map .remove : List (ReplyEvent R)).filterMap invocation = [] := by
  apply List.filterMap_eq_nil_iff.mpr
  intro event hevent
  obtain ⟨callback,_,rfl⟩ := List.mem_map.mp hevent
  rfl

theorem removal_removes : (removes.map .remove : List (ReplyEvent R)).filterMap removal = removes := by
  rw [List.filterMap_map]
  exact List.filterMap_some

theorem mem_call_iff (event : ReplyEvent R) (hcomplete : event ≠ .complete)
    (hremove : ∀ callback, event ≠ .remove callback) :
    event ∈ body ++ closing supplied outcome msg code removes ↔
      event ∈ body ∨ event ∈ told supplied outcome msg code := by
  unfold closing
  rw [List.mem_append,List.mem_append,List.mem_append]
  have hmap : event ∉ (removes.map .remove : List (ReplyEvent R)) := by
    intro h
    obtain ⟨callback,_,h⟩ := List.mem_map.mp h
    exact hremove callback h.symm
  have hif : event ∉ (if supplied .complete then [.complete] else [] : List (ReplyEvent R)) := by
    split_ifs <;> simp [hcomplete]
  rw [or_iff_left hmap,or_iff_left hif]

/-- A call that ends as it should tells the truth if and only if it does not perform what is not supported, a
result is not told as a failure, and each callback that was supplied is removed once. -/
theorem truthful_closing_iff (hbody : ∀ event ∈ body, event = .perform)
    (hperformed : outcome.isSome = true → .perform ∈ body) :
    Truthful supplied supported outcome (body ++ closing supplied outcome msg code removes) ↔
      (¬ supported → .perform ∉ body) ∧
      (outcome.isSome = true → supplied .success = true ∨ supplied .fail = false) ∧
      ∀ callback, supplied callback = true → removes.count callback = 1 := by
  have hperform : .perform ∈ body ++ closing supplied outcome msg code removes ↔ .perform ∈ body := by
    rw [mem_call_iff .perform nofun (fun _ => nofun),or_iff_left perform_notMem_told]
  have hsuccess (result : R) : .success result ∈ body ++ closing supplied outcome msg code removes ↔
      supplied .success = true ∧ outcome = some result := by
    rw [mem_call_iff (.success result) nofun (fun _ => nofun),or_iff_right (fun h => nomatch hbody (.success result) h),
      success_mem_told]
  have hfail (msg' : String) (code' : ℕ) : .fail msg' code' ∈ body ++ closing supplied outcome msg code removes ↔
      .fail msg' code' ∈ told supplied outcome msg code := by
    rw [mem_call_iff (.fail msg' code') nofun (fun _ => nofun),or_iff_right (fun h => nomatch hbody (.fail msg' code') h)]
  have hremoval : (body ++ closing supplied outcome msg code removes).filterMap removal = removes := by
    unfold closing
    rw [List.filterMap_append,List.filterMap_append,List.filterMap_append,filterMap_body hbody rfl,removal_told,
      removal_removes]
    split_ifs <;> rfl
  constructor
  · intro h
    refine ⟨fun hn => hperform.not.mp (h.unsupported hn),fun hsome => ?_,fun callback hc => ?_⟩
    · by_contra hnot
      rw [not_or,Bool.not_eq_true,Bool.not_eq_false] at hnot
      have htold := (hfail msg code).mpr (fail_told hnot.2 (fun _ => hnot.1))
      exact h.fail msg code htold ⟨hperform.mpr (hperformed hsome),hsome⟩
    · rw [← hremoval]
      exact h.removed callback hc
  · rintro ⟨hsupported,hhears,hremoves⟩
    constructor
    · intro result
      rw [hsuccess,hperform]
      constructor
      · rintro ⟨hs,rfl⟩
        exact ⟨hs,hperformed rfl,rfl⟩
      · exact fun ⟨hs,_,h⟩ => ⟨hs,h⟩
    · rintro msg' code' hmem ⟨_,hsome⟩
      obtain ⟨hf,hs⟩ := fail_mem_told ((hfail msg' code').mp hmem)
      obtain h | h := hhears hsome
      · rw [hs hsome] at h
        cases h
      · rw [hf] at h
        cases h
    · exact fun hn => hperform.not.mpr (hsupported hn)
    · intro hc
      refine ⟨(told supplied outcome msg code).filterMap invocation,?_,complete_notMem_told⟩
      unfold closing
      rw [if_pos hc,List.filterMap_append,List.filterMap_append,List.filterMap_append,filterMap_body hbody rfl,
        invocation_removes,List.append_nil]
      rfl
    · intro callback hc
      rw [hremoval]
      exact hremoves callback hc

/-- A call that ends without a word tells the truth if and only if nobody listens. -/
theorem truthful_silent_iff (hbody : ∀ event ∈ body, event = .perform) : Truthful supplied supported outcome body ↔
      (¬ supported → .perform ∉ body) ∧ ∀ callback, supplied callback = false := by
  constructor
  · intro h
    refine ⟨h.unsupported,fun callback => ?_⟩
    by_contra hc
    have hcount := h.removed callback (by simpa using hc)
    rw [filterMap_body hbody rfl] at hcount
    cases hcount
  · rintro ⟨hsupported,hnobody⟩
    constructor
    · intro result
      rw [hnobody]
      exact iff_of_false (fun h => nomatch hbody (.success result) h) (fun h => nomatch h.1)
    · exact fun msg' code' h => nomatch hbody (.fail msg' code') h
    · exact hsupported
    · intro hc
      rw [hnobody] at hc
      cases hc
    · intro callback hc
      rw [hnobody] at hc
      cases hc

end Calls
end ReplyEvent
end FeatureRuntime
