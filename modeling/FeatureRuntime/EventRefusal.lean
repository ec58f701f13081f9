import FeatureRuntime.EventHandlers

/-! Registrations that are refused: what a call with an argument that is no function and no array of
functions leaves of the handlers of its event and of the references to them. -/
namespace FeatureRuntime

namespace EventTarget

variable {F : Type}

def Refused : EventTarget F → Prop
  | .array elements => none ∈ elements
  | .other => True
  | _ => False

instance [DecidableEq F] : (target : EventTarget F) → Decidable target.Refused
  | .nullish => inferInstanceAs (Decidable False)
  | .function _ => inferInstanceAs (Decidable False)
  | .array elements => inferInstanceAs (Decidable (none ∈ elements))
  | .other => inferInstanceAs (Decidable True)

end EventTarget

namespace EventOp

variable {F : Type}

def target : EventOp F → EventTarget F
  | .on target => target
  | .off target => target
  | .set target => target

/-- The functions that precede the failing element are no news to the handlers: they are registered
already, none of them is registered, or they are the very handlers in their order. -/
def Spares [DecidableEq F] (handlers : List F) : EventOp F → Prop
  | .on target => ∀ f ∈ target.functions, f ∈ handlers
  | .off target => ∀ f ∈ target.functions, f ∉ handlers
  | .set target => target.functions.eraseDups = handlers

instance [DecidableEq F] (handlers : List F) : (op : EventOp F) → Decidable (op.Spares handlers)
  | .on target => inferInstanceAs (Decidable (∀ f ∈ target.functions, f ∈ handlers))
  | .off target => inferInstanceAs (Decidable (∀ f ∈ target.functions, f ∉ handlers))
  | .set target => inferInstanceAs (Decidable (target.functions.eraseDups = handlers))

end EventOp

namespace EventManager

variable {n : ℕ} {T : EventTable n} {F : Type} [DecidableEq F]

def eventOnOff (s : EventManager T F) (event : Fin n) (val : EventTarget F) (is_on : Bool) :
    Bool × EventManager T F :=
  if is_on then s.addEventCallbacks event val else s.removeCallbacks event val

def perform (s : EventManager T F) (event : Fin n) : EventOp F → Bool × EventManager T F
  | .on target => s.eventOnOff event target true
  | .off target => s.eventOnOff event target false
  | .set target => s.eventSet event target

@[simp] theorem perform_snd (s : EventManager T F) (event : Fin n) (op : EventOp F) :
    (s.perform event op).2 = s.step (event,op) := by
  cases op <;> rfl

/-- A refused call returns an error and leaves the handlers and the counts as they were. -/
structure Untouched (s : EventManager T F) (event : Fin n) (op : EventOp F) : Prop where
  reported : (s.perform event op).1 = false
  handlers : (s.perform event op).2.handlers = s.handlers
  refs : (s.perform event op).2.refs = s.refs

theorem editElements_refused {edit : EventManager T F → F → EventManager T F}
    {elements : List (Option F)} (h : none ∈ elements) (s : EventManager T F) :
    (editElements edit elements s).1 = false := by
  induction elements generalizing s with
  | nil => exact absurd h List.not_mem_nil
  | cons element elements ih =>
    cases element with
    | none => rfl
    | some f =>
      have hrest : none ∈ elements := by simpa using h
      exact ih hrest _

theorem callbacks_refused {target : EventTarget F} (h : target.Refused) (s : EventManager T F) (event : Fin n) :
    (s.addEventCallbacks event target).1 = false ∧ (s.removeCallbacks event target).1 = false := by
  cases target with
  | nullish => exact h.elim
  | function f => exact h.elim
  | array elements => exact ⟨editElements_refused h s,editElements_refused h s⟩
  | other => exact ⟨rfl,rfl⟩

theorem perform_refused {op : EventOp F} (h : op.target.Refused) (s : EventManager T F)
    (event : Fin n) : (s.perform event op).1 = false := by
  cases op with
  | on target => exact (callbacks_refused h s event).1
  | off target => exact (callbacks_refused h s event).2
  | set target => exact (callbacks_refused h _ event).1

end EventManager

namespace HandlerEdit

variable {F : Type} [DecidableEq F]

theorem length_le_foldl_add (l handlers : List F) : handlers.length ≤ ((l.map add).foldl apply handlers).length := by
  induction l generalizing handlers with
  | nil => exact le_rfl
  | cons f l ih =>
    refine le_trans ?_ (ih _)
    simp only [apply]
    split_ifs
    · exact le_rfl
    · simp

theorem foldl_add_eq_self_iff (l handlers : List F) :
    (l.map add).foldl apply handlers = handlers ↔ ∀ f ∈ l, f ∈ handlers := by
  induction l generalizing handlers with
  | nil => simp
  | cons f l ih =>
    simp only [List.map_cons,List.foldl_cons,List.forall_mem_cons]
    by_cases hf : f ∈ handlers
    · simp only [apply,hf,true_and]
      exact ih handlers
    · refine iff_of_false (fun heq => ?_) (fun h => hf h.1)
      -- One handler more never goes away again.
      have hlen := length_le_foldl_add l (apply handlers (.add f))
      rw [heq] at hlen
      simp only [apply,if_neg hf,List.length_append,List.length_singleton] at hlen
      omega

theorem foldl_remove (l handlers : List F) : (l.map remove).foldl apply handlers = handlers.filter (· ∉ l) := by
  induction l generalizing handlers with
  | nil => simp
  | cons f l ih =>
    simp only [List.map_cons,List.foldl_cons,apply]
    rw [ih,List.filter_filter]
    refine List.filter_congr (fun g _ => ?_)
    simp [Bool.and_comm]

theorem foldl_remove_eq_self_iff (l handlers : List F) :
    (l.map remove).foldl apply handlers = handlers ↔ ∀ f ∈ l, f ∉ handlers := by
  rw [foldl_remove,List.filter_eq_self]
  simp only [decide_eq_true_eq]
  exact ⟨fun h f hf hmem => h f hmem hf,fun h f hmem hf => h f hf hmem⟩

theorem foldl_add_nil (l : List F) : (l.map add).foldl apply [] = l.eraseDups := by
  induction l using List.reverseRecOn with
  | nil => rfl
  | append_singleton l f ih =>
    rw [List.map_append,List.foldl_append,ih,List.eraseDups_append]
    simp only [List.map_cons,List.map_nil,List.foldl_cons,List.foldl_nil,apply,List.mem_eraseDups,List.removeAll]
    by_cases hf : f ∈ l
    · simp [hf]
    · simp [hf,List.eraseDups_cons]

theorem foldl_edits_eq_self_iff {op : EventOp F} (h : op.target.Refused) (handlers : List F) :
    op.edits.foldl apply handlers = handlers ↔ op.Spares handlers := by
  cases op with
  | on target => exact foldl_add_eq_self_iff target.functions handlers
  | off target =>
    cases target with
    | nullish => exact h.elim
    | function f => exact h.elim
    | array elements => exact foldl_remove_eq_self_iff _ handlers
    | other => exact foldl_remove_eq_self_iff [] handlers
  | set target =>
    have hfold : (EventOp.set target).edits.foldl apply handlers = (target.functions.map add).foldl apply [] := rfl
    rw [hfold,foldl_add_nil]
    rfl

end HandlerEdit

namespace EventManager

variable {n : ℕ} {T : EventTable n} {F : Type} [DecidableEq F]

/-- After every sequence of calls: a refused call returns an error and leaves the handlers, their
order and the counts as they were exactly when the functions before the failing element are no news
to the handlers of the event. -/
theorem untouched_iff_spares (refs : F → ℤ) (labels : List (Fin n × EventOp F)) (event : Fin n)
    (op : EventOp F) (hrefused : op.target.Refused) :
    (Transition.run step ({ refs := refs } : EventManager T F) labels).Untouched event op ↔
      op.Spares ((Transition.run step ({ refs := refs } : EventManager T F) labels).handlers event) := by
  have hs := holds_run (T := T) refs labels
  have hstep := hs.step event op
  rw [hs.handlers event,← HandlerEdit.foldl_edits_eq_self_iff hrefused]
  constructor
  · intro h
    have hhandlers := congrFun h.handlers event
    rwa [perform_snd,hstep.handlers,hs.handlers,Function.update_self] at hhandlers
  · intro hsame
    rw [hsame,Function.update_eq_self] at hstep
    refine ⟨perform_refused hrefused _ event,?_,?_⟩
    · funext e
      rw [perform_snd,hstep.handlers,hs.handlers]
    · funext f
      rw [perform_snd,hstep.refs,hs.refs]

def oneEvent : EventTable 1 where
  id _ := 1
  positive _ := Int.one_pos
  injective e e' _ := Subsingleton.elim e e'

/-- `on` with the one handler and a value that is no function behind it. -/
theorem untouched_by_known_handler : (Transition.run step ({ refs := fun _ => 1 } : EventManager oneEvent ℕ)
      [(0,.on (.function 7))]).Untouched 0 (.on (.array [some 7,none])) :=
  (untouched_iff_spares _ _ 0 (.on (.array [some 7,none])) (by decide)).mpr (by decide)

/-- The handler 7 is registered and a number is assigned to the event: the assignment returns an
error, and the handler is gone with its reference. -/
theorem refused_set_forgets : ¬ ∀ (labels : List (Fin 1 × EventOp ℕ)) (op : EventOp ℕ), op.target.Refused →
      (Transition.run step ({ refs := fun _ => 1 } : EventManager oneEvent ℕ) labels).Untouched 0
        op := by
  intro h
  have hhandlers := (h [(0,.on (.function 7))] (.set .other) trivial).handlers
  exact absurd (congrFun hhandlers 0) (by decide)

end EventManager

end FeatureRuntime
