import Mathlib.Data.List.Basic
import Mathlib.Data.List.Perm.Subperm
import Mathlib.Data.List.TakeWhile
import Mathlib.Data.Nat.Notation
import Mathlib.Order.Basic

/-! Events of an instance: the handlers of one event, the edits that scripts make, and the emission
that walks the handler list in place while the handlers edit it. -/
namespace FeatureRuntime

/-- A list node with a handler. Nodes are numbered in the order of their registration. -/
structure EventEntry (C : Type) where
  id : ℕ
  callback : C
  deriving DecidableEq

/-- `EventData`: the registered handlers of one event. New nodes are appended, so that the list
stays in the order of registration. -/
structure EventData (C : Type) where
  callbacks : List (EventEntry C)
  nextEntry : ℕ
  ordered : callbacks.Pairwise (fun e e' => e.id < e'.id)
  bounded : ∀ e ∈ callbacks, e.id < nextEntry

/-- The argument of `on`, `off` and of an assignment to the event. An array element that is no
function is `none`. -/
inductive EventTarget (C : Type)
  | nullish
  | function (callback : C)
  | array (elements : List (Option C))
  | other

inductive EventOp (C : Type)
  | on (target : EventTarget C)
  | off (target : EventTarget C)
  | set (target : EventTarget C)

namespace EventData

variable {C : Type} [DecidableEq C]

def findEvent (d : EventData C) (callback : C) : Bool :=
  d.callbacks.any (fun e => e.callback = callback)

def addCallback (d : EventData C) (callback : C) : EventData C :=
  if d.findEvent callback then d
  else
    { callbacks := d.callbacks ++ [⟨d.nextEntry,callback⟩]
      nextEntry := d.nextEntry + 1
      ordered := by
        rw [List.pairwise_append]
        refine ⟨d.ordered,List.pairwise_singleton _ _,fun e he e' he' => ?_⟩
        rw [List.mem_singleton.mp he']
        exact d.bounded e he
      bounded := by
        intro e he
        rcases List.mem_append.mp he with hold | hnew
        · exact Nat.lt_succ_of_lt (d.bounded e hold)
        · rw [List.mem_singleton.mp hnew]
          exact Nat.lt_succ_self _ }

/-- The nodes that `keep` selects stay registered. -/
def filter (d : EventData C) (keep : EventEntry C → Bool) : EventData C where
  callbacks := d.callbacks.filter keep
  nextEntry := d.nextEntry
  ordered := d.ordered.filter keep
  bounded e he := d.bounded e (List.mem_of_mem_filter he)

def eraseCallback (d : EventData C) (callback : C) : EventData C :=
  d.filter (fun e => e.callback ≠ callback)

def clear (d : EventData C) : EventData C := d.filter (fun _ => false)

def editAll (edit : EventData C → C → EventData C) : List (Option C) → EventData C → Bool × EventData C
  | [], d => (true,d)
  | none :: _, d => (false,d)
  | some callback :: elements, d => editAll edit elements (edit d callback)

def addEventCallbacks (d : EventData C) (target : EventTarget C) : Bool × EventData C :=
  match target with
  | .nullish => (true,d)
  | .function callback => (true,d.addCallback callback)
  | .array elements => editAll addCallback elements d
  | .other => (false,d)

def removeEventCallbacks (d : EventData C) (target : EventTarget C) : Bool × EventData C :=
  match target with
  | .nullish => (true,d.clear)
  | .function callback => (true,d.eraseCallback callback)
  | .array elements => editAll eraseCallback elements d
  | .other => (false,d)

/-- `eventSet`: the old handlers go first. -/
def eventSet (d : EventData C) (target : EventTarget C) : Bool × EventData C :=
  d.clear.addEventCallbacks target

/-- `eventOnOff` and `eventSet`. -/
def runOp (d : EventData C) : EventOp C → EventData C
  | .on target => (d.addEventCallbacks target).2
  | .off target => (d.removeEventCallbacks target).2
  | .set target => (d.eventSet target).2

def runOps (d : EventData C) (program : List (EventOp C)) : EventData C :=
  program.foldl runOp d

end EventData

inductive EventCursor (C : Type)
  | entry (e : EventEntry C)
  | finished
  /-- The node of the iterator has been deleted: its successor is read from freed memory. -/
  | dangling

/-- A running `doEmitEvent`, with the numbers of the nodes invoked so far. -/
structure Emission (C : Type) where
  data : EventData C
  cursor : EventCursor C
  invoked : List ℕ

namespace Emission

variable {C : Type} [DecidableEq C]

/-- `++it`. -/
def nextCursor (callbacks : List (EventEntry C)) (e : EventEntry C) : EventCursor C :=
  match callbacks.dropWhile (· ≠ e) with
  | [] => .dangling
  | [_] => .finished
  | _ :: next :: _ => .entry next

def start (d : EventData C) : Emission C where
  data := d
  cursor := match d.callbacks with
    | [] => .finished
    | e :: _ => .entry e
  invoked := []

/-- One turn of the loop: `doInvokeCallback`, which calls the handler if the arguments of the event
can be converted, and `++it`. `program` is what each handler does. -/
def step (converts : Bool) (program : C → List (EventOp C)) (s : Emission C) : Emission C :=
  match s.cursor with
  | .entry e =>
    if converts then
      let data := s.data.runOps (program e.callback)
      ⟨data,nextCursor data.callbacks e,s.invoked ++ [e.id]⟩
    else { s with cursor := nextCursor s.data.callbacks e }
  | _ => s

/-- The emission after `n` turns; `script` gives what the handlers do in each turn. -/
def after (d : EventData C) (converts : Bool) (script : ℕ → C → List (EventOp C)) : ℕ → Emission C
  | 0 => start d
  | n + 1 => (after d converts script n).step converts (script n)

end Emission

section Emission

variable {C : Type} [DecidableEq C]

/-- An emission reads only registered nodes, invokes the nodes that stay registered exactly once and
all nodes in the order of their registration, and ends unless handlers are added for ever. -/
structure Tolerates (d : EventData C) (converts : Bool) (script : ℕ → C → List (EventOp C)) :
    Prop where
  registered : ∀ n, (Emission.after d converts script n).cursor ≠ .dangling
  once : ∀ n, (Emission.after d converts script n).cursor = .finished → ∀ e,
    (∀ k, k ≤ n → e ∈ (Emission.after d converts script k).data.callbacks) →
      (Emission.after d converts script n).invoked.count e.id = 1
  order : ∀ n, (Emission.after d converts script n).invoked.Pairwise (· < ·)
  ends : (∃ bound, ∀ n, (Emission.after d converts script n).data.nextEntry ≤ bound) →
    ∃ n, (Emission.after d converts script n).cursor = .finished

def EventOp.removes (callback : C) : EventOp C → Bool
  | .on _ => false
  | .off .nullish => true
  | .off (.function c) => c = callback
  | .off (.array elements) => some callback ∈ elements.takeWhile (·.isSome)
  | .off .other => false
  | .set _ => true

def KeepsRunning (d : EventData C) (converts : Bool) (script : ℕ → C → List (EventOp C)) : Prop :=
  ∀ n e, (Emission.after d converts script n).cursor = .entry e → converts = true →
    ∀ op ∈ script n e.callback, op.removes e.callback = false

end Emission

namespace EventData

variable {C : Type}

/-- What every edit keeps: nodes are only removed, or added behind all others. -/
structure Extends (d d' : EventData C) : Prop where
  next : d.nextEntry ≤ d'.nextEntry
  old : ∀ e ∈ d'.callbacks, e ∈ d.callbacks ∨ d.nextEntry ≤ e.id

theorem Extends.refl (d : EventData C) : Extends d d := ⟨Nat.le_refl _,fun _ he => .inl he⟩

theorem Extends.trans {d d' d'' : EventData C} (h : Extends d d') (h' : Extends d' d'') :
    Extends d d'' := by
  refine ⟨Nat.le_trans h.next h'.next,fun e he => ?_⟩
  rcases h'.old e he with hmid | hnew
  · exact h.old e hmid
  · exact .inr (Nat.le_trans h.next hnew)

theorem extends_filter (d : EventData C) (keep : EventEntry C → Bool) :
    Extends d (d.filter keep) := ⟨Nat.le_refl _,fun _ he => .inl (List.mem_of_mem_filter he)⟩

variable {e : EventEntry C}

theorem Extends.not_mem {d d' : EventData C} (h : Extends d d')
    (hbound : e.id < d.nextEntry) (hgone : e ∉ d.callbacks) : e ∉ d'.callbacks := by
  intro he
  rcases h.old e he with hold | hnew
  · exact hgone hold
  · omega

theorem extends_editAll {edit : EventData C → C → EventData C}
    (hedit : ∀ d callback, Extends d (edit d callback)) (elements : List (Option C))
    (d : EventData C) : Extends d (editAll edit elements d).2 := by
  induction elements generalizing d with
  | nil => exact Extends.refl d
  | cons element elements ih =>
    cases element with
    | none => exact Extends.refl d
    | some callback => exact (hedit d callback).trans (ih _)

variable [DecidableEq C]

theorem extends_addCallback (d : EventData C) (callback : C) : Extends d (d.addCallback callback) := by
  unfold addCallback
  split_ifs
  · exact Extends.refl d
  · refine ⟨Nat.le_succ _,fun e he => ?_⟩
    rcases List.mem_append.mp he with hold | hnew
    · exact .inl hold
    · rw [List.mem_singleton.mp hnew]
      exact .inr (Nat.le_refl _)

theorem extends_addEventCallbacks (d : EventData C) (target : EventTarget C) :
    Extends d (d.addEventCallbacks target).2 := by
  cases target with
  | function callback => exact extends_addCallback d callback
  | array elements => exact extends_editAll extends_addCallback elements d
  | _ => exact Extends.refl d

theorem extends_runOp (d : EventData C) (op : EventOp C) : Extends d (d.runOp op) := by
  cases op with
  | on target => exact extends_addEventCallbacks d target
  | off target =>
    cases target with
    | nullish => exact extends_filter d _
    | function callback => exact extends_filter d _
    | array elements => exact extends_editAll (fun d _ => extends_filter d _) elements d
    | other => exact Extends.refl d
  | set target => exact (extends_filter d _).trans (extends_addEventCallbacks _ target)

theorem extends_runOps (d : EventData C) (program : List (EventOp C)) : Extends d (d.runOps program) := by
  induction program generalizing d with
  | nil => exact Extends.refl d
  | cons op program ih => exact (extends_runOp d op).trans (ih _)

theorem mem_addCallback {d : EventData C} (he : e ∈ d.callbacks)
    (callback : C) : e ∈ (d.addCallback callback).callbacks := by
  unfold addCallback
  split_ifs
  · exact he
  · exact List.mem_append_left _ he

theorem mem_addAll (elements : List (Option C)) {d : EventData C}
    (he : e ∈ d.callbacks) : e ∈ (editAll addCallback elements d).2.callbacks := by
  induction elements generalizing d with
  | nil => exact he
  | cons element elements ih =>
    cases element with
    | none => exact he
    | some callback => exact ih (mem_addCallback he callback)

theorem mem_eraseCallback {d : EventData C} (callback : C) :
    e ∈ (d.eraseCallback callback).callbacks ↔ e ∈ d.callbacks ∧ e.callback ≠ callback := by
  simp [eraseCallback,filter]

theorem mem_eraseAll (elements : List (Option C)) {d : EventData C} :
    e ∈ (editAll eraseCallback elements d).2.callbacks ↔
      e ∈ d.callbacks ∧ some e.callback ∉ elements.takeWhile (·.isSome) := by
  induction elements generalizing d with
  | nil => simp [editAll]
  | cons element elements ih =>
    cases element with
    | none => simp [editAll]
    | some callback =>
      rw [editAll,ih,mem_eraseCallback,List.takeWhile_cons_of_pos rfl,List.mem_cons,not_or,
        and_assoc,Option.some.injEq]

theorem mem_runOp {d : EventData C} (he : e ∈ d.callbacks) (op : EventOp C) :
    e ∈ (d.runOp op).callbacks ↔ op.removes e.callback = false := by
  have hclear : e ∉ d.clear.callbacks := by simp [clear,filter]
  cases op with
  | on target =>
    refine iff_of_true ?_ rfl
    cases target with
    | function callback => exact mem_addCallback he callback
    | array elements => exact mem_addAll elements he
    | _ => exact he
  | off target =>
    cases target with
    | nullish => exact iff_of_false hclear (by simp [EventOp.removes])
    | function callback =>
      simp only [runOp,removeEventCallbacks,mem_eraseCallback,he,true_and,EventOp.removes,decide_eq_false_iff_not]
      exact ne_comm
    | array elements =>
      simp only [runOp,removeEventCallbacks,mem_eraseAll,he,true_and,EventOp.removes,decide_eq_false_iff_not]
    | other => exact iff_of_true he rfl
  | set target =>
    refine iff_of_false ?_ (by simp [EventOp.removes])
    exact (extends_addEventCallbacks d.clear target).not_mem (d.bounded e he) hclear

theorem mem_runOps {d : EventData C} (he : e ∈ d.callbacks) (program : List (EventOp C)) :
    e ∈ (d.runOps program).callbacks ↔ ∀ op ∈ program, op.removes e.callback = false := by
  induction program generalizing d with
  | nil => simp [runOps,he]
  | cons op program ih =>
    rw [List.forall_mem_cons,← mem_runOp he op]
    by_cases hop : e ∈ (d.runOp op).callbacks
    · rw [and_iff_right hop]
      exact ih hop
    · refine iff_of_false ?_ (fun h => hop h.1)
      refine (extends_runOps (d.runOp op) program).not_mem ?_ hop
      exact Nat.lt_of_lt_of_le (d.bounded e he) (extends_runOp d op).next

end EventData

theorem length_le_of_pairwise {l : List ℕ} {bound : ℕ} (h : l.Pairwise (· < ·))
    (hbound : ∀ x ∈ l, x < bound) : l.length ≤ bound := by
  have hnodup : l.Nodup := h.imp (fun hlt => Nat.ne_of_lt hlt)
  have hsub : l ⊆ List.range bound := fun x hx => List.mem_range.mpr (hbound x hx)
  simpa using (List.subperm_of_subset hnodup hsub).length_le

namespace Emission

variable {C : Type}

/-- Between two turns: the nodes before the iterator have been invoked, those behind it have not. -/
structure Inv (s : Emission C) : Prop where
  order : s.invoked.Pairwise (· < ·)
  bounded : ∀ id ∈ s.invoked, id < s.data.nextEntry
  registered : s.cursor ≠ .dangling
  entry : ∀ e, s.cursor = .entry e → e ∈ s.data.callbacks ∧ (∀ id ∈ s.invoked, id < e.id) ∧
    ∀ e' ∈ s.data.callbacks, e'.id < e.id → e'.id ∈ s.invoked
  finished : s.cursor = .finished → ∀ e ∈ s.data.callbacks, e.id ∈ s.invoked

theorem inv_start (d : EventData C) : Inv (start d) := by
  have hordered := d.ordered
  refine ⟨List.Pairwise.nil,by simp [start],?_,fun e he => ?_,fun hfin e he => ?_⟩
  · unfold start
    cases d.callbacks <;> simp
  · simp only [start] at he ⊢
    cases hcb : d.callbacks with
    | nil => simp [hcb] at he
    | cons first rest =>
      rw [hcb] at he hordered
      obtain rfl : first = e := by simpa using he
      refine ⟨List.mem_cons_self,by simp,fun e' he' hlt => ?_⟩
      rcases List.mem_cons.mp he' with rfl | hin
      · omega
      · have := (List.pairwise_cons.mp hordered).1 e' hin
        omega
  · simp only [start] at hfin he
    cases hcb : d.callbacks with
    | nil => simp [hcb] at he
    | cons first rest => simp [hcb] at hfin

variable [DecidableEq C]

theorem nextCursor_cases (d : EventData C) {e : EventEntry C} (he : e ∈ d.callbacks) :
    (nextCursor d.callbacks e = .finished ∧ ∀ e' ∈ d.callbacks, e'.id ≤ e.id) ∨
    ∃ next ∈ d.callbacks, nextCursor d.callbacks e = .entry next ∧ e.id < next.id ∧
      ∀ e' ∈ d.callbacks, e'.id ≤ e.id ∨ next.id ≤ e'.id := by
  have hordered := d.ordered
  obtain ⟨pre,post,hsplit⟩ := List.append_of_mem he
  rw [hsplit] at hordered ⊢
  rw [List.pairwise_append,List.pairwise_cons] at hordered
  obtain ⟨-,⟨hpost,hpostOrdered⟩,hpre⟩ := hordered
  have hdrop : (pre ++ e :: post).dropWhile (· ≠ e) = e :: post := by
    rw [List.dropWhile_append_of_pos]
    · simp
    · intro x hx
      have := hpre x hx e List.mem_cons_self
      simp only [ne_eq,decide_not,Bool.not_eq_eq_eq_not,Bool.not_true,decide_eq_false_iff_not]
      rintro rfl
      omega
  unfold nextCursor
  rw [hdrop]
  cases post with
  | nil =>
    refine .inl ⟨rfl,fun e' he' => ?_⟩
    rcases List.mem_append.mp he' with hin | hin
    · exact Nat.le_of_lt (hpre e' hin e List.mem_cons_self)
    · obtain rfl := List.mem_singleton.mp hin
      exact Nat.le_refl _
  | cons next post =>
    rw [List.pairwise_cons] at hpostOrdered
    refine .inr ⟨next,by simp,rfl,hpost next List.mem_cons_self,fun e' he' => ?_⟩
    rcases List.mem_append.mp he' with hin | hin
    · exact .inl (Nat.le_of_lt (hpre e' hin e List.mem_cons_self))
    · rcases List.mem_cons.mp hin with rfl | hin
      · exact .inl (Nat.le_refl _)
      · rcases List.mem_cons.mp hin with rfl | hin
        · exact .inr (Nat.le_refl _)
        · exact .inr (Nat.le_of_lt (hpostOrdered.1 e' hin))

/-- A turn that calls the handler, when the handler leaves its own node alone. -/
theorem Inv.step {s : Emission C} (h : Inv s) (program : C → List (EventOp C))
    (hkeeps : ∀ e, s.cursor = .entry e → ∀ op ∈ program e.callback, op.removes e.callback = false) :
    Inv (s.step true program) := by
  unfold Emission.step
  cases hcursor : s.cursor with
  | entry e =>
    obtain ⟨he,hbefore,hinvoked⟩ := h.entry e hcursor
    have hext := EventData.extends_runOps s.data (program e.callback)
    have hstays := (EventData.mem_runOps he (program e.callback)).mpr (hkeeps e hcursor)
    -- whatever lies at or before the node was registered before, and has been invoked by now
    have hdone : ∀ e' ∈ (s.data.runOps (program e.callback)).callbacks, e'.id ≤ e.id →
        e'.id ∈ s.invoked ++ [e.id] := by
      intro e' he' hle
      rcases Nat.lt_or_eq_of_le hle with hlt | heq
      · rcases hext.old e' he' with hold | hnew
        · exact List.mem_append_left _ (hinvoked e' hold hlt)
        · have := s.data.bounded e he
          omega
      · rw [heq]
        simp
    have horder : (s.invoked ++ [e.id]).Pairwise (· < ·) := by
      rw [List.pairwise_append]
      refine ⟨h.order,List.pairwise_singleton _ _,fun x hx y hy => ?_⟩
      rw [List.mem_singleton.mp hy]
      exact hbefore x hx
    have hbounded : ∀ id ∈ s.invoked ++ [e.id], id < (s.data.runOps (program e.callback)).nextEntry := by
      intro id hid
      rcases List.mem_append.mp hid with hold | hnew
      · exact Nat.lt_of_lt_of_le (h.bounded id hold) hext.next
      · rw [List.mem_singleton.mp hnew]
        exact Nat.lt_of_lt_of_le (s.data.bounded e he) hext.next
    simp only [if_true]
    rcases nextCursor_cases _ hstays with ⟨hnext,hlast⟩ | ⟨next,hin,hnext,hlt,hgap⟩
    · refine ⟨horder,hbounded,?_,fun e' he' => ?_,fun _ e' he' => ?_⟩
      · simp [hnext]
      · simp [hnext] at he'
      · exact hdone e' he' (hlast e' he')
    · refine ⟨horder,hbounded,?_,fun e' he' => ?_,fun hfin => ?_⟩
      · simp [hnext]
      · obtain rfl : next = e' := by simpa [hnext] using he'
        refine ⟨hin,fun id hid => ?_,fun e' he' hlt' => ?_⟩
        · rcases List.mem_append.mp hid with hold | hnew
          · exact Nat.lt_trans (hbefore id hold) hlt
          · rw [List.mem_singleton.mp hnew]
            exact hlt
        · refine hdone e' he' ((hgap e' he').resolve_right ?_)
          omega
      · simp [hnext] at hfin
  | finished => simpa [hcursor] using h
  | dangling => exact absurd hcursor h.registered

section Run

variable {d : EventData C} {script : ℕ → C → List (EventOp C)}

theorem inv_after (hkeeps : KeepsRunning d true script) (n : ℕ) : Inv (after d true script n) := by
  induction n with
  | zero => exact inv_start d
  | succ n ih => exact ih.step (script n) (fun e he => hkeeps n e he rfl)

theorem length_invoked (hkeeps : KeepsRunning d true script) {n : ℕ}
    (h : ∀ k, k < n → (after d true script k).cursor ≠ .finished) :
    (after d true script n).invoked.length = n := by
  induction n with
  | zero => rfl
  | succ n ih =>
    have hprev := ih (fun k hk => h k (Nat.lt_succ_of_lt hk))
    have hinv := inv_after hkeeps n
    rw [after,step]
    cases hcursor : (after d true script n).cursor with
    | entry e => simp [hprev]
    | finished => exact absurd hcursor (h n (Nat.lt_succ_self n))
    | dangling => exact absurd hcursor hinv.registered

/-- The node of a handler that removes itself is gone when its successor is read. -/
theorem step_dangling {s : Emission C} (h : Inv s) {e : EventEntry C} (hcursor : s.cursor = .entry e)
    (program : C → List (EventOp C)) {op : EventOp C} (hop : op ∈ program e.callback)
    (hremoves : op.removes e.callback = true) : (s.step true program).cursor = .dangling := by
  have he := (h.entry e hcursor).1
  have hgone : e ∉ (s.data.runOps (program e.callback)).callbacks := by
    rw [EventData.mem_runOps he]
    intro hall
    rw [hall op hop] at hremoves
    exact Bool.noConfusion hremoves
  simp only [step,hcursor,if_true]
  have hdrop : (s.data.runOps (program e.callback)).callbacks.dropWhile (· ≠ e) = [] := by
    rw [List.dropWhile_eq_nil_iff]
    intro x hx
    simp only [ne_eq,decide_not,Bool.not_eq_eq_eq_not,Bool.not_true,decide_eq_false_iff_not]
    rintro rfl
    exact hgone hx
  rw [nextCursor,hdrop]

theorem after_unconverted (n : ℕ) : (after d false script n).data = d ∧
    (after d false script n).invoked = [] ∧ ∀ e, (after d false script n).cursor = .entry e →
      e ∈ d.callbacks ∧ n ≤ e.id := by
  induction n with
  | zero =>
    refine ⟨rfl,rfl,fun e he => ⟨?_,Nat.zero_le _⟩⟩
    exact ((inv_start d).entry e he).1
  | succ n ih =>
    obtain ⟨hdata,hinvoked,hentry⟩ := ih
    rw [after,step]
    cases hcursor : (after d false script n).cursor with
    | entry e =>
      obtain ⟨he,hle⟩ := hentry e hcursor
      refine ⟨hdata,hinvoked,fun next hnext => ?_⟩
      simp only [Bool.false_eq_true,if_false,hdata] at hnext
      rcases nextCursor_cases d he with ⟨hfin,-⟩ | ⟨next',hin,hnext',hlt,-⟩
      · simp [hfin] at hnext
      · obtain rfl : next' = next := by simpa [hnext'] using hnext
        exact ⟨hin,by omega⟩
    | finished => exact ⟨hdata,hinvoked,fun e he => by simp [hcursor] at he⟩
    | dangling => exact ⟨hdata,hinvoked,fun e he => by simp [hcursor] at he⟩

end Run

end Emission

section Claim

variable {C : Type} [DecidableEq C]

theorem tolerates_of_keepsRunning {d : EventData C} {script : ℕ → C → List (EventOp C)}
    (h : KeepsRunning d true script) : Tolerates d true script := by
  have hinv := Emission.inv_after h
  refine ⟨fun n => (hinv n).registered,fun n hfin e hstays => ?_,fun n => (hinv n).order,?_⟩
  · have hmem := (hinv n).finished hfin e (hstays n (Nat.le_refl n))
    have hnodup : (Emission.after d true script n).invoked.Nodup :=
      (hinv n).order.imp (fun hlt => Nat.ne_of_lt hlt)
    rw [hnodup.count,if_pos hmem]
  · rintro ⟨bound,hbound⟩
    by_contra hnever
    rw [not_exists] at hnever
    have hlen := Emission.length_invoked h (n := bound + 1) (fun k _ => hnever k)
    have hle := length_le_of_pairwise (hinv (bound + 1)).order
      (fun x hx => Nat.lt_of_lt_of_le ((hinv (bound + 1)).bounded x hx) (hbound (bound + 1)))
    omega

/-- An emission tolerates what its handlers do exactly when none of them removes itself while it
runs. An emission whose arguments cannot be converted invokes nothing. -/
theorem tolerates_iff (d : EventData C) (converts : Bool) (script : ℕ → C → List (EventOp C)) :
    Tolerates d converts script ↔ (converts = true ∨ d.callbacks = []) ∧ KeepsRunning d converts script := by
  cases converts with
  | true =>
    refine ⟨fun h => ⟨.inl rfl,?_⟩,fun h => tolerates_of_keepsRunning h.2⟩
    -- up to the first turn that breaks the condition, the invariant holds
    have hfirst : ∀ n, Emission.Inv (Emission.after d true script n) ∧
        ∀ e, (Emission.after d true script n).cursor = .entry e →
          ∀ op ∈ script n e.callback, op.removes e.callback = false := by
      intro n
      have hturn : ∀ n, Emission.Inv (Emission.after d true script n) →
          ∀ e, (Emission.after d true script n).cursor = .entry e →
            ∀ op ∈ script n e.callback, op.removes e.callback = false := by
        intro n hinv e he op hop
        by_contra hbad
        rw [Bool.not_eq_false] at hbad
        exact h.registered (n + 1) (Emission.step_dangling hinv he (script n) hop hbad)
      induction n with
      | zero => exact ⟨Emission.inv_start d,hturn 0 (Emission.inv_start d)⟩
      | succ n ih =>
        have hinv := ih.1.step (script n) ih.2
        exact ⟨hinv,hturn (n + 1) hinv⟩
    exact fun n e he _ => (hfirst n).2 e he
  | false =>
    constructor
    · intro h
      refine ⟨.inr ?_,fun _ _ _ hconv => Bool.noConfusion hconv⟩
      have hafter := @Emission.after_unconverted C _ d script
      obtain ⟨n,hfin⟩ := h.ends ⟨d.nextEntry,fun n => by rw [(hafter n).1]⟩
      refine List.eq_nil_iff_forall_not_mem.mpr (fun e he => ?_)
      have hcount := h.once n hfin e (fun k _ => by rw [(hafter k).1]; exact he)
      rw [(hafter n).2.1] at hcount
      simp at hcount
    · rintro ⟨hnil,-⟩
      have hempty : d.callbacks = [] := by simpa using hnil
      have hafter := @Emission.after_unconverted C _ d script
      have hall : ∀ n, Emission.after d false script n = Emission.start d := by
        intro n
        induction n with
        | zero => rfl
        | succ n ih => simp [Emission.after,ih,Emission.step,Emission.start,hempty]
      have hstart : (Emission.start d).cursor = .finished := by simp [Emission.start,hempty]
      refine ⟨fun n => ?_,fun n _ e he => ?_,fun n => ?_,fun _ => ⟨0,hstart⟩⟩
      · rw [hall,hstart]
        simp
      · have := he n (Nat.le_refl n)
        rw [(hafter n).1,hempty] at this
        simp at this
      · rw [(hafter n).2.1]
        exact List.Pairwise.nil

def twoHandlers : EventData ℕ where
  callbacks := [⟨0,10⟩,⟨1,11⟩]
  nextEntry := 2
  ordered := by decide
  bounded := by decide

/-- The first handler removes itself: the node whose successor the loop reads is freed. -/
theorem not_tolerates_self_removal : ¬Tolerates twoHandlers true (fun _ c => [.off (.function c)]) := by
  intro h
  exact h.registered 1 rfl

end Claim

end FeatureRuntime
