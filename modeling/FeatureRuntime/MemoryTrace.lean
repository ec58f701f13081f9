import Mathlib.Data.Int.Notation
import Mathlib.Data.Nat.Notation
import Mathlib.Data.List.Basic

/-! The buffers of a C function: computations that may fail and leave a trace of what they do, and what it is
for a trace to keep to its buffers and to give all of them back. -/
namespace FeatureRuntime

universe u

inductive MemoryEvent (B : Type*)
  | alloc (buffer : B) (size : ℕ)
  /-- Bytes are read or written. -/
  | access (buffer : B) (offset length : ℤ)
  | free (buffer : B)
  | divide (divisor : ℕ)
  deriving DecidableEq

inductive BlockState
  | absent
  | live (size : ℕ)
  | freed
  | faulty
  deriving DecidableEq

namespace MemoryEvent

variable {B : Type*} [DecidableEq B]

def advance (b : B) : BlockState → MemoryEvent B → BlockState
  | s,.divide _ => s
  | s,.alloc b' size => if b' ≠ b then s else if s = .absent then .live size else .faulty
  | s,.access b' offset length =>
    if b' ≠ b then s
    else match s with
      | .live size => if 0 ≤ offset ∧ 0 ≤ length ∧ offset + length ≤ size then .live size else .faulty
      | _ => .faulty
  | s,.free b' =>
    if b' ≠ b then s
    else match s with
      | .live _ => .freed
      | _ => .faulty

def block (b : B) (events : List (MemoryEvent B)) : BlockState := events.foldl (advance b) .absent

/-- Every buffer is used within its bounds and while it is there, and freed once; nothing is divided by zero. -/
structure Safe (events : List (MemoryEvent B)) : Prop where
  blocks : ∀ b, block b events = .absent ∨ block b events = .freed
  divisors : ∀ divisor, .divide divisor ∈ events → divisor ≠ 0

def isLive (b : B) (events : List (MemoryEvent B)) : Bool :=
  match block b events with
  | .live _ => true
  | _ => false

theorem block_append (b : B) (xs ys : List (MemoryEvent B)) :
    block b (xs ++ ys) = ys.foldl (advance b) (block b xs) := List.foldl_append

theorem foldl_faulty (b : B) (events : List (MemoryEvent B)) : events.foldl (advance b) .faulty = .faulty := by
  induction events with
  | nil => rfl
  | cons e events ih =>
    have hstep : advance b .faulty e = .faulty := by
      cases e <;> simp [advance]
    rw [List.foldl_cons,hstep,ih]

theorem foldl_of_not_freed (b : B) (size : ℕ) (events : List (MemoryEvent B)) (h : .free b ∉ events) :
    events.foldl (advance b) (.live size) = .live size ∨ events.foldl (advance b) (.live size) = .faulty := by
  induction events with
  | nil => exact .inl rfl
  | cons e events ih =>
    have hrest := ih (fun hmem => h (List.mem_cons_of_mem e hmem))
    rw [List.foldl_cons]
    cases e with
    | divide divisor => exact hrest
    | alloc b' n =>
      by_cases hb : b' = b
      · right
        have hstep : advance b (.live size) (.alloc b' n) = .faulty := by
          simp [advance,hb]
        rw [hstep,foldl_faulty]
      · have hstep : advance b (.live size) (.alloc b' n) = .live size := by
          simp [advance,hb]
        rwa [hstep]
    | access b' offset length =>
      by_cases hb : b' = b
      · by_cases hbounds : 0 ≤ offset ∧ 0 ≤ length ∧ offset + length ≤ size
        · have hstep : advance b (.live size) (.access b' offset length) = .live size := by
            simp [advance,hb,hbounds]
          rwa [hstep]
        · right
          have hstep : advance b (.live size) (.access b' offset length) = .faulty := by
            simp [advance,hb,hbounds]
          rw [hstep,foldl_faulty]
      · have hstep : advance b (.live size) (.access b' offset length) = .live size := by
          simp [advance,hb]
        rwa [hstep]
    | free b' =>
      have hb : b' ≠ b := by
        rintro rfl
        exact h List.mem_cons_self
      have hstep : advance b (.live size) (.free b') = .live size := by
        simp [advance,hb]
      rwa [hstep]

theorem not_safe_of_kept (b : B) (xs ys : List (MemoryEvent B)) (hlive : isLive b xs = true)
    (hkept : .free b ∉ ys) : ¬ Safe (xs ++ ys) := by
  intro hsafe
  have hblock := hsafe.blocks b
  rw [block_append] at hblock
  unfold isLive at hlive
  cases hxs : block b xs with
  | live size =>
    rw [hxs] at hblock
    obtain hlive | hfaulty := foldl_of_not_freed b size ys hkept
    · rw [hlive] at hblock
      simp at hblock
    · rw [hfaulty] at hblock
      simp at hblock
  | absent =>
    rw [hxs] at hlive
    cases hlive
  | freed =>
    rw [hxs] at hlive
    cases hlive
  | faulty =>
    rw [hxs] at hlive
    cases hlive

theorem foldl_frees (b : B) (s : BlockState) {owned : List B} (hnodup : owned.Nodup) :
    (owned.map (.free : B → MemoryEvent B)).foldl (advance b) s =
      if b ∈ owned then advance b s (.free b) else s := by
  induction owned generalizing s with
  | nil => rfl
  | cons b' owned ih =>
    obtain ⟨hnot,hnodup⟩ := List.nodup_cons.mp hnodup
    rw [List.map_cons,List.foldl_cons,ih _ hnodup]
    by_cases hb : b' = b
    · subst hb
      rw [if_neg hnot,if_pos List.mem_cons_self]
    · have hstep : advance b s (.free b') = s := by
        simp [advance,hb]
      rw [hstep]
      have hmem : b ∈ b' :: owned ↔ b ∈ owned := by
        rw [List.mem_cons]
        exact ⟨fun h => h.resolve_left (fun h => hb h.symm),.inr⟩
      simp only [hmem]

/-- A trace that keeps to its buffers is safe once the buffers that are still there are freed. -/
theorem safe_of_released {events : List (MemoryEvent B)} {owned : List B} (hnodup : owned.Nodup)
    (hheld : ∀ b, block b events = .absent ∨ b ∈ owned ∧ isLive b events = true)
    (hdivisors : ∀ divisor, .divide divisor ∈ events → divisor ≠ 0) :
    Safe (events ++ (owned.filter (fun b => isLive b events)).map .free) where
  blocks b := by
    rw [block_append,foldl_frees b _ (hnodup.filter _)]
    obtain habsent | ⟨howned,hlive⟩ := hheld b
    · have hnot : b ∉ owned.filter (fun b => isLive b events) := by
        intro h
        have hlive := (List.mem_filter.mp h).2
        unfold isLive at hlive
        rw [habsent] at hlive
        cases hlive
      rw [if_neg hnot]
      exact .inl habsent
    · rw [if_pos (List.mem_filter.mpr ⟨howned,hlive⟩)]
      unfold isLive at hlive
      cases hblock : block b events with
      | live size =>
        right
        simp [advance]
      | absent =>
        rw [hblock] at hlive
        cases hlive
      | freed =>
        rw [hblock] at hlive
        cases hlive
      | faulty =>
        rw [hblock] at hlive
        cases hlive
  divisors divisor hmem := by
    obtain hmem | hmem := List.mem_append.mp hmem
    · exact hdivisors divisor hmem
    · obtain ⟨b,_,hb⟩ := List.mem_map.mp hmem
      cases hb

theorem not_safe_of_faulty {b : B} {xs : List (MemoryEvent B)} (h : block b xs = .faulty)
    (ys : List (MemoryEvent B)) : ¬ Safe (xs ++ ys) := by
  intro hsafe
  have hblock := hsafe.blocks b
  rw [block_append,h,foldl_faulty] at hblock
  obtain hblock | hblock := hblock <;> cases hblock

end MemoryEvent

/-- A computation that may fail, with the events of it. -/
structure Traced (E ε α : Type*) where
  events : List E
  result : Except ε α

namespace Traced

variable {E ε : Type*} {α β : Type u}

def fail (e : ε) : Traced E ε α := ⟨[],.error e⟩

instance : Monad (Traced E ε) where
  pure a := ⟨[],.ok a⟩
  bind x f := match x.result with
    | .error e => ⟨x.events,.error e⟩
    | .ok a => ⟨x.events ++ (f a).events,(f a).result⟩

def tell (events : List E) : Traced E ε Unit := ⟨events,.ok ()⟩

def after (x : Traced E ε α) (cleanup : Except ε α → List E → List E) : Traced E ε α :=
  ⟨x.events ++ cleanup x.result x.events,x.result⟩

def demand (v : Option α) (e : ε) : Traced E ε α :=
  match v with
  | some a => pure a
  | none => fail e

def ofExcept (x : Except ε α) : Traced E ε α := ⟨[],x⟩

def require (c : Prop) [Decidable c] (e : ε) : Traced E ε Unit := if c then pure () else fail e

def given (c : Prop) [Decidable c] (x : Traced E ε Unit) : Traced E ε Unit := if c then x else pure ()

section Results

variable {x : Traced E ε α} {f : α → Traced E ε β} {a : α} {b : β} {e : ε}

@[simp] theorem result_pure : (pure a : Traced E ε α).result = .ok a := rfl

@[simp] theorem result_fail : (fail e : Traced E ε α).result = .error e := rfl

@[simp] theorem result_tell (events : List E) : (tell events : Traced E ε Unit).result = .ok () := rfl

@[simp] theorem result_ofExcept (v : Except ε α) : (ofExcept v : Traced E ε α).result = v := rfl

@[simp] theorem result_after (cleanup : Except ε α → List E → List E) :
    (x.after cleanup).result = x.result := rfl

theorem bind_ok (hx : x.result = .ok a) : x >>= f = ⟨x.events ++ (f a).events,(f a).result⟩ := by
  change (match x.result with
    | .error e => (⟨x.events,.error e⟩ : Traced E ε β)
    | .ok a => ⟨x.events ++ (f a).events,(f a).result⟩) = _
  rw [hx]

theorem bind_error (hx : x.result = .error e) : x >>= f = ⟨x.events,.error e⟩ := by
  change (match x.result with
    | .error e => (⟨x.events,.error e⟩ : Traced E ε β)
    | .ok a => ⟨x.events ++ (f a).events,(f a).result⟩) = _
  rw [hx]

theorem bind_eq_ok_iff : (x >>= f).result = .ok b ↔ ∃ a, x.result = .ok a ∧ (f a).result = .ok b := by
  cases hx : x.result with
  | error e =>
    rw [bind_error hx]
    constructor
    · intro h
      cases h
    · rintro ⟨a,ha,_⟩
      cases ha
  | ok a =>
    rw [bind_ok hx]
    constructor
    · intro h
      exact ⟨a,rfl,h⟩
    · rintro ⟨a',ha',h⟩
      cases ha'
      exact h

theorem bind_eq_error_iff :
    (x >>= f).result = .error e ↔ x.result = .error e ∨ ∃ a, x.result = .ok a ∧ (f a).result = .error e := by
  cases hx : x.result with
  | error e' =>
    rw [bind_error hx]
    constructor
    · intro h
      cases h
      exact .inl rfl
    · rintro (h | ⟨a,ha,_⟩)
      · cases h
        rfl
      · cases ha
  | ok a =>
    rw [bind_ok hx]
    constructor
    · intro h
      exact .inr ⟨a,rfl,h⟩
    · rintro (h | ⟨a',ha',h⟩)
      · cases h
      · cases ha'
        exact h

theorem mem_bind_iff {event : E} :
    event ∈ (x >>= f).events ↔ event ∈ x.events ∨ ∃ a, x.result = .ok a ∧ event ∈ (f a).events := by
  cases hx : x.result with
  | error e =>
    rw [bind_error hx]
    exact ⟨.inl,fun h => h.resolve_right (fun ⟨_,h,_⟩ => nomatch h)⟩
  | ok a =>
    rw [bind_ok hx,List.mem_append]
    constructor
    · rintro (h | h)
      · exact .inl h
      · exact .inr ⟨a,rfl,h⟩
    · rintro (h | ⟨a',ha',h⟩)
      · exact .inl h
      · cases ha'
        exact .inr h

theorem demand_eq_error_iff {v : Option α} {e' : ε} :
    (demand v e : Traced E ε α).result = .error e' ↔ v = none ∧ e = e' := by
  cases v with
  | none =>
    constructor
    · intro h
      cases h
      exact ⟨rfl,rfl⟩
    · rintro ⟨_,rfl⟩
      rfl
  | some b =>
    constructor
    · intro h
      cases h
    · rintro ⟨h,_⟩
      cases h

theorem demand_eq_ok_iff {v : Option α} : (demand v e : Traced E ε α).result = .ok a ↔ v = some a := by
  cases v with
  | none =>
    constructor
    · intro h
      cases h
    · intro h
      cases h
  | some b =>
    constructor
    · intro h
      cases h
      rfl
    · intro h
      cases h
      rfl

theorem require_eq_ok_iff {c : Prop} [Decidable c] {u : Unit} :
    (require c e : Traced E ε Unit).result = .ok u ↔ c := by
  unfold require
  split_ifs with hc
  · exact iff_of_true rfl hc
  · refine iff_of_false ?_ hc
    intro h
    cases h

theorem require_eq_error_iff {c : Prop} [Decidable c] {e' : ε} :
    (require c e : Traced E ε Unit).result = .error e' ↔ ¬ c ∧ e = e' := by
  unfold require
  split_ifs with hc
  · refine iff_of_false ?_ (fun h => h.1 hc)
    intro h
    cases h
  · constructor
    · intro h
      cases h
      exact ⟨hc,rfl⟩
    · rintro ⟨_,rfl⟩
      rfl

theorem given_eq_error_iff {c : Prop} [Decidable c] {x : Traced E ε Unit} :
    (given c x).result = .error e ↔ c ∧ x.result = .error e := by
  unfold given
  split_ifs with hc
  · exact ⟨fun h => ⟨hc,h⟩,And.right⟩
  · refine iff_of_false ?_ (fun h => hc h.1)
    intro h
    cases h

theorem given_eq_ok_iff {c : Prop} [Decidable c] {x : Traced E ε Unit} {u : Unit} :
    (given c x).result = .ok u ↔ (c → x.result = .ok u) := by
  unfold given
  split_ifs with hc
  · exact ⟨fun h _ => h,fun h => h hc⟩
  · exact iff_of_true rfl (fun h => absurd h hc)

end Results

section All

variable {P : E → Prop}

/-- The events of a computation all have a property. -/
structure All (P : E → Prop) (x : Traced E ε α) : Prop where
  events : ∀ e ∈ x.events, P e

theorem All.pure (a : α) : All P (Pure.pure a : Traced E ε α) := ⟨fun e he => by cases he⟩

theorem All.fail (e : ε) : All P (Traced.fail e : Traced E ε α) := ⟨fun e he => by cases he⟩

theorem All.tell {events : List E} (h : ∀ e ∈ events, P e) : All P (tell events : Traced E ε Unit) := ⟨h⟩

theorem All.ofExcept (v : Except ε α) : All P (ofExcept v : Traced E ε α) := ⟨fun e he => by cases he⟩

theorem All.demand (v : Option α) (e : ε) : All P (demand v e : Traced E ε α) := by
  cases v with
  | none => exact .fail e
  | some a => exact .pure a

theorem All.require (c : Prop) [Decidable c] (e : ε) : All P (require c e : Traced E ε Unit) := by
  unfold Traced.require
  split_ifs
  · exact .pure ()
  · exact .fail e

theorem All.given (c : Prop) [Decidable c] {x : Traced E ε Unit} (hx : x.All P) : All P (given c x) := by
  unfold Traced.given
  split_ifs
  · exact hx
  · exact .pure ()

theorem All.bind {x : Traced E ε α} {f : α → Traced E ε β} (hx : x.All P) (hf : ∀ a, (f a).All P) :
    (x >>= f).All P := by
  cases hresult : x.result with
  | error e =>
    rw [bind_error hresult]
    exact ⟨hx.events⟩
  | ok a =>
    rw [bind_ok hresult]
    constructor
    intro e he
    obtain he | he := List.mem_append.mp he
    · exact hx.events e he
    · exact (hf a).events e he

theorem All.after {x : Traced E ε α} {cleanup : Except ε α → List E → List E} (hx : x.All P)
    (hcleanup : ∀ e ∈ cleanup x.result x.events, P e) : (x.after cleanup).All P := by
  constructor
  intro e he
  obtain he | he := List.mem_append.mp he
  · exact hx.events e he
  · exact hcleanup e he

theorem All.notMem {x : Traced E ε α} (hx : x.All P) {event : E} (h : ¬ P event) : event ∉ x.events :=
  fun hevent => h (hx.events event hevent)

theorem All.mono {Q : E → Prop} {x : Traced E ε α} (hx : x.All P) (h : ∀ e, P e → Q e) : x.All Q :=
  ⟨fun e he => h e (hx.events e he)⟩

end All

section Heap

open MemoryEvent

variable {B A : Type*}

def memory (events : List (MemoryEvent B ⊕ A)) : List (MemoryEvent B) := events.filterMap Sum.getLeft?

theorem memory_append (xs ys : List (MemoryEvent B ⊕ A)) : memory (xs ++ ys) = memory xs ++ memory ys :=
  List.filterMap_append

variable [DecidableEq B]

def heapAfter (events : List (MemoryEvent B ⊕ A)) (σ : B → BlockState) : B → BlockState :=
  fun b => (memory events).foldl (advance b) (σ b)

theorem heapAfter_append (xs ys : List (MemoryEvent B ⊕ A)) (σ : B → BlockState) :
    heapAfter (xs ++ ys) σ = heapAfter ys (heapAfter xs σ) := by
  funext b
  unfold heapAfter
  rw [memory_append,List.foldl_append]

theorem heapAfter_alloc {σ : B → BlockState} {b : B} (h : σ b = .absent) (size : ℕ) :
    heapAfter [(.inl (.alloc b size) : MemoryEvent B ⊕ A)] σ = Function.update σ b (.live size) := by
  funext b'
  change advance b' (σ b') (.alloc b size) = _
  by_cases hb : b = b'
  · subst hb
    rw [Function.update_self]
    simp [advance,h]
  · rw [Function.update_of_ne (Ne.symm hb)]
    simp [advance,hb]

theorem heapAfter_access {σ : B → BlockState} {b : B} {size : ℕ} (h : σ b = .live size) {offset length : ℤ}
    (hbounds : 0 ≤ offset ∧ 0 ≤ length ∧ offset + length ≤ size) :
    heapAfter [(.inl (.access b offset length) : MemoryEvent B ⊕ A)] σ = σ := by
  funext b'
  change advance b' (σ b') (.access b offset length) = _
  by_cases hb : b = b'
  · subst hb
    simp [advance,h,hbounds]
  · simp [advance,hb]

theorem heapAfter_overrun {σ : B → BlockState} {b : B} {size : ℕ} (h : σ b = .live size) {offset length : ℤ}
    (hbounds : ¬ (0 ≤ offset ∧ 0 ≤ length ∧ offset + length ≤ size)) :
    heapAfter [(.inl (.access b offset length) : MemoryEvent B ⊕ A)] σ b = .faulty := by
  change advance b (σ b) (.access b offset length) = _
  simp [advance,h,hbounds]

def Ends (x : Traced (MemoryEvent B ⊕ A) ε α) (σ : B → BlockState) (ok : α → (B → BlockState) → Prop)
    (error : ε → (B → BlockState) → Prop) : Prop :=
  match x.result with
  | .ok a => ok a (heapAfter x.events σ)
  | .error e => error e (heapAfter x.events σ)

variable {x : Traced (MemoryEvent B ⊕ A) ε α} {f : α → Traced (MemoryEvent B ⊕ A) ε β} {σ : B → BlockState}
  {ok : α → (B → BlockState) → Prop} {ok' : β → (B → BlockState) → Prop}
  {error : ε → (B → BlockState) → Prop}

theorem Ends.pure {a : α} (h : ok a σ) : Ends (Pure.pure a : Traced (MemoryEvent B ⊕ A) ε α) σ ok error := h

theorem Ends.bind (h : Ends x σ (fun a σ' => Ends (f a) σ' ok' error) error) : Ends (x >>= f) σ ok' error := by
  unfold Ends at h
  cases hx : x.result with
  | error e =>
    rw [hx] at h
    rw [bind_error hx]
    exact h
  | ok a =>
    rw [hx] at h
    rw [bind_ok hx]
    unfold Ends
    rw [heapAfter_append]
    exact h

theorem Ends.demand {v : Option α} {e : ε} (hsome : ∀ a, v = some a → ok a σ) (hnone : v = none → error e σ) :
    Ends (demand v e : Traced (MemoryEvent B ⊕ A) ε α) σ ok error := by
  cases v with
  | none => exact hnone rfl
  | some a => exact hsome a rfl

theorem Ends.require {c : Prop} [Decidable c] {e : ε} {ok : Unit → (B → BlockState) → Prop} (hc : c → ok () σ)
    (hnot : ¬ c → error e σ) : Ends (require c e : Traced (MemoryEvent B ⊕ A) ε Unit) σ ok error := by
  unfold Traced.require
  split_ifs with h
  · exact hc h
  · exact hnot h

theorem Ends.given {c : Prop} [Decidable c] {x : Traced (MemoryEvent B ⊕ A) ε Unit}
    {ok : Unit → (B → BlockState) → Prop} (hc : c → Ends x σ ok error) (hnot : ¬ c → ok () σ) :
    Ends (given c x) σ ok error := by
  unfold Traced.given
  split_ifs with h
  · exact hc h
  · exact hnot h

theorem Ends.act {a : A} {ok : Unit → (B → BlockState) → Prop} (h : ok () σ) :
    Ends (tell [.inr a] : Traced (MemoryEvent B ⊕ A) ε Unit) σ ok error := h

theorem Ends.mono {ok₁ : α → (B → BlockState) → Prop} {error₁ : ε → (B → BlockState) → Prop}
    (h : Ends x σ ok₁ error₁) (hok : ∀ a σ', ok₁ a σ' → ok a σ') (herror : ∀ e σ', error₁ e σ' → error e σ') :
    Ends x σ ok error := by
  unfold Ends at h ⊢
  cases hx : x.result with
  | error e =>
    rw [hx] at h
    exact herror e _ h
  | ok a =>
    rw [hx] at h
    exact hok a _ h

end Heap
end Traced
end FeatureRuntime
