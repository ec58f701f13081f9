import FeatureRuntime.Transition
import Mathlib.Data.Fintype.Basic
import Mathlib.Data.List.Basic
import Mathlib.Data.Nat.Notation
import Mathlib.Logic.Function.Basic

/-! Requests: what a call does before it returns, what its completion does, and every order in which
calls, completions and the callbacks of the script follow each other. -/
namespace FeatureRuntime

/-- A callback of a request is invoked, or a resource of it is acquired, used or released. -/
inductive RequestEvent (C R : Type*)
  | invoke (callback : C)
  | acquire (resource : R)
  | touch (resource : R)
  | release (resource : R)
  deriving DecidableEq

inductive Stage
  | absent
  | held
  | released
  | misused
  deriving DecidableEq

namespace RequestEvent

variable {C R : Type*} [DecidableEq R]

def advance (r : R) : Stage → RequestEvent C R → Stage
  | stage, .invoke _ => stage
  | stage, .acquire r' => if r' ≠ r then stage else if stage = .absent then .held else .misused
  | stage, .touch r' => if r' ≠ r then stage else if stage = .held then .held else .misused
  | stage, .release r' => if r' ≠ r then stage else if stage = .held then .released else .misused

def stage (r : R) (events : List (RequestEvent C R)) : Stage := events.foldl (advance r) .absent

def Settled (events : List (RequestEvent C R)) : Prop :=
  ∀ r, stage r events = .absent ∨ stage r events = .released

def invoked : List (RequestEvent C R) → List C
  | [] => []
  | .invoke c :: events => c :: invoked events
  | _ :: events => invoked events

instance [Fintype R] (events : List (RequestEvent C R)) : Decidable (Settled events) :=
  inferInstanceAs (Decidable (∀ r, stage r events = .absent ∨ stage r events = .released))

end RequestEvent

/-- The callback ids that a call has of its instance. -/
structure Holding where
  feature : ℕ
  ids : List ℤ

namespace Holding

/-- The calls that lose an id when the call `m` removes it: the ids of an instance are shared. -/
def robbed (held : List Holding) (m : ℕ) (id : ℤ) : List (ℕ × ℤ) :=
  ((List.range held.length).filter (fun n => n ≠ m ∧ ∃ a ∈ held[m]?, ∃ b ∈ held[n]?,
    a.feature = b.feature ∧ id ∈ a.ids ∧ id ∈ b.ids)).map (fun n => (n,id))

/-- No open call shares an id with another, or has lost one. -/
structure Unrobbed (held : List Holding) (opened : ℕ → Prop) (lost : List (ℕ × ℤ)) : Prop where
  bound : ∀ c ∈ lost, c.1 < held.length
  disjoint : ∀ n m, opened n → opened m → n ≠ m → ∀ a ∈ held[n]?, ∀ b ∈ held[m]?, a.feature = b.feature →
    ∀ id ∈ a.ids, 0 < id → id ∉ b.ids
  kept : ∀ n, opened n → ∀ id, 0 < id → (n,id) ∉ lost

variable {held : List Holding} {opened opened' : ℕ → Prop} {lost : List (ℕ × ℤ)}

theorem Unrobbed.mono (h : Unrobbed held opened lost) (hle : ∀ n, opened' n → opened n) :
    Unrobbed held opened' lost :=
  ⟨h.bound,fun n m hn hm => h.disjoint n m (hle n hn) (hle m hm),fun n hn => h.kept n (hle n hn)⟩

theorem Unrobbed.enter (h : Unrobbed held opened lost) (a : Holding)
    (hopened : ∀ n, opened' n → n < held.length ∧ opened n ∨ n = held.length)
    (hfree : ∀ n, opened n → ∀ b ∈ held[n]?, b.feature = a.feature → ∀ id ∈ b.ids, 0 < id → id ∉ a.ids) :
    Unrobbed (held ++ [a]) opened' lost := by
  have hold : ∀ n, n < held.length → ∀ b, b ∈ (held ++ [a])[n]? → b ∈ held[n]? := by
    intro n hn b hb
    rwa [List.getElem?_append_left hn] at hb
  have hnew : ∀ b, b ∈ (held ++ [a])[held.length]? → b = a := by
    intro b hb
    rw [List.getElem?_concat_length] at hb
    exact (Option.some.inj hb).symm
  refine ⟨fun c hc => ?_,fun n m hn hm hne x hx y hy hfeature id hid hpos => ?_,fun n hn id hpos hlost => ?_⟩
  · have hlt := h.bound c hc
    rw [List.length_append]
    omega
  · rcases hopened n hn with ⟨hlt,hn⟩ | rfl
    · rcases hopened m hm with ⟨hlt',hm⟩ | rfl
      · exact h.disjoint n m hn hm hne x (hold n hlt x hx) y (hold m hlt' y hy) hfeature id hid hpos
      · rw [hnew y hy] at hfeature ⊢
        exact hfree n hn x (hold n hlt x hx) hfeature id hid hpos
    · rcases hopened m hm with ⟨hlt',hm⟩ | rfl
      · rw [hnew x hx] at hfeature hid
        exact fun hmem => hfree m hm y (hold m hlt' y hy) hfeature.symm id hmem hpos hid
      · exact absurd rfl hne
  · rcases hopened n hn with ⟨_,hn⟩ | rfl
    · exact h.kept n hn id hpos hlost
    · exact absurd (h.bound _ hlost) (lt_irrefl held.length)

theorem Unrobbed.remove (h : Unrobbed held opened lost) {m : ℕ} (hm : opened m) (id : ℤ) :
    Unrobbed held opened (lost ++ robbed held m id) := by
  have hrobbed : ∀ c ∈ robbed held m id, c.1 < held.length ∧ c.2 = id ∧ c.1 ≠ m ∧
      ∃ a ∈ held[m]?, ∃ b ∈ held[c.1]?, a.feature = b.feature ∧ id ∈ a.ids ∧ id ∈ b.ids := by
    intro c hc
    obtain ⟨n,hn,rfl⟩ := List.mem_map.mp hc
    obtain ⟨hrange,hcond⟩ := List.mem_filter.mp hn
    exact ⟨List.mem_range.mp hrange,rfl,of_decide_eq_true hcond⟩
  refine ⟨fun c hc => ?_,h.disjoint,fun n hn id' hpos hlost => ?_⟩
  · exact (List.mem_append.mp hc).elim (h.bound c) (fun hc => (hrobbed c hc).1)
  · rcases List.mem_append.mp hlost with hlost | hlost
    · exact h.kept n hn id' hpos hlost
    · obtain ⟨_,rfl,hne,a,ha,b,hb,hfeature,hida,hidb⟩ := hrobbed _ hlost
      exact h.disjoint m n hm hn hne.symm a ha b hb hfeature id' hida hpos hidb

end Holding

/-- The instance and the callback ids of a call, and which of them an event invokes or removes. -/
structure CallbackRules (Q E : Type*) where
  feature : Q → ℕ
  ids : Q → List ℤ
  invokes : Q → E → Option ℤ
  removes : Q → E → Option ℤ

namespace CallbackRules

variable {Q E : Type*} (rules : CallbackRules Q E)

def holding (q : Q) : Holding := ⟨rules.feature q,rules.ids q⟩

/-- The call, where the callback that the event invokes is not there: another call has removed it, or the
instance is gone. -/
def misses (calls : List Q) (detached : ℕ → Bool) (lost : List (ℕ × ℤ)) (e : ℕ × E) : List ℕ :=
  match calls[e.1]? with
  | none => []
  | some q =>
    match rules.invokes q e.2 with
    | none => []
    | some id => if 0 < id ∧ (detached (rules.feature q) = true ∨ (e.1,id) ∈ lost) then [e.1] else []

def robs (calls : List Q) (e : ℕ × E) : List (ℕ × ℤ) :=
  match calls[e.1]?.bind (rules.removes · e.2) with
  | none => []
  | some id => Holding.robbed (calls.map rules.holding) e.1 id

/-- No open call shares a callback with another or has lost one, and the callbacks of an instance that is
there are found. -/
structure Delivers (calls : List Q) (detached : ℕ → Bool) (opened : ℕ → Prop) (lost : List (ℕ × ℤ))
    (missed : List ℕ) : Prop where
  unrobbed : Holding.Unrobbed (calls.map rules.holding) opened lost
  missed : ∀ n ∈ missed, ∃ q, calls[n]? = some q ∧ detached (rules.feature q) = true

variable {rules} {calls : List Q} {detached detached' : ℕ → Bool} {opened opened' : ℕ → Prop}
  {lost : List (ℕ × ℤ)} {missed : List ℕ}

theorem Delivers.init (detached : ℕ → Bool) (opened : ℕ → Prop) : rules.Delivers [] detached opened [] [] where
  unrobbed := ⟨fun c hc => absurd hc List.not_mem_nil,fun n m _ _ _ a ha => by simp at ha,
    fun n _ id _ => List.not_mem_nil⟩
  missed n hn := absurd hn List.not_mem_nil

theorem Delivers.mono (h : rules.Delivers calls detached opened lost missed) (hle : ∀ n, opened' n → opened n)
    (hdetached : ∀ feature, detached feature = true → detached' feature = true) :
    rules.Delivers calls detached' opened' lost missed := by
  refine ⟨h.unrobbed.mono hle,fun n hn => ?_⟩
  obtain ⟨q,hq,hgone⟩ := h.missed n hn
  exact ⟨q,hq,hdetached _ hgone⟩

theorem Delivers.enter (h : rules.Delivers calls detached opened lost missed) (q : Q)
    (hopened : ∀ n, opened' n → n < calls.length ∧ opened n ∨ n = calls.length)
    (hfree : ∀ n, opened n → ∀ q', calls[n]? = some q' → rules.feature q' = rules.feature q →
      ∀ id ∈ rules.ids q', 0 < id → id ∉ rules.ids q) :
    rules.Delivers (calls ++ [q]) detached opened' lost missed := by
  refine ⟨?_,fun n hn => ?_⟩
  · rw [List.map_append]
    refine h.unrobbed.enter (rules.holding q) (by rwa [List.length_map]) (fun n hn b hb hfeature => ?_)
    rw [List.getElem?_map] at hb
    obtain ⟨q',hq',rfl⟩ := Option.map_eq_some_iff.mp hb
    exact hfree n hn q' hq' hfeature
  · obtain ⟨q',hq',hgone⟩ := h.missed n hn
    refine ⟨q',?_,hgone⟩
    rw [List.getElem?_append_left (List.getElem?_eq_some_iff.mp hq').1]
    exact hq'

/-- An event of an open call. -/
theorem Delivers.emit (h : rules.Delivers calls detached opened lost missed) (e : ℕ × E)
    (hopen : ∀ q, calls[e.1]? = some q → opened e.1) :
    rules.Delivers calls detached opened (lost ++ rules.robs calls e)
      (missed ++ rules.misses calls detached lost e) := by
  refine ⟨?_,fun n hn => ?_⟩
  · unfold robs
    cases hq : calls[e.1]? with
    | none => simpa using h.unrobbed
    | some q =>
      dsimp only [Option.bind_some]
      cases rules.removes q e.2 with
      | none => simpa using h.unrobbed
      | some id => exact h.unrobbed.remove (hopen q hq) id
  · rcases List.mem_append.mp hn with hn | hn
    · exact h.missed n hn
    · unfold misses at hn
      cases hq : calls[e.1]? with
      | none => simp [hq] at hn
      | some q =>
        cases hid : rules.invokes q e.2 with
        | none => simp [hq,hid] at hn
        | some id =>
          simp only [hq,hid] at hn
          split_ifs at hn with hmiss
          · rw [List.mem_singleton.mp hn]
            exact ⟨q,hq,hmiss.2.resolve_right (h.unrobbed.kept e.1 (hopen q hq) id hmiss.1)⟩
          · exact absurd hn List.not_mem_nil

/-- A call of an instance that is there has found its callbacks. -/
theorem Delivers.not_missed (h : rules.Delivers calls detached opened lost missed) {n : ℕ} {q : Q}
    (hq : calls[n]? = some q) (hlive : detached (rules.feature q) = false) : n ∉ missed := by
  intro hn
  obtain ⟨q',hq',hgone⟩ := h.missed n hn
  obtain rfl := Option.some.inj (hq.symm.trans hq')
  rw [hlive] at hgone
  exact Bool.noConfusion hgone

end CallbackRules

/-- The functions of a feature: what a call does before it returns, whether the event loop then has the
request, and what its completion does when the instance lives or not. -/
structure RequestFunctions (Q A E : Type*) extends CallbackRules Q E where
  start : Q → List E
  accepted : Q → Bool
  answer : Q → Bool → A → List E

def RequestFunctions.whole {Q A E : Type*} (f : RequestFunctions Q A E) (q : Q) : Option (Bool × A) → List E
  | none => f.start q
  | some (live,a) => f.start q ++ f.answer q live a

/-- The calls so far, their answers with whether the instance lived, the rest of the functions that are
under way, innermost first, and what happened. -/
structure RequestRun (Q A E : Type*) where
  calls : List Q := []
  answers : ℕ → Option (Bool × A) := fun _ => none
  detached : ℕ → Bool := fun _ => false
  todo : List (ℕ × E) := []
  log : List (ℕ × E) := []
  lost : List (ℕ × ℤ) := []
  missed : List ℕ := []

inductive RequestLabel (Q A : Type*)
  | call (request : Q)
  /-- The event loop completes a request. -/
  | answer (call : ℕ) (result : A)
  | detach (feature : ℕ)
  /-- The running callback returns, or the running function goes on. -/
  | next

namespace RequestRun

variable {Q A E : Type*} (f : RequestFunctions Q A E) (s : RequestRun Q A E)

def call (q : Q) : RequestRun Q A E :=
  if s.detached (f.feature q) then s
  else { s with
    calls := s.calls ++ [q]
    todo := (f.start q).map (fun e => (s.calls.length,e)) ++ s.todo }

def answer (n : ℕ) (a : A) : RequestRun Q A E :=
  match s.calls[n]? with
  | none => s
  | some q =>
    let live := !s.detached (f.feature q)
    if s.todo.isEmpty ∧ f.accepted q ∧ (s.answers n).isNone then
      { s with
        answers := Function.update s.answers n (some (live,a))
        todo := (f.answer q live a).map (fun e => (n,e)) }
    else s

def next : RequestRun Q A E :=
  match s.todo with
  | [] => s
  | e :: todo =>
    { s with
      todo := todo
      log := s.log ++ [e]
      lost := s.lost ++ f.robs s.calls e
      missed := s.missed ++ f.misses s.calls s.detached s.lost e }

def step : RequestLabel Q A → RequestRun Q A E
  | .call q => s.call f q
  | .answer n a => s.answer f n a
  | .detach feature => { s with detached := Function.update s.detached feature true }
  | .next => s.next f

def select (n : ℕ) (events : List (ℕ × E)) : List E :=
  events.filterMap (fun e => if e.1 = n then some e.2 else none)

@[simp] theorem select_nil (n : ℕ) : select n ([] : List (ℕ × E)) = [] := rfl

theorem select_append (n : ℕ) (xs ys : List (ℕ × E)) : select n (xs ++ ys) = select n xs ++ select n ys :=
  List.filterMap_append

theorem select_own (n : ℕ) (events : List E) : select n (events.map (fun e => (n,e))) = events := by
  induction events with
  | nil => rfl
  | cons e events ih =>
    have hhead : select n ((n,e) :: events.map (fun e => (n,e))) =
        e :: select n (events.map (fun e => (n,e))) := by simp [select]
    rw [List.map_cons,hhead,ih]

theorem select_other {n m : ℕ} (h : m ≠ n) (events : List E) : select n (events.map (fun e => (m,e))) = [] := by
  induction events with
  | nil => rfl
  | cons e events ih =>
    rw [List.map_cons]
    have htail : select n ((m,e) :: events.map (fun e => (m,e))) = select n (events.map (fun e => (m,e))) := by
      simp [select,h]
    rw [htail,ih]

def events (n : ℕ) : List E := select n s.log

def promised (n : ℕ) : List E := select n s.log ++ select n s.todo

def Finished (n : ℕ) : Prop :=
  s.todo = [] ∧ ∀ q, s.calls[n]? = some q → f.accepted q = true → s.answers n ≠ none

/-- Every call does what its functions say, in their order. -/
structure History (s : RequestRun Q A E) : Prop where
  promised : ∀ n q, s.calls[n]? = some q → s.promised n = f.whole q (s.answers n)
  fresh : ∀ n, s.calls.length ≤ n → s.answers n = none ∧ s.promised n = []
  accepted : ∀ n q, s.calls[n]? = some q → s.answers n ≠ none → f.accepted q = true
  live : ∀ n q a, s.calls[n]? = some q → s.answers n = some (false,a) → s.detached (f.feature q) = true

section History

variable {f s}

theorem History.init : History f {} where
  promised n q h := by simp at h
  fresh n _ := ⟨rfl,rfl⟩
  accepted n q h := by simp at h
  live n q a h := by simp at h

theorem History.call (hs : History f s) (q : Q) : History f (s.call f q) := by
  unfold RequestRun.call
  split_ifs with hdetached
  · exact hs
  have hpromised : ∀ n, RequestRun.promised { s with
      calls := s.calls ++ [q]
      todo := (f.start q).map (fun e => (s.calls.length,e)) ++ s.todo } n =
      select n s.log ++ (select n ((f.start q).map (fun e => (s.calls.length,e))) ++ select n s.todo) := by
    intro n
    rw [← select_append]
    rfl
  have hold : ∀ n, n ≠ s.calls.length → RequestRun.promised { s with
      calls := s.calls ++ [q]
      todo := (f.start q).map (fun e => (s.calls.length,e)) ++ s.todo } n = s.promised n := by
    intro n hn
    rw [hpromised,select_other (Ne.symm hn),List.nil_append]
    rfl
  obtain ⟨hnone,hnil⟩ := hs.fresh s.calls.length le_rfl
  have hcalls : ∀ n q', (s.calls ++ [q])[n]? = some q' →
      s.calls[n]? = some q' ∧ n ≠ s.calls.length ∨ n = s.calls.length ∧ q' = q := by
    intro n q' hq
    rw [List.getElem?_append] at hq
    split_ifs at hq with hlt
    · exact .inl ⟨hq,hlt.ne⟩
    · refine .inr ?_
      rw [List.getElem?_singleton] at hq
      split_ifs at hq with heq
      exact ⟨by omega,(Option.some.inj hq).symm⟩
  refine ⟨fun n q' hq => ?_,fun n hn => ?_,fun n q' hq hanswer => ?_,fun n q' a hq hanswer => ?_⟩
  · rcases hcalls n q' hq with ⟨hq,hne⟩ | ⟨rfl,rfl⟩
    · rw [hold n hne]
      exact hs.promised n q' hq
    · unfold RequestRun.promised at hnil
      rw [List.append_eq_nil_iff] at hnil
      rw [hpromised,hnil.1,hnil.2,select_own,List.nil_append,List.append_nil]
      change f.start q' = f.whole q' (s.answers s.calls.length)
      rw [hnone]
      rfl
  · have hn : s.calls.length + 1 ≤ n := by
      simpa using hn
    rw [hold n (by omega)]
    exact hs.fresh n (by omega)
  · rcases hcalls n q' hq with ⟨hq,_⟩ | ⟨rfl,rfl⟩
    · exact hs.accepted n q' hq hanswer
    · exact absurd hnone hanswer
  · rcases hcalls n q' hq with ⟨hq,_⟩ | ⟨rfl,rfl⟩
    · exact hs.live n q' a hq hanswer
    · change s.answers s.calls.length = some (false,a) at hanswer
      rw [hnone] at hanswer
      exact absurd hanswer (Option.some_ne_none (false,a)).symm

theorem History.answer (hs : History f s) (n : ℕ) (a : A) : History f (s.answer f n a) := by
  unfold RequestRun.answer
  cases hcall : s.calls[n]? with
  | none => exact hs
  | some q =>
    dsimp only
    split_ifs with h
    · obtain ⟨htodo,haccepted,hnone⟩ := h
      rw [List.isEmpty_iff] at htodo
      rw [Option.isNone_iff_eq_none] at hnone
      have hlt : n < s.calls.length := (List.getElem?_eq_some_iff.mp hcall).1
      have hold : ∀ m, s.promised m = select m s.log := by
        intro m
        unfold RequestRun.promised
        rw [htodo,select_nil,List.append_nil]
      refine ⟨fun m q' hq => ?_,fun m hm => ?_,fun m q' hq hanswer => ?_,fun m q' b hq hanswer => ?_⟩
      · by_cases hm : m = n
        · subst hm
          obtain rfl := Option.some.inj (hcall.symm.trans hq)
          change select m s.log ++ select m _ = f.whole q (Function.update s.answers m _ m)
          rw [Function.update_self,select_own,← hold,hs.promised m q hq,hnone]
          rfl
        · change select m s.log ++ select m _ = f.whole q' (Function.update s.answers n _ m)
          rw [Function.update_of_ne hm,select_other (Ne.symm hm),List.append_nil,← hold]
          exact hs.promised m q' hq
      · have hm : s.calls.length ≤ m := hm
        have hne : m ≠ n := by omega
        change Function.update s.answers n _ m = none ∧ select m s.log ++ select m _ = []
        rw [Function.update_of_ne hne,select_other (Ne.symm hne),List.append_nil,← hold]
        exact hs.fresh m hm
      · by_cases hm : m = n
        · subst hm
          obtain rfl := Option.some.inj (hcall.symm.trans hq)
          exact haccepted
        · refine hs.accepted m q' hq ?_
          change Function.update s.answers n _ m ≠ none at hanswer
          rwa [Function.update_of_ne hm] at hanswer
      · change Function.update s.answers n _ m = some (false,b) at hanswer
        by_cases hm : m = n
        · subst hm
          obtain rfl := Option.some.inj (hcall.symm.trans hq)
          rw [Function.update_self] at hanswer
          simpa using congrArg Prod.fst (Option.some.inj hanswer)
        · rw [Function.update_of_ne hm] at hanswer
          exact hs.live m q' b hq hanswer
    · exact hs

theorem History.detach (hs : History f s) (feature : ℕ) :
    History f { s with detached := Function.update s.detached feature true } := by
  refine ⟨hs.promised,hs.fresh,hs.accepted,fun n q a hq hanswer => ?_⟩
  have hdetached := hs.live n q a hq hanswer
  change Function.update s.detached feature true (f.feature q) = true
  rw [Function.update_apply]
  split_ifs
  · rfl
  · exact hdetached

theorem next_promised (n : ℕ) : (s.next f).promised n = s.promised n := by
  unfold RequestRun.next
  cases htodo : s.todo with
  | nil => rfl
  | cons e todo =>
    unfold RequestRun.promised
    dsimp only
    rw [htodo,select_append,List.append_assoc,← select_append]
    rfl

theorem History.next (hs : History f s) : History f (s.next f) := by
  have hsame : (s.next f).calls = s.calls ∧ (s.next f).answers = s.answers ∧ (s.next f).detached = s.detached := by
    unfold RequestRun.next
    split <;> exact ⟨rfl,rfl,rfl⟩
  obtain ⟨hcalls,hanswers,hdetached⟩ := hsame
  refine ⟨fun n q hq => ?_,fun n hn => ?_,fun n q hq => ?_,fun n q a hq => ?_⟩
  · rw [next_promised,hanswers]
    exact hs.promised n q (hcalls ▸ hq)
  · rw [next_promised,hanswers]
    exact hs.fresh n (hcalls ▸ hn)
  · rw [hanswers]
    exact hs.accepted n q (hcalls ▸ hq)
  · rw [hanswers,hdetached]
    exact hs.live n q a (hcalls ▸ hq)

theorem History.step (hs : History f s) (op : RequestLabel Q A) : History f (s.step f op) := by
  cases op with
  | call q => exact hs.call q
  | answer n a => exact hs.answer n a
  | detach feature => exact hs.detach feature
  | next => exact hs.next

end History

theorem history_run (ops : List (RequestLabel Q A)) : History f (Transition.run (step f) {} ops) :=
  Transition.run_invariant (fun _ op hs => hs.step op) History.init ops

variable {f s}

theorem History.part_of_whole (hs : History f s) {n : ℕ} {q : Q} (hq : s.calls[n]? = some q)
    (result : Option (Bool × A)) (hresult : s.answers n = none ∨ s.answers n = result) :
    s.events n <+: f.whole q result := by
  have hpart : s.events n <+: f.whole q (s.answers n) := by
    rw [← hs.promised n q hq]
    exact List.prefix_append (s.events n) (select n s.todo)
  rcases hresult with hnone | rfl
  · rw [hnone] at hpart
    refine hpart.trans ?_
    cases result with
    | none => exact List.prefix_rfl
    | some r => exact List.prefix_append (f.start q) (f.answer q r.1 r.2)
  · exact hpart

theorem History.finished (hs : History f s) {n : ℕ} {q : Q} (hq : s.calls[n]? = some q) (hend : s.Finished f n) :
    s.events n = f.whole q (s.answers n) ∧ f.accepted q = (s.answers n).isSome := by
  refine ⟨?_,?_⟩
  · rw [← hs.promised n q hq]
    unfold RequestRun.promised
    rw [hend.1,select_nil,List.append_nil]
    rfl
  · cases hanswer : s.answers n with
    | none =>
      rw [Option.isSome_none]
      by_contra haccepted
      exact hend.2 q hq (by simpa using haccepted) hanswer
    | some r => exact hs.accepted n q hq (by simp [hanswer])

theorem History.live_answer (hs : History f s) {n : ℕ} {q : Q} (hq : s.calls[n]? = some q)
    (hlive : s.detached (f.feature q) = false) (a : A) : s.answers n ≠ some (false,a) := by
  intro hanswer
  have hdetached := hs.live n q a hq hanswer
  rw [hlive] at hdetached
  exact Bool.noConfusion hdetached

section Delivery

variable (f s)

/-- The event loop has the request, or one of its functions is under way. -/
def Open (n : ℕ) : Prop :=
  ∃ q, s.calls[n]? = some q ∧ (f.accepted q = true ∧ s.answers n = none ∨ ∃ e, (n,e) ∈ s.todo)

/-- A call shares no callback with an open one of its instance. -/
def Unshared : RequestLabel Q A → Prop
  | .call q => ∀ n, s.Open f n → ∀ q', s.calls[n]? = some q' → f.feature q' = f.feature q →
      ∀ id ∈ f.ids q', 0 < id → id ∉ f.ids q
  | _ => True

def Delivers (s : RequestRun Q A E) : Prop :=
  f.toCallbackRules.Delivers s.calls s.detached (s.Open f) s.lost s.missed

variable {f s}

theorem Delivers.call (hs : Delivers f s) (q : Q) (hq : Unshared f s (.call q)) : Delivers f (s.call f q) := by
  unfold RequestRun.call
  split_ifs with hdetached
  · exact hs
  refine hs.enter q (fun n hn => ?_) hq
  obtain ⟨q',hq',hopen⟩ := hn
  by_cases hn : n = s.calls.length
  · exact .inr hn
  have hlt := (List.getElem?_eq_some_iff.mp hq').1
  dsimp only at hq' hlt
  rw [List.length_append,List.length_singleton] at hlt
  rw [List.getElem?_append_left (by omega)] at hq'
  refine .inl ⟨(List.getElem?_eq_some_iff.mp hq').1,q',hq',hopen.imp_right ?_⟩
  rintro ⟨e,he⟩
  rcases List.mem_append.mp he with he | he
  · obtain ⟨e',_,heq⟩ := List.mem_map.mp he
    exact absurd (congrArg Prod.fst heq).symm hn
  · exact ⟨e,he⟩

theorem Delivers.answer (hs : Delivers f s) (n : ℕ) (a : A) : Delivers f (s.answer f n a) := by
  unfold RequestRun.answer
  cases hcall : s.calls[n]? with
  | none => exact hs
  | some q =>
    dsimp only
    split_ifs with h
    · obtain ⟨_,haccepted,hnone⟩ := h
      rw [Option.isNone_iff_eq_none] at hnone
      refine hs.mono (fun m hm => ?_) (fun _ => id)
      obtain ⟨q',hq',hopen⟩ := hm
      by_cases hm : m = n
      · subst hm
        exact ⟨q,hcall,.inl ⟨haccepted,hnone⟩⟩
      · refine ⟨q',hq',.inl ?_⟩
        rcases hopen with ⟨haccepted,hnone⟩ | ⟨e,he⟩
        · refine ⟨haccepted,?_⟩
          dsimp only at hnone
          rwa [Function.update_of_ne hm] at hnone
        · obtain ⟨e',_,heq⟩ := List.mem_map.mp he
          exact absurd (congrArg Prod.fst heq).symm hm
    · exact hs

theorem Delivers.detach (hs : Delivers f s) (feature : ℕ) :
    Delivers f { s with detached := Function.update s.detached feature true } := by
  refine hs.mono (fun _ => id) (fun other hgone => ?_)
  dsimp only
  rw [Function.update_apply]
  split_ifs
  · rfl
  · exact hgone

theorem Delivers.next (hs : Delivers f s) : Delivers f (s.next f) := by
  unfold RequestRun.next
  cases htodo : s.todo with
  | nil => exact hs
  | cons e todo =>
    have hopen : ∀ q, s.calls[e.1]? = some q → s.Open f e.1 := by
      intro q hq
      refine ⟨q,hq,.inr ⟨e.2,?_⟩⟩
      rw [htodo]
      exact List.mem_cons_self
    refine (hs.emit e hopen).mono (fun n hn => ?_) (fun _ => id)
    obtain ⟨q,hq,hleft⟩ := hn
    refine ⟨q,hq,hleft.imp_right ?_⟩
    rintro ⟨x,hx⟩
    exact ⟨x,htodo ▸ List.mem_cons_of_mem e hx⟩

theorem Delivers.step (hs : Delivers f s) (op : RequestLabel Q A) (hop : Unshared f s op) :
    Delivers f (s.step f op) := by
  cases op with
  | call q => exact hs.call q hop
  | answer n a => exact hs.answer n a
  | detach feature => exact hs.detach feature
  | next => exact hs.next

theorem Delivers.init : Delivers f ({} : RequestRun Q A E) := CallbackRules.Delivers.init _ _

theorem delivers_run (ops : List (RequestLabel Q A))
    (h : Transition.Guarded (step f) (Unshared f) ({} : RequestRun Q A E) ops) :
    Delivers f (Transition.run (step f) {} ops) :=
  (h.always (I := Delivers f) (fun _ op hs hop => Delivers.step hs op hop) Delivers.init).last

theorem unshared_of_no_call (s : RequestRun Q A E) {ops : List (RequestLabel Q A)} (h : ∀ q, .call q ∉ ops) :
    Transition.Guarded (step f) (Unshared f) s ops := by
  induction ops generalizing s with
  | nil => trivial
  | cons op ops ih =>
    refine ⟨?_,ih _ (fun q hq => h q (List.mem_cons_of_mem op hq))⟩
    cases op with
    | call q => exact absurd List.mem_cons_self (h q)
    | _ => trivial

end Delivery

end RequestRun
end FeatureRuntime
