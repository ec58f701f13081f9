import Mathlib.Data.List.Basic
import Mathlib.Data.List.Count
import Mathlib.Data.Nat.Notation

/-! Logs of frees. Blocks are numbered in the order of their allocation; a log is balanced over a
range of numbers when it frees each block of the range exactly once and nothing else. -/
namespace FeatureRuntime

inductive FreeEvent
  | block (id : ℕ)
  /-- A pointer that no allocation returned. -/
  | invalid
  deriving DecidableEq, Repr

namespace FreeLog

structure Balanced (log : List FreeEvent) (a b : ℕ) : Prop where
  valid : .invalid ∉ log
  once : ∀ id, log.count (.block id) = if a ≤ id ∧ id < b then 1 else 0

def Within (log : List FreeEvent) (a b : ℕ) : Prop := ∀ id, .block id ∈ log → a ≤ id ∧ id < b

variable {log log' : List FreeEvent} {a b c : ℕ}

theorem within_nil : Within [] a b := by simp [Within]

theorem Within.mono (h : Within log a b) {a' b' : ℕ} (ha : a' ≤ a) (hb : b ≤ b') :
    Within log a' b' := by
  intro id hid
  have := h id hid
  omega

theorem Within.append (h : Within log a b) (h' : Within log' a b) : Within (log ++ log') a b := by
  intro id hid
  rcases List.mem_append.mp hid with hl | hr
  · exact h id hl
  · exact h' id hr

theorem within_append_iff : Within (log ++ log') a b ↔ Within log a b ∧ Within log' a b := by
  constructor
  · intro h
    exact ⟨fun id hid => h id (List.mem_append_left _ hid),
      fun id hid => h id (List.mem_append_right _ hid)⟩
  · rintro ⟨h,h'⟩
    exact h.append h'

theorem within_singleton (h : a < b) : Within [.block a] a b := by
  intro id hid
  simp only [List.mem_singleton,FreeEvent.block.injEq] at hid
  omega

theorem Within.count_eq_zero (h : Within log a b) {id : ℕ} (hid : ¬(a ≤ id ∧ id < b)) : log.count (.block id) = 0 :=
  List.count_eq_zero.mpr (fun hmem => hid (h id hmem))

theorem Within.perm (h : Within log a b) (hperm : log.Perm log') : Within log' a b :=
  fun id hid => h id (hperm.mem_iff.mpr hid)

theorem Balanced.perm (h : Balanced log a b) (hperm : log.Perm log') : Balanced log' a b where
  valid hmem := h.valid (hperm.mem_iff.mpr hmem)
  once id := by rw [← hperm.count_eq,h.once]

theorem balanced_congr (hperm : log.Perm log') : Balanced log a b ↔ Balanced log' a b :=
  ⟨fun h => h.perm hperm,fun h => h.perm hperm.symm⟩

theorem balanced_nil_iff : Balanced [] a b ↔ b ≤ a := by
  constructor
  · intro h
    have ha := h.once a
    by_contra hlt
    rw [if_pos (by omega)] at ha
    simp at ha
  · intro h
    refine ⟨by simp,fun id => ?_⟩
    rw [if_neg (by omega)]
    rfl

/-- Logs over adjacent ranges are balanced together exactly when each of them is. -/
theorem balanced_append_iff (hab : a ≤ b) (hbc : b ≤ c) (h : Within log a b) (h' : Within log' b c) :
    Balanced (log ++ log') a c ↔ Balanced log a b ∧ Balanced log' b c := by
  constructor
  · intro hall
    have hvalid := hall.valid
    rw [List.mem_append,not_or] at hvalid
    constructor
    · refine ⟨hvalid.1,fun id => ?_⟩
      have hcount := hall.once id
      rw [List.count_append] at hcount
      split_ifs with hrange
      · rw [h'.count_eq_zero (by omega),if_pos (by omega)] at hcount
        exact hcount
      · exact h.count_eq_zero hrange
    · refine ⟨hvalid.2,fun id => ?_⟩
      have hcount := hall.once id
      rw [List.count_append] at hcount
      split_ifs with hrange
      · rw [h.count_eq_zero (by omega),if_pos (by omega),Nat.zero_add] at hcount
        exact hcount
      · exact h'.count_eq_zero hrange
  · rintro ⟨hl,hr⟩
    refine ⟨?_,fun id => ?_⟩
    · rw [List.mem_append,not_or]
      exact ⟨hl.valid,hr.valid⟩
    · rw [List.count_append,hl.once,hr.once]
      split_ifs <;> omega

theorem balanced_singleton : Balanced [.block a] a (a + 1) := by
  refine ⟨by simp,fun id => ?_⟩
  rw [List.count_singleton]
  by_cases hid : id = a
  · subst hid
    simp
  · have hne : (FreeEvent.block a == FreeEvent.block id) = false := by simpa using Ne.symm hid
    have hout : ¬(a ≤ id ∧ id < a + 1) := by omega
    rw [hne,if_neg hout]
    rfl

theorem balanced_root_iff (hab : a < b) (h : Within log (a + 1) b) :
    Balanced (log ++ [.block a]) a b ↔ Balanced log (a + 1) b := by
  rw [balanced_congr List.perm_append_comm,
    balanced_append_iff (Nat.le_succ a) hab (within_singleton (Nat.lt_succ_self a)) h]
  exact and_iff_right balanced_singleton

theorem Balanced.not_double (h : Balanced (log ++ log') a b) {id : ℕ} (hmem : .block id ∈ log)
    (hmem' : .block id ∈ log') : False := by
  have hcount := h.once id
  have hl := List.count_pos_iff.mpr hmem
  have hr := List.count_pos_iff.mpr hmem'
  rw [List.count_append] at hcount
  split_ifs at hcount <;> omega

/-- The blocks of a range when `log` was freed on the way and `pending` is freed at the end: the two
together are balanced exactly when `P` holds. -/
structure Accounts (a b : ℕ) (log pending : List FreeEvent) (P : Prop) : Prop where
  le : a ≤ b
  within : Within (log ++ pending) a b
  balanced : Balanced (log ++ pending) a b ↔ P

/-- Accounts of values whose pointer is needed to free them: where something is pending, a block of
the range was not freed on the way. -/
structure Owns (a b : ℕ) (log pending : List FreeEvent) (P : Prop) : Prop
    extends Accounts a b log pending P where
  live : pending = [] ∨ ∃ id, a ≤ id ∧ id < b ∧ .block id ∉ log

section Accounts

variable {pending pending' : List FreeEvent} {P Q : Prop}

theorem Accounts.congr (h : Accounts a b log pending P) (hiff : P ↔ Q) : Accounts a b log pending Q :=
  ⟨h.le,h.within,h.balanced.trans hiff⟩

theorem Accounts.perm (h : Accounts a b log pending P) (hperm : pending.Perm pending') :
    Accounts a b log pending' P :=
  ⟨h.le,h.within.perm (hperm.append_left log),(balanced_congr (hperm.append_left log)).symm.trans h.balanced⟩

theorem accounts_nil (a : ℕ) : Accounts a a [] [] True :=
  ⟨Nat.le_refl a,within_nil,iff_of_true (balanced_nil_iff.mpr (Nat.le_refl a)) trivial⟩

theorem Accounts.append (h : Accounts a b log pending P) (h' : Accounts b c log' pending' Q) :
    Accounts a c (log ++ log') (pending ++ pending') (P ∧ Q) := by
  have hperm : ((log ++ pending) ++ (log' ++ pending')).Perm ((log ++ log') ++ (pending ++ pending')) := by
    rw [List.append_assoc,List.append_assoc]
    refine List.Perm.append_left log ?_
    rw [← List.append_assoc,← List.append_assoc]
    exact List.perm_append_comm.append_right pending'
  refine ⟨Nat.le_trans h.le h'.le,?_,?_⟩
  · exact ((h.within.mono (Nat.le_refl a) h'.le).append (h'.within.mono h.le (Nat.le_refl c))).perm hperm
  · rw [← balanced_congr hperm,balanced_append_iff h.le h'.le h.within h'.within,h.balanced,h'.balanced]

theorem Accounts.invalids (h : Accounts a b log pending P) {stray : List FreeEvent}
    (hstray : ∀ event ∈ stray, event = .invalid) :
    Accounts a b log (pending ++ stray) (P ∧ stray = []) := by
  refine ⟨h.le,?_,?_⟩
  · rw [← List.append_assoc]
    refine h.within.append (fun id hid => ?_)
    have := hstray _ hid
    simp at this
  · cases stray with
    | nil =>
      rw [List.append_nil,h.balanced]
      simp
    | cons event stray =>
      have hevent := hstray event List.mem_cons_self
      subst hevent
      refine iff_of_false (fun hbalanced => hbalanced.valid ?_) (by simp)
      simp

theorem Accounts.root (h : Accounts (a + 1) b log pending P) : Owns a b log (pending ++ [.block a]) P := by
  have hlog := (within_append_iff.mp h.within).1
  have hlt : a < b := h.le
  refine ⟨⟨Nat.le_of_lt hlt,?_,?_⟩,.inr ⟨a,Nat.le_refl a,hlt,fun hmem => ?_⟩⟩
  · rw [← List.append_assoc]
    exact (h.within.mono (Nat.le_succ a) (Nat.le_refl b)).append (within_singleton hlt)
  · rw [← List.append_assoc,balanced_root_iff hlt h.within]
    exact h.balanced
  · exact absurd (hlog a hmem).1 (Nat.not_succ_le_self a)

theorem Accounts.unrooted (h : Accounts (a + 1) b log pending P) : Owns a b log (pending ++ [.invalid]) False := by
  have hlog := (within_append_iff.mp h.within).1
  have hinvalid : Accounts (a + 1) b log (pending ++ [.invalid]) _ := h.invalids (by simp)
  have hle : a ≤ b := Nat.le_trans (Nat.le_succ a) h.le
  refine ⟨⟨hle,hinvalid.within.mono (Nat.le_succ a) (Nat.le_refl b),?_⟩,.inr ⟨a,Nat.le_refl a,h.le,fun hmem => ?_⟩⟩
  · refine iff_of_false (fun hbalanced => hbalanced.valid ?_) not_false
    simp
  · exact absurd (hlog a hmem).1 (Nat.not_succ_le_self a)

/-- A block whose contents are released twice: only one without contents comes out right. -/
theorem Accounts.twice (h : Accounts (a + 1) b log pending P) :
    Owns a b log (pending ++ (pending ++ [.block a])) (P ∧ pending = []) := by
  have hlog := (within_append_iff.mp h.within).1
  have hpending := (within_append_iff.mp h.within).2
  have hlt : a < b := h.le
  have hroot := h.root
  refine ⟨⟨Nat.le_of_lt hlt,?_,?_⟩,.inr ⟨a,Nat.le_refl a,hlt,fun hmem => ?_⟩⟩
  · have hrest := (within_append_iff.mp hroot.within).2
    exact (hlog.mono (Nat.le_succ a) (Nat.le_refl b)).append
      ((hpending.mono (Nat.le_succ a) (Nat.le_refl b)).append hrest)
  · constructor
    · intro hbalanced
      have hnil : pending = [] := by
        refine List.eq_nil_iff_forall_not_mem.mpr (fun event hevent => ?_)
        cases event with
        | invalid => exact hbalanced.valid (by simp [hevent])
        | block id =>
          rw [← List.append_assoc] at hbalanced
          exact hbalanced.not_double (List.mem_append_right log hevent) (List.mem_append_left _ hevent)
      subst hnil
      exact ⟨hroot.balanced.mp hbalanced,rfl⟩
    · rintro ⟨hP,rfl⟩
      exact hroot.balanced.mpr hP
  · exact absurd (hlog a hmem).1 (Nat.not_succ_le_self a)

theorem Owns.congr (h : Owns a b log pending P) (hiff : P ↔ Q) : Owns a b log pending Q :=
  ⟨h.toAccounts.congr hiff,h.live⟩

theorem owns_nil (a : ℕ) : Owns a a [] [] True := ⟨accounts_nil a,.inl rfl⟩

theorem owns_alloc (a : ℕ) : Owns a (a + 1) [] [.block a] True := (accounts_nil (a + 1)).root

theorem owns_leak (a : ℕ) : Owns a (a + 1) [] [] False := by
  refine ⟨⟨Nat.le_succ a,within_nil,iff_of_false (fun h => ?_) not_false⟩,.inl rfl⟩
  have := balanced_nil_iff.mp h
  omega

theorem Owns.append (h : Owns a b log pending P) (h' : Owns b c log' pending' Q) :
    Owns a c (log ++ log') (pending ++ pending') (P ∧ Q) := by
  refine ⟨h.toAccounts.append h'.toAccounts,?_⟩
  have hlog := (within_append_iff.mp h.within).1
  have hlog' := (within_append_iff.mp h'.within).1
  rcases h.live with hnil | ⟨id,ha,hb,hnot⟩
  · rcases h'.live with hnil' | ⟨id,hb,hc,hnot⟩
    · exact .inl (by rw [hnil,hnil']; rfl)
    · refine .inr ⟨id,Nat.le_trans h.le hb,hc,?_⟩
      rw [List.mem_append,not_or]
      refine ⟨fun hmem => ?_,hnot⟩
      have := hlog id hmem
      omega
  · refine .inr ⟨id,ha,Nat.lt_of_lt_of_le hb h'.le,?_⟩
    rw [List.mem_append,not_or]
    refine ⟨hnot,fun hmem => ?_⟩
    have := hlog' id hmem
    omega

theorem Owns.discard (h : Owns a b log pending P) : Owns a b log [] (P ∧ pending = []) := by
  refine ⟨⟨h.le,?_,?_⟩,.inl rfl⟩
  · rw [List.append_nil]
    exact (within_append_iff.mp h.within).1
  · rw [List.append_nil]
    constructor
    · intro hbalanced
      have hnil : pending = [] := by
        refine h.live.resolve_right ?_
        rintro ⟨id,ha,hb,hnot⟩
        have hcount := hbalanced.once id
        rw [if_pos ⟨ha,hb⟩,List.count_eq_zero.mpr hnot] at hcount
        omega
      have hiff := h.balanced
      rw [hnil,List.append_nil] at hiff
      exact ⟨hiff.mp hbalanced,hnil⟩
    · rintro ⟨hP,rfl⟩
      have := h.balanced.mpr hP
      rwa [List.append_nil] at this

theorem Owns.settle (h : Owns a b log pending P) : Owns a b (log ++ pending) [] P := by
  refine ⟨⟨h.le,?_,?_⟩,.inl rfl⟩
  · rw [List.append_nil]
    exact h.within
  · rw [List.append_nil]
    exact h.balanced

end Accounts

end FreeLog
end FeatureRuntime
