import Mathlib.Data.List.Basic
import Mathlib.Data.Nat.Notation

/-! Zero-initialised memory as the log of its writes, newest first. A write stores a value of some
width at an offset, or zero bytes; a read sees the newest write of exactly its range. -/
namespace FeatureRuntime

/-- A write of `width` bytes at `offset`; the value `none` is all zero. -/
structure Write (α : Type*) where
  offset : ℕ
  width : ℕ
  value : Option α

inductive Slot (α : Type*)
  | zero
  | value (a : α)
  /-- Bytes of several values. -/
  | torn
  deriving DecidableEq

namespace Slot

variable {α β : Type*}

def ofOption : Option α → Slot α
  | none => .zero
  | some a => .value a

def map (f : α → β) : Slot α → Slot β
  | .zero => .zero
  | .value a => .value (f a)
  | .torn => .torn

def isZero : Slot α → Bool
  | .zero => true
  | _ => false

@[simp] theorem isZero_map (f : α → β) (s : Slot α) : (s.map f).isZero = s.isZero := by
  cases s <;> rfl

@[simp] theorem map_ofOption (f : α → β) (x : Option α) :
    (ofOption x).map f = ofOption (x.map f) := by
  cases x <;> rfl

end Slot

namespace Write

variable {α β : Type*}

def map (f : α → β) (w : Write α) : Write β := ⟨w.offset,w.width,w.value.map f⟩

def Overlaps (w : Write α) (offset width : ℕ) : Prop :=
  w.offset < offset + width ∧ offset < w.offset + w.width

instance (w : Write α) (offset width : ℕ) : Decidable (w.Overlaps offset width) :=
  inferInstanceAs (Decidable (_ ∧ _))

def Inside (w : Write α) (offset width : ℕ) : Prop :=
  offset ≤ w.offset ∧ w.offset + w.width ≤ offset + width

instance (w : Write α) (offset width : ℕ) : Decidable (w.Inside offset width) :=
  inferInstanceAs (Decidable (_ ∧ _))

end Write

section Load

variable {α β : Type*}

/-- Reads `width` bytes at `offset`. -/
def load : List (Write α) → ℕ → ℕ → Slot α
  | [], _, _ => .zero
  | w :: ws, offset, width =>
    if w.Overlaps offset width then
      if w.offset = offset ∧ w.width = width then .ofOption w.value
      else if w.value.isNone && (load ws offset width).isZero then .zero
      else .torn
    else load ws offset width

variable {offset width : ℕ}

theorem load_cons_of_not_overlaps {w : Write α} (h : ¬w.Overlaps offset width) (ws : List (Write α)) :
    load (w :: ws) offset width = load ws offset width := by
  simp [load,h]

theorem load_cons_self (hpos : 0 < width) (x : Option α) (ws : List (Write α)) :
    load (⟨offset,width,x⟩ :: ws) offset width = .ofOption x := by
  have hover : (⟨offset,width,x⟩ : Write α).Overlaps offset width := by
    constructor <;> simp only <;> omega
  rw [load,if_pos hover,if_pos ⟨rfl,rfl⟩]

theorem load_append_of_not_overlaps {ws : List (Write α)}
    (h : ∀ w ∈ ws, ¬w.Overlaps offset width) (rest : List (Write α)) :
    load (ws ++ rest) offset width = load rest offset width := by
  induction ws with
  | nil => rfl
  | cons w ws ih =>
    rw [List.cons_append,load_cons_of_not_overlaps (h w List.mem_cons_self)]
    exact ih (fun w' hw => h w' (List.mem_cons_of_mem _ hw))

theorem load_eq_zero {ws : List (Write α)}
    (h : ∀ w ∈ ws, w.Overlaps offset width → w.value = none) : load ws offset width = .zero := by
  induction ws with
  | nil => rfl
  | cons w ws ih =>
    have hrest := ih (fun w' hw => h w' (List.mem_cons_of_mem _ hw))
    rw [load]
    split_ifs with hover hexact
    · rw [h w List.mem_cons_self hover]
      rfl
    · rfl
    · next hno =>
      rw [h w List.mem_cons_self hover,hrest] at hno
      simp [Slot.isZero] at hno
    · exact hrest

theorem load_map (f : α → β) (ws : List (Write α)) (offset width : ℕ) :
    load (ws.map (Write.map f)) offset width = (load ws offset width).map f := by
  induction ws with
  | nil => rfl
  | cons w ws ih =>
    have hover : (w.map f).Overlaps offset width ↔ w.Overlaps offset width := Iff.rfl
    have hrange : ((w.map f).offset = offset ∧ (w.map f).width = width) ↔
        (w.offset = offset ∧ w.width = width) := Iff.rfl
    rw [List.map_cons,load,load,ih]
    by_cases hin : w.Overlaps offset width
    · rw [if_pos hin,if_pos (hover.mpr hin)]
      by_cases hexact : w.offset = offset ∧ w.width = width
      · rw [if_pos hexact,if_pos (hrange.mpr hexact)]
        exact (Slot.map_ofOption f w.value).symm
      · rw [if_neg hexact,if_neg (mt hrange.mp hexact)]
        simp only [Write.map,Option.isNone_map,Slot.isZero_map]
        split_ifs <;> rfl
    · rw [if_neg hin,if_neg (mt hover.mp hin)]

end Load
end FeatureRuntime
