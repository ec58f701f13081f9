import Mathlib.Data.List.Infix
import Mathlib.Data.Nat.Notation

/-! Data written into a sequence at an offset, as a file takes it: a gap before the data is filled, and nothing is cut
off behind it. -/
namespace FeatureRuntime

section Overlay

variable {α : Type} (fill : α) (old : List α) (offset : ℕ)

def overlay (data : List α) : List α :=
  if data = [] then old
  else (old ++ List.replicate (offset - old.length) fill).take offset ++ data ++ old.drop (offset + data.length)

/-- What was written and what was asked for come to the same: one goes on from the other with what was there. -/
def WritesSame (written asked : List α) : Prop :=
  ∃ rest, (asked = written ++ rest ∨ written = asked ++ rest) ∧
    rest <+: old.drop (offset + min written.length asked.length)

variable {fill old offset} {data rest written asked : List α}

theorem drop_overlay : (overlay fill old offset data).drop offset = data ++ old.drop (offset + data.length) := by
  rw [overlay]
  split_ifs with hempty
  · rw [hempty,List.nil_append,List.length_nil,Nat.add_zero]
  · have hlength : ((old ++ List.replicate (offset - old.length) fill).take offset).length = offset := by
      rw [List.length_take,List.length_append,List.length_replicate]
      omega
    rw [List.append_assoc,List.drop_append_of_le_length hlength.ge,List.drop_of_length_le hlength.le,List.nil_append]

@[simp] theorem overlay_nil_zero : overlay fill [] 0 data = data := by
  have hdrop : (overlay fill [] 0 data).drop 0 = data ++ [].drop (0 + data.length) := drop_overlay
  rw [List.drop_nil,List.append_nil] at hdrop
  exact hdrop

theorem take_overlay (h : offset ≤ old.length) : (overlay fill old offset data).take offset = old.take offset := by
  rw [overlay]
  split_ifs with hempty
  · rfl
  · have hlength : (old.take offset).length = offset := List.length_take_of_le h
    rw [Nat.sub_eq_zero_of_le h,List.replicate_zero,List.append_nil,List.append_assoc,
      List.take_append_of_le_length hlength.ge,List.take_of_length_le hlength.le]

theorem overlay_append_eq_iff : overlay fill old offset (data ++ rest) = overlay fill old offset data ↔
      rest <+: old.drop (offset + data.length) := by
  constructor
  · intro h
    have hdrop := congrArg (List.drop offset) h
    rw [drop_overlay,drop_overlay,List.append_assoc,List.append_cancel_left_eq] at hdrop
    exact ⟨_,hdrop⟩
  · rintro ⟨tail,htail⟩
    by_cases hrest : rest = []
    · rw [hrest,List.append_nil]
    have hlength := congrArg List.length htail
    have hpos := List.length_pos_iff.mpr hrest
    rw [List.length_append,List.length_drop] at hlength
    have hinside : offset ≤ old.length := by omega
    have hbehind : old.drop (offset + (data ++ rest).length) = tail := by
      rw [List.length_append,← Nat.add_assoc,← List.drop_drop,← htail,List.drop_left]
    rw [← List.take_append_drop offset (overlay fill old offset (data ++ rest)),
      ← List.take_append_drop offset (overlay fill old offset data),take_overlay hinside,take_overlay hinside,
      drop_overlay,drop_overlay,hbehind,List.append_assoc,htail]

theorem overlay_eq_iff :
    overlay fill old offset written = overlay fill old offset asked ↔ WritesSame old offset written asked := by
  constructor
  · intro h
    have hdrop := congrArg (List.drop offset) h
    rw [drop_overlay,drop_overlay] at hdrop
    have hwritten : written <+: asked ++ old.drop (offset + asked.length) := hdrop ▸ List.prefix_append _ _
    have hasked : asked <+: asked ++ old.drop (offset + asked.length) := List.prefix_append _ _
    rcases Nat.le_total written.length asked.length with hle | hle
    · obtain ⟨rest,rfl⟩ := List.prefix_of_prefix_length_le hwritten hasked hle
      rw [WritesSame,Nat.min_eq_left hle]
      exact ⟨rest,.inl rfl,overlay_append_eq_iff.mp h.symm⟩
    · obtain ⟨rest,rfl⟩ := List.prefix_of_prefix_length_le hasked hwritten hle
      rw [WritesSame,Nat.min_eq_right hle]
      exact ⟨rest,.inr rfl,overlay_append_eq_iff.mp h⟩
  · rintro ⟨rest,rfl | rfl,hrest⟩
    · rw [List.length_append,Nat.min_eq_left (Nat.le_add_right _ _)] at hrest
      exact (overlay_append_eq_iff.mpr hrest).symm
    · rw [List.length_append,Nat.min_eq_right (Nat.le_add_right _ _)] at hrest
      exact overlay_append_eq_iff.mpr hrest

end Overlay

end FeatureRuntime
