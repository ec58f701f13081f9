import Mathlib.Data.List.Basic
import Mathlib.Data.Nat.Notation

/-! Typed arrays and the buffers behind them. -/
namespace FeatureRuntime

structure BufferView where
  buffer : List UInt8
  offset : ℕ
  length : ℕ
  elementSize : ℕ
  inside : offset + length * elementSize ≤ buffer.length
  deriving DecidableEq

namespace BufferView

def covered (v : BufferView) : List UInt8 := (v.buffer.drop v.offset).take (v.length * v.elementSize)

def CoversAll (v : BufferView) : Prop := v.length * v.elementSize = v.buffer.length

theorem inside_whole (bytes : List UInt8) : 0 + bytes.length * 1 ≤ bytes.length :=
  Nat.le_of_eq ((Nat.zero_add _).trans (Nat.mul_one _))

/-- A `Uint8Array` made from a whole buffer. -/
def whole (bytes : List UInt8) : BufferView := ⟨bytes,0,bytes.length,1,inside_whole bytes⟩

variable {v : BufferView}

@[simp] theorem covered_whole (bytes : List UInt8) : (whole bytes).covered = bytes := by simp [covered,whole]

theorem covered_eq_buffer_iff : v.covered = v.buffer ↔ v.CoversAll := by
  have hinside := v.inside
  constructor
  · intro h
    have hlength := congrArg List.length h
    rw [covered,List.length_take,List.length_drop] at hlength
    rw [CoversAll]
    omega
  · intro h
    rw [CoversAll] at h
    have hoffset : v.offset = 0 := by omega
    rw [covered,h,hoffset,List.drop_zero,List.take_length]

end BufferView

end FeatureRuntime
