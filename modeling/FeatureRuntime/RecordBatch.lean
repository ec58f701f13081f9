import Mathlib.Data.List.Basic
import Mathlib.Data.Nat.Notation

/-! Batches of records of one size in a block of bytes, and loops that go through them. Reading outside the block has no
result. -/
namespace FeatureRuntime

def readAt (block : List UInt8) (position width : ℕ) : Option (List UInt8) :=
  if position + width ≤ block.length then some ((block.drop position).take width) else none

/-- The records that follow one another in a block. -/
structure RecordBatch (size : ℕ) where
  records : List (List UInt8)
  sized : ∀ record ∈ records, record.length = size

namespace RecordBatch

variable {size : ℕ} {R : Type}

def block (batch : RecordBatch size) : List UInt8 := batch.records.flatten

/-- `for (i = first; i < first + count; i++)`, with what the turns give. -/
def forRecords (body : ℕ → Option R) : (first count : ℕ) → Option (List R)
  | _,0 => some []
  | first,count + 1 => (body first).bind fun result => (forRecords body (first + 1) count).map (result :: ·)

variable {records : List (List UInt8)}

theorem length_flatten (sized : ∀ record ∈ records, record.length = size) :
    records.flatten.length = records.length * size := by
  induction records with
  | nil => exact (Nat.zero_mul size).symm
  | cons record records ih =>
    simp only [List.mem_cons,forall_eq_or_imp] at sized
    rw [List.flatten_cons,List.length_append,sized.1,ih sized.2,List.length_cons,Nat.succ_mul,Nat.add_comm]

@[simp] theorem length_block (batch : RecordBatch size) : batch.block.length = batch.records.length * size :=
  length_flatten batch.sized

theorem drop_flatten (sized : ∀ record ∈ records, record.length = size) {i : ℕ}
    (hi : i < records.length) : records.flatten.drop (i * size) = records[i] ++ (records.drop (i + 1)).flatten := by
  induction records generalizing i with
  | nil => exact absurd hi (Nat.not_lt_zero i)
  | cons record records ih =>
    simp only [List.mem_cons,forall_eq_or_imp] at sized
    cases i with
    | zero =>
      rw [Nat.zero_mul,List.drop_zero]
      rfl
    | succ i =>
      rw [List.flatten_cons,Nat.succ_mul,Nat.add_comm,← List.drop_drop,← sized.1,List.drop_left,sized.1]
      exact ih sized.2 (Nat.lt_of_succ_lt_succ hi)

theorem readAt_block (batch : RecordBatch size) {i offset width : ℕ} (hi : i < batch.records.length)
    (hinside : offset + width ≤ size) :
    readAt batch.block (i * size + offset) width = some ((batch.records[i].drop offset).take width) := by
  have hlength := batch.sized _ (List.getElem_mem hi)
  have hle : (i + 1) * size ≤ batch.records.length * size := Nat.mul_le_mul_right size hi
  rw [Nat.succ_mul] at hle
  rw [readAt,length_block,if_pos (by omega),← List.drop_drop,block,drop_flatten batch.sized hi,
    List.drop_append_of_le_length (by omega),List.take_append_of_le_length (by rw [List.length_drop]; omega)]

theorem forRecords_eq {body : ℕ → Option R} {result : List UInt8 → R} {first count : ℕ}
    (hbody : ∀ i (hi : i < records.length), body (first + i) = some (result records[i]))
    (hcount : count ≤ records.length) :
    forRecords body first count = some ((records.take count).map result) := by
  induction count generalizing first records with
  | zero => rfl
  | succ count ih =>
    cases records with
    | nil => exact absurd hcount (Nat.not_succ_le_zero count)
    | cons record records =>
      have hrest : forRecords body (first + 1) count = some ((records.take count).map result) := by
        apply ih
        · intro i hi
          have hnext := hbody (i + 1) (Nat.succ_lt_succ hi)
          rwa [← Nat.add_assoc,Nat.add_right_comm] at hnext
        · exact Nat.le_of_succ_le_succ hcount
      have hfirst : body first = some (result record) := hbody 0 (Nat.zero_lt_succ _)
      rw [forRecords,hfirst,Option.bind_some,hrest,Option.map_some]
      rfl

end RecordBatch
end FeatureRuntime
