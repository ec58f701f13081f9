import Mathlib.Data.Int.Notation
import Mathlib.Data.List.Basic
import Mathlib.Data.List.TakeWhile
import Mathlib.Data.Nat.Notation

/-! Characters, strings and output buffers of C. A pointer into a block is what is left of the block
from there, so that a read behind the end of the block has no result. -/
namespace FeatureRuntime

structure CText where
  bytes : List UInt8
  noNul : 0 ∉ bytes

def cstr (block : List UInt8) : List UInt8 := block.takeWhile (· ≠ 0)

def utf8 (s : String) : List UInt8 := s.toUTF8.data.toList

/-- The bytes are a text in UTF-8: `CStr::to_str` succeeds, and `JS_NewString` keeps them. -/
def IsUtf8 (bytes : List UInt8) : Prop := (ByteArray.mk bytes.toArray).IsValidUTF8

instance (bytes : List UInt8) : Decidable (IsUtf8 bytes) := inferInstanceAs (Decidable (ByteArray.IsValidUTF8 _))

theorem isUtf8_utf8 (s : String) : IsUtf8 (utf8 s) := by
  simpa [IsUtf8,utf8] using s.isValidUTF8

namespace CText

def block (s : CText) : List UInt8 := s.bytes ++ [0]

theorem cstr_append {s : List UInt8} (h : 0 ∉ s) (rest : List UInt8) : cstr (s ++ 0 :: rest) = s := by
  have hall : ∀ c ∈ s, decide (c ≠ 0) = true := by
    intro c hc
    have hne : c ≠ 0 := fun h0 => h (h0 ▸ hc)
    simpa using hne
  rw [cstr,List.takeWhile_append_of_pos hall]
  simp

@[simp] theorem cstr_block (s : CText) : cstr s.block = s.bytes := cstr_append s.noNul []

end CText

/-- `strlen`: there is none when the block has no terminator. -/
def strlen : List UInt8 → Option ℕ
  | [] => none
  | c :: rest => if c = 0 then some 0 else (strlen rest).map (· + 1)

theorem strlen_append {s : List UInt8} (h : 0 ∉ s) (rest : List UInt8) : strlen (s ++ 0 :: rest) = some s.length := by
  induction s with
  | nil => rfl
  | cons c s ih =>
    have hc : c ≠ 0 := fun h0 => h (by simp [h0])
    have hs : 0 ∉ s := fun hmem => h (List.mem_cons_of_mem c hmem)
    simp [strlen,hc,ih hs]

@[simp] theorem strlen_block (s : CText) : strlen s.block = some s.bytes.length :=
  strlen_append s.noNul []

theorem strlen_of_mem {block : List UInt8} (h : 0 ∈ block) : strlen block = some (cstr block).length := by
  induction block with
  | nil => exact absurd h List.not_mem_nil
  | cons c rest ih =>
    by_cases hc : c = 0
    · simp [strlen,cstr,hc]
    · have hrest : 0 ∈ rest := (List.mem_cons.mp h).resolve_left (Ne.symm hc)
      have hcstr : cstr (c :: rest) = c :: cstr rest := by simp [cstr,hc]
      rw [strlen,if_neg hc,ih hrest,hcstr]
      rfl

/-- The terminator is behind the text. -/
theorem getElem?_cstr {block : List UInt8} (h : 0 ∈ block) : block[(cstr block).length]? = some 0 := by
  induction block with
  | nil => exact absurd h List.not_mem_nil
  | cons c rest ih =>
    by_cases hc : c = 0
    · simp [cstr,hc]
    · have hrest : 0 ∈ rest := (List.mem_cons.mp h).resolve_left (Ne.symm hc)
      have hcstr : cstr (c :: rest) = c :: cstr rest := by simp [cstr,hc]
      rw [hcstr,List.length_cons,List.getElem?_cons_succ]
      exact ih hrest

theorem strlen_of_notMem {block : List UInt8} (h : 0 ∉ block) : strlen block = none := by
  induction block with
  | nil => rfl
  | cons c rest ih =>
    simp only [List.mem_cons,not_or] at h
    rw [strlen,if_neg (Ne.symm h.1),ih h.2]
    rfl

theorem cstr_isPrefixOf (block : List UInt8) : cstr block <+: block := List.takeWhile_prefix _

theorem notMem_cstr (block : List UInt8) : 0 ∉ cstr block := by
  intro h
  have hne := List.mem_takeWhile_imp h
  simp at hne

theorem cstr_concat_isPrefixOf (s : List UInt8) : cstr (s ++ [0]) <+: s := by
  induction s with
  | nil => simp [cstr]
  | cons c s ih =>
    by_cases hc : c = 0
    · simp [cstr,hc]
    · have hcons : cstr (c :: s ++ [0]) = c :: cstr (s ++ [0]) := by simp [cstr,hc]
      rw [hcons]
      exact List.cons_prefix_cons.mpr ⟨rfl,ih⟩

/-- `strstr`: the text from the first occurrence on. -/
def findText (needle : List UInt8) : List UInt8 → Option (List UInt8)
  | [] => if needle = [] then some [] else none
  | c :: text => if needle.isPrefixOf (c :: text) then some (c :: text) else findText needle text

def ascii (text : String) : List UInt8 := text.toList.map (fun c => UInt8.ofNat c.toNat)

/-- `strchr`: the offset of a byte of the string, none when it has no such byte. The outer option is none
when the block has no terminator. -/
def strchr (c : UInt8) : List UInt8 → Option (Option ℕ)
  | [] => none
  | x :: rest =>
    if x = c then some (some 0) else if x = 0 then some none
    else (strchr c rest).map (Option.map (· + 1))

theorem strchr_of_mem {c : UInt8} {s : List UInt8} (h0 : 0 ∉ s) (hc : c ∉ s) (rest : List UInt8) :
    strchr c (s ++ c :: rest) = some (some s.length) := by
  induction s with
  | nil => simp [strchr]
  | cons x s ih =>
    simp only [List.mem_cons,not_or] at h0 hc
    simp [strchr,Ne.symm h0.1,Ne.symm hc.1,ih h0.2 hc.2]

theorem strchr_of_notMem {c : UInt8} {s : List UInt8} (h0 : 0 ∉ s) (hc : c ∉ s) (hne : c ≠ 0)
    (rest : List UInt8) : strchr c (s ++ 0 :: rest) = some none := by
  induction s with
  | nil => simp [strchr,Ne.symm hne]
  | cons x s ih =>
    simp only [List.mem_cons,not_or] at h0 hc
    simp [strchr,Ne.symm h0.1,Ne.symm hc.1,ih h0.2 hc.2]

/-- `strcmp` of two strings without their terminators: the difference of the first two bytes that differ. -/
def strcmp : List UInt8 → List UInt8 → ℤ
  | [], [] => 0
  | [], d :: _ => -d.toNat
  | c :: _, [] => c.toNat
  | c :: s, d :: t => if c = d then strcmp s t else c.toNat - d.toNat

theorem strcmp_swap (s t : List UInt8) : strcmp t s = -strcmp s t := by
  induction s generalizing t with
  | nil => cases t <;> simp [strcmp]
  | cons c s ih =>
    cases t with
    | nil => rfl
    | cons d t =>
      by_cases hcd : c = d
      · simp only [strcmp,if_pos hcd,if_pos hcd.symm,ih]
      · simp only [strcmp,if_neg hcd,if_neg (Ne.symm hcd)]
        omega

theorem byte_pos {c : UInt8} (h : 0 ≠ c) : 0 < c.toNat := by
  have hne : c.toNat ≠ 0 := fun h0 => h (UInt8.toNat_inj.mp h0).symm
  omega

variable {s t : List UInt8}

theorem strcmp_neg_iff (hs : 0 ∉ s) (ht : 0 ∉ t) : strcmp s t < 0 ↔ s < t := by
  induction s generalizing t with
  | nil =>
    cases t with
    | nil => simp [strcmp]
    | cons d t =>
      have hd : 0 < d.toNat := byte_pos (List.ne_of_not_mem_cons ht)
      simp [strcmp,hd]
  | cons c s ih =>
    cases t with
    | nil => simp [strcmp]
    | cons d t =>
      rw [strcmp,List.cons_lt_cons_iff]
      by_cases hcd : c = d
      · rw [if_pos hcd,ih (List.not_mem_of_not_mem_cons hs) (List.not_mem_of_not_mem_cons ht)]
        simp [hcd]
      · rw [if_neg hcd,UInt8.lt_iff_toNat_lt]
        simp only [hcd,false_and,or_false]
        omega

theorem strcmp_le_iff (hs : 0 ∉ s) (ht : 0 ∉ t) : strcmp s t ≤ 0 ↔ s ≤ t := by
  rw [← List.not_lt,← strcmp_neg_iff ht hs,strcmp_swap]
  omega

theorem strcmp_eq_zero (hs : 0 ∉ s) (ht : 0 ∉ t) : strcmp s t = 0 ↔ s = t := by
  have hswap := strcmp_swap s t
  constructor
  · intro h
    exact List.le_antisymm ((strcmp_le_iff hs ht).mp (by omega)) ((strcmp_le_iff ht hs).mp (by omega))
  · rintro rfl
    omega

def readByte (block : List UInt8) (i : ℤ) : Option UInt8 := if 0 ≤ i then block[i.toNat]? else none

def writeByte (block : List UInt8) (i : ℕ) (c : UInt8) : Option (List UInt8) :=
  if i < block.length then some (block.set i c) else none

theorem writeByte_append (s : List UInt8) (x c : UInt8) (rest : List UInt8) :
    writeByte (s ++ x :: rest) s.length c = some (s ++ c :: rest) := by
  have hlt : s.length < (s ++ x :: rest).length := by simp
  rw [writeByte,if_pos hlt,List.set_append_right _ _ (Nat.le_refl _)]
  simp

theorem readByte_append (s : List UInt8) (x : UInt8) (rest : List UInt8) :
    readByte (s ++ x :: rest) s.length = some x := by
  simp [readByte]

/-- A buffer of a fixed size that is filled from its start. -/
structure Filling (capacity : ℕ) where
  bytes : List UInt8
  fits : bytes.length ≤ capacity

namespace Filling

variable {capacity : ℕ}

/-- What `malloc` returns. -/
def fresh (capacity : ℕ) : Filling capacity := ⟨[],Nat.zero_le _⟩

def put (b : Filling capacity) (c : UInt8) : Option (Filling capacity) :=
  if h : b.bytes.length < capacity then
    some ⟨b.bytes ++ [c],by rw [List.length_append]; exact h⟩
  else none

theorem put_eq (b : Filling capacity) (c : UInt8) (h : b.bytes.length < capacity) :
    ∃ b', b.put c = some b' ∧ b'.bytes = b.bytes ++ [c] :=
  ⟨_,dif_pos h,rfl⟩

end Filling

/-! Integer promotion of `char`, which is signed on some targets, and the C library in the C
locale. -/

/-- The `int` of a `char`. -/
def promote (signedChar : Bool) (c : UInt8) : BitVec 32 :=
  if signedChar then c.toBitVec.signExtend 32 else c.toBitVec.zeroExtend 32

/-- The `char` of an `int`. -/
def toChar (x : BitVec 32) : UInt8 := UInt8.ofBitVec (x.truncate 8)

def isdigit (x : BitVec 32) : Bool := (48 : BitVec 32).sle x && x.sle 57

def isupper (x : BitVec 32) : Bool := (65 : BitVec 32).sle x && x.sle 90

def islower (x : BitVec 32) : Bool := (97 : BitVec 32).sle x && x.sle 122

def isalnum (x : BitVec 32) : Bool := isdigit x || isupper x || islower x

def toupper (x : BitVec 32) : BitVec 32 := if islower x then x - 32 else x

theorem forall_byte {motive : UInt8 → Prop} (ofNat : ∀ n < 256, motive (UInt8.ofNat n)) (c : UInt8) : motive c := by
  have hc := ofNat c.toNat c.toNat_lt
  rwa [UInt8.ofNat_toNat] at hc

/-- `find_last_of`: the last position of an element. -/
def findLastOf {α : Type} [DecidableEq α] (c : α) : List α → Option ℕ
  | [] => none
  | x :: xs =>
    match findLastOf c xs with
    | some i => some (i + 1)
    | none => if x = c then some 0 else none

section FindLastOf

variable {α : Type} [DecidableEq α] {c : α} {s : List α}

theorem findLastOf_eq_none_iff : findLastOf c s = none ↔ c ∉ s := by
  induction s with
  | nil => simp [findLastOf]
  | cons x xs ih =>
    cases h : findLastOf c xs with
    | none =>
      have hxs := ih.mp h
      by_cases hx : x = c
      · simp [findLastOf,h,hx]
      · simp [findLastOf,h,hx,hxs,Ne.symm hx]
    | some i =>
      have hxs : ¬ c ∉ xs := fun hnot => by
        rw [ih.mpr hnot] at h
        cases h
      simpa [findLastOf,h] using fun _ => not_not.mp hxs

theorem findLastOf_eq_some {i : ℕ} (h : findLastOf c s = some i) :
    s = s.take i ++ c :: s.drop (i + 1) ∧ c ∉ s.drop (i + 1) := by
  induction s generalizing i with
  | nil => cases h
  | cons x xs ih =>
    cases hxs : findLastOf c xs with
    | some j =>
      simp only [findLastOf,hxs] at h
      cases h
      obtain ⟨heq,hnot⟩ := ih hxs
      exact ⟨congrArg (x :: ·) heq,hnot⟩
    | none =>
      simp only [findLastOf,hxs] at h
      split_ifs at h with hx
      cases h
      exact ⟨by simp [hx],findLastOf_eq_none_iff.mp hxs⟩

theorem findLastOf_append (before : List α) {after : List α} (h : c ∉ after) :
    findLastOf c (before ++ c :: after) = some before.length := by
  induction before with
  | nil => simp [findLastOf,findLastOf_eq_none_iff.mpr h]
  | cons x before ih => simp [findLastOf,ih]

end FindLastOf

end FeatureRuntime
