import FeatureRuntime.CryptoOptions

/-! `is_valid_utf8` as it walks through memory: which bytes it reads, and which byte strings it takes for text. -/
namespace FeatureRuntime.Crypto

section Scan

variable (data : ℕ → UInt8) (length : ℕ)

def slice (i : ℕ) : Bytes := (List.range' i (length - i)).map data

def followBytes : (remaining position : ℕ) → Bool × List ℕ
  | 0, _ => (true,[])
  | remaining + 1, position =>
    if length < position then (false,[])
    else if data position < 0x80 ∨ data position > 0xBF then (false,[position])
    else
      let follow := followBytes remaining (position + 1)
      (follow.1,position :: follow.2)

/-- The loop of `is_valid_utf8` from a position; its condition is `i <= length`. -/
def scanUtf8 (i : ℕ) : Bool × List ℕ :=
  if i ≤ length then
    match bytesNeeded (data i) with
    | none => (false,[i])
    | some needed =>
      let follow := followBytes data length needed (i + 1)
      if follow.1 then
        let rest := scanUtf8 (i + needed + 1)
        (rest.1,i :: follow.2 ++ rest.2)
      else (false,i :: follow.2)
  else (true,[])
termination_by length + 1 - i

def decryptedText : Option Bytes := if (scanUtf8 data length 0).1 then some (slice data length 0) else none

end Scan

def WellFormed (text : Bytes) : Prop := ∃ chars : List Char, text = chars.flatMap String.utf8EncodeChar

/-- The check tells text from other byte strings, without a look behind them. -/
structure Utf8Checked (data : ℕ → UInt8) (length : ℕ) : Prop where
  accepts_iff : (scanUtf8 data length 0).1 = true ↔ WellFormed (slice data length 0)
  reads_inside : ∀ i ∈ (scanUtf8 data length 0).2, i < length
  returns_text : ∀ text, decryptedText data length = some text → WellFormed text

/-- With a number of follow bytes due: a byte string has a byte that can neither follow nor be the first one of a
character where it stands. -/
def meetsBad : (due : ℕ) → Bytes → Bool
  | _,[] => false
  | 0,c :: rest =>
    match bytesNeeded c with
    | some due => meetsBad due rest
    | none => true
  | due + 1,c :: rest => if c < 0x80 ∨ c > 0xBF then true else meetsBad due rest

section Meaning

variable {data : ℕ → UInt8} {length : ℕ}

theorem slice_of_lt {i : ℕ} (h : i < length) : slice data length i = data i :: slice data length (i + 1) := by
  obtain ⟨n,hn⟩ : ∃ n, length - i = n + 1 := ⟨length - i - 1,by omega⟩
  have hrest : length - (i + 1) = n := by omega
  rw [slice,slice,hn,hrest,List.range'_succ,List.map_cons]

theorem slice_of_le {i : ℕ} (h : length ≤ i) : slice data length i = [] := by
  rw [slice,Nat.sub_eq_zero_of_le h,List.range'_zero,List.map_nil]

@[simp] theorem meetsBad_nil (due : ℕ) : meetsBad due [] = false := by cases due <;> rfl

theorem meetsBad_of_valid {due : ℕ} {text : Bytes} (h : isValidUtf8 due text = true) : meetsBad due text = false := by
  induction text generalizing due with
  | nil => exact meetsBad_nil due
  | cons c rest ih =>
    cases due with
    | zero =>
      rw [isValidUtf8] at h
      rw [meetsBad]
      cases hneeded : bytesNeeded c with
      | none => simp [hneeded] at h
      | some due => exact ih (by simpa [hneeded] using h)
    | succ due =>
      rw [isValidUtf8] at h
      rw [meetsBad]
      split_ifs at h with hfollow
      rw [if_neg hfollow]
      exact ih h

theorem meetsBad_of_wellFormed {text : Bytes} (h : WellFormed text) : meetsBad 0 text = false := by
  obtain ⟨chars,rfl⟩ := h
  exact meetsBad_of_valid (isValidUtf8_flatMap chars)

variable {remaining position : ℕ}

/-- Follow bytes that are all there, the last one perhaps at the length itself. -/
theorem followBytes_true (h : (followBytes data length remaining position).1 = true)
    (hposition : position ≤ length + 1) :
    position + remaining ≤ length + 1 ∧
      (followBytes data length remaining position).2 = List.range' position remaining ∧
      meetsBad remaining (slice data length position) = meetsBad 0 (slice data length (position + remaining)) := by
  induction remaining generalizing position with
  | zero => exact ⟨hposition,rfl,rfl⟩
  | succ remaining ih =>
    rw [followBytes] at h ⊢
    split_ifs at h ⊢ with hend hbad
    obtain ⟨hroom,hreads,hrest⟩ := ih h (by omega)
    have hshift : position + 1 + remaining = position + (remaining + 1) := by omega
    refine ⟨by omega,?_,?_⟩
    · dsimp only
      rw [hreads,List.range'_succ]
    · rcases Nat.lt_or_ge position length with hlt | hge
      · rw [slice_of_lt hlt,meetsBad,if_neg hbad,hrest,hshift]
      · rw [slice_of_le hge,slice_of_le (by omega),meetsBad_nil,meetsBad_nil]

/-- Where the loop stops short, it has met a bad byte of the text or has come to the length. -/
theorem followBytes_false (h : (followBytes data length remaining position).1 = false) :
    (meetsBad remaining (slice data length position) = true →
      ∀ i ∈ (followBytes data length remaining position).2, i < length) ∧
    (meetsBad remaining (slice data length position) = false → position ≤ length →
      length ∈ (followBytes data length remaining position).2) := by
  induction remaining generalizing position with
  | zero => simp [followBytes] at h
  | succ remaining ih =>
    rw [followBytes] at h ⊢
    rcases Nat.lt_trichotomy position length with hlt | rfl | hgt
    · rw [if_neg (by omega)] at h ⊢
      rw [slice_of_lt hlt,meetsBad]
      split_ifs at h ⊢ with hbad
      · simp [hlt]
      · obtain ⟨hinside,hend⟩ := ih h
        refine ⟨?_,?_⟩
        · intro hmeets i hi
          obtain rfl | hi := List.mem_cons.mp hi
          · exact hlt
          · exact hinside hmeets i hi
        · intro hmeets _
          exact List.mem_cons_of_mem _ (hend hmeets hlt)
    · rw [if_neg (by omega),slice_of_le (Nat.le_refl _),meetsBad_nil]
      refine ⟨by simp,fun _ _ => ?_⟩
      split_ifs <;> simp
    · rw [slice_of_le hgt.le,meetsBad_nil]
      exact ⟨by simp,fun _ hle => absurd hgt hle.not_gt⟩

/-- The check stops at the first bad byte of the text, and without one it reads the byte behind the text. -/
theorem scanUtf8_spec {i : ℕ} (h : i ≤ length) : (meetsBad 0 (slice data length i) = true →
      (scanUtf8 data length i).1 = false ∧ ∀ j ∈ (scanUtf8 data length i).2, j < length) ∧
    (meetsBad 0 (slice data length i) = false → length ∈ (scanUtf8 data length i).2) := by
  induction hsteps : length - i using Nat.strong_induction_on generalizing i with
  | _ steps ih =>
    subst hsteps
    rw [scanUtf8,if_pos h]
    rcases h.lt_or_eq with hlt | rfl
    · rw [slice_of_lt hlt,meetsBad]
      cases hneeded : bytesNeeded (data i) with
      | none => simp [hlt]
      | some needed =>
        dsimp only
        cases hfollow : (followBytes data length needed (i + 1)).1 with
        | false =>
          obtain ⟨hinside,hend⟩ := followBytes_false hfollow
          refine ⟨fun hbad => ⟨rfl,?_⟩,fun hgood => ?_⟩
          · simpa [hlt] using hinside hbad
          · exact List.mem_cons_of_mem _ (hend hgood hlt)
        | true =>
          obtain ⟨hroom,hreads,hrest⟩ := followBytes_true hfollow (by omega)
          have hshift : i + 1 + needed = i + needed + 1 := by omega
          rw [hrest,hreads,hshift,if_pos rfl]
          rcases Nat.lt_or_ge length (i + needed + 1) with hpast | hnext
          · rw [slice_of_le hpast.le,meetsBad_nil]
            refine ⟨by simp,fun _ => ?_⟩
            simp only [List.cons_append,List.mem_cons,List.mem_append,List.mem_range'_1]
            exact .inr (.inl (by omega))
          · obtain ⟨hbad,hgood⟩ := ih (length - (i + needed + 1)) (by omega) hnext rfl
            refine ⟨fun hmeets => ⟨(hbad hmeets).1,?_⟩,fun hmeets => ?_⟩
            · intro j hj
              simp only [List.cons_append,List.mem_cons,List.mem_append,List.mem_range'_1] at hj
              obtain rfl | hj | hj := hj
              · exact hlt
              · omega
              · exact (hbad hmeets).2 j hj
            · exact List.mem_append_right _ (hgood hmeets)
    · rw [slice_of_le (Nat.le_refl _),meetsBad_nil]
      refine ⟨by simp,fun _ => ?_⟩
      cases bytesNeeded (data i) with
      | none => simp
      | some needed =>
        dsimp only
        split_ifs <;> simp

/-- In front of a terminator the loop finds the follow bytes that the text has. -/
theorem followBytes_terminated (hend : data length = 0) (hposition : position ≤ length) :
    isValidUtf8 remaining (slice data length position) =
      ((followBytes data length remaining position).1 && isValidUtf8 0 (slice data length (position + remaining))) := by
  induction remaining generalizing position with
  | zero => simp [followBytes]
  | succ remaining ih =>
    rw [followBytes,if_neg (by omega)]
    rcases hposition.lt_or_eq with hlt | rfl
    · rw [slice_of_lt hlt,isValidUtf8]
      split_ifs with hbad
      · rfl
      · have hshift : position + 1 + remaining = position + (remaining + 1) := by omega
        rw [ih hlt,hshift]
    · have hterminator : data position < 0x80 ∨ data position > 0xBF := by simp [hend]
      rw [if_pos hterminator,slice_of_le (Nat.le_refl _)]
      simp [isValidUtf8]

theorem scanUtf8_terminated (hend : data length = 0) {i : ℕ} (h : i ≤ length + 1) :
    (scanUtf8 data length i).1 = isValidUtf8 0 (slice data length i) := by
  induction hsteps : length + 1 - i using Nat.strong_induction_on generalizing i with
  | _ steps ih =>
    subst hsteps
    rw [scanUtf8]
    split_ifs with hle
    · rcases hle.lt_or_eq with hlt | rfl
      · rw [slice_of_lt hlt,isValidUtf8]
        cases hneeded : bytesNeeded (data i) with
        | none => rfl
        | some needed =>
          dsimp only
          rw [followBytes_terminated hend hlt]
          cases hfollow : (followBytes data length needed (i + 1)).1 with
          | false => rfl
          | true =>
            obtain ⟨hroom,-,-⟩ := followBytes_true hfollow (by omega)
            have hshift : i + 1 + needed = i + needed + 1 := by omega
            rw [if_pos rfl,Bool.true_and,hshift]
            exact ih (length + 1 - (i + needed + 1)) (by omega) (by omega) rfl
      · have hnext := ih (i + 1 - (i + 1)) (by omega) (Nat.le_refl _) rfl
        rw [slice_of_le (Nat.le_succ i)] at hnext
        rw [slice_of_le (Nat.le_refl _),hend]
        simpa [bytesNeeded,followBytes] using hnext
    · rw [slice_of_le (by omega)]
      rfl

/-- The check is right exactly for what it refuses at a byte of the text: for all other byte strings, and so for every
text, it reads a byte more. -/
theorem utf8Checked_iff : Utf8Checked data length ↔ meetsBad 0 (slice data length 0) = true := by
  obtain ⟨hbad,hgood⟩ := @scanUtf8_spec data length 0 (Nat.zero_le length)
  constructor
  · intro h
    by_contra hmeets
    exact Nat.lt_irrefl length (h.reads_inside length (hgood (eq_false_of_ne_true hmeets)))
  · intro hmeets
    obtain ⟨hrefused,hinside⟩ := hbad hmeets
    refine ⟨?_,hinside,?_⟩
    · refine iff_of_false (by simp [hrefused]) ?_
      intro hwell
      rw [meetsBad_of_wellFormed hwell] at hmeets
      cases hmeets
    · intro text htext
      simp [decryptedText,hrefused] at htext

theorem head_utf8EncodeChar (c : Char) (rest : Bytes) : (String.utf8EncodeChar c ++ rest).head? ≠ some 0xC0 := by
  unfold String.utf8EncodeChar
  generalize c.val.toNat = v
  dsimp only
  split_ifs with h1 h2 h3 <;>
  · intro hhead
    have hbyte := congrArg UInt8.toNat (Option.some.inj hhead)
    simp at hbyte
    omega

def overlongNul : ℕ → UInt8
  | 0 => 0xC0
  | 1 => 0x80
  | _ => 0

theorem overlong_accepted : ¬Utf8Checked overlongNul 2 := by
  intro h
  have haccepted : (scanUtf8 overlongNul 2 0).1 = true := by
    have hend : overlongNul 2 = 0 := rfl
    rw [scanUtf8_terminated hend (Nat.zero_le _)]
    decide
  obtain ⟨chars,hchars⟩ := h.accepts_iff.mp haccepted
  cases chars with
  | nil => cases hchars
  | cons c chars => exact head_utf8EncodeChar c _ (congrArg List.head? hchars).symm

end Meaning

end FeatureRuntime.Crypto
