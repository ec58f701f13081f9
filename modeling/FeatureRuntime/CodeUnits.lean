import Mathlib.Data.List.Basic
import Mathlib.Data.Nat.Notation

/-! UTF-16 code units as bytes, each in one to three of them. Strings without surrogate pairs are UTF-8 so. -/
namespace FeatureRuntime
namespace CodeUnits

def unitBytes (unit : UInt16) : List UInt8 :=
  if unit.toNat < 0x80 then [UInt8.ofNat unit.toNat]
  else if unit.toNat < 0x800 then [UInt8.ofNat (0xC0 + unit.toNat / 64),UInt8.ofNat (0x80 + unit.toNat % 64)]
  else [UInt8.ofNat (0xE0 + unit.toNat / 4096),UInt8.ofNat (0x80 + unit.toNat / 64 % 64),
    UInt8.ofNat (0x80 + unit.toNat % 64)]

def encode (units : List UInt16) : List UInt8 := units.flatMap unitBytes

def unitOf (bits : ℕ) : UInt16 := if bits % 65536 = 0 then 0xFFFD else UInt16.ofNat bits

/-- With `due` bytes of a unit to come, and its `bits` so far. -/
def decodeFrom : (due bits : ℕ) → List UInt8 → List UInt16
  | _,_,[] => []
  | 0,_,byte :: rest =>
    if byte.toNat < 0x80 then UInt16.ofNat byte.toNat :: decodeFrom 0 0 rest
    else if byte.toNat < 0xE0 then decodeFrom 1 (byte.toNat % 32) rest
    else decodeFrom 2 (byte.toNat % 16) rest
  | due + 1,bits,byte :: rest =>
    if due = 0 then unitOf (bits * 64 + byte.toNat % 64) :: decodeFrom 0 0 rest
    else decodeFrom due (bits * 64 + byte.toNat % 64) rest

def decode (bytes : List UInt8) : List UInt16 := decodeFrom 0 0 bytes

theorem unitOf_toNat {unit : UInt16} (h : unit ≠ 0) : unitOf unit.toNat = unit := by
  have hlt := unit.toNat_lt
  have hne : unit.toNat ≠ 0 := fun hzero => h (UInt16.toNat_inj.mp hzero)
  rw [unitOf,if_neg (by omega),UInt16.ofNat_toNat]

theorem decodeFrom_unitBytes {unit : UInt16} (h : unit ≠ 0) (rest : List UInt8) :
    decodeFrom 0 0 (unitBytes unit ++ rest) = unit :: decodeFrom 0 0 rest := by
  have hlt := unit.toNat_lt
  have htoNat : ∀ {n : ℕ}, n < 256 → (UInt8.ofNat n).toNat = n := fun hn => Nat.mod_eq_of_lt hn
  rw [unitBytes]
  split_ifs with hone htwo
  · rw [List.cons_append,decodeFrom,htoNat (by omega),if_pos hone,UInt16.ofNat_toNat,List.nil_append]
  · have hbits : (0xC0 + unit.toNat / 64) % 32 * 64 + (0x80 + unit.toNat % 64) % 64 = unit.toNat := by omega
    rw [List.cons_append,decodeFrom,htoNat (by omega),if_neg (by omega),if_pos (by omega),List.cons_append,
      decodeFrom,htoNat (by omega),if_pos rfl,hbits,unitOf_toNat h,List.nil_append]
  · have hbits : ((0xE0 + unit.toNat / 4096) % 16 * 64 + (0x80 + unit.toNat / 64 % 64) % 64) * 64 +
        (0x80 + unit.toNat % 64) % 64 = unit.toNat := by omega
    rw [List.cons_append,decodeFrom,htoNat (by omega),if_neg (by omega),if_neg (by omega),List.cons_append,
      decodeFrom,htoNat (by omega),if_neg (by decide),List.cons_append,decodeFrom,htoNat (by omega),if_pos rfl,hbits,
      unitOf_toNat h,List.nil_append]

theorem decode_encode (units : List UInt16) (h : 0 ∉ units) : decode (encode units) = units := by
  induction units with
  | nil => rfl
  | cons unit units ih =>
    simp only [List.mem_cons,not_or] at h
    rw [encode,List.flatMap_cons,decode,decodeFrom_unitBytes (Ne.symm h.1)]
    exact congrArg _ (ih h.2)

theorem noNul_encode (units : List UInt16) (h : 0 ∉ units) : 0 ∉ encode units := by
  intro hmem
  obtain ⟨unit,hunit,hbyte⟩ := List.mem_flatMap.mp hmem
  have hne : unit ≠ 0 := fun hzero => h (hzero ▸ hunit)
  have hpos : unit.toNat ≠ 0 := fun hzero => hne (UInt16.toNat_inj.mp hzero)
  have hlt := unit.toNat_lt
  have hofNat : ∀ {n : ℕ}, n < 256 → n ≠ 0 → (0 : UInt8) ≠ UInt8.ofNat n := by
    intro n hn hzero heq
    have htoNat : 0 = n % 256 := congrArg UInt8.toNat heq
    omega
  unfold unitBytes at hbyte
  split_ifs at hbyte
  all_goals
    simp only [List.mem_cons,List.not_mem_nil,or_false] at hbyte
  · exact hofNat (by omega) hpos hbyte
  · rcases hbyte with hfirst | hsecond
    · exact hofNat (by omega) (by omega) hfirst
    · exact hofNat (by omega) (by omega) hsecond
  · rcases hbyte with hfirst | hsecond | hthird
    · exact hofNat (by omega) (by omega) hfirst
    · exact hofNat (by omega) (by omega) hsecond
    · exact hofNat (by omega) (by omega) hthird

theorem unitOf_ne_zero (bits : ℕ) : (0 : UInt16) ≠ unitOf bits := by
  rw [unitOf]
  split_ifs with hzero
  · decide
  · intro heq
    have htoNat : 0 = bits % 65536 := congrArg UInt16.toNat heq
    omega

theorem noNul_decodeFrom (bytes : List UInt8) (h : 0 ∉ bytes) (due bits : ℕ) : 0 ∉ decodeFrom due bits bytes := by
  induction bytes generalizing due bits with
  | nil => cases due <;> exact List.not_mem_nil
  | cons byte rest ih =>
    simp only [List.mem_cons,not_or] at h
    cases due with
    | zero =>
      rw [decodeFrom]
      split_ifs
      · refine List.not_mem_cons_of_ne_of_not_mem ?_ (ih h.2 0 0)
        intro heq
        have htoNat : 0 = byte.toNat % 65536 := congrArg UInt16.toNat heq
        have hlt := byte.toNat_lt
        exact h.1 (UInt8.toNat_inj.mp (by rw [UInt8.toNat_zero]; omega))
      · exact ih h.2 1 _
      · exact ih h.2 2 _
    | succ due =>
      rw [decodeFrom]
      split_ifs
      · exact List.not_mem_cons_of_ne_of_not_mem (unitOf_ne_zero _) (ih h.2 0 0)
      · exact ih h.2 due _

end CodeUnits
end FeatureRuntime
