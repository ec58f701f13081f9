import FeatureRuntime.DataRoundTrip
import FeatureRuntime.GuestValues

/-! Integers through the QuickJS backend: which JS numbers an integer type takes for another number, and which native
integers come back. -/
namespace FeatureRuntime

namespace JSNumber

def IsInteger : JSNumber → ℤ → Prop
  | .int held, n => held = n
  | .float64 bits, n =>
    (bits.extractLsb' 52 11).toNat ≠ 2047 ∧
      Binary64.scaled (bits.extractLsb' 52 11).toNat (bits.extractLsb' 0 52).toNat = n.natAbs * 2 ^ 1074 ∧
      (n ≠ 0 → (bits.msb = true ↔ n < 0))

theorem IsInteger.trunc {number : JSNumber} {n : ℤ} (h : number.IsInteger n) : number.trunc = some n := by
  cases number with
  | int held => exact congrArg some h
  | float64 bits =>
    obtain ⟨hfinite,hscaled,hsign⟩ := h
    have hmagnitude := Binary64.magnitude_of_scaled rfl (bits.extractLsb' 0 52).isLt hscaled
    rw [Binary64.magnitude] at hmagnitude
    simp only [JSNumber.trunc,if_neg hfinite,hmagnitude]
    congr 1
    by_cases hzero : n = 0
    · simp [hzero]
    · have hiff := hsign hzero
      split_ifs with hmsb
      · have hneg := hiff.mp hmsb
        omega
      · have hpos := mt hiff.mpr hmsb
        omega

/-- The number that `JS_NewInt64` makes is a whole one; only the largest ones become `2 ^ 63`. -/
theorem isInteger_ofInt64 {value : ℤ} (hlow : -2 ^ 63 ≤ value) (hhigh : value < 2 ^ 63) :
    ∃ rounded : ℤ, (ofInt64 value).IsInteger rounded ∧ -2 ^ 63 ≤ rounded ∧
      (rounded = value ↔ isExact value = true) ∧ (rounded < 2 ^ 63 ↔ value < 2 ^ 63 - 512) := by
  by_cases hint : -2147483648 ≤ value ∧ value ≤ 2147483647
  · rw [ofInt64,if_pos hint]
    exact ⟨value,rfl,hlow,iff_of_true rfl (isExact_of_int32 hint.1 (by omega)),by omega⟩
  have hfinite := Binary64.encode_lt (show value.natAbs ≤ 2 ^ 64 by omega)
  obtain ⟨hsign,hexponent,hfraction⟩ := fields_ofNat hfinite (decide (value < 0))
  simp only [decide_eq_true_eq] at hsign hexponent hfraction
  obtain ⟨hle,hlt⟩ := Binary64.round_lt_iff (show value.natAbs ≤ 2 ^ 63 by omega)
  have hexact : isExact value = true ↔ Binary64.round value.natAbs = value.natAbs := by
    rw [isExact,decide_eq_true_eq,Binary64.round_eq_self_iff]
  have habs : ((if value < 0 then -(Binary64.round value.natAbs : ℤ) else Binary64.round value.natAbs) : ℤ).natAbs =
      Binary64.round value.natAbs := by
    split_ifs <;> omega
  refine ⟨if value < 0 then -(Binary64.round value.natAbs : ℤ) else Binary64.round value.natAbs,?_,?_,?_,?_⟩
  · rw [ofInt64,if_neg hint]
    refine ⟨by rw [hexponent]; exact hfinite.ne,?_,?_⟩
    · rw [hexponent,hfraction,habs]
      exact Binary64.scaled_encode value.natAbs rfl
    · intro hne
      rw [hsign,decide_eq_true_eq]
      split_ifs at hne ⊢ <;> omega
  · split_ifs <;> omega
  · rw [hexact]
    split_ifs <;> omega
  · split_ifs <;> omega

end JSNumber

def JSValue.IsNumeric : JSValue → Prop
  | .number (.int value) => -2 ^ 31 ≤ value ∧ value < 2 ^ 31
  | .number (.float64 _) => True
  | .bigInt _ => True
  | _ => False

def JSValue.IsInteger : JSValue → ℤ → Prop
  | .number x, n => x.IsInteger n
  | .bigInt held, n => held = n
  | _, _ => False

namespace IntegerType

variable (E : Env) (TE : TargetEnv) (st : ConvertState) (s : EngineState) (type : IntegerType)

def Contains (n : ℤ) : Prop := type.low ≤ n ∧ n < type.high

def Lossless (v : JSValue) : Prop :=
  let r := convertValueToNative E (.primitive type.primitive) v .zero st
  r.ok = true → ∃ n, v.IsInteger n ∧ type.Contains n ∧ r.content = some (.int n)

/-- What `convertValueToTarget` makes of a native integer is converted back to it. -/
def Restores (n : ℤ) : Prop :=
  ∃ v, (convertValueToTarget TE (.primitive type.primitive) (.value (.int n)) none s).ok = true ∧
    (convertValueToTarget TE (.primitive type.primitive) (.value (.int n)) none s).target = some (.plain v) ∧
    (convertValueToNative E (.primitive type.primitive) v .zero st).ok = true ∧
    (convertValueToNative E (.primitive type.primitive) v .zero st).content = some (.int n)

/-- The values that the type takes for what they are, or refuses. Tagged ints are not checked against 8 and 16 bits,
doubles not at all except for the range of `JS_ToIndex`. -/
def Takes : JSValue → Prop
  | .number number =>
    match type with
    | .int | .int32 => True
    | .int8 | .int16 => number.isInt = true → ∃ n, number.IsInteger n ∧ type.Contains n
    | .uint64 => number.toIndex = none ∨ ∃ n, number.IsInteger n ∧ type.Contains n
    | _ => ∃ n, number.IsInteger n ∧ type.Contains n
  | _ => True

/-- The native integers that come back: a 64-bit one must be the value of a double, and the BigInt of an unsigned one is
never taken. -/
def Returns (n : ℤ) : Prop :=
  match type with
  | .int64 => JSNumber.isExact n = true
  | .uint64 => False
  | _ => True

variable {E TE st s type}

theorem convert_eq (v : JSValue) : convertValueToNative E (.primitive type.primitive) v .zero st =
    match toNative type.primitive v with
    | some value => .stored type.primitive.storeSize (some value) st
    | none => .fail st := by
  cases type <;> rfl

theorem lossless_iff {v : JSValue} : type.Lossless E st v ↔ ∀ value, toNative type.primitive v = some value →
    ∃ n, v.IsInteger n ∧ type.Contains n ∧ value = .int n := by
  rw [Lossless,convert_eq]
  cases htarget : toNative type.primitive v with
  | none => exact iff_of_true nofun nofun
  | some value =>
    constructor
    · intro h value' hvalue
      obtain rfl := Option.some.inj hvalue
      obtain ⟨n,hinteger,hcontains,hcontent⟩ := h rfl
      exact ⟨n,hinteger,hcontains,Option.some.inj hcontent⟩
    · intro h _
      obtain ⟨n,hinteger,hcontains,hvalue⟩ := h value rfl
      exact ⟨n,hinteger,hcontains,congrArg some hvalue⟩

theorem lossless_iff_contains {number : JSNumber} {f : JSNumber → ℤ}
    (hread : toNative type.primitive (.number number) = some (.int (f number)))
    (hexact : ∀ n, number.IsInteger n → type.Contains n → f number = n) :
    type.Lossless E st (.number number) ↔ ∃ n, number.IsInteger n ∧ type.Contains n := by
  rw [lossless_iff]
  constructor
  · intro h
    obtain ⟨n,hinteger,hcontains,_⟩ := h _ hread
    exact ⟨n,hinteger,hcontains⟩
  · intro h value hvalue
    obtain ⟨n,hinteger,hcontains⟩ := h
    refine ⟨n,hinteger,hcontains,?_⟩
    rw [← hexact n hinteger hcontains]
    exact (Option.some.inj (hread.symm.trans hvalue)).symm

theorem toUint32_of_isInteger {number : JSNumber} {n : ℤ} (h : number.IsInteger n) (hlow : 0 ≤ n) (hhigh : n < 2 ^ 32) :
    number.toUint32 = n := by
  rw [JSNumber.toUint32,h.trunc,Option.getD_some,Int.emod_eq_of_lt hlow hhigh]

theorem lossless_iff_takes {v : JSValue} (hv : v.IsNumeric) : type.Lossless E st v ↔ type.Takes v := by
  cases v with
  | bigInt value => exact iff_of_true (lossless_iff.mpr (by cases type <;> exact nofun)) trivial
  | number number =>
    cases type with
    | int | int32 =>
      refine iff_of_true (lossless_iff.mpr ?_) trivial
      intro value hvalue
      cases number with
      | int held => exact ⟨held,rfl,hv,(Option.some.inj hvalue).symm⟩
      | float64 bits => cases hvalue
    | int8 =>
      cases number with
      | int held =>
        simp only [Takes,JSNumber.isInt,true_imp_iff]
        apply lossless_iff_contains (f := fun _ => narrow 8 true held) rfl
        intro n hn hcontains
        obtain rfl : held = n := hn
        exact @narrow_signed 7 held hcontains.1 hcontains.2
      | float64 bits => exact iff_of_true (lossless_iff.mpr nofun) nofun
    | int16 =>
      cases number with
      | int held =>
        simp only [Takes,JSNumber.isInt,true_imp_iff]
        apply lossless_iff_contains (f := fun _ => narrow 16 true held) rfl
        intro n hn hcontains
        obtain rfl : held = n := hn
        exact @narrow_signed 15 held hcontains.1 hcontains.2
      | float64 bits => exact iff_of_true (lossless_iff.mpr nofun) nofun
    | uint8 =>
      apply lossless_iff_contains (f := fun number => narrow 8 false number.toUint32) rfl
      intro n hn hcontains
      rw [toUint32_of_isInteger hn hcontains.1 (Int.lt_trans hcontains.2 (by decide))]
      exact @narrow_unsigned 8 n hcontains.1 hcontains.2
    | uint16 =>
      apply lossless_iff_contains (f := fun number => narrow 16 false number.toUint32) rfl
      intro n hn hcontains
      rw [toUint32_of_isInteger hn hcontains.1 (Int.lt_trans hcontains.2 (by decide))]
      exact @narrow_unsigned 16 n hcontains.1 hcontains.2
    | uint32 =>
      apply lossless_iff_contains (f := JSNumber.toUint32) rfl
      intro n hn hcontains
      exact toUint32_of_isInteger hn hcontains.1 hcontains.2
    | int64 =>
      apply lossless_iff_contains (f := JSNumber.toInt64) rfl
      intro n hn hcontains
      obtain ⟨hlow,hhigh⟩ := hcontains
      simp only [low,high] at hlow hhigh
      rw [JSNumber.toInt64,hn.trunc,Option.getD_some]
      exact Int.bmod_eq_of_le_mul_two (by omega) (by omega)
    | uint64 =>
      cases hindex : number.toIndex with
      | none =>
        refine iff_of_true (lossless_iff.mpr ?_) (.inl hindex)
        intro value hvalue
        simp [primitive,toNative,hindex] at hvalue
      | some k =>
        have hread : toNative (primitive .uint64) (.number number) = some (.int k) := by
          simp only [primitive,toNative,hindex,Option.map_some]
        rw [lossless_iff_contains (f := fun _ => k) hread]
        · simp [Takes,hindex]
        · intro n hn _
          rw [JSNumber.toIndex,hn.trunc] at hindex
          dsimp only at hindex
          split_ifs at hindex
          exact (Option.some.inj hindex).symm
  | _ => cases hv

theorem convertToTarget_eq (n : ℤ) : convertValueToTarget TE (.primitive type.primitive) (.value (.int n)) none s =
    s.wrote (toTarget TE type.primitive (.value (.int n))) := by
  cases type <;> rfl

theorem restores_iff {n : ℤ} : type.Restores E TE st s n ↔
    toNative type.primitive (toTarget TE type.primitive (.value (.int n))) = some (.int n) := by
  rw [Restores,convertToTarget_eq]
  constructor
  · intro h
    obtain ⟨v,_,htarget,hok,hcontent⟩ := h
    obtain rfl : toTarget TE type.primitive (.value (.int n)) = v := by
      simpa [EngineState.wrote] using htarget
    rw [convert_eq] at hok hcontent
    cases hread : toNative type.primitive (toTarget TE type.primitive (.value (.int n))) with
    | none => simp [hread,Converted.fail] at hok
    | some value =>
      rw [hread] at hcontent
      exact hcontent
  · intro h
    refine ⟨_,rfl,rfl,?_,?_⟩
    · rw [convert_eq,h]
      rfl
    · rw [convert_eq,h]
      rfl

theorem restores_iff_returns (hTE : ∀ n, TE.newInt64 n = .ofInt64 n) {n : ℤ} (hn : type.Contains n) :
    type.Restores E TE st s n ↔ type.Returns n := by
  rw [restores_iff]
  -- up to 32 bits the value is handed out as `JS_NewUint32` would
  have hsmall : type.primitive.holds n = true →
      toNative type.primitive (toTarget TE type.primitive (.value (.int n))) = some (.int n) := by
    intro hholds
    rw [toTarget_int hholds rfl]
    exact toNative_newUint32 hholds
  cases type with
  | int64 =>
    obtain ⟨hlow,hhigh⟩ := hn
    simp only [primitive,toTarget,intAt,hTE,toNative,Option.some.injEq,Native.int.injEq]
    exact JSNumber.toInt64_ofInt64_iff hlow hhigh
  | uint64 => exact iff_of_false (by rintro ⟨⟩) not_false
  | _ => exact iff_of_true (hsmall (decide_eq_true hn)) trivial

/-- Which numbers are taken for what they are or refused, and which integers come back. -/
theorem integers_kept_iff (hTE : ∀ n, TE.newInt64 n = .ofInt64 n) :
    (∀ v : JSValue, v.IsNumeric → (type.Lossless E st v ↔ type.Takes v)) ∧
      ∀ n, type.Contains n → (type.Restores E TE st s n ↔ type.Returns n) :=
  ⟨fun _ hv => lossless_iff_takes hv,fun _ hn => restores_iff_returns hTE hn⟩

def numbersOnly : Env := .ofEngine .bits64 (.ofProperties (fun _ _ => .undefined))

def targetNumbers : TargetEnv where
  platform := .bits64
  newInt64 := .ofInt64
  newString _ := ""
  parseJson _ := false
  interfaceTarget _ := none

theorem five_kept : (∀ n, targetNumbers.newInt64 n = .ofInt64 n) ∧ JSValue.IsNumeric (.number (.int 5)) ∧
    int8.Lossless numbersOnly {} (.number (.int 5)) ∧ int8.Restores numbersOnly targetNumbers {} ⟨[none],false⟩ 5 := by
  have hcontains : int8.Contains 5 := ⟨by decide,by decide⟩
  have hnumeric : JSValue.IsNumeric (.number (.int 5)) := ⟨by decide,by decide⟩
  obtain ⟨hjs,hnative⟩ := @integers_kept_iff numbersOnly targetNumbers {} ⟨[none],false⟩ int8 (fun _ => rfl)
  exact ⟨fun _ => rfl,hnumeric,(hjs _ hnumeric).mpr (fun _ => ⟨5,rfl,hcontains⟩),(hnative 5 hcontains).mpr trivial⟩

/-- 300 becomes 44 as an `int8_t`, and a `uint64_t` is handed out as a BigInt, which is refused. -/
theorem three_hundred_truncated :
    ¬int8.Lossless numbersOnly {} (.number (.int 300)) ∧ ¬uint64.Restores numbersOnly targetNumbers {} ⟨[none],false⟩ 5 := by
  constructor
  · intro h
    obtain ⟨n,hinteger,hcontains,_⟩ := h rfl
    obtain rfl : 300 = n := hinteger
    exact absurd hcontains.2 (by decide)
  · intro h
    obtain ⟨v,_,htarget,hok,_⟩ := h
    obtain rfl : _ = v := EngineValue.plain.inj (Option.some.inj htarget)
    exact absurd hok (by decide)

end IntegerType
end FeatureRuntime
