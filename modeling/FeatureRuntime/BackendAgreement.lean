import FeatureRuntime.GuestValues

/-! WAMR and QuickJS side by side: what one use of a feature member does through either backend. -/
namespace FeatureRuntime

section Conversions

variable {α β : Type} {P Q : Prop} {result : Except ConvertFailure α} {value : α} {n : ℕ}

def Decides (P : Prop) (result : Except ConvertFailure α) (value : α) : Prop :=
  P ∧ result = .ok value ∨ ¬P ∧ result = .error .refused

/-- A conversion gives the value just under a condition, and is never refused. -/
structure Keeps (P : Prop) (result : Except ConvertFailure α) (value : α) : Prop where
  accepts : result ≠ .error .refused
  ok_iff : result = .ok value ↔ P

theorem Decides.map (h : Decides P result value) (g : α → β) : Decides P (g <$> result) (g value) := by
  obtain ⟨hp,rfl⟩ | ⟨hp,rfl⟩ := h
  · exact .inl ⟨hp,rfl⟩
  · exact .inr ⟨hp,rfl⟩

theorem Decides.collect {P : Fin n → Prop} {f : Fin n → Except ConvertFailure α} {g : Fin n → α}
    (h : ∀ i, Decides (P i) (f i) (g i)) : Decides (∀ i, P i) (collect f) (List.ofFn g) := by
  by_cases hall : ∀ i, P i
  · refine .inl ⟨hall,collect_eq_ofFn_iff.mpr ?_⟩
    intro i
    obtain ⟨_,hok⟩ | ⟨hnot,_⟩ := h i
    · exact hok
    · exact absurd (hall i) hnot
  · refine .inr ⟨hall,?_⟩
    cases hresult : FeatureRuntime.collect f with
    | ok xs =>
      obtain ⟨g',_,hok⟩ := collect_eq_ok_iff.mp hresult
      refine absurd ?_ hall
      intro i
      obtain ⟨hp,_⟩ | ⟨_,hrefused⟩ := h i
      · exact hp
      · simp [hok i] at hrefused
    | error failure =>
      obtain ⟨i,hi⟩ := collect_eq_error hresult
      obtain ⟨_,hok⟩ | ⟨_,hrefused⟩ := h i
      · simp [hok] at hi
      · have hfailure : failure = .refused := by simpa [hrefused] using hi.symm
        rw [hfailure]

theorem Keeps.map (h : Keeps P result value) {g : α → β} (hg : Function.Injective g) :
    Keeps P (g <$> result) (g value) := by
  cases result with
  | ok held =>
    refine ⟨nofun,?_⟩
    rw [← h.ok_iff]
    simp [Functor.map,Except.map,hg.eq_iff]
  | error failure =>
    refine ⟨?_,?_⟩
    · intro hrefused
      refine h.accepts ?_
      simpa [Functor.map,Except.map] using hrefused
    · rw [← h.ok_iff]
      simp [Functor.map,Except.map]

theorem Keeps.collect {P : Fin n → Prop} {f : Fin n → Except ConvertFailure α} {g : Fin n → α}
    (h : ∀ i, Keeps (P i) (f i) (g i)) : Keeps (∀ i, P i) (collect f) (List.ofFn g) where
  accepts := by
    intro hrefused
    obtain ⟨i,hi⟩ := collect_eq_error hrefused
    exact (h i).accepts hi
  ok_iff := collect_eq_ofFn_iff.trans (forall_congr' (fun i => (h i).ok_iff))

end Conversions

namespace GuestValue

variable {ctx : JSContext} {type : PlainType}

theorem JsHolds.defined {value : GuestValue type} {target : JSValue} (h : value.JsHolds ctx target) :
    target ≠ .undefined := by
  intro hundefined
  subst hundefined
  cases value with
  | boolean | integer | double | string => simp [JsHolds] at h
  | struct => exact absurd h.1 (by simp [JSContext.isPlainObject])
  | array => exact absurd h.1 (by simp [JSContext.isArray])

theorem natAbs_le {type : IntegerType} {value : ℤ} (low : type.low ≤ value) (high : value < type.high) :
    value.natAbs ≤ 2 ^ 64 := by
  cases type <;> simp only [IntegerType.low,IntegerType.high] at low high <;> omega

theorem qjs_integer {type : IntegerType} {number : JSNumber} {value : ℤ} (holds : number.Holds value)
    (low : type.low ≤ value) (high : value < type.high) :
    Decides (integer number value holds low high).Fits ((ValueTranslator.qjs ctx).toNative type.primitive (.number number))
      (.int value) := by
  have htrunc := holds.trunc (natAbs_le low high)
  have hword : 0 ≤ value → value < 2 ^ 32 → number.toUint32 = value := by
    intro hpos hlt
    rw [JSNumber.toUint32,htrunc,Option.getD_some,Int.emod_eq_of_lt hpos hlt]
  cases type with
  | int | int32 =>
    cases number with
    | int held => exact .inl ⟨rfl,by rw [← holds.1]; rfl⟩
    | float64 bits => exact .inr ⟨nofun,rfl⟩
  | int8 =>
    cases number with
    | int held =>
      obtain rfl := holds.1
      refine .inl ⟨rfl,?_⟩
      simp only [ValueTranslator.qjs,IntegerType.primitive,FeatureRuntime.toNative,@narrow_signed 7 held low high]
    | float64 bits => exact .inr ⟨nofun,rfl⟩
  | int16 =>
    cases number with
    | int held =>
      obtain rfl := holds.1
      refine .inl ⟨rfl,?_⟩
      simp only [ValueTranslator.qjs,IntegerType.primitive,FeatureRuntime.toNative,@narrow_signed 15 held low high]
    | float64 bits => exact .inr ⟨nofun,rfl⟩
  | uint8 =>
    refine .inl ⟨trivial,?_⟩
    simp only [ValueTranslator.qjs,IntegerType.primitive,FeatureRuntime.toNative,
      hword low (high.trans (by decide)),@narrow_unsigned 8 value low high]
  | uint16 =>
    refine .inl ⟨trivial,?_⟩
    simp only [ValueTranslator.qjs,IntegerType.primitive,FeatureRuntime.toNative,
      hword low (high.trans (by decide)),@narrow_unsigned 16 value low high]
  | uint32 =>
    refine .inl ⟨trivial,?_⟩
    simp only [ValueTranslator.qjs,IntegerType.primitive,FeatureRuntime.toNative,hword low high]
  | int64 =>
    have hlong : number.toInt64 = value := by
      rw [JSNumber.toInt64,htrunc,Option.getD_some]
      simp only [IntegerType.low,IntegerType.high] at low high
      exact Int.bmod_eq_of_le_mul_two (by omega) (by omega)
    refine .inl ⟨trivial,?_⟩
    simp only [ValueTranslator.qjs,IntegerType.primitive,FeatureRuntime.toNative,hlong]
  | uint64 =>
    have hindex : number.toIndex = if value < 2 ^ 53 then some value else none := by
      simp only [JSNumber.toIndex,htrunc]
      refine if_congr ?_ rfl rfl
      simp only [IntegerType.low] at low
      omega
    by_cases hfits : value < 2 ^ 53
    · refine .inl ⟨hfits,?_⟩
      simp only [ValueTranslator.qjs,IntegerType.primitive,FeatureRuntime.toNative,hindex,if_pos hfits,Option.map_some]
    · refine .inr ⟨hfits,?_⟩
      simp only [ValueTranslator.qjs,IntegerType.primitive,FeatureRuntime.toNative,hindex,if_neg hfits,Option.map_none]

theorem wamr_integer {type : IntegerType} {number : JSNumber} {value : ℤ} (holds : number.Holds value)
    (low : type.low ≤ value) (high : value < type.high) :
    WasmValue.toNative type.primitive (.slot number.bits) = .ok (.int value) := by
  have hcast : ∀ wide : IntegerType, wide.low ≤ value → value < wide.high →
      WasmValue.cast wide number.bits = .ok value := by
    intro wide hlow hhigh
    simp only [WasmValue.cast,holds.trunc_bits (natAbs_le low high)]
    rw [if_pos ⟨hlow,hhigh⟩]
  cases type with
  | int =>
    have hwide := hcast .int32 low high
    simp only [WasmValue.toNative,IntegerType.primitive,hwide,Functor.map,Except.map]
  | int32 | uint32 | int64 | uint64 =>
    simp only [WasmValue.toNative,IntegerType.primitive,hcast _ low high,Functor.map,Except.map]
  | int8 =>
    have hwide := hcast .int32 (le_trans (by decide) low) (high.trans (by decide))
    simp only [WasmValue.toNative,IntegerType.primitive,hwide,Functor.map,Except.map,@narrow_signed 7 value low high]
  | int16 =>
    have hwide := hcast .int32 (le_trans (by decide) low) (high.trans (by decide))
    simp only [WasmValue.toNative,IntegerType.primitive,hwide,Functor.map,Except.map,@narrow_signed 15 value low high]
  | uint8 =>
    have hwide := hcast .uint32 low (high.trans (by decide))
    simp only [WasmValue.toNative,IntegerType.primitive,hwide,Functor.map,Except.map,@narrow_unsigned 8 value low high]
  | uint16 =>
    have hwide := hcast .uint32 low (high.trans (by decide))
    simp only [WasmValue.toNative,IntegerType.primitive,hwide,Functor.map,Except.map,@narrow_unsigned 16 value low high]

/-- QuickJS gives the native value of what fits and refuses the rest. -/
theorem qjs_converts (value : GuestValue type) {target : JSValue} (h : value.JsHolds ctx target) :
    Decides value.Fits ((ValueTranslator.qjs ctx).convertValueToNative type target) (some value.native) := by
  induction value generalizing target with
  | boolean held =>
    obtain rfl := h
    exact .inl ⟨trivial,rfl⟩
  | integer number held holds low high =>
    obtain rfl := h
    exact (qjs_integer holds low high).map some
  | double number =>
    obtain rfl := h
    exact .inl ⟨trivial,rfl⟩
  | string text =>
    obtain rfl := h
    exact .inl ⟨trivial,rfl⟩
  | @struct members fields ih =>
    obtain ⟨hplain,hfields⟩ := h
    cases target with
    | object id =>
      rw [ValueTranslator.convertValueToNative_struct rfl rfl hplain]
      refine (Decides.collect ?_).map (fun fields => some (PlainNative.struct fields))
      intro i
      rw [ValueTranslator.convertMember_of_present (bne_iff_ne.mpr (hfields i).defined)]
      exact ih i (hfields i)
    | _ => simp [JSContext.isPlainObject] at hplain
  | @array elementType length items ih =>
    obtain ⟨harray,rfl,hitems⟩ := h
    cases target with
    | object id =>
      rw [ValueTranslator.convertValueToNative_array rfl rfl harray]
      exact (Decides.collect (fun i => ih i (hitems i))).map (fun elements => some (PlainNative.array elements))
    | _ => simp [JSContext.isArray] at harray

theorem struct_injective : Function.Injective (fun fields => some (PlainNative.struct fields)) := by
  intro fields others h
  simpa using h

theorem array_injective : Function.Injective (fun elements => some (PlainNative.array elements)) := by
  intro elements others h
  simpa using h

/-- The bits of a boolean read as a double: zero of either sign is false. -/
theorem wamr_boolean {held : Bool} {bits : BitVec 64} (hlower : bits.extractLsb' 0 32 = (if held then 1 else 0)) :
    (bits.toNat % 2 ^ 63 != 0) = held ↔
      held = true ∨ bits.extractLsb' 32 32 = 0 ∨ bits.extractLsb' 32 32 = 0x80000000 := by
  have hlow : bits.toNat % 2 ^ 32 = if held then 1 else 0 := by
    have hnat := congrArg BitVec.toNat hlower
    rw [BitVec.extractLsb'_toNat,Nat.shiftRight_zero] at hnat
    rw [hnat]
    split_ifs <;> rfl
  cases held with
  | true =>
    simp only [if_true] at hlow
    refine iff_of_true ?_ (.inl rfl)
    rw [bne_iff_ne]
    omega
  | false =>
    simp only [Bool.false_eq_true,if_false] at hlow
    have hhigh : (bits.extractLsb' 32 32).toNat = bits.toNat / 2 ^ 32 := by
      rw [BitVec.extractLsb'_toNat,Nat.shiftRight_eq_div_pow]
      omega
    have hzero : bits.extractLsb' 32 32 = 0 ↔ bits.toNat / 2 ^ 32 = 0 := by
      rw [← BitVec.toNat_inj,hhigh]
      rfl
    have hminus : bits.extractLsb' 32 32 = 0x80000000 ↔ bits.toNat / 2 ^ 32 = 2 ^ 31 := by
      rw [← BitVec.toNat_inj,hhigh]
      rfl
    rw [hzero,hminus,bne_eq_false_iff_eq]
    simp only [Bool.false_eq_true,false_or]
    omega

/-- WAMR refuses nothing, and gives the native value of what survives. -/
theorem wamr_converts {S : WasmStrings} (hS : S.Documented) (value : GuestValue type) {inStruct : Bool} {target : WasmValue}
    (h : value.WasmHolds inStruct target) :
    Keeps (value.Survives target) ((ValueTranslator.wamr S).convertValueToNative type target) (some value.native) := by
  induction value generalizing inStruct target with
  | boolean held =>
    obtain ⟨bits,rfl,hlower,_⟩ := h
    refine ⟨(by intro h; cases h),?_⟩
    simp only [Survives,WasmValue.upperHalf]
    rw [← wamr_boolean hlower]
    constructor
    · intro h
      cases h
      rfl
    · intro h
      rw [native,← h]
      rfl
  | integer number held holds low high =>
    obtain rfl := h
    have hread : (ValueTranslator.wamr S).toNative _ (.slot number.bits) = .ok (.int held) := wamr_integer holds low high
    rw [ValueTranslator.convertValueToNative,hread]
    exact ⟨by simp,iff_of_true rfl trivial⟩
  | double number =>
    obtain rfl := h
    exact ⟨(by intro h; cases h),iff_of_true rfl trivial⟩
  | string text =>
    obtain rfl := h
    by_cases hempty : text = ""
    · have hlength : ¬0 < S.getLength text := by rw [(hS.getLength_eq_zero text).mpr hempty]; decide
      have hconvert : (ValueTranslator.wamr S).convertValueToNative .string (.string text) = .error .undefined := by
        simp [ValueTranslator.convertValueToNative,ValueTranslator.convertString,ValueTranslator.wamr,if_neg hlength]
      rw [hconvert]
      exact ⟨by simp,iff_of_false (by simp) (not_not_intro hempty)⟩
    · have hlength : 0 < S.getLength text := Nat.pos_of_ne_zero (mt (hS.getLength_eq_zero text).mp hempty)
      have hconvert : (ValueTranslator.wamr S).convertValueToNative .string (.string text) =
          .ok (some (.string (cString text))) := by
        simp [ValueTranslator.convertValueToNative,ValueTranslator.convertString,ValueTranslator.wamr,if_pos hlength,
          hS.cString_toCString]
      rw [hconvert]
      exact ⟨by simp,iff_of_true rfl hempty⟩
  | @struct members fields ih =>
    obtain ⟨slots,rfl,hslots⟩ := h
    rw [ValueTranslator.convertValueToNative_struct rfl rfl rfl]
    refine (Keeps.collect ?_).map struct_injective
    intro i
    rw [ValueTranslator.convertMember_of_present rfl]
    have hfield : (WasmValue.struct (List.ofFn slots)).field i = slots i := by simp [WasmValue.field,i.isLt]
    simp only [ValueTranslator.wamr,Nat.zero_add,hfield]
    exact ih i (hslots i)
  | @array elementType length items ih =>
    obtain ⟨slots,rfl,hslots⟩ := h
    rw [ValueTranslator.convertValueToNative_array rfl rfl rfl]
    have hlength : (ValueTranslator.wamr S).arraySize (.array (List.ofFn slots)) = length := List.length_ofFn
    rw [collect_of_eq hlength (fun i => (ValueTranslator.wamr S).convertValueToNative elementType
      ((ValueTranslator.wamr S).arrayGet (.array (List.ofFn slots)) i))]
    refine (Keeps.collect ?_).map array_injective
    intro i
    have hitem : (WasmValue.array (List.ofFn slots)).item i = slots i := by simp [WasmValue.item,i.isLt]
    simp only [ValueTranslator.wamr,hitem]
    exact ih i (hslots i)

end GuestValue
structure SharedValue (ctx : JSContext) (type : PlainType) where
  guest : GuestValue type
  js : JSValue
  wasm : WasmValue
  jsHolds : guest.JsHolds ctx js
  wasmHolds : guest.WasmHolds false wasm

/-- What one use of a member does: the native arguments of the calls of the stub, what `methodCall` or `accessorSet`
returned, and the error that is reported. -/
structure MemberRun where
  calls : List (List (Option PlainNative))
  returned : List RetCode
  reported : Option RetCode

def RetCode.isArgsErr : RetCode → Bool
  | .argsCountErr | .argsTypeErr => true
  | _ => false

/-- `reportArgsError`, behind the test that both backends make. -/
def reportArgsError (code : RetCode) : Option RetCode := if code = .ok then none else some code

namespace MemberRun

def Reports (run : MemberRun) : Prop :=
  (∃ code ∈ run.reported, code.isArgsErr = true) ↔ ∃ code ∈ run.returned, code.isArgsErr = true

/-- `method_call` of the QuickJS backend. -/
def qjsCall (ctx : JSContext) (types : List PlainType) (argv : List JSValue) (returnType : Option PlainType)
    (stub : StubResult) : Option MemberRun := do
  let r ← (ValueTranslator.qjs ctx).methodCall types argv returnType stub
  return ⟨r.calls,[r.code],reportArgsError r.code⟩

/-- `accessor_set` of the QuickJS backend. -/
def qjsSet (ctx : JSContext) (type : PlainType) (value : JSValue) : Option MemberRun := do
  let r ← (ValueTranslator.qjs ctx).accessorSet type value
  return ⟨r.calls,[r.code],reportArgsError r.code⟩

/-- `method_call` of the WAMR backend: as many slots are taken as the method has parameters. -/
def wamrCall (S : WasmStrings) (types : List PlainType) (args : List WasmValue) (returnType : Option PlainType)
    (stub : StubResult) : Option MemberRun := do
  let r ← (ValueTranslator.wamr S).methodCall types (args.take types.length) returnType stub
  return ⟨r.calls,[r.code],reportArgsError r.code⟩

/-- `accessor_set` of the WAMR backend. -/
def wamrSet (S : WasmStrings) (type : PlainType) (value : WasmValue) : Option MemberRun := do
  -- the first call is the test in front of a log line
  let first ← (ValueTranslator.wamr S).accessorSet type value
  let second ← (ValueTranslator.wamr S).accessorSet type value
  return ⟨first.calls ++ second.calls,[first.code,second.code],reportArgsError second.code⟩

end MemberRun

/-- One guest program uses a member on both backends; what the stub returns may convert on one of them only. -/
inductive MemberUse (ctx : JSContext)
  | call {types : List PlainType} (args : ∀ i : Fin types.length, SharedValue ctx (types.get i))
      (returnType : Option PlainType) (qjsStub wamrStub : StubResult)
  | assign {type : PlainType} (value : SharedValue ctx type)

namespace MemberUse

variable {ctx : JSContext}

def qjs : MemberUse ctx → Option MemberRun
  | @call _ types args returnType stub _ =>
    MemberRun.qjsCall ctx types (List.ofFn (fun i => (args i).js)) returnType stub
  | @assign _ type value => MemberRun.qjsSet ctx type value.js

def wamr (S : WasmStrings) : MemberUse ctx → Option MemberRun
  | @call _ types args returnType _ stub =>
    MemberRun.wamrCall S types (List.ofFn (fun i => (args i).wasm)) returnType stub
  | @assign _ type value => MemberRun.wamrSet S type value.wasm

/-- Both backends do something defined, reach the stub with the same values, and report what they are to report. -/
def Agrees (S : WasmStrings) (use : MemberUse ctx) : Prop :=
  ∃ w q, use.wamr S = some w ∧ use.qjs = some q ∧ w.calls = q.calls ∧ w.Reports ∧ q.Reports

def GetsThrough : MemberUse ctx → Prop
  | .call args .. => ∀ i, (args i).guest.Fits ∧ (args i).guest.Survives (args i).wasm
  | .assign _ => False

section Reached

variable {P Q : Prop} {q w : Except ConvertFailure (List (Option PlainNative))} {args : List (Option PlainNative)}

theorem reach_calls_iff (hq : Decides P q args) (hw : Keeps Q w args) (qcode wcode : RetCode) :
    (∃ a b, ValueTranslator.reach w wcode = some a ∧ ValueTranslator.reach q qcode = some b ∧ a.calls = b.calls) ↔
      P ∧ Q := by
  cases w with
  | error failure =>
    cases failure with
    | refused => exact absurd rfl hw.accepts
    | undefined =>
      refine iff_of_false ?_ (fun h => nomatch hw.ok_iff.mpr h.2)
      intro h
      obtain ⟨a,b,ha,_⟩ := h
      cases ha
  | ok held =>
    obtain ⟨hp,rfl⟩ | ⟨hp,rfl⟩ := hq
    · rw [← hw.ok_iff]
      simp [ValueTranslator.reach,hp]
    · simp [ValueTranslator.reach,hp]

theorem not_twice (hq : Decides P q args) (hw : Keeps Q w args) {a b : ValueTranslator.Reached} {code : RetCode}
    (ha : ValueTranslator.reach w code = some a) (hb : ValueTranslator.reach q code = some b) :
    a.calls ++ a.calls ≠ b.calls := by
  cases w with
  | error failure =>
    cases failure with
    | refused => exact absurd rfl hw.accepts
    | undefined => cases ha
  | ok held =>
    obtain rfl : _ = a := Option.some.inj ha
    obtain ⟨_,rfl⟩ | ⟨_,rfl⟩ := hq
    · obtain rfl : _ = b := Option.some.inj hb
      simp
    · obtain rfl : _ = b := Option.some.inj hb
      simp

end Reached

theorem reports_single (calls : List (List (Option PlainNative))) (code : RetCode) :
    MemberRun.Reports ⟨calls,[code],reportArgsError code⟩ := by
  cases code <;> simp [MemberRun.Reports,reportArgsError,RetCode.isArgsErr]

theorem agrees_iff_getsThrough {S : WasmStrings} (hS : S.Documented) (use : MemberUse ctx) :
    use.Agrees S ↔ use.GetsThrough := by
  cases use with
  | @call types args returnType qjsStub wamrStub =>
    have hq := Decides.collect (fun i => (args i).guest.qjs_converts (args i).jsHolds)
    have hw := Keeps.collect (fun i => (args i).guest.wamr_converts hS (args i).wasmHolds)
    rw [GetsThrough,forall_and,← reach_calls_iff hq hw (qjsStub.plainCode returnType) (wamrStub.plainCode returnType)]
    have htake : (List.ofFn (fun i => (args i).wasm)).take types.length = List.ofFn (fun i => (args i).wasm) :=
      List.take_of_length_le (List.length_ofFn).le
    simp only [Agrees,qjs,wamr,MemberRun.qjsCall,MemberRun.wamrCall,htake,ValueTranslator.methodCall_ofFn]
    constructor
    · intro h
      obtain ⟨w,q,hwamr,hqjs,hcalls,_⟩ := h
      obtain ⟨a,ha,hreturn⟩ := Option.bind_eq_some_iff.mp hwamr
      obtain rfl : _ = w := Option.some.inj hreturn
      obtain ⟨b,hb,hreturn⟩ := Option.bind_eq_some_iff.mp hqjs
      obtain rfl : _ = q := Option.some.inj hreturn
      exact ⟨a,b,ha,hb,hcalls⟩
    · intro h
      obtain ⟨a,b,ha,hb,hcalls⟩ := h
      exact ⟨_,_,by rw [ha]; rfl,by rw [hb]; rfl,hcalls,reports_single ..,reports_single ..⟩
  | @assign type value =>
    refine iff_of_false ?_ not_false
    intro h
    obtain ⟨w,q,hwamr,hqjs,hcalls,_⟩ := h
    obtain ⟨a,ha,hrest⟩ := Option.bind_eq_some_iff.mp hwamr
    obtain ⟨a',ha',hreturn⟩ := Option.bind_eq_some_iff.mp hrest
    obtain rfl : _ = w := Option.some.inj hreturn
    obtain rfl : a = a' := Option.some.inj (ha.symm.trans ha')
    obtain ⟨b,hb,hreturn⟩ := Option.bind_eq_some_iff.mp hqjs
    obtain rfl : _ = q := Option.some.inj hreturn
    have hq := (value.guest.qjs_converts value.jsHolds).map (fun native => [native])
    have hw := (value.guest.wamr_converts hS value.wasmHolds).map List.singleton_injective
    exact not_twice hq hw ha hb hcalls

def countedStrings : WasmStrings where
  getLength text := text.length
  toCString text _ := text

/-- `true` in both engines. -/
def sharedTrue : SharedValue (.ofProperties (fun _ _ => .undefined)) .boolean where
  guest := .boolean true
  js := .bool true
  wasm := .slot 1
  jsHolds := rfl
  wasmHolds := ⟨1,rfl,by decide,fun _ => by decide⟩

/-- `{name: "news", marks: [1,2]}`. -/
def noteContext : JSContext :=
  { JSContext.ofProperties (fun id name =>
      if id = 1 then .number (.int 2) else if name = "name" then .string "news" else .object 1) with
    arrayObject := fun id => id = 1
    getPropertyUint32 := fun _ i => .number (.int (i + 1)) }

abbrev noteMembers : List (String × PlainType) := [("name",.string),("marks",.array (.integer .int32))]

def mark (i : Fin 2) : GuestValue (.integer .int32) :=
  match i with
  | 0 => .integer (.int 1) 1 ⟨rfl,by decide⟩ (by decide) (by decide)
  | 1 => .integer (.int 2) 2 ⟨rfl,by decide⟩ (by decide) (by decide)

def markSlots (i : Fin 2) : WasmValue := .slot (JSNumber.doubleBits (i + 1))

def noteFields (i : Fin noteMembers.length) : GuestValue (noteMembers.get i).2 :=
  match i with
  | 0 => .string "news"
  | 1 => .array mark

def noteSlots (i : Fin noteMembers.length) : WasmValue :=
  match i with
  | 0 => .string "news"
  | 1 => .array (List.ofFn markSlots)

/-- A struct with a string and an array in both engines. -/
def sharedNote : SharedValue noteContext (.struct noteMembers) where
  guest := .struct noteFields
  js := .object 0
  wasm := .struct (List.ofFn noteSlots)
  jsHolds := by
    refine ⟨rfl,fun i => ?_⟩
    match i with
    | 0 => rfl
    | 1 => exact ⟨rfl,rfl,fun i => match i with | 0 => rfl | 1 => rfl⟩
  wasmHolds := by
    refine ⟨noteSlots,rfl,fun i => ?_⟩
    match i with
    | 0 => rfl
    | 1 => exact ⟨markSlots,rfl,fun i => match i with | 0 => rfl | 1 => rfl⟩

def callWithNote : MemberUse noteContext :=
  @call _ [.struct noteMembers] (fun i => match i with | 0 => sharedNote) none ⟨true,false⟩ ⟨true,false⟩

theorem countedStrings_documented : countedStrings.Documented where
  getLength_eq_zero text := by simp [countedStrings]
  cString_toCString _ := rfl

theorem callWithNote_agrees : countedStrings.Documented ∧ callWithNote.GetsThrough ∧ callWithNote.Agrees countedStrings := by
  have hthrough : callWithNote.GetsThrough := by
    intro i
    match i with
    | 0 =>
      refine ⟨fun i => ?_,fun i => ?_⟩
      · match i with
        | 0 => trivial
        | 1 => exact fun i => match i with | 0 => rfl | 1 => rfl
      · match i with
        | 0 => exact (by decide : "news" ≠ "")
        | 1 => exact fun i => match i with | 0 => trivial | 1 => trivial
  exact ⟨countedStrings_documented,hthrough,(agrees_iff_getsThrough countedStrings_documented callWithNote).mpr hthrough⟩

/-- An assignment of `true` reaches the setter twice through WAMR and once through QuickJS. -/
theorem assignTrue_disagrees : (((assign sharedTrue).wamr countedStrings).map (fun run => run.calls.length) = some 2 ∧
      ((assign sharedTrue).qjs).map (fun run => run.calls.length) = some 1) ∧
      ¬(assign sharedTrue).Agrees countedStrings := by
  refine ⟨⟨rfl,rfl⟩,?_⟩
  intro h
  obtain ⟨w,q,hwamr,hqjs,hcalls,_⟩ := h
  obtain rfl : _ = w := Option.some.inj hwamr
  obtain rfl : _ = q := Option.some.inj hqjs
  exact absurd (congrArg List.length hcalls) (by decide)

end MemberUse
end FeatureRuntime
