import FeatureRuntime.AesBuffers
import FeatureRuntime.Base64

/-! The buffers of `aes` of `system.cipher`, and of all AES calls. -/
namespace FeatureRuntime

open Traced

/-- What is assumed of the primitives: how much they write, and that a result lies within what they write. -/
structure UvCrypto.Bounded (uv : UvCrypto) : Prop where
  aes_written : ∀ mode padding key iv data op,
    (uv.aes mode padding key iv data op).written ≤ (data.length / 16 + 1) * 16
  aes_result : ∀ mode padding key iv data op, ∀ output ∈ (uv.aes mode padding key iv data op).result,
    output.length ≤ (uv.aes mode padding key iv data op).written
  aesAuth_written : ∀ mode padding key iv aad tagLen data outputSize op,
    (uv.aesAuth mode padding key iv aad tagLen data outputSize op).written ≤ data.length + tagLen
  aesAuth_result : ∀ mode padding key iv aad tagLen data outputSize op,
    ∀ output ∈ (uv.aesAuth mode padding key iv aad tagLen data outputSize op).result,
      output.length ≤ (uv.aesAuth mode padding key iv aad tagLen data outputSize op).written

namespace Cipher

open Crypto

variable {env : CryptoMemory} {uv : UvCrypto} {σ : CryptoBuffer → BlockState}

def owned (opts : AesParam) : List CryptoBuffer :=
  [.output,.result,.key,.buff] ++ if opts.iv.isSome then [.iv] else []

theorem decodeInto_ends {b : CryptoBuffer} {encoded : Bytes} {noMemory malformed : CryptoStop}
    (habsent : σ b = .absent) :
    Ends (decodeInto env uv b encoded noMemory malformed) σ
      (fun bytes σ' => σ' = Function.update σ b (.live encoded.length) ∧ bytes.length ≤ encoded.length)
      (fun e σ' => (e = noMemory ∨ e = malformed) ∧
        (σ' = σ ∨ σ' = Function.update σ b (.live encoded.length))) := by
  unfold decodeInto
  apply Ends.bind
  apply malloc_ends habsent
  · intro _
    apply Ends.bind
    apply Ends.demand
    · intro bytes hbytes
      have hlength := base64Decode_length uv hbytes
      apply Ends.bind
      apply use_ends (Function.update_self ..) hlength
      exact Ends.pure ⟨rfl,hlength⟩
    · intro _
      exact ⟨.inr rfl,.inr rfl⟩
  · intro _
    exact ⟨.inl rfl,.inl rfl⟩

structure ArgumentsHeap (opts : AesParam) (args : AesArguments) (σ : CryptoBuffer → BlockState) : Prop where
  key : σ .key = .live args.keySize
  keyLength : args.key.length ≤ args.keySize
  keySize : args.key.length = 16 ∨ args.key.length = 32
  buff : args.op = .decrypt → ∃ size, σ .buff = .live size ∧ args.buff.length ≤ size
  output : σ .output = .absent
  result : σ .result = .absent
  held : Held (owned opts) σ

/-- How a part of a call ends that does not come to its value: with its buffers, or with one that has gone
wrong. -/
def Stopped (opts : AesParam) (e : CryptoStop) (σ : CryptoBuffer → BlockState) : Prop :=
  match e with
  | .undefined => ∃ b, σ b = .faulty
  | .refused _ _ => Held (owned opts) σ

theorem cbcMode_size {n : ℕ} {mode : AesMode} (h : cbcMode n = some mode) : n = 16 ∨ n = 32 := by
  unfold cbcMode at h
  split_ifs at h with h16 h32
  · exact .inl h16
  · exact .inr h32

theorem arguments_ends (opts : AesParam) :
    Ends (arguments env uv opts) (fun _ => .absent) (fun args σ => ArgumentsHeap opts args σ ∧ σ .iv = .absent)
      (Stopped opts) := by
  have hnone : Held (owned opts) (fun _ => BlockState.absent) := Held.none.mono (by simp)
  -- The key, given the buffers that the text has left.
  have hkey (op : CryptoOperation) (buff : Bytes) (σ : CryptoBuffer → BlockState) (hkeyAbsent : σ .key = .absent)
      (hrest : σ .output = .absent ∧ σ .result = .absent ∧ σ .iv = .absent) (hheld : Held (owned opts) σ)
      (hbuff : op = .decrypt → ∃ size, σ .buff = .live size ∧ buff.length ≤ size) :
      Ends (do
        let encoded ← Traced.demand (checkStr opts.key) (.refused "invalid key" argsError)
        let key ← decodeInto env uv .key encoded (.refused "malloc key failed" 0)
          (.refused "base64 decode key failed" 0)
        let mode ← Traced.demand (cbcMode key.length) (.refused "invalid key size" argsError)
        return (⟨op,buff,key,encoded.length,mode⟩ : AesArguments)) σ
      (fun args σ => ArgumentsHeap opts args σ ∧ σ .iv = .absent) (Stopped opts) := by
    apply Ends.bind
    apply Ends.demand
    · intro encoded _
      apply Ends.bind
      apply Ends.mono (decodeInto_ends hkeyAbsent)
      · rintro key _ ⟨rfl,hlength⟩
        have hheld' := hheld.alloc (b := .key) (by simp [owned]) encoded.length
        apply Ends.bind
        apply Ends.demand
        · intro mode hmode
          apply Ends.pure
          have hother {b : CryptoBuffer} (hb : b ≠ .key) :
              Function.update σ .key (.live encoded.length) b = σ b := Function.update_of_ne hb ..
          constructor
          · exact ⟨Function.update_self ..,hlength,cbcMode_size hmode,by rwa [hother (by decide)],
              by rw [hother (by decide)]; exact hrest.1,by rw [hother (by decide)]; exact hrest.2.1,hheld'⟩
          · rw [hother (by decide)]
            exact hrest.2.2
        · intro _
          exact hheld'
      · rintro e _ ⟨rfl | rfl,rfl | rfl⟩
        · exact hheld
        · exact hheld.alloc (by simp [owned]) _
        · exact hheld
        · exact hheld.alloc (by simp [owned]) _
    · intro _
      exact hheld
  unfold arguments
  apply Ends.bind
  apply Ends.demand
  · intro op _
    apply Ends.bind
    apply Ends.demand
    · intro text _
      apply Ends.bind
      unfold input
      cases op with
      | encrypt =>
        apply Ends.pure
        exact hkey .encrypt text _ rfl ⟨rfl,rfl,rfl⟩ hnone (by simp)
      | decrypt =>
        apply Ends.mono (decodeInto_ends rfl)
        · rintro buff _ ⟨rfl,hlength⟩
          apply hkey .decrypt buff _ rfl ⟨rfl,rfl,rfl⟩ (hnone.alloc (by simp [owned]) _)
          intro _
          exact ⟨_,Function.update_self ..,hlength⟩
        · rintro e _ ⟨rfl | rfl,rfl | rfl⟩
          · exact hnone
          · exact hnone.alloc (by simp [owned]) _
          · exact hnone
          · exact hnone.alloc (by simp [owned]) _
    · intro _
      exact hnone
  · intro _
    exact hnone

/-- The iv lies in a buffer that is there, and the other buffers are as before. -/
theorem chooseIv_ends (opts : AesParam) {args : AesArguments} (h : ArgumentsHeap opts args σ) (hiv : σ .iv = .absent) :
    Ends (chooseIv env uv opts args) σ
      (fun iv σ => ArgumentsHeap opts args σ ∧ σ iv.buffer = .live iv.size) (Stopped opts) := by
  unfold chooseIv
  split
  · next encoded hencoded =>
    have hsome : opts.iv.isSome = true := by
      unfold checkStr at hencoded
      exact Option.isSome_of_mem (Option.filter_eq_some_iff.mp hencoded).1
    apply Ends.bind
    apply Ends.mono (decodeInto_ends hiv)
    · rintro iv _ ⟨rfl,_⟩
      apply Ends.pure
      have hother {b : CryptoBuffer} (hb : b ≠ .iv) :
          Function.update σ .iv (.live encoded.length) b = σ b := Function.update_of_ne hb ..
      refine ⟨⟨?_,h.keyLength,h.keySize,?_,?_,?_,h.held.alloc (by simp [owned,hsome]) _⟩,Function.update_self ..⟩
      · rw [hother (by decide)]
        exact h.key
      · rw [hother (by decide)]
        exact h.buff
      · rw [hother (by decide)]
        exact h.output
      · rw [hother (by decide)]
        exact h.result
    · rintro e _ ⟨rfl | rfl,rfl | rfl⟩
      · exact h.held
      · exact h.held.alloc (by simp [owned,hsome]) _
      · exact h.held
      · exact h.held.alloc (by simp [owned,hsome]) _
  · apply Ends.bind
    apply Ends.act
    exact Ends.pure ⟨h,h.key⟩

theorem aesNonAuthCrypto_ends (hbounded : uv.Bounded) (opts : AesParam) {mode : AesMode} {padding : PaddingType} {key : Bytes}
    {iv : IvSource} {ivOffset ivLen : ℤ} {own : Bool} {buff : Bytes} {outputSize : ℕ} {op : CryptoOperation}
    {msg : String} {code : ℕ} {keySize : ℕ} (hkey : σ .key = .live keySize) (hlength : key.length ≤ keySize)
    (hiv : σ iv.buffer = .live iv.size) (houtput : σ .output = .live outputSize)
    (hbuff : own = true → ∃ size, σ .buff = .live size ∧ buff.length ≤ size) (hheld : Held (owned opts) σ) :
    Ends (aesNonAuthCrypto uv env mode padding key iv ivOffset ivLen own buff outputSize op (.refused msg code)) σ
      (fun output σ' => σ' = σ ∧ output.length ≤ outputSize ∧ (op = .decrypt → output.length + 1 ≤ outputSize))
      (Stopped opts) := by
  unfold aesNonAuthCrypto
  apply Ends.bind
  apply Ends.act
  apply Ends.bind
  apply use_ends hkey hlength
  apply Ends.bind
  apply reach_ends hiv
  · intro _
    -- The primitive writes its output, and an end of text after it where it decrypts.
    have hcall : Ends (do
        let outcome := aesOutcome uv env mode padding key iv ivOffset ivLen buff op
        reach .output outputSize 0 outcome.written
        let output ← Traced.demand outcome.result (.refused msg code)
        Traced.given (op = .decrypt) (reach .output outputSize output.length 1)
        return output) σ
        (fun output σ' => σ' = σ ∧ output.length ≤ outputSize ∧ (op = .decrypt → output.length + 1 ≤ outputSize))
        (Stopped opts) := by
      apply Ends.bind
      apply reach_ends houtput
      · intro hwritten
        apply Ends.bind
        apply Ends.demand
        · intro output hresult
          have hle : output.length ≤ (aesOutcome uv env mode padding key iv ivOffset ivLen buff op).written :=
            hbounded.aes_result _ _ _ _ _ _ output hresult
          apply Ends.bind
          apply Ends.given
          · intro _
            apply reach_ends houtput
            · intro hbounds
              exact Ends.pure ⟨rfl,by omega,fun _ => by omega⟩
            · intro _ σ' hfaulty
              exact ⟨_,hfaulty⟩
          · intro hop
            exact Ends.pure ⟨rfl,by omega,fun h => absurd h hop⟩
        · intro _
          exact hheld
      · intro _ σ' hfaulty
        exact ⟨_,hfaulty⟩
    apply Ends.bind
    apply Ends.given
    · intro howned
      obtain ⟨size,hsize,hle⟩ := hbuff howned
      exact use_ends hsize hle hcall
    · intro _
      exact hcall
  · intro _ σ' hfaulty
    exact ⟨_,hfaulty⟩

theorem encodeOutput_ends (opts : AesParam) {output : Bytes} {outputSize : ℕ} (houtput : σ .output = .live outputSize)
    (hlength : output.length ≤ outputSize) (hresult : σ .result = .absent) (hheld : Held (owned opts) σ) :
    Ends (encodeOutput env uv opts output) σ (fun _ σ' => Held (owned opts) σ') (Stopped opts) := by
  unfold encodeOutput
  apply Ends.bind
  apply malloc_ends hresult
  · intro _
    have hheld' := hheld.alloc (b := .result) (by simp [owned]) (base64EncodedLength output.length + 1)
    apply Ends.bind
    have houtput' : Function.update σ .result (.live (base64EncodedLength output.length + 1)) .output =
        .live outputSize := by rwa [Function.update_of_ne (by decide)]
    apply use_ends houtput' hlength
    split
    · next text htext =>
      apply Ends.bind
      apply use_ends (Function.update_self ..) (base64Encode_length uv htext)
      exact Ends.pure hheld'
    · apply Ends.bind
      apply Ends.given
      · intro _
        apply reach_ends (Function.update_self ..)
        · intro _
          exact Ends.pure hheld'
        · intro _ σ' hfaulty
          exact ⟨_,hfaulty⟩
      · intro _
        exact Ends.pure hheld'
  · intro _
    exact hheld

theorem copyOutput_ends (opts : AesParam) {output : Bytes} {outputSize : ℕ} (houtput : σ .output = .live outputSize)
    (hlength : output.length + 1 ≤ outputSize) (hresult : σ .result = .absent) (hheld : Held (owned opts) σ) :
    Ends (copyOutput env output) σ (fun _ σ' => Held (owned opts) σ') (Stopped opts) := by
  unfold copyOutput
  apply Ends.bind
  apply malloc_ends hresult
  · intro _
    apply Ends.bind
    have houtput' : Function.update σ .result (.live output.length) .output = .live outputSize := by
      rwa [Function.update_of_ne (by decide)]
    apply use_ends houtput' hlength
    apply Ends.bind
    apply reach_ends (Function.update_self ..)
    · intro _
      exact Ends.pure (hheld.alloc (by simp [owned]) _)
    · intro _ σ' hfaulty
      exact ⟨_,hfaulty⟩
  · intro _
    exact hheld

theorem body_ends (hbounded : uv.Bounded) (opts : AesParam) :
    Ends (body env uv opts) (fun _ => .absent) (fun _ σ => Held (owned opts) σ) (Stopped opts) := by
  unfold body
  apply Ends.bind
  apply Ends.mono (arguments_ends opts)
  · rintro args σ ⟨h,hiv⟩
    unfold transform
    apply Ends.bind
    apply Ends.mono (chooseIv_ends opts h hiv)
    · rintro iv σ ⟨h,hsource⟩
      apply Ends.bind
      apply roundUp_ends
      · obtain hsize | hsize := h.keySize <;> omega
      · apply Ends.bind
        apply malloc_ends h.output
        · intro _
          generalize (args.buff.length + 1 + args.key.length - 1) / args.key.length * args.key.length = outputSize
          have hother {b : CryptoBuffer} (hb : b ≠ .output) :
              Function.update σ .output (.live outputSize) b = σ b := Function.update_of_ne hb ..
          have hivBuffer : iv.buffer ≠ .output := by
            intro heq
            rw [heq,h.output] at hsource
            cases hsource
          have hheld := h.held.alloc (b := .output) (by simp [owned]) outputSize
          have hresult : Function.update σ .output (.live outputSize) .result = .absent := by
            rw [hother (by decide)]
            exact h.result
          apply Ends.bind
          apply Ends.mono (aesNonAuthCrypto_ends hbounded opts (by rw [hother (by decide)]; exact h.key) h.keyLength
            (by rw [hother hivBuffer]; exact hsource) (Function.update_self ..) ?_ hheld)
          · rintro output _ ⟨rfl,hlength,hterminated⟩
            unfold finish
            cases hop : args.op with
            | encrypt => exact encodeOutput_ends opts (Function.update_self ..) hlength hresult hheld
            | decrypt => exact copyOutput_ends opts (Function.update_self ..) (hterminated hop) hresult hheld
          · intro _ _ h
            exact h
          · intro howned
            rw [hother (by decide)]
            exact h.buff (of_decide_eq_true howned)
        · intro _
          exact h.held
    · intro _ _ h
      exact h
  · intro _ _ h
    exact h

section Conditions

variable (env uv)

/-- The arguments pass the checks up to the mode. -/
structure Accepts (opts : AesParam) (args : AesArguments) : Prop where
  action : operation opts.action = some args.op
  text : ∃ text, checkStr opts.text = some text ∧
    match args.op with
    | .encrypt => args.buff = text
    | .decrypt => env.allocates .buff = true ∧ base64Decode uv text text.length = some args.buff
  key : ∃ encoded, checkStr opts.key = some encoded ∧ env.allocates .key = true ∧
    base64Decode uv encoded encoded.length = some args.key ∧ args.keySize = encoded.length
  mode : cbcMode args.key.length = some args.mode

def ivSource (opts : AesParam) (args : AesArguments) : Option IvSource :=
  match checkStr opts.iv with
  | some encoded =>
    if env.allocates .iv then
      (base64Decode uv encoded encoded.length).map (fun iv => ⟨.iv,encoded.length,iv⟩)
    else none
  | none => some ⟨.key,args.keySize,args.key⟩

def outputSize (length keySize : ℕ) : ℕ := (length + 1 + keySize - 1) / keySize * keySize

def primitiveResult (opts : AesParam) (args : AesArguments) (iv : IvSource) : Option Bytes :=
  (aesOutcome uv env args.mode .pkcs7Padding args.key iv opts.ivOffset (ivLength opts iv) args.buff args.op).result

/-- What accepted arguments need: the iv is not the empty string; what is read of the iv lies within the buffer
that it is in; a result that base64 refuses is not read past its buffer; and a decryption fails, or there is no
memory for its result. -/
structure Keeps (opts : AesParam) (args : AesArguments) : Prop where
  iv : opts.iv ≠ some []
  range : ∀ iv ∈ ivSource env uv opts args, env.allocates .output = true →
    0 ≤ opts.ivOffset ∧ 0 ≤ ivLength opts iv ∧ opts.ivOffset + ivLength opts iv ≤ iv.size
  result : ∀ iv ∈ ivSource env uv opts args, env.allocates .output = true →
    ∀ output ∈ primitiveResult env uv opts args iv,
      match args.op with
      | .encrypt => env.allocates .result = true → opts.success = true →
        base64Encode uv output (base64EncodedLength output.length + 1) = none →
        (stray env (base64EncodedLength output.length + 1)).length < base64EncodedLength output.length + 1
      | .decrypt => env.allocates .result = false ∧
        output.length < outputSize args.buff.length args.key.length

end Conditions

theorem decodeInto_eq_ok_iff {b : CryptoBuffer} {encoded bytes : Bytes} {noMemory malformed : CryptoStop} :
    (decodeInto env uv b encoded noMemory malformed).result = .ok bytes ↔
      env.allocates b = true ∧ base64Decode uv encoded encoded.length = some bytes := by
  unfold decodeInto
  simp [bind_eq_ok_iff,malloc_eq_ok_iff,demand_eq_ok_iff]

theorem decodeInto_not_undefined {b : CryptoBuffer} {encoded : Bytes} {m m' : String} {n n' : ℕ} :
    (decodeInto env uv b encoded (.refused m n) (.refused m' n')).result ≠ .error .undefined := by
  unfold decodeInto
  simp [bind_eq_error_iff,malloc_eq_error_iff,demand_eq_error_iff]

theorem arguments_eq_ok_iff {opts : AesParam} {args : AesArguments} :
    (arguments env uv opts).result = .ok args ↔ Accepts env uv opts args := by
  unfold arguments
  simp only [bind_eq_ok_iff,demand_eq_ok_iff,decodeInto_eq_ok_iff]
  constructor
  · rintro ⟨op,hop,text,htext,buff,hbuff,encoded,hencoded,key,⟨hmemory,hkey⟩,mode,hmode,h⟩
    cases h
    refine ⟨hop,⟨text,htext,?_⟩,⟨encoded,hencoded,hmemory,hkey,rfl⟩,hmode⟩
    cases op with
    | encrypt =>
      cases hbuff
      rfl
    | decrypt => exact decodeInto_eq_ok_iff.mp hbuff
  · rintro ⟨hop,⟨text,htext,hbuff⟩,⟨encoded,hencoded,hmemory,hkey,hsize⟩,hmode⟩
    refine ⟨args.op,hop,text,htext,args.buff,?_,encoded,hencoded,args.key,⟨hmemory,hkey⟩,args.mode,hmode,?_⟩
    · unfold input
      cases hargs : args.op with
      | encrypt =>
        rw [hargs] at hbuff
        rw [show args.buff = text from hbuff]
        rfl
      | decrypt =>
        rw [hargs] at hbuff
        exact decodeInto_eq_ok_iff.mpr hbuff
    · rw [← hsize]
      rfl

theorem arguments_not_undefined (opts : AesParam) : (arguments env uv opts).result ≠ .error .undefined := by
  unfold arguments
  have hinput (op : CryptoOperation) (text : Bytes) : (input env uv op text).result ≠ .error .undefined := by
    cases op with
    | encrypt =>
      intro h
      cases h
    | decrypt => exact decodeInto_not_undefined
  simp [bind_eq_error_iff,demand_eq_error_iff,hinput,decodeInto_not_undefined]

theorem chooseIv_eq_ok_iff {opts : AesParam} {args : AesArguments} {iv : IvSource} :
    (chooseIv env uv opts args).result = .ok iv ↔ ivSource env uv opts args = some iv := by
  unfold chooseIv ivSource
  cases checkStr opts.iv with
  | some encoded =>
    simp only [bind_eq_ok_iff,decodeInto_eq_ok_iff]
    by_cases hmemory : env.allocates .iv = true
    · simp [hmemory]
    · simp [hmemory]
  | none => simp [bind_eq_ok_iff]

theorem chooseIv_not_undefined (opts : AesParam) (args : AesArguments) :
    (chooseIv env uv opts args).result ≠ .error .undefined := by
  unfold chooseIv
  split
  · simp [bind_eq_error_iff,decodeInto_not_undefined]
  · simp [bind_eq_error_iff]

theorem encodeOutput_undefined_iff {opts : AesParam} {output : Bytes} :
    (encodeOutput env uv opts output).result = .error .undefined ↔
      env.allocates .result = true ∧ base64Encode uv output (base64EncodedLength output.length + 1) = none ∧
      opts.success = true ∧
      ¬ (stray env (base64EncodedLength output.length + 1)).length < base64EncodedLength output.length + 1 := by
  unfold encodeOutput
  simp only [bind_eq_error_iff,malloc_eq_error_iff,malloc_eq_ok_iff]
  cases hencode : base64Encode uv output (base64EncodedLength output.length + 1) with
  | some text => simp [bind_eq_error_iff]
  | none =>
    simp [bind_eq_error_iff,given_eq_error_iff,reach_eq_error_iff]
    omega

theorem copyOutput_undefined_iff {output : Bytes} :
    (copyOutput env output).result = .error .undefined ↔ env.allocates .result = true := by
  unfold copyOutput
  simp [bind_eq_error_iff,malloc_eq_error_iff,malloc_eq_ok_iff,reach_eq_error_iff]

theorem padded_le_outputSize {length keySize : ℕ} (hsize : keySize = 16 ∨ keySize = 32) :
    (length / 16 + 1) * 16 ≤ outputSize length keySize := by
  unfold outputSize
  obtain rfl | rfl := hsize <;> omega

theorem transform_undefined_iff (hbounded : uv.Bounded) {opts : AesParam} {args : AesArguments}
    (hsize : args.key.length = 16 ∨ args.key.length = 32) :
    (transform env uv opts args).result = .error .undefined ↔
      ∃ iv ∈ ivSource env uv opts args, env.allocates .output = true ∧
        ((0 ≤ opts.ivOffset ∧ 0 ≤ ivLength opts iv ∧ opts.ivOffset + ivLength opts iv ≤ iv.size) →
          ∃ output ∈ primitiveResult env uv opts args iv,
            args.op = .decrypt ∧ ¬ output.length < outputSize args.buff.length args.key.length ∨
            (finish env uv opts args.op output).result = .error .undefined) := by
  have hkey : args.key.length ≠ 0 := by omega
  have hfits (iv : IvSource) :
      (aesOutcome uv env args.mode .pkcs7Padding args.key iv opts.ivOffset (ivLength opts iv) args.buff
        args.op).written ≤ outputSize args.buff.length args.key.length :=
    (hbounded.aes_written _ _ _ _ _ _).trans (padded_le_outputSize hsize)
  unfold transform
  simp only [bind_eq_error_iff,chooseIv_eq_ok_iff,roundUp_eq_error_iff,roundUp_eq_ok_iff,malloc_eq_error_iff,
    malloc_eq_ok_iff,aesNonAuthCrypto_undefined_iff,aesNonAuthCrypto_eq_ok_iff]
  constructor
  · rintro (h | ⟨iv,hiv,h | ⟨n,⟨_,hn⟩,h | ⟨_,hmemory,h⟩⟩⟩)
    · exact absurd h (chooseIv_not_undefined opts args)
    · exact absurd h.1 hkey
    · cases h.2
    · change outputSize args.buff.length args.key.length = n at hn
      subst hn
      refine ⟨iv,hiv,hmemory,fun hrange => ?_⟩
      obtain (h | ⟨_,h | ⟨_,output,hresult,hop,hlength⟩⟩) | ⟨output,⟨_,_,hresult,_⟩,h⟩ := h
      · exact absurd hrange h
      · exact absurd (hfits iv) h
      · exact ⟨output,hresult,.inl ⟨hop,hlength⟩⟩
      · exact ⟨output,hresult,.inr h⟩
  · rintro ⟨iv,hiv,hmemory,h⟩
    refine .inr ⟨iv,hiv,.inr ⟨outputSize args.buff.length args.key.length,⟨hkey,rfl⟩,.inr ⟨(),hmemory,?_⟩⟩⟩
    by_cases hrange : 0 ≤ opts.ivOffset ∧ 0 ≤ ivLength opts iv ∧ opts.ivOffset + ivLength opts iv ≤ iv.size
    · obtain ⟨output,hresult,hfails⟩ := h hrange
      by_cases hlong : args.op = .decrypt ∧ ¬ output.length < outputSize args.buff.length args.key.length
      · exact .inl (.inr ⟨hrange,.inr ⟨hfits iv,output,hresult,hlong⟩⟩)
      · refine .inr ⟨output,⟨hrange,hfits iv,hresult,fun hop => ?_⟩,hfails.resolve_left hlong⟩
        by_contra hlength
        exact hlong ⟨hop,hlength⟩
    · exact .inl (.inl hrange)

/-- Accepted arguments whose iv is not the empty string keep to the buffers if and only if the transformation is
defined. -/
theorem keeps_iff (hbounded : uv.Bounded) {opts : AesParam} {args : AesArguments}
    (hsize : args.key.length = 16 ∨ args.key.length = 32) :
    Keeps env uv opts args ↔ opts.iv ≠ some [] ∧ (transform env uv opts args).result ≠ .error .undefined := by
  rw [ne_eq (Traced.result _),transform_undefined_iff hbounded hsize]
  have hfinish (output : Bytes) :
      ¬ (args.op = .decrypt ∧ ¬ output.length < outputSize args.buff.length args.key.length ∨
        (finish env uv opts args.op output).result = .error .undefined) ↔
      match args.op with
      | .encrypt => env.allocates .result = true → opts.success = true →
        base64Encode uv output (base64EncodedLength output.length + 1) = none →
        (stray env (base64EncodedLength output.length + 1)).length < base64EncodedLength output.length + 1
      | .decrypt => env.allocates .result = false ∧
        output.length < outputSize args.buff.length args.key.length := by
    unfold finish
    cases args.op with
    | encrypt =>
      rw [encodeOutput_undefined_iff]
      simp only [reduceCtorEq,false_and,false_or]
      constructor
      · intro h hmemory hsuccess hencode
        by_contra hlong
        exact h ⟨hmemory,hencode,hsuccess,hlong⟩
      · rintro h ⟨hmemory,hencode,hsuccess,hlong⟩
        exact hlong (h hmemory hsuccess hencode)
    | decrypt =>
      rw [copyOutput_undefined_iff]
      simp only [true_and,not_or,not_not,Bool.not_eq_true]
      exact and_comm
  constructor
  · intro h
    refine ⟨h.iv,?_⟩
    rintro ⟨iv,hiv,hmemory,hfails⟩
    obtain ⟨output,hresult,hfails⟩ := hfails (h.range iv hiv hmemory)
    exact (hfinish output).mpr (h.result iv hiv hmemory output hresult) hfails
  · rintro ⟨hempty,h⟩
    refine ⟨hempty,fun iv hiv hmemory => ?_,fun iv hiv hmemory output hresult => ?_⟩
    · by_contra hrange
      exact h ⟨iv,hiv,hmemory,fun h => absurd h hrange⟩
    · rw [← hfinish]
      intro hfails
      exact h ⟨iv,hiv,hmemory,fun _ => ⟨output,hresult,hfails⟩⟩

section Events

variable (opts : AesParam) (args : AesArguments)

/-- What a call does before the label `exit`, once its checks are passed. -/
def Step (event : CryptoEvent) : Prop :=
  Ordinary event ∨ event = .inl (.divide args.key.length) ∨ event = .inr .ivIsKey ∧ checkStr opts.iv = none

theorem decodeInto_ordinary (b : CryptoBuffer) (encoded : Bytes) (noMemory malformed : CryptoStop) :
    All Ordinary (decodeInto env uv b encoded noMemory malformed) := by
  unfold decodeInto
  apply All.bind (malloc_all trivial)
  intro _
  apply All.bind (.demand _ _)
  intro bytes
  apply All.bind (use_all trivial)
  intro _
  exact .pure _

theorem arguments_ordinary : All Ordinary (arguments env uv opts) := by
  unfold arguments
  apply All.bind (.demand _ _)
  intro op
  apply All.bind (.demand _ _)
  intro text
  apply All.bind
  · unfold input
    split
    · exact .pure _
    · exact decodeInto_ordinary ..
  · intro buff
    apply All.bind (.demand _ _)
    intro encoded
    apply All.bind (decodeInto_ordinary ..)
    intro key
    apply All.bind (.demand _ _)
    intro mode
    exact .pure _

theorem finish_ordinary (op : CryptoOperation) (output : Bytes) : All Ordinary (finish env uv opts op output) := by
  unfold finish
  split
  · unfold encodeOutput
    apply All.bind (malloc_all trivial)
    intro _
    apply All.bind (use_all trivial)
    intro _
    split
    · apply All.bind (use_all trivial)
      intro _
      exact .pure _
    · apply All.bind (.given _ (reach_all trivial))
      intro _
      exact .pure _
  · unfold copyOutput
    apply All.bind (malloc_all trivial)
    intro _
    apply All.bind (use_all trivial)
    intro _
    apply All.bind (reach_all trivial)
    intro _
    exact .pure _

theorem transform_step : All (Step opts args) (transform env uv opts args) := by
  unfold transform
  apply All.bind
  · unfold chooseIv
    split
    · apply All.bind ((decodeInto_ordinary ..).mono (fun _ => .inl))
      intro _
      exact .pure _
    · next hnone =>
      apply All.bind
      · apply All.tell
        intro event hevent
        rw [List.mem_singleton.mp hevent]
        exact .inr (.inr ⟨rfl,hnone⟩)
      · intro _
        exact .pure _
  · intro iv
    apply All.bind (roundUp_all (.inr (.inl rfl)))
    intro outputSize
    apply All.bind (malloc_all (.inl trivial))
    intro _
    apply All.bind ((aesNonAuthCrypto_ordinary ..).mono (fun _ => .inl))
    intro output
    exact (finish_ordinary ..).mono (fun _ => .inl)

variable {opts}

theorem body_divisors {y : ℕ} (h : .inl (.divide y) ∈ (body env uv opts).events) : y ≠ 0 := by
  have hends := @arguments_ends env uv opts
  unfold body at h
  unfold Ends at hends
  cases hargs : (arguments env uv opts).result with
  | error e =>
    rw [bind_error hargs] at h
    exact absurd ((arguments_ordinary opts).events _ h) id
  | ok args =>
    rw [hargs] at hends
    rw [bind_ok hargs] at h
    obtain h | h := List.mem_append.mp h
    · exact absurd ((arguments_ordinary opts).events _ h) id
    · have hkey := hends.1.keySize
      obtain h | h | h := (transform_step opts args).events _ h
      · exact absurd h id
      · cases h
        omega
      · cases h.1

/-- The iv is the key itself once the checks are passed and the iv is empty. -/
theorem ivIsKey_mem_iff :
    .inr .ivIsKey ∈ (body env uv opts).events ↔ checkStr opts.iv = none ∧ ∃ args, Accepts env uv opts args := by
  have hordinary : ¬ Ordinary (.inr .ivIsKey) := by simp [Ordinary]
  unfold body
  constructor
  · intro h
    cases hargs : (arguments env uv opts).result with
    | error e =>
      rw [bind_error hargs] at h
      exact absurd ((arguments_ordinary opts).events _ h) hordinary
    | ok args =>
      rw [bind_ok hargs] at h
      obtain h | h := List.mem_append.mp h
      · exact absurd ((arguments_ordinary opts).events _ h) hordinary
      · obtain h | h | h := (transform_step opts args).events _ h
        · exact absurd h hordinary
        · cases h
        · exact ⟨h.2,args,arguments_eq_ok_iff.mp hargs⟩
  · rintro ⟨hnone,args,haccepts⟩
    rw [bind_ok (arguments_eq_ok_iff.mpr haccepts)]
    apply List.mem_append_right
    have hiv : chooseIv env uv opts args = ⟨[.inr .ivIsKey],.ok ⟨.key,args.keySize,args.key⟩⟩ := by
      unfold chooseIv
      rw [hnone]
      rfl
    unfold transform
    rw [bind_ok (by rw [hiv]),hiv]
    exact List.mem_cons_self

end Events

theorem release_append (xs ys : List CryptoBuffer) (events : List CryptoEvent) :
    release (xs ++ ys) events = release xs events ++ release ys events := by
  unfold release
  rw [List.filter_append,List.map_append]

def FreesTwice (opts : AesParam) (events : List CryptoEvent) : Prop :=
  opts.iv.isSome = true ∧ .inr .ivIsKey ∈ events

theorem exitFrees_of_freesTwice {opts : AesParam} {events : List CryptoEvent} (h : FreesTwice opts events) :
    exitFrees opts events = release (owned opts) events ++ [.inl (.free .key)] := by
  have hany : (events.any (fun e => e = .inr .ivIsKey)) = true := by
    simpa using h.2
  unfold exitFrees owned
  rw [release_append,if_pos h.1,if_pos h.1,if_pos hany,List.append_assoc]

theorem exitFrees_of_not_freesTwice {opts : AesParam} {events : List CryptoEvent} (h : ¬ FreesTwice opts events) :
    exitFrees opts events = release (owned opts) events := by
  unfold exitFrees owned
  rw [release_append]
  by_cases hiv : opts.iv.isSome = true
  · have hany : ¬ (events.any (fun e => e = .inr .ivIsKey)) = true := by
      simpa using fun hmem => h ⟨hiv,hmem⟩
    rw [if_pos hiv,if_pos hiv,if_neg hany,List.append_nil]
  · rw [if_neg hiv,if_neg hiv]
    rfl

theorem owned_nodup (opts : AesParam) : (owned opts).Nodup := by
  unfold owned
  split_ifs <;> decide

/-- A call that has come to the label `exit` with its buffers frees each of them once, unless the iv is the
key. -/
theorem exit_safe_iff {opts : AesParam} {told : List CryptoEvent} (htold : memory told = [])
    (hheld : Held (owned opts) (heapAfter (body env uv opts).events (fun _ => .absent))) :
    MemoryEvent.Safe (memory ((body env uv opts).events ++ (told ++ exitFrees opts (body env uv opts).events))) ↔
      ¬ FreesTwice opts (body env uv opts).events := by
  have hsafe : MemoryEvent.Safe (memory ((body env uv opts).events ++
      release (owned opts) (body env uv opts).events)) :=
    safe_released (owned_nodup opts) hheld (fun _ => body_divisors)
  rw [memory_append,memory_append,htold,List.nil_append,← memory_append]
  by_cases htwice : FreesTwice opts (body env uv opts).events
  · rw [exitFrees_of_freesTwice htwice,← List.append_assoc,memory_append]
    refine iff_of_false (fun h => ?_) (fun h => h htwice)
    have hkey : MemoryEvent.block .key (memory ((body env uv opts).events ++
        release (owned opts) (body env uv opts).events) ++ memory [(.inl (.free .key) : CryptoEvent)]) = .faulty := by
      rw [MemoryEvent.block_append]
      obtain hblock | hblock := hsafe.blocks .key
      · rw [hblock]
        rfl
      · rw [hblock]
        rfl
    obtain hblock | hblock := h.blocks .key
    · rw [hkey] at hblock
      cases hblock
    · rw [hkey] at hblock
      cases hblock
  · rw [exitFrees_of_not_freesTwice htwice]
    exact iff_of_true hsafe htwice

/-- `aes` keeps to its buffers and frees each once if and only if accepted arguments meet what they need. -/
theorem aes_safe_iff (hbounded : uv.Bounded) (opts : AesParam) :
    MemoryEvent.Safe (memory (aes env uv opts)) ↔ ∀ args, Accepts env uv opts args → Keeps env uv opts args := by
  have hends := @body_ends env uv hbounded opts
  have hiv : FreesTwice opts (body env uv opts).events ↔ opts.iv = some [] ∧ ∃ args, Accepts env uv opts args := by
    unfold FreesTwice
    rw [ivIsKey_mem_iff,← and_assoc]
    refine and_congr_left fun _ => ?_
    unfold checkStr
    cases opts.iv with
    | none => simp
    | some iv => cases iv <;> simp [Option.filter]
  have hundefined : (body env uv opts).result = .error .undefined ↔
      ∃ args, Accepts env uv opts args ∧ (transform env uv opts args).result = .error .undefined := by
    unfold body
    rw [bind_eq_error_iff]
    simp only [arguments_eq_ok_iff]
    exact or_iff_right (arguments_not_undefined opts)
  have hkeeps : (∀ args, Accepts env uv opts args → Keeps env uv opts args) ↔
      ¬ FreesTwice opts (body env uv opts).events ∧ (body env uv opts).result ≠ .error .undefined := by
    rw [hiv,ne_eq,hundefined]
    constructor
    · intro h
      constructor
      · rintro ⟨hempty,args,haccepts⟩
        exact (h args haccepts).iv hempty
      · rintro ⟨args,haccepts,hfails⟩
        exact ((keeps_iff hbounded (cbcMode_size haccepts.mode)).mp (h args haccepts)).2 hfails
    · rintro ⟨hempty,hdefined⟩ args haccepts
      rw [keeps_iff hbounded (cbcMode_size haccepts.mode)]
      exact ⟨fun h => hempty ⟨h,args,haccepts⟩,fun h => hdefined ⟨args,haccepts,h⟩⟩
  rw [hkeeps]
  unfold Ends at hends
  unfold aes
  cases hresult : (body env uv opts).result with
  | error e =>
    rw [hresult] at hends
    cases e with
    | undefined =>
      obtain ⟨b,hfaulty⟩ := hends
      rw [memory_append]
      exact iff_of_false (MemoryEvent.not_safe_of_faulty hfaulty _) (fun h => h.2 rfl)
    | refused msg code =>
      have hsafe := exit_safe_iff (memory_answer opts.fail opts.complete none msg code) hends
      refine hsafe.trans ?_
      simp
  | ok result =>
    rw [hresult] at hends
    have hsafe := exit_safe_iff (memory_answer opts.fail opts.complete
      (if opts.success then some (.success (.text result.text) none) else none) result.msg result.code) hends
    refine hsafe.trans ?_
    simp

end Cipher
section Sample

def sampleKey : Bytes := [48,49,50,51,52,53,54,55,56,57,97,98,99,100,101,102]

def sampleKey192 : Bytes := sampleKey ++ sampleKey.take 8

/-- What AES makes of a single letter in the CBC mode, for keys of sixteen and of twenty-four bytes. -/
def knownAes : List (AesMode × Bytes × Bytes) :=
  [(.cbc128,sampleKey,[70,148,201,180,195,244,145,208,68,40,235,214,151,228,5,129]),
    (.cbc192,sampleKey192,[113,122,95,94,132,146,106,113,246,101,131,146,168,65,133,186])]

def knownCiphertext (mode : AesMode) (key iv data : Bytes) : Option Bytes :=
  if iv = sampleKey ∧ data = [97] then
    (knownAes.find? (fun row => row.1 = mode ∧ row.2.1 = key)).map (fun row => row.2.2)
  else none

def writing (output : Option Bytes) : AesOutcome := ⟨(output.map List.length).getD 0,output⟩

def sampleAes (mode : AesMode) (key iv data : Bytes) : CryptoOperation → Option Bytes
  | .encrypt => if iv.length = 16 then some ((knownCiphertext mode key iv data).getD (33 :: data)) else none
  | .decrypt =>
    if iv.length = 16 then
      if knownCiphertext mode key iv [97] = some data then some [97]
      else if data.head? = some 33 then some data.tail
      else none
    else none

def sampleAesAuth (tagLen : ℕ) (data : Bytes) : CryptoOperation → Option Bytes
  | .encrypt => if tagLen = 0 then none else some (data ++ List.replicate tagLen 0)
  | .decrypt =>
    if data.drop (data.length - tagLen) = List.replicate tagLen 0 then some (data.take (data.length - tagLen))
    else none

def sampleRsa (text : Bytes) : CryptoOperation → Option Bytes
  | .encrypt => some (33 :: text)
  | .decrypt => if text.head? = some 33 then some text.tail else none

def sampleUv : UvCrypto where
  base64Encode bytes := some (Base64.encode bytes)
  base64Decode := Base64.decode
  rsa _ := sampleRsa
  aes mode _ key iv data op := writing (sampleAes mode key iv data op)
  aesAuth _ _ _ _ _ tagLen data _ op := writing (sampleAesAuth tagLen data op)

def plenty : CryptoMemory where
  allocates _ := true
  residue _ _ := 0

theorem knownCiphertext_length {mode : AesMode} {key iv data output : Bytes}
    (h : knownCiphertext mode key iv data = some output) : data.length = 1 ∧ output.length = 16 := by
  unfold knownCiphertext at h
  split_ifs at h with hdata
  obtain ⟨row,hrow,rfl⟩ := Option.map_eq_some_iff.mp h
  refine ⟨by rw [hdata.2]; rfl,?_⟩
  have hlength : ∀ row ∈ knownAes, row.2.2.length = 16 := by decide
  exact hlength row (List.mem_of_find?_eq_some hrow)

theorem writing_written {output : Option Bytes} {n : ℕ} (h : ∀ bytes ∈ output, bytes.length ≤ n) :
    (writing output).written ≤ n := by
  cases output with
  | none => exact Nat.zero_le n
  | some bytes => exact h bytes rfl

theorem writing_result {output : Option Bytes} {bytes : Bytes} (h : bytes ∈ (writing output).result) :
    bytes.length ≤ (writing output).written := by
  cases h
  exact Nat.le_refl _

theorem sampleAes_length {mode : AesMode} {key iv data output : Bytes} {op : CryptoOperation}
    (h : sampleAes mode key iv data op = some output) : output.length ≤ (data.length / 16 + 1) * 16 := by
  cases op with
  | encrypt =>
    simp only [sampleAes] at h
    split_ifs at h
    cases hknown : knownCiphertext mode key iv data with
    | some known =>
      have hlength := (knownCiphertext_length hknown).2
      rw [hknown] at h
      cases h
      change known.length ≤ _
      omega
    | none =>
      rw [hknown] at h
      cases h
      change data.length + 1 ≤ _
      omega
  | decrypt =>
    simp only [sampleAes] at h
    split_ifs at h
    · cases h
      change 1 ≤ _
      omega
    · cases h
      rw [List.length_tail]
      omega

theorem sampleAesAuth_length {tagLen : ℕ} {data output : Bytes} {op : CryptoOperation}
    (h : sampleAesAuth tagLen data op = some output) : output.length ≤ data.length + tagLen := by
  cases op with
  | encrypt =>
    simp only [sampleAesAuth] at h
    split_ifs at h
    cases h
    simp
  | decrypt =>
    simp only [sampleAesAuth] at h
    split_ifs at h
    cases h
    rw [List.length_take]
    omega

theorem sampleUv_bounded : sampleUv.Bounded where
  aes_written _ _ _ _ _ _ := writing_written (fun _ h => sampleAes_length h)
  aes_result _ _ _ _ _ _ _ h := writing_result h
  aesAuth_written _ _ _ _ _ _ _ _ _ := writing_written (fun _ h => sampleAesAuth_length h)
  aesAuth_result _ _ _ _ _ _ _ _ _ _ h := writing_result h

end Sample

/-- An AES call keeps to its buffers and frees each once: one of `crypto` if and only if its key or its data is
refused, one of `cipher` if and only if arguments that it accepts meet what they need. -/
theorem aes_buffers_kept_iff (env : CryptoMemory) (uv : UvCrypto) (hbounded : uv.Bounded) :
    (∀ op param, Crypto.parseAlgo param.algo = some .aes →
      (MemoryEvent.Safe (memory (Crypto.crypt env uv op (some param))) ↔ ¬ Crypto.Accepted env uv op param)) ∧
    ∀ opts, MemoryEvent.Safe (memory (Cipher.aes env uv opts)) ↔
      ∀ args, Cipher.Accepts env uv opts args → Cipher.Keeps env uv opts args :=
  ⟨fun op _ haes => Crypto.crypt_safe_iff op haes,Cipher.aes_safe_iff hbounded⟩

def sampleEncryption (key : Option CryptoValue) : CryptParam where
  data := some (.text [97])
  algo := some "AES".toList
  key := key
  options := none
  success := true
  fail := true
  complete := true

def sampleCipher : AesParam where
  action := some "encrypt".toList
  text := some [97]
  key := some (Base64.encode sampleKey)
  iv := none
  ivOffset := 0
  ivLen := 0
  success := true
  fail := true
  complete := true

/-- Without a key nothing is left behind by `crypto`, and an encryption by `cipher` keeps to its buffers. -/
theorem keyless_kept : MemoryEvent.Safe (memory (Crypto.crypt plenty sampleUv .encrypt (some (sampleEncryption none)))) ∧
    MemoryEvent.Safe (memory (Cipher.aes plenty sampleUv sampleCipher)) := by
  obtain ⟨hcrypto,hcipher⟩ := aes_buffers_kept_iff plenty sampleUv sampleUv_bounded
  constructor
  · exact (hcrypto .encrypt (sampleEncryption none) (by decide)).mpr (fun h => absurd h.1 (by decide))
  · refine (hcipher sampleCipher).mpr (fun args h => ⟨nofun,fun iv hiv _ => ?_,fun iv _ _ output _ => ?_⟩)
    · obtain ⟨encoded,hencoded,_,_,hsize⟩ := h.key
      obtain rfl : _ = encoded := Option.some.inj hencoded
      obtain rfl : _ = iv := Option.some.inj hiv
      rw [hsize]
      exact ⟨(by decide : (0 : ℤ) ≤ 0),(by decide : (0 : ℤ) ≤ 16),(by decide : (0 : ℤ) + 16 ≤ (Base64.encode sampleKey).length)⟩
    · have hop : args.op = .encrypt := Option.some.inj (h.action.symm.trans (by decide))
      rw [hop]
      intro _ _ _
      simp [Cipher.stray,plenty,Bytes.cstring]

/-- An encryption that succeeds leaves its key behind. -/
theorem encryption_leaks : ¬ MemoryEvent.Safe (memory (Crypto.crypt plenty sampleUv .encrypt
    (some (sampleEncryption (some (.text (Base64.encode sampleKey))))))) := by
  intro h
  have hkey := h.blocks .key
  revert hkey
  decide +kernel

end FeatureRuntime
