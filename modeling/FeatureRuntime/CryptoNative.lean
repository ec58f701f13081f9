import FeatureRuntime.AppPath
import FeatureRuntime.BufferViews
import FeatureRuntime.MemoryTrace
import Mathlib.Data.Int.SuccPred
import Mathlib.Data.List.Range
import Mathlib.Tactic.SplitIfs

/-! What `system.crypto` and `system.cipher` share: the bytes of script values, base64, the native AES and RSA
calls with the buffers they work on, and the check of decrypted text. The primitives come from outside. -/
namespace FeatureRuntime

abbrev Bytes := List UInt8

def Bytes.cstring (bytes : Bytes) : Bytes := bytes.takeWhile (· ≠ 0)

/-- A script value of a crypto option: a text with the bytes of its UTF-8 encoding, a buffer, a view of one. -/
inductive CryptoValue
  | text (bytes : Bytes)
  | buffer (bytes : Bytes)
  | view (v : BufferView)
  | other
  deriving DecidableEq

/-- The bytes of a value, and whether they come from a text. -/
structure CryptoBuff where
  bytes : Bytes
  isText : Bool
  deriving DecidableEq

def CryptoValue.getBuff : CryptoValue → Option CryptoBuff
  | .text bytes => some ⟨bytes.cstring,true⟩
  | .buffer bytes => some ⟨bytes,false⟩
  | .view v => some ⟨v.buffer,false⟩
  | .other => none

def CryptoValue.fromBuff (bytes : Bytes) (isText : Bool) : CryptoValue :=
  if isText then .text bytes.cstring else .buffer bytes

inductive CryptoOperation
  | encrypt
  | decrypt
  deriving DecidableEq

/-- `ModeType`. -/
inductive AesMode
  | none
  | ecb128
  | ecb192
  | ecb256
  | cbc128
  | cbc192
  | cbc256
  | ccm128
  | ccm192
  | ccm256
  deriving DecidableEq

/-- `PaddingType`; `PKCS5Padding` and `PKCS7Padding` are the same number. -/
inductive PaddingType
  | pkcs7Padding
  | zeros
  | none
  | iso10126Padding
  deriving DecidableEq

/-- What an AES primitive does: how much of its output it writes, and its result if it succeeds. -/
structure AesOutcome where
  written : ℕ
  result : Option Bytes

structure UvCrypto where
  base64Encode : Bytes → Option Bytes
  base64Decode : Bytes → Option Bytes
  /-- A result without bytes is a success that leaves the output pointer null. -/
  rsa : (key text : Bytes) → CryptoOperation → Option Bytes
  aes : AesMode → PaddingType → (key iv data : Bytes) → CryptoOperation → AesOutcome
  aesAuth : AesMode → PaddingType → (key iv aad : Bytes) → (tagLen : ℕ) → (data : Bytes) → (outputSize : ℕ) →
    CryptoOperation → AesOutcome

/-- The buffers of a crypto call, under the names of the pointers that own them. -/
inductive CryptoBuffer
  | key
  | buff
  | iv
  | aad
  | tagInput
  | output
  | buffTag
  | result
  | tagOutput
  deriving DecidableEq

/-- Which allocations succeed, and what is in a buffer before it is written. -/
structure CryptoMemory where
  allocates : CryptoBuffer → Bool
  residue : CryptoBuffer → ℕ → UInt8

/-- What a call does besides its work on buffers. -/
inductive CryptoAction
  /-- The primitive of the requested operation is called. -/
  | perform
  /-- The default iv is the key itself. -/
  | ivIsKey
  | success (data : CryptoValue) (tag : Option CryptoValue)
  | fail (msg : String) (code : ℕ)
  | complete
  deriving DecidableEq

abbrev CryptoEvent := MemoryEvent CryptoBuffer ⊕ CryptoAction

inductive CryptoStop
  | refused (msg : String) (code : ℕ)
  /-- A null pointer is read, a buffer is left or a number is divided by zero: nothing is known from here on. -/
  | undefined
  deriving DecidableEq

abbrev CryptoRun := Traced CryptoEvent CryptoStop

namespace Crypto

/-- `Cipher_ErrorCode`. -/
def general : ℕ := 200

def argsError : ℕ := 202

def unsupported : ℕ := 203

def malloc (env : CryptoMemory) (b : CryptoBuffer) (size : ℕ) (e : CryptoStop) : CryptoRun Unit := do
  Traced.require (env.allocates b = true) e
  Traced.tell [.inl (.alloc b size)]

def use (b : CryptoBuffer) (length : ℕ) : CryptoRun Unit := Traced.tell [.inl (.access b 0 length)]

def reach (b : CryptoBuffer) (size : ℕ) (offset length : ℤ) : CryptoRun Unit := do
  Traced.tell [.inl (.access b offset length)]
  Traced.require (0 ≤ offset ∧ 0 ≤ length ∧ offset + length ≤ size) .undefined

def roundUp (x y : ℕ) : CryptoRun ℕ := do
  Traced.tell [.inl (.divide y)]
  Traced.require (y ≠ 0) .undefined
  return (x + y - 1) / y * y

def base64EncodedLength (len : ℕ) : ℕ := if len % 3 ≠ 0 then (len / 3 + 1) * 4 else len / 3 * 4

variable (uv : UvCrypto)

/-- `base64_encode`; the primitive ends its output with a terminator. -/
def base64Encode (input : Bytes) (outputSize : ℕ) : Option Bytes :=
  if input = [] ∨ outputSize = 0 then none
  else (uv.base64Encode input).filter (fun encoded => encoded.length + 1 ≤ outputSize)

def base64Decode (input : Bytes) (outputSize : ℕ) : Option Bytes :=
  if input = [] ∨ outputSize = 0 then none
  else (uv.base64Decode input).filter (fun decoded => decoded.length ≤ outputSize)

def readFrom (residue : ℕ → UInt8) (content : Bytes) (offset length : ℕ) : Bytes :=
  (List.range length).map (fun i => content.getD (offset + i) (residue (offset + i)))

/-- Where an iv is read: its buffer, the size of it and what has been written to it. -/
structure IvSource where
  buffer : CryptoBuffer
  size : ℕ
  content : Bytes

def aesOutcome (env : CryptoMemory) (mode : AesMode) (padding : PaddingType) (key : Bytes) (iv : IvSource)
    (ivOffset ivLen : ℤ) (buff : Bytes) (op : CryptoOperation) : AesOutcome :=
  uv.aes mode padding key (readFrom (env.residue iv.buffer) iv.content ivOffset.toNat ivLen.toNat) buff op

/-- `aes_non_auth_crypto`, into an output of a size. The input is in a buffer of the call or belongs to the
caller of it. -/
def aesNonAuthCrypto (env : CryptoMemory) (mode : AesMode) (padding : PaddingType) (key : Bytes) (iv : IvSource)
    (ivOffset ivLen : ℤ) (owned : Bool) (buff : Bytes) (outputSize : ℕ) (op : CryptoOperation) (e : CryptoStop) :
    CryptoRun Bytes := do
  Traced.tell [.inr .perform]
  use .key key.length
  reach iv.buffer iv.size ivOffset ivLen
  Traced.given (owned = true) (use .buff buff.length)
  let outcome := aesOutcome uv env mode padding key iv ivOffset ivLen buff op
  reach .output outputSize 0 outcome.written
  let output ← Traced.demand outcome.result e
  Traced.given (op = .decrypt) (reach .output outputSize output.length 1)
  return output

/-- `aes_auth_crypto`. The tag follows the input where it is checked. -/
def aesAuthCrypto (env : CryptoMemory) (mode : AesMode) (padding : PaddingType) (key iv aad tagInput : Bytes)
    (tagLen : ℕ) (buff : Bytes) (outputSize : ℕ) (op : CryptoOperation) (e : CryptoStop) : CryptoRun Bytes := do
  use .key key.length
  use .buff buff.length
  Traced.given (op = .decrypt) (do
    malloc env .buffTag (buff.length + tagLen) e
    use .buffTag (buff.length + tagLen)
    use .tagInput tagLen)
  Traced.tell [.inr .perform]
  use .iv iv.length
  Traced.given (aad ≠ []) (use .aad aad.length)
  let data := if op = .decrypt then buff ++ tagInput else buff
  let outcome := uv.aesAuth mode padding key iv aad tagLen data outputSize op
  reach .output outputSize 0 outcome.written
  Traced.demand outcome.result e

/-- `rsa_crypto`; the output pointer stays null when the primitive succeeds without bytes. -/
def rsaCrypto (env : CryptoMemory) (key buff : Bytes) (op : CryptoOperation) (e : CryptoStop) :
    CryptoRun (Option Bytes) := do
  Traced.tell [.inr .perform]
  use .key (key.cstring.length + 1)
  use .buff buff.length
  let output ← Traced.demand (uv.rsa key.cstring buff op) e
  if output = [] then return none
  else do
    malloc env .output (output.length + 1) e
    use .output (output.length + 1)
    return some output

/-- The number of bytes that follow a first byte of UTF-8 in `is_valid_utf8`. -/
def bytesNeeded (c : UInt8) : Option ℕ :=
  if c ≤ 0x7F then some 0
  else if 0xC0 ≤ c ∧ c ≤ 0xDF then some 1
  else if 0xE0 ≤ c ∧ c ≤ 0xEF then some 2
  else if 0xF0 ≤ c ∧ c ≤ 0xF7 then some 3
  else none

/-- `is_valid_utf8`, with the number of follow bytes that are still due; at the end comes the terminator, which
is none of them. -/
def isValidUtf8 : (due : ℕ) → Bytes → Bool
  | due,[] => due = 0
  | 0,c :: rest =>
    match bytesNeeded c with
    | some due => isValidUtf8 due rest
    | none => false
  | due + 1,c :: rest => if c < 0x80 ∨ c > 0xBF then false else isValidUtf8 due rest

section Results

open Traced

variable {env : CryptoMemory} {b : CryptoBuffer} {size : ℕ} {offset len : ℤ} {e : CryptoStop} {u : Unit}

theorem malloc_eq_ok_iff : (malloc env b size e).result = .ok u ↔ env.allocates b = true := by
  unfold malloc
  simp only [bind_eq_ok_iff,require_eq_ok_iff,result_tell]
  exact ⟨fun ⟨_,h,_⟩ => h,fun h => ⟨(),h,trivial⟩⟩

theorem malloc_eq_error_iff {e' : CryptoStop} :
    (malloc env b size e).result = .error e' ↔ env.allocates b ≠ true ∧ e = e' := by
  unfold malloc
  simp [bind_eq_error_iff,require_eq_error_iff]

theorem reach_eq_ok_iff : (reach b size offset len).result = .ok u ↔ 0 ≤ offset ∧ 0 ≤ len ∧ offset + len ≤ size := by
  unfold reach
  simp only [bind_eq_ok_iff,require_eq_ok_iff,result_tell]
  exact ⟨fun ⟨_,_,h⟩ => h,fun h => ⟨(),trivial,h⟩⟩

theorem reach_eq_error_iff :
    (reach b size offset len).result = .error e ↔ ¬ (0 ≤ offset ∧ 0 ≤ len ∧ offset + len ≤ size) ∧ .undefined = e := by
  unfold reach
  simp only [bind_eq_error_iff,require_eq_error_iff,result_tell]
  constructor
  · rintro (h | ⟨_,_,h⟩)
    · cases h
    · exact h
  · exact fun h => .inr ⟨(),trivial,h⟩

@[simp] theorem result_use (length : ℕ) : (use b length).result = .ok () := rfl

theorem roundUp_eq_ok_iff {x y n : ℕ} : (roundUp x y).result = .ok n ↔ y ≠ 0 ∧ (x + y - 1) / y * y = n := by
  unfold roundUp
  simp only [bind_eq_ok_iff,require_eq_ok_iff,result_tell,result_pure,Except.ok.injEq]
  exact ⟨fun ⟨_,_,_,hy,h⟩ => ⟨hy,h⟩,fun ⟨hy,h⟩ => ⟨(),trivial,(),hy,h⟩⟩

theorem roundUp_eq_error_iff {x y : ℕ} : (roundUp x y).result = .error e ↔ y = 0 ∧ .undefined = e := by
  unfold roundUp
  simp [bind_eq_error_iff,require_eq_error_iff]

variable {mode : AesMode} {padding : PaddingType} {key : Bytes} {iv : IvSource} {ivOffset ivLen : ℤ} {own : Bool}
  {buff output : Bytes} {outputSize : ℕ} {op : CryptoOperation}

theorem aesNonAuthCrypto_eq_ok_iff :
    (aesNonAuthCrypto uv env mode padding key iv ivOffset ivLen own buff outputSize op e).result = .ok output ↔
      (0 ≤ ivOffset ∧ 0 ≤ ivLen ∧ ivOffset + ivLen ≤ iv.size) ∧
      (aesOutcome uv env mode padding key iv ivOffset ivLen buff op).written ≤ outputSize ∧
      (aesOutcome uv env mode padding key iv ivOffset ivLen buff op).result = some output ∧
      (op = .decrypt → output.length < outputSize) := by
  unfold aesNonAuthCrypto
  simp only [bind_eq_ok_iff,reach_eq_ok_iff,given_eq_ok_iff,demand_eq_ok_iff,result_tell,result_use,result_pure,
    Except.ok.injEq]
  constructor
  · rintro ⟨_,_,_,_,_,hiv,_,_,_,hwritten,_,hresult,_,hop,rfl⟩
    refine ⟨hiv,by omega,hresult,fun h => ?_⟩
    have := hop h
    omega
  · rintro ⟨hiv,hwritten,hresult,hop⟩
    refine ⟨(),trivial,(),trivial,(),hiv,(),fun _ => trivial,(),by omega,output,hresult,(),fun h => ?_,rfl⟩
    have := hop h
    omega

theorem aesAuthCrypto_eq_ok_iff {iv aad tagInput : Bytes} {tagLen : ℕ} :
    (aesAuthCrypto uv env mode padding key iv aad tagInput tagLen buff outputSize op e).result = .ok output ↔
      (op = .decrypt → env.allocates .buffTag = true) ∧
      (uv.aesAuth mode padding key iv aad tagLen (if op = .decrypt then buff ++ tagInput else buff) outputSize
        op).written ≤ outputSize ∧
      (uv.aesAuth mode padding key iv aad tagLen (if op = .decrypt then buff ++ tagInput else buff) outputSize
        op).result = some output := by
  unfold aesAuthCrypto
  simp only [bind_eq_ok_iff,given_eq_ok_iff,malloc_eq_ok_iff,reach_eq_ok_iff,demand_eq_ok_iff]
  constructor
  · rintro ⟨_,_,_,_,_,hmemory,_,_,_,_,_,_,_,hwritten,hresult⟩
    refine ⟨fun h => ?_,by omega,hresult⟩
    obtain ⟨_,h,_⟩ := hmemory h
    exact h
  · rintro ⟨hmemory,hwritten,hresult⟩
    exact ⟨(),rfl,(),rfl,(),fun h => ⟨(),hmemory h,(),rfl,rfl⟩,(),rfl,(),rfl,(),fun _ => rfl,(),by omega,hresult⟩

theorem aesNonAuthCrypto_undefined_iff {msg : String} {code : ℕ} :
    (aesNonAuthCrypto uv env mode padding key iv ivOffset ivLen own buff outputSize op (.refused msg code)).result =
        .error .undefined ↔
      ¬ (0 ≤ ivOffset ∧ 0 ≤ ivLen ∧ ivOffset + ivLen ≤ iv.size) ∨
      (0 ≤ ivOffset ∧ 0 ≤ ivLen ∧ ivOffset + ivLen ≤ iv.size) ∧
      (¬ (aesOutcome uv env mode padding key iv ivOffset ivLen buff op).written ≤ outputSize ∨
        (aesOutcome uv env mode padding key iv ivOffset ivLen buff op).written ≤ outputSize ∧
        ∃ output, (aesOutcome uv env mode padding key iv ivOffset ivLen buff op).result = some output ∧
          op = .decrypt ∧ ¬ output.length < outputSize) := by
  unfold aesNonAuthCrypto
  simp [bind_eq_error_iff,reach_eq_error_iff,reach_eq_ok_iff,given_eq_error_iff,given_eq_ok_iff,
    demand_eq_error_iff,demand_eq_ok_iff]

end Results

theorem base64Decode_length {input decoded : Bytes} {outputSize : ℕ}
    (h : base64Decode uv input outputSize = some decoded) : decoded.length ≤ outputSize := by
  unfold base64Decode at h
  split_ifs at h
  exact of_decide_eq_true (Option.filter_eq_some_iff.mp h).2

theorem base64Encode_length {input encoded : Bytes} {outputSize : ℕ}
    (h : base64Encode uv input outputSize = some encoded) : encoded.length + 1 ≤ outputSize := by
  unfold base64Encode at h
  split_ifs at h
  exact of_decide_eq_true (Option.filter_eq_some_iff.mp h).2

section Buffers

open Traced

variable {env : CryptoMemory} {b : CryptoBuffer} {size length : ℕ} {offset len : ℤ} {e : CryptoStop}
  {σ : CryptoBuffer → BlockState} {ok : Unit → (CryptoBuffer → BlockState) → Prop}
  {error : CryptoStop → (CryptoBuffer → BlockState) → Prop}

theorem malloc_ends (habsent : σ b = .absent)
    (hok : env.allocates b = true → ok () (Function.update σ b (.live size)))
    (herror : env.allocates b ≠ true → error e σ) : Ends (malloc env b size e) σ ok error := by
  unfold malloc
  apply Ends.bind
  apply Ends.require
  · intro hallocates
    change ok () (heapAfter [.inl (.alloc b size)] σ)
    rw [heapAfter_alloc habsent]
    exact hok hallocates
  · exact herror

theorem use_ends (hlive : σ b = .live size) (hlength : length ≤ size) (hok : ok () σ) :
    Ends (use b length) σ ok error := by
  change ok () (heapAfter [.inl (.access b 0 length)] σ)
  rw [heapAfter_access hlive ⟨Int.le_refl 0,Int.natCast_nonneg length,by omega⟩]
  exact hok

theorem reach_ends (hlive : σ b = .live size) (hok : 0 ≤ offset ∧ 0 ≤ len ∧ offset + len ≤ size → ok () σ)
    (herror : ¬ (0 ≤ offset ∧ 0 ≤ len ∧ offset + len ≤ size) → ∀ σ', σ' b = .faulty → error .undefined σ') :
    Ends (reach b size offset len) σ ok error := by
  unfold reach
  apply Ends.bind
  apply Ends.require
  · intro hbounds
    change ok () (heapAfter [.inl (.access b offset len)] σ)
    rw [heapAfter_access hlive hbounds]
    exact hok hbounds
  · intro hbounds
    exact herror hbounds _ (heapAfter_overrun hlive hbounds)

theorem roundUp_ends {x y : ℕ} {ok : ℕ → (CryptoBuffer → BlockState) → Prop} (hy : y ≠ 0)
    (hok : ok ((x + y - 1) / y * y) σ) : Ends (roundUp x y) σ ok error := by
  unfold roundUp
  apply Ends.bind
  apply Ends.bind
  apply Ends.require
  · intro _
    exact hok
  · intro h
    exact absurd hy h

end Buffers

section All

open Traced

variable {env : CryptoMemory} {b : CryptoBuffer} {P : CryptoEvent → Prop}

theorem malloc_all {size : ℕ} {e : CryptoStop} (h : P (.inl (.alloc b size))) : All P (malloc env b size e) := by
  unfold malloc
  apply All.bind (.require _ _)
  intro _
  apply All.tell
  intro event hevent
  rw [List.mem_singleton.mp hevent]
  exact h

theorem use_all {length : ℕ} (h : P (.inl (.access b 0 length))) : All P (use b length) := by
  apply All.tell
  intro event hevent
  rw [List.mem_singleton.mp hevent]
  exact h

theorem reach_all {size : ℕ} {offset length : ℤ} (h : P (.inl (.access b offset length))) :
    All P (reach b size offset length) := by
  apply All.bind
  · apply All.tell
    intro event hevent
    rw [List.mem_singleton.mp hevent]
    exact h
  · intro _
    exact .require _ _

theorem roundUp_all {x y : ℕ} (h : P (.inl (.divide y))) : All P (roundUp x y) := by
  apply All.bind
  · apply All.tell
    intro event hevent
    rw [List.mem_singleton.mp hevent]
    exact h
  · intro _
    apply All.bind
    · exact .require _ _
    · intro _
      exact .pure _

end All
end Crypto
end FeatureRuntime
