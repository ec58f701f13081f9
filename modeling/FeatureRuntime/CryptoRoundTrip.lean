import FeatureRuntime.CryptoOptions
import Mathlib.Data.List.TakeWhile

/-! What `decrypt` of `system.crypto` makes of the answer of `encrypt`. -/
namespace FeatureRuntime

open Traced

/-- The primitives are inverse to each other, for RSA with the private key of a pair. What the rest of the code
relies on besides: base64 is text and no shorter than what it encodes, a ciphertext is no shorter than its data, a
decryption writes no more than it reads, AES in the CBC mode takes an iv of one block, and an authenticated
ciphertext ends with a tag that is not empty. -/
structure UvCrypto.Inverse (uv : UvCrypto) (pair : Bytes → Bytes → Prop) : Prop where
  base64 : ∀ bytes, ∀ encoded ∈ uv.base64Encode bytes,
    uv.base64Decode encoded = some bytes ∧ bytes.length ≤ encoded.length ∧ 0 ∉ encoded
  rsa : ∀ pub priv text, pair pub priv → ∀ output ∈ uv.rsa pub text .encrypt, output ≠ [] →
    uv.rsa priv output .decrypt = some text
  aes : ∀ mode padding key iv data, ∀ output ∈ (uv.aes mode padding key iv data .encrypt).result,
    data.length ≤ output.length ∧ (uv.aes mode padding key iv output .decrypt).result = some data ∧
      (uv.aes mode padding key iv output .decrypt).written ≤ output.length
  aes_iv : ∀ mode padding key iv data, mode = .cbc128 ∨ mode = .cbc256 →
    (uv.aes mode padding key iv data .encrypt).result.isSome → iv.length = 16
  aesAuth : ∀ mode padding key iv aad tagLen data size,
    ∀ output ∈ (uv.aesAuth mode padding key iv aad tagLen data size .encrypt).result,
      tagLen ≠ 0 ∧ output.length = data.length + tagLen ∧ ∀ size', output.length ≤ size' →
        (uv.aesAuth mode padding key iv aad tagLen output size' .decrypt).result = some data ∧
        (uv.aesAuth mode padding key iv aad tagLen output size' .decrypt).written ≤ output.length

def CryptoValue.WellFormed : CryptoValue → Prop
  | .text bytes => 0 ∉ bytes ∧ ∃ chars : List Char, bytes = chars.flatMap String.utf8EncodeChar
  | .buffer _ | .view _ => True
  | .other => False

/-- A value with no bytes around those that it shows. -/
def CryptoValue.covered : CryptoValue → CryptoValue
  | .view v => .buffer v.covered
  | value => value

/-- No part of a buffer, unless it is all of it. -/
def CryptoValue.Whole : CryptoValue → Prop
  | .view v => v.CoversAll
  | _ => True

theorem cstring_of_notMem {bytes : Bytes} (h : 0 ∉ bytes) : bytes.cstring = bytes := by
  apply List.takeWhile_eq_self_iff.mpr
  intro c hc
  exact decide_eq_true (fun h0 => h (h0 ▸ hc))

namespace Crypto

section Inverse

variable {env env' : CryptoMemory} {uv : UvCrypto} {pair : Bytes → Bytes → Prop}

theorem le_roundUp (x : ℕ) {y : ℕ} (hy : y ≠ 0) : x ≤ (x + y - 1) / y * y := by
  have h := Nat.div_add_mod (x + y - 1) y
  have hlt := Nat.mod_lt (x + y - 1) (Nat.pos_of_ne_zero hy)
  rw [Nat.mul_comm] at h
  omega

variable {done : Processed} {key buff : Bytes}

theorem operateBlocks_inverse (hinverse : uv.Inverse pair) (hplenty : ∀ b, env'.allocates b = true) {setup : AesSetup}
    (hoffset : setup.internal.ivOffset = 0)
    (h : (operateBlocks env uv .encrypt setup key buff).result = .ok done) :
    ∃ output, done = ⟨some output,false,setup.internal.tagLen⟩ ∧ buff.length ≤ output.length ∧
      (operateBlocks env' uv .decrypt setup key output).result = .ok ⟨some buff,false,setup.internal.tagLen⟩ := by
  unfold operateBlocks at h ⊢
  simp only [bind_eq_ok_iff,allocateOutput_eq_ok_iff,aesNonAuthCrypto_eq_ok_iff,aesOutcome,hoffset,Int.toNat_zero,
    Int.toNat_natCast,readFrom_all] at h ⊢
  obtain ⟨_,⟨hkey,_,rfl⟩,output,⟨hrange,_,hresult,_⟩,h⟩ := h
  cases h
  obtain ⟨hlength,hback,hwritten⟩ := hinverse.aes _ _ _ _ _ output hresult
  have hround := le_roundUp (output.length + 1) hkey
  exact ⟨output,rfl,hlength,_,⟨hkey,hplenty _,rfl⟩,buff,⟨hrange,by omega,hback,fun _ => by omega⟩,rfl⟩

theorem operateCcm_inverse (hinverse : uv.Inverse pair) (hplenty : ∀ b, env'.allocates b = true) {setup : AesSetup}
    (h : (operateCcm env uv .encrypt setup key buff).result = .ok done) :
    ∃ data tag, done = ⟨some (data ++ tag),true,tag.length⟩ ∧ data.length = buff.length ∧ tag ≠ [] ∧
      (operateCcm env' uv .decrypt
        { setup with internal := { setup.internal with tagInput := some tag, tagLen := tag.length } } key data).result =
        .ok ⟨some buff,true,tag.length⟩ := by
  unfold operateCcm at h ⊢
  simp only [bind_eq_ok_iff,require_eq_ok_iff,allocateOutput_eq_ok_iff,aesAuthCrypto_eq_ok_iff] at h ⊢
  obtain ⟨_,_,_,⟨hkey,_,rfl⟩,output,⟨_,_,hresult⟩,h⟩ := h
  cases h
  rw [if_neg (by decide)] at hresult
  obtain ⟨htagLen,hlength,hback⟩ := hinverse.aesAuth _ _ _ _ _ _ _ _ output hresult
  have hsplit := List.take_append_drop buff.length output
  have htag : (output.drop buff.length).length = setup.internal.tagLen := by
    rw [List.length_drop]
    omega
  have hdata : (output.take buff.length).length = buff.length := by
    rw [List.length_take]
    omega
  refine ⟨output.take buff.length,output.drop buff.length,?_,hdata,?_,?_⟩
  · rw [hsplit,htag]
  · intro hnil
    rw [hnil] at htag
    exact htagLen htag.symm
  · rw [htag,hdata]
    have hround := le_roundUp (buff.length + setup.internal.tagLen + 1) hkey
    obtain ⟨hout,hwritten⟩ := hback ((buff.length + setup.internal.tagLen + 1 + key.length - 1) / key.length * key.length)
      (by omega)
    refine ⟨(),fun _ => ⟨rfl,htagLen⟩,_,⟨hkey,hplenty _,rfl⟩,buff,⟨fun _ => hplenty _,?_,?_⟩,rfl⟩
    · rw [if_pos trivial,Option.getD_some,hsplit]
      omega
    · rw [if_pos trivial,Option.getD_some,hsplit]
      exact hout

variable {options : Option MixinCryptOption} {op : CryptoOperation}

theorem operateRsa_isAuth (h : (operateRsa env uv op options key buff).result = .ok done) : done.isAuth = false := by
  unfold operateRsa at h
  simp only [bind_eq_ok_iff] at h
  obtain ⟨_,_,_,_,h⟩ := h
  cases h
  rfl

theorem operateRsa_inverse (hinverse : uv.Inverse pair) (hplenty : ∀ b, env'.allocates b = true)
    {key key' buff output : Bytes}
    (hpair : pair key.cstring key'.cstring) (hbuff : buff ≠ [])
    (h : (operateRsa env uv .encrypt options key buff).result = .ok done) (houtput : done.output = some output) :
    done = ⟨some output,false,0⟩ ∧ output ≠ [] ∧
      (operateRsa env' uv .decrypt options key' output).result = .ok ⟨some buff,false,0⟩ := by
  have htransformation (t : CString) : parseTransformation rsaCipherSupported t key'.length =
      parseTransformation rsaCipherSupported t key.length := by
    unfold parseTransformation rsaCipherSupported
    rw [List.findSome?_replicate_of_pos (by decide),List.findSome?_replicate_of_pos (by decide)]
    simp
  unfold operateRsa rsaCrypto at h ⊢
  simp only [bind_eq_ok_iff,require_eq_ok_iff,demand_eq_ok_iff,htransformation] at h ⊢
  obtain ⟨_,hsupported,result,⟨_,_,_,_,_,_,bytes,hbytes,hresult⟩,h⟩ := h
  cases h
  change result = some output at houtput
  subst houtput
  by_cases hempty : bytes = []
  · rw [if_pos hempty] at hresult
    cases hresult
  · rw [if_neg hempty] at hresult
    simp only [bind_eq_ok_iff,malloc_eq_ok_iff] at hresult
    obtain ⟨_,_,_,_,hresult⟩ := hresult
    cases hresult
    refine ⟨rfl,hempty,(),hsupported,some buff,⟨(),rfl,(),rfl,(),rfl,buff,?_,?_⟩,rfl⟩
    · exact hinverse.rsa _ _ _ hpair _ hbytes hempty
    · rw [if_neg hbuff]
      simp only [bind_eq_ok_iff,malloc_eq_ok_iff]
      exact ⟨(),hplenty _,(),rfl,rfl⟩

def Sent (uv : UvCrypto) (isText : Bool) (raw bytes : Bytes) : Prop :=
  match isText with
  | true => ∃ size, base64Encode uv raw size = some bytes
  | false => bytes = raw

theorem base64Encode_eq_some {raw bytes : Bytes} {size : ℕ} (h : base64Encode uv raw size = some bytes) :
    raw ≠ [] ∧ uv.base64Encode raw = some bytes := by
  unfold base64Encode at h
  split_ifs at h with hempty
  exact ⟨fun hraw => hempty (.inl hraw),(Option.filter_eq_some_iff.mp h).1⟩

variable {isText : Bool}

theorem takes_sent (hinverse : uv.Inverse pair) (hplenty : ∀ b, env'.allocates b = true)
    {raw bytes : Bytes} (h : Sent uv isText raw bytes) (hraw : raw ≠ []) (b : CryptoBuffer)
    {encoded : CryptoBuff → Bool} (hencoded : ∀ bytes, encoded ⟨bytes,isText⟩ = isText) :
    takes env' uv b encoded (some (.fromBuff bytes isText)) = some ⟨raw,isText⟩ := by
  cases isText with
  | true =>
    obtain ⟨size,hencode⟩ := h
    obtain ⟨hdecode,hlength,hzero⟩ := hinverse.base64 raw bytes (base64Encode_eq_some hencode).2
    have hnonempty : bytes ≠ [] := by
      rintro rfl
      exact hraw (List.length_eq_zero_iff.mp (Nat.le_zero.mp hlength))
    have hdecoded : base64Decode uv bytes bytes.length = some raw := by
      unfold base64Decode
      rw [if_neg (by simp [hnonempty]),hdecode]
      exact Option.filter_some_pos (decide_eq_true hlength)
    simp [takes,CryptoValue.fromBuff,CryptoValue.getBuff,cstring_of_notMem hzero,hnonempty,hplenty,hencoded,hdecoded]
  | false =>
    cases h
    simp [takes,CryptoValue.fromBuff,CryptoValue.getBuff,hraw,hplenty,hencoded]

variable {crypted : Crypted}

theorem encodeResult_text {output : Bytes} {tagLen : ℕ}
    (h : (encodeResult env uv output false tagLen).result = .ok crypted) :
    ∃ data, base64Encode uv output (base64EncodedLength output.length + 1) = some data ∧
      crypted = ⟨some data,true,true,none⟩ := by
  unfold encodeResult at h
  simp only [bind_eq_ok_iff] at h
  obtain ⟨_,_,_,_,h⟩ := h
  rw [if_neg (by decide)] at h
  simp only [bind_eq_ok_iff,demand_eq_ok_iff] at h
  obtain ⟨data,hdata,_,_,h⟩ := h
  cases h
  exact ⟨data,hdata,rfl⟩

theorem deliver_encrypted {output bytes : Bytes} {tagLen : ℕ}
    (hdone : done = ⟨some output,false,tagLen⟩) (h : (deliver env uv .encrypt isText done).result = .ok crypted)
    (hresult : crypted.result = some bytes) :
    Sent uv isText output bytes ∧ crypted.isText = isText ∧ crypted.tag = none := by
  subst hdone
  cases isText with
  | true =>
    obtain ⟨data,hdata,rfl⟩ := encodeResult_text h
    cases hresult
    exact ⟨⟨_,hdata⟩,rfl,rfl⟩
  | false =>
    cases h
    cases hresult
    exact ⟨rfl,rfl,rfl⟩

theorem deliver_output {bytes : Bytes}
    (hauth : done.isAuth = false) (h : (deliver env uv .encrypt isText done).result = .ok crypted)
    (hresult : crypted.result = some bytes) : done.output ≠ none := by
  intro houtput
  cases isText with
  | true =>
    simp only [deliver,houtput,hauth] at h
    obtain ⟨data,hdata,_⟩ := encodeResult_text h
    exact (base64Encode_eq_some hdata).1 rfl
  | false =>
    simp only [deliver,houtput,hauth] at h
    rw [if_neg (by decide)] at h
    cases h
    cases hresult

theorem deliver_authenticated {data tag bytes : Bytes} (hdone : done = ⟨some (data ++ tag),true,tag.length⟩)
    (h : (deliver env uv .encrypt isText done).result = .ok crypted) (hresult : crypted.result = some bytes) :
    Sent uv isText data bytes ∧ crypted.isText = isText ∧ ∃ t, crypted.tag = some t ∧ Sent uv isText tag t := by
  subst hdone
  have hlength : (data ++ tag).length - tag.length = data.length := by
    rw [List.length_append]
    omega
  cases isText with
  | true =>
    simp only [deliver,encodeResult,bind_eq_ok_iff] at h
    obtain ⟨_,_,_,_,h⟩ := h
    rw [if_pos trivial] at h
    simp only [bind_eq_ok_iff,demand_eq_ok_iff,Option.getD_some,hlength,List.take_left,List.drop_left] at h
    obtain ⟨_,_,encoded,hencoded,_,_,_,_,_,_,t,ht,_,_,h⟩ := h
    cases h
    cases hresult
    exact ⟨⟨_,hencoded⟩,rfl,t,rfl,⟨_,ht⟩⟩
  | false =>
    simp only [deliver,if_true,bind_eq_ok_iff,Option.getD_some,hlength,List.take_left,List.drop_left] at h
    obtain ⟨_,_,h⟩ := h
    cases h
    cases hresult
    exact ⟨rfl,rfl,tag,rfl,rfl⟩

theorem deliver_decrypted {data : Bytes} (hdone : done.output = some data)
    (htext : isText = true → isValidUtf8 0 data = true) :
    (deliver env uv .decrypt isText done).result = .ok ⟨some data,false,isText,none⟩ := by
  cases isText with
  | true =>
    simp only [deliver,hdone,bind_eq_ok_iff,demand_eq_ok_iff,require_eq_ok_iff]
    exact ⟨data,rfl,(),rfl,(),htext rfl,rfl⟩
  | false =>
    simp only [deliver,hdone]
    rfl

def withReturned (options : Option MixinCryptOption) : Option CryptoValue → Option MixinCryptOption
  | some tag => options.map (fun opts => MixinCryptOption.withTag opts tag)
  | none => options

theorem operateAes_eq_ok_iff : (operateAes env uv op options key buff).result = .ok done ↔
      ∃ setup, (prepareAes env uv options key).result = .ok setup ∧
        (if AesMode.isCcm setup.mode then operateCcm env uv op setup key buff
          else operateBlocks env uv op setup key buff).result = .ok done := by
  unfold operateAes
  rw [bind_eq_ok_iff]

theorem operateAes_inverse (hinverse : uv.Inverse pair) (hplenty : ∀ b, env'.allocates b = true)
    {key bytes : Bytes} {buff : CryptoBuff}
    (hbuff : buff.bytes ≠ []) (h : (operateAes env uv .encrypt options key buff.bytes).result = .ok done)
    (hdeliver : (deliver env uv .encrypt buff.isText done).result = .ok crypted)
    (hresult : crypted.result = some bytes) :
    crypted.isText = buff.isText ∧ ∃ raw, Sent uv buff.isText raw bytes ∧ raw ≠ [] ∧ ∃ done',
      (operateAes env' uv .decrypt
        (withReturned options (crypted.tag.map (fun tag => .fromBuff tag crypted.isText))) key raw).result =
        .ok done' ∧ done'.output = some buff.bytes := by
  rw [operateAes_eq_ok_iff] at h
  obtain ⟨setup,hsetup,h⟩ := h
  have hpositive := List.length_pos_iff.mpr hbuff
  by_cases hccm : AesMode.isCcm setup.mode = true
  · rw [if_pos hccm] at h
    obtain ⟨data,tag,hdone,hlength,htag,hback⟩ := operateCcm_inverse hinverse hplenty h
    obtain ⟨hsent,htext,t,ht,hsentTag⟩ := deliver_authenticated hdone hdeliver hresult
    have htranslate : (translate env' uv .tagInput (.fromBuff t buff.isText)).result = .ok tag :=
      translate_eq_ok_iff.mpr ⟨_,takes_sent hinverse hplenty hsentTag htag .tagInput (fun _ => rfl)⟩
    refine ⟨htext,data,hsent,List.length_pos_iff.mp (hlength ▸ hpositive),⟨some buff.bytes,true,tag.length⟩,?_,rfl⟩
    rw [ht,htext,operateAes_eq_ok_iff]
    refine ⟨_,prepareAes_withTag hplenty hsetup hccm htranslate,?_⟩
    rw [if_pos hccm]
    exact hback
  · rw [if_neg hccm] at h
    obtain ⟨output,hdone,hlength,hback⟩ := operateBlocks_inverse hinverse hplenty (prepareAes_ivOffset hsetup) h
    obtain ⟨hsent,htext,ht⟩ := deliver_encrypted hdone hdeliver hresult
    refine ⟨htext,output,hsent,List.length_pos_iff.mp (by omega),⟨some buff.bytes,false,setup.internal.tagLen⟩,?_,
      rfl⟩
    rw [ht,operateAes_eq_ok_iff]
    refine ⟨setup,prepareAes_of_plenty hplenty hsetup,?_⟩
    rw [if_neg hccm]
    exact hback

theorem operateRsa_delivered (hinverse : uv.Inverse pair) (hplenty : ∀ b, env'.allocates b = true)
    {key key' bytes : Bytes} {buff : CryptoBuff}
    (hpair : pair key.cstring key'.cstring) (hbuff : buff.bytes ≠ [])
    (h : (operateRsa env uv .encrypt options key buff.bytes).result = .ok done)
    (hdeliver : (deliver env uv .encrypt buff.isText done).result = .ok crypted)
    (hresult : crypted.result = some bytes) :
    crypted.isText = buff.isText ∧ ∃ raw, Sent uv buff.isText raw bytes ∧ raw ≠ [] ∧ ∃ done',
      (operateRsa env' uv .decrypt
        (withReturned options (crypted.tag.map (fun tag => .fromBuff tag crypted.isText))) key' raw).result =
        .ok done' ∧ done'.output = some buff.bytes := by
  cases houtput : done.output with
  | some output =>
    obtain ⟨hdone,hraw,hback⟩ := operateRsa_inverse hinverse hplenty hpair hbuff h houtput
    obtain ⟨hsent,htext,ht⟩ := deliver_encrypted hdone hdeliver hresult
    refine ⟨htext,output,hsent,hraw,⟨some buff.bytes,false,0⟩,?_,rfl⟩
    rw [ht]
    exact hback
  | none =>
    exact absurd houtput (deliver_output (operateRsa_isAuth h) hdeliver hresult)

theorem operate_eq_ok_iff {top : TopOptions} : (operate env uv op options top).result = .ok crypted ↔
      ∃ done, (match top.algo with
        | .rsa => operateRsa env uv op options top.key top.buff.bytes
        | .aes => operateAes env uv op options top.key top.buff.bytes).result = .ok done ∧
        (deliver env uv op top.buff.isText done).result = .ok crypted := by
  unfold operate
  refine bind_eq_ok_iff.trans ?_
  cases top.algo <;> rfl

def Undoes (pair : Bytes → Bytes → Prop) : AlgoType → Bytes → Bytes → Prop
  | .aes,key,key' => key' = key
  | .rsa,key,key' => pair key.cstring key'.cstring

theorem operate_inverse (hinverse : uv.Inverse pair) (hplenty : ∀ b, env'.allocates b = true)
    {top : TopOptions} {key' bytes : Bytes}
    (hkey : Undoes pair top.algo top.key key') (hbuff : top.buff.bytes ≠ [])
    (htext : top.buff.isText = true → isValidUtf8 0 top.buff.bytes = true)
    (h : (operate env uv .encrypt options top).result = .ok crypted) (hresult : crypted.result = some bytes) :
    crypted.isText = top.buff.isText ∧ ∃ raw, Sent uv top.buff.isText raw bytes ∧ raw ≠ [] ∧ (operate env' uv .decrypt
        (withReturned options (crypted.tag.map (fun tag => .fromBuff tag crypted.isText)))
        ⟨top.algo,key',⟨raw,top.buff.isText⟩⟩).result = .ok ⟨some top.buff.bytes,false,top.buff.isText,none⟩ := by
  rw [operate_eq_ok_iff] at h
  obtain ⟨done,hdone,hdeliver⟩ := h
  cases halgo : top.algo with
  | aes =>
    simp only [halgo] at hdone hkey
    obtain rfl : key' = top.key := hkey
    obtain ⟨hisText,raw,hsent,hraw,done',hdone',houtput⟩ :=
      operateAes_inverse hinverse hplenty hbuff hdone hdeliver hresult
    exact ⟨hisText,raw,hsent,hraw,operate_eq_ok_iff.mpr ⟨done',hdone',deliver_decrypted houtput htext⟩⟩
  | rsa =>
    simp only [halgo] at hdone hkey
    obtain ⟨hisText,raw,hsent,hraw,done',hdone',houtput⟩ :=
      operateRsa_delivered hinverse hplenty hkey hbuff hdone hdeliver hresult
    exact ⟨hisText,raw,hsent,hraw,operate_eq_ok_iff.mpr ⟨done',hdone',deliver_decrypted houtput htext⟩⟩

variable {tag : Option CryptoValue} {value : CryptoValue}

theorem success_mem_answer {fail complete : Bool} {outcome : Option CryptoAction} {msg : String} {code : ℕ} :
    .inr (.success value tag) ∈ answer fail complete outcome msg code ↔ outcome = some (.success value tag) := by
  unfold answer
  cases outcome with
  | none => cases fail <;> cases complete <;> simp
  | some outcome => cases complete <;> simp [eq_comm]

variable {param : CryptParam}

theorem success_mem_crypt : .inr (.success value tag) ∈ crypt env uv op (some param) ↔
      ∃ crypted, (operationHandle env uv op param).result = .ok crypted ∧
        success param crypted = some (.success value tag) := by
  have hevents : .inr (.success value tag) ∉ (operationHandle env uv op param).events :=
    fun h => nomatch operationHandle_actions op param h
  have hfree (b : CryptoBuffer) (c : Prop) [Decidable c] :
      .inr (.success value tag) ∉ (if c then [.inl (.free b)] else [] : List CryptoEvent) := by
    split_ifs <;> simp
  unfold crypt
  rw [List.mem_append,or_iff_right hevents]
  unfold report
  cases (operationHandle env uv op param).result with
  | error e =>
    cases e with
    | undefined => simp
    | refused msg code =>
      rw [success_mem_answer]
      simp
  | ok crypted =>
    dsimp only
    rw [List.mem_append,List.mem_append,success_mem_answer,or_iff_left (hfree _ _),or_iff_left (hfree _ _)]
    simp

theorem success_eq_some_iff : success param crypted = some (.success value tag) ↔
      param.success = true ∧ ∃ bytes, crypted.result = some bytes ∧ value = .fromBuff bytes crypted.isText ∧
        tag = crypted.tag.map (fun tag => .fromBuff tag crypted.isText) := by
  unfold success
  by_cases hsuccess : param.success = true
  · rw [if_pos hsuccess]
    cases crypted.result with
    | none => simp
    | some bytes => simp [hsuccess,eq_comm]
  · rw [if_neg hsuccess]
    simp [hsuccess]

theorem operationHandle_eq_ok_iff : (operationHandle env uv op param).result = .ok crypted ↔
      ∃ top, (parseTopOptions env uv op param).result = .ok top ∧
        (operate env uv op param.options top).result = .ok crypted := by
  unfold operationHandle
  rw [bind_eq_ok_iff]
  simp only [result_after]

theorem takes_plain_iff {b : CryptoBuffer} {encoded : CryptoBuff → Bool} (hplain : ∀ buff, encoded buff = false)
    {value : Option CryptoValue} {taken : CryptoBuff} :
    takes env uv b encoded value = some taken ↔
      value.bind CryptoValue.getBuff = some taken ∧ taken.bytes ≠ [] ∧ env.allocates b = true := by
  unfold takes
  cases value.bind CryptoValue.getBuff with
  | none => simp
  | some buff =>
    dsimp only
    rw [hplain]
    by_cases hempty : buff.bytes = [] ∨ env.allocates b = false
    · rw [if_pos hempty]
      refine iff_of_false nofun ?_
      rintro ⟨h,hbytes,hmemory⟩
      cases h
      exact hempty.elim hbytes (by simp [hmemory])
    · rw [if_neg hempty,if_neg Bool.false_ne_true]
      constructor
      · intro h
        cases h
        exact ⟨rfl,fun h => hempty (.inl h),by simpa using fun h => hempty (.inr h)⟩
      · exact fun h => h.1

theorem wellFormed_getBuff {data : CryptoValue} {buff : CryptoBuff} (hdata : data.WellFormed)
    (h : data.getBuff = some buff) :
    (.fromBuff buff.bytes buff.isText = data.covered ↔ data.Whole) ∧
      (buff.isText = true → isValidUtf8 0 buff.bytes = true) := by
  cases data with
  | text bytes =>
    obtain ⟨hzero,chars,hchars⟩ := hdata
    cases h
    dsimp only
    rw [cstring_of_notMem hzero]
    refine ⟨iff_of_true (congrArg CryptoValue.text (cstring_of_notMem hzero)) trivial,fun _ => ?_⟩
    rw [hchars]
    exact isValidUtf8_flatMap chars
  | buffer bytes =>
    cases h
    exact ⟨iff_of_true rfl trivial,nofun⟩
  | view v =>
    cases h
    refine ⟨?_,nofun⟩
    rw [CryptoValue.Whole,← BufferView.covered_eq_buffer_iff,eq_comm]
    exact CryptoValue.buffer.injEq _ _ ▸ Iff.rfl
  | other => cases h

def DecryptionKey (pair : Bytes → Bytes → Prop) (param : CryptParam) (key' : Option CryptoValue) : Prop :=
  match parseAlgo param.algo with
  | some .rsa => ∃ pub ∈ param.key.bind CryptoValue.getBuff, ∃ priv ∈ key'.bind CryptoValue.getBuff,
      priv.bytes ≠ [] ∧ pair pub.bytes.cstring priv.bytes.cstring
  | _ => key' = param.key

def decryption (param : CryptParam) (key' : Option CryptoValue) (value : CryptoValue) (tag : Option CryptoValue)
    (fail complete : Bool) : CryptParam where
  data := some value
  algo := param.algo
  key := key'
  options := withReturned param.options tag
  success := true
  fail := fail
  complete := complete

theorem takes_decryptionKey (hplenty : ∀ b, env'.allocates b = true) {algo : AlgoType}
    {key' : Option CryptoValue} {key : Bytes} (halgo : parseAlgo param.algo = some algo)
    (hkey' : DecryptionKey pair param key')
    (hkey : takes env uv .key (fun key => algo = .aes && key.isText) param.key = some ⟨key,isText⟩) :
    ∃ bytes isText', takes env' uv .key (fun key => algo = .aes && key.isText) key' = some ⟨bytes,isText'⟩ ∧
      Undoes pair algo key bytes := by
  unfold DecryptionKey at hkey'
  rw [halgo] at hkey'
  cases algo with
  | aes =>
    obtain rfl : key' = param.key := hkey'
    exact ⟨key,isText,takes_of_plenty hplenty hkey,rfl⟩
  | rsa =>
    obtain ⟨pub,hpub,priv,hpriv,hempty,hpair⟩ := hkey'
    have hkey := ((takes_plain_iff (fun _ => rfl)).mp hkey).1
    obtain rfl := Option.some.inj (hpub.symm.trans hkey)
    exact ⟨priv.bytes,priv.isText,(takes_plain_iff (fun _ => rfl)).mpr ⟨hpriv,hempty,hplenty _⟩,hpair⟩

/-- Decryption gives back what a successful encryption has taken, exactly if that is not a part of a buffer. -/
theorem decrypt_encrypted_iff (hinverse : uv.Inverse pair) (hplenty : ∀ b, env'.allocates b = true)
    {key' : Option CryptoValue} {data value : CryptoValue} (fail complete : Bool)
    (hkey' : DecryptionKey pair param key') (hdata : param.data = some data) (hformed : data.WellFormed)
    (h : .inr (.success value tag) ∈ crypt env uv .encrypt (some param)) :
    .inr (.success data.covered none) ∈
      crypt env' uv .decrypt (some (decryption param key' value tag fail complete)) ↔ data.Whole := by
  obtain ⟨crypted,hhandle,hsuccess⟩ := success_mem_crypt.mp h
  obtain ⟨top,htop,hoperate⟩ := operationHandle_eq_ok_iff.mp hhandle
  obtain ⟨_,bytes,hresult,rfl,rfl⟩ := success_eq_some_iff.mp hsuccess
  obtain ⟨halgo,⟨isText,hkey⟩,hbuff⟩ := parseTopOptions_eq_ok_iff.mp htop
  obtain ⟨hgetBuff,hempty,_⟩ := (takes_plain_iff (fun _ => Bool.and_false _)).mp hbuff
  rw [hdata] at hgetBuff
  obtain ⟨hcovered,htext⟩ := wellFormed_getBuff hformed hgetBuff
  obtain ⟨key,isText',hkey,hundoes⟩ := takes_decryptionKey hplenty halgo hkey' hkey
  obtain ⟨hisText,raw,hsent,hraw,hback⟩ := operate_inverse hinverse hplenty hundoes hempty htext hoperate hresult
  have hhandle' : (operationHandle env' uv .decrypt (decryption param key' (.fromBuff bytes crypted.isText)
      (crypted.tag.map (fun tag => .fromBuff tag crypted.isText)) fail complete)).result =
      .ok ⟨some top.buff.bytes,false,top.buff.isText,none⟩ := by
    refine operationHandle_eq_ok_iff.mpr ⟨_,?_,hback⟩
    refine parseTopOptions_eq_ok_iff.mpr ⟨halgo,⟨isText',hkey⟩,?_⟩
    rw [hisText]
    exact takes_sent hinverse hplenty hsent hraw .buff (fun _ => Bool.and_true _)
  rw [success_mem_crypt,← hcovered,hhandle']
  constructor
  · rintro ⟨_,hok,hsuccess⟩
    cases hok
    obtain ⟨_,_,hbytes,hvalue,_⟩ := success_eq_some_iff.mp hsuccess
    cases hbytes
    exact hvalue.symm
  · exact fun h => ⟨_,rfl,success_eq_some_iff.mpr ⟨rfl,_,rfl,h.symm,rfl⟩⟩

theorem parseIv_some {opts : MixinCryptOption} {isAuth : Bool} {key encoded iv : Bytes}
    (hiv : checkStr opts.iv = some encoded) (h : (parseIv env uv opts isAuth key).result = .ok iv) :
    base64Decode uv encoded (decodedLength encoded) = some iv := by
  unfold parseIv at h
  rw [hiv] at h
  simp only [bind_eq_ok_iff,demand_eq_ok_iff] at h
  obtain ⟨_,_,_,_,_,_,_,_,iv',hdecode,_,_,_,_,h⟩ := h
  cases h
  exact hdecode

theorem parseIv_none {opts : MixinCryptOption} {isAuth : Bool} {key iv : Bytes} (hiv : checkStr opts.iv = none)
    (h : (parseIv env uv opts isAuth key).result = .ok iv) : ∃ n, n ≤ key.length ∧ iv = key.take n := by
  unfold parseIv at h
  rw [hiv] at h
  simp only [bind_eq_ok_iff,require_eq_ok_iff] at h
  obtain ⟨_,_,_,_,_,hlength,_,_,_,_,_,_,h⟩ := h
  cases h
  exact ⟨_,hlength,rfl⟩

theorem base64Decode_mono {input bytes : Bytes} {size size' : ℕ} (hsize : size ≤ size')
    (h : base64Decode uv input size = some bytes) : base64Decode uv input size' = some bytes := by
  unfold base64Decode at h ⊢
  split_ifs at h with hempty
  rw [if_neg (fun hor : input = [] ∨ size' = 0 => hempty (hor.imp_right (fun h => by omega)))]
  obtain ⟨hdecode,hlength⟩ := Option.filter_eq_some_iff.mp h
  exact Option.filter_eq_some_iff.mpr ⟨hdecode,decide_eq_true ((of_decide_eq_true hlength).trans hsize)⟩

theorem decodedLength_le (encoded : Bytes) : decodedLength encoded ≤ encoded.length := by
  unfold decodedLength
  omega

end Inverse
end Crypto
end FeatureRuntime
