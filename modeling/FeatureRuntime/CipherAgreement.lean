import FeatureRuntime.CipherBuffers
import FeatureRuntime.CryptoRoundTrip

/-! Where `aes` of `system.cipher` encrypts as `encrypt` of `system.crypto` does. -/
namespace FeatureRuntime

open Traced

namespace Cipher

open Crypto

section SameCiphertext

variable {env env' : CryptoMemory} {uv : UvCrypto}

/-- The transformation whose ciphertexts `aes` of `system.cipher` gives as well. -/
def cbcTransformation : CString := "AES/CBC/PKCS5Padding".toList

theorem chooseMode_cbc {key : Bytes} {mode : AesMode} {padding : PaddingType}
    (hkey : key.length = 16 ∨ key.length = 32)
    (h : (chooseMode (some cbcTransformation) key.length).result = .ok (mode,padding)) :
    cbcMode key.length = some mode ∧ padding = .pkcs7Padding ∧ (mode = .cbc128 ∨ mode = .cbc256) := by
  obtain hkey | hkey := hkey
  · have hmode : (chooseMode (some cbcTransformation) 16).result = .ok (.cbc128,.pkcs7Padding) := by rfl
    rw [hkey,hmode] at h
    cases h
    exact ⟨by rw [hkey]; rfl,rfl,.inl rfl⟩
  · have hmode : (chooseMode (some cbcTransformation) 32).result = .ok (.cbc256,.pkcs7Padding) := by rfl
    rw [hkey,hmode] at h
    cases h
    exact ⟨by rw [hkey]; rfl,rfl,.inr rfl⟩

variable {opts : AesParam}

theorem ivSource_same (hplenty : ∀ b, env'.allocates b = true) {mixin : MixinCryptOption}
    (args : AesArguments) {isAuth : Bool} {iv : Bytes} (hiv : opts.iv = mixin.iv)
    (hivLen : opts.ivLen = 0 ∨ opts.ivLen = 16) (hsize : args.key.length ≤ args.keySize)
    (hparse : (parseIv env uv mixin isAuth args.key).result = .ok iv) (hlength : iv.length = 16) :
    ∃ source, ivSource env' uv opts args = some source ∧ ivLength opts source = 16 ∧ 16 ≤ source.size ∧
      readFrom (env'.residue source.buffer) source.content 0 16 = iv := by
  cases hencoded : checkStr mixin.iv with
  | some encoded =>
    have hdecode := parseIv_some hencoded hparse
    have hle := base64Decode_length uv hdecode
    have hshort := decodedLength_le encoded
    refine ⟨⟨.iv,encoded.length,iv⟩,?_,?_,by change 16 ≤ encoded.length; omega,?_⟩
    · unfold ivSource
      rw [hiv,hencoded]
      dsimp only
      rw [if_pos (hplenty _),base64Decode_mono hshort hdecode]
      rfl
    · unfold ivLength
      obtain h | h := hivLen
      · simp [h,hlength]
      · simp [h]
    · rw [← hlength,readFrom_all]
  | none =>
    obtain ⟨n,hn,rfl⟩ := parseIv_none hencoded hparse
    rw [List.length_take] at hlength
    have hkey : 16 ≤ args.key.length := by omega
    refine ⟨⟨.key,args.keySize,args.key⟩,?_,?_,hkey.trans hsize,?_⟩
    · unfold ivSource
      rw [hiv,hencoded]
    · unfold ivLength
      obtain h | h := hivLen
      · simp [h]
      · simp [h]
    · rw [readFrom_take _ hkey]
      congr 1
      omega

theorem success_notMem_body (opts : AesParam) (value : CryptoValue) (tag : Option CryptoValue) :
    .inr (.success value tag) ∉ (body env uv opts).events := by
  have hordinary : ¬ Ordinary (.inr (.success value tag)) := by simp [Ordinary]
  intro h
  unfold body at h
  cases hargs : (arguments env uv opts).result with
  | error e =>
    rw [bind_error hargs] at h
    exact hordinary ((arguments_ordinary opts).events _ h)
  | ok args =>
    rw [bind_ok hargs] at h
    obtain h | h := List.mem_append.mp h
    · exact hordinary ((arguments_ordinary opts).events _ h)
    · obtain h | h | h := (transform_step opts args).events _ h
      · exact hordinary h
      · cases h
      · cases h.1

theorem success_notMem_exitFrees (opts : AesParam) (events : List CryptoEvent) (value : CryptoValue)
    (tag : Option CryptoValue) : .inr (.success value tag) ∉ exitFrees opts events := by
  have hrelease (owned : List CryptoBuffer) : .inr (.success value tag) ∉ release owned events := by
    unfold release
    intro h
    obtain ⟨b,_,hb⟩ := List.mem_map.mp h
    cases hb
  unfold exitFrees
  rw [List.mem_append,or_iff_right (hrelease _)]
  split_ifs
  · rw [List.mem_append,or_iff_right (hrelease _),List.mem_singleton]
    nofun
  · rw [List.mem_append,or_iff_right (hrelease _)]
    exact List.not_mem_nil
  · exact List.not_mem_nil

theorem success_mem_aes {value : CryptoValue} {tag : Option CryptoValue} :
    .inr (.success value tag) ∈ aes env uv opts ↔
      opts.success = true ∧ tag = none ∧ ∃ result, (body env uv opts).result = .ok result ∧
        value = .text result.text := by
  unfold aes
  rw [List.mem_append,or_iff_right (success_notMem_body opts value tag)]
  cases (body env uv opts).result with
  | error e =>
    cases e with
    | undefined => simp [exit]
    | refused msg code =>
      unfold exit
      rw [List.mem_append,success_mem_answer,or_iff_left (success_notMem_exitFrees opts _ value tag)]
      simp
  | ok result =>
    unfold exit
    rw [List.mem_append,success_mem_answer,or_iff_left (success_notMem_exitFrees opts _ value tag)]
    by_cases hsuccess : opts.success = true
    · rw [if_pos hsuccess]
      simp [hsuccess,eq_comm,and_comm]
    · rw [if_neg hsuccess]
      simp [hsuccess]

/-- A call of `aes` for the same text, key and iv as one of `encrypt`. -/
structure SameArguments (param : CryptParam) (text key : Bytes) (opts : AesParam) : Prop where
  algo : parseAlgo param.algo = some .aes
  data : param.data = some (.text text) ∧ opts.text = some text ∧ 0 ∉ text
  keys : param.key = some (.text key) ∧ opts.key = some key ∧ 0 ∉ key
  options : ∃ mixin, param.options = some mixin ∧ mixin.transformation = some cbcTransformation ∧
    opts.iv = mixin.iv ∧ opts.ivOffset = mixin.ivOffset
  action : opts.action = some "encrypt".toList
  ivLen : opts.ivLen = 0 ∨ opts.ivLen = 16
  success : opts.success = true

theorem takes_text {b : CryptoBuffer} {encoded : CryptoBuff → Bool} {bytes : Bytes} {taken : CryptoBuff}
    (hzero : 0 ∉ bytes) (h : takes env uv b encoded (some (.text bytes)) = some taken) :
    bytes ≠ [] ∧ if encoded ⟨bytes,true⟩ then base64Decode uv bytes bytes.length = some taken.bytes ∧ taken.isText = true
      else taken = ⟨bytes,true⟩ := by
  unfold takes at h
  rw [Option.bind_some] at h
  simp only [CryptoValue.getBuff,cstring_of_notMem hzero] at h
  split_ifs at h with hempty hencoded
  · refine ⟨fun h => hempty (.inl h),?_⟩
    rw [if_pos hencoded]
    obtain ⟨decoded,hdecode,rfl⟩ := Option.map_eq_some_iff.mp h
    exact ⟨hdecode,rfl⟩
  · refine ⟨fun h => hempty (.inl h),?_⟩
    rw [if_neg hencoded]
    exact (Option.some.inj h).symm

theorem checkStr_of_ne_nil {α : Type} {s : List α} (h : s ≠ []) : checkStr (some s) = some s :=
  Option.filter_some_pos (by simp [h])

variable {param : CryptParam} {text key : Bytes}

/-- The arguments of `aes` where `encrypt` has accepted the same ones. -/
theorem accepts_of_same (hplenty : ∀ b, env'.allocates b = true)
    (hsame : SameArguments param text key opts) {top : TopOptions}
    (htop : (parseTopOptions env uv .encrypt param).result = .ok top) :
    top.algo = .aes ∧ top.buff = ⟨text,true⟩ ∧ base64Decode uv key key.length = some top.key ∧
      ∀ mode, cbcMode top.key.length = some mode → Accepts env' uv opts ⟨.encrypt,text,top.key,key.length,mode⟩ := by
  obtain ⟨halgo,⟨isText,hkey⟩,hbuff⟩ := parseTopOptions_eq_ok_iff.mp htop
  obtain ⟨hdata,htext,hzero⟩ := hsame.data
  obtain ⟨hkeys,hencoded,hzero'⟩ := hsame.keys
  rw [hsame.algo] at halgo
  rw [← Option.some.inj halgo,hkeys] at hkey
  rw [hdata] at hbuff
  obtain ⟨hne,hbuff⟩ := takes_text hzero hbuff
  obtain ⟨hne',hkey⟩ := takes_text hzero' hkey
  rw [if_neg (by simp)] at hbuff
  rw [if_pos (by simp)] at hkey
  refine ⟨(Option.some.inj halgo).symm,hbuff,hkey.1,fun mode hmode => ?_⟩
  constructor
  · rw [hsame.action]
    rfl
  · exact ⟨text,by rw [htext,checkStr_of_ne_nil hne],rfl⟩
  · exact ⟨key,by rw [hencoded,checkStr_of_ne_nil hne'],hplenty _,hkey.1,rfl⟩
  · exact hmode

theorem encodeOutput_of_plenty (hplenty : ∀ b, env'.allocates b = true) {output data : Bytes}
    (h : base64Encode uv output (base64EncodedLength output.length + 1) = some data) :
    (encodeOutput env' uv opts output).result = .ok ⟨data,"",0⟩ := by
  unfold encodeOutput
  simp only [bind_eq_ok_iff,malloc_eq_ok_iff,h]
  exact ⟨(),hplenty _,(),rfl,(),rfl,rfl⟩

variable {pair : Bytes → Bytes → Prop}

/-- The ciphertext of `encrypt` is also that of `aes` for the keys that `aes` takes. -/
theorem aes_same (hinverse : uv.Inverse pair) (hplenty : ∀ b, env'.allocates b = true)
    (hsame : SameArguments param text key opts) {top : TopOptions}
    {crypted : Crypted} (htop : (parseTopOptions env uv .encrypt param).result = .ok top)
    (hkey : top.key.length = 16 ∨ top.key.length = 32)
    (h : (operate env uv .encrypt param.options top).result = .ok crypted) :
    ∃ data, crypted = ⟨some data,true,true,none⟩ ∧ 0 ∉ data ∧ (body env' uv opts).result = .ok ⟨data,"",0⟩ := by
  obtain ⟨halgo,hbuff,hdecode,haccepts⟩ := accepts_of_same hplenty hsame htop
  obtain ⟨mixin,hoptions,htransformation,hiv,hivOffset⟩ := hsame.options
  obtain ⟨done,hdone,hdeliver⟩ := operate_eq_ok_iff.mp h
  simp only [halgo,hbuff,hoptions] at hdone
  obtain ⟨setup,hsetup,hdone⟩ := operateAes_eq_ok_iff.mp hdone
  obtain ⟨hmode,hinternal⟩ := prepareAes_some_iff.mp hsetup
  rw [htransformation] at hmode
  obtain ⟨hcbcMode,hpadding,hcbc⟩ := chooseMode_cbc hkey hmode
  have hccm : ¬ AesMode.isCcm setup.mode = true := by
    obtain h | h := hcbc <;> (rw [h]; decide)
  rw [if_neg hccm] at hdone
  have hparsed := (parseInternalOptions_eq_ok_iff.mp hinternal).1
  unfold operateBlocks at hdone
  simp only [bind_eq_ok_iff,allocateOutput_eq_ok_iff,aesNonAuthCrypto_eq_ok_iff,aesOutcome,hparsed.ivOffset,
    Int.toNat_zero,Int.toNat_natCast,readFrom_all] at hdone
  obtain ⟨_,⟨hsize,_,rfl⟩,output,⟨_,hwritten,hresult,_⟩,hdone⟩ := hdone
  cases hdone
  rw [hbuff] at hdeliver
  obtain ⟨data,hdata,rfl⟩ := encodeResult_text hdeliver
  refine ⟨data,rfl,(hinverse.base64 _ _ (base64Encode_eq_some hdata).2).2.2,?_⟩
  have hlength := hinverse.aes_iv _ _ _ _ _ hcbc (Option.isSome_of_mem hresult)
  obtain ⟨source,hsource,hlen,hfits,hread⟩ := ivSource_same hplenty
    ⟨.encrypt,text,top.key,key.length,setup.mode⟩ hiv hsame.ivLen (base64Decode_length uv hdecode) hparsed.iv hlength
  have hivOffset : opts.ivOffset = 0 := hivOffset.trans hparsed.offset
  unfold body
  rw [bind_eq_ok_iff]
  refine ⟨_,arguments_eq_ok_iff.mpr (haccepts _ hcbcMode),?_⟩
  unfold transform
  simp only [bind_eq_ok_iff,chooseIv_eq_ok_iff,roundUp_eq_ok_iff,malloc_eq_ok_iff,aesNonAuthCrypto_eq_ok_iff,
    aesOutcome,hivOffset,Int.toNat_zero]
  rw [hpadding] at hwritten hresult
  have hsixteen : (16 : ℤ).toNat = 16 := rfl
  refine ⟨source,hsource,_,⟨hsize,rfl⟩,(),hplenty _,output,⟨?_,?_,?_,by simp⟩,encodeOutput_of_plenty hplenty hdata⟩
  · rw [hlen]
    omega
  · rw [hlen,hsixteen,hread]
    exact hwritten
  · rw [hlen,hsixteen,hread]
    exact hresult

theorem base64Decode_eq_some {input bytes : Bytes} {size : ℕ} (h : base64Decode uv input size = some bytes) :
    uv.base64Decode input = some bytes := by
  unfold base64Decode at h
  split_ifs at h
  exact (Option.filter_eq_some_iff.mp h).1

/-- `aes` gives the ciphertext of `encrypt` if and only if it takes keys of that size. -/
theorem success_mem_same (hinverse : uv.Inverse pair) (hplenty : ∀ b, env'.allocates b = true)
    {value : CryptoValue} {tag : Option CryptoValue}
    (hsame : SameArguments param text key opts)
    (h : .inr (.success value tag) ∈ crypt env uv .encrypt (some param)) :
    .inr (.success value none) ∈ aes env' uv opts ↔
      ∀ bytes ∈ uv.base64Decode key, bytes.length = 16 ∨ bytes.length = 32 := by
  obtain ⟨crypted,hhandle,hsuccess⟩ := success_mem_crypt.mp h
  obtain ⟨top,htop,hoperate⟩ := operationHandle_eq_ok_iff.mp hhandle
  obtain ⟨_,bytes,hresult,rfl,_⟩ := success_eq_some_iff.mp hsuccess
  rw [success_mem_aes]
  constructor
  · rintro ⟨_,_,result,hbody,_⟩ bytes' hbytes'
    unfold body at hbody
    obtain ⟨args,hargs,_⟩ := bind_eq_ok_iff.mp hbody
    have haccepts := arguments_eq_ok_iff.mp hargs
    obtain ⟨encoded,hencoded,_,hdecode,_⟩ := haccepts.key
    rw [hsame.keys.2.1] at hencoded
    obtain rfl := Option.some.inj (Option.filter_eq_some_iff.mp hencoded).1
    rw [base64Decode_eq_some hdecode] at hbytes'
    cases hbytes'
    exact cbcMode_size haccepts.mode
  · intro hsize
    have hdecode := (accepts_of_same hplenty hsame htop).2.2.1
    obtain ⟨data,hcrypted,hzero,hbody⟩ :=
      aes_same hinverse hplenty hsame htop (hsize _ (base64Decode_eq_some hdecode)) hoperate
    refine ⟨hsame.success,rfl,_,hbody,?_⟩
    rw [hcrypted] at hresult ⊢
    cases hresult
    exact congrArg CryptoValue.text (cstring_of_notMem hzero)

end SameCiphertext
end Cipher
section Sample

theorem mem_of_any {events : List CryptoEvent} {event : CryptoEvent} (h : events.any (fun e => e = event) = true) :
    event ∈ events := by
  simpa using h

theorem knownCiphertext_head {mode : AesMode} {key iv data output : Bytes}
    (h : knownCiphertext mode key iv data = some output) : output.head? ≠ some 33 := by
  unfold knownCiphertext at h
  split_ifs at h
  obtain ⟨row,hrow,rfl⟩ := Option.map_eq_some_iff.mp h
  have hhead : ∀ row ∈ knownAes, row.2.2.head? ≠ some 33 := by decide
  exact hhead row (List.mem_of_find?_eq_some hrow)

theorem sampleAes_inverse {mode : AesMode} {key iv data output : Bytes}
    (h : sampleAes mode key iv data .encrypt = some output) :
    iv.length = 16 ∧ data.length ≤ output.length ∧ sampleAes mode key iv output .decrypt = some data := by
  simp only [sampleAes] at h
  split_ifs at h with hiv
  refine ⟨hiv,?_⟩
  simp only [sampleAes]
  rw [if_pos hiv]
  cases hknown : knownCiphertext mode key iv data with
  | some known =>
    rw [hknown] at h
    cases h
    obtain ⟨hdata,hlength⟩ := knownCiphertext_length hknown
    have hletter : data = [97] := by
      unfold knownCiphertext at hknown
      split_ifs at hknown with hdata
      exact hdata.2
    subst hletter
    exact ⟨by change 1 ≤ known.length; omega,if_pos hknown⟩
  | none =>
    rw [hknown] at h
    cases h
    refine ⟨Nat.le_succ _,?_⟩
    rw [if_neg (fun hother => knownCiphertext_head hother rfl)]
    rfl

theorem sampleAesAuth_inverse {tagLen : ℕ} {data output : Bytes}
    (h : sampleAesAuth tagLen data .encrypt = some output) :
    tagLen ≠ 0 ∧ output.length = data.length + tagLen ∧ sampleAesAuth tagLen output .decrypt = some data := by
  simp only [sampleAesAuth] at h
  split_ifs at h with htagLen
  cases h
  refine ⟨htagLen,by simp,?_⟩
  simp [sampleAesAuth]

theorem sampleUv_inverse : sampleUv.Inverse (fun _ _ => True) where
  base64 bytes encoded h := by
    cases h
    refine ⟨Base64.decode_encode bytes,?_,Base64.zero_notMem_encode bytes⟩
    rw [Base64.length_encode]
    omega
  rsa pub priv text _ output h _ := by
    cases h
    rfl
  aes mode padding key iv data output h := by
    obtain ⟨_,hlength,hback⟩ := sampleAes_inverse h
    refine ⟨hlength,hback,?_⟩
    change (writing (sampleAes mode key iv output .decrypt)).written ≤ _
    rw [hback]
    exact hlength
  aes_iv mode padding key iv data _ h := by
    obtain ⟨output,houtput⟩ := Option.isSome_iff_exists.mp h
    exact (sampleAes_inverse houtput).1
  aesAuth mode padding key iv aad tagLen data size output h := by
    obtain ⟨htagLen,hlength,hback⟩ := sampleAesAuth_inverse h
    refine ⟨htagLen,hlength,fun size' _ => ⟨hback,?_⟩⟩
    change (writing (sampleAesAuth tagLen output .decrypt)).written ≤ _
    rw [hback]
    change data.length ≤ _
    omega

end Sample

/-- Where memory does not run out, decryption gives back what a successful encryption has taken, exactly if that is not
a part of a buffer, and `aes` of `system.cipher` gives the ciphertext of `encrypt` if and only if the key has sixteen
or thirty-two bytes. -/
theorem encryption_round_trip (env env' : CryptoMemory) (uv : UvCrypto) (pair : Bytes → Bytes → Prop)
    (hinverse : uv.Inverse pair) (hplenty : ∀ b, env'.allocates b = true) :
    (∀ param key' data value tag fail complete, Crypto.DecryptionKey pair param key' → param.data = some data →
      data.WellFormed → .inr (.success value tag) ∈ Crypto.crypt env uv .encrypt (some param) →
      (.inr (.success data.covered none) ∈
        Crypto.crypt env' uv .decrypt (some (Crypto.decryption param key' value tag fail complete)) ↔ data.Whole)) ∧
    ∀ param text key opts value tag, Cipher.SameArguments param text key opts →
      .inr (.success value tag) ∈ Crypto.crypt env uv .encrypt (some param) →
      (.inr (.success value none) ∈ Cipher.aes env' uv opts ↔
        ∀ bytes ∈ uv.base64Decode key, bytes.length = 16 ∨ bytes.length = 32) := by
  constructor
  · intro param key' data value tag fail complete hkey' hdata hformed h
    exact Crypto.decrypt_encrypted_iff hinverse hplenty fail complete hkey' hdata hformed h
  · intro param text key opts value tag hsame h
    exact Cipher.success_mem_same hinverse hplenty hsame h

/-- The known ciphertext of a letter decrypts to the letter. -/
theorem letter_round_trip : .inr (.success (.text [97]) none) ∈ Crypto.crypt plenty sampleUv .decrypt
    (some (Crypto.decryption (sampleEncryption (some (.text (Base64.encode sampleKey))))
      (some (.text (Base64.encode sampleKey)))
      (.text (Base64.encode [70,148,201,180,195,244,145,208,68,40,235,214,151,228,5,129])) none true true)) :=
  ((encryption_round_trip plenty plenty sampleUv (fun _ _ => True) sampleUv_inverse (fun _ => rfl)).1
    (sampleEncryption (some (.text (Base64.encode sampleKey)))) (some (.text (Base64.encode sampleKey)))
    (.text [97]) _ none true true rfl rfl ⟨by decide,['a'],rfl⟩ (by
      apply mem_of_any
      decide +kernel)).mpr trivial

/-- The last two of three bytes. -/
def slicedBytes : BufferView := ⟨[1,2,3],1,2,1,by decide⟩

def slicedEncryption : CryptParam :=
  { sampleEncryption (some (.text (Base64.encode sampleKey))) with data := some (.view slicedBytes) }

/-- What is decrypted is all of the buffer, not the part that was encrypted. -/
theorem slice_not_restored : ¬ ∀ (env env' : CryptoMemory) (uv : UvCrypto) (pair : Bytes → Bytes → Prop),
    uv.Inverse pair → (∀ b, env'.allocates b = true) → ∀ param key' data value tag fail complete,
      Crypto.DecryptionKey pair param key' → param.data = some data → data.WellFormed →
      .inr (.success value tag) ∈ Crypto.crypt env uv .encrypt (some param) →
      .inr (.success data.covered none) ∈
        Crypto.crypt env' uv .decrypt (some (Crypto.decryption param key' value tag fail complete)) := by
  intro h
  have hsuccess : .inr (.success (.buffer [33,1,2,3]) none) ∈
      Crypto.crypt plenty sampleUv .encrypt (some slicedEncryption) := by
    apply mem_of_any
    decide +kernel
  have hmem := h plenty plenty sampleUv _ sampleUv_inverse (fun _ => rfl) slicedEncryption slicedEncryption.key _ _ _
    true true rfl rfl trivial hsuccess
  have hsame : Crypto.DecryptionKey (fun _ _ => True) slicedEncryption slicedEncryption.key := rfl
  have hwhole := (Crypto.decrypt_encrypted_iff sampleUv_inverse (fun _ => rfl) true true hsame rfl trivial hsuccess).mp hmem
  simp [CryptoValue.Whole,BufferView.CoversAll,slicedBytes] at hwhole

end FeatureRuntime
