import FeatureRuntime.AesBuffers

/-! The options of a call of `system.crypto`: what is read of them, also where there is more memory or another tag,
and the check of decrypted text. -/
namespace FeatureRuntime

open Traced

namespace Crypto

section Utf8

theorem bytesNeeded_ofNat {n : ℕ} (hn : n < 256) : bytesNeeded (UInt8.ofNat n) =
    if n ≤ 0x7F then some 0
    else if 0xC0 ≤ n ∧ n ≤ 0xDF then some 1
    else if 0xE0 ≤ n ∧ n ≤ 0xEF then some 2
    else if 0xF0 ≤ n ∧ n ≤ 0xF7 then some 3
    else none := by
  simp [bytesNeeded,UInt8.le_iff_toNat_le,UInt8.toNat_ofNat_of_lt' hn]

theorem isValidUtf8_follow {n due : ℕ} (hlow : 0x80 ≤ n) (hhigh : n ≤ 0xBF) (rest : Bytes) :
    isValidUtf8 (due + 1) (UInt8.ofNat n :: rest) = isValidUtf8 due rest := by
  have hn : n < 256 := by omega
  have hfollow : ¬ (UInt8.ofNat n < 0x80 ∨ UInt8.ofNat n > 0xBF) := by
    simp [UInt8.lt_iff_toNat_lt,UInt8.toNat_ofNat_of_lt' hn]
    omega
  rw [isValidUtf8,if_neg hfollow]

theorem isValidUtf8_first (due : ℕ) {n : ℕ} (h : bytesNeeded (UInt8.ofNat n) = some due) (rest : Bytes) :
    isValidUtf8 0 (UInt8.ofNat n :: rest) = isValidUtf8 due rest := by
  rw [isValidUtf8,h]

theorem isValidUtf8_char (c : Char) (rest : Bytes) :
    isValidUtf8 0 (String.utf8EncodeChar c ++ rest) = isValidUtf8 0 rest := by
  unfold String.utf8EncodeChar
  generalize c.val.toNat = v
  dsimp only
  split_ifs with h1 h2 h3
  · apply isValidUtf8_first
    rw [bytesNeeded_ofNat (by omega),if_pos h1]
  · rw [List.cons_append,isValidUtf8_first 1,List.cons_append,
      isValidUtf8_follow (by omega) (by omega),List.nil_append]
    rw [bytesNeeded_ofNat (by omega),if_neg (by omega),if_pos (by omega)]
  · rw [List.cons_append,isValidUtf8_first 2,List.cons_append,
      isValidUtf8_follow (by omega) (by omega),List.cons_append,isValidUtf8_follow (by omega) (by omega),
      List.nil_append]
    rw [bytesNeeded_ofNat (by omega),if_neg (by omega),if_neg (by omega),if_pos (by omega)]
  · rw [List.cons_append,isValidUtf8_first 3,List.cons_append,
      isValidUtf8_follow (by omega) (by omega),List.cons_append,isValidUtf8_follow (by omega) (by omega),
      List.cons_append,isValidUtf8_follow (by omega) (by omega),List.nil_append]
    rw [bytesNeeded_ofNat (by omega),if_neg (by omega),if_neg (by omega),if_neg (by omega),if_pos (by omega)]

theorem isValidUtf8_flatMap (chars : List Char) : isValidUtf8 0 (chars.flatMap String.utf8EncodeChar) = true := by
  induction chars with
  | nil => rfl
  | cons c chars ih => rw [List.flatMap_cons,isValidUtf8_char,ih]

end Utf8

section Options

variable {env env' : CryptoMemory} {uv : UvCrypto}

theorem readFrom_take {n : ℕ} (residue : ℕ → UInt8) {content : Bytes} (hn : n ≤ content.length) :
    readFrom residue content 0 n = content.take n := by
  apply List.ext_getElem
  · simp [readFrom,hn]
  · intro i h h'
    have hi : i < content.length := (List.length_take ▸ h').trans_le (Nat.min_le_right _ _)
    simp [readFrom,List.getElem?_eq_getElem hi]

theorem readFrom_all (residue : ℕ → UInt8) (content : Bytes) :
    readFrom residue content 0 content.length = content := by
  rw [readFrom_take residue (Nat.le_refl _),List.take_length]

variable {b : CryptoBuffer}

theorem takes_of_plenty (hplenty : ∀ b, env'.allocates b = true) {encoded : CryptoBuff → Bool}
    {value : Option CryptoValue} {taken : CryptoBuff} (h : takes env uv b encoded value = some taken) :
    takes env' uv b encoded value = some taken := by
  unfold takes at h ⊢
  cases hvalue : value.bind CryptoValue.getBuff with
  | none =>
    rw [hvalue] at h
    cases h
  | some buff =>
    rw [hvalue] at h
    dsimp only at h ⊢
    by_cases hempty : buff.bytes = [] ∨ env.allocates b = false
    · rw [if_pos hempty] at h
      cases h
    · rw [if_neg hempty] at h
      rw [if_neg (fun hor => hempty (.inl (hor.resolve_right (by simp [hplenty]))))]
      exact h

theorem translate_eq_ok_iff {value : CryptoValue} {bytes : Bytes} : (translate env uv b value).result = .ok bytes ↔
      ∃ isText, takes env uv b CryptoBuff.isText (some value) = some ⟨bytes,isText⟩ := by
  unfold translate
  rw [result_after,bind_eq_ok_iff]
  simp only [takeBytes_eq_ok_iff]
  constructor
  · rintro ⟨buff,hbuff,h⟩
    cases h
    exact ⟨buff.isText,hbuff⟩
  · rintro ⟨isText,h⟩
    exact ⟨_,h,rfl⟩

theorem translate_of_plenty (hplenty : ∀ b, env'.allocates b = true) {value : CryptoValue}
    {bytes : Bytes} (h : (translate env uv b value).result = .ok bytes) :
    (translate env' uv b value).result = .ok bytes := by
  rw [translate_eq_ok_iff] at h ⊢
  obtain ⟨isText,h⟩ := h
  exact ⟨isText,takes_of_plenty hplenty h⟩

variable {opts : MixinCryptOption} {isAuth : Bool}

theorem parseIv_of_plenty (hplenty : ∀ b, env'.allocates b = true)
    {key iv : Bytes} (h : (parseIv env uv opts isAuth key).result = .ok iv) :
    (parseIv env' uv opts isAuth key).result = .ok iv := by
  unfold parseIv at h ⊢
  cases hiv : checkStr opts.iv with
  | some encoded =>
    rw [hiv] at h
    simp only [bind_eq_ok_iff,require_eq_ok_iff,malloc_eq_ok_iff,hplenty] at h ⊢
    obtain ⟨_,hsign,_,hpadded,_,hlength,_,_,rest⟩ := h
    exact ⟨(),hsign,(),hpadded,(),hlength,(),trivial,rest⟩
  | none =>
    rw [hiv] at h
    simp only [bind_eq_ok_iff,require_eq_ok_iff,malloc_eq_ok_iff,hplenty] at h ⊢
    obtain ⟨_,hauth,_,hsign,_,hlength,_,_,rest⟩ := h
    exact ⟨(),hauth,(),hsign,(),hlength,(),trivial,rest⟩

def parseAad (env : CryptoMemory) (uv : UvCrypto) (aad : Option CryptoValue) : CryptoRun Bytes :=
  match aad with
  | some aad => translate env uv .aad aad
  | none => return []

theorem parseAad_of_plenty (hplenty : ∀ b, env'.allocates b = true) {aad : Option CryptoValue} {bytes : Bytes}
    (h : (parseAad env uv aad).result = .ok bytes) : (parseAad env' uv aad).result = .ok bytes := by
  cases aad with
  | none => exact h
  | some aad => exact translate_of_plenty hplenty h

/-- What the options gave, the tag apart. -/
structure ParsedOptions (env : CryptoMemory) (uv : UvCrypto) (opts : MixinCryptOption) (isAuth : Bool) (key : Bytes)
    (internal : InternalOptions) : Prop where
  iv : (parseIv env uv opts isAuth key).result = .ok internal.iv
  offset : opts.ivOffset = 0
  ivOffset : internal.ivOffset = 0
  aad : (parseAad env uv opts.aad).result = .ok internal.aad
  tagLen : 0 ≤ opts.tagLen

variable {internal : InternalOptions} {key : Bytes}

theorem parseInternalOptions_eq_ok_iff : (parseInternalOptions env uv opts isAuth key).result = .ok internal ↔
      ParsedOptions env uv opts isAuth key internal ∧
      match opts.tag with
      | some tag => ∃ tagInput, (translate env uv .tagInput tag).result = .ok tagInput ∧
        internal.tagInput = some tagInput ∧ internal.tagLen = tagInput.length
      | none => internal.tagInput = none ∧ internal.tagLen = if opts.tagLen ≠ 0 then opts.tagLen.toNat else 4 := by
  unfold parseInternalOptions
  rw [result_after]
  change (do
    let iv ← parseIv env uv opts isAuth key
    Traced.require (0 ≤ opts.ivOffset) wrongInternal
    Traced.require (¬ 0 < opts.ivOffset) wrongInternal
    let aad ← parseAad env uv opts.aad
    Traced.require (0 ≤ opts.tagLen) wrongInternal
    match opts.tag with
    | some tag => do
      let tagInput ← translate env uv .tagInput tag
      return (⟨iv,opts.ivOffset,aad,some tagInput,tagInput.length⟩ : InternalOptions)
    | none => return ⟨iv,opts.ivOffset,aad,none,if opts.tagLen ≠ 0 then opts.tagLen.toNat else 4⟩ :
      CryptoRun InternalOptions).result = _ ↔ _
  simp only [bind_eq_ok_iff,require_eq_ok_iff]
  cases htag : opts.tag with
  | none =>
    constructor
    · rintro ⟨iv,hiv,_,hlow,_,hhigh,aad,haad,_,htagLen,h⟩
      cases h
      exact ⟨⟨hiv,by omega,by change opts.ivOffset = 0; omega,haad,htagLen⟩,rfl,rfl⟩
    · rintro ⟨h,htagInput,htagLen⟩
      refine ⟨_,h.iv,(),by have := h.offset; omega,(),by have := h.offset; omega,_,h.aad,(),h.tagLen,?_⟩
      rw [← htagLen,← htagInput,h.offset,← h.ivOffset]
      rfl
  | some tag =>
    simp only [bind_eq_ok_iff]
    constructor
    · rintro ⟨iv,hiv,_,hlow,_,hhigh,aad,haad,_,htagLen,tagInput,htagInput,h⟩
      cases h
      exact ⟨⟨hiv,by omega,by change opts.ivOffset = 0; omega,haad,htagLen⟩,tagInput,htagInput,rfl,rfl⟩
    · rintro ⟨h,tagInput,htranslate,htagInput,htagLen⟩
      refine ⟨_,h.iv,(),by have := h.offset; omega,(),by have := h.offset; omega,_,h.aad,(),h.tagLen,tagInput,
        htranslate,?_⟩
      rw [← htagLen,← htagInput,h.offset,← h.ivOffset]
      rfl

theorem ParsedOptions.of_plenty (hplenty : ∀ b, env'.allocates b = true)
    (h : ParsedOptions env uv opts isAuth key internal) :
    ParsedOptions env' uv opts isAuth key internal :=
  ⟨parseIv_of_plenty hplenty h.iv,h.offset,h.ivOffset,parseAad_of_plenty hplenty h.aad,h.tagLen⟩

theorem parseInternalOptions_of_plenty (hplenty : ∀ b, env'.allocates b = true)
    (h : (parseInternalOptions env uv opts isAuth key).result = .ok internal) :
    (parseInternalOptions env' uv opts isAuth key).result = .ok internal := by
  rw [parseInternalOptions_eq_ok_iff] at h ⊢
  refine ⟨h.1.of_plenty hplenty,?_⟩
  cases htag : opts.tag with
  | none =>
    rw [htag] at h
    exact h.2
  | some tag =>
    rw [htag] at h
    obtain ⟨_,tagInput,htranslate,rest⟩ := h
    exact ⟨tagInput,translate_of_plenty hplenty htranslate,rest⟩

def MixinCryptOption.withTag (opts : MixinCryptOption) (tag : CryptoValue) : MixinCryptOption :=
  { opts with tag := some tag }

theorem parseInternalOptions_withTag (hplenty : ∀ b, env'.allocates b = true)
    {key tagInput : Bytes} {tag : CryptoValue}
    (h : (parseInternalOptions env uv opts isAuth key).result = .ok internal)
    (htag : (translate env' uv .tagInput tag).result = .ok tagInput) :
    (parseInternalOptions env' uv (MixinCryptOption.withTag opts tag) isAuth key).result =
      .ok { internal with tagInput := some tagInput, tagLen := tagInput.length } := by
  rw [parseInternalOptions_eq_ok_iff] at h ⊢
  have hparsed := h.1.of_plenty hplenty
  exact ⟨⟨hparsed.iv,hparsed.offset,hparsed.ivOffset,hparsed.aad,hparsed.tagLen⟩,tagInput,htag,rfl,rfl⟩

variable {setup : AesSetup}

theorem prepareAes_some_iff : (prepareAes env uv (some opts) key).result = .ok setup ↔
      (chooseMode opts.transformation key.length).result = .ok (setup.mode,setup.padding) ∧
      (parseInternalOptions env uv opts (AesMode.isCcm setup.mode) key).result = .ok setup.internal := by
  unfold prepareAes
  simp only [bind_eq_ok_iff]
  constructor
  · rintro ⟨mode,hmode,internal,hinternal,h⟩
    cases h
    exact ⟨hmode,hinternal⟩
  · rintro ⟨hmode,hinternal⟩
    exact ⟨_,hmode,_,hinternal,rfl⟩

theorem prepareAes_none_iff : (prepareAes env uv none key).result = .ok setup ↔
      16 ≤ key.length ∧ env.allocates .iv = true ∧ defaultMode key.length = some setup.mode ∧
      setup.padding = .pkcs7Padding ∧ setup.internal = ⟨key.take 16,0,[],none,0⟩ := by
  unfold prepareAes keyAsIv
  simp only [bind_eq_ok_iff,require_eq_ok_iff,malloc_eq_ok_iff,demand_eq_ok_iff]
  constructor
  · rintro ⟨internal,⟨_,hkey,_,hmemory,_,_,_,_,hinternal⟩,mode,hmode,h⟩
    cases hinternal
    cases h
    exact ⟨hkey,hmemory,hmode,rfl,rfl⟩
  · rintro ⟨hkey,hmemory,hmode,hpadding,hinternal⟩
    refine ⟨_,⟨(),hkey,(),hmemory,(),rfl,(),rfl,rfl⟩,_,hmode,?_⟩
    rw [← hpadding,← hinternal]
    rfl

variable {options : Option MixinCryptOption}

theorem prepareAes_of_plenty (hplenty : ∀ b, env'.allocates b = true)
    (h : (prepareAes env uv options key).result = .ok setup) :
    (prepareAes env' uv options key).result = .ok setup := by
  cases options with
  | some opts =>
    rw [prepareAes_some_iff] at h ⊢
    exact ⟨h.1,parseInternalOptions_of_plenty hplenty h.2⟩
  | none =>
    rw [prepareAes_none_iff] at h ⊢
    exact ⟨h.1,hplenty _,h.2.2⟩

theorem prepareAes_ivOffset
    (h : (prepareAes env uv options key).result = .ok setup) : setup.internal.ivOffset = 0 := by
  cases options with
  | some opts => exact (parseInternalOptions_eq_ok_iff.mp (prepareAes_some_iff.mp h).2).1.ivOffset
  | none => rw [(prepareAes_none_iff.mp h).2.2.2.2]

theorem prepareAes_withTag (hplenty : ∀ b, env'.allocates b = true) {key tagInput : Bytes} {tag : CryptoValue}
    (h : (prepareAes env uv options key).result = .ok setup) (hccm : AesMode.isCcm setup.mode = true)
    (htag : (translate env' uv .tagInput tag).result = .ok tagInput) :
    (prepareAes env' uv (options.map (fun opts => MixinCryptOption.withTag opts tag)) key).result =
      .ok { setup with internal := { setup.internal with tagInput := some tagInput, tagLen := tagInput.length } } := by
  cases options with
  | some opts =>
    have h := prepareAes_some_iff.mp h
    exact prepareAes_some_iff.mpr ⟨h.1,parseInternalOptions_withTag hplenty h.2 htag⟩
  | none =>
    have hmode := (prepareAes_none_iff.mp h).2.2.1
    unfold defaultMode at hmode
    split_ifs at hmode <;> (rw [← Option.some.inj hmode] at hccm; cases hccm)

end Options
end Crypto
end FeatureRuntime
