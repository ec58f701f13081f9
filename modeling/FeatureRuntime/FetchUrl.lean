import FeatureRuntime.UrlCodec

/-! The URL that a fetch hands to the transport: encoded when decoding leaves it as it is, and as the script
gave it otherwise. -/
namespace FeatureRuntime.FetchUrl

open UrlCodec

def http : List UInt8 := [104,116,116,112]

def Avoids (bytes part : List UInt8) : Prop := ∀ c ∈ part, c ∉ bytes

/-- The parts of a URL, by `^http(([^:\/?#]+):)?(//([^\/?#]*))?([^?#]*)(\?([^#]*))?(#(.*))?`. -/
structure Matches (url scheme authority path query fragment : List UInt8) : Prop where
  whole : url = http ++ scheme ++ authority ++ path ++ query ++ fragment
  scheme : scheme = [] ∨ ∃ part, part ≠ [] ∧ Avoids [58,92,47,63,35] part ∧ scheme = part ++ [58]
  authority : authority = [] ∨ ∃ part, Avoids [92,47,63,35] part ∧ authority = [47,47] ++ part
  path : Avoids [63,35] path
  query : query = [] ∨ ∃ part, Avoids [35] part ∧ query = 63 :: part
  fragment : fragment = [] ∨ ∃ part, fragment = 35 :: part

def checkUrl (url : List UInt8) : Prop :=
  url ≠ [] ∧ ∃ scheme authority path query fragment, Matches url scheme authority path query fragment

/-- The handling of the URL in `request_create`. -/
def requestUrl (signedChar : Bool) (url : List UInt8) : Option (List UInt8) := do
  let decode ← urlDecode signedChar url
  if cstr decode = cstr url then urlEncode signedChar decode else return cstr url ++ [0]

def hexDigit (c : UInt8) : Bool := upperHexDigit c || (97 ≤ c && c ≤ 102)

/-- The URL for the transport is made of plain characters and escapes, decodes to what the URL of the
script decodes to, and stays as it is when it is handed out again. -/
structure Normalised (signedChar : Bool) (url sent : CText) : Prop where
  handed : requestUrl signedChar url.block = some sent.block
  legal : Percent.wellFormed plain hexDigit sent.bytes = true
  same : urlDecode signedChar sent.block = urlDecode signedChar url.block
  stable : requestUrl signedChar sent.block = some sent.block

theorem exists_split (bytes url : List UInt8) : ∃ part rest, url = part ++ rest ∧ Avoids bytes part ∧
      (rest = [] ∨ ∃ c tail, c ∈ bytes ∧ rest = c :: tail) := by
  induction url with
  | nil => exact ⟨[],[],rfl,nofun,.inl rfl⟩
  | cons c url ih =>
    by_cases hc : c ∈ bytes
    · exact ⟨[],c :: url,rfl,nofun,.inr ⟨c,url,hc,rfl⟩⟩
    · obtain ⟨part,rest,hurl,hpart,hrest⟩ := ih
      refine ⟨c :: part,rest,by rw [hurl]; rfl,?_,hrest⟩
      intro b hb
      cases List.mem_cons.mp hb with
      | inl heq => exact heq ▸ hc
      | inr hmem => exact hpart b hmem

/-- The pattern takes every string that begins with `http`. -/
theorem checkUrl_iff (url : List UInt8) : checkUrl url ↔ http <+: url := by
  constructor
  · intro h
    obtain ⟨-,scheme,authority,path,query,fragment,hmatch⟩ := h
    refine ⟨scheme ++ authority ++ path ++ query ++ fragment,?_⟩
    rw [hmatch.whole]
    simp
  · intro h
    obtain ⟨rest,rfl⟩ := h
    refine ⟨by simp [http],?_⟩
    obtain ⟨path,tail,rfl,hpath,htail⟩ := exists_split [63,35] rest
    rcases htail with rfl | ⟨c,tail,hc,rfl⟩
    · exact ⟨[],[],path,[],[],by simp,.inl rfl,.inl rfl,hpath,.inl rfl,.inl rfl⟩
    · simp only [List.mem_cons,List.not_mem_nil,or_false] at hc
      rcases hc with rfl | rfl
      · obtain ⟨query,fragment,rfl,hquery,hfragment⟩ := exists_split [35] tail
        refine ⟨[],[],path,63 :: query,fragment,by simp,.inl rfl,.inl rfl,hpath,
          .inr ⟨query,hquery,rfl⟩,?_⟩
        rcases hfragment with rfl | ⟨c,part,hc,rfl⟩
        · exact .inl rfl
        · exact .inr ⟨part,by rw [List.mem_singleton.mp hc]⟩
      · exact ⟨[],[],path,[],35 :: tail,by simp,.inl rfl,.inl rfl,hpath,.inl rfl,.inr ⟨tail,rfl⟩⟩

variable {url : CText}

theorem requestUrl_of_notMem (signedChar : Bool) (h : Percent.sign ∉ url.bytes) :
    requestUrl signedChar url.block = some (encoded url).block := by
  have hdecode := (@Percent.decode_eq_self_iff (pair signedChar) url.bytes).mpr h
  have hwritten : urlDecode signedChar url.block = some url.block := by
    rw [urlDecode_block,hdecode]
    rfl
  simp only [requestUrl,hwritten,Option.bind_eq_bind,Option.bind_some,if_true]
  exact urlEncode_block signedChar url

theorem requestUrl_of_mem (signedChar : Bool) (h : Percent.sign ∈ url.bytes) :
    requestUrl signedChar url.block = some url.block := by
  have hdiffers : cstr (Percent.decode (pair signedChar) url.bytes ++ [0]) ≠ url.bytes := by
    intro heq
    have hprefix := cstr_concat_isPrefixOf (Percent.decode (pair signedChar) url.bytes)
    rw [heq] at hprefix
    have hself := hprefix.eq_of_length_le (Percent.length_decode_le url.bytes)
    exact (Percent.decode_eq_self_iff url.bytes).mp hself.symm h
  simp only [requestUrl,urlDecode_block,Option.bind_eq_bind,Option.bind_some,CText.cstr_block,if_neg hdiffers]
  rfl

theorem encoded_of_notMem (h : Percent.sign ∉ (encoded url).bytes) : (encoded url).bytes = url.bytes := by
  obtain ⟨s,hs⟩ := url
  simp only [encoded] at h ⊢
  clear hs
  induction s with
  | nil => rfl
  | cons c s ih =>
    have hcons : Percent.encode plain (c :: s) =
        Percent.encodeByte plain c ++ Percent.encode plain s := by simp [Percent.encode]
    rw [hcons,List.mem_append,not_or] at h
    rw [hcons,ih h.2]
    cases hplain : plain c with
    | true => simp [Percent.encodeByte,hplain]
    | false => exact absurd (by simp [Percent.encodeByte,hplain]) h.1

theorem encoded_stable (signedChar : Bool) (h : Percent.sign ∉ url.bytes) :
    requestUrl signedChar (encoded url).block = some (encoded url).block := by
  by_cases hsign : Percent.sign ∈ (encoded url).bytes
  · exact requestUrl_of_mem signedChar hsign
  · have hsame : (encoded url).block = url.block := by
      rw [CText.block,encoded_of_notMem hsign]
      rfl
    rw [hsame,requestUrl_of_notMem signedChar h,hsame]

theorem hexDigit_digit : ∀ v < 16, hexDigit (Percent.digit v) = true := by decide

theorem normalised_encoded (signedChar : Bool) (h : Percent.sign ∉ url.bytes) :
    Normalised signedChar url (encoded url) where
  handed := requestUrl_of_notMem signedChar h
  legal := Percent.wellFormed_encode plain_sign hexDigit_digit url.bytes
  same := by
    rw [urlDecode_block,urlDecode_block,encoded,Percent.decode_encode plain_sign (pair_digits signedChar),
      (Percent.decode_eq_self_iff url.bytes).mpr h]
  stable := encoded_stable signedChar h

/-- For every URL: what is handed to the transport is made of plain characters and well-formed escapes,
decodes to the same bytes and is left alone when it is normalised again, exactly when the URL has no
percent sign or is already made of plain characters and well-formed escapes. -/
theorem normalised_iff (signedChar : Bool) (url : CText) : (∃ sent, Normalised signedChar url sent) ↔
      Percent.sign ∉ url.bytes ∨ Percent.wellFormed plain hexDigit url.bytes = true := by
  by_cases hsign : Percent.sign ∈ url.bytes
  · have hsent := requestUrl_of_mem signedChar hsign
    constructor
    · intro h
      obtain ⟨sent,h⟩ := h
      have hblock : sent.bytes = url.bytes :=
        List.append_cancel_right (Option.some.inj (h.handed.symm.trans hsent))
      exact .inr (hblock ▸ h.legal)
    · intro h
      exact ⟨url,hsent,h.resolve_left (fun hnot => hnot hsign),rfl,hsent⟩
  · exact iff_of_true ⟨encoded url,normalised_encoded signedChar hsign⟩ (.inl hsign)

/-- `http://h/a b%41`. -/
def mixedUrl : CText := ⟨http ++ [58,47,47,104,47,97,32,98,37,52,49],by decide⟩

/-- The blank stays in a URL that has an escape. -/
theorem mixed_not_normalised : ¬ ∀ (signedChar : Bool) (url : CText), checkUrl url.bytes →
      ∃ sent, Normalised signedChar url sent := by
  intro h
  obtain ⟨sent,hsent⟩ := h true mixedUrl ((checkUrl_iff _).mpr ⟨_,rfl⟩)
  have hsign : Percent.sign ∈ mixedUrl.bytes := by decide
  have hsame := hsent.handed.symm.trans (requestUrl_of_mem true hsign)
  have hbytes : sent.bytes = mixedUrl.bytes := List.append_cancel_right (Option.some.inj hsame)
  exact absurd (hbytes ▸ hsent.legal) (by decide)

end FeatureRuntime.FetchUrl
