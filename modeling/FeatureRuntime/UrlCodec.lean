import FeatureRuntime.CText
import FeatureRuntime.PercentCoding

/-! The URL encoder and decoder of the network modules, as loops over the block of a string, and what they
write in terms of percent coding. -/
namespace FeatureRuntime.UrlCodec

def fromHex (signedChar : Bool) (ch : UInt8) : UInt8 :=
  let x := promote signedChar ch
  toChar (if isdigit x then x - 48 else toupper x - 65 + 10)

/-- `;,/?:@&=+$-_.!~*'()#`. -/
def reservedChar : List UInt8 :=
  [59,44,47,63,58,64,38,61,43,36,45,95,46,33,126,42,39,40,41,35]

def isReservedChar (c : UInt8) : Bool := reservedChar.any (fun r => c = r)

/-- `0123456789ABCDEF`. -/
def hex : List UInt8 := [48,49,50,51,52,53,54,55,56,57,65,66,67,68,69,70]

section Loops

variable (signedChar : Bool) {capacity : ℕ}

def encodeLoop : List UInt8 → Filling capacity → Option (Filling capacity)
  | [],_ => none
  | c :: pstr,pbuf =>
    if c = 0 then pbuf.put 0
    else if isalnum (promote signedChar c) || isReservedChar c then do
      let pbuf ← pbuf.put c
      encodeLoop pstr pbuf
    else do
      let high ← hex[((promote signedChar c).sshiftRight 4 &&& 0x0F).toNat]?
      let low ← hex[(promote signedChar c &&& 0x0F).toNat]?
      let pbuf ← pbuf.put 37
      let pbuf ← pbuf.put high
      let pbuf ← pbuf.put low
      encodeLoop pstr pbuf

def urlEncode (str : List UInt8) : Option (List UInt8) := do
  let length ← strlen str
  let buf ← encodeLoop signedChar str (Filling.fresh (length * 3 + 1))
  return buf.bytes

/-- The loop of `url_decode`. A percent sign looks at the second byte behind it only when the first is
no terminator. -/
def decodeLoop : List UInt8 → Filling capacity → Option (Filling capacity)
  | [],_ => none
  | c :: pstr,pbuf =>
    let skip := decodeLoop pstr
    if c = 0 then pbuf.put 0
    else if c = 37 then
      match pstr with
      | [] => none
      | c1 :: pstr =>
        if c1 = 0 then skip pbuf
        else
          match pstr with
          | [] => none
          | c2 :: pstr =>
            if c2 = 0 then skip pbuf
            else do
              let pbuf ← pbuf.put (toChar (promote signedChar (fromHex signedChar c1) <<< 4 |||
                promote signedChar (fromHex signedChar c2)))
              decodeLoop pstr pbuf
    else do
      let pbuf ← pbuf.put c
      decodeLoop pstr pbuf

def urlDecode (str : List UInt8) : Option (List UInt8) := do
  let length ← strlen str
  let buf ← decodeLoop signedChar str (Filling.fresh (length + 1))
  return buf.bytes

end Loops

def plain (c : UInt8) : Bool :=
  (48 ≤ c && c ≤ 57) || (65 ≤ c && c ≤ 90) || (97 ≤ c && c ≤ 122) || isReservedChar c

def upperHexDigit (c : UInt8) : Bool := (48 ≤ c && c ≤ 57) || (65 ≤ c && c ≤ 70)

def pair (signedChar : Bool) (c1 c2 : UInt8) : UInt8 :=
  toChar (promote signedChar (fromHex signedChar c1) <<< 4 ||| promote signedChar (fromHex signedChar c2))

variable (signedChar : Bool)

theorem plain_sign : plain Percent.sign = false := by decide

theorem isalnum_or_reserved (c : UInt8) : (isalnum (promote signedChar c) || isReservedChar c) = plain c := by
  have hall : ∀ signed, ∀ n < 256, (isalnum (promote signed (UInt8.ofNat n)) ||
      isReservedChar (UInt8.ofNat n)) = plain (UInt8.ofNat n) := by decide +kernel
  induction c using forall_byte with
  | ofNat n hn => exact hall signedChar n hn

theorem hex_high (c : UInt8) : hex[((promote signedChar c).sshiftRight 4 &&& 0x0F).toNat]? =
      some (Percent.digit (c.toNat / 16)) := by
  have hall : ∀ signed, ∀ n < 256, hex[((promote signed (UInt8.ofNat n)).sshiftRight 4 &&& 0x0F).toNat]? =
        some (Percent.digit ((UInt8.ofNat n).toNat / 16)) := by decide +kernel
  induction c using forall_byte with
  | ofNat n hn => exact hall signedChar n hn

theorem hex_low (c : UInt8) : hex[(promote signedChar c &&& 0x0F).toNat]? = some (Percent.digit (c.toNat % 16)) := by
  have hall : ∀ signed, ∀ n < 256, hex[(promote signed (UInt8.ofNat n) &&& 0x0F).toNat]? =
      some (Percent.digit ((UInt8.ofNat n).toNat % 16)) := by decide +kernel
  induction c using forall_byte with
  | ofNat n hn => exact hall signedChar n hn

theorem pair_digits (c : UInt8) :
    pair signedChar (Percent.digit (c.toNat / 16)) (Percent.digit (c.toNat % 16)) = c := by
  have hall : ∀ signed, ∀ n < 256, pair signed (Percent.digit ((UInt8.ofNat n).toNat / 16))
      (Percent.digit ((UInt8.ofNat n).toNat % 16)) = UInt8.ofNat n := by decide +kernel
  induction c using forall_byte with
  | ofNat n hn => exact hall signedChar n hn

/-- The loop writes the encoding of the string and a terminator when there is room for them. -/
theorem encodeLoop_eq {capacity : ℕ} (s : List UInt8) (h : 0 ∉ s) (pbuf : Filling capacity)
    (hroom : pbuf.bytes.length + (Percent.encode plain s).length < capacity) :
    ∃ buf, encodeLoop signedChar (s ++ [0]) pbuf = some buf ∧
      buf.bytes = pbuf.bytes ++ Percent.encode plain s ++ [0] := by
  induction s generalizing pbuf with
  | nil =>
    obtain ⟨buf,hput,hbytes⟩ := pbuf.put_eq 0 (by simpa [Percent.encode] using hroom)
    exact ⟨buf,by simpa [encodeLoop] using hput,by simp [hbytes,Percent.encode]⟩
  | cons c s ih =>
    have hc : c ≠ 0 := fun h0 => h (by simp [h0])
    have hs : 0 ∉ s := fun hmem => h (List.mem_cons_of_mem c hmem)
    have hencode : Percent.encode plain (c :: s) =
        Percent.encodeByte plain c ++ Percent.encode plain s := by simp [Percent.encode]
    rw [hencode,List.length_append] at hroom
    rw [hencode]
    cases hplain : plain c with
    | true =>
      rw [Percent.encodeByte,if_pos hplain] at hroom ⊢
      obtain ⟨next,hput,hnext⟩ := pbuf.put_eq c (by omega)
      obtain ⟨buf,hloop,hbuf⟩ := ih hs next (by
        rw [hnext,List.length_append]
        simp only [List.length_singleton] at hroom ⊢
        omega)
      refine ⟨buf,?_,by rw [hbuf,hnext]; simp⟩
      simp only [List.cons_append,encodeLoop,hc,if_false,isalnum_or_reserved,hplain,if_true,hput]
      exact hloop
    | false =>
      have hbyte : Percent.encodeByte plain c = [37,Percent.digit (c.toNat / 16),Percent.digit (c.toNat % 16)] := by
        simp [Percent.encodeByte,hplain,Percent.sign]
      rw [hbyte] at hroom ⊢
      simp only [List.length_cons,List.length_nil] at hroom
      obtain ⟨b1,hput1,hb1⟩ := pbuf.put_eq 37 (by omega)
      obtain ⟨b2,hput2,hb2⟩ := b1.put_eq (Percent.digit (c.toNat / 16)) (by
        rw [hb1,List.length_append,List.length_singleton]
        omega)
      obtain ⟨b3,hput3,hb3⟩ := b2.put_eq (Percent.digit (c.toNat % 16)) (by
        rw [hb2,hb1]
        simp only [List.length_append,List.length_singleton]
        omega)
      obtain ⟨buf,hloop,hbuf⟩ := ih hs b3 (by
        rw [hb3,hb2,hb1]
        simp only [List.length_append,List.length_singleton]
        omega)
      refine ⟨buf,?_,by rw [hbuf,hb3,hb2,hb1]; simp⟩
      simp only [List.cons_append,encodeLoop,hc,if_false,isalnum_or_reserved,hplain,
        Bool.false_eq_true,hex_high,hex_low,Option.bind_eq_bind,Option.bind_some,hput1,hput2,hput3]
      exact hloop

theorem urlEncode_block (s : CText) : urlEncode signedChar s.block = some (Percent.encode plain s.bytes ++ [0]) := by
  have hlen := @Percent.length_encode_le plain s.bytes
  obtain ⟨buf,hloop,hbuf⟩ := encodeLoop_eq signedChar s.bytes s.noNul
    (Filling.fresh (s.bytes.length * 3 + 1)) (by simp only [Filling.fresh,List.length_nil]; omega)
  simp only [urlEncode,strlen_block,Option.bind_eq_bind,Option.bind_some]
  rw [CText.block,hloop]
  simp [hbuf,Filling.fresh]

/-- The loop writes the decoding of the string and a terminator when there is room for them. -/
theorem decodeLoop_eq {capacity : ℕ} (s : List UInt8) (h : 0 ∉ s) (pbuf : Filling capacity)
    (hroom : pbuf.bytes.length + (Percent.decode (pair signedChar) s).length < capacity) :
    ∃ buf, decodeLoop signedChar (s ++ [0]) pbuf = some buf ∧
      buf.bytes = pbuf.bytes ++ Percent.decode (pair signedChar) s ++ [0] := by
  induction s using Percent.induction_on generalizing pbuf with
  | nil =>
    obtain ⟨buf,hput,hbytes⟩ := pbuf.put_eq 0 (by simpa using hroom)
    exact ⟨buf,by simpa [decodeLoop] using hput,by simp [hbytes]⟩
  | escape a b rest ih =>
    simp only [List.mem_cons,not_or] at h
    rw [Percent.decode_escape,List.length_cons] at hroom
    obtain ⟨next,hput,hnext⟩ := pbuf.put_eq (pair signedChar a b) (by omega)
    obtain ⟨buf,hloop,hbuf⟩ := ih h.2.2.2 next (by
      rw [hnext,List.length_append,List.length_singleton]
      omega)
    refine ⟨buf,?_,by rw [hbuf,hnext,Percent.decode_escape]; simp⟩
    simp only [pair] at hput
    simp only [List.cons_append,decodeLoop,Ne.symm h.2.1,Ne.symm h.2.2.1,if_false,
      Percent.sign,if_true,Option.bind_eq_bind,hput,Option.bind_some]
    exact hloop
  | lone rest hshort ih =>
    rw [Percent.decode_lone hshort] at hroom ⊢
    have hrest : 0 ∉ rest := fun hmem => h (List.mem_cons_of_mem _ hmem)
    obtain ⟨buf,hloop,hbuf⟩ := ih hrest pbuf hroom
    refine ⟨buf,?_,hbuf⟩
    -- The terminator is the first or the second byte behind the percent sign.
    match rest with
    | [] => simpa [decodeLoop,Percent.sign] using hloop
    | [a] =>
      have ha : a ≠ 0 := fun h0 => hrest (by simp [h0])
      rw [← hloop]
      simp [decodeLoop,Percent.sign,ha]
    | _ :: _ :: rest =>
      simp only [List.length_cons] at hshort
      omega
  | byte c rest hc ih =>
    simp only [List.mem_cons,not_or] at h
    rw [Percent.decode_of_ne hc,List.length_cons] at hroom
    obtain ⟨next,hput,hnext⟩ := pbuf.put_eq c (by omega)
    obtain ⟨buf,hloop,hbuf⟩ := ih h.2 next (by
      rw [hnext,List.length_append,List.length_singleton]
      omega)
    refine ⟨buf,?_,by rw [hbuf,hnext,Percent.decode_of_ne hc]; simp⟩
    have hc' : c ≠ 37 := hc
    rw [List.cons_append,decodeLoop.eq_def]
    simp only [Ne.symm h.1,hc',if_false,Option.bind_eq_bind,hput,Option.bind_some]
    exact hloop

theorem urlDecode_block (s : CText) :
    urlDecode signedChar s.block = some (Percent.decode (pair signedChar) s.bytes ++ [0]) := by
  have hlen := @Percent.length_decode_le (pair signedChar) s.bytes
  obtain ⟨buf,hloop,hbuf⟩ := decodeLoop_eq signedChar s.bytes s.noNul
    (Filling.fresh (s.bytes.length + 1)) (by simp only [Filling.fresh,List.length_nil]; omega)
  simp only [urlDecode,strlen_block,Option.bind_eq_bind,Option.bind_some]
  rw [CText.block,hloop]
  simp [hbuf,Filling.fresh]

def encoded (s : CText) : CText where
  bytes := Percent.encode plain s.bytes
  noNul := by
    have hdigit : ∀ v < 16, Percent.digit v ≠ 0 := by decide
    exact Percent.notMem_encode (by decide) (by decide) hdigit s.bytes

/-- For every string and for a `char` with or without a sign: the encoder writes a string of letters,
digits, reserved characters and escapes of two upper-case digits that the decoder turns back; and the
decoder ends on every string, where it stays within the blocks of the string and of its own buffer and
writes no more bytes than the string has. -/
theorem url_codec (s : CText) : (∃ e : CText, urlEncode signedChar s.block = some e.block ∧
      Percent.wellFormed plain upperHexDigit e.bytes = true ∧
      urlDecode signedChar e.block = some s.block) ∧
    ∃ d, urlDecode signedChar s.block = some (d ++ [0]) ∧ d.length ≤ s.bytes.length := by
  refine ⟨⟨encoded s,urlEncode_block signedChar s,?_,?_⟩,
    Percent.decode (pair signedChar) s.bytes,urlDecode_block signedChar s,
    Percent.length_decode_le s.bytes⟩
  · have hdigit : ∀ v < 16, upperHexDigit (Percent.digit v) = true := by decide
    exact Percent.wellFormed_encode plain_sign hdigit s.bytes
  · rw [urlDecode_block,encoded,Percent.decode_encode plain_sign (pair_digits signedChar)]
    rfl

end FeatureRuntime.UrlCodec
