import FeatureRuntime.Ecdh

/-! The key pairs of ECDH objects along every sequence of calls. -/
namespace FeatureRuntime

/-- The sizes that the primitives promise: a key fits its buffer, and a private key fills it; a byte has two digits. -/
structure UvEcdh.Sized (uve : UvEcdh) : Prop where
  generated : ∀ seed n m, ∀ pair ∈ uve.generate seed n m, pair.privateKey.length = n ∧ pair.publicKey.length ≤ m
  parsed : ∀ pem n m, ∀ pair ∈ uve.fromPem pem n m, pair.privateKey.length = n ∧ pair.publicKey.length ≤ m
  derived : ∀ key m, ∀ publicKey ∈ uve.publicOf key m, publicKey.length ≤ m
  digits : ∀ bytes, (uve.hexify bytes).length ≤ 2 * bytes.length

namespace Ecdh

open Crypto

def Contains (block : Option Bytes) (n : ℕ) (key : Bytes) : Prop :=
  ∃ rest, block = some (key ++ rest) ∧ n = key.length

theorem contains_take {block : Bytes} {n : ℕ} (h : n ≤ block.length) : Contains (some block) n (block.take n) :=
  ⟨block.drop n,by simp,by simp [h]⟩

theorem contains_fill (block bytes : Bytes) : Contains (some (fill block bytes)) bytes.length bytes :=
  ⟨_,rfl,rfl⟩

variable {block : Option Bytes}

theorem Contains.unique {n : ℕ} {key key' : Bytes} (h : Contains block n key)
    (h' : Contains block n key') : key = key' := by
  obtain ⟨rest,rfl,rfl⟩ := h
  obtain ⟨rest',hblock,hlength⟩ := h'
  exact (List.append_inj (Option.some.inj hblock) hlength).1

theorem read_of_contains {n : ℕ} {key : Bytes} (h : Contains block n key) : read block n = .ok key := by
  obtain ⟨rest,rfl,rfl⟩ := h
  simp [read]

/-- The buffers hold a key pair, with its sizes. -/
structure Holds (e : CryptoECDH) (pair : EcdhPair) : Prop where
  privateKey : Contains e.privateKey e.privateKeySize pair.privateKey
  publicKey : Contains e.publicKey e.publicKeySize pair.publicKey

theorem Holds.unique {e : CryptoECDH} {pair pair' : EcdhPair} (h : Holds e pair) (h' : Holds e pair') : pair = pair' := by
  cases pair
  cases pair'
  simp only [EcdhPair.mk.injEq]
  exact ⟨h.privateKey.unique h'.privateKey,h.publicKey.unique h'.publicKey⟩

/-- What is on record of the keys is no longer than their buffers. -/
structure Fits (e : CryptoECDH) : Prop where
  privateKey : ∀ block ∈ e.privateKey, e.privateKeySize ≤ block.length
  publicKey : ∀ block ∈ e.publicKey, e.publicKeySize ≤ block.length

variable (memory : EcdhMemory) (uv : UvCrypto) (uve : UvEcdh)

def encoded (encoding : Option CString) (key : Bytes) : Option (Bytes × Option Bool) :=
  match encoding with
  | none => some (key,none)
  | some encoding =>
    if encoding = "base64".toList then
      if key = [] then none else (base64Encode uv key (2 * key.length + 1)).map (fun text => (text,some true))
    else if encoding = "hex".toList then if uve.hexify key = [] then none else some (uve.hexify key,some true)
    else if encoding = "buffer".toList ∨ encoding = [] then some (key,some false)
    else none

variable {memory uv uve}

theorem encodingData_of_contains (hsized : uve.Sized) {n : ℕ} {key : Bytes}
    (h : Contains block n key) (encoding : Option CString) (e : EcdhStop) :
    encodingData uv uve encoding block n e = (encoded uv uve encoding key).elim (.error e) .ok := by
  have hread := read_of_contains h
  have hdigits := hsized.digits key
  obtain ⟨rest,rfl,rfl⟩ := h
  cases encoding with
  | none => simp [encodingData,encoded,hread,Except.map]
  | some encoding =>
    simp only [encodingData,encoded,hread]
    split_ifs with hbase hempty hkey hkey hhex hdigit hlong
    all_goals simp_all [Except.map,bind,Except.bind]
    cases base64Encode uv key (2 * key.length + 1) <;> rfl

variable (memory uv uve)

def Refused (encoding : Option CString) (block : Option Bytes) (n : ℕ) : Prop :=
  ∀ e, encodingData uv uve encoding block n e = .error e

def Shows (encoding : Option CString) (key : Bytes) (value : Option CryptoValue) : Prop :=
  ∃ shown ∈ encoded uv uve encoding key, value = some (.fromBuff shown.1 (shown.2.getD false))

def Shares (param : ComputeParam) (key : Bytes) (value : Option CryptoValue) : Prop :=
  ∃ other isText secret, otherKey memory uv param = .ok (other,isText) ∧ uve.shared key other key.length = some secret ∧
    presentSecret memory uv uve param.outputEncoding isText secret = .ok value

def Answers (made : Option EcdhPair) (c : EcdhCall) (value : Option CryptoValue) : Prop :=
  match c with
  | .getPrivateKey encoding => ∃ pair ∈ made, Shows uv uve encoding pair.privateKey value
  | .getPublicKey encoding => ∃ pair ∈ made, Shows uv uve encoding pair.publicKey value
  | .computeSecret (some param) => ∃ pair ∈ made, Shares memory uv uve param pair.privateKey value
  | _ => True

/-- What is promised of a call: it stays within its buffers, its value is made of the pair that the object has, it
leaves in the buffers the pair that the object has then, and where it fails it changes no size. -/
structure Faithful (o : EcdhObject) (c : EcdhCall) (r : EcdhResult) : Prop where
  bounds : r.result ≠ .error .overrun
  answer : ∀ value, r.result = .ok value → Answers memory uv uve o.made c value
  holds : ∀ e ∈ r.object.data, ∀ pair ∈ r.object.made, Holds e pair
  sizes : ∀ stop, r.result = .error stop → r.object.data.map (fun e => (e.privateKeySize,e.publicKeySize)) =
      o.data.map (fun e => (e.privateKeySize,e.publicKeySize))

def Right (objects : List EcdhObject) : EcdhOp → Prop
  | .createECDH type memory => createECDH memory type ≠ .error .overrun
  | .call handle c memory => ∀ o ∈ objects[handle]?, Faithful memory uv uve o c (call memory uv uve o c)

def KeysAllocated : Prop := memory.allocates .publicKey = true ∧ memory.allocates .privateKey = true

def unwritten (e : CryptoECDH) : EcdhPair :=
  ⟨fresh memory .privateKey e.privateKeySize,fresh memory .publicKey e.publicKeySize⟩

def GetterMeets (made : Option EcdhPair) (block : Option Bytes) (n : ℕ) (encoding : Option CString) : Prop :=
  memory.allocates .output = false ∨ Refused uv uve encoding block n ∨
    made.isSome = true ∧ memory.allocates .value = true

/-- The condition on `generateKeys`: where it fails there was no pair, or the memory of the keys holds the old one. -/
structure GenerateMeets (made : Option EcdhPair) (e : CryptoECDH) (encoding : Option (Option CString)) (seed : ℕ) :
    Prop where
  supplied : KeysAllocated memory → encoding ≠ none
  lost : ¬ KeysAllocated memory → made = none
  kept : KeysAllocated memory → uve.generate seed e.privateKeySize e.publicKeySize = none →
    ∀ pair ∈ made, pair = unwritten memory e
  replaced : KeysAllocated memory → ∀ generated ∈ uve.generate seed e.privateKeySize e.publicKeySize,
    ∀ enc, encoding = some enc → memory.allocates .output = false ∨ encoded uv uve enc generated.publicKey = none →
      generated.publicKey.length = e.publicKeySize ∧ ∀ pair ∈ made, pair = generated

/-- The condition on the key of `setPrivateKey`: where it fails there was no pair, or the memory of the keys holds the
old one; a binary key fits the buffer, and its public key fills the other. -/
structure ImportMeets (made : Option EcdhPair) (e : CryptoECDH) (key : CryptoBuff) : Prop where
  lost : ¬ KeysAllocated memory → made = none
  text : KeysAllocated memory → key.isText = true → uve.fromPem key.bytes e.privateKeySize e.publicKeySize = none →
    ∀ pair ∈ made, pair = unwritten memory e
  short : KeysAllocated memory → key.isText = true →
    ∀ parsed ∈ uve.fromPem key.bytes e.privateKeySize e.publicKeySize, parsed.publicKey.length ≠ e.publicKeySize →
      ∀ pair ∈ made, pair = ⟨parsed.privateKey,fill (fresh memory .publicKey e.publicKeySize) parsed.publicKey⟩
  binary : KeysAllocated memory → key.isText = false → uve.publicOf key.bytes e.publicKeySize = none →
    ∀ pair ∈ made, pair = unwritten memory e
  fits : KeysAllocated memory → key.isText = false → ∀ publicKey ∈ uve.publicOf key.bytes e.publicKeySize,
    publicKey.length = e.publicKeySize ∧ key.bytes.length ≤ e.privateKeySize

/-- The key that `setPrivateKey` takes. -/
def accepted (privateKey : Option CryptoValue) : Option CryptoBuff :=
  privateKey.bind (fun value => value.getBuff.filter (fun key => key.bytes ≠ []))

def Terminated (isText : Bool) (secret : Bytes) (out : Bytes × Option Bool) : Prop :=
  out.2 = none → isText = true → 0 ∈ fill (fresh memory .output (2 * secret.length + 1)) secret

/-- The condition on `computeSecret`: it fails before the secret, or there is a pair, and a text without an encoding
comes with a terminator. -/
def SecretMeets (made : Option EcdhPair) (e : CryptoECDH) (param : ComputeParam) : Prop :=
  ∀ other isText, otherKey memory uv param = .ok (other,isText) → memory.allocates .secret = true →
    e.privateKey ≠ none ∧ ∀ block ∈ e.privateKey,
      ∀ secret ∈ uve.shared (block.take e.privateKeySize) other e.privateKeySize, memory.allocates .output = true →
        ∀ out ∈ encoded uv uve param.outputEncoding secret, made ≠ none ∧ Terminated memory isText secret out

def CallMeets (made : Option EcdhPair) (e : CryptoECDH) : EcdhCall → Prop
  | .getPrivateKey encoding => GetterMeets memory uv uve made e.privateKey e.privateKeySize encoding
  | .getPublicKey encoding => GetterMeets memory uv uve made e.publicKey e.publicKeySize encoding
  | .generateKeys encoding seed => GenerateMeets memory uv uve made e encoding seed
  | .setPrivateKey none => False
  | .setPrivateKey (some privateKey) => ∀ key ∈ accepted privateKey, ImportMeets memory uve made e key
  | .computeSecret none => False
  | .computeSecret (some param) => SecretMeets memory uv uve made e param

def Supplied : EcdhCall → Prop
  | .generateKeys encoding _ => encoding ≠ none
  | .setPrivateKey privateKey => privateKey ≠ none
  | .computeSecret param => param.isSome = true
  | _ => True

def Meets (objects : List EcdhObject) : EcdhOp → Prop
  | .createECDH type memory => memory.allocates .object = true → type ≠ none
  | .call handle c memory => ∀ o ∈ objects[handle]?,
      (o.data = none → Supplied c) ∧ ∀ e ∈ o.data, CallMeets memory uv uve o.made e c

variable {memory uv uve}

section Getters

variable {block : Option Bytes}

theorem getKey_of_contains (hsized : uve.Sized) {n : ℕ} {key : Bytes} (h : Contains block n key)
    (encoding : Option CString) : getKey memory uv uve block n encoding =
      if memory.allocates .output = false then .error .null
      else (encoded uv uve encoding key).elim (.error .null) (fun shown =>
        if memory.allocates .value = false then .error .overrun
        else .ok (some (.fromBuff shown.1 (shown.2.getD false)))) := by
  unfold getKey
  rw [encodingData_of_contains hsized h]
  cases encoded uv uve encoding key <;> rfl

theorem refused_iff (hsized : uve.Sized) {n : ℕ} {key : Bytes} (h : Contains block n key)
    (encoding : Option CString) : Refused uv uve encoding block n ↔ encoded uv uve encoding key = none := by
  unfold Refused
  simp only [encodingData_of_contains hsized h]
  cases encoded uv uve encoding key with
  | none => simp
  | some shown =>
    refine iff_of_false (fun h => ?_) (by simp)
    exact absurd (h .null) (by simp)

theorem refused_or_read (encoding : Option CString) (n : ℕ) : Refused uv uve encoding none n ∨
    ∀ e, encodingData uv uve encoding none n e = .error .overrun := by
  unfold Refused
  cases encoding with
  | none => exact .inr (fun e => rfl)
  | some encoding =>
    simp only [encodingData,true_or,if_true]
    split_ifs
    · exact .inl (fun e => rfl)
    · exact .inr (fun e => rfl)
    · exact .inr (fun e => rfl)
    · exact .inl (fun e => rfl)

/-- A getter answers with the key of a pair and within its buffers exactly under its condition. -/
theorem getKey_answers_iff (hsized : uve.Sized) {made : Option EcdhPair} {key : EcdhPair → Bytes}
    {n : ℕ} (hholds : ∀ pair ∈ made, Contains block n (key pair)) (hfits : ∀ bytes ∈ block, n ≤ bytes.length)
    (encoding : Option CString) :
    (getKey memory uv uve block n encoding ≠ .error .overrun ∧
      ∀ value, getKey memory uv uve block n encoding = .ok value →
        ∃ pair ∈ made, Shows uv uve encoding (key pair) value) ↔
      GetterMeets memory uv uve made block n encoding := by
  unfold GetterMeets
  cases made with
  | some pair =>
    rw [refused_iff hsized (hholds pair rfl),getKey_of_contains hsized (hholds pair rfl)]
    cases hout : memory.allocates .output <;> cases hvalue : memory.allocates .value <;>
      cases hshown : encoded uv uve encoding (key pair) <;> simp [Shows,hshown]
    exact ⟨_,_,rfl,rfl⟩
  | none =>
    cases block with
    | none =>
      rcases refused_or_read encoding n with h | h
      · refine iff_of_true ?_ (.inr (.inl h))
        unfold getKey
        rw [h .null]
        split_ifs <;> simp
      · have hread : ¬ Refused uv uve encoding none n := fun hrefused => by
          have := (h .null).symm.trans (hrefused .null)
          cases this
        unfold getKey
        rw [h .null]
        cases memory.allocates .output <;> simp [hread]
    | some block =>
      have hcontains := contains_take (hfits block rfl)
      rw [refused_iff hsized hcontains,getKey_of_contains hsized hcontains]
      cases hout : memory.allocates .output <;> cases hvalue : memory.allocates .value <;>
        cases hshown : encoded uv uve encoding (block.take n) <;> simp

end Getters

section Failures

variable {c : EcdhCall} {o : EcdhObject}

theorem faithful_same_iff {result : Except EcdhStop (Option CryptoValue)}
    (hholds : ∀ e ∈ o.data, ∀ pair ∈ o.made, Holds e pair) : Faithful memory uv uve o c ⟨result,o⟩ ↔
      result ≠ .error .overrun ∧ ∀ value, result = .ok value → Answers memory uv uve o.made c value := by
  constructor
  · intro h
    exact ⟨h.bounds,h.answer⟩
  · rintro ⟨hbounds,hanswer⟩
    exact ⟨hbounds,hanswer,hholds,fun _ _ => rfl⟩

theorem faithful_failed_iff {e e' : CryptoECDH} {stop : EcdhStop}
    (hdata : o.data = some e) (hstop : stop ≠ .overrun) :
    Faithful memory uv uve o c ⟨.error stop,⟨some e',o.made⟩⟩ ↔ (∀ pair ∈ o.made, Holds e' pair) ∧
      e'.privateKeySize = e.privateKeySize ∧ e'.publicKeySize = e.publicKeySize := by
  constructor
  · intro h
    exact ⟨h.holds e' rfl,by simpa [hdata] using h.sizes stop rfl⟩
  · rintro ⟨hholds,hsizes⟩
    refine ⟨by simpa using hstop,by simp,?_,by simpa [hdata] using hsizes⟩
    intro e'' he''
    obtain rfl := Option.some.inj he''
    exact hholds

theorem faithful_unchanged {stop : EcdhStop} (hstop : stop ≠ .overrun)
    (hholds : ∀ e ∈ o.data, ∀ pair ∈ o.made, Holds e pair) : Faithful memory uv uve o c ⟨.error stop,o⟩ :=
  ⟨by simpa using hstop,by simp,hholds,fun _ _ => rfl⟩

theorem not_faithful_overrun {o object : EcdhObject} : ¬ Faithful memory uv uve o c ⟨.error .overrun,object⟩ :=
  fun h => h.bounds rfl

end Failures

section Allocation

variable (memory) in
def allocated (e : CryptoECDH) : CryptoECDH :=
  { e with
    publicKey := some (fresh memory .publicKey e.publicKeySize)
    privateKey := some (fresh memory .privateKey e.privateKeySize) }

theorem allocateKeys_of_allocated (h : KeysAllocated memory) (e : CryptoECDH) :
    allocateKeys memory e = (true,allocated memory e) := by
  simp [allocateKeys,h.1,h.2,allocated]

theorem allocateKeys_of_not_allocated (h : ¬ KeysAllocated memory) (e : CryptoECDH) :
    ∃ e', allocateKeys memory e = (false,e') ∧ e'.publicKey = none ∧
      e'.privateKeySize = e.privateKeySize ∧ e'.publicKeySize = e.publicKeySize ∧ (Fits e → Fits e') := by
  unfold allocateKeys
  cases hpublic : memory.allocates .publicKey with
  | false => exact ⟨_,rfl,rfl,rfl,rfl,fun hfits => ⟨hfits.privateKey,by simp⟩⟩
  | true =>
    have hprivate : memory.allocates .privateKey = false := by
      by_contra hprivate
      exact h ⟨hpublic,by simpa using hprivate⟩
    simp only [hprivate]
    exact ⟨_,rfl,rfl,rfl,rfl,fun hfits => ⟨by simp,by simp⟩⟩

@[simp] theorem fresh_length (b : EcdhBuffer) (size : ℕ) : (fresh memory b size).length = size := by
  simp [fresh]

theorem allocated_fits (e : CryptoECDH) : Fits (allocated memory e) := by
  constructor <;> simp [allocated]

theorem holds_unwritten (e : CryptoECDH) : Holds (allocated memory e) (unwritten memory e) := by
  constructor
  · exact ⟨[],by simp [allocated,unwritten],by simp [allocated,unwritten]⟩
  · exact ⟨[],by simp [allocated,unwritten],by simp [allocated,unwritten]⟩

theorem holds_allocated_iff (e : CryptoECDH) (pair : EcdhPair) :
    Holds (allocated memory e) pair ↔ pair = unwritten memory e := by
  constructor
  · intro h
    exact h.unique (holds_unwritten e)
  · rintro rfl
    exact holds_unwritten e

theorem faithful_lost_iff {o : EcdhObject} {e e' : CryptoECDH} {c : EcdhCall} {stop : EcdhStop}
    (hdata : o.data = some e) (hstop : stop ≠ .overrun) (hpublic : e'.publicKey = none)
    (hsizes : e'.privateKeySize = e.privateKeySize ∧ e'.publicKeySize = e.publicKeySize) :
    Faithful memory uv uve o c ⟨.error stop,⟨some e',o.made⟩⟩ ↔ o.made = none := by
  rw [faithful_failed_iff hdata hstop,and_iff_left hsizes]
  constructor
  · intro h
    cases hmade : o.made with
    | none => rfl
    | some pair =>
      obtain ⟨rest,hrest,-⟩ := (h pair hmade).publicKey
      rw [hpublic] at hrest
      cases hrest
  · intro h pair hpair
    rw [h] at hpair
    cases hpair

theorem faithful_allocated_iff {o : EcdhObject} {e : CryptoECDH} {c : EcdhCall} {stop : EcdhStop}
    (hdata : o.data = some e) (hstop : stop ≠ .overrun) :
    Faithful memory uv uve o c ⟨.error stop,⟨some (allocated memory e),o.made⟩⟩ ↔
      ∀ pair ∈ o.made, pair = unwritten memory e := by
  rw [faithful_failed_iff hdata hstop]
  simp only [holds_allocated_iff]
  exact and_iff_left ⟨rfl,rfl⟩

end Allocation

section Generation

def renewed (e : CryptoECDH) (pair : EcdhPair) : CryptoECDH :=
  { store e pair with publicKeySize := pair.publicKey.length }

variable {e : CryptoECDH} {pair : EcdhPair}

theorem renewed_holds (hlength : pair.privateKey.length = e.privateKeySize) :
    Holds (renewed (allocated memory e) pair) pair := by
  constructor
  · change Contains (some (fill _ _)) e.privateKeySize _
    rw [← hlength]
    exact contains_fill _ _
  · exact contains_fill _ _

theorem generated_of_holds (hsized : uve.Sized) (h : Holds e pair)
    (encoding : Option CString) : generated memory uv uve encoding e =
      if memory.allocates .output = false then .error (.refused "malloc output failed" general)
      else (encoded uv uve encoding pair.publicKey).elim (.error (.refused "ecdh_get_encoding_data failed" general))
        (fun shown => .ok (some (.fromBuff shown.1 (shown.2.getD false)))) := by
  unfold generated
  rw [encodingData_of_contains hsized h.publicKey]
  cases encoded uv uve encoding pair.publicKey <;> rfl

/-- A call of `generateKeys` that has made a pair does what is promised unless it fails and another pair is lost. -/
theorem generated_faithful_iff (hsized : uve.Sized) {o : EcdhObject} (hdata : o.data = some e)
    (hlength : pair.privateKey.length = e.privateKeySize) (encoding : Option CString)
    {arg : Option (Option CString)} {seed : ℕ} :
    Faithful memory uv uve o (.generateKeys arg seed)
      ⟨generated memory uv uve encoding (renewed (allocated memory e) pair),⟨some (renewed (allocated memory e) pair),
        madeBy (generated memory uv uve encoding (renewed (allocated memory e) pair)) pair o.made⟩⟩ ↔
      (memory.allocates .output = false ∨ encoded uv uve encoding pair.publicKey = none →
        pair.publicKey.length = e.publicKeySize ∧ ∀ old ∈ o.made, old = pair) := by
  have hholds := @renewed_holds memory e pair hlength
  have hfailed (stop : EcdhStop) (hstop : stop ≠ .overrun) : Faithful memory uv uve o (.generateKeys arg seed)
        ⟨.error stop,⟨some (renewed (allocated memory e) pair),o.made⟩⟩ ↔
        pair.publicKey.length = e.publicKeySize ∧ ∀ old ∈ o.made, old = pair := by
    rw [faithful_failed_iff hdata hstop]
    constructor
    · rintro ⟨hold,-,hsize⟩
      exact ⟨hsize,fun old hmade => (hold old hmade).unique hholds⟩
    · rintro ⟨hsize,hold⟩
      refine ⟨fun old hmade => ?_,rfl,hsize⟩
      rw [hold old hmade]
      exact hholds
  rw [generated_of_holds hsized hholds]
  cases hout : memory.allocates .output with
  | false =>
    rw [if_pos rfl]
    exact (hfailed _ (by simp)).trans (by simp)
  | true =>
    cases hshown : encoded uv uve encoding pair.publicKey with
    | none => exact (hfailed _ (by simp)).trans (by simp)
    | some shown =>
      refine iff_of_true ⟨by simp,fun _ _ => trivial,?_,by simp⟩ (by simp)
      intro e' he' made hmade
      obtain rfl := Option.some.inj he'
      obtain rfl := Option.some.inj hmade
      exact hholds

/-- `generateKeys` does what is promised exactly under its condition. -/
theorem generateKeys_faithful_iff (hsized : uve.Sized) {o : EcdhObject} (hdata : o.data = some e)
    (encoding : Option (Option CString)) (seed : ℕ) :
    Faithful memory uv uve o (.generateKeys encoding seed) (generateKeys memory uv uve o e encoding seed) ↔
      GenerateMeets memory uv uve o.made e encoding seed := by
  unfold generateKeys
  by_cases hkeys : KeysAllocated memory
  · rw [allocateKeys_of_allocated hkeys]
    cases encoding with
    | none => exact iff_of_false not_faithful_overrun (fun h => h.supplied hkeys rfl)
    | some encoding =>
      have hpromised := hsized.generated seed e.privateKeySize e.publicKeySize
      have hsame : uve.generate seed (allocated memory e).privateKeySize (allocated memory e).publicKeySize =
          uve.generate seed e.privateKeySize e.publicKeySize := rfl
      simp only [hsame]
      cases hpair : uve.generate seed e.privateKeySize e.publicKeySize with
      | none =>
        refine (faithful_allocated_iff hdata (by simp)).trans ⟨fun h => ?_,fun h => h.kept hkeys hpair⟩
        exact ⟨by simp,fun hnot => absurd hkeys hnot,fun _ _ => h,by simp [hpair]⟩
      | some pair =>
        refine (generated_faithful_iff hsized hdata (hpromised pair hpair).1 encoding).trans ⟨fun h => ?_,fun h => ?_⟩
        · refine ⟨by simp,fun hnot => absurd hkeys hnot,by simp [hpair],?_⟩
          intro _ generated hgenerated enc henc
          obtain rfl := Option.some.inj (hpair.symm.trans hgenerated)
          obtain rfl := Option.some.inj henc
          exact h
        · exact h.replaced hkeys pair hpair encoding rfl
  · obtain ⟨e',hallocate,hpublic,hprivateSize,hpublicSize,-⟩ := allocateKeys_of_not_allocated hkeys e
    rw [hallocate]
    refine (faithful_lost_iff hdata (by simp) hpublic ⟨hprivateSize,hpublicSize⟩).trans ⟨fun h => ?_,fun h => h.lost hkeys⟩
    exact ⟨fun h => absurd h hkeys,fun _ => h,fun h => absurd h hkeys,fun h => absurd h hkeys⟩

end Generation

section Import

variable {e : CryptoECDH} {arg : Option (Option CryptoValue)} {o : EcdhObject} {pair : EcdhPair}

theorem faithful_made :
    Faithful memory uv uve o (.setPrivateKey arg) ⟨.ok none,⟨some e,some pair⟩⟩ ↔ Holds e pair := by
  constructor
  · intro h
    exact h.holds e rfl pair rfl
  · intro h
    refine ⟨by simp,fun _ _ => trivial,?_,by simp⟩
    intro e' he' made hmade
    obtain rfl := Option.some.inj he'
    obtain rfl := Option.some.inj hmade
    exact h

theorem store_holds (hprivate : pair.privateKey.length = e.privateKeySize)
    (hpublic : pair.publicKey.length = e.publicKeySize) : Holds (store (allocated memory e) pair) pair := by
  constructor
  · change Contains (some (fill _ _)) e.privateKeySize _
    rw [← hprivate]
    exact contains_fill _ _
  · change Contains (some (fill _ _)) e.publicKeySize _
    rw [← hpublic]
    exact contains_fill _ _

theorem fill_length {block bytes : Bytes} (h : bytes.length ≤ block.length) :
    (fill block bytes).length = block.length := by
  simp only [fill,List.length_append,List.length_drop]
  omega

/-- A pair whose public key is short leaves the rest of its buffer behind it. -/
theorem holds_store_iff (hprivate : pair.privateKey.length = e.privateKeySize)
    (hpublic : pair.publicKey.length ≤ e.publicKeySize) (old : EcdhPair) :
    Holds (store (allocated memory e) pair) old ↔
      old = ⟨pair.privateKey,fill (fresh memory .publicKey e.publicKeySize) pair.publicKey⟩ := by
  have hstored : Holds (store (allocated memory e) pair)
      ⟨pair.privateKey,fill (fresh memory .publicKey e.publicKeySize) pair.publicKey⟩ := by
    constructor
    · change Contains (some (fill _ _)) e.privateKeySize _
      rw [← hprivate]
      exact contains_fill _ _
    · refine ⟨[],by simp [store,allocated],?_⟩
      rw [fill_length (by simpa using hpublic)]
      simp [store,allocated]
  constructor
  · intro h
    exact h.unique hstored
  · rintro rfl
    exact hstored

/-- The key of `setPrivateKey` as text. -/
theorem importKey_text_iff (hsized : uve.Sized) (hdata : o.data = some e)
    {key : CryptoBuff} (htext : key.isText = true) (hkeys : KeysAllocated memory) :
    Faithful memory uv uve o (.setPrivateKey arg) (importKey uve o (allocated memory e) key) ↔
      ImportMeets memory uve o.made e key := by
  have hpromised := hsized.parsed key.bytes e.privateKeySize e.publicKeySize
  have hsame : uve.fromPem key.bytes (allocated memory e).privateKeySize (allocated memory e).publicKeySize =
      uve.fromPem key.bytes e.privateKeySize e.publicKeySize := rfl
  have hsize : (allocated memory e).publicKeySize = e.publicKeySize := rfl
  unfold importKey
  rw [if_pos htext,hsame,hsize]
  cases hpair : uve.fromPem key.bytes e.privateKeySize e.publicKeySize with
  | none =>
    refine (faithful_allocated_iff hdata (by simp)).trans ⟨fun h => ?_,fun h => h.text hkeys htext hpair⟩
    exact ⟨fun hnot => absurd hkeys hnot,fun _ _ _ => h,by simp [hpair],by simp [htext],by simp [htext]⟩
  | some pair =>
    obtain ⟨hprivate,hpublic⟩ := hpromised pair hpair
    by_cases hfull : pair.publicKey.length = e.publicKeySize
    · simp only [hfull,ne_eq,not_true_eq_false,if_false]
      refine iff_of_true (faithful_made.mpr (store_holds hprivate hfull)) ?_
      refine ⟨fun hnot => absurd hkeys hnot,by simp [hpair],?_,by simp [htext],by simp [htext]⟩
      intro _ _ parsed hparsed hshort
      obtain rfl := Option.some.inj (hpair.symm.trans hparsed)
      exact absurd hfull hshort
    · simp only [ne_eq,hfull,not_false_eq_true,if_true]
      refine (faithful_failed_iff hdata (by simp)).trans ?_
      simp only [holds_store_iff hprivate hpublic]
      constructor
      · rintro ⟨h,-⟩
        refine ⟨fun hnot => absurd hkeys hnot,by simp [hpair],?_,by simp [htext],by simp [htext]⟩
        intro _ _ parsed hparsed _
        obtain rfl := Option.some.inj (hpair.symm.trans hparsed)
        exact h
      · intro h
        exact ⟨h.short hkeys htext pair hpair hfull,rfl,rfl⟩

/-- The key of `setPrivateKey` as bytes. -/
theorem importKey_binary_iff (hdata : o.data = some e)
    {key : CryptoBuff} (htext : key.isText = false) (hkeys : KeysAllocated memory) :
    Faithful memory uv uve o (.setPrivateKey arg) (importKey uve o (allocated memory e) key) ↔
      ImportMeets memory uve o.made e key := by
  have hpublicSize : (allocated memory e).publicKeySize = e.publicKeySize := rfl
  have hprivateSize : (allocated memory e).privateKeySize = e.privateKeySize := rfl
  unfold importKey
  simp only [htext,Bool.false_eq_true,if_false,hpublicSize,hprivateSize]
  cases hkey : uve.publicOf key.bytes e.publicKeySize with
  | none =>
    refine (faithful_allocated_iff hdata (by simp)).trans ⟨fun h => ?_,fun h => h.binary hkeys htext hkey⟩
    exact ⟨fun hnot => absurd hkeys hnot,by simp [htext],by simp [htext],fun _ _ _ => h,by simp [hkey]⟩
  | some publicKey =>
    have hmeets : ImportMeets memory uve o.made e key ↔
        publicKey.length = e.publicKeySize ∧ key.bytes.length ≤ e.privateKeySize := by
      constructor
      · intro h
        exact h.fits hkeys htext publicKey hkey
      · intro h
        refine ⟨fun hnot => absurd hkeys hnot,by simp [htext],by simp [htext],by simp [hkey],?_⟩
        intro _ _ other hother
        obtain rfl := Option.some.inj (hkey.symm.trans hother)
        exact h
    rw [hmeets]
    by_cases hfull : publicKey.length = e.publicKeySize
    · simp only [hfull,ne_eq,not_true_eq_false,if_false,true_and]
      by_cases hlong : e.privateKeySize < key.bytes.length
      · rw [if_pos hlong]
        exact iff_of_false not_faithful_overrun (by omega)
      · rw [if_neg hlong]
        refine iff_of_true (faithful_made.mpr ⟨contains_fill _ _,?_⟩) (by omega)
        change Contains (some (fill _ _)) e.publicKeySize _
        rw [← hfull]
        exact contains_fill _ _
    · simp only [ne_eq,hfull,not_false_eq_true,if_true,false_and]
      refine iff_of_false (fun h => ?_) (fun h => h)
      obtain ⟨-,-,hsize⟩ := (faithful_made.mp h).publicKey
      exact hfull hsize.symm

/-- `setPrivateKey` does what is promised exactly under its condition. -/
theorem setPrivateKey_faithful_iff (hsized : uve.Sized) (hdata : o.data = some e)
    (hholds : ∀ pair ∈ o.made, Holds e pair) (privateKey : Option CryptoValue) :
    Faithful memory uv uve o (.setPrivateKey (some privateKey)) (setPrivateKey memory uve o e privateKey) ↔
      ∀ key ∈ accepted privateKey, ImportMeets memory uve o.made e key := by
  have hunchanged {stop : EcdhStop} (hstop : stop ≠ .overrun) :
      Faithful memory uv uve o (.setPrivateKey (some privateKey)) ⟨.error stop,o⟩ := by
    apply faithful_unchanged hstop
    intro e' he'
    obtain rfl := Option.some.inj (hdata.symm.trans he')
    exact hholds
  unfold setPrivateKey
  cases privateKey with
  | none => exact iff_of_true (hunchanged (by simp)) (by simp [accepted])
  | some value =>
    simp only [accepted,Option.bind_some]
    cases hkey : value.getBuff.filter (fun key => key.bytes ≠ []) with
    | none => exact iff_of_true (hunchanged (by simp)) (by simp)
    | some key =>
      simp only [Option.mem_some_iff,forall_eq']
      by_cases hkeys : KeysAllocated memory
      · rw [allocateKeys_of_allocated hkeys]
        cases htext : key.isText with
        | true => exact importKey_text_iff hsized hdata htext hkeys
        | false => exact importKey_binary_iff hdata htext hkeys
      · obtain ⟨e',hallocate,hpublic,hprivateSize,hpublicSize,-⟩ := allocateKeys_of_not_allocated hkeys e
        rw [hallocate]
        refine (faithful_lost_iff hdata (by simp) hpublic ⟨hprivateSize,hpublicSize⟩).trans
          ⟨fun h => ?_,fun h => h.lost hkeys⟩
        exact ⟨fun _ => h,fun h => absurd h hkeys,fun h => absurd h hkeys,fun h => absurd h hkeys,
          fun h => absurd h hkeys⟩

end Import

section Secrets

theorem presentSecret_eq (hsized : uve.Sized) (encoding : Option CString) (isText : Bool) (secret : Bytes) :
    presentSecret memory uv uve encoding isText secret =
      if memory.allocates .output = false then .error (.refused "malloc output failed" general)
      else (encoded uv uve encoding secret).elim (.error (.refused "ecdh_get_encoding_data failed" argsError))
        (fun out => match out with
          | (bytes,some isText) => .ok (some (.fromBuff bytes isText))
          | (bytes,none) =>
            if isText = true then
              if 0 ∈ fill (fresh memory .output (2 * secret.length + 1)) bytes then
                .ok (some (.fromBuff (fill (fresh memory .output (2 * secret.length + 1)) bytes) true))
              else .error .overrun
            else .ok (some (.fromBuff bytes false))) := by
  have hwhole : Contains (some secret) secret.length secret := ⟨[],by simp,rfl⟩
  unfold presentSecret
  rw [encodingData_of_contains hsized hwhole]
  cases encoded uv uve encoding secret with
  | none => rfl
  | some out => rcases out with ⟨bytes,_ | isText'⟩ <;> rfl

variable {encoding : Option CString}

theorem encoded_plain {key bytes : Bytes} (h : encoded uv uve encoding key = some (bytes,none)) : bytes = key := by
  unfold encoded at h
  cases encoding with
  | none => simpa using (Option.some.inj h).symm
  | some encoding =>
    simp only at h
    split_ifs at h <;> simp at h

theorem presentSecret_cases (hsized : uve.Sized) (isText : Bool) (secret : Bytes) :
    ((memory.allocates .output = true → encoded uv uve encoding secret = none) ∧
        ∃ message code, presentSecret memory uv uve encoding isText secret = .error (.refused message code)) ∨
      memory.allocates .output = true ∧ ∃ out, encoded uv uve encoding secret = some out ∧
        (Terminated memory isText secret out ∧ (∃ value, presentSecret memory uv uve encoding isText secret = .ok value) ∨
          ¬ Terminated memory isText secret out ∧ presentSecret memory uv uve encoding isText secret = .error .overrun) := by
  rw [presentSecret_eq hsized]
  cases memory.allocates .output with
  | false => exact .inl ⟨by simp,_,_,rfl⟩
  | true =>
    cases hout : encoded uv uve encoding secret with
    | none => exact .inl ⟨by simp,_,_,rfl⟩
    | some out =>
      refine .inr ⟨rfl,out,rfl,?_⟩
      rcases out with ⟨bytes,_ | isText'⟩
      · obtain rfl := encoded_plain hout
        simp only [Terminated]
        by_cases hzero : 0 ∈ fill (fresh memory .output (2 * bytes.length + 1)) bytes
        · cases isText <;> simp [hzero]
        · cases isText <;> simp [hzero]
      · simp [Terminated]

theorem presentSecret_overruns_iff (hsized : uve.Sized) {isText : Bool} {secret : Bytes} :
    presentSecret memory uv uve encoding isText secret = .error .overrun ↔
      memory.allocates .output = true ∧ ∃ out ∈ encoded uv uve encoding secret, ¬ Terminated memory isText secret out := by
  obtain ⟨hnone,message,code,h⟩ | ⟨hallocates,out,hout,⟨hends,value,h⟩ | ⟨hends,h⟩⟩ :=
    presentSecret_cases hsized isText secret
  · rw [h]
    exact iff_of_false (by simp) (fun ⟨hallocates,out,hmem,_⟩ => by simp [hnone hallocates] at hmem)
  · simp [h,hout,hends]
  · simp [h,hallocates,hout,hends]

theorem presentSecret_ok_iff (hsized : uve.Sized) {isText : Bool} {secret : Bytes} :
    (∃ value, presentSecret memory uv uve encoding isText secret = .ok value) ↔
      memory.allocates .output = true ∧ ∃ out ∈ encoded uv uve encoding secret, Terminated memory isText secret out := by
  obtain ⟨hnone,message,code,h⟩ | ⟨hallocates,out,hout,⟨hends,value,h⟩ | ⟨hends,h⟩⟩ :=
    presentSecret_cases hsized isText secret
  · rw [h]
    exact iff_of_false (by simp) (fun ⟨hallocates,out,hmem,_⟩ => by simp [hnone hallocates] at hmem)
  · simp [h,hallocates,hout,hends]
  · simp [h,hout,hends]

theorem otherKey_bounds (param : ComputeParam) : otherKey memory uv param ≠ .error .overrun := by
  unfold otherKey
  cases param.otherPublicKey with
  | none => simp
  | some value =>
    simp only
    cases value.getBuff.filter (fun key => key.bytes ≠ []) with
    | none => simp
    | some key =>
      unfold decodingData
      repeat' (first | split | simp)

theorem presentSecret_faithful_iff (hsized : uve.Sized) {made : Option EcdhPair} {param : ComputeParam} {n : ℕ}
    {key other secret : Bytes} {isText : Bool} (hkey : ∀ pair ∈ made, key = pair.privateKey ∧ n = pair.privateKey.length)
    (hother : otherKey memory uv param = .ok (other,isText)) (hsecret : uve.shared key other n = some secret) :
    (presentSecret memory uv uve param.outputEncoding isText secret ≠ .error .overrun ∧
      ∀ value, presentSecret memory uv uve param.outputEncoding isText secret = .ok value →
        ∃ pair ∈ made, Shares memory uv uve param pair.privateKey value) ↔
      (memory.allocates .output = true → ∀ out ∈ encoded uv uve param.outputEncoding secret,
        made ≠ none ∧ Terminated memory isText secret out) := by
  have hanswer : (∀ value, presentSecret memory uv uve param.outputEncoding isText secret = .ok value →
      ∃ pair ∈ made, Shares memory uv uve param pair.privateKey value) ↔
      ((∃ value, presentSecret memory uv uve param.outputEncoding isText secret = .ok value) → made ≠ none) := by
    constructor
    · rintro h ⟨value,hvalue⟩ hmade
      obtain ⟨pair,hpair,-⟩ := h value hvalue
      rw [hmade] at hpair
      cases hpair
    · intro h value hvalue
      obtain ⟨pair,hpair⟩ := Option.ne_none_iff_exists'.mp (h ⟨value,hvalue⟩)
      obtain ⟨rfl,rfl⟩ := hkey pair hpair
      exact ⟨pair,hpair,other,isText,secret,hother,hsecret,hvalue⟩
  rw [hanswer,presentSecret_ok_iff hsized,ne_eq,presentSecret_overruns_iff hsized]
  constructor
  · rintro ⟨hbounds,hmade⟩ houtput out hout
    have hterminated : Terminated memory isText secret out := by
      by_contra hnot
      exact hbounds ⟨houtput,out,hout,hnot⟩
    exact ⟨hmade ⟨houtput,out,hout,hterminated⟩,hterminated⟩
  · intro h
    constructor
    · rintro ⟨houtput,out,hout,hnot⟩
      exact hnot (h houtput out hout).2
    · rintro ⟨houtput,out,hout,-⟩
      exact (h houtput out hout).1

/-- `computeSecret` does what is promised exactly under its condition. -/
theorem computeSecret_faithful_iff (hsized : uve.Sized) {made : Option EcdhPair} {e : CryptoECDH}
    (hholds : ∀ pair ∈ made, Holds e pair) (hfits : Fits e) (param : ComputeParam) :
    (computeSecret memory uv uve e.privateKey e.privateKeySize param ≠ .error .overrun ∧
      ∀ value, computeSecret memory uv uve e.privateKey e.privateKeySize param = .ok value →
        ∃ pair ∈ made, Shares memory uv uve param pair.privateKey value) ↔
      SecretMeets memory uv uve made e param := by
  unfold computeSecret SecretMeets
  cases hother : otherKey memory uv param with
  | error stop =>
    refine iff_of_true ⟨fun hstop => ?_,by simp⟩ (by simp)
    obtain rfl : stop = .overrun := by simpa using hstop
    exact otherKey_bounds param hother
  | ok answer =>
    obtain ⟨other,isText⟩ := answer
    simp only [sharedSecret,Except.ok.injEq,Prod.mk.injEq,and_imp]
    cases hsecretAllocated : memory.allocates .secret with
    | false => simp
    | true =>
      cases hblock : e.privateKey with
      | none => simp [read]
      | some block =>
        have hread := read_of_contains (contains_take (hfits.privateKey block hblock))
        have hkey : ∀ pair ∈ made, block.take e.privateKeySize = pair.privateKey ∧
            e.privateKeySize = pair.privateKey.length := by
          intro pair hpair
          have hprivate := (hholds pair hpair).privateKey
          rw [hblock] at hprivate
          obtain ⟨rest,hrest,hlength⟩ := hprivate
          exact ⟨(contains_take (hfits.privateKey block hblock)).unique ⟨rest,hrest,hlength⟩,hlength⟩
        simp only [Bool.true_eq_false,if_false,hread]
        cases hsecret : uve.shared (block.take e.privateKeySize) other e.privateKeySize with
        | none => simp [hsecret]
        | some secret =>
          refine (presentSecret_faithful_iff hsized hkey hother hsecret).trans ⟨fun h => ?_,fun h => ?_⟩
          · rintro _ _ rfl rfl -
            refine ⟨by simp,fun block' hblock' secret' hsecret' => ?_⟩
            obtain rfl := Option.some.inj hblock'
            obtain rfl := Option.some.inj (hsecret.symm.trans hsecret')
            exact h
          · exact (h other isText rfl rfl trivial).2 block rfl secret hsecret

end Secrets

section Histories

/-- An object as the calls leave it: without data there is no pair, and otherwise the data hold it. -/
structure Sound (o : EcdhObject) : Prop where
  unmade : o.data = none → o.made = none
  holds : ∀ e ∈ o.data, ∀ pair ∈ o.made, Holds e pair
  fits : ∀ e ∈ o.data, Fits e

variable {o : EcdhObject} {e : CryptoECDH}

/-- A call of an object with data does what is promised exactly under its condition. -/
theorem call_faithful_iff (hsized : uve.Sized) (hsound : Sound o) (hdata : o.data = some e) (c : EcdhCall) :
    Faithful memory uv uve o c (call memory uv uve o c) ↔ CallMeets memory uv uve o.made e c := by
  have hholds := hsound.holds e hdata
  have hfits := hsound.fits e hdata
  cases c with
  | getPrivateKey encoding =>
    simp only [call,hdata]
    refine (faithful_same_iff hsound.holds).trans ?_
    exact getKey_answers_iff hsized (fun pair hpair => (hholds pair hpair).privateKey) hfits.privateKey encoding
  | getPublicKey encoding =>
    simp only [call,hdata]
    refine (faithful_same_iff hsound.holds).trans ?_
    exact getKey_answers_iff hsized (fun pair hpair => (hholds pair hpair).publicKey) hfits.publicKey encoding
  | generateKeys encoding seed =>
    simp only [call,hdata]
    exact generateKeys_faithful_iff hsized hdata encoding seed
  | setPrivateKey privateKey =>
    cases privateKey with
    | none => exact iff_of_false not_faithful_overrun (fun h => h)
    | some privateKey =>
      simp only [call,hdata]
      exact setPrivateKey_faithful_iff hsized hdata hholds privateKey
  | computeSecret param =>
    cases param with
    | none => exact iff_of_false not_faithful_overrun (fun h => h)
    | some param =>
      simp only [call,hdata]
      refine (faithful_same_iff hsound.holds).trans ?_
      exact computeSecret_faithful_iff hsized hholds hfits param

theorem call_without_data (hsound : Sound o) (hdata : o.data = none) (c : EcdhCall) :
    Faithful memory uv uve o c (call memory uv uve o c) ↔ Supplied c := by
  cases c with
  | getPrivateKey encoding =>
    simp only [call,hdata]
    exact iff_of_true (faithful_unchanged (by simp) hsound.holds) trivial
  | getPublicKey encoding =>
    simp only [call,hdata]
    exact iff_of_true (faithful_unchanged (by simp) hsound.holds) trivial
  | generateKeys encoding seed =>
    simp only [call,hdata]
    cases encoding with
    | none => exact iff_of_false not_faithful_overrun (by simp [Supplied])
    | some encoding => exact iff_of_true (faithful_unchanged (by simp [noObject]) hsound.holds) (by simp [Supplied])
  | setPrivateKey privateKey =>
    cases privateKey with
    | none => exact iff_of_false not_faithful_overrun (by simp [Supplied])
    | some privateKey =>
      simp only [call,hdata]
      exact iff_of_true (faithful_unchanged (by simp [noObject]) hsound.holds) (by simp [Supplied])
  | computeSecret param =>
    cases param with
    | none => exact iff_of_false not_faithful_overrun (by simp [Supplied])
    | some param =>
      simp only [call,hdata]
      exact iff_of_true (faithful_unchanged (by simp [noObject]) hsound.holds) (by simp [Supplied])

theorem length_le_fill (block bytes : Bytes) : bytes.length ≤ (fill block bytes).length := by
  simp [fill]

theorem length_le_fill' (block bytes : Bytes) : block.length ≤ (fill block bytes).length := by
  simp only [fill,List.length_append,List.length_drop]
  omega

theorem le_fill {n : ℕ} {block : Option Bytes} (h : ∀ b ∈ block, n ≤ b.length) (bytes : Bytes) :
    ∀ b ∈ block.map (fun b => fill b bytes), n ≤ b.length := by
  intro b hb
  obtain ⟨b',hb',rfl⟩ := Option.map_eq_some_iff.mp hb
  exact (h b' hb').trans (length_le_fill' b' bytes)

theorem le_fill_bytes {block : Option Bytes} (bytes : Bytes) :
    ∀ b ∈ block.map (fun b => fill b bytes), bytes.length ≤ b.length := by
  intro b hb
  obtain ⟨b',-,rfl⟩ := Option.map_eq_some_iff.mp hb
  exact length_le_fill b' bytes

theorem store_fits (hfits : Fits e) (pair : EcdhPair) : Fits (store e pair) :=
  ⟨le_fill hfits.privateKey _,le_fill hfits.publicKey _⟩

theorem generateKeys_fits (hfits : Fits e) (encoding : Option (Option CString))
    (seed : ℕ) : ∀ e' ∈ (generateKeys memory uv uve o e encoding seed).object.data, Fits e' := by
  unfold generateKeys
  by_cases hkeys : KeysAllocated memory
  · rw [allocateKeys_of_allocated hkeys]
    cases encoding with
    | none => simpa using allocated_fits e
    | some encoding =>
      simp only
      cases uve.generate seed (allocated memory e).privateKeySize (allocated memory e).publicKeySize with
      | none => simpa using allocated_fits e
      | some pair =>
        simp only [Option.mem_some_iff,forall_eq']
        exact ⟨(store_fits (allocated_fits e) pair).privateKey,@le_fill_bytes (allocated memory e).publicKey pair.publicKey⟩
  · obtain ⟨e',hallocate,-,-,-,hfits'⟩ := allocateKeys_of_not_allocated hkeys e
    rw [hallocate]
    simpa using hfits' hfits

theorem importKey_fits (hfits : Fits e) (key : CryptoBuff) : ∀ e' ∈ (importKey uve o e key).object.data, Fits e' := by
  unfold importKey
  by_cases htext : key.isText = true
  · rw [if_pos htext]
    cases uve.fromPem key.bytes e.privateKeySize e.publicKeySize with
    | none => simpa using hfits
    | some pair =>
      simp only
      split_ifs
      · simpa using store_fits hfits pair
      · simpa using store_fits hfits pair
  · rw [if_neg htext]
    cases uve.publicOf key.bytes e.publicKeySize with
    | none => simpa using hfits
    | some publicKey =>
      simp only
      split_ifs
      · rintro _ ⟨⟩
        exact ⟨hfits.privateKey,le_fill hfits.publicKey publicKey⟩
      · simpa using hfits
      · rintro _ ⟨⟩
        exact ⟨@le_fill_bytes e.privateKey key.bytes,le_fill hfits.publicKey publicKey⟩

theorem setPrivateKey_fits (hdata : o.data = some e) (hfits : Fits e)
    (privateKey : Option CryptoValue) : ∀ e' ∈ (setPrivateKey memory uve o e privateKey).object.data, Fits e' := by
  unfold setPrivateKey
  cases privateKey with
  | none => simpa [hdata] using hfits
  | some value =>
    simp only
    cases value.getBuff.filter (fun key => key.bytes ≠ []) with
    | none => simpa [hdata] using hfits
    | some key =>
      simp only
      by_cases hkeys : KeysAllocated memory
      · rw [allocateKeys_of_allocated hkeys]
        exact importKey_fits (allocated_fits e) key
      · obtain ⟨e',hallocate,-,-,-,hfits'⟩ := allocateKeys_of_not_allocated hkeys e
        rw [hallocate]
        simpa using hfits' hfits

theorem call_fits (hsound : Sound o) (c : EcdhCall) : ∀ e ∈ (call memory uv uve o c).object.data, Fits e := by
  have hfits := hsound.fits
  cases hdata : o.data with
  | none =>
    cases c with
    | getPrivateKey encoding => simp [call,hdata]
    | getPublicKey encoding => simp [call,hdata]
    | generateKeys encoding seed => simp [call,hdata]
    | setPrivateKey privateKey => cases privateKey <;> simp [call,hdata]
    | computeSecret param => cases param <;> simp [call,hdata]
  | some e =>
    have hfits := hsound.fits e hdata
    cases c with
    | getPrivateKey encoding => simpa [call,hdata] using hfits
    | getPublicKey encoding => simpa [call,hdata] using hfits
    | generateKeys encoding seed => simpa only [call,hdata] using generateKeys_fits hfits encoding seed
    | setPrivateKey privateKey =>
      cases privateKey with
      | none => simpa [call,hdata] using hfits
      | some privateKey => simpa only [call,hdata] using setPrivateKey_fits hdata hfits privateKey
    | computeSecret param => cases param <;> simpa [call,hdata] using hfits

theorem call_data (c : EcdhCall) : (call memory uv uve o c).object.data.isSome = o.data.isSome := by
  cases hdata : o.data with
  | none =>
    cases c with
    | setPrivateKey privateKey => cases privateKey <;> simp [call,hdata]
    | computeSecret param => cases param <;> simp [call,hdata]
    | _ => simp [call,hdata]
  | some e =>
    cases c with
    | getPrivateKey encoding => simp [call,hdata]
    | getPublicKey encoding => simp [call,hdata]
    | generateKeys encoding seed =>
      simp only [call,hdata,generateKeys]
      repeat' (first | rfl | split)
    | setPrivateKey privateKey =>
      cases privateKey with
      | none => simp [call,hdata]
      | some privateKey =>
        simp only [call,hdata,setPrivateKey,importKey]
        repeat' (first | rfl | split | simp [hdata])
    | computeSecret param => cases param <;> simp [call,hdata]

theorem sound_of_faithful (hsound : Sound o) {c : EcdhCall}
    (h : Faithful memory uv uve o c (call memory uv uve o c)) : Sound (call memory uv uve o c).object := by
  refine ⟨fun hnone => ?_,h.holds,call_fits hsound c⟩
  have hdata : o.data = none := by
    have hsome := @call_data memory uv uve o c
    rw [hnone] at hsome
    simpa using hsome.symm
  have hsame : (call memory uv uve o c).object = o := by
    cases c with
    | setPrivateKey privateKey => cases privateKey <;> simp [call,hdata]
    | computeSecret param => cases param <;> simp [call,hdata]
    | _ => simp [call,hdata]
  rw [hsame]
  exact hsound.unmade hdata

theorem createECDH_bounds_iff (type : Option CString) :
    createECDH memory type ≠ .error .overrun ↔ (memory.allocates .object = true → type ≠ none) := by
  unfold createECDH
  cases memory.allocates .object with
  | false => simp
  | true =>
    cases type with
    | none => simp
    | some type =>
      simp only [Bool.true_eq_false,if_false]
      cases checkCurveType type with
      | none => simp
      | some cfg =>
        simp only
        split <;> simp

theorem createECDH_sound {type : Option CString} (h : createECDH memory type = .ok o) : Sound o := by
  have hempty : Sound ⟨none,none⟩ := ⟨fun _ => rfl,by simp,by simp⟩
  unfold createECDH at h
  split_ifs at h with hobject
  · obtain rfl := Except.ok.inj h
    exact hempty
  · cases type with
    | none => simp at h
    | some type =>
      simp only at h
      cases hcfg : checkCurveType type with
      | none =>
        rw [hcfg] at h
        obtain rfl := Except.ok.inj h
        exact hempty
      | some cfg =>
        rw [hcfg] at h
        by_cases hkeys : KeysAllocated memory
        · simp only [allocateKeys_of_allocated hkeys] at h
          obtain rfl := Except.ok.inj h
          exact ⟨by simp,by simp,by simpa using allocated_fits _⟩
        · obtain ⟨e',hallocate,-⟩ := allocateKeys_of_not_allocated hkeys ⟨none,cfg.privateKeySize,none,cfg.publicKeySize⟩
          simp only [hallocate] at h
          obtain rfl := Except.ok.inj h
          exact hempty

/-- An operation that does what is promised of it leaves every object sound. -/
theorem step_sound {objects : List EcdhObject} (hsound : ∀ o ∈ objects, Sound o) {op : EcdhOp}
    (h : Right uv uve objects op) : ∀ o ∈ step uv uve objects op, Sound o := by
  cases op with
  | createECDH type memory =>
    cases hcreated : createECDH memory type with
    | error stop => simpa only [step,hcreated] using hsound
    | ok o =>
      simp only [step,hcreated,List.mem_append,List.mem_singleton]
      rintro o' (ho' | rfl)
      · exact hsound o' ho'
      · exact createECDH_sound hcreated
  | call handle c memory =>
    intro o' ho'
    obtain ⟨i,hi⟩ := List.mem_iff_getElem?.mp ho'
    simp only [step,List.getElem?_modify] at hi
    obtain ⟨o,ho,rfl⟩ := Option.map_eq_some_iff.mp hi
    have hold := hsound o (List.mem_of_getElem? ho)
    split_ifs with hhandle
    · subst hhandle
      exact sound_of_faithful hold (h o ho)
    · exact hold

theorem op_right_iff_meets (hsized : uve.Sized) {objects : List EcdhObject} (hsound : ∀ o ∈ objects, Sound o)
    (op : EcdhOp) : Right uv uve objects op ↔ Meets uv uve objects op := by
  cases op with
  | createECDH type memory => exact createECDH_bounds_iff type
  | call handle c memory =>
    refine forall₂_congr fun o ho => ?_
    have hold := hsound o (List.mem_of_getElem? ho)
    cases hdata : o.data with
    | none =>
      rw [call_without_data hold hdata]
      simp
    | some e =>
      rw [call_faithful_iff hsized hold hdata]
      simp

end Histories

/-- Along every sequence of calls the objects do what is promised of them as long as, and no longer than, the calls
meet their conditions: a getter or a secret finds a pair, a key fits its buffer, and a call that fails after it has
given an object new buffers does so before there is a pair. -/
theorem key_pairs_kept_iff (uv : UvCrypto) (uve : UvEcdh) (hsized : uve.Sized) (ops : List EcdhOp) :
    Transition.Guarded (step uv uve) (Right uv uve) [] ops ↔ Transition.Guarded (step uv uve) (Meets uv uve) [] ops :=
  Transition.guarded_iff (I := fun objects => ∀ o ∈ objects, Sound o) (fun _ op hsound => op_right_iff_meets hsized hsound op)
    (fun _ _ hsound hright => step_sound hsound hright) (by simp) ops

def plentiful : EcdhMemory := ⟨fun _ => true,fun _ _ => 0⟩

def unitPair : EcdhPair where
  privateKey := List.replicate 31 0 ++ [1]
  publicKey := [4,107,23,209,242,225,44,66,71,248,188,230,229,99,164,64,242,119,3,125,129,45,235,
    51,160,244,161,57,69,216,152,194,150,79,227,66,226,254,26,127,155,142,231,235,74,
    124,15,158,22,43,206,51,87,107,49,94,206,203,182,64,104,55,191,81,245]

def unitPrimitives : UvEcdh where
  generate := fun _ n m => if n = 32 ∧ m = 65 then some unitPair else none
  fromPem := fun _ _ _ => none
  publicOf := fun _ _ => none
  shared := fun _ _ _ => none
  hexify := fun bytes => bytes.flatMap (fun b => [b / 16,b % 16].map (fun digit => if digit < 10 then 48 + digit else 87 + digit))

def noPrimitives : UvCrypto where
  base64Encode := fun _ => none
  base64Decode := fun _ => none
  rsa := fun _ _ _ => none
  aes := fun _ _ _ _ _ _ => ⟨0,none⟩
  aesAuth := fun _ _ _ _ _ _ _ _ _ => ⟨0,none⟩

theorem unitPrimitives_sized : unitPrimitives.Sized where
  generated := by
    intro seed n m pair hpair
    simp only [unitPrimitives] at hpair
    split_ifs at hpair with hsizes
    · obtain ⟨rfl,rfl⟩ := hsizes
      obtain rfl := Option.some.inj hpair
      decide
    · cases hpair
  parsed := by simp [unitPrimitives]
  derived := by simp [unitPrimitives]
  digits := by
    intro bytes
    simp only [unitPrimitives]
    induction bytes with
    | nil => simp
    | cons b bytes ih =>
      simp only [List.flatMap_cons,List.length_append,List.length_cons]
      simp only [List.length_map,List.length_cons,List.length_nil]
      omega

def generatedAndRead : List EcdhOp :=
  [.createECDH (some "secp256r1".toList) plentiful,.call 0 (.generateKeys (some none) 0) plentiful,
    .call 0 (.getPrivateKey none) plentiful]

def newObject : EcdhObject := ⟨some (allocated plentiful ⟨none,32,none,65⟩),none⟩

def unitObject : EcdhObject := ⟨some (renewed (allocated plentiful ⟨none,32,none,65⟩) unitPair),some unitPair⟩

theorem generated_pair_kept : Transition.Guarded (step noPrimitives unitPrimitives) (Right noPrimitives unitPrimitives)
    [] generatedAndRead := by
  apply (key_pairs_kept_iff noPrimitives unitPrimitives unitPrimitives_sized generatedAndRead).mpr
  refine ⟨by simp [Meets],?_,?_,trivial⟩
  · intro o ho
    obtain rfl : newObject = o := Option.some.inj ho
    refine ⟨by simp [newObject],?_⟩
    rintro e ⟨⟩
    refine ⟨by simp,by simp [newObject],by simp [newObject],?_⟩
    intro _ generated hgenerated _ _ _
    have hunit : unitPrimitives.generate 0 32 65 = some unitPair := rfl
    obtain rfl := Option.some.inj (hunit.symm.trans hgenerated)
    exact ⟨rfl,by simp [newObject]⟩
  · intro o ho
    obtain rfl : unitObject = o := Option.some.inj ho
    refine ⟨by simp [unitObject],?_⟩
    rintro e ⟨⟩
    exact .inr (.inr ⟨rfl,rfl⟩)

/-- A key is read from an object that has none. -/
theorem unwritten_key_returned : ¬ ∀ (uv : UvCrypto) (uve : UvEcdh), uve.Sized → ∀ ops : List EcdhOp,
    Transition.Guarded (step uv uve) (Right uv uve) [] ops := by
  intro h
  have hright := (h noPrimitives unitPrimitives unitPrimitives_sized
    [.createECDH (some "secp256r1".toList) plentiful,.call 0 (.getPrivateKey none) plentiful]).2.1
  obtain ⟨pair,hpair,-⟩ := (hright newObject rfl).answer _ rfl
  cases hpair

end Ecdh
end FeatureRuntime
