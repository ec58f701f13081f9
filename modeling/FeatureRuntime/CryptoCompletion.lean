import FeatureRuntime.AesBuffers
import FeatureRuntime.CallbackManager
import FeatureRuntime.CryptoSigning
import FeatureRuntime.RequestRun

/-! What the calls of `system.crypto` tell of their operations, and when it is the truth. -/
namespace FeatureRuntime

open Traced ReplyEvent

inductive CryptoCall
  | hmacDigest (param : Option HmacDigestParam)
  | sign (param : Option SignParam)
  | verify (param : Option RSAVerifyParam)
  | crypt (op : CryptoOperation) (param : Option CryptParam)

/-- A call of the script, with the instance and its callback ids. -/
structure CryptoRequest where
  feature : ℕ
  ids : CallbackIds
  call : CryptoCall

/-- Where a call runs, and what comes from outside. -/
structure CryptoWorld where
  env : CryptoMemory
  memory : SigningMemory
  uv : UvCrypto
  uvs : UvSigning
  C : PathConfig
  pkg : Option CString

/-- The callbacks of `encrypt` and `decrypt`. -/
def CryptParam.supplied (param : CryptParam) : ReplyCallback → Bool
  | .success => param.success
  | .fail => param.fail
  | .complete => param.complete

namespace Crypto

/-- What an event of `encrypt` and `decrypt` tells. -/
def answerEvent : CryptoEvent → Option (ReplyEvent CryptoAnswer)
  | .inl _ => none
  | .inr .perform => some .perform
  | .inr .ivIsKey => none
  | .inr (.success value tag) => some (.success (.data value tag))
  | .inr (.fail msg code) => some (.fail msg code)
  | .inr .complete => some .complete

/-- The result of `encrypt` and `decrypt`. -/
def cryptAnswer (crypted : Crypted) : Option CryptoAnswer :=
  crypted.result.map (fun result => .data (.fromBuff result crypted.isText)
    (crypted.tag.map (fun tag => .fromBuff tag crypted.isText)))

section Body

variable {env : CryptoMemory} {uv : UvCrypto}

theorem answerEvent_eq_perform {event : CryptoEvent} (h : answerEvent event = some .perform) :
    event = .inr .perform := by
  cases event with
  | inl event => cases h
  | inr action => cases action <;> first | rfl | cases h

theorem operationHandle_told (op : CryptoOperation) (param : CryptParam) :
    ∀ event ∈ (operationHandle env uv op param).events.filterMap answerEvent, event = .perform := by
  intro event hevent
  obtain ⟨e,he,h⟩ := List.mem_filterMap.mp hevent
  cases e with
  | inl e => cases h
  | inr action =>
    rw [operationHandle_actions op param he] at h
    cases h
    rfl

theorem answer_told (param : CryptParam) (outcome : Option CryptoAnswer) (msg : String) (code : ℕ)
    (h : outcome.isSome = true → param.success = false) :
    (answer param.fail param.complete none msg code).filterMap answerEvent =
      closing param.supplied outcome msg code [] := by
  have htold : told param.supplied outcome msg code = if param.fail then [.fail msg code] else [] := by
    unfold told
    cases outcome with
    | none => rfl
    | some result =>
      rw [show param.supplied .success = false from h rfl]
      rfl
  unfold answer closing
  rw [htold]
  change _ = _ ++ (if param.complete then _ else _) ++ _
  cases param.fail <;> cases param.complete <;> rfl

theorem free_told (c : Prop) [Decidable c] (b : CryptoBuffer) :
    (if c then [.inl (.free b)] else [] : List CryptoEvent).filterMap answerEvent = [] := by
  split_ifs <;> rfl

theorem report_told (param : CryptParam) (result : Except CryptoStop Crypted) :
    (report param result).filterMap answerEvent = match result with
      | .ok crypted => closing param.supplied (cryptAnswer crypted) "" 0 []
      | .error (.refused msg code) => closing param.supplied none msg code []
      | .error .undefined => [] := by
  cases result with
  | error e =>
    cases e with
    | undefined => rfl
    | refused msg code => exact answer_told param none msg code nofun
  | ok crypted =>
    unfold report
    dsimp only
    rw [List.filterMap_append,List.filterMap_append,free_told,free_told,List.append_nil,List.append_nil]
    by_cases hsuccess : param.success = true
    · cases hresult : crypted.result with
      | none =>
        have hnone : success param crypted = none := by simp [success,hresult]
        have hanswer : cryptAnswer crypted = none := by simp [cryptAnswer,hresult]
        rw [hnone,hanswer]
        exact answer_told param none "" 0 nofun
      | some bytes =>
        unfold success cryptAnswer closing told
        rw [if_pos hsuccess,hresult,show param.supplied .success = true from hsuccess]
        change _ = _ ++ (if param.complete then _ else _) ++ _
        cases param.complete <;> rfl
    · have hnone : success param crypted = none := if_neg hsuccess
      rw [hnone]
      exact answer_told param _ "" 0 (fun _ => by simpa using hsuccess)

theorem report_closing (param : CryptParam) (result : Except CryptoStop Crypted) :
    (report param result).filterMap answerEvent = [] ∨ ∃ outcome msg code,
      (report param result).filterMap answerEvent = closing param.supplied outcome msg code [] := by
  rw [report_told]
  split
  · exact .inr ⟨_,_,_,rfl⟩
  · exact .inr ⟨_,_,_,rfl⟩
  · exact .inl rfl

end Body

section Reaches

variable {env : CryptoMemory} {uv : UvCrypto}

theorem not_spares_perform : ¬ Spares (.inr .perform) := id

theorem aesNonAuthCrypto_performs (mode : AesMode) (padding : PaddingType) (key : Bytes) (iv : IvSource)
    (ivOffset ivLen : ℤ) (owned : Bool) (buff : Bytes) (outputSize : ℕ) (op : CryptoOperation) (e : CryptoStop) :
    .inr .perform ∈
      (aesNonAuthCrypto uv env mode padding key iv ivOffset ivLen owned buff outputSize op e).events := by
  unfold aesNonAuthCrypto
  rw [mem_bind_iff]
  exact .inl (List.mem_singleton_self _)

variable {op : CryptoOperation}

theorem aesAuthCrypto_performs_iff {mode : AesMode} {padding : PaddingType} {key iv aad tagInput : Bytes}
    {tagLen : ℕ} {buff : Bytes} {outputSize : ℕ} {e : CryptoStop} :
    .inr .perform ∈ (aesAuthCrypto uv env mode padding key iv aad tagInput tagLen buff outputSize op e).events ↔
      (op = .decrypt → env.allocates .buffTag = true) := by
  have huse (b : CryptoBuffer) (length : ℕ) : .inr .perform ∉ (use b length).events :=
    (use_all (by simp [Spares])).notMem not_spares_perform
  have hcopy : .inr .perform ∉ (given (op = .decrypt) (do
      malloc env .buffTag (buff.length + tagLen) e
      use .buffTag (buff.length + tagLen)
      use .tagInput tagLen)).events := by
    apply All.notMem _ not_spares_perform
    apply All.given
    apply All.bind (malloc_all (by simp [Spares]))
    intro _
    apply All.bind (use_all (by simp [Spares]))
    intro _
    exact use_all (by simp [Spares])
  unfold aesAuthCrypto
  rw [mem_bind_iff,or_iff_right (huse _ _)]
  constructor
  · rintro ⟨_,_,h⟩
    rw [mem_bind_iff,or_iff_right (huse _ _)] at h
    obtain ⟨_,_,h⟩ := h
    rw [mem_bind_iff,or_iff_right hcopy] at h
    obtain ⟨_,hgiven,_⟩ := h
    intro hop
    have hmalloc := given_eq_ok_iff.mp hgiven hop
    obtain ⟨_,hmalloc,_⟩ := bind_eq_ok_iff.mp hmalloc
    exact malloc_eq_ok_iff.mp hmalloc
  · intro h
    refine ⟨(),rfl,?_⟩
    rw [mem_bind_iff]
    refine .inr ⟨(),rfl,?_⟩
    rw [mem_bind_iff]
    refine .inr ⟨(),given_eq_ok_iff.mpr (fun hop => ?_),?_⟩
    · exact bind_eq_ok_iff.mpr ⟨(),malloc_eq_ok_iff.mpr (h hop),rfl⟩
    · rw [mem_bind_iff]
      exact .inl (List.mem_singleton_self _)

/-- What an AES call that is prepared needs to come to the primitive. -/
structure AesReached (env : CryptoMemory) (op : CryptoOperation) (setup : AesSetup) (key : Bytes) : Prop where
  key : key ≠ []
  output : env.allocates .output = true
  tag : AesMode.isCcm setup.mode = true → op = .decrypt →
    (setup.internal.tagInput.isSome ∧ setup.internal.tagLen ≠ 0) ∧ env.allocates .buffTag = true

variable {options : Option MixinCryptOption} {key buff : Bytes}

theorem operateAes_performs_iff : .inr .perform ∈ (operateAes env uv op options key buff).events ↔
      ∃ setup, (prepareAes env uv options key).result = .ok setup ∧ AesReached env op setup key := by
  have hallocate (size : ℕ) : .inr .perform ∉ (allocateOutput env size key.length).events :=
    (allocateOutput_spares ..).notMem not_spares_perform
  unfold operateAes
  rw [mem_bind_iff,or_iff_right ((prepareAes_spares ..).notMem not_spares_perform)]
  apply exists_congr
  intro setup
  apply and_congr_right
  intro _
  by_cases hccm : AesMode.isCcm setup.mode = true
  · rw [if_pos hccm]
    unfold operateCcm
    rw [mem_bind_iff,or_iff_right ((All.require _ _ : All Spares _).notMem not_spares_perform)]
    constructor
    · rintro ⟨_,htag,h⟩
      rw [mem_bind_iff,or_iff_right (hallocate _)] at h
      obtain ⟨n,hn,h⟩ := h
      obtain ⟨hkey,houtput,_⟩ := allocateOutput_eq_ok_iff.mp hn
      rw [mem_bind_iff] at h
      obtain h | ⟨_,_,h⟩ := h
      · refine ⟨fun hnil => hkey (congrArg List.length hnil),houtput,fun _ hop => ?_⟩
        exact ⟨require_eq_ok_iff.mp htag hop,aesAuthCrypto_performs_iff.mp h hop⟩
      · cases h
    · rintro ⟨hkey,houtput,htag⟩
      have hlength : key.length ≠ 0 := fun hlength => hkey (List.length_eq_zero_iff.mp hlength)
      refine ⟨(),require_eq_ok_iff.mpr (fun hop => (htag hccm hop).1),?_⟩
      rw [mem_bind_iff]
      refine .inr ⟨_,allocateOutput_eq_ok_iff.mpr ⟨hlength,houtput,rfl⟩,?_⟩
      rw [mem_bind_iff]
      exact .inl (aesAuthCrypto_performs_iff.mpr (fun hop => (htag hccm hop).2))
  · rw [if_neg hccm]
    unfold operateBlocks
    rw [mem_bind_iff,or_iff_right (hallocate _)]
    constructor
    · rintro ⟨n,hn,_⟩
      obtain ⟨hkey,houtput,_⟩ := allocateOutput_eq_ok_iff.mp hn
      exact ⟨fun hnil => hkey (congrArg List.length hnil),houtput,fun h => absurd h hccm⟩
    · rintro ⟨hkey,houtput,_⟩
      have hlength : key.length ≠ 0 := fun hlength => hkey (List.length_eq_zero_iff.mp hlength)
      refine ⟨_,allocateOutput_eq_ok_iff.mpr ⟨hlength,houtput,rfl⟩,?_⟩
      rw [mem_bind_iff]
      exact .inl (aesNonAuthCrypto_performs ..)

theorem operateRsa_performs_iff : .inr .perform ∈ (operateRsa env uv op options key buff).events ↔
      ∀ t ∈ checkStr (options.bind MixinCryptOption.transformation),
        (parseTransformation rsaCipherSupported t key.length).isSome := by
  unfold operateRsa
  rw [mem_bind_iff,or_iff_right ((All.require _ _ : All Spares _).notMem not_spares_perform)]
  constructor
  · rintro ⟨_,h,_⟩
    exact require_eq_ok_iff.mp h
  · intro h
    refine ⟨(),require_eq_ok_iff.mpr h,?_⟩
    rw [mem_bind_iff]
    left
    unfold rsaCrypto
    rw [mem_bind_iff]
    exact .inl (List.mem_singleton_self _)

def Reaches (env : CryptoMemory) (uv : UvCrypto) (op : CryptoOperation) (param : CryptParam) : Prop :=
  ∃ top, (parseTopOptions env uv op param).result = .ok top ∧
    match top.algo with
    | .rsa => ∀ t ∈ checkStr (param.options.bind MixinCryptOption.transformation),
        (parseTransformation rsaCipherSupported t top.key.length).isSome
    | .aes => ∃ setup, (prepareAes env uv param.options top.key).result = .ok setup ∧ AesReached env op setup top.key

theorem operationHandle_performs_iff {param : CryptParam} :
    .inr .perform ∈ (operationHandle env uv op param).events ↔ Reaches env uv op param := by
  unfold operationHandle
  rw [mem_bind_iff,or_iff_right (parseTopOptions_silent op param .perform)]
  apply exists_congr
  intro top
  apply and_congr_right
  intro _
  change .inr .perform ∈ (operate env uv op param.options top).events ++ cleanUp param.options _ _ ↔ _
  rw [List.mem_append,or_iff_left (fun h => not_spares_perform (cleanUp_spares _ _ _ _ h))]
  unfold operate
  rw [mem_bind_iff,or_iff_left (fun ⟨_,_,h⟩ => (deliver_spares ..).notMem not_spares_perform h)]
  cases top.algo with
  | rsa => exact operateRsa_performs_iff
  | aes => exact operateAes_performs_iff

end Reaches

section Runs

def returned (run : SigningRun) : Option CryptoAnswer :=
  match run.result with
  | .ok answer => some answer.1
  | .error _ => none

/-- A run tells the truth if and only if it does not perform what is not supported, its result is not told as a
failure, and nobody waits where it breaks off. -/
theorem truthful_tellRun_iff (supplied : ReplyCallback → Bool) (supported : Prop) {run : SigningRun} (hbody : ∀ event ∈ run.events, event = .perform)
    (hperformed : ∀ answer, run.result = .ok answer → .perform ∈ run.events) :
    Truthful supplied supported (returned run) (tellRun supplied run) ↔ (¬ supported → .perform ∉ run.events) ∧
      (∀ answer, run.result = .ok answer → supplied .success = true ∨ supplied .fail = false) ∧
      (run.result = .error .undefined → ∀ callback, supplied callback = false) := by
  have hremoves (callback : ReplyCallback) : removeAllCbs.count callback = 1 := by cases callback <;> rfl
  unfold returned tellRun
  cases hresult : run.result with
  | ok answer =>
    obtain ⟨result,msg,code⟩ := answer
    refine (truthful_closing_iff hbody (fun _ => hperformed _ hresult)).trans ?_
    simp [hremoves]
  | error e =>
    cases e with
    | undefined =>
      change Truthful supplied supported none (run.events ++ []) ↔ _
      rw [List.append_nil,truthful_silent_iff hbody]
      simp
    | refused msg code =>
      refine (truthful_closing_iff hbody (fun h => by cases h)).trans ?_
      simp [hremoves]

end Runs
end Crypto

namespace CryptoCall

open Crypto

variable (w : CryptoWorld)

def events : CryptoCall → List (ReplyEvent CryptoAnswer)
  | .hmacDigest param => Crypto.hmacDigest w.memory w.uvs param
  | .sign param => Crypto.sign w.memory w.uv w.uvs w.C w.pkg param
  | .verify param => Crypto.verify w.memory w.uv w.uvs w.C w.pkg param
  | .crypt op param => (Crypto.crypt w.env w.uv op param).filterMap answerEvent

def supplied : CryptoCall → ReplyCallback → Bool
  | .hmacDigest (some param) => param.supplied
  | .sign (some param) => param.supplied
  | .verify (some param) => param.supplied
  | .crypt _ (some param) => param.supplied
  | _ => fun _ => false

/-- The digest that the primitive makes of the arguments, where there is memory for its copy. -/
def digestOf (param : HmacDigestParam) : Option CryptoAnswer := do
  let algo ← hashAlgo param.algo
  let input ← hmacInput param
  let out ← w.uvs.mdHmac algo input.1 input.2
  if w.memory.result then some (.data (.fromBuff (w.uvs.hexify out) true) none) else none

def signatureOf (param : SignParam) : Option CryptoAnswer := do
  let algo ← (signAlgo w.memory param.algo).toOption
  let request ← (signRequest w.C w.pkg param).toOption
  let out ← w.uvs.sign algo.type request.key request.input
  let value ← (presentSignature w.memory w.uv request.isText out).toOption
  some (.data value none)

def verdictOf (param : RSAVerifyParam) : Option CryptoAnswer := do
  let algo ← (signAlgo w.memory param.algo).toOption
  let request ← (verifyRequest w.memory w.uv w.C w.pkg param).toOption
  some (.verified (w.uvs.verify algo.type request.key request.input request.signature))

/-- The result of the primitive; that of `encrypt` and `decrypt` is given. -/
def outcome (crypted : Option CryptoAnswer) : CryptoCall → Option CryptoAnswer
  | .hmacDigest (some param) => digestOf w param
  | .sign (some param) => signatureOf w param
  | .verify (some param) => verdictOf w param
  | .crypt _ (some _) => crypted
  | _ => none

def Named (entries : List CipherSupported) (transformation : CString) (keySize : ℕ) : Prop :=
  ∃ entry ∈ entries, entry.cfg = transformation ∧ entry.isSupported = true ∧
    (entry.algo = .aes → keySize = entry.keySize)

def Supported : CryptoCall → Prop
  | .hmacDigest (some param) => ∀ algo ∈ checkStr param.algo, algo ∈ hashTypes
  | .sign (some param) => ∀ algo ∈ checkStr param.algo, algo ∈ signHashTypes
  | .verify (some param) => ∀ algo ∈ checkStr param.algo, algo ∈ signHashTypes
  | .crypt op (some param) => (parseAlgo param.algo).isSome ∧
      ∀ top, (parseTopOptions w.env w.uv op param).result = .ok top →
        ∀ t ∈ checkStr (param.options.bind MixinCryptOption.transformation), Named (match top.algo with
            | .rsa => rsaCipherSupported
            | .aes => aesCipherSupported) t top.key.length
  | _ => True

/-- A digest is made of the arguments of `hmacDigest`. -/
def Digests (param : HmacDigestParam) (out : Bytes) : Prop :=
  ∃ algo input, hashAlgo param.algo = some algo ∧ hmacInput param = some input ∧
    w.uvs.mdHmac algo input.1 input.2 = some out

/-- A digest is heard of by `success` or not at all, and there is memory for it. -/
structure HmacMeets (param : HmacDigestParam) : Prop where
  heard : ∀ out, Digests w param out → w.memory.result = true →
    param.supplied .success = true ∨ param.supplied .fail = false
  copied : ∀ out, Digests w param out → w.memory.result = false → w.uvs.hexify out ≠ [] →
    ∀ callback, param.supplied callback = false

/-- The arguments of `sign` pass its checks. -/
structure Signs (param : SignParam) (algo : SignAlgo) (request : SignRequest) : Prop where
  algo : signAlgo w.memory param.algo = .ok algo
  request : signRequest w.C w.pkg param = .ok request

/-- Arguments of `sign` that pass its checks have an algorithm that is supported; a signature is heard of by
`success` or not at all; and the algorithm is not null, and there is memory for its segments and the copy of the
signature. -/
structure SignMeets (param : SignParam) : Prop where
  supported : (∀ algo ∈ checkStr param.algo, algo ∈ signHashTypes) ∨ ¬ ∃ algo request, Signs w param algo request
  heard : ∀ algo request out value, Signs w param algo request →
    w.uvs.sign algo.type request.key request.input = some out →
    presentSignature w.memory w.uv request.isText out = .ok value →
    param.supplied .success = true ∨ param.supplied .fail = false
  segments : param.algo = none ∨ w.memory.segments = false → ∀ callback, param.supplied callback = false
  copied : ∀ algo request out, Signs w param algo request →
    w.uvs.sign algo.type request.key request.input = some out →
    presentSignature w.memory w.uv request.isText out = .error .undefined →
    ∀ callback, param.supplied callback = false

/-- The arguments of `verify` pass its checks. -/
structure Verifies (param : RSAVerifyParam) (algo : SignAlgo) (request : VerifyRequest) : Prop where
  algo : signAlgo w.memory param.algo = .ok algo
  request : verifyRequest w.memory w.uv w.C w.pkg param = .ok request

/-- Arguments of `verify` that pass its checks have an algorithm that is supported and are heard of by `success`
or not at all; and the algorithm is not null, there is memory for its segments, and the signature of a file is a
string. -/
structure VerifyMeets (param : RSAVerifyParam) : Prop where
  supported : (∀ algo ∈ checkStr param.algo, algo ∈ signHashTypes) ∨ ¬ ∃ algo request, Verifies w param algo request
  heard : ∀ algo request, Verifies w param algo request →
    param.supplied .success = true ∨ param.supplied .fail = false
  segments : param.algo = none ∨ w.memory.segments = false → ∀ callback, param.supplied callback = false
  signature : verifyRequest w.memory w.uv w.C w.pkg param = .error .undefined →
    ∀ callback, param.supplied callback = false

/-- Nobody waits for `encrypt` or `decrypt`, and a transformation that they come to the primitive with is supported. -/
structure CryptMeets (op : CryptoOperation) (param : CryptParam) : Prop where
  supported : Supported w (.crypt op (some param)) ∨ ¬ Reaches w.env w.uv op param
  nobody : ∀ callback, param.supplied callback = false

def Meets : CryptoCall → Prop
  | .hmacDigest (some param) => HmacMeets w param
  | .sign (some param) => SignMeets w param
  | .verify (some param) => VerifyMeets w param
  | .crypt op (some param) => CryptMeets w op param
  | _ => True

section Proofs

variable {w}

theorem truthful_crypt_iff (crypted : Option CryptoAnswer) (op : CryptoOperation) (param : CryptParam) :
    Truthful (supplied (.crypt op (some param))) (Supported w (.crypt op (some param)))
      (outcome w crypted (.crypt op (some param))) (events w (.crypt op (some param))) ↔ CryptMeets w op param := by
  have hbody := @operationHandle_told w.env w.uv op param
  have hperform : .perform ∈ (operationHandle w.env w.uv op param).events.filterMap answerEvent ↔
      Reaches w.env w.uv op param := by
    rw [← operationHandle_performs_iff,List.mem_filterMap]
    constructor
    · rintro ⟨event,hevent,h⟩
      rw [← answerEvent_eq_perform h]
      exact hevent
    · exact fun h => ⟨_,h,rfl⟩
  have hmeets : CryptMeets w op param ↔ (¬ Supported w (.crypt op (some param)) →
        .perform ∉ (operationHandle w.env w.uv op param).events.filterMap answerEvent) ∧
      ∀ callback, param.supplied callback = false := by
    rw [hperform,← or_iff_not_imp_left]
    exact ⟨fun h => ⟨h.supported,h.nobody⟩,fun h => ⟨h.1,h.2⟩⟩
  rw [hmeets]
  change Truthful param.supplied _ crypted
    (((operationHandle w.env w.uv op param).events ++ report param _).filterMap answerEvent) ↔ _
  rw [List.filterMap_append]
  have hclosing := report_closing param (operationHandle w.env w.uv op param).result
  generalize (report param (operationHandle w.env w.uv op param).result).filterMap answerEvent = answered at hclosing ⊢
  generalize (operationHandle w.env w.uv op param).events.filterMap answerEvent = body at hbody ⊢
  constructor
  · intro h
    refine ⟨fun hsupported hmem => h.unsupported hsupported (List.mem_append_left _ hmem),fun callback => ?_⟩
    -- Nothing removes the callbacks, so nobody may wait for them.
    have hremoval : (body ++ answered).filterMap removal = [] := by
      rw [List.filterMap_append,filterMap_body hbody rfl,List.nil_append]
      rcases hclosing with rfl | ⟨outcome,msg,code,rfl⟩
      · rfl
      · unfold closing
        rw [List.filterMap_append,List.filterMap_append,removal_told]
        cases param.supplied .complete <;> rfl
    by_contra hsupplied
    have hcount := h.removed callback (by simpa using hsupplied)
    rw [hremoval] at hcount
    cases hcount
  · rintro ⟨hsupported,hnobody⟩
    have hsilent : answered = [] := by
      rcases hclosing with h | ⟨outcome,msg,code,h⟩
      · exact h
      · rw [h]
        unfold closing told
        simp [hnobody]
    rw [hsilent,List.append_nil]
    exact (truthful_silent_iff hbody).mpr ⟨hsupported,hnobody⟩

theorem toOption_eq_some_iff {α : Type} {x : Except CryptoStop α} {a : α} : x.toOption = some a ↔ x = .ok a := by
  cases x <;> simp [Except.toOption]

theorem returned_eq_some_iff {run : SigningRun} {a : CryptoAnswer} :
    returned run = some a ↔ ∃ msg code, run.result = .ok (a,msg,code) := by
  unfold returned
  cases run.result with
  | ok answer =>
    obtain ⟨b,msg,code⟩ := answer
    simp
  | error e => simp

theorem ofExcept_silent {α : Type} (v : Except CryptoStop α) :
    .perform ∉ (ofExcept v : Traced (ReplyEvent CryptoAnswer) CryptoStop α).events := List.not_mem_nil

theorem perform_told : All (fun event => event = .perform)
    (tell [.perform] : Traced (ReplyEvent CryptoAnswer) CryptoStop Unit) :=
  .tell (fun _ h => List.mem_singleton.mp h)

theorem hmacBody_told (param : HmacDigestParam) :
    All (fun event => event = .perform) (hmacBody w.memory w.uvs param) := by
  unfold hmacBody
  apply All.bind (.demand _ _)
  intro algo
  apply All.bind (.demand _ _)
  intro input
  apply All.bind perform_told
  intro _
  apply All.bind (.demand _ _)
  intro out
  apply All.bind (.require _ _)
  intro _
  exact .pure _

theorem hmacBody_returned (param : HmacDigestParam) :
    returned (hmacBody w.memory w.uvs param) = digestOf w param := by
  ext a
  simp only [returned_eq_some_iff,hmacBody,digestOf,bind_eq_ok_iff,demand_eq_ok_iff,require_eq_ok_iff,
    Option.bind_eq_bind,Option.bind_eq_some_iff]
  constructor
  · rintro ⟨msg,code,algo,halgo,input,hinput,_,_,out,hout,_,hmemory,h⟩
    refine ⟨algo,halgo,input,hinput,out,hout,?_⟩
    rw [if_pos hmemory]
    cases h
    rfl
  · rintro ⟨algo,halgo,input,hinput,out,hout,h⟩
    split_ifs at h with hmemory
    cases h
    exact ⟨_,_,algo,halgo,input,hinput,(),rfl,out,hout,(),hmemory,rfl⟩

theorem hmacBody_performs_iff {param : HmacDigestParam} : .perform ∈ (hmacBody w.memory w.uvs param).events ↔
      ∃ algo input, hashAlgo param.algo = some algo ∧ hmacInput param = some input := by
  unfold hmacBody
  rw [mem_bind_iff,or_iff_right ((All.demand _ _ : All (fun _ => False) _).notMem id)]
  apply exists_congr
  intro algo
  rw [mem_bind_iff,or_iff_right ((All.demand _ _ : All (fun _ => False) _).notMem id),demand_eq_ok_iff]
  constructor
  · rintro ⟨halgo,input,hinput,_⟩
    exact ⟨input,halgo,demand_eq_ok_iff.mp hinput⟩
  · rintro ⟨input,halgo,hinput⟩
    refine ⟨halgo,input,demand_eq_ok_iff.mpr hinput,?_⟩
    rw [mem_bind_iff]
    exact .inl (List.mem_singleton_self _)

theorem hmacBody_eq_ok_iff {param : HmacDigestParam} :
    (∃ answer, (hmacBody w.memory w.uvs param).result = .ok answer) ↔
      ∃ out, Digests w param out ∧ w.memory.result = true := by
  unfold hmacBody
  simp only [bind_eq_ok_iff,demand_eq_ok_iff,require_eq_ok_iff]
  constructor
  · rintro ⟨_,algo,halgo,input,hinput,_,_,out,hout,_,hmemory,_⟩
    exact ⟨out,⟨algo,input,halgo,hinput,hout⟩,hmemory⟩
  · rintro ⟨out,⟨algo,input,halgo,hinput,hout⟩,hmemory⟩
    exact ⟨_,algo,halgo,input,hinput,(),rfl,out,hout,(),hmemory,rfl⟩

theorem hmacBody_undefined_iff {param : HmacDigestParam} :
    (hmacBody w.memory w.uvs param).result = .error .undefined ↔
      ∃ out, Digests w param out ∧ w.memory.result = false ∧ w.uvs.hexify out ≠ [] := by
  unfold hmacBody
  simp only [bind_eq_error_iff,demand_eq_error_iff,demand_eq_ok_iff,require_eq_error_iff]
  constructor
  · rintro (h | ⟨algo,halgo,h | ⟨input,hinput,h | ⟨_,_,h | ⟨out,hout,h | ⟨_,_,h⟩⟩⟩⟩⟩)
    · cases h.2
    · cases h.2
    · cases h
    · cases h.2
    · refine ⟨out,⟨algo,input,halgo,hinput,hout⟩,by simpa using h.1,fun hnil => ?_⟩
      rw [if_pos hnil] at h
      cases h.2
    · cases h
  · rintro ⟨out,⟨algo,input,halgo,hinput,hout⟩,hmemory,hsome⟩
    refine .inr ⟨algo,halgo,.inr ⟨input,hinput,.inr ⟨(),rfl,.inr ⟨out,hout,.inl ⟨by simp [hmemory],?_⟩⟩⟩⟩⟩
    exact if_neg hsome

theorem truthful_hmac_iff (crypted : Option CryptoAnswer) (param : HmacDigestParam) :
    Truthful (supplied (.hmacDigest (some param))) (Supported w (.hmacDigest (some param)))
      (outcome w crypted (.hmacDigest (some param))) (events w (.hmacDigest (some param))) ↔ HmacMeets w param := by
  have hperformed (answer : CryptoAnswer × String × ℕ) (h : (hmacBody w.memory w.uvs param).result = .ok answer) :
      .perform ∈ (hmacBody w.memory w.uvs param).events := by
    obtain ⟨out,⟨algo,input,halgo,hinput,_⟩,_⟩ := hmacBody_eq_ok_iff.mp ⟨answer,h⟩
    exact hmacBody_performs_iff.mpr ⟨algo,input,halgo,hinput⟩
  change Truthful _ _ (digestOf w param) _ ↔ _
  rw [← hmacBody_returned]
  refine (truthful_tellRun_iff param.supplied _ (hmacBody_told param).events hperformed).trans ?_
  constructor
  · rintro ⟨_,hheard,hbreaks⟩
    constructor
    · intro out hout hmemory
      obtain ⟨answer,hanswer⟩ := hmacBody_eq_ok_iff.mpr ⟨out,hout,hmemory⟩
      exact hheard answer hanswer
    · intro out hout hmemory hsome
      exact hbreaks (hmacBody_undefined_iff.mpr ⟨out,hout,hmemory,hsome⟩)
  · intro h
    refine ⟨fun hsupported hperform => hsupported ?_,fun answer hanswer => ?_,fun hbreaks => ?_⟩
    · obtain ⟨algo,_,halgo,_⟩ := hmacBody_performs_iff.mp hperform
      intro a ha
      unfold hashAlgo at halgo
      rw [Option.mem_def.mp ha] at halgo
      by_contra hnot
      simp only [if_neg hnot] at halgo
      cases halgo
    · obtain ⟨out,hout,hmemory⟩ := hmacBody_eq_ok_iff.mp ⟨answer,hanswer⟩
      exact h.heard out hout hmemory
    · obtain ⟨out,hout,hmemory,hsome⟩ := hmacBody_undefined_iff.mp hbreaks
      exact h.copied out hout hmemory hsome

theorem signHashTypes_segment : ∀ algo ∈ signHashTypes, ∃ type, (splitStr algo '-')[1]? = some (some type) := by
  intro algo halgo
  simp only [signHashTypes,List.mem_cons,List.not_mem_nil,or_false] at halgo
  obtain rfl | rfl | rfl | rfl := halgo
  all_goals exact ⟨_,rfl⟩

theorem signAlgo_undefined_iff {memory : SigningMemory} {algo : Option CString} :
    signAlgo memory algo = .error .undefined ↔ algo = none ∨ memory.segments = false := by
  unfold signAlgo
  cases algo with
  | none => simp
  | some algo =>
    cases memory.segments with
    | false => simp
    | true =>
      refine iff_of_false ?_ (by simp)
      dsimp only
      split_ifs with hempty htype
      · nofun
      · obtain ⟨type,h⟩ := signHashTypes_segment algo htype
        rw [h]
        nofun
      · nofun

theorem signAlgo_error {memory : SigningMemory} {algo : Option CString} {e : CryptoStop}
    (h : signAlgo memory algo = .error e) : e = .undefined := by
  unfold signAlgo at h
  split at h
  · split_ifs at h
    · split at h
      · cases h
      · cases h
        rfl
  · cases h
    rfl

variable {param : SignParam}

theorem signRequest_defined : signRequest w.C w.pkg param ≠ .error .undefined := by
  unfold signRequest signedData signedFile
  split
  · nofun
  · nofun
  · split
    · split_ifs <;> nofun
    · nofun
  · split
    · nofun
    · split <;> nofun
  · nofun

theorem signBody_told (param : SignParam) :
    All (fun event => event = .perform) (signBody w.memory w.uv w.uvs w.C w.pkg param) := by
  unfold signBody
  apply All.bind (.ofExcept _)
  intro algo
  apply All.bind (.ofExcept _)
  intro request
  apply All.bind perform_told
  intro _
  apply All.bind (.demand _ _)
  intro out
  apply All.bind (.ofExcept _)
  intro result
  exact .pure _

theorem checked_performs_iff {α β γ : Type} (x : Except CryptoStop α) (y : Except CryptoStop β)
    {f : α → β → Traced (ReplyEvent CryptoAnswer) CryptoStop γ} (hf : ∀ a b, .perform ∈ (f a b).events) :
    .perform ∈ (do let a ← ofExcept x; let b ← ofExcept y; f a b).events ↔
      ∃ a b, x = .ok a ∧ y = .ok b := by
  rw [mem_bind_iff,or_iff_right (ofExcept_silent _)]
  apply exists_congr
  intro a
  rw [mem_bind_iff,or_iff_right (ofExcept_silent _)]
  constructor
  · rintro ⟨ha,b,hb,_⟩
    exact ⟨b,ha,hb⟩
  · rintro ⟨b,ha,hb⟩
    exact ⟨ha,b,hb,hf a b⟩

theorem signBody_performs_iff :
    .perform ∈ (signBody w.memory w.uv w.uvs w.C w.pkg param).events ↔ ∃ algo request, Signs w param algo request := by
  refine (checked_performs_iff _ _ (fun algo request => ?_)).trans ?_
  · rw [mem_bind_iff]
    exact .inl (List.mem_singleton_self _)
  · exact exists₂_congr (fun algo request => ⟨fun h => ⟨h.1,h.2⟩,fun h => ⟨h.algo,h.request⟩⟩)

theorem signBody_eq_ok_iff : (∃ answer, (signBody w.memory w.uv w.uvs w.C w.pkg param).result = .ok answer) ↔
      ∃ algo request out value, Signs w param algo request ∧
        w.uvs.sign algo.type request.key request.input = some out ∧
        presentSignature w.memory w.uv request.isText out = .ok value := by
  unfold signBody
  simp only [bind_eq_ok_iff,demand_eq_ok_iff,result_ofExcept]
  constructor
  · rintro ⟨_,algo,halgo,request,hrequest,_,_,out,hout,value,hvalue,_⟩
    exact ⟨algo,request,out,value,⟨halgo,hrequest⟩,hout,hvalue⟩
  · rintro ⟨algo,request,out,value,⟨halgo,hrequest⟩,hout,hvalue⟩
    exact ⟨_,algo,halgo,request,hrequest,(),rfl,out,hout,value,hvalue,rfl⟩

theorem signBody_undefined_iff : (signBody w.memory w.uv w.uvs w.C w.pkg param).result = .error .undefined ↔
      (param.algo = none ∨ w.memory.segments = false) ∨ ∃ algo request out, Signs w param algo request ∧
        w.uvs.sign algo.type request.key request.input = some out ∧
        presentSignature w.memory w.uv request.isText out = .error .undefined := by
  rw [← signAlgo_undefined_iff]
  unfold signBody
  simp only [bind_eq_error_iff,demand_eq_error_iff,demand_eq_ok_iff,result_ofExcept]
  constructor
  · rintro (h | ⟨algo,halgo,h | ⟨request,hrequest,h | ⟨_,_,h | ⟨out,hout,h | ⟨_,_,h⟩⟩⟩⟩⟩)
    · exact .inl h
    · exact absurd h signRequest_defined
    · cases h
    · cases h.2
    · exact .inr ⟨algo,request,out,⟨halgo,hrequest⟩,hout,h⟩
    · cases h
  · rintro (h | ⟨algo,request,out,⟨halgo,hrequest⟩,hout,h⟩)
    · exact .inl h
    · exact .inr ⟨algo,halgo,.inr ⟨request,hrequest,.inr ⟨(),rfl,.inr ⟨out,hout,.inl h⟩⟩⟩⟩

theorem signBody_returned (param : SignParam) :
    returned (signBody w.memory w.uv w.uvs w.C w.pkg param) = signatureOf w param := by
  ext a
  simp only [returned_eq_some_iff,signBody,signatureOf,bind_eq_ok_iff,demand_eq_ok_iff,result_ofExcept,
    Option.bind_eq_bind,Option.bind_eq_some_iff,toOption_eq_some_iff]
  constructor
  · rintro ⟨msg,code,algo,halgo,request,hrequest,_,_,out,hout,value,hvalue,h⟩
    refine ⟨algo,halgo,request,hrequest,out,hout,value,hvalue,?_⟩
    cases h
    rfl
  · rintro ⟨algo,halgo,request,hrequest,out,hout,value,hvalue,h⟩
    cases h
    exact ⟨_,_,algo,halgo,request,hrequest,(),rfl,out,hout,value,hvalue,rfl⟩

theorem truthful_sign_iff (crypted : Option CryptoAnswer) (param : SignParam) :
    Truthful (supplied (.sign (some param))) (Supported w (.sign (some param))) (outcome w crypted (.sign (some param)))
      (events w (.sign (some param))) ↔ SignMeets w param := by
  have hperformed (answer : CryptoAnswer × String × ℕ)
      (h : (signBody w.memory w.uv w.uvs w.C w.pkg param).result = .ok answer) :
      .perform ∈ (signBody w.memory w.uv w.uvs w.C w.pkg param).events := by
    obtain ⟨algo,request,_,_,hsigns,_⟩ := signBody_eq_ok_iff.mp ⟨answer,h⟩
    exact signBody_performs_iff.mpr ⟨algo,request,hsigns⟩
  change Truthful _ _ (signatureOf w param) _ ↔ _
  rw [← signBody_returned]
  refine (truthful_tellRun_iff param.supplied _ (signBody_told param).events hperformed).trans ?_
  rw [signBody_performs_iff,← or_iff_not_imp_left,signBody_undefined_iff]
  constructor
  · rintro ⟨hsupported,hheard,hbreaks⟩
    refine ⟨hsupported,?_,fun h => hbreaks (.inl h),?_⟩
    · intro algo request out value hsigns hout hvalue
      obtain ⟨answer,hanswer⟩ := signBody_eq_ok_iff.mpr ⟨algo,request,out,value,hsigns,hout,hvalue⟩
      exact hheard answer hanswer
    · intro algo request out hsigns hout hvalue
      exact hbreaks (.inr ⟨algo,request,out,hsigns,hout,hvalue⟩)
  · intro h
    refine ⟨h.supported,fun answer hanswer => ?_,?_⟩
    · obtain ⟨algo,request,out,value,hsigns,hout,hvalue⟩ := signBody_eq_ok_iff.mp ⟨answer,hanswer⟩
      exact h.heard algo request out value hsigns hout hvalue
    · rintro (hsegments | ⟨algo,request,out,hsigns,hout,hvalue⟩)
      · exact h.segments hsegments
      · exact h.copied algo request out hsigns hout hvalue

theorem verifyBody_told (param : RSAVerifyParam) :
    All (fun event => event = .perform) (verifyBody w.memory w.uv w.uvs w.C w.pkg param) := by
  unfold verifyBody
  apply All.bind (.ofExcept _)
  intro algo
  apply All.bind (.ofExcept _)
  intro request
  apply All.bind perform_told
  intro _
  exact .pure _

theorem verifyBody_performs_iff {param : RSAVerifyParam} :
    .perform ∈ (verifyBody w.memory w.uv w.uvs w.C w.pkg param).events ↔
      ∃ algo request, Verifies w param algo request := by
  refine (checked_performs_iff _ _ (fun algo request => ?_)).trans ?_
  · rw [mem_bind_iff]
    exact .inl (List.mem_singleton_self _)
  · exact exists₂_congr (fun algo request => ⟨fun h => ⟨h.1,h.2⟩,fun h => ⟨h.algo,h.request⟩⟩)

theorem verifyBody_eq_ok_iff {param : RSAVerifyParam} :
    (∃ answer, (verifyBody w.memory w.uv w.uvs w.C w.pkg param).result = .ok answer) ↔
      ∃ algo request, Verifies w param algo request := by
  unfold verifyBody
  simp only [bind_eq_ok_iff,result_ofExcept]
  constructor
  · rintro ⟨_,algo,halgo,request,hrequest,_⟩
    exact ⟨algo,request,halgo,hrequest⟩
  · rintro ⟨algo,request,halgo,hrequest⟩
    exact ⟨_,algo,halgo,request,hrequest,(),rfl,rfl⟩

theorem verifyBody_undefined_iff {param : RSAVerifyParam} :
    (verifyBody w.memory w.uv w.uvs w.C w.pkg param).result = .error .undefined ↔
      (param.algo = none ∨ w.memory.segments = false) ∨
      verifyRequest w.memory w.uv w.C w.pkg param = .error .undefined := by
  rw [← signAlgo_undefined_iff]
  unfold verifyBody
  simp only [bind_eq_error_iff,result_ofExcept]
  constructor
  · rintro (h | ⟨algo,halgo,h | ⟨request,hrequest,h | ⟨_,_,h⟩⟩⟩)
    · exact .inl h
    · exact .inr h
    · cases h
    · cases h
  · rintro (h | h)
    · exact .inl h
    · cases halgo : signAlgo w.memory param.algo with
      | error e =>
        rw [signAlgo_error halgo]
        exact .inl rfl
      | ok algo => exact .inr ⟨algo,rfl,.inl h⟩

theorem verifyBody_returned (param : RSAVerifyParam) :
    returned (verifyBody w.memory w.uv w.uvs w.C w.pkg param) = verdictOf w param := by
  unfold verifyBody verdictOf
  cases signAlgo w.memory param.algo with
  | error e => rfl
  | ok algo => cases verifyRequest w.memory w.uv w.C w.pkg param <;> rfl

theorem truthful_verify_iff (crypted : Option CryptoAnswer) (param : RSAVerifyParam) :
    Truthful (supplied (.verify (some param))) (Supported w (.verify (some param))) (outcome w crypted (.verify (some param)))
      (events w (.verify (some param))) ↔ VerifyMeets w param := by
  have hperformed (answer : CryptoAnswer × String × ℕ)
      (h : (verifyBody w.memory w.uv w.uvs w.C w.pkg param).result = .ok answer) :
      .perform ∈ (verifyBody w.memory w.uv w.uvs w.C w.pkg param).events :=
    verifyBody_performs_iff.mpr (verifyBody_eq_ok_iff.mp ⟨answer,h⟩)
  change Truthful _ _ (verdictOf w param) _ ↔ _
  rw [← verifyBody_returned]
  refine (truthful_tellRun_iff param.supplied _ (verifyBody_told param).events hperformed).trans ?_
  rw [verifyBody_performs_iff,← or_iff_not_imp_left,verifyBody_undefined_iff]
  constructor
  · rintro ⟨hsupported,hheard,hbreaks⟩
    refine ⟨hsupported,?_,fun h => hbreaks (.inl h),fun h => hbreaks (.inr h)⟩
    intro algo request hverifies
    obtain ⟨answer,hanswer⟩ := verifyBody_eq_ok_iff.mpr ⟨algo,request,hverifies⟩
    exact hheard answer hanswer
  · intro h
    refine ⟨h.supported,fun answer hanswer => ?_,fun hbreaks => hbreaks.elim h.segments h.signature⟩
    obtain ⟨algo,request,hverifies⟩ := verifyBody_eq_ok_iff.mp ⟨answer,hanswer⟩
    exact h.heard algo request hverifies

theorem truthful_nothing {supported : Prop} {outcome : Option CryptoAnswer} (hsupported : supported) :
    Truthful (fun _ => false) supported outcome [] :=
  (truthful_silent_iff (fun _ h => by cases h)).mpr ⟨fun h => absurd hsupported h,fun _ => rfl⟩

theorem truthful_iff (crypted : Option CryptoAnswer) (call : CryptoCall) :
    Truthful (supplied call) (Supported w call) (outcome w crypted call) (events w call) ↔ Meets w call := by
  cases call with
  | hmacDigest param =>
    cases param with
    | none => exact iff_of_true (truthful_nothing trivial) trivial
    | some param => exact truthful_hmac_iff crypted param
  | sign param =>
    cases param with
    | none => exact iff_of_true (truthful_nothing trivial) trivial
    | some param => exact truthful_sign_iff crypted param
  | verify param =>
    cases param with
    | none => exact iff_of_true (truthful_nothing trivial) trivial
    | some param => exact truthful_verify_iff crypted param
  | crypt op param =>
    cases param with
    | none => exact iff_of_true (truthful_nothing trivial) trivial
    | some param => exact truthful_crypt_iff crypted op param

end Proofs

/-- The calls end before they return, and their callbacks may call again. -/
def functions : RequestFunctions CryptoRequest Empty (ReplyEvent CryptoAnswer) where
  feature := CryptoRequest.feature
  ids q := [q.ids.success,q.ids.fail,q.ids.complete]
  invokes q
    | .success _ => some q.ids.success
    | .fail _ _ => some q.ids.fail
    | .complete => some q.ids.complete
    | _ => none
  removes q
    | .remove .success => some q.ids.success
    | .remove .fail => some q.ids.fail
    | .remove .complete => some q.ids.complete
    | _ => none
  start q := events w q.call
  accepted _ := false
  answer _ _ := Empty.elim

def run (ops : List (RequestLabel CryptoRequest Empty)) : RequestRun CryptoRequest Empty (ReplyEvent CryptoAnswer) :=
  Transition.run (RequestRun.step (functions w)) {} ops

/-- The calls of `system.crypto` tell the truth if and only if their arguments meet what they have to: a result is
heard of by `success`, or nobody is told of a failure; no unsupported algorithm passes the checks; nobody waits
where a call breaks off; and nobody waits for `encrypt` or `decrypt`, which remove no callback. So it is in every
run in which no callback makes a call with a function of a call that is under way. -/
theorem completion_truthful_iff (crypted : Option CryptoAnswer) (ops : List (RequestLabel CryptoRequest Empty))
    (hshared : Transition.Guarded (RequestRun.step (functions w)) (RequestRun.Unshared (functions w)) {} ops)
    (n : ℕ) (q : CryptoRequest) (hq : (run w ops).calls[n]? = some q)
    (hlive : (run w ops).detached q.feature = false) (hend : (run w ops).todo = []) :
    Truthful (supplied q.call) (Supported w q.call) (outcome w crypted q.call) ((run w ops).events n) ∧
      n ∉ (run w ops).missed ↔ Meets w q.call := by
  have hs : RequestRun.History (functions w) (run w ops) := RequestRun.history_run (functions w) ops
  have hfound : n ∉ (run w ops).missed := (RequestRun.delivers_run ops hshared).not_missed hq hlive
  have hevents := (hs.finished hq ⟨hend,fun _ _ h => by cases h⟩).1
  rw [and_iff_left hfound,hevents]
  cases hanswer : (run w ops).answers n with
  | none => exact truthful_iff crypted q.call
  | some answer => exact answer.2.elim

def hexDigits (bytes : Bytes) : Bytes :=
  bytes.flatMap (fun b => [b / 16,b % 16].map (fun digit => if digit < 10 then 48 + digit else 87 + digit))

def letterDigest : Bytes := [221,207,61,33,0,73,231,19,95,97,175,250,231,55,49,205]

def letterWorld : CryptoWorld where
  env := ⟨fun _ => true,fun _ _ => 0⟩
  memory := ⟨true,true,true⟩
  uv :=
    { base64Encode := fun _ => none
      base64Decode := fun _ => none
      rsa := fun _ _ _ => none
      aes := fun _ _ _ _ _ _ => ⟨0,none⟩
      aesAuth := fun _ _ _ _ _ _ _ _ _ => ⟨0,none⟩ }
  uvs :=
    { mdHmac := fun type text key => if type = "MD5".toList ∧ text = [97] ∧ key = [107] then some letterDigest else none
      hexify := hexDigits
      sign := fun _ _ _ => none
      verify := fun _ _ _ _ => false }
  C := PathConfig.defaultConfig
  pkg := none

def digestCall (supplied : ReplyCallback → Bool) : CryptoRequest where
  feature := 0
  ids := ⟨1,2,3⟩
  call := .hmacDigest (some ⟨some [97],some "MD5".toList,some [107],supplied⟩)

/-- A digest that `success` hears of. -/
theorem digest_truthful : Truthful (fun _ => true) (Supported letterWorld (digestCall (fun _ => true)).call)
    (some (.data (.text (hexDigits letterDigest)) none))
    ((run letterWorld (.call (digestCall (fun _ => true)) :: List.replicate 6 .next)).events 0) := by
  have hshared : Transition.Guarded (RequestRun.step (functions letterWorld))
      (RequestRun.Unshared (functions letterWorld)) {} (.call (digestCall (fun _ => true)) :: List.replicate 6 .next) :=
    ⟨fun n _ q' hq' => (by cases hq'),RequestRun.unshared_of_no_call _ (by simp)⟩
  exact ((completion_truthful_iff letterWorld none _ hshared 0 _ rfl rfl (by decide +kernel)).mpr
    ⟨fun _ _ _ => .inl rfl,fun _ _ h => by cases h⟩).1

/-- A digest that was made is told as a failure where only `fail` is supplied. -/
theorem digest_told_as_failure : ¬ ∀ (w : CryptoWorld) (call : CryptoCall),
    Truthful (supplied call) (Supported w call) (outcome w none call) (events w call) := by
  intro h
  have hfail := (h letterWorld (digestCall (fun callback => callback = .fail)).call).fail "" 0
  have hevents : events letterWorld (digestCall (fun callback => callback = .fail)).call =
      [.perform,.fail "" 0,.remove .success,.remove .fail,.remove .complete] := by decide +kernel
  rw [hevents] at hfail
  exact hfail (by simp) ⟨by simp,by decide +kernel⟩

end CryptoCall
end FeatureRuntime
