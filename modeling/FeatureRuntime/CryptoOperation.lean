import FeatureRuntime.CryptoNative

/-! `encrypt` and `decrypt` of `system.crypto`: the checks of the options, the native call and the delivery of its
result, with every buffer that is allocated and freed on the way. -/
namespace FeatureRuntime

inductive AlgoType
  | rsa
  | aes
  deriving DecidableEq

/-- A transformation, with the key size and the modes it stands for. -/
structure CipherSupported where
  cfg : CString
  keySize : ℕ
  algo : AlgoType
  mode : AesMode
  padding : PaddingType
  isSupported : Bool

structure MixinCryptOption where
  transformation : Option CString
  iv : Option Bytes
  ivOffset : ℤ
  ivLen : ℤ
  aad : Option CryptoValue
  tagLen : ℤ
  tag : Option CryptoValue

/-- The argument of `encrypt` and `decrypt`, with which callbacks are supplied. -/
structure CryptParam where
  data : Option CryptoValue
  algo : Option CString
  key : Option CryptoValue
  options : Option MixinCryptOption
  success : Bool
  fail : Bool
  complete : Bool

/-- What `parse_top_options` finds. -/
structure TopOptions where
  algo : AlgoType
  key : Bytes
  buff : CryptoBuff

/-- What `parse_internal_options` finds. -/
structure InternalOptions where
  iv : Bytes
  ivOffset : ℤ
  aad : Bytes
  tagInput : Option Bytes
  tagLen : ℕ

structure AesSetup where
  mode : AesMode
  padding : PaddingType
  internal : InternalOptions

/-- What a primitive has left: its output, unless the pointer is null, and how long the tag in it is. -/
structure Processed where
  output : Option Bytes
  isAuth : Bool
  tagLen : ℕ

/-- What an operation returns: its result, unless the pointer is null, whether that is a copy of the output, and
a tag. -/
structure Crypted where
  result : Option Bytes
  copied : Bool
  isText : Bool
  tag : Option Bytes

namespace Crypto

def aesCipherSupported : List CipherSupported :=
  [⟨"AES/CBC/PKCS5Padding".toList,16,.aes,.cbc128,.pkcs7Padding,true⟩,
    ⟨"AES/CBC/PKCS5Padding".toList,24,.aes,.cbc192,.pkcs7Padding,true⟩,
    ⟨"AES/CBC/PKCS5Padding".toList,32,.aes,.cbc256,.pkcs7Padding,true⟩,
    ⟨"AES/CBC/PKCS7Padding".toList,16,.aes,.cbc128,.pkcs7Padding,true⟩,
    ⟨"AES/CBC/PKCS7Padding".toList,24,.aes,.cbc192,.pkcs7Padding,true⟩,
    ⟨"AES/CBC/PKCS7Padding".toList,32,.aes,.cbc256,.pkcs7Padding,true⟩,
    ⟨"AES/CBC/ZeroPadding".toList,16,.aes,.cbc128,.zeros,false⟩,
    ⟨"AES/CBC/NoPadding".toList,16,.aes,.cbc128,.none,true⟩,
    ⟨"AES/CBC/ISO10126Padding".toList,16,.aes,.cbc128,.iso10126Padding,false⟩,
    ⟨"AES/ECB/PKCS5Padding".toList,16,.aes,.ecb128,.pkcs7Padding,true⟩,
    ⟨"AES/ECB/PKCS7Padding".toList,16,.aes,.ecb128,.pkcs7Padding,true⟩,
    ⟨"AES/ECB/ZeroPadding".toList,16,.aes,.ccm128,.zeros,false⟩,
    ⟨"AES/ECB/NoPadding".toList,16,.aes,.ccm128,.none,false⟩,
    ⟨"AES/ECB/ISO10126Padding".toList,16,.aes,.ccm128,.iso10126Padding,false⟩,
    ⟨"AES/CCM/NoPadding".toList,16,.aes,.ccm128,.none,true⟩,
    ⟨"AES/CCM/NoPadding".toList,24,.aes,.ccm192,.none,true⟩,
    ⟨"AES/CCM/NoPadding".toList,32,.aes,.ccm256,.none,true⟩]

/-- `RSACipherSupported`, six times the same entry; the key size in it is not looked at. -/
def rsaCipherSupported : List CipherSupported :=
  List.replicate 6 ⟨"RSA/None/PKCS1Padding".toList,33,.rsa,.none,.none,true⟩

/-- `parse_transformation`: the first supported entry that the transformation starts with. -/
def parseTransformation (entries : List CipherSupported) (transformation : CString) (keySize : ℕ) :
    Option (AesMode × PaddingType) :=
  entries.findSome? (fun entry =>
    if entry.cfg.isPrefixOf transformation ∧ entry.isSupported = true ∧
        (entry.algo = .aes ∧ keySize = entry.keySize ∨ entry.algo = .rsa) then
      some (entry.mode,entry.padding)
    else none)

def checkStr {α : Type} (s : Option (List α)) : Option (List α) := s.filter (fun s => !s.isEmpty)

def release (owned : List CryptoBuffer) (events : List CryptoEvent) : List CryptoEvent :=
  (owned.filter (fun b => MemoryEvent.isLive b (Traced.memory events))).map (fun b => .inl (.free b))

def releaseRefused {α : Type} (owned : List CryptoBuffer) (result : Except CryptoStop α)
    (events : List CryptoEvent) : List CryptoEvent :=
  match result with
  | .error (.refused _ _) => release owned events
  | _ => []

def wrongTop : CryptoStop := .refused "wrong top options, please check arguments" argsError

def wrongInternal : CryptoStop := .refused "wrong internal options, please check arguments" argsError

def unsupportedCipher : CryptoStop :=
  .refused "unsupported algorithm cipher, please check transformation" unsupported

variable (env : CryptoMemory) (uv : UvCrypto)

def parseAlgo (algo : Option CString) : Option AlgoType :=
  match checkStr algo with
  | none => some .rsa
  | some algo => if algo = "RSA".toList then some .rsa else if algo = "AES".toList then some .aes else none

def takeBytes (b : CryptoBuffer) (spare : ℕ) (encoded : CryptoBuff → Bool) (e : CryptoStop)
    (value : Option CryptoValue) : CryptoRun CryptoBuff := do
  let buff ← Traced.demand (value.bind CryptoValue.getBuff) e
  Traced.require (buff.bytes ≠ []) e
  malloc env b (buff.bytes.length + spare) e
  if encoded buff then do
    let bytes ← Traced.demand (base64Decode uv buff.bytes buff.bytes.length) e
    use b bytes.length
    return ⟨bytes,buff.isText⟩
  else do
    use b buff.bytes.length
    return buff

/-- `parse_top_options`. An RSA key is a text that a terminator follows. -/
def parseTopOptions (op : CryptoOperation) (param : CryptParam) : CryptoRun TopOptions :=
  Traced.after (do
    let algo ← Traced.demand (parseAlgo param.algo) wrongTop
    let key ← takeBytes env uv .key 1 (fun key => algo = .aes && key.isText) wrongTop param.key
    let buff ← takeBytes env uv .buff 0 (fun buff => buff.isText && op = .decrypt) wrongTop param.data
    return ⟨algo,key.bytes,buff⟩)
  (releaseRefused [.key,.buff])

/-- `translate_string_and_uint8array_to_byte`. -/
def translate (b : CryptoBuffer) (value : CryptoValue) : CryptoRun Bytes :=
  Traced.after (do
    let buff ← takeBytes env uv b 0 CryptoBuff.isText wrongInternal (some value)
    return buff.bytes)
  (releaseRefused [b])

/-- The length an encoded text decodes to, as `parse_internal_options` computes it. -/
def decodedLength (encoded : Bytes) : ℕ :=
  encoded.length / 4 * 3 - (if encoded[encoded.length - 1]? = some 61 then 1 else 0) -
    (if encoded[encoded.length - 2]? = some 61 then 1 else 0)

/-- The iv of `parse_internal_options`. -/
def parseIv (opts : MixinCryptOption) (isAuth : Bool) (key : Bytes) : CryptoRun Bytes :=
  match checkStr opts.iv with
  | some encoded => do
    Traced.require (0 ≤ opts.ivLen) wrongInternal
    Traced.require (encoded.length % 4 = 0) wrongInternal
    Traced.require (opts.ivLen ≠ 0 → opts.ivLen = decodedLength encoded) wrongInternal
    malloc env .iv (decodedLength encoded) wrongInternal
    let iv ← Traced.demand (base64Decode uv encoded (decodedLength encoded)) wrongInternal
    use .iv iv.length
    Traced.require (isAuth = true → 7 ≤ iv.length ∧ iv.length ≤ 13) wrongInternal
    return iv
  | none => do
    Traced.require (isAuth = false) wrongInternal
    Traced.require (0 ≤ opts.ivLen) wrongInternal
    let defaultIvLen := if opts.ivLen ≠ 0 then opts.ivLen.toNat else 16
    Traced.require (defaultIvLen ≤ key.length) wrongInternal
    malloc env .iv defaultIvLen wrongInternal
    use .key defaultIvLen
    use .iv defaultIvLen
    return key.take defaultIvLen

/-- `parse_internal_options`. The length of a tag takes the place of `tagLen`, also where one encrypts. -/
def parseInternalOptions (opts : MixinCryptOption) (isAuth : Bool) (key : Bytes) : CryptoRun InternalOptions :=
  Traced.after (do
    let iv ← parseIv env uv opts isAuth key
    Traced.require (0 ≤ opts.ivOffset) wrongInternal
    Traced.require (¬ 0 < opts.ivOffset) wrongInternal
    let aad ← (match opts.aad with
      | some aad => translate env uv .aad aad
      | none => return [])
    Traced.require (0 ≤ opts.tagLen) wrongInternal
    match opts.tag with
    | some tag => do
      let tagInput ← translate env uv .tagInput tag
      return ⟨iv,opts.ivOffset,aad,some tagInput,tagInput.length⟩
    | none => return ⟨iv,opts.ivOffset,aad,none,if opts.tagLen ≠ 0 then opts.tagLen.toNat else 4⟩)
  (releaseRefused [.iv,.aad,.tagInput])

def defaultMode (keySize : ℕ) : Option AesMode :=
  if keySize = 16 then some .cbc128
  else if keySize = 24 then some .cbc192
  else if keySize = 32 then some .cbc256
  else none

def AesMode.isCcm (mode : AesMode) : Bool := mode = .ccm128 || mode = .ccm192 || mode = .ccm256

def wrongKeySize : CryptoStop := .refused "unsupported AES key size for default transformation" unsupported

/-- The mode and the padding that a transformation stands for. A null transformation stands for none. -/
def chooseMode (transformation : Option CString) (keySize : ℕ) : CryptoRun (AesMode × PaddingType) :=
  match transformation with
  | none => return (.none,.pkcs7Padding)
  | some [] => do
    let mode ← Traced.demand (defaultMode keySize) wrongKeySize
    return (mode,.pkcs7Padding)
  | some transformation =>
    Traced.demand (parseTransformation aesCipherSupported transformation keySize) unsupportedCipher

def keyAsIv (key : Bytes) : CryptoRun InternalOptions := do
  Traced.require (16 ≤ key.length) (.refused "ivLen exceeds key length" argsError)
  malloc env .iv 16 (.refused "malloc iv failed" general)
  use .key 16
  use .iv 16
  return ⟨key.take 16,0,[],none,0⟩

def prepareAes (options : Option MixinCryptOption) (key : Bytes) : CryptoRun AesSetup :=
  match options with
  | some opts => do
    let mode ← chooseMode opts.transformation key.length
    let internal ← parseInternalOptions env uv opts (AesMode.isCcm mode.1) key
    return ⟨mode.1,mode.2,internal⟩
  | none => do
    let internal ← keyAsIv env key
    let mode ← Traced.demand (defaultMode key.length) wrongKeySize
    return ⟨mode,.pkcs7Padding,internal⟩

def allocateOutput (size keySize : ℕ) : CryptoRun ℕ := do
  let outputSize ← roundUp size keySize
  malloc env .output outputSize (.refused "malloc output failed" general)
  use .output outputSize
  return outputSize

def operateCcm (op : CryptoOperation) (setup : AesSetup) (key buff : Bytes) : CryptoRun Processed := do
  let internal := setup.internal
  Traced.require (op = .decrypt → internal.tagInput.isSome ∧ internal.tagLen ≠ 0)
    (.refused "aes-ccm decrypt requires tag input" argsError)
  let outputSize ← allocateOutput env (buff.length + internal.tagLen + 1) key.length
  let output ← aesAuthCrypto uv env setup.mode setup.padding key internal.iv internal.aad
    (internal.tagInput.getD []) internal.tagLen buff outputSize op (.refused "aes auth crypto error" general)
  return ⟨some output,true,internal.tagLen⟩

def operateBlocks (op : CryptoOperation) (setup : AesSetup) (key buff : Bytes) : CryptoRun Processed := do
  let internal := setup.internal
  let outputSize ← allocateOutput env (buff.length + 1) key.length
  let output ← aesNonAuthCrypto uv env setup.mode setup.padding key ⟨.iv,internal.iv.length,internal.iv⟩
    internal.ivOffset internal.iv.length true buff outputSize op (.refused "aes non auth crypto error" general)
  return ⟨some output,false,internal.tagLen⟩

/-- The AES branch of `system_crypto_operation_handle`. -/
def operateAes (op : CryptoOperation) (options : Option MixinCryptOption) (key buff : Bytes) :
    CryptoRun Processed := do
  let setup ← prepareAes env uv options key
  if AesMode.isCcm setup.mode then operateCcm env uv op setup key buff
  else operateBlocks env uv op setup key buff

/-- The RSA branch of `system_crypto_operation_handle`. -/
def operateRsa (op : CryptoOperation) (options : Option MixinCryptOption) (key buff : Bytes) :
    CryptoRun Processed := do
  let transformation := checkStr (options.bind MixinCryptOption.transformation)
  Traced.require (∀ t ∈ transformation, (parseTransformation rsaCipherSupported t key.length).isSome)
    unsupportedCipher
  let output ← rsaCrypto uv env key buff op (.refused "rsa_crypto failed" general)
  return ⟨output,false,0⟩

def encodeResult (output : Bytes) (isAuth : Bool) (tagLen : ℕ) : CryptoRun Crypted := do
  let size := base64EncodedLength output.length + 1
  malloc env .result size (.refused "malloc result failed" general)
  use .result size
  if isAuth then do
    -- The size of the data would wrap below zero, and no buffer is large enough for it then.
    Traced.require (tagLen ≤ output.length) (.refused "base64 encode result failed" general)
    let data ← Traced.demand (base64Encode uv (output.take (output.length - tagLen)) size)
      (.refused "base64 encode result failed" general)
    use .result (data.length + 1)
    let tagSize := base64EncodedLength tagLen + 1
    malloc env .tagOutput tagSize (.refused "malloc tag_output failed" general)
    use .tagOutput tagSize
    let tag ← Traced.demand (base64Encode uv (output.drop (output.length - tagLen)) tagSize)
      (.refused "base64 encode tag_output failed" general)
    use .tagOutput (tag.length + 1)
    return ⟨some data,true,true,some tag⟩
  else do
    let data ← Traced.demand (base64Encode uv output size) (.refused "base64 encode result failed" general)
    use .result (data.length + 1)
    return ⟨some data,true,true,none⟩

def deliver (op : CryptoOperation) (isText : Bool) (done : Processed) : CryptoRun Crypted :=
  match isText,op with
  | true,.encrypt => encodeResult env uv (done.output.getD []) done.isAuth done.tagLen
  | true,.decrypt => do
    -- The check of the text reads the byte after it, also at a null pointer.
    let output ← Traced.demand done.output .undefined
    use .output (output.length + 1)
    Traced.require (isValidUtf8 0 output = true) (.refused "the decrypt result is not utf-8" general)
    return ⟨some output,false,true,none⟩
  | false,.encrypt =>
    if done.isAuth then do
      let output := done.output.getD []
      Traced.require (done.tagLen ≤ output.length) .undefined
      return ⟨some (output.take (output.length - done.tagLen)),false,false,
        some (output.drop (output.length - done.tagLen))⟩
    else return ⟨done.output,false,false,none⟩
  | false,.decrypt => return ⟨done.output,false,false,none⟩

/-- What the label `free` frees of the options. -/
def releaseOptions (options : Option MixinCryptOption) (events : List CryptoEvent) : List CryptoEvent :=
  match options with
  | some opts =>
    release [.aad,.tagInput] events ++
      (if (checkStr opts.iv).isSome ∧ opts.ivLen ≠ 0 then release [.iv] events else [])
  | none => release [.iv] events

/-- The label `free` of `system_crypto_operation_handle`. -/
def cleanUp (options : Option MixinCryptOption) (result : Except CryptoStop Crypted) (events : List CryptoEvent) :
    List CryptoEvent :=
  match result with
  | .error .undefined => []
  | .error (.refused _ _) => release [.output,.result,.tagOutput] events ++ releaseOptions options events
  | .ok _ => releaseOptions options events

def operate (op : CryptoOperation) (options : Option MixinCryptOption) (top : TopOptions) : CryptoRun Crypted := do
  let done ← (match top.algo with
    | .rsa => operateRsa env uv op options top.key top.buff.bytes
    | .aes => operateAes env uv op options top.key top.buff.bytes)
  deliver env uv op top.buff.isText done

/-- `system_crypto_operation_handle`. -/
def operationHandle (op : CryptoOperation) (param : CryptParam) : CryptoRun Crypted := do
  let top ← parseTopOptions env uv op param
  Traced.after (operate env uv op param.options top) (cleanUp param.options)

def answer (fail complete : Bool) (outcome : Option CryptoAction) (msg : String) (code : ℕ) : List CryptoEvent :=
  (match outcome with
    | some outcome => [.inr outcome]
    | none => if fail then [.inr (.fail msg code)] else []) ++
  if complete then [.inr .complete] else []

def success (param : CryptParam) (crypted : Crypted) : Option CryptoAction :=
  if param.success then
    crypted.result.map (fun result => .success (.fromBuff result crypted.isText)
      (crypted.tag.map (fun tag => .fromBuff tag crypted.isText)))
  else none

/-- What `encrypt` and `decrypt` do with the outcome of the operation. -/
def report (param : CryptParam) (result : Except CryptoStop Crypted) : List CryptoEvent :=
  match result with
  | .error .undefined => []
  | .error (.refused msg code) => answer param.fail param.complete none msg code
  | .ok crypted =>
    answer param.fail param.complete (success param crypted) "" 0 ++
      (if crypted.isText ∧ crypted.tag.isSome then [.inl (.free .tagOutput)] else []) ++
      if crypted.result.isSome then [.inl (.free (if crypted.copied then .result else .output))] else []

/-- `system_crypto_wrap_encrypt` and `system_crypto_wrap_decrypt`. -/
def crypt (op : CryptoOperation) : Option CryptParam → List CryptoEvent
  | none => []
  | some param =>
    (operationHandle env uv op param).events ++ report param (operationHandle env uv op param).result

end Crypto
end FeatureRuntime
