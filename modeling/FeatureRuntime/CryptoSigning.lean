import FeatureRuntime.Answering
import FeatureRuntime.CryptoOperation

/-! `hmacDigest`, `sign` and `verify` of `system.crypto`: their checks, the native calls and what is told of them. -/
namespace FeatureRuntime

inductive SignedInput
  | buffer (bytes : Bytes)
  | file (path : CString)

/-- The primitives of the hashes and the signatures. -/
structure UvSigning where
  mdHmac : (type : CString) → (text key : Bytes) → Option Bytes
  hexify : Bytes → Bytes
  sign : (type : CString) → (key : Bytes) → SignedInput → Option Bytes
  verify : (type : CString) → (key : Bytes) → SignedInput → (signature : Bytes) → Bool

/-- Which allocations succeed: those of `split_str`, that of a buffer for base64 and that of the copy of a result.
Only the second is checked. -/
structure SigningMemory where
  segments : Bool
  encoded : Bool
  result : Bool

structure HmacDigestParam where
  data : Option Bytes
  algo : Option CString
  key : Option Bytes
  supplied : ReplyCallback → Bool

structure SignParam where
  data : Option CryptoValue
  uri : Option CString
  algo : Option CString
  privateKey : Option Bytes
  supplied : ReplyCallback → Bool

structure RSAVerifyParam where
  data : Option CryptoValue
  uri : Option CString
  algo : Option CString
  signature : Option CryptoValue
  publicKey : Option Bytes
  supplied : ReplyCallback → Bool

/-- What `success` is invoked with. -/
inductive CryptoAnswer
  | data (value : CryptoValue) (tag : Option CryptoValue)
  | verified (result : Bool)
  deriving DecidableEq

/-- What the checks of `sign` find. -/
structure SignRequest where
  key : Bytes
  input : SignedInput
  isText : Bool

/-- What the checks of `verify` find. -/
structure VerifyRequest where
  key : Bytes
  input : SignedInput
  signature : Bytes

/-- The algorithm of a signature, with the message that is left where it is not supported. -/
structure SignAlgo where
  type : CString
  msg : String
  code : ℕ

/-- A run of `hmacDigest`, `sign` or `verify` up to its result, with the message that is left then. -/
abbrev SigningRun := Traced (ReplyEvent CryptoAnswer) CryptoStop (CryptoAnswer × String × ℕ)

namespace Crypto

def hashTypes : List CString := ["MD5".toList,"SHA1".toList,"SHA256".toList,"SHA512".toList]

def signHashTypes : List CString := ["RSA-MD5".toList,"RSA-SHA1".toList,"RSA-SHA256".toList,"RSA-SHA512".toList]

/-- `split_str`: one place more than there are delimiters, and the tokens in the first of them. -/
def splitStr (input : CString) (delimiter : Char) : List (Option CString) :=
  let tokens := (input.splitOn delimiter).filter (fun token => token ≠ [])
  tokens.map some ++ List.replicate (input.count delimiter + 1 - tokens.length) none

variable (memory : SigningMemory) (uv : UvCrypto) (uvs : UvSigning) (C : PathConfig) (pkg : Option CString)

/-- The algorithm of `hmacDigest`. -/
def hashAlgo (algo : Option CString) : Option CString :=
  match checkStr algo with
  | none => some "SHA256".toList
  | some algo => if algo ∈ hashTypes then some algo else none

/-- The data and the key of `hmacDigest`. -/
def hmacInput (param : HmacDigestParam) : Option (Bytes × Bytes) :=
  match checkStr param.data,checkStr param.key with
  | some data,some key => some (data,key)
  | _,_ => none

/-- `hmacDigest` up to its result, with `digest`. -/
def hmacBody (param : HmacDigestParam) : SigningRun := do
  let algo ← Traced.demand (hashAlgo param.algo) (.refused "invalid algo param" argsError)
  let input ← Traced.demand (hmacInput param) (.refused "arguments data and key are needed" argsError)
  Traced.tell [.perform]
  let out ← Traced.demand (uvs.mdHmac algo input.1 input.2) (.refused "crypto.digest hmac calculate failed" general)
  -- As in `presentSignature`, a copy without bytes may be a null pointer.
  Traced.require (memory.result = true) (if uvs.hexify out = [] then .refused "digest error" general else .undefined)
  return (.data (.fromBuff (uvs.hexify out) true) none,"",0)

/-- The algorithm of `sign` and `verify`. A null string is copied, and an algorithm that is not supported goes on
as it is. -/
def signAlgo (algo : Option CString) : Except CryptoStop SignAlgo :=
  match algo,memory.segments with
  | some algo,true =>
    if algo = [] then .ok ⟨"SHA256".toList,"",0⟩
    else if algo ∈ signHashTypes then
      match (splitStr algo '-')[1]? with
      | some (some type) => .ok ⟨type,"",0⟩
      | _ => .error .undefined
    else .ok ⟨algo,"invalid algo param!",argsError⟩
  | _,_ => .error .undefined

def signedFile (uri : CString) : Except CryptoStop CString :=
  match pkg with
  | none => .error (.refused "crypto.sign invalid parameter pkg" general)
  | some pkg =>
    match C.appRelativeToAbsolutePath pkg uri with
    | some path => .ok path
    | none => .error (.refused "crypto.sign convert to absoluate path failed" general)

def signedData (data : CryptoValue) (msg : String) : Except CryptoStop CryptoBuff :=
  match data.getBuff with
  | some buff => if buff.bytes = [] then .error (.refused msg argsError) else .ok buff
  | none => .error (.refused msg argsError)

/-- The checks of `sign` and of `rsa_sign_file`. -/
def signRequest (param : SignParam) : Except CryptoStop SignRequest :=
  match checkStr param.privateKey,param.data,checkStr param.uri with
  | none,_,_ => .error (.refused "arguments privateKey is needed" argsError)
  | some _,none,none => .error (.refused "arguments data or uri is needed" argsError)
  | some key,some data,none => (signedData data "invalid data type!").map (fun buff => ⟨key,.buffer buff.bytes,buff.isText⟩)
  | some key,none,some uri => (signedFile C pkg uri).map (fun path => ⟨key,.file path,true⟩)
  | some _,some _,some _ => .error (.refused "arguments data and uri are only needed for one" argsError)

def presentSignature (isText : Bool) (out : Bytes) : Except CryptoStop CryptoValue :=
  if isText then
    if memory.encoded = false then .error (.refused "crypto.sign malloc ret failed" general)
    else
      match (uv.base64Encode out).filter (fun encoded => encoded.length ≤ base64EncodedLength out.length) with
      | some encoded => if memory.result then .ok (.fromBuff encoded true) else .error .undefined
      | none => .error (.refused "crypto.sign base64 failed" general)
  -- A copy without bytes may be a null pointer, which is then taken for a failure.
  else if memory.result then .ok (.fromBuff out false)
  else if out = [] then .error (.refused "rsa sign error" general)
  else .error .undefined

/-- `sign` up to its result, with `rsa_sign` and `rsa_sign_file`. -/
def signBody (param : SignParam) : SigningRun := do
  let algo ← Traced.ofExcept (signAlgo memory param.algo)
  let request ← Traced.ofExcept (signRequest C pkg param)
  Traced.tell [.perform]
  let out ← Traced.demand (uvs.sign algo.type request.key request.input)
    (.refused "crypto.sign invalid parameter key" general)
  let result ← Traced.ofExcept (presentSignature memory uv request.isText out)
  return (.data result none,algo.msg,algo.code)

def decodeSignature (signature : Bytes) : Except CryptoStop Bytes :=
  if memory.encoded = false then .error (.refused "crypto.verify malloc md failed" general)
  else
    match (uv.base64Decode signature).filter (fun decoded => decoded.length ≤ signature.length) with
    | some decoded => .ok decoded
    | none => .error (.refused "crypto.verify base64 failed" general)

def dataSignature (signature : CryptoValue) : Except CryptoStop Bytes :=
  match signature.getBuff with
  | some buff => if buff.isText then decodeSignature memory uv buff.bytes else .ok buff.bytes
  | none => .error (.refused "crypto.aes invalid parameter signature" general)

/-- The signature of a file is read as a string, also where it is a null pointer or a buffer without the byte 0. -/
def fileSignature : CryptoValue → Except CryptoStop Bytes
  | .text bytes => .ok bytes.cstring
  | .buffer bytes => if 0 ∈ bytes then .ok bytes.cstring else .error .undefined
  | .view v => if 0 ∈ v.buffer then .ok (Bytes.cstring v.buffer) else .error .undefined
  | .other => .error .undefined

/-- The checks of `verify`, `rsa_verify` and `rsa_verify_file`. -/
def verifyRequest (param : RSAVerifyParam) : Except CryptoStop VerifyRequest :=
  match checkStr param.publicKey,param.signature with
  | some key,some signature =>
    match param.data,checkStr param.uri with
    | none,none => .error (.refused "arguments data or uri is needed" argsError)
    | some data,none => do
      let buff ← signedData data "data: invalid data type!"
      let signature ← dataSignature memory uv signature
      return ⟨key,.buffer buff.bytes,signature⟩
    | none,some uri => do
      let text ← fileSignature signature
      let path ← signedFile C pkg uri
      let signature ← decodeSignature memory uv text
      return ⟨key,.file path,signature⟩
    | some _,some _ => .error (.refused "arguments data and uri are only needed for one" argsError)
  | _,_ => .error (.refused "arguments publicKey and signature are needed" argsError)

/-- `verify` up to its result. A signature that is wrong is a result too. -/
def verifyBody (param : RSAVerifyParam) : SigningRun := do
  let algo ← Traced.ofExcept (signAlgo memory param.algo)
  let request ← Traced.ofExcept (verifyRequest memory uv C pkg param)
  Traced.tell [.perform]
  return (.verified (uvs.verify algo.type request.key request.input request.signature),algo.msg,algo.code)

def removeAllCbs : List ReplyCallback := [.success,.fail,.complete]

def tellResult (supplied : ReplyCallback → Bool) :
    Except CryptoStop (CryptoAnswer × String × ℕ) → List (ReplyEvent CryptoAnswer)
  | .ok (result,msg,code) => ReplyEvent.closing supplied (some result) msg code removeAllCbs
  | .error (.refused msg code) => ReplyEvent.closing supplied none msg code removeAllCbs
  | .error .undefined => []

def tellRun (supplied : ReplyCallback → Bool) (run : SigningRun) : List (ReplyEvent CryptoAnswer) :=
  run.events ++ tellResult supplied run.result

/-- `system_crypto_wrap_hmacDigest`. -/
def hmacDigest : Option HmacDigestParam → List (ReplyEvent CryptoAnswer)
  | none => []
  | some param => tellRun param.supplied (hmacBody memory uvs param)

/-- `system_crypto_wrap_sign`; without options a null pointer is read. -/
def sign : Option SignParam → List (ReplyEvent CryptoAnswer)
  | none => []
  | some param => tellRun param.supplied (signBody memory uv uvs C pkg param)

/-- `system_crypto_wrap_verify`; without options a null pointer is read. -/
def verify : Option RSAVerifyParam → List (ReplyEvent CryptoAnswer)
  | none => []
  | some param => tellRun param.supplied (verifyBody memory uv uvs C pkg param)

end Crypto
end FeatureRuntime
