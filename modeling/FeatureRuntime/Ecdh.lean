import FeatureRuntime.CryptoNative
import FeatureRuntime.Transition
import Mathlib.Data.List.Basic

/-! The ECDH objects of `system.crypto`: their key buffers over any sequence of calls. -/
namespace FeatureRuntime

structure ECDHSupported where
  curve : CString
  privateKeySize : ℕ
  publicKeySize : ℕ
  isSupported : Bool

structure EcdhPair where
  privateKey : Bytes
  publicKey : Bytes

/-- The data of an object: pointers to buffers, null or with what is in them, and the sizes of the keys. -/
structure CryptoECDH where
  privateKey : Option Bytes
  privateKeySize : ℕ
  publicKey : Option Bytes
  publicKeySize : ℕ

inductive EcdhBuffer
  | object
  | publicKey
  | privateKey
  | output
  | decode
  | unhexed
  | secret
  | value
  deriving DecidableEq

/-- Which allocations of a call succeed, and what is in a buffer before it is written. -/
structure EcdhMemory where
  allocates : EcdhBuffer → Bool
  residue : EcdhBuffer → ℕ → UInt8

/-- The primitives. A key pair is generated from a seed, for buffers of given sizes. -/
structure UvEcdh where
  generate : (seed privateKeySize publicKeySize : ℕ) → Option EcdhPair
  fromPem : (pem : Bytes) → (privateKeySize publicKeySize : ℕ) → Option EcdhPair
  publicOf : (privateKey : Bytes) → (publicKeySize : ℕ) → Option Bytes
  shared : (privateKey publicKey : Bytes) → (size : ℕ) → Option Bytes
  hexify : Bytes → Bytes

/-- Why a call does not succeed: it tells an error, returns a null pointer, returns without a word, or leaves its
buffers. -/
inductive EcdhStop
  | refused (msg : String) (code : ℕ)
  | null
  | silent
  | overrun
  deriving DecidableEq

/-- The argument of `computeSecret`. -/
structure ComputeParam where
  otherPublicKey : Option CryptoValue
  inputEncoding : Option CString
  outputEncoding : Option CString

/-- The calls of an object. An argument may be a null pointer. -/
inductive EcdhCall
  | generateKeys (encoding : Option (Option CString)) (seed : ℕ)
  | getPrivateKey (encoding : Option CString)
  | getPublicKey (encoding : Option CString)
  | setPrivateKey (privateKey : Option (Option CryptoValue))
  | computeSecret (param : Option ComputeParam)

/-- An object: its data, where it has any, and the key pair of the last call that has made one. -/
structure EcdhObject where
  data : Option CryptoECDH
  made : Option EcdhPair

/-- What a call comes to, and the object after it. -/
structure EcdhResult where
  result : Except EcdhStop (Option CryptoValue)
  object : EcdhObject

inductive EcdhOp
  | createECDH (type : Option CString) (memory : EcdhMemory)
  | call (handle : ℕ) (call : EcdhCall) (memory : EcdhMemory)

namespace Ecdh

open Crypto

/-- `ECDHCfgSupported`. -/
def cfgSupported : List ECDHSupported :=
  [⟨"secp192r1".toList,0,0,false⟩,⟨"secp224r1".toList,0,0,false⟩,⟨"secp256r1".toList,32,65,true⟩,
    ⟨"secp384r1".toList,0,0,false⟩,⟨"secp521r1".toList,0,0,false⟩,⟨"bp256r1".toList,0,0,false⟩,
    ⟨"bp384r1".toList,0,0,false⟩,⟨"bp512r1".toList,0,0,false⟩,⟨"curve25519".toList,0,0,false⟩,
    ⟨"secp192k1".toList,0,0,false⟩,⟨"secp224k1".toList,0,0,false⟩,⟨"secp256k1".toList,0,0,false⟩,
    ⟨"curve448".toList,0,0,false⟩]

/-- `check_cruve_type`. -/
def checkCurveType (type : CString) : Option ECDHSupported :=
  cfgSupported.find? (fun cfg => type = cfg.curve ∧ cfg.isSupported = true)

variable (memory : EcdhMemory) (uv : UvCrypto) (uve : UvEcdh)

def fresh (b : EcdhBuffer) (size : ℕ) : Bytes := (List.range size).map (memory.residue b)

/-- `ECDH_allocate_keys`: whether it succeeds, and the data after it. -/
def allocateKeys (e : CryptoECDH) : Bool × CryptoECDH :=
  if memory.allocates .publicKey = false then (false,{ e with publicKey := none })
  else if memory.allocates .privateKey = false then (false,{ e with publicKey := none, privateKey := none })
  else (true,{ e with
    publicKey := some (fresh memory .publicKey e.publicKeySize)
    privateKey := some (fresh memory .privateKey e.privateKeySize) })

def fill (block bytes : Bytes) : Bytes := bytes ++ block.drop bytes.length

def read (block : Option Bytes) (n : ℕ) : Except EcdhStop Bytes :=
  match block with
  | some block => if n ≤ block.length then .ok (block.take n) else .error .overrun
  | none => .error .overrun

def hexCharToValue (c : UInt8) : Option UInt8 :=
  if 48 ≤ c ∧ c ≤ 57 then some (c - 48)
  else if 97 ≤ c ∧ c ≤ 102 then some (c - 97 + 10)
  else if 65 ≤ c ∧ c ≤ 70 then some (c - 65 + 10)
  else none

/-- `crypto_unhexify`; an input of odd length is invalid. -/
def unhexify : Bytes → Option Bytes
  | [] => some []
  | [_] => none
  | high :: low :: rest =>
    match hexCharToValue high,hexCharToValue low with
    | some high,some low => (unhexify rest).map (fun bytes => (high * 16 + low) :: bytes)
    | _,_ => none

/-- `ecdh_get_decoding_data`, with whether its result counts as text. -/
def decodingData (encoding : Option CString) (input : Bytes) (isText : Bool) (e : EcdhStop) :
    Except EcdhStop (Bytes × Bool) :=
  match encoding with
  | none => .ok (input,isText)
  | some encoding =>
    if encoding = "base64".toList then
      match base64Decode uv input input.length with
      | some bytes => .ok (bytes,true)
      | none => .error e
    else if encoding = "hex".toList then
      match unhexify input with
      | some bytes => if bytes = [] ∨ memory.allocates .unhexed = false then .error e else .ok (bytes,true)
      | none => .error e
    else if encoding = "buffer".toList ∨ encoding = [] then .ok (input,isText)
    else .error e

/-- `ecdh_get_encoding_data` into a buffer of twice the size and one byte more, with whether its result is text,
unless that is left as it was. -/
def encodingData (encoding : Option CString) (block : Option Bytes) (n : ℕ) (e : EcdhStop) :
    Except EcdhStop (Bytes × Option Bool) :=
  match encoding with
  | none => (read block n).map (fun bytes => (bytes,none))
  | some encoding =>
    if encoding = "base64".toList then
      if block = none ∨ n = 0 then .error e
      else do
        let bytes ← read block n
        match base64Encode uv bytes (2 * n + 1) with
        | some text => .ok (text,some true)
        | none => .error e
    else if encoding = "hex".toList then do
      let bytes ← read block n
      if uve.hexify bytes = [] then .error e
      else if 2 * n < (uve.hexify bytes).length then .error .overrun
      else .ok (uve.hexify bytes,some true)
    else if encoding = "buffer".toList ∨ encoding = [] then (read block n).map (fun bytes => (bytes,some false))
    else .error e

/-- `createECDH`. The curve is compared with a string, also where it is a null pointer. -/
def createECDH (type : Option CString) : Except EcdhStop EcdhObject :=
  if memory.allocates .object = false then .ok ⟨none,none⟩
  else
    match type with
    | none => .error .overrun
    | some type =>
      match checkCurveType type with
      | none => .ok ⟨none,none⟩
      | some cfg =>
        match allocateKeys memory ⟨none,cfg.privateKeySize,none,cfg.publicKeySize⟩ with
        | (true,e) => .ok ⟨some e,none⟩
        | (false,_) => .ok ⟨none,none⟩

/-- `getPrivateKey` and `getPublicKey`. The memory of the value that is returned is not checked. -/
def getKey (block : Option Bytes) (size : ℕ) (encoding : Option CString) : Except EcdhStop (Option CryptoValue) :=
  if memory.allocates .output = false then .error .null
  else
    match encodingData uv uve encoding block size .null with
    | .error e => .error e
    | .ok (bytes,isText) =>
      if memory.allocates .value = false then .error .overrun
      else .ok (some (.fromBuff bytes (isText.getD false)))

def store (e : CryptoECDH) (pair : EcdhPair) : CryptoECDH :=
  { e with
    privateKey := e.privateKey.map (fun block => fill block pair.privateKey)
    publicKey := e.publicKey.map (fun block => fill block pair.publicKey) }

/-- What `generateKeys` makes of the public key. -/
def generated (encoding : Option CString) (e : CryptoECDH) : Except EcdhStop (Option CryptoValue) :=
  if memory.allocates .output = false then .error (.refused "malloc output failed" general)
  else
    match encodingData uv uve encoding e.publicKey e.publicKeySize (.refused "ecdh_get_encoding_data failed" general) with
    | .error stop => .error stop
    | .ok (bytes,isText) => .ok (some (.fromBuff bytes (isText.getD false)))

def madeBy (result : Except EcdhStop (Option CryptoValue)) (pair : EcdhPair) (before : Option EcdhPair) :
    Option EcdhPair :=
  match result with
  | .ok _ => some pair
  | .error _ => before

/-- `generateKeys`. Where there is no memory for the keys it returns without a callback. -/
def generateKeys (o : EcdhObject) (e : CryptoECDH) (encoding : Option (Option CString)) (seed : ℕ) : EcdhResult :=
  match allocateKeys memory e with
  | (false,e) => ⟨.error .silent,⟨some e,o.made⟩⟩
  | (true,e) =>
    match encoding with
    | none => ⟨.error .overrun,⟨some e,o.made⟩⟩
    | some encoding =>
      match uve.generate seed e.privateKeySize e.publicKeySize with
      | none => ⟨.error (.refused "ECDH_generate_key failed" general),⟨some e,o.made⟩⟩
      | some pair =>
        let e := { store e pair with publicKeySize := pair.publicKey.length }
        ⟨generated memory uv uve encoding e,⟨some e,madeBy (generated memory uv uve encoding e) pair o.made⟩⟩

/-- `setPrivateKey` once there is memory for the keys. -/
def importKey (o : EcdhObject) (e : CryptoECDH) (key : CryptoBuff) : EcdhResult :=
  if key.isText then
    match uve.fromPem key.bytes e.privateKeySize e.publicKeySize with
    | none => ⟨.error (.refused "ECDH_generate_keypair_by_pem failed" general),⟨some e,o.made⟩⟩
    | some pair =>
      if pair.publicKey.length ≠ e.publicKeySize then
        ⟨.error (.refused "ECDH_generate_keypair_by_pem failed" general),⟨some (store e pair),o.made⟩⟩
      else ⟨.ok none,⟨some (store e pair),some pair⟩⟩
  else
    match uve.publicOf key.bytes e.publicKeySize with
    | none => ⟨.error (.refused "ECDH_generate_keypair_by_binary failed" general),⟨some e,o.made⟩⟩
    | some publicKey =>
      -- A public key of another size is a success that leaves the private key behind.
      if publicKey.length ≠ e.publicKeySize then
        ⟨.ok none,⟨some { e with publicKey := e.publicKey.map (fun block => fill block publicKey) },
          some ⟨key.bytes,publicKey⟩⟩⟩
      else if e.privateKeySize < key.bytes.length then ⟨.error .overrun,⟨some e,o.made⟩⟩
      else
        ⟨.ok none,⟨some { store e ⟨key.bytes,publicKey⟩ with privateKeySize := key.bytes.length },
          some ⟨key.bytes,publicKey⟩⟩⟩

def setPrivateKey (o : EcdhObject) (e : CryptoECDH) (privateKey : Option CryptoValue) : EcdhResult :=
  match privateKey with
  | none => ⟨.error (.refused "privateKey is NULL" argsError),o⟩
  | some privateKey =>
    match privateKey.getBuff.filter (fun key => key.bytes ≠ []) with
    | none => ⟨.error (.refused "get_buff failed" argsError),o⟩
    | some key =>
      match allocateKeys memory e with
      | (false,e) => ⟨.error (.refused "ECDH_allocate_keys failed" general),⟨some e,o.made⟩⟩
      | (true,e) => importKey uve o e key

/-- The other key of `computeSecret`, decoded. -/
def otherKey (param : ComputeParam) : Except EcdhStop (Bytes × Bool) :=
  match param.otherPublicKey with
  | none => .error (.refused "otherPublicKey is NULL" argsError)
  | some value =>
    match value.getBuff.filter (fun key => key.bytes ≠ []) with
    | none => .error (.refused "wrong otherPublicKey type" argsError)
    | some key =>
      if memory.allocates .decode = false then .error (.refused "malloc publicKey_decode failed" general)
      else decodingData memory uv param.inputEncoding key.bytes key.isText
        (.refused "ecdh_get_decoding_data failed" argsError)

/-- A shared secret as it is returned. Without an encoding a text is read from a buffer that nothing terminates. -/
def presentSecret (encoding : Option CString) (isText : Bool) (secret : Bytes) :
    Except EcdhStop (Option CryptoValue) :=
  if memory.allocates .output = false then .error (.refused "malloc output failed" general)
  else
    match encodingData uv uve encoding (some secret) secret.length
        (.refused "ecdh_get_encoding_data failed" argsError) with
    | .error e => .error e
    | .ok (bytes,some isText) => .ok (some (.fromBuff bytes isText))
    | .ok (bytes,none) =>
      let output := fill (fresh memory .output (2 * secret.length + 1)) bytes
      if isText = true then
        if 0 ∈ output then .ok (some (.fromBuff output true)) else .error .overrun
      else .ok (some (.fromBuff bytes false))

/-- `computeSecret` from the decoded key on. -/
def sharedSecret (privateKey : Option Bytes) (size : ℕ) (encoding : Option CString) (other : Bytes) (isText : Bool) :
    Except EcdhStop (Option CryptoValue) :=
  if memory.allocates .secret = false then .error (.refused "malloc secretKey failed" general)
  else
    match read privateKey size with
    | .error e => .error e
    | .ok key =>
      match uve.shared key other size with
      | none => .error (.refused "ECDH_compute_shared_key failed" general)
      | some secret => presentSecret memory uv uve encoding isText secret

def computeSecret (privateKey : Option Bytes) (size : ℕ) (param : ComputeParam) :
    Except EcdhStop (Option CryptoValue) :=
  match otherKey memory uv param with
  | .error e => .error e
  | .ok (other,isText) => sharedSecret memory uv uve privateKey size param.outputEncoding other isText

def noObject : EcdhStop := .refused "please create ECDH object first" general

def call (o : EcdhObject) : EcdhCall → EcdhResult
  | .setPrivateKey none => ⟨.error .overrun,o⟩
  | .computeSecret none => ⟨.error .overrun,o⟩
  | .getPrivateKey encoding =>
    match o.data with
    | none => ⟨.error .null,o⟩
    | some e => ⟨getKey memory uv uve e.privateKey e.privateKeySize encoding,o⟩
  | .getPublicKey encoding =>
    match o.data with
    | none => ⟨.error .null,o⟩
    | some e => ⟨getKey memory uv uve e.publicKey e.publicKeySize encoding,o⟩
  | .generateKeys encoding seed =>
    match o.data with
    | none => ⟨if encoding = none then .error .overrun else .error noObject,o⟩
    | some e => generateKeys memory uv uve o e encoding seed
  | .setPrivateKey (some privateKey) =>
    match o.data with
    | none => ⟨.error noObject,o⟩
    | some e => setPrivateKey memory uve o e privateKey
  | .computeSecret (some param) =>
    match o.data with
    | none => ⟨.error noObject,o⟩
    | some e => ⟨computeSecret memory uv uve e.privateKey e.privateKeySize param,o⟩

def step (objects : List EcdhObject) : EcdhOp → List EcdhObject
  | .createECDH type memory =>
    match createECDH memory type with
    | .ok o => objects ++ [o]
    | .error _ => objects
  | .call handle c memory => objects.modify handle (fun o => (call memory uv uve o c).object)

end Ecdh
end FeatureRuntime
