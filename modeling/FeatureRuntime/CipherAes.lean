import FeatureRuntime.CryptoOperation

/-! `aes` of `system.cipher`, with its buffers. -/
namespace FeatureRuntime

/-- The argument of `aes`, with which callbacks are supplied. -/
structure AesParam where
  action : Option CString
  text : Option Bytes
  key : Option Bytes
  iv : Option Bytes
  ivOffset : ℤ
  ivLen : ℤ
  success : Bool
  fail : Bool
  complete : Bool

/-- What the checks of `aes` find; `keySize` is the size of the buffer that the key is in. -/
structure AesArguments where
  op : CryptoOperation
  buff : Bytes
  key : Bytes
  keySize : ℕ
  mode : AesMode

/-- The result string of `aes`, and the message that is set with it. -/
structure AesResult where
  text : Bytes
  msg : String
  code : ℕ

namespace Cipher

open Crypto

def operation (action : Option CString) : Option CryptoOperation :=
  match checkStr action with
  | some action =>
    if action = "encrypt".toList then some .encrypt
    else if action = "decrypt".toList then some .decrypt
    else none
  | none => none

def cbcMode (keySize : ℕ) : Option AesMode :=
  if keySize = 16 then some .cbc128
  else if keySize = 32 then some .cbc256
  else none

variable (env : CryptoMemory) (uv : UvCrypto)

def decodeInto (b : CryptoBuffer) (encoded : Bytes) (noMemory malformed : CryptoStop) : CryptoRun Bytes := do
  malloc env b encoded.length noMemory
  let bytes ← Traced.demand (base64Decode uv encoded encoded.length) malformed
  use b bytes.length
  return bytes

def input (op : CryptoOperation) (text : Bytes) : CryptoRun Bytes :=
  match op with
  | .encrypt => return text
  | .decrypt => decodeInto env uv .buff text (.refused "malloc buff failed" 0)
      (.refused "base64 decode data failed" 0)

/-- The checks of `system_cipher_wrap_aes` up to the mode. -/
def arguments (opts : AesParam) : CryptoRun AesArguments := do
  let op ← Traced.demand (operation opts.action) (.refused "invalid action" argsError)
  let text ← Traced.demand (checkStr opts.text) (.refused "wrong text param" 0)
  let buff ← input env uv op text
  let encoded ← Traced.demand (checkStr opts.key) (.refused "invalid key" argsError)
  let key ← decodeInto env uv .key encoded (.refused "malloc key failed" 0) (.refused "base64 decode key failed" 0)
  let mode ← Traced.demand (cbcMode key.length) (.refused "invalid key size" argsError)
  return ⟨op,buff,key,encoded.length,mode⟩

def chooseIv (opts : AesParam) (args : AesArguments) : CryptoRun IvSource :=
  match checkStr opts.iv with
  | some encoded => do
    let iv ← decodeInto env uv .iv encoded (.refused "malloc iv failed" argsError)
      (.refused "base64 decode iv failed" argsError)
    return ⟨.iv,encoded.length,iv⟩
  | none => do
    Traced.tell [.inr .ivIsKey]
    return ⟨.key,args.keySize,args.key⟩

def ivLength (opts : AesParam) (iv : IvSource) : ℤ :=
  if opts.ivLen ≠ 0 then opts.ivLen
  else if iv.buffer = .key then 16
  else iv.content.length

def stray (size : ℕ) : Bytes := Bytes.cstring ((List.range size).map (env.residue .result))

/-- The result of an encryption. Where base64 refuses, the result buffer stays with what is in it. -/
def encodeOutput (opts : AesParam) (output : Bytes) : CryptoRun AesResult := do
  let size := base64EncodedLength output.length + 1
  malloc env .result size (.refused "malloc result failed" general)
  use .output output.length
  match base64Encode uv output size with
  | some text => do
    use .result (text.length + 1)
    return ⟨text,"",0⟩
  | none => do
    Traced.given (opts.success = true) (reach .result size 0 ((stray env size).length + 1))
    return ⟨stray env size,"base64 encode result failed",general⟩

def copyOutput (output : Bytes) : CryptoRun AesResult := do
  malloc env .result output.length (.refused "malloc result failed" general)
  use .output (output.length + 1)
  reach .result output.length 0 (output.length + 1)
  return ⟨output.cstring,"",0⟩

def finish (opts : AesParam) (op : CryptoOperation) (output : Bytes) : CryptoRun AesResult :=
  match op with
  | .encrypt => encodeOutput env uv opts output
  | .decrypt => copyOutput env output

def transform (opts : AesParam) (args : AesArguments) : CryptoRun AesResult := do
  let iv ← chooseIv env uv opts args
  let outputSize ← roundUp (args.buff.length + 1) args.key.length
  malloc env .output outputSize (.refused "malloc output failed" general)
  let output ← aesNonAuthCrypto uv env args.mode .pkcs7Padding args.key iv opts.ivOffset (ivLength opts iv)
    (args.op = .decrypt) args.buff outputSize args.op (.refused "aes non auth crypto error" general)
  finish env uv opts args.op output

/-- `system_cipher_wrap_aes` before the label `exit`. -/
def body (opts : AesParam) : CryptoRun AesResult := do
  let args ← arguments env uv opts
  transform env uv opts args

/-- What is freed in the end. The pointer of the iv is freed unless the option is null, also where it is the
pointer of the key. -/
def exitFrees (opts : AesParam) (events : List CryptoEvent) : List CryptoEvent :=
  release [.output,.result,.key,.buff] events ++
    if opts.iv.isSome then
      release [.iv] events ++ if events.any (fun e => e = .inr .ivIsKey) then [.inl (.free .key)] else []
    else []

/-- The label `exit`: the callbacks, and what is freed after `events`. -/
def exit (opts : AesParam) (events : List CryptoEvent) (result : Except CryptoStop AesResult) : List CryptoEvent :=
  match result with
  | .error .undefined => []
  | .error (.refused msg code) => answer opts.fail opts.complete none msg code ++ exitFrees opts events
  | .ok result =>
    answer opts.fail opts.complete
      (if opts.success then some (.success (.text result.text) none) else none) result.msg result.code ++
      exitFrees opts events

/-- `system_cipher_wrap_aes`. -/
def aes (opts : AesParam) : List CryptoEvent :=
  (body env uv opts).events ++ exit opts (body env uv opts).events (body env uv opts).result

end Cipher
end FeatureRuntime
