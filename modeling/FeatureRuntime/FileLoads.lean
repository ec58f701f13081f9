import FeatureRuntime.BufferViews
import FeatureRuntime.CText
import FeatureRuntime.DirChain
import FeatureRuntime.FileRequests
import FeatureRuntime.FtArray
import FeatureRuntime.Overlay
import Mathlib.Data.List.DropRight

/-! The reading and writing of files in `system.file`: the record of a request, the work in the thread pool and what its
completion tells the script. -/
namespace FeatureRuntime

/-- A call with its data. An `ArrayBuffer` is a view of all of it. -/
inductive LoadRequest
  | writeText (text : CText) (append : Bool)
  | writeArrayBuffer (view : BufferView) (position : Int32) (append : Bool)
  | readText
  | readArrayBuffer (position length : Int32)

/-- The fields of `FileReq` that a load uses, with its flags. -/
structure FileReq where
  reads : Bool
  text : Bool
  append : Bool
  trunc : Bool
  offset : ℕ
  len : ℕ
  buf : List UInt8

/-- What the system calls return, and what `errno` holds when none of them fails. -/
structure LoadAnswers extends LoadCalls where
  errno : ℕ

/-- What the script is told; `crash` is an assertion or an access outside of a buffer. -/
inductive LoadOutcome
  | failed (code : ℤ)
  | wrote
  | text (bytes : List UInt8)
  | buffer (bytes : List UInt8)
  | crash

namespace FileLoad

/-- `INT32_MIN`: the length is that of the file. -/
def wholeFile : ℤ := -2147483648

/-- The parameters of `__file_load` in the record, where they are valid. -/
def fileReq (P : Platform) : LoadRequest → Option FileReq
  | .writeText text append =>
    if text.bytes = [] then none
    else some ⟨false,true,append,!append,0,text.bytes.length,text.bytes⟩
  | .writeArrayBuffer view position append =>
    if position.toInt < 0 ∧ append = false then none
    else some ⟨false,false,append,false,if append then 0 else position.toInt.toNat,view.buffer.length,view.buffer⟩
  | .readText => some ⟨true,true,false,false,0,sizeT P.addressSpace wholeFile,[]⟩
  | .readArrayBuffer position length =>
    if 0 ≤ position.toInt ∧ (0 ≤ length.toInt ∨ length.toInt = wholeFile) then
      some ⟨true,false,false,false,position.toInt.toNat,sizeT P.addressSpace length.toInt,[]⟩
    else none

/-- What `strrchr` cuts off a path. -/
def parentOf (path : CString) : Option CString :=
  if '/' ∈ path then some (path.rdropWhile (· ≠ '/')).dropLast else none

theorem length_parentOf {path parent : CString} (h : parentOf path = some parent) : parent.length < path.length := by
  rw [parentOf] at h
  split_ifs at h with hslash
  obtain rfl := Option.some.inj h
  have hle : (path.rdropWhile (· ≠ '/')).length ≤ path.length :=
    (List.rdropWhile_prefix (fun c => decide (c ≠ '/')) path).length_le
  have hpos := List.length_pos_of_mem hslash
  rw [List.length_dropLast]
  omega

section Work

variable {σ : Type} (F : FileSystem σ) (P : Platform) (path : CString) (calls : LoadAnswers)

/-- `__create_dir` with `flags` set. -/
def createDir (s : σ) (path : CString) : σ :=
  if path = ['.'] ∨ path = ['/'] ∨ F.present s path then s
  else
    match _h : parentOf path with
    | none => s
    | some parent =>
      let made := createDir s parent
      (F.mkdir made path).getD made
termination_by path.length
decreasing_by exact length_parentOf ‹_›

def enoent : ℤ := 2

/-- `open`: what is read is there, and what is written is made or cut off. -/
def openFile (s : σ) (fr : FileReq) : SysResult → Except ℤ σ
  | .error errno => .error (-errno.val)
  | .ok _ =>
    if fr.reads then if (F.content s path).isSome then .ok s else .error (-enoent)
    else .ok (if fr.trunc ∨ F.content s path = none then F.store s path [] else s)

/-- `lseek` and `read`. The number of bytes goes through an `int` into the length. -/
def readFile (s : σ) (fr : FileReq) : ℤ × FileReq :=
  match calls.lseek,calls.transfer with
  | .error errno,_ => (-errno.val,fr)
  | .ok _,.error errno => (-errno.val,fr)
  | .ok _,.ok n =>
    let data := ((((F.content s path).getD []).drop fr.offset).take fr.len).take n
    let r := toInt data.length
    (if r < 0 then -calls.errno else r,{ fr with buf := data, len := sizeT P.addressSpace r })

/-- `write` of the bytes that it takes. -/
def writeBytes (s : σ) (fr : FileReq) : σ × Option ℤ :=
  match calls.transfer with
  | .error errno => (s,some (-errno.val))
  | .ok n =>
    if fr.buf.length < fr.len then (s,none)
    else
      let old := (F.content s path).getD []
      let data := (fr.buf.take fr.len).take n
      let r := toInt data.length
      (F.store s path (if fr.append then old ++ data else overlay 0 old fr.offset data),
        some (if r < 0 then -calls.errno else r))

/-- The part of `__load_file_work_cb` that writes. A file that was opened to append is not sought in, but that is
forgotten at the second `open`. -/
def writeFile (s : σ) (fr : FileReq) (first : Bool) : σ × Option ℤ :=
  if calls.diskAgain = false then (s,some (-File.enospc))
  else if fr.len = 0 then (s,some 0)
  else if fr.append ∧ first then writeBytes F path calls s fr
  else
    match calls.lseek with
    | .error errno => (s,some (-errno.val))
    | .ok _ => writeBytes F path calls s fr

/-- What follows the `open` that succeeds. -/
def transfer (s : σ) (fr : FileReq) (first : Bool) : σ × Option (ℤ × FileReq) :=
  if fr.reads then (s,some (readFile F P path calls s fr))
  else
    let written := writeFile F path calls s fr first
    (written.1,written.2.map (·,fr))

/-- The two times that the file is opened, with whether the first one did; in between the directories above it are made,
which asserts that its path has some. -/
def openPath (s : σ) (fr : FileReq) : σ × Option (Except ℤ Bool) :=
  match openFile F path s fr calls.openFile with
  | .ok opened => (opened,some (.ok true))
  | .error _ =>
    match parentOf path with
    | none => (s,none)
    | some parent =>
      match openFile F path (createDir F s parent) fr calls.openAgain with
      | .ok opened => (opened,some (.ok false))
      | .error code => (createDir F s parent,some (.error code))

/-- The work behind the `stat`. -/
def loadSized (s : σ) (fr : FileReq) : σ × Option (ℤ × FileReq) :=
  if fr.reads = false ∧ calls.disk = false then (s,some (-File.enospc,fr))
  else
    match openPath F path calls s fr with
    | (opened,none) => (opened,none)
    | (opened,some (.error code)) => (opened,some (code,fr))
    | (opened,some (.ok first)) => transfer F P path calls opened fr first

/-- `__load_file_work_cb`: the code and the record that it leaves. -/
def loadFileWork (s : σ) (fr : FileReq) : σ × Option (ℤ × FileReq) :=
  if toInt fr.len = wholeFile then
    match F.content s path,calls.stat with
    | none,_ => (s,some (-enoent,fr))
    | some _,.error errno => (s,some (-errno.val,fr))
    | some bytes,.ok _ => loadSized F P path calls s { fr with len := sizeT P.addressSpace bytes.length }
  else loadSized F P path calls s fr

/-- `__load_after_work_cb`: the text is the C string that the bytes start with. -/
def loadAfterWork (r : ℤ) (fr : FileReq) : LoadOutcome :=
  if r < 0 then .failed (File.errorCodeMap r)
  else if fr.reads = false then .wrote
  else if fr.buf.length < fr.len then .crash
  else if fr.text then .text (cstr (fr.buf.take fr.len ++ [0]))
  else .buffer (fr.buf.take fr.len)

def told (work : σ × Option (ℤ × FileReq)) : σ × LoadOutcome :=
  match work.2 with
  | none => (work.1,.crash)
  | some (r,fr) => (work.1,loadAfterWork r fr)

def load (request : LoadRequest) (s : σ) : σ × LoadOutcome :=
  match fileReq P request with
  | none => (s,.failed File.errArgs)
  | some fr => told (loadFileWork F P path calls s fr)

end Work

end FileLoad
end FeatureRuntime
