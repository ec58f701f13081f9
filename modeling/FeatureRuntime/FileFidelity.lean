import FeatureRuntime.FileLoads
import FeatureRuntime.ParentDirs

/-! When the reads and writes of `system.file` do what they report: all of the data in its place, exactly the bytes that
were asked for, and nothing made by a read. -/
namespace FeatureRuntime

def SysResult.succeeds : SysResult → Bool
  | .ok _ => true
  | .error _ => false

def LoadRequest.reads : LoadRequest → Bool
  | .writeText _ _ | .writeArrayBuffer _ _ _ => false
  | .readText | .readArrayBuffer _ _ => true

namespace FileLoad

section Spec

variable {σ : Type} (F : FileSystem σ) (P : Platform) (path : CString) (calls : LoadAnswers)

def missing (s : σ) (path : CString) : List CString :=
  if path = ['.'] ∨ path = ['/'] ∨ F.present s path then []
  else
    match _h : parentOf path with
    | none => []
    | some parent => missing s parent ++ [path]
termination_by path.length
decreasing_by exact length_parentOf ‹_›

def given : LoadRequest → List UInt8
  | .writeText text _ => text.bytes
  | .writeArrayBuffer view _ _ => view.covered
  | _ => []

/-- The content of a file with data at the place that a call asks for: a text replaces it or goes to its end. -/
def placed (old data : List UInt8) : LoadRequest → List UInt8
  | .writeText _ append => if append then old ++ data else data
  | .writeArrayBuffer _ position append =>
    if append then old ++ data else overlay 0 old position.toInt.toNat data
  | _ => old

def range (bytes : List UInt8) : LoadRequest → List UInt8
  | .readArrayBuffer position length =>
    if length.toInt = wholeFile then bytes.drop position.toInt.toNat
    else (bytes.drop position.toInt.toNat).take length.toInt.toNat
  | _ => bytes

/-- A success of a write has all the given bytes at their place, and the other bytes as they were. -/
def Writes (s : σ) (request : LoadRequest) : Prop :=
  (load F P path calls request s).2 = .wrote → F.content (load F P path calls request s).1 path =
      some (placed ((F.content s path).getD []) (given request) request)

def Reads (s : σ) (request : LoadRequest) : Prop :=
  (∀ data, (load F P path calls request s).2 = .text data ∨ (load F P path calls request s).2 = .buffer data →
    ∃ bytes, F.content s path = some bytes ∧ data = range bytes request) ∧
  (load F P path calls request s).1 = s

def Faithful (s : σ) (request : LoadRequest) : Prop :=
  if request.reads then Reads F P path calls s request else Writes F P path calls s request

/-- The length that is asked of `read` or `write`. -/
def asked (s : σ) (fr : FileReq) : ℕ :=
  if toInt fr.len = wholeFile then sizeT P.addressSpace ((F.content s path).getD []).length else fr.len

def Stats (s : σ) (fr : FileReq) : Prop :=
  toInt fr.len = wholeFile → (F.content s path).isSome = true ∧ calls.stat.succeeds = true

def Opens : Prop := calls.openFile.succeeds = true ∨ (parentOf path).isSome = true ∧ calls.openAgain.succeeds = true

/-- `write` takes the bytes, and their number is no error as an `int`. -/
def BytesTaken (fr : FileReq) (data : List UInt8) : Prop :=
  fr.len ≤ fr.buf.length ∧
    ∃ n, calls.transfer = .ok n ∧ data = (fr.buf.take fr.len).take n ∧ (0 ≤ toInt data.length ∨ calls.errno = 0)

/-- The calls behind `open` succeed, and the bytes are taken. -/
def Transfers (fr : FileReq) (first : Bool) (data : List UInt8) : Prop :=
  calls.diskAgain = true ∧ (fr.len = 0 ∧ data = [] ∨
    fr.len ≠ 0 ∧ (fr.append = true ∧ first = true ∨ calls.lseek.succeeds = true) ∧ BytesTaken calls fr data)

/-- The calls of a write succeed, and the operating system takes the bytes. -/
structure WriteTakes (s : σ) (fr : FileReq) (data : List UInt8) : Prop where
  stats : Stats F path calls s fr
  disk : calls.disk = true
  opens : Opens path calls
  transfers : Transfers calls { fr with len := asked F P path s fr } calls.openFile.succeeds data

def Keeps (old data : List UInt8) : LoadRequest → Prop
  | .writeArrayBuffer view position false => WritesSame old position.toInt.toNat data view.covered
  | request => data = given request

/-- `read` hands over the bytes, and so many of them are kept as the `int` counts. -/
structure HandsOver (fr : FileReq) (bytes data : List UInt8) (kept : ℕ) : Prop where
  seeks : calls.lseek.succeeds = true
  takes : ∃ n, calls.transfer = .ok n ∧ data = ((bytes.drop fr.offset).take fr.len).take n
  counts : 0 ≤ toInt data.length ∨ calls.errno = 0
  kept_eq : kept = sizeT P.addressSpace (toInt data.length)
  kept_le : kept ≤ data.length

/-- The calls of a read succeed, and the operating system hands over bytes of the file. -/
structure ReadTakes (s : σ) (fr : FileReq) (bytes data : List UInt8) (kept : ℕ) : Prop where
  content : F.content s path = some bytes
  stats : Stats F path calls s fr
  opens : Opens path calls
  handsOver : HandsOver P calls { fr with len := asked F P path s fr } bytes data kept

def KeepsRange (fr : FileReq) (bytes : List UInt8) (kept : ℕ) (request : LoadRequest) : Prop :=
  kept = (range bytes request).length ∧ (fr.text = true → 0 ∉ bytes)

/-- When a file that is there to be read does not open at once, no directory above it is missing that can be made. -/
def MakesNothing (s : σ) (fr : FileReq) : Prop :=
  Stats F path calls s fr → ¬(calls.openFile.succeeds = true ∧ (F.content s path).isSome = true) →
    ∀ parent, parentOf path = some parent → ∀ q ∈ missing F s parent, F.mkdir s q = none

def LoadKeeps (s : σ) (request : LoadRequest) (fr : FileReq) : Prop :=
  if fr.reads then
    (∀ bytes data kept, ReadTakes F P path calls s fr bytes data kept → KeepsRange fr bytes kept request) ∧
      MakesNothing F path calls s fr
  else ∀ data, WriteTakes F P path calls s fr data → Keeps ((F.content s path).getD []) data request

end Spec

section Directories

variable {σ : Type} {F : FileSystem σ} {s : σ}

theorem createDir_cases (path : CString) :
    createDir F s path = s ∧ missing F s path = [] ∨ ∃ parent, parent.length < path.length ∧ F.present s path = false ∧
      createDir F s path = (F.mkdir (createDir F s parent) path).getD (createDir F s parent) ∧
      missing F s path = missing F s parent ++ [path] := by
  by_cases hstop : path = ['.'] ∨ path = ['/'] ∨ F.present s path
  · rw [createDir,missing,if_pos hstop,if_pos hstop]
    exact .inl ⟨rfl,rfl⟩
  rw [createDir,missing,if_neg hstop,if_neg hstop]
  cases hparent : parentOf path with
  | none => exact .inl ⟨rfl,rfl⟩
  | some parent =>
    exact .inr ⟨parent,length_parentOf hparent,by simpa using (not_or.mp (not_or.mp hstop).2).2,rfl,rfl⟩

theorem content_createDir (path q : CString) : F.content (createDir F s path) q = F.content s q := by
  induction hlength : path.length using Nat.strong_induction_on generalizing path with
  | _ length ih =>
    rcases createDir_cases (F := F) (s := s) path with ⟨hsame,-⟩ | ⟨parent,hlt,-,hmake,-⟩
    · rw [hsame]
    · have hparent := ih _ (hlength ▸ hlt) parent rfl
      rw [hmake]
      cases hmkdir : F.mkdir (createDir F s parent) path with
      | none => exact hparent
      | some made => exact (F.content_mkdir hmkdir).trans hparent

theorem createDir_eq_iff (path : CString) : createDir F s path = s ↔ ∀ q ∈ missing F s path, F.mkdir s q = none := by
  induction hlength : path.length using Nat.strong_induction_on generalizing path with
  | _ length ih =>
    rcases createDir_cases (F := F) (s := s) path with ⟨hsame,hmissing⟩ | ⟨parent,hlt,habsent,hmake,hmissing⟩
    · rw [hmissing]
      exact iff_of_true hsame (by simp)
    · have hparent := ih _ (hlength ▸ hlt) parent rfl
      rw [hmake,hmissing]
      simp only [List.mem_append,List.mem_singleton,or_imp,forall_and,forall_eq]
      rw [← hparent]
      constructor
      · intro h
        cases hmkdir : F.mkdir (createDir F s parent) path with
        | none =>
          rw [hmkdir,Option.getD_none] at h
          exact ⟨h,h ▸ hmkdir⟩
        | some made =>
          rw [hmkdir,Option.getD_some] at h
          have hpresent := F.present_of_isDir (F.mkdir_isDir hmkdir)
          rw [h,habsent] at hpresent
          cases hpresent
      · rintro ⟨hsame,hmkdir⟩
        rw [hsame,hmkdir]
        rfl

end Directories

section Calls

variable {σ : Type} {F : FileSystem σ} {P : Platform} {path : CString} {calls : LoadAnswers} {s : σ} {fr : FileReq}

theorem code_nonneg {r : ℤ} {errno : ℕ} : 0 ≤ (if r < 0 then -(errno : ℤ) else r) ↔ 0 ≤ r ∨ errno = 0 := by
  split_ifs <;> omega

theorem loadFileWork_cases (F : FileSystem σ) (P : Platform) (path : CString) (calls : LoadAnswers) (s : σ)
    (fr : FileReq) :
    Stats F path calls s fr ∧
        loadFileWork F P path calls s fr = loadSized F P path calls s { fr with len := asked F P path s fr } ∨
      ¬Stats F path calls s fr ∧ ∃ code < 0, loadFileWork F P path calls s fr = (s,some (code,fr)) := by
  by_cases hwhole : toInt fr.len = wholeFile
  · rw [loadFileWork,if_pos hwhole,Stats,asked,if_pos hwhole]
    cases F.content s path with
    | none => exact .inr ⟨by simp [hwhole],-enoent,by decide,rfl⟩
    | some bytes =>
      cases hstat : calls.stat with
      | ok value => exact .inl ⟨fun _ => ⟨rfl,rfl⟩,rfl⟩
      | error errno =>
        have hpos := errno.pos
        exact .inr ⟨by simp [hwhole,SysResult.succeeds],-errno.val,by omega,rfl⟩
  · rw [loadFileWork,if_neg hwhole,Stats,asked,if_neg hwhole]
    exact .inl ⟨fun h => absurd h hwhole,rfl⟩

def Found (F : FileSystem σ) (path : CString) (s : σ) (fr : FileReq) : Prop :=
  fr.reads = true → (F.content s path).isSome = true

def openedContent (fr : FileReq) (content : Option (List UInt8)) : List UInt8 :=
  if fr.reads = false ∧ fr.trunc = true then [] else content.getD []

theorem openedContent_len (n : ℕ) (content : Option (List UInt8)) :
    openedContent { fr with len := n } content = openedContent fr content := rfl

theorem openFile_cases (path : CString) (s : σ) (fr : FileReq) (answer : SysResult) :
    (answer.succeeds = true ∧ Found F path s fr) ∧ (∃ opened, openFile F path s fr answer = .ok opened ∧
        F.content opened path = some (openedContent fr (F.content s path))) ∨
      ¬(answer.succeeds = true ∧ Found F path s fr) ∧ ∃ code < 0, openFile F path s fr answer = .error code := by
  cases answer with
  | error errno =>
    have hpos := errno.pos
    exact .inr ⟨by simp [SysResult.succeeds],-errno.val,by omega,rfl⟩
  | ok value =>
    cases hreads : fr.reads with
    | true =>
      cases hcontent : F.content s path with
      | none => exact .inr ⟨by simp [Found,hreads,hcontent],-enoent,by decide,by simp [openFile,hreads,hcontent]⟩
      | some bytes =>
        exact .inl ⟨⟨rfl,by simp [Found,hcontent]⟩,s,by simp [openFile,hreads,hcontent],
          by simp [openedContent,hreads,hcontent]⟩
    | false =>
      refine .inl ⟨⟨rfl,by simp [Found,hreads]⟩,_,by rw [openFile,hreads]; rfl,?_⟩
      by_cases htrunc : fr.trunc = true
      · rw [if_pos (.inl htrunc),F.content_store,openedContent,if_pos ⟨hreads,htrunc⟩]
      · cases hcontent : F.content s path with
        | none => rw [if_pos (.inr rfl),F.content_store,openedContent,if_neg (by simp [htrunc]),Option.getD_none]
        | some bytes =>
          rw [if_neg (by simp [htrunc]),hcontent,openedContent,if_neg (by simp [htrunc]),Option.getD_some]

/-- The path does not open: its `open` fails twice, or nothing is above it. -/
def Fails (opened : Option (Except ℤ Bool)) : Prop := opened = none ∨ ∃ code < 0, opened = some (.error code)

theorem openPath_cases (path : CString) (calls : LoadAnswers) (s : σ) (fr : FileReq) :
    (Opens path calls ∧ Found F path s fr) ∧
        (∃ opened, openPath F path calls s fr = (opened,some (.ok calls.openFile.succeeds)) ∧
          F.content opened path = some (openedContent fr (F.content s path))) ∨
      ¬(Opens path calls ∧ Found F path s fr) ∧ Fails (openPath F path calls s fr).2 := by
  rw [openPath]
  rcases openFile_cases (F := F) path s fr calls.openFile with
    ⟨⟨hanswer,hfound⟩,opened,hopen,hcontent⟩ | ⟨hfirst,code,-,hopen⟩
  · rw [hopen,hanswer]
    exact .inl ⟨⟨.inl hanswer,hfound⟩,opened,rfl,hcontent⟩
  rw [hopen]
  cases hparent : parentOf path with
  | none => exact .inr ⟨by simpa [Opens,hparent] using hfirst,.inl rfl⟩
  | some parent =>
    have hcreated : F.content (createDir F s parent) path = F.content s path := content_createDir parent path
    have hfound : Found F path (createDir F s parent) fr = Found F path s fr := by rw [Found,Found,hcreated]
    rcases openFile_cases path (createDir F s parent) fr calls.openAgain with
      ⟨⟨hanswer,hagain⟩,opened,hreopen,hcontent⟩ | ⟨hagain,code,hcode,hreopen⟩
    · rw [hfound] at hagain
      have hclosed : calls.openFile.succeeds = false := by
        rw [← Bool.not_eq_true]
        exact fun h => hfirst ⟨h,hagain⟩
      rw [hclosed]
      refine .inl ⟨⟨.inr ⟨by rw [hparent]; rfl,hanswer⟩,hagain⟩,opened,?_,?_⟩
      · simp only [hreopen]
      · rw [hcontent,hcreated]
    · refine .inr ⟨?_,.inr ⟨code,hcode,?_⟩⟩
      · rintro ⟨hanswer | ⟨-,hanswer⟩,h⟩
        · exact hfirst ⟨hanswer,h⟩
        · exact hagain ⟨hanswer,hfound ▸ h⟩
      · simp only [hreopen]

end Calls

section Writing

variable {σ : Type} {F : FileSystem σ} {P : Platform} {path : CString} {calls : LoadAnswers} {s : σ} {fr : FileReq}
  {base data : List UInt8}

def placedAt (fr : FileReq) (base data : List UInt8) : List UInt8 :=
  if fr.append then base ++ data else overlay 0 base fr.offset data

theorem placedAt_len (n : ℕ) : placedAt { fr with len := n } base data = placedAt fr base data := rfl

theorem placedAt_nil : placedAt fr base [] = base := by
  rw [placedAt,List.append_nil,overlay,if_pos rfl,ite_self]

def Succeeds (work : σ × Option ℤ) : Prop := ∃ r, work.2 = some r ∧ 0 ≤ r

/-- The work succeeds when bytes are taken, and leaves them in the file. -/
structure WritesTaken (F : FileSystem σ) (path : CString) (fr : FileReq) (base : List UInt8) (work : σ × Option ℤ)
    (takes : List UInt8 → Prop) : Prop where
  success : ∀ data, takes data → Succeeds work ∧ F.content work.1 path = some (placedAt fr base data)
  taken : Succeeds work → ∃ data, takes data

theorem not_succeeds_error (s : σ) {code : ℤ} (h : code < 0) : ¬Succeeds (s,some code) := by
  rintro ⟨r,hr,hpos⟩
  obtain rfl := Option.some.inj hr
  omega

theorem WritesTaken.of_error {work : σ × Option ℤ} {takes : List UInt8 → Prop} (hwork : ¬Succeeds work)
    (htakes : ∀ data, ¬takes data) : WritesTaken F path fr base work takes :=
  ⟨fun data h => absurd h (htakes data),fun h => absurd h hwork⟩

theorem writeBytes_spec (calls : LoadAnswers) (fr : FileReq) (hbase : F.content s path = some base) :
    WritesTaken F path fr base (writeBytes F path calls s fr) (BytesTaken calls fr) := by
  rw [writeBytes]
  cases htransfer : calls.transfer with
  | error errno =>
    have hpos := errno.pos
    exact .of_error (not_succeeds_error s (by omega)) (by simp [BytesTaken,htransfer])
  | ok n =>
    by_cases hlong : fr.buf.length < fr.len
    · simp only [if_pos hlong]
      refine .of_error (by simp [Succeeds]) ?_
      intro data h
      exact absurd h.1 (by omega)
    · simp only [if_neg hlong,hbase,Option.getD_some]
      constructor
      · rintro data ⟨-,n',hn',rfl,hcounts⟩
        obtain rfl := SysResult.ok.inj (htransfer.symm.trans hn')
        exact ⟨⟨_,rfl,code_nonneg.mpr hcounts⟩,F.content_store⟩
      · rintro ⟨r,hr,hpos⟩
        obtain rfl := Option.some.inj hr
        exact ⟨_,by omega,n,htransfer,rfl,code_nonneg.mp hpos⟩

theorem writeFile_spec (calls : LoadAnswers) (fr : FileReq) (first : Bool) (hbase : F.content s path = some base) :
    WritesTaken F path fr base (writeFile F path calls s fr first) (Transfers calls fr first) := by
  rw [writeFile]
  cases hdisk : calls.diskAgain with
  | false => exact .of_error (not_succeeds_error s (by decide)) (by simp [Transfers,hdisk])
  | true =>
    rw [if_neg (by decide)]
    by_cases hlen : fr.len = 0
    · rw [if_pos hlen]
      refine ⟨?_,fun _ => ⟨[],hdisk,.inl ⟨hlen,rfl⟩⟩⟩
      rintro data ⟨-,⟨-,rfl⟩ | ⟨hne,-⟩⟩
      · exact ⟨⟨0,rfl,le_rfl⟩,by rw [placedAt_nil,hbase]⟩
      · exact absurd hlen hne
    · have hbytes := writeBytes_spec calls fr hbase
      have htransfers : ∀ {data}, (fr.append = true ∧ first = true ∨ calls.lseek.succeeds = true) →
          (Transfers calls fr first data ↔ BytesTaken calls fr data) := by
        intro data hseek
        simp [Transfers,hdisk,hlen,hseek]
      rw [if_neg hlen]
      by_cases happend : fr.append = true ∧ first = true
      · rw [if_pos happend]
        exact ⟨fun data h => hbytes.success data ((htransfers (.inl happend)).mp h),
          fun h => (hbytes.taken h).imp fun _ => (htransfers (.inl happend)).mpr⟩
      · rw [if_neg happend]
        cases hseek : calls.lseek with
        | error errno =>
          have hpos := errno.pos
          refine .of_error (not_succeeds_error s (by omega)) ?_
          rintro data ⟨-,⟨hzero,-⟩ | ⟨-,hsought,-⟩⟩
          · exact hlen hzero
          · rcases hsought with h | h
            · exact happend h
            · simp [hseek,SysResult.succeeds] at h
        | ok value =>
          have hsought : calls.lseek.succeeds = true := by rw [hseek]; rfl
          exact ⟨fun data h => hbytes.success data ((htransfers (.inr hsought)).mp h),
            fun h => (hbytes.taken h).imp fun _ => (htransfers (.inr hsought)).mpr⟩

def codeOf (work : σ × Option (ℤ × FileReq)) : σ × Option ℤ := (work.1,work.2.map Prod.fst)

theorem codeOf_fst (work : σ × Option (ℤ × FileReq)) : (codeOf work).1 = work.1 := rfl

theorem loadSized_write (F : FileSystem σ) (P : Platform) (path : CString) (calls : LoadAnswers) (s : σ)
    (hreads : fr.reads = false) :
    WritesTaken F path fr (openedContent fr (F.content s path)) (codeOf (loadSized F P path calls s fr))
      (fun data => calls.disk = true ∧ Opens path calls ∧ Transfers calls fr calls.openFile.succeeds data) := by
  have hfound : Found F path s fr := fun h => absurd (hreads.symm.trans h) (by decide)
  rw [loadSized]
  cases hdisk : calls.disk with
  | false =>
    rw [if_pos ⟨hreads,rfl⟩]
    have hspace : -File.enospc < 0 := by decide
    exact .of_error (not_succeeds_error s hspace) (by simp)
  | true =>
    rw [if_neg (by simp)]
    rcases openPath_cases (F := F) path calls s fr with ⟨⟨hopens,-⟩,opened,hopen,hbase⟩ | ⟨hopens,hfails⟩
    · have hwork : codeOf (transfer F P path calls opened fr calls.openFile.succeeds) =
          writeFile F path calls opened fr calls.openFile.succeeds := by
        rw [transfer,if_neg (by simp [hreads]),codeOf,Option.map_map]
        exact Prod.ext rfl Option.map_id'
      have hspec := writeFile_spec calls fr calls.openFile.succeeds hbase
      rw [hopen]
      refine ⟨fun data h => hwork ▸ hspec.success data h.2.2,fun h => ?_⟩
      obtain ⟨data,hdata⟩ := hspec.taken (hwork ▸ h)
      exact ⟨data,rfl,hopens,hdata⟩
    · refine .of_error ?_ (fun data h => hopens ⟨h.2.1,hfound⟩)
      rcases hopen : openPath F path calls s fr with ⟨opened,result⟩
      rw [hopen] at hfails
      rcases hfails with hnone | ⟨code,hcode,herror⟩
      · obtain rfl : result = none := hnone
        simp [codeOf,Succeeds]
      · obtain rfl : result = some (.error code) := herror
        exact not_succeeds_error opened hcode

/-- The work of a write succeeds when its calls do, and leaves the bytes that were taken. -/
theorem loadFileWork_write (F : FileSystem σ) (P : Platform) (path : CString) (calls : LoadAnswers) (s : σ)
    (hreads : fr.reads = false) :
    WritesTaken F path fr (openedContent fr (F.content s path)) (codeOf (loadFileWork F P path calls s fr))
      (WriteTakes F P path calls s fr) := by
  rcases loadFileWork_cases F P path calls s fr with ⟨hstats,hwork⟩ | ⟨hstats,code,hcode,hwork⟩
  · have hlen : ({ fr with len := asked F P path s fr } : FileReq).reads = false := hreads
    have hspec := loadSized_write F P path calls s hlen
    rw [hwork]
    constructor
    · intro data h
      have hdata := hspec.success data ⟨h.disk,h.opens,h.transfers⟩
      rw [placedAt_len,openedContent_len] at hdata
      exact hdata
    · intro h
      obtain ⟨data,hdisk,hopens,htransfers⟩ := hspec.taken h
      exact ⟨data,hstats,hdisk,hopens,htransfers⟩
  · rw [hwork]
    exact .of_error (not_succeeds_error s hcode) (fun data h => hstats h.stats)

end Writing

section Reading

variable {σ : Type} {F : FileSystem σ} {P : Platform} {path : CString} {calls : LoadAnswers} {s : σ} {fr : FileReq}
  {bytes out : List UInt8}

def Delivers (work : Option (ℤ × FileReq)) (out : List UInt8) : Prop :=
  ∃ r left, work = some (r,left) ∧ 0 ≤ r ∧ left.len ≤ left.buf.length ∧ out = left.buf.take left.len

theorem not_delivers_error {code : ℤ} (h : code < 0) : ¬Delivers (some (code,fr)) out := by
  rintro ⟨r,left,hwork,hpos,-⟩
  obtain ⟨rfl,rfl⟩ := Prod.mk.inj (Option.some.inj hwork)
  omega

theorem delivers_filled_iff {r : ℤ} {data : List UInt8} {kept : ℕ} :
    Delivers (some (r,{ fr with buf := data, len := kept })) out ↔
      0 ≤ r ∧ kept ≤ data.length ∧ out = data.take kept := by
  constructor
  · rintro ⟨r',left,hwork,hpos,hlen,hout⟩
    obtain ⟨rfl,rfl⟩ := Prod.mk.inj (Option.some.inj hwork)
    exact ⟨hpos,hlen,hout⟩
  · rintro ⟨hpos,hlen,hout⟩
    exact ⟨r,_,rfl,hpos,hlen,hout⟩

theorem readFile_delivers_iff (hcontent : F.content s path = some bytes) :
    Delivers (some (readFile F P path calls s fr)) out ↔
      ∃ data kept, HandsOver P calls fr bytes data kept ∧ out = data.take kept := by
  rw [readFile,hcontent,Option.getD_some]
  cases hseek : calls.lseek with
  | error errno =>
    have hpos := errno.pos
    refine iff_of_false (not_delivers_error (by omega)) ?_
    rintro ⟨data,kept,h,-⟩
    simpa [hseek,SysResult.succeeds] using h.seeks
  | ok value =>
    cases htransfer : calls.transfer with
    | error errno =>
      have hpos := errno.pos
      refine iff_of_false (not_delivers_error (by omega)) ?_
      rintro ⟨data,kept,h,-⟩
      obtain ⟨n,hn,-⟩ := h.takes
      cases htransfer.symm.trans hn
    | ok n =>
      simp only [delivers_filled_iff,code_nonneg]
      constructor
      · rintro ⟨hcounts,hlen,hout⟩
        have hsought : calls.lseek.succeeds = true := by rw [hseek]; rfl
        exact ⟨_,_,⟨hsought,⟨n,htransfer,rfl⟩,hcounts,rfl,hlen⟩,hout⟩
      · rintro ⟨data,kept,h,hout⟩
        obtain ⟨n',hn,rfl⟩ := h.takes
        obtain rfl := SysResult.ok.inj (htransfer.symm.trans hn)
        rw [← h.kept_eq]
        exact ⟨h.counts,h.kept_le,hout⟩

theorem loadSized_read (hreads : fr.reads = true) : Delivers (loadSized F P path calls s fr).2 out ↔
      ∃ bytes data kept, F.content s path = some bytes ∧ Opens path calls ∧ HandsOver P calls fr bytes data kept ∧
        out = data.take kept := by
  rw [loadSized,if_neg (by simp [hreads])]
  rcases openPath_cases (F := F) path calls s fr with ⟨⟨hopens,hfound⟩,opened,hopen,hbase⟩ | ⟨hopens,hfails⟩
  · obtain ⟨bytes,hbytes⟩ := Option.isSome_iff_exists.mp (hfound hreads)
    have hopened : F.content opened path = some bytes := by
      rw [hbase,openedContent,if_neg (by simp [hreads]),hbytes,Option.getD_some]
    rw [hopen]
    change Delivers (transfer F P path calls opened fr calls.openFile.succeeds).2 out ↔ _
    rw [transfer,if_pos hreads,readFile_delivers_iff hopened]
    constructor
    · rintro ⟨data,kept,h,hout⟩
      exact ⟨bytes,data,kept,hbytes,hopens,h,hout⟩
    · rintro ⟨bytes',data,kept,hbytes',-,h,hout⟩
      obtain rfl := Option.some.inj (hbytes.symm.trans hbytes')
      exact ⟨data,kept,h,hout⟩
  · refine iff_of_false ?_ ?_
    · rcases hopen : openPath F path calls s fr with ⟨opened,result⟩
      rw [hopen] at hfails
      rcases hfails with hnone | ⟨code,hcode,herror⟩
      · obtain rfl : result = none := hnone
        simp [Delivers]
      · obtain rfl : result = some (.error code) := herror
        exact not_delivers_error hcode
    · rintro ⟨bytes,data,kept,hbytes,h,-⟩
      exact hopens ⟨h,fun _ => by rw [hbytes]; rfl⟩

/-- The work of a read hands over what was kept of the file when its calls succeed. -/
theorem loadFileWork_read (hreads : fr.reads = true) : Delivers (loadFileWork F P path calls s fr).2 out ↔
      ∃ bytes data kept, ReadTakes F P path calls s fr bytes data kept ∧ out = data.take kept := by
  rcases loadFileWork_cases F P path calls s fr with ⟨hstats,hwork⟩ | ⟨hstats,code,hcode,hwork⟩
  · have hlen : ({ fr with len := asked F P path s fr } : FileReq).reads = true := hreads
    rw [hwork,loadSized_read hlen]
    constructor
    · rintro ⟨bytes,data,kept,hbytes,hopens,h,hout⟩
      exact ⟨bytes,data,kept,⟨hbytes,hstats,hopens,h⟩,hout⟩
    · rintro ⟨bytes,data,kept,h,hout⟩
      exact ⟨bytes,data,kept,h.content,h.opens,h.handsOver,hout⟩
  · rw [hwork]
    refine iff_of_false (not_delivers_error hcode) ?_
    rintro ⟨bytes,data,kept,h,-⟩
    exact hstats h.stats

theorem openFile_read (hreads : fr.reads = true) {answer : SysResult} {opened : σ}
    (h : openFile F path s fr answer = .ok opened) : opened = s := by
  cases answer with
  | error errno => cases h
  | ok value =>
    rw [openFile,if_pos hreads] at h
    split_ifs at h
    exact (Except.ok.inj h).symm

/-- A read leaves the file system as it was when it makes no directory. -/
theorem openPath_read_eq_iff (hreads : fr.reads = true) :
    (openPath F path calls s fr).1 = s ↔ (¬(calls.openFile.succeeds = true ∧ (F.content s path).isSome = true) →
      ∀ parent, parentOf path = some parent → ∀ q ∈ missing F s parent, F.mkdir s q = none) := by
  rw [openPath]
  rcases openFile_cases (F := F) path s fr calls.openFile with ⟨⟨hanswer,hfound⟩,opened,hopen,-⟩ | ⟨hfirst,code,-,hopen⟩
  · rw [hopen]
    exact iff_of_true (openFile_read hreads hopen) (fun h => absurd ⟨hanswer,hfound hreads⟩ h)
  · have hclosed : ¬(calls.openFile.succeeds = true ∧ (F.content s path).isSome = true) :=
      fun h => hfirst ⟨h.1,fun _ => h.2⟩
    rw [hopen,imp_iff_right hclosed]
    cases hparent : parentOf path with
    | none => exact iff_of_true rfl (by simp)
    | some parent =>
      simp only [Option.some.injEq,forall_eq']
      rw [← createDir_eq_iff]
      cases hreopen : openFile F path (createDir F s parent) fr calls.openAgain with
      | error code => rfl
      | ok opened => rw [openFile_read hreads hreopen]

theorem loadSized_read_eq_iff (hreads : fr.reads = true) :
    (loadSized F P path calls s fr).1 = s ↔ (openPath F path calls s fr).1 = s := by
  rw [loadSized,if_neg (by simp [hreads])]
  rcases openPath F path calls s fr with ⟨opened,_ | code | first⟩
  · rfl
  · rfl
  · simp only [transfer,if_pos hreads]

theorem loadFileWork_read_eq_iff (hreads : fr.reads = true) :
    (loadFileWork F P path calls s fr).1 = s ↔ MakesNothing F path calls s fr := by
  rcases loadFileWork_cases F P path calls s fr with ⟨hstats,hwork⟩ | ⟨hstats,code,hcode,hwork⟩
  · have hlen : ({ fr with len := asked F P path s fr } : FileReq).reads = true := hreads
    rw [hwork,loadSized_read_eq_iff hlen,openPath_read_eq_iff hlen,MakesNothing,imp_iff_right hstats]
  · rw [hwork]
    exact iff_of_true rfl fun h => absurd h hstats

end Reading

section Requests

variable {σ : Type} {F : FileSystem σ} {P : Platform} {path : CString} {calls : LoadAnswers} {s : σ} {fr : FileReq}
  {request : LoadRequest} {old data bytes out : List UInt8}

theorem fileReq_reads (h : fileReq P request = some fr) : fr.reads = request.reads := by
  cases request <;> simp only [fileReq] at h <;> (try split_ifs at h) <;> obtain rfl := Option.some.inj h <;> rfl

theorem placedAt_fileReq (h : fileReq P request = some fr) (hreads : request.reads = false)
    (content : Option (List UInt8)) :
    placedAt fr (openedContent fr content) data = placed (content.getD []) data request := by
  cases request with
  | writeText text append =>
    rw [fileReq] at h
    split_ifs at h
    obtain rfl := Option.some.inj h
    cases append with
    | false => exact overlay_nil_zero
    | true => rfl
  | writeArrayBuffer view position append =>
    rw [fileReq] at h
    split_ifs at h <;> obtain rfl := Option.some.inj h
    · cases append with
      | false => simp_all
      | true => rfl
    · cases append <;> rfl
  | readText => cases hreads
  | readArrayBuffer => cases hreads

theorem placed_eq_iff (hreads : request.reads = false) :
    placed old data request = placed old (given request) request ↔ Keeps old data request := by
  cases request with
  | writeText text append => cases append <;> simp [placed,Keeps,given]
  | writeArrayBuffer view position append =>
    cases append with
    | false => exact overlay_eq_iff
    | true => simp [placed,Keeps,given]
  | readText => cases hreads
  | readArrayBuffer => cases hreads

theorem ReadTakes.isPrefix {kept : ℕ} (hreq : fileReq P request = some fr)
    (hreads : request.reads = true) (h : ReadTakes F P path calls s fr bytes data kept) :
    data.take kept <+: range bytes request := by
  obtain ⟨n,-,hdata⟩ := h.handsOver.takes
  have htaken : ∀ wanted : ℕ, data = ((bytes.drop fr.offset).take wanted).take n →
      data.take kept <+: (bytes.drop fr.offset).take wanted := by
    intro wanted htake
    rw [htake]
    exact (List.take_prefix _ _).trans (List.take_prefix _ _)
  refine (htaken _ hdata).trans ?_
  cases request with
  | writeText => cases hreads
  | writeArrayBuffer => cases hreads
  | readText =>
    obtain rfl := Option.some.inj hreq
    exact List.take_prefix _ _
  | readArrayBuffer position length =>
    rw [fileReq] at hreq
    split_ifs at hreq with hvalid
    obtain rfl := Option.some.inj hreq
    by_cases hwhole : length.toInt = wholeFile
    · rw [range,if_pos hwhole]
      exact List.take_prefix _ _
    · have hpos : 0 ≤ length.toInt := hvalid.2.resolve_right hwhole
      have hmax : length.toInt ≤ intMax := by
        have hlt := length.toInt_lt
        simp only [intMax]
        omega
      have hspace := P.le_addressSpace
      have hlen : sizeT P.addressSpace length.toInt = length.toInt.toNat := by
        refine sizeT_of_lt (Int.toNat_of_nonneg hpos).symm ?_
        simp only [intMax] at hmax
        omega
      have hasked : asked F P path s ⟨true,false,false,false,position.toInt.toNat,
          sizeT P.addressSpace length.toInt,[]⟩ = length.toInt.toNat := by
        rw [asked,hlen,Int.toNat_of_nonneg hpos,toInt_of_le hpos hmax,if_neg hwhole]
      rw [range,if_neg hwhole,hasked]

theorem cstr_concat_eq_iff (h : data <+: bytes) :
    cstr (data ++ [0]) = bytes ↔ data.length = bytes.length ∧ 0 ∉ bytes := by
  constructor
  · intro hcstr
    have hprefix : bytes <+: data := hcstr ▸ cstr_concat_isPrefixOf data
    exact ⟨Nat.le_antisymm h.length_le hprefix.length_le,hcstr ▸ notMem_cstr _⟩
  · rintro ⟨hlength,hnul⟩
    rw [h.eq_of_length hlength]
    exact CText.cstr_append hnul []

def OfKind (fr : FileReq) (work : Option (ℤ × FileReq)) : Prop :=
  ∀ left, work = some left → left.2.reads = fr.reads ∧ left.2.text = fr.text

theorem ofKind_some {left : ℤ × FileReq} : OfKind fr (some left) ↔ left.2.reads = fr.reads ∧ left.2.text = fr.text := by
  simp [OfKind]

theorem ofKind_len {n : ℕ} {work : Option (ℤ × FileReq)} : OfKind { fr with len := n } work ↔ OfKind fr work := .rfl

theorem ofKind_filled {r : ℤ} {buf : List UInt8} {n : ℕ} : OfKind fr (some (r,{ fr with buf := buf, len := n })) :=
  ofKind_some.mpr ⟨rfl,rfl⟩

theorem ofKind_readFile (s : σ) : OfKind fr (some (readFile F P path calls s fr)) := by
  rw [readFile]
  cases calls.lseek with
  | error errno => exact ofKind_some.mpr ⟨rfl,rfl⟩
  | ok value =>
    cases calls.transfer with
    | error errno => exact ofKind_some.mpr ⟨rfl,rfl⟩
    | ok n => exact ofKind_filled

theorem ofKind_transfer (s : σ) (first : Bool) : OfKind fr (transfer F P path calls s fr first).2 := by
  rw [transfer]
  split_ifs
  · exact ofKind_readFile s
  · intro left h
    obtain ⟨r,-,rfl⟩ := Option.map_eq_some_iff.mp h
    exact ⟨rfl,rfl⟩

theorem ofKind_loadSized : OfKind fr (loadSized F P path calls s fr).2 := by
  rw [loadSized]
  split_ifs
  · exact ofKind_some.mpr ⟨rfl,rfl⟩
  · rcases openPath F path calls s fr with ⟨opened,_ | code | first⟩
    · simp [OfKind]
    · exact ofKind_some.mpr ⟨rfl,rfl⟩
    · exact ofKind_transfer opened first

theorem ofKind_loadFileWork : OfKind fr (loadFileWork F P path calls s fr).2 := by
  rcases loadFileWork_cases F P path calls s fr with ⟨-,hwork⟩ | ⟨-,code,-,hwork⟩
  · rw [hwork]
    exact ofKind_len.mp ofKind_loadSized
  · rw [hwork]
    exact ofKind_some.mpr ⟨rfl,rfl⟩

theorem told_fst (work : σ × Option (ℤ × FileReq)) : (told work).1 = work.1 := by
  rcases work with ⟨s,_ | left⟩
  · rfl
  · rfl

theorem told_wrote_iff {work : σ × Option (ℤ × FileReq)} (hkind : OfKind fr work.2) (hreads : fr.reads = false) :
    (told work).2 = .wrote ↔ Succeeds (codeOf work) := by
  rcases work with ⟨s,_ | ⟨r,left⟩⟩
  · simp [told,Succeeds,codeOf]
  · have hleft : left.reads = false := (ofKind_some.mp hkind).1.trans hreads
    by_cases hneg : r < 0
    · have hfails : ¬Succeeds (s,some r) := not_succeeds_error s hneg
      refine iff_of_false ?_ hfails
      simp [told,loadAfterWork,hneg]
    · have hsucceeds : Succeeds (s,some r) := ⟨r,rfl,by omega⟩
      refine iff_of_true ?_ hsucceeds
      simp [told,loadAfterWork,hneg,hleft]

/-- What the script is told of a read: the bytes, up to a NUL of a text. -/
theorem told_data_iff {work : σ × Option (ℤ × FileReq)} (hkind : OfKind fr work.2) (hreads : fr.reads = true) :
    (told work).2 = .text out ∨ (told work).2 = .buffer out ↔
      ∃ kept, Delivers work.2 kept ∧ out = if fr.text then cstr (kept ++ [0]) else kept := by
  rcases work with ⟨s,_ | ⟨r,left⟩⟩
  · simp [told,Delivers]
  · have hleft : left.reads = true := (ofKind_some.mp hkind).1.trans hreads
    have htext : left.text = fr.text := (ofKind_some.mp hkind).2
    have hdelivers : ∀ kept, Delivers (some (r,left)) kept ↔
        0 ≤ r ∧ left.len ≤ left.buf.length ∧ kept = left.buf.take left.len := by
      intro kept
      simp [Delivers]
    simp only [told]
    rw [loadAfterWork]
    by_cases hneg : r < 0
    · rw [if_pos hneg]
      refine iff_of_false (by simp) ?_
      rintro ⟨kept,hkept,-⟩
      have hpos := ((hdelivers kept).mp hkept).1
      omega
    rw [if_neg hneg,if_neg (by simp [hleft])]
    by_cases hshort : left.buf.length < left.len
    · rw [if_pos hshort]
      refine iff_of_false (by simp) ?_
      rintro ⟨kept,hkept,-⟩
      have hlen := ((hdelivers kept).mp hkept).2.1
      omega
    · have hpos : 0 ≤ r := by omega
      have hlen : left.len ≤ left.buf.length := by omega
      simp only [if_neg hshort,hdelivers,htext,hpos,hlen,true_and,exists_eq_left]
      cases fr.text <;> simp [eq_comm]

theorem load_eq (h : fileReq P request = some fr) :
    load F P path calls request s = told (loadFileWork F P path calls s fr) := by
  rw [load,h]

/-- A write is faithful when the operating system takes what was given, where it takes anything at all. -/
theorem writes_iff (h : fileReq P request = some fr) (hreads : request.reads = false) :
    Writes F P path calls s request ↔
      ∀ data, WriteTakes F P path calls s fr data → Keeps ((F.content s path).getD []) data request := by
  have hrecord : fr.reads = false := (fileReq_reads h).trans hreads
  have hspec := loadFileWork_write F P path calls s hrecord
  have hcontent : ∀ data, WriteTakes F P path calls s fr data → F.content (loadFileWork F P path calls s fr).1 path =
      some (placed ((F.content s path).getD []) data request) := by
    intro data hdata
    rw [← placedAt_fileReq h hreads,← codeOf_fst]
    exact (hspec.success data hdata).2
  rw [Writes,load_eq h,told_fst,told_wrote_iff ofKind_loadFileWork hrecord]
  constructor
  · intro hwrites data hdata
    have hplaced := (hcontent data hdata).symm.trans (hwrites (hspec.success data hdata).1)
    exact (placed_eq_iff hreads).mp (Option.some.inj hplaced)
  · intro hkeeps hsucceeds
    obtain ⟨data,hdata⟩ := hspec.taken hsucceeds
    rw [hcontent data hdata,(placed_eq_iff hreads).mpr (hkeeps data hdata)]

theorem range_of_text (h : fileReq P request = some fr) (htext : fr.text = true) (hreads : request.reads = true) :
    range bytes request = bytes := by
  cases request with
  | writeText => cases hreads
  | writeArrayBuffer => cases hreads
  | readText => rfl
  | readArrayBuffer position length =>
    rw [fileReq] at h
    split_ifs at h
    obtain rfl := Option.some.inj h
    cases htext

/-- What the script gets of a read is what it asked for when all of it is kept. -/
theorem ReadTakes.eq_range_iff {kept : ℕ} (hreq : fileReq P request = some fr) (hreads : request.reads = true)
    (h : ReadTakes F P path calls s fr bytes data kept) :
    (if fr.text then cstr (data.take kept ++ [0]) else data.take kept) = range bytes request ↔
      KeepsRange fr bytes kept request := by
  have hprefix := h.isPrefix hreq hreads
  have hlength : (data.take kept).length = kept := List.length_take_of_le h.handsOver.kept_le
  rw [KeepsRange]
  cases htext : fr.text with
  | true =>
    rw [range_of_text hreq htext hreads] at hprefix ⊢
    rw [if_pos rfl,cstr_concat_eq_iff hprefix,hlength]
    simp
  | false =>
    rw [if_neg (by decide),and_iff_left (by simp)]
    constructor
    · intro hall
      rw [← hall,hlength]
    · intro hkept
      exact hprefix.eq_of_length (hlength.trans hkept)

/-- A read is faithful when all of its bytes are kept and nothing is made. -/
theorem reads_iff (h : fileReq P request = some fr) (hreads : request.reads = true) : Reads F P path calls s request ↔
      (∀ bytes data kept, ReadTakes F P path calls s fr bytes data kept → KeepsRange fr bytes kept request) ∧
        MakesNothing F path calls s fr := by
  have hrecord : fr.reads = true := (fileReq_reads h).trans hreads
  rw [Reads,load_eq h,told_fst,loadFileWork_read_eq_iff hrecord]
  refine and_congr_left fun _ => ?_
  constructor
  · intro hsuccess bytes data kept hdata
    have hdelivers := (loadFileWork_read hrecord).mpr ⟨bytes,data,kept,hdata,rfl⟩
    obtain ⟨bytes',hbytes',hrange⟩ :=
      hsuccess _ ((told_data_iff ofKind_loadFileWork hrecord).mpr ⟨_,hdelivers,rfl⟩)
    obtain rfl := Option.some.inj (hdata.content.symm.trans hbytes')
    exact (hdata.eq_range_iff h hreads).mp hrange
  · intro hkeeps out hout
    obtain ⟨taken,hdelivers,rfl⟩ := (told_data_iff ofKind_loadFileWork hrecord).mp hout
    obtain ⟨bytes,data,kept,hdata,rfl⟩ := (loadFileWork_read hrecord).mp hdelivers
    exact ⟨bytes,hdata.content,(hdata.eq_range_iff h hreads).mpr (hkeeps bytes data kept hdata)⟩

/-- Exactly when the reads and writes do what they report: a write puts all of its bytes in their place, and a read has
exactly the bytes that it asked for and makes nothing. -/
theorem loads_faithful_iff (F : FileSystem σ) (P : Platform) (path : CString) (calls : LoadAnswers) (s : σ)
    (request : LoadRequest) :
    Faithful F P path calls s request ↔ ∀ fr, fileReq P request = some fr → LoadKeeps F P path calls s request fr := by
  cases hreq : fileReq P request with
  | none =>
    have hload : load F P path calls request s = (s,.failed File.errArgs) := by rw [load,hreq]
    refine iff_of_true ?_ (by simp)
    rw [Faithful,Writes,Reads,hload]
    split_ifs <;> simp
  | some fr =>
    simp only [Option.some.injEq,forall_eq']
    rw [Faithful,LoadKeeps,fileReq_reads hreq]
    cases hreads : request.reads with
    | true => exact reads_iff hreq hreads
    | false => exact writes_iff hreq hreads

end Requests

section Short

def oneByte : LoadAnswers :=
  { stat := .ok 0, openFile := .ok 0, openAgain := .ok 0, lseek := .ok 0, transfer := .ok 1, errno := 0 }

/-- A text of two bytes is reported as written when the file has the first one. -/
theorem half_written_not_faithful : ¬Faithful flatDirs.withFiles Platform.bits64 "/a".toList oneByte ([],fun _ => none)
    (.writeText ⟨[97,98],by decide⟩ false) := by
  intro h
  have hwritten := h rfl
  revert hwritten
  decide

end Short

end FileLoad
end FeatureRuntime
