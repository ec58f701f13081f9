import Mathlib.Data.List.Infix
import Mathlib.Data.Nat.Notation

/-! Paths of an app: how the segments of a path resolve, and the two places where a path that an app
supplies becomes the path of a file. -/
namespace FeatureRuntime

/-- A C string up to its end: an element stands for one `char`, whatever it encodes. -/
abbrev CString := List Char

abbrev Directory := List CString

namespace Directory

/-- One segment of a path: an empty one and `.` stay, `..` leaves, a name enters. -/
def enter (dir : Directory) (segment : CString) : Directory :=
  if segment = [] ∨ segment = ['.'] then dir
  else if segment = ['.','.'] then dir.dropLast
  else dir ++ [segment]

def resolve (path : CString) : Directory := (path.splitOn '/').foldl enter []

/-- One segment of a path that is followed from some directory: the levels it has climbed so far and
the names it has entered since. -/
def climb (r : ℕ × Directory) (segment : CString) : ℕ × Directory :=
  if segment = [] ∨ segment = ['.'] then r
  else if segment = ['.','.'] then
    if r.2 = [] then (r.1 + 1,[]) else (r.1,r.2.dropLast)
  else (r.1,r.2 ++ [segment])

def descent (path : CString) : ℕ × Directory := (path.splitOn '/').foldl climb (0,[])

/-- Following a path from a directory climbs from it first and enters names then. -/
theorem foldl_enter (dir : Directory) (segments : List CString) (r : ℕ × Directory) :
    segments.foldl enter (dir.take (dir.length - r.1) ++ r.2) =
      dir.take (dir.length - (segments.foldl climb r).1) ++ (segments.foldl climb r).2 := by
  induction segments generalizing r with
  | nil => rfl
  | cons segment segments ih =>
    have hone : enter (dir.take (dir.length - r.1) ++ r.2) segment =
        dir.take (dir.length - (climb r segment).1) ++ (climb r segment).2 := by
      unfold enter climb
      split_ifs with hstay hup hnames
      · rfl
      · rw [hnames,List.append_nil,List.append_nil,List.dropLast_eq_take,List.take_take,List.length_take]
        congr 1
        omega
      · rw [List.dropLast_append_of_ne_nil hnames]
      · rw [List.append_assoc]
    rw [List.foldl_cons,List.foldl_cons,hone,ih]

theorem resolve_append (dir file : CString) : resolve (dir ++ '/' :: file) =
      (resolve dir).take ((resolve dir).length - (descent file).1) ++ (descent file).2 := by
  have hstart := foldl_enter (resolve dir) (file.splitOn '/') (0,[])
  rw [Nat.sub_zero,List.take_length,List.append_nil] at hstart
  unfold descent
  rw [← hstart]
  unfold resolve
  rw [List.splitOn_append_cons_self,List.foldl_append]

def Inside (dir path : CString) : Prop := resolve dir <+: resolve path

def Returns (dir file : CString) : Prop :=
  (resolve dir).drop ((resolve dir).length - (descent file).1) <+: (descent file).2

theorem inside_append_iff (dir file : CString) : Inside dir (dir ++ '/' :: file) ↔ Returns dir file := by
  unfold Inside Returns
  rw [resolve_append]
  nth_rewrite 1 [← List.take_append_drop ((resolve dir).length - (descent file).1) (resolve dir)]
  exact List.prefix_append_right_inj _

theorem inside_refl (dir : CString) : Inside dir dir := List.prefix_rfl

end Directory

/-- The build and the process: the buffer size, the working directory that `getcwd` writes into the
buffer, and the directories of the data and of the packages of all apps. -/
structure PathConfig where
  pathMax : ℕ
  /-- Empty on NuttX. -/
  cwd : CString
  cwd_fits : cwd.length < pathMax
  absPathRoot : CString
  appRoot : CString
  /-- Where `appRoot` starts from, empty when it is absolute. -/
  appBase : CString

/-- `strstr`, as a test. -/
def strstr (haystack needle : CString) : Bool := haystack.tails.any (needle.isPrefixOf ·)

/-- `APP_PATH_PREFIX`. -/
def appPathScheme : CString := "internal://".toList

def typeList : List CString := ["cache".toList,"file".toList,"mass".toList,"tmp".toList]

def pathBody (path : CString) : CString := path.drop appPathScheme.length

def isPathInTmp (path : CString) : Bool :=
  strstr path appPathScheme && "tmp".toList.isPrefixOf (pathBody path)

def pathType (path : CString) : CString := (pathBody path).takeWhile (· ≠ '/')

def pathFilename (path : CString) : Option CString :=
  if '/' ∈ pathBody path then some ((pathBody path).drop ((pathType path).length + 1)) else none

def acceptsPath (path : CString) : Bool :=
  strstr path appPathScheme && typeList.any (·.isPrefixOf (pathType path))

/-- `strstr`: the text before the first occurrence and the text after it. -/
def splitAtFirst (needle : CString) : CString → Option (CString × CString)
  | [] => if needle = [] then some ([],[]) else none
  | c :: text =>
    if needle.isPrefixOf (c :: text) then some ([],(c :: text).drop needle.length)
    else (splitAtFirst needle text).map (fun r => (c :: r.1,r.2))

namespace PathConfig

variable (C : PathConfig) (pkg : CString)

/-- The directory of a type of files, as `snprintf` is told to write it. -/
def typeDirectory (type : CString) : CString :=
  if type = "tmp".toList then C.absPathRoot ++ '/' :: type
  else C.absPathRoot ++ '/' :: (type ++ '/' :: pkg)

def directory (type : CString) : CString := C.cwd ++ C.typeDirectory pkg type

/-- `snprintf` at the end of the working directory. -/
def snprintfDirectory (type : CString) : CString :=
  C.cwd ++ (C.typeDirectory pkg type).take (C.pathMax - C.cwd.length - 1)

/-- `app_relative_to_absolute_path`: the string in the buffer. -/
def appRelativeToAbsolutePath (path : CString) : Option CString :=
  if acceptsPath path then
    match pathFilename path with
    | none => some (C.snprintfDirectory pkg (pathType path))
    | some filename => some (C.snprintfDirectory pkg (pathType path) ++ '/' :: filename)
  else none

/-- `app_absolute_to_relative_path`: the type ends before the slash in front of the package, and the file
begins behind the one after it. -/
def appAbsoluteToRelativePath (path : CString) : Option CString :=
  match splitAtFirst C.absPathRoot path with
  | none => none
  | some (_,rest) =>
    if '/' ∈ rest then
      let type := (rest.dropWhile (· ≠ '/')).drop 1
      match splitAtFirst pkg type with
      | none => none
      | some (before,after) =>
        let name := if before = [] then type else before.dropLast
        some ((appPathScheme ++ name ++ '/' :: after.drop 1).take (C.pathMax - 1))
    else none

def Fits (text : CString) : Prop := text.length + 1 ≤ C.pathMax

def PathConfined (path : CString) : Prop :=
  ∀ text, C.appRelativeToAbsolutePath pkg path = some text →
    Directory.Inside (C.directory pkg (pathType path)) text ∧ C.Fits text

/-- The file part returns to the directory, and the two fit; a path without one is not cut, or only
where that leaves the directory. -/
def PathStays (path : CString) : Prop :=
  acceptsPath path = true →
    match pathFilename path with
    | some filename => Directory.Returns (C.directory pkg (pathType path)) filename ∧
        (C.directory pkg (pathType path)).length + filename.length + 2 ≤ C.pathMax
    | none => (C.directory pkg (pathType path)).length < C.pathMax ∨
        Directory.Inside (C.directory pkg (pathType path)) ((C.directory pkg (pathType path)).take (C.pathMax - 1))

/-- `__file_load` for reading: the path of a uri that begins with a slash. -/
def fileLoadPath (uri : CString) : Option CString :=
  if uri.head? = some '/' then some (C.appRoot ++ pkg ++ uri) else none

def UriConfined (uri : CString) : Prop :=
  ∀ text, C.fileLoadPath pkg uri = some text →
    Directory.Inside (C.appBase ++ (C.appRoot ++ pkg)) (C.appBase ++ text) ∧ C.Fits text

def UriStays (uri : CString) : Prop :=
  uri.head? = some '/' → Directory.Returns (C.appBase ++ (C.appRoot ++ pkg)) uri.tail ∧
      C.appRoot.length + pkg.length + uri.length + 1 ≤ C.pathMax

theorem snprintfDirectory_eq (type : CString) :
    C.snprintfDirectory pkg type = (C.directory pkg type).take (C.pathMax - 1) := by
  have hcwd := C.cwd_fits
  unfold snprintfDirectory directory
  rw [List.take_append,List.take_of_length_le (by omega : C.cwd.length ≤ C.pathMax - 1)]
  congr 2
  omega

theorem length_snprintfDirectory (type : CString) :
    (C.snprintfDirectory pkg type).length = min (C.pathMax - 1) (C.directory pkg type).length := by
  rw [snprintfDirectory_eq,List.length_take]

theorem pathConfined_iff (path : CString) : C.PathConfined pkg path ↔ C.PathStays pkg path := by
  have hmax := C.cwd_fits
  have hlength := C.length_snprintfDirectory pkg (pathType path)
  unfold PathConfined PathStays appRelativeToAbsolutePath
  by_cases haccept : acceptsPath path = true
  · rw [if_pos haccept]
    cases pathFilename path with
    | none =>
      simp only [Option.some.injEq,forall_eq',haccept,true_imp_iff,Fits]
      rw [snprintfDirectory_eq,List.length_take]
      constructor
      · exact fun h => .inr h.1
      · rintro (hfits | hinside)
        · refine ⟨?_,by omega⟩
          rw [List.take_of_length_le (by omega)]
          exact Directory.inside_refl _
        · exact ⟨hinside,by omega⟩
    | some filename =>
      simp only [Option.some.injEq,forall_eq',haccept,true_imp_iff,Fits,List.length_append,List.length_cons]
      by_cases hfits : (C.directory pkg (pathType path)).length + filename.length + 2 ≤ C.pathMax
      · rw [snprintfDirectory_eq,List.take_of_length_le (by omega),Directory.inside_append_iff]
        exact and_congr_right (fun _ => iff_of_true (by omega) hfits)
      · refine iff_of_false (fun h => ?_) (fun h => hfits h.2)
        have := h.2
        omega
  · rw [if_neg haccept]
    exact iff_of_true nofun (fun h => absurd h haccept)

theorem uriConfined_iff (uri : CString) : C.UriConfined pkg uri ↔ C.UriStays pkg uri := by
  unfold UriConfined UriStays fileLoadPath
  cases uri with
  | nil => simp
  | cons c file =>
    by_cases hc : c = '/'
    · subst hc
      simp only [List.head?_cons,if_true,Option.some.injEq,forall_eq',true_imp_iff,List.tail_cons,Fits]
      rw [← List.append_assoc C.appBase (C.appRoot ++ pkg),Directory.inside_append_iff,
        List.length_append,List.length_append]
    · simp [hc]

/-- For every package name and every string: the paths that are accepted stay in the sandbox and in
their buffers exactly when their file parts return to the directory of the app and they fit. -/
theorem sandbox_confined_iff (path uri : CString) :
    (C.PathConfined pkg path ↔ C.PathStays pkg path) ∧ (C.UriConfined pkg uri ↔ C.UriStays pkg uri) :=
  ⟨C.pathConfined_iff pkg path,C.uriConfined_iff pkg uri⟩

def defaultConfig : PathConfig where
  pathMax := 256
  cwd := []
  cwd_fits := by decide
  absPathRoot := "/data/quickapp".toList
  appRoot := "/data/quickapp/app/".toList
  appBase := []

/-- A path through the directory above that of the app. -/
theorem dot_dot_escapes : ¬ ∀ path uri : CString,
    defaultConfig.PathConfined "com.app".toList path ∧ defaultConfig.UriConfined "com.app".toList uri := by
  intro h
  have hpath := (h "internal://cache/../com.bank/key".toList []).1 _ rfl
  exact absurd hpath.1 (by unfold Directory.Inside; decide)

end PathConfig
end FeatureRuntime
