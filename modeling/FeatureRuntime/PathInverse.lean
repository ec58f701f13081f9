import FeatureRuntime.AppPath
import Mathlib.Data.List.TakeWhile

/-! The way back from the path of a file to the path of an app, and the test for the directory that all
apps share. -/
namespace FeatureRuntime

/-- The scheme with a type behind it that the code accepts: one that begins with a type of the list. -/
def InternalPath (path : CString) : Prop := appPathScheme <+: path ∧ acceptsPath path = true

def OccursLast (needle before : CString) : Prop :=
  splitAtFirst needle (before ++ needle) = some (before,[])

/-- What follows the first slash, as `strchr` finds it. -/
def afterSlash (text : CString) : CString := (text.dropWhile (· ≠ '/')).drop 1

/-! Where `strstr` finds the first occurrence. -/

theorem splitAtFirst_nil (text : CString) : splitAtFirst [] text = some ([],text) := by
  cases text <;> rfl

theorem splitAtFirst_needle (needle post : CString) : splitAtFirst needle (needle ++ post) = some ([],post) := by
  cases needle with
  | nil => exact splitAtFirst_nil post
  | cons c needle =>
    have hfound : (c :: needle).isPrefixOf (c :: (needle ++ post)) = true := by simp
    rw [List.cons_append,splitAtFirst,if_pos hfound]
    simp

theorem eq_of_splitAtFirst {needle text before after : CString}
    (h : splitAtFirst needle text = some (before,after)) : text = before ++ (needle ++ after) := by
  induction text generalizing before with
  | nil =>
    simp only [splitAtFirst] at h
    split_ifs at h with hneedle
    cases h
    rw [hneedle]
    rfl
  | cons c text ih =>
    simp only [splitAtFirst] at h
    split_ifs at h with hfound
    · cases h
      obtain ⟨rest,hrest⟩ := List.isPrefixOf_iff_prefix.mp hfound
      rw [← hrest,List.drop_left]
      rfl
    · obtain ⟨r,hr,heq⟩ := Option.map_eq_some_iff.mp h
      cases heq
      rw [ih hr]
      rfl

/-- The first occurrence in a text is the one in the text up to an occurrence. -/
theorem splitAtFirst_append (needle pre post : CString) : splitAtFirst needle (pre ++ (needle ++ post)) =
      (splitAtFirst needle (pre ++ needle)).map (fun r => (r.1,r.2 ++ post)) := by
  induction pre with
  | nil =>
    have hneedle := splitAtFirst_needle needle []
    rw [List.append_nil] at hneedle
    rw [List.nil_append,List.nil_append,splitAtFirst_needle,hneedle]
    rfl
  | cons c pre ih =>
    have hlonger : c :: (pre ++ (needle ++ post)) = (c :: (pre ++ needle)) ++ post := by simp
    have hle : needle.length ≤ (c :: (pre ++ needle)).length := by simp; omega
    have hfound : needle.isPrefixOf (c :: (pre ++ (needle ++ post))) = needle.isPrefixOf (c :: (pre ++ needle)) := by
      rw [Bool.eq_iff_iff,List.isPrefixOf_iff_prefix,List.isPrefixOf_iff_prefix,hlonger]
      exact ⟨fun h => List.prefix_of_prefix_length_le h (List.prefix_append _ _) hle,
        fun h => h.trans (List.prefix_append _ _)⟩
    rw [List.cons_append,List.cons_append,splitAtFirst,splitAtFirst,hfound]
    split_ifs
    · rw [hlonger,List.drop_append_of_le_length hle]
      rfl
    · rw [ih,Option.map_map,Option.map_map]
      rfl

theorem exists_splitAtFirst (needle pre post : CString) :
    ∃ before after, splitAtFirst needle (pre ++ (needle ++ post)) = some (before,after) ∧
      before.length ≤ pre.length := by
  induction pre with
  | nil => exact ⟨[],post,splitAtFirst_needle needle post,le_refl _⟩
  | cons c pre ih =>
    obtain ⟨before,after,h,hle⟩ := ih
    rw [List.cons_append,splitAtFirst]
    split_ifs
    · exact ⟨[],_,rfl,Nat.zero_le _⟩
    · rw [h]
      exact ⟨c :: before,after,rfl,Nat.succ_le_succ hle⟩

theorem occursLast_of_found {needle pre post after : CString}
    (h : splitAtFirst needle (pre ++ (needle ++ post)) = some (pre,after)) : OccursLast needle pre := by
  rw [splitAtFirst_append] at h
  obtain ⟨⟨before,rest⟩,hr,hmap⟩ := Option.map_eq_some_iff.mp h
  have hbefore : before = pre := congrArg Prod.fst hmap
  subst hbefore
  have htext := eq_of_splitAtFirst hr
  rw [List.append_cancel_left_eq,List.self_eq_append_right] at htext
  rw [OccursLast,hr,htext]

theorem ne_slash {text : CString} (h : '/' ∉ text) : ∀ c ∈ text, decide (c ≠ '/') = true := by
  intro c hc
  have hne : c ≠ '/' := fun heq => h (heq ▸ hc)
  simpa using hne

theorem afterSlash_append {before : CString} (h : '/' ∉ before) (after : CString) :
    afterSlash (before ++ '/' :: after) = after := by
  rw [afterSlash,List.dropWhile_append_of_pos (ne_slash h)]
  simp

theorem length_lt_afterSlash_append {before : CString} (h : '/' ∈ before) (after : CString) :
    after.length < (afterSlash (before ++ '/' :: after)).length := by
  obtain ⟨first,rest,rfl,hfirst⟩ := List.eq_append_cons_of_mem h
  rw [List.append_assoc,List.cons_append,afterSlash_append hfirst,List.length_append,List.length_cons]
  omega

theorem eq_of_append_slash {type name filename file : CString} (htype : '/' ∉ type)
    (hle : name.length ≤ type.length) (h : type ++ '/' :: filename = name ++ '/' :: file) :
    name = type := by
  have hstart : name <+: type := by
    refine List.prefix_of_prefix_length_le ?_ (List.prefix_append type ('/' :: filename)) hle
    rw [h]
    exact List.prefix_append _ _
  obtain ⟨rest,rfl⟩ := hstart
  rw [List.append_assoc,List.append_cancel_left_eq] at h
  cases rest with
  | nil => rw [List.append_nil]
  | cons c rest =>
    have hc : c = '/' := (List.cons.inj h).1
    exact absurd (hc ▸ List.mem_append_right name List.mem_cons_self) htype

/-! The parts of a path of an app. -/

theorem pathType_append_filename {path filename : CString} (h : pathFilename path = some filename) :
    pathBody path = pathType path ++ '/' :: filename := by
  simp only [pathFilename] at h
  split_ifs at h with hslash
  obtain ⟨first,rest,hbody,hfirst⟩ := List.eq_append_cons_of_mem hslash
  have htype : pathType path = first := by
    rw [pathType,hbody,List.takeWhile_append_of_pos (ne_slash hfirst)]
    simp
  rw [htype,hbody] at h ⊢
  rw [← Option.some.inj h]
  simp

variable {path : CString}

theorem pathBody_eq_pathType (h : pathFilename path = none) : pathBody path = pathType path := by
  simp only [pathFilename] at h
  split_ifs at h with hslash
  exact (List.takeWhile_eq_self_iff.mpr (ne_slash hslash)).symm

theorem slash_notMem_pathType (path : CString) : '/' ∉ pathType path := by
  intro h
  have hne := List.mem_takeWhile_imp h
  simp at hne

theorem prefix_pathBody_iff {needle : CString} (hneedle : '/' ∉ needle) (path : CString) :
    needle <+: pathBody path ↔ needle <+: pathType path := by
  constructor
  · intro h
    cases hfile : pathFilename path with
    | none => exact pathBody_eq_pathType hfile ▸ h
    | some filename =>
      rw [pathType_append_filename hfile] at h
      by_cases hle : needle.length ≤ (pathType path).length
      · exact List.prefix_of_prefix_length_le h (List.prefix_append _ _) hle
      · -- a longer needle contains the slash
        have hslash : pathType path ++ ['/'] <+: needle := by
          refine List.prefix_of_prefix_length_le ⟨filename,by simp⟩ h ?_
          simp
          omega
        exact absurd (hslash.subset (by simp)) hneedle
  · intro h
    exact h.trans (List.takeWhile_prefix _)

theorem isPathInTmp_iff (h : strstr path appPathScheme = true) :
    isPathInTmp path = true ↔ "tmp".toList <+: pathType path := by
  rw [isPathInTmp,h,Bool.true_and,List.isPrefixOf_iff_prefix]
  exact prefix_pathBody_iff (by decide) path

theorem strstr_of_starts {haystack needle : CString} (h : needle <+: haystack) : strstr haystack needle = true := by
  rw [strstr,List.any_eq_true]
  exact ⟨haystack,(List.mem_tails _ _).mpr List.suffix_rfl,List.isPrefixOf_iff_prefix.mpr h⟩

theorem InternalPath.eq_append (h : InternalPath path) : path = appPathScheme ++ pathBody path := by
  obtain ⟨rest,rfl⟩ := h.1
  rw [pathBody,List.drop_left]

theorem InternalPath.ne_tmp (h : InternalPath path) (hnot : isPathInTmp path = false) :
    pathType path ≠ "tmp".toList := by
  intro htmp
  have hin := (isPathInTmp_iff (strstr_of_starts h.1)).mpr (htmp ▸ List.prefix_rfl)
  rw [hnot] at hin
  exact Bool.noConfusion hin

namespace Directory

def below (name : CString) (r : ℕ × Directory) : ℕ × Directory :=
  if r.1 = 0 then (0,name :: r.2) else (r.1 - 1,r.2)

theorem climb_below (name segment : CString) (r : ℕ × Directory) :
    climb (below name r) segment = below name (climb r segment) := by
  obtain ⟨climbed,names⟩ := r
  by_cases hstay : segment = [] ∨ segment = ['.']
  · simp only [climb,if_pos hstay]
  · by_cases hup : segment = ['.','.']
    · -- the level that is left is the name itself when nothing has been entered since
      cases climbed <;> cases names <;> simp [climb,below,hup]
    · cases climbed <;> simp [climb,below,hstay,hup]

theorem foldl_climb_below (name : CString) (segments : List CString) (r : ℕ × Directory) :
    segments.foldl climb (below name r) = below name (segments.foldl climb r) := by
  induction segments generalizing r with
  | nil => rfl
  | cons segment segments ih => rw [List.foldl_cons,List.foldl_cons,climb_below,ih]

theorem descent_name {name : CString} (hslash : '/' ∉ name) (hname : name ≠ [] ∧ name ≠ ['.'] ∧ name ≠ ['.','.'])
    (path : CString) : descent (name ++ '/' :: path) = below name (descent path) := by
  have hone : climb (0,[]) name = below name (0,[]) := by
    simp [climb,below,hname]
  have hsegment : name.splitOn '/' = [name] := List.splitOn_eq_singleton hslash
  rw [descent,List.splitOn_append_cons_self,hsegment,List.singleton_append,List.foldl_cons,hone,foldl_climb_below]
  rfl

end Directory

namespace PathConfig

variable (C : PathConfig) (pkg : CString)

/-- What `app_absolute_to_relative_path` finds: a root, a slash, and the package; the type ends in front of
the slash before the package, if anything is there. -/
def Tells (text told : CString) : Prop :=
  ∃ pre rest before after, splitAtFirst C.absPathRoot text = some (pre,rest) ∧ '/' ∈ rest ∧
    splitAtFirst pkg (afterSlash rest) = some (before,after) ∧
    told = (if before = [] then afterSlash rest else before.dropLast) ++ '/' :: after.drop 1

theorem appAbsoluteToRelativePath_iff (text path : CString) : C.appAbsoluteToRelativePath pkg text = some path ↔
      ∃ told, C.Tells pkg text told ∧ (appPathScheme ++ told).take (C.pathMax - 1) = path := by
  simp only [appAbsoluteToRelativePath,Tells,afterSlash]
  cases splitAtFirst C.absPathRoot text with
  | none => simp
  | some found =>
    obtain ⟨pre,rest⟩ := found
    by_cases hslash : '/' ∈ rest
    · simp only [if_pos hslash]
      cases hpkg : splitAtFirst pkg ((rest.dropWhile (· ≠ '/')).drop 1) with
      | none =>
        refine iff_of_false nofun ?_
        intro h
        obtain ⟨told,⟨_,_,before,after,heq,-,hsome,-⟩,-⟩ := h
        cases heq
        rw [hpkg] at hsome
        exact absurd hsome (by simp)
      | some package =>
        obtain ⟨before,after⟩ := package
        constructor
        · intro h
          refine ⟨_,⟨pre,rest,before,after,rfl,hslash,hpkg,rfl⟩,?_⟩
          rw [← List.append_assoc]
          exact Option.some.inj h
        · intro h
          obtain ⟨told,⟨_,_,_,_,heq,-,hsome,htold⟩,hpath⟩ := h
          cases heq
          rw [hpkg] at hsome
          cases hsome
          rw [← hpath,htold,← List.append_assoc]
    · simp only [if_neg hslash]
      refine iff_of_false nofun ?_
      intro h
      obtain ⟨told,⟨_,_,_,_,heq,hrest,-⟩,-⟩ := h
      cases heq
      exact hslash hrest

def RootOccursLast : Prop :=
  ∀ pre rest, splitAtFirst C.absPathRoot (C.cwd ++ C.absPathRoot) = some (pre,rest) → '/' ∉ rest

theorem searched (below : CString) :
    ∃ pre rest, splitAtFirst C.absPathRoot (C.cwd ++ (C.absPathRoot ++ '/' :: below)) = some (pre,rest) ∧ '/' ∈ rest ∧
      ((C.RootOccursLast ∧ afterSlash rest = below) ∨
        (¬ C.RootOccursLast ∧ below.length < (afterSlash rest).length)) := by
  obtain ⟨pre,rest,hfound,-⟩ := exists_splitAtFirst C.absPathRoot C.cwd []
  rw [List.append_nil] at hfound
  refine ⟨pre,rest ++ '/' :: below,?_,by simp,?_⟩
  · rw [splitAtFirst_append,hfound]
    rfl
  · by_cases hslash : '/' ∈ rest
    · exact .inr ⟨fun h => h pre rest hfound hslash,length_lt_afterSlash_append hslash below⟩
    · refine .inl ⟨?_,afterSlash_append hslash below⟩
      intro pre' rest' h
      rw [hfound] at h
      cases h
      exact hslash

variable {type : CString}

/-- What is found is the type and the file exactly when the first root and the first package are those
that were written. -/
theorem tells_iff (htype : '/' ∉ type) (filename : CString) :
    C.Tells pkg (C.cwd ++ (C.absPathRoot ++ '/' :: (type ++ '/' :: (pkg ++ '/' :: filename))))
        (type ++ '/' :: filename) ↔
      C.RootOccursLast ∧ OccursLast pkg (type ++ ['/']) := by
  obtain ⟨pre,rest,hfound,hslash,hrest⟩ := C.searched (type ++ '/' :: (pkg ++ '/' :: filename))
  have hbelow : type ++ '/' :: (pkg ++ '/' :: filename) = (type ++ ['/']) ++ (pkg ++ '/' :: filename) := by simp
  constructor
  · intro h
    obtain ⟨pre',rest',before,after,hfound',-,hpkg,htold⟩ := h
    rw [hfound] at hfound'
    cases hfound'
    have hlength := congrArg List.length (eq_of_splitAtFirst hpkg)
    have htoldLength := congrArg List.length htold
    simp only [List.length_append,List.length_cons,List.length_drop] at hlength htoldLength hrest
    by_cases hnone : before = []
    · -- the whole text would be the type
      rw [if_pos hnone] at htoldLength
      obtain ⟨-,heq⟩ | ⟨-,hlt⟩ := hrest
      · have hbelowLength := congrArg List.length heq
        simp only [List.length_append,List.length_cons] at hbelowLength
        omega
      · omega
    · rw [if_neg hnone] at htold htoldLength
      have hpos := List.length_pos_iff.mpr hnone
      rw [List.length_dropLast] at htoldLength
      obtain ⟨hroot,heq⟩ | ⟨-,hlt⟩ := hrest
      · refine ⟨hroot,?_⟩
        rw [heq,hbelow] at hpkg
        obtain ⟨first,last,hfirst,hle⟩ :=
          exists_splitAtFirst pkg (type ++ ['/']) ('/' :: filename)
        rw [hpkg] at hfirst
        cases hfirst
        rw [List.length_append,List.length_singleton] at hle
        have hname : before.dropLast = type :=
          eq_of_append_slash htype (by rw [List.length_dropLast]; omega) htold
        have hbefore : before = type ++ ['/'] := by
          have htext := eq_of_splitAtFirst hpkg
          have hlengths : (type ++ ['/']).length = before.length := by
            rw [← hname,List.length_append,List.length_dropLast,List.length_singleton]
            omega
          exact (List.append_inj htext hlengths).1.symm
        rw [hbefore] at hpkg
        exact occursLast_of_found hpkg
      · omega
  · intro h
    obtain ⟨hroot,hpkg⟩ := h
    have hsearched : afterSlash rest = type ++ '/' :: (pkg ++ '/' :: filename) := by
      obtain ⟨-,h⟩ | ⟨hnot,-⟩ := hrest
      · exact h
      · exact absurd hroot hnot
    refine ⟨pre,rest,type ++ ['/'],'/' :: filename,hfound,hslash,?_,by simp⟩
    rw [hsearched,hbelow,splitAtFirst_append,hpkg]
    rfl

def Resembles (text body : CString) : Prop := ∃ told, C.Tells pkg text told ∧ body <+: told

/-- `snprintf` keeps what is found, or cuts it where the path ends. -/
theorem restored_iff {path : CString} (h : InternalPath path) (text : CString) :
    C.appAbsoluteToRelativePath pkg text = some path ↔ path.length < C.pathMax ∧ (C.Tells pkg text (pathBody path) ∨
        (path.length + 1 = C.pathMax ∧ C.Resembles pkg text (pathBody path))) := by
  have hmax := C.cwd_fits
  have hpath := h.eq_append
  rw [appAbsoluteToRelativePath_iff]
  constructor
  · intro htold
    obtain ⟨told,htells,hcut⟩ := htold
    have hlength := congrArg List.length hcut
    rw [List.length_take] at hlength
    refine ⟨by omega,?_⟩
    by_cases hfull : path.length + 1 = C.pathMax
    · refine .inr ⟨hfull,told,htells,?_⟩
      have hstart : path <+: appPathScheme ++ told := hcut ▸ List.take_prefix _ _
      rw [hpath] at hstart
      exact (List.prefix_append_right_inj _).mp hstart
    · rw [List.take_of_length_le (by omega),hpath,List.append_cancel_left_eq] at hcut
      exact .inl (hcut ▸ htells)
  · intro hfound
    obtain ⟨hlt,htells | ⟨hfull,told,htells,hstart⟩⟩ := hfound
    · refine ⟨_,htells,?_⟩
      rw [← hpath]
      exact List.take_of_length_le (by omega)
    · refine ⟨told,htells,?_⟩
      have hwhole : path <+: appPathScheme ++ told := by
        rw [hpath]
        exact (List.prefix_append_right_inj _).mpr hstart
      have hcut : C.pathMax - 1 = path.length := by omega
      rw [hcut]
      exact (List.prefix_iff_eq_take.mp hwhole).symm

def RoundTrips (path : CString) : Prop :=
  InternalPath path → isPathInTmp path = false →
    ∃ text, C.appRelativeToAbsolutePath pkg path = some text ∧ C.Fits text ∧
      C.appAbsoluteToRelativePath pkg text = some path

/-- The path has a slash behind its type, everything fits, and neither the root nor the package occurs
before its place. A path that just fills the buffer may also be the beginning of a longer one. -/
def Invertible (path : CString) : Prop :=
  InternalPath path → isPathInTmp path = false → path.length < C.pathMax ∧
      match pathFilename path with
      | some filename =>
          (C.directory pkg (pathType path)).length + filename.length + 2 ≤ C.pathMax ∧
            (C.RootOccursLast ∧ OccursLast pkg (pathType path ++ ['/']) ∨ path.length + 1 = C.pathMax ∧
                C.Resembles pkg (C.directory pkg (pathType path) ++ '/' :: filename) (pathBody path))
      | none => path.length + 1 = C.pathMax ∧
          C.Resembles pkg ((C.directory pkg (pathType path)).take (C.pathMax - 1)) (pathBody path)

theorem fits_filename_iff (type filename : CString) : C.Fits (C.snprintfDirectory pkg type ++ '/' :: filename) ↔
      (C.directory pkg type).length + filename.length + 2 ≤ C.pathMax := by
  have hmax := C.cwd_fits
  simp only [Fits,List.length_append,List.length_cons,length_snprintfDirectory]
  omega

theorem fits_snprintfDirectory (type : CString) : C.Fits (C.snprintfDirectory pkg type) := by
  have hmax := C.cwd_fits
  rw [Fits,length_snprintfDirectory]
  omega

theorem snprintfDirectory_of_lt (h : (C.directory pkg type).length < C.pathMax) :
    C.snprintfDirectory pkg type = C.directory pkg type := by
  rw [snprintfDirectory_eq,List.take_of_length_le (by omega)]

theorem Tells.slash_mem {C : PathConfig} {pkg text told : CString} (h : C.Tells pkg text told) : '/' ∈ told := by
  obtain ⟨_,_,_,_,-,-,-,rfl⟩ := h
  simp

theorem roundTrips_iff (path : CString) : C.RoundTrips pkg path ↔ C.Invertible pkg path := by
  simp only [RoundTrips,Invertible]
  refine forall_congr' (fun hinternal => forall_congr' (fun hnot => ?_))
  simp only [appRelativeToAbsolutePath,if_pos hinternal.2,C.restored_iff pkg hinternal]
  have htype := slash_notMem_pathType path
  cases hfile : pathFilename path with
  | none =>
    have hbody := pathBody_eq_pathType hfile
    have hnever : ∀ text, ¬ C.Tells pkg text (pathBody path) := by
      intro text h
      exact htype (hbody ▸ h.slash_mem)
    simp only [Option.some.injEq,exists_eq_left',C.fits_snprintfDirectory,true_and,hnever,false_or]
    rw [snprintfDirectory_eq]
  | some filename =>
    simp only [Option.some.injEq,exists_eq_left',C.fits_filename_iff]
    rw [and_left_comm]
    refine and_congr_right (fun _ => and_congr_right (fun hfits => ?_))
    rw [C.snprintfDirectory_of_lt pkg (by omega)]
    have hdirectory : C.directory pkg (pathType path) ++ '/' :: filename =
        C.cwd ++ (C.absPathRoot ++ '/' :: (pathType path ++ '/' :: (pkg ++ '/' :: filename))) := by
      rw [directory,typeDirectory,if_neg (hinternal.ne_tmp hnot)]
      simp
    have htells := C.tells_iff pkg htype filename
    rw [← hdirectory,← pathType_append_filename hfile] at htells
    rw [htells]

def tmpDirectory : CString := C.directory pkg "tmp".toList

/-- What follows the name of a type leaves the directory of the type, comes down again what it climbs
further, and enters the shared directory. -/
def Crosses (file : CString) : Prop :=
  0 < (Directory.descent file).1 ∧ (Directory.resolve (C.cwd ++ C.absPathRoot)).drop
        ((Directory.resolve (C.cwd ++ C.absPathRoot)).length - ((Directory.descent file).1 - 1)) ++
      ["tmp".toList] <+: (Directory.descent file).2

/-- The test and the mapping of an accepted path agree on the shared directory, and the mapped path fits. -/
def TmpAgrees (path : CString) : Prop :=
  ∀ text, C.appRelativeToAbsolutePath pkg path = some text →
    C.Fits text ∧ (isPathInTmp path = true ↔ Directory.Inside (C.tmpDirectory pkg) text)

/-- Everything fits, and the file of the shared directory returns to it; behind another type the path
crosses to the shared directory when the name of that type only begins like `tmp`, and does not otherwise.
A directory that is cut is the shared one or not as its type is. -/
def TmpKept (path : CString) : Prop :=
  acceptsPath path = true →
    match pathFilename path with
    | some filename =>
        (C.directory pkg (pathType path)).length + filename.length + 2 ≤ C.pathMax ∧
          if pathType path = "tmp".toList then Directory.Returns (C.tmpDirectory pkg) filename
          else if "tmp".toList <+: pathType path then C.Crosses (pkg ++ '/' :: filename)
          else ¬ C.Crosses (pkg ++ '/' :: filename)
    | none =>
        if (C.directory pkg (pathType path)).length < C.pathMax then
          if pathType path = "tmp".toList then True
          else if "tmp".toList <+: pathType path then C.Crosses pkg
          else ¬ C.Crosses pkg
        else "tmp".toList <+: pathType path ↔ Directory.Inside (C.tmpDirectory pkg)
          ((C.directory pkg (pathType path)).take (C.pathMax - 1))

theorem name_of_accepts {path : CString} (h : acceptsPath path = true) :
    pathType path ≠ [] ∧ pathType path ≠ ['.'] ∧ pathType path ≠ ['.','.'] := by
  rw [acceptsPath,Bool.and_eq_true,List.any_eq_true] at h
  obtain ⟨-,type,htype,hstart⟩ := h
  refine ⟨?_,?_,?_⟩ <;>
  · intro heq
    rw [heq] at hstart
    revert type
    decide

/-- Below the root, a path is in the shared directory when it crosses to it behind its first name, or
the first name is the shared directory and the rest returns. -/
theorem inside_tmp_iff (hslash : '/' ∉ type)
    (hname : type ≠ [] ∧ type ≠ ['.'] ∧ type ≠ ['.','.']) (htype : type ≠ "tmp".toList) (file : CString) :
    Directory.Inside (C.tmpDirectory pkg) (C.cwd ++ (C.absPathRoot ++ '/' :: (type ++ '/' :: file))) ↔
      C.Crosses file := by
  have htmp : C.tmpDirectory pkg = (C.cwd ++ C.absPathRoot) ++ '/' :: "tmp".toList := by
    rw [tmpDirectory,directory,typeDirectory,if_pos rfl,List.append_assoc]
  have hdescent : Directory.descent "tmp".toList = (0,["tmp".toList]) := by decide
  have htext : C.cwd ++ (C.absPathRoot ++ '/' :: (type ++ '/' :: file)) =
      (C.cwd ++ C.absPathRoot) ++ '/' :: (type ++ '/' :: file) := by rw [List.append_assoc]
  rw [Directory.Inside,htmp,htext,Directory.resolve_append,Directory.resolve_append,hdescent,
    Directory.descent_name hslash hname,Nat.sub_zero,List.take_length,Crosses,Directory.below]
  generalize Directory.resolve (C.cwd ++ C.absPathRoot) = root
  generalize Directory.descent file = r
  by_cases hzero : r.1 = 0
  · -- the first name stays
    rw [if_pos hzero,Nat.sub_zero,List.take_length,List.prefix_append_right_inj,List.cons_prefix_cons]
    exact iff_of_false (fun h => htype h.1.symm) (fun h => absurd hzero (Nat.pos_iff_ne_zero.mp h.1))
  · rw [if_neg hzero]
    nth_rewrite 1 [← List.take_append_drop (root.length - (r.1 - 1)) root]
    rw [List.append_assoc,List.prefix_append_right_inj]
    exact (and_iff_right (Nat.pos_of_ne_zero hzero)).symm

theorem directory_of_ne (h : type ≠ "tmp".toList) :
    C.directory pkg type = C.cwd ++ (C.absPathRoot ++ '/' :: (type ++ '/' :: pkg)) := by
  rw [directory,typeDirectory,if_neg h]

theorem prefix_iff_inside_iff {inside crosses : Prop} (h : inside ↔ crosses) :
    ("tmp".toList <+: type ↔ inside) ↔ if "tmp".toList <+: type then crosses else ¬ crosses := by
  rw [h]
  split_ifs with htmp
  · exact ⟨fun heq => heq.mp htmp,fun hc => iff_of_true htmp hc⟩
  · exact ⟨fun heq hc => htmp (heq.mpr hc),fun hc => iff_of_false htmp hc⟩

theorem tmpAgrees_iff (path : CString) : C.TmpAgrees pkg path ↔ C.TmpKept pkg path := by
  simp only [TmpAgrees,TmpKept,appRelativeToAbsolutePath]
  by_cases haccept : acceptsPath path = true
  · have hscheme : strstr path appPathScheme = true := by
      rw [acceptsPath,Bool.and_eq_true] at haccept
      exact haccept.1
    have hslash := slash_notMem_pathType path
    have hname := name_of_accepts haccept
    rw [if_pos haccept]
    simp only [haccept,true_imp_iff,isPathInTmp_iff hscheme]
    cases pathFilename path with
    | some filename =>
      simp only [Option.some.injEq,forall_eq',fits_filename_iff]
      refine and_congr_right (fun hfits => ?_)
      rw [C.snprintfDirectory_of_lt pkg (by omega)]
      by_cases htype : pathType path = "tmp".toList
      · rw [if_pos htype,htype]
        exact (iff_true_left List.prefix_rfl).trans (Directory.inside_append_iff _ _)
      · have hinside := C.inside_tmp_iff pkg hslash hname htype (pkg ++ '/' :: filename)
        have htext : C.directory pkg (pathType path) ++ '/' :: filename =
            C.cwd ++ (C.absPathRoot ++ '/' :: (pathType path ++ '/' :: (pkg ++ '/' :: filename))) := by
          rw [C.directory_of_ne pkg htype]
          simp
        rw [if_neg htype,htext]
        exact prefix_iff_inside_iff hinside
    | none =>
      simp only [Option.some.injEq,forall_eq',fits_snprintfDirectory,true_and]
      by_cases hfits : (C.directory pkg (pathType path)).length < C.pathMax
      · rw [if_pos hfits,C.snprintfDirectory_of_lt pkg hfits]
        by_cases htype : pathType path = "tmp".toList
        · rw [if_pos htype,htype]
          exact iff_true_intro (iff_of_true List.prefix_rfl (Directory.inside_refl _))
        · rw [if_neg htype,C.directory_of_ne pkg htype]
          exact prefix_iff_inside_iff (C.inside_tmp_iff pkg hslash hname htype pkg)
      · rw [if_neg hfits,snprintfDirectory_eq]
  · rw [if_neg haccept]
    exact iff_of_true nofun (fun h => absurd h haccept)

/-- For every package name and every string: a path comes back from its file, and the test for the shared
directory agrees with the mapping, exactly under the two conditions. -/
theorem path_mapping_iff (path : CString) :
    (C.RoundTrips pkg path ↔ C.Invertible pkg path) ∧ (C.TmpAgrees pkg path ↔ C.TmpKept pkg path) :=
  ⟨C.roundTrips_iff pkg path,C.tmpAgrees_iff pkg path⟩

/-- The directory of a type comes back with a slash at its end, and `tmpfiles` is taken for `tmp`. -/
theorem type_directory_not_restored : (¬ ∀ path, defaultConfig.RoundTrips "com.app".toList path) ∧
      ¬ ∀ path, defaultConfig.TmpAgrees "com.app".toList path := by
  constructor
  · intro h
    obtain ⟨text,htext,-,hback⟩ := h "internal://cache".toList ⟨by decide,by decide⟩ (by decide)
    have heq : text = "/data/quickapp/cache/com.app".toList := (Option.some.inj htext).symm
    subst heq
    exact absurd hback (by decide)
  · intro h
    have hagrees := (h "internal://tmpfiles/key".toList _ rfl).2
    exact absurd (hagrees.mp (by decide)) (by unfold Directory.Inside; decide)

end PathConfig
end FeatureRuntime
