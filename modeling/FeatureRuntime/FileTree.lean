import FeatureRuntime.FileRequests
import FeatureRuntime.MachineInt
import Mathlib.Logic.Relation
import Mathlib.Data.List.Flatten
import Mathlib.Data.Option.Basic

/-! The queries of `system.file` on a directory: the walk that `get` and `list` make of a tree, in the order
in which the directories are read, and what they report of it. -/
namespace FeatureRuntime

/-- A file as `readdir`, `stat` and `opendir` find it; the entries of a directory are in the order in which
`readdir` yields them. A broken one is there but has no status. -/
inductive FileNode
  | file (name : CString) (size : ℕ) (mtime : ℤ)
  | dir (name : CString) (mtime : ℤ) (opendir : Option Errno) (entries : List FileNode)
  | broken (name : CString) (errno : Errno)

/-- `FileInfo`; `file_num` and `dir_num` count its list. -/
inductive FileInfo
  | mk (uri : CString) (isDir : Bool) (length : ℕ) (lastModifiedTime : ℤ) (dirList : List FileInfo)

/-- What the script sees of an entry, and the uri of the entry that has it among its `subFiles`. -/
structure FileReport where
  parent : Option CString
  uri : CString
  type : String
  length : ℤ
  lastModifiedTime : ℤ
  deriving DecidableEq

/-- An entry that has a status: its path and that of its parent, and the status. -/
structure StatedFile where
  parent : Option CString
  path : CString
  isDir : Bool
  size : ℕ
  mtime : ℤ

inductive DirQuery
  | get (recursive : Bool)
  | list

namespace FileNode

def name : FileNode → CString
  | .file name _ _ => name
  | .dir name _ _ _ => name
  | .broken name _ => name

/-- The path that `snprintf` makes; names are short enough for its buffer. -/
def pathIn (dirname : CString) (entry : FileNode) : CString := dirname ++ '/' :: entry.name

theorem induction {P : FileNode → Prop} (file : ∀ name size mtime, P (.file name size mtime))
    (dir : ∀ name mtime opendir entries, (∀ entry ∈ entries, P entry) → P (.dir name mtime opendir entries))
    (broken : ∀ name errno, P (.broken name errno)) : ∀ node, P node
  | .file name size mtime => file name size mtime
  | .dir name mtime opendir entries =>
    dir name mtime opendir entries (fun entry _ => induction file dir broken entry)
  | .broken name errno => broken name errno

/-- Two neighbours in one directory change places. -/
inductive Swap : FileNode → FileNode → Prop
  | here (name : CString) (mtime : ℤ) (opendir : Option Errno) (front : List FileNode)
      (first second : FileNode) (back : List FileNode) :
      Swap (.dir name mtime opendir (front ++ first :: second :: back))
        (.dir name mtime opendir (front ++ second :: first :: back))
  | inside (name : CString) (mtime : ℤ) (opendir : Option Errno) (front : List FileNode)
      (entry entry' : FileNode) (back : List FileNode) : Swap entry entry' →
      Swap (.dir name mtime opendir (front ++ entry :: back)) (.dir name mtime opendir (front ++ entry' :: back))

def Reordered : FileNode → FileNode → Prop := Relation.ReflTransGen Swap

mutual

def stated (parent : Option CString) (path : CString) : FileNode → List StatedFile
  | .file _ size mtime => [⟨parent,path,false,size,mtime⟩]
  | .dir _ mtime _ entries => ⟨parent,path,true,0,mtime⟩ :: statedAll path entries
  | .broken _ _ => []

def statedAll (dirname : CString) : List FileNode → List StatedFile
  | [] => []
  | entry :: entries =>
    stated (some dirname) (pathIn dirname entry) entry ++ statedAll dirname entries

end

def regular (dirname : CString) : FileNode → Option StatedFile
  | .file name size mtime => some ⟨none,dirname ++ '/' :: name,false,size,mtime⟩
  | _ => none

def files (path : CString) : FileNode → List StatedFile
  | .dir _ _ _ entries => entries.flatMap (fun entry => (regular path entry).toList)
  | _ => []

end FileNode

namespace DirQuery

def recursive : DirQuery → Bool
  | .get recursive => recursive
  | .list => false

end DirQuery

namespace FileInfo

variable (recursive : Bool)

def type (isDir : Bool) : String := if isDir then "dir" else "file"

/-- The time in milliseconds, as a `long`. -/
def milliseconds (mtime : ℤ) : ℤ := (mtime * 1000).bmod (2 ^ 64)

mutual

/-- `get_extended_file_info`. -/
def extended (parent : Option CString) : FileInfo → List FileReport
  | .mk uri isDir length lastModifiedTime dirList =>
    ⟨parent,uri,type isDir,toInt length,milliseconds lastModifiedTime⟩ ::
      if recursive then extendedAll (some uri) dirList else []

/-- `__get_dir_list` of a `get`. -/
def extendedAll (parent : Option CString) : List FileInfo → List FileReport
  | [] => []
  | info :: infos => extended parent info ++ extendedAll parent infos

end

/-- `get_file_info`, of an entry that a list shows. -/
def listed : FileInfo → List FileReport
  | .mk uri false length lastModifiedTime _ =>
    [⟨none,uri,type false,toInt length,milliseconds lastModifiedTime⟩]
  | _ => []

/-- `__get_dir_list` of a `list`. -/
def fileList : FileInfo → List FileReport
  | .mk _ _ _ _ dirList => dirList.flatMap listed

end FileInfo

namespace FileTree

section Walk

variable (uriOf : CString → Option CString) (recursive : Bool)

mutual

/-- `__get_info_c`, and `__read_dir_c` where the directory is opened: the code that is left in the request,
and the entry. -/
def readEntry (opens : Bool) (path : CString) : FileNode → ℤ × Option FileInfo
  | .broken _ errno => (-errno.val,none)
  | .file _ size mtime => (0,(uriOf path).map (fun uri => .mk uri false size mtime []))
  | .dir _ mtime opendir entries =>
    match uriOf path with
    | none => (0,none)
    | some uri =>
      if opens then
        match opendir with
        | some errno => (-errno.val,some (.mk uri true 0 mtime []))
        | none =>
          ((readEntries path 0 entries).1,some (.mk uri true 0 mtime (readEntries path 0 entries).2))
      else (0,some (.mk uri true 0 mtime []))

/-- The loop of `__read_dir_c`. -/
def readEntries (dirname : CString) (r : ℤ) : List FileNode → ℤ × List FileInfo
  | [] => (r,[])
  | entry :: entries =>
    let one := readEntry recursive (FileNode.pathIn dirname entry) entry
    let rest := readEntries dirname one.1 entries
    (rest.1,one.2.toList ++ rest.2)

end

mutual

def ends (opens : Bool) (path : CString) : FileNode → List ℤ
  | .broken _ errno => [-errno.val]
  | .file _ _ _ => [0]
  | .dir _ _ opendir entries =>
    if (uriOf path).isSome && opens then
      match opendir with
      | some errno => [-errno.val]
      | none => if entries.isEmpty then [0] else endsAll path entries
    else [0]

def endsAll (dirname : CString) : List FileNode → List ℤ
  | [] => []
  | entry :: entries => ends recursive (FileNode.pathIn dirname entry) entry ++ endsAll dirname entries

end

end Walk

/-- `__load_dir_after_work_cb`: nothing where the request fails, and else what the script is handed. -/
def answer (op : DirQuery) (work : ℤ × Option FileInfo) : Option (List FileReport) :=
  if work.1 < 0 then none
  else match op with
    | .get recursive => some (work.2.toList.flatMap (FileInfo.extended recursive none))
    | .list => some (work.2.toList.flatMap FileInfo.fileList)

/-- The success of a `get` without data leaves out the argument that `success` declares and then reads. -/
def LacksArgument (op : DirQuery) (work : ℤ × Option FileInfo) : Prop :=
  0 ≤ work.1 ∧ work.2 = none ∧ op ≠ .list

section Query

variable (C : PathConfig) (pkg : CString)

/-- `__load_dir_work_cb` and its completion, on the tree that is at a path. -/
def loadDir (op : DirQuery) (path : CString) (node : FileNode) : Option (List FileReport) :=
  answer op (readEntry (C.appAbsoluteToRelativePath pkg) op.recursive true path node)

/-- A call of `get` or `list`, on the tree that is where its uri says. -/
def query (op : DirQuery) (uri : CString) (node : FileNode) : Option (List FileReport) :=
  (C.appRelativeToAbsolutePath pkg uri).bind (fun path => loadDir C pkg op path node)

def queryEnds (op : DirQuery) (path : CString) (node : FileNode) : List ℤ :=
  ends (C.appAbsoluteToRelativePath pkg) op.recursive true path node

def Names (uri path : CString) : Prop :=
  (C.appRelativeToAbsolutePath pkg uri).map Directory.resolve = some (Directory.resolve path)

structure Describes (report : FileReport) (entry : StatedFile) : Prop where
  parent : Option.Rel (Names C pkg) report.parent entry.parent
  uri : Names C pkg report.uri entry.path
  type : report.type = if entry.isDir then "dir" else "file"
  length : report.length = entry.size
  lastModifiedTime : report.lastModifiedTime = entry.mtime * 1000

def wanted (op : DirQuery) (path : CString) (node : FileNode) : List StatedFile :=
  match op with
  | .get _ => node.stated none path
  | .list => node.files path

/-- A recursive `get` reports every entry once, and a list every regular file. -/
def Complete (op : DirQuery) (path : CString) (node : FileNode) (reports : List FileReport) : Prop :=
  op ≠ .get false → List.Forall₂ (Describes C pkg) reports (wanted op path node)

def Faithful (op : DirQuery) (uri : CString) (node : FileNode) : Prop :=
  ∀ node', node.Reordered node' → Option.Rel List.Perm (query C pkg op uri node) (query C pkg op uri node') ∧
    ∀ path, C.appRelativeToAbsolutePath pkg uri = some path →
      ¬ LacksArgument op (readEntry (C.appAbsoluteToRelativePath pkg) op.recursive true path node') ∧
      ∀ reports, query C pkg op uri node' = some reports → Complete C pkg op path node' reports

/-- The path of an entry comes back from the uri that is made of it, and its numbers fit their types. -/
structure Shown (entry : StatedFile) : Prop where
  uri : ∃ uri, C.appAbsoluteToRelativePath pkg entry.path = some uri ∧ Names C pkg uri entry.path
  length : toInt entry.size = entry.size
  lastModifiedTime : FileInfo.milliseconds entry.mtime = entry.mtime * 1000

/-- No walk can end at an entry without an error, or none can end at one with an error; then what is asked for
has a uri, every entry that is to be reported is shown, and a list has a uri for the directory of its files. -/
def Settled (op : DirQuery) (uri : CString) (node : FileNode) : Prop :=
  ∀ path, C.appRelativeToAbsolutePath pkg uri = some path → (∀ r ∈ queryEnds C pkg op path node, r < 0) ∨
    (∀ r ∈ queryEnds C pkg op path node, 0 ≤ r) ∧ (op ≠ .list → (C.appAbsoluteToRelativePath pkg path).isSome) ∧
    (op ≠ .get false → ∀ entry ∈ wanted op path node,
      (C.appAbsoluteToRelativePath pkg path).isSome ∧ Shown C pkg entry)

end Query

end FileTree

namespace FileNode

theorem statedAll_eq (dirname : CString) (entries : List FileNode) : statedAll dirname entries =
      entries.flatMap (fun entry => stated (some dirname) (pathIn dirname entry) entry) := by
  induction entries with
  | nil => rfl
  | cons entry entries ih => rw [statedAll,ih,List.flatMap_cons]

variable {node node' : FileNode}

theorem Swap.name_eq (h : Swap node node') : node'.name = node.name := by
  cases h <;> rfl

theorem Swap.pathIn_eq (h : Swap node node') (dirname : CString) : pathIn dirname node' = pathIn dirname node := by
  unfold pathIn
  rw [h.name_eq]

theorem perm_here {α : Type*} (f : FileNode → List α) (front back : List FileNode) (first second : FileNode) :
    ((front ++ first :: second :: back).flatMap f).Perm ((front ++ second :: first :: back).flatMap f) := by
  apply List.Perm.flatMap_right
  exact (List.Perm.swap second first back).append_left front

theorem perm_inside {α : Type*} (f : FileNode → List α) (front back : List FileNode)
    (entry entry' : FileNode) (h : (f entry).Perm (f entry')) :
    ((front ++ entry :: back).flatMap f).Perm ((front ++ entry' :: back).flatMap f) := by
  rw [List.flatMap_append,List.flatMap_append,List.flatMap_cons,List.flatMap_cons]
  exact (h.append_right _).append_left _

theorem Swap.stated_perm (h : Swap node node') (parent : Option CString)
    (path : CString) : (stated parent path node).Perm (stated parent path node') := by
  induction h generalizing parent path with
  | here name mtime opendir front first second back =>
    rw [stated,stated,statedAll_eq,statedAll_eq]
    exact (perm_here _ _ _ _ _).cons _
  | inside name mtime opendir front entry entry' back hswap ih =>
    rw [stated,stated,statedAll_eq,statedAll_eq]
    apply List.Perm.cons
    apply perm_inside
    rw [hswap.pathIn_eq]
    exact ih _ _

theorem Swap.files_perm (h : Swap node node') (path : CString) : (files path node).Perm (files path node') := by
  cases h with
  | here name mtime opendir front first second back => exact perm_here _ _ _ _ _
  | inside name mtime opendir front entry entry' back hswap =>
    apply perm_inside
    cases hswap <;> exact .rfl

theorem reordered_of_perm (name : CString) (mtime : ℤ) (opendir : Option Errno)
    {entries entries' : List FileNode} (h : entries.Perm entries') (front : List FileNode) :
    Reordered (.dir name mtime opendir (front ++ entries)) (.dir name mtime opendir (front ++ entries')) := by
  induction h generalizing front with
  | nil => exact .refl
  | cons entry _ ih =>
    have hrest := ih (front ++ [entry])
    rwa [List.append_assoc,List.append_assoc] at hrest
  | swap first second back => exact .single (.here name mtime opendir front second first back)
  | trans _ _ ih ih' => exact (ih front).trans (ih' front)

theorem reordered_inside (name : CString) (mtime : ℤ) (opendir : Option Errno)
    (front back : List FileNode) {entry entry' : FileNode} (h : entry.Reordered entry') :
    Reordered (.dir name mtime opendir (front ++ entry :: back))
      (.dir name mtime opendir (front ++ entry' :: back)) := by
  induction h with
  | refl => exact .refl
  | tail _ hswap ih => exact ih.tail (.inside name mtime opendir front _ _ back hswap)

theorem reordered_last (name : CString) (mtime : ℤ) (opendir : Option Errno)
    {entries : List FileNode} {entry entry' : FileNode} (hentry : entry ∈ entries)
    (h : entry.Reordered entry') :
    ∃ others, Reordered (.dir name mtime opendir entries) (.dir name mtime opendir (others ++ [entry'])) := by
  obtain ⟨front,back,rfl⟩ := List.append_of_mem hentry
  refine ⟨front ++ back,?_⟩
  have hmove : (front ++ entry :: back).Perm ((front ++ back) ++ [entry]) := by
    apply (List.perm_middle).trans
    exact (List.perm_append_singleton entry (front ++ back)).symm
  apply (reordered_of_perm name mtime opendir hmove []).trans
  exact reordered_inside name mtime opendir (front ++ back) [] h

theorem Reordered.name_eq (h : node.Reordered node') : node'.name = node.name := by
  induction h with
  | refl => rfl
  | tail _ hswap ih => rw [hswap.name_eq,ih]

end FileNode

namespace FileInfo

theorem extendedAll_eq (recursive : Bool) (parent : Option CString) (infos : List FileInfo) :
    extendedAll recursive parent infos = infos.flatMap (extended recursive parent) := by
  induction infos with
  | nil => rfl
  | cons info infos ih => rw [extendedAll,ih,List.flatMap_cons]

end FileInfo

namespace FileTree

open FileNode

section Walk

variable (uriOf : CString → Option CString) (recursive : Bool)

theorem endsAll_eq (dirname : CString) (entries : List FileNode) : endsAll uriOf recursive dirname entries =
      entries.flatMap (fun entry => ends uriOf recursive recursive (pathIn dirname entry) entry) := by
  induction entries with
  | nil => rfl
  | cons entry entries ih => rw [endsAll,ih,List.flatMap_cons]

theorem readEntries_append (dirname : CString) (r : ℤ) (entries : List FileNode) (last : FileNode) :
    (readEntries uriOf recursive dirname r (entries ++ [last])).1 =
      (readEntry uriOf recursive recursive (pathIn dirname last) last).1 := by
  induction entries generalizing r with
  | nil => rfl
  | cons entry entries ih =>
    rw [List.cons_append,readEntries]
    exact ih _

theorem readEntries_infos (dirname : CString) (r : ℤ) (entries : List FileNode) :
    (readEntries uriOf recursive dirname r entries).2 = entries.flatMap (fun entry =>
      (readEntry uriOf recursive recursive (pathIn dirname entry) entry).2.toList) := by
  induction entries generalizing r with
  | nil => rfl
  | cons entry entries ih => rw [readEntries,List.flatMap_cons,ih]

variable {path uri : CString}

theorem ends_dir (huri : uriOf path = some uri) (name : CString) (mtime : ℤ)
    {entries : List FileNode} (hentries : entries ≠ []) :
    ends uriOf recursive true path (.dir name mtime none entries) =
      entries.flatMap (fun entry => ends uriOf recursive recursive (pathIn path entry) entry) := by
  rw [ends,huri,← endsAll_eq]
  cases entries with
  | nil => exact absurd rfl hentries
  | cons entry entries => rfl

theorem readEntry_dir (huri : uriOf path = some uri) (name : CString) (mtime : ℤ) (entries : List FileNode) :
    readEntry uriOf recursive true path (.dir name mtime none entries) =
      ((readEntries uriOf recursive path 0 entries).1,
        some (.mk uri true 0 mtime (readEntries uriOf recursive path 0 entries).2)) := by
  rw [readEntry,huri]
  rfl

theorem closed_dir (path : CString) (opens : Bool) (h : uriOf path = none ∨ opens = false)
    (name : CString) (mtime : ℤ) (opendir : Option Errno) (entries : List FileNode) :
    readEntry uriOf recursive opens path (.dir name mtime opendir entries) =
        (0,(uriOf path).map (fun uri => .mk uri true 0 mtime [])) ∧
      ends uriOf recursive opens path (.dir name mtime opendir entries) = [0] := by
  rw [readEntry,ends.eq_def]
  cases hpath : uriOf path with
  | none => exact ⟨rfl,rfl⟩
  | some uri =>
    obtain rfl : opens = false := h.resolve_left (by rw [hpath]; nofun)
    exact ⟨rfl,rfl⟩

theorem dir_cases (path : CString) (opens : Bool) (opendir : Option Errno) : (uriOf path = none ∨ opens = false) ∨
    ∃ uri, uriOf path = some uri ∧ opens = true ∧ ((∃ errno, opendir = some errno) ∨ opendir = none) := by
  cases hpath : uriOf path with
  | none => exact .inl (.inl rfl)
  | some uri =>
    cases opens with
    | false => exact .inl (.inr rfl)
    | true =>
      refine .inr ⟨uri,rfl,rfl,?_⟩
      cases opendir with
      | none => exact .inr rfl
      | some errno => exact .inl ⟨errno,rfl⟩

/-- The code that a walk leaves is that of an entry at which it can end. -/
theorem result_mem_ends (node : FileNode) (opens : Bool) (path : CString) :
    (readEntry uriOf recursive opens path node).1 ∈ ends uriOf recursive opens path node := by
  induction node using FileNode.induction generalizing opens path with
  | file name size mtime => exact List.mem_singleton_self 0
  | broken name errno => exact List.mem_singleton_self _
  | dir name mtime opendir entries ih =>
    obtain hclosed | ⟨uri,huri,rfl,⟨errno,rfl⟩ | rfl⟩ := dir_cases uriOf path opens opendir
    · have h := closed_dir uriOf recursive path opens hclosed name mtime opendir entries
      rw [h.1,h.2]
      exact List.mem_singleton_self 0
    · rw [readEntry,ends,huri]
      exact List.mem_singleton_self _
    · rw [readEntry_dir uriOf recursive huri]
      obtain rfl | ⟨others,last,rfl⟩ := List.eq_nil_or_concat' entries
      · rw [ends,huri]
        exact List.mem_singleton_self 0
      · rw [ends_dir uriOf recursive huri name mtime (by simp),readEntries_append]
        apply List.mem_flatMap_of_mem (List.mem_append_right others (List.mem_singleton_self last))
        exact ih last (List.mem_append_right others (List.mem_singleton_self last)) recursive _

/-- At every entry at which a walk can end, one does: where that entry is the last of its directory, and so
on up. -/
theorem ends_reached (node : FileNode) (opens : Bool) (path : CString) {r : ℤ}
    (hr : r ∈ ends uriOf recursive opens path node) :
    ∃ node', node.Reordered node' ∧ (readEntry uriOf recursive opens path node').1 = r := by
  induction node using FileNode.induction generalizing opens path with
  | file name size mtime => exact ⟨_,.refl,(List.mem_singleton.mp hr).symm⟩
  | broken name errno => exact ⟨_,.refl,(List.mem_singleton.mp hr).symm⟩
  | dir name mtime opendir entries ih =>
    obtain hclosed | ⟨uri,huri,rfl,⟨errno,rfl⟩ | rfl⟩ := dir_cases uriOf path opens opendir
    · have h := closed_dir uriOf recursive path opens hclosed name mtime opendir entries
      rw [h.2,List.mem_singleton] at hr
      exact ⟨_,.refl,by rw [h.1,hr]⟩
    · rw [ends,huri] at hr
      refine ⟨_,.refl,?_⟩
      rw [readEntry,huri]
      exact (List.mem_singleton.mp hr).symm
    · cases entries with
      | nil =>
        rw [ends,huri] at hr
        refine ⟨_,.refl,?_⟩
        rw [readEntry_dir uriOf recursive huri]
        exact (List.mem_singleton.mp hr).symm
      | cons first rest =>
        rw [ends_dir uriOf recursive huri name mtime (List.cons_ne_nil _ _),List.mem_flatMap] at hr
        obtain ⟨entry,hentry,hr⟩ := hr
        obtain ⟨entry',hreordered,hresult⟩ := ih entry hentry recursive _ hr
        obtain ⟨others,hlast⟩ := reordered_last name mtime none hentry hreordered
        refine ⟨_,hlast,?_⟩
        rw [readEntry_dir uriOf recursive huri,readEntries_append,pathIn,hreordered.name_eq]
        exact hresult

variable {node node' : FileNode}

theorem ends_dir_perm {entries entries' : List FileNode} (hne : entries ≠ []) (hne' : entries' ≠ [])
    (h : ∀ path, (entries.flatMap (fun entry => ends uriOf recursive recursive (pathIn path entry) entry)).Perm
      (entries'.flatMap (fun entry => ends uriOf recursive recursive (pathIn path entry) entry)))
    (opens : Bool) (path name : CString) (mtime : ℤ) (opendir : Option Errno) :
    (ends uriOf recursive opens path (.dir name mtime opendir entries)).Perm
      (ends uriOf recursive opens path (.dir name mtime opendir entries')) := by
  obtain hclosed | ⟨uri,huri,rfl,⟨errno,rfl⟩ | rfl⟩ := dir_cases uriOf path opens opendir
  · rw [(closed_dir uriOf recursive path opens hclosed name mtime opendir _).2,
      (closed_dir uriOf recursive path opens hclosed name mtime opendir _).2]
  · rw [ends,ends,huri]
  · rw [ends_dir uriOf recursive huri name mtime hne,ends_dir uriOf recursive huri name mtime hne']
    exact h path

theorem Swap.ends_perm (h : Swap node node') (opens : Bool) (path : CString) :
    (ends uriOf recursive opens path node).Perm (ends uriOf recursive opens path node') := by
  induction h generalizing opens path with
  | here name mtime opendir front first second back =>
    exact ends_dir_perm uriOf recursive (by simp) (by simp) (fun _ => perm_here _ _ _ _ _) opens path name mtime opendir
  | inside name mtime opendir front entry entry' back hswap ih =>
    refine ends_dir_perm uriOf recursive (by simp) (by simp) (fun path => ?_) opens path name mtime opendir
    apply perm_inside
    rw [hswap.pathIn_eq]
    exact ih _ _

def reports (opens : Bool) (parent : Option CString) (path : CString) (node : FileNode) :
    List FileReport :=
  (readEntry uriOf recursive opens path node).2.toList.flatMap (FileInfo.extended recursive parent)

theorem reports_closed (path : CString) (opens : Bool) (h : uriOf path = none ∨ opens = false)
    (parent : Option CString) (name : CString) (mtime : ℤ) (opendir : Option Errno)
    (entries : List FileNode) :
    reports uriOf recursive opens parent path (.dir name mtime opendir entries) =
      ((uriOf path).map (fun uri => .mk uri true 0 mtime [])).toList.flatMap
        (FileInfo.extended recursive parent) := by
  unfold reports
  rw [(closed_dir uriOf recursive path opens h name mtime opendir entries).1]

theorem reports_unopened (huri : uriOf path = some uri) (parent : Option CString)
    (name : CString) (mtime : ℤ) (errno : Errno) (entries : List FileNode) :
    reports uriOf recursive true parent path (.dir name mtime (some errno) entries) =
      FileInfo.extended recursive parent (.mk uri true 0 mtime []) := by
  unfold reports
  rw [readEntry,huri]
  exact List.append_nil _

theorem reports_dir (huri : uriOf path = some uri) (parent : Option CString)
    (name : CString) (mtime : ℤ) (entries : List FileNode) :
    reports uriOf recursive true parent path (.dir name mtime none entries) =
      ⟨parent,uri,"dir",0,FileInfo.milliseconds mtime⟩ :: if recursive then
        entries.flatMap (fun entry =>
          reports uriOf recursive recursive (some uri) (pathIn path entry) entry) else [] := by
  unfold reports
  rw [readEntry_dir uriOf recursive huri,readEntries_infos]
  simp only [Option.toList_some,List.flatMap_cons,List.flatMap_nil,List.append_nil,
    FileInfo.extended,FileInfo.extendedAll_eq,List.flatMap_assoc]
  rfl

theorem reports_dir_perm {entries entries' : List FileNode}
    (h : ∀ parent path, (entries.flatMap (fun entry =>
        reports uriOf recursive recursive parent (pathIn path entry) entry)).Perm
      (entries'.flatMap (fun entry => reports uriOf recursive recursive parent (pathIn path entry) entry)))
    (opens : Bool) (parent : Option CString) (path name : CString) (mtime : ℤ) (opendir : Option Errno) :
    (reports uriOf recursive opens parent path (.dir name mtime opendir entries)).Perm
      (reports uriOf recursive opens parent path (.dir name mtime opendir entries')) := by
  obtain hclosed | ⟨uri,huri,rfl,⟨errno,rfl⟩ | rfl⟩ := dir_cases uriOf path opens opendir
  · rw [reports_closed uriOf recursive path opens hclosed,reports_closed uriOf recursive path opens hclosed]
  · rw [reports_unopened uriOf recursive huri,reports_unopened uriOf recursive huri]
  · rw [reports_dir uriOf recursive huri,reports_dir uriOf recursive huri]
    apply List.Perm.cons
    split
    · exact h _ path
    · exact .rfl

theorem Swap.reports_perm (h : Swap node node') (opens : Bool) (parent : Option CString) (path : CString) :
    (reports uriOf recursive opens parent path node).Perm (reports uriOf recursive opens parent path node') := by
  induction h generalizing opens parent path with
  | here name mtime opendir front first second back =>
    exact reports_dir_perm uriOf recursive (fun _ _ => perm_here _ _ _ _ _) opens parent path name mtime opendir
  | inside name mtime opendir front entry entry' back hswap ih =>
    refine reports_dir_perm uriOf recursive (fun parent path => ?_) opens parent path name mtime opendir
    apply perm_inside
    rw [hswap.pathIn_eq]
    exact ih _ _ _

def describe (entry : StatedFile) : FileReport :=
  ⟨entry.parent.bind uriOf,(uriOf entry.path).getD [],FileInfo.type entry.isDir,toInt entry.size,
    FileInfo.milliseconds entry.mtime⟩

theorem describe_length (entry : StatedFile) : (describe uriOf entry).length = toInt entry.size := by
  simp only [describe]

theorem describe_lastModifiedTime (entry : StatedFile) :
    (describe uriOf entry).lastModifiedTime = FileInfo.milliseconds entry.mtime := by
  simp only [describe]

theorem describe_dir (huri : uriOf path = some uri) (parent : Option CString)
    (mtime : ℤ) : describe uriOf ⟨parent,path,true,0,mtime⟩ =
      ⟨parent.bind uriOf,uri,"dir",0,FileInfo.milliseconds mtime⟩ := by
  have hzero : toInt ((0 : ℕ) : ℤ) = 0 := toInt_of_le le_rfl (by decide)
  simp only [describe,huri,hzero,FileInfo.type,if_true,Option.getD_some]

theorem flatMap_eq {α β : Type*} (f g : α → List β) (l : List α) (h : ∀ a ∈ l, f a = g a) :
    l.flatMap f = l.flatMap g := by
  unfold List.flatMap
  rw [List.map_congr_left h]

/-- A walk reports entries of the tree in their order, and none that the tree lacks. -/
theorem reports_sublist (node : FileNode) (parent : Option CString) (path : CString) :
    (reports uriOf true true (parent.bind uriOf) path node).Sublist
      ((node.stated parent path).map (describe uriOf)) := by
  induction node using FileNode.induction generalizing parent path with
  | file name size mtime =>
    unfold reports
    rw [readEntry,stated]
    cases huri : uriOf path with
    | none => exact List.nil_sublist _
    | some uri => simp [describe,huri,FileInfo.extended,FileInfo.extendedAll]
  | broken name errno => exact List.nil_sublist _
  | dir name mtime opendir entries ih =>
    rw [stated,List.map_cons]
    obtain hclosed | ⟨uri,huri,-,⟨errno,rfl⟩ | rfl⟩ := dir_cases uriOf path true opendir
    · rw [reports_closed uriOf true path true hclosed,hclosed.resolve_right nofun]
      exact List.nil_sublist _
    · rw [reports_unopened uriOf true huri]
      simp [describe,huri,FileInfo.extended,FileInfo.extendedAll]
    · rw [reports_dir uriOf true huri,statedAll_eq,List.map_flatMap,if_pos rfl,describe_dir uriOf huri]
      apply List.Sublist.cons_cons
      apply List.Sublist.flatMap_right
      intro entry hentry
      have hchild := ih entry hentry (some path) (pathIn path entry)
      rwa [Option.bind_some,huri] at hchild

/-- A walk that can end at no error reports every entry, where every entry has a uri. -/
theorem reports_eq (node : FileNode) (parent : Option CString) (path : CString)
    (hends : ∀ r ∈ ends uriOf true true path node, 0 ≤ r)
    (huris : ∀ entry ∈ node.stated parent path, (uriOf entry.path).isSome) :
    reports uriOf true true (parent.bind uriOf) path node = (node.stated parent path).map (describe uriOf) := by
  induction node using FileNode.induction generalizing parent path with
  | file name size mtime =>
    unfold reports
    obtain ⟨uri,huri⟩ := Option.isSome_iff_exists.mp (huris _ (List.mem_singleton_self _))
    rw [readEntry,stated,huri]
    simp [describe,huri,FileInfo.extended,FileInfo.extendedAll]
  | broken name errno => rfl
  | dir name mtime opendir entries ih =>
    rw [stated] at huris
    obtain ⟨uri,huri⟩ := Option.isSome_iff_exists.mp (huris _ List.mem_cons_self)
    obtain hclosed | ⟨uri',huri',-,⟨errno,rfl⟩ | rfl⟩ := dir_cases uriOf path true opendir
    · rw [hclosed.resolve_right nofun] at huri
      cases huri
    · rw [ends,huri'] at hends
      have herror := hends _ (List.mem_singleton_self _)
      have hpos := errno.pos
      omega
    · rw [reports_dir uriOf true huri',stated,List.map_cons,statedAll_eq,List.map_flatMap,
        if_pos rfl,describe_dir uriOf huri']
      refine congrArg _ (flatMap_eq _ _ _ (fun entry hentry => ?_))
      have hchild := ih entry hentry (some path) (pathIn path entry)
      rw [Option.bind_some,huri'] at hchild
      apply hchild
      · intro r hr
        apply hends
        rw [ends_dir uriOf true huri' name mtime (List.ne_nil_of_mem hentry)]
        exact List.mem_flatMap_of_mem hentry hr
      · intro below hbelow
        apply huris below
        rw [statedAll_eq]
        exact List.mem_cons_of_mem _ (List.mem_flatMap_of_mem hentry hbelow)

def listed (dirname : CString) (entry : FileNode) : List FileReport :=
  (readEntry uriOf false false (pathIn dirname entry) entry).2.toList.flatMap FileInfo.listed

def listReports (path : CString) (node : FileNode) : List FileReport :=
  (readEntry uriOf false true path node).2.toList.flatMap FileInfo.fileList

theorem listReports_dir (huri : uriOf path = some uri) (name : CString) (mtime : ℤ) (entries : List FileNode) :
    listReports uriOf path (.dir name mtime none entries) = entries.flatMap (listed uriOf path) := by
  unfold listReports
  rw [readEntry_dir uriOf false huri,readEntries_infos]
  simp only [Option.toList_some,List.flatMap_cons,List.flatMap_nil,List.append_nil,
    FileInfo.fileList,List.flatMap_assoc]
  rfl

theorem listReports_unread {path : CString} {opendir : Option Errno}
    (h : uriOf path = none ∨ ∃ errno, opendir = some errno) (name : CString) (mtime : ℤ)
    (entries : List FileNode) : listReports uriOf path (.dir name mtime opendir entries) = [] := by
  unfold listReports
  rw [readEntry.eq_def]
  obtain huri | ⟨errno,rfl⟩ := h
  · simp only [huri]
    rfl
  · cases huri : uriOf path <;> rfl

theorem list_cases (path : CString) (opendir : Option Errno) : (uriOf path = none ∨ ∃ errno, opendir = some errno) ∨
      ∃ uri, uriOf path = some uri ∧ opendir = none := by
  cases uriOf path with
  | none => exact .inl (.inl rfl)
  | some uri =>
    cases opendir with
    | none => exact .inr ⟨uri,rfl,rfl⟩
    | some errno => exact .inl (.inr ⟨errno,rfl⟩)

theorem listReports_file (path name : CString) (size : ℕ) (mtime : ℤ) :
    listReports uriOf path (.file name size mtime) = [] := by
  unfold listReports
  rw [readEntry]
  cases uriOf path <;> rfl

theorem Swap.listed_eq (h : Swap node node') (dirname : CString) :
    listed uriOf dirname node' = listed uriOf dirname node := by
  unfold listed
  rw [h.pathIn_eq]
  cases h <;> rw [(closed_dir uriOf false _ false (.inr rfl) _ _ _ _).1,
      (closed_dir uriOf false _ false (.inr rfl) _ _ _ _).1]

theorem Swap.listReports_perm (h : Swap node node') (path : CString) :
    (listReports uriOf path node).Perm (listReports uriOf path node') := by
  cases h with
  | here name mtime opendir front first second back =>
    obtain hunread | ⟨uri,huri,rfl⟩ := list_cases uriOf path opendir
    · rw [listReports_unread uriOf hunread,listReports_unread uriOf hunread]
    · rw [listReports_dir uriOf huri,listReports_dir uriOf huri]
      exact perm_here _ _ _ _ _
  | inside name mtime opendir front entry entry' back hswap =>
    obtain hunread | ⟨uri,huri,rfl⟩ := list_cases uriOf path opendir
    · rw [listReports_unread uriOf hunread,listReports_unread uriOf hunread]
    · rw [listReports_dir uriOf huri,listReports_dir uriOf huri]
      apply perm_inside
      rw [Swap.listed_eq uriOf hswap]

theorem listed_eq (dirname : CString) (entry : FileNode) :
    listed uriOf dirname entry = ((regular dirname entry).toList.filter
      (fun file => (uriOf file.path).isSome)).map (describe uriOf) := by
  unfold listed
  cases entry with
  | file name size mtime =>
    rw [readEntry,pathIn,regular,FileNode.name]
    cases huri : uriOf (dirname ++ '/' :: name) with
    | none => simp [huri]
    | some uri => simp [huri,describe,FileInfo.listed]
  | broken name errno => rfl
  | dir name mtime opendir entries =>
    rw [(closed_dir uriOf false _ false (.inr rfl) name mtime opendir entries).1]
    cases uriOf (pathIn dirname (.dir name mtime opendir entries)) <;> rfl

theorem listReports_sublist (node : FileNode) (path : CString) :
    (listReports uriOf path node).Sublist ((node.files path).map (describe uriOf)) := by
  cases node with
  | file name size mtime =>
    rw [listReports_file]
    exact List.nil_sublist _
  | broken name errno => exact List.nil_sublist _
  | dir name mtime opendir entries =>
    obtain hunread | ⟨uri,huri,rfl⟩ := list_cases uriOf path opendir
    · rw [listReports_unread uriOf hunread]
      exact List.nil_sublist _
    · rw [listReports_dir uriOf huri,files,List.map_flatMap]
      apply List.Sublist.flatMap_right
      intro entry _
      rw [listed_eq]
      exact List.filter_sublist.map _

theorem listReports_eq (node : FileNode) (path : CString) (hends : ∀ r ∈ ends uriOf false true path node, 0 ≤ r)
    (huris : ∀ file ∈ node.files path, (uriOf path).isSome ∧ (uriOf file.path).isSome) :
    listReports uriOf path node = (node.files path).map (describe uriOf) := by
  cases node with
  | file name size mtime => exact listReports_file uriOf path name size mtime
  | broken name errno => rfl
  | dir name mtime opendir entries =>
    cases hfiles : files path (.dir name mtime opendir entries) with
    | nil =>
      have hpart := listReports_sublist uriOf (.dir name mtime opendir entries) path
      rw [hfiles] at hpart
      exact List.sublist_nil.mp hpart
    | cons file rest =>
      obtain ⟨uri,huri⟩ := Option.isSome_iff_exists.mp
        (huris file (by rw [hfiles]; exact List.mem_cons_self)).1
      rw [← hfiles]
      cases opendir with
      | some errno =>
        rw [ends,huri] at hends
        have herror := hends _ (List.mem_singleton_self _)
        have hpos := errno.pos
        omega
      | none =>
        rw [listReports_dir uriOf huri,files,List.map_flatMap]
        apply flatMap_eq
        intro entry hentry
        rw [listed_eq,List.filter_eq_self.mpr]
        intro file hfile
        exact (huris file (List.mem_flatMap_of_mem hentry hfile)).2

theorem uri_of_info (opens : Bool) (path : CString) (node : FileNode)
    (h : (readEntry uriOf recursive opens path node).2 ≠ none) : (uriOf path).isSome := by
  cases huri : uriOf path with
  | some uri => rfl
  | none =>
    refine absurd ?_ h
    cases node with
    | file name size mtime => rw [readEntry,huri]; rfl
    | broken name errno => rfl
    | dir name mtime opendir entries =>
      rw [(closed_dir uriOf recursive path opens (.inl huri) name mtime opendir entries).1,huri]
      rfl

end Walk

/-- The parent of an entry of a tree is in the tree, but for that of the root. -/
theorem stated_parent (node : FileNode) (parent : Option CString) (path : CString) (entry : StatedFile)
    (h : entry ∈ node.stated parent path) : entry.parent = parent ∨
      ∃ above ∈ node.stated parent path, entry.parent = some above.path := by
  induction node using FileNode.induction generalizing parent path with
  | file name size mtime =>
    rw [List.mem_singleton.mp h]
    exact .inl rfl
  | broken name errno => cases h
  | dir name mtime opendir entries ih =>
    rw [stated,statedAll_eq] at h ⊢
    cases h with
    | head => exact .inl rfl
    | tail _ hbelow =>
      obtain ⟨child,hchild,hentry⟩ := List.mem_flatMap.mp hbelow
      obtain hparent | ⟨above,habove,hparent⟩ := ih child hchild _ _ hentry
      · exact .inr ⟨_,List.mem_cons_self,hparent⟩
      · exact .inr ⟨above,List.mem_cons_of_mem _ (List.mem_flatMap_of_mem hchild habove),hparent⟩

theorem files_parent (node : FileNode) (path : CString) (entry : StatedFile) (h : entry ∈ node.files path) :
    entry.parent = none := by
  cases node with
  | file name size mtime => cases h
  | broken name errno => cases h
  | dir name mtime opendir entries =>
    obtain ⟨child,_,hentry⟩ := List.mem_flatMap.mp h
    cases child with
    | file name size mtime => rw [List.mem_singleton.mp hentry]
    | dir name mtime opendir entries => cases hentry
    | broken name errno => cases hentry

section Query

variable (C : PathConfig) (pkg : CString) (op : DirQuery)

def opReports (path : CString) (node : FileNode) : List FileReport :=
  match op with
  | .get recursive => reports (C.appAbsoluteToRelativePath pkg) recursive true none path node
  | .list => listReports (C.appAbsoluteToRelativePath pkg) path node

theorem loadDir_eq (path : CString) (node : FileNode) : loadDir C pkg op path node =
      if (readEntry (C.appAbsoluteToRelativePath pkg) op.recursive true path node).1 < 0 then none
      else some (opReports C pkg op path node) := by
  unfold loadDir answer
  cases op <;> rfl

variable {path : CString} {node : FileNode}

theorem loadDir_failed (h : ∀ r ∈ queryEnds C pkg op path node, r < 0) : loadDir C pkg op path node = none := by
  rw [loadDir_eq,if_pos (h _ (result_mem_ends _ _ _ _ _))]

theorem loadDir_succeeded (h : ∀ r ∈ queryEnds C pkg op path node, 0 ≤ r) :
    loadDir C pkg op path node = some (opReports C pkg op path node) := by
  rw [loadDir_eq,if_neg (not_lt.mpr (h _ (result_mem_ends _ _ _ _ _)))]

theorem Reordered.ends_iff {node node' : FileNode} (h : node.Reordered node') (path : CString) (r : ℤ) :
    r ∈ queryEnds C pkg op path node' ↔ r ∈ queryEnds C pkg op path node := by
  induction h with
  | refl => exact Iff.rfl
  | tail _ hswap ih => exact (Swap.ends_perm _ _ hswap _ _).mem_iff.symm.trans ih

theorem Reordered.wanted_iff {node node' : FileNode} (h : node.Reordered node') (path : CString)
    (entry : StatedFile) : entry ∈ wanted op path node' ↔ entry ∈ wanted op path node := by
  induction h with
  | refl => exact Iff.rfl
  | tail _ hswap ih =>
    refine Iff.trans ?_ ih
    cases op with
    | get recursive => exact (hswap.stated_perm _ _).mem_iff.symm
    | list => exact (hswap.files_perm _).mem_iff.symm

theorem Reordered.opReports_perm {node node' : FileNode} (h : node.Reordered node') (path : CString) :
    (opReports C pkg op path node).Perm (opReports C pkg op path node') := by
  induction h with
  | refl => exact .rfl
  | tail _ hswap ih =>
    apply ih.trans
    cases op with
    | get recursive => exact Swap.reports_perm _ _ hswap _ _ _
    | list => exact Swap.listReports_perm _ hswap _

theorem opReports_sublist (hop : op ≠ .get false) (path : CString) (node : FileNode) :
    (opReports C pkg op path node).Sublist
      ((wanted op path node).map (describe (C.appAbsoluteToRelativePath pkg))) := by
  cases op with
  | list => exact listReports_sublist _ node path
  | get recursive =>
    cases recursive with
    | false => exact absurd rfl hop
    | true => exact reports_sublist _ node none path

theorem uri_of_reports (node : FileNode) (h : opReports C pkg op path node ≠ []) :
    (C.appAbsoluteToRelativePath pkg path).isSome := by
  apply uri_of_info (C.appAbsoluteToRelativePath pkg) op.recursive true path node
  intro hnone
  apply h
  unfold opReports
  cases op with
  | get recursive =>
    dsimp only
    unfold reports
    change (readEntry _ recursive true path node).2 = none at hnone
    rw [hnone]
    rfl
  | list =>
    dsimp only
    unfold listReports
    change (readEntry _ false true path node).2 = none at hnone
    rw [hnone]
    rfl

theorem not_names_nil (path : CString) : ¬ Names C pkg [] path := by
  have hrefused : C.appRelativeToAbsolutePath pkg [] = none := if_neg (by decide)
  unfold Names
  rw [hrefused]
  nofun

theorem shown_of_describes {entry : StatedFile}
    (h : Describes C pkg (describe (C.appAbsoluteToRelativePath pkg) entry) entry) :
    Shown C pkg entry := by
  have hlength := h.length
  have htime := h.lastModifiedTime
  rw [describe_length] at hlength
  rw [describe_lastModifiedTime] at htime
  refine ⟨?_,hlength,htime⟩
  cases huri : C.appAbsoluteToRelativePath pkg entry.path with
  | none =>
    have hnames := h.uri
    simp only [describe,huri,Option.getD_none] at hnames
    exact absurd hnames (not_names_nil C pkg _)
  | some uri =>
    have hnames := h.uri
    simp only [describe,huri,Option.getD_some] at hnames
    exact ⟨uri,rfl,hnames⟩

theorem describes_of_shown {entry : StatedFile} (h : Shown C pkg entry)
    (hparent : entry.parent = none ∨ ∃ above, Shown C pkg above ∧ entry.parent = some above.path) :
    Describes C pkg (describe (C.appAbsoluteToRelativePath pkg) entry) entry := by
  obtain ⟨uri,huri,hnames⟩ := h.uri
  refine ⟨?_,?_,rfl,by rw [describe_length,h.length],
    by rw [describe_lastModifiedTime,h.lastModifiedTime]⟩
  · obtain hnone | ⟨above,habove,hsome⟩ := hparent
    · rw [describe,hnone]
      exact .none
    · obtain ⟨uri',huri',hnames'⟩ := habove.uri
      rw [describe,hsome,Option.bind_some,huri']
      exact .some hnames'
  · simp only [describe,huri,Option.getD_some]
    exact hnames

/-- What is shown of the whole tree: every entry, and the directory of a list. -/
theorem complete_of_shown (hends : ∀ r ∈ queryEnds C pkg op path node, 0 ≤ r)
    (hshown : op ≠ .get false → ∀ entry ∈ wanted op path node,
      (C.appAbsoluteToRelativePath pkg path).isSome ∧ Shown C pkg entry) :
    Complete C pkg op path node (opReports C pkg op path node) := by
  intro hop
  have hall := hshown hop
  have huris : ∀ entry ∈ wanted op path node, (C.appAbsoluteToRelativePath pkg entry.path).isSome := by
    intro entry hentry
    obtain ⟨uri,huri,_⟩ := (hall entry hentry).2.uri
    exact Option.isSome_of_eq_some huri
  have hreports : opReports C pkg op path node =
      (wanted op path node).map (describe (C.appAbsoluteToRelativePath pkg)) := by
    cases op with
    | list =>
      exact listReports_eq _ node path hends (fun file hfile => ⟨(hall file hfile).1,huris file hfile⟩)
    | get recursive =>
      cases recursive with
      | false => exact absurd rfl hop
      | true => exact reports_eq _ node none path hends huris
  rw [hreports,List.forall₂_map_left_iff,List.forall₂_same]
  intro entry hentry
  apply describes_of_shown C pkg (hall entry hentry).2
  cases op with
  | list => exact .inl (files_parent node path entry hentry)
  | get recursive =>
    apply (stated_parent node none path entry hentry).imp_right
    rintro ⟨above,habove,hparent⟩
    exact ⟨above,(hall above habove).2,hparent⟩

theorem shown_of_complete (h : Complete C pkg op path node (opReports C pkg op path node)) (hop : op ≠ .get false)
    (entry : StatedFile) (hentry : entry ∈ wanted op path node) :
    (C.appAbsoluteToRelativePath pkg path).isSome ∧ Shown C pkg entry := by
  have hall := h hop
  have hreports : opReports C pkg op path node =
      (wanted op path node).map (describe (C.appAbsoluteToRelativePath pkg)) := by
    apply (opReports_sublist C pkg op hop path node).eq_of_length
    rw [hall.length_eq,List.length_map]
  rw [hreports,List.forall₂_map_left_iff,List.forall₂_same] at hall
  refine ⟨uri_of_reports C pkg op node ?_,shown_of_describes C pkg (hall entry hentry)⟩
  rw [hreports]
  exact List.ne_nil_of_mem (List.mem_map_of_mem hentry)

theorem not_lacksArgument_iff (h : 0 ≤ (readEntry (C.appAbsoluteToRelativePath pkg) op.recursive true path node).1) :
    ¬ LacksArgument op (readEntry (C.appAbsoluteToRelativePath pkg) op.recursive true path node) ↔
      (op ≠ .list → (C.appAbsoluteToRelativePath pkg path).isSome) := by
  have hinfo : (C.appAbsoluteToRelativePath pkg path).isSome →
      (readEntry (C.appAbsoluteToRelativePath pkg) op.recursive true path node).2 ≠ none := by
    intro hsome
    obtain ⟨uri,huri⟩ := Option.isSome_iff_exists.mp hsome
    cases node with
    | broken name errno => exact absurd (neg_nonneg.mp h) (not_le.mpr errno.pos)
    | file name size mtime => simp [readEntry,huri]
    | dir name mtime opendir entries =>
      simp only [readEntry,huri,if_true]
      cases opendir <;> exact Option.some_ne_none _
  constructor
  · intro hgiven hop
    exact uri_of_info _ op.recursive true path node (fun hnone => hgiven ⟨h,hnone,hop⟩)
  · exact fun hsome hlacks => hinfo (hsome hlacks.2.2) hlacks.2.1

/-- For every tree, in every order of enumeration: the outcome is that of the tree, and a success reports all
of it, exactly when no entry decides the code by being the last, and every entry is shown. -/
theorem dirQuery_faithful_iff (uri : CString) (node : FileNode) :
    Faithful C pkg op uri node ↔ Settled C pkg op uri node := by
  unfold Faithful Settled query
  cases C.appRelativeToAbsolutePath pkg uri with
  | none =>
    refine iff_of_true (fun node' _ => ⟨.none,nofun⟩) nofun
  | some path =>
    simp only [Option.bind_some,Option.some.injEq,forall_eq']
    constructor
    · intro h
      by_cases hfails : ∀ r ∈ queryEnds C pkg op path node, r < 0
      · exact .inl hfails
      · right
        obtain ⟨good,hgood,hnonneg⟩ : ∃ good ∈ queryEnds C pkg op path node, 0 ≤ good := by
          by_contra hnone
          exact hfails (fun r hr => lt_of_not_ge (fun hge => hnone ⟨r,hr,hge⟩))
        obtain ⟨nodeGood,hreordered,hresult⟩ := ends_reached _ _ node true path hgood
        have hsame := (h nodeGood hreordered).1
        rw [loadDir_eq C pkg op path nodeGood,hresult,if_neg (not_lt.mpr hnonneg)] at hsame
        obtain ⟨reports,hreports⟩ : ∃ reports, loadDir C pkg op path node = some reports := by
          cases hload : loadDir C pkg op path node with
          | none =>
            rw [hload] at hsame
            cases hsame
          | some reports => exact ⟨reports,rfl⟩
        have hends : ∀ r ∈ queryEnds C pkg op path node, 0 ≤ r := by
          intro r hr
          obtain ⟨node',hreordered',hresult'⟩ := ends_reached _ _ node true path hr
          by_contra hneg
          have hother := (h node' hreordered').1
          rw [loadDir_eq C pkg op path node',hresult',if_pos (not_le.mp hneg),hreports] at hother
          cases hother
        obtain ⟨hargument,hcomplete⟩ := (h node .refl).2
        refine ⟨hends,(not_lacksArgument_iff C pkg op (hends _ (result_mem_ends _ _ _ _ _))).mp hargument,?_⟩
        intro hop entry hentry
        apply shown_of_complete C pkg op ?_ hop entry hentry
        exact hcomplete _ (loadDir_succeeded C pkg op hends)
    · rintro (hfails | ⟨hends,huri,hshown⟩) node' hreordered
      · have hfails' : ∀ r ∈ queryEnds C pkg op path node', r < 0 := fun r hr =>
          hfails r ((Reordered.ends_iff C pkg op hreordered path r).mp hr)
        rw [loadDir_failed C pkg op hfails,loadDir_failed C pkg op hfails']
        exact ⟨.none,fun hlacks => absurd hlacks.1 (not_le.mpr (hfails' _ (result_mem_ends _ _ _ _ _))),nofun⟩
      · have hends' : ∀ r ∈ queryEnds C pkg op path node', 0 ≤ r := fun r hr =>
          hends r ((Reordered.ends_iff C pkg op hreordered path r).mp hr)
        rw [loadDir_succeeded C pkg op hends,loadDir_succeeded C pkg op hends']
        refine ⟨.some (Reordered.opReports_perm C pkg op hreordered path),
          (not_lacksArgument_iff C pkg op (hends' _ (result_mem_ends _ _ _ _ _))).mpr huri,?_⟩
        rintro reports ⟨⟩
        apply complete_of_shown C pkg op hends'
        intro hop entry hentry
        exact hshown hop entry ((Reordered.wanted_iff op hreordered path entry).mp hentry)

end Query

def withLink : FileNode :=
  .dir "d".toList 0 none [.file "a".toList 1 0,.broken "b".toList ⟨2,by decide⟩]

/-- A link to nothing that is read last fails the whole query, and one that is read first is left out. -/
theorem link_decides : ¬ ∀ (C : PathConfig) (pkg : CString) (op : DirQuery) (uri : CString) (node : FileNode),
    Faithful C pkg op uri node := by
  intro h
  have hsame := (h .defaultConfig "com.app".toList .list "internal://cache/d".toList withLink _
    (.single (.here _ _ _ [] _ _ []))).1
  have hfails : query .defaultConfig "com.app".toList .list "internal://cache/d".toList withLink =
      none := by decide
  have hsucceeds : query .defaultConfig "com.app".toList .list "internal://cache/d".toList
      (.dir "d".toList 0 none [.broken "b".toList ⟨2,by decide⟩,.file "a".toList 1 0]) ≠ none := by
    decide
  change Option.Rel _ _ (query .defaultConfig "com.app".toList .list "internal://cache/d".toList
    (.dir "d".toList 0 none [.broken "b".toList ⟨2,by decide⟩,.file "a".toList 1 0])) at hsame
  rw [hfails] at hsame
  cases hsucceeds' : query .defaultConfig "com.app".toList .list "internal://cache/d".toList
      (.dir "d".toList 0 none [.broken "b".toList ⟨2,by decide⟩,.file "a".toList 1 0]) with
  | none => exact hsucceeds hsucceeds'
  | some reports =>
    rw [hsucceeds'] at hsame
    cases hsame

end FileTree
end FeatureRuntime
