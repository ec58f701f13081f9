import FeatureRuntime.AppPath
import FeatureRuntime.Transition
import Mathlib.Data.List.DropRight
import Mathlib.Logic.Relation

/-! The extraction of archives by `system.zip`: what the name of an entry makes, one call of the system after
the other, in the current directory that all workers share. -/
namespace FeatureRuntime

/-- The name of an entry in the archive, and the bytes of the stack behind the buffer it is read into. -/
structure ZipName where
  bytes : CString
  behind : CString

namespace ZipName

variable (name : ZipName)

/-- `filename_inzip`: a name that fills the buffer has no terminator. -/
def inzip : CString :=
  (if name.bytes.length < 256 then name.bytes else name.bytes.take 256 ++ name.behind).takeWhile
    (· ≠ Char.ofNat 0)

def separates (c : Char) : Bool := c = '/' || c.toNat = 92

/-- `filename_withoutpath`. -/
def withoutPath : CString := name.inzip.rtakeWhile (!separates ·)

def isDirectory : Bool := name.withoutPath = []

def directory : Option CString :=
  if name.inzip.any separates then some (name.inzip.rdropWhile (!separates ·)).dropLast else none

end ZipName

/-- The calls of the system that make something, or that decide where. -/
inductive ZipOp
  | createDir (path : CString)
  | mkdir (path : CString)
  | chdir (path : CString)
  /-- And the directory that is made when the file cannot be. -/
  | fopen (path : CString) (retry : Option CString)

/-- `do_extract_currentfile`. -/
def ZipName.ops (name : ZipName) : List ZipOp :=
  if name.isDirectory then [.mkdir name.inzip] else [.fopen name.inzip name.directory]

/-- The directory that `create_dir` makes first. -/
def createDirParent (path : CString) : Option CString :=
  let data := if path.getLast? = some '/' then path.dropLast else path
  if '/' ∈ data then some (data.rdropWhile (· ≠ '/')).dropLast else none

/-- A request: its directory, and what is left of its work. -/
structure ZipWork where
  dst : CString
  ops : List ZipOp

/-- The current directory of the process, the requests, and what was made for each of them. -/
structure ZipWorkers where
  cwd : CString := []
  works : List ZipWork := []
  created : List (ℕ × CString) := []

inductive ZipLabel
  | decompress (pkg dstUri : CString) (names : List ZipName)
  /-- The next call of a request, and whether it succeeds. -/
  | syscall (request : ℕ) (ok : Bool)
  /-- The archive or an entry of it cannot be read any further. -/
  | stop (request : ℕ)

namespace ZipWorkers

open Directory

def locate (cwd path : CString) : CString := if path.head? = some '/' then path else cwd ++ '/' :: path

def makes : ZipOp → Option CString
  | .mkdir path => some path
  | .fopen path _ => some path
  | _ => none

def proceed (ok : Bool) : List ZipOp → List ZipOp
  | [] => []
  | .createDir path :: ops =>
    if path = ['.'] ∨ path = ['/'] ∨ ok = true then ops
    else match createDirParent path with
      | none => ops
      | some parent => .createDir parent :: .mkdir path :: ops
  | .mkdir _ :: ops => ops
  | .chdir _ :: ops => if ok then ops else []
  | .fopen path retry :: ops =>
    if ok then ops
    else match retry with
      | none => ops
      | some dir => .createDir dir :: .fopen path none :: ops

def enter (cwd : CString) (ok : Bool) : List ZipOp → CString
  | .chdir path :: _ => if ok then locate cwd path else cwd
  | _ => cwd

def making (ok : Bool) (ops : List ZipOp) : Option CString := if ok then ops.head?.bind makes else none

variable (C : PathConfig) (s : ZipWorkers)

/-- `system_zip_wrap_decompress` up to the queue, and the work that it queues. -/
def decompress (pkg dstUri : CString) (names : List ZipName) : ZipWorkers :=
  match C.appRelativeToAbsolutePath pkg dstUri with
  | none => s
  | some dst =>
    { s with works := s.works ++ [⟨dst,.createDir dst :: .chdir dst :: names.flatMap ZipName.ops⟩] }

def syscall (n : ℕ) (ok : Bool) : ZipWorkers :=
  match s.works[n]? with
  | none => s
  | some work =>
    { cwd := enter s.cwd ok work.ops
      works := s.works.set n { work with ops := proceed ok work.ops }
      created := s.created ++ ((making ok work.ops).map (fun path => (n,locate s.cwd path))).toList }

def stop (n : ℕ) : ZipWorkers :=
  match s.works[n]? with
  | none => s
  | some work => { s with works := s.works.set n { work with ops := [] } }

def step : ZipLabel → ZipWorkers
  | .decompress pkg dstUri names => s.decompress C pkg dstUri names
  | .syscall n ok => s.syscall n ok
  | .stop n => s.stop n

def Confined : Prop :=
  ∀ made ∈ s.created, ∃ work, s.works[made.1]? = some work ∧ Inside work.dst made.2

/-- A path stays in a directory: it names a file there from the root; or, followed from the directory, it comes
back as often as it climbs out. -/
def Stays (dst path : CString) : Prop := if path.head? = some '/' then Inside dst path else Directory.Returns dst path

/-- `create_dir` stays in a directory with each path that it may have to make. -/
def CreatesInside (dst path : CString) : Prop :=
  ∀ made, Relation.ReflTransGen (fun p q => createDirParent p = some q) path made → Stays dst made

/-- What the calls for an entry may make stays in a directory. -/
def Keeps (dst : CString) : ZipOp → Prop
  | .createDir path => CreatesInside dst path
  | .mkdir path => Stays dst path
  | .chdir _ => False
  | .fopen path retry => Stays dst path ∧ ∀ dir, retry = some dir → CreatesInside dst dir

/-- The calls that a request still has to make before it is in its directory. -/
def Prepares (dst : CString) (op : ZipOp) : Prop := (∃ path, op = .createDir path) ∨ op = .mkdir dst

def Extracting (work : ZipWork) : Prop := work.ops ≠ [] ∧ ∀ path, .chdir path ∉ work.ops

/-- No entry of an archive has a name that leaves the destination, which is an absolute path; the directories
above a destination exist; and no request enters its directory while another one extracts into a different one. -/
def Orderly : ZipLabel → Prop
  | .decompress pkg dstUri names => ∀ dst, C.appRelativeToAbsolutePath pkg dstUri = some dst →
      dst.head? = some '/' ∧ ∀ name ∈ names, ∀ op ∈ ZipName.ops name, Keeps dst op
  | .syscall n ok => ∀ work, s.works[n]? = some work →
      (∀ path rest, work.ops = .createDir path :: rest → (∃ p, .chdir p ∈ rest) → path ≠ work.dst → ok = true) ∧
      ∀ path rest, work.ops = .chdir path :: rest → ok = true →
        ∀ (m : ℕ) (other : ZipWork), s.works[m]? = some other → m ≠ n → Extracting other → other.dst = work.dst
  | .stop _ => True

/-- A request is still on its way into its directory, or the current directory is its own. -/
structure WorkInv (cwd : CString) (work : ZipWork) : Prop where
  absolute : work.dst.head? = some '/'
  phase : (∃ before after, work.ops = before ++ .chdir work.dst :: after ∧ (∀ op ∈ before, Prepares work.dst op) ∧
      ∀ op ∈ after, Keeps work.dst op) ∨
    (∀ op ∈ work.ops, Keeps work.dst op) ∧ (work.ops ≠ [] → cwd = work.dst)

structure Inv : Prop where
  confined : s.Confined
  works : ∀ (n : ℕ) (work : ZipWork), s.works[n]? = some work → WorkInv s.cwd work

theorem inside_locate_iff (dst path : CString) : Inside dst (locate dst path) ↔ Stays dst path := by
  unfold locate Stays
  split_ifs with habsolute
  · exact Iff.rfl
  · exact inside_append_iff dst path

theorem not_chdir_of_keeps {dst : CString} {ops : List ZipOp} (h : ∀ op ∈ ops, Keeps dst op) (path : CString) :
    .chdir path ∉ ops := fun hmem => h _ hmem

/-- A call for an entry keeps the calls that follow inside, and makes something inside only. -/
theorem keeps_proceed {dst : CString} {ops : List ZipOp} (h : ∀ op ∈ ops, Keeps dst op) (ok : Bool) :
    ∀ op ∈ proceed ok ops, Keeps dst op := by
  cases ops with
  | nil => exact h
  | cons op ops =>
    obtain ⟨hop,hops⟩ := List.forall_mem_cons.mp h
    cases op with
    | createDir path =>
      simp only [proceed]
      split_ifs
      · exact hops
      · cases hparent : createDirParent path with
        | none => exact hops
        | some parent =>
          have hinside : CreatesInside dst parent := fun made hmade => hop made (.head hparent hmade)
          exact List.forall_mem_cons.mpr ⟨hinside,List.forall_mem_cons.mpr ⟨hop path .refl,hops⟩⟩
    | mkdir path => exact hops
    | chdir path => exact hop.elim
    | fopen path retry =>
      simp only [proceed]
      split_ifs
      · exact hops
      · cases retry with
        | none => exact hops
        | some dir =>
          have hagain : Keeps dst (.fopen path none) := ⟨hop.1,nofun⟩
          exact List.forall_mem_cons.mpr ⟨hop.2 dir rfl,List.forall_mem_cons.mpr ⟨hagain,hops⟩⟩

theorem stays_of_making {dst : CString} {ops : List ZipOp} (h : ∀ op ∈ ops, Keeps dst op) {ok : Bool} {path : CString}
    (hmaking : making ok ops = some path) : ops ≠ [] ∧ Stays dst path := by
  unfold making at hmaking
  split_ifs at hmaking
  cases ops with
  | nil => cases hmaking
  | cons op ops =>
    refine ⟨List.cons_ne_nil _ _,?_⟩
    have hop := h op List.mem_cons_self
    cases op with
    | mkdir made =>
      obtain rfl := Option.some.inj hmaking
      exact hop
    | fopen made retry =>
      obtain rfl := Option.some.inj hmaking
      exact hop.1
    | _ => cases hmaking

variable {s}

theorem enter_of_keeps {cwd dst : CString} {ops : List ZipOp} (h : ∀ op ∈ ops, Keeps dst op) (ok : Bool) :
    enter cwd ok ops = cwd := by
  cases ops with
  | nil => rfl
  | cons op ops =>
    cases op with
    | chdir path => exact (h _ List.mem_cons_self).elim
    | _ => rfl

/-- The works after a call: the others as they were, unless the current directory has changed under them. -/
theorem WorkInv.of_cwd {cwd cwd' : CString} {work : ZipWork} (h : WorkInv cwd work)
    (hcwd : Extracting work → cwd = work.dst → cwd' = work.dst) : WorkInv cwd' work := by
  refine ⟨h.absolute,h.phase.imp_right fun hafter => ⟨hafter.1,fun hne => ?_⟩⟩
  exact hcwd ⟨hne,not_chdir_of_keeps hafter.1⟩ (hafter.2 hne)

theorem Inv.decompress (hs : s.Inv) (pkg dstUri : CString) (names : List ZipName)
    (horderly : s.Orderly C (.decompress pkg dstUri names)) : (s.decompress C pkg dstUri names).Inv := by
  unfold ZipWorkers.decompress
  cases hdst : C.appRelativeToAbsolutePath pkg dstUri with
  | none => exact hs
  | some dst =>
    obtain ⟨habsolute,hnames⟩ := horderly dst hdst
    constructor
    · intro made hmade
      obtain ⟨work,hwork,hinside⟩ := hs.confined made hmade
      refine ⟨work,?_,hinside⟩
      rw [List.getElem?_append_left (List.getElem?_eq_some_iff.mp hwork).1]
      exact hwork
    · intro n work hwork
      dsimp only at hwork ⊢
      obtain hold | hnew := List.mem_append.mp (List.mem_of_getElem? hwork)
      · obtain ⟨m,hm⟩ := List.getElem?_of_mem hold
        exact hs.works m work hm
      · obtain rfl := List.mem_singleton.mp hnew
        refine ⟨habsolute,.inl ⟨[.createDir dst],_,rfl,?_,?_⟩⟩
        · exact List.forall_mem_singleton.mpr (.inl ⟨dst,rfl⟩)
        · intro op hop
          obtain ⟨name,hname,hop⟩ := List.mem_flatMap.mp hop
          exact hnames name hname op hop

theorem work_set (works : List ZipWork) (n : ℕ) (work : ZipWork) (hn : works[n]? = some work)
    (ops : List ZipOp) (m : ℕ) (P : CString → Prop) :
    (∃ w, (works.set n { work with ops := ops })[m]? = some w ∧ P w.dst) ↔
      ∃ w, works[m]? = some w ∧ P w.dst := by
  by_cases hm : n = m
  · subst hm
    rw [List.getElem?_set_self (List.getElem?_eq_some_iff.mp hn).1,hn]
    simp only [Option.some.injEq,exists_eq_left']
  · rw [List.getElem?_set_ne hm]

theorem Inv.stop (hs : s.Inv) (n : ℕ) : (s.stop n).Inv := by
  unfold ZipWorkers.stop
  cases hn : s.works[n]? with
  | none => exact hs
  | some work =>
    refine ⟨fun made hmade => ?_,fun m other hm => ?_⟩
    · exact (work_set s.works n work hn [] made.1 (Inside · made.2)).mpr (hs.confined made hmade)
    · dsimp only at hm ⊢
      rw [List.getElem?_set] at hm
      split_ifs at hm with hnm hlt
      · obtain rfl := Option.some.inj hm
        exact ⟨(hs.works n work hn).absolute,.inr ⟨fun _ hop => absurd hop List.not_mem_nil,fun h => absurd rfl h⟩⟩
      · exact hs.works m other hm

/-- What one call does to its own request. -/
theorem WorkInv.syscall {cwd : CString} {work : ZipWork} (h : WorkInv cwd work) (ok : Bool)
    (hparents : ∀ path rest, work.ops = .createDir path :: rest → (∃ p, .chdir p ∈ rest) → path ≠ work.dst → ok = true) :
    WorkInv (enter cwd ok work.ops) { work with ops := proceed ok work.ops } ∧
      ∀ path, making ok work.ops = some path → Inside work.dst (locate cwd path) := by
  obtain ⟨dst,ops⟩ := work
  obtain ⟨habsolute,⟨before,after,hops,hbefore,hafter⟩ | ⟨hafter,hcwd⟩⟩ := h
  · dsimp only at hops hbefore hafter habsolute hparents ⊢
    subst hops
    cases before with
    | nil =>
      refine ⟨⟨habsolute,.inr ?_⟩,fun path hmaking => ?_⟩
      · cases ok with
        | true => exact ⟨hafter,fun _ => if_pos habsolute⟩
        | false => exact ⟨fun _ hop => absurd hop List.not_mem_nil,fun hne => absurd rfl hne⟩
      · cases ok <;> cases hmaking
    | cons op before =>
      obtain ⟨hop,hrest⟩ := List.forall_mem_cons.mp hbefore
      obtain ⟨path,rfl⟩ | rfl := hop
      · refine ⟨⟨habsolute,.inl ?_⟩,fun made hmaking => by cases ok <;> cases hmaking⟩
        simp only [List.cons_append,proceed]
        split_ifs with hpath
        · exact ⟨before,after,rfl,hrest,hafter⟩
        · obtain rfl : path = dst := by
            by_contra hne
            exact hpath (.inr (.inr (hparents path _ rfl ⟨dst,by simp⟩ hne)))
          cases createDirParent path with
          | none => exact ⟨before,after,rfl,hrest,hafter⟩
          | some parent =>
            refine ⟨.createDir parent :: .mkdir path :: before,after,rfl,?_,hafter⟩
            exact List.forall_mem_cons.mpr ⟨.inl ⟨parent,rfl⟩,List.forall_mem_cons.mpr ⟨.inr rfl,hrest⟩⟩
      · refine ⟨⟨habsolute,.inl ⟨before,after,rfl,hrest,hafter⟩⟩,fun made hmaking => ?_⟩
        cases ok with
        | false => cases hmaking
        | true =>
          obtain rfl : dst = made := Option.some.inj hmaking
          rw [locate,if_pos habsolute]
          exact inside_refl dst
  · dsimp only at hafter hcwd habsolute ⊢
    refine ⟨⟨habsolute,.inr ⟨keeps_proceed hafter ok,fun hne => ?_⟩⟩,fun made hmaking => ?_⟩
    · rw [enter_of_keeps hafter]
      refine hcwd ?_
      rintro rfl
      exact hne rfl
    · obtain ⟨hne,hstays⟩ := stays_of_making hafter hmaking
      rw [hcwd hne]
      exact (inside_locate_iff dst made).mpr hstays

/-- Another request is where it was, unless this call enters a directory. -/
theorem enter_other {cwd : CString} {work : ZipWork} (h : WorkInv cwd work) {ok : Bool} {other : ZipWork}
    (hothers : ∀ path rest, work.ops = .chdir path :: rest → ok = true → Extracting other → other.dst = work.dst)
    (hextracting : Extracting other) (hcwd : cwd = other.dst) : enter cwd ok work.ops = other.dst := by
  obtain ⟨habsolute,⟨before,after,hops,hbefore,-⟩ | ⟨hafter,-⟩⟩ := h
  · rw [hops]
    cases before with
    | nil =>
      cases ok with
      | true =>
        rw [hothers _ _ hops rfl hextracting]
        exact if_pos habsolute
      | false => exact hcwd
    | cons op before =>
      have hop := hbefore op List.mem_cons_self
      cases op with
      | chdir path =>
        obtain ⟨_,h⟩ | h := hop
        · cases h
        · cases h
      | _ => exact hcwd
  · rw [enter_of_keeps hafter]
    exact hcwd

theorem Inv.syscall (hs : s.Inv) (n : ℕ) (ok : Bool) (horderly : s.Orderly C (.syscall n ok)) : (s.syscall n ok).Inv := by
  unfold ZipWorkers.syscall
  cases hn : s.works[n]? with
  | none => exact hs
  | some work =>
    obtain ⟨hparents,hothers⟩ := horderly work hn
    have hwork := hs.works n work hn
    obtain ⟨hnext,hmade⟩ := hwork.syscall ok hparents
    refine ⟨fun made hmem => ?_,fun m other hm => ?_⟩
    · refine (work_set s.works n work hn _ made.1 (Inside · made.2)).mpr ?_
      obtain hmem | hmem := List.mem_append.mp hmem
      · exact hs.confined made hmem
      · obtain ⟨path,hpath,rfl⟩ := Option.map_eq_some_iff.mp (Option.mem_toList.mp hmem)
        exact ⟨work,hn,hmade path hpath⟩
    · dsimp only at hm ⊢
      rw [List.getElem?_set] at hm
      split_ifs at hm with hnm hlt
      · obtain rfl := Option.some.inj hm
        exact hnext
      · exact (hs.works m other hm).of_cwd (enter_other hwork
          (fun path rest hops hok => hothers path rest hops hok m other hm (Ne.symm hnm)))

/-- In every orderly run, all that is made for a request is in its directory, in every state. -/
theorem zip_confined (ops : List ZipLabel) (h : Transition.Guarded (step C) (Orderly C) {} ops) :
    Transition.Always (step C) Confined {} ops := by
  refine (h.always (I := Inv) (fun s op hs horderly => ?_) ?_).mono (fun _ hs => hs.confined)
  · cases op with
    | decompress pkg dstUri names => exact hs.decompress C pkg dstUri names horderly
    | syscall n ok => exact hs.syscall C n ok horderly
    | stop n => exact hs.stop n
  · exact ⟨fun _ hmade => absurd hmade List.not_mem_nil,fun _ _ hwork => by cases hwork⟩

/-- The second request is queued while the first one extracts, and enters its directory after that. -/
theorem two_requests_confined : Transition.Always (step .defaultConfig) Confined {}
    [.decompress "com.app".toList "internal://cache/d".toList [⟨['f'],[]⟩],.syscall 0 true,.syscall 0 true,
      .decompress "com.app".toList "internal://cache/e".toList [⟨['g'],[]⟩],.syscall 0 true,
      .syscall 1 true,.syscall 1 true,.syscall 1 true] := by
  obtain ⟨d,hd,hdroot⟩ : ∃ d, PathConfig.defaultConfig.appRelativeToAbsolutePath "com.app".toList
      "internal://cache/d".toList = some d ∧ d.head? = some '/' := ⟨_,rfl,rfl⟩
  obtain ⟨e,he,heroot⟩ : ∃ e, PathConfig.defaultConfig.appRelativeToAbsolutePath "com.app".toList
      "internal://cache/e".toList = some e ∧ e.head? = some '/' := ⟨_,rfl,rfl⟩
  have hname (dst : CString) (c : Char) (hc : c = 'f' ∨ c = 'g') :
      ∀ name ∈ [(⟨[c],[]⟩ : ZipName)], ∀ op ∈ ZipName.ops name, Keeps dst op := by
    have hstays : Stays dst [c] := by
      have hnone : (resolve dst).drop ((resolve dst).length - 0) <+: [[c]] := by
        rw [Nat.sub_zero,List.drop_length]
        exact List.nil_prefix
      obtain rfl | rfl := hc <;> exact hnone
    refine List.forall_mem_singleton.mpr ?_
    rw [show ZipName.ops ⟨[c],[]⟩ = [.fopen [c] none] by obtain rfl | rfl := hc <;> rfl]
    exact List.forall_mem_singleton.mpr ⟨hstays,nofun⟩
  refine zip_confined _ _ ?_
  simp only [Transition.Guarded,step,ZipWorkers.decompress,hd,he,ZipWorkers.syscall,proceed,or_true,if_true,
    List.nil_append,List.cons_append,List.getElem?_cons_zero,List.getElem?_cons_succ,List.set_cons_zero,
    List.set_cons_succ]
  refine ⟨?_,?_,?_,?_,?_,?_,?_,?_,trivial⟩
  · intro dst hdst
    obtain rfl := Option.some.inj (hd.symm.trans hdst)
    exact ⟨hdroot,hname _ 'f' (.inl rfl)⟩
  · rintro _ ⟨⟩
    exact ⟨fun _ _ _ _ _ => rfl,fun _ _ hops => by cases hops⟩
  · rintro _ ⟨⟩
    refine ⟨fun _ _ _ _ _ => rfl,fun _ _ _ _ m other hm hne => ?_⟩
    cases m with
    | zero => exact absurd rfl hne
    | succ m => cases hm
  · intro dst hdst
    obtain rfl := Option.some.inj (he.symm.trans hdst)
    exact ⟨heroot,hname _ 'g' (.inr rfl)⟩
  · rintro _ ⟨⟩
    exact ⟨fun _ _ _ _ _ => rfl,fun _ _ hops => by cases hops⟩
  · rintro _ ⟨⟩
    exact ⟨fun _ _ _ _ _ => rfl,fun _ _ hops => by cases hops⟩
  · rintro _ ⟨⟩
    refine ⟨fun _ _ _ _ _ => rfl,fun _ _ _ _ m other hm hne hextracting => ?_⟩
    obtain _ | _ | m := m
    · cases hm
      exact (hextracting.1 rfl).elim
    · exact absurd rfl hne
    · cases hm
  · rintro _ ⟨⟩
    exact ⟨fun _ _ _ _ _ => rfl,fun _ _ hops => by cases hops⟩

/-- An entry whose name climbs out of the directory. -/
theorem entry_escapes : ¬ ∀ ops, Transition.Always (step .defaultConfig) Confined {} ops := by
  intro h
  have hlast := (h [.decompress "com.app".toList "internal://cache/d".toList [⟨"../evil".toList,[]⟩],
    .syscall 0 true,.syscall 0 true,.syscall 0 true]).last
  obtain ⟨work,hwork,hinside⟩ := hlast
    (0,"/data/quickapp/cache/com.app/d/../evil".toList) (List.mem_singleton_self _)
  cases hwork
  exact absurd hinside (by unfold Inside; decide)

end ZipWorkers
end FeatureRuntime
