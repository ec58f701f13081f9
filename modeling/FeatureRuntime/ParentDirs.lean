import FeatureRuntime.PathTokens
import Mathlib.Data.List.Infix

/-! When `app_check_path` makes the parent directories of a path. -/
namespace FeatureRuntime

section Claim

variable {σ : Type} (F : DirSystem σ)

/-- What a call should do: success only with all ancestors there, success wherever they can be made in order, and
nothing made but ancestors. -/
structure ParentsMade (s : σ) (path : CString) (r : DirRun σ) : Prop where
  made : r.res = 0 → ∀ p ∈ ancestors path, F.isDir r.state p = true
  succeeds : (F.makes s (ancestors path)).isSome = true → r.res = 0
  only : ∀ p ∈ r.created, p ∈ ancestors path

/-- The first run of components can be gone through: it is a single one, or its first one is there. -/
def RunStarts (s : σ) : List CString → Prop
  | [] => False
  | first :: more => more = [] ∨ F.isDir s first = true

/-- When it does: the loop never looks at the first of several components, stops at a doubled slash, takes a file for
a directory and has no answer of its own for a path right below the root. -/
def ParentsCheckable (allocates : Bool) (s : σ) (path : CString) : Prop :=
  if allocates = false then F.makes s (ancestors path) = none
  else F.present s path = true ∨ '/' ∉ path ∨
    ((F.makes s (ancestors path)).isSome = true → RunStarts F s (firstRun path)) ∧
    (∀ p ∈ (firstRun path).getLast?, F.present s p = true → F.isDir s p = true) ∧
    (RunStarts F s (firstRun path) → ∀ s', F.makes s (firstRun path) = some s' →
      ∀ p ∈ (ancestors path).getLast?, F.isDir s' p = true)

end Claim

section Ancestors

theorem firstRun_prefix (text rest : CString) : componentsFrom true text rest <+: componentsFrom false text rest := by
  induction rest generalizing text with
  | nil => exact List.prefix_rfl
  | cons c rest ih =>
    rw [componentsFrom,componentsFrom]
    by_cases hname : c = '/' ∧ EndsName text
    · have hwhole : ¬(false = true ∧ rest.head? = some '/') := by simp
      rw [if_pos hname,if_pos hname,if_neg hwhole,List.prefix_cons_inj]
      split_ifs
      · exact List.nil_prefix
      · exact ih _
    · rw [if_neg hname,if_neg hname]
      exact ih _

theorem text_prefix {run : Bool} {text rest q : CString} (h : q ∈ componentsFrom run text rest) : text <+: q := by
  induction rest generalizing text with
  | nil => cases h
  | cons c rest ih =>
    have hstep : text <+: text ++ [c] := List.prefix_append _ _
    rw [componentsFrom] at h
    split_ifs at h
    · obtain rfl := List.mem_singleton.mp h
      exact List.prefix_rfl
    · obtain rfl | h := List.mem_cons.mp h
      · exact List.prefix_rfl
      · exact hstep.trans (ih h)
    · exact hstep.trans (ih h)

theorem ancestors_pairwise (text rest : CString) : (componentsFrom false text rest).Pairwise GoesOn := by
  induction rest generalizing text with
  | nil => exact List.Pairwise.nil
  | cons c rest ih =>
    rw [componentsFrom]
    split_ifs with hname hdoubled
    · exact List.pairwise_singleton _ _
    · refine List.pairwise_cons.mpr ⟨?_,ih _⟩
      intro q hq
      obtain ⟨more,rfl⟩ := text_prefix hq
      exact ⟨hname.2.1,more,by rw [hname.1]; simp⟩
    · exact ih _

theorem chain_below {p token rest : CString} (hp : p ≠ []) (hname : '/' ∉ token)
    (hsingle : token = [] → rest.head? ≠ some '/') :
    (p :: componentsFrom true (p ++ '/' :: token) rest).IsChain NameIn := by
  induction rest generalizing p token with
  | nil => exact List.isChain_singleton p
  | cons c rest ih =>
    rw [componentsFrom]
    by_cases hc : c = '/'
    · have hne : token ≠ [] := fun hnil => hsingle hnil (congrArg some hc)
      have hends : EndsName (p ++ '/' :: token) := by
        have happend := endsName_append (p ++ ['/']) hne hname
        rwa [List.append_assoc,List.singleton_append] at happend
      have hin : NameIn p (p ++ '/' :: token) := ⟨hp,token,hne,hname,rfl⟩
      rw [if_pos ⟨hc,hends⟩]
      split_ifs with hdoubled
      · exact List.isChain_cons_cons.mpr ⟨hin,List.isChain_singleton _⟩
      · refine List.isChain_cons_cons.mpr ⟨hin,?_⟩
        rw [hc]
        exact ih (by simp) (by simp) (fun _ hhead => hdoubled ⟨rfl,hhead⟩)
    · have hnext : '/' ∉ token ++ [c] := by simp [hname,Ne.symm hc]
      rw [if_neg (fun h => hc h.1),List.append_assoc,List.cons_append]
      exact ih hp hnext (by simp)

theorem firstRun_chain (text rest : CString) : (componentsFrom true text rest).IsChain NameIn := by
  induction rest generalizing text with
  | nil => exact List.isChain_nil
  | cons c rest ih =>
    rw [componentsFrom]
    split_ifs with hname hdoubled
    · exact List.isChain_singleton text
    · rw [hname.1]
      exact chain_below hname.2.1 (by simp) (fun _ hhead => hdoubled ⟨rfl,hhead⟩)
    · exact ih _

theorem goesOn_path {text rest p : CString} (h : p ∈ componentsFrom false text rest) : GoesOn p (text ++ rest) := by
  induction rest generalizing text with
  | nil => cases h
  | cons c rest ih =>
    have happend : text ++ c :: rest = text ++ [c] ++ rest := by simp
    have hwhole : ¬(false = true ∧ rest.head? = some '/') := by simp
    rw [componentsFrom] at h
    by_cases hname : c = '/' ∧ EndsName text
    · rw [if_pos hname,if_neg hwhole] at h
      obtain rfl | h := List.mem_cons.mp h
      · exact ⟨hname.2.1,rest,by rw [hname.1]⟩
      · rw [happend]
        exact ih h
    · rw [if_neg hname] at h
      rw [happend]
      exact ih h

theorem ancestors_eq_nil {text rest : CString} (h : componentsFrom true text rest = []) :
    componentsFrom false text rest = [] := by
  induction rest generalizing text with
  | nil => rfl
  | cons c rest ih =>
    rw [componentsFrom] at h ⊢
    by_cases hname : c = '/' ∧ EndsName text
    · rw [if_pos hname] at h
      cases h
    · rw [if_neg hname] at h ⊢
      exact ih h

end Ancestors

section Rounds

variable {σ : Type} {F : DirSystem σ} {p : CString} {ps : List CString} {r : DirRun σ}

theorem rounds_blocked (hchain : (p :: ps).IsChain NameIn) (hdir : F.isDir r.state p = false) :
    ps.foldl (ensureDir F) r = { r with res := if ps = [] then r.res else -1 } := by
  induction ps generalizing p r with
  | nil => rfl
  | cons q ps ih =>
    obtain ⟨hname,htail⟩ := List.isChain_cons_cons.mp hchain
    obtain ⟨habsent,hnone⟩ := DirSystem.not_in_of_not_isDir hname hdir
    have hround : ensureDir F r q = { r with res := -1 } := by simp [ensureDir,habsent,hnone]
    have hqdir : F.isDir r.state q = false := by
      by_contra hq
      rw [F.present_of_isDir (by simpa using hq)] at habsent
      cases habsent
    rw [List.foldl_cons,hround,ih (r := { r with res := -1 }) htail hqdir]
    simp

theorem rounds_made {s' : σ} (hne : ps ≠ []) (h : F.makes r.state ps = some s') :
    (ps.foldl (ensureDir F) r).state = s' ∧ (ps.foldl (ensureDir F) r).res = 0 := by
  induction ps generalizing r with
  | nil => exact absurd rfl hne
  | cons p ps ih =>
    rw [DirSystem.makes] at h
    rw [List.foldl_cons]
    split_ifs at h with hdir
    · have hround : ensureDir F r p = { r with res := 0 } := by simp [ensureDir,F.present_of_isDir hdir]
      rw [hround]
      cases ps with
      | nil => exact ⟨Option.some.inj h,rfl⟩
      | cons q ps => exact ih (List.cons_ne_nil q ps) h
    · cases hmkdir : F.mkdir r.state p with
      | none => simp [hmkdir] at h
      | some s =>
        rw [hmkdir] at h
        have hround : ensureDir F r p = ⟨s,r.created ++ [p],0⟩ := by simp [ensureDir,F.mkdir_absent hmkdir,hmkdir]
        rw [hround]
        cases ps with
        | nil => exact ⟨Option.some.inj h,rfl⟩
        | cons q ps => exact ih (List.cons_ne_nil q ps) h

/-- Where they cannot be made, the rounds end well just if the last one is there as a file. -/
theorem rounds_failed (hchain : (p :: ps).IsChain NameIn) (h : F.makes r.state (p :: ps) = none) :
    F.isDir ((p :: ps).foldl (ensureDir F) r).state ((p :: ps).getLast (List.cons_ne_nil p ps)) = false ∧
      (((p :: ps).foldl (ensureDir F) r).res = 0 ↔
        F.present r.state ((p :: ps).getLast (List.cons_ne_nil p ps)) = true) := by
  induction ps generalizing p r with
  | nil =>
    simp only [DirSystem.makes] at h
    split_ifs at h with hdir
    cases hmkdir : F.mkdir r.state p with
    | some s => simp [hmkdir] at h
    | none =>
      by_cases hpresent : F.present r.state p = true
      · simp [ensureDir,hpresent,hdir]
      · simp [ensureDir,hpresent,hmkdir,hdir]
  | cons q ps ih =>
    obtain ⟨hname,htail⟩ := List.isChain_cons_cons.mp hchain
    have habove := goesOn_getLast hchain
    rw [List.getLast_cons (List.cons_ne_nil q ps),List.foldl_cons]
    rw [DirSystem.makes] at h
    split_ifs at h with hdir
    · have hround : ensureDir F r p = { r with res := 0 } := by simp [ensureDir,F.present_of_isDir hdir]
      rw [hround]
      exact ih (r := { r with res := 0 }) htail h
    · have hnot : F.isDir r.state p = false := by simpa using hdir
      have habsent : F.present r.state ((q :: ps).getLast (List.cons_ne_nil q ps)) = false := by
        by_contra hpresent
        rw [DirSystem.isDir_of_goesOn habove (by simpa using hpresent)] at hnot
        cases hnot
      cases hmkdir : F.mkdir r.state p with
      | none =>
        have hsame : (ensureDir F r p).state = r.state := by
          by_cases hpresent : F.present r.state p = true <;> simp [ensureDir,hpresent,hmkdir]
        have hblocked := rounds_blocked hchain (r := ensureDir F r p) (by rw [hsame]; exact hnot)
        rw [hblocked,hsame]
        refine ⟨?_,by simp [habsent]⟩
        by_contra hlastdir
        rw [F.present_of_isDir (by simpa using hlastdir)] at habsent
        cases habsent
      | some s =>
        have hrest : F.makes s (q :: ps) = none := by simpa only [hmkdir] using h
        have hround : ensureDir F r p = ⟨s,r.created ++ [p],0⟩ := by simp [ensureDir,F.mkdir_absent hmkdir,hmkdir]
        rw [hround]
        obtain ⟨hfinal,hres⟩ := ih (r := ⟨s,r.created ++ [p],0⟩) htail hrest
        refine ⟨hfinal,hres.trans ?_⟩
        rw [habsent]
        simp only [Bool.false_eq_true,iff_false]
        intro hpresent
        have hnotdir : F.isDir s ((q :: ps).getLast (List.cons_ne_nil q ps)) = false := by
          by_contra hlastdir
          have hall := DirSystem.isDir_of_getLast htail (by simpa using hlastdir)
          rw [DirSystem.makes_of_isDir hall] at hrest
          cases hrest
        have hbefore := DirSystem.file_of_mkdir hmkdir hpresent hnotdir
        rw [hbefore.1] at habsent
        cases habsent

theorem mem_created {q : CString} (h : q ∈ (ps.foldl (ensureDir F) r).created) : q ∈ r.created ∨ q ∈ ps := by
  induction ps generalizing r with
  | nil => exact .inl h
  | cons p ps ih =>
    obtain hq | hq := ih h
    · unfold ensureDir at hq
      split_ifs at hq
      · exact .inl hq
      · cases hmkdir : F.mkdir r.state p with
        | none =>
          rw [hmkdir] at hq
          exact .inl hq
        | some s =>
          rw [hmkdir] at hq
          obtain hq | hq := List.mem_append.mp hq
          · exact .inl hq
          · exact .inr (List.mem_singleton.mp hq ▸ List.mem_cons_self)
    · exact .inr (List.mem_cons_of_mem p hq)

theorem isDir_of_makes {s s' : σ} (hchain : (p :: ps).IsChain NameIn) (h : F.makes s (p :: ps) = some s')
    (hpresent : F.present s ((p :: ps).getLast (List.cons_ne_nil p ps)) = true) :
    F.isDir s ((p :: ps).getLast (List.cons_ne_nil p ps)) = true := by
  induction ps generalizing p with
  | nil =>
    rw [DirSystem.makes] at h
    split_ifs at h with hdir
    · exact hdir
    · cases hmkdir : F.mkdir s p with
      | none => simp [hmkdir] at h
      | some s1 =>
        have habsent := F.mkdir_absent hmkdir
        rw [show F.present s p = true from hpresent] at habsent
        cases habsent
  | cons q ps ih =>
    obtain ⟨hname,htail⟩ := List.isChain_cons_cons.mp hchain
    rw [List.getLast_cons (List.cons_ne_nil q ps)] at hpresent ⊢
    have hp : F.isDir s p = true := DirSystem.isDir_of_goesOn (goesOn_getLast hchain) hpresent
    rw [DirSystem.makes,if_pos hp] at h
    exact ih htail h hpresent

theorem ancestors_isDir_iff {s : σ} (path : CString) : (∀ q ∈ ancestors path, F.isDir s q = true) ↔
    ∀ q ∈ (ancestors path).getLast?, F.isDir s q = true := by
  constructor
  · intro h q hq
    exact h q (List.mem_of_getLast? hq)
  · intro h q hq
    have hne := List.ne_nil_of_mem hq
    have hpairwise := ancestors_pairwise [] path
    change (ancestors path).Pairwise GoesOn at hpairwise
    have hlast := h _ (List.getLast?_eq_some_getLast hne)
    rw [← List.dropLast_append_getLast hne] at hq hpairwise
    obtain hq | hq := List.mem_append.mp hq
    · have habove := (List.pairwise_append.mp hpairwise).2.2 q hq _ (List.mem_singleton_self _)
      exact DirSystem.isDir_of_goesOn habove (F.present_of_isDir hlast)
    · rwa [List.mem_singleton.mp hq]

/-- The rounds of a run that can be gone through, as those of a chain. -/
theorem rounds_of_starts {s : σ} {first : CString} {more : List CString} (hchain : (first :: more).IsChain NameIn)
    (h : RunStarts F s (first :: more)) : ∃ q qs, (q :: qs).IsChain NameIn ∧ (match first :: more with
        | [] => ⟨s,[],-1⟩
        | [first] => ensureDir F ⟨s,[],-1⟩ first
        | _ :: more => more.foldl (ensureDir F) ⟨s,[],-1⟩) = (q :: qs).foldl (ensureDir F) ⟨s,[],-1⟩ ∧
      F.makes s (q :: qs) = F.makes s (first :: more) ∧ (q :: qs) ⊆ first :: more ∧
      (q :: qs).getLast (List.cons_ne_nil q qs) = (first :: more).getLast (List.cons_ne_nil first more) := by
  cases more with
  | nil => exact ⟨first,[],hchain,rfl,rfl,List.Subset.refl _,rfl⟩
  | cons next others =>
    have hdir : F.isDir s first = true := by
      obtain hnil | hdir := h
      · cases hnil
      · exact hdir
    refine ⟨next,others,(List.isChain_cons_cons.mp hchain).2,rfl,?_,List.subset_cons_self _ _,?_⟩
    · have hskip : F.makes s (first :: next :: others) = F.makes s (next :: others) := by
        rw [DirSystem.makes,if_pos hdir]
      exact hskip.symm
    · rw [List.getLast_cons (List.cons_ne_nil next others)]

theorem parentsMade_run_iff {s : σ} {path : CString} {first : CString} {more : List CString}
    (hrun : firstRun path = first :: more) : ParentsMade F s path (match first :: more with
        | [] => ⟨s,[],-1⟩
        | [first] => ensureDir F ⟨s,[],-1⟩ first
        | _ :: more => more.foldl (ensureDir F) ⟨s,[],-1⟩) ↔
    ((F.makes s (ancestors path)).isSome = true → RunStarts F s (first :: more)) ∧
    (∀ p ∈ (first :: more).getLast?, F.present s p = true → F.isDir s p = true) ∧
    (RunStarts F s (first :: more) → ∀ s', F.makes s (first :: more) = some s' →
      ∀ p ∈ (ancestors path).getLast?, F.isDir s' p = true) := by
  have hchain : (first :: more).IsChain NameIn := hrun ▸ firstRun_chain [] path
  obtain ⟨others,hothers⟩ : first :: more <+: ancestors path := hrun ▸ firstRun_prefix [] path
  have hsubset : ∀ p ∈ first :: more, p ∈ ancestors path := fun p hp => hothers ▸ List.mem_append_left _ hp
  have hmakes : F.makes s (first :: more) = none → F.makes s (ancestors path) = none := by
    intro h
    rw [← hothers,DirSystem.makes_append,h]
    rfl
  rw [List.getLast?_eq_some_getLast (List.cons_ne_nil first more)]
  simp only [Option.mem_some_iff,forall_eq']
  by_cases hstarts : RunStarts F s (first :: more)
  · obtain ⟨q,qs,hqchain,hrounds,hqmakes,hqsubset,hqlast⟩ := rounds_of_starts hchain hstarts
    rw [hrounds]
    have honly : ∀ p ∈ ((q :: qs).foldl (ensureDir F) (⟨s,[],-1⟩ : DirRun σ)).created, p ∈ ancestors path := by
      intro p hp
      obtain hp | hp := mem_created hp
      · cases hp
      · exact hsubset p (hqsubset hp)
    cases hmade : F.makes s (first :: more) with
    | some s' =>
      obtain ⟨hstate,hres⟩ := rounds_made (r := ⟨s,[],-1⟩) (List.cons_ne_nil q qs) (hqmakes.trans hmade)
      constructor
      · intro h
        refine ⟨fun _ => hstarts,isDir_of_makes hchain hmade,fun _ s'' hs'' => ?_⟩
        obtain rfl := Option.some.inj hs''
        have hall := h.made hres
        rw [hstate] at hall
        exact (ancestors_isDir_iff path).mp hall
      · rintro ⟨-,-,hlast⟩
        refine ⟨fun _ => ?_,fun _ => hres,honly⟩
        rw [hstate]
        exact (ancestors_isDir_iff path).mpr (hlast hstarts s' rfl)
    | none =>
      obtain ⟨hfinal,hres⟩ := rounds_failed (r := ⟨s,[],-1⟩) hqchain (hqmakes.trans hmade)
      rw [hqlast] at hfinal hres
      have hlastmem := hsubset _ (List.getLast_mem (List.cons_ne_nil first more))
      have hnotdir : F.isDir s ((first :: more).getLast (List.cons_ne_nil first more)) ≠ true := by
        intro hdir
        rw [DirSystem.makes_of_isDir (DirSystem.isDir_of_getLast hchain hdir)] at hmade
        cases hmade
      constructor
      · intro h
        refine ⟨fun _ => hstarts,fun hpresent => ?_,fun _ s' hs' => by cases hs'⟩
        have hdir := h.made (hres.mpr hpresent) _ hlastmem
        rw [hfinal] at hdir
        cases hdir
      · rintro ⟨-,hfile,-⟩
        refine ⟨fun hzero => absurd (hfile (hres.mp hzero)) hnotdir,fun hsome => ?_,honly⟩
        rw [hmakes hmade] at hsome
        cases hsome
  · obtain ⟨next,tail,rfl⟩ : ∃ next tail, more = next :: tail := by
      cases more with
      | nil => exact absurd (.inl rfl) hstarts
      | cons next tail => exact ⟨next,tail,rfl⟩
    have hdir : F.isDir s first = false := by simpa using fun h => hstarts (.inr h)
    have hblocked := rounds_blocked (r := (⟨s,[],-1⟩ : DirRun σ)) hchain hdir
    constructor
    · intro h
      refine ⟨fun hsome => ?_,fun hpresent => ?_,fun h' => absurd h' hstarts⟩
      · have hzero : ((next :: tail).foldl (ensureDir F) (⟨s,[],-1⟩ : DirRun σ)).res = 0 := h.succeeds hsome
        rw [hblocked] at hzero
        simp at hzero
      · rw [List.getLast_cons (List.cons_ne_nil next tail)] at hpresent
        rw [DirSystem.isDir_of_goesOn (goesOn_getLast hchain) hpresent] at hdir
        cases hdir
    · rintro ⟨hsucceeds,-,-⟩
      refine ⟨?_,fun hsome => absurd (hsucceeds hsome) hstarts,?_⟩
      · intro hzero
        change ((next :: tail).foldl (ensureDir F) (⟨s,[],-1⟩ : DirRun σ)).res = 0 at hzero
        rw [hblocked] at hzero
        simp at hzero
      · intro p hp
        change p ∈ ((next :: tail).foldl (ensureDir F) (⟨s,[],-1⟩ : DirRun σ)).created at hp
        rw [hblocked] at hp
        cases hp

/-- `app_check_path` does what it should exactly on these paths. -/
theorem parentsMade_iff (F : DirSystem σ) (allocates : Bool) (s : σ) (path : CString) :
    ParentsMade F s path (appCheckPath F allocates s path) ↔ ParentsCheckable F allocates s path := by
  cases allocates with
  | false =>
    rw [ParentsCheckable,if_pos rfl]
    have hnomem : (-enomem : ℤ) ≠ 0 := by decide
    constructor
    · intro h
      by_contra hmakes
      exact hnomem (h.succeeds (Option.isSome_iff_ne_none.mpr hmakes))
    · intro hmakes
      refine ⟨fun hzero => absurd hzero hnomem,fun hsome => ?_,by simp [appCheckPath]⟩
      rw [hmakes] at hsome
      cases hsome
  | true =>
    rw [ParentsCheckable,if_neg (by simp)]
    by_cases hpresent : F.present s path = true
    · refine iff_of_true ?_ (.inl hpresent)
      rw [appCheckPath,if_neg (by simp),if_pos hpresent]
      refine ⟨fun _ p hp => ?_,fun _ => rfl,by simp⟩
      exact DirSystem.isDir_of_goesOn (goesOn_path hp) hpresent
    · by_cases hslash : '/' ∈ path
      · rw [appCheckPath_run (by simpa using hpresent) hslash]
        simp only [hpresent,hslash,not_true_eq_false,false_or,Bool.false_eq_true]
        cases hrun : firstRun path with
        | cons first more => exact parentsMade_run_iff hrun
        | nil =>
          have hnil : ancestors path = [] := ancestors_eq_nil hrun
          have hmade : (F.makes s (ancestors path)).isSome = true := by
            rw [hnil]
            rfl
          refine iff_of_false ?_ (fun h => h.1 hmade)
          intro h
          have hzero : (-1 : ℤ) = 0 := h.succeeds hmade
          exact absurd hzero (by decide)
      · have hnil : ancestors path = [] := by
          have hname := @componentsFrom_name false path [] [] hslash
          rw [List.append_nil] at hname
          exact hname
        refine iff_of_true ?_ (.inr (.inl hslash))
        rw [appCheckPath,if_neg (by simp),if_neg hpresent,if_pos hslash]
        refine ⟨?_,fun _ => rfl,by simp⟩
        rw [hnil]
        simp

end Rounds

/-! A file system without files, links and dots, whose working directory is the root. -/

section Flat

def pathNames (p : CString) : List CString := (p.splitOn '/').filter (· ≠ [])

def FrontsMade (s : List (List CString)) (names : List CString) : Prop := ∀ front ∈ names.inits, front = [] ∨ front ∈ s

instance (s : List (List CString)) (names : List CString) : Decidable (FrontsMade s names) :=
  inferInstanceAs (Decidable (∀ front ∈ names.inits, _))

def flatIsDir (s : List (List CString)) (p : CString) : Bool := p ≠ [] ∧ FrontsMade s (pathNames p)

def flatMkdir (s : List (List CString)) (p : CString) : Option (List (List CString)) :=
  if flatIsDir s p = false ∧ p ≠ [] ∧ FrontsMade s (pathNames p).dropLast then some (pathNames p :: s) else none

variable {s s' : List (List CString)} {p q name : CString} {names more : List CString}

theorem pathNames_append : pathNames (p ++ '/' :: q) = pathNames p ++ pathNames q := by
  rw [pathNames,List.splitOn_append_cons_self,List.filter_append]
  rfl

theorem pathNames_name (hne : name ≠ []) (h : '/' ∉ name) : pathNames name = [name] := by
  rw [pathNames,List.splitOn_eq_singleton h]
  simp [hne]

theorem FrontsMade.of_append (h : FrontsMade s (names ++ more)) : FrontsMade s names := by
  intro front hfront
  rw [List.mem_inits] at hfront
  exact h front ((List.mem_inits _ _).mpr (hfront.trans (List.prefix_append _ _)))

theorem FrontsMade.cons (h : FrontsMade s names) : FrontsMade (more :: s) names := by
  intro front hfront
  exact (h front hfront).imp_right (List.mem_cons_of_mem more)

theorem FrontsMade.of_dropLast (h : FrontsMade s names.dropLast) : FrontsMade (names :: s) names := by
  intro front hfront
  rw [List.mem_inits] at hfront
  rcases List.eq_nil_or_concat names with rfl | ⟨init,last,rfl⟩
  · exact .inl (List.prefix_nil.mp hfront)
  · rw [List.concat_eq_append,List.dropLast_concat] at h
    rw [List.concat_eq_append] at hfront ⊢
    obtain rfl | hfront := List.prefix_concat_iff.mp hfront
    · exact .inr List.mem_cons_self
    · exact (h front ((List.mem_inits _ _).mpr hfront)).imp_right (List.mem_cons_of_mem _)

theorem flatIsDir_iff : flatIsDir s p = true ↔ p ≠ [] ∧ FrontsMade s (pathNames p) := by simp [flatIsDir]

theorem flatMkdir_iff : flatMkdir s p = some s' ↔
    flatIsDir s p = false ∧ p ≠ [] ∧ FrontsMade s (pathNames p).dropLast ∧ s' = pathNames p :: s := by
  unfold flatMkdir
  split_ifs with h
  · simp [h,eq_comm]
  · refine iff_of_false (by simp) ?_
    rintro ⟨h1,h2,h3,-⟩
    exact h ⟨h1,h2,h3⟩

theorem flatIsDir_mkdir (h : flatMkdir s p = some s') (hq : flatIsDir s q = true) : flatIsDir s' q = true := by
  obtain ⟨-,-,-,rfl⟩ := flatMkdir_iff.mp h
  rw [flatIsDir_iff] at hq ⊢
  exact ⟨hq.1,hq.2.cons⟩

theorem flatIsDir_above (hne : p ≠ []) (h : flatIsDir s (p ++ '/' :: q) = true) : flatIsDir s p = true := by
  rw [flatIsDir_iff,pathNames_append] at h
  exact flatIsDir_iff.mpr ⟨hne,h.2.of_append⟩

theorem flatIsDir_new (h : flatMkdir s p = some s') : flatIsDir s' p = true := by
  obtain ⟨-,hne,hreached,rfl⟩ := flatMkdir_iff.mp h
  exact flatIsDir_iff.mpr ⟨hne,hreached.of_dropLast⟩

theorem flatMkdir_in_dir (hne : p ≠ []) (hname : name ≠ []) (hslash : '/' ∉ name)
    (h : flatMkdir s (p ++ '/' :: name) = some s') : flatIsDir s p = true := by
  obtain ⟨-,-,hreached,-⟩ := flatMkdir_iff.mp h
  rw [pathNames_append,pathNames_name hname hslash,List.dropLast_concat] at hreached
  exact flatIsDir_iff.mpr ⟨hne,hreached⟩

def flatDirs : DirSystem (List (List CString)) where
  present := flatIsDir
  isDir := flatIsDir
  mkdir := flatMkdir
  present_of_isDir := id
  isDir_above := flatIsDir_above
  mkdir_absent h := (flatMkdir_iff.mp h).1
  mkdir_isDir := flatIsDir_new
  mkdir_keeps h hq := (flatIsDir_mkdir h hq).trans hq.symm
  mkdir_only _ hq _ := hq
  mkdir_in_dir := flatMkdir_in_dir

/-- In an empty file system the directories `/a` and `/a/b` could be made, and none is. -/
theorem first_component_not_made : ¬ParentsMade flatDirs [] "/a/b/c".toList (appCheckPath flatDirs true [] "/a/b/c".toList) := by
  intro h
  have hmakes : (flatDirs.makes [] (ancestors "/a/b/c".toList)).isSome = true := by decide
  have hzero := h.succeeds hmakes
  rw [appCheckPath_run (by decide) (by decide)] at hzero
  revert hzero
  decide

end Flat

end FeatureRuntime
