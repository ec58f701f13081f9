import Mathlib.Data.List.Chain
import Mathlib.Data.Nat.Notation

/-! Directories that are made one in another: what a file system promises of `access` and `mkdir`, and the making of
a list of directories in order. -/
namespace FeatureRuntime

/-- A file system as its paths see it. A new directory was not there before, stands in a directory, and changes
nothing of what was there; what else is new with it, as its own `.`, is a directory too. -/
structure DirSystem (σ : Type) where
  present : σ → List Char → Bool
  isDir : σ → List Char → Bool
  mkdir : σ → List Char → Option σ
  present_of_isDir : ∀ {s p}, isDir s p = true → present s p = true
  isDir_above : ∀ {s p q}, p ≠ [] → present s (p ++ '/' :: q) = true → isDir s p = true
  mkdir_absent : ∀ {s p s'}, mkdir s p = some s' → present s p = false
  mkdir_isDir : ∀ {s p s'}, mkdir s p = some s' → isDir s' p = true
  mkdir_keeps : ∀ {s p s' q}, mkdir s p = some s' → present s q = true → isDir s' q = isDir s q
  mkdir_only : ∀ {s p s' q}, mkdir s p = some s' → present s' q = true → present s q = false → isDir s' q = true
  mkdir_in_dir : ∀ {s p name s'}, p ≠ [] → name ≠ [] → '/' ∉ name → mkdir s (p ++ '/' :: name) = some s' →
    isDir s p = true

/-- A file system with its regular files. Making a directory touches none of them. -/
structure FileSystem (σ : Type) extends DirSystem σ where
  content : σ → List Char → Option (List UInt8)
  store : σ → List Char → List UInt8 → σ
  content_store : ∀ {s p bytes}, content (store s p bytes) p = some bytes
  content_mkdir : ∀ {s p s' q}, mkdir s p = some s' → content s' q = content s q

namespace DirSystem

section Files

variable {σ : Type} {D : DirSystem σ} {s s' : σ × (List Char → Option (List UInt8))} {p : List Char}

def withMkdir (D : DirSystem σ) (s : σ × (List Char → Option (List UInt8))) (p : List Char) :
    Option (σ × (List Char → Option (List UInt8))) :=
  (D.mkdir s.1 p).map (·,s.2)

theorem withMkdir_fst (h : D.withMkdir s p = some s') : D.mkdir s.1 p = some s'.1 := by
  obtain ⟨made,hmade,rfl⟩ := Option.map_eq_some_iff.mp h
  exact hmade

theorem withMkdir_snd (h : D.withMkdir s p = some s') : s'.2 = s.2 := by
  obtain ⟨made,-,rfl⟩ := Option.map_eq_some_iff.mp h
  rfl

def withFiles (D : DirSystem σ) : FileSystem (σ × (List Char → Option (List UInt8))) where
  present s := D.present s.1
  isDir s := D.isDir s.1
  mkdir := D.withMkdir
  present_of_isDir := D.present_of_isDir
  isDir_above := D.isDir_above
  mkdir_absent h := D.mkdir_absent (withMkdir_fst h)
  mkdir_isDir h := D.mkdir_isDir (withMkdir_fst h)
  mkdir_keeps h := D.mkdir_keeps (withMkdir_fst h)
  mkdir_only h := D.mkdir_only (withMkdir_fst h)
  mkdir_in_dir hp hname hslash h := D.mkdir_in_dir hp hname hslash (withMkdir_fst h)
  content s := s.2
  store s p bytes := (s.1,Function.update s.2 p (some bytes))
  content_store := Function.update_self _ _ _
  content_mkdir h := congrFun (withMkdir_snd h) _

end Files

end DirSystem

def NameIn (p q : List Char) : Prop := p ≠ [] ∧ ∃ name, name ≠ [] ∧ '/' ∉ name ∧ q = p ++ '/' :: name

def GoesOn (p q : List Char) : Prop := p ≠ [] ∧ ∃ rest, q = p ++ '/' :: rest

theorem NameIn.goesOn {p q : List Char} (h : NameIn p q) : GoesOn p q := by
  obtain ⟨hne,name,-,-,rfl⟩ := h
  exact ⟨hne,name,rfl⟩

theorem GoesOn.trans {p q r : List Char} (h : GoesOn p q) (h' : GoesOn q r) : GoesOn p r := by
  obtain ⟨hne,rest,rfl⟩ := h
  obtain ⟨-,rest',rfl⟩ := h'
  exact ⟨hne,rest ++ '/' :: rest',by simp⟩

theorem goesOn_getLast {p q : List Char} {ps : List (List Char)} (h : (p :: q :: ps).IsChain NameIn) :
    GoesOn p ((q :: ps).getLast (List.cons_ne_nil q ps)) := by
  induction ps generalizing p q with
  | nil => exact (List.isChain_cons_cons.mp h).1.goesOn
  | cons r ps ih =>
    obtain ⟨hname,hchain⟩ := List.isChain_cons_cons.mp h
    rw [List.getLast_cons (List.cons_ne_nil r ps)]
    exact hname.goesOn.trans (ih hchain)

namespace DirSystem

variable {σ : Type} (F : DirSystem σ)

def makes : σ → List (List Char) → Option σ
  | s, [] => some s
  | s, p :: ps =>
    if F.isDir s p then makes s ps
    else
      match F.mkdir s p with
      | none => none
      | some s => makes s ps

variable {F} {s s' : σ} {p q : List Char} {ps qs : List (List Char)}

theorem isDir_of_goesOn (h : GoesOn p q) (hpresent : F.present s q = true) : F.isDir s p = true := by
  obtain ⟨hne,rest,rfl⟩ := h
  exact F.isDir_above hne hpresent

theorem not_in_of_not_isDir (h : NameIn p q) (hdir : F.isDir s p = false) :
    F.present s q = false ∧ F.mkdir s q = none := by
  obtain ⟨hne,name,hname,hslash,rfl⟩ := h
  constructor
  · by_contra hpresent
    rw [F.isDir_above hne (by simpa using hpresent)] at hdir
    cases hdir
  · cases hmkdir : F.mkdir s (p ++ '/' :: name) with
    | none => rfl
    | some s' =>
      rw [F.mkdir_in_dir hne hname hslash hmkdir] at hdir
      cases hdir

theorem file_of_mkdir (h : F.mkdir s p = some s') (hpresent : F.present s' q = true) (hdir : F.isDir s' q = false) :
    F.present s q = true ∧ F.isDir s q = false := by
  have hbefore : F.present s q = true := by
    by_contra habsent
    rw [F.mkdir_only h hpresent (by simpa using habsent)] at hdir
    cases hdir
  exact ⟨hbefore,F.mkdir_keeps h hbefore ▸ hdir⟩

theorem makes_append : F.makes s (ps ++ qs) = (F.makes s ps).bind (fun s => F.makes s qs) := by
  induction ps generalizing s with
  | nil => rfl
  | cons p ps ih =>
    rw [List.cons_append,makes,makes]
    split_ifs
    · exact ih
    · cases F.mkdir s p with
      | none => rfl
      | some s => exact ih

theorem makes_of_isDir (h : ∀ q ∈ ps, F.isDir s q = true) : F.makes s ps = some s := by
  induction ps with
  | nil => rfl
  | cons p ps ih =>
    rw [makes,if_pos (h p List.mem_cons_self)]
    exact ih (fun q hq => h q (List.mem_cons_of_mem p hq))

theorem isDir_of_getLast (hchain : (p :: ps).IsChain NameIn)
    (h : F.isDir s ((p :: ps).getLast (List.cons_ne_nil p ps)) = true) : ∀ q ∈ p :: ps, F.isDir s q = true := by
  induction ps generalizing p with
  | nil => simpa using h
  | cons q ps ih =>
    rw [List.getLast_cons (List.cons_ne_nil q ps)] at h
    have hp : F.isDir s p = true := isDir_of_goesOn (goesOn_getLast hchain) (F.present_of_isDir h)
    exact List.forall_mem_cons.mpr ⟨hp,ih (List.isChain_cons_cons.mp hchain).2 h⟩

end DirSystem

end FeatureRuntime
