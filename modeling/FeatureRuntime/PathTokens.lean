import FeatureRuntime.AppPath
import FeatureRuntime.DirChain
import Mathlib.Data.List.TakeWhile

/-! `app_check_path`: the walk of `strtok_r` through the components of a path, with a directory made in each round. -/
namespace FeatureRuntime

/-- The copy of the path while `strtok_r` cuts it up: the part before the saved pointer, where a terminator is
`none`, and the part after it, which is as it was. -/
structure TokenBuffer where
  front : List (Option Char)
  rest : CString

namespace TokenBuffer

/-- `data` as a string. -/
def text (b : TokenBuffer) : CString := ((b.front ++ b.rest.map some).takeWhile Option.isSome).filterMap id

/-- `strtok_r` with the delimiter `/`: the position of the token, if there is one. -/
def strtokR (b : TokenBuffer) : Option ℕ × TokenBuffer :=
  let slashes := b.rest.takeWhile (· = '/')
  let body := b.rest.dropWhile (· = '/')
  if body = [] then (none,⟨b.front ++ slashes.map some,[]⟩)
  else
    let token := body.takeWhile (· ≠ '/')
    let front := b.front ++ (slashes ++ token).map some
    match body.dropWhile (· ≠ '/') with
    | [] => (some (b.front.length + slashes.length),⟨front,[]⟩)
    | _ :: rest => (some (b.front.length + slashes.length),⟨front ++ [none],rest⟩)

/-- `*(token - 1) = '/'`. -/
def restore (b : TokenBuffer) (token : ℕ) : TokenBuffer := { b with front := b.front.set (token - 1) (some '/') }

theorem length_strtokR {b : TokenBuffer} {token : ℕ} (h : b.strtokR.1 = some token) :
    b.strtokR.2.rest.length < b.rest.length := by
  unfold strtokR at h ⊢
  dsimp only at h ⊢
  have hbody := (List.dropWhile_sublist (fun c => decide (c = '/')) (l := b.rest)).length_le
  split_ifs at h ⊢ with hnil
  have hpos := List.length_pos_iff.mpr hnil
  cases htail : (b.rest.dropWhile (· = '/')).dropWhile (· ≠ '/') with
  | nil =>
    simp only
    simp only [List.length_nil]
    omega
  | cons c rest =>
    have hle := (List.dropWhile_sublist (fun c => decide (c ≠ '/')) (l := b.rest.dropWhile (· = '/'))).length_le
    rw [htail] at hle
    simp only [List.length_cons] at hle
    simp only
    omega

end TokenBuffer

/-- A call under way: the file system, the directories that it has made, and `res`. -/
structure DirRun (σ : Type) where
  state : σ
  created : List CString
  res : ℤ

def enomem : ℤ := 12

section Check

variable {σ : Type} (F : DirSystem σ)

/-- One round of the loop: `access` and, where it fails, `mkdir`. -/
def ensureDir (r : DirRun σ) (data : CString) : DirRun σ :=
  if F.present r.state data then { r with res := 0 }
  else
    match F.mkdir r.state data with
    | none => { r with res := -1 }
    | some s => ⟨s,r.created ++ [data],0⟩

def tokenLoop (b : TokenBuffer) (r : DirRun σ) : DirRun σ :=
  match _h : b.strtokR.1 with
  | none => ensureDir F r b.strtokR.2.text
  | some token => tokenLoop (b.strtokR.2.restore token) (ensureDir F r (b.strtokR.2.restore token).text)
termination_by b.rest.length
decreasing_by exact TokenBuffer.length_strtokR ‹_›

def beforeLastSlash (path : CString) : CString := ((path.reverse.dropWhile (· ≠ '/')).drop 1).reverse

/-- `app_check_path`; `allocates` tells whether `malloc` succeeds. -/
def appCheckPath (allocates : Bool) (s : σ) (path : CString) : DirRun σ :=
  if !allocates then ⟨s,[],-enomem⟩
  else if F.present s path then ⟨s,[],0⟩
  else if '/' ∉ path then ⟨s,[],0⟩
  else
    let first := TokenBuffer.strtokR ⟨[],beforeLastSlash path⟩
    match first.1 with
    | none => ⟨s,[],-1⟩
    | some _ => tokenLoop F first.2 ⟨s,[],-1⟩

end Check

/-! The ancestors of a path. -/

def EndsName (text : CString) : Prop := text ≠ [] ∧ text.getLast? ≠ some '/'

instance (text : CString) : Decidable (EndsName text) := inferInstanceAs (Decidable (_ ∧ _))

/-- The directories that a path names on its way, one for each component that a slash follows; of the first run only
those before a doubled slash. -/
def componentsFrom (firstRun : Bool) : CString → CString → List CString
  | _,[] => []
  | text,c :: rest =>
    if c = '/' ∧ EndsName text then
      text :: (if firstRun ∧ rest.head? = some '/' then [] else componentsFrom firstRun (text ++ [c]) rest)
    else componentsFrom firstRun (text ++ [c]) rest

def ancestors (path : CString) : List CString := componentsFrom false [] path

def firstRun (path : CString) : List CString := componentsFrom true [] path

section Scanning

variable {run : Bool} {token slashes : CString}

theorem componentsFrom_name (text rest : CString) (h : '/' ∉ token) :
    componentsFrom run text (token ++ rest) = componentsFrom run (text ++ token) rest := by
  induction token generalizing text with
  | nil => simp
  | cons c token ih =>
    rw [List.mem_cons,not_or] at h
    rw [List.cons_append,componentsFrom,if_neg (fun hc => h.1 hc.1.symm),ih _ h.2,List.append_assoc,
      List.singleton_append]

theorem not_endsName_slashes (h : ∀ c ∈ slashes, c = '/') : ¬EndsName slashes := by
  rintro ⟨hne,hlast⟩
  rw [List.getLast?_eq_some_getLast hne] at hlast
  exact hlast (congrArg some (h _ (List.getLast_mem hne)))

variable {text : CString}

theorem componentsFrom_slashes (rest : CString) (htext : ∀ c ∈ text, c = '/')
    (h : ∀ c ∈ slashes, c = '/') : componentsFrom run text (slashes ++ rest) = componentsFrom run (text ++ slashes) rest := by
  induction slashes generalizing text with
  | nil => simp
  | cons c slashes ih =>
    rw [List.forall_mem_cons] at h
    have hnext : ∀ d ∈ text ++ [c], d = '/' := by
      intro d hd
      obtain hd | hd := List.mem_append.mp hd
      · exact htext d hd
      · exact (List.mem_singleton.mp hd).trans h.1
    rw [List.cons_append,componentsFrom,if_neg (fun hc => not_endsName_slashes htext hc.2),ih hnext h.2,
      List.append_assoc,List.singleton_append]

theorem endsName_append (text : CString) (hne : token ≠ []) (h : '/' ∉ token) : EndsName (text ++ token) := by
  refine ⟨by simp [hne],?_⟩
  rw [List.getLast?_append_of_ne_nil _ hne,List.getLast?_eq_some_getLast hne]
  intro hlast
  exact h (Option.some.inj hlast ▸ List.getLast_mem hne)

def componentsBelow (run : Bool) (text rest : CString) : List CString :=
  if run ∧ rest.head? = some '/' then [] else componentsFrom run (text ++ ['/']) rest

theorem componentsFrom_slash (rest : CString) (h : EndsName text) :
    componentsFrom run text ('/' :: rest) = text :: componentsBelow run text rest := by
  rw [componentsFrom,if_pos ⟨rfl,h⟩]
  rfl

theorem head_name (rest : CString) (hne : token ≠ []) (h : '/' ∉ token) : (token ++ rest).head? ≠ some '/' := by
  cases token with
  | nil => exact absurd rfl hne
  | cons c token =>
    rw [List.mem_cons,not_or] at h
    simpa using Ne.symm h.1

theorem componentsBelow_name (text rest : CString) (hne : token ≠ []) (h : '/' ∉ token) :
    componentsBelow run text (token ++ '/' :: rest) =
      (text ++ '/' :: token) :: componentsBelow run (text ++ '/' :: token) rest := by
  have hname := @componentsFrom_name run token (text ++ ['/']) ('/' :: rest) h
  have hends := endsName_append (text ++ ['/']) hne h
  rw [List.append_assoc,List.singleton_append] at hname hends
  rw [componentsBelow,if_neg (fun hc => head_name _ hne h hc.2),hname,componentsFrom_slash rest hends]

theorem componentsBelow_nil (text : CString) {rest : CString} (h : '/' ∉ rest) : componentsBelow run text rest = [] := by
  rw [componentsBelow]
  split_ifs
  · rfl
  · have hname := @componentsFrom_name run rest (text ++ ['/']) [] h
    rw [List.append_nil] at hname
    rw [hname]
    rfl

theorem eq_slash_of_mem {c : Char} (h : c ∈ text.takeWhile (· = '/')) : c = '/' := by
  simpa using List.mem_takeWhile_imp h

theorem slash_notMem_takeWhile (text : CString) : '/' ∉ text.takeWhile (· ≠ '/') := by
  intro h
  simpa using List.mem_takeWhile_imp h

/-- A text is slashes, or a name after slashes, or such a name with a slash and more. -/
theorem scan_cases (rest : CString) : ∃ slashes : CString, (∀ c ∈ slashes, c = '/') ∧ (rest = slashes ∨
    ∃ token, token ≠ [] ∧ '/' ∉ token ∧ (rest = slashes ++ token ∨ ∃ more, rest = slashes ++ (token ++ '/' :: more))) := by
  refine ⟨rest.takeWhile (· = '/'),fun c => eq_slash_of_mem,?_⟩
  have hsplit := List.takeWhile_append_dropWhile (p := fun c => decide (c = '/')) (l := rest)
  cases hbody : rest.dropWhile (· = '/') with
  | nil =>
    rw [hbody,List.append_nil] at hsplit
    exact .inl hsplit.symm
  | cons c body =>
    refine .inr ⟨(c :: body).takeWhile (· ≠ '/'),?_,slash_notMem_takeWhile _,?_⟩
    · have hc := List.head?_dropWhile_not (fun c => decide (c = '/')) rest
      rw [hbody] at hc
      have hname : c ≠ '/' := by simpa using hc
      simp [hname]
    · have hinner := List.takeWhile_append_dropWhile (p := fun c => decide (c ≠ '/')) (l := c :: body)
      cases htail : (c :: body).dropWhile (· ≠ '/') with
      | nil =>
        rw [htail,List.append_nil] at hinner
        left
        rw [hinner,← hbody,hsplit]
      | cons d more =>
        have hd := List.head?_dropWhile_not (fun c => decide (c ≠ '/')) (c :: body)
        rw [htail] at hd
        obtain rfl : d = '/' := by simpa using hd
        refine .inr ⟨more,?_⟩
        rw [← htail,hinner,← hbody,hsplit]

end Scanning

namespace TokenBuffer

variable {front junk : List (Option Char)} {p slashes token rest : CString}

theorem strtokR_slashes (h : ∀ c ∈ slashes, c = '/') :
    strtokR ⟨front,slashes⟩ = (none,⟨front ++ slashes.map some,[]⟩) := by
  have htake : slashes.takeWhile (· = '/') = slashes := List.takeWhile_eq_self_iff.mpr (by simpa using h)
  have hdrop : slashes.dropWhile (· = '/') = [] := List.dropWhile_eq_nil_iff.mpr (by simpa using h)
  simp only [strtokR,htake,hdrop,if_true]

theorem split_slashes (h : ∀ c ∈ slashes, c = '/') (hne : token ≠ []) (hname : '/' ∉ token) :
    (slashes ++ (token ++ rest)).takeWhile (· = '/') = slashes ∧
      (slashes ++ (token ++ rest)).dropWhile (· = '/') = token ++ rest := by
  have hall : ∀ c ∈ slashes, decide (c = '/') = true := by simpa using h
  rw [List.takeWhile_append_of_pos hall,List.dropWhile_append_of_pos hall]
  cases token with
  | nil => exact absurd rfl hne
  | cons c token =>
    rw [List.mem_cons,not_or] at hname
    simp [Ne.symm hname.1]

theorem strtokR_last (h : ∀ c ∈ slashes, c = '/') (hne : token ≠ []) (hname : '/' ∉ token) :
    strtokR ⟨front,slashes ++ token⟩ =
      (some (front.length + slashes.length),⟨front ++ (slashes ++ token).map some,[]⟩) := by
  obtain ⟨htake,hdrop⟩ := @split_slashes slashes token [] h hne hname
  rw [List.append_nil] at htake hdrop
  have hall : ∀ c ∈ token, decide (c ≠ '/') = true := fun c hc => decide_eq_true (fun heq => hname (heq ▸ hc))
  have htoken : token.takeWhile (· ≠ '/') = token := List.takeWhile_eq_self_iff.mpr hall
  have htail : token.dropWhile (· ≠ '/') = [] := List.dropWhile_eq_nil_iff.mpr hall
  simp only [strtokR,htake,hdrop,if_neg hne,htoken,htail]

theorem strtokR_more (h : ∀ c ∈ slashes, c = '/') (hne : token ≠ []) (hname : '/' ∉ token) :
    strtokR ⟨front,slashes ++ (token ++ '/' :: rest)⟩ =
      (some (front.length + slashes.length),⟨front ++ (slashes ++ token).map some ++ [none],rest⟩) := by
  obtain ⟨htake,hdrop⟩ := @split_slashes slashes token ('/' :: rest) h hne hname
  have hall : ∀ c ∈ token, decide (c ≠ '/') = true := fun c hc => decide_eq_true (fun heq => hname (heq ▸ hc))
  have htoken : (token ++ '/' :: rest).takeWhile (· ≠ '/') = token := by
    rw [List.takeWhile_append_of_pos hall]
    simp
  have htail : (token ++ '/' :: rest).dropWhile (· ≠ '/') = '/' :: rest := by
    rw [List.dropWhile_append_of_pos hall]
    simp
  have hbody : token ++ '/' :: rest ≠ [] := by simp
  simp only [strtokR,htake,hdrop,if_neg hbody,htoken,htail]

theorem takeWhile_some (p : CString) : (p.map some).takeWhile Option.isSome = p.map some := by
  rw [List.takeWhile_eq_self_iff]
  intro c hc
  obtain ⟨d,-,rfl⟩ := List.mem_map.mp hc
  rfl

theorem filterMap_some (p : CString) : (p.map some).filterMap id = p := by
  rw [List.filterMap_map]
  exact List.filterMap_some

theorem text_none : text ⟨p.map some ++ none :: junk,rest⟩ = p := by
  have hsome : ∀ c ∈ p.map some, Option.isSome c = true := List.takeWhile_eq_self_iff.mp (takeWhile_some p)
  rw [text,List.append_assoc,List.takeWhile_append_of_pos hsome]
  simp

theorem text_end : text ⟨p.map some,[]⟩ = p := by
  rw [text,List.map_nil,List.append_nil,takeWhile_some,filterMap_some]

theorem restore_junk {i : ℕ} (h : p.length + 1 < i) : restore ⟨p.map some ++ none :: junk,rest⟩ i =
      ⟨p.map some ++ none :: junk.set (i - p.length - 2) (some '/'),rest⟩ := by
  have hlength : (p.map some).length ≤ i - 1 := by
    rw [List.length_map]
    omega
  obtain ⟨k,hk⟩ : ∃ k, i - 1 - p.length = k + 1 := ⟨i - p.length - 2,by omega⟩
  have hindex : i - p.length - 2 = k := by omega
  rw [restore,List.set_append_right _ _ hlength,List.length_map,hk,List.set_cons_succ,hindex]

theorem restore_none : restore ⟨p.map some ++ none :: junk,rest⟩ (p.length + 1) =
    ⟨p.map some ++ some '/' :: junk,rest⟩ := by
  have hlength : (p.map some).length ≤ p.length + 1 - 1 := by simp
  rw [restore,List.set_append_right _ _ hlength]
  simp

end TokenBuffer

section Loop

variable {σ : Type} {F : DirSystem σ} {p slashes token rest : CString} {r : DirRun σ}

theorem ensureDir_ensureDir : ensureDir F (ensureDir F r p) p = ensureDir F r p := by
  by_cases hpresent : F.present r.state p = true
  · simp [ensureDir,hpresent]
  · cases hmkdir : F.mkdir r.state p with
    | none => simp [ensureDir,hpresent,hmkdir]
    | some s =>
      have hnew := F.present_of_isDir (F.mkdir_isDir hmkdir)
      simp [ensureDir,hpresent,hmkdir,hnew]

theorem tokenLoop_none {b b' : TokenBuffer} (h : b.strtokR = (none,b')) : tokenLoop F b r = ensureDir F r b'.text := by
  have hfirst : b.strtokR.1 = none := by rw [h]
  rw [tokenLoop]
  split
  · rw [h]
  · rename_i token htoken
    rw [hfirst] at htoken
    cases htoken

theorem tokenLoop_some {b b' : TokenBuffer} {token : ℕ} (h : b.strtokR = (some token,b')) :
    tokenLoop F b r = tokenLoop F (b'.restore token) (ensureDir F r (b'.restore token).text) := by
  have hfirst : b.strtokR.1 = some token := by rw [h]
  rw [tokenLoop]
  split
  · rename_i hnone
    rw [hfirst] at hnone
    cases hnone
  · rename_i other hother
    obtain rfl := Option.some.inj (hfirst.symm.trans hother)
    rw [h]

theorem tokenLoop_end : tokenLoop F ⟨p.map some,[]⟩ r = ensureDir F r p := by
  have hnone := @TokenBuffer.strtokR_slashes (p.map some) [] (by simp)
  rw [tokenLoop_none hnone,List.map_nil,List.append_nil,TokenBuffer.text_end]

theorem tokenLoop_stuck {junk : List (Option Char)} (h : junk ≠ []) :
    tokenLoop F ⟨p.map some ++ none :: junk,rest⟩ r = ensureDir F r p := by
  induction hsize : rest.length using Nat.strong_induction_on generalizing rest junk r with
  | _ size ih =>
    subst hsize
    have hfar (k : ℕ) : p.length + 1 < (p.map some ++ none :: junk).length + k := by
      have hpos := List.length_pos_iff.mpr h
      simp only [List.length_append,List.length_map,List.length_cons]
      omega
    obtain ⟨slashes,hslashes,rfl | ⟨token,hne,hname,rfl | ⟨more,rfl⟩⟩⟩ := scan_cases rest
    · rw [tokenLoop_none (TokenBuffer.strtokR_slashes hslashes),List.append_assoc,List.cons_append,TokenBuffer.text_none]
    · rw [tokenLoop_some (TokenBuffer.strtokR_last hslashes hne hname),List.append_assoc,List.cons_append,
        TokenBuffer.restore_junk (hfar _),TokenBuffer.text_none,ih 0 ?_ ?_ rfl,ensureDir_ensureDir]
      · simp only [List.length_append]
        have hpos := List.length_pos_iff.mpr hne
        omega
      · simp [h]
    · rw [tokenLoop_some (TokenBuffer.strtokR_more hslashes hne hname),List.append_assoc,List.append_assoc,
        List.cons_append,TokenBuffer.restore_junk (hfar _),TokenBuffer.text_none,ih more.length ?_ ?_ rfl,
        ensureDir_ensureDir]
      · simp only [List.length_append,List.length_cons]
        omega
      · simp [h]

/-- While single slashes are restored, the string grows by a component each round. -/
theorem tokenLoop_whole {last : CString} (hlast : '/' ∉ last) : tokenLoop F ⟨p.map some ++ [none],rest⟩ r =
      if componentsBelow true p (rest ++ '/' :: last) = [] then ensureDir F r p
      else (componentsBelow true p (rest ++ '/' :: last)).foldl (ensureDir F) r := by
  induction hsize : rest.length using Nat.strong_induction_on generalizing rest p r with
  | _ size ih =>
    subst hsize
    obtain ⟨slashes,hslashes,hrest⟩ := scan_cases rest
    have hstart : slashes ≠ [] → ∀ more, componentsBelow true p (slashes ++ more) = [] := by
      intro hne more
      cases slashes with
      | nil => exact absurd rfl hne
      | cons c slashes => exact if_pos ⟨rfl,congrArg some (hslashes c List.mem_cons_self)⟩
    have hsingle : (p.map some ++ [none]).length = p.length + 1 := by simp
    obtain rfl | ⟨token,hne,hname,rfl | ⟨more,rfl⟩⟩ := hrest
    · have hnil : componentsBelow true p (rest ++ '/' :: last) = [] := by
        cases rest with
        | nil => exact if_pos ⟨rfl,rfl⟩
        | cons c rest => exact hstart (List.cons_ne_nil c rest) _
      rw [tokenLoop_none (TokenBuffer.strtokR_slashes hslashes),List.append_assoc,List.singleton_append,
        TokenBuffer.text_none,if_pos hnil]
    · rw [tokenLoop_some (TokenBuffer.strtokR_last hslashes hne hname),List.append_assoc,List.singleton_append,hsingle]
      by_cases hdoubled : slashes = []
      · subst hdoubled
        rw [List.length_nil,Nat.add_zero,TokenBuffer.restore_none,List.nil_append,componentsBelow_name p last hne hname,componentsBelow_nil _ hlast]
        have hjoin : p.map some ++ some '/' :: token.map some = (p ++ '/' :: token).map some := by simp
        rw [hjoin,TokenBuffer.text_end,tokenLoop_end,ensureDir_ensureDir]
        simp
      · have hpos := List.length_pos_iff.mpr hdoubled
        rw [TokenBuffer.restore_junk (by omega),TokenBuffer.text_none,tokenLoop_stuck (by simp [hne]),
          ensureDir_ensureDir,List.append_assoc,if_pos (hstart hdoubled _)]
    · rw [tokenLoop_some (TokenBuffer.strtokR_more hslashes hne hname),List.append_assoc,List.append_assoc,
        List.singleton_append,hsingle]
      by_cases hdoubled : slashes = []
      · subst hdoubled
        rw [List.length_nil,Nat.add_zero,TokenBuffer.restore_none,List.nil_append,List.nil_append,List.append_assoc,
          List.cons_append,componentsBelow_name p (more ++ '/' :: last) hne hname]
        have hjoin : p.map some ++ some '/' :: (token.map some ++ [none]) = (p ++ '/' :: token).map some ++ [none] := by simp
        have hshorter : more.length < ([] ++ (token ++ '/' :: more)).length := by
          simp only [List.nil_append,List.length_append,List.length_cons]
          omega
        rw [hjoin,TokenBuffer.text_none,ih more.length hshorter rfl,ensureDir_ensureDir]
        by_cases hbelow : componentsBelow true (p ++ '/' :: token) (more ++ '/' :: last) = []
        · simp [hbelow]
        · simp [hbelow]
      · have hpos := List.length_pos_iff.mpr hdoubled
        rw [TokenBuffer.restore_junk (by omega),TokenBuffer.text_none,tokenLoop_stuck (by simp [hne]),
          ensureDir_ensureDir,List.append_assoc,if_pos (hstart hdoubled _)]

theorem beforeLastSlash_spec {path : CString} (h : '/' ∈ path) :
    ∃ last, '/' ∉ last ∧ path = beforeLastSlash path ++ '/' :: last := by
  obtain ⟨after,before,hpath,hafter⟩ := List.eq_append_cons_of_mem (List.mem_reverse.mpr h)
  have hsplit : path = before.reverse ++ '/' :: after.reverse := by
    rw [← List.reverse_reverse path,hpath]
    simp
  have hall : ∀ c ∈ after, decide (c ≠ '/') = true := fun c hc => decide_eq_true (fun heq => hafter (heq ▸ hc))
  have hbefore : beforeLastSlash path = before.reverse := by
    rw [beforeLastSlash,hpath,List.dropWhile_append_of_pos hall]
    simp
  exact ⟨after.reverse,by simpa using hafter,by rw [hbefore]; exact hsplit⟩

theorem components_of_slashes {run : Bool} {last : CString} (h : ∀ c ∈ slashes, c = '/') (hlast : '/' ∉ last) :
    componentsFrom run [] (slashes ++ '/' :: last) = [] := by
  have hall : ∀ c ∈ slashes ++ ['/'], c = '/' := by
    intro c hc
    obtain hc | hc := List.mem_append.mp hc
    · exact h c hc
    · exact List.mem_singleton.mp hc
  have hlead := @componentsFrom_slashes run (slashes ++ ['/']) [] last (by simp) hall
  have hname := @componentsFrom_name run last (slashes ++ ['/']) [] hlast
  rw [List.append_assoc,List.singleton_append,List.nil_append] at hlead
  rw [List.append_nil] at hname
  rw [hlead,hname]
  rfl

theorem components_of_name {run : Bool} (h : ∀ c ∈ slashes, c = '/') (hne : token ≠ []) (hname : '/' ∉ token) :
    componentsFrom run [] (slashes ++ (token ++ '/' :: rest)) =
      (slashes ++ token) :: componentsBelow run (slashes ++ token) rest := by
  rw [componentsFrom_slashes _ (by simp) h,componentsFrom_name _ _ hname,List.nil_append,
    componentsFrom_slash _ (endsName_append _ hne hname)]

/-- What the loop does: its rounds are for the components of the first run, without the first of several. -/
theorem appCheckPath_run {s : σ} {path : CString} (hpresent : F.present s path = false) (hslash : '/' ∈ path) :
    appCheckPath F true s path =
      match firstRun path with
      | [] => ⟨s,[],-1⟩
      | [first] => ensureDir F ⟨s,[],-1⟩ first
      | _ :: more => more.foldl (ensureDir F) ⟨s,[],-1⟩ := by
  obtain ⟨last,hlast,hpath⟩ := beforeLastSlash_spec hslash
  rw [appCheckPath,if_neg (by simp),if_neg (by simp [hpresent]),if_neg (by simpa using hslash)]
  dsimp only
  obtain ⟨slashes,hslashes,hfront | ⟨token,hne,hname,hfront | ⟨more,hfront⟩⟩⟩ := scan_cases (beforeLastSlash path)
  · rw [hfront] at hpath
    rw [hfront,TokenBuffer.strtokR_slashes hslashes,firstRun,hpath,components_of_slashes hslashes hlast]
  · rw [hfront,List.append_assoc] at hpath
    rw [hfront,TokenBuffer.strtokR_last hslashes hne hname,firstRun,hpath,components_of_name hslashes hne hname,
      componentsBelow_nil _ hlast]
    exact tokenLoop_end
  · have hwhole : path = slashes ++ (token ++ '/' :: (more ++ '/' :: last)) := by
      rw [hpath,hfront]
      simp
    rw [hfront,TokenBuffer.strtokR_more hslashes hne hname,firstRun,hwhole,components_of_name hslashes hne hname]
    refine (tokenLoop_whole hlast).trans ?_
    cases componentsBelow true (slashes ++ token) (more ++ '/' :: last) with
    | nil => rfl
    | cons next others => rfl

end Loop

end FeatureRuntime
