import FeatureRuntime.Downloads

/-! The tokens of the downloads, each given to one task, and the cache of the results by token. -/
namespace FeatureRuntime

theorem repr_no_dash {n : ℕ} {c : Char} (h : c ∈ (Nat.repr n).toList) : c ≠ '-' := by
  have hdigit : c.isDigit = true :=
    Nat.isDigit_of_mem_toDigits (b := 10) (n := n) (by decide) (by decide) (by simpa [Nat.repr] using h)
  rintro rfl
  exact absurd hdigit (by decide)

theorem repr_injective {n m : ℕ} (h : (Nat.repr n).toList = (Nat.repr m).toList) : n = m := by
  have hdigits : Nat.toDigits 10 n = Nat.toDigits 10 m := by simpa [Nat.repr] using h
  have hvalue := congrArg (fun digits => Nat.ofDigitChars 10 digits 0) hdigits
  simpa [Nat.ofDigitChars_toDigits] using hvalue

theorem downloadUuid_toList (now rand n : ℕ) : (downloadUuid now rand n).toList =
    ((Nat.repr now).toList ++ '-' :: (Nat.repr rand).toList) ++ '-' :: (Nat.repr n).toList := by
  simp [downloadUuid,ToString.toString]

theorem takeWhile_last {xs ys : List Char} (h : ∀ c ∈ ys, c ≠ '-') :
    ((xs ++ '-' :: ys).reverse.takeWhile (· ≠ '-')).reverse = ys := by
  rw [List.reverse_append,List.reverse_cons,List.append_assoc,List.takeWhile_append_of_pos (by simpa using h)]
  simp

theorem downloadUuid_number {now rand n now' rand' n' : ℕ}
    (h : downloadUuid now rand n = downloadUuid now' rand' n') : n = n' := by
  apply repr_injective
  have hlists := congrArg String.toList h
  rw [downloadUuid_toList,downloadUuid_toList] at hlists
  rw [← takeWhile_last (fun _ hc => repr_no_dash hc),hlists,takeWhile_last (fun _ hc => repr_no_dash hc)]

namespace Downloads

variable (s : Downloads)

def uuidOf (info : ℕ) : Option String := (s.heap info).map ReqInfo.uuid

def endings (todo : List DownloadAction) : List (ℕ × TransferEnd) :=
  todo.filterMap (fun | .addResult info e => some (info,e) | _ => none)

/-- A token belongs to one linked task until the download counts as ended; the tasks that end are those whose
transfer has an outcome, and each of these is kept once before the task is unlinked. -/
structure Tokens (s : Downloads) : Prop where
  issued : ∀ token ∈ s.issued, ∃ now rand n, n ≤ s.startUuid ∧ token = downloadUuid now rand n
  linked : ∀ info ∈ s.linklist, ∀ token, s.uuidOf info = some token → token ∈ s.issued
  distinct : ∀ i ∈ s.linklist, ∀ j ∈ s.linklist, s.uuidOf i = s.uuidOf j → i = j
  running : ∀ token ∈ s.issued, token ∉ s.ended.map Prod.fst → ∃ info ∈ s.linklist, s.uuidOf info = some token
  ended : ∀ p ∈ s.ended, s.outcome p.1 = some p.2
  ended_nodup : (s.ended.map Prod.fst).Nodup
  outcome_issued : ∀ token e, s.outcome token = some e → token ∈ s.issued
  ending : ∀ info ∈ s.linklist, ∀ token, s.uuidOf info = some token →
    ((s.outcome token).isSome ↔ info ∈ discards s.todo)
  endings_nodup : ((endings s.todo).map Prod.fst).Nodup
  endings_new : ∀ p ∈ endings s.todo, ∀ token, s.uuidOf p.1 = some token →
    s.outcome token = some p.2 ∧ token ∉ s.ended.map Prod.fst
  kept : ∀ info ∈ discards s.todo, info ∈ (endings s.todo).map Prod.fst ∨
    ∀ token, s.uuidOf info = some token → token ∈ s.ended.map Prod.fst

/-- The cache has the results of the most recent downloads. -/
structure Cache (s : Downloads) : Prop where
  lookup : ∀ token, s.downloadResults[token]? = (s.recent.lookup token).map TransferEnd.result
  size : s.downloadResults.size = s.recent.length

def OldestFirst (token : String) : Prop :=
  s.recent.length = downloadResultCacheSize - 1 → ∀ old others, s.recent = old :: others →
    ∀ key ∈ token :: others.map Prod.fst, (compare old.1 key).isLE = true

theorem tokens_init : Tokens {} where
  issued := by simp
  linked := by simp
  distinct := by simp
  running := by simp
  ended := by simp
  ended_nodup := List.nodup_nil
  outcome_issued := by simp
  ending := by simp
  endings_nodup := List.nodup_nil
  endings_new := by simp [endings]
  kept := by simp [discards]

theorem cache_init : Cache {} where
  lookup token := by simp [recent]
  size := by simp [recent]

section Endings

variable {s}

theorem mem_endings {todo : List DownloadAction} {info : ℕ} {e : TransferEnd} :
    (info,e) ∈ endings todo ↔ .addResult info e ∈ todo := by
  unfold endings
  rw [List.mem_filterMap]
  constructor
  · rintro ⟨action,haction,heq⟩
    cases action with
    | addResult i e' =>
      obtain ⟨rfl,rfl⟩ := Prod.mk.inj (Option.some.inj heq)
      exact haction
    | _ => exact nomatch heq
  · intro h
    exact ⟨_,h,rfl⟩

theorem discards_append (xs ys : List DownloadAction) : discards (xs ++ ys) = discards xs ++ discards ys :=
  List.filterMap_append

theorem endings_append (xs ys : List DownloadAction) : endings (xs ++ ys) = endings xs ++ endings ys :=
  List.filterMap_append

theorem WellOrdered.endings_discarded {todo : List DownloadAction} (h : WellOrdered todo) {info : ℕ}
    {e : TransferEnd} (hmem : (info,e) ∈ endings todo) : info ∈ discards todo := by
  induction todo with
  | nil => exact absurd hmem List.not_mem_nil
  | cons action todo ih =>
    have hrest : info ∈ discards todo → info ∈ discards (action :: todo) := by
      intro hd
      exact (discards_append [action] todo) ▸ List.mem_append_right _ hd
    rw [mem_endings] at hmem
    rcases List.mem_cons.mp hmem with rfl | hmem
    · exact hrest h.1
    · exact hrest (ih h.2 (mem_endings.mpr hmem))

end Endings

namespace Tokens

variable {s}

variable {t : Downloads}

theorem keep (hs : s.Tokens) (hissued : t.issued = s.issued) (hstart : t.startUuid = s.startUuid)
    (hlinklist : t.linklist = s.linklist) (huuid : ∀ i ∈ s.linklist, t.uuidOf i = s.uuidOf i)
    (hended : t.ended = s.ended) (houtcome : t.outcome = s.outcome) (htasks : s.Tasks)
    (hdiscards : discards t.todo = discards s.todo) (hendings : endings t.todo = endings s.todo) : t.Tokens where
  issued := by rw [hissued,hstart]; exact hs.issued
  linked info hinfo token htoken := by
    rw [hlinklist] at hinfo
    rw [huuid info hinfo] at htoken
    rw [hissued]
    exact hs.linked info hinfo token htoken
  distinct i hi j hj heq := by
    rw [hlinklist] at hi hj
    rw [huuid i hi,huuid j hj] at heq
    exact hs.distinct i hi j hj heq
  running token htoken hnot := by
    rw [hissued] at htoken
    rw [hended] at hnot
    obtain ⟨info,hinfo,hto⟩ := hs.running token htoken hnot
    exact ⟨info,hlinklist ▸ hinfo,(huuid info hinfo).trans hto⟩
  ended := by rw [hended,houtcome]; exact hs.ended
  ended_nodup := by rw [hended]; exact hs.ended_nodup
  outcome_issued := by rw [houtcome,hissued]; exact hs.outcome_issued
  ending info hinfo token htoken := by
    rw [hlinklist] at hinfo
    rw [huuid info hinfo] at htoken
    rw [houtcome,hdiscards]
    exact hs.ending info hinfo token htoken
  endings_nodup := by rw [hendings]; exact hs.endings_nodup
  endings_new p hp token htoken := by
    rw [hendings] at hp
    have hlinked := htasks.discards_linked p.1 (htasks.ordered.endings_discarded hp)
    rw [huuid p.1 hlinked] at htoken
    rw [houtcome,hended]
    exact hs.endings_new p hp token htoken
  kept info hinfo := by
    rw [hdiscards] at hinfo
    rw [hendings,hended,huuid info (htasks.discards_linked info hinfo)]
    exact hs.kept info hinfo

variable (hs : s.Tokens) (htasks : s.Tasks)
include hs htasks

theorem requestCb {info : ℕ} (hinfo : info ∈ s.linklist) (hquiet : info ∉ discards s.todo) (e : TransferEnd)
    {token : String} (htoken : s.uuidOf info = some token) (hissued : t.issued = s.issued)
    (hstart : t.startUuid = s.startUuid) (hlinklist : t.linklist = s.linklist)
    (huuid : ∀ i ∈ s.linklist, t.uuidOf i = s.uuidOf i) (hended : t.ended = s.ended)
    (houtcome : t.outcome = Function.update s.outcome token (some e))
    (hdiscards : discards t.todo = info :: discards s.todo) (hendings : endings t.todo = (info,e) :: endings s.todo) :
    t.Tokens := by
  have hnone : s.outcome token = none := by
    have h := (hs.ending info hinfo token htoken).not.mpr hquiet
    simpa using h
  have hother : ∀ i ∈ s.linklist, i ≠ info → ∀ tok, s.uuidOf i = some tok → tok ≠ token := by
    rintro i hi hne tok htok rfl
    exact hne (hs.distinct i hi info hinfo (htok.trans htoken.symm))
  have hnotended : token ∉ s.ended.map Prod.fst := by
    intro hmem
    obtain ⟨p,hp,rfl⟩ := List.mem_map.mp hmem
    rw [hs.ended p hp] at hnone
    exact nomatch hnone
  refine ⟨?_,fun i hi => ?_,fun i hi j hj => ?_,fun tok htok hnot => ?_,fun p hp => ?_,?_,fun tok e' htok => ?_,
    fun i hi tok htok => ?_,?_,fun p hp tok htok => ?_,fun i hi => ?_⟩
  · rw [hissued,hstart]
    exact hs.issued
  · rw [hlinklist] at hi
    rw [huuid i hi,hissued]
    exact hs.linked i hi
  · rw [hlinklist] at hi hj
    rw [huuid i hi,huuid j hj]
    exact hs.distinct i hi j hj
  · rw [hissued] at htok
    rw [hended] at hnot
    obtain ⟨i,hi,h⟩ := hs.running tok htok hnot
    exact ⟨i,hlinklist ▸ hi,(huuid i hi).trans h⟩
  · rw [hended] at hp
    have hne : p.1 ≠ token := fun h => hnotended (h ▸ List.mem_map_of_mem hp)
    rw [houtcome,Function.update_of_ne hne]
    exact hs.ended p hp
  · rw [hended]
    exact hs.ended_nodup
  · rw [houtcome,Function.update_apply] at htok
    rw [hissued]
    split_ifs at htok with heq
    · exact heq ▸ hs.linked info hinfo token htoken
    · exact hs.outcome_issued tok e' htok
  · rw [hlinklist] at hi
    rw [huuid i hi] at htok
    rw [houtcome,hdiscards,List.mem_cons]
    by_cases heq : i = info
    · subst heq
      obtain rfl := Option.some.inj (htoken.symm.trans htok)
      simp
    · rw [Function.update_of_ne (hother i hi heq tok htok),hs.ending i hi tok htok]
      simp [heq]
  · rw [hendings,List.map_cons,List.nodup_cons]
    refine ⟨fun hmem => hquiet ?_,hs.endings_nodup⟩
    obtain ⟨p,hp,rfl⟩ := List.mem_map.mp hmem
    exact htasks.ordered.endings_discarded hp
  · rw [hendings] at hp
    rw [houtcome,hended]
    rcases List.mem_cons.mp hp with rfl | hp
    · rw [huuid info hinfo] at htok
      obtain rfl := Option.some.inj (htoken.symm.trans htok)
      exact ⟨Function.update_self _ _ _,hnotended⟩
    · have hd := htasks.ordered.endings_discarded hp
      have hlinked := htasks.discards_linked p.1 hd
      rw [huuid p.1 hlinked] at htok
      have hne : p.1 ≠ info := fun h => hquiet (h ▸ hd)
      rw [Function.update_of_ne (hother p.1 hlinked hne tok htok)]
      exact hs.endings_new p hp tok htok
  · rw [hdiscards] at hi
    rw [hendings,hended,List.map_cons,List.mem_cons]
    rcases List.mem_cons.mp hi with rfl | hi
    · exact .inl (.inl rfl)
    · rw [huuid i (htasks.discards_linked i hi)]
      exact (hs.kept i hi).imp_left .inr

variable {rest : List DownloadAction} {info : ℕ}

theorem addResult {e : TransferEnd} (htodo : s.todo = .addResult info e :: rest) {token : String}
    (htoken : s.uuidOf info = some token) (hissued : t.issued = s.issued) (hstart : t.startUuid = s.startUuid)
    (hlinklist : t.linklist = s.linklist) (huuid : t.uuidOf = s.uuidOf) (houtcome : t.outcome = s.outcome)
    (hended : t.ended = s.ended ++ [(token,e)]) (hrest : t.todo = rest) : t.Tokens := by
  have hdiscards : discards s.todo = discards rest := by rw [htodo]; rfl
  have hendings : endings s.todo = (info,e) :: endings rest := by rw [htodo]; rfl
  have hnodup := hs.endings_nodup
  rw [hendings,List.map_cons,List.nodup_cons] at hnodup
  obtain ⟨hout,hnew⟩ := hs.endings_new (info,e) (by simp [hendings]) token htoken
  have hlinked : info ∈ s.linklist := htasks.discards_linked info
    (htasks.ordered.endings_discarded (e := e) (by simp [hendings]))
  refine ⟨?_,?_,?_,fun tok htok hnot => ?_,fun p hp => ?_,?_,?_,fun i hi tok htok => ?_,?_,fun p hp tok htok => ?_,
    fun i hi => ?_⟩
  · rw [hissued,hstart]
    exact hs.issued
  · rw [hlinklist,huuid,hissued]
    exact hs.linked
  · rw [hlinklist,huuid]
    exact hs.distinct
  · rw [hissued] at htok
    rw [hended,List.map_append,List.mem_append,not_or] at hnot
    rw [hlinklist,huuid]
    exact hs.running tok htok hnot.1
  · rw [hended,List.mem_append,List.mem_singleton] at hp
    rw [houtcome]
    rcases hp with hp | rfl
    · exact hs.ended p hp
    · exact hout
  · rw [hended,List.map_append,List.nodup_append]
    refine ⟨hs.ended_nodup,List.nodup_singleton _,fun a ha b hb => ?_⟩
    rw [List.map_singleton,List.mem_singleton] at hb
    rintro rfl
    obtain rfl : a = token := hb
    exact hnew ha
  · rw [houtcome,hissued]
    exact hs.outcome_issued
  · rw [hlinklist] at hi
    rw [huuid] at htok
    rw [houtcome,hrest,← hdiscards]
    exact hs.ending i hi tok htok
  · rw [hrest]
    exact hnodup.2
  · rw [hrest] at hp
    rw [huuid] at htok
    have hp' : p ∈ endings s.todo := by rw [hendings]; exact List.mem_cons_of_mem _ hp
    obtain ⟨hpout,hpnew⟩ := hs.endings_new p hp' tok htok
    rw [houtcome,hended,List.map_append,List.mem_append,not_or]
    refine ⟨hpout,hpnew,fun heq => ?_⟩
    rw [List.map_singleton,List.mem_singleton] at heq
    have hsame := hs.distinct p.1 (htasks.discards_linked p.1 (htasks.ordered.endings_discarded hp')) info hlinked
      (htok.trans (heq ▸ htoken.symm))
    have hmem : p.1 ∈ (endings rest).map Prod.fst := List.mem_map_of_mem hp
    exact hnodup.1 (hsame ▸ hmem)
  · rw [hrest,← hdiscards] at hi
    rw [hrest,huuid,hended,List.map_append]
    rcases hs.kept i hi with hmem | hmem
    · rw [hendings,List.map_cons,List.mem_cons] at hmem
      rcases hmem with rfl | hmem
      · refine .inr (fun tok htok => ?_)
        obtain rfl := Option.some.inj (htoken.symm.trans htok)
        simp
      · exact .inl hmem
    · exact .inr (fun tok htok => List.mem_append_left _ (hmem tok htok))

theorem discard (htodo : s.todo = .discard info :: rest) (hissued : t.issued = s.issued)
    (hstart : t.startUuid = s.startUuid) (hlinklist : t.linklist = s.linklist.erase info)
    (huuid : ∀ i, i ≠ info → t.uuidOf i = s.uuidOf i) (houtcome : t.outcome = s.outcome)
    (hended : t.ended = s.ended) (hrest : t.todo = rest) : t.Tokens := by
  have hdiscards : discards s.todo = info :: discards rest := by rw [htodo]; rfl
  have hendings : endings s.todo = endings rest := by rw [htodo]; rfl
  have hnodup := htasks.discards_nodup
  rw [hdiscards,List.nodup_cons] at hnodup
  have hmem : ∀ {i}, i ∈ t.linklist → i ≠ info ∧ i ∈ s.linklist := by
    intro i hi
    rw [hlinklist] at hi
    exact htasks.linklist_nodup.mem_erase_iff.mp hi
  have hkept : ∀ token, s.uuidOf info = some token → token ∈ s.ended.map Prod.fst := by
    refine (hs.kept info (by simp [hdiscards])).resolve_left (fun hmem => hnodup.1 ?_)
    rw [hendings] at hmem
    obtain ⟨p,hp,rfl⟩ := List.mem_map.mp hmem
    exact (htasks.ordered_head htodo).2.endings_discarded hp
  refine ⟨?_,fun i hi tok htok => ?_,fun i hi j hj heq => ?_,fun tok htok hnot => ?_,?_,?_,?_,
    fun i hi tok htok => ?_,?_,fun p hp tok htok => ?_,fun i hi => ?_⟩
  · rw [hissued,hstart]
    exact hs.issued
  · rw [huuid i (hmem hi).1] at htok
    rw [hissued]
    exact hs.linked i (hmem hi).2 tok htok
  · rw [huuid i (hmem hi).1,huuid j (hmem hj).1] at heq
    exact hs.distinct i (hmem hi).2 j (hmem hj).2 heq
  · rw [hissued] at htok
    rw [hended] at hnot
    obtain ⟨i,hi,h⟩ := hs.running tok htok hnot
    have hne : i ≠ info := by
      rintro rfl
      exact hnot (hkept tok h)
    exact ⟨i,hlinklist ▸ (List.mem_erase_of_ne hne).mpr hi,(huuid i hne).trans h⟩
  · rw [hended,houtcome]
    exact hs.ended
  · rw [hended]
    exact hs.ended_nodup
  · rw [houtcome,hissued]
    exact hs.outcome_issued
  · rw [huuid i (hmem hi).1] at htok
    rw [houtcome,hrest,hs.ending i (hmem hi).2 tok htok,hdiscards,List.mem_cons]
    exact or_iff_right (hmem hi).1
  · rw [hrest,← hendings]
    exact hs.endings_nodup
  · rw [hrest] at hp
    have hne : p.1 ≠ info := by
      intro heq
      exact hnodup.1 (heq ▸ (htasks.ordered_head htodo).2.endings_discarded hp)
    rw [huuid p.1 hne] at htok
    rw [houtcome,hended]
    exact hs.endings_new p (hendings ▸ hp) tok htok
  · rw [hrest] at hi
    have hne : i ≠ info := fun heq => hnodup.1 (heq ▸ hi)
    rw [hrest,huuid i hne,hended,← hendings]
    exact hs.kept i (hdiscards ▸ List.mem_cons_of_mem _ hi)

theorem commit {call handle : ℕ} {ids : CallbackIds} {share : Bool} {url : Option String} {disk : Bool}
    {now rand : ℕ} (htodo : s.todo = .start info call handle ids share url disk now rand :: rest)
    (hissued : t.issued = s.issued ++ [downloadUuid now rand (s.startUuid + 1)])
    (hstart : t.startUuid = s.startUuid + 1) (hlinklist : t.linklist = s.linklist ++ [info])
    (huuid : ∀ i, t.uuidOf i = if i = info then some (downloadUuid now rand (s.startUuid + 1)) else s.uuidOf i)
    (houtcome : t.outcome = s.outcome) (hended : t.ended = s.ended) (hdiscards : discards t.todo = discards s.todo)
    (hendings : endings t.todo = endings s.todo) : t.Tokens := by
  have hnot : info ∉ s.linklist := by
    intro h
    refine htasks.not_owned_of_linked h ?_
    rw [htodo]
    exact List.mem_cons_self
  have hne : ∀ i ∈ s.linklist, i ≠ info := fun i hi heq => hnot (heq ▸ hi)
  have hnew : downloadUuid now rand (s.startUuid + 1) ∉ s.issued := by
    intro hmem
    obtain ⟨now',rand',n,hle,heq⟩ := hs.issued _ hmem
    have := downloadUuid_number heq
    omega
  have hfree : ∀ i ∈ s.linklist, s.uuidOf i ≠ some (downloadUuid now rand (s.startUuid + 1)) :=
    fun i hi heq => hnew (hs.linked i hi _ heq)
  refine ⟨fun tok htok => ?_,fun i hi tok htok => ?_,fun i hi j hj heq => ?_,fun tok htok hnotended => ?_,?_,?_,
    fun tok e htok => ?_,fun i hi tok htok => ?_,?_,fun p hp tok htok => ?_,fun i hi => ?_⟩
  · rw [hissued,List.mem_append,List.mem_singleton] at htok
    rw [hstart]
    rcases htok with htok | rfl
    · obtain ⟨now',rand',n,hle,heq⟩ := hs.issued tok htok
      exact ⟨now',rand',n,by omega,heq⟩
    · exact ⟨now,rand,_,le_rfl,rfl⟩
  · rw [hlinklist,List.mem_append,List.mem_singleton] at hi
    rw [huuid] at htok
    rw [hissued,List.mem_append,List.mem_singleton]
    split_ifs at htok with heq
    · exact .inr (Option.some.inj htok).symm
    · exact .inl (hs.linked i (hi.resolve_right heq) tok htok)
  · rw [hlinklist,List.mem_append,List.mem_singleton] at hi hj
    rw [huuid,huuid] at heq
    split_ifs at heq with h1 h2 h2
    · exact h1.trans h2.symm
    · exact absurd heq.symm (hfree j (hj.resolve_right h2))
    · exact absurd heq (hfree i (hi.resolve_right h1))
    · exact hs.distinct i (hi.resolve_right h1) j (hj.resolve_right h2) heq
  · rw [hissued,List.mem_append,List.mem_singleton] at htok
    rw [hended] at hnotended
    rcases htok with htok | rfl
    · obtain ⟨i,hi,h⟩ := hs.running tok htok hnotended
      refine ⟨i,hlinklist ▸ List.mem_append_left _ hi,?_⟩
      rw [huuid,if_neg (hne i hi)]
      exact h
    · refine ⟨info,by simp [hlinklist],?_⟩
      rw [huuid,if_pos rfl]
  · rw [hended,houtcome]
    exact hs.ended
  · rw [hended]
    exact hs.ended_nodup
  · rw [houtcome] at htok
    rw [hissued]
    exact List.mem_append_left _ (hs.outcome_issued tok e htok)
  · rw [hlinklist,List.mem_append,List.mem_singleton] at hi
    rw [huuid] at htok
    rw [houtcome,hdiscards]
    by_cases heq : i = info
    · rw [if_pos heq] at htok
      obtain rfl := Option.some.inj htok
      have hnone : s.outcome (downloadUuid now rand (s.startUuid + 1)) = none := by
        cases hout : s.outcome (downloadUuid now rand (s.startUuid + 1)) with
        | none => rfl
        | some e => exact absurd (hs.outcome_issued _ e hout) hnew
      rw [hnone,heq]
      exact iff_of_false (by simp) (fun h => hnot (htasks.discards_linked info h))
    · rw [if_neg heq] at htok
      exact hs.ending i (hi.resolve_right heq) tok htok
  · rw [hendings]
    exact hs.endings_nodup
  · rw [hendings] at hp
    have hlinked := htasks.discards_linked p.1 (htasks.ordered.endings_discarded hp)
    rw [huuid,if_neg (hne p.1 hlinked)] at htok
    rw [houtcome,hended]
    exact hs.endings_new p hp tok htok
  · rw [hdiscards] at hi
    have hlinked := htasks.discards_linked i hi
    rw [hendings,hended,huuid,if_neg (hne i hlinked)]
    exact hs.kept i hi

end Tokens

section Cache

variable {s}

theorem recent_snoc {t : Downloads} {p : String × TransferEnd} (hended : t.ended = s.ended ++ [p]) :
    (s.recent.length < downloadResultCacheSize - 1 ∧ t.recent = s.recent ++ [p]) ∨
      (s.recent.length = downloadResultCacheSize - 1 ∧ ∃ old others, s.recent = old :: others ∧
        t.recent = others ++ [p]) := by
  have hsize : downloadResultCacheSize - 1 = 9 := rfl
  unfold recent
  rw [hended,List.length_append,List.length_singleton,hsize]
  by_cases hlt : s.ended.length < 9
  · left
    rw [Nat.sub_eq_zero_of_le (by omega),Nat.sub_eq_zero_of_le (by omega)]
    exact ⟨by simpa using hlt,rfl⟩
  · right
    have hlength : (s.ended.drop (s.ended.length - 9)).length = 9 := by
      rw [List.length_drop]
      omega
    refine ⟨hlength,?_⟩
    cases hrecent : s.ended.drop (s.ended.length - 9) with
    | nil =>
      rw [hrecent] at hlength
      simp at hlength
    | cons old others =>
      refine ⟨old,others,rfl,?_⟩
      have hnext : s.ended.length + 1 - 9 = (s.ended.length - 9) + 1 := by omega
      rw [hnext,List.drop_append_of_le_length (by omega),← List.drop_drop,hrecent]
      rfl

theorem recent_subset {p : String × TransferEnd} (hp : p ∈ s.recent) : p ∈ s.ended := List.mem_of_mem_drop hp

theorem not_mem_of_recent {token : String} (h : token ∉ s.ended.map Prod.fst) : s.recent.lookup token = none := by
  rw [List.lookup_eq_none_iff]
  intro p hp
  rw [bne_iff_ne]
  rintro rfl
  exact h (List.mem_map_of_mem (recent_subset hp))

/-- The result of a download is kept, and the oldest one goes if it has the smallest key. -/
theorem Cache.addResult (hc : s.Cache) (hs : s.Tokens) {token : String} {e : TransferEnd}
    (hnew : token ∉ s.ended.map Prod.fst) (holdest : s.OldestFirst token) {t : Downloads}
    (hresults : t.downloadResults = FeatureRuntime.addResult s.downloadResults token e.result)
    (hended : t.ended = s.ended ++ [(token,e)]) : t.Cache := by
  have hnone : s.recent.lookup token = none := not_mem_of_recent hnew
  have habsent : s.downloadResults.contains token = false := by
    rw [Bool.eq_false_iff,ne_eq,← Std.TreeMap.mem_iff_contains,Std.TreeMap.mem_iff_isSome_getElem?,hc.lookup,hnone]
    exact Bool.noConfusion
  have hinsert : ∀ key, (s.downloadResults.insert token e.result)[key]? =
      ((s.recent ++ [(token,e)]).lookup key).map TransferEnd.result := by
    intro key
    rw [Std.TreeMap.getElem?_insert,List.lookup_append]
    simp only [compare_eq_iff_eq]
    split_ifs with heq
    · rw [← heq,hnone]
      simp
    · have hone : List.lookup key [(token,e)] = none := by
        rw [List.lookup_eq_none_iff]
        intro p hp
        rw [List.mem_singleton.mp hp,bne_iff_ne]
        exact Ne.symm heq
      rw [hc.lookup,hone,Option.or_none]
  have hsize : (s.downloadResults.insert token e.result).size = s.recent.length + 1 := by
    rw [Std.TreeMap.size_insert,habsent,hc.size]
    rfl
  unfold FeatureRuntime.addResult at hresults
  dsimp only at hresults
  rcases recent_snoc hended with ⟨hlt,hrecent⟩ | ⟨hfull,old,others,hold,hrecent⟩
  · have hbound : downloadResultCacheSize - 1 < downloadResultCacheSize := by decide
    rw [if_neg (by omega)] at hresults
    refine ⟨fun key => ?_,?_⟩
    · rw [hresults,hrecent,hinsert]
    · rw [hresults,hrecent,hsize,List.length_append,List.length_singleton]
  · have hbound : downloadResultCacheSize - 1 + 1 = downloadResultCacheSize := rfl
    rw [if_pos (by omega)] at hresults
    -- the oldest key is there once, and below all others
    have hkeys : (s.recent.map Prod.fst).Nodup := hs.ended_nodup.sublist ((List.drop_sublist _ _).map _)
    rw [hold,List.map_cons,List.nodup_cons] at hkeys
    have holdnew : old.1 ≠ token := by
      rintro rfl
      exact hnew (List.mem_map_of_mem (recent_subset (hold ▸ List.mem_cons_self)))
    have hmem : ∀ key, key ∈ s.downloadResults.insert token e.result ↔
        key = old.1 ∨ key ∈ token :: others.map Prod.fst := by
      intro key
      rw [Std.TreeMap.mem_iff_isSome_getElem?,hinsert,Option.isSome_map,List.lookup_isSome_iff,hold]
      simp only [List.cons_append,List.mem_cons,List.mem_append,List.not_mem_nil,or_false,beq_iff_eq,List.mem_map]
      constructor
      · rintro ⟨p,rfl | hp | rfl,rfl⟩
        · exact .inl rfl
        · exact .inr (.inr ⟨p,hp,rfl⟩)
        · exact .inr (.inl rfl)
      · rintro (rfl | rfl | ⟨p,hp,rfl⟩)
        · exact ⟨old,.inl rfl,rfl⟩
        · exact ⟨(key,e),.inr (.inr rfl),rfl⟩
        · exact ⟨p,.inr (.inl hp),rfl⟩
    have hmin : (s.downloadResults.insert token e.result).minKey? = some old.1 := by
      rw [Std.TreeMap.minKey?_eq_some_iff_mem_and_forall]
      refine ⟨(hmem _).mpr (.inl rfl),fun key hkey => ?_⟩
      rcases (hmem key).mp hkey with rfl | hkey
      · simp
      · exact holdest hfull old others hold key hkey
    rw [hmin] at hresults
    dsimp only at hresults
    refine ⟨fun key => ?_,?_⟩
    · rw [hresults,hrecent,Std.TreeMap.getElem?_erase]
      simp only [compare_eq_iff_eq]
      split_ifs with heq
      · have hlookup : (others ++ [(token,e)]).lookup key = none := by
          rw [List.lookup_eq_none_iff]
          intro p hp
          rw [bne_iff_ne,← heq]
          rintro hp'
          rcases List.mem_append.mp hp with hp | hp
          · exact hkeys.1 (hp' ▸ List.mem_map_of_mem hp)
          · rw [List.mem_singleton.mp hp] at hp'
            exact holdnew hp'
        rw [hlookup]
        rfl
      · rw [hinsert,hold,List.cons_append,List.lookup_cons]
        have hbeq : (key == old.1) = false := by
          rw [beq_eq_false_iff_ne]
          exact Ne.symm heq
        rw [hbeq]
    · have hcontains : (s.downloadResults.insert token e.result).contains old.1 = true :=
        Std.TreeMap.mem_iff_contains.mp ((hmem _).mpr (.inl rfl))
      rw [hresults,hrecent,Std.TreeMap.size_erase,hcontains,hsize,hold]
      simp

end Cache

end Downloads
end FeatureRuntime
