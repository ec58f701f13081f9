import FeatureRuntime.DownloadTokens

/-! The calls of `onDownloadComplete`: what each is answered, on a running task, from the cache or at once. -/
namespace FeatureRuntime.Downloads

variable (s : Downloads)

def told (ids : CallbackIds) (id : ℤ) (answer : Answer) : List Answer :=
  (if 0 < id then [answer] else []) ++ (if 0 < ids.complete then [.complete] else []) ++ [.removed]

def answersOf (n : ℕ) : List Answer := (s.events.filter (fun e => e.call = some n)).map AnswerEvent.answer

/-- The outcome that a call with a token is told, and at which callback; none while the download runs. -/
def due (ids : CallbackIds) : TokenState → Option (ℤ × Answer)
  | .missing => some (ids.fail,.fail "token is missing" 1001)
  | .unknown => some (ids.fail,.fail "task not exist" 1001)
  | .finished e => some (e.result.id ids,e.result.answer)
  | .running token => (s.outcome token).map (fun e => (e.id ids,e.answer))

def goal (ids : CallbackIds) (asked : TokenState) : List Answer :=
  match s.due ids asked with
  | none => []
  | some (id,answer) => told ids id answer

/-- Every call of `onDownloadComplete` of a live instance has got a part of its answers, in their order and on
its own instance, and all of them when nothing is under way; and the cache has the most recent results. -/
structure Completed (s : Downloads) : Prop where
  noFault : s.fault = false
  answered : ∀ n c asked, s.calls[n]? = some c → c.asked = some asked → s.detached c.handle = false →
    s.answersOf n <+: s.goal c.ids asked ∧ (s.todo = [] → s.answersOf n = s.goal c.ids asked)
  handles : ∀ e ∈ s.events, ∀ n c, e.call = some n → s.calls[n]? = some c → e.handle = c.handle
  cache : ∀ token, s.downloadResults[token]? = (s.recent.lookup token).map TransferEnd.result
  noCrash : s.crashed = false

def Unshared (handle : ℕ) (ids : CallbackIds) (p : DownloadCall → Prop) : Prop :=
  ∀ n c, s.calls[n]? = some c → c.handle = handle → p c → .removed ∉ s.answersOf n →
    ∀ id ∈ [c.ids.success,c.ids.fail,c.ids.complete], 0 < id → id ∉ [ids.success,ids.fail,ids.complete]

/-- A task is told about at most one call, of its own instance and before its transfer ends, which happens
while the instance is there and leaves no file outside of the paths of the app; unfinished calls share no callbacks; and the cache is full only when its oldest
result has the smallest token. -/
def Orderly (s : Downloads) : DownloadOp → Prop
  | .download handle ids share malloc .. => s.inScript = true → s.detached handle = false →
      (malloc = true → share = false → ∀ info, s.shareInfo = some info →
        ∃ req, s.heap info = some req ∧ s.detached req.featureHandle = false) ∧
      s.Unshared handle ids (fun c => c.asked ≠ none)
  | .onDownloadComplete handle token ids => s.inScript = true → s.detached handle = false →
      (∀ t info, token = some t → s.findInfo t s.linklist = some (some info) → ∀ req, s.heap info = some req →
        req.featureHandle = handle ∧ req.call = none ∧ s.outcome t = none) ∧
      s.Unshared handle ids (fun _ => True)
  | .transferEnds info _ => s.todo = [] → info ∈ s.linklist → ∀ req, s.heap info = some req →
      s.detached req.featureHandle = false
  | .transferCrashes info => ¬ (s.todo.isEmpty ∧ info ∈ s.linklist ∧
      ∀ req ∈ s.heap info, s.detached req.featureHandle = false)
  | .next => ∀ info e rest req, s.todo = .addResult info e :: rest → s.heap info = some req →
      s.OldestFirst req.uuid
  | _ => True

def ofTask (heap : ℕ → Option ReqInfo) (info : ℕ) (f : ReqInfo → List Answer) : List (ℕ × Answer) :=
  match heap info with
  | none => []
  | some req =>
    match req.call with
    | none => []
    | some n => (f req).map (fun a => (n,a))

def expand (heap : ℕ → Option ReqInfo) : DownloadAction → List (ℕ × Answer)
  | .answer info e => ofTask heap info (fun req => if 0 < e.id req.callbacks then [e.answer] else [])
  | .complete info => ofTask heap info (fun req => if 0 < req.callbacks.complete then [.complete] else [])
  | .removeAll info => ofTask heap info (fun _ => [.removed])
  | .start _ call .. => [(call,.removed)]
  | .invoke call _ id answer => if 0 < id then [(call,answer)] else []
  | .removeIds call .. => [(call,.removed)]
  | _ => []

def select (n : ℕ) (answers : List (ℕ × Answer)) : List Answer :=
  answers.filterMap (fun a => if a.1 = n then some a.2 else none)

def coming (n : ℕ) : List Answer := select n (s.todo.flatMap (expand s.heap))

def promised (n : ℕ) : List Answer := s.answersOf n ++ s.coming n

def Agreed (calls : List DownloadCall) : DownloadAction → Prop
  | .start _ call handle ids .. => calls[call]? = some ⟨handle,ids,none⟩
  | .invoke call handle id answer => answer ≠ .removed ∧
      ∃ c, calls[call]? = some c ∧ c.handle = handle ∧ id ∈ [c.ids.success,c.ids.fail,c.ids.complete]
  | .removeIds call handle ids => ∃ c, calls[call]? = some c ∧ c.handle = handle ∧ c.ids = ids
  | _ => True

/-- The answers to every call, those under way included, are those of its outcome. -/
structure Answers (s : Downloads) : Prop where
  fresh : ∀ n, s.calls.length ≤ n → s.promised n = []
  promised : ∀ n c asked, s.calls[n]? = some c → c.asked = some asked → s.detached c.handle = false →
    s.promised n = s.goal c.ids asked
  removed_once : ∀ n, (s.promised n).count .removed ≤ 1
  agreed : ∀ action ∈ s.todo, Agreed s.calls action

/-- A task has the call that waits for it, with its callbacks. -/
structure Waits (s : Downloads) : Prop where
  task : ∀ info req n, s.heap info = some req → req.call = some n → info ∈ s.linklist ∧
    ∃ c, s.calls[n]? = some c ∧ c.handle = req.featureHandle ∧ c.ids = req.callbacks ∧
      c.asked = some (.running req.uuid)
  unasked : ∀ info req, s.heap info = some req → req.call = none → req.callbacks = {}
  waiting : ∀ n c token, s.calls[n]? = some c → c.asked = some (.running token) → s.outcome token = none →
    ∃ info ∈ s.linklist, ∃ req, s.heap info = some req ∧ req.uuid = token ∧ req.call = some n

/-- The callbacks of an unfinished call with a token are registered, and no other unfinished call has them. -/
structure Deliveries (s : Downloads) : Prop where
  positive : ∀ handle id, s.registered handle id = true → 0 < id
  registered : ∀ n c asked, s.calls[n]? = some c → c.asked = some asked → s.detached c.handle = false →
    .removed ∉ s.answersOf n → ∀ id ∈ [c.ids.success,c.ids.fail,c.ids.complete], 0 < id →
      s.registered c.handle id = true
  disjoint : ∀ n m c d asked, n ≠ m → s.calls[n]? = some c → s.calls[m]? = some d → c.asked = some asked →
    c.handle = d.handle → .removed ∉ s.answersOf n → .removed ∉ s.answersOf m →
    ∀ id ∈ [c.ids.success,c.ids.fail,c.ids.complete], 0 < id → id ∉ [d.ids.success,d.ids.fail,d.ids.complete]
  handles : ∀ e ∈ s.events, ∀ n c, e.call = some n → s.calls[n]? = some c → e.handle = c.handle

structure Completions (s : Downloads) : Prop where
  tasks : s.Tasks
  tokens : s.Tokens
  cache : s.Cache
  answers : s.Answers
  waits : s.Waits
  deliveries : s.Deliveries

section Lists

variable {s}

theorem select_append (n : ℕ) (xs ys : List (ℕ × Answer)) : select n (xs ++ ys) = select n xs ++ select n ys :=
  List.filterMap_append

theorem select_single (n m : ℕ) (a : Answer) : select n [(m,a)] = if m = n then [a] else [] := by
  unfold select
  by_cases h : m = n <;> simp [h]

theorem select_map (n m : ℕ) (answers : List Answer) :
    select n (answers.map (fun a => (m,a))) = if m = n then answers else [] := by
  induction answers with
  | nil => simp [select]
  | cons a answers ih =>
    rw [List.map_cons,← List.singleton_append,select_append,select_single,ih]
    split_ifs <;> rfl

theorem answersOf_snoc {t : Downloads} {e : AnswerEvent} (h : t.events = s.events ++ [e]) (n : ℕ) :
    t.answersOf n = s.answersOf n ++ (if e.call = some n then [e.answer] else []) := by
  unfold answersOf
  rw [h,List.filter_append,List.map_append]
  by_cases he : e.call = some n <;> simp [he]

theorem coming_cons {action : DownloadAction} {rest : List DownloadAction} (htodo : s.todo = action :: rest) (n : ℕ) :
    s.coming n = select n (expand s.heap action) ++ select n (rest.flatMap (expand s.heap)) := by
  unfold coming
  rw [htodo,List.flatMap_cons,select_append]

theorem told_split {ids : CallbackIds} {id : ℤ} {answer : Answer} (ha : answer ≠ .removed) {xs ys : List Answer}
    (h : told ids id answer = xs ++ ys) (hys : ys ≠ []) : .removed ∉ xs := by
  intro hmem
  have hlast : told ids id answer = ((if 0 < id then [answer] else []) ++
      (if 0 < ids.complete then [.complete] else [])) ++ [.removed] := rfl
  have hxs : xs <+: (if 0 < id then [answer] else []) ++ (if 0 < ids.complete then [Answer.complete] else []) := by
    have hdrop := congrArg List.dropLast h
    rw [hlast,List.dropLast_concat,List.dropLast_append_of_ne_nil hys] at hdrop
    exact hdrop ▸ List.prefix_append _ _
  have hfront := hxs.subset hmem
  rw [List.mem_append] at hfront
  rcases hfront with hfront | hfront
  · split_ifs at hfront
    · exact ha (List.mem_singleton.mp hfront).symm
    · exact absurd hfront List.not_mem_nil
  · split_ifs at hfront
    · exact absurd hfront (by simp)
    · exact absurd hfront List.not_mem_nil

theorem told_count {ids : CallbackIds} {id : ℤ} {answer : Answer} (ha : answer ≠ .removed) :
    (told ids id answer).count .removed = 1 := by
  unfold told
  simp only [List.count_append]
  split_ifs <;> simp [ha]

theorem expand_congr {heap heap' : ℕ → Option ReqInfo} {todo : List DownloadAction} (hordered : WellOrdered todo)
    (h : ∀ i ∈ discards todo, heap' i = heap i) : todo.flatMap (expand heap') = todo.flatMap (expand heap) := by
  induction todo with
  | nil => rfl
  | cons action todo ih =>
    have hsub : ∀ i ∈ discards todo, heap' i = heap i := by
      intro i hi
      exact h i ((discards_append [action] todo) ▸ List.mem_append_right _ hi)
    rw [List.flatMap_cons,List.flatMap_cons,ih hordered.2 hsub]
    congr 1
    cases action with
    | answer info e => simp only [expand,ofTask,hsub info hordered.1]
    | complete info => simp only [expand,ofTask,hsub info hordered.1]
    | removeAll info => simp only [expand,ofTask,hsub info hordered.1]
    | _ => rfl

theorem goal_cases (s : Downloads) (ids : CallbackIds) (asked : TokenState) :
    s.goal ids asked = [] ∨ ∃ id answer, answer ≠ .removed ∧ s.goal ids asked = told ids id answer := by
  unfold goal
  cases asked with
  | missing => exact .inr ⟨ids.fail,.fail "token is missing" 1001,nofun,rfl⟩
  | unknown => exact .inr ⟨ids.fail,.fail "task not exist" 1001,nofun,rfl⟩
  | finished e =>
    refine .inr ⟨_,_,?_,rfl⟩
    unfold DownloadResult.answer
    split_ifs <;> nofun
  | running token =>
    cases hout : s.outcome token with
    | none => simp [due,hout]
    | some e =>
      exact .inr ⟨e.id ids,e.answer,e.answer_ne_removed,by simp [due,hout]⟩

theorem goal_congr {t : Downloads} (h : t.outcome = s.outcome) (ids : CallbackIds) (asked : TokenState) :
    t.goal ids asked = s.goal ids asked := by
  unfold goal due
  rw [h]

theorem goal_split {ids : CallbackIds} {asked : TokenState} {xs ys : List Answer}
    (h : s.goal ids asked = xs ++ ys) (hys : ys ≠ []) : .removed ∉ xs := by
  rcases s.goal_cases ids asked with hnil | ⟨id,answer,hne,htold⟩
  · rw [hnil] at h
    exact absurd (List.append_eq_nil_iff.mp h.symm).2 hys
  · exact told_split hne (htold.symm.trans h) hys

theorem coming_answerCall {t : Downloads} {call handle : ℕ} {ids : CallbackIds} {id : ℤ} {answer : Answer}
    {tail : List DownloadAction} (htodo : t.todo = answerCall call handle ids id answer ++ tail) (n : ℕ) :
    t.coming n = (if call = n then told ids id answer else []) ++ select n (tail.flatMap (expand t.heap)) := by
  have hexpand : (answerCall call handle ids id answer).flatMap (expand t.heap) =
      (told ids id answer).map (fun a => (call,a)) := by
    unfold answerCall told
    simp only [List.flatMap_cons,List.flatMap_nil,expand,List.append_nil,List.map_append]
    split_ifs <;> rfl
  unfold coming
  rw [htodo,List.flatMap_append,select_append,hexpand,select_map]

end Lists

section Keep

variable {s}

theorem Answers.keep (hs : s.Answers) {t : Downloads} (hcalls : t.calls = s.calls)
    (hdetached : t.detached = s.detached) (houtcome : t.outcome = s.outcome)
    (hpromised : ∀ n c asked, s.calls[n]? = some c → c.asked = some asked → s.detached c.handle = false →
      t.promised n = s.promised n) (hfresh : ∀ n, s.promised n = [] → t.promised n = [])
    (hcount : ∀ n, (t.promised n).count .removed ≤ (s.promised n).count .removed)
    (hagreed : ∀ action ∈ t.todo, Agreed s.calls action) : t.Answers where
  fresh n hn := hfresh n (hs.fresh n (hcalls ▸ hn))
  promised n c asked hc hasked hattached := by
    rw [hcalls] at hc
    rw [hdetached] at hattached
    rw [goal_congr houtcome,hpromised n c asked hc hasked hattached]
    exact hs.promised n c asked hc hasked hattached
  removed_once n := (hcount n).trans (hs.removed_once n)
  agreed := by rw [hcalls]; exact hagreed

theorem Answers.keep_all (hs : s.Answers) {t : Downloads} (hcalls : t.calls = s.calls)
    (hdetached : t.detached = s.detached) (houtcome : t.outcome = s.outcome)
    (hpromised : ∀ n, t.promised n = s.promised n) (hagreed : ∀ action ∈ t.todo, Agreed s.calls action) :
    t.Answers :=
  hs.keep hcalls hdetached houtcome (fun n _ _ _ _ _ => hpromised n) (fun n h => (hpromised n).trans h)
    (fun n => (congrArg (List.count Answer.removed) (hpromised n)).le) hagreed

theorem Waits.keep (hs : s.Waits) {t : Downloads} (hcalls : t.calls = s.calls) (houtcome : t.outcome = s.outcome)
    (hheap : t.heap = s.heap) (hlinklist : t.linklist = s.linklist) : t.Waits where
  task := by rw [hheap,hlinklist,hcalls]; exact hs.task
  unasked := by rw [hheap]; exact hs.unasked
  waiting := by rw [hcalls,houtcome,hheap,hlinklist]; exact hs.waiting

theorem Deliveries.keep (hs : s.Deliveries) {t : Downloads} (hcalls : t.calls = s.calls)
    (hdetached : t.detached = s.detached) (hregistered : t.registered = s.registered)
    (hremoved : ∀ n, .removed ∈ t.answersOf n ↔ .removed ∈ s.answersOf n)
    (hevents : ∀ e ∈ t.events, e ∈ s.events ∨
      ∀ n c, e.call = some n → s.calls[n]? = some c → e.handle = c.handle) : t.Deliveries where
  positive := by rw [hregistered]; exact hs.positive
  registered n c asked hc hasked hattached hn := by
    rw [hcalls] at hc
    rw [hdetached] at hattached
    rw [hremoved] at hn
    rw [hregistered]
    exact hs.registered n c asked hc hasked hattached hn
  disjoint n m c d asked hne hc hd hasked hhandle hn hm := by
    rw [hcalls] at hc hd
    rw [hremoved] at hn hm
    exact hs.disjoint n m c d asked hne hc hd hasked hhandle hn hm
  handles e he n c hcall hc := by
    rw [hcalls] at hc
    rcases hevents e he with hold | hnew
    · exact hs.handles e hold n c hcall hc
    · exact hnew n c hcall hc

end Keep

namespace Completions

variable {s}

theorem completed (hs : s.Completions) (hcrash : s.crashed = false) : s.Completed where
  noFault := hs.tasks.noFault
  noCrash := hcrash
  answered n c asked hc hasked hattached := by
    have hpromised := hs.answers.promised n c asked hc hasked hattached
    refine ⟨hpromised ▸ List.prefix_append _ _,fun htodo => ?_⟩
    rw [← hpromised,promised,coming,htodo]
    simp [select]
  handles := hs.deliveries.handles
  cache := hs.cache.lookup

variable {action : DownloadAction} {rest : List DownloadAction}

theorem agreed_rest (hs : s.Completions) (htodo : s.todo = action :: rest) :
    ∀ a ∈ rest, Agreed s.calls a := fun a ha => hs.answers.agreed a (htodo ▸ List.mem_cons_of_mem _ ha)

theorem tokens_rest (hs : s.Completions) (htodo : s.todo = action :: rest) (hdiscards : discards [action] = [])
    (hendings : endings [action] = []) {t : Downloads} (hissued : t.issued = s.issued)
    (hstart : t.startUuid = s.startUuid) (hlinklist : t.linklist = s.linklist)
    (huuid : ∀ i ∈ s.linklist, t.uuidOf i = s.uuidOf i) (hended : t.ended = s.ended)
    (houtcome : t.outcome = s.outcome) (hrest : t.todo = rest) : t.Tokens := by
  have hsplit : s.todo = [action] ++ rest := htodo
  refine hs.tokens.keep hissued hstart hlinklist huuid hended houtcome hs.tasks ?_ ?_
  · rw [hrest,hsplit,discards_append,hdiscards,List.nil_append]
  · rw [hrest,hsplit,endings_append,hendings,List.nil_append]

theorem invoke (hs : s.Completions) (htodo : s.todo = action :: rest) (hdiscards : discards [action] = [])
    (hendings : endings [action] = []) {call : Option ℕ} {handle : ℕ} {id : ℤ} {answer : Answer}
    (hexpand : ∀ n, select n (expand s.heap action) = if call = some n ∧ 0 < id then [answer] else [])
    (hcall : ∀ m, call = some m → ∃ c, s.calls[m]? = some c ∧ c.handle = handle ∧
      id ∈ [c.ids.success,c.ids.fail,c.ids.complete]) (hne : answer ≠ .removed)
    (ht : ({ s with todo := rest, inScript := false }.invokeCallback call handle id answer).Tasks) :
    ({ s with todo := rest, inScript := false }.invokeCallback call handle id answer).Completions := by
  have hcoming := fun n => coming_cons htodo n
  unfold invokeCallback at ht ⊢
  by_cases hregistered : s.registered handle id = true
  · have hpos := hs.deliveries.positive handle id hregistered
    rw [if_pos hregistered] at ht ⊢
    have hremoved : ∀ n, .removed ∈ Downloads.answersOf { s with
        todo := rest, inScript := true, events := s.events ++ [⟨call,handle,answer⟩] } n ↔ .removed ∈ s.answersOf n := by
      intro n
      rw [answersOf_snoc (s := s) rfl,List.mem_append]
      dsimp only
      split_ifs
      · simp [hne.symm]
      · simp
    refine ⟨ht,hs.tokens_rest htodo hdiscards hendings rfl rfl rfl (fun _ _ => rfl) rfl rfl rfl,
      ⟨hs.cache.lookup,hs.cache.size⟩,hs.answers.keep_all rfl rfl rfl (fun n => ?_) (hs.agreed_rest htodo),
      hs.waits.keep rfl rfl rfl rfl,hs.deliveries.keep rfl rfl rfl hremoved (fun e he => ?_)⟩
    · unfold promised
      rw [answersOf_snoc (s := s) rfl,hcoming n,hexpand]
      dsimp only
      simp only [hpos,and_true,List.append_assoc]
      rfl
    · rcases List.mem_append.mp he with he | he
      · exact .inl he
      · rw [List.mem_singleton.mp he]
        refine .inr (fun n c hn hc => ?_)
        obtain ⟨d,hd,hhandle,_⟩ := hcall n hn
        obtain rfl := Option.some.inj (hd.symm.trans hc)
        exact hhandle.symm
  · rw [if_neg hregistered] at ht ⊢
    have hnow : ∀ n, Downloads.promised { s with todo := rest, inScript := false } n =
        s.answersOf n ++ select n (rest.flatMap (expand s.heap)) := fun _ => rfl
    have hbefore : ∀ n, s.promised n = s.answersOf n ++ ((if call = some n ∧ 0 < id then [answer] else []) ++
        select n (rest.flatMap (expand s.heap))) := by
      intro n
      rw [promised,hcoming n,hexpand]
    refine ⟨ht,hs.tokens_rest htodo hdiscards hendings rfl rfl rfl (fun _ _ => rfl) rfl rfl rfl,
      ⟨hs.cache.lookup,hs.cache.size⟩,hs.answers.keep rfl rfl rfl (fun n c asked hc hasked hattached => ?_)
      (fun n hn => ?_) (fun n => ?_) (hs.agreed_rest htodo),hs.waits.keep rfl rfl rfl rfl,
      hs.deliveries.keep rfl rfl rfl (fun _ => Iff.rfl) (fun e he => .inl he)⟩
    · rw [hnow,hbefore]
      by_cases hmine : call = some n ∧ 0 < id
      · -- the call is not finished, so that its callback is there
        have hgoal := hs.answers.promised n c asked hc hasked hattached
        rw [hbefore,if_pos hmine] at hgoal
        have hunfinished := goal_split hgoal.symm (by simp)
        obtain ⟨d,hd,hhandle,hid⟩ := hcall n hmine.1
        obtain rfl := Option.some.inj (hd.symm.trans hc)
        have hthere := hs.deliveries.registered n d asked hc hasked hattached hunfinished id hid hmine.2
        rw [hhandle] at hthere
        exact absurd hthere hregistered
      · rw [if_neg hmine,List.nil_append]
    · rw [hbefore,List.append_eq_nil_iff,List.append_eq_nil_iff] at hn
      rw [hnow,hn.1,hn.2.2]
      rfl
    · rw [hnow,hbefore]
      simp only [List.count_append]
      omega

theorem remove (hs : s.Completions) (htodo : s.todo = action :: rest) (hdiscards : discards [action] = [])
    (hendings : endings [action] = []) {call : Option ℕ} {handle : ℕ} {ids : CallbackIds}
    (hexpand : ∀ n, select n (expand s.heap action) = if call = some n then [.removed] else [])
    (hcall : ∀ m, call = some m → ∃ c, s.calls[m]? = some c ∧ c.handle = handle ∧ c.ids = ids)
    (hnone : call = none → ids = {})
    (ht : ({ s with todo := rest, inScript := false }.removeCallbacks call handle ids).Tasks) :
    ({ s with todo := rest, inScript := false }.removeCallbacks call handle ids).Completions := by
  have hcoming := fun n => coming_cons htodo n
  have hpromised : ∀ n, ({ s with todo := rest, inScript := false }.removeCallbacks call handle ids).promised n =
      s.promised n := by
    intro n
    unfold promised
    rw [answersOf_snoc (s := s) rfl,hcoming n,hexpand,List.append_assoc]
    rfl
  have hremoved : ∀ n, .removed ∈
      ({ s with todo := rest, inScript := false }.removeCallbacks call handle ids).answersOf n ↔
        .removed ∈ s.answersOf n ∨ call = some n := by
    intro n
    rw [answersOf_snoc (s := s) rfl,List.mem_append]
    dsimp only
    split_ifs with h <;> simp [h]
  have hunfinished : ∀ m, call = some m → .removed ∉ s.answersOf m := by
    intro m hm hmem
    have hcount := hs.answers.removed_once m
    have hpos := List.count_pos_iff.mpr hmem
    rw [promised,hcoming m,hexpand,if_pos hm] at hcount
    simp only [List.count_append,List.count_cons_self,List.count_nil] at hcount
    omega
  refine ⟨ht,hs.tokens_rest htodo hdiscards hendings rfl rfl rfl (fun _ _ => rfl) rfl rfl rfl,
    ⟨hs.cache.lookup,hs.cache.size⟩,hs.answers.keep_all rfl rfl rfl hpromised (hs.agreed_rest htodo),
    hs.waits.keep rfl rfl rfl rfl,⟨fun h id hid => ?_,fun n c asked hc hasked hattached hn id hid hpos => ?_,
    fun n m c d asked hdiff hc hd hasked hhandle hn hm => ?_,fun e he n c hn hc => ?_⟩⟩
  · simp only [removeCallbacks,Function.update_apply] at hid
    split_ifs at hid with heq
    · rw [Bool.and_eq_true] at hid
      exact hs.deliveries.positive handle id hid.1
    · exact hs.deliveries.positive h id hid
  · rw [hremoved,not_or] at hn
    have hold := hs.deliveries.registered n c asked hc hasked hattached hn.1 id hid hpos
    have hfree : c.handle = handle → id ∉ [ids.success,ids.fail,ids.complete] := by
      intro hhandle
      cases hcase : call with
      | none =>
        rw [hnone hcase]
        simp
        omega
      | some m =>
        obtain ⟨d,hd,hdhandle,hdids⟩ := hcall m hcase
        have hdiff : n ≠ m := by
          rintro rfl
          exact hn.2 hcase
        rw [← hdids]
        exact hs.deliveries.disjoint n m c d asked hdiff hc hd hasked (hhandle.trans hdhandle.symm) hn.1
          (hunfinished m hcase) id hid hpos
    simp only [removeCallbacks,Function.update_apply]
    split_ifs with heq
    · rw [heq] at hold
      have hnot := hfree heq
      simp only [List.mem_cons,List.not_mem_nil,or_false,not_or] at hnot
      simp [hold,hnot.1,hnot.2.1,hnot.2.2]
    · exact hold
  · rw [hremoved,not_or] at hn hm
    exact hs.deliveries.disjoint n m c d asked hdiff hc hd hasked hhandle hn.1 hm.1
  · rcases List.mem_append.mp he with he | he
    · exact hs.deliveries.handles e he n c hn hc
    · rw [List.mem_singleton.mp he] at hn ⊢
      obtain ⟨d,hd,hhandle,_⟩ := hcall n hn
      obtain rfl := Option.some.inj (hd.symm.trans hc)
      exact hhandle.symm

theorem agreed_head (hs : s.Completions) (htodo : s.todo = action :: rest) : Agreed s.calls action :=
  hs.answers.agreed action (htodo ▸ List.mem_cons_self)

/-- An action that answers nothing, and touches only tasks without actions under way. -/
theorem silent (hs : s.Completions) (htodo : s.todo = action :: rest) (hexpand : expand s.heap action = [])
    {t : Downloads} (ht : t.Tasks) (htokens : t.Tokens) (hcache : t.Cache) (hwaits : t.Waits)
    (hheap : ∀ i ∈ discards rest, t.heap i = s.heap i) (hcalls : t.calls = s.calls)
    (hdetached : t.detached = s.detached) (houtcome : t.outcome = s.outcome)
    (hregistered : t.registered = s.registered) (hevents : t.events = s.events) (hrest : t.todo = rest) :
    t.Completions := by
  have hanswers : ∀ n, t.answersOf n = s.answersOf n := by
    intro n
    unfold answersOf
    rw [hevents]
  have hpromised : ∀ n, t.promised n = s.promised n := by
    intro n
    unfold promised
    rw [hanswers,coming_cons htodo n,hexpand,coming,hrest,expand_congr (hs.tasks.ordered_head htodo).2 hheap]
    rfl
  refine ⟨ht,htokens,hcache,hs.answers.keep_all hcalls hdetached houtcome hpromised ?_,hwaits,
    hs.deliveries.keep hcalls hdetached hregistered (fun n => by rw [hanswers]) (fun e he => .inl (hevents ▸ he))⟩
  rw [hrest]
  exact hs.agreed_rest htodo

theorem waits_free (hs : s.Completions) {info : ℕ} {t : Downloads} (hcalls : t.calls = s.calls)
    (houtcome : t.outcome = s.outcome) (hheap : t.heap = Function.update s.heap info none)
    (hlinklist : ∀ i, i ≠ info → (i ∈ t.linklist ↔ i ∈ s.linklist))
    (hover : info ∈ s.linklist → ∀ req, s.heap info = some req → s.outcome req.uuid ≠ none) : t.Waits := by
  have hget : ∀ i req, t.heap i = some req → i ≠ info ∧ s.heap i = some req := by
    intro i req hi
    rw [hheap] at hi
    by_cases heq : i = info
    · simp [heq] at hi
    · exact ⟨heq,by rwa [Function.update_of_ne heq] at hi⟩
  refine ⟨fun i req n hi hn => ?_,fun i req hi hnone => ?_,fun n c token hc hasked hout => ?_⟩
  · obtain ⟨hne,hi⟩ := hget i req hi
    rw [hlinklist i hne,hcalls]
    exact hs.waits.task i req n hi hn
  · exact hs.waits.unasked i req (hget i req hi).2 hnone
  · rw [hcalls] at hc
    rw [houtcome] at hout
    obtain ⟨i,hi,req,hreq,huuid,hcall⟩ := hs.waits.waiting n c token hc hasked hout
    have hne : i ≠ info := by
      rintro rfl
      exact hover hi req hreq (huuid ▸ hout)
    refine ⟨i,(hlinklist i hne).mpr hi,req,?_,huuid,hcall⟩
    rw [hheap,Function.update_of_ne hne]
    exact hreq

theorem uuidOf_of_heap {info : ℕ} {req : ReqInfo} (h : s.heap info = some req) : s.uuidOf info = some req.uuid := by
  rw [uuidOf,h]
  rfl

theorem addResult (hs : s.Completions) {info : ℕ} {e : TransferEnd} (htodo : s.todo = .addResult info e :: rest)
    (holdest : ∀ req, s.heap info = some req → s.OldestFirst req.uuid)
    (ht : ({ s with todo := rest, inScript := false }.perform (.addResult info e)).Tasks) :
    ({ s with todo := rest, inScript := false }.perform (.addResult info e)).Completions := by
  have hmem : (info,e) ∈ endings s.todo := mem_endings.mpr (htodo ▸ List.mem_cons_self)
  have hlinked := hs.tasks.discards_linked info (hs.tasks.ordered.endings_discarded hmem)
  obtain ⟨req,hreq⟩ := Option.isSome_iff_exists.mp ((hs.tasks.live info).mpr (.inl hlinked))
  have huuid := uuidOf_of_heap hreq
  have hnew := (hs.tokens.endings_new (info,e) hmem req.uuid huuid).2
  simp only [perform,hreq] at ht ⊢
  refine hs.silent htodo rfl ht ?_ ?_ (hs.waits.keep rfl rfl rfl rfl) (fun _ _ => rfl) rfl rfl rfl rfl rfl rfl
  · exact hs.tokens.addResult hs.tasks htodo huuid rfl rfl rfl rfl rfl rfl rfl
  · exact hs.cache.addResult hs.tokens hnew (holdest req hreq) rfl rfl

theorem discard (hs : s.Completions) {info : ℕ} (htodo : s.todo = .discard info :: rest)
    (ht : ({ s with todo := rest, inScript := false }.perform (.discard info)).Tasks) :
    ({ s with todo := rest, inScript := false }.perform (.discard info)).Completions := by
  have hdiscards : discards s.todo = info :: discards rest := by rw [htodo]; rfl
  have hmem : info ∈ discards s.todo := by simp [hdiscards]
  have hlinked := hs.tasks.discards_linked info hmem
  obtain ⟨req,hreq⟩ := Option.isSome_iff_exists.mp ((hs.tasks.live info).mpr (.inl hlinked))
  have hnodup := hs.tasks.discards_nodup
  rw [hdiscards,List.nodup_cons] at hnodup
  simp only [perform,freeReqInfo,hreq] at ht ⊢
  refine hs.silent htodo rfl ht ?_ ⟨hs.cache.lookup,hs.cache.size⟩ ?_ (fun i hi => ?_) rfl rfl rfl rfl rfl rfl
  · refine hs.tokens.discard hs.tasks htodo rfl rfl rfl (fun i hne => ?_) rfl rfl rfl
    unfold uuidOf
    dsimp only
    rw [Function.update_of_ne hne]
  · refine hs.waits_free rfl rfl rfl (fun i hne => List.mem_erase_of_ne hne) (fun _ r hr => ?_)
    obtain rfl := Option.some.inj (hreq.symm.trans hr)
    have hout := (hs.tokens.ending info hlinked _ (uuidOf_of_heap hreq)).mpr hmem
    exact Option.isSome_iff_ne_none.mp hout
  · have hne : i ≠ info := fun heq => hnodup.1 (heq ▸ hi)
    dsimp only
    rw [Function.update_of_ne hne]

theorem free (hs : s.Completions) {info : ℕ} (htodo : s.todo = .free info :: rest)
    (ht : ({ s with todo := rest, inScript := false }.perform (.free info)).Tasks) :
    ({ s with todo := rest, inScript := false }.perform (.free info)).Completions := by
  have hmem : info ∈ owned s.todo := by
    rw [htodo]
    exact List.mem_cons_self
  have hnot : info ∉ s.linklist := fun h => hs.tasks.not_owned_of_linked h hmem
  obtain ⟨req,hreq⟩ := Option.isSome_iff_exists.mp ((hs.tasks.live info).mpr (.inr hmem))
  have hsame : ∀ i ∈ s.linklist, Function.update s.heap info none i = s.heap i := by
    intro i hi
    have hne : i ≠ info := fun heq => hnot (heq ▸ hi)
    rw [Function.update_of_ne hne]
  simp only [perform,freeReqInfo,hreq] at ht ⊢
  refine hs.silent htodo rfl ht ?_ ⟨hs.cache.lookup,hs.cache.size⟩ ?_ (fun i hi => ?_) rfl rfl rfl rfl rfl rfl
  · refine hs.tokens_rest htodo rfl rfl rfl rfl rfl (fun i hi => ?_) rfl rfl rfl
    unfold uuidOf
    dsimp only
    rw [hsame i hi]
  · exact hs.waits_free rfl rfl rfl (fun _ _ => Iff.rfl) (fun h => absurd h hnot)
  · refine hsame i (hs.tasks.discards_linked i ?_)
    rw [htodo]
    exact hi

theorem answerCall_agreed {calls : List DownloadCall} {call handle : ℕ} {ids : CallbackIds} {id : ℤ}
    {answer : Answer} {c : DownloadCall} (hc : calls[call]? = some c) (hhandle : c.handle = handle)
    (hids : c.ids = ids) (hid : id ∈ [ids.success,ids.fail,ids.complete]) (hne : answer ≠ .removed) :
    ∀ a ∈ answerCall call handle ids id answer, Agreed calls a := by
  intro a ha
  simp only [answerCall,List.mem_cons,List.not_mem_nil,or_false] at ha
  rcases ha with rfl | rfl | rfl
  · exact ⟨hne,c,hc,hhandle,hids ▸ hid⟩
  · exact ⟨by simp,c,hc,hhandle,by simp [hids]⟩
  · exact ⟨c,hc,hhandle,hids⟩

/-- The outcome of a call of `download`. -/
theorem answers_start (hs : s.Completions) {info call handle : ℕ} {ids : CallbackIds} {share : Bool}
    {url : Option String} {disk : Bool} {now rand : ℕ}
    (htodo : s.todo = .start info call handle ids share url disk now rand :: rest) {t : Downloads} {id : ℤ}
    {answer : Answer} {tail : List DownloadAction} (hrest : t.todo = answerCall call handle ids id answer ++ tail)
    (htail : tail.flatMap (expand t.heap) = rest.flatMap (expand s.heap))
    (htailAgreed : ∀ a ∈ tail, Agreed s.calls a) (hid : id ∈ [ids.success,ids.fail,ids.complete])
    (hne : answer ≠ .removed) (hcalls : t.calls = s.calls) (hdetached : t.detached = s.detached)
    (houtcome : t.outcome = s.outcome) (hevents : t.events = s.events) : t.Answers := by
  have hcall : s.calls[call]? = some ⟨handle,ids,none⟩ := hs.agreed_head htodo
  have hbefore : ∀ n, s.promised n = s.answersOf n ++ ((if call = n then [.removed] else []) ++
      select n (rest.flatMap (expand s.heap))) := by
    intro n
    rw [promised,coming_cons htodo n]
    unfold expand
    rw [select_single]
  have hafter : ∀ n, t.promised n = s.answersOf n ++ ((if call = n then told ids id answer else []) ++
      select n (rest.flatMap (expand s.heap))) := by
    intro n
    have hanswers : t.answersOf n = s.answersOf n := by
      unfold answersOf
      rw [hevents]
    rw [promised,coming_answerCall hrest,htail,hanswers]
  refine hs.answers.keep hcalls hdetached houtcome (fun n c asked hc hasked _ => ?_) (fun n hn => ?_)
    (fun n => ?_) (fun a ha => ?_)
  · have hdiff : call ≠ n := by
      rintro rfl
      obtain rfl := Option.some.inj (hcall.symm.trans hc)
      exact nomatch hasked
    rw [hbefore,hafter,if_neg hdiff,if_neg hdiff]
  · rw [hbefore] at hn
    have hdiff : call ≠ n := by
      rintro rfl
      simp at hn
    rw [if_neg hdiff] at hn
    rw [hafter,if_neg hdiff]
    exact hn
  · rw [hbefore,hafter]
    simp only [List.count_append]
    split_ifs
    · rw [told_count hne]
      simp
    · exact le_rfl
  · rw [hrest] at ha
    rcases List.mem_append.mp ha with ha | ha
    · exact answerCall_agreed hcall rfl rfl hid hne a ha
    · exact htailAgreed a ha

section Start

variable {info call handle : ℕ} {ids : CallbackIds} {share : Bool} {url : Option String} {disk : Bool} {now rand : ℕ}
  {id : ℤ} {answer : Answer}

theorem start_refused (hs : s.Completions)
    (htodo : s.todo = .start info call handle ids share url disk now rand :: rest)
    (hid : id ∈ [ids.success,ids.fail,ids.complete]) (hne : answer ≠ .removed) (t : Downloads)
    (ht : { s with
      inScript := false
      shareInfo := if share then s.shareInfo else some info
      todo := answerCall call handle ids id answer ++ .free info :: .ret :: rest } = t) (htasks : t.Tasks) :
    t.Completions := by
  subst ht
  have hdiscards : discards s.todo = discards rest := by rw [htodo]; rfl
  have hendings : endings s.todo = endings rest := by rw [htodo]; rfl
  have hagreed : ∀ a ∈ DownloadAction.free info :: .ret :: rest, Agreed s.calls a := by
    intro a ha
    rcases List.mem_cons.mp ha with rfl | ha
    · trivial
    · rcases List.mem_cons.mp ha with rfl | ha
      · trivial
      · exact hs.agreed_rest htodo a ha
  exact ⟨htasks,hs.tokens.keep rfl rfl rfl (fun _ _ => rfl) rfl rfl hs.tasks hdiscards.symm hendings.symm,
    ⟨hs.cache.lookup,hs.cache.size⟩,hs.answers_start htodo rfl rfl hagreed hid hne rfl rfl rfl rfl,
    hs.waits.keep rfl rfl rfl rfl,hs.deliveries.keep rfl rfl rfl (fun _ => Iff.rfl) (fun e he => .inl he)⟩

theorem start (hs : s.Completions) (htodo : s.todo = .start info call handle ids share url disk now rand :: rest)
    (ht : ({ s with todo := rest, inScript := false }.start info call handle ids share url disk now rand).Tasks) :
    ({ s with todo := rest, inScript := false }.start info call handle ids share url disk now rand).Completions := by
  have hrest := hs.agreed_rest htodo
  have hmem : info ∈ owned s.todo := by
    rw [htodo]
    exact List.mem_cons_self
  have hnot : info ∉ s.linklist := fun h => hs.tasks.not_owned_of_linked h hmem
  have hdiscards : discards s.todo = discards rest := by rw [htodo]; rfl
  have hendings : endings s.todo = endings rest := by rw [htodo]; rfl
  obtain ⟨req,hreq⟩ := Option.isSome_iff_exists.mp ((hs.tasks.live info).mpr (.inr hmem))
  unfold Downloads.start at ht ⊢
  by_cases hurl : isValidUri url = false
  · simp only [hurl,if_true] at ht ⊢
    exact hs.start_refused htodo (by simp) (by simp) _ rfl ht
  by_cases hdisk : disk = false
  · simp only [if_neg hurl,hdisk,if_true] at ht ⊢
    exact hs.start_refused htodo (by simp) (by simp) _ rfl ht
  · simp only [if_neg hurl,if_neg hdisk,setInfo,hreq,Option.map_some] at ht ⊢
    have hother : ∀ i, i ≠ info → ∀ v : ReqInfo, Function.update s.heap info (some v) i = s.heap i :=
      fun i hne v => Function.update_of_ne hne _ _
    have hfree : ∀ i ∈ discards rest, i ≠ info := by
      rintro i hi rfl
      exact hnot (hs.tasks.discards_linked i (hdiscards ▸ hi))
    refine ⟨ht,?_,⟨hs.cache.lookup,hs.cache.size⟩,?_,⟨fun i r n hr hn => ?_,fun i r hr hnone => ?_,
      fun n c token hc hasked hout => ?_⟩,
      hs.deliveries.keep rfl rfl rfl (fun _ => Iff.rfl) (fun e he => .inl he)⟩
    · refine hs.tokens.commit hs.tasks htodo rfl rfl rfl (fun i => ?_) rfl rfl hdiscards.symm hendings.symm
      unfold uuidOf
      dsimp only
      by_cases heq : i = info
      · subst heq
        simp
      · rw [hother i heq,if_neg heq]
    · refine hs.answers_start htodo rfl ?_ (fun a ha => ?_) (by simp) (by simp) rfl rfl rfl rfl
      · rw [List.flatMap_cons]
        dsimp only
        rw [expand_congr (hs.tasks.ordered_head htodo).2 (fun i hi => hother i (hfree i hi) _)]
        rfl
      · rcases List.mem_cons.mp ha with rfl | ha
        · trivial
        · exact hrest a ha
    · dsimp only at hr
      by_cases heq : i = info
      · subst heq
        rw [Function.update_self] at hr
        obtain rfl := Option.some.inj hr
        exact absurd (hs.waits.task i req n hreq hn).1 hnot
      · rw [hother i heq] at hr
        obtain ⟨hlinked,hc⟩ := hs.waits.task i r n hr hn
        exact ⟨List.mem_append_left _ hlinked,hc⟩
    · dsimp only at hr
      by_cases heq : i = info
      · subst heq
        rw [Function.update_self] at hr
        obtain rfl := Option.some.inj hr
        exact hs.waits.unasked i req hreq hnone
      · rw [hother i heq] at hr
        exact hs.waits.unasked i r hr hnone
    · obtain ⟨i,hi,r,hr,huuid,hcall⟩ := hs.waits.waiting n c token hc hasked hout
      have hne : i ≠ info := fun heq => hnot (heq ▸ hi)
      refine ⟨i,List.mem_append_left _ hi,r,?_,huuid,hcall⟩
      dsimp only
      rw [hother i hne]
      exact hr

end Start

theorem next (hs : s.Completions) (hop : s.Orderly .next) : s.next.Completions := by
  have ht := hs.tasks.next
  unfold Downloads.next at ht ⊢
  cases htodo : s.todo with
  | nil => exact hs
  | cons action rest =>
    rw [htodo] at ht
    dsimp only at ht ⊢
    have hordered := (hs.tasks.ordered_head htodo).1
    have hlive : ∀ {info}, (∀ i, action ≠ .discard i) → info ∈ discards rest → ∃ req, s.heap info = some req := by
      intro info hplain hinfo
      refine hs.tasks.live_of_discards ?_
      rw [htodo]
      exact (discards_append [action] rest) ▸ List.mem_append_right _ hinfo
    -- the callbacks of a task are those of the call that waits for it
    have htask : ∀ {info req}, s.heap info = some req → ∀ {id : ℤ}, id ∈ [req.callbacks.success,
        req.callbacks.fail,req.callbacks.complete] → ∀ m, req.call = some m → ∃ c, s.calls[m]? = some c ∧
          c.handle = req.featureHandle ∧ id ∈ [c.ids.success,c.ids.fail,c.ids.complete] := by
      intro info req hreq id hid m hm
      obtain ⟨_,c,hc,hhandle,hids,_⟩ := hs.waits.task info req m hreq hm
      exact ⟨c,hc,hhandle,hids ▸ hid⟩
    have hof : ∀ {info req}, s.heap info = some req → ∀ (f : ReqInfo → List Answer) n,
        select n (ofTask s.heap info f) = if req.call = some n then f req else [] := by
      intro info req hreq f n
      unfold ofTask
      rw [hreq]
      dsimp only
      cases hcall : req.call with
      | none => simp [select]
      | some m =>
        dsimp only
        rw [select_map]
        simp
    cases action with
    | answer info e =>
      obtain ⟨req,hreq⟩ := hlive (by simp) hordered
      simp only [perform,hreq] at ht ⊢
      refine hs.invoke htodo rfl rfl (fun n => ?_) (htask hreq ?_) e.answer_ne_removed ht
      · rw [expand,hof hreq,ite_and]
      · cases e <;> simp [TransferEnd.id]
    | addResult info e => exact hs.addResult htodo (fun req hreq => hop info e rest req htodo hreq) ht
    | complete info =>
      obtain ⟨req,hreq⟩ := hlive (by simp) hordered
      simp only [perform,hreq] at ht ⊢
      refine hs.invoke htodo rfl rfl (fun n => ?_) (htask hreq (by simp)) (by simp) ht
      rw [expand,hof hreq,ite_and]
    | removeAll info =>
      obtain ⟨req,hreq⟩ := hlive (by simp) hordered
      simp only [perform,hreq] at ht ⊢
      refine hs.remove htodo rfl rfl (fun n => ?_) (fun m hm => ?_) (hs.waits.unasked info req hreq) ht
      · rw [expand,hof hreq]
      · obtain ⟨_,c,hc,hhandle,hids,_⟩ := hs.waits.task info req m hreq hm
        exact ⟨c,hc,hhandle,hids⟩
    | discard info => exact hs.discard htodo ht
    | start info call handle ids share url disk now rand => exact hs.start htodo ht
    | invoke call handle id answer =>
      obtain ⟨hne,hcall⟩ := hs.agreed_head htodo
      refine hs.invoke htodo rfl rfl (fun n => ?_) (fun m hm => ?_) hne ht
      · rw [expand]
        split_ifs with hpos hboth hboth
        · rw [select_single,if_pos (Option.some.inj hboth.1)]
        · rw [select_single,if_neg (fun h => hboth ⟨congrArg some h,hpos⟩)]
        · exact absurd hboth.2 hpos
        · rfl
      · obtain rfl := Option.some.inj hm
        exact hcall
    | removeIds call handle ids =>
      refine hs.remove htodo rfl rfl (fun n => ?_) (fun m hm => ?_) (by simp) ht
      · rw [expand,select_single]
        simp
      · obtain rfl := Option.some.inj hm
        exact hs.agreed_head htodo
    | free info => exact hs.free htodo ht
    | ret =>
      refine hs.silent htodo rfl ht ?_ ⟨hs.cache.lookup,hs.cache.size⟩ (hs.waits.keep rfl rfl rfl rfl)
        (fun _ _ => rfl) rfl rfl rfl rfl rfl rfl
      exact hs.tokens_rest htodo rfl rfl rfl rfl rfl (fun _ _ => rfl) rfl rfl rfl

theorem Agreed.append {calls : List DownloadCall} {a : DownloadAction} (h : Agreed calls a) (c : DownloadCall) :
    Agreed (calls ++ [c]) a := by
  have hkeep : ∀ {n : ℕ} {d : DownloadCall}, calls[n]? = some d → (calls ++ [c])[n]? = some d := by
    intro n d hd
    rw [List.getElem?_append_left (List.getElem?_eq_some_iff.mp hd).1]
    exact hd
  cases a with
  | start => exact hkeep h
  | invoke =>
    obtain ⟨hne,d,hd,hrest⟩ := h
    exact ⟨hne,d,hkeep hd,hrest⟩
  | removeIds =>
    obtain ⟨d,hd,hrest⟩ := h
    exact ⟨d,hkeep hd,hrest⟩
  | _ => trivial

section Enter

variable {t : Downloads} {handle : ℕ} {ids : CallbackIds} {asked : Option TokenState}

theorem getElem?_enter {calls : List DownloadCall} {d : DownloadCall} {n : ℕ} {c : DownloadCall}
    (h : (calls ++ [d])[n]? = some c) : (n ≠ calls.length ∧ calls[n]? = some c) ∨ (n = calls.length ∧ c = d) := by
  by_cases heq : n = calls.length
  · subst heq
    rw [List.getElem?_concat_length] at h
    exact .inr ⟨rfl,(Option.some.inj h).symm⟩
  · have hlt := (List.getElem?_eq_some_iff.mp h).1
    rw [List.length_append,List.length_singleton] at hlt
    rw [List.getElem?_append_left (by omega)] at h
    exact .inl ⟨heq,h⟩

theorem enter_answers (hs : s.Completions) (hcalls : t.calls = s.calls ++ [⟨handle,ids,asked⟩])
    (hdetached : t.detached = s.detached) (houtcome : t.outcome = s.outcome) (hevents : t.events = s.events)
    (answers : List Answer) (hcoming : ∀ n, t.coming n = (if s.calls.length = n then answers else []) ++ s.coming n)
    (hgoal : ∀ a, asked = some a → answers = s.goal ids a) (hcount : answers.count .removed ≤ 1)
    (hagreed : ∀ a ∈ t.todo, Agreed t.calls a) : t.Answers := by
  have hanswers : ∀ n, t.answersOf n = s.answersOf n := by
    intro n
    unfold answersOf
    rw [hevents]
  have hnew := hs.answers.fresh s.calls.length le_rfl
  rw [promised,List.append_eq_nil_iff] at hnew
  have hself : t.promised s.calls.length = answers := by
    rw [promised,hanswers,hcoming,if_pos rfl,hnew.1,hnew.2]
    simp
  have hother : ∀ n, n ≠ s.calls.length → t.promised n = s.promised n := by
    intro n hne
    rw [promised,hanswers,hcoming,if_neg (Ne.symm hne)]
    rfl
  refine ⟨fun n hn => ?_,fun n c a hc hasked hattached => ?_,fun n => ?_,hagreed⟩
  · rw [hcalls,List.length_append,List.length_singleton] at hn
    rw [hother n (by omega)]
    exact hs.answers.fresh n (by omega)
  · rw [goal_congr houtcome]
    rw [hcalls] at hc
    rcases getElem?_enter hc with ⟨hne,hc⟩ | ⟨rfl,rfl⟩
    · rw [hother n hne]
      rw [hdetached] at hattached
      exact hs.answers.promised n c a hc hasked hattached
    · rw [hself]
      exact hgoal a hasked
  · by_cases heq : n = s.calls.length
    · rw [heq,hself]
      exact hcount
    · rw [hother n heq]
      exact hs.answers.removed_once n

theorem enter_deliveries (hs : s.Completions) (hcalls : t.calls = s.calls ++ [⟨handle,ids,asked⟩])
    (hdetached : t.detached = s.detached) (hevents : t.events = s.events)
    (hregistered : t.registered = (s.enterCall handle ids asked).registered)
    (hunshared : s.Unshared handle ids (fun c => c.asked ≠ none ∨ asked ≠ none)) : t.Deliveries := by
  have hanswers : ∀ n, t.answersOf n = s.answersOf n := by
    intro n
    unfold answersOf
    rw [hevents]
  have hvalue : ∀ h id, t.registered h id = (s.registered h id || (decide (h = handle) && (decide (0 < id) &&
      (id == ids.success || id == ids.fail || id == ids.complete)))) := by
    intro h id
    rw [hregistered]
    simp only [enterCall,Function.update_apply]
    split_ifs with heq
    · simp [heq]
    · simp [heq]
  refine ⟨fun h id hid => ?_,fun n c a hc hasked hattached hn id hid hpos => ?_,
    fun n m c d a hne hc hd hasked hhandle hn hm id hid hpos => ?_,fun e he n c hn hc => ?_⟩
  · rw [hvalue,Bool.or_eq_true] at hid
    rcases hid with hid | hid
    · exact hs.deliveries.positive h id hid
    · simp only [Bool.and_eq_true,decide_eq_true_eq] at hid
      exact hid.2.1
  · rw [hcalls] at hc
    rw [hanswers] at hn
    rw [hdetached] at hattached
    rw [hvalue,Bool.or_eq_true]
    rcases getElem?_enter hc with ⟨_,hc⟩ | ⟨_,rfl⟩
    · exact .inl (hs.deliveries.registered n c a hc hasked hattached hn id hid hpos)
    · right
      simpa [hpos,or_assoc] using hid
  · rw [hcalls] at hc hd
    rw [hanswers] at hn hm
    rcases getElem?_enter hc with ⟨_,hc⟩ | ⟨rfl,rfl⟩
    · rcases getElem?_enter hd with ⟨_,hd⟩ | ⟨rfl,rfl⟩
      · exact hs.deliveries.disjoint n m c d a hne hc hd hasked hhandle hn hm id hid hpos
      · exact hunshared n c hc hhandle (.inl (by simp [hasked])) hn id hid hpos
    · rcases getElem?_enter hd with ⟨_,hd⟩ | ⟨rfl,rfl⟩
      · intro hmem
        exact hunshared m d hd hhandle.symm (.inr (by simpa using Option.ne_none_iff_exists'.mpr ⟨a,hasked⟩)) hm id
          hmem hpos hid
      · exact absurd rfl hne
  · rw [hevents] at he
    rw [hcalls] at hc
    rcases getElem?_enter hc with ⟨_,hc⟩ | ⟨rfl,rfl⟩
    · exact hs.deliveries.handles e he n c hn hc
    · -- nothing happened for the call yet
      have hnew := hs.answers.fresh s.calls.length le_rfl
      rw [promised,List.append_eq_nil_iff] at hnew
      have hmem : e.answer ∈ s.answersOf s.calls.length :=
        List.mem_map_of_mem (List.mem_filter.mpr ⟨he,by simpa using hn⟩)
      rw [hnew.1] at hmem
      exact absurd hmem List.not_mem_nil

theorem enter_waits (hs : s.Completions) (hcalls : t.calls = s.calls ++ [⟨handle,ids,asked⟩])
    (houtcome : t.outcome = s.outcome) (hlinklist : t.linklist = s.linklist)
    (hheap : ∀ i req, t.heap i = some req → s.heap i = some req ∨ (req.call = none ∧ req.callbacks = {}))
    (hlinked : ∀ i ∈ s.linklist, t.heap i = s.heap i)
    (hasked : ∀ token, asked = some (.running token) → s.outcome token ≠ none) : t.Waits := by
  have hkeep : ∀ {n : ℕ} {d : DownloadCall}, s.calls[n]? = some d → t.calls[n]? = some d := by
    intro n d hd
    rw [hcalls,List.getElem?_append_left (List.getElem?_eq_some_iff.mp hd).1]
    exact hd
  refine ⟨fun i req n hi hn => ?_,fun i req hi hnone => ?_,fun n c token hc ha hout => ?_⟩
  · rcases hheap i req hi with hi | hnew
    · obtain ⟨hmem,c,hc,hrest⟩ := hs.waits.task i req n hi hn
      exact ⟨hlinklist ▸ hmem,c,hkeep hc,hrest⟩
    · rw [hnew.1] at hn
      exact nomatch hn
  · rcases hheap i req hi with hi | hnew
    · exact hs.waits.unasked i req hi hnone
    · exact hnew.2
  · rw [hcalls] at hc
    rw [houtcome] at hout
    rcases getElem?_enter hc with ⟨_,hc⟩ | ⟨_,rfl⟩
    · obtain ⟨i,hi,req,hreq,hrest⟩ := hs.waits.waiting n c token hc ha hout
      exact ⟨i,hlinklist ▸ hi,req,(hlinked i hi).trans hreq,hrest⟩
    · exact absurd hout (hasked token ha)

end Enter

/-- The transfer of a task ends while its instance is there: the call that waits for it will be answered. -/
theorem requestCb (hs : s.Completions) {info : ℕ} {req : ReqInfo} (hreq : s.heap info = some req)
    (hlinked : info ∈ s.linklist) (hquiet : info ∉ discards s.todo) (hattached : s.detached req.featureHandle = false)
    (e : TransferEnd) (ht : (s.requestCb info e s.todo).Tasks) : (s.requestCb info e s.todo).Completions := by
  have huuid := uuidOf_of_heap hreq
  have hnone : s.outcome req.uuid = none := by
    have h := (hs.tokens.ending info hlinked req.uuid huuid).not.mpr hquiet
    simpa using h
  have hcall : ∀ n, req.call = some n → ∃ c, s.calls[n]? = some c ∧ c.handle = req.featureHandle ∧
      c.ids = req.callbacks ∧ c.asked = some (.running req.uuid) :=
    fun n hn => (hs.waits.task info req n hreq hn).2
  have hnothing : ∀ n, req.call = some n → s.promised n = [] := by
    intro n hn
    obtain ⟨c,hc,hhandle,_,hasked⟩ := hcall n hn
    rw [hs.answers.promised n c _ hc hasked (hhandle ▸ hattached)]
    simp [goal,due,hnone]
  simp only [Downloads.requestCb,hreq,hattached,Bool.false_eq_true,if_false] at ht ⊢
  have hcoming : ∀ n, Downloads.coming { s with
      outcome := Function.update s.outcome req.uuid (some e), inScript := false
      shareInfo := if req.share then s.shareInfo else none
      todo := [.answer info e,.addResult info e,.complete info,.removeAll info,.discard info] ++ s.todo } n =
        (if req.call = some n then told req.callbacks (e.id req.callbacks) e.answer else []) ++ s.coming n := by
    intro n
    unfold coming
    rw [List.flatMap_append,select_append]
    congr 1
    simp only [List.flatMap_cons,List.flatMap_nil,expand,ofTask,hreq,List.append_nil,List.nil_append]
    cases hreqcall : req.call with
    | none => simp [select]
    | some m =>
      dsimp only
      rw [← List.map_append,← List.map_append,select_map,told,List.append_assoc]
      simp
  refine ⟨ht,hs.tokens.requestCb hs.tasks hlinked hquiet e huuid rfl rfl rfl (fun _ _ => rfl) rfl rfl rfl rfl,
    ⟨hs.cache.lookup,hs.cache.size⟩,⟨fun n hn => ?_,fun n c asked hc hasked hlive => ?_,fun n => ?_,fun a ha => ?_⟩,
    ⟨hs.waits.task,hs.waits.unasked,fun n c token hc hasked hout => ?_⟩,
    hs.deliveries.keep rfl rfl rfl (fun _ => Iff.rfl) (fun e he => .inl he)⟩
  · have hdiff : req.call ≠ some n := by
      intro hn'
      obtain ⟨c,hc,_⟩ := hcall n hn'
      exact absurd (List.getElem?_eq_some_iff.mp hc).1 (by exact Nat.not_lt.mpr hn)
    rw [promised,hcoming,if_neg hdiff]
    exact hs.answers.fresh n hn
  · have hbefore := hs.answers.promised n c asked hc hasked hlive
    by_cases hwaits : asked = .running req.uuid
    · subst hwaits
      obtain ⟨i,hi,r,hr,hruuid,hrcall⟩ := hs.waits.waiting n c _ hc hasked hnone
      obtain rfl := hs.tokens.distinct i hi info hlinked
        (by rw [uuidOf_of_heap hr,huuid,hruuid])
      obtain rfl := Option.some.inj (hreq.symm.trans hr)
      have hnil := hnothing n hrcall
      rw [promised,List.append_eq_nil_iff] at hnil
      obtain ⟨d,hd,_,hids,_⟩ := hcall n hrcall
      obtain rfl := Option.some.inj (hd.symm.trans hc)
      rw [promised,hcoming,if_pos hrcall,hnil.2,List.append_nil]
      change s.answersOf n ++ _ = _
      rw [hnil.1]
      simp [goal,due,hids]
    · have hdiff : req.call ≠ some n := by
        intro hn
        obtain ⟨d,hd,_,_,hdasked⟩ := hcall n hn
        obtain rfl := Option.some.inj (hd.symm.trans hc)
        exact hwaits (Option.some.inj (hasked.symm.trans hdasked))
      have hgoal : Downloads.goal { s with
          outcome := Function.update s.outcome req.uuid (some e), inScript := false
          shareInfo := if req.share then s.shareInfo else none
          todo := [.answer info e,.addResult info e,.complete info,.removeAll info,.discard info] ++ s.todo }
          c.ids asked = s.goal c.ids asked := by
        unfold goal due
        cases asked with
        | running token =>
          have hne : token ≠ req.uuid := fun h => hwaits (h ▸ rfl)
          dsimp only
          rw [Function.update_of_ne hne]
        | _ => rfl
      rw [hgoal,promised,hcoming,if_neg hdiff]
      exact hbefore
  · rw [promised,hcoming]
    by_cases hn : req.call = some n
    · have hnil := hnothing n hn
      rw [promised,List.append_eq_nil_iff] at hnil
      rw [if_pos hn,hnil.2,List.append_nil]
      change (s.answersOf n ++ _).count _ ≤ 1
      rw [hnil.1,List.nil_append,told_count e.answer_ne_removed]
    · rw [if_neg hn]
      exact hs.answers.removed_once n
  · rcases List.mem_append.mp ha with ha | ha
    · simp only [List.mem_cons,List.not_mem_nil,or_false] at ha
      rcases ha with rfl | rfl | rfl | rfl | rfl <;> trivial
    · exact hs.answers.agreed a ha
  · dsimp only at hout
    rw [Function.update_apply] at hout
    split_ifs at hout with heq
    exact hs.waits.waiting n c token hc hasked hout

variable {token : String}

/-- The code finds the state of a token that its task or the cache has. -/
theorem tokenState_eq (hs : s.Completions) (hfound : s.findInfo token s.linklist = some none) :
    s.tokenState (some token) =
      match s.recent.lookup token with
      | some e => .finished e
      | none => .unknown := by
  have hnot : ∀ {infos : List ℕ}, s.findInfo token infos = some none → ∀ i ∈ infos, s.uuidOf i ≠ some token := by
    intro infos hfind
    induction infos with
    | nil => exact fun _ h => absurd h List.not_mem_nil
    | cons info infos ih =>
      unfold findInfo at hfind
      cases hreq : s.heap info with
      | none =>
        rw [hreq] at hfind
        cases hfind
      | some req =>
        rw [hreq] at hfind
        dsimp only at hfind
        split_ifs at hfind with huuid
        · cases hfind
        · intro i hi
          rcases List.mem_cons.mp hi with rfl | hi
          · rw [uuidOf_of_heap hreq]
            exact fun h => huuid (Option.some.inj h)
          · exact ih hfind i hi
  have hrunning : ¬ (token ∈ s.issued ∧ token ∉ s.ended.map Prod.fst) := by
    rintro ⟨hissued,hnotended⟩
    obtain ⟨info,hinfo,huuid⟩ := hs.tokens.running token hissued hnotended
    exact hnot hfound info hinfo huuid
  unfold tokenState
  refine (if_neg hrunning).trans ?_
  cases s.recent.lookup token <;> rfl

theorem findInfo_uuid {infos : List ℕ} {info : ℕ} (h : s.findInfo token infos = some (some info)) :
    info ∈ infos ∧ ∃ req, s.heap info = some req ∧ req.uuid = token := by
  induction infos with
  | nil => cases h
  | cons i infos ih =>
    unfold findInfo at h
    cases hreq : s.heap i with
    | none =>
      rw [hreq] at h
      cases h
    | some req =>
      rw [hreq] at h
      dsimp only at h
      split_ifs at h with huuid
      · obtain rfl := Option.some.inj (Option.some.inj h)
        exact ⟨List.mem_cons_self,req,hreq,huuid⟩
      · obtain ⟨hmem,hrest⟩ := ih h
        exact ⟨List.mem_cons_of_mem _ hmem,hrest⟩

theorem findInfo_congr {t : Downloads} (h : t.heap = s.heap) (token : String) (infos : List ℕ) :
    t.findInfo token infos = s.findInfo token infos := by
  induction infos with
  | nil => rfl
  | cons i infos ih =>
    unfold findInfo
    rw [ih,h]

theorem register (hs : s.Completions) {info : ℕ} {req : ReqInfo} (hlinked : info ∈ s.linklist)
    (hreq : s.heap info = some req) (huuid : req.uuid = token) {handle : ℕ}
    (hhandle : req.featureHandle = handle) (hcall : req.call = none) (hout : s.outcome token = none)
    {ids : CallbackIds}
    (hunshared : s.Unshared handle ids (fun c => c.asked ≠ none ∨ some (s.tokenState (some token)) ≠ none))
    {t : Downloads} (ht : t.Tasks)
    (heq : t = (s.enterCall handle ids (some (s.tokenState (some token)))).setInfo info
      (fun req => { req with callbacks := ids, call := some s.calls.length })) : t.Completions := by
  subst huuid
  have huuid := uuidOf_of_heap hreq
  have hquiet : info ∉ discards s.todo := by
    intro hmem
    have h := (hs.tokens.ending info hlinked req.uuid huuid).mpr hmem
    rw [hout] at h
    exact Bool.noConfusion h
  have hstate : s.tokenState (some req.uuid) = .running req.uuid := by
    unfold tokenState
    dsimp only
    rw [if_pos]
    refine ⟨hs.tokens.linked info hlinked req.uuid huuid,fun hmem => ?_⟩
    obtain ⟨p,hp,heq⟩ := List.mem_map.mp hmem
    have h := hs.tokens.ended p hp
    rw [heq,hout] at h
    cases h
  have hheap : t.heap = Function.update s.heap info
      (some { req with callbacks := ids, call := some s.calls.length }) := by
    rw [heq]
    unfold setInfo
    simp only [enterCall,hreq,Option.map_some]
  have hget : ∀ i r, t.heap i = some r →
      (i = info ∧ r = { req with callbacks := ids, call := some s.calls.length }) ∨ (i ≠ info ∧ s.heap i = some r) := by
    intro i r hr
    rw [hheap] at hr
    by_cases hi : i = info
    · subst hi
      rw [Function.update_self] at hr
      exact .inl ⟨rfl,(Option.some.inj hr).symm⟩
    · rw [Function.update_of_ne hi] at hr
      exact .inr ⟨hi,hr⟩
  have hcalls : t.calls = s.calls ++ [⟨handle,ids,some (s.tokenState (some req.uuid))⟩] := by rw [heq]; rfl
  have hkeep : ∀ {n : ℕ} {d : DownloadCall}, s.calls[n]? = some d → t.calls[n]? = some d := by
    intro n d hd
    rw [hcalls,List.getElem?_append_left (List.getElem?_eq_some_iff.mp hd).1]
    exact hd
  have hnew : t.calls[s.calls.length]? = some ⟨handle,ids,some (.running req.uuid)⟩ := by
    rw [hcalls,hstate]
    exact List.getElem?_concat_length
  have hcoming : ∀ n, t.coming n = s.coming n := by
    intro n
    unfold coming
    have htodo : t.todo = s.todo := by rw [heq]; rfl
    rw [htodo,expand_congr hs.tasks.ordered (fun i hi => ?_)]
    have hne : i ≠ info := fun h => hquiet (h ▸ hi)
    rw [hheap,Function.update_of_ne hne]
  refine ⟨ht,?_,?_,?_,⟨fun i r n hr hn => ?_,fun i r hr hnone => ?_,fun n c token hc hasked ho => ?_⟩,
    hs.enter_deliveries hcalls (by rw [heq]; rfl) (by rw [heq]; rfl) (by rw [heq]; rfl) hunshared⟩
  · refine hs.tokens.keep (by rw [heq]; rfl) (by rw [heq]; rfl) (by rw [heq]; rfl) (fun i hi => ?_)
      (by rw [heq]; rfl) (by rw [heq]; rfl) hs.tasks (by rw [heq]; rfl) (by rw [heq]; rfl)
    unfold uuidOf
    rw [hheap]
    by_cases hi' : i = info
    · subst hi'
      rw [Function.update_self,hreq]
      rfl
    · rw [Function.update_of_ne hi']
  · rw [heq]
    exact ⟨hs.cache.lookup,hs.cache.size⟩
  · refine hs.enter_answers hcalls (by rw [heq]; rfl) (by rw [heq]; rfl) (by rw [heq]; rfl) []
      (fun n => ?_) (fun a ha => ?_) (Nat.zero_le _) (fun a ha => ?_)
    · rw [hcoming]
      split_ifs <;> rfl
    · obtain rfl := Option.some.inj ha
      rw [hstate]
      simp [goal,due,hout]
    · have htodo : t.todo = s.todo := by rw [heq]; rfl
      rw [htodo] at ha
      rw [hcalls]
      exact Agreed.append (hs.answers.agreed a ha) _
  · have hlist : t.linklist = s.linklist := by rw [heq]; rfl
    rw [hlist]
    rcases hget i r hr with ⟨rfl,rfl⟩ | ⟨_,hr⟩
    · obtain rfl := Option.some.inj hn
      exact ⟨hlinked,_,hnew,hhandle.symm,rfl,rfl⟩
    · obtain ⟨hmem,c,hc,hrest⟩ := hs.waits.task i r n hr hn
      exact ⟨hmem,c,hkeep hc,hrest⟩
  · rcases hget i r hr with ⟨rfl,rfl⟩ | ⟨_,hr⟩
    · cases hnone
    · exact hs.waits.unasked i r hr hnone
  · have hlist : t.linklist = s.linklist := by rw [heq]; rfl
    have houtcome : t.outcome = s.outcome := by rw [heq]; rfl
    rw [houtcome] at ho
    rw [hlist]
    rw [hcalls] at hc
    rcases getElem?_enter hc with ⟨_,hc⟩ | ⟨rfl,rfl⟩
    · obtain ⟨i,hi,r,hr,hrest⟩ := hs.waits.waiting n c token hc hasked ho
      have hne : i ≠ info := by
        rintro rfl
        obtain rfl := Option.some.inj (hreq.symm.trans hr)
        rw [hcall] at hrest
        exact absurd hrest.2 (by simp)
      refine ⟨i,hi,r,?_,hrest⟩
      rw [hheap,Function.update_of_ne hne]
      exact hr
    · rw [hstate] at hasked
      obtain rfl := TokenState.running.inj (Option.some.inj hasked)
      refine ⟨info,hlinked,{ req with callbacks := ids, call := some s.calls.length },?_,rfl,rfl⟩
      rw [hheap,Function.update_self]

theorem answering (hs : s.Completions) {handle : ℕ} {ids : CallbackIds} (asked : Option TokenState) (id : ℤ)
    (answer : Answer) (hid : id ∈ [ids.success,ids.fail,ids.complete]) (hne : answer ≠ .removed)
    (hdue : ∀ a, asked = some a → s.due ids a = some (id,answer))
    (hunshared : s.Unshared handle ids (fun c => c.asked ≠ none ∨ asked ≠ none)) {t : Downloads} (ht : t.Tasks)
    (heq : t = { s.enterCall handle ids asked with
      inScript := false
      todo := answerCall s.calls.length handle ids id answer ++ .ret :: s.todo }) : t.Completions := by
  subst heq
  refine ⟨ht,hs.tokens.keep rfl rfl rfl (fun _ _ => rfl) rfl rfl hs.tasks rfl rfl,⟨hs.cache.lookup,hs.cache.size⟩,
    hs.enter_answers rfl rfl rfl rfl (told ids id answer) (fun n => ?_) (fun a ha => ?_)
      (told_count hne).le (fun a ha => ?_),
    hs.enter_waits rfl rfl rfl (fun _ _ h => .inl h) (fun _ _ => rfl) (fun token ha => ?_),
    hs.enter_deliveries rfl rfl rfl rfl hunshared⟩
  · rw [coming_answerCall rfl]
    rfl
  · unfold goal
    rw [hdue a ha]
  · rcases List.mem_append.mp ha with ha | ha
    · exact answerCall_agreed List.getElem?_concat_length rfl rfl hid hne a ha
    · rcases List.mem_cons.mp ha with rfl | ha
      · trivial
      · exact Agreed.append (hs.answers.agreed a ha) _
  · intro hnone
    have h := hdue _ ha
    simp [due,hnone] at h

theorem onDownloadComplete (hs : s.Completions) (hscript : s.inScript = true) (handle : ℕ)
    (hattached : s.detached handle = false) (token : Option String) (ids : CallbackIds)
    (hop : s.Orderly (.onDownloadComplete handle token ids)) : (s.onDownloadComplete handle token ids).Completions := by
  have ht := hs.tasks.onDownloadComplete hscript handle token ids
  obtain ⟨hregister,hshared⟩ := hop hscript hattached
  have hunshared : ∀ asked : Option TokenState, s.Unshared handle ids (fun c => c.asked ≠ none ∨ asked ≠ none) :=
    fun _ n c hc hhandle _ => hshared n c hc hhandle trivial
  unfold Downloads.onDownloadComplete at ht ⊢
  cases token with
  | none =>
    refine hs.answering _ ids.fail (.fail "token is missing" 1001) (by simp) nofun (fun a ha => ?_)
      (hunshared _) ht rfl
    obtain rfl := Option.some.inj ha
    rfl
  | some token =>
    have he := hs.tasks.enterCall handle ids (some (s.tokenState (some token)))
    obtain ⟨found,hfound,_⟩ := he.findInfo_some token (fun _ h => h)
    have hfind : s.findInfo token s.linklist = some found := by
      rw [← hfound]
      exact (findInfo_congr (s := s) (t := s.enterCall handle ids (some (s.tokenState (some token)))) rfl token
        s.linklist).symm
    simp only [hfound] at ht ⊢
    cases found with
    | some info =>
      obtain ⟨hlinked,req,hreq,huuid⟩ := findInfo_uuid hfind
      obtain ⟨hhandle,hcall,hout⟩ := hregister token info rfl hfind req hreq
      exact hs.register hlinked hreq huuid hhandle hcall hout (hunshared _) ht rfl
    | none =>
      have hstate := hs.tokenState_eq hfind
      have hcache := hs.cache.lookup token
      dsimp only at ht ⊢
      cases hrecent : s.recent.lookup token with
      | some e =>
        rw [hrecent] at hstate hcache
        have hresult : (s.enterCall handle ids (some (s.tokenState (some token)))).downloadResults[token]? =
            some e.result := hcache
        simp only [hresult] at ht ⊢
        refine hs.answering _ (e.result.id ids) e.result.answer ?_ ?_ (fun a ha => ?_) (hunshared _)
          ht rfl
        · unfold DownloadResult.id
          split_ifs <;> simp
        · unfold DownloadResult.answer
          split_ifs <;> nofun
        · obtain rfl := Option.some.inj ha
          rw [hstate]
          rfl
      | none =>
        rw [hrecent] at hstate hcache
        have hresult : (s.enterCall handle ids (some (s.tokenState (some token)))).downloadResults[token]? = none :=
          hcache
        simp only [hresult] at ht ⊢
        refine hs.answering _ ids.fail (.fail "task not exist" 1001) (by simp) nofun (fun a ha => ?_)
          (hunshared _) ht rfl
        obtain rfl := Option.some.inj ha
        rw [hstate]
        rfl

theorem download (hs : s.Completions) (hscript : s.inScript = true) (handle : ℕ)
    (hattached : s.detached handle = false) (ids : CallbackIds) (share malloc : Bool) (url : Option String)
    (disk : Bool) (now rand : ℕ) (hop : s.Orderly (.download handle ids share malloc url disk now rand)) :
    (s.download handle ids share malloc url disk now rand).Completions := by
  obtain ⟨hpointer,hshared⟩ := hop hscript hattached
  have hlive : FindsLive s (.download handle ids share malloc url disk now rand) := by
    intro hmalloc hshare _ info hinfo
    obtain ⟨req,hreq,_⟩ := hpointer hmalloc hshare info hinfo
    rw [hreq]
    rfl
  have ht := hs.tasks.download hscript handle ids share malloc url disk now rand hlive
  have hunshared : s.Unshared handle ids (fun c => c.asked ≠ none ∨ (none : Option TokenState) ≠ none) :=
    fun n c hc hhandle hp => hshared n c hc hhandle (hp.resolve_right (fun h => h rfl))
  obtain ⟨hnone,hnotlinked,_,_⟩ := hs.tasks.unallocated
  unfold Downloads.download at ht ⊢
  cases malloc with
  | false =>
    exact hs.answering none ids.fail (.fail "malloc fail" 200) (by simp) nofun
      (fun _ h => nomatch h) hunshared ht rfl
  | true =>
    have hm := (hs.tasks.enterCall handle ids none).malloc hscript s.calls.length handle ids share url disk now rand
    have hother : ∀ i ∈ s.linklist, Function.update s.heap s.allocated
        (some { featureHandle := handle, share := share }) i = s.heap i := by
      intro i hi
      have hne : i ≠ s.allocated := fun h => hnotlinked (h ▸ hi)
      rw [Function.update_of_ne hne]
    have hmade : Completions { s.enterCall handle ids none with
        heap := Function.update s.heap s.allocated (some { featureHandle := handle, share := share })
        allocated := s.allocated + 1
        inScript := false
        todo := .start s.allocated s.calls.length handle ids share url disk now rand :: s.todo } := by
      refine ⟨hm,hs.tokens.keep rfl rfl rfl (fun i hi => ?_) rfl rfl hs.tasks rfl rfl,
        ⟨hs.cache.lookup,hs.cache.size⟩,
        hs.enter_answers rfl rfl rfl rfl [.removed] (fun n => ?_) (fun _ h => nomatch h)
          (by simp) (fun a ha => ?_),
        hs.enter_waits rfl rfl rfl (fun i req hi => ?_) hother (fun _ h => nomatch h),
        hs.enter_deliveries rfl rfl rfl rfl hunshared⟩
      · unfold uuidOf
        dsimp only
        rw [hother i hi]
      · unfold coming
        rw [List.flatMap_cons,select_append]
        dsimp only
        rw [expand_congr hs.tasks.ordered (fun i hi => hother i (hs.tasks.discards_linked i hi)),expand,select_single]
      · rcases List.mem_cons.mp ha with rfl | ha
        · exact List.getElem?_concat_length
        · exact Agreed.append (hs.answers.agreed a ha) _
      · dsimp only at hi
        by_cases heq : i = s.allocated
        · subst heq
          rw [Function.update_self] at hi
          obtain rfl := Option.some.inj hi
          exact .inr ⟨rfl,rfl⟩
        · rw [Function.update_of_ne heq] at hi
          exact .inl hi
    simp only [if_true] at ht ⊢
    split at ht
    · next _ _ other hother' =>
      -- the exclusive task before it ends, and its instance is there
      obtain ⟨req,hreq,hthere⟩ := hpointer rfl rfl other hother'
      have hne : other ≠ s.allocated := (hs.tasks.share_allocated other hother').ne
      have hreq' : Function.update s.heap s.allocated
          (some { featureHandle := handle, share := false }) other = some req := by
        rw [Function.update_of_ne hne,hreq]
      unfold requestCancel at ht ⊢
      simp only [Downloads.enterCall,hreq'] at ht ⊢
      split at ht
      · next hrequest =>
        have hlinked := (hs.tasks.requested other req hreq).mp hrequest
        have hquiet := hs.tasks.quiet_of_script hscript hother'
        have hcb := hmade.requestCb hreq' hlinked hquiet hthere .cancel
        simp only [Downloads.requestCb,Downloads.enterCall,hreq',hthere,Bool.false_eq_true,if_false] at hcb ht ⊢
        simp only [hrequest,if_true]
        exact hcb ht
      · next hrequest =>
        simp only [hrequest]
        exact hmade
    · exact hmade

theorem detach (hs : s.Completions) (handle : ℕ) (ht : Tasks { s with
      detached := Function.update s.detached handle true
      registered := Function.update s.registered handle (fun _ => false) }) :
    Completions { s with
      detached := Function.update s.detached handle true
      registered := Function.update s.registered handle (fun _ => false) } := by
  have hattached : ∀ h, Function.update s.detached handle true h = false → h ≠ handle ∧ s.detached h = false := by
    intro h hh
    rw [Function.update_apply] at hh
    split_ifs at hh with heq
    exact ⟨heq,hh⟩
  refine ⟨ht,hs.tokens.keep rfl rfl rfl (fun _ _ => rfl) rfl rfl hs.tasks rfl rfl,⟨hs.cache.lookup,hs.cache.size⟩,
    ⟨hs.answers.fresh,fun n c asked hc hasked hlive => ?_,hs.answers.removed_once,hs.answers.agreed⟩,
    hs.waits.keep rfl rfl rfl rfl,⟨fun h id hid => ?_,fun n c asked hc hasked hlive hn id hid hpos => ?_,
      hs.deliveries.disjoint,hs.deliveries.handles⟩⟩
  · exact hs.answers.promised n c asked hc hasked (hattached c.handle hlive).2
  · dsimp only at hid
    rw [Function.update_apply] at hid
    split_ifs at hid
    exact hs.deliveries.positive h id hid
  · obtain ⟨hne,hlive⟩ := hattached c.handle hlive
    dsimp only
    rw [Function.update_of_ne hne]
    exact hs.deliveries.registered n c asked hc hasked hlive hn id hid hpos

theorem transferEnds (hs : s.Completions) (htodo : s.todo = []) {info : ℕ} (hlinked : info ∈ s.linklist)
    (hop : ∀ req, s.heap info = some req → s.detached req.featureHandle = false) (e : TransferEnd)
    (ht : (s.requestCb info e [.ret]).Tasks) : (s.requestCb info e [.ret]).Completions := by
  obtain ⟨req,hreq⟩ := Option.isSome_iff_exists.mp ((hs.tasks.live info).mpr (.inl hlinked))
  have hret : Completions { s with todo := [.ret] } := by
    refine ⟨hs.tasks.returning htodo,hs.tokens.keep rfl rfl rfl (fun _ _ => rfl) rfl rfl hs.tasks (by rw [htodo]; rfl)
      (by rw [htodo]; rfl),⟨hs.cache.lookup,hs.cache.size⟩,
      hs.answers.keep_all rfl rfl rfl (fun n => ?_) (fun a ha => ?_),hs.waits.keep rfl rfl rfl rfl,
      hs.deliveries.keep rfl rfl rfl (fun _ => Iff.rfl) (fun e he => .inl he)⟩
    · unfold promised coming
      rw [htodo]
      rfl
    · rw [List.mem_singleton.mp ha]
      trivial
  have hcb := hret.requestCb hreq hlinked List.not_mem_nil (hop req hreq) e
  simp only [Downloads.requestCb,hreq,hop req hreq,Bool.false_eq_true,if_false] at hcb ht ⊢
  exact hcb ht

end Completions

theorem crashed_requestCb (s : Downloads) (info : ℕ) (e : TransferEnd) (rest : List DownloadAction) :
    (s.requestCb info e rest).crashed = s.crashed := by
  unfold Downloads.requestCb
  split
  · rfl
  · dsimp only
    split_ifs <;> rfl

theorem crashed_download (s : Downloads) (handle : ℕ) (ids : CallbackIds) (share malloc : Bool) (url : Option String)
    (disk : Bool) (now rand : ℕ) : (s.download handle ids share malloc url disk now rand).crashed = s.crashed := by
  unfold Downloads.download
  dsimp only
  split
  · split
    · unfold Downloads.requestCancel
      split
      · rfl
      · split
        · rw [crashed_requestCb]
          rfl
        · rfl
    · rfl
  · rfl

theorem crashed_onDownloadComplete (s : Downloads) (handle : ℕ) (token : Option String) (ids : CallbackIds) :
    (s.onDownloadComplete handle token ids).crashed = s.crashed := by
  unfold Downloads.onDownloadComplete
  dsimp only
  split
  · rfl
  · split
    · rfl
    · rfl
    · split <;> rfl

theorem crashed_next (s : Downloads) : s.next.crashed = s.crashed := by
  unfold Downloads.next
  split
  · rfl
  · next action todo _ =>
    cases action <;> dsimp only [perform,Downloads.start,discard,freeReqInfo,invokeCallback,removeCallbacks,setInfo] <;>
      (try split) <;> (try split) <;> (try split) <;> rfl

def Right (s : Downloads) : Prop := s.Completed ∧ (s.exit = false → s.Completions)

theorem Right.step {s : Downloads} (hs : s.Right) (op : DownloadOp) (hop : s.Orderly op) : (s.step op).Right := by
  cases hexit : s.exit with
  | true =>
    have hsame : s.step op = s := by
      unfold Downloads.step
      rw [if_pos (.inr hexit)]
    rw [hsame]
    exact hs
  | false =>
    have hc := hs.2 hexit
    have hkeep : ∀ {t : Downloads}, t.Completions → t.crashed = s.crashed → t.Right := fun ht hcrash =>
      ⟨ht.completed (hcrash.trans hs.1.noCrash),fun _ => ht⟩
    unfold Downloads.step
    rw [if_neg (by simp [hc.tasks.noFault,hexit])]
    cases op with
    | download handle ids share malloc url disk now rand =>
      dsimp only
      split_ifs with h
      · exact hkeep (hc.download h.1 handle h.2 ids share malloc url disk now rand hop)
          (crashed_download s handle ids share malloc url disk now rand)
      · exact hs
    | onDownloadComplete handle token ids =>
      dsimp only
      split_ifs with h
      · exact hkeep (hc.onDownloadComplete h.1 handle h.2 token ids hop) (crashed_onDownloadComplete s handle token ids)
      · exact hs
    | transferEnds info e =>
      have ht := hc.tasks.step (.transferEnds info e) trivial
      unfold Downloads.step at ht
      rw [if_neg (by simp [hc.tasks.noFault,hexit])] at ht
      dsimp only at ht ⊢
      split_ifs at ht ⊢ with h
      · have htodo := List.isEmpty_iff.mp h.1
        exact hkeep (hc.transferEnds htodo h.2.1 (hop htodo h.2.1) e ht) (crashed_requestCb s info e _)
      · exact hs
    | transferCrashes info =>
      dsimp only
      rw [if_neg hop]
      exact hs
    | detach handle =>
      dsimp only
      split_ifs with h
      · exact hkeep (hc.detach handle (hc.tasks.frame rfl rfl rfl rfl rfl rfl rfl rfl)) rfl
      · exact hs
    | destroy =>
      dsimp only
      split_ifs with h
      · have htodo := List.isEmpty_iff.mp h
        have hlive : ∀ i ∈ s.linklist, (s.heap i).isSome := fun i hi => (hc.tasks.live i).mpr (.inl hi)
        refine ⟨?_,fun hexit => ?_⟩
        · unfold Downloads.destroy
          rw [Tasks.freeAll hc.tasks.linklist_nodup hlive]
          exact ⟨hs.1.noFault,hs.1.answered,hs.1.handles,hs.1.cache,hs.1.noCrash⟩
        · unfold Downloads.destroy at hexit
          exact Bool.noConfusion hexit
      · exact hs
    | next => exact hkeep (hc.next hop) (crashed_next s)

theorem right_init : Right {} := by
  have hc : Completions {} := by
    refine ⟨tasks_init,tokens_init,cache_init,⟨fun _ _ => rfl,?_,fun _ => Nat.zero_le _,?_⟩,⟨?_,?_,?_⟩,⟨?_,?_,?_,?_⟩⟩
    · simp
    · simp
    · simp
    · simp
    · simp
    · simp
    · simp
    · simp
    · simp
  exact ⟨hc.completed rfl,fun _ => hc⟩

/-- In a run of orderly steps every call of `onDownloadComplete` gets its answers, and the cache keeps the most
recent results. -/
theorem downloads_completed (ops : List DownloadOp) (h : Transition.Guarded step Orderly {} ops) :
    Transition.Always step Completed {} ops := by
  have hrun : Transition.Always step Right {} ops :=
    h.always (fun _ op hs hop => hs.step op hop) right_init
  exact hrun.mono (fun _ hs => hs.1)

def awaitedDownload : List DownloadOp :=
  [.download 0 { success := 1 } true true (some "http://a") true 0 0,.next,.next,.next,.next,.next,
    .onDownloadComplete 0 (some "0-0-1") ⟨2,3,4⟩,.transferEnds 0 (.done "internal://files/a"),.next,.next,.next,.next,
    .next,.next]

theorem awaitedDownload_completed : Transition.Always step Completed {} awaitedDownload := by
  apply downloads_completed
  have hnext : ∀ s : Downloads, s.recent.length < 9 → s.Orderly .next := by
    intro s hs info e rest req _ _ hfull
    rw [hfull] at hs
    exact absurd hs (by decide)
  refine ⟨fun _ _ => ⟨fun _ h => Bool.noConfusion h,fun n c h => by simp at h⟩,hnext _ (by decide),hnext _ (by decide),
    hnext _ (by decide),hnext _ (by decide),hnext _ (by decide),fun _ _ => ⟨fun t info ht hfind req hreq => ?_,
      fun n c hc _ _ hn => ?_⟩,fun _ _ req hreq => ?_,hnext _ (by decide),hnext _ (by decide),hnext _ (by decide),
    hnext _ (by decide),hnext _ (by decide),hnext _ (by decide),trivial⟩
  · obtain rfl := Option.some.inj ht
    obtain rfl : 0 = info := Option.some.inj (Option.some.inj hfind)
    obtain rfl := Option.some.inj hreq
    exact ⟨rfl,rfl,rfl⟩
  · match n, hc with
    | 0, _ => exact absurd (by decide) hn
  · obtain rfl := Option.some.inj hreq
    rfl

/-- Of two calls that wait for the same download the first is never answered. -/
theorem first_registration_lost : ¬ ∀ ops, Transition.Always step Completed {} ops := by
  intro h
  have hanswered := ((h [.download 0 {} true true (some "http://a") true 0 0,.next,.next,.next,.next,.next,
    .onDownloadComplete 0 (some "0-0-1") ⟨1,2,3⟩,.onDownloadComplete 0 (some "0-0-1") ⟨4,5,6⟩,
    .transferEnds 0 (.done "internal://files/a"),.next,.next,.next,.next,.next,.next,.next,.next]).last.answered 1
    ⟨0,⟨1,2,3⟩,some (.running "0-0-1")⟩ (.running "0-0-1") rfl rfl rfl).2 rfl
  exact absurd hanswered (by decide)

end FeatureRuntime.Downloads
