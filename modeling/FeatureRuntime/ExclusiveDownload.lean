import FeatureRuntime.Downloads

/-! The pointer to the exclusive task: published before the checks of `download`, and cleared at the
end of the task only when its instance is there. -/
namespace FeatureRuntime.Downloads

/-- While the script or the event loop runs the pointer is null or to a live, linked task; no freed task
is read; and every task is freed once, unless it is linked. -/
structure PointerSafe (s : Downloads) : Prop where
  noFault : s.fault = false
  linked : s.inScript = true → ∀ info, s.shareInfo = some info → info ∈ s.linklist ∧ (s.heap info).isSome = true
  freed_once : s.freed.Nodup
  freed_all : s.todo = [] → ∀ info < s.allocated, info ∈ s.linklist ↔ info ∉ s.freed

/-- An exclusive download with memory passes its checks, and the instance of the exclusive task is there
when its transfer ends. -/
def KeepsPointer (s : Downloads) : DownloadOp → Prop
  | .download handle _ share malloc url disk _ _ =>
    s.inScript = true → s.detached handle = false → malloc = true → share = false →
      isValidUri url = true ∧ disk = true
  | .transferEnds info _ => s.todo = [] → s.shareInfo = some info →
      ∀ req, s.heap info = some req → s.detached req.featureHandle = false
  | _ => True

def Overwrites (info : ℕ) : List DownloadAction → Prop
  | .discard other :: .start _ _ _ _ share _ _ _ _ :: _ => other = info ∧ share = false
  | .start _ _ _ _ share _ _ _ _ :: _ => share = false
  | _ => False

/-- The pointer is to a linked task that does not end, or is about to be replaced; and the exclusive
downloads under way pass their checks. -/
structure Exclusive (s : Downloads) : Prop where
  tasks : s.Tasks
  pointer : ∀ info, s.shareInfo = some info →
    (info ∈ s.linklist ∧ info ∉ discards s.todo) ∨ (s.inScript = false ∧ Overwrites info s.todo)
  valid : ∀ info call handle ids url disk now rand,
    .start info call handle ids false url disk now rand ∈ s.todo → isValidUri url = true ∧ disk = true

namespace Exclusive

variable {s : Downloads}

theorem pointerSafe (hs : s.Exclusive) : s.PointerSafe where
  noFault := hs.tasks.noFault
  linked hscript info hinfo := by
    obtain ⟨hlinked,_⟩ := (hs.pointer info hinfo).resolve_right (fun h => by simp [hscript] at h)
    exact ⟨hlinked,(hs.tasks.live info).mpr (.inl hlinked)⟩
  freed_once := hs.tasks.freed_nodup
  freed_all htodo info hinfo := by
    have hcount := hs.tasks.counted info
    rw [htodo,if_pos hinfo] at hcount
    simp only [owned,List.filterMap_nil,List.append_nil,List.count_append] at hcount
    rw [← List.count_pos_iff,← List.count_eq_zero]
    omega

theorem pointer_of_script (hs : s.Exclusive) (hscript : s.inScript = true) {info : ℕ}
    (hinfo : s.shareInfo = some info) : info ∈ s.linklist ∧ info ∉ discards s.todo :=
  (hs.pointer info hinfo).resolve_right (fun h => by simp [hscript] at h)

theorem findsLive (hs : s.Exclusive) (op : DownloadOp) : FindsLive s op := by
  cases op with
  | download handle ids share malloc url disk now rand =>
    intro _ _ hscript info hinfo
    exact (hs.tasks.live info).mpr (.inl (hs.pointer_of_script hscript hinfo).1)
  | _ => trivial

variable {action : DownloadAction} {rest : List DownloadAction}

theorem perform_plain (hs : s.Exclusive) (htodo : s.todo = action :: rest)
    (hplain : ∀ info, ¬ Overwrites info s.todo) {t : Downloads} (ht : t.Tasks)
    (hlinklist : t.linklist = s.linklist) (hshare : t.shareInfo = s.shareInfo) (hrest : t.todo = rest) :
    t.Exclusive := by
  refine ⟨ht,fun info hinfo => ?_,fun i c h is u d n r hmem => ?_⟩
  · rw [hshare] at hinfo
    obtain ⟨hlinked,hquiet⟩ := (hs.pointer info hinfo).resolve_right (fun h => hplain info h.2)
    rw [hlinklist,hrest]
    refine .inl ⟨hlinked,fun h => hquiet ?_⟩
    rw [htodo]
    obtain ⟨a,ha,heq⟩ := List.mem_filterMap.mp h
    exact List.mem_filterMap.mpr ⟨a,List.mem_cons_of_mem _ ha,heq⟩
  · rw [hrest] at hmem
    exact hs.valid i c h is u d n r (htodo ▸ List.mem_cons_of_mem _ hmem)

theorem perform_discard {info : ℕ} (hs : s.Exclusive) (htodo : s.todo = .discard info :: rest) :
    ({ s with todo := rest, inScript := false }.perform (.discard info)).Exclusive := by
  have ht := hs.tasks.perform_discard htodo
  have hdiscards : discards s.todo = info :: discards rest := by rw [htodo]; rfl
  have hmem : info ∈ discards s.todo := by simp [hdiscards]
  obtain ⟨req,hreq⟩ := hs.tasks.live_of_discards hmem
  simp only [perform,freeReqInfo,hreq] at ht ⊢
  refine ⟨ht,fun i hi => ?_,fun i c h is u d n r hmem => ?_⟩
  · rcases hs.pointer i hi with ⟨hlinked,hquiet⟩ | ⟨_,hover⟩
    · rw [hdiscards,List.mem_cons,not_or] at hquiet
      exact .inl ⟨(List.mem_erase_of_ne hquiet.1).mpr hlinked,hquiet.2⟩
    · rw [htodo] at hover
      -- only the start of another exclusive download follows
      cases rest with
      | nil => exact hover.elim
      | cons action rest =>
        cases action with
        | start => exact .inr ⟨rfl,hover.2⟩
        | _ => exact hover.elim
  · exact hs.valid i c h is u d n r (htodo ▸ List.mem_cons_of_mem _ hmem)

theorem perform_start {info call handle : ℕ} {ids : CallbackIds} {share : Bool} {url : Option String}
    {disk : Bool} {now rand : ℕ} (hs : s.Exclusive)
    (htodo : s.todo = .start info call handle ids share url disk now rand :: rest) :
    ({ s with todo := rest, inScript := false }.start info call handle ids share url disk now rand).Exclusive := by
  have ht := hs.tasks.perform_start htodo
  have hdiscards : discards s.todo = discards rest := by rw [htodo]; rfl
  have hvalid : ∀ i c h is u d n r, .start i c h is false u d n r ∈ rest → isValidUri u = true ∧ d = true :=
    fun i c h is u d n r hmem => hs.valid i c h is u d n r (htodo ▸ List.mem_cons_of_mem _ hmem)
  have hnotlinked : info ∉ discards rest := by
    intro h
    have hlinked := hs.tasks.discards_linked info (hdiscards ▸ h)
    refine hs.tasks.not_owned_of_linked hlinked ?_
    rw [htodo]
    exact List.mem_cons_self
  have hshared : share = true → ∀ i, s.shareInfo = some i → i ∈ s.linklist ∧ i ∉ discards rest := by
    rintro rfl i hi
    rw [← hdiscards]
    refine (hs.pointer i hi).resolve_right (fun h => ?_)
    rw [htodo] at h
    exact Bool.noConfusion h.2
  cases share with
  | true =>
    unfold Downloads.start at ht ⊢
    simp only [if_true] at ht ⊢
    split_ifs at ht ⊢
    · refine ⟨ht,fun i hi => .inl (hshared rfl i hi),fun i c h is u d n r hmem => ?_⟩
      exact hvalid i c h is u d n r (by simpa [answerCall] using hmem)
    · refine ⟨ht,fun i hi => .inl (hshared rfl i hi),fun i c h is u d n r hmem => ?_⟩
      exact hvalid i c h is u d n r (by simpa [answerCall] using hmem)
    · refine ⟨ht,fun i hi => .inl ⟨List.mem_append_left _ (hshared rfl i hi).1,(hshared rfl i hi).2⟩,
        fun i c h is u d n r hmem => ?_⟩
      exact hvalid i c h is u d n r (by simpa [answerCall,setInfo] using hmem)
  | false =>
    obtain ⟨hurl,hdisk⟩ := hs.valid info call handle ids url disk now rand (htodo ▸ List.mem_cons_self)
    unfold Downloads.start at ht ⊢
    simp only [hurl,hdisk,Bool.true_eq_false,Bool.false_eq_true,if_false] at ht ⊢
    refine ⟨ht,fun i hi => .inl ?_,fun i c h is u d n r hmem => ?_⟩
    · obtain rfl := Option.some.inj hi
      exact ⟨by simp,hnotlinked⟩
    · exact hvalid i c h is u d n r (by simpa [answerCall,setInfo] using hmem)

theorem next (hs : s.Exclusive) : s.next.Exclusive := by
  have ht := hs.tasks.next
  unfold Downloads.next at ht ⊢
  cases htodo : s.todo with
  | nil => exact hs
  | cons action rest =>
    have hordered := (hs.tasks.ordered_head htodo).1
    have hlive : ∀ {info}, (∀ i, action ≠ .discard i) → info ∈ discards rest → ∃ req, s.heap info = some req := by
      intro info hplain hinfo
      refine hs.tasks.live_of_discards ?_
      rw [htodo]
      obtain ⟨a,ha,hi⟩ := List.mem_filterMap.mp hinfo
      exact List.mem_filterMap.mpr ⟨a,List.mem_cons_of_mem _ ha,hi⟩
    rw [htodo] at ht
    have hinvoke : ∀ call handle id answer,
        ({ s with todo := rest, inScript := false }.invokeCallback call handle id answer).Tasks →
        (∀ info, ¬ Overwrites info s.todo) →
        ({ s with todo := rest, inScript := false }.invokeCallback call handle id answer).Exclusive := by
      intro call handle id answer hok hplain
      obtain ⟨_,_,_,hlinklist,hshare,_,hrest⟩ :=
        Tasks.invokeCallback_same { s with todo := rest, inScript := false } call handle id answer
      exact hs.perform_plain htodo hplain hok hlinklist hshare hrest
    have hplain : (∀ info, action ≠ .discard info) → owned [action] = [] → ∀ info, ¬ Overwrites info s.todo := by
      intro hd ho info
      rw [htodo]
      cases action with
      | discard i => exact absurd rfl (hd i)
      | start => simp [owned] at ho
      | _ => exact id
    cases action with
    | answer info e =>
      obtain ⟨req,hreq⟩ := hlive (by simp) hordered
      simp only [perform,hreq] at ht ⊢
      exact hinvoke _ _ _ _ ht (hplain (by simp) rfl)
    | addResult info e =>
      obtain ⟨req,hreq⟩ := hlive (by simp) hordered
      simp only [perform,hreq] at ht ⊢
      exact hs.perform_plain htodo (hplain (by simp) rfl) ht rfl rfl rfl
    | complete info =>
      obtain ⟨req,hreq⟩ := hlive (by simp) hordered
      simp only [perform,hreq] at ht ⊢
      exact hinvoke _ _ _ _ ht (hplain (by simp) rfl)
    | removeAll info =>
      obtain ⟨req,hreq⟩ := hlive (by simp) hordered
      simp only [perform,hreq] at ht ⊢
      exact hs.perform_plain htodo (hplain (by simp) rfl) ht rfl rfl rfl
    | discard info => exact hs.perform_discard htodo
    | start info call handle ids share url disk now rand => exact hs.perform_start htodo
    | invoke call handle id answer => exact hinvoke _ _ _ _ ht (hplain (by simp) rfl)
    | removeIds call handle ids => exact hs.perform_plain htodo (hplain (by simp) rfl) ht rfl rfl rfl
    | free info =>
      have hmem : info ∈ owned s.todo := by rw [htodo]; exact List.mem_cons_self
      obtain ⟨req,hreq⟩ := Option.isSome_iff_exists.mp ((hs.tasks.live info).mpr (.inr hmem))
      simp only [perform,freeReqInfo,hreq] at ht ⊢
      refine hs.perform_plain htodo ?_ ht rfl rfl rfl
      rw [htodo]
      exact fun _ => id
    | ret => exact hs.perform_plain htodo (hplain (by simp) rfl) ht rfl rfl rfl

theorem answering (hs : s.Exclusive) (hscript : s.inScript = true) {t : Downloads} (ht : t.Tasks)
    (hlinklist : t.linklist = s.linklist) (hshare : t.shareInfo = s.shareInfo) {call handle : ℕ}
    {ids : CallbackIds} {id : ℤ} {answer : Answer}
    (htodo : t.todo = answerCall call handle ids id answer ++ .ret :: s.todo) : t.Exclusive := by
  have hdiscards : discards t.todo = discards s.todo := by rw [htodo]; rfl
  refine ⟨ht,fun i hi => .inl ?_,fun i c h is u d n r hmem => ?_⟩
  · rw [hlinklist,hdiscards]
    exact hs.pointer_of_script hscript (hshare ▸ hi)
  · rw [htodo] at hmem
    exact hs.valid i c h is u d n r (by simpa [answerCall] using hmem)

theorem onDownloadComplete (hs : s.Exclusive) (hscript : s.inScript = true) (handle : ℕ)
    (token : Option String) (ids : CallbackIds) : (s.onDownloadComplete handle token ids).Exclusive := by
  have ht := hs.tasks.onDownloadComplete hscript handle token ids
  have he := hs.tasks.enterCall handle ids (some (s.tokenState token))
  unfold Downloads.onDownloadComplete at ht ⊢
  cases token with
  | none => exact hs.answering hscript ht rfl rfl rfl
  | some token =>
    obtain ⟨found,hfound,_⟩ := he.findInfo_some token (fun _ h => h)
    simp only [hfound] at ht ⊢
    cases found with
    | some info => exact ⟨ht,hs.pointer,hs.valid⟩
    | none =>
      dsimp only at ht ⊢
      split at ht
      · exact hs.answering hscript ht rfl rfl rfl
      · exact hs.answering hscript ht rfl rfl rfl

theorem download (hs : s.Exclusive) (hscript : s.inScript = true) (handle : ℕ)
    (hattached : s.detached handle = false) (ids : CallbackIds) (share malloc : Bool)
    (url : Option String) (disk : Bool) (now rand : ℕ)
    (hgood : KeepsPointer s (.download handle ids share malloc url disk now rand)) :
    (s.download handle ids share malloc url disk now rand).Exclusive := by
  have hlive := hs.findsLive (.download handle ids share malloc url disk now rand)
  have ht := hs.tasks.download hscript handle ids share malloc url disk now rand hlive
  unfold Downloads.download at ht ⊢
  cases malloc with
  | false => exact hs.answering hscript ht rfl rfl rfl
  | true =>
    have hvalid : ∀ i c h is u d n r, .start i c h is false u d n r ∈
        .start s.allocated s.calls.length handle ids share url disk now rand :: s.todo →
          isValidUri u = true ∧ d = true := by
      intro i c h is u d n r hmem
      rcases List.mem_cons.mp hmem with heq | hmem
      · simp only [DownloadAction.start.injEq] at heq
        obtain ⟨rfl,rfl,rfl,rfl,rfl,rfl,rfl,rfl,rfl⟩ := heq
        exact hgood hscript hattached rfl rfl
      · exact hs.valid i c h is u d n r hmem
    simp only [if_true] at ht ⊢
    split at ht
    · next _ _ other hother =>
      have hlinked := (hs.pointer_of_script hscript hother).1
      obtain ⟨req,hreq⟩ := Option.isSome_iff_exists.mp (hlive rfl rfl hscript other hother)
      have hne : other ≠ s.allocated := (hs.tasks.share_allocated other hother).ne
      have hreq' : Function.update s.heap s.allocated
          (some { featureHandle := handle, share := false }) other = some req := by
        rw [Function.update_of_ne hne,hreq]
      have hrequest := (hs.tasks.requested other req hreq).mpr hlinked
      have hexclusive := hs.tasks.share_exclusive other req hother hreq
      simp only [requestCancel,Downloads.enterCall,hreq',hrequest,if_true,Downloads.requestCb] at ht ⊢
      by_cases hdetached : s.detached req.featureHandle = true
      · simp only [hdetached,if_true] at ht ⊢
        refine ⟨ht,fun i hi => .inr ⟨rfl,?_⟩,fun i c h is u d n r hmem => ?_⟩
        · exact ⟨Option.some.inj (hother.symm.trans hi),rfl⟩
        · exact hvalid i c h is u d n r (by simpa using hmem)
      · simp only [hdetached,Bool.false_eq_true,if_false] at ht ⊢
        refine ⟨ht,fun i hi => ?_,fun i c h is u d n r hmem => ?_⟩
        · simp [hexclusive] at hi
        · exact hvalid i c h is u d n r (by simpa using hmem)
    · exact ⟨ht,fun i hi => .inl (hs.pointer_of_script hscript hi),hvalid⟩

theorem requestCb (hs : s.Exclusive) (htodo : s.todo = []) {info : ℕ} (hinfo : info ∈ s.linklist)
    (e : TransferEnd) (hgood : KeepsPointer s (.transferEnds info e))
    (ht : (s.requestCb info e [.ret]).Tasks) : (s.requestCb info e [.ret]).Exclusive := by
  have hscript := hs.tasks.idle htodo
  obtain ⟨req,hreq⟩ := Option.isSome_iff_exists.mp ((hs.tasks.live info).mpr (.inl hinfo))
  simp only [Downloads.requestCb,hreq] at ht ⊢
  by_cases hdetached : s.detached req.featureHandle = true
  · rw [if_pos hdetached] at ht ⊢
    refine ⟨ht,fun i hi => .inl ⟨(hs.pointer_of_script hscript hi).1,fun hmem => ?_⟩,
      fun _ _ _ _ _ _ _ _ h => by simp at h⟩
    have heq : i = info := by simpa [discards] using hmem
    subst heq
    exact absurd (hgood htodo hi req hreq) (by simp [hdetached])
  · rw [if_neg hdetached] at ht ⊢
    refine ⟨ht,fun i hi => .inl ?_,fun _ _ _ _ _ _ _ _ h => by simp at h⟩
    dsimp only at hi
    split_ifs at hi with hshare
    refine ⟨(hs.pointer_of_script hscript hi).1,fun hmem => ?_⟩
    have heq : i = info := by simpa [discards] using hmem
    subst heq
    rw [hs.tasks.share_exclusive i req hi hreq] at hshare
    exact Bool.noConfusion hshare

theorem step (hs : s.Exclusive) (op : DownloadOp) (hgood : KeepsPointer s op) : (s.step op).Exclusive := by
  have ht := hs.tasks.step op (hs.findsLive op)
  unfold Downloads.step at ht ⊢
  by_cases hend : s.fault = true ∨ s.exit = true
  · rw [if_pos hend]
    exact hs
  · rw [if_neg hend] at ht ⊢
    cases op with
    | download handle ids share malloc url disk now rand =>
      dsimp only at ht ⊢
      split_ifs at ht ⊢ with h
      · exact hs.download h.1 handle h.2 ids share malloc url disk now rand hgood
      · exact hs
    | onDownloadComplete handle token ids =>
      dsimp only at ht ⊢
      split_ifs at ht ⊢ with h
      · exact hs.onDownloadComplete h.1 handle token ids
      · exact hs
    | transferEnds info e =>
      dsimp only at ht ⊢
      split_ifs at ht ⊢ with h
      · exact hs.requestCb (List.isEmpty_iff.mp h.1) h.2.1 e hgood ht
      · exact hs
    | transferCrashes info =>
      dsimp only at ht ⊢
      split_ifs at ht ⊢ with h
      · exact ⟨ht,hs.pointer,hs.valid⟩
      · exact hs
    | detach handle =>
      dsimp only at ht ⊢
      split_ifs at ht ⊢ with h
      · exact ⟨ht,hs.pointer,hs.valid⟩
      · exact hs
    | destroy =>
      dsimp only at ht ⊢
      split_ifs at ht ⊢ with h
      · have htodo : s.destroy.todo = s.todo := by
          have hlive : ∀ i ∈ s.linklist, (s.heap i).isSome := fun i hi => (hs.tasks.live i).mpr (.inl hi)
          unfold Downloads.destroy
          rw [Tasks.freeAll hs.tasks.linklist_nodup hlive]
        refine ⟨ht,nofun,fun i c h is u d n r hmem => hs.valid i c h is u d n r (htodo ▸ hmem)⟩
      · exact hs
    | next => exact hs.next

theorem init : Exclusive {} where
  tasks := tasks_init
  pointer := nofun
  valid := by simp

end Exclusive

/-- Every run of downloads, registrations, transfers, detaches and exit, with whatever the callbacks call
in between: the pointer stays safe while the exclusive downloads pass their checks and the exclusive task
does not outlive its instance. -/
theorem exclusive_pointer_safe (ops : List DownloadOp) (h : Transition.Guarded step KeepsPointer {} ops) :
    Transition.Always step PointerSafe {} ops := by
  have hrun : Transition.Always step Exclusive {} ops :=
    h.always (fun _ op hs hgood => hs.step op hgood) Exclusive.init
  exact hrun.mono (fun _ hs => hs.pointerSafe)

def exclusiveDownloads : List DownloadOp :=
  [.download 0 { success := 1 } false true (some "http://a") true 0 0,.next,.next,.next,.next,.next,
    .transferEnds 0 (.done "internal://files/a"),.next,.next,.next,.next,.next,.next,
    .download 0 {} false true (some "http://b") true 0 0,.next]

theorem exclusiveDownloads_safe : Transition.Always step PointerSafe {} exclusiveDownloads :=
  exclusive_pointer_safe exclusiveDownloads
    ⟨fun _ _ _ _ => by decide,trivial,trivial,trivial,trivial,trivial,fun _ _ _ _ => rfl,trivial,trivial,
      trivial,trivial,trivial,trivial,fun _ _ _ _ => by decide,trivial,trivial⟩

/-- An exclusive download without a url is freed while the pointer is to it; the next one cancels it. -/
theorem pointer_dangles : ¬ ∀ ops, Transition.Always step PointerSafe {} ops := by
  intro h
  have hrun := h [.download 0 {} false true none true 0 0,.next,.next,.next,.next,.next,.next,
    .download 0 {} false true (some "http://a") true 0 0]
  exact absurd hrun.last.noFault (by decide)

end FeatureRuntime.Downloads
