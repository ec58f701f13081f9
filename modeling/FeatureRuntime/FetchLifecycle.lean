import FeatureRuntime.FetchResponse
import FeatureRuntime.MemoryTrace
import FeatureRuntime.Transition

/-! The life of the fetches of an app: what a call takes and what becomes of it when a check fails, when its
request is over, and when the feature is destroyed. -/
namespace FeatureRuntime

open FetchResponse (RequestState)

inductive FetchResource
  | content
  | record
  | instanceHandle
  | url
  | node
  deriving DecidableEq

/-- The results of the checks and of the creations that a call goes through. -/
structure FetchChecks where
  contentCreated : Bool
  urlValid : Bool
  methodValid : Bool
  headerGiven : Bool
  headerValid : Bool
  /-- There is data, and the method has a body. -/
  dataTaken : Bool
  dataValid : Bool
  /-- The path to download to, when a file was asked for. -/
  pathFound : Bool
  requestCreated : Bool

namespace FetchChecks

def accepted (c : FetchChecks) : Bool :=
  c.urlValid && c.methodValid && (!c.headerGiven || c.headerValid) && (!c.dataTaken || c.dataValid)

def committed (c : FetchChecks) : Bool :=
  c.contentCreated && c.accepted && c.pathFound && c.requestCreated

end FetchChecks

/-- A call: its instance, what it did with its resources, and how often its promise was settled. -/
structure FetchCall (ι : Type) where
  feature : ι
  events : List (MemoryEvent FetchResource)
  settled : ℕ

def acquire (r : FetchResource) : MemoryEvent FetchResource := .alloc r 1

namespace FetchCall

variable {ι : Type}

/-- `fetch_create`, before it looks for a path. -/
def fetchCreate (call : FetchCall ι) : FetchCall ι :=
  { call with events := call.events ++ [acquire .record,acquire .instanceHandle] }

/-- `request_create` after the request is there. -/
def requestCreate (call : FetchCall ι) : FetchCall ι :=
  { call with events := call.events ++ [acquire .url] }

/-- `weakref_list_add_tail`. -/
def addTail (call : FetchCall ι) : FetchCall ι :=
  { call with events := call.events ++ [acquire .node] }

def settle (call : FetchCall ι) : FetchCall ι := { call with settled := call.settled + 1 }

/-- `system_fetch_wrap_fetch`: whether the request is under way at its end, and the call. -/
def wrapFetch (feature : ι) (c : FetchChecks) : Bool × FetchCall ι :=
  let call : FetchCall ι := ⟨feature,[],0⟩
  if !c.contentCreated then (false,call.settle)
  else
    let call := { call with events := [acquire .content] }
    if !c.urlValid then (false,call.settle)
    else if !c.methodValid then (false,call.settle)
    else if c.headerGiven && !c.headerValid then (false,call.settle)
    else if c.dataTaken && !c.dataValid then (false,call.settle)
    else
      let call := call.fetchCreate
      if !c.pathFound then (false,call.settle)
      else if !c.requestCreated then (false,call.settle)
      else (true,call.requestCreate.addTail)

def has (call : FetchCall ι) (r : FetchResource) : Bool := MemoryEvent.isLive r call.events

def fetchFree (call : FetchCall ι) : FetchCall ι :=
  { call with events := call.events ++ [.free .node] ++
      (if call.has .content then [.free .content] else []) ++
      (if call.has .url then [.free .url] else []) ++ [.free .instanceHandle,.free .record] }

def fetchRequestCb (detached : Bool) (state : RequestState) (call : FetchCall ι) : FetchCall ι :=
  if detached then call.fetchFree
  else
    match state with
    | .done => call.settle.fetchFree
    | .cancel => call.fetchFree
    | .error => call.settle.fetchFree

end FetchCall

/-- A call that is over, and whether its instance was detached or the feature destroyed by then. -/
structure PastFetch (ι : Type) where
  excused : Bool
  call : FetchCall ι

structure FetchFeature (ι : Type) where
  /-- The requests under way. -/
  linklist : List (FetchCall ι) := []
  past : List (PastFetch ι) := []
  detached : ι → Bool := fun _ => false
  destroyed : Bool := false

inductive FetchOp (ι : Type)
  | fetch (feature : ι) (checks : FetchChecks)
  /-- The transport is over with the request at a place of the list. -/
  | complete (request : ℕ) (state : RequestState)
  | detach (feature : ι)
  | destroy

namespace FetchFeature

variable {ι : Type} [DecidableEq ι]

/-- `system_fetch_onDestroy`. -/
def onDestroy (s : FetchFeature ι) : FetchFeature ι :=
  { s with
    linklist := []
    past := s.past ++ s.linklist.map (fun call => ⟨true,call.fetchFree⟩)
    destroyed := true }

def step (s : FetchFeature ι) : FetchOp ι → FetchFeature ι
  | .fetch feature checks =>
    if s.destroyed then s
    else
      let r := FetchCall.wrapFetch feature checks
      if r.1 then { s with linklist := s.linklist ++ [r.2] }
      else { s with past := s.past ++ [⟨false,r.2⟩] }
  | .complete request state =>
    match s.linklist[request]? with
    | none => s
    | some call =>
      let detached := s.detached call.feature
      { s with
        linklist := s.linklist.eraseIdx request
        past := s.past ++ [⟨detached,call.fetchRequestCb detached state⟩] }
  | .detach feature => { s with detached := Function.update s.detached feature true }
  | .destroy => s.onDestroy

/-- The promise of a call that is over was settled once, or not when it is excused; and everything it took was
given back once. -/
structure Over (it : PastFetch ι) : Prop where
  once : it.call.settled ≤ 1
  settled : it.excused = false → it.call.settled = 1
  released : MemoryEvent.Safe it.call.events

/-- No promise is settled twice and nothing is given back twice, and calls that are over left nothing behind. -/
structure Right (s : FetchFeature ι) : Prop where
  once : ∀ call ∈ s.linklist, call.settled ≤ 1
  held : ∀ call ∈ s.linklist, ∀ r, MemoryEvent.block r call.events ≠ .faulty
  finished : ∀ it ∈ s.past, Over it

/-- A call fails before its content record is there or not at all, and a request is cancelled only for an
instance that is detached. -/
def Meets (s : FetchFeature ι) : FetchOp ι → Prop
  | .fetch _ checks => s.destroyed = true ∨ checks.contentCreated = false ∨ checks.committed = true
  | .complete request state => ∀ call ∈ s.linklist[request]?,
      s.detached call.feature = true ∨ state ≠ .cancel
  | .detach _ => True
  | .destroy => True

end FetchFeature

namespace FetchCall

variable {ι : Type}

def underWay (feature : ι) : FetchCall ι where
  feature := feature
  events := [acquire .content,acquire .record,acquire .instanceHandle,acquire .url,acquire .node]
  settled := 0

/-- A call that is committed is under way; any other one is rejected at once and keeps what it has taken. -/
theorem wrapFetch_cases (feature : ι) (c : FetchChecks) :
    (c.committed = true ∧ wrapFetch feature c = (true,underWay feature)) ∨
      (c.contentCreated = false ∧ wrapFetch feature c = (false,⟨feature,[],1⟩)) ∨
      (c.contentCreated = true ∧ c.committed = false ∧ ∃ events, wrapFetch feature c = (false,⟨feature,events,1⟩) ∧
        MemoryEvent.block .content events = .live 1) := by
  cases hcontent : c.contentCreated with
  | false => exact .inr (.inl ⟨rfl,by simp [wrapFetch,hcontent,settle]⟩)
  | true =>
    by_cases hcommitted : c.committed = true
    · refine .inl ⟨hcommitted,?_⟩
      simp only [FetchChecks.committed,FetchChecks.accepted,Bool.and_eq_true,Bool.or_eq_true,
        Bool.not_eq_true'] at hcommitted
      obtain ⟨⟨⟨-,⟨⟨hurl,hmethod⟩,hheader⟩,hdata⟩,hpath⟩,hrequest⟩ := hcommitted
      have hheader' : (c.headerGiven && !c.headerValid) = false := by
        rcases hheader with h | h <;> simp [h]
      have hdata' : (c.dataTaken && !c.dataValid) = false := by
        rcases hdata with h | h <;> simp [h]
      simp [wrapFetch,hcontent,hurl,hmethod,hheader',hdata',hpath,hrequest,fetchCreate,
        requestCreate,addTail,underWay]
    · refine .inr (.inr ⟨rfl,by simpa using hcommitted,?_⟩)
      simp only [wrapFetch,hcontent]
      -- One case for each exit, and the last one for the end of the function.
      split_ifs with h1 h2 h3 h4 h5 h6 h7
      · exact absurd h1 (by decide)
      · exact ⟨_,rfl,rfl⟩
      · exact ⟨_,rfl,rfl⟩
      · exact ⟨_,rfl,rfl⟩
      · exact ⟨_,rfl,rfl⟩
      · exact ⟨_,rfl,rfl⟩
      · exact ⟨_,rfl,rfl⟩
      · refine absurd ?_ hcommitted
        simp only [Bool.not_eq_true',Bool.not_eq_false,Bool.and_eq_true,not_and] at h2 h3 h4 h5 h6 h7
        simp only [FetchChecks.committed,FetchChecks.accepted,hcontent,h2,h3,h6,h7,Bool.true_and,
          Bool.and_true,Bool.and_eq_true,Bool.or_eq_true,Bool.not_eq_true']
        refine ⟨?_,?_⟩
        · cases hgiven : c.headerGiven with
          | false => exact .inl rfl
          | true => exact .inr (h4 hgiven)
        · cases htaken : c.dataTaken with
          | false => exact .inl rfl
          | true => exact .inr (h5 htaken)

theorem block_underWay (feature : ι) (r : FetchResource) :
    MemoryEvent.block r (underWay feature).events = .live 1 := by
  cases r <;> rfl

theorem safe_fetchFree {call : FetchCall ι} {feature : ι}
    (h : call.events = (underWay feature).events) : MemoryEvent.Safe call.fetchFree.events := by
  have hevents : call.fetchFree.events = (underWay feature).events ++
      [.free .node,.free .content,.free .url,.free .instanceHandle,.free .record] := by
    have hcontent : call.has .content = true := by
      rw [has,h]
      rfl
    have hurl : call.has .url = true := by
      rw [has,h]
      rfl
    simp [fetchFree,h,hcontent,hurl]
  rw [hevents]
  refine ⟨fun r => .inr ?_,fun divisor hmem => ?_⟩
  · cases r <;> rfl
  · simp [underWay,acquire] at hmem

@[simp] theorem settled_fetchFree (call : FetchCall ι) : call.fetchFree.settled = call.settled := rfl

theorem settled_fetchRequestCb (detached : Bool) (state : RequestState) (call : FetchCall ι) :
    (call.fetchRequestCb detached state).settled =
      if detached = true ∨ state = .cancel then call.settled else call.settled + 1 := by
  cases detached <;> cases state <;> rfl

theorem safe_fetchRequestCb {call : FetchCall ι} {feature : ι}
    (h : call.events = (underWay feature).events) (detached : Bool) (state : RequestState) :
    MemoryEvent.Safe (call.fetchRequestCb detached state).events := by
  cases detached <;> cases state <;> exact safe_fetchFree h

end FetchCall

namespace FetchFeature

variable {ι : Type} [DecidableEq ι] {s : FetchFeature ι}

/-- The requests in the list have all their resources and no settled promise. -/
structure Sound (s : FetchFeature ι) : Prop where
  waiting : ∀ call ∈ s.linklist, call.settled = 0 ∧ call.events = (FetchCall.underWay call.feature).events
  finished : ∀ it ∈ s.past, Over it

omit [DecidableEq ι] in
theorem Sound.right (h : s.Sound) : s.Right where
  once call hcall := by
    rw [(h.waiting call hcall).1]
    exact Nat.zero_le 1
  held call hcall r := by
    rw [(h.waiting call hcall).2,FetchCall.block_underWay]
    exact nofun
  finished := h.finished

theorem Sound.step (h : s.Sound) (op : FetchOp ι) (hmeets : s.Meets op) : (s.step op).Sound := by
  cases op with
  | fetch feature checks =>
    by_cases hdestroyed : s.destroyed = true
    · simpa [FetchFeature.step,hdestroyed] using h
    · rcases FetchCall.wrapFetch_cases feature checks with ⟨hcommitted,hwrap⟩ | ⟨hcontent,hwrap⟩ |
        ⟨hcontent,hcommitted,-⟩
      · simp only [FetchFeature.step,hdestroyed,hwrap,if_true]
        refine ⟨fun call hcall => ?_,h.finished⟩
        rcases List.mem_append.mp hcall with hold | hnew
        · exact h.waiting call hold
        · rw [List.mem_singleton.mp hnew]
          exact ⟨rfl,rfl⟩
      · simp only [FetchFeature.step,hdestroyed,if_false,hwrap,Bool.false_eq_true]
        refine ⟨h.waiting,fun it hit => ?_⟩
        rcases List.mem_append.mp hit with hold | hnew
        · exact h.finished it hold
        · rw [List.mem_singleton.mp hnew]
          exact ⟨Nat.le_refl 1,fun _ => rfl,⟨fun r => .inl rfl,fun _ hmem => nomatch hmem⟩⟩
      · rcases hmeets with hgone | hnot | hdone
        · exact absurd hgone hdestroyed
        · exact absurd (hcontent.symm.trans hnot) (by decide)
        · exact absurd (hcommitted.symm.trans hdone) (by decide)
  | complete request state =>
    cases hrequest : s.linklist[request]? with
    | none => simpa [FetchFeature.step,hrequest] using h
    | some call =>
      obtain ⟨hsettled,hevents⟩ := h.waiting call (List.mem_of_getElem? hrequest)
      simp only [FetchFeature.step,hrequest]
      refine ⟨fun other hother => h.waiting other (List.mem_of_mem_eraseIdx hother),
        fun it hit => ?_⟩
      rcases List.mem_append.mp hit with hold | hnew
      · exact h.finished it hold
      · rw [List.mem_singleton.mp hnew]
        have hcount := FetchCall.settled_fetchRequestCb (s.detached call.feature) state call
        rw [hsettled] at hcount
        refine ⟨?_,fun hexcused => ?_,FetchCall.safe_fetchRequestCb hevents _ _⟩
        · rw [hcount]
          split_ifs <;> omega
        · have hstate : state ≠ .cancel :=
            (hmeets call hrequest).resolve_left (fun hgone => by simp [hgone] at hexcused)
          have hnot : ¬ (s.detached call.feature = true ∨ state = .cancel) := by
            rintro (hgone | hcancel)
            · simp [hgone] at hexcused
            · exact hstate hcancel
          rw [hcount,if_neg hnot]
  | detach feature => exact ⟨h.waiting,h.finished⟩
  | destroy =>
    refine ⟨fun call hcall => absurd hcall List.not_mem_nil,fun it hit => ?_⟩
    rcases List.mem_append.mp hit with hold | hnew
    · exact h.finished it hold
    · obtain ⟨call,hcall,rfl⟩ := List.mem_map.mp hnew
      obtain ⟨hsettled,hevents⟩ := h.waiting call hcall
      refine ⟨?_,nofun,FetchCall.safe_fetchFree hevents⟩
      rw [FetchCall.settled_fetchFree,hsettled]
      exact Nat.zero_le 1

/-- A call that is refused after its content record was made keeps the record, and a cancelled one leaves its
promise. -/
theorem Sound.not_right (h : s.Sound) (op : FetchOp ι) (hbad : ¬ s.Meets op) : ¬ (s.step op).Right := by
  intro hright
  cases op with
  | fetch feature checks =>
    simp only [Meets,not_or] at hbad
    obtain ⟨hdestroyed,hcontent,hcommitted⟩ := hbad
    rcases FetchCall.wrapFetch_cases feature checks with ⟨hyes,-⟩ | ⟨hno,-⟩ |
      ⟨-,-,events,hwrap,hlive⟩
    · exact hcommitted hyes
    · exact hcontent hno
    · have hover := hright.finished ⟨false,⟨feature,events,1⟩⟩ (by
        simp [FetchFeature.step,hdestroyed,hwrap])
      have hblock := hover.released.blocks .content
      rw [hlive] at hblock
      simp at hblock
  | complete request state =>
    simp only [Meets,not_forall,not_or,not_not] at hbad
    obtain ⟨call,hrequest,hattached,rfl⟩ := hbad
    have hattached : s.detached call.feature = false := by simpa using hattached
    have hrequest : s.linklist[request]? = some call := hrequest
    have hover := hright.finished ⟨false,call.fetchRequestCb false .cancel⟩ (by
      simp [FetchFeature.step,hrequest,hattached])
    have hone := hover.settled rfl
    rw [FetchCall.settled_fetchRequestCb,if_pos (.inr rfl),
      (h.waiting call (List.mem_of_getElem? hrequest)).1] at hone
    exact absurd hone (by decide)
  | detach feature => exact hbad trivial
  | destroy => exact hbad trivial

/-- Throughout every run the promises are settled once and the resources of every call are given back once exactly when
every step meets its condition. -/
theorem right_iff_meets_each (ops : List (FetchOp ι)) :
    Transition.Always FetchFeature.step Right ({} : FetchFeature ι) ops ↔
      Transition.Guarded FetchFeature.step Meets ({} : FetchFeature ι) ops :=
  Transition.always_iff_guarded (I := Sound) (fun _ h => h.right) (fun _ op h hmeets => h.step op hmeets)
    (fun _ op h hbad => h.not_right op hbad)
    ⟨fun _ h => absurd h List.not_mem_nil,fun _ h => absurd h List.not_mem_nil⟩ ops

/-- A call with a URL that is refused. -/
theorem refused_url_leaks : ¬ ∀ ops : List (FetchOp ℕ),
      Transition.Always FetchFeature.step Right ({} : FetchFeature ℕ) ops := by
  intro h
  have hright := (h [.fetch 0 ⟨true,false,true,false,false,false,false,true,true⟩]).last
  have hblock := (hright.finished ⟨false,⟨0,[acquire .content],1⟩⟩ (by
    simp [Transition.run,FetchFeature.step,FetchCall.wrapFetch,FetchCall.settle])).released.blocks .content
  exact absurd hblock (by decide)

end FetchFeature

end FeatureRuntime
