import FeatureRuntime.Interconnect

/-! The calls of `onopen`: what the status messages and the assignments of the handler ask for, and
what the interconnect context does. -/
namespace FeatureRuntime

/-- The calls of `onopen` that a history of status messages and assignments asks for. -/
structure OpenEvents where
  connected : Bool := false
  connectedBefore : Bool := false
  /-- The `isReconnected` of a call that no handler was there for, while the phone is connected. -/
  owed : Option Bool := none
  onopen : ℕ := 0
  calls : List (ℕ × Bool) := []
  deriving DecidableEq, Repr

namespace OpenEvents

variable (e : OpenEvents)

def enter : OpenEvents :=
  let e' := { e with connected := true, connectedBefore := true }
  if e.onopen = 0 then { e' with owed := some e.connectedBefore }
  else { e' with calls := e.calls ++ [(e.onopen,e.connectedBefore)] }

def message (miwearStatus : MiwearStatus) : OpenEvents :=
  if miwearStatus = .phoneConnected then
    if e.connected then e else e.enter
  else { e with connected := false, owed := none }

def setOnOpen (onopen : ℕ) : OpenEvents :=
  if onopen = 0 then { e with onopen := 0 }
  else { e with
    onopen := onopen
    owed := none
    calls := e.calls ++ e.owed.toList.map (fun isReconnected => (onopen,isReconnected)) }

end OpenEvents

/-- An interconnect context together with the calls that are asked for. -/
structure OpenRun where
  context : InterconnectContext := {}
  events : OpenEvents := {}

namespace OpenRun

def stepEvents (s : OpenRun) : InterconnectOp → OpenEvents
  | .message status miwearStatus _ =>
    if s.context.data ∧ status = 0 then s.events.message miwearStatus else s.events
  | .setOnOpen onopen => if s.context.objectData then s.events.setOnOpen onopen else s.events
  | _ => s.events

def step (s : OpenRun) (op : InterconnectOp) : OpenRun :=
  ⟨s.context.step op,s.stepEvents op⟩

/-- `onopen` was called as the history asks for. -/
def Announced (s : OpenRun) : Prop := s.context.opens = s.events.calls

/-- A connection message that finds a handler enters the connected state, as a reconnection exactly
when the context is still connecting, or repeats it while the handler is not registered; and a handler
is assigned when a reconnection is owed and pending, or neither. -/
def Agrees (s : OpenRun) : InterconnectOp → Prop
  | .message status miwearStatus _ =>
    s.context.data → status = 0 → miwearStatus = .phoneConnected → s.context.connFunc ≠ 0 →
      if s.context.callbacks s.context.connFunc then
        s.context.status ≠ .phoneConnected ∧ s.context.isConnecting = s.events.connectedBefore
      else s.context.status = .phoneConnected
  | .setOnOpen onopen =>
    s.context.objectData → onopen ≠ 0 → s.events.owed = if s.context.isPendingConnect then some true else none
  | _ => True

end OpenRun

namespace InterconnectContext

/-- The connection and the handler are the same in both contexts. -/
structure SameConnection (c c' : InterconnectContext) : Prop where
  status : c'.status = c.status
  isPendingConnect : c'.isPendingConnect = c.isPendingConnect
  handle : c'.handle = c.handle
  connFunc : c'.connFunc = c.connFunc
  callbacks : c'.callbacks = c.callbacks
  data : c'.data = c.data
  objectData : c'.objectData = c.objectData
  opens : c'.opens = c.opens

namespace SameConnection

variable {c c' c'' : InterconnectContext}

theorem refl (c : InterconnectContext) : SameConnection c c := ⟨rfl,rfl,rfl,rfl,rfl,rfl,rfl,rfl⟩

theorem trans (h : SameConnection c c') (h' : SameConnection c' c'') : SameConnection c c'' where
  status := h'.status.trans h.status
  isPendingConnect := h'.isPendingConnect.trans h.isPendingConnect
  handle := h'.handle.trans h.handle
  connFunc := h'.connFunc.trans h.connFunc
  callbacks := h'.callbacks.trans h.callbacks
  data := h'.data.trans h.data
  objectData := h'.objectData.trans h.objectData
  opens := h'.opens.trans h.opens

end SameConnection

variable (c : InterconnectContext)

theorem processSendResult_same (address : ℕ) (result : SendResult) :
    SameConnection c (c.processSendResult address result) := by
  unfold processSendResult
  split
  · exact .refl c
  · exact ⟨rfl,rfl,rfl,rfl,rfl,rfl,rfl,rfl⟩

theorem timerSendCb_same (address : ℕ) : SameConnection c (c.timerSendCb address) := by
  unfold timerSendCb
  split_ifs
  · exact c.processSendResult_same address .timeout
  · exact ⟨rfl,rfl,rfl,rfl,rfl,rfl,rfl,rfl⟩

theorem miwearSendCb_same (address : ℕ) (status : ℤ) : SameConnection c (c.miwearSendCb address status) := by
  unfold miwearSendCb
  split_ifs
  · exact c.processSendResult_same address .ok
  · exact c.processSendResult_same address .failed
  · exact .refl c

theorem sendMsg_same (task : SendTask) (outcome : SendOutcome) : SameConnection c (c.sendMsg task outcome) := by
  have hhanded : SameConnection c { c with handed := c.handed ++ [task.pid] } :=
    ⟨rfl,rfl,rfl,rfl,rfl,rfl,rfl,rfl⟩
  cases outcome with
  | refused => exact hhanded
  | accepted => exact ⟨rfl,rfl,rfl,rfl,rfl,rfl,rfl,rfl⟩
  | reported status => exact hhanded.trans (miwearSendCb_same _ task.address status)

theorem processPendingSendTasks_same (outcome : ℕ → SendOutcome) (tasks : List SendTask) :
    SameConnection c (processPendingSendTasks outcome c tasks) := by
  induction tasks generalizing c with
  | nil => exact .refl c
  | cons task tasks ih =>
    unfold processPendingSendTasks
    have hclosed : SameConnection c (c.closeTimer task.address) := ⟨rfl,rfl,rfl,rfl,rfl,rfl,rfl,rfl⟩
    have hsent := hclosed.trans (sendMsg_same _ task (outcome task.address))
    dsimp only
    split_ifs
    · exact hsent.trans (ih _)
    · exact hsent.trans ⟨rfl,rfl,rfl,rfl,rfl,rfl,rfl,rfl⟩
    · exact ih c

theorem miwearConnectSend_same (pid : ℕ) (data : Option String) (address : ℕ)
    (outcome : SendOutcome) : SameConnection c (c.miwearConnectSend pid data address outcome) := by
  unfold miwearConnectSend
  split_ifs
  · exact ⟨rfl,rfl,rfl,rfl,rfl,rfl,rfl,rfl⟩
  · split
    · exact ⟨rfl,rfl,rfl,rfl,rfl,rfl,rfl,rfl⟩
    · next msg _ =>
      have hcreated : SameConnection c (c.createSendTask address msg pid false) :=
        ⟨rfl,rfl,rfl,rfl,rfl,rfl,rfl,rfl⟩
      exact hcreated.trans (sendMsg_same _ _ outcome)
  · split <;> exact ⟨rfl,rfl,rfl,rfl,rfl,rfl,rfl,rfl⟩
  · exact ⟨rfl,rfl,rfl,rfl,rfl,rfl,rfl,rfl⟩

end InterconnectContext

namespace OpenRun

/-- The context and the history agree on the state of the phone and on the handler. -/
structure OpenInvariant (s : OpenRun) : Prop where
  connected : s.events.connected = s.context.isConnected
  onopen : s.events.onopen = s.context.connFunc
  handle : s.context.objectData = true ∨ s.context.connFunc ≠ 0 → s.context.handle = true
  pending : s.context.isPendingConnect = true → s.context.connFunc = 0

variable {s : OpenRun}

namespace OpenInvariant

theorem init : OpenInvariant {} := by
  constructor <;> simp [InterconnectContext.isConnected]

theorem same (h : s.OpenInvariant) {c : InterconnectContext}
    (hsame : s.context.SameConnection c) : OpenInvariant ⟨c,s.events⟩ where
  connected := by
    rw [InterconnectContext.isConnected,hsame.status]
    exact h.connected
  onopen := h.onopen.trans hsame.connFunc.symm
  handle hset := by
    rw [hsame.handle]
    apply h.handle
    rwa [hsame.objectData,hsame.connFunc] at hset
  pending hpending := by
    rw [hsame.connFunc]
    apply h.pending
    rwa [hsame.isPendingConnect] at hpending

end OpenInvariant

theorem invokeConnect_opens (c : InterconnectContext) (isReconnect : Bool)
    (hhandle : c.connFunc ≠ 0 → c.handle = true) :
    (c.invokeConnect isReconnect).opens =
      if c.connFunc ≠ 0 ∧ c.callbacks c.connFunc = true then c.opens ++ [(c.connFunc,isReconnect)]
      else c.opens := by
  unfold InterconnectContext.invokeConnect
  by_cases hfunc : c.connFunc = 0
  · simp [hfunc]
  · by_cases hcb : c.callbacks c.connFunc <;> simp [hfunc,hcb,hhandle hfunc]

theorem invokeConnect_rest (c : InterconnectContext) (isReconnect : Bool) :
    (c.invokeConnect isReconnect).status = c.status ∧
    (c.invokeConnect isReconnect).handle = c.handle ∧
    (c.invokeConnect isReconnect).connFunc = c.connFunc ∧
    (c.invokeConnect isReconnect).objectData = c.objectData ∧
    (c.invokeConnect isReconnect).isPendingConnect = (c.isPendingConnect || decide (c.connFunc = 0)) := by
  unfold InterconnectContext.invokeConnect
  split_ifs with hfunc hcb
  · simp [hfunc]
  · simp [hfunc]
  · simp [hfunc]

namespace OpenInvariant

/-- A connection message keeps the invariant, and its call is the one asked for exactly when the
condition holds. -/
theorem connect (h : s.OpenInvariant) (heq : s.Announced) {c : InterconnectContext}
    (hsame : ({ s.context with status := .phoneConnected }).SameConnection c) :
    OpenInvariant ⟨c.invokeConnect s.context.isConnecting,s.events.message .phoneConnected⟩ ∧
    ((c.invokeConnect s.context.isConnecting).opens = (s.events.message .phoneConnected).calls ↔
      (s.context.connFunc ≠ 0 → if s.context.callbacks s.context.connFunc then
        s.context.status ≠ .phoneConnected ∧ s.context.isConnecting = s.events.connectedBefore
      else s.context.status = .phoneConnected)) := by
  obtain ⟨hstatus,hhandle,hfunc,hobject,hpending⟩ :=
    invokeConnect_rest c s.context.isConnecting
  have hentered : (s.events.message .phoneConnected).connected = true ∧
      (s.events.message .phoneConnected).onopen = s.events.onopen := by
    unfold OpenEvents.message OpenEvents.enter
    split_ifs with hconnected <;> simp_all
  have hset : c.connFunc ≠ 0 → c.handle = true := by
    intro hne
    rw [hsame.handle]
    apply h.handle
    exact .inr (hsame.connFunc ▸ hne)
  refine ⟨⟨?_,?_,?_,?_⟩,?_⟩
  · rw [InterconnectContext.isConnected,hstatus,hsame.status,hentered.1]
    rfl
  · rw [hentered.2,hfunc,hsame.connFunc]
    exact h.onopen
  · intro hany
    dsimp only at hany ⊢
    rw [hobject,hfunc,hsame.objectData,hsame.connFunc] at hany
    rw [hhandle,hsame.handle]
    exact h.handle hany
  · intro hbit
    dsimp only at hbit ⊢
    rw [hpending,hsame.isPendingConnect,Bool.or_eq_true,decide_eq_true_eq] at hbit
    rw [hfunc]
    rcases hbit with hbit | hbit
    · rw [hsame.connFunc]
      exact h.pending hbit
    · exact hbit
  · rw [invokeConnect_opens c _ hset,hsame.connFunc,hsame.callbacks,hsame.opens]
    have hconnected : s.events.connected = true ↔ s.context.status = .phoneConnected := by
      rw [h.connected,InterconnectContext.isConnected,decide_eq_true_eq]
    have hcalls : (s.events.message .phoneConnected).calls =
        if s.context.connFunc ≠ 0 ∧ s.context.status ≠ .phoneConnected then
          s.context.opens ++ [(s.context.connFunc,s.events.connectedBefore)]
        else s.context.opens := by
      rw [heq,← h.onopen]
      simp only [ne_eq,← hconnected]
      unfold OpenEvents.message OpenEvents.enter
      by_cases he : s.events.connected <;> by_cases hf : s.events.onopen = 0 <;> simp [he,hf]
    rw [hcalls]
    by_cases hf : s.context.connFunc = 0
    · simp [hf]
    by_cases hcb : s.context.callbacks s.context.connFunc <;>
      by_cases hs : s.context.status = .phoneConnected <;> simp [hf,hcb,hs]

/-- A message keeps the invariant, and its calls are those asked for exactly when the condition
holds. -/
theorem message (h : s.OpenInvariant) (heq : s.Announced) (status : ℤ)
    (miwearStatus : MiwearStatus) (outcome : ℕ → InterconnectContext.SendOutcome) :
    (s.step (.message status miwearStatus outcome)).OpenInvariant ∧
    ((s.step (.message status miwearStatus outcome)).Announced ↔
      s.Agrees (.message status miwearStatus outcome)) := by
  unfold OpenRun.step stepEvents InterconnectContext.step InterconnectContext.miwearConnectCb
  dsimp only
  by_cases hdata : s.context.data
  swap
  · simp only [hdata,Bool.not_false,if_true,Bool.false_eq_true,false_and,if_false,Agrees,false_imp_iff,iff_true]
    exact ⟨h,heq⟩
  by_cases hstatus : status = 0
  swap
  · simp only [hdata,Bool.not_true,Bool.false_eq_true,hstatus,ne_eq,not_false_iff,if_true,
      and_false,if_false,Agrees,false_imp_iff,imp_true_iff,iff_true]
    exact ⟨h,heq⟩
  subst hstatus
  have hthere : ¬(!s.context.data) = true := by simp [hdata]
  have hevent : s.context.data = true ∧ (0 : ℤ) = 0 := ⟨hdata,rfl⟩
  rw [if_neg hthere,if_neg (fun hne : (0 : ℤ) ≠ 0 => hne rfl),if_pos hevent]
  by_cases hconnect : miwearStatus = .phoneConnected
  · have hsame := InterconnectContext.processPendingSendTasks_same
      { s.context with status := .phoneConnected } outcome s.context.sendTasks
    obtain ⟨hinv,hcalls⟩ := h.connect heq hsame
    subst hconnect
    refine ⟨hinv,hcalls.trans ?_⟩
    simp [Agrees,hdata]
  · have hevents : s.events.message miwearStatus = { s.events with connected := false, owed := none } := by
      rw [OpenEvents.message,if_neg hconnect]
    have hagrees : s.Agrees (.message 0 miwearStatus outcome) ↔ True := by
      simp [Agrees,hconnect]
    rw [hagrees,iff_true,hevents]
    cases miwearStatus with
    | phoneConnected => exact absurd rfl hconnect
    | phoneDisconnected => exact ⟨⟨rfl,h.onopen,h.handle,fun hbit => Bool.noConfusion hbit⟩,heq⟩
    | _ => exact ⟨⟨rfl,h.onopen,h.handle,h.pending⟩,heq⟩

theorem setOnOpen (h : s.OpenInvariant) (heq : s.Announced) (onopen : ℕ) :
    (s.step (.setOnOpen onopen)).OpenInvariant ∧
    ((s.step (.setOnOpen onopen)).Announced ↔ s.Agrees (.setOnOpen onopen)) := by
  unfold OpenRun.step stepEvents InterconnectContext.step InterconnectContext.setOnOpen
  dsimp only
  by_cases hobject : s.context.objectData
  swap
  · simp only [hobject,Bool.false_eq_true,if_false,Agrees,false_imp_iff,iff_true]
    exact ⟨h,heq⟩
  rw [if_pos hobject,if_pos hobject]
  have hhandle := h.handle (.inl hobject)
  have hevents : (s.events.setOnOpen onopen).connected = s.events.connected ∧
      (s.events.setOnOpen onopen).onopen = onopen := by
    unfold OpenEvents.setOnOpen
    split_ifs with hnone <;> simp [hnone]
  unfold InterconnectContext.setConnFunc
  dsimp only
  by_cases hbit : s.context.isPendingConnect
  · rw [if_pos hbit]
    -- no handler was there while the call was pending
    have hold := h.pending hbit
    generalize hc : ({ s.context with
      callbacks := Function.update
        (fun id => s.context.callbacks id || decide (id = onopen ∧ 0 < onopen)) s.context.connFunc false
      connFunc := onopen } : InterconnectContext) = c
    have hfunc : c.connFunc = onopen := by rw [← hc]
    have hset : c.handle = true := by rw [← hc]; exact hhandle
    have hregistered : onopen ≠ 0 → c.callbacks onopen = true := by
      intro hne
      rw [← hc]
      dsimp only
      rw [hold,Function.update_of_ne hne]
      simp [Nat.pos_of_ne_zero hne]
    obtain ⟨hstatus,hhandle',hfunc',-,-⟩ := invokeConnect_rest c true
    have hopens := invokeConnect_opens c true (fun _ => hset)
    refine ⟨⟨?_,?_,?_,?_⟩,?_⟩
    · rw [hevents.1,h.connected,InterconnectContext.isConnected,InterconnectContext.isConnected,hstatus,← hc]
    · rw [hevents.2,hfunc',hfunc]
    · intro _
      exact hhandle'.trans hset
    · exact fun hset => Bool.noConfusion hset
    · change (c.invokeConnect true).opens = (s.events.setOnOpen onopen).calls ↔ _
      have hcalls : c.opens = s.events.calls := by rw [← hc]; exact heq
      rw [hopens,hfunc,hcalls]
      unfold OpenEvents.setOnOpen
      by_cases hnone : onopen = 0
      · simp [hnone,Agrees]
      · cases howed : s.events.owed <;> simp [hnone,hregistered hnone,Agrees,hobject,hbit,howed]
  · rw [if_neg hbit]
    refine ⟨⟨hevents.1.trans h.connected,hevents.2,fun _ => hhandle,fun hset => absurd hset hbit⟩,?_⟩
    have hannounced : s.context.opens = (s.events.setOnOpen onopen).calls ↔ (onopen ≠ 0 → s.events.owed = none) := by
      rw [heq]
      unfold OpenEvents.setOnOpen
      by_cases hnone : onopen = 0
      · simp [hnone]
      · cases s.events.owed <;> simp [hnone]
    simpa [Announced,Agrees,hobject,hbit] using hannounced

theorem step (h : s.OpenInvariant) (heq : s.Announced) (op : InterconnectOp) :
    (s.step op).OpenInvariant ∧ ((s.step op).Announced ↔ s.Agrees op) := by
  have hsame : ∀ {c}, s.context.SameConnection c → OpenInvariant ⟨c,s.events⟩ ∧ (Announced ⟨c,s.events⟩ ↔ True) :=
    fun hsame => ⟨h.same hsame,iff_true_intro (hsame.opens.trans heq)⟩
  cases op with
  | message status miwearStatus outcome => exact h.message heq status miwearStatus outcome
  | setOnOpen onopen => exact h.setOnOpen heq onopen
  | createInstance =>
    unfold OpenRun.step stepEvents InterconnectContext.step
    dsimp only
    split_ifs
    · exact ⟨h,iff_true_intro heq⟩
    · exact ⟨⟨h.connected,h.onopen,fun _ => rfl,h.pending⟩,iff_true_intro heq⟩
  | send data address outcome =>
    unfold OpenRun.step stepEvents InterconnectContext.step
    dsimp only
    split_ifs
    · exact hsame (.refl _)
    · have hcounted : s.context.SameConnection
          { s.context with promises := s.context.promises + 1 } := ⟨rfl,rfl,rfl,rfl,rfl,rfl,rfl,rfl⟩
      exact hsame (hcounted.trans (InterconnectContext.miwearConnectSend_same _ _ _ _ _))
  | timeout address =>
    unfold OpenRun.step stepEvents InterconnectContext.step
    dsimp only
    split_ifs
    · have hstopped : s.context.SameConnection { s.context with timers := s.context.timers.filter (· ≠ address) } :=
        ⟨rfl,rfl,rfl,rfl,rfl,rfl,rfl,rfl⟩
      exact hsame (hstopped.trans (InterconnectContext.timerSendCb_same _ _))
    · exact hsame (.refl _)
  | completed address status =>
    unfold OpenRun.step stepEvents InterconnectContext.step
    dsimp only
    split_ifs
    · have hreported : s.context.SameConnection { s.context with inFlight := s.context.inFlight.erase address } :=
        ⟨rfl,rfl,rfl,rfl,rfl,rfl,rfl,rfl⟩
      exact hsame (hreported.trans (InterconnectContext.miwearSendCb_same _ _ _))
    · exact hsame (.refl _)
  | shutdown =>
    exact ⟨⟨h.connected,h.onopen,fun hset => h.handle (hset.imp_left Bool.noConfusion),h.pending⟩,
      iff_true_intro heq⟩

end OpenInvariant

/-- The calls of `onopen` are those asked for along a run exactly when every operation meets the
condition. -/
theorem announced_iff_agrees (ops : List InterconnectOp) :
    Transition.Always step Announced {} ops ↔ Transition.Guarded step Agrees {} ops := by
  apply Transition.always_iff_guarded (I := fun s => s.OpenInvariant ∧ s.Announced)
  · exact fun _ h => h.2
  · exact fun _ op h hgood => ⟨(h.1.step h.2 op).1,(h.1.step h.2 op).2.mpr hgood⟩
  · exact fun _ op h hbad hann => hbad ((h.1.step h.2 op).2.mp hann)
  · exact ⟨OpenInvariant.init,rfl⟩

/-- The first connection is announced as a reconnection. -/
theorem first_connection_is_reconnected : ¬Transition.Always step Announced {}
    [.createInstance,.setOnOpen 1,.message 0 .phoneConnected (fun _ => .accepted)] := by
  intro h
  have hcalls : [(1,true)] = [(1,false)] := h.last
  cases hcalls

end OpenRun
end FeatureRuntime
