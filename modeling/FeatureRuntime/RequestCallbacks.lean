import FeatureRuntime.TaskBoard

/-! Requests of the C interface of a message channel: `request_map_`, the callbacks that are running,
and what they do to each other. -/
namespace FeatureRuntime

/-- A call of a `RequestCb`, for a completion of a request; address 0 is the null function. -/
structure RequestCall where
  cb : ℕ
  data : String
  userData : ℕ
  request : ℕ
  cause : CompletionCause
  deriving DecidableEq, Repr

/-- A callback that is running: the id that is erased when it returns, and the completions of the
same message that come after it. -/
structure CallbackFrame where
  id : ℤ
  rest : List Completion

/-- A `MessageChannel` without a feature instance. -/
structure RequestChannel where
  transport : ClientConnection := {}
  requestMap : ℤ → Option (ℕ × ℕ) := fun _ => none
  /-- The callback and the user data that a request was made with. -/
  asked : ℕ → Option (ℕ × ℕ) := fun _ => none
  invoked : List RequestCall := []
  frames : List CallbackFrame := []

inductive RequestOp
  /-- `sendMessageForC` up to the call of the service. `message_channel_init` attaches no loop to the board; the timers are
  those of one that has been attached. -/
  | sendMessageForC (found : Bool) (reply cb userData : ℕ)
  | sent (request : ℕ) (ok : Bool)
  | onReply (request : ℕ) (message : String)
  | timerExpired (request : ℕ)
  /-- The innermost running callback returns. -/
  | callbackReturns

namespace RequestChannel

variable (s : RequestChannel)

/-- `request_map_[id]` and the call; the entry is erased when the callback returns. -/
def invoke (c : Completion) (data : String) (rest : List Completion) : RequestChannel :=
  let pair := (s.requestMap c.pid).getD (0,0)
  { s with
    requestMap := Function.update s.requestMap c.pid (some pair)
    invoked := s.invoked ++ [⟨pair.1,data,pair.2,c.request,c.cause⟩]
    frames := ⟨c.pid,rest⟩ :: s.frames }

/-- `clientOnMessage` and `clientOnTimeOut` on the first completion; a failed send is the return
value of `sendMessageForC`. -/
def deliver (s : RequestChannel) : List Completion → RequestChannel
  | [] => s
  | c :: rest =>
    match c.cause with
    | .reply _ message => s.invoke c message rest
    | .timeout => s.invoke c "reply timeout" rest
    | .sendFailed => deliver s rest

def advance (op : TransportOp) : RequestChannel :=
  let transport := s.transport.step op
  deliver { s with transport := transport }
    (transport.completions.drop s.transport.completions.length)

/-- `sendMessageForC` before the call of the transport: an entry that exists is kept. -/
def record (cb userData : ℕ) : RequestChannel :=
  { s with
    requestMap :=
      if (s.requestMap (toInt cb)).isSome then s.requestMap
      else Function.update s.requestMap (toInt cb) (some (cb,userData))
    asked := Function.update s.asked s.transport.requests (some (cb,userData)) }

def sendMessageForC (found : Bool) (reply cb userData : ℕ) : RequestChannel :=
  if found ∧ s.transport.freshReply reply = false then s
  else (s.record cb userData).advance (.sendMessage found reply (toInt cb))

def callbackReturns : RequestChannel :=
  match s.frames with
  | [] => s
  | frame :: frames =>
    deliver { s with requestMap := Function.update s.requestMap frame.id none, frames := frames }
      frame.rest

def step (s : RequestChannel) : RequestOp → RequestChannel
  | .sendMessageForC found reply cb userData => s.sendMessageForC found reply cb userData
  | .sent request ok => s.advance (.sent request ok)
  | .onReply request message => s.advance (.onReply request message)
  | .timerExpired request => s.advance (.timerExpired request)
  | .callbackReturns => s.callbackReturns

def RequestCall.Text (call : RequestCall) : Prop :=
  (∃ message, call.cause = .reply call.request message ∧ call.data = message) ∨
    (call.cause = .timeout ∧ call.data = "reply timeout")

/-- Every callback is called at most once for a request, with what the request was made with and
with its own text; the null callback never is. -/
structure Answers : Prop where
  once : ∀ request, s.invoked.countP (fun call => call.request = request) ≤ 1
  asked : ∀ call ∈ s.invoked, s.asked call.request = some (call.cb,call.userData)
  notNull : ∀ call ∈ s.invoked, call.cb ≠ 0
  text : ∀ call ∈ s.invoked, RequestCall.Text call

/-- A sent request has a callback, and its id is out of use: the entry of the id, if any, is the one
of the request itself, and no pending request and no running callback has the id. A reply id names
no other pending task. -/
def Separate (s : RequestChannel) : RequestOp → Prop
  | .sendMessageForC found _ cb userData => found = true → cb ≠ 0 ∧
    (∀ entry, s.requestMap (toInt cb) = some entry → entry = (cb,userData)) ∧
    (∀ r task, s.transport.Pending r task → task.pid ≠ toInt cb) ∧
    ∀ frame ∈ s.frames, frame.id ≠ toInt cb
  | .onReply request message => s.transport.Orderly (.onReply request message)
  | _ => True

variable {s}

open ClientConnection Transition

/-- The entry of a pending request is its own, no other pending request and no running callback uses
its id, and nothing was called for it. -/
structure SeparateInvariant (s : RequestChannel) : Prop where
  shape : s.transport.BoardShape
  answers : s.Answers
  pending : ∀ r task, s.transport.Pending r task → ∃ pair, s.asked r = some pair ∧ pair.1 ≠ 0 ∧
    s.requestMap task.pid = some pair
  running : ∀ r task, s.transport.Pending r task → ∀ frame ∈ s.frames, frame.id ≠ task.pid
  distinct : ∀ r r' task task', s.transport.Pending r task → s.transport.Pending r' task' →
    task.pid = task'.pid → r = r'
  rest : ∀ frame ∈ s.frames, frame.rest = []
  uncalled : ∀ r task, s.transport.tasks r = some task → task.isDone = false → ∀ call ∈ s.invoked, call.request ≠ r
  bound : ∀ call ∈ s.invoked, call.request < s.transport.requests

theorem separateInvariant_init : SeparateInvariant {} where
  shape := boardShape_init
  answers := ⟨fun _ => Nat.zero_le _,fun _ hc => (nomatch hc),fun _ hc => (nomatch hc),
    fun _ hc => (nomatch hc)⟩
  pending _ _ h := (nomatch h.2.1)
  running _ _ h := (nomatch h.2.1)
  distinct _ _ _ _ h := (nomatch h.2.1)
  rest _ hframe := (nomatch hframe)
  uncalled _ _ h := (nomatch h)
  bound _ hc := (nomatch hc)

theorem Answers.invoke (h : s.Answers) {c : Completion} {pair : ℕ × ℕ} {data : String}
    (hasked : s.asked c.request = some pair) (hnull : pair.1 ≠ 0)
    (hentry : s.requestMap c.pid = some pair)
    (huncalled : ∀ call ∈ s.invoked, call.request ≠ c.request)
    (htext : RequestCall.Text ⟨pair.1,data,pair.2,c.request,c.cause⟩) (rest : List Completion) :
    (s.invoke c data rest).Answers := by
  unfold RequestChannel.invoke
  rw [hentry,Option.getD_some]
  refine ⟨fun r => ?_,fun call hcall => ?_,fun call hcall => ?_,fun call hcall => ?_⟩
  · rw [List.countP_append,List.countP_singleton]
    by_cases hr : c.request = r
    · have hnone : s.invoked.countP (fun call => call.request = r) = 0 := by
        rw [List.countP_eq_zero,← hr]
        simpa using huncalled
      rw [hnone]
      split_ifs <;> omega
    · simpa [hr] using h.once r
  all_goals rcases List.mem_append.mp hcall with hold | hnew
  · exact h.asked call hold
  · rw [List.mem_singleton.mp hnew]
    exact hasked
  · exact h.notNull call hold
  · rw [List.mem_singleton.mp hnew]
    exact hnull
  · exact h.text call hold
  · rw [List.mem_singleton.mp hnew]
    exact htext

variable {transport : ClientConnection} {new : List Completion}

theorem SeparateInvariant.silent (h : s.SeparateInvariant) (hadv : s.transport.Advances transport new)
    (hshape : transport.BoardShape) :
    SeparateInvariant { s with transport := transport } where
  shape := hshape
  answers := ⟨h.answers.once,h.answers.asked,h.answers.notNull,h.answers.text⟩
  pending r task' hpending := by
    obtain ⟨task,hold,hpid⟩ := hadv.pending hpending
    rw [← hpid]
    exact h.pending r task hold
  running r task' hpending := by
    obtain ⟨task,hold,hpid⟩ := hadv.pending hpending
    rw [← hpid]
    exact h.running r task hold
  distinct r r' task task' hpending hpending' heq := by
    obtain ⟨old,hold,hpid⟩ := hadv.pending hpending
    obtain ⟨old',hold',hpid'⟩ := hadv.pending hpending'
    exact h.distinct r r' old old' hold hold' (by rw [hpid,hpid',heq])
  rest := h.rest
  uncalled r task' htask' hdone := by
    obtain ⟨task,htask,hold,-⟩ := hadv.tasks r task' htask' hdone
    exact h.uncalled r task htask hold
  bound call hcall := by
    rw [hadv.requests]
    exact h.bound call hcall

def causeText : CompletionCause → String
  | .reply _ message => message
  | .timeout => "reply timeout"
  | .sendFailed => ""

theorem deliver_single {c : Completion} (hcause : c.cause ≠ .sendFailed) :
    s.deliver [c] = s.invoke c (causeText c.cause) [] := by
  unfold RequestChannel.deliver
  cases h : c.cause with
  | sendFailed => exact absurd h hcause
  | _ => rfl

theorem SeparateInvariant.advances (h : s.SeparateInvariant) (hadv : s.transport.Advances transport new)
    (hshape : transport.BoardShape) :
    (deliver { s with transport := transport } new).SeparateInvariant := by
  have hsilent := h.silent hadv hshape
  obtain rfl | ⟨r,pid,rfl⟩ | ⟨c,rfl,task,hpending,hpid,hcause,hdone⟩ := hadv.single
  · exact hsilent
  · exact hsilent
  · obtain ⟨pair,hasked,hnull,hentry⟩ := h.pending c.request task hpending
    rw [← hpid] at hentry
    have hcalled : c.cause ≠ .sendFailed := by
      rintro heq
      rcases hcause with hcause | ⟨message,hcause⟩ <;> rw [heq] at hcause <;> cases hcause
    have htext : RequestCall.Text ⟨pair.1,causeText c.cause,pair.2,c.request,c.cause⟩ := by
      rcases hcause with hcause | ⟨message,hcause⟩
      · exact .inr ⟨hcause,by rw [hcause]; rfl⟩
      · exact .inl ⟨message,hcause,by rw [hcause]; rfl⟩
    have huncalled := h.uncalled c.request task hpending.1 hpending.2.2
    -- the other pending requests have other ids
    have hne : ∀ r task', transport.Pending r task' → task'.pid ≠ c.pid := by
      intro r task' hpending' heq
      obtain ⟨old,hold,holdPid⟩ := hadv.pending hpending'
      obtain rfl := h.distinct r c.request old task hold hpending (by rw [holdPid,heq,hpid])
      exact Bool.noConfusion ((hdone task' hpending'.1).symm.trans hpending'.2.2)
    rw [deliver_single hcalled]
    have hanswers : (RequestChannel.invoke { s with transport := transport } c (causeText c.cause)
        []).Answers := hsilent.answers.invoke hasked hnull hentry huncalled htext []
    have hinvoke : RequestChannel.invoke { s with transport := transport } c (causeText c.cause) [] =
        { s with
          transport := transport
          requestMap := Function.update s.requestMap c.pid (some pair)
          invoked := s.invoked ++ [⟨pair.1,causeText c.cause,pair.2,c.request,c.cause⟩]
          frames := ⟨c.pid,[]⟩ :: s.frames } := by
      unfold RequestChannel.invoke
      rw [hentry,Option.getD_some]
    rw [hinvoke] at hanswers ⊢
    constructor
    · exact hshape
    · exact hanswers
    · intro r task' hpending'
      obtain ⟨pair',hasked',hnull',hentry'⟩ := hsilent.pending r task' hpending'
      refine ⟨pair',hasked',hnull',?_⟩
      dsimp only
      rw [Function.update_of_ne (hne r task' hpending')]
      exact hentry'
    · intro r task' hpending' frame hframe
      rcases List.mem_cons.mp hframe with rfl | hframe
      · exact (hne r task' hpending').symm
      · exact hsilent.running r task' hpending' frame hframe
    · exact hsilent.distinct
    · intro frame hframe
      rcases List.mem_cons.mp hframe with rfl | hframe
      · rfl
      · exact h.rest frame hframe
    · intro r task' htask' hnotDone call hcall
      rcases List.mem_append.mp hcall with hold | hnew
      · exact hsilent.uncalled r task' htask' hnotDone call hold
      · rw [List.mem_singleton.mp hnew]
        rintro rfl
        rw [hdone task' htask'] at hnotDone
        cases hnotDone
    · intro call hcall
      rcases List.mem_append.mp hcall with hold | hnew
      · exact hsilent.bound call hold
      · rw [List.mem_singleton.mp hnew,hadv.requests]
        exact h.shape.bound c.request task hpending.1

theorem SeparateInvariant.advance (h : s.SeparateInvariant) {op : TransportOp}
    (hadv : s.transport.Advances (s.transport.step op) new) :
    (s.advance op).SeparateInvariant := by
  unfold RequestChannel.advance
  dsimp only
  rw [hadv.completions,List.drop_left]
  exact h.advances hadv (h.shape.step op)

theorem record_requestMap_of_some {id : ℤ} {pair : ℕ × ℕ} (h : s.requestMap id = some pair)
    (cb userData : ℕ) : (s.record cb userData).requestMap id = some pair := by
  unfold record
  dsimp only
  split_ifs with hsome
  · exact h
  · have hne : id ≠ toInt cb := by
      intro heq
      rw [← heq,h] at hsome
      exact hsome rfl
    rw [Function.update_of_ne hne,h]

theorem record_requestMap_self {cb userData : ℕ}
    (h : ∀ entry, s.requestMap (toInt cb) = some entry → entry = (cb,userData)) :
    (s.record cb userData).requestMap (toInt cb) = some (cb,userData) := by
  unfold record
  dsimp only
  split_ifs with hsome
  · obtain ⟨entry,hentry⟩ := Option.isSome_iff_exists.mp hsome
    rw [hentry,h entry hentry]
  · exact Function.update_self ..

theorem SeparateInvariant.record (h : s.SeparateInvariant) (cb userData : ℕ) :
    (s.record cb userData).SeparateInvariant := by
  have hasked : ∀ r, r < s.transport.requests → (s.record cb userData).asked r = s.asked r :=
    fun r hr => Function.update_of_ne hr.ne _ _
  refine ⟨h.shape,⟨h.answers.once,?_,h.answers.notNull,h.answers.text⟩,?_,h.running,h.distinct,
    h.rest,h.uncalled,h.bound⟩
  · intro call hcall
    rw [hasked _ (h.bound call hcall)]
    exact h.answers.asked call hcall
  · intro r task hpending
    obtain ⟨pair,hpair,hnull,hentry⟩ := h.pending r task hpending
    exact ⟨pair,by rw [hasked r (h.shape.bound r task hpending.1),hpair],hnull,
      record_requestMap_of_some hentry cb userData⟩

theorem pending_sendMessage {found : Bool} {reply : ℕ} {pid : ℤ} {r : ℕ} {task : MsgTask}
    (hpending : (transport.sendMessage found reply pid).Pending r task) :
    transport.Pending r task ∨
      (found = true ∧ transport.cleared = false ∧ r = transport.requests ∧ task.pid = pid) := by
  unfold ClientConnection.sendMessage at hpending
  split_ifs at hpending with hcleared hfound hfresh
  · exact .inl hpending
  · obtain ⟨htask,hin,hdone⟩ := hpending
    dsimp only at htask hin
    by_cases hr : r = transport.requests
    · subst hr
      rw [Function.update_self,Option.some.injEq] at htask
      exact .inr ⟨hfound,by simpa using hcleared,rfl,by rw [← htask]⟩
    · rw [Function.update_of_ne hr] at htask
      exact .inl ⟨htask,(List.mem_append.mp hin).resolve_right (by simpa using hr),hdone⟩
  · exact .inl hpending
  · exact .inl hpending

theorem sendMessage_tasks_of_lt {found : Bool} {reply : ℕ} {pid : ℤ} {r : ℕ} (h : r < transport.requests) :
    (transport.sendMessage found reply pid).tasks r = transport.tasks r := by
  unfold ClientConnection.sendMessage
  split_ifs
  · rfl
  · exact Function.update_of_ne h.ne _ _
  · rfl
  · rfl

theorem requests_le_sendMessage (transport : ClientConnection) (found : Bool) (reply : ℕ) (pid : ℤ) :
    transport.requests ≤ (transport.sendMessage found reply pid).requests := by
  unfold ClientConnection.sendMessage
  split_ifs <;> simp

theorem advance_sendMessage (found : Bool) (reply : ℕ) (pid : ℤ) : s.advance (.sendMessage found reply pid) =
      { s with transport := s.transport.sendMessage found reply pid } := by
  unfold RequestChannel.advance
  dsimp only [ClientConnection.step]
  unfold ClientConnection.sendMessage
  split_ifs <;> simp [ClientConnection.complete,deliver]

theorem SeparateInvariant.sendMessageForC (h : s.SeparateInvariant) {found : Bool}
    {reply cb userData : ℕ} (hgood : s.Separate (.sendMessageForC found reply cb userData)) :
    (s.sendMessageForC found reply cb userData).SeparateInvariant := by
  have hrecord := h.record cb userData
  have hshape := h.shape.sendMessage found reply (toInt cb)
  unfold RequestChannel.sendMessageForC
  split_ifs with hbusy
  · exact h
  · rw [advance_sendMessage]
    refine ⟨hshape,⟨hrecord.answers.once,hrecord.answers.asked,hrecord.answers.notNull,
      hrecord.answers.text⟩,?_,?_,?_,h.rest,?_,?_⟩
    · intro r task hpending
      obtain hold | ⟨hfound,-,rfl,hpid⟩ := pending_sendMessage hpending
      · exact hrecord.pending r task hold
      · obtain ⟨hnull,hentry,-⟩ := hgood hfound
        refine ⟨(cb,userData),Function.update_self ..,hnull,?_⟩
        rw [hpid]
        exact record_requestMap_self hentry
    · intro r task hpending frame hframe
      obtain hold | ⟨hfound,-,rfl,hpid⟩ := pending_sendMessage hpending
      · exact h.running r task hold frame hframe
      · obtain ⟨-,-,-,hframes⟩ := hgood hfound
        rw [hpid]
        exact hframes frame hframe
    · intro r r' task task' hpending hpending' heq
      obtain hold | ⟨hfound,-,rfl,hpid⟩ := pending_sendMessage hpending
      · obtain hold' | ⟨hfound,-,rfl,hpid'⟩ := pending_sendMessage hpending'
        · exact h.distinct r r' task task' hold hold' heq
        · obtain ⟨-,-,hother,-⟩ := hgood hfound
          exact absurd (heq.trans hpid') (hother r task hold)
      · obtain hold' | ⟨-,-,rfl,-⟩ := pending_sendMessage hpending'
        · obtain ⟨-,-,hother,-⟩ := hgood hfound
          exact absurd (heq.symm.trans hpid) (hother r' task' hold')
        · rfl
    · intro r task htask hdone call hcall
      have hlt := h.bound call hcall
      rintro rfl
      exact h.uncalled call.request task ((sendMessage_tasks_of_lt hlt).symm.trans htask) hdone call hcall rfl
    · intro call hcall
      exact (h.bound call hcall).trans_le (requests_le_sendMessage ..)

theorem SeparateInvariant.callbackReturns (h : s.SeparateInvariant) :
    s.callbackReturns.SeparateInvariant := by
  unfold RequestChannel.callbackReturns
  cases hframes : s.frames with
  | nil => exact h
  | cons frame frames =>
    have hmem : frame ∈ s.frames := by simp [hframes]
    dsimp only
    rw [h.rest frame hmem]
    refine ⟨h.shape,⟨h.answers.once,h.answers.asked,h.answers.notNull,h.answers.text⟩,?_,?_,
      h.distinct,?_,h.uncalled,h.bound⟩
    · intro r task hpending
      obtain ⟨pair,hasked,hnull,hentry⟩ := h.pending r task hpending
      refine ⟨pair,hasked,hnull,?_⟩
      dsimp only [deliver]
      rw [Function.update_of_ne (h.running r task hpending frame hmem).symm,hentry]
    · intro r task hpending f hf
      exact h.running r task hpending f (by rw [hframes]; exact List.mem_cons_of_mem _ hf)
    · intro f hf
      exact h.rest f (by rw [hframes]; exact List.mem_cons_of_mem _ hf)

theorem SeparateInvariant.step (h : s.SeparateInvariant) (op : RequestOp) (hgood : s.Separate op) :
    (s.step op).SeparateInvariant := by
  cases op with
  | sendMessageForC found reply cb userData => exact h.sendMessageForC hgood
  | sent request ok =>
    obtain ⟨new,hadv⟩ := advances_sent (s := s.transport) request ok
    exact h.advance hadv
  | onReply request message =>
    obtain ⟨new,hadv⟩ := h.shape.advances_onReply hgood
    exact h.advance hadv
  | timerExpired request =>
    obtain ⟨new,hadv⟩ := h.shape.advances_timerExpired request
    exact h.advance hadv
  | callbackReturns => exact h.callbackReturns

/-- Callbacks get their own answers along every run whose requests keep apart: each is sent with a
callback whose id nothing else uses, until it is answered and the callback has returned. -/
theorem answers_of_separate (ops : List RequestOp) (h : Guarded step Separate {} ops) : Always step Answers {} ops :=
  (h.always (fun _ op h hgood => h.step op hgood) separateInvariant_init).mono
    (fun _ h => h.answers)

/-- Two outstanding requests with callbacks of their own; the second one is answered while the callback of the first
runs. -/
theorem answered_request_called_once :
    Always step Answers {} [.sendMessageForC true 64 5 1,.sendMessageForC true 128 6 2,.sent 0 true,.sent 1 true,
      .onReply 0 "pong",.onReply 1 "second",.callbackReturns,.callbackReturns] := by
  apply answers_of_separate
  refine ⟨fun _ => ⟨by decide,fun _ h => (nomatch h),fun _ _ h => (nomatch h.2.1),fun _ h => (nomatch h)⟩,
    fun _ => ⟨by decide,fun _ h => (nomatch h),fun r task h => ?_,fun _ h => (nomatch h)⟩,trivial,trivial,
    orderly_onReply "pong" ?_,orderly_onReply "second" ?_,trivial,trivial,trivial⟩
  · obtain rfl := List.mem_singleton.mp h.2.1
    obtain rfl := Option.some.inj h.1
    decide
  · decide
  · decide

/-- Two outstanding requests with one callback: the reply to the second one comes with the user data
of the first, and the reply to the first one calls the null function. -/
theorem shared_callback_calls_null :
    ¬Always step Answers {} [.sendMessageForC true 64 5 1,.sendMessageForC true 128 5 2,
      .onReply 1 "second",.callbackReturns,.onReply 0 "first"] := by
  intro h
  exact h.last.notNull ⟨0,"first",0,0,.reply 0 "first"⟩ (by decide) rfl

end RequestChannel
end FeatureRuntime
