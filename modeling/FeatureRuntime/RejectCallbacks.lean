import FeatureRuntime.Native
import FeatureRuntime.PermissionsManager

/-! The rejection of a request that carries callbacks: the ids are found by member name in the
struct of the first parameter, `fail` gets the error, `complete` gets no argument, and both ids are
removed from the callback table of the instance. -/
namespace FeatureRuntime

namespace PermsRejectReason

/-- `get_perms_reject_message`. -/
def message : PermsRejectReason → String
  | .denied => "permissions denied"
  | .error => "permissions error"
  | .noBg => "permissions no background"

def code : PermsRejectReason → ℤ
  | .denied => 400
  | .error => 401
  | .noBg => 402

end PermsRejectReason

/-- An argument of a variadic call, as the caller passes it. -/
inductive VarArg
  | string (text : String)
  | int (value : ℤ)

inductive ArgError
  /-- The conversion fails, and the callback is not called. -/
  | refused
  /-- The argument was not passed, or not as the type it is read as. -/
  | misread
  deriving DecidableEq

/-- An `int` argument, narrowed to the type it is declared with. -/
def PrimitiveType.intArg (n : ℤ) : PrimitiveType → Except ArgError JSValue
  | .int | .int32 => .ok (.number (.int n))
  | .int8 => .ok (.number (.int (n.bmod 256)))
  | .uint8 => .ok (.number (.int (n % 256)))
  | .int16 => .ok (.number (.int (n.bmod 65536)))
  | .uint16 => .ok (.number (.int (n % 65536)))
  | .uint32 => .ok (.number (.int (n % 4294967296)))
  | .boolean => .ok (.bool (n != 0))
  | .void => .error .refused
  | _ => .error .misread

/-- `arg_to_target`: `extractVariadicParam` reads the next argument by the declared type. -/
def argToTarget (arg : Option VarArg) : FeatureType → Except ArgError JSValue
  | .primitive p =>
    match arg with
    | some (.string text) => match p with
      | .string => .ok (.string text)
      | .void => .error .refused
      | _ => .error .misread
    | some (.int n) => p.intArg n
    | none => if p = .void then .error .refused else .error .misread
  | .optional t v =>
    if (FeatureType.optional t v).isReference then argToTarget arg t else .error .misread
  | _ => .error .misread

def argsToTarget : List FeatureType → List VarArg → Except ArgError (List JSValue)
  | [], _ => .ok []
  | t :: parameters, args => do
    let value ← argToTarget args.head? t
    let values ← argsToTarget parameters args.tail
    return value :: values

/-- The four bytes at a callback member; `none` when they are part of another value. -/
def callbackId : Slot Native → Option ℤ
  | .zero => some 0
  | .value (.callback id) => some id
  | _ => none

/-- The loop of `findCallbackIdByName` over the members of a struct. -/
def findMemberCallback (memory : List (Write Native)) (name : String) : List (ObjectMember FeatureType) → Option ℤ
  | [] => some 0
  | member :: members =>
    match member.type with
    | .primitive _ => findMemberCallback memory name members
    | .optional t _ =>
      if member.name ≠ name then findMemberCallback memory name members
      else match t with
        | .callback .. => callbackId (load memory member.offset 4)
        | _ => some 0
    | .callback .. =>
      if member.name ≠ name then findMemberCallback memory name members
      else callbackId (load memory member.offset 4)
    | _ => findMemberCallback memory name members

/-- `findCallbackIdByName`; `none` when it reads what is no callback id. -/
def findCallbackIdByName (type : FeatureType) (arg : Option Native) (name : String) : Option ℤ :=
  match type with
  | .primitive _ => some 0
  | _ => match type.realType with
    | .primitive _ => none
    | .structMap _ members => match arg with
      | none => some 0
      | some (.structMap _ _ memory) => findMemberCallback memory name members
      | some _ => none
    | _ => some 0

/-- A rejection on the way: the callbacks of the instance, where the holders are those of the other
pending calls, and what the rejection has done. -/
structure Rejection (F : Type) where
  session : CallbackSession F
  /-- The functions that were called, with their arguments. -/
  invoked : List (F × List JSValue) := []
  /-- The holders whose registered id was removed. -/
  unregistered : List (CallbackHolder F) := []
  /-- An argument or an id was read from bytes that do not hold it. -/
  misread : Bool := false

/-- `FeatureRemoveCallback`. -/
def CallbackSession.removeCallback {F : Type} (s : CallbackSession F) (cid : ℤ) :
    CallbackSession F :=
  { s with manager := (s.manager.eraseCallback cid).2 }

namespace Rejection

variable {F : Type} [DecidableEq F]

/-- `FeatureInvokeCallback`; `program` is what the called function does to the callbacks. -/
def invoke (r : Rejection F) (cid : ℤ) (args : List VarArg) (program : List (CallbackOp F)) :
    Rejection F :=
  match r.session.manager.invokeCallback cid with
  | none => r
  | some call => match argsToTarget call.type.parameters args with
    | .error .refused => r
    | .error .misread => { r with misread := true }
    | .ok values =>
      { r with
        session := Transition.run CallbackSession.step r.session program
        invoked := r.invoked ++ [(call.cb,values)] }

def remove (r : Rejection F) (cid : ℤ) : Rejection F :=
  { r with
    session := r.session.removeCallback cid
    unregistered := r.unregistered ++ r.session.holders.filter (fun h =>
      (r.session.manager.getCallbackData h.cid).isSome &&
        ((r.session.removeCallback cid).manager.getCallbackData h.cid).isNone) }

def settle (r : Rejection F) (cid : Option ℤ) (args : List VarArg) (program : List (CallbackOp F)) : Rejection F :=
  match cid with
  | none => { r with misread := true }
  | some cid =>
    if (r.session.manager.getCallbackData cid).isSome then (r.invoke cid args program).remove cid
    else r

end Rejection

/-- What the functions of the two callbacks do to the callbacks of the instance. -/
structure RejectPrograms (F : Type) where
  fail : List (CallbackOp F) := []
  complete : List (CallbackOp F) := []

/-- `PermissionsInfo::RejectPermissions`. The rejection of a promise touches no callback. -/
def rejectPermissions {F : Type} [DecidableEq F] (method : MemberMethod) (pid : ℤ)
    (arg : Option Native) (reason : PermsRejectReason) (programs : RejectPrograms F)
    (s : CallbackSession F) : Rejection F :=
  if method.returnType.isPromise ∧ 0 ≤ pid then { session := s }
  else match method.parameters with
    | [] => { session := s }
    | type :: _ =>
      let failed := Rejection.settle { session := s } (findCallbackIdByName type arg "fail")
        [.string reason.message,.int reason.code] programs.fail
      failed.settle (findCallbackIdByName type arg "complete") [] programs.complete

def CarriesCallback (members : List (ObjectMember FeatureType)) (memory : List (Write Native))
    (name : String) (cid : ℤ) : Prop :=
  ∃ member, members.find? (fun m => m.name = name) = some member ∧
    load memory member.offset 4 = .value (.callback cid) ∧
    ∃ parameters hasRest, member.type.realType = .callback parameters hasRest

/-- The rejection invokes `fail` once with the error and then `complete` once, and no holder loses
its callback. -/
structure RejectsOnce {F : Type} (r : Rejection F) (reason : PermsRejectReason)
    (fail complete : CallbackHolder F) : Prop where
  invoked : r.invoked = [(fail.cb,[.string reason.message,.number (.int reason.code)]),(complete.cb,[])]
  defined : r.misread = false
  kept : r.unregistered = []

/-- A `string` parameter, required or optional. -/
def FeatureType.takesText : FeatureType → Bool
  | .primitive .string | .optional (.primitive .string) _ => true
  | _ => false

def FeatureType.takesCode : FeatureType → Bool
  | .primitive p => p ∈ [.int,.int16,.uint16,.int32,.uint32]
  | _ => false

/-- The parameter list of a `fail` callback. -/
def takesError : List FeatureType → Bool
  | [text,code] => text.takesText && code.takesCode
  | _ => false

namespace CallbackManager

variable {F : Type}

def Registers (m : CallbackManager F) (cid : ℤ) (cb : F) (accepts : List FeatureType → Bool) :
    Prop :=
  0 < cid ∧ ∃ data, m.getCallbackData cid = some data ∧ data.cb = cb ∧
    data.type.hasRest = false ∧ accepts data.type.parameters = true

end CallbackManager

def CallbackSession.Unheld {F : Type} (s : CallbackSession F) (cid : ℤ) : Prop :=
  (s.manager.getCallbackData cid).isSome → ∀ h ∈ s.holders, h.cid ≠ cid

/-- The callbacks of the request are its own: `fail` is registered with a list that takes the
error, `complete` is another id that is registered with an empty list when `fail` has returned, and
no other pending call holds either id when it is removed. -/
structure OwnCallbacks {F : Type} [DecidableEq F] (s : CallbackSession F)
    (fail complete : CallbackHolder F) (programs : RejectPrograms F) : Prop where
  failRegistered : s.manager.Registers fail.cid fail.cb takesError
  failUnheld : (Transition.run CallbackSession.step s programs.fail).Unheld fail.cid
  distinct : complete.cid ≠ fail.cid
  completeRegistered : (Transition.run CallbackSession.step s programs.fail).manager.Registers
    complete.cid complete.cb List.isEmpty
  completeUnheld : (Transition.run CallbackSession.step
    ((Transition.run CallbackSession.step s programs.fail).removeCallback fail.cid)
    programs.complete).Unheld complete.cid

section Lookup

variable {members : List (ObjectMember FeatureType)} {memory : List (Write Native)}
  {name : String} {cid : ℤ}

theorem findMemberCallback_carried (h : CarriesCallback members memory name cid) :
    findMemberCallback memory name members = some cid := by
  obtain ⟨member,hfind,hload,parameters,hasRest,htype⟩ := h
  induction members with
  | nil => simp at hfind
  | cons m members ih =>
    rw [List.find?_cons] at hfind
    by_cases hname : m.name = name
    · -- the member itself
      simp only [hname,decide_true,Option.some.injEq] at hfind
      subst hfind
      unfold findMemberCallback
      cases hm : m.type with
      | optional t v =>
        rw [hm] at htype
        have ht : t = .callback parameters hasRest := htype
        subst ht
        simp [hname,hload,callbackId]
      | callback ps rest => simp [hname,hload,callbackId]
      | _ => rw [hm] at htype; simp [FeatureType.realType] at htype
    · simp only [hname,decide_false] at hfind
      have hrest := ih hfind
      unfold findMemberCallback
      cases m.type <;> simp [hname,hrest]

theorem findCallbackIdByName_carried {type : FeatureType} {size id : ℕ}
    {layout : List (ObjectMember FeatureType)} (htype : type.realType = .structMap size members)
    (h : CarriesCallback members memory name cid) :
    findCallbackIdByName type (some (.structMap id layout memory)) name = some cid := by
  have hfound := findMemberCallback_carried h
  cases type with
  | primitive p => simp [FeatureType.realType] at htype
  | _ =>
    unfold findCallbackIdByName
    rw [htype]
    exact hfound

end Lookup

section Arguments

theorem argToTarget_text_iff (text : String) (t : FeatureType) :
    argToTarget (some (.string text)) t = .ok (.string text) ↔ t.takesText = true := by
  have hprimitive : ∀ p : PrimitiveType, argToTarget (some (.string text)) (.primitive p) =
      .ok (.string text) ↔ p = .string := by
    intro p
    cases p <;> simp [argToTarget]
  cases t with
  | primitive p =>
    rw [hprimitive]
    cases p <;> simp [FeatureType.takesText]
  | optional t v =>
    cases t with
    | primitive p =>
      cases p <;> simp [argToTarget,FeatureType.isReference,FeatureType.flag,
        FeatureType.realType,FeatureType.typeFlag,PrimitiveType.flag,FeatureType.takesText]
    | _ =>
      simp [argToTarget,FeatureType.isReference,FeatureType.flag,FeatureType.realType,
        FeatureType.typeFlag,FeatureType.takesText]
  | _ => simp [argToTarget,FeatureType.takesText]

theorem argToTarget_code_iff (reason : PermsRejectReason) (t : FeatureType) :
    argToTarget (some (.int reason.code)) t = .ok (.number (.int reason.code)) ↔ t.takesCode = true := by
  cases t with
  | primitive p => cases p <;> cases reason <;> decide
  | optional t v =>
    cases t with
    | primitive p =>
      cases p <;> simp [argToTarget,PrimitiveType.intArg,FeatureType.isReference,
        FeatureType.flag,FeatureType.realType,FeatureType.typeFlag,PrimitiveType.flag,
        FeatureType.takesCode]
    | _ =>
      simp [argToTarget,FeatureType.isReference,FeatureType.flag,FeatureType.realType,
        FeatureType.typeFlag,FeatureType.takesCode]
  | _ => simp [argToTarget,FeatureType.takesCode]

@[simp] theorem argsToTarget_empty (args : List VarArg) : argsToTarget [] args = .ok [] := rfl

theorem argsToTarget_cons_ok (t : FeatureType) (parameters : List FeatureType)
    (args : List VarArg) (values : List JSValue) :
    argsToTarget (t :: parameters) args = .ok values ↔
      ∃ v vs, argToTarget args.head? t = .ok v ∧ argsToTarget parameters args.tail = .ok vs ∧ values = v :: vs := by
  rw [argsToTarget]
  cases argToTarget args.head? t with
  | error e => simp [bind,Except.bind]
  | ok v =>
    cases argsToTarget parameters args.tail with
    | error e => simp [bind,Except.bind]
    | ok vs => simp [bind,Except.bind,pure,Except.pure,eq_comm]

theorem argsToTarget_nil_iff (parameters : List FeatureType) (args : List VarArg) :
    argsToTarget parameters args = .ok [] ↔ parameters.isEmpty = true := by
  cases parameters with
  | nil => simp
  | cons t parameters => simp [argsToTarget_cons_ok]

/-- Exactly the lists of a `fail` callback receive the error. -/
theorem argsToTarget_error_iff (reason : PermsRejectReason) (parameters : List FeatureType) :
    argsToTarget parameters [.string reason.message,.int reason.code] =
        .ok [.string reason.message,.number (.int reason.code)] ↔
      takesError parameters = true := by
  match parameters with
  | [] => simp [takesError]
  | [t] => simp [argsToTarget_cons_ok,takesError]
  | [t,u] =>
    simp only [argsToTarget_cons_ok,takesError,Bool.and_eq_true,
      ← argToTarget_text_iff reason.message,← argToTarget_code_iff reason,List.head?_cons,
      List.tail_cons,argsToTarget_empty]
    constructor
    · rintro ⟨v,vs,hv,⟨w,ws,hw,-,rfl⟩,heq⟩
      simp only [List.cons.injEq] at heq
      obtain ⟨rfl,rfl,-⟩ := heq
      exact ⟨hv,hw⟩
    · rintro ⟨hv,hw⟩
      exact ⟨_,_,hv,⟨_,_,hw,rfl,rfl⟩,rfl⟩
  | t :: u :: v :: parameters => simp [argsToTarget_cons_ok,takesError]

end Arguments

namespace Rejection

variable {F : Type} [DecidableEq F] (r : Rejection F) {cid : ℤ} (args : List VarArg)
  (program : List (CallbackOp F))

omit [DecidableEq F] in
theorem remove_kept_iff (hpos : 0 < cid) :
    (r.remove cid).unregistered = [] ↔ r.unregistered = [] ∧ r.session.Unheld cid := by
  unfold remove CallbackSession.Unheld CallbackSession.removeCallback
  simp only [List.append_eq_nil_iff,and_congr_right_iff]
  intro hnone
  rw [List.filter_eq_nil_iff]
  constructor
  · intro h hsome holder hholder hcid
    subst hcid
    apply h holder hholder
    rw [CallbackManager.eraseCallback_removes _ hpos,hsome]
    rfl
  · intro h holder hholder hlost
    rw [Bool.and_eq_true] at hlost
    by_cases hcid : holder.cid = cid
    · exact h (hcid ▸ hlost.1) holder hholder hcid
    · rw [CallbackManager.eraseCallback_keeps _ hcid] at hlost
      cases hget : r.session.manager.getCallbackData holder.cid <;> simp [hget] at hlost

/-- The call of a registered id: the function runs, or nothing is called. -/
theorem invoke_cases {data : CallbackData F} (hdata : r.session.manager.getCallbackData cid = some data) :
    (∃ values, 0 < cid ∧ data.type.hasRest = false ∧ argsToTarget data.type.parameters args = .ok values ∧
      r.invoke cid args program =
        { r with
          session := Transition.run CallbackSession.step r.session program
          invoked := r.invoked ++ [(data.cb,values)] }) ∨
    (r.invoke cid args program).invoked = r.invoked := by
  unfold invoke CallbackManager.invokeCallback
  rw [hdata]
  by_cases hpos : cid ≤ 0
  · simp [hpos]
  · by_cases hrest : data.type.hasRest = true
    · simp [hpos,hrest]
    · simp only [hpos,hrest,if_false,Bool.false_eq_true]
      cases hargs : argsToTarget data.type.parameters args with
      | error e => cases e <;> simp
      | ok values => exact .inl ⟨values,by omega,by simp,rfl,rfl⟩

theorem settle_invoked_cases (id : Option ℤ) : (r.settle id args program).invoked = r.invoked ∨
      ∃ call, (r.settle id args program).invoked = r.invoked ++ [call] := by
  unfold settle
  cases id with
  | none => exact .inl rfl
  | some cid =>
    dsimp only
    cases hdata : r.session.manager.getCallbackData cid with
    | none => exact .inl rfl
    | some data =>
      rw [Option.isSome_some,if_pos rfl]
      rcases r.invoke_cases args program hdata with
        ⟨values,-,-,-,hinvoke⟩ | hsame
      · exact .inr ⟨(data.cb,values),by rw [hinvoke]; rfl⟩
      · exact .inl hsame

/-- A callback of the request is settled as it should be exactly when its id is registered for it
with a fitting list, and nobody else holds the id when its function has returned. -/
theorem settle_iff {args : List VarArg} (cid : ℤ) (cb : F) {values : List JSValue} {accepts : List FeatureType → Bool}
    (haccepts : ∀ ps, argsToTarget ps args = .ok values ↔ accepts ps = true) :
    ((r.settle (some cid) args program).invoked = r.invoked ++ [(cb,values)] ∧
      (r.settle (some cid) args program).misread = false ∧
      (r.settle (some cid) args program).unregistered = []) ↔
    r.misread = false ∧ r.unregistered = [] ∧ r.session.manager.Registers cid cb accepts ∧
      (Transition.run CallbackSession.step r.session program).Unheld cid := by
  unfold settle CallbackManager.Registers
  dsimp only
  cases hdata : r.session.manager.getCallbackData cid with
  | none => simp
  | some data =>
    rw [Option.isSome_some,if_pos rfl]
    rcases r.invoke_cases args program hdata with
      ⟨vs,hpos,hrest,hargs,hinvoke⟩ | hsame
    · rw [hinvoke,remove_kept_iff _ hpos]
      constructor
      · rintro ⟨hcall,hread,hkept,hunheld⟩
        obtain ⟨rfl,rfl⟩ : data.cb = cb ∧ vs = values := by simpa [remove] using hcall
        exact ⟨hread,hkept,⟨hpos,data,rfl,rfl,hrest,(haccepts _).mp hargs⟩,hunheld⟩
      · rintro ⟨hread,hkept,⟨-,d,hd,hcb,-,haccept⟩,hunheld⟩
        obtain rfl : data = d := Option.some.inj hd
        have hvalues := (haccepts _).mpr haccept
        rw [hargs] at hvalues
        exact ⟨by simp [remove,hcb,Except.ok.inj hvalues],hread,hkept,hunheld⟩
    · refine iff_of_false (fun h => ?_) ?_
      · have hcall := h.1
        simp only [remove,hsame] at hcall
        simp at hcall
      · rintro ⟨-,-,⟨hpos,d,hd,-,hrest,haccept⟩,-⟩
        obtain rfl : data = d := Option.some.inj hd
        have hvalues := (haccepts _).mpr haccept
        have hcalled : (r.invoke cid args program).invoked = r.invoked ++ [(data.cb,values)] := by
          unfold invoke CallbackManager.invokeCallback
          rw [hdata,if_neg (by omega)]
          simp [hrest,hvalues]
        rw [hsame] at hcalled
        simp at hcalled

theorem settle_session {args : List VarArg} {program : List (CallbackOp F)} {cb : F} {values : List JSValue}
    (h : (r.settle (some cid) args program).invoked = r.invoked ++ [(cb,values)]) :
    (r.settle (some cid) args program).session =
      (Transition.run CallbackSession.step r.session program).removeCallback cid := by
  unfold settle at h ⊢
  dsimp only at h ⊢
  cases hdata : r.session.manager.getCallbackData cid with
  | none => simp [hdata] at h
  | some data =>
    rw [hdata,Option.isSome_some,if_pos rfl] at h
    rw [Option.isSome_some,if_pos rfl]
    rcases r.invoke_cases args program hdata with
      ⟨vs,-,-,-,hinvoke⟩ | hsame
    · rw [hinvoke]
      rfl
    · simp only [remove,hsame] at h
      simp at h

end Rejection

section Claim

variable {F : Type} [DecidableEq F]

omit [DecidableEq F] in
theorem registers_removeCallback_iff (s : CallbackSession F) {cid other : ℤ} (hpos : 0 < other)
    {cb : F} {accepts : List FeatureType → Bool} :
    (s.removeCallback other).manager.Registers cid cb accepts ↔ cid ≠ other ∧ s.manager.Registers cid cb accepts := by
  unfold CallbackManager.Registers CallbackSession.removeCallback
  by_cases hcid : cid = other
  · subst hcid
    simp [CallbackManager.eraseCallback_removes _ hpos]
  · rw [CallbackManager.eraseCallback_keeps _ hcid]
    simp [hcid]

/-- A rejection settles both callbacks once and takes nobody else's exactly when the callbacks are
the request's own. -/
theorem rejectsOnce_iff (method : MemberMethod) (pid : ℤ) (reason : PermsRejectReason)
    (programs : RejectPrograms F) (s : CallbackSession F) {type : FeatureType}
    {rest : List FeatureType} {size id : ℕ} {members layout : List (ObjectMember FeatureType)}
    {memory : List (Write Native)} {fail complete : CallbackHolder F}
    (hreturn : method.returnType.isPromise = false) (hparams : method.parameters = type :: rest)
    (htype : type.realType = .structMap size members)
    (hfail : CarriesCallback members memory "fail" fail.cid)
    (hcomplete : CarriesCallback members memory "complete" complete.cid) :
    RejectsOnce (rejectPermissions method pid (some (.structMap id layout memory)) reason programs
      s) reason fail complete ↔ OwnCallbacks s fail complete programs := by
  have hreject : rejectPermissions method pid (some (.structMap id layout memory)) reason programs
      s = (Rejection.settle { session := s } (some fail.cid)
        [.string reason.message,.int reason.code] programs.fail).settle (some complete.cid) []
        programs.complete := by
    unfold rejectPermissions
    rw [hreturn,hparams,if_neg (by simp)]
    dsimp only
    rw [findCallbackIdByName_carried htype hfail,findCallbackIdByName_carried htype hcomplete]
  set r₀ : Rejection F := { session := s }
  set failed := r₀.settle (some fail.cid) [.string reason.message,.int reason.code] programs.fail
    with hfailed
  have hfailedIff := r₀.settle_iff programs.fail fail.cid fail.cb
    (argsToTarget_error_iff reason)
  have hcompletedIff := failed.settle_iff programs.complete complete.cid complete.cb
    (fun ps => argsToTarget_nil_iff ps [])
  rw [hreject]
  constructor
  · intro h
    -- the first call is that of `fail`, the second that of `complete`
    have hfirst : failed.invoked = r₀.invoked ++ [(fail.cb,[.string reason.message,.number (.int reason.code)])] ∧
        (failed.settle (some complete.cid) [] programs.complete).invoked = failed.invoked ++ [(complete.cb,[])] := by
      have htwo := h.invoked
      have hone := r₀.settle_invoked_cases [.string reason.message,.int reason.code]
        programs.fail (some fail.cid)
      have hother := failed.settle_invoked_cases [] programs.complete
        (some complete.cid)
      rw [← hfailed] at hone
      rw [htwo] at hother ⊢
      rcases hone with hone | ⟨call,hone⟩
      · rcases hother with hother | ⟨call',hother⟩ <;> simp [hone,r₀] at hother
      · rcases hother with hother | ⟨call',hother⟩
        · simp [hone,r₀] at hother
        · simp only [hone,r₀,List.nil_append,List.cons_append,List.cons.injEq] at hother ⊢
          simp [hother.1]
    obtain ⟨hread,hkept,hregistered,hunheld⟩ :=
      hcompletedIff.mp ⟨hfirst.2,h.defined,h.kept⟩
    obtain ⟨-,-,hfailRegistered,hfailUnheld⟩ := hfailedIff.mp ⟨hfirst.1,hread,hkept⟩
    rw [hfailed,r₀.settle_session hfirst.1] at hregistered hunheld
    rw [registers_removeCallback_iff _ hfailRegistered.1] at hregistered
    exact ⟨hfailRegistered,hfailUnheld,hregistered.1,hregistered.2,hunheld⟩
  · intro h
    obtain ⟨hcall,hread,hkept⟩ := hfailedIff.mpr ⟨rfl,rfl,h.failRegistered,h.failUnheld⟩
    have hsession := r₀.settle_session hcall
    rw [← hfailed] at hcall hread hkept hsession
    have hregistered : failed.session.manager.Registers complete.cid complete.cb List.isEmpty := by
      rw [hsession,registers_removeCallback_iff _ h.failRegistered.1]
      exact ⟨h.distinct,h.completeRegistered⟩
    have hunheld : (Transition.run CallbackSession.step failed.session programs.complete).Unheld complete.cid := by
      rw [hsession]
      exact h.completeUnheld
    obtain ⟨hsecond,hread',hkept'⟩ := hcompletedIff.mpr ⟨hread,hkept,hregistered,hunheld⟩
    rw [hcall] at hsecond
    exact ⟨hsecond,hread',hkept'⟩

end Claim

/-- The options of a call with the three callbacks, `complete` optional. -/
def callbackOptions : List (ObjectMember FeatureType) :=
  [⟨"success",.callback [] false,0⟩,⟨"fail",.callback [.primitive .string,.primitive .int] false,4⟩,
   ⟨"complete",.optional (.callback [] false) {},8⟩]

/-- The struct of a call whose `fail` and `complete` got the given ids. -/
def callbackStruct (fail complete : ℤ) : List (Write Native) :=
  [⟨8,4,some (.callback complete)⟩,⟨4,4,some (.callback fail)⟩,⟨0,4,some (.callback 1)⟩]

theorem callbackStruct_carries (fail complete : ℤ) :
    CarriesCallback callbackOptions (callbackStruct fail complete) "fail" fail ∧
      CarriesCallback callbackOptions (callbackStruct fail complete) "complete" complete :=
  ⟨⟨_,rfl,rfl,_,_,rfl⟩,⟨_,rfl,rfl,_,_,rfl⟩⟩

def registerAll (ops : List (CallbackOp ℕ)) : CallbackSession ℕ :=
  ⟨(Transition.run CallbackSession.step {} ops).manager,[]⟩

theorem rejectsOnce_of_three :
    (⟨[.structMap 12 callbackOptions],false,.primitive .void⟩ : MemberMethod).returnType.isPromise = false ∧
    RejectsOnce (rejectPermissions ⟨[.structMap 12 callbackOptions],false,.primitive .void⟩ (-1)
      (some (.structMap 0 callbackOptions (callbackStruct 2 3))) .denied {}
      (registerAll [.convert 5 ⟨[],false⟩,.convert 6 ⟨[.primitive .string,.primitive .int],false⟩,
        .convert 7 ⟨[],false⟩])) .denied ⟨2,6,⟨[.primitive .string,.primitive .int],false⟩⟩
      ⟨3,7,⟨[],false⟩⟩ :=
  ⟨rfl,(rejectsOnce_iff _ (-1) .denied {} _ rfl rfl rfl (callbackStruct_carries 2 3).1
    (callbackStruct_carries 2 3).2).mpr
    { failRegistered := ⟨by decide,_,rfl,rfl,rfl,rfl⟩
      failUnheld := fun _ _ hh => absurd hh List.not_mem_nil
      distinct := by decide
      completeRegistered := ⟨by decide,_,rfl,rfl,rfl,rfl⟩
      completeUnheld := fun _ _ hh => absurd hh List.not_mem_nil }⟩

/-- The same function as `fail` and as `complete` shares one id, which is gone when `complete` is
looked up. -/
theorem same_function_not_completed : CarriesCallback callbackOptions (callbackStruct 2 2) "fail" 2 ∧
    CarriesCallback callbackOptions (callbackStruct 2 2) "complete" 2 ∧
    ¬RejectsOnce (rejectPermissions ⟨[.structMap 12 callbackOptions],false,.primitive .void⟩ (-1)
      (some (.structMap 0 callbackOptions (callbackStruct 2 2))) .denied {}
      (registerAll [.convert 5 ⟨[],false⟩,.convert 6 ⟨[.primitive .string,.primitive .int],false⟩,
        .convert 6 ⟨[],false⟩])) .denied ⟨2,6,⟨[.primitive .string,.primitive .int],false⟩⟩
      ⟨2,6,⟨[],false⟩⟩ := by
  refine ⟨(callbackStruct_carries 2 2).1,(callbackStruct_carries 2 2).2,fun h => ?_⟩
  have hlength := congrArg List.length h.invoked
  revert hlength
  decide

end FeatureRuntime
