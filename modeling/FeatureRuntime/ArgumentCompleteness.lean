import FeatureRuntime.MethodCall

/-! The arguments of a native method call: when a refused call is reported, and when every slot that
the stub gets is filled. -/
namespace FeatureRuntime

variable (E : Env) (method : MemberMethod) (argv : List JSValue)

def CallOutcome.Reported (c : CallOutcome) : Prop := c.code ≠ .ok ∨ ∃ pid ∈ c.rejected, 0 ≤ pid

/-- The content of a parameter slot was converted from the argument at its position, or from the
declared default where the call has no such argument. -/
def FilledFrom (i : ℕ) (type : FeatureType) (content : Option Native) : Prop :=
  match argv[i]? with
  | some arg => ∃ st, (convertValueToNative E type arg .zero st).ok = true ∧
      content = (convertValueToNative E type arg .zero st).content
  | none => ∃ t value st, type = .optional t value ∧
      (convertOptional E.platform t value st).ok = true ∧
      content = (convertOptional E.platform t value st).content

def extraArgc : ℕ := if method.returnType.isPromise then 1 else 0

/-- The call reported an error without calling the stub, or it called the stub once with a filled
slot for every parameter. -/
def FillsParameters (c : CallOutcome) : Prop :=
  (c.Reported ∧ c.stubCalls = []) ∨
  ∃ buffer, c.stubCalls = [buffer] ∧ ∀ i type, method.parameters[i]? = some type →
    ∃ content, buffer[extraArgc method + i]? = some (some (.param content)) ∧
      FilledFrom ((callStyle E.js method argv).engine E) argv i type content

def NoNullSlot (c : CallOutcome) : Prop := ∀ buffer ∈ c.stubCalls, none ∉ buffer

def argsAccepted (types : List FeatureType) : Bool :=
  (types.zip argv).all (fun entry => !entry.1.isPromise && converts E entry.1 entry.2)

def defaultsAccepted (types : List FeatureType) : Bool :=
  types.all (fun type => match type with
    | .optional t _ => defaultConverts t
    | _ => false)

/-- The call is accepted: its handlers, its argument count, its arguments and the defaults. -/
structure Accepted : Prop where
  valid : callStyle E.js method argv ≠ .invalid
  count : countFits method (callStyle E.js method argv) argv.length = true
  args : argsAccepted ((callStyle E.js method argv).engine E) argv method.parameters = true
  defaults : method.hasRest = false → 0 < optionalCount method.parameters →
    defaultsAccepted (method.parameters.drop argv.length) = true

/-- A call with a callbacks object in place of a promise and with fewer arguments than the method,
which has neither optional parameters nor a rest, has parameters. -/
def ShortCallbacksCall : Prop :=
  (callStyle E.js method argv).takesCallbacks = true ∧ method.hasRest = false ∧
    optionalCount method.parameters = 0 ∧ argv.length < method.parameters.length ∧
    argsAccepted ((callStyle E.js method argv).engine E) argv method.parameters = true

/-- A refused call whose callbacks object has a `complete` handler alone. -/
def UnheardCall : Prop :=
  ∃ arg, callStyle E.js method argv = .callbacks arg ∧ hasSettleHandler E.js arg = false ∧ ¬Accepted E method argv

variable {E method argv}

theorem convertArgs_ok (types : List FeatureType) (argv : List JSValue) (st : ConvertState) :
    (convertArgs E types argv st).ok = argsAccepted E argv types := by
  induction types generalizing argv st with
  | nil => rfl
  | cons type types ih =>
    cases argv with
    | nil => rfl
    | cons arg argv =>
      have hzip : argsAccepted E (arg :: argv) (type :: types) =
          (!type.isPromise && converts E type arg && argsAccepted E argv types) := rfl
      rw [hzip,convertArgs]
      simp only [convertValueToNative_ok]
      cases type.isPromise with
      | true => rfl
      | false =>
        cases converts E type arg with
        | true => simp [ih]
        | false => rfl

/-- An accepted argument list leaves one slot for each parameter that has an argument. -/
theorem convertArgs_slots {types : List FeatureType} {argv : List JSValue} {st : ConvertState}
    (hok : (convertArgs E types argv st).ok = true) :
    (convertArgs E types argv st).slots.length = min types.length argv.length ∧
    ∀ (i : ℕ) (type : FeatureType) (arg : JSValue), types[i]? = some type → argv[i]? = some arg →
      ∃ st', (convertArgs E types argv st).slots[i]? = some (convertValueToNative E type arg .zero st').content ∧
        (convertValueToNative E type arg .zero st').ok = true := by
  induction types generalizing argv st with
  | nil => simp [convertArgs]
  | cons type types ih =>
    cases argv with
    | nil => simp [convertArgs]
    | cons arg argv =>
      unfold convertArgs at hok ⊢
      dsimp only at hok ⊢
      split_ifs at hok ⊢ with hpromise hconv
      · obtain ⟨hlen,hslots⟩ := ih hok
        refine ⟨by simp [hlen],fun i t v ht hv => ?_⟩
        cases i with
        | zero =>
          obtain rfl : type = t := by simpa using ht
          obtain rfl : arg = v := by simpa using hv
          exact ⟨st,rfl,hconv⟩
        | succ i => simpa using hslots i t v (by simpa using ht) (by simpa using hv)

theorem fillDefaults_ok (P : Platform) (types : List FeatureType) (st : ConvertState) :
    (fillDefaults P types st).ok = defaultsAccepted types := by
  induction types generalizing st with
  | nil => rfl
  | cons type types ih =>
    cases type with
    | optional t v =>
      have hall : defaultsAccepted (.optional t v :: types) = (defaultConverts t && defaultsAccepted types) := rfl
      rw [hall,fillDefaults]
      simp only [convertOptional_ok]
      cases defaultConverts t with
      | true => simp [ih]
      | false => rfl
    | _ => rfl

theorem fillDefaults_slots {P : Platform} {types : List FeatureType} {st : ConvertState}
    (hok : (fillDefaults P types st).ok = true) :
    (fillDefaults P types st).slots.length = types.length ∧
    ∀ (i : ℕ) (type : FeatureType), types[i]? = some type → ∃ t value st', type = .optional t value ∧
      (convertOptional P t value st').ok = true ∧
      (fillDefaults P types st).slots[i]? = some (convertOptional P t value st').content := by
  induction types generalizing st with
  | nil => simp [fillDefaults]
  | cons type types ih =>
    cases type with
    | optional t v =>
      unfold fillDefaults at hok ⊢
      dsimp only at hok ⊢
      split_ifs at hok ⊢ with hconv
      · obtain ⟨hlen,hslots⟩ := ih hok
        refine ⟨by simp [hlen],fun i type htype => ?_⟩
        cases i with
        | zero =>
          obtain rfl : FeatureType.optional t v = type := by simpa using htype
          exact ⟨t,v,st,rfl,hconv,rfl⟩
        | succ i => simpa using hslots i type (by simpa using htype)
    | _ => simp [fillDefaults] at hok

theorem prepareArgs_ok (st : ConvertState) : (prepareArgs E method argv st).ok = true ↔
      argsAccepted E argv method.parameters = true ∧ (method.hasRest = false → 0 < optionalCount method.parameters →
          defaultsAccepted (method.parameters.drop argv.length) = true) := by
  unfold prepareArgs
  dsimp only
  rw [convertArgs_ok]
  cases hargs : argsAccepted E argv method.parameters with
  | false => simp [convertArgs_ok,hargs]
  | true =>
    cases method.hasRest with
    | true => simp [convertArgs_ok,hargs]
    | false =>
      by_cases hopt : 0 < optionalCount method.parameters <;> simp [hopt,fillDefaults_ok,convertArgs_ok,hargs]

/-- The slots of an accepted call are filled from the arguments, and behind them from the defaults.
There are as many as arguments when no default is filled in, and as many as parameters else. -/
theorem prepareArgs_slots {st : ConvertState} (hok : (prepareArgs E method argv st).ok = true) :
    ((prepareArgs E method argv st).slots.length =
      if method.hasRest = false ∧ 0 < optionalCount method.parameters then method.parameters.length
      else min method.parameters.length argv.length) ∧
    ∀ (i : ℕ) (type : FeatureType), method.parameters[i]? = some type →
      i < (prepareArgs E method argv st).slots.length →
      ∃ content, (prepareArgs E method argv st).slots[i]? = some content ∧
        FilledFrom E argv i type content := by
  have hgiven : (convertArgs E method.parameters argv st).ok = true := by
    rw [convertArgs_ok]
    exact ((prepareArgs_ok st).mp hok).1
  obtain ⟨hlen,hslots⟩ := convertArgs_slots hgiven
  have hargs : ∀ (i : ℕ) (type : FeatureType), method.parameters[i]? = some type → i < argv.length → ∃ content,
        (convertArgs E method.parameters argv st).slots[i]? = some content ∧
          FilledFrom E argv i type content := by
    intro i type htype hi
    have harg : argv[i]? = some argv[i] := List.getElem?_eq_getElem hi
    obtain ⟨st',hslot,hconv⟩ := hslots i type _ htype harg
    refine ⟨_,hslot,?_⟩
    unfold FilledFrom
    rw [harg]
    exact ⟨st',hconv,rfl⟩
  unfold prepareArgs at hok ⊢
  dsimp only at hok ⊢
  rw [hgiven] at hok ⊢
  cases hrest : method.hasRest with
  | true =>
    simp only [hrest,Bool.not_true,Bool.and_false,Bool.false_and,Bool.false_eq_true,if_false,
      Bool.true_eq_false,false_and] at hok ⊢
    exact ⟨hlen,fun i type htype hi => hargs i type htype (by omega)⟩
  | false =>
    by_cases hopt : 0 < optionalCount method.parameters
    · simp only [hrest,hopt,Bool.not_false,Bool.and_true,decide_true,if_true,true_and] at hok ⊢
      obtain ⟨hlen',hslots'⟩ := fillDefaults_slots hok
      rw [List.length_drop] at hlen'
      refine ⟨by rw [List.length_append,hlen,hlen']; omega,fun i type htype hi => ?_⟩
      have hin := (List.getElem?_eq_some_iff.mp htype).1
      rcases Nat.lt_or_ge i argv.length with hlt | hge
      · obtain ⟨content,hcontent,hfilled⟩ := hargs i type htype hlt
        have hlt' : i < (convertArgs E method.parameters argv st).slots.length := by omega
        exact ⟨content,by rw [List.getElem?_append_left hlt',hcontent],hfilled⟩
      · obtain ⟨t,value,st',rfl,hconv,hslot⟩ := hslots' (i - argv.length) type (by
          rw [List.getElem?_drop,Nat.add_sub_cancel' hge,htype])
        refine ⟨(convertOptional E.platform t value st').content,?_,?_⟩
        · rw [List.getElem?_append_right (by omega),hlen,
            Nat.min_eq_right (by omega),hslot]
        · unfold FilledFrom
          rw [List.getElem?_eq_none hge]
          exact ⟨t,value,st',rfl,hconv,rfl⟩
    · simp only [hrest,hopt,Bool.not_false,Bool.and_false,decide_false,Bool.false_eq_true,
        if_false,and_false] at hok ⊢
      exact ⟨hlen,fun i type htype hi => hargs i type htype (by omega)⟩

theorem argBuffer_param {pid : ℤ} {slots : List (Option Native)} {i : ℕ} {content : Option Native}
    (h : slots[i]? = some content) :
    (argBuffer method pid argv slots)[extraArgc method + i]? = some (some (.param content)) := by
  have hi := (List.getElem?_eq_some_iff.mp h).1
  unfold argBuffer extraArgc
  simp only [List.append_assoc]
  rw [List.getElem?_append_right (by split_ifs <;> simp),
    List.getElem?_append_left (by split_ifs <;> simpa using hi)]
  split_ifs <;> simp [h]

theorem argBuffer_unfilled {pid : ℤ} {slots : List (Option Native)} {i : ℕ}
    (hi : slots.length ≤ i) (hlt : i < method.parameters.length) :
    (argBuffer method pid argv slots)[extraArgc method + i]? = some none := by
  unfold argBuffer extraArgc
  simp only [List.append_assoc]
  rw [List.getElem?_append_right (by split_ifs <;> simp),
    List.getElem?_append_right (by split_ifs <;> simpa using hi),
    List.getElem?_append_left (by split_ifs <;> simp <;> omega),
    List.getElem?_replicate,if_pos (by split_ifs <;> simp <;> omega)]

theorem none_mem_argBuffer (pid : ℤ) (slots : List (Option Native)) : none ∈ argBuffer method pid argv slots ↔
      slots.length < method.parameters.length ∨ 0 < optionalCount method.parameters := by
  have hcounts : (method.parameters.length ≤ slots.length → ¬optionalCount method.parameters = 0) ↔
      slots.length < method.parameters.length ∨ ¬optionalCount method.parameters = 0 := by omega
  unfold argBuffer
  cases method.returnType.isPromise <;> cases method.hasRest <;>
    simp [List.mem_replicate,Nat.sub_eq_zero_iff_le,Nat.pos_iff_ne_zero,hcounts]

section Outcome

variable (nextPid : ℕ) (stub : StubResult) (st : ConvertState)

theorem callStyle_callbacks {ctx : JSContext} {arg : JSValue}
    (h : callStyle ctx method argv = .callbacks arg) : method.returnType.isPromise = true := by
  unfold callStyle at h
  split_ifs at h with hpromise
  exact hpromise

theorem methodCall_eq (h : callStyle E.js method argv ≠ .invalid) : methodCall E method argv nextPid stub st =
      if countFits method (callStyle E.js method argv) argv.length then
        callStub ((callStyle E.js method argv).engine E) method argv
          ((callStyle E.js method argv).pid E.js nextPid) stub st
      else handleError method ((callStyle E.js method argv).pid E.js nextPid) .argsCountErr st := by
  unfold methodCall
  cases hstyle : callStyle E.js method argv with
  | invalid => exact absurd hstyle h
  | _ => rfl

theorem ShortCallbacksCall.accepted (h : ShortCallbacksCall E method argv) :
    Accepted E method argv := by
  obtain ⟨hcallbacks,hrest,hopt,-,hargs⟩ := h
  refine ⟨?_,?_,hargs,fun _ hpos => by omega⟩
  · intro hstyle
    simp [hstyle,CallStyle.takesCallbacks] at hcallbacks
  · simp [countFits,hrest,hopt,hcallbacks]

theorem methodCall_refused (hvalid : callStyle E.js method argv ≠ .invalid)
    (h : ¬Accepted E method argv) : ∃ code st', code ≠ .ok ∧ methodCall E method argv nextPid stub st =
        handleError method ((callStyle E.js method argv).pid E.js nextPid) code st' := by
  rw [methodCall_eq nextPid stub st hvalid]
  split_ifs with hcount
  · have hrefused : ¬(prepareArgs ((callStyle E.js method argv).engine E) method argv st).ok = true := by
      intro hok
      obtain ⟨hargs,hdefaults⟩ := (prepareArgs_ok st).mp hok
      exact h ⟨hvalid,hcount,hargs,hdefaults⟩
    unfold callStub
    dsimp only
    rw [if_neg hrefused]
    exact ⟨.argsTypeErr,_,by decide,rfl⟩
  · exact ⟨.argsCountErr,st,by decide,rfl⟩

theorem methodCall_accepted (h : Accepted E method argv) :
    (prepareArgs ((callStyle E.js method argv).engine E) method argv st).ok = true ∧
    (methodCall E method argv nextPid stub st).stubCalls =
      [argBuffer method ((callStyle E.js method argv).pid E.js nextPid) argv
        (prepareArgs ((callStyle E.js method argv).engine E) method argv st).slots] := by
  have hok := (prepareArgs_ok st).mpr ⟨h.args,h.defaults⟩
  refine ⟨hok,?_⟩
  rw [methodCall_eq nextPid stub st h.valid,if_pos h.count]
  unfold callStub
  dsimp only
  rw [if_pos hok]

theorem handleError_reported {code : RetCode} (hcode : code ≠ .ok) (h : ¬Accepted E method argv) :
    (handleError method ((callStyle E.js method argv).pid E.js nextPid) code st).Reported ↔
      ¬UnheardCall E method argv := by
  have hunheard : ∀ arg, callStyle E.js method argv = .callbacks arg →
      (UnheardCall E method argv ↔ hasSettleHandler E.js arg = false) := by
    intro arg hstyle
    constructor
    · rintro ⟨arg',hstyle',hnone,-⟩
      rw [hstyle] at hstyle'
      rwa [CallStyle.callbacks.inj hstyle']
    · exact fun hnone => ⟨arg,hstyle,hnone,h⟩
  unfold handleError CallOutcome.Reported
  cases hpromise : method.returnType.isPromise with
  | false =>
    refine iff_of_true (.inl hcode) ?_
    rintro ⟨arg,hstyle,-⟩
    simp [callStyle_callbacks hstyle] at hpromise
  | true =>
    simp only [if_true,List.mem_singleton,exists_eq_left,ne_eq,not_true_eq_false,false_or]
    cases hstyle : callStyle E.js method argv with
    | callbacks arg =>
      rw [hunheard arg hstyle]
      cases hhandler : hasSettleHandler E.js arg <;> simp [CallStyle.pid,hhandler]
    | _ =>
      refine iff_of_true (by simp [CallStyle.pid]) ?_
      rintro ⟨arg,hstyle',-⟩
      rw [hstyle] at hstyle'
      cases hstyle'

/-- A call fills every parameter slot or reports its refusal, exactly when it is neither a short
call with callbacks nor unheard; and no entry that the stub gets is null exactly when besides it is
refused or the method has no optional parameters. -/
theorem fillsParameters_iff (E : Env) (method : MemberMethod) (argv : List JSValue) :
    (FillsParameters E method argv (methodCall E method argv nextPid stub st) ↔
      ¬ShortCallbacksCall E method argv ∧ ¬UnheardCall E method argv) ∧
    (FillsParameters E method argv (methodCall E method argv nextPid stub st) ∧
        NoNullSlot (methodCall E method argv nextPid stub st) ↔
      ¬ShortCallbacksCall E method argv ∧ ¬UnheardCall E method argv ∧
        (Accepted E method argv → optionalCount method.parameters = 0)) := by
  by_cases hacc : Accepted E method argv
  · obtain ⟨hok,hcalls⟩ := methodCall_accepted nextPid stub st hacc
    obtain ⟨hlen,hslots⟩ := prepareArgs_slots hok
    have hunheard : ¬UnheardCall E method argv := fun ⟨_,_,_,hnot⟩ => hnot hacc
    have hshort : ShortCallbacksCall E method argv ↔
        (prepareArgs ((callStyle E.js method argv).engine E) method argv st).slots.length <
          method.parameters.length := by
      have hcount := hacc.count
      rw [hlen]
      constructor
      · rintro ⟨-,-,hopt,hlt,-⟩
        rw [if_neg (by omega)]
        omega
      · intro hlt
        split_ifs at hlt with hdefaults
        · omega
        · unfold countFits at hcount
          dsimp only at hcount
          split_ifs at hcount with hrest hopt
          · simp only [decide_eq_true_eq] at hcount
            omega
          · exact absurd ⟨by simpa using hrest,hopt⟩ hdefaults
          · have hshorter : argv.length < method.parameters.length := by omega
            rw [Bool.or_eq_true,decide_eq_true_eq] at hcount
            exact ⟨hcount.resolve_left (by omega),by simpa using hrest,by omega,hshorter,hacc.args⟩
    have hfills : FillsParameters E method argv (methodCall E method argv nextPid stub st) ↔
        ¬ShortCallbacksCall E method argv := by
      rw [hshort,FillsParameters,hcalls]
      constructor
      · rintro (⟨-,hnone⟩ | ⟨buffer,hbuffer,hall⟩) hlt
        · simp at hnone
        · obtain rfl : _ = buffer := by simpa using hbuffer
          obtain ⟨content,hcontent,-⟩ := hall _ _ (List.getElem?_eq_getElem hlt)
          rw [argBuffer_unfilled (Nat.le_refl _) hlt] at hcontent
          simp at hcontent
      · intro hfull
        refine .inr ⟨_,rfl,fun i type htype => ?_⟩
        have hi := (List.getElem?_eq_some_iff.mp htype).1
        obtain ⟨content,hcontent,hfilled⟩ := hslots i type htype (by omega)
        exact ⟨content,argBuffer_param hcontent,hfilled⟩
    have hnull : NoNullSlot (methodCall E method argv nextPid stub st) ↔
        ¬ShortCallbacksCall E method argv ∧ optionalCount method.parameters = 0 := by
      rw [hshort,NoNullSlot,hcalls]
      simp only [List.mem_singleton,forall_eq,none_mem_argBuffer]
      omega
    rw [hfills,hnull]
    simp only [hunheard,not_false_eq_true,and_true,hacc,forall_const,true_and]
    tauto
  · have hshort : ¬ShortCallbacksCall E method argv := fun h => hacc h.accepted
    by_cases hvalid : callStyle E.js method argv = .invalid
    · have hcall : methodCall E method argv nextPid stub st = ⟨.argsTypeErr,[],[],st⟩ := by
        unfold methodCall
        rw [hvalid]
      have hunheard : ¬UnheardCall E method argv := by
        rintro ⟨arg,hstyle,-⟩
        rw [hvalid] at hstyle
        cases hstyle
      rw [hcall]
      have hfills : FillsParameters E method argv ⟨.argsTypeErr,[],[],st⟩ :=
        .inl ⟨.inl (by simp),rfl⟩
      simp [hfills,hshort,hunheard,hacc,NoNullSlot]
    · obtain ⟨code,st',hcode,hcall⟩ :=
        methodCall_refused nextPid stub st hvalid hacc
      have hreported := handleError_reported nextPid st' hcode hacc
      have hcalls : (handleError method ((callStyle E.js method argv).pid E.js nextPid) code st').stubCalls = [] := by
        unfold handleError
        split_ifs <;> rfl
      rw [hcall]
      have hfills : FillsParameters E method argv (handleError method
          ((callStyle E.js method argv).pid E.js nextPid) code st') ↔ ¬UnheardCall E method argv := by
        rw [← hreported,FillsParameters,hcalls]
        simp
      have hnull : NoNullSlot (handleError method ((callStyle E.js method argv).pid E.js nextPid) code st') := by
        simp [NoNullSlot,hcalls]
      simp [hfills,hnull,hshort,hacc]

end Outcome

/-- Object 0 has a `success` handler, the function object 1. -/
def successHandler : JSContext :=
  { JSContext.ofProperties (fun id name =>
      if id = 0 ∧ name = "success" then .object 1 else .undefined) with
    functionObject := fun id => id = 1 }

def requestMethod : MemberMethod :=
  ⟨[.primitive .anyRef,.primitive .int],false,.promise (.primitive .void)⟩

/-- Called with the callbacks object alone, the method runs with a null entry for its second
parameter. -/
theorem short_callbacks_call_leaves_null :
    ¬FillsParameters (.ofEngine .bits64 successHandler) requestMethod [.object 0]
      (methodCall (.ofEngine .bits64 successHandler) requestMethod [.object 0] 0 ⟨true,false⟩ {}) := by
  have hcalls : (methodCall (.ofEngine .bits64 successHandler) requestMethod [.object 0] 0
      ⟨true,false⟩ {}).stubCalls =
      [[some (.promiseId 0),some (.param (some (.anyRef 0 (.object 0)))),none]] := rfl
  rintro (⟨-,hnone⟩ | ⟨buffer,hbuffer,hall⟩)
  · simp [hcalls] at hnone
  · obtain rfl : _ = buffer := by simpa [hcalls] using hbuffer
    obtain ⟨content,hcontent,-⟩ := hall 1 (.primitive .int) rfl
    simp [extraArgc,requestMethod,FeatureType.isPromise] at hcontent

end FeatureRuntime
