import FeatureRuntime.MethodCall
import FeatureRuntime.PromiseManager

/-! The object of `success`, `fail` and `complete` functions that a caller may pass in place of a
promise: what is accepted, what is registered, and what a settle of its pid invokes. -/
namespace FeatureRuntime

def Handler.property : Handler → String
  | .success => "success"
  | .fail => "fail"
  | .complete => "complete"

def hasHandler (ctx : JSContext) (arg : JSValue) (h : Handler) : Bool :=
  ctx.isFunction (ctx.getProperty arg h.property)

/-- `PromiseData` keeps the values as they are, `null` included; only undefined counts as absent
there. -/
def keepsHandler (ctx : JSContext) (arg : JSValue) (h : Handler) : Bool :=
  ctx.getProperty arg h.property != .undefined

/-- `value_translator::addAsyncCallbacks` with `PromiseManager::addAsyncCallbacks`. -/
def addAsyncCallbacks (ctx : JSContext) (arg : JSValue) (resolveType : FeatureType)
    (s : PromiseManager) : ℤ × PromiseManager :=
  if JSContext.isObject arg && hasSettleHandler ctx arg then
    (s.currPid,s.register resolveType (.callbacks (keepsHandler ctx arg .success)
      (keepsHandler ctx arg .fail) (keepsHandler ctx arg .complete)))
  else (-1,s)

namespace PromiseManager

def returnAbove (s : PromiseManager) (depth : ℕ) : PromiseManager :=
  if depth < s.stack.length then s.handlerReturn else s

def settleToEnd (s : PromiseManager) (pid : ℤ) (how : Settle) : PromiseManager :=
  ((s.settle pid how).returnAbove s.stack.length).returnAbove s.stack.length

def Holds (s : PromiseManager) (pid : ℤ) (data : PromiseData) : Prop :=
  s.fault = false ∧ s.promises[pid]? = some data ∧ (pid,data.addr) ∈ s.live

end PromiseManager

def expectedHandlers (ctx : JSContext) (arg : JSValue) (how : Settle) : List Handler :=
  [how.handler,.complete].filter (hasHandler ctx arg)

/-- The functions among the handlers that were called, oldest call first. Calling `null` invokes
nothing. -/
def invokedHandlers (ctx : JSContext) (arg : JSValue) (calls : List HandlerCall) : List Handler :=
  (calls.reverse.map (·.handler)).filter (hasHandler ctx arg)

/-- The calling convention: the call obtains a live pid, and whenever the promise of the pid is
settled, its handlers are invoked once, `success` or `fail` first and `complete` last. -/
structure KeepsConvention (ctx : JSContext) (arg : JSValue) (resolveType : FeatureType)
    (s : PromiseManager) (how : Settle) : Prop where
  live : 0 ≤ (addAsyncCallbacks ctx arg resolveType s).1 ∧ ∃ data, (addAsyncCallbacks ctx arg resolveType s).2.Holds
      (addAsyncCallbacks ctx arg resolveType s).1 data
  settles : ∀ (t : PromiseManager) (data : PromiseData), (addAsyncCallbacks ctx arg resolveType s).2.promises[
      (addAsyncCallbacks ctx arg resolveType s).1]? = some data →
    t.Holds (addAsyncCallbacks ctx arg resolveType s).1 data →
    ∃ calls, (t.settleToEnd (addAsyncCallbacks ctx arg resolveType s).1 how).calls = calls ++ t.calls ∧
      (∀ c ∈ calls, c.pid = (addAsyncCallbacks ctx arg resolveType s).1) ∧
      invokedHandlers ctx arg calls = expectedHandlers ctx arg how

/-- A settle that reaches its handlers: the value of a resolve can be converted, or nothing waits
for it. -/
def SettleReaches (ctx : JSContext) (arg : JSValue) (resolveType : FeatureType) (how : Settle) :
    Prop :=
  how = .resolve false → resolveType.isVoid = true ∨ keepsHandler ctx arg .success = false ∨
    hasHandler ctx arg .success = false ∧ hasHandler ctx arg .complete = false

section Settle

variable {ctx : JSContext} {arg : JSValue} {s t : PromiseManager} {pid : ℤ} {data : PromiseData}
  {how : Settle}

namespace PromiseManager

theorem returnAbove_of_stack {depth : ℕ} (h : s.stack.length = depth) : s.returnAbove depth = s := by
  rw [returnAbove,if_neg (by omega)]

@[simp] theorem finish_calls (s : PromiseManager) (pid ret : ℤ) (later : Bool) :
    (s.finish pid ret later).calls = s.calls := by
  unfold finish
  split <;> rfl

@[simp] theorem finish_stack (s : PromiseManager) (pid ret : ℤ) (later : Bool) :
    (s.finish pid ret later).stack = s.stack := by
  unfold finish
  split <;> rfl

/-- `complete` is called when there is one, and the settle ends. -/
theorem callComplete_end (s : PromiseManager) (pid : ℤ) (data : PromiseData) (ret : ℤ) (later : Bool) :
    (((s.callComplete pid data ret later).returnAbove s.stack.length).calls =
      (if data.defines .complete then [⟨pid,.complete,later⟩] else []) ++ s.calls) ∧
    ((s.callComplete pid data ret later).returnAbove s.stack.length).stack.length =
      s.stack.length := by
  unfold callComplete
  split_ifs with hcomplete
  · have hstack : (s.invoke .complete ⟨pid,data,.complete,ret,later⟩).stack.length = s.stack.length + 1 := rfl
    rw [returnAbove,if_pos (by omega)]
    constructor
    · simp [handlerReturn,invoke]
    · simp [handlerReturn,invoke]
  · have hstack : (s.finish pid ret later).stack.length = s.stack.length := by simp
    rw [returnAbove_of_stack hstack]
    exact ⟨by simp,hstack⟩

def settleCalls (data : PromiseData) (pid : ℤ) (how : Settle) (later : Bool) : List HandlerCall :=
  if data.defines how.handler && !data.argOk how then []
  else (if data.defines .complete then [⟨pid,.complete,later⟩] else []) ++
    (if data.defines how.handler then [⟨pid,how.handler,later⟩] else [])

theorem settleCalls_pid {later : Bool} {c : HandlerCall} (hc : c ∈ settleCalls data pid how later) : c.pid = pid := by
  have hcall : ∀ (called : Bool) (h : Handler),
      c ∈ (if called = true then [⟨pid,h,later⟩] else [] : List HandlerCall) → c.pid = pid := by
    intro called h hin
    split_ifs at hin
    · rw [List.mem_singleton.mp hin]
    · simp at hin
  unfold settleCalls at hc
  by_cases hstop : (data.defines how.handler && !data.argOk how) = true
  · rw [if_pos hstop] at hc
    simp at hc
  · rw [if_neg hstop,List.mem_append] at hc
    exact hc.elim (hcall _ _) (hcall _ _)

theorem settleToEnd_calls (h : t.Holds pid data) (how : Settle) : (t.settleToEnd pid how).calls =
      settleCalls data pid how (decide (pid ∈ t.attempted)) ++ t.calls := by
  obtain ⟨-,hget,hlive⟩ := h
  set later := decide (pid ∈ t.attempted) with hlater
  have hattempt : ∀ u : PromiseManager, u = t.attempt pid → u.promises = t.promises ∧
      u.stack = t.stack ∧ u.calls = t.calls ∧ u.live = t.live := by
    rintro u rfl
    unfold attempt
    split_ifs <;> exact ⟨rfl,rfl,rfl,rfl⟩
  obtain ⟨hpromises,hstack,hcalls,hlives⟩ := hattempt _ rfl
  unfold settleToEnd settle
  dsimp only
  rw [hpromises,hget]
  dsimp only
  rw [← hlater]
  set u := t.attempt pid
  by_cases hmain : data.defines how.handler = true
  · rw [if_pos hmain]
    by_cases harg : data.argOk how = true
    · -- the main handler runs, and the object is still alive when it returns
      rw [if_pos harg]
      have hlength : (u.invoke how.handler ⟨pid,data,.main,0,later⟩).stack.length = t.stack.length + 1 := by
        rw [← hstack]
        rfl
      have halive : u.live.any (fun entry => entry.2 == data.addr) = true := by
        rw [hlives,List.any_eq_true]
        exact ⟨(pid,data.addr),hlive,by simp⟩
      have hreturn : (u.invoke how.handler ⟨pid,data,.main,0,later⟩).returnAbove t.stack.length =
          { u with calls := ⟨pid,how.handler,later⟩ :: u.calls }.callComplete pid data 0 later := by
        rw [returnAbove,if_pos (by omega)]
        simp only [handlerReturn,invoke,halive,if_true]
      have hend := callComplete_end { u with calls := ⟨pid,how.handler,later⟩ :: u.calls } pid data
        0 later
      rw [hreturn,← hstack,hend.1]
      simp [settleCalls,hmain,harg,hcalls]
    · rw [if_neg harg]
      have hfin : (u.finish pid (-1) later).stack.length = t.stack.length := by
        rw [finish_stack,hstack]
      rw [returnAbove_of_stack hfin,returnAbove_of_stack hfin,finish_calls,hcalls]
      simp [settleCalls,hmain,harg]
  · rw [if_neg hmain]
    have hend := callComplete_end u pid data (-1) later
    rw [hstack] at hend
    rw [returnAbove_of_stack hend.2,hend.1,hcalls]
    simp [settleCalls,hmain]

/-- The counter of a run that met no undefined behaviour is in range. -/
theorem currPid_range (ops : List PromiseOp) (h : (Transition.run step {} ops).fault = false) :
    0 ≤ (Transition.run step {} ops).currPid ∧ (Transition.run step {} ops).currPid ≤ intMax := by
  have hfinish : ∀ (s : PromiseManager) pid ret later, (s.finish pid ret later).currPid = s.currPid := by
    intro s pid ret later
    unfold finish
    split <;> rfl
  have hcomplete : ∀ (s : PromiseManager) pid data ret later,
      (s.callComplete pid data ret later).currPid = s.currPid := by
    intro s pid data ret later
    unfold callComplete
    split_ifs
    · rfl
    · exact hfinish _ _ _ _
  have hregister : ∀ (s : PromiseManager) type kind, 0 ≤ s.currPid ∧ s.currPid ≤ intMax →
      (s.register type kind).fault = true ∨
        (0 ≤ (s.register type kind).currPid ∧ (s.register type kind).currPid ≤ intMax) := by
    intro s type kind hs
    by_cases hmax : s.currPid = intMax
    · exact .inl (by simp [register,hmax])
    · right
      have hnext : toInt (s.currPid + 1) = s.currPid + 1 := toInt_of_le (by omega) (by omega)
      simp only [register,hnext]
      omega
  have hstep : ∀ (s : PromiseManager) (op : PromiseOp), (s.fault = true ∨ (0 ≤ s.currPid ∧ s.currPid ≤ intMax)) →
      ((step s op).fault = true ∨ (0 ≤ (step s op).currPid ∧ (step s op).currPid ≤ intMax)) := by
    intro s op hs
    unfold step
    split_ifs with hfault
    · exact .inl hfault
    · have hrange := hs.resolve_left hfault
      cases op with
      | addPromise type initOk =>
        dsimp only
        split_ifs
        · exact hregister s type .promise hrange
        · exact .inr hrange
      | addAsyncCallbacks type success fail complete => exact hregister s type _ hrange
      | settle pid how =>
        right
        have hattempt : (s.attempt pid).currPid = s.currPid := by
          unfold attempt
          split_ifs <;> rfl
        have hsame : (s.settle pid how).currPid = s.currPid := by
          unfold settle
          dsimp only
          split
          · rw [hfinish,hattempt]
          · split_ifs
            · exact hattempt
            · rw [hfinish,hattempt]
            · rw [hcomplete,hattempt]
        rw [hsame]
        exact hrange
      | handlerReturn =>
        right
        have hsame : s.handlerReturn.currPid = s.currPid := by
          unfold handlerReturn
          split
          · rfl
          · dsimp only
            split
            · split_ifs
              · rw [hcomplete]
              · rfl
            · rw [hfinish]
        rw [hsame]
        exact hrange
      | releasePromises => exact .inr hrange
  have hinit : (({} : PromiseManager).fault = true) ∨
      (0 ≤ ({} : PromiseManager).currPid ∧ ({} : PromiseManager).currPid ≤ intMax) :=
    .inr ⟨le_rfl,by simp [intMax]⟩
  exact (Transition.run_invariant hstep hinit ops).resolve_left (by simp [h])

end PromiseManager

section Claim

theorem isObject_of_accepted (h : checkAsyncCallbacks ctx arg = 1) : JSContext.isObject arg = true := by
  unfold checkAsyncCallbacks at h
  by_contra hno
  rw [if_neg hno] at h
  omega

theorem keepsHandler_of_hasHandler {h : Handler} (hhas : hasHandler ctx arg h = true) :
    keepsHandler ctx arg h = true := by
  unfold hasHandler at hhas
  unfold keepsHandler
  cases hvalue : ctx.getProperty arg h.property <;> simp_all [JSContext.isFunction]

theorem invokedHandlers_settleCalls (ctx : JSContext) (arg : JSValue) (resolveType : FeatureType)
    (addr : ℕ) (pid : ℤ) (how : Settle) (later : Bool) :
    let data : PromiseData := ⟨addr,resolveType,.callbacks (keepsHandler ctx arg .success)
      (keepsHandler ctx arg .fail) (keepsHandler ctx arg .complete)⟩
    (invokedHandlers ctx arg (PromiseManager.settleCalls data pid how later) =
      expectedHandlers ctx arg how ↔ SettleReaches ctx arg resolveType how) := by
  intro data
  have hdefines : ∀ h, data.defines h = keepsHandler ctx arg h := by
    intro h
    cases h <;> rfl
  have hvoid : data.isVoid = resolveType.isVoid := by
    cases resolveType with
    | primitive p => cases p <;> rfl
    | _ => rfl
  have hdropped : ∀ h, ((if keepsHandler ctx arg h = true then [h] else []).filter
      (hasHandler ctx arg)) = [h].filter (hasHandler ctx arg) := by
    intro h
    by_cases hhas : hasHandler ctx arg h = true
    · rw [if_pos (keepsHandler_of_hasHandler hhas)]
    · split_ifs <;> simp [hhas]
  have hfull : ∀ main, invokedHandlers ctx arg
      ((if keepsHandler ctx arg .complete = true then [⟨pid,.complete,later⟩] else []) ++
        (if keepsHandler ctx arg main = true then [⟨pid,main,later⟩] else [])) =
      [main,.complete].filter (hasHandler ctx arg) := by
    intro main
    have hmap : (((if keepsHandler ctx arg .complete = true then [⟨pid,.complete,later⟩] else []) ++
        (if keepsHandler ctx arg main = true then [⟨pid,main,later⟩] else []) :
          List HandlerCall).reverse.map (·.handler)) =
        (if keepsHandler ctx arg main = true then [main] else []) ++
          (if keepsHandler ctx arg .complete = true then [.complete] else []) := by
      split_ifs <;> rfl
    rw [invokedHandlers,hmap,List.filter_append,hdropped,hdropped,← List.filter_append]
    rfl
  unfold PromiseManager.settleCalls SettleReaches
  rw [hdefines,hdefines]
  by_cases hstop : (keepsHandler ctx arg how.handler && !data.argOk how) = true
  · rw [if_pos hstop]
    rw [Bool.and_eq_true] at hstop
    obtain ⟨hkeeps,harg⟩ := hstop
    -- only a resolve whose value is refused stops before its handlers
    cases how with
    | reject => simp [PromiseData.argOk] at harg
    | resolve converts =>
      rw [PromiseData.argOk,hvoid] at harg
      simp only [Bool.not_or,Bool.and_eq_true,Bool.not_eq_true'] at harg
      obtain ⟨hnotvoid,rfl⟩ := harg
      have hkept : keepsHandler ctx arg .success = true := hkeeps
      simp only [hnotvoid,hkept,Bool.false_eq_true,Bool.true_eq_false,false_or,forall_const]
      simp only [invokedHandlers,expectedHandlers,Settle.handler,List.reverse_nil,List.map_nil,List.filter_nil]
      cases hsuccess : hasHandler ctx arg .success <;>
        cases hcomplete : hasHandler ctx arg .complete <;> simp [hsuccess,hcomplete]
  · rw [if_neg hstop,hfull]
    refine iff_of_true rfl (fun hhow => ?_)
    subst hhow
    simp only [PromiseData.argOk,hvoid,Bool.or_false,Bool.and_eq_true,Bool.not_eq_true',
      not_and,Bool.not_eq_false,Settle.handler] at hstop
    cases hkeeps : keepsHandler ctx arg .success with
    | true => exact .inl (hstop hkeeps)
    | false => exact .inr (.inl rfl)

/-- The convention is kept exactly when the object has a `success` or a `fail` function, the pid
counter is not exhausted, and a resolve whose value is refused finds nothing to invoke. -/
theorem keepsConvention_iff (ctx : JSContext) (arg : JSValue) (resolveType : FeatureType)
    (ops : List PromiseOp) (how : Settle) (haccepted : checkAsyncCallbacks ctx arg = 1)
    (hrun : (Transition.run PromiseManager.step {} ops).fault = false) :
    KeepsConvention ctx arg resolveType (Transition.run PromiseManager.step {} ops) how ↔
      hasSettleHandler ctx arg = true ∧
      (Transition.run PromiseManager.step {} ops).currPid < intMax ∧
      SettleReaches ctx arg resolveType how := by
  have hobject := isObject_of_accepted haccepted
  obtain ⟨hnonneg,hle⟩ := PromiseManager.currPid_range ops hrun
  generalize Transition.run PromiseManager.step {} ops = s at hrun hnonneg hle ⊢
  cases hsettle : hasSettleHandler ctx arg with
  | false =>
    have hadd : addAsyncCallbacks ctx arg resolveType s = (-1,s) := by
      rw [addAsyncCallbacks,hsettle,Bool.and_false]
      rfl
    refine iff_of_false (fun h => ?_) (by simp)
    have := h.live.1
    rw [hadd] at this
    omega
  | true =>
    set data : PromiseData := ⟨s.nextAddr,resolveType,.callbacks (keepsHandler ctx arg .success)
      (keepsHandler ctx arg .fail) (keepsHandler ctx arg .complete)⟩ with hdata
    have hadd : addAsyncCallbacks ctx arg resolveType s = (s.currPid,s.register resolveType data.kind) := by
      rw [addAsyncCallbacks,hsettle,hobject]
      rfl
    have hget : (s.register resolveType data.kind).promises[s.currPid]? = some data :=
      Std.TreeMap.getElem?_insert_self
    by_cases hmax : s.currPid = intMax
    · refine iff_of_false (fun h => ?_) (by omega)
      obtain ⟨-,d,hfault,-⟩ := h.live
      rw [hadd] at hfault
      simp [PromiseManager.register,hmax] at hfault
    · have hholds : (s.register resolveType data.kind).Holds s.currPid data := by
        refine ⟨?_,hget,List.mem_cons_self⟩
        simp [PromiseManager.register,hmax]
      have hreach := invokedHandlers_settleCalls ctx arg resolveType s.nextAddr s.currPid how
      constructor
      · intro h
        refine ⟨rfl,by omega,?_⟩
        obtain ⟨calls,hcalls,-,hinvoked⟩ := h.settles (s.register resolveType data.kind) data
          (by rw [hadd]; exact hget) (by rw [hadd]; exact hholds)
        rw [hadd] at hcalls
        have hend := PromiseManager.settleToEnd_calls hholds how
        rw [hend] at hcalls
        rw [← List.append_cancel_right hcalls] at hinvoked
        exact (hreach _).mp hinvoked
      · rintro ⟨-,hlt,hreaches⟩
        refine ⟨?_,?_⟩
        · rw [hadd]
          exact ⟨hnonneg,data,hholds⟩
        · intro t d hd ht
          rw [hadd] at hd ht ⊢
          obtain rfl : data = d := Option.some.inj (hget.symm.trans hd)
          exact ⟨_,PromiseManager.settleToEnd_calls ht how,
            fun c hc => PromiseManager.settleCalls_pid hc,(hreach _).mpr hreaches⟩

end Claim

end Settle

/-- An engine with one object, whose `success` and `complete` properties are the functions 1 and 3. -/
def successObject : JSContext :=
  { JSContext.ofProperties (fun _ name => if name = "success" then .object 1
      else if name = "complete" then .object 3 else .undefined) with
    functionObject := fun id => id ≠ 0 }

theorem keepsConvention_of_success : KeepsConvention successObject (.object 0) (.primitive .int) {} (.resolve true) :=
  (keepsConvention_iff successObject (.object 0) (.primitive .int) [] (.resolve true) (by decide)
    rfl).mpr ⟨by decide,by decide,fun h => by simp at h⟩

/-- An object with a `complete` function alone is accepted, but the call gets the pid -1. -/
theorem complete_alone_not_registered :
    checkAsyncCallbacks { JSContext.ofProperties (fun _ name =>
        if name = "complete" then .object 3 else .undefined) with functionObject := fun _ => true }
      (.object 0) = 1 ∧
    ¬KeepsConvention { JSContext.ofProperties (fun _ name =>
        if name = "complete" then .object 3 else .undefined) with functionObject := fun _ => true }
      (.object 0) (.primitive .int) {} (.resolve true) := by
  refine ⟨by decide,fun h => ?_⟩
  have := h.live.1
  simp [addAsyncCallbacks,hasSettleHandler,JSContext.getProperty,JSContext.ofProperties,JSContext.isFunction] at this

end FeatureRuntime
