import FeatureRuntime.Convertor

/-! `methodCall` and `accessorSet`: the entry points that convert JS arguments and run a stub. -/
namespace FeatureRuntime

inductive RetCode
  | ok | argsCountErr | argsTypeErr | internalErr
  deriving DecidableEq, Repr

/-- `checkAsyncCallbacks`: -1 for a handler that is no function, 1 when there is a handler. -/
def checkAsyncCallbacks (ctx : JSContext) (arg : JSValue) : ℤ :=
  if JSContext.isObject arg then
    let handlers := ["success","fail","complete"].map (ctx.getProperty arg)
    if handlers.any (fun cb => !JSContext.isNullish cb && !ctx.isFunction cb) then -1
    else if handlers.any ctx.isFunction then 1
    else 0
  else 0

/-- `addAsyncCallbacks` finds a handler that a settled promise can call. -/
def hasSettleHandler (ctx : JSContext) (arg : JSValue) : Bool :=
  ctx.isFunction (ctx.getProperty arg "success") || ctx.isFunction (ctx.getProperty arg "fail")

def clearAsyncCallbacks (ctx : JSContext) (arg : JSValue) : JSContext :=
  ((ctx.setProperty arg "success" .undefined).setProperty arg "fail" .undefined).setProperty arg "complete" .undefined

inductive CallStyle
  | plain
  | promise
  | callbacks (arg : JSValue)
  /-- The last argument has a handler that is no function. -/
  | invalid

def callStyle (ctx : JSContext) (method : MemberMethod) (argv : List JSValue) : CallStyle :=
  if method.returnType.isPromise then
    match argv.getLast? with
    | none => .promise
    | some arg =>
      if checkAsyncCallbacks ctx arg = -1 then .invalid
      else if checkAsyncCallbacks ctx arg = 1 then .callbacks arg
      else .promise
  else .plain

namespace CallStyle

/-- The promise id of a call, when the next id of the instance is `nextPid`. -/
def pid (ctx : JSContext) (nextPid : ℕ) : CallStyle → ℤ
  | .callbacks arg => if hasSettleHandler ctx arg then nextPid else -1
  | _ => nextPid

def engine (E : Env) : CallStyle → Env
  | .callbacks arg => { E with js := clearAsyncCallbacks E.js arg }
  | _ => E

/-- `is_promise && !use_promise`. -/
def takesCallbacks : CallStyle → Bool
  | .callbacks _ => true
  | _ => false

end CallStyle

def countFits (method : MemberMethod) (style : CallStyle) (argc : ℕ) : Bool :=
  let fixedArgc := method.parameters.length
  let optArgc := optionalCount method.parameters
  if method.hasRest then fixedArgc ≤ argc
  else if 0 < optArgc then fixedArgc ≤ argc + optArgc
  else argc = fixedArgc || style.takesCallbacks

/-- The parameter slots filled so far, and whether filling went on to the end. -/
structure ArgFill where
  ok : Bool
  slots : List (Option Native)
  state : ConvertState

def convertArgs (E : Env) : List FeatureType → List JSValue → ConvertState → ArgFill
  | type :: types, arg :: args, st =>
    if type.isPromise then ⟨false,[none],st⟩
    else
      let r := convertValueToNative E type arg .zero st
      if r.ok then
        let rest := convertArgs E types args r.state
        ⟨rest.ok,r.content :: rest.slots,rest.state⟩
      else ⟨false,[r.content],r.state⟩
  | _, _, st => ⟨true,[],st⟩

/-- The loop over the parameters without argument. What follows a parameter that is not optional is
undefined. -/
def fillDefaults (P : Platform) : List FeatureType → ConvertState → ArgFill
  | .optional type value :: types, st =>
    let r := convertOptional P type value st
    if r.ok then
      let rest := fillDefaults P types r.state
      ⟨rest.ok,r.content :: rest.slots,rest.state⟩
    else ⟨false,[r.content],r.state⟩
  | _ :: _, st => ⟨false,[],st.check false⟩
  | [], st => ⟨true,[],st⟩

/-- All parameter slots of a call. Defaults are filled in for parameter lists with optional
parameters and without a rest. -/
def prepareArgs (E : Env) (method : MemberMethod) (argv : List JSValue) (st : ConvertState) :
    ArgFill :=
  let given := convertArgs E method.parameters argv st
  if given.ok && !method.hasRest && 0 < optionalCount method.parameters then
    let rest := fillDefaults E.platform (method.parameters.drop argv.length) given.state
    ⟨rest.ok,given.slots ++ rest.slots,rest.state⟩
  else given

def freeMethodArgs (P : Platform) (types : List FeatureType) (slots : List (Option Native)) :
    List FreeEvent :=
  (types.zip slots).flatMap (fun entry =>
    if entry.1.needFree then (entry.2.map (Native.freeValue P)).getD [] else [])

/-- What an entry of `ffi_arg_buf` points to. -/
inductive ArgSlot
  | promiseId (pid : ℤ)
  | param (content : Option Native)
  | variParams (args : List JSValue)

/-- `ffi_arg_buf` as the stub gets it; `none` is a null entry. Its length counts the optional
parameters twice. -/
def argBuffer (method : MemberMethod) (pid : ℤ) (argv : List JSValue)
    (slots : List (Option Native)) : List (Option ArgSlot) :=
  (if method.returnType.isPromise then [some (.promiseId pid)] else []) ++
  slots.map (fun content => some (.param content)) ++
  List.replicate (method.parameters.length - slots.length) none ++
  (if method.hasRest then [some (.variParams (argv.drop method.parameters.length))] else []) ++
  List.replicate (optionalCount method.parameters) none

structure StubResult where
  converts : Bool
  exception : Bool

def FeatureType.isVoid : FeatureType → Bool
  | .primitive .void => true
  | _ => false

def StubResult.code (stub : StubResult) (returnType : FeatureType) : RetCode :=
  if !returnType.isPromise && !returnType.isVoid && !stub.converts then .internalErr
  else if stub.exception then .internalErr
  else .ok

/-- The outcome of a call: the returned code, the ids passed to `rejectPromise`, and the argument
buffers of the stub calls. -/
structure CallOutcome where
  code : RetCode
  rejected : List ℤ
  stubCalls : List (List (Option ArgSlot))
  state : ConvertState

/-- `HANDLE_ERROR_AND_RETURN`. -/
def handleError (method : MemberMethod) (pid : ℤ) (code : RetCode) (st : ConvertState) :
    CallOutcome :=
  if method.returnType.isPromise then ⟨.ok,[pid],[],st⟩ else ⟨code,[],[],st⟩

/-- `methodCall` after the argument count was found to fit. -/
def callStub (E : Env) (method : MemberMethod) (argv : List JSValue) (pid : ℤ) (stub : StubResult)
    (st : ConvertState) : CallOutcome :=
  let args := prepareArgs E method argv st
  let freed := args.state.free (freeMethodArgs E.platform method.parameters args.slots)
  if args.ok then
    ⟨stub.code method.returnType,[],[argBuffer method pid argv args.slots],freed⟩
  else handleError method pid .argsTypeErr freed

/-- `methodCall`. The stub only reads its arguments here; what it returns is freed by its own type. -/
def methodCall (E : Env) (method : MemberMethod) (argv : List JSValue) (nextPid : ℕ)
    (stub : StubResult) (st : ConvertState) : CallOutcome :=
  match callStyle E.js method argv with
  | .invalid => ⟨.argsTypeErr,[],[],st⟩
  | style =>
    let pid := style.pid E.js nextPid
    if countFits method style argv.length then callStub (style.engine E) method argv pid stub st
    else handleError method pid .argsCountErr st

structure AccessorOutcome where
  code : RetCode
  stubCalls : List (Option Native)
  state : ConvertState

def accessorSet (E : Env) (type : FeatureType) (value : JSValue) (st : ConvertState) :
    AccessorOutcome :=
  let r := convertValueToNative E type value .zero st
  if r.ok then
    ⟨.ok,[r.content],r.state.free (freeMethodArgs E.platform [type] [r.content])⟩
  else ⟨.argsTypeErr,[],r.state⟩

end FeatureRuntime
