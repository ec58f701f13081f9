import FeatureRuntime.ProtoReflection

/-! `convertOptional` and `convertValueToNative`: filling a slot from the default of an optional
type or from a JS value. -/
namespace FeatureRuntime

/-- What a conversion runs in: the target, the engine, `malloc`, and the instances that are alive,
each with the description of the interface it implements. Only requests whose size the application
chooses freely are taken to fail. -/
structure Env where
  platform : Platform
  js : JSContext
  canMalloc : ℕ → Bool
  instances : ℕ → Option ℕ

def Env.ofEngine (platform : Platform) (js : JSContext) : Env where
  platform := platform
  js := js
  canMalloc _ := true
  instances _ := none

/-- A store of `width` bytes into a slot; `none` is all zero. -/
structure Store where
  width : ℕ
  value : Option Native

/-- The outcome of a conversion: its return value and what it stored into the slot last. -/
structure Converted where
  ok : Bool
  store : Option Store
  state : ConvertState

namespace Converted

def content (r : Converted) : Option Native := r.store.bind (·.value)

def fail (st : ConvertState) : Converted := ⟨false,none,st⟩

def stored (width : ℕ) (value : Option Native) (st : ConvertState) : Converted :=
  ⟨true,some ⟨width,value⟩,st⟩

end Converted

def narrow (bits : ℕ) (signed : Bool) (value : ℤ) : ℤ :=
  if signed then value.bmod (2 ^ bits) else value % 2 ^ bits

/-- `value_translator::toNative` for the numeric types and booleans. -/
def toNative (type : PrimitiveType) (target : JSValue) : Option Native :=
  match type, target with
  | .boolean, .bool value => some (.bool value)
  | .int, .number (.int value) | .int32, .number (.int value) => some (.int value)
  | .int8, .number (.int value) => some (.int (narrow 8 true value))
  | .int16, .number (.int value) => some (.int (narrow 16 true value))
  | .uint8, .number n => some (.int (narrow 8 false n.toUint32))
  | .uint16, .number n => some (.int (narrow 16 false n.toUint32))
  | .uint32, .number n => some (.int n.toUint32)
  | .int64, .number n => some (.int n.toInt64)
  | .uint64, .number n => n.toIndex.map .int
  | .float, .number n => some (.float n)
  | .double, .number n => some (.double n)
  | _, _ => none

def constantOf (ptr : ℕ) : Option Native := if ptr = 0 then none else some (.constant ptr)

def convertOptional (P : Platform) (type : FeatureType) (value : OptionalValue) (st : ConvertState) : Converted :=
  match type with
  | .primitive p =>
    match p with
    | .boolean => .stored 1 (some (.bool (value.ival != 0))) st
    | .int => .stored 4 (some (.int value.ival)) st
    | .int64 => .stored 8 (some (.int value.lval)) st
    | .uint32 => .stored 4 (some (.int value.uval)) st
    | .uint64 => .stored 8 (some (.int value.ulval)) st
    | .float => .stored 4 (some (.float (.float64 value.fval))) st
    | .double => .stored 8 (some (.double (.float64 value.fval))) st
    | .string =>
      match value.str with
      | none => ⟨true,none,st⟩
      | some str => .stored P.pointerSize (some (.string st.nextBlock str)) st.alloc
    | .anyRef | .jsonObj => .stored P.pointerSize (constantOf value.ptr) st
    | _ => .fail st
  | _ => .stored P.pointerSize (constantOf value.ptr) st

/-- The bytes `convertValueToNative` stores for a numeric type. -/
def PrimitiveType.storeSize : PrimitiveType → ℕ
  | .boolean | .int8 | .uint8 => 1
  | .int16 | .uint16 => 2
  | .int | .int32 | .uint32 | .float => 4
  | _ => 8

/-- `convertValueToNative` on a primitive type. -/
def convertPrimitive (E : Env) (type : PrimitiveType) (target : JSValue) (st : ConvertState) :
    Converted :=
  let null := Converted.stored E.platform.pointerSize none st
  match type with
  | .void => .fail st
  | .string =>
    if JSContext.isNullish target then null
    else
      match target with
      | .string text => .stored E.platform.pointerSize
          (some (.string st.nextBlock (cString text))) st.alloc
      | _ => .fail st
  | .anyRef =>
    if JSContext.isNullish target then null
    else .stored E.platform.pointerSize (some (.anyRef st.nextBlock target)) st.alloc
  | .jsonObj =>
    if JSContext.isNullish target then null
    else
      match target with
      | .object id =>
        match E.js.jsonStringify id with
        | some text => .stored E.platform.pointerSize (some (.jsonObj st.nextBlock text)) st.alloc
        | none => null
      | _ => .fail st
  | .arrayBuffer =>
    if JSContext.isNullish target then null
    else if E.js.isArrayBuffer target then
      .stored E.platform.pointerSize (some (.arrayBuffer st.nextBlock target)) st.alloc
    else { null with ok := false }
  | type =>
    match toNative type target with
    | some value => .stored type.storeSize (some value) st
    | none => .fail st

/-- `FT_IS_REFERENCE(elem_type) ? sizeof(uintptr_t) : getValueSize(elem_type)`. -/
def elementSize (P : Platform) (elementType : FeatureType) : ℕ :=
  if elementType.isReference then P.pointerSize else getValueSize P elementType

/-- The size of the element buffer as a `size_t`. -/
def bufferSize (P : Platform) (elementType : FeatureType) (asize : ℕ) : ℕ :=
  elementSize P elementType * asize % 2 ^ (8 * P.pointerSize)

/-- The loop over struct members: the log of the writes so far, newest first. -/
structure StructFill where
  ok : Bool
  memory : List (Write Native)
  state : ConvertState

/-- The write of a conversion into the member at `offset`. -/
def Converted.writeAt (r : Converted) (offset : ℕ) (memory : List (Write Native)) : List (Write Native) :=
  match r.store with
  | some store => ⟨offset,store.width,store.value⟩ :: memory
  | none => memory

/-- A struct member that the object lacks: an optional one takes its default, a basic one other
than `any`, string and JSON object is refused, and the rest are converted from undefined. -/
inductive MissingField
  | default (type : FeatureType) (value : OptionalValue)
  | refused
  | converted

def missingField : FeatureType → MissingField
  | .optional type value => .default type value
  | .primitive .anyRef | .primitive .string | .primitive .jsonObj => .converted
  | .primitive _ => .refused
  | _ => .converted

def memberSource (E : Env) (name : String) (type : FeatureType) (target : JSValue) : MissingField :=
  if E.js.getProperty target name = .undefined then missingField type else .converted

def convertMember (E : Env) (convert : JSValue → Slot Native → ConvertState → Converted)
    (name : String) (type : FeatureType) (offset : ℕ) (target : JSValue)
    (memory : List (Write Native)) (st : ConvertState) : StructFill :=
  match memberSource E name type target with
  | .default type value =>
    let r := convertOptional E.platform type value st
    ⟨r.ok,r.writeAt offset memory,r.state⟩
  | .refused => ⟨false,memory,st⟩
  | .converted =>
    let r := convert (E.js.getProperty target name) (load memory offset E.platform.pointerSize) st
    ⟨r.ok,r.writeAt offset memory,r.state⟩

/-- The loop over the elements, whose slots are `width` bytes wide; the block has `room` bytes left. -/
def convertElements (width : ℕ) (convert : JSValue → Slot Native → ConvertState → Converted) :
    List JSValue → ℕ → ConvertState → Bool × List (Option Native) × ConvertState
  | [], _, st => (true,[],st)
  | value :: values, room, st =>
    let r := convert value .zero ((st.check (value != .undefined)).place (width ≤ room))
    if r.ok then
      let rest := convertElements width convert values (room - width) r.state
      (rest.1,r.content :: rest.2.1,rest.2.2)
    else (false,r.content :: values.map (fun _ => none),r.state)

/-- The `FtArray` to fill: a new one behind a null slot, else the one in the slot. A slot that holds
anything else is written through blindly. -/
def arrayTarget (slot : Slot Native) (st : ConvertState) : ℕ × ConvertState :=
  match slot with
  | .zero => (st.nextBlock,st.alloc)
  | .value (.array id ..) => (id,st)
  | _ => (st.nextBlock,st.report .wildWrite)

/-- The element buffer: its size is checked, allocated, and cleared even where `malloc` failed. -/
def ConvertState.mallocBuffer (st : ConvertState) (E : Env) (size : ℕ) : ConvertState :=
  let st := st.check (size != 0)
  (if E.canMalloc size then st else st.report .nullDereference).alloc

/-- `COMPLEX_ARRAY`, given the conversion of the element type. -/
def convertArray (E : Env) (elementType : FeatureType)
    (convert : JSValue → Slot Native → ConvertState → Converted) (target : JSValue)
    (slot : Slot Native) (st : ConvertState) : Converted :=
  if JSContext.isNullish target then .stored E.platform.pointerSize none st
  else if E.js.isArray target then
    let asize := E.js.arraySize target
    let new := arrayTarget slot st
    if asize = 0 then
      .stored E.platform.pointerSize (some (.array new.1 elementType 0 none [])) new.2
    else
      let size := bufferSize E.platform elementType asize
      let r := convertElements (elementSize E.platform elementType) convert
        ((List.range asize).map (E.js.arrayGet target)) size (new.2.mallocBuffer E size)
      ⟨r.1,some ⟨E.platform.pointerSize,
        some (.array new.1 elementType (toInt asize) (some new.2.nextBlock) r.2.1)⟩,r.2.2⟩
  else .fail st

/-- `COMPLEX_INTERFACE`: whatever instance the value belongs to. -/
def convertInterface (E : Env) (desc : ℕ) (target : JSValue) (st : ConvertState) : Converted :=
  let handle := E.js.interfaceFromTarget target
  .stored E.platform.pointerSize (handle.map .instance)
    ((st.check handle.isSome).report (.interfaceStored desc handle))

/-- `COMPLEX_CALLBACK`. -/
def convertCallback (E : Env) (type : CallbackType) (target : JSValue) (st : ConvertState) :
    Converted :=
  if JSContext.isNullish target then ⟨true,none,st⟩
  else if E.js.isFunction target then
    let r := st.callbacks.addCallback target type
    .stored 4 (some (.callback r.1)) { st with callbacks := r.2 }
  else .fail st

/-- `COMPLEX_PROTOBUF`: a message that was refused leaves the slot null. -/
def convertProtobuf (E : Env) (desc : MessageDescriptor) (target : JSValue) (st : ConvertState) :
    Converted :=
  let r := protoToNative E.platform E.js desc target st
  .stored E.platform.pointerSize (r.content.map .protobuf) r.state

mutual

/-- `convertValueToNative` into a slot with the given content. -/
def convertValueToNative (E : Env) : FeatureType → JSValue → Slot Native → ConvertState → Converted
  | .primitive type, target, _, st => convertPrimitive E type target st
  | .structMap _ members, target, slot, st =>
    if JSContext.isNullish target then ⟨true,none,st⟩
    else if E.js.isPlainObject target then
      -- a null slot gets a new block; a slot with another pointer is written through as it is
      match slot with
      | .zero =>
        let r := convertMembers E members target [] st.alloc
        ⟨r.ok,some ⟨E.platform.pointerSize,some (.structMap st.nextBlock members r.memory)⟩,r.state⟩
      | .value (.structMap id old memory) =>
        let r := convertMembers E members target memory st
        ⟨r.ok,some ⟨E.platform.pointerSize,some (.structMap id old r.memory)⟩,r.state⟩
      | _ =>
        let r := convertMembers E members target [] (st.report .wildWrite)
        ⟨r.ok,none,r.state⟩
    else .fail st
  | .optional type _, target, slot, st => convertValueToNative E type target slot st
  | .callback parameters hasRest, target, _, st =>
    convertCallback E ⟨parameters,hasRest⟩ target st
  | .array elementType, target, slot, st =>
    convertArray E elementType (convertValueToNative E elementType) target slot st
  | .promise _, _, _, st => .fail st
  | .interface desc, target, _, st => convertInterface E desc target st
  | .protobuf desc, target, _, st => convertProtobuf E desc target st

def convertMembers (E : Env) : List (ObjectMember FeatureType) → JSValue →
    List (Write Native) → ConvertState → StructFill
  | [], _, memory, st => ⟨true,memory,st⟩
  | ⟨name,type,offset⟩ :: members, target, memory, st =>
    let r := convertMember E (convertValueToNative E type) name type offset target memory st
    if r.ok then convertMembers E members target r.memory r.state else r

end

def memberFill (E : Env) (m : ObjectMember FeatureType) (target : JSValue)
    (memory : List (Write Native)) (st : ConvertState) : StructFill :=
  convertMember E (convertValueToNative E m.type) m.name m.type m.offset target memory st

theorem convertMembers_cons (E : Env) (m : ObjectMember FeatureType)
    (members : List (ObjectMember FeatureType)) (target : JSValue) (memory : List (Write Native))
    (st : ConvertState) :
    convertMembers E (m :: members) target memory st =
      if (memberFill E m target memory st).ok then
        convertMembers E members target (memberFill E m target memory st).memory
          (memberFill E m target memory st).state
      else memberFill E m target memory st := rfl

/-- `convertOptional` returns true. -/
def defaultConverts : FeatureType → Bool
  | .primitive p =>
    match p with
    | .boolean | .int | .int64 | .uint32 | .uint64 | .float | .double | .string | .anyRef
    | .jsonObj => true
    | _ => false
  | _ => true

def convertsPrimitive (E : Env) (type : PrimitiveType) (target : JSValue) : Bool :=
  match type with
  | .void => false
  | .string => JSContext.isNullish target || JSContext.isString target
  | .anyRef => true
  | .jsonObj => JSContext.isNullish target || JSContext.isObject target
  | .arrayBuffer => JSContext.isNullish target || E.js.isArrayBuffer target
  | type => (toNative type target).isSome

def memberConverts (E : Env) (accepts : JSValue → Bool) (name : String) (type : FeatureType)
    (target : JSValue) : Bool :=
  match memberSource E name type target with
  | .default type _ => defaultConverts type
  | .refused => false
  | .converted => accepts (E.js.getProperty target name)

mutual

/-- The values that a type accepts: when `convertValueToNative` returns true. -/
def converts (E : Env) : FeatureType → JSValue → Bool
  | .primitive type, target => convertsPrimitive E type target
  | .structMap _ members, target =>
    JSContext.isNullish target || E.js.isPlainObject target && convertsMembers E members target
  | .optional type _, target => converts E type target
  | .callback .., target => JSContext.isNullish target || E.js.isFunction target
  | .array elementType, target =>
    JSContext.isNullish target || E.js.isArray target && (List.range (E.js.arraySize target)).all
        (fun i => converts E elementType (E.js.arrayGet target i))
  | .promise _, _ => false
  | .interface _, _ => true
  | .protobuf _, _ => true

def convertsMembers (E : Env) : List (ObjectMember FeatureType) → JSValue → Bool
  | [], _ => true
  | ⟨name,type,_⟩ :: members, target =>
    memberConverts E (converts E type) name type target && convertsMembers E members target

end

def memberAccepts (E : Env) (m : ObjectMember FeatureType) (target : JSValue) : Bool :=
  memberConverts E (converts E m.type) m.name m.type target

theorem convertsMembers_cons (E : Env) (m : ObjectMember FeatureType)
    (members : List (ObjectMember FeatureType)) (target : JSValue) :
    convertsMembers E (m :: members) target = (memberAccepts E m target && convertsMembers E members target) := rfl

section Acceptance

variable (E : Env)

theorem convertOptional_ok (P : Platform) (type : FeatureType) (value : OptionalValue)
    (st : ConvertState) : (convertOptional P type value st).ok = defaultConverts type := by
  cases type with
  | primitive p =>
    cases p with
    | string => cases h : value.str <;> simp [convertOptional,h,defaultConverts,Converted.stored]
    | _ => rfl
  | _ => rfl

theorem convertPrimitive_ok (type : PrimitiveType) (target : JSValue) (st : ConvertState) :
    (convertPrimitive E type target st).ok = convertsPrimitive E type target := by
  cases hnull : JSContext.isNullish target with
  | true =>
    rcases JSContext.isNullish_iff.mp hnull with rfl | rfl <;> cases type <;> rfl
  | false =>
    cases type with
    | void => rfl
    | string => cases target <;> simp_all [convertPrimitive,convertsPrimitive,Converted.stored,
        Converted.fail,JSContext.isString]
    | anyRef => simp [convertPrimitive,convertsPrimitive,hnull,Converted.stored]
    | jsonObj =>
      cases target with
      | object id =>
        cases hjson : E.js.jsonStringify id <;> simp [convertPrimitive,convertsPrimitive,hnull,hjson,Converted.stored,
            JSContext.isObject]
      | _ => simp_all [convertPrimitive,convertsPrimitive,Converted.fail,JSContext.isObject]
    | arrayBuffer =>
      cases hbuf : E.js.isArrayBuffer target <;> simp [convertPrimitive,convertsPrimitive,hnull,hbuf,Converted.stored]
    | _ =>
      simp only [convertPrimitive,convertsPrimitive]
      split <;> simp_all [Converted.stored,Converted.fail]

variable {E}

theorem convertMember_ok {convert : JSValue → Slot Native → ConvertState → Converted}
    {accepts : JSValue → Bool} (h : ∀ v slot st, (convert v slot st).ok = accepts v)
    (name : String) (type : FeatureType) (offset : ℕ) (target : JSValue)
    (memory : List (Write Native)) (st : ConvertState) :
    (convertMember E convert name type offset target memory st).ok =
      memberConverts E accepts name type target := by
  unfold convertMember memberConverts
  cases memberSource E name type target <;> simp [h,convertOptional_ok]

theorem convertElements_ok {convert : JSValue → Slot Native → ConvertState → Converted}
    {accepts : JSValue → Bool} (h : ∀ v slot st, (convert v slot st).ok = accepts v)
    (width : ℕ) (values : List JSValue) (room : ℕ) (st : ConvertState) :
    (convertElements width convert values room st).1 = values.all accepts := by
  induction values generalizing room st with
  | nil => rfl
  | cons v values ih =>
    simp only [convertElements,List.all_cons,h]
    cases hv : accepts v <;> simp [ih]

theorem convertMembers_ok {members : List (ObjectMember FeatureType)}
    (h : ∀ m ∈ members, ∀ v slot st, (convertValueToNative E m.type v slot st).ok = converts E m.type v)
    (target : JSValue) (memory : List (Write Native)) (st : ConvertState) :
    (convertMembers E members target memory st).ok = convertsMembers E members target := by
  induction members generalizing memory st with
  | nil => rfl
  | cons m members ih =>
    have hm : (memberFill E m target memory st).ok = memberAccepts E m target :=
      convertMember_ok (h m List.mem_cons_self) m.name m.type m.offset target memory st
    have hrest := fun memory st => ih (fun m hm => h m (List.mem_cons_of_mem _ hm)) memory st
    rw [convertMembers_cons,convertsMembers_cons,← hm]
    split_ifs with hok
    · rw [hok,hrest,Bool.true_and]
    · simp [hok]

/-- Whether a conversion succeeds depends on the type and the value alone. -/
theorem convertValueToNative_ok (type : FeatureType) (target : JSValue) (slot : Slot Native)
    (st : ConvertState) : (convertValueToNative E type target slot st).ok = converts E type target := by
  induction type using FeatureType.induction generalizing target slot st with
  | primitive p => exact convertPrimitive_ok E p target st
  | structMap size members ih =>
    simp only [convertValueToNative,converts]
    cases JSContext.isNullish target with
    | true => rfl
    | false =>
      cases E.js.isPlainObject target with
      | false => rfl
      | true =>
        simp only [Bool.false_eq_true,if_false,if_true,Bool.false_or,Bool.true_and]
        rw [← convertMembers_ok ih target [] st]
        split <;> simp [convertMembers_ok ih]
  | optional t v ih => exact ih target slot st
  | callback ps rest =>
    simp only [convertValueToNative,convertCallback,converts]
    cases JSContext.isNullish target <;> cases E.js.isFunction target <;> rfl
  | array t ih =>
    simp only [convertValueToNative,convertArray,converts]
    cases JSContext.isNullish target with
    | true => rfl
    | false =>
      cases E.js.isArray target with
      | false => rfl
      | true =>
        simp only [Bool.false_eq_true,if_false,if_true,Bool.false_or,Bool.true_and]
        split_ifs with hsize
        · simp [hsize,Converted.stored]
        · rw [convertElements_ok ih,List.all_map]
          rfl
  | promise t => rfl
  | interface d => rfl
  | protobuf d => rfl

theorem memberFill_ok (m : ObjectMember FeatureType) (target : JSValue)
    (memory : List (Write Native)) (st : ConvertState) :
    (memberFill E m target memory st).ok = memberAccepts E m target :=
  convertMember_ok (convertValueToNative_ok m.type) m.name m.type m.offset target memory st

theorem convertMembers_ok_eq (members : List (ObjectMember FeatureType)) (target : JSValue)
    (memory : List (Write Native)) (st : ConvertState) :
    (convertMembers E members target memory st).ok = convertsMembers E members target :=
  convertMembers_ok (fun m _ => convertValueToNative_ok m.type) target memory st

end Acceptance
end FeatureRuntime
