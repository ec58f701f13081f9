import FeatureRuntime.ArgumentCompleteness
import FeatureRuntime.ConversionChecks
import FeatureRuntime.ProtoOwnership
import FeatureRuntime.StructLayout

/-! Who frees the blocks of a conversion: after a call or an assignment every block that the
conversions made has been freed exactly once, except for the values named here. -/
namespace FeatureRuntime
open FreeLog ConvertState

def FeatureType.hasPointerDefault : FeatureType → Bool
  | .primitive .anyRef | .primitive .jsonObj => true
  | .primitive _ => false
  | _ => true

/-- The descriptors that the generator emits: structs and messages have the layout of their C types,
no optional header stands below another one, and pointer defaults are null. -/
inductive WellFormed (P : Platform) : FeatureType → Prop
  | primitive (p : PrimitiveType) : WellFormed P (.primitive p)
  | structMap {size : ℕ} {members : List (ObjectMember FeatureType)}
      (layout : StructLayout P size members) (types : ∀ m ∈ members, WellFormed P m.type) :
      WellFormed P (.structMap size members)
  | optional {t : FeatureType} {value : OptionalValue} (type : WellFormed P t)
      (single : t.isOptional = false) (null : t.hasPointerDefault = true → value.ptr = 0) :
      WellFormed P (.optional t value)
  | callback (parameters : List FeatureType) (hasRest : Bool) :
      WellFormed P (.callback parameters hasRest)
  | array {t : FeatureType} (elementType : WellFormed P t) : WellFormed P (.array t)
  | promise (t : FeatureType) : WellFormed P (.promise t)
  | interface (desc : ℕ) : WellFormed P (.interface desc)
  | protobuf {desc : MessageDescriptor} (layout : MessageLayout desc) : WellFormed P (.protobuf desc)

def makesBlock (E : Env) : FeatureType → JSValue → Bool
  | .primitive p, target =>
    match p with
    | .string => JSContext.isString target
    | .anyRef => !JSContext.isNullish target
    | .jsonObj =>
      match target with
      | .object id => (E.js.jsonStringify id).isSome
      | _ => false
    | .arrayBuffer => E.js.isArrayBuffer target
    | _ => false
  | .structMap .., target => E.js.isPlainObject target
  | .optional t _, target => makesBlock E t target
  | .array _, target => E.js.isArray target
  | .protobuf desc, target => (messageEffect E.js desc target).accepted
  | _, _ => false

def elementsReached (E : Env) (type : FeatureType) : List JSValue → List JSValue
  | [] => []
  | value :: values =>
    if converts E type value then value :: elementsReached E type values else [value]

def arrayElements (E : Env) (target : JSValue) : List JSValue :=
  (List.range (E.js.arraySize target)).map (E.js.arrayGet target)

def memberClean (E : Env) (accepts : JSValue → Bool) (name : String) (type : FeatureType) (target : JSValue) : Bool :=
  match memberSource E name type target with
  | .converted => accepts (E.js.getProperty target name)
  | _ => true

mutual

/-- The values whose blocks are all freed exactly once, if what the conversion leaves in its slot is
freed: no array with more elements than an `int` counts has an element with a block, and every
protobuf message is balanced. -/
def clean (E : Env) : FeatureType → JSValue → Bool
  | .primitive _, _ => true
  | .structMap _ members, target => !E.js.isPlainObject target || cleanMembers E members target
  | .optional type _, target => clean E type target
  | .callback .., _ => true
  | .array elementType, target =>
    let reached := elementsReached E elementType (arrayElements E target)
    !E.js.isArray target || reached.all (fun value => clean E elementType value) &&
      (E.js.arraySize target ≤ intMax || reached.all (fun value => !makesBlock E elementType value))
  | .promise _, _ => true
  | .interface _, _ => true
  | .protobuf desc, target => (messageEffect E.js desc target).balanced

def cleanMembers (E : Env) : List (ObjectMember FeatureType) → JSValue → Bool
  | [], _ => true
  | ⟨name,type,_⟩ :: members, target =>
    memberClean E (clean E type) name type target &&
      (!memberConverts E (converts E type) name type target || cleanMembers E members target)

end

theorem cleanMembers_cons (E : Env) (m : ObjectMember FeatureType)
    (members : List (ObjectMember FeatureType)) (target : JSValue) :
    cleanMembers E (m :: members) target = (memberClean E (clean E m.type) m.name m.type target &&
        (!memberAccepts E m target || cleanMembers E members target)) := rfl

def argsClean (E : Env) : List FeatureType → List JSValue → Bool
  | type :: types, arg :: args =>
    type.isPromise || clean E type arg && (!converts E type arg || argsClean E types args)
  | _, _ => true

/-- The arguments that `methodCall` gets to are clean. -/
def callClean (E : Env) (method : MemberMethod) (argv : List JSValue) : Bool :=
  match callStyle E.js method argv with
  | .invalid => true
  | style => !countFits method style argv.length || argsClean (style.engine E) method.parameters argv

def assignmentClean (E : Env) (type : FeatureType) (value : JSValue) : Bool :=
  clean E type value && (converts E type value || !makesBlock E type value)

/-- Every block made between two states has been freed exactly once between them, and nothing else
has been. -/
def BlocksBalanced (st st' : ConvertState) : Prop :=
  ∃ log, st'.freed = st.freed ++ log ∧ Balanced log st.nextBlock st'.nextBlock

theorem Leaves.balanced_iff {st st' : ConvertState} {P : Prop} (h : Leaves st st' [] P) :
    BlocksBalanced st st' ↔ P := by
  obtain ⟨log,hlog,howns⟩ := h
  have hiff := howns.balanced
  rw [List.append_nil] at hiff
  rw [← hiff]
  constructor
  · rintro ⟨log',hlog',hbalanced⟩
    rwa [List.append_cancel_left (hlog.symm.trans hlog')]
  · intro hbalanced
    exact ⟨log,hlog,hbalanced⟩

def freeContent (P : Platform) (type : FeatureType) (content : Option Native) : List FreeEvent :=
  if type.needFree then (content.map (Native.freeValue P)).getD [] else []

/-- A conversion leaves the blocks of its content behind: they come out right if the value is clean,
and there are some if it makes a block. -/
structure LeavesContent (E : Env) (type : FeatureType) (st : ConvertState) (r : Converted)
    (clean makes : Bool) : Prop where
  leaves : Leaves st r.state (freeContent E.platform type r.content) (clean = true)
  nil : freeContent E.platform type r.content = [] ↔ makes = false

section Content

variable {E : Env} {P : Platform} {type : FeatureType} {st st' : ConvertState}

theorem freeContent_none (type : FeatureType) : freeContent P type none = [] := by
  simp [freeContent]

theorem freeContent_optional {t : FeatureType} (h : t.isOptional = false) (value : OptionalValue)
    (content : Option Native) :
    freeContent P (.optional t value) content = freeContent P t content := by
  cases t <;> first | rfl | simp [FeatureType.isOptional] at h

theorem leavesContent_nothing {r : Converted} (hnil : freeContent E.platform type r.content = [])
    (hfreed : r.state.freed = st.freed) (hnext : r.state.nextBlock = st.nextBlock) :
    LeavesContent E type st r true false := by
  refine ⟨?_,iff_of_true hnil rfl⟩
  rw [hnil]
  exact (leaves_nil hfreed hnext).congr (by simp)

theorem leavesContent_block {r : Converted} (hblock : freeContent E.platform type r.content = [.block st.nextBlock])
    (hfreed : r.state.freed = st.freed) (hnext : r.state.nextBlock = st.nextBlock + 1) :
    LeavesContent E type st r true true := by
  refine ⟨?_,iff_of_false (by rw [hblock]; simp) (by simp)⟩
  rw [hblock]
  exact (leaves_block hfreed hnext).congr (by simp)

theorem convertPrimitive_leaves (p : PrimitiveType) (target : JSValue) (st : ConvertState) :
    LeavesContent E (.primitive p) st (convertPrimitive E p target st) true (makesBlock E (.primitive p) target) := by
  cases hnull : JSContext.isNullish target with
  | true =>
    rcases JSContext.isNullish_iff.mp hnull with rfl | rfl <;> cases p <;>
      exact leavesContent_nothing rfl rfl rfl
  | false =>
    cases p with
    | void => exact leavesContent_nothing rfl rfl rfl
    | string =>
      simp only [convertPrimitive,hnull,makesBlock]
      cases target with
      | string text => exact leavesContent_block rfl rfl rfl
      | _ => exact leavesContent_nothing rfl rfl rfl
    | anyRef =>
      simp only [convertPrimitive,hnull,makesBlock]
      exact leavesContent_block rfl rfl rfl
    | jsonObj =>
      simp only [convertPrimitive,hnull,makesBlock]
      cases target with
      | object id =>
        dsimp only
        cases hjson : E.js.jsonStringify id with
        | none => exact leavesContent_nothing rfl rfl rfl
        | some text => exact leavesContent_block rfl rfl rfl
      | _ => exact leavesContent_nothing rfl rfl rfl
    | arrayBuffer =>
      simp only [convertPrimitive,hnull,makesBlock]
      cases hbuffer : E.js.isArrayBuffer target with
      | true => exact leavesContent_block rfl rfl rfl
      | false => exact leavesContent_nothing rfl rfl rfl
    | _ =>
      simp only [convertPrimitive,makesBlock]
      split <;> exact leavesContent_nothing rfl rfl rfl

/-- A default whose pointer is null makes a block at most for a string. -/
theorem convertOptional_leaves {t : FeatureType} {value : OptionalValue}
    (hnull : t.hasPointerDefault = true → value.ptr = 0) (st : ConvertState) :
    ∃ makes, LeavesContent E t st (convertOptional E.platform t value st) true makes := by
  have hconstant : t.hasPointerDefault = true → constantOf value.ptr = none := by
    intro h
    rw [hnull h]
    rfl
  cases t with
  | primitive p =>
    cases p with
    | string =>
      simp only [convertOptional]
      cases value.str with
      | none =>
        refine ⟨false,?_⟩
        exact leavesContent_nothing rfl rfl rfl
      | some str =>
        refine ⟨true,?_⟩
        exact leavesContent_block rfl rfl rfl
    | anyRef | jsonObj =>
      refine ⟨_,leavesContent_nothing ?_ rfl rfl⟩
      simp [convertOptional,Converted.content,Converted.stored,hconstant rfl,freeContent_none]
    | _ => exact ⟨_,leavesContent_nothing rfl rfl rfl⟩
  | _ =>
    refine ⟨_,leavesContent_nothing ?_ rfl rfl⟩
    simp [convertOptional,Converted.content,Converted.stored,hconstant rfl,freeContent_none]

end Content

section Elements

variable {E : Env} {type : FeatureType}

/-- The loop over the elements, given what the conversion of one leaves. -/
theorem convertElements_leaves
    (helement : ∀ target st, LeavesContent E type st (convertValueToNative E type target .zero st)
      (clean E type target) (makesBlock E type target))
    (width : ℕ) (values : List JSValue) (room : ℕ) (st : ConvertState) :
    let r := convertElements width (convertValueToNative E type) values room st
    r.2.1.length = values.length ∧ Leaves st r.2.2 (r.2.1.flatMap (freeContent E.platform type))
      ((elementsReached E type values).all (fun value => clean E type value) = true) ∧
    (r.2.1.flatMap (freeContent E.platform type) = [] ↔
      (elementsReached E type values).all (fun value => !makesBlock E type value) = true) := by
  induction values generalizing room st with
  | nil => exact ⟨rfl,(leaves_nil rfl rfl).congr (by simp [elementsReached]),by
      simp [convertElements,elementsReached]⟩
  | cons value values ih =>
    have hvalue := helement value ((st.check (value != .undefined)).place (width ≤ room))
    have hleaves := hvalue.leaves.of_state ((place_freed _ _).trans (check_freed st _))
      ((place_nextBlock _ _).trans (check_nextBlock st _))
    have hnil := hvalue.nil
    unfold convertElements elementsReached
    dsimp only
    rw [convertValueToNative_ok]
    split_ifs with hok
    · obtain ⟨hlen,hrest,hbare⟩ := ih (room - width) (convertValueToNative E type value .zero
        ((st.check (value != .undefined)).place (width ≤ room))).state
      refine ⟨by simp [hlen],?_,?_⟩
      · rw [List.flatMap_cons,List.all_cons,Bool.and_eq_true]
        exact hleaves.append hrest
      · rw [List.flatMap_cons,List.all_cons,Bool.and_eq_true,List.append_eq_nil_iff,hnil,hbare]
        simp
    · have hzero : (values.map (fun _ => (none : Option Native))).flatMap
          (freeContent E.platform type) = [] := by
        simp [freeContent_none]
      refine ⟨by simp,?_,?_⟩
      · rw [List.flatMap_cons,hzero,List.append_nil]
        exact hleaves.congr (by simp)
      · rw [List.flatMap_cons,hzero,List.append_nil,hnil]
        simp

theorem arraySize_lt (ctx : JSContext) (target : JSValue) : ctx.arraySize target < 4294967296 := by
  unfold JSContext.arraySize
  split
  · split_ifs
    · split
      · next n _ =>
        unfold JSNumber.toUint32
        omega
      · decide
    · decide
  · decide

/-- The elements that `FeatureFreeValue` frees: all of them, unless `_size` has overflowed. -/
theorem array_freeValue (P : Platform) (type : FeatureType) (a b asize : ℕ) (elements : List (Option Native))
    (hlen : elements.length = asize) (hsize : asize < 4294967296) :
    freeContent P (.array type) (some (.array a type (toInt asize) (some b) elements)) =
      (if (asize : ℤ) ≤ intMax then elements.flatMap (freeContent P type) else []) ++
        [.block b] ++ [.block a] := by
  have hneed : (FeatureType.array type).needFree = true := rfl
  have hfree : freeContent P (.array type) (some (.array a type (toInt asize) (some b) elements)) =
      (if type.needFree then
        ((freeElements P elements).take (toInt asize).toNat).flatten else []) ++
        [.block b] ++ [.block a] := by
    rw [freeContent,if_pos hneed,Option.map_some,Option.getD_some,Native.freeValue]
    simp
  have hall : elements.flatMap (freeContent P type) =
      if type.needFree then (freeElements P elements).flatten else [] := by
    rw [freeElements_eq]
    unfold freeContent
    cases type.needFree <;> simp [List.flatMap_def]
  rw [hfree,hall]
  split_ifs with hneed' hle
  · rw [toInt_of_le (by omega) hle,Int.toNat_natCast,List.take_of_length_le]
    rw [freeElements_eq,List.length_map,hlen]
  · have hneg : (toInt asize).toNat = 0 := by
      unfold intMax at hle
      rw [toInt,Int.bmod_def]
      omega
    rw [hneg]
    rfl
  all_goals rfl

theorem convertArray_leaves
    (helement : ∀ target st, LeavesContent E type st (convertValueToNative E type target .zero st)
      (clean E type target) (makesBlock E type target))
    (target : JSValue) (st : ConvertState) :
    LeavesContent E (.array type) st (convertArray E type (convertValueToNative E type) target .zero st)
      (clean E (.array type) target) (makesBlock E (.array type) target) := by
  simp only [convertArray,clean,makesBlock]
  cases harray : E.js.isArray target with
  | false =>
    simp only [Bool.false_eq_true,if_false,Bool.not_false,Bool.true_or]
    split_ifs <;> exact leavesContent_nothing rfl rfl rfl
  | true =>
    rw [isArray_not_nullish harray]
    simp only [Bool.false_eq_true,if_false,if_true,Bool.not_true,Bool.false_or,arrayTarget]
    split_ifs with hsize
    · have hall : elementsReached E type (arrayElements E target) = [] := by
        simp [arrayElements,hsize,elementsReached]
      rw [hall,hsize]
      have hblock : freeContent E.platform (.array type)
          (some (.array st.nextBlock type 0 none [])) = [.block st.nextBlock] := by
        simp [freeContent,FeatureType.needFree,FeatureType.flag,FeatureType.realType,
          FeatureType.typeFlag,Native.freeValue,freeElements]
      have hdecide : decide (((0 : ℕ) : ℤ) ≤ intMax) = true := by decide
      rw [List.all_nil,List.all_nil,Bool.or_true,Bool.and_self]
      exact leavesContent_block hblock rfl rfl
    · set new := st.alloc.mallocBuffer E (bufferSize E.platform type (E.js.arraySize target))
        with hnew
      have hfreed : new.freed = st.alloc.freed := by
        rw [hnew,ConvertState.mallocBuffer]
        split_ifs <;> simp
      have hnext : new.nextBlock = st.alloc.nextBlock + 1 := by
        rw [hnew,ConvertState.mallocBuffer]
        split_ifs <;> simp
      obtain ⟨hlen,hleaves,hbare⟩ := convertElements_leaves helement (elementSize E.platform type)
        (arrayElements E target) (bufferSize E.platform type (E.js.arraySize target)) new
      have hlen' : (convertElements (elementSize E.platform type) (convertValueToNative E type) (arrayElements E target)
          (bufferSize E.platform type (E.js.arraySize target)) new).2.1.length = E.js.arraySize target := by
        rw [hlen]
        simp [arrayElements]
      have hcontent := array_freeValue E.platform type st.nextBlock st.alloc.nextBlock
        (E.js.arraySize target) _ hlen' (arraySize_lt E.js target)
      refine ⟨?_,iff_of_false ?_ (by simp)⟩
      · change Leaves st _ (freeContent E.platform (.array type) (some _)) _
        erw [hcontent]
        refine Leaves.root ?_ (alloc_freed st) (alloc_nextBlock st)
        split_ifs with hle
        · refine (hleaves.root hfreed hnext).congr ?_
          simp [hle]
        · refine (hleaves.discard.root hfreed hnext).congr ?_
          rw [hbare]
          simp [hle]
      · change ¬freeContent E.platform (.array type) (some _) = []
        erw [hcontent]
        simp

end Elements

section Members

variable {E : Env} (target : JSValue)

/-- What `FeatureFreeValue` frees for one member of a struct. -/
def freeMember (P : Platform) (memory : List (Write Native)) (m : ObjectMember FeatureType) :
    List FreeEvent :=
  if m.type.realType.needFree then
    freeSlot ((load memory m.offset P.pointerSize).map (Native.freeValue P))
  else []

theorem struct_freeValue (P : Platform) (size id : ℕ) (members : List (ObjectMember FeatureType))
    (memory : List (Write Native)) :
    freeContent P (.structMap size members) (some (.structMap id members memory)) =
      members.flatMap (freeMember P memory) ++ [.block id] := by
  have hneed : (FeatureType.structMap size members).needFree = true := rfl
  rw [freeContent,if_pos hneed,Option.map_some,Option.getD_some,Native.freeValue,freeMemory_eq]
  simp only [load_map]
  rfl

theorem WellFormed.single {P : Platform} {type : FeatureType} (h : WellFormed P type)
    (t : FeatureType) (value : OptionalValue) (heq : type = .optional t value) :
    t.isOptional = false := by
  subst heq
  cases h with
  | optional _ single _ => exact single

variable {m : ObjectMember FeatureType}

theorem memberConverted_store (hwf : WellFormed E.platform m.type) (st : ConvertState) :
    Store.Fits E.platform m.type (memberConverted E m target st).store ∨ m.type.needFree = false ∧
        ∀ s, (memberConverted E m target st).store = some s → s.value = none := by
  unfold memberConverted
  cases hsource : memberSource E m.name m.type target with
  | default type value =>
    obtain ⟨-,htype⟩ := memberSource_default hsource
    rw [htype] at hwf
    cases hwf with
    | optional _ single null =>
      rw [htype,Store.Fits,getValueSize_optional single]
      cases type with
      | callback ps rest =>
        refine .inr ⟨rfl,fun s hs => ?_⟩
        obtain rfl := Option.some.inj hs
        rw [null rfl]
        rfl
      | _ => exact .inl (convertOptional_fits value st single (by simp))
  | refused => exact .inl (fits_none _)
  | converted => exact .inl (convertValueToNative_optional_fits (hwf.single) _ _ _)

theorem memberConverted_leaves (hwf : WellFormed E.platform m.type) (hmember : ∀ target st, LeavesContent E m.type st
      (convertValueToNative E m.type target .zero st) (clean E m.type target)
      (makesBlock E m.type target)) (st : ConvertState) :
    Leaves st (memberConverted E m target st).state
      (freeContent E.platform m.type (memberConverted E m target st).content)
      (memberClean E (clean E m.type) m.name m.type target = true) := by
  unfold memberConverted memberClean
  cases hsource : memberSource E m.name m.type target with
  | default type value =>
    obtain ⟨-,htype⟩ := memberSource_default hsource
    rw [htype] at hwf ⊢
    cases hwf with
    | optional _ single null =>
      obtain ⟨makes,hleaves⟩ := convertOptional_leaves null st
      dsimp only
      rw [freeContent_optional single]
      exact hleaves.leaves
  | refused => exact (leavesContent_nothing (freeContent_none _) rfl rfl).leaves
  | converted => exact (hmember _ st).leaves

/-- After the write of a member and of the ones behind it, `FeatureFreeValue` finds its content. -/
theorem freeMember_written (hwf : WellFormed E.platform m.type) {memory later : List (Write Native)}
    (hzero : ∀ w ∈ memory, w.Overlaps m.offset (getValueSize E.platform m.type) → w.value = none)
    (hlater : ∀ w ∈ later, m.offset + getValueSize E.platform m.type ≤ w.offset)
    (st : ConvertState) :
    freeMember E.platform (later ++ writeStore m.offset (memberConverted E m target st).store memory) m =
      freeContent E.platform m.type (memberConverted E m target st).content := by
  have hreal : m.type.realType.needFree = m.type.needFree := by
    have hsingle := hwf.single
    cases htype : m.type with
    | optional t v =>
      have := hsingle t v htype
      cases t <;> first | rfl | simp [FeatureType.isOptional] at this
    | _ => rfl
  unfold freeMember freeContent
  rw [hreal]
  split_ifs with hneed
  · have hsize : getValueSize E.platform m.type = E.platform.pointerSize := by
      rw [← hreal] at hneed
      have href : m.type.realType.isReference = true := by
        simp only [FeatureType.needFree,beq_iff_eq] at hneed
        simp [FeatureType.isReference,hneed]
      simp [getValueSize,href]
    have hfits := (memberConverted_store target hwf st).resolve_right (by simp [hneed])
    rw [← hsize,load_append_of_not_overlaps (fun w hw => ?_),load_writeStore hfits hzero,
      Slot.map_ofOption]
    · change freeSlot (.ofOption ((memberConverted E m target st).content.map _)) = _
      cases (memberConverted E m target st).content <;> rfl
    · have := hlater w hw
      unfold Write.Overlaps
      omega
  · rfl

theorem freeMember_zero {P : Platform} {memory : List (Write Native)}
    (hzero : ∀ w ∈ memory, w.Overlaps m.offset (getValueSize P m.type) → w.value = none)
    : freeMember P memory m = [] := by
  unfold freeMember
  split_ifs with hneed
  · have hsize : getValueSize P m.type = P.pointerSize := by
      have href : m.type.realType.isReference = true := by
        simp only [FeatureType.needFree,beq_iff_eq] at hneed
        simp [FeatureType.isReference,hneed]
      simp [getValueSize,href]
    rw [hsize] at hzero
    rw [load_eq_zero hzero]
    rfl
  · rfl

theorem convertMembers_leaves {members : List (ObjectMember FeatureType)}
    (hordered : members.Pairwise (fun m m' => m.offset + getValueSize E.platform m.type ≤ m'.offset))
    (hwf : ∀ m ∈ members, WellFormed E.platform m.type)
    (hmember : ∀ m ∈ members, ∀ target st, LeavesContent E m.type st
      (convertValueToNative E m.type target .zero st) (clean E m.type target)
      (makesBlock E m.type target))
    (memory : List (Write Native))
    (hzero : ∀ w ∈ memory, ∀ m ∈ members, w.Overlaps m.offset (getValueSize E.platform m.type) → w.value = none)
    (st : ConvertState) :
    ∃ log, (convertMembers E members target memory st).memory = log ++ memory ∧
      (∀ w ∈ log, ∃ m ∈ members, w.offset = m.offset) ∧
      Leaves st (convertMembers E members target memory st).state (members.flatMap
          (freeMember E.platform (convertMembers E members target memory st).memory))
        (cleanMembers E members target = true) := by
  induction members generalizing memory st with
  | nil => exact ⟨[],rfl,by simp,(leaves_nil rfl rfl).congr (by simp [cleanMembers])⟩
  | cons m members ih =>
    rw [List.pairwise_cons] at hordered
    have hwfm := hwf m List.mem_cons_self
    have hzerom := fun w hw => hzero w hw m List.mem_cons_self
    have hfill := memberFill_eq target m hwfm.single hzerom st
    have hleaves := memberConverted_leaves target hwfm (hmember m List.mem_cons_self) st
    have hok : (memberConverted E m target st).ok = memberAccepts E m target := by
      rw [← memberFill_ok m target memory st,hfill]
    set c := memberConverted E m target st with hc
    have hwrites : ∀ w ∈ writeStore m.offset c.store [], w.offset = m.offset := by
      intro w hw
      simp only [writeStore,List.append_nil,Option.mem_toList] at hw
      obtain ⟨s,-,rfl⟩ := Option.map_eq_some_iff.mp hw
      rfl
    have hsplit : writeStore m.offset c.store memory = writeStore m.offset c.store [] ++ memory := by
      simp [writeStore]
    have hzero' : ∀ w ∈ writeStore m.offset c.store memory, ∀ m' ∈ members,
        w.Overlaps m'.offset (getValueSize E.platform m'.type) → w.value = none := by
      intro w hw m' hm' hover
      rw [writeStore,List.mem_append,Option.mem_toList] at hw
      rcases hw with hnew | hold
      · obtain ⟨s,hs,rfl⟩ := Option.map_eq_some_iff.mp hnew
        rcases memberConverted_store target hwfm st with hfits | ⟨-,hnone⟩
        · have hwidth := (hfits s hs).1
          have := hordered.1 m' hm'
          unfold Write.Overlaps at hover
          dsimp only at hover
          omega
        · exact hnone s hs
      · exact hzero w hold m' (List.mem_cons_of_mem _ hm') hover
    rw [convertMembers_cons,cleanMembers_cons,hfill]
    dsimp only
    rw [hok]
    by_cases haccepts : memberAccepts E m target = true
    · rw [if_pos haccepts,haccepts]
      obtain ⟨log,hlog,hrange,hrest⟩ := ih hordered.2
        (fun m' hm' => hwf m' (List.mem_cons_of_mem _ hm'))
        (fun m' hm' => hmember m' (List.mem_cons_of_mem _ hm'))
        (writeStore m.offset c.store memory) hzero' c.state
      refine ⟨log ++ writeStore m.offset c.store [],?_,?_,?_⟩
      · rw [hlog,hsplit,List.append_assoc]
      · intro w hw
        rcases List.mem_append.mp hw with hlater | hnew
        · obtain ⟨m',hm',hw'⟩ := hrange w hlater
          exact ⟨m',List.mem_cons_of_mem _ hm',hw'⟩
        · exact ⟨m,List.mem_cons_self,hwrites w hnew⟩
      · have hown : freeMember E.platform
            (convertMembers E members target (writeStore m.offset c.store memory) c.state).memory m =
            freeContent E.platform m.type c.content := by
          rw [hlog]
          refine freeMember_written target hwfm hzerom (fun w hw => ?_) st
          obtain ⟨m',hm',hw'⟩ := hrange w hw
          rw [hw']
          exact hordered.1 m' hm'
        rw [List.flatMap_cons,hown]
        refine (hleaves.append hrest).congr ?_
        simp
    · rw [if_neg haccepts]
      refine ⟨writeStore m.offset c.store [],hsplit,?_,?_⟩
      · intro w hw
        exact ⟨m,List.mem_cons_self,hwrites w hw⟩
      · have hown := freeMember_written target hwfm hzerom (List.forall_mem_nil _) st
        have hrest : members.flatMap (freeMember E.platform (writeStore m.offset c.store memory)) = [] := by
          rw [List.flatMap_eq_nil_iff]
          intro m' hm'
          exact freeMember_zero (fun w hw => hzero' w hw m' hm')
        rw [List.nil_append] at hown
        rw [List.flatMap_cons,hown,hrest,List.append_nil]
        refine hleaves.congr ?_
        simp [haccepts]

end Members

section Runs

variable {E : Env} {type : FeatureType}

/-- A conversion into a null slot leaves exactly the blocks of its content behind. -/
theorem convertValueToNative_leaves (hwf : WellFormed E.platform type) (target : JSValue) (st : ConvertState) :
    LeavesContent E type st (convertValueToNative E type target .zero st) (clean E type target)
      (makesBlock E type target) := by
  induction type using FeatureType.induction generalizing target st with
  | primitive p => exact convertPrimitive_leaves p target st
  | structMap size members ih =>
    cases hwf with
    | structMap layout types =>
      simp only [convertValueToNative,clean,makesBlock]
      cases hplain : E.js.isPlainObject target with
      | false =>
        simp only [Bool.false_eq_true,if_false,Bool.not_false,Bool.true_or]
        split_ifs <;> exact leavesContent_nothing rfl rfl rfl
      | true =>
        rw [isPlainObject_not_nullish hplain]
        simp only [Bool.false_eq_true,if_false,if_true,Bool.not_true,Bool.false_or]
        obtain ⟨log,-,-,hleaves⟩ := convertMembers_leaves target layout.ordered types
          (fun m hm => ih m hm (types m hm)) [] (by simp) st.alloc
        have hfree := struct_freeValue E.platform size st.nextBlock members
          (convertMembers E members target [] st.alloc).memory
        refine ⟨?_,iff_of_false ?_ (by simp)⟩
        · change Leaves st _ (freeContent E.platform _ (some _)) _
          rw [hfree]
          exact hleaves.root rfl rfl
        · change ¬freeContent E.platform _ (some _) = []
          rw [hfree]
          simp
  | optional t v ih =>
    cases hwf with
    | optional hwf single null =>
      have h := ih hwf target st
      refine ⟨?_,?_⟩
      · rw [freeContent_optional single]
        exact h.leaves
      · rw [freeContent_optional single]
        exact h.nil
  | callback ps rest =>
    simp only [convertValueToNative,convertCallback]
    split_ifs <;> exact leavesContent_nothing rfl rfl rfl
  | array t ih =>
    cases hwf with
    | array helement => exact convertArray_leaves (ih helement) target st
  | promise t => exact leavesContent_nothing rfl rfl rfl
  | interface d =>
    simp only [convertValueToNative,convertInterface]
    exact leavesContent_nothing rfl (by simp [Converted.stored]) (by simp [Converted.stored])
  | protobuf d =>
    cases hwf with
    | protobuf layout =>
      have h := protoToNative_effect E.platform E.js d layout target
      have hfree : freeContent E.platform (.protobuf d)
          (convertValueToNative E (.protobuf d) target .zero st).content =
          ((protoToNative E.platform E.js d target st).content.map ProtoValue.freeMessage).getD [] := by
        have hneed : (FeatureType.protobuf d).needFree = true := rfl
        rw [freeContent,if_pos hneed]
        simp only [convertValueToNative,convertProtobuf,Converted.content,Converted.stored,
          Option.bind_some,Option.map_map]
        cases (protoToNative E.platform E.js d target st).content <;> rfl
      refine ⟨?_,?_⟩
      · rw [hfree]
        exact h.parameter st
      · have hbuilt := h.built st
        rw [hfree]
        simp only [makesBlock]
        cases hcontent : (protoToNative E.platform E.js d target st).content with
        | none =>
          rw [hcontent] at hbuilt
          exact iff_of_true rfl hbuilt.symm
        | some message =>
          rw [hcontent] at hbuilt
          refine iff_of_false ?_ (by rw [← hbuilt]; simp)
          cases message <;> simp [ProtoValue.freeMessage]

theorem convertArgs_leaves {types : List FeatureType} (hwf : ∀ t ∈ types, WellFormed E.platform t)
    (argv : List JSValue) (st : ConvertState) :
    Leaves st (convertArgs E types argv st).state
      (freeMethodArgs E.platform types (convertArgs E types argv st).slots)
      (argsClean E types argv = true) := by
  induction types generalizing argv st with
  | nil => exact (leaves_nil rfl rfl).congr (by simp [argsClean])
  | cons type types ih =>
    cases argv with
    | nil => exact (leaves_nil rfl rfl).congr (by simp [argsClean])
    | cons arg argv =>
      have harg := (convertValueToNative_leaves (hwf type List.mem_cons_self) arg st).leaves
      have hrest := ih (fun t ht => hwf t (List.mem_cons_of_mem _ ht)) argv
        (convertValueToNative E type arg .zero st).state
      have hcons : ∀ content slots, freeMethodArgs E.platform (type :: types) (content :: slots) =
          freeContent E.platform type content ++ freeMethodArgs E.platform types slots :=
        fun _ _ => rfl
      unfold convertArgs argsClean
      dsimp only
      rw [convertValueToNative_ok]
      split_ifs with hpromise hok
      · have hnone : freeMethodArgs E.platform types [] = [] := by
          cases types <;> rfl
        rw [hcons,freeContent_none,hnone]
        refine Leaves.congr (leaves_nil rfl rfl) ?_
        simp [hpromise]
      · rw [hcons]
        refine (harg.append hrest).congr ?_
        simp [hpromise,hok]
      · have hnone : freeMethodArgs E.platform types [] = [] := by
          cases types <;> rfl
        rw [hcons,hnone,List.append_nil]
        refine harg.congr ?_
        simp [hpromise,hok]

theorem fillDefaults_leaves {types : List FeatureType}
    (hwf : ∀ t ∈ types, WellFormed E.platform t) (st : ConvertState) :
    Leaves st (fillDefaults E.platform types st).state
      (freeMethodArgs E.platform types (fillDefaults E.platform types st).slots) True := by
  induction types generalizing st with
  | nil => exact leaves_nil rfl rfl
  | cons type types ih =>
    cases type with
    | optional t value =>
      have htype := hwf _ List.mem_cons_self
      cases htype with
      | optional _ single null =>
        obtain ⟨makes,hdefault⟩ := convertOptional_leaves (E := E) null st
        have hfirst : Leaves st (convertOptional E.platform t value st).state
            (freeContent E.platform (.optional t value) (convertOptional E.platform t value st).content) True := by
          rw [freeContent_optional single]
          exact hdefault.leaves.congr (by simp)
        unfold fillDefaults
        dsimp only
        split_ifs
        · exact (hfirst.append (ih (fun t ht => hwf t (List.mem_cons_of_mem _ ht)) _)).congr
            (by simp)
        · have hnone : freeMethodArgs E.platform types [] = [] := by
            cases types <;> rfl
          refine (hfirst.append (hnone ▸ leaves_nil rfl rfl)).congr (by simp)
    | _ => exact leaves_nil (check_freed st false) (check_nextBlock st false)

theorem prepareArgs_leaves {method : MemberMethod}
    (hwf : ∀ t ∈ method.parameters, WellFormed E.platform t) (argv : List JSValue)
    (st : ConvertState) :
    Leaves st (prepareArgs E method argv st).state
      (freeMethodArgs E.platform method.parameters (prepareArgs E method argv st).slots)
      (argsClean E method.parameters argv = true) := by
  have hgiven := convertArgs_leaves hwf argv st
  unfold prepareArgs
  dsimp only
  split_ifs with hfill
  · simp only [Bool.and_eq_true] at hfill
    have hlen := (convertArgs_slots hfill.1.1).1
    have hsplit : ∀ slots, freeMethodArgs E.platform method.parameters
        ((convertArgs E method.parameters argv st).slots ++ slots) =
        freeMethodArgs E.platform method.parameters (convertArgs E method.parameters argv st).slots ++
          freeMethodArgs E.platform (method.parameters.drop argv.length) slots := by
      intro slots
      have htake : (method.parameters.take argv.length).length =
          (convertArgs E method.parameters argv st).slots.length := by
        rw [hlen,List.length_take,Nat.min_comm]
      have hfirst : ∀ slots', method.parameters.zip ((convertArgs E method.parameters argv st).slots ++ slots') =
          (method.parameters.take argv.length).zip (convertArgs E method.parameters argv st).slots ++
          (method.parameters.drop argv.length).zip slots' := by
        intro slots'
        rw [← List.zip_append htake,List.take_append_drop]
      have hown := hfirst []
      rw [List.append_nil,List.zip_nil_right,List.append_nil] at hown
      unfold freeMethodArgs
      rw [hfirst,hown,List.flatMap_append]
    rw [hsplit]
    refine (hgiven.append (fillDefaults_leaves (fun t ht => hwf t (List.mem_of_mem_drop ht)) _)).congr
      ?_
    simp
  · exact hgiven

end Runs

section Balance

variable {E : Env}

theorem callStub_balanced_iff {method : MemberMethod}
    (hwf : ∀ t ∈ method.parameters, WellFormed E.platform t) (argv : List JSValue) (pid : ℤ)
    (stub : StubResult) (st : ConvertState) :
    BlocksBalanced st (callStub E method argv pid stub st).state ↔ argsClean E method.parameters argv = true := by
  have hstate : (callStub E method argv pid stub st).state = (prepareArgs E method argv st).state.free
        (freeMethodArgs E.platform method.parameters (prepareArgs E method argv st).slots) := by
    unfold callStub handleError
    dsimp only
    split_ifs <;> rfl
  rw [hstate]
  exact (prepareArgs_leaves hwf argv st).settle.balanced_iff

theorem engine_platform (style : CallStyle) (E : Env) : (style.engine E).platform = E.platform := by
  cases style <;> rfl

theorem callClean_eq {method : MemberMethod} {argv : List JSValue} (h : callStyle E.js method argv ≠ .invalid) :
    callClean E method argv = (!countFits method (callStyle E.js method argv) argv.length ||
      argsClean ((callStyle E.js method argv).engine E) method.parameters argv) := by
  unfold callClean
  cases hstyle : callStyle E.js method argv with
  | invalid => exact absurd hstyle h
  | _ => rfl

/-- Once a call or an assignment has returned, every block that its conversions made has been freed
exactly once, exactly when its arguments or its value are clean. -/
theorem blocks_balanced_iff (E : Env) :
    (∀ (method : MemberMethod) (argv : List JSValue) (nextPid : ℕ) (stub : StubResult)
      (st : ConvertState), (∀ t ∈ method.parameters, WellFormed E.platform t) →
      (BlocksBalanced st (methodCall E method argv nextPid stub st).state ↔ callClean E method argv = true)) ∧
    ∀ (type : FeatureType) (value : JSValue) (st : ConvertState), WellFormed E.platform type →
      (BlocksBalanced st (accessorSet E type value st).state ↔ assignmentClean E type value = true) := by
  have hnothing : ∀ st, BlocksBalanced st st := fun st =>
    (leaves_nil rfl rfl).balanced_iff.mpr trivial
  constructor
  · intro method argv nextPid stub st hwf
    by_cases hinvalid : callStyle E.js method argv = .invalid
    · refine iff_of_true ?_ (by rw [callClean,hinvalid])
      unfold methodCall
      rw [hinvalid]
      exact hnothing st
    · rw [methodCall_eq nextPid stub st hinvalid,callClean_eq hinvalid]
      split_ifs with hcount
      · rw [hcount,Bool.not_true,Bool.false_or]
        have hwf' : ∀ t ∈ method.parameters, WellFormed ((callStyle E.js method argv).engine E).platform t := by
          rw [engine_platform]
          exact hwf
        exact callStub_balanced_iff hwf' argv _ stub st
      · refine iff_of_true ?_ (by simp [hcount])
        unfold handleError
        split_ifs <;> exact hnothing st
  · intro type value st hwf
    have hvalue := convertValueToNative_leaves hwf value st
    unfold accessorSet assignmentClean
    dsimp only
    rw [convertValueToNative_ok]
    split_ifs with hok
    · have hfree : freeMethodArgs E.platform [type] [(convertValueToNative E type value .zero st).content] =
          freeContent E.platform type (convertValueToNative E type value .zero st).content := by
        simp [freeMethodArgs,freeContent]
      rw [hfree,hvalue.leaves.settle.balanced_iff]
      simp [hok]
    · rw [hvalue.leaves.discard.balanced_iff,hvalue.nil]
      simp [hok]

def playMethod : MemberMethod where
  parameters := [.structMap 16 [⟨"list",.array (.primitive .string),0⟩],
    .optional (.primitive .string) { str := some "loop" }]
  hasRest := false
  returnType := .primitive .void

theorem blocks_balanced_of_play :
    BlocksBalanced {} (methodCall (.ofEngine .bits64 delayOnly) playMethod [.object 0] 0 ⟨true,false⟩ {}).state := by
  refine ((blocks_balanced_iff _).1 playMethod [.object 0] 0 ⟨true,false⟩ {} ?_).mpr (by decide)
  intro t ht
  simp only [playMethod,List.mem_cons,List.not_mem_nil,or_false] at ht
  rcases ht with rfl | rfl
  · refine .structMap ⟨by simp,?_,?_⟩ ?_
    · simp [getValueSize,FeatureType.realType,FeatureType.isReference,FeatureType.flag,
        FeatureType.typeFlag,Env.ofEngine,Platform.bits64]
    · simp
    · simp only [List.mem_singleton,forall_eq]
      exact .array (.primitive .string)
  · exact .optional (.primitive .string) rfl (by simp [FeatureType.hasPointerDefault])

/-- A property of struct type, assigned an object without its member: the block of the half filled
struct is never freed. -/
theorem refused_assignment_leaks : WellFormed .bits64 (.structMap 4 [⟨"volume",.primitive .int,0⟩]) ∧
    ¬BlocksBalanced {} (accessorSet (.ofEngine .bits64 delayOnly)
      (.structMap 4 [⟨"volume",.primitive .int,0⟩]) (.object 0) {}).state := by
  constructor
  · refine .structMap ⟨by simp,?_,by simp⟩ (by simp [WellFormed.primitive])
    simp [getValueSize,FeatureType.realType,FeatureType.isReference,FeatureType.flag,
      FeatureType.typeFlag,PrimitiveType.flag,PrimitiveType.valueSize]
  · rintro ⟨log,hlog,hbalanced⟩
    have hnil : log = [] := (List.nil_append log).symm.trans hlog.symm
    rw [hnil] at hbalanced
    exact absurd (balanced_nil_iff.mp hbalanced) (by decide)

end Balance

end FeatureRuntime
