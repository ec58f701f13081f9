import FeatureRuntime.ConversionChecks
import FeatureRuntime.DataTarget
import FeatureRuntime.ScriptObjects

/-! Data that is converted to the engine and back: which values come back as they were. -/
namespace FeatureRuntime

open RefCount

def EngineValue.toJS (heap : Heap EngineNode) : EngineValue → JSValue
  | .plain value => value
  | .block ptr =>
    match heap[ptr]? with
    | some (some ⟨_,.string text⟩) => .string text
    | _ => .object ptr

/-- What can be read of the fields that were set on an object. `__proto__` is an inherited setter: it
keeps an object as the prototype, which its getter returns, and drops every other value. -/
def readableFields (heap : Heap EngineNode) (properties : List (String × EngineValue)) : List (String × JSValue) :=
  (properties.map (fun p => (p.1,p.2.toJS heap))).filter
    (fun p => p.1 ≠ "__proto__" || JSContext.isObject p.2)

def scriptObjectAt (heap : Heap EngineNode) (ptr : ℕ) : Option ScriptObject :=
  match heap[ptr]? with
  | some (some ⟨_,.object properties⟩) => some (.plain (readableFields heap properties))
  | some (some ⟨_,.array elements⟩) => some (.array (elements.map (·.toJS heap)))
  | _ => none

/-- The engine with these blocks; `base` answers for all other objects and for inherited
properties. -/
def engineContext (base : JSContext) (heap : Heap EngineNode) : JSContext :=
  base.withObjects (scriptObjectAt heap)

def TargetEnv.back (T : TargetEnv) (E : Env) (heap : Heap EngineNode) : Env :=
  { E with platform := T.platform, js := engineContext E.js heap }

mutual

/-- The data that comes back. Strings are text in UTF-8. Neither a boolean nor a number nor a string lies in a struct member
`__proto__`. The elements of an array have a size, which they lack below nested optional headers, and
there is memory for their buffer. -/
def Returnable (P : Platform) (canMalloc : ℕ → Bool) : FeatureType → DataValue → Prop
  | .structMap _ members, .record contents => ReturnableMembers P canMalloc members contents
  | .optional type _, content => Returnable P canMalloc type content
  | .array elementType, .list contents => contents ≠ [] →
      elementSize P elementType ≠ 0 ∧
      canMalloc (elementSize P elementType * contents.length) = true ∧
      ∀ content ∈ contents, Returnable P canMalloc elementType content
  | _, .illFormed _ => False
  | _, _ => True

def ReturnableMembers (P : Platform) (canMalloc : ℕ → Bool) : List (ObjectMember FeatureType) → List DataValue → Prop
  | ⟨name,type,_⟩ :: members, content :: contents =>
    (name = "__proto__" → type.holdsObject = true) ∧ Returnable P canMalloc type content ∧
      ReturnableMembers P canMalloc members contents
  | _, _ => True

end

variable {P : Platform} {canMalloc : ℕ → Bool} {base : JSContext} {heap : Heap EngineNode} {low : ℕ}

section Reading

variable {type : FeatureType} {value : EngineValue} {content : DataValue}

/-- The JS values that show data: objects for structs and arrays, and plain values otherwise. -/
theorem Shows.toJS_cases (h : Shows P heap type low value content) :
    (type.holdsObject = true ∧ ∃ ptr, value.toJS heap = .object ptr) ∨
    (type.holdsObject = false ∧ ((∃ b, value.toJS heap = .bool b) ∨
      (∃ n, value.toJS heap = .number n) ∨ ∃ text, value.toJS heap = .string text)) := by
  induction type using FeatureType.induction with
  | primitive type =>
    right
    refine ⟨rfl,?_⟩
    cases content with
    | bool b =>
      obtain ⟨-,rfl⟩ := h
      exact .inl ⟨b,rfl⟩
    | int n =>
      obtain ⟨-,rfl⟩ := h
      exact .inr (.inl ⟨_,rfl⟩)
    | string text =>
      obtain ⟨-,-,ptr,rc,-,rfl,hblock⟩ := h
      refine .inr (.inr ⟨text,?_⟩)
      simp only [EngineValue.toJS,hblock]
    | _ => exact h.elim
  | structMap size members ih =>
    obtain ⟨ptr,rc,properties,contents,-,rfl,-,hblock,-⟩ := h
    refine .inl ⟨rfl,ptr,?_⟩
    simp only [EngineValue.toJS,hblock]
  | optional type value ih => exact ih h
  | array type ih =>
    obtain ⟨ptr,rc,elements,contents,-,rfl,-,hblock,-⟩ := h
    refine .inl ⟨rfl,ptr,?_⟩
    simp only [EngineValue.toJS,hblock]
  | _ => exact h.elim

theorem Shows.isNullish (h : Shows P heap type low value content) :
    JSContext.isNullish (value.toJS heap) = false := by
  obtain ⟨-,ptr,hvalue⟩ | ⟨-,⟨b,hvalue⟩ | ⟨n,hvalue⟩ | ⟨text,hvalue⟩⟩ := h.toJS_cases <;>
    rw [hvalue] <;> rfl

theorem Shows.isObject (h : Shows P heap type low value content) :
    JSContext.isObject (value.toJS heap) = type.holdsObject := by
  obtain ⟨htype,ptr,hvalue⟩ | ⟨htype,⟨b,hvalue⟩ | ⟨n,hvalue⟩ | ⟨text,hvalue⟩⟩ := h.toJS_cases <;>
    rw [hvalue,htype] <;> rfl

theorem Shows.ne_exception (h : Shows P heap type low value content) : value.toJS heap ≠ .exception := by
  obtain ⟨-,ptr,hvalue⟩ | ⟨-,⟨b,hvalue⟩ | ⟨n,hvalue⟩ | ⟨text,hvalue⟩⟩ := h.toJS_cases <;>
    rw [hvalue] <;> exact JSValue.noConfusion

theorem Shows.ne_undefined (h : Shows P heap type low value content) : value.toJS heap ≠ .undefined := by
  intro hundefined
  have hnullish := h.isNullish
  rw [hundefined] at hnullish
  exact Bool.noConfusion hnullish

theorem ShowsMembers.names {members : List (ObjectMember FeatureType)}
    {properties : List (String × EngineValue)} {contents : List DataValue}
    (h : ShowsMembers P heap members low properties contents) :
    properties.map Prod.fst = members.map ObjectMember.name := by
  induction members generalizing properties contents with
  | nil => simp [h.1]
  | cons m members ih =>
    obtain ⟨value,properties',content,contents',rfl,-,-,hrest⟩ := h
    rw [List.map_cons,List.map_cons,ih hrest]

theorem lookup_of_mem {β : Type} {entries : List (String × β)} (hnodup : (entries.map Prod.fst).Nodup)
    {name : String} {b : β} (h : (name,b) ∈ entries) : entries.lookup name = some b := by
  induction entries with
  | nil => exact absurd h List.not_mem_nil
  | cons entry entries ih =>
    rw [List.map_cons,List.nodup_cons] at hnodup
    obtain rfl | hrest := List.mem_cons.mp h
    · simp
    · have hne : name ≠ entry.1 := by
        rintro rfl
        exact hnodup.1 (List.mem_map.mpr ⟨_,hrest,rfl⟩)
      rw [List.lookup_cons,beq_eq_false_iff_ne.mpr hne]
      exact ih hnodup.2 hrest

variable {ptr rc : ℕ} {properties : List (String × EngineValue)} {elements : List EngineValue}

theorem engineContext_plain (h : heap[ptr]? = some (some ⟨rc,.object properties⟩)) :
    (engineContext base heap).isPlainObject (.object ptr) = true := by
  have hobject : scriptObjectAt heap ptr = some (.plain (readableFields heap properties)) := by
    simp only [scriptObjectAt,h]
  exact JSContext.withObjects_plain hobject

/-- A field is read as it was set, and `__proto__` is inherited when it was not set to an object. -/
theorem engineContext_property (h : heap[ptr]? = some (some ⟨rc,.object properties⟩))
    (hnodup : (properties.map Prod.fst).Nodup) {name : String} (hmem : (name,value) ∈ properties) :
    (engineContext base heap).getPropertyStr ptr name =
      if name = "__proto__" ∧ JSContext.isObject (value.toJS heap) = false then
        base.getPropertyStr ptr name
      else value.toJS heap := by
  have hshown : (name,value.toJS heap) ∈ properties.map (fun p => (p.1,p.2.toJS heap)) :=
    List.mem_map_of_mem hmem
  have hnames : ((properties.map (fun p => (p.1,p.2.toJS heap))).map Prod.fst).Nodup := by
    rw [List.map_map]
    exact hnodup
  have hobject : scriptObjectAt heap ptr = some (.plain (readableFields heap properties)) := by
    simp only [scriptObjectAt,h]
  rw [engineContext,JSContext.withObjects_property hobject]
  split_ifs with hlost
  · have hnone : (readableFields heap properties).lookup name = none := by
      rw [List.lookup_eq_none_iff]
      intro p hp
      obtain ⟨hin,hkept⟩ := List.mem_filter.mp hp
      rw [bne_iff_ne]
      rintro rfl
      have hsame := lookup_of_mem hnames hin
      rw [lookup_of_mem hnames hshown] at hsame
      simp [hlost.1,← Option.some.inj hsame,hlost.2] at hkept
    rw [hnone,Option.getD_none]
  · have hin : (name,value.toJS heap) ∈ readableFields heap properties := by
      refine List.mem_filter.mpr ⟨hshown,?_⟩
      by_cases hname : name = "__proto__"
      · simpa [hname] using hlost
      · simp [hname]
    have hdistinct : ((readableFields heap properties).map Prod.fst).Nodup :=
      hnames.sublist (List.filter_sublist.map _)
    rw [lookup_of_mem hdistinct hin,Option.getD_some]

theorem engineContext_array (h : heap[ptr]? = some (some ⟨rc,.array elements⟩)) :
    (engineContext base heap).isArray (.object ptr) = true ∧
      (engineContext base heap).arraySize (.object ptr) = elements.length % 2 ^ 32 := by
  have hobject : scriptObjectAt heap ptr = some (.array (elements.map (·.toJS heap))) := by
    simp only [scriptObjectAt,h]
  obtain ⟨harray,hsize⟩ := @JSContext.withObjects_array base _ ptr _ hobject
  rw [List.length_map] at hsize
  exact ⟨harray,hsize⟩

theorem engineContext_elements (h : heap[ptr]? = some (some ⟨rc,.array elements⟩))
    (hpresent : ∀ element ∈ elements, element.toJS heap ≠ .exception) :
    (List.range elements.length).map ((engineContext base heap).arrayGet (.object ptr)) =
      elements.map (·.toJS heap) := by
  have hobject : scriptObjectAt heap ptr = some (.array (elements.map (·.toJS heap))) := by
    simp only [scriptObjectAt,h]
  have harray : (engineContext base heap).arrayObject ptr = true := (engineContext_array h).1
  refine List.ext_getElem (by simp) (fun i hi hi' => ?_)
  have hin : i < elements.length := by simpa using hi
  have hget : (engineContext base heap).getPropertyUint32 ptr i = elements[i].toJS heap :=
    JSContext.withObjects_element hobject (by simp [hin])
  rw [List.getElem_map,List.getElem_map,List.getElem_range,JSContext.arrayGet]
  simp only [harray,if_true,hget]
  split
  · next hexception => exact absurd hexception (hpresent _ (List.getElem_mem hin))
  · rfl

end Reading

section Return

variable {E : Env}

/-- What the conversion of data back to native does: it succeeds without a report, and stores a
value that reads as the data. -/
structure Returned (P : Platform) (type : FeatureType) (content : DataValue) (st : ConvertState)
    (r : Converted) : Prop where
  ok : r.ok = true
  events : r.state.events = st.events
  store : ∃ x, r.store = some ⟨accessSize P type,x⟩ ∧ readNative P type (.ofOption x) = some content

/-- Data of a type that is shown in the engine comes back: into a null slot if it lies behind a
pointer. -/
def Returns (E : Env) (heap : Heap EngineNode) (type : FeatureType) : Prop :=
  ∀ low value content, Shows E.platform heap type low value content → Returnable E.platform E.canMalloc type content →
    ∀ slot, (type.holdsObject = true → slot = .zero) →
    ∀ st, Returned E.platform type content st (convertValueToNative E type (value.toJS heap) slot st)

theorem toUint32_newUint32 {n : ℤ} (hlow : 0 ≤ n) (hhigh : n < 2 ^ 32) : (newUint32 n).toUint32 = n := by
  rw [newUint32]
  split_ifs with hsmall
  · simp only [JSNumber.toUint32,JSNumber.trunc,Option.getD_some]
    omega
  · set fraction := (n.toNat - 2 ^ 31) * 2 ^ 21 with hdef
    have hfraction : fraction < 2 ^ 52 := by omega
    have hexponent : (1054 * 2 ^ 52 + fraction) / 2 ^ 52 = 1054 := by omega
    have hrest : (1054 * 2 ^ 52 + fraction) % 2 ^ 52 = fraction := by omega
    have hmagnitude : Binary64.magnitude 1054 fraction = n.toNat := by
      rw [Binary64.magnitude,if_neg (by omega),if_neg (by omega)]
      omega
    have htrunc := @JSNumber.trunc_float64 (1054 * 2 ^ 52 + fraction) (by omega) false
    rw [hexponent,hrest,hmagnitude] at htrunc
    simp only [Bool.false_eq_true,if_false,Nat.zero_add] at htrunc
    rw [JSNumber.toUint32,htrunc,Option.getD_some]
    omega

theorem toNative_newUint32 {type : PrimitiveType} {n : ℤ} (h : type.holds n = true) :
    toNative type (.number (newUint32 n)) = some (.int n) := by
  have hsmall : n ≤ 2147483647 → newUint32 n = .int n := fun hn => by rw [newUint32,if_pos hn]
  cases type <;> simp [PrimitiveType.holds,PrimitiveType.intRange] at h
  case int | int32 =>
    rw [hsmall (by omega)]
    rfl
  case int8 | int16 =>
    rw [hsmall (by omega)]
    simp only [toNative,narrow,if_true,Int.bmod_def,Option.some.injEq,Native.int.injEq]
    omega
  case uint8 | uint16 =>
    simp only [toNative,narrow,toUint32_newUint32 h.1 (by omega),Bool.false_eq_true,if_false,
      Option.some.injEq,Native.int.injEq]
    omega
  case uint32 =>
    simp only [toNative,toUint32_newUint32 h.1 h.2]

theorem convertPrimitive_number {type : PrimitiveType} {n : ℤ} (h : type.holds n = true)
    (st : ConvertState) : convertPrimitive E type (.number (newUint32 n)) st =
      .stored (accessSize E.platform (.primitive type)) (some (.int n)) st := by
  have hnative := toNative_newUint32 h
  cases type <;> simp [PrimitiveType.holds,PrimitiveType.intRange] at h <;>
    simp only [convertPrimitive,hnative] <;> rfl

theorem primitive_returns (type : PrimitiveType) : Returns E heap (.primitive type) := by
  intro low value content hshows _ slot _ st
  cases content with
  | bool b =>
    obtain ⟨rfl,rfl⟩ := hshows
    exact ⟨rfl,rfl,some (.bool b),rfl,rfl⟩
  | int n =>
    obtain ⟨hn,rfl⟩ := hshows
    simp only [EngineValue.toJS,convertValueToNative,convertPrimitive_number hn]
    refine ⟨rfl,rfl,some (.int n),rfl,?_⟩
    simp only [readNative,Slot.ofOption,readPrimitive,hn,if_true]
  | string text =>
    obtain ⟨rfl,htext,ptr,rc,-,rfl,hblock⟩ := hshows
    simp only [EngineValue.toJS,hblock,convertValueToNative]
    refine ⟨rfl,rfl,some (.string st.nextBlock (cString text)),rfl,?_⟩
    simp only [readNative,Slot.ofOption,readPrimitive,if_true,htext]
  | _ => exact hshows.elim

def ReadsFields (E : Env) (base : JSContext) (heap : Heap EngineNode) (ptr : ℕ)
    (properties : List (String × EngineValue)) : Prop :=
  ∀ p ∈ properties, E.js.getPropertyStr ptr p.1 =
    if p.1 = "__proto__" ∧ JSContext.isObject (p.2.toJS heap) = false then
      base.getPropertyStr ptr p.1
    else p.2.toJS heap

theorem readsFields_object (hjs : E.js = engineContext base heap) {ptr rc : ℕ}
    {properties : List (String × EngineValue)}
    (h : heap[ptr]? = some (some ⟨rc,.object properties⟩))
    (hnodup : (properties.map Prod.fst).Nodup) : ReadsFields E base heap ptr properties := by
  intro p hp
  rw [hjs]
  exact engineContext_property h hnodup hp

theorem memberFill_returns {m : ObjectMember FeatureType} (hm : Returns E heap m.type) {ptr : ℕ}
    {value : EngineValue} {content : DataValue}
    (hshows : Shows E.platform heap m.type low value content)
    (hreturnable : Returnable E.platform E.canMalloc m.type content)
    (hread : E.js.getPropertyStr ptr m.name = value.toJS heap) {memory : List (Write Native)}
    (hfree : ∀ w ∈ memory, ¬w.Overlaps m.offset (accessSize E.platform m.type))
    (st : ConvertState) :
    ∃ x, (memberFill E m (.object ptr) memory st).ok = true ∧ (memberFill E m (.object ptr) memory st).memory =
        ⟨m.offset,accessSize E.platform m.type,x⟩ :: memory ∧
      (memberFill E m (.object ptr) memory st).state.events = st.events ∧
      readNative E.platform m.type (.ofOption x) = some content := by
  have hsource : memberSource E m.name m.type (.object ptr) = .converted := by
    rw [memberSource,JSContext.getProperty,hread,if_neg hshows.ne_undefined]
  have hslot : m.type.holdsObject = true → load memory m.offset E.platform.pointerSize = .zero := by
    intro hobject
    rw [accessSize_of_holdsObject hobject] at hfree
    exact load_eq_zero (fun w hw hover => absurd hover (hfree w hw))
  obtain ⟨hok,hevents,x,hstore,hcontent⟩ := hm low value content hshows hreturnable _ hslot st
  refine ⟨x,?_,?_,?_,hcontent⟩
  · simp only [memberFill,convertMember,hsource,JSContext.getProperty,hread,hok]
  · simp only [memberFill,convertMember,hsource,JSContext.getProperty,hread,Converted.writeAt,hstore]
  · simp only [memberFill,convertMember,hsource,JSContext.getProperty,hread,hevents]

theorem convertMembers_returns {members : List (ObjectMember FeatureType)}
    (hreturns : ∀ m ∈ members, Returns E heap m.type)
    (hdata : ∀ m ∈ members, m.type.isData E.platform = true)
    (hapart : members.Pairwise (fun m m' => apart E.platform m m' = true)) {ptr : ℕ}
    {properties : List (String × EngineValue)} {contents : List DataValue}
    (hshows : ShowsMembers E.platform heap members low properties contents)
    (hreturnable : ReturnableMembers E.platform E.canMalloc members contents)
    (hread : ReadsFields E base heap ptr properties) {memory : List (Write Native)}
    (hfree : ∀ w ∈ memory, ∀ m ∈ members, ¬w.Overlaps m.offset (accessSize E.platform m.type))
    (st : ConvertState) :
    let r := convertMembers E members (.object ptr) memory st
    r.ok = true ∧ r.state.events = st.events ∧ (∃ writes, r.memory = writes ++ memory ∧
        ∀ w ∈ writes, ∃ m ∈ members, w.offset = m.offset ∧ w.width = accessSize E.platform m.type) ∧
      readMembers E.platform members r.memory = some contents := by
  induction members generalizing properties contents memory st with
  | nil =>
    obtain ⟨-,rfl⟩ := hshows
    exact ⟨rfl,rfl,⟨[],rfl,fun w hw => absurd hw List.not_mem_nil⟩,rfl⟩
  | cons m members ih =>
    obtain ⟨value,properties',content,contents',rfl,rfl,hvalue,hrest⟩ := hshows
    obtain ⟨hproto,hcontent,hreturnable'⟩ := hreturnable
    rw [List.pairwise_cons] at hapart
    have hfield : E.js.getPropertyStr ptr m.name = value.toJS heap := by
      rw [hread (m.name,value) List.mem_cons_self]
      refine if_neg (fun hlost => ?_)
      rw [hvalue.isObject,hproto hlost.1] at hlost
      exact Bool.noConfusion hlost.2
    obtain ⟨x,hok,hmemory,hevents,hx⟩ :=
      memberFill_returns (hreturns m List.mem_cons_self) hvalue hcontent hfield
        (fun w hw => hfree w hw m List.mem_cons_self) st
    have hpos := accessSize_pos (hdata m List.mem_cons_self)
    have hfree' : ∀ w ∈ (memberFill E m (.object ptr) memory st).memory, ∀ m' ∈ members,
        ¬w.Overlaps m'.offset (accessSize E.platform m'.type) := by
      intro w hw m' hm'
      rw [hmemory] at hw
      obtain rfl | hw := List.mem_cons.mp hw
      · have hpair := hapart.1 m' hm'
        simp only [apart,Bool.or_eq_true,decide_eq_true_eq] at hpair
        unfold Write.Overlaps
        dsimp only
        omega
      · exact hfree w hw m' (List.mem_cons_of_mem _ hm')
    obtain ⟨hokRest,heventsRest,⟨writes,hwrites,hinside⟩,hrestRead⟩ :=
      ih (fun m hm => hreturns m (List.mem_cons_of_mem _ hm))
        (fun m hm => hdata m (List.mem_cons_of_mem _ hm)) hapart.2 hrest hreturnable'
        (fun p hp => hread p (List.mem_cons_of_mem _ hp)) hfree'
        (memberFill E m (.object ptr) memory st).state
    have hall := hwrites.trans (congrArg (writes ++ ·) hmemory)
    simp only [convertMembers_cons,if_pos hok]
    refine ⟨hokRest,heventsRest.trans hevents,?_,?_⟩
    · refine ⟨writes ++ [⟨m.offset,accessSize E.platform m.type,x⟩],?_,?_⟩
      · rw [hall,List.append_assoc]
        rfl
      · intro w hw
        obtain hw | hw := List.mem_append.mp hw
        · obtain ⟨m',hm',hplace⟩ := hinside w hw
          exact ⟨m',List.mem_cons_of_mem _ hm',hplace⟩
        · obtain rfl := List.mem_singleton.mp hw
          exact ⟨m,List.mem_cons_self,rfl,rfl⟩
    · -- the later writes lie in other members
      have hlater : ∀ w ∈ writes, ¬w.Overlaps m.offset (accessSize E.platform m.type) := by
        intro w hw
        obtain ⟨m',hm',hoffset,hwidth⟩ := hinside w hw
        have hpair := hapart.1 m' hm'
        simp only [apart,Bool.or_eq_true,decide_eq_true_eq] at hpair
        unfold Write.Overlaps
        rw [hoffset,hwidth]
        omega
      refine readMembers_cons_eq_some.mpr ⟨content,contents',rfl,?_,hrestRead⟩
      rw [hall,load_append_of_not_overlaps hlater,load_cons_self hpos]
      exact hx

theorem convertElements_returns {type : FeatureType} (hreturns : Returns E heap type)
    {elements : List EngineValue} {contents : List DataValue}
    (hshows : List.Forall₂ (fun element content =>
      Shows E.platform heap type low element content) elements contents)
    (hreturnable : ∀ content ∈ contents, Returnable E.platform E.canMalloc type content)
    {width room : ℕ} (hroom : width * contents.length ≤ room) (st : ConvertState) :
    let r := convertElements width (convertValueToNative E type) (elements.map (·.toJS heap)) room st
    r.1 = true ∧ r.2.2.events = st.events ∧
      r.2.1.mapM (fun element => readNative E.platform type (.ofOption element)) =
        some contents := by
  induction hshows generalizing room st with
  | nil => exact ⟨rfl,rfl,rfl⟩
  | @cons element content elements contents hshows hrest ih =>
    rw [List.length_cons,Nat.mul_succ] at hroom
    have hcheck : (st.check (element.toJS heap != .undefined)).place (width ≤ room) = st := by
      rw [bne_iff_ne.mpr hshows.ne_undefined,decide_eq_true (by omega : width ≤ room)]
      rfl
    obtain ⟨hok,hevents,x,hstore,hx⟩ := hreturns low element content hshows
      (hreturnable content List.mem_cons_self) .zero (fun _ => rfl) st
    obtain ⟨hokRest,heventsRest,hread⟩ :=
      ih (fun content hc => hreturnable content (List.mem_cons_of_mem _ hc)) (by omega : _ ≤ room - width)
        (convertValueToNative E type (element.toJS heap) .zero st).state
    simp only [List.map_cons,convertElements,hcheck,if_pos hok]
    refine ⟨hokRest,heventsRest.trans hevents,?_⟩
    refine mapM_cons_eq_some.mpr ⟨content,contents,rfl,?_,hread⟩
    rw [Converted.content,hstore]
    exact hx

theorem shows_structMap (hjs : E.js = engineContext base heap) {size : ℕ} {members : List (ObjectMember FeatureType)}
    (hdata : (FeatureType.structMap size members).isData E.platform = true) {value : EngineValue}
    {content : DataValue} (h : Shows E.platform heap (.structMap size members) low value content) :
    ∃ ptr properties contents, content = .record contents ∧ value.toJS heap = .object ptr ∧
      E.js.isPlainObject (.object ptr) = true ∧ ReadsFields E base heap ptr properties ∧
      ShowsMembers E.platform heap members (ptr + 1) properties contents := by
  obtain ⟨ptr,rc,properties,contents,-,rfl,rfl,hblock,hshown⟩ := h
  have hnodup : (properties.map Prod.fst).Nodup := by
    rw [hshown.names]
    exact List.pairwise_map.mpr ((isData_structMap hdata).2.imp (fun h => h.1))
  refine ⟨ptr,properties,contents,rfl,?_,?_,readsFields_object hjs hblock hnodup,hshown⟩
  · simp only [EngineValue.toJS,hblock]
  · rw [hjs]
    exact engineContext_plain hblock

theorem shows_array (hjs : E.js = engineContext base heap) {type : FeatureType}
    {value : EngineValue} {content : DataValue}
    (h : Shows E.platform heap (.array type) low value content) :
    ∃ ptr elements contents, content = .list contents ∧ value.toJS heap = .object ptr ∧
      E.js.isArray (.object ptr) = true ∧ E.js.arraySize (.object ptr) = contents.length ∧
      (List.range contents.length).map (E.js.arrayGet (.object ptr)) = elements.map (·.toJS heap) ∧
      bufferSize E.platform type contents.length = elementSize E.platform type * contents.length ∧
      arrayFits E.platform type contents.length = true ∧
      List.Forall₂ (fun element content =>
        Shows E.platform heap type (ptr + 1) element content) elements contents := by
  obtain ⟨ptr,rc,elements,contents,-,rfl,rfl,hblock,hsize,hshown⟩ := h
  obtain ⟨-,hmax,hspace⟩ := of_decide_eq_true hsize
  have hlength := hshown.length_eq
  unfold intMax at hmax
  rw [Int.toNat_natCast] at hspace
  have hpresent : ∀ element ∈ elements, element.toJS heap ≠ .exception := by
    intro element hmem
    obtain ⟨i,hi,rfl⟩ := List.getElem_of_mem hmem
    exact (hshown.get hi (by omega)).ne_exception
  refine ⟨ptr,elements,contents,rfl,?_,?_,?_,?_,Nat.mod_eq_of_lt hspace,hsize,hshown⟩
  · simp only [EngineValue.toJS,hblock]
  · rw [hjs]
    exact (engineContext_array hblock).1
  · rw [hjs,(engineContext_array hblock).2,hlength]
    omega
  · rw [← hlength,hjs]
    exact engineContext_elements hblock hpresent

theorem convertValueToNative_returns (hjs : E.js = engineContext base heap) {type : FeatureType}
    (hdata : type.isData E.platform = true) : Returns E heap type := by
  induction type using FeatureType.induction with
  | primitive type => exact primitive_returns type
  | optional type value ih =>
    intro low value content hshows hreturnable slot hslot st
    obtain ⟨hok,hevents,hstore⟩ := ih hdata low value content hshows hreturnable slot hslot st
    exact ⟨hok,hevents,hstore⟩
  | structMap size members ih =>
    intro low value content hshows hreturnable slot hslot st
    obtain ⟨hmembers,hpairs⟩ := isData_structMap hdata
    obtain ⟨ptr,properties,contents,rfl,hvalue,hplain,hfields,hshown⟩ :=
      shows_structMap hjs hdata hshows
    obtain ⟨hok,hevents,-,hread⟩ :=
      convertMembers_returns (fun m hm => ih m hm (hmembers m hm)) hmembers
        (hpairs.imp (fun h => h.2)) hshown hreturnable hfields
        (fun w hw => absurd hw List.not_mem_nil) st.alloc
    rw [hvalue,hslot rfl,convertValueToNative]
    simp only [JSContext.isNullish,JSContext.isNull,JSContext.isUndefined,Bool.or_false,
      Bool.false_eq_true,if_false,hplain,if_true]
    refine ⟨hok,hevents,_,rfl,?_⟩
    simp only [Slot.ofOption,readNative,hread,Option.map_some]
  | array type ih =>
    intro low value content hshows hreturnable slot hslot st
    obtain ⟨ptr,elements,contents,rfl,hvalue,harray,hasize,hvalues,hbytes,hsize,hshown⟩ :=
      shows_array hjs hshows
    rw [hvalue,hslot rfl,convertValueToNative,convertArray]
    simp only [JSContext.isNullish,JSContext.isNull,JSContext.isUndefined,Bool.or_false,
      Bool.false_eq_true,if_false,harray,hasize,if_true,arrayTarget]
    split_ifs with hempty
    · obtain rfl := List.length_eq_zero_iff.mp hempty
      refine ⟨rfl,rfl,_,rfl,?_⟩
      simp only [Slot.ofOption,readNative]
      rw [if_pos ⟨hsize,Nat.le_refl 0⟩]
      rfl
    · have hne : contents ≠ [] := fun hnil => hempty (by rw [hnil,List.length_nil])
      obtain ⟨hpos,hmalloc,hreturnable⟩ := hreturnable hne
      have hnonzero : (elementSize E.platform type * contents.length != 0) = true :=
        bne_iff_ne.mpr (Nat.mul_ne_zero hpos hempty)
      set buffer := st.alloc.mallocBuffer E (elementSize E.platform type * contents.length)
        with hbuffer
      obtain ⟨hok,hevents,hread⟩ := convertElements_returns (ih hdata) hshown hreturnable (Nat.le_refl _) buffer
      rw [hvalues,hbytes]
      have hquiet : buffer.events = st.events := by
        simp [hbuffer,ConvertState.mallocBuffer,hnonzero,hmalloc,ConvertState.check]
      refine ⟨hok,hevents.trans hquiet,_,rfl,?_⟩
      have hint : toInt contents.length = contents.length :=
        toInt_of_le (by omega) (of_decide_eq_true hsize).2.1
      have hall := length_mapM hread
      simp only [Slot.ofOption,readNative,hint,Int.toNat_natCast]
      rw [if_pos ⟨hsize,hall.le⟩,List.take_of_length_le hall.ge]
      exact congrArg (Option.map DataValue.list) hread
  | _ => simp [FeatureType.isData] at hdata

end Return

section Loss

variable {E : Env}

theorem converts_object {type : FeatureType} (hdata : type.isData P = true)
    (hscalar : type.holdsObject = false) {target : JSValue}
    (hobject : JSContext.isObject target = true) : converts E type target = false := by
  cases target with
  | object id =>
    induction type using FeatureType.induction with
    | primitive type =>
      cases type <;> first
        | rfl
        | simp [FeatureType.isData,PrimitiveType.isData,PrimitiveType.intRange] at hdata
    | optional type value ih => exact ih hdata hscalar
    | structMap | array => exact Bool.noConfusion hscalar
    | _ => exact Bool.noConfusion hdata
  | _ => exact Bool.noConfusion hobject

theorem vettedElements_all {width room : ℕ} {accepts : JSValue → Bool} {vetted : JSValue → Prop}
    {values : List JSValue} (h : VettedElements width accepts vetted values room)
    (haccepts : ∀ value ∈ values, accepts value = true) : ∀ value ∈ values, vetted value := by
  induction values generalizing room with
  | nil => exact fun value hmem => absurd hmem List.not_mem_nil
  | cons first values ih =>
    obtain ⟨-,-,hfirst,hrest⟩ := h
    intro value hmem
    obtain rfl | hmem := List.mem_cons.mp hmem
    · exact hfirst
    · exact ih (hrest (haccepts first List.mem_cons_self))
        (fun value hmem => haccepts value (List.mem_cons_of_mem _ hmem)) value hmem

def LosesNothing (E : Env) (heap : Heap EngineNode) (type : FeatureType) : Prop :=
  ∀ low value content, Shows E.platform heap type low value content →
    converts E type (value.toJS heap) = true → Vetted E type (value.toJS heap) →
    Returnable E.platform E.canMalloc type content

theorem convertMembers_loses {members : List (ObjectMember FeatureType)}
    (hproto : ∀ id, JSContext.isObject (base.getPropertyStr id "__proto__") = true)
    (hloses : ∀ m ∈ members, LosesNothing E heap m.type)
    (hdata : ∀ m ∈ members, m.type.isData E.platform = true) {ptr : ℕ}
    {properties : List (String × EngineValue)} {contents : List DataValue}
    (hshows : ShowsMembers E.platform heap members low properties contents)
    (hread : ReadsFields E base heap ptr properties)
    (hconverts : convertsMembers E members (.object ptr) = true)
    (hvetted : VettedMembers E members (.object ptr)) :
    ReturnableMembers E.platform E.canMalloc members contents := by
  induction members generalizing properties contents with
  | nil => exact trivial
  | cons m members ih =>
    obtain ⟨value,properties',content,contents',rfl,rfl,hvalue,hrest⟩ := hshows
    rw [convertsMembers_cons,Bool.and_eq_true] at hconverts
    have hfield := hread (m.name,value) List.mem_cons_self
    have hsource : memberSource E m.name m.type (.object ptr) = .converted := by
      rw [memberSource,JSContext.getProperty,hfield,if_neg]
      split_ifs with hlost
      · intro hundefined
        have hobject := hproto ptr
        rw [← hlost.1,hundefined] at hobject
        exact Bool.noConfusion hobject
      · exact hvalue.ne_undefined
    have haccepts : converts E m.type (E.js.getPropertyStr ptr m.name) = true := by
      have hmember := hconverts.1
      simp only [memberAccepts,memberConverts,hsource] at hmember
      exact hmember
    have hkept : ¬(m.name = "__proto__" ∧ JSContext.isObject (value.toJS heap) = false) := by
      intro hlost
      have hscalar := hvalue.isObject.symm.trans hlost.2
      rw [hfield,if_pos hlost,hlost.1,converts_object (hdata m List.mem_cons_self) hscalar (hproto ptr)] at haccepts
      exact Bool.noConfusion haccepts
    rw [hfield,if_neg hkept] at haccepts
    have hmember : Vetted E m.type (value.toJS heap) := by
      have hvet := hvetted.1 hsource
      rw [JSContext.getProperty,hfield,if_neg hkept] at hvet
      exact hvet
    refine ⟨fun hname => ?_,?_,?_⟩
    · rw [← hvalue.isObject]
      exact Bool.eq_true_of_not_eq_false (fun hfalse => hkept ⟨hname,hfalse⟩)
    · exact hloses m List.mem_cons_self low value content hvalue haccepts hmember
    · exact ih (fun m hm => hloses m (List.mem_cons_of_mem _ hm))
        (fun m hm => hdata m (List.mem_cons_of_mem _ hm)) hrest
        (fun p hp => hread p (List.mem_cons_of_mem _ hp)) hconverts.2 (hvetted.2 hconverts.1)

theorem convertValueToNative_loses (hjs : E.js = engineContext base heap)
    (hproto : ∀ id, JSContext.isObject (base.getPropertyStr id "__proto__") = true)
    {type : FeatureType} (hdata : type.isData E.platform = true) : LosesNothing E heap type := by
  induction type using FeatureType.induction with
  | primitive type =>
    intro low value content hshows _ _
    cases content with
    | illFormed text => exact hshows.elim
    | _ => exact trivial
  | optional type value ih => exact ih hdata
  | structMap size members ih =>
    intro low value content hshows hconverts hvetted
    have hmembers := (isData_structMap hdata).1
    obtain ⟨ptr,properties,contents,rfl,hvalue,hplain,hfields,hshown⟩ :=
      shows_structMap hjs hdata hshows
    rw [hvalue] at hconverts hvetted
    simp only [converts,hplain,JSContext.isNullish,JSContext.isNull,JSContext.isUndefined,
      Bool.or_false,Bool.false_or,Bool.true_and] at hconverts
    exact convertMembers_loses hproto (fun m hm => ih m hm (hmembers m hm)) hmembers hshown hfields
      hconverts (hvetted hplain)
  | array type ih =>
    intro low value content hshows hconverts hvetted
    obtain ⟨ptr,elements,contents,rfl,hvalue,harray,hasize,hvalues,hbytes,hsize,hshown⟩ :=
      shows_array hjs hshows
    intro hne
    have hlength : contents.length ≠ 0 := fun hzero => hne (List.length_eq_zero_iff.mp hzero)
    rw [hvalue] at hconverts hvetted
    obtain ⟨hnonzero,hmalloc,helements⟩ := hvetted harray (by rw [hasize]; exact hlength)
    rw [hasize,hbytes] at hnonzero hmalloc
    rw [hasize,hvalues] at helements
    have hall : ∀ v ∈ elements.map (·.toJS heap), converts E type v = true := by
      intro v hv
      rw [← hvalues] at hv
      obtain ⟨i,hi,rfl⟩ := List.mem_map.mp hv
      simp only [converts,harray,hasize,JSContext.isNullish,JSContext.isNull,
        JSContext.isUndefined,Bool.or_false,Bool.false_or,Bool.true_and,
        List.all_eq_true] at hconverts
      exact hconverts i hi
    have hvet := vettedElements_all helements hall
    refine ⟨fun hzero => hnonzero (by rw [hzero,Nat.zero_mul]),hmalloc,?_⟩
    intro content hcontent
    obtain ⟨i,hi,rfl⟩ := List.getElem_of_mem hcontent
    have hin : i < elements.length := by
      rw [hshown.length_eq]
      exact hi
    have hmem : elements[i].toJS heap ∈ elements.map (·.toJS heap) :=
      List.mem_map_of_mem (List.getElem_mem hin)
    exact ih hdata (ptr + 1) elements[i] contents[i] (hshown.get hin hi) (hall _ hmem) (hvet _ hmem)
  | _ => exact Bool.noConfusion hdata

end Loss

section RoundTrip

variable {T : TargetEnv} {E : Env}

theorem isData_protobufFree {type : FeatureType} (h : type.isData P = true) : type.protobufFree = true := by
  induction type using FeatureType.induction with
  | structMap size members ih =>
    rw [FeatureType.protobufFree,protobufFreeMembers_iff]
    exact fun m hm => ih m hm ((isData_structMap h).1 m hm)
  | optional type value ih => exact ih h
  | array type ih => exact ih h
  | protobuf => exact Bool.noConfusion h
  | _ => rfl

theorem decodedMembers_of_returnable {members : List (ObjectMember FeatureType)}
    (h : ∀ m ∈ members, ∀ slot content, readNative P m.type slot = some content →
      Returnable P canMalloc m.type content → content.decoded T = content) {memory : List (Write Native)}
    {contents : List DataValue} (hread : readMembers P members memory = some contents)
    (hreturnable : ReturnableMembers P canMalloc members contents) : decodedAll T contents = contents := by
  induction members generalizing contents with
  | nil =>
    obtain rfl : contents = [] := (Option.some.inj hread).symm
    rfl
  | cons m members ih =>
    obtain ⟨content,contents',rfl,hcontent,hrest⟩ := readMembers_cons_eq_some.mp hread
    obtain ⟨-,hfirst,hreturnable⟩ := hreturnable
    rw [decodedAll,h m List.mem_cons_self _ content hcontent hfirst,
      ih (fun m hm => h m (List.mem_cons_of_mem _ hm)) hrest hreturnable]

theorem decodedAll_of_returnable {type : FeatureType}
    (h : ∀ slot content, readNative P type slot = some content → Returnable P canMalloc type content →
      content.decoded T = content) {slots : List (Option Native)} {contents : List DataValue}
    (hread : slots.mapM (fun element => readNative P type (.ofOption element)) = some contents)
    (hreturnable : ∀ content ∈ contents, Returnable P canMalloc type content) : decodedAll T contents = contents := by
  induction slots generalizing contents with
  | nil =>
    obtain rfl : [] = contents := Option.some.inj hread
    rfl
  | cons slot slots ih =>
    obtain ⟨content,contents',rfl,hcontent,hrest⟩ := mapM_cons_eq_some.mp hread
    rw [List.forall_mem_cons] at hreturnable
    rw [decodedAll,h _ content hcontent hreturnable.1,ih hrest hreturnable.2]

/-- The engine replaces nothing in data that comes back. -/
theorem decoded_of_returnable {type : FeatureType} {slot : Slot Native} {content : DataValue}
    (hread : readNative P type slot = some content) (hreturnable : Returnable P canMalloc type content) :
    content.decoded T = content := by
  induction type using FeatureType.induction generalizing slot content with
  | primitive type =>
    cases content with
    | illFormed text => exact hreturnable.elim
    | record | list =>
      simp only [readNative,readPrimitive] at hread
      split at hread <;> (try split_ifs at hread) <;> cases hread
    | _ => rfl
  | optional type value ih => exact ih hread hreturnable
  | structMap size members ih =>
    simp only [readNative] at hread
    split at hread
    · obtain ⟨contents,hcontents,rfl⟩ := Option.map_eq_some_iff.mp hread
      exact congrArg DataValue.record
        (decodedMembers_of_returnable (fun m hm slot content => ih m hm) hcontents hreturnable)
    · cases hread
  | array type ih =>
    simp only [readNative] at hread
    split at hread
    · split_ifs at hread
      obtain ⟨contents,hcontents,rfl⟩ := Option.map_eq_some_iff.mp hread
      by_cases hempty : contents = []
      · rw [hempty]
        rfl
      · exact congrArg DataValue.list
          (decodedAll_of_returnable (fun slot content => ih) hcontents (hreturnable hempty).2.2)
    · cases hread
  | _ => cases hread

/-- A native value goes to the engine and back: both conversions succeed, none of their checks fails,
and the new value reads as the old one. -/
def ValueRoundTrips (T : TargetEnv) (E : Env) (type : FeatureType) (native : Slot Native)
    (target : Option EngineValue) (s : EngineState) (st : ConvertState) : Prop :=
  let r := convertValueToTarget T type native target s
  r.ok = true ∧ r.state.fault = s.fault ∧
  ∃ value, r.target = some value ∧
    let c := convertValueToNative (T.back E r.state.heap) type (value.toJS r.state.heap) .zero st
    c.ok = true ∧ c.state.events = st.events ∧
    ∃ x, c.store = some ⟨accessSize T.platform type,x⟩ ∧
      readNative T.platform type (.ofOption x) = readNative T.platform type native

/-- A value of a type of data goes to the engine and back unharmed exactly if it is returnable. -/
theorem valueRoundTrips_iff_returnable (hproto : ∀ id, JSContext.isObject (E.js.getPropertyStr id "__proto__") = true)
    {type : FeatureType} (hdata : type.isData T.platform = true) {native : Slot Native}
    {content : DataValue} (hread : readNative T.platform type native = some content)
    (target : Option EngineValue) (s : EngineState) (st : ConvertState) :
    ValueRoundTrips T E type native target s st ↔
      Returnable T.platform E.canMalloc type content := by
  obtain ⟨hok,hfault,-,value,htarget,hshows⟩ :=
    convertValueToTarget_shows hdata native target s content hread
  have hreturns := fun heap => @convertValueToNative_returns E.js heap (T.back E heap) rfl type hdata
  set heap := (convertValueToTarget T type native target s).state.heap with hheap
  have hfree := isData_protobufFree hdata
  constructor
  · rintro ⟨-,-,value',htarget',hback,hevents,x,hstore,hsame⟩
    obtain rfl := Option.some.inj (htarget.symm.trans htarget')
    rw [convertValueToNative_ok] at hback
    obtain ⟨log,hlog,hharmless⟩ := @convertValueToNative_reports (T.back E heap) type hfree
      (value.toJS heap) .zero st
    have hempty : log = [] := by
      rw [hevents] at hlog
      exact List.self_eq_append_right.mp hlog
    have hvetted := hharmless.mp (by simp [hempty])
    have hdecoded := convertValueToNative_loses rfl hproto hdata _ value _ hshows hback hvetted
    obtain ⟨-,-,x',hstore',hx'⟩ := hreturns heap _ value _ hshows hdecoded .zero (fun _ => rfl) st
    obtain rfl : x' = x := by
      rw [hstore] at hstore'
      exact (Store.mk.inj (Option.some.inj hstore')).2.symm
    have hkept : content.decoded T = content := Option.some.inj (hx'.symm.trans (hsame.trans hread))
    rwa [hkept] at hdecoded
  · intro hreturnable
    rw [decoded_of_returnable hread hreturnable] at hshows
    obtain ⟨hback,hevents,x,hstore,hx⟩ := hreturns heap _ value content hshows hreturnable .zero
      (fun _ => rfl) st
    exact ⟨hok,hfault,value,htarget,hback,hevents,x,hstore,hx.trans hread.symm⟩

def plainTargets : TargetEnv where
  platform := .bits64
  newInt64 := .int
  newString _ := ""
  parseJson _ := false
  interfaceTarget _ := none

def plainEngine : Env :=
  .ofEngine .bits64 (.ofProperties (fun _ name => if name = "__proto__" then .object 0 else .undefined))

theorem plainEngine_proto (id : ℕ) : JSContext.isObject (plainEngine.js.getPropertyStr id "__proto__") = true := rfl

/-- `struct { string host; uint32? port; int16[] levels; struct { boolean on; } __proto__; }`. -/
def serverType : FeatureType :=
  .structMap 32 [⟨"host",.primitive .string,0⟩,⟨"port",.optional (.primitive .uint32) {},8⟩,
    ⟨"levels",.array (.primitive .int16),16⟩,
    ⟨"__proto__",.structMap 1 [⟨"on",.primitive .boolean,0⟩],24⟩]

def server : Native :=
  .structMap 0 [] [⟨0,8,some (.string 1 "pool")⟩,⟨8,4,some (.int 4000000000)⟩,
    ⟨16,8,some (.array 2 (.primitive .int16) 2 (some 3) [some (.int (-7)),none])⟩,
    ⟨24,8,some (.structMap 4 [] [⟨0,1,some (.bool true)⟩])⟩]

theorem server_roundTrips :
    ValueRoundTrips plainTargets plainEngine serverType (.value server) none ⟨[none],false⟩ {} := by
  have hread : readNative plainTargets.platform serverType (.value server) =
      some (.record [.string "pool",.int 4000000000,.list [.int (-7),.int 0],.record [.bool true]]) := rfl
  have hsize : elementSize plainTargets.platform (.primitive .int16) ≠ 0 := by decide
  refine (valueRoundTrips_iff_returnable plainEngine_proto (by decide) hread none _ {}).mpr ?_
  simp [Returnable,ReturnableMembers,serverType,plainEngine,Env.ofEngine,hsize,FeatureType.holdsObject]

/-- `struct { int32 __proto__; }`. -/
def protoType : FeatureType := .structMap 4 [⟨"__proto__",.primitive .int32,0⟩]

def protoFive : Slot Native := .value (.structMap 0 [] [⟨0,4,some (.int 5)⟩])

def nestedType : FeatureType := .array (.optional (.optional (.primitive .int32) {}) {})

def nestedSeven : Slot Native := .value (.array 0 nestedType 1 (some 1) [some (.int 7)])

/-- A number in a member `__proto__` does not come back, and elements without a size fail the check of
the buffer size. -/
theorem data_not_returned : (protoType.isData plainTargets.platform = true ∧
      (readNative plainTargets.platform protoType protoFive).isSome = true ∧
      ¬ValueRoundTrips plainTargets plainEngine protoType protoFive none ⟨[none],false⟩ {}) ∧
    (nestedType.isData plainTargets.platform = true ∧
      (readNative plainTargets.platform nestedType nestedSeven).isSome = true ∧
      ¬ValueRoundTrips plainTargets plainEngine nestedType nestedSeven none ⟨[none],false⟩ {}) := by
  refine ⟨⟨by decide,by decide,?_⟩,by decide,by decide,?_⟩
  · rintro ⟨-,-,value,hvalue,hok,-⟩
    obtain rfl := Option.some.inj hvalue
    exact absurd hok (by decide)
  · rintro ⟨-,-,value,hvalue,-,hevents,-⟩
    obtain rfl := Option.some.inj hvalue
    exact absurd hevents (by decide)

end RoundTrip
end FeatureRuntime
