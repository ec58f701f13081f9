import FeatureRuntime.Convertor

/-! Filling a struct: where the conversion of each member stores, and what its slot holds at the
end. The struct filled is the one of any call of `convertValueToNative`, nested ones included. -/
namespace FeatureRuntime

variable {E : Env} {P : Platform}

section StoreWidths

def Store.Fits (P : Platform) (type : FeatureType) (store : Option Store) : Prop :=
  ∀ s, store = some s → s.width = getValueSize P type ∧ 0 < s.width

theorem fits_none (type : FeatureType) : Store.Fits P type none := by simp [Store.Fits]

variable {type : FeatureType}

theorem fits_some {width : ℕ} {value : Option Native} (h : width = getValueSize P type) (hpos : 0 < width) :
    Store.Fits P type (some ⟨width,value⟩) := by
  rintro s ⟨⟩
  exact ⟨h,hpos⟩

theorem fits_pointer {value : Option Native} (h : P.pointerSize = getValueSize P type) :
    Store.Fits P type (some ⟨P.pointerSize,value⟩) := by
  refine fits_some h ?_
  rcases P.supported with hp | hp <;> omega

theorem getValueSize_optional (h : type.isOptional = false)
    (value : OptionalValue) : getValueSize P (.optional type value) = getValueSize P type := by
  cases type <;> first | rfl | simp [FeatureType.isOptional] at h

theorem convertPrimitive_fits (type : PrimitiveType) (target : JSValue) (st : ConvertState) :
    Store.Fits E.platform (.primitive type) (convertPrimitive E type target st).store := by
  cases type with
  | void => exact fits_none _
  | string =>
    simp only [convertPrimitive]
    split
    · exact fits_pointer rfl
    · cases target <;> first | exact fits_pointer rfl | exact fits_none _
  | anyRef =>
    simp only [convertPrimitive]
    split <;> exact fits_pointer rfl
  | jsonObj =>
    simp only [convertPrimitive]
    split
    · exact fits_pointer rfl
    · cases target with
      | object id => dsimp only; split <;> exact fits_pointer rfl
      | _ => exact fits_none _
  | arrayBuffer =>
    simp only [convertPrimitive]
    split
    · exact fits_pointer rfl
    · split <;> exact fits_pointer rfl
  | _ =>
    simp only [convertPrimitive]
    split
    · exact fits_some rfl (by decide)
    · exact fits_none _

/-- The stores of a conversion have the size of its type, which is not nested in two optionals. -/
theorem convertValueToNative_fits (type : FeatureType) (target : JSValue) (slot : Slot Native)
    (st : ConvertState) (h : type.isOptional = false) :
    Store.Fits E.platform type (convertValueToNative E type target slot st).store := by
  cases type with
  | primitive p => exact convertPrimitive_fits p target st
  | structMap size members =>
    simp only [convertValueToNative]
    split_ifs
    · exact fits_none _
    · split <;> first | exact fits_pointer rfl | exact fits_none _
    · exact fits_none _
  | optional t v => simp [FeatureType.isOptional] at h
  | callback ps rest =>
    simp only [convertValueToNative,convertCallback]
    split_ifs <;> first | exact fits_some rfl (by decide) | exact fits_none _
  | array t =>
    simp only [convertValueToNative,convertArray]
    split_ifs <;> first | exact fits_pointer rfl | exact fits_none _
  | promise t => exact fits_none _
  | interface d => exact fits_pointer rfl
  | protobuf d => exact fits_pointer rfl

theorem convertOptional_fits (value : OptionalValue) (st : ConvertState) (h : type.isOptional = false)
    (hcb : ∀ ps rest, type = .callback ps rest → P.pointerSize = 4) :
    Store.Fits P type (convertOptional P type value st).store := by
  cases type with
  | primitive p =>
    cases p with
    | string =>
      simp only [convertOptional]
      split
      · exact fits_none _
      · exact fits_pointer rfl
    | anyRef => exact fits_pointer rfl
    | jsonObj => exact fits_pointer rfl
    | _ => first | exact fits_some rfl (by decide) | exact fits_none _
  | optional t v => simp [FeatureType.isOptional] at h
  | callback ps rest => exact fits_pointer (hcb ps rest rfl)
  | _ => exact fits_pointer rfl

end StoreWidths

/-- The layout that the C compiler gives a struct: members follow each other inside the struct, and
no optional header stands below another one. -/
structure StructLayout (P : Platform) (size : ℕ) (members : List (ObjectMember FeatureType)) :
    Prop where
  ordered : members.Pairwise (fun m m' => m.offset + getValueSize P m.type ≤ m'.offset)
  bounded : ∀ m ∈ members, m.offset + getValueSize P m.type ≤ size
  single : ∀ m ∈ members, ∀ t v, m.type = .optional t v → t.isOptional = false

def Reached (E : Env) (members : List (ObjectMember FeatureType)) (target : JSValue)
    (m : ObjectMember FeatureType) : Prop :=
  ∃ pre post, members = pre ++ m :: post ∧ convertsMembers E pre target = true

def DefaultedCallback (E : Env) (target : JSValue) (m : ObjectMember FeatureType) : Prop :=
  E.js.getProperty target m.name = .undefined ∧
    ∃ parameters hasRest value, m.type = .optional (.callback parameters hasRest) value

def memberStore (E : Env) (m : ObjectMember FeatureType) (target : JSValue) (st : ConvertState) :
    Option Store :=
  match memberSource E m.name m.type target with
  | .default type value => (convertOptional E.platform type value st).store
  | .refused => none
  | .converted =>
    (convertValueToNative E m.type (E.js.getProperty target m.name) .zero st).store

def memberConverted (E : Env) (m : ObjectMember FeatureType) (target : JSValue) (st : ConvertState) : Converted :=
  match memberSource E m.name m.type target with
  | .default type value => convertOptional E.platform type value st
  | .refused => .fail st
  | .converted => convertValueToNative E m.type (E.js.getProperty target m.name) .zero st

theorem store_memberConverted (m : ObjectMember FeatureType) (target : JSValue) (st : ConvertState) :
    (memberConverted E m target st).store = memberStore E m target st := by
  unfold memberConverted memberStore
  cases memberSource E m.name m.type target <;> rfl

def structMemory (r : Converted) : List (Write Native) :=
  match r.content with
  | some (.structMap _ _ memory) => memory
  | _ => []

/-- The conversion of a JS object writes each member only inside its own bytes, touches no other
member and nothing behind the struct, and a successful one leaves in every member what the property
of the object, or the default, converts to. -/
structure FillsMembers (E : Env) (size : ℕ) (members : List (ObjectMember FeatureType))
    (target : JSValue) (st : ConvertState) (r : Converted) : Prop where
  inside : ∀ w ∈ structMemory r, ∃ m ∈ members,
    w.offset = m.offset ∧ w.Inside m.offset (getValueSize E.platform m.type)
  apart : ∀ w ∈ structMemory r, ∀ m ∈ members, w.offset ≠ m.offset →
    ¬w.Overlaps m.offset (getValueSize E.platform m.type)
  bounded : ∀ w ∈ structMemory r, w.offset + w.width ≤ size
  holds : r.ok = true → ∀ pre m post, members = pre ++ m :: post →
    load (structMemory r) m.offset (getValueSize E.platform m.type) =
      .ofOption ((memberStore E m target (convertMembers E pre target [] st.alloc).state).bind (·.value))

section Fill

variable {members : List (ObjectMember FeatureType)} {target : JSValue}

theorem convertValueToNative_slot (type : FeatureType) (target : JSValue) (slot : Slot Native)
    (st : ConvertState) (h : type.isOptional = false)
    (hslot : getValueSize E.platform type = E.platform.pointerSize → slot = .zero) :
    convertValueToNative E type target slot st = convertValueToNative E type target .zero st := by
  cases type with
  | structMap size members => rw [hslot rfl]
  | optional t v => simp [FeatureType.isOptional] at h
  | array t => rw [hslot rfl]
  | _ => rfl

def writeStore (offset : ℕ) (store : Option Store) (memory : List (Write Native)) : List (Write Native) :=
  (store.map (fun s => ⟨offset,s.width,s.value⟩)).toList ++ memory

theorem writeAt_eq (r : Converted) (offset : ℕ) (memory : List (Write Native)) :
    r.writeAt offset memory = writeStore offset r.store memory := by
  unfold Converted.writeAt writeStore
  cases r.store <;> rfl

variable {type : FeatureType}

theorem convertValueToNative_optional_slot
    (hsingle : ∀ t v, type = .optional t v → t.isOptional = false) (target : JSValue)
    (slot : Slot Native) (st : ConvertState)
    (hslot : getValueSize E.platform type = E.platform.pointerSize → slot = .zero) :
    convertValueToNative E type target slot st = convertValueToNative E type target .zero st := by
  cases type with
  | optional t v =>
    have hopt := hsingle t v rfl
    rw [getValueSize_optional hopt] at hslot
    exact convertValueToNative_slot t target slot st hopt hslot
  | _ => exact convertValueToNative_slot _ target slot st rfl hslot

theorem convertValueToNative_optional_fits
    (hsingle : ∀ t v, type = .optional t v → t.isOptional = false) (target : JSValue)
    (slot : Slot Native) (st : ConvertState) :
    Store.Fits E.platform type (convertValueToNative E type target slot st).store := by
  cases type with
  | optional t v =>
    have hopt := hsingle t v rfl
    rw [Store.Fits,getValueSize_optional hopt]
    exact convertValueToNative_fits t target slot st hopt
  | _ => exact convertValueToNative_fits _ target slot st rfl

theorem memberSource_default {name : String} {mtype type : FeatureType} {value : OptionalValue}
    (h : memberSource E name mtype target = .default type value) :
    E.js.getProperty target name = .undefined ∧ mtype = .optional type value := by
  unfold memberSource at h
  split_ifs at h with hfield
  refine ⟨hfield,?_⟩
  cases mtype with
  | optional t v => simpa [missingField] using h
  | primitive p => cases p <;> simp [missingField] at h
  | _ => simp [missingField] at h

variable {memory : List (Write Native)}

/-- Where only zero bytes reach into a member, it is filled as on its own. -/
theorem memberFill_eq (target : JSValue) (m : ObjectMember FeatureType)
    (hsingle : ∀ t v, m.type = .optional t v → t.isOptional = false)
    (hzero : ∀ w ∈ memory, w.Overlaps m.offset (getValueSize E.platform m.type) → w.value = none)
    (st : ConvertState) :
    memberFill E m target memory st = ⟨(memberConverted E m target st).ok,
        writeStore m.offset (memberConverted E m target st).store memory,
        (memberConverted E m target st).state⟩ := by
  have hslot : getValueSize E.platform m.type = E.platform.pointerSize →
      load memory m.offset E.platform.pointerSize = .zero := by
    intro hsize
    rw [hsize] at hzero
    exact load_eq_zero hzero
  unfold memberFill convertMember memberConverted
  cases memberSource E m.name m.type target with
  | default type value => simp only [writeAt_eq]
  | refused => rfl
  | converted =>
    dsimp only
    rw [convertValueToNative_optional_slot hsingle _ _ _ hslot,writeAt_eq]

theorem memberFill_memory (target : JSValue) (m : ObjectMember FeatureType)
    (hsingle : ∀ t v, m.type = .optional t v → t.isOptional = false)
    (hzero : ∀ w ∈ memory, w.Overlaps m.offset (getValueSize E.platform m.type) → w.value = none)
    (st : ConvertState) :
    (memberFill E m target memory st).memory = writeStore m.offset (memberStore E m target st) memory := by
  rw [memberFill_eq target m hsingle hzero,store_memberConverted]

/-- The store of a member has the size of the member, unless it is the default of a callback. -/
theorem memberStore_fits (m : ObjectMember FeatureType)
    (hsingle : ∀ t v, m.type = .optional t v → t.isOptional = false)
    (hcb : E.platform.pointerSize = 4 ∨ ¬DefaultedCallback E target m) (st : ConvertState) :
    Store.Fits E.platform m.type (memberStore E m target st) := by
  unfold memberStore
  cases hsource : memberSource E m.name m.type target with
  | default type value =>
    obtain ⟨hfield,hmissing⟩ := memberSource_default hsource
    have hopt := hsingle type value hmissing
    rw [hmissing,Store.Fits,getValueSize_optional hopt]
    refine convertOptional_fits value st hopt (fun ps rest heq => ?_)
    exact hcb.resolve_right (not_not_intro ⟨hfield,ps,rest,value,by rw [hmissing,heq]⟩)
  | refused => exact fits_none _
  | converted => exact convertValueToNative_optional_fits hsingle _ _ _

theorem convertMembers_append (pre post : List (ObjectMember FeatureType)) (target : JSValue)
    (memory : List (Write Native)) (st : ConvertState) :
    convertMembers E (pre ++ post) target memory st =
      if (convertMembers E pre target memory st).ok then
        convertMembers E post target (convertMembers E pre target memory st).memory
          (convertMembers E pre target memory st).state
      else convertMembers E pre target memory st := by
  induction pre generalizing memory st with
  | nil => rfl
  | cons m pre ih =>
    rw [List.cons_append,convertMembers_cons,convertMembers_cons]
    by_cases hok : (memberFill E m target memory st).ok = true
    · simp only [if_pos hok]
      exact ih _ _
    · simp only [if_neg hok]

theorem load_writeStore {store : Option Store} (hfits : Store.Fits P type store) {offset : ℕ}
    (hzero : ∀ w ∈ memory, w.Overlaps offset (getValueSize P type) → w.value = none) :
    load (writeStore offset store memory) offset (getValueSize P type) = .ofOption (store.bind (·.value)) := by
  cases store with
  | none => exact load_eq_zero hzero
  | some s =>
    obtain ⟨hwidth,hpos⟩ := hfits s rfl
    simp only [writeStore,Option.map_some,Option.toList_some,List.cons_append,List.nil_append,
      Option.bind_some,← hwidth]
    exact load_cons_self hpos s.value memory

/-- The loop over the members, when no default is stored beyond its member: the log grows by writes
of exactly the members, and after a full run every member reads as its own store. -/
theorem convertMembers_fills
    (hordered : members.Pairwise (fun m m' => m.offset + getValueSize E.platform m.type ≤ m'.offset))
    (hsingle : ∀ m ∈ members, ∀ t v, m.type = .optional t v → t.isOptional = false)
    (hcb : ∀ m, Reached E members target m → E.platform.pointerSize = 4 ∨ ¬DefaultedCallback E target m)
    (memory : List (Write Native))
    (hfree : ∀ w ∈ memory, ∀ m ∈ members, ¬w.Overlaps m.offset (getValueSize E.platform m.type))
    (st : ConvertState) :
    ∃ log, (convertMembers E members target memory st).memory = log ++ memory ∧
      (∀ w ∈ log, ∃ m ∈ members, w.offset = m.offset ∧ w.width = getValueSize E.platform m.type) ∧
      (convertsMembers E members target = true → ∀ pre m post, members = pre ++ m :: post →
        load (log ++ memory) m.offset (getValueSize E.platform m.type) =
          .ofOption ((memberStore E m target (convertMembers E pre target memory st).state).bind (·.value))) := by
  induction members generalizing memory st with
  | nil => exact ⟨[],rfl,by simp,by simp⟩
  | cons m members ih =>
    have hm := hsingle m List.mem_cons_self
    have hfreem : ∀ w ∈ memory, w.Overlaps m.offset (getValueSize E.platform m.type) → w.value = none :=
      fun w hw hover => absurd hover (hfree w hw m List.mem_cons_self)
    have hmemory := memberFill_memory target m hm hfreem st
    have hfits := memberStore_fits m hm (hcb m ⟨[],members,rfl,rfl⟩) st
    have hwrites : ∀ w ∈ ((memberStore E m target st).map
        (fun s => (⟨m.offset,s.width,s.value⟩ : Write Native))).toList,
        w.offset = m.offset ∧ w.width = getValueSize E.platform m.type := by
      intro w hw
      obtain ⟨s,hs,rfl⟩ := Option.map_eq_some_iff.mp (Option.mem_toList.mp hw)
      exact ⟨rfl,(hfits s hs).1⟩
    have hok := memberFill_ok (E := E) m target memory st
    rw [List.pairwise_cons] at hordered
    cases hconv : memberAccepts E m target with
    | false =>
      rw [hconv] at hok
      refine ⟨_,?_,fun w hw => ⟨m,List.mem_cons_self,hwrites w hw⟩,?_⟩
      · rw [convertMembers_cons,if_neg (by simp [hok])]
        exact hmemory
      · intro hall
        simp [convertsMembers_cons,hconv] at hall
    | true =>
      rw [hconv] at hok
      have hreach : ∀ m', Reached E members target m' →
          E.platform.pointerSize = 4 ∨ ¬DefaultedCallback E target m' := by
        rintro m' ⟨pre,post,rfl,hpre⟩
        exact hcb m' ⟨m :: pre,post,rfl,by rw [convertsMembers_cons,hconv,hpre]; rfl⟩
      have hfree' : ∀ w ∈ (memberFill E m target memory st).memory, ∀ m' ∈ members,
          ¬w.Overlaps m'.offset (getValueSize E.platform m'.type) := by
        intro w hw m' hm'
        rw [hmemory,writeStore,List.mem_append] at hw
        rcases hw with hnew | hold
        · obtain ⟨hoffset,hwidth⟩ := hwrites w hnew
          have := hordered.1 m' hm'
          unfold Write.Overlaps
          omega
        · exact hfree w hold m' (List.mem_cons_of_mem _ hm')
      obtain ⟨log,hlog,hrange,hholds⟩ := ih hordered.2
        (fun m' hm' => hsingle m' (List.mem_cons_of_mem _ hm')) hreach _ hfree'
        (memberFill E m target memory st).state
      refine ⟨log ++ ((memberStore E m target st).map
        (fun s => (⟨m.offset,s.width,s.value⟩ : Write Native))).toList,?_,?_,?_⟩
      · rw [convertMembers_cons,if_pos hok,hlog,hmemory,writeStore,List.append_assoc]
      · intro w hw
        rcases List.mem_append.mp hw with hlater | hnew
        · obtain ⟨m',hm',hw'⟩ := hrange w hlater
          exact ⟨m',List.mem_cons_of_mem _ hm',hw'⟩
        · exact ⟨m,List.mem_cons_self,hwrites w hnew⟩
      · intro hall pre m' post hsplit
        rw [convertsMembers_cons,hconv,Bool.true_and] at hall
        have hmem : log ++ ((memberStore E m target st).map
            (fun s => (⟨m.offset,s.width,s.value⟩ : Write Native))).toList ++ memory =
            log ++ (memberFill E m target memory st).memory := by
          rw [hmemory,writeStore,List.append_assoc]
        rw [hmem]
        cases pre with
        | nil =>
          obtain ⟨rfl,rfl⟩ := List.cons.inj hsplit
          rw [load_append_of_not_overlaps (fun w hw => ?_),hmemory]
          · exact load_writeStore hfits hfreem
          · obtain ⟨m',hm',hoffset,hwidth⟩ := hrange w hw
            have := hordered.1 m' hm'
            unfold Write.Overlaps
            omega
        | cons m0 pre =>
          obtain ⟨rfl,rfl⟩ := List.cons.inj hsplit
          rw [hholds hall pre m' post rfl,convertMembers_cons,if_pos hok]

theorem mem_convertMembers {w : Write Native} (hw : w ∈ memory)
    (st : ConvertState) : w ∈ (convertMembers E members target memory st).memory := by
  have hstep : ∀ (m : ObjectMember FeatureType) {memory : List (Write Native)}, w ∈ memory →
      ∀ st, w ∈ (memberFill E m target memory st).memory := by
    intro m memory hw st
    unfold memberFill convertMember
    cases memberSource E m.name m.type target <;> simp only [writeAt_eq,writeStore,List.mem_append,hw,or_true]
  induction members generalizing memory st with
  | nil => exact hw
  | cons m members ih =>
    rw [convertMembers_cons]
    split_ifs
    · exact ih (hstep m hw st) _
    · exact hstep m hw st

theorem defaultedCallback_written {m : ObjectMember FeatureType} (hm : Reached E members target m)
    (hcb : DefaultedCallback E target m) (memory : List (Write Native)) (st : ConvertState) :
    ∃ value, (⟨m.offset,E.platform.pointerSize,value⟩ : Write Native) ∈
      (convertMembers E members target memory st).memory := by
  obtain ⟨pre,post,rfl,hpre⟩ := hm
  obtain ⟨hfield,ps,rest,value,htype⟩ := hcb
  refine ⟨constantOf value.ptr,?_⟩
  rw [convertMembers_append,convertMembers_ok_eq,if_pos hpre,convertMembers_cons]
  have hsource : memberSource E m.name m.type target = .default (.callback ps rest) value := by
    rw [memberSource,if_pos hfield,htype]
    rfl
  have hwritten : ∀ memory st, (⟨m.offset,E.platform.pointerSize,constantOf value.ptr⟩ :
      Write Native) ∈ (memberFill E m target memory st).memory := by
    intro memory st
    unfold memberFill convertMember
    rw [hsource]
    exact List.mem_cons_self
  split_ifs
  · exact mem_convertMembers (hwritten _ _) _
  · exact hwritten _ _

theorem StructLayout.order {size : ℕ} (h : StructLayout P size members)
    {m m' : ObjectMember FeatureType} (hm : m ∈ members) (hm' : m' ∈ members) :
    m = m' ∨ m.offset + getValueSize P m.type ≤ m'.offset ∨ m'.offset + getValueSize P m'.type ≤ m.offset := by
  have hordered := h.ordered
  clear h
  induction members with
  | nil => simp at hm
  | cons first members ih =>
    rw [List.pairwise_cons] at hordered
    rcases List.mem_cons.mp hm with rfl | hin
    · rcases List.mem_cons.mp hm' with rfl | hin'
      · exact .inl rfl
      · exact .inr (.inl (hordered.1 m' hin'))
    · rcases List.mem_cons.mp hm' with rfl | hin'
      · exact .inr (.inr (hordered.1 m hin))
      · exact ih hin hin' hordered.2

/-- The members of a struct are filled as they should exactly when no absent optional callback
member is reached, or pointers are as narrow as callback ids. -/
theorem fillsMembers_iff {size : ℕ} (hlayout : StructLayout E.platform size members)
    (hobject : E.js.isPlainObject target = true) (st : ConvertState) :
    FillsMembers E size members target st (convertValueToNative E (.structMap size members) target .zero st) ↔
      (E.platform.pointerSize = 4 ∨ ∀ m, Reached E members target m → ¬DefaultedCallback E target m) := by
  have hnull : JSContext.isNullish target = false := by
    cases target <;> simp_all [JSContext.isPlainObject,JSContext.isNullish,JSContext.isNull,JSContext.isUndefined]
  have hmemory : structMemory (convertValueToNative E (.structMap size members) target .zero st) =
      (convertMembers E members target [] st.alloc).memory := by
    simp [convertValueToNative,hnull,hobject,structMemory,Converted.content]
  constructor
  · intro hfills
    by_contra hbad
    rw [not_or] at hbad
    obtain ⟨hwide,hdefaulted⟩ := hbad
    simp only [not_forall,not_not] at hdefaulted
    obtain ⟨m,hreached,hcb⟩ := hdefaulted
    have hsize8 : E.platform.pointerSize = 8 := E.platform.supported.resolve_left hwide
    obtain ⟨value,hwritten⟩ := defaultedCallback_written hreached hcb [] st.alloc
    rw [← hmemory] at hwritten
    obtain ⟨m',hm',hoffset,hinside⟩ := hfills.inside _ hwritten
    have hmem : m ∈ members := by
      obtain ⟨pre,post,rfl,-⟩ := hreached
      simp
    have hsize : getValueSize E.platform m.type = 4 := by
      obtain ⟨-,ps,rest,v,htype⟩ := hcb
      rw [htype]
      rfl
    simp only [Write.Inside] at hinside
    rcases hlayout.order hmem hm' with rfl | hbefore | hafter <;> omega
  · intro hcond
    have hcb : ∀ m, Reached E members target m → E.platform.pointerSize = 4 ∨ ¬DefaultedCallback E target m :=
      fun m hm => hcond.imp_right (fun h => h m hm)
    obtain ⟨log,hlog,hrange,hholds⟩ := convertMembers_fills hlayout.ordered hlayout.single hcb []
      (by simp) st.alloc
    rw [List.append_nil] at hlog hholds
    rw [hlog] at hmemory
    refine ⟨?_,?_,?_,?_⟩
    · intro w hw
      rw [hmemory] at hw
      obtain ⟨m,hm,hoffset,hwidth⟩ := hrange w hw
      refine ⟨m,hm,hoffset,?_⟩
      unfold Write.Inside
      omega
    · intro w hw m' hm' hne
      rw [hmemory] at hw
      obtain ⟨m,hm,hoffset,hwidth⟩ := hrange w hw
      unfold Write.Overlaps
      rcases hlayout.order hm hm' with rfl | hbefore | hafter <;> omega
    · intro w hw
      rw [hmemory] at hw
      obtain ⟨m,hm,hoffset,hwidth⟩ := hrange w hw
      have := hlayout.bounded m hm
      omega
    · intro hok pre m post hsplit
      rw [convertValueToNative_ok,converts,hnull,hobject,Bool.false_or,Bool.true_and] at hok
      rw [hmemory]
      exact hholds hok pre m post hsplit

end Fill

def timerOptions : List (ObjectMember FeatureType) :=
  [⟨"delay",.primitive .int,0⟩,⟨"fail",.optional (.callback [] false) {},4⟩]

theorem timerOptions_layout (P : Platform) : StructLayout P 8 timerOptions := by
  refine ⟨?_,?_,?_⟩
  · simp [timerOptions,getValueSize,FeatureType.realType,FeatureType.isReference,
      FeatureType.flag,FeatureType.typeFlag,PrimitiveType.flag,PrimitiveType.valueSize]
  · simp [timerOptions,getValueSize,FeatureType.realType,FeatureType.isReference,
      FeatureType.flag,FeatureType.typeFlag,PrimitiveType.flag,PrimitiveType.valueSize]
  · intro m hm t v htype
    simp only [timerOptions,List.mem_cons,List.not_mem_nil,or_false] at hm
    rcases hm with rfl | rfl
    · simp at htype
    · simp only [FeatureType.optional.injEq] at htype
      obtain ⟨rfl,-⟩ := htype
      rfl

/-- The engine of an application that passes `delay` alone. -/
def delayOnly : JSContext :=
  .ofProperties (fun _ name => if name = "delay" then .number (.int 5) else .undefined)

theorem fillsMembers_of_narrow_pointers : FillsMembers (.ofEngine .bits32 delayOnly) 8 timerOptions (.object 0) {}
      (convertValueToNative (.ofEngine .bits32 delayOnly) (.structMap 8 timerOptions) (.object 0) .zero {}) :=
  (fillsMembers_iff (timerOptions_layout _) rfl {}).mpr (.inl rfl)

/-- With wide pointers the absent callback is written over eight bytes, four of them behind the
struct. -/
theorem absent_callback_overruns_struct :
    StructLayout .bits64 8 timerOptions ∧ delayOnly.isPlainObject (.object 0) = true ∧
    ¬FillsMembers (.ofEngine .bits64 delayOnly) 8 timerOptions (.object 0) {}
      (convertValueToNative (.ofEngine .bits64 delayOnly) (.structMap 8 timerOptions) (.object 0) .zero {}) := by
  refine ⟨timerOptions_layout _,rfl,fun hfills => ?_⟩
  have hbounded := hfills.bounded ⟨4,8,none⟩ List.mem_cons_self
  simp at hbounded

end FeatureRuntime
