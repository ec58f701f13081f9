import FeatureRuntime.Convertor

/-! The checks that a conversion from JS runs into: failing `FEATURE_CHECK`s, reads through null, and
interface slots that get an instance of another interface. -/
namespace FeatureRuntime

variable {E : Env}

/-- A report that is no failure: an interface slot counts when it got a live instance of exactly the
declared interface. -/
def ConvertEvent.Harmless (E : Env) : ConvertEvent → Prop
  | .checkFailed | .nullDereference | .overrun => False
  | .wildWrite => True
  | .interfaceStored desc handle => ∃ h, handle = some h ∧ E.instances h = some desc

/-- What was reported since `st`. -/
def ConvertState.newEvents (st st' : ConvertState) : List ConvertEvent :=
  st'.events.drop st.events.length

/-- Elements up to the first refused one pass `vetted`, are not undefined and have slots inside the
block, which has `room` bytes left. -/
def VettedElements (width : ℕ) (accepts : JSValue → Bool) (vetted : JSValue → Prop) : List JSValue → ℕ → Prop
  | [], _ => True
  | v :: vs, room => v ≠ .undefined ∧ width ≤ room ∧ vetted v ∧
      (accepts v = true → VettedElements width accepts vetted vs (room - width))

mutual

/-- Values that a conversion gets through without failure: below every array and struct, up to the
first value that is refused, interface values are live instances of the declared interface, and
arrays have no holes or undefined elements and an element buffer that can be allocated and holds the
elements, also where its size wraps. -/
def Vetted (E : Env) : FeatureType → JSValue → Prop
  | .primitive _, _ => True
  | .structMap _ members, target =>
    E.js.isPlainObject target = true → VettedMembers E members target
  | .optional type _, target => Vetted E type target
  | .callback .., _ => True
  | .array elementType, target =>
    E.js.isArray target = true → E.js.arraySize target ≠ 0 →
      bufferSize E.platform elementType (E.js.arraySize target) ≠ 0 ∧
      E.canMalloc (bufferSize E.platform elementType (E.js.arraySize target)) = true ∧
      VettedElements (elementSize E.platform elementType) (converts E elementType) (Vetted E elementType)
        ((List.range (E.js.arraySize target)).map (E.js.arrayGet target))
        (bufferSize E.platform elementType (E.js.arraySize target))
  | .promise _, _ => True
  | .interface desc, target =>
    ∃ h, E.js.interfaceFromTarget target = some h ∧ E.instances h = some desc
  | .protobuf _, _ => True

def VettedMembers (E : Env) : List (ObjectMember FeatureType) → JSValue → Prop
  | [], _ => True
  | ⟨name,type,_⟩ :: members, target =>
    (memberSource E name type target = .converted → Vetted E type (E.js.getProperty target name)) ∧
    (memberConverts E (converts E type) name type target = true → VettedMembers E members target)

end

mutual

def FeatureType.protobufFree : FeatureType → Bool
  | .primitive _ | .callback .. | .promise _ | .interface _ => true
  | .structMap _ members => protobufFreeMembers members
  | .optional type _ => type.protobufFree
  | .array elementType => elementType.protobufFree
  | .protobuf _ => false

def protobufFreeMembers : List (ObjectMember FeatureType) → Bool
  | [] => true
  | ⟨_,type,_⟩ :: members => type.protobufFree && protobufFreeMembers members

end

/-- The reports between two states are all harmless exactly when `P` holds. -/
def Reports (E : Env) (st st' : ConvertState) (P : Prop) : Prop :=
  ∃ log, st'.events = st.events ++ log ∧ ((∀ event ∈ log, event.Harmless E) ↔ P)

section Reports

variable {st st' st'' : ConvertState} {P Q : Prop}

theorem reports_same (h : st'.events = st.events) : Reports E st st' True :=
  ⟨[],by simp [h],by simp⟩

theorem Reports.congr (h : Reports E st st' P) (hiff : P ↔ Q) : Reports E st st' Q := by
  obtain ⟨log,hlog,hharmless⟩ := h
  exact ⟨log,hlog,hharmless.trans hiff⟩

theorem Reports.trans (h : Reports E st st' P) (h' : Reports E st' st'' Q) : Reports E st st'' (P ∧ Q) := by
  obtain ⟨log,hlog,hharmless⟩ := h
  obtain ⟨log',hlog',hharmless'⟩ := h'
  refine ⟨log ++ log',by rw [hlog',hlog,List.append_assoc],?_⟩
  rw [List.forall_mem_append,hharmless,hharmless']

theorem reports_report (st : ConvertState) (event : ConvertEvent) :
    Reports E st (st.report event) (event.Harmless E) :=
  ⟨[event],rfl,by simp⟩

theorem reports_check (st : ConvertState) (holds : Bool) : Reports E st (st.check holds) (holds = true) := by
  cases holds with
  | true => exact (reports_same rfl).congr (by simp)
  | false => exact (reports_report st .checkFailed).congr (by simp [ConvertEvent.Harmless])

theorem reports_place (st : ConvertState) (fits : Bool) : Reports E st (st.place fits) (fits = true) := by
  cases fits with
  | true => exact (reports_same rfl).congr (by simp)
  | false => exact (reports_report st .overrun).congr (by simp [ConvertEvent.Harmless])

theorem reports_mallocBuffer (st : ConvertState) (size : ℕ) :
    Reports E st (st.mallocBuffer E size) (size ≠ 0 ∧ E.canMalloc size = true) := by
  have hcheck := reports_check (E := E) st (size != 0)
  unfold ConvertState.mallocBuffer
  cases hmalloc : E.canMalloc size with
  | true =>
    refine (hcheck.trans (reports_same ?_)).congr (by simp)
    simp
  | false =>
    refine (hcheck.trans (reports_report _ .nullDereference)).congr ?_
    simp [ConvertEvent.Harmless]

theorem convertPrimitive_reports (type : PrimitiveType) (target : JSValue) (st : ConvertState) :
    Reports E st (convertPrimitive E type target st).state True := by
  refine reports_same ?_
  cases type with
  | void => rfl
  | string =>
    simp only [convertPrimitive]
    split
    · rfl
    · cases target <;> rfl
  | anyRef =>
    simp only [convertPrimitive]
    split <;> rfl
  | jsonObj =>
    simp only [convertPrimitive]
    split
    · rfl
    · cases target with
      | object id => dsimp only; split <;> rfl
      | _ => rfl
  | arrayBuffer =>
    simp only [convertPrimitive]
    split
    · rfl
    · split <;> rfl
  | _ =>
    simp only [convertPrimitive]
    split <;> rfl

theorem convertOptional_reports (P : Platform) (type : FeatureType) (value : OptionalValue)
    (st : ConvertState) : Reports E st (convertOptional P type value st).state True := by
  refine reports_same ?_
  cases type with
  | primitive p =>
    cases p with
    | string =>
      simp only [convertOptional]
      split <;> rfl
    | _ => rfl
  | _ => rfl

theorem convertElements_reports {convert : JSValue → Slot Native → ConvertState → Converted}
    {accepts : JSValue → Bool} {vetted : JSValue → Prop}
    (hok : ∀ v slot st, (convert v slot st).ok = accepts v)
    (h : ∀ v slot st, Reports E st (convert v slot st).state (vetted v)) (width : ℕ) (values : List JSValue)
    (room : ℕ) (st : ConvertState) : Reports E st (convertElements width convert values room st).2.2
      (VettedElements width accepts vetted values room) := by
  induction values generalizing room st with
  | nil => exact reports_same rfl
  | cons v values ih =>
    have hslot := (reports_check (E := E) st (v != .undefined)).trans (reports_place _ (width ≤ room))
    have hconv := h v .zero ((st.check (v != .undefined)).place (width ≤ room))
    simp only [convertElements,hok,VettedElements]
    cases hacc : accepts v with
    | true => exact (hslot.trans (hconv.trans (ih _ _))).congr (by simp [and_assoc])
    | false => exact (hslot.trans hconv).congr (by simp [and_assoc])

theorem memberFill_reports {m : ObjectMember FeatureType}
    (h : ∀ v slot st, Reports E st (convertValueToNative E m.type v slot st).state
      (Vetted E m.type v)) (target : JSValue) (memory : List (Write Native)) (st : ConvertState) :
    Reports E st (memberFill E m target memory st).state (memberSource E m.name m.type target = .converted →
        Vetted E m.type (E.js.getProperty target m.name)) := by
  unfold memberFill convertMember
  cases memberSource E m.name m.type target with
  | default type value => exact (convertOptional_reports E.platform type value st).congr (by simp)
  | refused => exact (reports_same rfl).congr (by simp)
  | converted => exact (h _ _ _).congr (by simp)

theorem convertMembers_reports {members : List (ObjectMember FeatureType)}
    (h : ∀ m ∈ members, ∀ v slot st, Reports E st (convertValueToNative E m.type v slot st).state
      (Vetted E m.type v)) (target : JSValue) (memory : List (Write Native)) (st : ConvertState) :
    Reports E st (convertMembers E members target memory st).state (VettedMembers E members target) := by
  induction members generalizing memory st with
  | nil => exact reports_same rfl
  | cons m members ih =>
    have hm := memberFill_reports (h m List.mem_cons_self) target memory st
    have hrest := fun memory st => ih (fun m hm => h m (List.mem_cons_of_mem _ hm)) memory st
    have hvetted : VettedMembers E (m :: members) target ↔ (memberSource E m.name m.type target = .converted →
          Vetted E m.type (E.js.getProperty target m.name)) ∧
        (memberAccepts E m target = true → VettedMembers E members target) := Iff.rfl
    rw [convertMembers_cons,memberFill_ok,hvetted]
    cases hacc : memberAccepts E m target with
    | true => exact (hm.trans (hrest _ _)).congr (by simp)
    | false => exact hm.congr (by simp)

theorem protobufFreeMembers_iff (members : List (ObjectMember FeatureType)) :
    protobufFreeMembers members = true ↔ ∀ m ∈ members, m.type.protobufFree = true := by
  induction members with
  | nil => simp [protobufFreeMembers]
  | cons m members ih => simp [protobufFreeMembers,ih]

theorem arrayTarget_reports (slot : Slot Native) (st : ConvertState) : Reports E st (arrayTarget slot st).2 True := by
  unfold arrayTarget
  split
  · exact reports_same rfl
  · exact reports_same rfl
  · exact reports_report st .wildWrite

theorem isPlainObject_not_nullish {target : JSValue} (h : E.js.isPlainObject target = true) :
    JSContext.isNullish target = false := by
  cases target <;> simp_all [JSContext.isPlainObject,JSContext.isNullish,JSContext.isNull,JSContext.isUndefined]

theorem isArray_not_nullish {target : JSValue} (h : E.js.isArray target = true) :
    JSContext.isNullish target = false := by
  cases target <;> simp_all [JSContext.isArray,JSContext.isNullish,JSContext.isNull,JSContext.isUndefined]

theorem convertValueToNative_reports {type : FeatureType} (hfree : type.protobufFree = true)
    (target : JSValue) (slot : Slot Native) (st : ConvertState) :
    Reports E st (convertValueToNative E type target slot st).state (Vetted E type target) := by
  induction type using FeatureType.induction generalizing target slot st with
  | primitive p => exact convertPrimitive_reports p target st
  | structMap size members ih =>
    have hmembers := (protobufFreeMembers_iff members).mp hfree
    have hall := fun memory st => convertMembers_reports (fun m hm => ih m hm (hmembers m hm)) target
      memory st
    simp only [convertValueToNative,Vetted]
    cases hplain : E.js.isPlainObject target with
    | false =>
      refine (reports_same ?_).congr (by simp)
      cases JSContext.isNullish target <;> rfl
    | true =>
      simp only [isPlainObject_not_nullish hplain,Bool.false_eq_true,if_false,if_true,forall_const]
      split
      · exact ((reports_same rfl).trans (hall [] st.alloc)).congr (by simp)
      · exact hall _ st
      · exact ((reports_report st .wildWrite).trans (hall [] _)).congr (by simp [ConvertEvent.Harmless])
  | optional t v ih => exact ih hfree target slot st
  | callback ps rest =>
    refine reports_same ?_
    simp only [convertValueToNative,convertCallback]
    split_ifs <;> rfl
  | array t ih =>
    simp only [convertValueToNative,convertArray,Vetted]
    cases harray : E.js.isArray target with
    | false =>
      refine (reports_same ?_).congr (by simp)
      cases JSContext.isNullish target <;> rfl
    | true =>
      have hnew := arrayTarget_reports (E := E) slot st
      simp only [isArray_not_nullish harray,Bool.false_eq_true,if_false,if_true,forall_const]
      split_ifs with hsize
      · exact hnew.congr (by simp [hsize])
      · refine (hnew.trans ((reports_mallocBuffer _ _).trans
          (convertElements_reports (convertValueToNative_ok t) (ih hfree) _ _ _ _))).congr ?_
        simp only [hsize,not_false_eq_true,forall_const,true_and,ne_eq]
        tauto
  | promise t => exact reports_same rfl
  | interface d =>
    refine ((reports_check st _).trans (reports_report _ _)).congr ?_
    simp only [ConvertEvent.Harmless,Vetted,and_iff_right_iff_imp]
    rintro ⟨h,hh,-⟩
    rw [hh]
    rfl
  | protobuf d => simp [FeatureType.protobufFree] at hfree

end Reports

/-- A conversion runs into no failing check and no null pointer, and fills interface slots with live
instances of the declared interface, exactly for the vetted values. -/
theorem checks_pass_iff_vetted {type : FeatureType} (hfree : type.protobufFree = true)
    (target : JSValue) (slot : Slot Native) (st : ConvertState) :
    (∀ event ∈ st.newEvents (convertValueToNative E type target slot st).state,
      event.Harmless E) ↔ Vetted E type target := by
  obtain ⟨log,hlog,hharmless⟩ := convertValueToNative_reports (E := E) hfree target slot st
  rw [ConvertState.newEvents,hlog,List.drop_left]
  exact hharmless

def oneInstance : Env :=
  let js := JSContext.ofProperties (fun _ _ => .undefined)
  { platform := .bits64
    js := { js with getOpaque := fun id => if id = 0 then some 100 else none }
    canMalloc := fun _ => true
    instances := fun handle => if handle = 100 then some 7 else none }

theorem checks_pass_for_instance : (convertValueToNative oneInstance (.interface 7) (.object 0) .zero {}).ok = true ∧
    ∀ event ∈ ConvertState.newEvents {} (convertValueToNative oneInstance (.interface 7) (.object 0) .zero {}).state,
      event.Harmless oneInstance :=
  ⟨rfl,(checks_pass_iff_vetted rfl _ _ _).mpr ⟨100,rfl,rfl⟩⟩

/-- A plain object where an interface is expected fails the check, and the conversion returns true. -/
theorem plain_object_fails_check : (convertValueToNative oneInstance (.interface 7) (.object 1) .zero {}).ok = true ∧
    ¬∀ event ∈ ConvertState.newEvents {} (convertValueToNative oneInstance (.interface 7) (.object 1) .zero {}).state,
      event.Harmless oneInstance := by
  refine ⟨rfl,fun hall => ?_⟩
  exact hall .checkFailed List.mem_cons_self

end FeatureRuntime
