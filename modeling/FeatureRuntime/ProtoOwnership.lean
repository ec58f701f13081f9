import FeatureRuntime.ProtoReflection

/-! The blocks of protobuf messages: which of them a conversion makes, and which of them come out
right when the message is released. -/
namespace FeatureRuntime
open FreeLog ConvertState

/-- A conversion from `st` to `st'` whose result frees `pending` later: all blocks made on the way
are freed exactly once if and only if `P` holds. -/
def Leaves (st st' : ConvertState) (pending : List FreeEvent) (P : Prop) : Prop :=
  ∃ log, st'.freed = st.freed ++ log ∧ Owns st.nextBlock st'.nextBlock log pending P

section Leaves

variable {st st₁ st₂ : ConvertState} {pending pending' stray freed : List FreeEvent} {P Q : Prop}

theorem leaves_nil (hfreed : st₁.freed = st.freed) (hnext : st₁.nextBlock = st.nextBlock) : Leaves st st₁ [] True :=
  ⟨[],by rw [hfreed,List.append_nil],hnext ▸ owns_nil _⟩

theorem leaves_block (hfreed : st₁.freed = st.freed) (hnext : st₁.nextBlock = st.nextBlock + 1) :
    Leaves st st₁ [.block st.nextBlock] True :=
  ⟨[],by rw [hfreed,List.append_nil],hnext ▸ owns_alloc _⟩

theorem leaves_leak (hfreed : st₁.freed = st.freed) (hnext : st₁.nextBlock = st.nextBlock + 1) :
    Leaves st st₁ [] False :=
  ⟨[],by rw [hfreed,List.append_nil],hnext ▸ owns_leak _⟩

theorem Leaves.congr (h : Leaves st st₁ pending P) (hiff : P ↔ Q) : Leaves st st₁ pending Q := by
  obtain ⟨log,hlog,howns⟩ := h
  exact ⟨log,hlog,howns.congr hiff⟩

theorem Leaves.append (h : Leaves st st₁ pending P) (h' : Leaves st₁ st₂ pending' Q) :
    Leaves st st₂ (pending ++ pending') (P ∧ Q) := by
  obtain ⟨log,hlog,howns⟩ := h
  obtain ⟨log',hlog',howns'⟩ := h'
  exact ⟨log ++ log',by rw [hlog',hlog,List.append_assoc],howns.append howns'⟩

theorem Leaves.discard (h : Leaves st st₁ pending P) : Leaves st st₁ [] (P ∧ pending = []) := by
  obtain ⟨log,hlog,howns⟩ := h
  exact ⟨log,hlog,howns.discard⟩

theorem Leaves.settle (h : Leaves st st₁ pending P) : Leaves st (st₁.free pending) [] P := by
  obtain ⟨log,hlog,howns⟩ := h
  exact ⟨log ++ pending,by rw [ConvertState.free_freed,hlog,List.append_assoc],howns.settle⟩

theorem Leaves.of_state (h : Leaves st₁ st₂ pending P) (hfreed : st₁.freed = st.freed)
    (hnext : st₁.nextBlock = st.nextBlock) : Leaves st st₂ pending P := by
  obtain ⟨log,hlog,howns⟩ := h
  exact ⟨log,by rw [hlog,hfreed],hnext ▸ howns⟩

theorem Leaves.of_result (h : Leaves st st₁ pending P) (hfreed : st₂.freed = st₁.freed)
    (hnext : st₂.nextBlock = st₁.nextBlock) : Leaves st st₂ pending P := by
  obtain ⟨log,hlog,howns⟩ := h
  exact ⟨log,by rw [hfreed,hlog],hnext ▸ howns⟩

section Root

variable (h : Leaves st₁ st₂ pending P) (hfreed : st₁.freed = st.freed)
  (hnext : st₁.nextBlock = st.nextBlock + 1)
include h hfreed hnext

theorem Leaves.root : Leaves st st₂ (pending ++ [.block st.nextBlock]) P := by
  obtain ⟨log,hlog,howns⟩ := h
  rw [hnext] at howns
  exact ⟨log,by rw [hlog,hfreed],howns.toAccounts.root⟩

theorem Leaves.unrooted : Leaves st st₂ (pending ++ [.invalid]) False := by
  obtain ⟨log,hlog,howns⟩ := h
  rw [hnext] at howns
  exact ⟨log,by rw [hlog,hfreed],howns.toAccounts.unrooted⟩

theorem Leaves.root_stray (hstray : ∀ event ∈ stray, event = .invalid) (hperm : (pending ++ stray).Perm freed) :
    Leaves st st₂ (freed ++ [.block st.nextBlock]) (P ∧ stray = []) := by
  obtain ⟨log,hlog,howns⟩ := h
  rw [hnext] at howns
  exact ⟨log,by rw [hlog,hfreed],((howns.toAccounts.invalids hstray).perm hperm).root⟩

theorem Leaves.twice_stray (hstray : ∀ event ∈ stray, event = .invalid) (hperm : (pending ++ stray).Perm freed) :
    Leaves st st₂ (freed ++ (freed ++ [.block st.nextBlock])) ((P ∧ stray = []) ∧ freed = []) := by
  obtain ⟨log,hlog,howns⟩ := h
  rw [hnext] at howns
  exact ⟨log,by rw [hlog,hfreed],((howns.toAccounts.invalids hstray).perm hperm).twice⟩

end Root

end Leaves

/-- What the conversion of a value does with a field: the field keeps its content, or gets a new
one. Then `clean` says that releasing the new content frees every block made for it exactly once,
and `owns` that it frees anything. -/
inductive FieldEffect
  | keeps (accepted : Bool)
  | stores (accepted clean owns : Bool)
  deriving DecidableEq

namespace FieldEffect

def accepted : FieldEffect → Bool
  | .keeps accepted => accepted
  | .stores accepted .. => accepted

end FieldEffect

/-- The effect of `toProtoField` on a single value. -/
def valueEffect (ctx : JSContext) (type : ProtobufType) (nested : JSValue → FieldEffect)
    (value : JSValue) : FieldEffect :=
  match type with
  | .message => nested value
  | .string => if (ctx.toCString value).isSome then .stores true true true else .keeps false
  | .bytes =>
    match value with
    -- the buffer of an empty string is not released
    | .string text =>
      .stores true (!text.toUTF8.toList.isEmpty) (!text.toUTF8.toList.isEmpty)
    | .object id =>
      if ((ctx.arrayBufferData id).getD []).isEmpty then .keeps true else .stores true true true
    | _ => .keeps true
  | _ => .stores true true false

/-- The effect of `toProtoField`. -/
def fieldEffect (ctx : JSContext) (label : ProtobufLabel) (type : ProtobufType)
    (nested : JSValue → FieldEffect) (value : JSValue) : FieldEffect :=
  match label with
  | .required => if value = .exception then .keeps false else valueEffect ctx type nested value
  | .repeated =>
    if ctx.isArray value then
      -- the array is never released by its own address
      .stores ((arrayItems ctx value).all (fun item => (valueEffect ctx type nested item).accepted))
        false true
    else .keeps false
  | _ => valueEffect ctx type nested value

/-- A property that the conversion of a message gets to. -/
structure Visit where
  offset : ℕ
  effect : FieldEffect

/-- The properties that the conversion gets to, whether it gets past them all, and the oneof cases
it has set. -/
structure Visits where
  accepted : Bool
  visits : List Visit
  cases : List (ℕ × ℕ)

abbrev FieldEffects := FieldDescriptor MessageDescriptor × (JSValue → FieldEffect)

/-- The properties that `toNative` gets to. -/
def visitProperties (effects : List FieldEffects) (sorted : List ℕ) : List (String × JSValue) → List (ℕ × ℕ) → Visits
  | [], cases => ⟨true,[],cases⟩
  | (name,value) :: props, cases =>
    match (binarySearchField name (effects.map (·.1)) sorted).bind (effects[·]?) with
    | none => ⟨false,[],cases⟩
    | some (field,effect) =>
      match ({ cases := cases } : MessageState).selectCase field with
      | none => ⟨false,[],cases⟩
      | some ms =>
        let visit := ⟨field.offset,effect value⟩
        if (effect value).accepted then
          let rest := visitProperties effects sorted props ms.cases
          ⟨rest.accepted,visit :: rest.visits,rest.cases⟩
        else ⟨false,[visit],ms.cases⟩

def storedOffsets : List Visit → List ℕ
  | [] => []
  | ⟨_,.keeps _⟩ :: visits => storedOffsets visits
  | ⟨offset,.stores ..⟩ :: visits =>
    if offset ∈ storedOffsets visits then storedOffsets visits else offset :: storedOffsets visits

def visitsClean : List Visit → Bool
  | [] => true
  | ⟨_,.keeps _⟩ :: visits => visitsClean visits
  | ⟨offset,.stores _ clean owns⟩ :: visits =>
    clean && !(owns && offset ∈ storedOffsets visits) && visitsClean visits

def visitsBare : List Visit → Bool
  | [] => true
  | ⟨_,.keeps _⟩ :: visits => visitsBare visits
  | ⟨_,.stores _ _ owns⟩ :: visits => !owns && visitsBare visits

def releaseContent (content : Option ProtoValue) : List FreeEvent :=
  (content.map ProtoValue.release).getD []

def releaseAt (values : List (ℕ × ProtoValue)) (offset : ℕ) : List FreeEvent :=
  releaseContent (values.lookup offset)

def defaultsReplaced (fields : List (FieldDescriptor MessageDescriptor)) (w : Visits) : Bool :=
  fields.all (fun field => isOneOfSkipped field w.cases || field.offset ∈ storedOffsets w.visits ||
    (releaseAt (initValues fields) field.offset).isEmpty)

/-- What `toNative` does: whether it builds the message, whether releasing its fields once frees
every block made for them exactly once, and whether that frees nothing. -/
structure MessageEffect where
  accepted : Bool
  clean : Bool
  bare : Bool

namespace MessageEffect

def nested (e : MessageEffect) : FieldEffect := .stores e.accepted (e.clean && e.bare) e.accepted

def balanced (e : MessageEffect) : Bool := e.clean && (e.accepted || e.bare)

end MessageEffect

def messageProperties (ctx : JSContext) (value : JSValue) : List (String × JSValue) :=
  match value with
  | .object id => ctx.ownProperties id
  | _ => []

/-- The effect of `toNative` on a message with the given fields. -/
def buildEffect (ctx : JSContext) (effects : List FieldEffects) (sorted : List ℕ) (value : JSValue) : MessageEffect :=
  let w := visitProperties effects sorted (messageProperties ctx value) []
  ⟨w.accepted,visitsClean w.visits && defaultsReplaced (effects.map (·.1)) w,visitsBare w.visits⟩

mutual

/-- The effect of `toNative`. -/
def messageEffect (ctx : JSContext) : MessageDescriptor → JSValue → MessageEffect
  | .mk fields sorted => buildEffect ctx (fieldEffects ctx fields) sorted

def fieldEffects (ctx : JSContext) : List (FieldDescriptor MessageDescriptor) → List FieldEffects
  | [] => []
  | ⟨name,id,label,type,quantifierOffset,offset,descriptor,isOneof,defaultValue⟩ :: fields =>
    (⟨name,id,label,type,quantifierOffset,offset,descriptor,isOneof,defaultValue⟩,
      fieldEffect ctx label type (nestedEffect ctx descriptor)) :: fieldEffects ctx fields

def nestedEffect (ctx : JSContext) : Option MessageDescriptor → JSValue → FieldEffect
  | none, _ => .stores false true false
  | some descriptor, value => (messageEffect ctx descriptor value).nested

end

theorem fieldEffects_fields (ctx : JSContext) (fields : List (FieldDescriptor MessageDescriptor)) :
    (fieldEffects ctx fields).map (·.1) = fields := by
  induction fields with
  | nil => rfl
  | cons field fields ih => rw [fieldEffects,List.map_cons,ih]

section Values

/-- A conversion has an effect on a field with the content `old`. -/
def HasEffect (effect : FieldEffect) (old : Option ProtoValue) (st : ConvertState) (r : ProtoResult) : Prop :=
  match effect with
  | .keeps accepted => r.ok = accepted ∧ r.content = old ∧ r.state.freed = st.freed ∧
      r.state.nextBlock = st.nextBlock
  | .stores accepted clean owns => r.ok = accepted ∧
      Leaves st r.state (releaseContent r.content) (clean = true) ∧
      (releaseContent r.content = [] ↔ owns = false)

variable {ctx : JSContext}

theorem HasEffect.ok {effect : FieldEffect} {old : Option ProtoValue} {st : ConvertState}
    {r : ProtoResult} (h : HasEffect effect old st r) : r.ok = effect.accepted := by
  cases effect <;> exact h.1

theorem hasEffect_plain {content old : Option ProtoValue} (st : ConvertState) (h : releaseContent content = []) :
    HasEffect (.stores true true false) old st ⟨true,content,st⟩ := by
  refine ⟨rfl,?_,iff_of_true h rfl⟩
  rw [h]
  exact Leaves.congr (leaves_nil rfl rfl) (by simp)

theorem hasEffect_block {content old : Option ProtoValue} (st : ConvertState)
    (h : releaseContent content = [.block st.nextBlock]) :
    HasEffect (.stores true true true) old st ⟨true,content,st.alloc⟩ := by
  refine ⟨rfl,?_,iff_of_false (by rw [h]; simp) (by simp)⟩
  rw [h]
  exact Leaves.congr (leaves_block rfl rfl) (by simp)

variable {effect : JSValue → FieldEffect}

theorem toProtoValue_effect (type : ProtobufType) {nested : MessageConverter}
    (hnested : ∀ value old st, HasEffect (effect value) old st (nested value st))
    (value : JSValue) (old : Option ProtoValue) (st : ConvertState) :
    HasEffect (valueEffect ctx type effect value) old st (toProtoValue ctx type nested value old st) := by
  cases type with
  | message => exact hnested value old st
  | string =>
    simp only [valueEffect,toProtoValue]
    cases ctx.toCString value with
    | none => exact ⟨rfl,rfl,rfl,rfl⟩
    | some text => exact hasEffect_block st rfl
  | bytes =>
    cases value with
    | string text =>
      simp only [valueEffect,toProtoValue]
      have hrelease : releaseContent (some (.bytes st.nextBlock text.toUTF8.toList)) =
          if text.toUTF8.toList.isEmpty then [] else [.block st.nextBlock] := rfl
      cases hempty : text.toUTF8.toList.isEmpty with
      | true =>
        rw [hempty,if_pos rfl] at hrelease
        refine ⟨rfl,?_,iff_of_true hrelease rfl⟩
        rw [hrelease]
        exact Leaves.congr (leaves_leak rfl rfl) (by simp)
      | false =>
        rw [hempty] at hrelease
        exact hasEffect_block st hrelease
    | object id =>
      simp only [valueEffect,toProtoValue]
      cases ctx.arrayBufferData id with
      | none => exact ⟨rfl,rfl,rfl,rfl⟩
      | some data =>
        cases data with
        | nil => exact ⟨rfl,rfl,rfl,rfl⟩
        | cons byte data => exact hasEffect_block st rfl
    | _ => exact ⟨rfl,rfl,rfl,rfl⟩
  | _ => exact hasEffect_plain st rfl

theorem toProtoItems_leaves {convert : JSValue → ConvertState → ProtoResult}
    (hconvert : ∀ value st, HasEffect (effect value) none st (convert value st))
    (values : List JSValue) (st : ConvertState) :
    (toProtoItems convert values st).1 = values.all (fun value => (effect value).accepted) ∧
    ∃ P, Leaves st (toProtoItems convert values st).2.2 (releaseItems (toProtoItems convert values st).2.1) P := by
  induction values generalizing st with
  | nil => exact ⟨rfl,True,leaves_nil rfl rfl⟩
  | cons value values ih =>
    have hvalue := hconvert value st
    have hitem : ∃ P, Leaves st (convert value st).state (releaseContent (convert value st).content) P := by
      cases heffect : effect value with
      | keeps accepted =>
        rw [heffect] at hvalue
        obtain ⟨-,hcontent,hfreed,hnext⟩ := hvalue
        rw [hcontent]
        exact ⟨True,leaves_nil hfreed hnext⟩
      | stores accepted clean owns =>
        rw [heffect] at hvalue
        exact ⟨_,hvalue.2.1⟩
    obtain ⟨P,hP⟩ := hitem
    have hcons : ∀ items, releaseItems ((convert value st).content :: items) =
        releaseContent (convert value st).content ++ releaseItems items := by
      intro items
      cases (convert value st).content <;> rfl
    simp only [toProtoItems,List.all_cons,← hvalue.ok]
    by_cases hok : (convert value st).ok = true
    · obtain ⟨hall,Q,hQ⟩ := ih (convert value st).state
      simp only [if_pos hok,hcons]
      exact ⟨by rw [hall,hok,Bool.true_and],_,hP.append hQ⟩
    · simp only [if_neg hok,hcons]
      refine ⟨by simp [hok],P,?_⟩
      rw [releaseItems,List.append_nil]
      exact hP

theorem toProtoField_effect (P : Platform) (label : ProtobufLabel) (type : ProtobufType) {nested : MessageConverter}
    (hnested : ∀ value old st, HasEffect (effect value) old st (nested value st))
    (value : JSValue) (old : Option ProtoValue) (st : ConvertState) :
    HasEffect (fieldEffect ctx label type effect value) old st
      (toProtoField P ctx label type nested value old st) := by
  have hvalue : ∀ value old st, HasEffect (valueEffect ctx type effect value) old st
      (toProtoValue ctx type nested value old st) := toProtoValue_effect type hnested
  cases label with
  | required =>
    simp only [fieldEffect,toProtoField]
    split_ifs
    · exact ⟨rfl,rfl,rfl,rfl⟩
    · exact hvalue value old st
  | repeated =>
    simp only [fieldEffect,toProtoField]
    split_ifs
    · obtain ⟨hall,Q,hQ⟩ := toProtoItems_leaves (fun item st => hvalue item none st)
        (arrayItems ctx value) st.alloc
      have harray : Leaves st _ _ False := hQ.unrooted rfl rfl
      refine ⟨hall,(harray.of_result (storeItems_freed ..) (storeItems_nextBlock ..)).congr (by simp),?_⟩
      exact iff_of_false (by simp [releaseContent,ProtoValue.release]) (by simp)
    · exact ⟨rfl,rfl,rfl,rfl⟩
  | _ => exact hvalue value old st

end Values

section Fill

def Matches (converter : FieldConverter) (effects : FieldEffects) : Prop :=
  converter.1 = effects.1 ∧ ∀ value old st, HasEffect (effects.2 value) old st (converter.2 value old st)

theorem matches_fields {converters : List FieldConverter} {effects : List FieldEffects}
    (h : List.Forall₂ Matches converters effects) :
    converters.map (·.1) = effects.map (·.1) := by
  induction h with
  | nil => rfl
  | cons hmatch _ ih => rw [List.map_cons,List.map_cons,ih,hmatch.1]

theorem matches_getElem? {converters : List FieldConverter} {effects : List FieldEffects}
    (h : List.Forall₂ Matches converters effects) (i : ℕ) :
    (converters[i]? = none ∧ effects[i]? = none) ∨ ∃ field convert effect,
      converters[i]? = some (field,convert) ∧ effects[i]? = some (field,effect) ∧
      ∀ value old st, HasEffect (effect value) old st (convert value old st) := by
  induction h generalizing i with
  | nil => exact .inl ⟨rfl,rfl⟩
  | @cons converter effect converters effects hmatch _ ih =>
    cases i with
    | zero =>
      obtain ⟨field,convert⟩ := converter
      obtain ⟨field',effect⟩ := effect
      obtain ⟨hfield,heffect⟩ := hmatch
      dsimp only at hfield
      subst hfield
      exact .inr ⟨field,convert,effect,rfl,rfl,heffect⟩
    | succ i => exact ih i

theorem selectCase_eq (ms : MessageState) (field : FieldDescriptor MessageDescriptor) :
    ms.selectCase field = (({ cases := ms.cases } : MessageState).selectCase field).map
      (fun next => { ms with cases := next.cases }) := by
  unfold MessageState.selectCase
  split_ifs <;> rfl

theorem lookup_store (ms : MessageState) (offset o : ℕ) (content : Option ProtoValue) :
    (ms.store offset content).values.lookup o =
      if o = offset then content else ms.values.lookup o := by
  cases content with
  | some value =>
    simp only [MessageState.store,List.lookup_cons]
    by_cases ho : o = offset
    · simp [ho]
    · have hne : (o == offset) = false := by simpa using ho
      simp [hne,ho]
  | none =>
    simp only [MessageState.store]
    induction ms.values with
    | nil => simp
    | cons entry values ih =>
      obtain ⟨at_,value⟩ := entry
      by_cases hat : at_ = offset
      · rw [List.filter_cons_of_neg (by simp [hat]),ih]
        split_ifs with ho
        · rfl
        · have hne : (o == at_) = false := by simpa [hat] using ho
          rw [List.lookup_cons,hne]
      · rw [List.filter_cons_of_pos (by simp [hat]),List.lookup_cons,List.lookup_cons,ih]
        by_cases ho : o = at_
        · simp [ho,hat]
        · have hne : (o == at_) = false := by simpa using ho
          rw [hne]

theorem nodup_storedOffsets (visits : List Visit) : (storedOffsets visits).Nodup := by
  induction visits with
  | nil => exact List.nodup_nil
  | cons visit visits ih =>
    obtain ⟨offset,effect⟩ := visit
    cases effect with
    | keeps accepted => exact ih
    | stores accepted clean owns =>
      rw [storedOffsets]
      split_ifs with hmem
      · exact ih
      · exact List.nodup_cons.mpr ⟨hmem,ih⟩

@[simp] theorem store_cases (ms : MessageState) (offset : ℕ) (content : Option ProtoValue) :
    (ms.store offset content).cases = ms.cases := by
  cases content <;> rfl

/-- What the conversion of properties does to a message with the given values, when it makes the
visits `w`. -/
structure FillSpec (w : Visits) (values : List (ℕ × ProtoValue)) (st : ConvertState)
    (r : Bool × MessageState × ConvertState) : Prop where
  ok : r.1 = w.accepted
  cases : r.2.1.cases = w.cases
  kept : ∀ o, o ∉ storedOffsets w.visits → r.2.1.values.lookup o = values.lookup o
  leaves : Leaves st r.2.2 ((storedOffsets w.visits).flatMap (releaseAt r.2.1.values)) (visitsClean w.visits = true)
  bare : visitsClean w.visits = true →
    ((storedOffsets w.visits).flatMap (releaseAt r.2.1.values) = [] ↔ visitsBare w.visits = true)

variable {ms : MessageState} {st : ConvertState} {w : Visits}
  {r : Bool × MessageState × ConvertState}

theorem fillSpec_nil (accepted : Bool) (ms : MessageState) (st : ConvertState) :
    FillSpec ⟨accepted,[],ms.cases⟩ ms.values st (accepted,ms,st) where
  ok := rfl
  cases := rfl
  kept _ _ := rfl
  leaves := Leaves.congr (leaves_nil rfl rfl) (by simp [visitsClean])
  bare _ := by simp [storedOffsets,visitsBare]

theorem FillSpec.visit {offset : ℕ} {effect : FieldEffect} {field : ProtoResult}
    (h : FillSpec w (ms.store offset field.content).values field.state r)
    (heffect : HasEffect effect (ms.values.lookup offset) st field) :
    FillSpec ⟨w.accepted,⟨offset,effect⟩ :: w.visits,w.cases⟩ ms.values st r := by
  cases effect with
  | keeps accepted =>
    obtain ⟨-,hcontent,hfreed,hnext⟩ := heffect
    refine ⟨h.ok,h.cases,fun o ho => ?_,h.leaves.of_state hfreed hnext,h.bare⟩
    rw [h.kept o ho,lookup_store,hcontent]
    split_ifs with heq
    · rw [heq]
    · rfl
  | stores accepted clean owns =>
    obtain ⟨-,hleaves,howns⟩ := heffect
    by_cases hmem : offset ∈ storedOffsets w.visits
    · -- the content is overwritten by a later visit
      have hstored : storedOffsets (⟨offset,.stores accepted clean owns⟩ :: w.visits) =
          storedOffsets w.visits := by rw [storedOffsets,if_pos hmem]
      refine ⟨h.ok,h.cases,fun o ho => ?_,?_,fun hclean => ?_⟩
      · rw [hstored] at ho
        rw [h.kept o ho,lookup_store,if_neg (by rintro rfl; exact ho hmem)]
      · dsimp only
        rw [hstored]
        refine (hleaves.discard.append h.leaves).congr ?_
        rw [howns]
        simp [visitsClean,hmem,and_assoc]
      · dsimp only
        rw [hstored]
        simp only [visitsClean,hmem,decide_true,Bool.and_true,Bool.and_eq_true,Bool.not_eq_true'] at hclean
        rw [h.bare hclean.2,visitsBare,hclean.1.2]
        simp
    · have hstored : storedOffsets (⟨offset,.stores accepted clean owns⟩ :: w.visits) =
          offset :: storedOffsets w.visits := by rw [storedOffsets,if_neg hmem]
      have hread : releaseAt r.2.1.values offset = releaseContent field.content := by
        rw [releaseAt,h.kept offset hmem,lookup_store,if_pos rfl]
      refine ⟨h.ok,h.cases,fun o ho => ?_,?_,fun hclean => ?_⟩
      · rw [hstored,List.mem_cons,not_or] at ho
        rw [h.kept o ho.2,lookup_store,if_neg ho.1]
      · dsimp only
        rw [hstored,List.flatMap_cons,hread]
        refine (hleaves.append h.leaves).congr ?_
        simp [visitsClean,hmem]
      · dsimp only
        simp only [visitsClean,hmem,decide_false,Bool.and_false,Bool.not_false,Bool.and_true,
          Bool.and_eq_true] at hclean
        rw [hstored,List.flatMap_cons,hread,List.append_eq_nil_iff,howns,h.bare hclean.2]
        simp [visitsBare]

/-- The loop over the own properties makes the visits that are listed for it. -/
theorem fillMessage_spec {converters : List FieldConverter} {effects : List FieldEffects}
    (hmatch : List.Forall₂ Matches converters effects) (sorted : List ℕ)
    (props : List (String × JSValue)) (ms : MessageState) (st : ConvertState) :
    FillSpec (visitProperties effects sorted props ms.cases) ms.values st
      (fillMessage converters sorted props ms st) := by
  induction props generalizing ms st with
  | nil => exact fillSpec_nil true ms st
  | cons prop props ih =>
    obtain ⟨name,value⟩ := prop
    simp only [visitProperties,fillMessage,matches_fields hmatch]
    cases hsearch : binarySearchField name (effects.map (·.1)) sorted with
    | none => exact fillSpec_nil false ms st
    | some i =>
      rcases matches_getElem? hmatch i with ⟨hnone,hnone'⟩ | ⟨field,convert,effect,hc,he,heffect⟩
      · simp only [Option.bind_some,hnone,hnone']
        exact fillSpec_nil false ms st
      · simp only [Option.bind_some,hc,he]
        rw [selectCase_eq ms field]
        cases ({ cases := ms.cases } : MessageState).selectCase field with
        | none => exact fillSpec_nil false ms st
        | some next =>
          have hfield := heffect value (ms.values.lookup field.offset) st
          simp only [Option.map_some,← hfield.ok]
          set content := (convert value (ms.values.lookup field.offset) st).content
          have hvalues : ∀ next : MessageState, next.values = ms.values → (next.store field.offset content).values =
                (ms.store field.offset content).values := by
            intro next hnext
            cases content <;> simp [MessageState.store,hnext]
          by_cases hok : (convert value (ms.values.lookup field.offset) st).ok = true
          · rw [if_pos hok,if_pos hok]
            have hrest := ih ({ ms with cases := next.cases }.store field.offset content)
              (convert value (ms.values.lookup field.offset) st).state
            rw [store_cases,hvalues { ms with cases := next.cases } rfl] at hrest
            exact hrest.visit hfield
          · rw [if_neg hok,if_neg hok]
            have hlast := fillSpec_nil false
              ({ ms with cases := next.cases }.store field.offset content)
              (convert value (ms.values.lookup field.offset) st).state
            rw [store_cases,hvalues { ms with cases := next.cases } rfl] at hlast
            exact hlast.visit hfield

end Fill

/-- Fields have bytes of their own, except the members of one oneof, whose ids differ and are not
zero. -/
structure FieldLayout (fields : List (FieldDescriptor MessageDescriptor)) : Prop where
  apart : fields.Pairwise (fun f g => f.offset = g.offset →
    f.isOneof = true ∧ g.isOneof = true ∧ f.quantifierOffset = g.quantifierOffset ∧ f.id ≠ g.id)
  positive : ∀ f ∈ fields, f.isOneof = true → f.id ≠ 0

/-- The layout that the compiler gives the struct of a message, down to its sub-messages. -/
inductive MessageLayout : MessageDescriptor → Prop
  | mk {fields : List (FieldDescriptor MessageDescriptor)} {sorted : List ℕ}
      (layout : FieldLayout fields)
      (nested : ∀ field ∈ fields, ∀ descriptor, field.descriptor = some descriptor → MessageLayout descriptor) :
      MessageLayout (.mk fields sorted)

section Release

variable {fields : List (FieldDescriptor MessageDescriptor)} {effects : List FieldEffects}

def releasedFields (fields : List (FieldDescriptor MessageDescriptor)) (cases : List (ℕ × ℕ)) :
    List ℕ :=
  (fields.filter (fun field => !isOneOfSkipped field cases)).map (·.offset)

theorem releaseFields_eq (fields : List (FieldDescriptor MessageDescriptor))
    (cases : List (ℕ × ℕ)) (values : List (ℕ × ProtoValue)) :
    releaseFields fields cases (releaseValues values) = (releasedFields fields cases).flatMap (releaseAt values) := by
  have hlookup : ∀ offset, ((releaseValues values).lookup offset).getD [] =
      releaseAt values offset := by
    intro offset
    rw [releaseValues_eq,releaseAt,releaseContent]
    induction values with
    | nil => rfl
    | cons entry values ih =>
      rw [List.map_cons,List.lookup_cons,List.lookup_cons]
      cases offset == entry.1
      · exact ih
      · rfl
  unfold releaseFields releasedFields
  induction fields with
  | nil => rfl
  | cons field fields ih =>
    rw [List.flatMap_cons,ih]
    cases hskip : isOneOfSkipped field cases with
    | true => simp [hskip]
    | false => simp [hskip,hlookup]

theorem nodup_releasedFields (h : FieldLayout fields) (cases : List (ℕ × ℕ)) :
    (releasedFields fields cases).Nodup := by
  have hapart := h.apart
  clear h
  unfold releasedFields
  induction fields with
  | nil => exact List.nodup_nil
  | cons field fields ih =>
    rw [List.pairwise_cons] at hapart
    cases hskip : isOneOfSkipped field cases with
    | true =>
      rw [List.filter_cons_of_neg (by simp [hskip])]
      exact ih hapart.2
    | false =>
      rw [List.filter_cons_of_pos (by simp [hskip]),List.map_cons,List.nodup_cons]
      refine ⟨fun hmem => ?_,ih hapart.2⟩
      obtain ⟨other,hother,hoffset⟩ := List.mem_map.mp hmem
      obtain ⟨hin,hreleased⟩ := List.mem_filter.mp hother
      obtain ⟨hone,hone',hq,hid⟩ := hapart.1 other hin hoffset.symm
      simp only [isOneOfSkipped,hone,hone',Bool.true_and,Bool.not_eq_true',bne_eq_false_iff_eq]
        at hskip hreleased
      rw [← hq] at hreleased
      exact hid (hskip.symm.trans hreleased)

theorem visitProperties_cases (sorted : List ℕ) (props : List (String × JSValue))
    (cases : List (ℕ × ℕ)) (q : ℕ) (hq : (cases.lookup q).getD 0 ≠ 0) :
    ((visitProperties effects sorted props cases).cases.lookup q).getD 0 = (cases.lookup q).getD 0 := by
  induction props generalizing cases with
  | nil => rfl
  | cons prop props ih =>
    obtain ⟨name,value⟩ := prop
    simp only [visitProperties]
    cases (binarySearchField name (effects.map (·.1)) sorted).bind (effects[·]?) with
    | none => rfl
    | some entry =>
      obtain ⟨field,effect⟩ := entry
      dsimp only
      have hselect : ∀ ms, ({ cases := cases } : MessageState).selectCase field = some ms →
          (ms.cases.lookup q).getD 0 = (cases.lookup q).getD 0 := by
        intro ms hms
        unfold MessageState.selectCase at hms
        split_ifs at hms with hone hzero
        · obtain rfl := Option.some.inj hms
          have hne : (q == field.quantifierOffset) = false := by
            rw [beq_eq_false_iff_ne]
            rintro rfl
            exact hq hzero
          simp [List.lookup_cons,hne]
        · obtain rfl := Option.some.inj hms
          rfl
      cases hms : ({ cases := cases } : MessageState).selectCase field with
      | none => rfl
      | some ms =>
        have hkept := hselect ms hms
        dsimp only
        split_ifs
        · dsimp only
          rw [ih ms.cases (by rw [hkept]; exact hq),hkept]
        · exact hkept

theorem storedOffsets_released (h : FieldLayout (effects.map (·.1))) (sorted : List ℕ)
    (props : List (String × JSValue)) (cases : List (ℕ × ℕ)) {o : ℕ}
    (ho : o ∈ storedOffsets (visitProperties effects sorted props cases).visits) :
    o ∈ releasedFields (effects.map (·.1)) (visitProperties effects sorted props cases).cases := by
  induction props generalizing cases with
  | nil => simp [visitProperties,storedOffsets] at ho
  | cons prop props ih =>
    obtain ⟨name,value⟩ := prop
    simp only [visitProperties] at ho ⊢
    cases hsearch : (binarySearchField name (effects.map (·.1)) sorted).bind (effects[·]?) with
    | none => simp [hsearch,storedOffsets] at ho
    | some entry =>
      obtain ⟨field,effect⟩ := entry
      have hmem : field ∈ effects.map (·.1) := by
        obtain ⟨i,-,hi⟩ := Option.bind_eq_some_iff.mp hsearch
        exact List.mem_map.mpr ⟨(field,effect),List.mem_of_getElem? hi,rfl⟩
      rw [hsearch] at ho
      dsimp only at ho ⊢
      cases hms : ({ cases := cases } : MessageState).selectCase field with
      | none => simp [hms,storedOffsets] at ho
      | some ms =>
        rw [hms] at ho
        dsimp only at ho ⊢
        have hselected : field.isOneof = true → (ms.cases.lookup field.quantifierOffset).getD 0 = field.id := by
          intro hone
          unfold MessageState.selectCase at hms
          rw [if_pos hone] at hms
          split_ifs at hms
          obtain rfl := Option.some.inj hms
          simp
        have hreleased : ∀ finalCases : List (ℕ × ℕ), ((ms.cases.lookup field.quantifierOffset).getD 0 ≠ 0 →
              (finalCases.lookup field.quantifierOffset).getD 0 = (ms.cases.lookup field.quantifierOffset).getD 0) →
            field.offset ∈ releasedFields (effects.map (·.1)) finalCases := by
          intro finalCases hfinal
          refine List.mem_map.mpr ⟨field,List.mem_filter.mpr ⟨hmem,?_⟩,rfl⟩
          cases hone : field.isOneof with
          | false => simp [isOneOfSkipped,hone]
          | true =>
            have hid := hselected hone
            have hne := h.positive field hmem hone
            rw [hid] at hfinal
            simp [isOneOfSkipped,hone,hfinal hne]
        have hhead : ∀ visits, o ∈ storedOffsets (⟨field.offset,effect value⟩ :: visits) →
            o = field.offset ∨ o ∈ storedOffsets visits := by
          intro visits hin
          cases heffect : effect value with
          | keeps accepted =>
            rw [heffect] at hin
            exact .inr hin
          | stores accepted clean owns =>
            rw [heffect,storedOffsets] at hin
            split_ifs at hin
            · exact .inr hin
            · exact List.mem_cons.mp hin
        split_ifs at ho ⊢
        · rcases hhead _ ho with rfl | hrest
          · exact hreleased _ (visitProperties_cases sorted props ms.cases _)
          · exact ih ms.cases hrest
        · rcases hhead _ ho with rfl | hrest
          · exact hreleased _ (fun _ => rfl)
          · simp [storedOffsets] at hrest

theorem releaseAt_initValues (fields : List (FieldDescriptor MessageDescriptor)) (offset : ℕ) :
    ∀ event ∈ releaseAt (initValues fields) offset, event = .invalid := by
  intro event hevent
  unfold releaseAt at hevent
  cases hlookup : (initValues fields).lookup offset with
  | none => simp [hlookup,releaseContent] at hevent
  | some value =>
    have hmem : (offset,value) ∈ initValues fields := by
      obtain ⟨l₁,l₂,hsplit,-⟩ := List.lookup_eq_some_iff.mp hlookup
      rw [hsplit]
      simp
    unfold initValues at hmem
    rw [List.mem_reverse,List.mem_filterMap] at hmem
    obtain ⟨field,-,hfield⟩ := hmem
    obtain ⟨initial,hinitial,heq⟩ := Option.map_eq_some_iff.mp hfield
    obtain rfl := (Prod.mk.inj heq).2
    rw [hlookup] at hevent
    unfold FieldDescriptor.initial at hinitial
    split_ifs at hinitial
    split at hinitial
    · obtain rfl := Option.some.inj hinitial
      simpa [releaseContent,ProtoValue.release] using hevent
    · obtain rfl := Option.some.inj hinitial
      simp only [releaseContent,ProtoValue.release,Option.map_some,Option.getD_some] at hevent
      split_ifs at hevent <;> simp_all
    · simp at hinitial

/-- The released fields: those with a new content, and those that still have their default. -/
theorem releasedFields_perm (h : FieldLayout (effects.map (·.1))) (sorted : List ℕ)
    (props : List (String × JSValue)) (cases : List (ℕ × ℕ)) :
    ∃ rest : List ℕ, (releasedFields (effects.map (·.1)) (visitProperties effects sorted props cases).cases).Perm
          (storedOffsets (visitProperties effects sorted props cases).visits ++ rest) ∧
      ∀ o, o ∈ rest ↔ o ∈ releasedFields (effects.map (·.1)) (visitProperties effects sorted props cases).cases ∧
        o ∉ storedOffsets (visitProperties effects sorted props cases).visits := by
  set w := visitProperties effects sorted props cases with hw
  set released := releasedFields (effects.map (·.1)) w.cases
  refine ⟨released.filter (· ∉ storedOffsets w.visits),?_,by simp⟩
  have hnodup : released.Nodup := nodup_releasedFields h w.cases
  have hstored : (released.filter (· ∈ storedOffsets w.visits)).Perm (storedOffsets w.visits) := by
    refine (List.perm_ext_iff_of_nodup (hnodup.filter _) (nodup_storedOffsets _)).mpr (fun o => ?_)
    simp only [List.mem_filter,decide_eq_true_eq]
    refine ⟨fun hin => hin.2,fun hin => ⟨?_,hin⟩⟩
    exact storedOffsets_released h sorted props cases hin
  have hsplit := List.filter_append_perm (fun o => decide (o ∈ storedOffsets w.visits)) released
  refine hsplit.symm.trans ?_
  simpa using hstored.append_right _

end Release

section Message

variable {ctx : JSContext} {effects : List FieldEffects} {converters : List FieldConverter}

/-- The frees of the fields of a message that was built, and the visits they come from. -/
structure Built (w : Visits) (clean bare : Bool) (st : ConvertState) (st₁ : ConvertState)
    (freed : List FreeEvent) : Prop where
  once : Leaves st st₁ (freed ++ [.block st.nextBlock]) (clean = true)
  twice : Leaves st st₁ (freed ++ (freed ++ [.block st.nextBlock])) ((clean && bare) = true)

theorem buildMessage_built (hlayout : FieldLayout (effects.map (·.1)))
    (hmatch : List.Forall₂ Matches converters effects) (sorted : List ℕ)
    (props : List (String × JSValue)) (st : ConvertState) :
    let w := visitProperties effects sorted props []
    let r := fillMessage converters sorted props
      { values := initValues (effects.map (·.1)) } st.alloc
    r.1 = w.accepted ∧ Built w (visitsClean w.visits && defaultsReplaced (effects.map (·.1)) w)
      (visitsBare w.visits) st r.2.2
      (releaseFields (effects.map (·.1)) r.2.1.cases (releaseValues r.2.1.values)) := by
  intro w r
  have hspec : FillSpec w (initValues (effects.map (·.1))) st.alloc r :=
    fillMessage_spec hmatch sorted props { values := initValues (effects.map (·.1)) } st.alloc
  obtain ⟨rest,hperm,hrest⟩ := releasedFields_perm hlayout sorted props []
  have hfreed : releaseFields (effects.map (·.1)) r.2.1.cases (releaseValues r.2.1.values) =
      (releasedFields (effects.map (·.1)) w.cases).flatMap (releaseAt r.2.1.values) := by
    rw [releaseFields_eq,hspec.cases]
  have hstray : rest.flatMap (releaseAt r.2.1.values) =
      rest.flatMap (releaseAt (initValues (effects.map (·.1)))) := by
    refine List.flatMap_congr (fun o ho => ?_)
    rw [releaseAt,hspec.kept o ((hrest o).mp ho).2]
    rfl
  set stray := rest.flatMap (releaseAt (initValues (effects.map (·.1)))) with hstrayDef
  set kept := (storedOffsets w.visits).flatMap (releaseAt r.2.1.values) with hkept
  have hinvalid : ∀ event ∈ stray, event = .invalid := by
    intro event hevent
    obtain ⟨o,-,ho⟩ := List.mem_flatMap.mp hevent
    exact releaseAt_initValues _ o event ho
  have hall : (kept ++ stray).Perm
      ((releasedFields (effects.map (·.1)) w.cases).flatMap (releaseAt r.2.1.values)) := by
    rw [← hstray,hkept,← List.flatMap_append]
    exact (hperm.flatMap_right _).symm
  have hdefaults : stray = [] ↔ defaultsReplaced (effects.map (·.1)) w = true := by
    rw [hstrayDef,List.flatMap_eq_nil_iff,defaultsReplaced,List.all_eq_true]
    constructor
    · intro h field hfield
      by_cases hskip : isOneOfSkipped field w.cases = true
      · simp [hskip]
      · by_cases hin : field.offset ∈ storedOffsets w.visits
        · simp [hin]
        · have hreleased : field.offset ∈ releasedFields (effects.map (·.1)) w.cases :=
            List.mem_map.mpr ⟨field,List.mem_filter.mpr ⟨hfield,by simp [hskip]⟩,rfl⟩
          simp [h field.offset ((hrest _).mpr ⟨hreleased,hin⟩)]
    · intro h o ho
      obtain ⟨hreleased,hnot⟩ := (hrest o).mp ho
      obtain ⟨field,hfield,rfl⟩ := List.mem_map.mp hreleased
      obtain ⟨hin,hskip⟩ := List.mem_filter.mp hfield
      have hreplaced := h field hin
      have hskip' : isOneOfSkipped field w.cases = false := by simpa using hskip
      rw [hskip',decide_eq_false hnot] at hreplaced
      simpa using hreplaced
  have hclean : (visitsClean w.visits = true ∧ stray = []) ↔
      (visitsClean w.visits && defaultsReplaced (effects.map (·.1)) w) = true := by
    rw [hdefaults,Bool.and_eq_true]
  refine ⟨hspec.ok,?_,?_⟩
  · rw [hfreed]
    exact Leaves.congr (hspec.leaves.root_stray (alloc_freed st) (alloc_nextBlock st) hinvalid hall) hclean
  · rw [hfreed]
    refine Leaves.congr (hspec.leaves.twice_stray (alloc_freed st) (alloc_nextBlock st) hinvalid hall) ?_
    rw [hclean,Bool.and_eq_true (_ && _)]
    refine and_congr_right (fun h => ?_)
    have hvisits := (hclean.mpr h).1
    have hnil := (hclean.mpr h).2
    rw [hnil,List.append_nil] at hall
    rw [← hspec.bare hvisits]
    constructor
    · intro he
      rw [he] at hall
      exact hall.eq_nil
    · intro he
      change kept = [] at he
      rw [he] at hall
      exact hall.symm.eq_nil

/-- The effect of `toNative` on a message, as a field of another message and as a parameter. -/
structure HasMessageEffect (effect : MessageEffect) (convert : ConvertState → ProtoResult) :
    Prop where
  nested : ∀ old st, HasEffect effect.nested old st (convert st)
  parameter : ∀ st, Leaves st (convert st).state
    (((convert st).content.map ProtoValue.freeMessage).getD []) (effect.balanced = true)
  built : ∀ st, (convert st).content.isSome = effect.accepted

theorem buildMessage_effect (hlayout : FieldLayout (effects.map (·.1)))
    (hmatch : List.Forall₂ Matches converters effects) (sorted : List ℕ) (value : JSValue) :
    HasMessageEffect (buildEffect ctx effects sorted value) (buildMessage ctx converters sorted value) := by
  have hbuild : ∀ st, buildMessage ctx converters sorted value st =
      let r := fillMessage converters sorted (messageProperties ctx value)
        { values := initValues (effects.map (·.1)) } st.alloc
      let message := ProtoValue.message st.nextBlock (effects.map (·.1)) r.2.1.values r.2.1.cases
      if r.1 then ⟨true,some message,r.2.2⟩ else ⟨false,none,r.2.2.free message.release⟩ := by
    intro st
    rw [← matches_fields hmatch]
    cases value <;> rfl
  have hbuilt := fun st => buildMessage_built hlayout hmatch sorted (messageProperties ctx value) st
  unfold buildEffect
  generalize messageProperties ctx value = props at hbuild hbuilt ⊢
  cases haccepted : (visitProperties effects sorted props []).accepted with
  | true =>
    refine ⟨fun old st => ?_,fun st => ?_,fun st => ?_⟩
    all_goals
      obtain ⟨hok,honce,htwice⟩ := hbuilt st
      rw [haccepted] at hok
      rw [hbuild]
      simp only [hok,if_true]
    · refine ⟨haccepted.symm,htwice,?_⟩
      refine iff_of_false (by simp [releaseContent,ProtoValue.release,releaseMessage]) ?_
      simp [haccepted]
    · exact honce.congr (by simp [MessageEffect.balanced,haccepted])
    · simp [haccepted]
  | false =>
    refine ⟨fun old st => ?_,fun st => ?_,fun st => ?_⟩
    all_goals
      obtain ⟨hok,honce,htwice⟩ := hbuilt st
      rw [haccepted] at hok
      rw [hbuild]
      simp only [hok,Bool.false_eq_true,if_false]
    · exact ⟨haccepted.symm,htwice.settle,iff_of_true rfl haccepted⟩
    · exact htwice.settle.congr (by simp [MessageEffect.balanced,haccepted])
    · simp [haccepted]

mutual

theorem protoToNative_effect (P : Platform) (ctx : JSContext) : ∀ (descriptor : MessageDescriptor),
    MessageLayout descriptor → ∀ value, HasMessageEffect (messageEffect ctx descriptor value)
      (protoToNative P ctx descriptor value)
  | .mk fields sorted, .mk hlayout hnested, value => by
    have hfields : (fieldEffects ctx fields).map (·.1) = fields := fieldEffects_fields ctx fields
    rw [← hfields] at hlayout
    exact buildMessage_effect hlayout (fieldConverters_match P ctx fields hnested) sorted value

theorem fieldConverters_match (P : Platform) (ctx : JSContext) :
    ∀ (fields : List (FieldDescriptor MessageDescriptor)),
    (∀ field ∈ fields, ∀ descriptor, field.descriptor = some descriptor → MessageLayout descriptor) →
    List.Forall₂ Matches (fieldConverters P ctx fields) (fieldEffects ctx fields)
  | [], _ => .nil
  | ⟨name,id,label,type,quantifierOffset,offset,descriptor,isOneof,defaultValue⟩ :: fields, h => by
    refine .cons ⟨rfl,toProtoField_effect P label type ?_⟩ (fieldConverters_match P ctx fields
      (fun field hfield => h field (List.mem_cons_of_mem _ hfield)))
    exact nestedConverter_effect P ctx descriptor (h _ List.mem_cons_self)

theorem nestedConverter_effect (P : Platform) (ctx : JSContext) : ∀ (descriptor : Option MessageDescriptor),
    (∀ d, descriptor = some d → MessageLayout d) → ∀ value old st,
      HasEffect (nestedEffect ctx descriptor value) old st (nestedConverter P ctx descriptor value st)
  | none, _, _, _, _ => ⟨rfl,Leaves.congr (leaves_nil rfl rfl) (by simp),iff_of_true rfl rfl⟩
  | some descriptor, h, value, old, st =>
    (protoToNative_effect P ctx descriptor (h descriptor rfl) value).nested old st

end

end Message

end FeatureRuntime
