import FeatureRuntime.ProtoEncoding
import FeatureRuntime.ProtoRelease

/-! Messages that come back: a message, converted to a JS object by `fromNative` and from it by
`toNative`. -/
namespace FeatureRuntime

section Search

variable {name : String} {names : List String} {sorted : List ℕ}

/-- The binary search finds the name that stands at position `k` of the sorted table. -/
theorem binarySearch_eq (hascending : (sorted.map (fun i => names[i]?)).Pairwise (fun a b =>
      ∃ m n, a = some m ∧ b = some n ∧ m < n)) {k index : ℕ} (hk : sorted[k]? = some index)
    (hindex : names[index]? = some name) (hvalid : ∀ i ∈ sorted, i < names.length)
    (fuel : ℕ) (low high : ℤ) (hlow : 0 ≤ low) (hlowk : low ≤ k) (hkhigh : k ≤ high)
    (hhigh : high < sorted.length) (hfuel : high - low < fuel) :
    binarySearch name names sorted fuel low high = some index := by
  induction fuel generalizing low high with
  | zero => omega
  | succ fuel ih =>
    have hmid : ((low + high) / 2).toNat < sorted.length := by omega
    set mid := ((low + high) / 2).toNat with hmidDef
    have hprobe : sorted[mid] < names.length := hvalid _ (List.getElem_mem hmid)
    have hless : ∀ i j (hi : i < sorted.length) (hj : j < sorted.length), i < j →
        ∃ m n, names[sorted[i]]? = some m ∧ names[sorted[j]]? = some n ∧ m < n := by
      intro i j hi hj hij
      have hpair := (List.pairwise_iff_getElem.mp hascending) i j (by simpa using hi)
        (by simpa using hj) hij
      simpa using hpair
    obtain ⟨hklt,hkget⟩ := List.getElem?_eq_some_iff.mp hk
    simp only [binarySearch]
    rw [if_pos (by omega),← hmidDef,List.getElem?_eq_getElem hmid]
    dsimp only
    rw [List.getElem?_eq_getElem hprobe]
    dsimp only
    rcases lt_trichotomy mid k with hbefore | hat | hbehind
    · obtain ⟨m,n,hm,hn,hlt⟩ := hless mid k hmid hklt hbefore
      rw [hkget,hindex] at hn
      rw [List.getElem?_eq_getElem hprobe] at hm
      obtain rfl := Option.some.inj hn
      obtain rfl := Option.some.inj hm
      rw [if_neg (fun heq => String.lt_irrefl _ (heq ▸ hlt)),if_pos hlt]
      exact ih _ _ (by omega) (by omega) hkhigh hhigh (by omega)
    · have heq : sorted[mid] = index := by
        simp only [hat]
        exact hkget
      have hfound : names[sorted[mid]]? = some name := by
        rw [heq]
        exact hindex
      have hname : names[sorted[mid]] = name :=
        Option.some.inj ((List.getElem?_eq_getElem hprobe).symm.trans hfound)
      rw [if_pos hname,heq]
    · obtain ⟨m,n,hm,hn,hlt⟩ := hless k mid hklt hmid hbehind
      rw [hkget,hindex] at hm
      rw [List.getElem?_eq_getElem hprobe] at hn
      obtain rfl := Option.some.inj hn
      obtain rfl := Option.some.inj hm
      rw [if_neg (fun heq => String.lt_irrefl _ (heq ▸ hlt)),if_neg (String.lt_asymm hlt)]
      exact ih _ _ hlow hlowk (by omega) (by omega) (by omega)

theorem GeneratedFields.binarySearchField_eq {fields : List (FieldDescriptor MessageDescriptor)}
    (h : GeneratedFields fields sorted) {i : ℕ} {field : FieldDescriptor MessageDescriptor}
    (hi : fields[i]? = some field) : binarySearchField field.name fields sorted = some i := by
  obtain ⟨hlt,hget⟩ := List.getElem?_eq_some_iff.mp hi
  have hlength : sorted.length = fields.length := by
    rw [h.table.length_eq,List.length_range]
  have hmem : i ∈ sorted := h.table.mem_iff.mpr (List.mem_range.mpr hlt)
  obtain ⟨k,hklt,hk⟩ := List.getElem_of_mem hmem
  have hnames : sorted.map (fun i => (fields.map (·.name))[i]?) =
      sorted.map (fun i => (fields[i]?).map (·.name)) := by simp
  refine binarySearch_eq (hnames ▸ h.ascending) (List.getElem?_eq_some_iff.mpr ⟨hklt,hk⟩)
    (by simp [hi]) ?_ _ _ _ le_rfl (by omega) (by omega) (by omega) (by omega)
  intro j hj
  have hrange := List.mem_range.mp (h.table.mem_iff.mp hj)
  simpa using hrange

end Search

section Reports

variable {P : Platform} {ctx : JSContext}

def AddsReports (st : ConvertState) (r : ConvertState) : Prop := st.events <+: r.events

theorem AddsReports.refl (st : ConvertState) : AddsReports st st := List.prefix_refl _

theorem AddsReports.trans {st st₁ st₂ : ConvertState} (h : AddsReports st st₁) (h' : AddsReports st₁ st₂) :
    AddsReports st st₂ :=
  List.IsPrefix.trans h h'

theorem addsReports_report (st : ConvertState) (event : ConvertEvent) : AddsReports st (st.report event) :=
  List.prefix_append _ _

theorem AddsReports.eq_iff {st st₁ st₂ : ConvertState} (h : AddsReports st st₁) (h' : AddsReports st₁ st₂) :
    st₂.events = st.events ↔ st₁.events = st.events ∧ st₂.events = st₁.events := by
  constructor
  · intro heq
    have hfirst : st₁.events = st.events :=
      List.IsPrefix.eq_of_length_le (heq ▸ h') h.length_le
    exact ⟨hfirst,heq.trans hfirst.symm⟩
  · rintro ⟨h₁,h₂⟩
    rw [h₂,h₁]

theorem toProtoValue_reports (type : ProtobufType) {nested : MessageConverter}
    (hnested : ∀ value st, AddsReports st (nested value st).state) (value : JSValue)
    (old : Option ProtoValue) (st : ConvertState) :
    AddsReports st (toProtoValue ctx type nested value old st).state := by
  cases type with
  | message => exact hnested value st
  | string =>
    simp only [toProtoValue]
    cases ctx.toCString value with
    | none => exact addsReports_report st _
    | some text => exact List.prefix_refl _
  | bytes =>
    cases value with
    | object id =>
      simp only [toProtoValue]
      cases ctx.arrayBufferData id with
      | none => exact AddsReports.refl st
      | some data => cases data <;> exact List.prefix_refl _
    | _ => exact List.prefix_refl _
  | _ => exact AddsReports.refl st

theorem toProtoItems_reports {convert : JSValue → ConvertState → ProtoResult}
    (hconvert : ∀ value st, AddsReports st (convert value st).state) (values : List JSValue)
    (st : ConvertState) : AddsReports st (toProtoItems convert values st).2.2 := by
  induction values generalizing st with
  | nil => exact .refl st
  | cons value values ih =>
    simp only [toProtoItems]
    split_ifs
    · exact (hconvert value st).trans (ih _)
    · exact hconvert value st

theorem storeItems_reports (st : ConvertState) (itemSize width stored length : ℕ) :
    AddsReports st (st.storeItems itemSize width stored length) := by
  unfold ConvertState.storeItems
  split_ifs
  · exact .refl st
  · exact addsReports_report st _

theorem toProtoField_reports (label : ProtobufLabel) (type : ProtobufType)
    {nested : MessageConverter} (hnested : ∀ value st, AddsReports st (nested value st).state)
    (value : JSValue) (old : Option ProtoValue) (st : ConvertState) :
    AddsReports st (toProtoField P ctx label type nested value old st).state := by
  have hvalue := @toProtoValue_reports ctx type nested hnested
  cases label with
  | required =>
    simp only [toProtoField]
    split_ifs
    · exact .refl st
    · exact hvalue value old st
  | repeated =>
    simp only [toProtoField]
    split_ifs
    · have hitems := toProtoItems_reports (fun item st => hvalue item none st)
        (arrayItems ctx value) st.alloc
      exact hitems.trans (storeItems_reports ..)
    · exact .refl st
  | _ => exact hvalue value old st

theorem fillMessage_reports {converters : List FieldConverter}
    (hconverters : ∀ converter ∈ converters, ∀ value old st,
      AddsReports st (converter.2 value old st).state) (sorted : List ℕ)
    (props : List (String × JSValue)) (ms : MessageState) (st : ConvertState) :
    AddsReports st (fillMessage converters sorted props ms st).2.2 := by
  induction props generalizing ms st with
  | nil => exact .refl st
  | cons prop props ih =>
    obtain ⟨name,value⟩ := prop
    simp only [fillMessage]
    cases hfound : (binarySearchField name (converters.map (·.1)) sorted).bind (converters[·]?) with
    | none => exact .refl st
    | some converter =>
      obtain ⟨field,convert⟩ := converter
      obtain ⟨i,-,hi⟩ := Option.bind_eq_some_iff.mp hfound
      have hconvert := hconverters _ (List.mem_of_getElem? hi)
      dsimp only
      cases ms.selectCase field with
      | none => exact .refl st
      | some next =>
        dsimp only
        split_ifs
        · exact (hconvert _ _ _).trans (ih _ _)
        · exact hconvert _ _ _

def fieldConverter (P : Platform) (ctx : JSContext) (field : FieldDescriptor MessageDescriptor) :
    FieldConverter :=
  (field,toProtoField P ctx field.label field.type (nestedConverter P ctx field.descriptor))

theorem protoToNative_mk (fields : List (FieldDescriptor MessageDescriptor)) (sorted : List ℕ) :
    protoToNative P ctx (.mk fields sorted) = buildMessage ctx (fields.map (fieldConverter P ctx)) sorted := by
  have hfields : ∀ fields, fieldConverters P ctx fields = fields.map (fieldConverter P ctx) := by
    intro fields
    induction fields with
    | nil => rfl
    | cons field fields ih => rw [fieldConverters,List.map_cons,ih,fieldConverter]
  rw [protoToNative,hfields]

theorem protoToNative_reports (descriptor : MessageDescriptor) (value : JSValue)
    (st : ConvertState) : AddsReports st (protoToNative P ctx descriptor value st).state := by
  induction descriptor using MessageDescriptor.induction generalizing value st with
  | mk fields sorted ih =>
    rw [protoToNative_mk]
    have hconverters : ∀ converter ∈ fields.map (fieldConverter P ctx), ∀ value old st,
        AddsReports st (converter.2 value old st).state := by
      intro converter hconverter value old st
      obtain ⟨field,hfield,rfl⟩ := List.mem_map.mp hconverter
      refine toProtoField_reports _ _ (fun value st => ?_) value old st
      cases hdescriptor : field.descriptor with
      | none => exact addsReports_report st _
      | some nested => exact ih field hfield nested hdescriptor value st
    simp only [buildMessage]
    split_ifs
    · exact fillMessage_reports hconverters sorted _ _ st.alloc
    · exact fillMessage_reports hconverters sorted _ _ st.alloc

end Reports

section Decoding

/-- A conversion succeeds without a report and stores the same content exactly when the content is
restorable. -/
def Decodes (st : ConvertState) (r : ProtoResult) (same : Option ProtoValue → Prop) (restorable : Prop) : Prop :=
  (r.ok = true ∧ r.state.events = st.events ∧ same r.content) ↔ restorable

variable {P : Platform} {base : JSContext} {heap : ScriptHeap} {low : ℕ}
  {nested : MessageConverter} {shaped restorable : ProtoValue → Prop}
  {same : Option ProtoValue → Option ProtoValue → Prop}
  {shows : JSValue → Option ProtoValue → Prop}

def DecodesNested (nested : MessageConverter) (shaped restorable : ProtoValue → Prop)
    (same : Option ProtoValue → Option ProtoValue → Prop)
    (shows : JSValue → Option ProtoValue → Prop) : Prop :=
  ∀ value content st, Shaped .message shaped content → shows value content →
    Decodes st (nested value st) (same content) (∃ message, content = some message ∧ restorable message)

theorem cString_idem (text : String) : cString (cString text) = cString text := by
  unfold cString
  rw [String.toList_ofList,List.takeWhile_takeWhile]
  simp

theorem wrap_toInt (type : ProtobufType) (value : ℤ)
    (h : type.wrap = toInt ∨ ∀ value, type.wrap value = value % 2 ^ 32) :
    type.wrap (toInt (toInt value)) = type.wrap value := by
  have hvalue : toInt (toInt value) = toInt value := Int.bmod_bmod ..
  have hcongr : toInt value % 2 ^ 32 = value % 2 ^ 32 := Int.bmod_emod ..
  rcases h with h | h
  · rw [h,hvalue,hvalue]
  · rw [h,h,hvalue,hcongr]

variable {type : ProtobufType}

theorem wrap_eq_iff (value other : ℤ) (h : (∀ value, type.wrap value = value.bmod (2 ^ 64)) ∨
      ∀ value, type.wrap value = value % 2 ^ 64) :
    type.wrap value = type.wrap other ↔ value.bmod (2 ^ 64) = other.bmod (2 ^ 64) := by
  rcases h with h | h
  · rw [h,h]
  · rw [h,h]
    simp only [Int.bmod_def]
    omega

/-- A word of 64 bits comes back exactly when it is the value of a double. -/
theorem decodes_int64 (st : ConvertState) (content : Option ProtoValue)
    (h : (∀ value, type.wrap value = value.bmod (2 ^ 64)) ∨ ∀ value, type.wrap value = value % 2 ^ 64) :
    Decodes st ⟨true,some (.int (JSNumber.ofInt64 ((intContent content).bmod (2 ^ 64))).toInt64),st⟩
      (fun content' => type.wrap (intContent content) = type.wrap (intContent content'))
      (JSNumber.isExact ((intContent content).bmod (2 ^ 64)) = true) := by
  set word := (intContent content).bmod (2 ^ 64) with hword
  have hlow : -2 ^ 63 ≤ word := by
    have hle := @Int.le_bmod (intContent content) (2 ^ 64) (by decide)
    omega
  have hhigh : word < 2 ^ 63 := by
    have hlt := @Int.bmod_lt (intContent content) (2 ^ 64) (by decide)
    omega
  have hbmod : (JSNumber.ofInt64 word).toInt64.bmod (2 ^ 64) = (JSNumber.ofInt64 word).toInt64 :=
    Int.bmod_bmod ..
  have hexact := JSNumber.toInt64_ofInt64_iff hlow hhigh
  have hsame : type.wrap (intContent content) = type.wrap (JSNumber.ofInt64 word).toInt64 ↔
      (JSNumber.ofInt64 word).toInt64 = word := by
    rw [wrap_eq_iff _ _ h,hbmod,← hword]
    exact eq_comm
  rw [Decodes,← hexact,← hsame]
  exact ⟨fun hstored => hstored.2.2,fun hcontent => ⟨rfl,rfl,hcontent⟩⟩

variable {content : Option ProtoValue}

theorem decodes_stored {st st' : ConvertState}
    {same : Option ProtoValue → Prop} (hstate : st'.events = st.events) (h : same content) :
    Decodes st ⟨true,content,st'⟩ same True :=
  iff_of_true ⟨rfl,hstate,h⟩ trivial

variable {value : JSValue}

theorem toProtoValue_decodes (type : ProtobufType) (hnested : DecodesNested nested shaped restorable same shows)
    (hshaped : Shaped type shaped content)
    (hshows : ShowsValue type shows heap low value content) (old : Option ProtoValue)
    (st : ConvertState) :
    Decodes st (toProtoValue (heap.context base) type nested value old st)
      (SameValue type same content) (RestorableValue type restorable content old) := by
  cases type with
  | message => exact hnested value content st hshaped hshows
  | int32 | sint32 | sfixed32 | enum =>
    obtain rfl := hshows
    exact decodes_stored rfl (wrap_toInt .int32 _ (.inl rfl)).symm
  | uint32 | fixed32 =>
    obtain rfl := hshows
    exact decodes_stored rfl (wrap_toInt .uint32 _ (.inr (fun _ => rfl))).symm
  | int64 | sint64 | sfixed64 =>
    obtain rfl := hshows
    exact decodes_int64 st content (.inl (fun _ => rfl))
  | uint64 | fixed64 =>
    obtain rfl := hshows
    exact decodes_int64 st content (.inr (fun _ => rfl))
  | float | double =>
    obtain rfl := hshows
    exact decodes_stored rfl rfl
  | bool =>
    obtain rfl := hshows
    exact decodes_stored rfl rfl
  | string =>
    obtain ⟨text,htext,rfl⟩ := hshows
    have hvalue : toProtoValue (heap.context base) .string nested (.string text) old st =
        ⟨true,some (.string st.nextBlock (cString text)),st.alloc⟩ := rfl
    have hidem : cString text = text := by
      cases content with
      | none => cases htext
      | some content => cases content <;> cases htext <;> exact cString_idem _
    rw [hvalue,RestorableValue,htext]
    refine iff_of_true ⟨rfl,rfl,?_⟩ rfl
    rw [SameValue,htext,textContent,cString_idem,hidem]
  | bytes =>
    obtain ⟨id,-,rfl,hobject⟩ := hshows
    have hdata : (heap.context base).arrayBufferData id = some (bytesContent content) := by
      simp only [ScriptHeap.context,JSContext.withObjects,hobject]
    simp only [toProtoValue,hdata,RestorableValue]
    cases hbytes : bytesContent content with
    | nil =>
      refine ⟨fun h _ => ?_,fun h => ⟨rfl,rfl,?_⟩⟩
      · exact h.2.2.symm.trans hbytes
      · exact hbytes.trans (h rfl).symm
    | cons byte data =>
      refine iff_of_true ⟨rfl,rfl,?_⟩ (by simp)
      exact hbytes

theorem forall₂_imp_mem {α β : Type*} {R S : α → β → Prop} {xs : List α} {ys : List β}
    (h : ∀ x ∈ xs, ∀ y ∈ ys, R x y → S x y) (hR : List.Forall₂ R xs ys) : List.Forall₂ S xs ys := by
  induction hR with
  | nil => exact .nil
  | @cons x y xs ys hxy _ ih =>
    refine .cons (h x List.mem_cons_self y List.mem_cons_self hxy) (ih ?_)
    intro x hx y hy
    exact h x (List.mem_cons_of_mem _ hx) y (List.mem_cons_of_mem _ hy)

theorem toProtoItems_decodes {convert : JSValue → ConvertState → ProtoResult}
    {same : Option ProtoValue → Option ProtoValue → Prop} {restorable : Option ProtoValue → Prop}
    (hreports : ∀ value st, AddsReports st (convert value st).state) {values : List JSValue}
    {items : List (Option ProtoValue)}
    (h : List.Forall₂ (fun value item => ∀ st, Decodes st (convert value st) (same item)
      (restorable item)) values items) (st : ConvertState) :
    ((toProtoItems convert values st).1 = true ∧ (toProtoItems convert values st).2.2.events = st.events ∧
      List.Forall₂ same items (toProtoItems convert values st).2.1) ↔
    ∀ item ∈ items, restorable item := by
  induction h generalizing st with
  | nil => exact iff_of_true ⟨rfl,rfl,.nil⟩ (by simp)
  | @cons value item values items hvalue _ ih =>
    have hitem := hvalue st
    rw [Decodes] at hitem
    rw [List.forall_mem_cons,← hitem]
    simp only [toProtoItems]
    by_cases hok : (convert value st).ok = true
    · simp only [if_pos hok]
      rw [(hreports value st).eq_iff (toProtoItems_reports hreports values _),List.forall₂_cons,
        ← ih (convert value st).state]
      tauto
    · simp only [if_neg hok]
      exact iff_of_false (fun h => Bool.noConfusion h.1) (fun h => hok h.1.1)

theorem toProtoItems_length (convert : JSValue → ConvertState → ProtoResult)
    (values : List JSValue) (st : ConvertState) :
    (toProtoItems convert values st).2.1.length ≤ values.length := by
  induction values generalizing st with
  | nil => exact le_rfl
  | cons value values ih =>
    simp only [toProtoItems]
    split_ifs
    · exact Nat.succ_le_succ (ih _)
    · simp

theorem events_storeItems_iff (st : ConvertState) (itemSize width stored length : ℕ) :
    (st.storeItems itemSize width stored length).events = st.events ↔ width * stored ≤ itemSize * length % 2 ^ 32 := by
  unfold ConvertState.storeItems
  split_ifs with h
  · exact iff_of_true rfl h
  · exact iff_of_false (by simp) h

theorem getProtoTypeSize_pos (P : Platform) (type : ProtobufType) : 0 < getProtoTypeSize P type := by
  have hpointer : 0 < P.pointerSize := by
    rcases P.supported with h | h <;> omega
  cases type <;> simp only [getProtoTypeSize] <;> omega

theorem arrayItems_eq {id : ℕ} {elements : List JSValue} (h : heap[id]? = some (.array elements)) :
    (arrayItems (heap.context base) (.object id)).length = elements.length % 2 ^ 32 ∧
    (elements.length < 2 ^ 32 → arrayItems (heap.context base) (.object id) = elements) := by
  have hsize := (@ScriptHeap.context_array base heap id elements h).2
  refine ⟨by simp [arrayItems,hsize],fun hlength => ?_⟩
  rw [arrayItems,hsize,Nat.mod_eq_of_lt hlength]
  refine List.ext_getElem (by simp) (fun i _ hi => ?_)
  rw [List.getElem_map,List.getElem_range]
  exact JSContext.withObjects_element h (List.getElem?_eq_getElem hi)

theorem ShowsValue.ne_exception (h : ShowsValue type shows heap low value content)
    (hnested : ∀ value content, shows value content → value ≠ .exception) :
    value ≠ .exception := by
  cases type with
  | message => exact hnested value content h
  | string =>
    obtain ⟨text,-,rfl⟩ := h
    simp
  | bytes =>
    obtain ⟨id,-,rfl,-⟩ := h
    simp
  | _ =>
    obtain rfl := h
    simp

theorem itemWidth_eq {type : ProtobufType} (h : type ≠ .bool) : itemWidth P type = getProtoTypeSize P type := by
  cases type <;> first | rfl | exact absurd rfl h

/-- A repeated field comes back when it has items other than booleans, all of them come back, and the
size of their buffer fits 32 bits. -/
theorem toProtoField_decodes_repeated {field : FieldDescriptor MessageDescriptor} (hlabel : field.label = .repeated)
    (hnested : DecodesNested nested shaped restorable same shows)
    (hreports : ∀ value st, AddsReports st (nested value st).state)
    (hshaped : ∀ item ∈ itemsContent content, Shaped field.type shaped item)
    (hshows : ShowsField field.label field.type shows heap low value content)
    (old : Option ProtoValue) (st : ConvertState) :
    Decodes st (toProtoField P (heap.context base) field.label field.type nested value old st)
      (SameField field same content) (RestorableField P field restorable content old) := by
  have hconvert := fun item st =>
    @toProtoValue_reports (heap.context base) field.type nested hreports item none st
  unfold ShowsField at hshows
  unfold SameField RestorableField
  rw [if_pos hlabel] at hshows
  simp only [if_pos hlabel]
  by_cases hempty : itemsContent content = []
  · rw [if_pos hempty] at hshows
    subst hshows
    refine iff_of_false ?_ (fun h => h.1 hempty)
    intro h
    simp [toProtoField,hlabel,JSContext.isArray] at h
  · rw [if_neg hempty] at hshows
    obtain ⟨id,elements,-,rfl,hobject,hitems⟩ := hshows
    have harray := (@ScriptHeap.context_array base heap id elements hobject).1
    obtain ⟨hlength,hsmall⟩ := @arrayItems_eq base heap id elements hobject
    set read := arrayItems (heap.context base) (.object id)
    set r := toProtoItems (fun item st =>
      toProtoValue (heap.context base) field.type nested item none st) read st.alloc with hr
    have hfield : toProtoField P (heap.context base) field.label field.type nested (.object id) old
        st = ⟨r.1,some (.repeated st.nextBlock r.2.1),
          r.2.2.storeItems (getProtoTypeSize P field.type) (itemWidth P field.type) r.2.1.length read.length⟩ := by
      simp only [hlabel,toProtoField,harray,if_true]
      rfl
    have hpos := getProtoTypeSize_pos P field.type
    have hstored : r.2.1.length ≤ read.length := toProtoItems_length _ _ _
    have hquiet := AddsReports.eq_iff (toProtoItems_reports hconvert read st.alloc)
      (storeItems_reports _ (getProtoTypeSize P field.type) (itemWidth P field.type) r.2.1.length read.length)
    rw [hfield,Decodes]
    change (r.1 = true ∧ (r.2.2.storeItems _ _ _ _).events = st.alloc.events ∧ List.Forall₂ _ _ r.2.1) ↔ _
    rw [hquiet,events_storeItems_iff]
    by_cases hfits : (itemsContent content).length < 2 ^ 32
    · have hforall := hitems hfits
      have hsame : elements.length = (itemsContent content).length :=
        hforall.length_eq.trans (length_stridedItems _ _)
      have hread : read = elements := hsmall (hsame ▸ hfits)
      have hcount : 0 < (itemsContent content).length := List.length_pos_iff.mpr hempty
      by_cases hbool : field.type = .bool
      · refine iff_of_false ?_ (fun h => h.2.1 hbool)
        rintro ⟨-,⟨-,hfit⟩,hall⟩
        rw [hbool,itemWidth,getProtoTypeSize,Nat.one_mul,← hall.length_eq,hread,hsame] at hfit
        have hmod := Nat.mod_le (itemsContent content).length (2 ^ 32)
        omega
      rw [stridedItems,if_neg hbool] at hforall
      rw [itemWidth_eq hbool]
      have hdecodes := @toProtoItems_decodes (fun item st =>
          toProtoValue (heap.context base) field.type nested item none st)
        (SameValue field.type same) (fun item => RestorableValue field.type restorable item none)
        hconvert read (itemsContent content) (by
          rw [hread]
          exact forall₂_imp_mem (fun value _ item hitem hvalue st =>
            toProtoValue_decodes field.type hnested (hshaped item hitem) hvalue none st) hforall)
        st.alloc
      rw [← hr] at hdecodes
      constructor
      · rintro ⟨hok,⟨hevents,hfit⟩,hall⟩
        have hcount : r.2.1.length = read.length := by
          rw [← hall.length_eq,hread,hsame]
        have hsize := Nat.mod_lt (getProtoTypeSize P field.type * read.length)
          (show 0 < 2 ^ 32 by decide)
        refine ⟨hempty,hbool,?_,hdecodes.mp ⟨hok,hevents,hall⟩⟩
        rw [← hsame,← hread]
        rw [hcount] at hfit
        omega
      · rintro ⟨-,-,hsize,hrestorable⟩
        obtain ⟨hok,hevents,hall⟩ := hdecodes.mpr hrestorable
        refine ⟨hok,⟨hevents,?_⟩,hall⟩
        rw [← hsame,← hread] at hsize
        rw [Nat.mod_eq_of_lt hsize]
        exact Nat.mul_le_mul_left _ hstored
    · refine iff_of_false ?_ ?_
      · rintro ⟨-,-,hall⟩
        have hcount := hall.length_eq
        have hmod := Nat.mod_lt elements.length (show 0 < 2 ^ 32 by decide)
        omega
      · rintro ⟨-,-,hsize,-⟩
        exact hfits (lt_of_le_of_lt (Nat.le_mul_of_pos_left _ hpos) hsize)

theorem toProtoField_decodes (field : FieldDescriptor MessageDescriptor)
    (hnested : DecodesNested nested shaped restorable same shows)
    (hreports : ∀ value st, AddsReports st (nested value st).state)
    (hobject : ∀ value content, shows value content → value ≠ .exception)
    (hshaped : ShapedContent field.label field.type shaped content)
    (hshows : ShowsField field.label field.type shows heap low value content)
    (old : Option ProtoValue) (st : ConvertState) :
    Decodes st (toProtoField P (heap.context base) field.label field.type nested value old st)
      (SameField field same content) (RestorableField P field restorable content old) := by
  by_cases hlabel : field.label = .repeated
  · rw [ShapedContent,if_pos hlabel] at hshaped
    exact toProtoField_decodes_repeated hlabel hnested hreports hshaped hshows old st
  · rw [ShapedContent,if_neg hlabel] at hshaped
    rw [ShowsField,if_neg hlabel] at hshows
    have hfield : toProtoField P (heap.context base) field.label field.type nested value old st =
        toProtoValue (heap.context base) field.type nested value old st := by
      cases hcase : field.label with
      | repeated => exact absurd hcase hlabel
      | required => exact if_neg (hshows.ne_exception hobject)
      | _ => rfl
    rw [hfield]
    unfold SameField RestorableField
    simp only [if_neg hlabel]
    exact toProtoValue_decodes field.type hnested hshaped hshows old st

end Decoding

section Fill

variable {P : Platform} {ctx : JSContext} {fields : List (FieldDescriptor MessageDescriptor)}
  {sorted : List ℕ}

theorem fillMessage_cons (hlayout : GeneratedFields fields sorted)
    {field : FieldDescriptor MessageDescriptor} (hfield : field ∈ fields) (value : JSValue)
    (props : List (String × JSValue)) (ms : MessageState) (st : ConvertState) :
    fillMessage (fields.map (fieldConverter P ctx)) sorted ((field.name,value) :: props) ms st =
      match ms.selectCase field with
      | none => (false,ms,st)
      | some next =>
        let r := (fieldConverter P ctx field).2 value (next.values.lookup field.offset) st
        if r.ok then
          fillMessage (fields.map (fieldConverter P ctx)) sorted props (next.store field.offset r.content) r.state
        else (false,next.store field.offset r.content,r.state) := by
  obtain ⟨i,hi⟩ := List.getElem?_of_mem hfield
  have hnames : (fields.map (fieldConverter P ctx)).map (·.1) = fields := by
    rw [List.map_map]
    exact List.map_id fields
  have hfound : (binarySearchField field.name ((fields.map (fieldConverter P ctx)).map (·.1))
      sorted).bind ((fields.map (fieldConverter P ctx))[·]?) = some (fieldConverter P ctx field) := by
    rw [hnames,hlayout.binarySearchField_eq hi,Option.bind_some,List.getElem?_map,hi]
    rfl
  rw [fillMessage,hfound]
  rfl

/-- The case word of a oneof after the members among `fields` were set. -/
def selectedCase (fields : List (FieldDescriptor MessageDescriptor)) (quantifier old : ℕ) : ℕ :=
  match fields.find? (fun f => f.isOneof && f.quantifierOffset == quantifier) with
  | some field => field.id
  | none => old

theorem selectCase_of_zero {ms : MessageState} {field : FieldDescriptor MessageDescriptor}
    (h : field.isOneof = true → (ms.cases.lookup field.quantifierOffset).getD 0 = 0) :
    ∃ next, ms.selectCase field = some next ∧ next.values = ms.values ∧ ∀ q, (next.cases.lookup q).getD 0 =
        selectedCase [field] q ((ms.cases.lookup q).getD 0) := by
  unfold MessageState.selectCase selectedCase
  cases hone : field.isOneof with
  | false => exact ⟨ms,by simp,rfl,by simp [hone]⟩
  | true =>
    rw [if_pos rfl,if_pos (h hone)]
    refine ⟨_,rfl,rfl,fun q => ?_⟩
    by_cases hq : q = field.quantifierOffset
    · simp [hq,hone]
    · have hbeq : (q == field.quantifierOffset) = false := by simpa using hq
      have hbeq' : (field.quantifierOffset == q) = false := by simpa using Ne.symm hq
      simp [List.lookup_cons,hbeq,hbeq']

/-- The loop over properties that stand for fields of their own, no two of them in one oneof: each
field gets what its property is converted to, and nothing else changes. -/
theorem fillMessage_decodes (hlayout : GeneratedFields fields sorted)
    {same : FieldDescriptor MessageDescriptor → Option ProtoValue → Prop}
    {restorable : FieldDescriptor MessageDescriptor → Option ProtoValue → Prop}
    {written : List (FieldDescriptor MessageDescriptor)} {props : List (String × JSValue)}
    (hprops : List.Forall₂ (fun field p => p.1 = field.name ∧ ∀ old st, Decodes st
      ((fieldConverter P ctx field).2 p.2 old st) (same field) (restorable field old)) written props)
    (hmem : ∀ field ∈ written, field ∈ fields)
    (hoffsets : written.Pairwise (fun f g => f.offset ≠ g.offset))
    (hcases : written.Pairwise (fun f g => f.isOneof = true → g.isOneof = true →
      f.quantifierOffset ≠ g.quantifierOffset))
    {ms : MessageState} (hzero : ∀ field ∈ written, field.isOneof = true →
      (ms.cases.lookup field.quantifierOffset).getD 0 = 0) (st : ConvertState) :
    let r := fillMessage (fields.map (fieldConverter P ctx)) sorted props ms st
    ((r.1 = true ∧ r.2.2.events = st.events ∧ ∀ field ∈ written, same field (r.2.1.values.lookup field.offset)) ↔
        ∀ field ∈ written, restorable field (ms.values.lookup field.offset)) ∧
    (r.1 = true → ∀ o, (∀ field ∈ written, field.offset ≠ o) → r.2.1.values.lookup o = ms.values.lookup o) ∧
    (r.1 = true → ∀ q, (r.2.1.cases.lookup q).getD 0 = selectedCase written q ((ms.cases.lookup q).getD 0)) := by
  have hreports : ∀ converter ∈ fields.map (fieldConverter P ctx), ∀ value old st,
      AddsReports st (converter.2 value old st).state := by
    intro converter hconverter value old st
    obtain ⟨field,-,rfl⟩ := List.mem_map.mp hconverter
    refine toProtoField_reports _ _ (fun value st => ?_) value old st
    cases field.descriptor with
    | none => exact addsReports_report st _
    | some nested => exact protoToNative_reports nested value st
  induction hprops generalizing ms st with
  | nil => exact ⟨iff_of_true ⟨rfl,rfl,by simp⟩ (by simp),fun _ _ _ => rfl,fun _ _ => rfl⟩
  | @cons field prop written props hprop _ ih =>
    obtain ⟨name,value⟩ := prop
    obtain ⟨rfl,hdecodes⟩ := hprop
    rw [List.pairwise_cons] at hoffsets hcases
    obtain ⟨next,hnext,hvalues,hselected⟩ := selectCase_of_zero (hzero field List.mem_cons_self)
    have hdecodes := hdecodes (next.values.lookup field.offset) st
    rw [Decodes] at hdecodes
    intro r
    have hr : r = fillMessage (fields.map (fieldConverter P ctx)) sorted ((field.name,value) :: props) ms st := rfl
    rw [fillMessage_cons hlayout (hmem field List.mem_cons_self),hnext] at hr
    dsimp only at hr
    set first := (fieldConverter P ctx field).2 value (next.values.lookup field.offset) st
    set ms' := next.store field.offset first.content with hms'
    have hlookup : ∀ o, ms'.values.lookup o =
        if o = field.offset then first.content else ms.values.lookup o := by
      intro o
      rw [hms',lookup_store,hvalues]
    have hcases' : ms'.cases = next.cases := by
      rw [hms']
      unfold MessageState.store
      cases first.content <;> rfl
    by_cases hok : first.ok = true
    · rw [if_pos hok] at hr
      have hzero' : ∀ f ∈ written, f.isOneof = true → (ms'.cases.lookup f.quantifierOffset).getD 0 = 0 := by
        intro f hf hone
        rw [hcases',hselected]
        have hother : (field.isOneof && field.quantifierOffset == f.quantifierOffset) = false := by
          cases hfield : field.isOneof with
          | false => rfl
          | true => simpa using hcases.1 f hf hfield hone
        rw [selectedCase,List.find?_cons,hother]
        exact hzero f (List.mem_cons_of_mem _ hf) hone
      obtain ⟨hiff,hkept,hfinal⟩ := ih (fun f hf => hmem f (List.mem_cons_of_mem _ hf)) hoffsets.2
        hcases.2 hzero' first.state
      rw [← hr] at hiff hkept hfinal
      have hfirst : AddsReports st first.state := hreports _
        (List.mem_map_of_mem (hmem field List.mem_cons_self)) value _ st
      have hrest : AddsReports first.state r.2.2 := hr ▸ fillMessage_reports hreports sorted props ms' _
      have hold : ∀ f ∈ written, ms'.values.lookup f.offset = ms.values.lookup f.offset := by
        intro f hf
        rw [hlookup,if_neg (hoffsets.1 f hf).symm]
      have hcontent : r.1 = true → r.2.1.values.lookup field.offset = first.content := by
        intro hend
        rw [hkept hend field.offset (fun f hf => (hoffsets.1 f hf).symm),hlookup,if_pos rfl]
      refine ⟨?_,fun hend o ho => ?_,fun hend q => ?_⟩
      · rw [List.forall_mem_cons,List.forall_mem_cons,hfirst.eq_iff hrest,← hvalues,← hdecodes,hvalues]
        have hiff' : (r.1 = true ∧ r.2.2.events = first.state.events ∧
            ∀ f ∈ written, same f (r.2.1.values.lookup f.offset)) ↔
            ∀ f ∈ written, restorable f (ms.values.lookup f.offset) := by
          rw [hiff]
          exact forall₂_congr (fun f hf => by rw [hold f hf])
        rw [← hiff']
        constructor
        · rintro ⟨hend,⟨hevents,hlater⟩,hsame,hothers⟩
          rw [hcontent hend] at hsame
          exact ⟨⟨hok,hevents,hsame⟩,hend,hlater,hothers⟩
        · rintro ⟨⟨-,hevents,hsame⟩,hend,hlater,hothers⟩
          rw [← hcontent hend] at hsame
          exact ⟨hend,⟨hevents,hlater⟩,hsame,hothers⟩
      · have hne : o ≠ field.offset := (ho field List.mem_cons_self).symm
        rw [hkept hend o (fun f hf => ho f (List.mem_cons_of_mem _ hf)),hlookup,if_neg hne]
      · rw [hfinal hend,hcases',hselected]
        unfold selectedCase
        rw [List.find?_cons,List.find?_cons]
        cases hhere : (field.isOneof && field.quantifierOffset == q) with
        | false => rfl
        | true =>
          have hnone : written.find? (fun f => f.isOneof && f.quantifierOffset == q) = none := by
            rw [List.find?_eq_none]
            intro f hf hsame
            simp only [Bool.and_eq_true,beq_iff_eq] at hhere hsame
            exact hcases.1 f hf hhere.1 hsame.1 (hhere.2.trans hsame.2.symm)
          rw [hnone]
    · rw [if_neg hok] at hr
      have hend : r.1 = false := by rw [hr]
      refine ⟨iff_of_false ?_ ?_,?_,?_⟩
      · rintro ⟨htrue,-⟩
        exact Bool.noConfusion (htrue.symm.trans hend)
      · intro hall
        rw [List.forall_mem_cons,← hvalues,← hdecodes] at hall
        exact hok hall.1.1
      · intro htrue
        exact Bool.noConfusion (htrue.symm.trans hend)
      · intro htrue
        exact Bool.noConfusion (htrue.symm.trans hend)

end Fill

section Layout

variable {fields : List (FieldDescriptor MessageDescriptor)} {sorted : List ℕ}

/-- Fields of a message that are not skipped share no bytes, and no two of them are in one oneof. -/
theorem GeneratedFields.present_apart (h : GeneratedFields fields sorted) (cases : List (ℕ × ℕ)) :
    fields.Pairwise (fun f g => isOneOfSkipped f cases = false → isOneOfSkipped g cases = false →
      f.offset ≠ g.offset ∧ (f.isOneof = true → g.isOneof = true → f.quantifierOffset ≠ g.quantifierOffset)) := by
  refine (h.apart.and h.union).imp (fun {f g} hfg hf hg => ?_)
  obtain ⟨hapart,hunion⟩ := hfg
  have hids : f.isOneof = true → g.isOneof = true → f.quantifierOffset = g.quantifierOffset → f.id = g.id := by
    intro hfone hgone hq
    unfold isOneOfSkipped at hf hg
    rw [hfone,Bool.true_and,bne_eq_false_iff_eq] at hf
    rw [hgone,Bool.true_and,bne_eq_false_iff_eq] at hg
    rw [← hf,← hg,hq]
  constructor
  · intro hoffset
    obtain ⟨hfone,hgone,hq,hne⟩ := hapart hoffset
    exact hne (hids hfone hgone hq)
  · intro hfone hgone hq
    obtain ⟨-,-,-,hne⟩ := hapart (hunion hfone hgone hq)
    exact hne (hids hfone hgone hq)

theorem pairwise_eq_or {α : Type*} {R : α → α → Prop} {xs : List α} (h : xs.Pairwise R) {x y : α}
    (hx : x ∈ xs) (hy : y ∈ xs) : x = y ∨ R x y ∨ R y x := by
  obtain ⟨i,hi,rfl⟩ := List.getElem_of_mem hx
  obtain ⟨j,hj,rfl⟩ := List.getElem_of_mem hy
  rcases lt_trichotomy i j with hlt | rfl | hgt
  · exact .inr (.inl (List.pairwise_iff_getElem.mp h i j hi hj hlt))
  · exact .inl rfl
  · exact .inr (.inr (List.pairwise_iff_getElem.mp h j i hj hi hgt))

theorem GeneratedFields.eq_or_apart (h : GeneratedFields fields sorted) {cases : List (ℕ × ℕ)}
    {f g : FieldDescriptor MessageDescriptor} (hf : f ∈ fields) (hg : g ∈ fields)
    (hfskip : isOneOfSkipped f cases = false) (hgskip : isOneOfSkipped g cases = false) :
    f = g ∨ f.offset ≠ g.offset ∧ (f.isOneof = true → g.isOneof = true →
      f.quantifierOffset ≠ g.quantifierOffset) := by
  rcases pairwise_eq_or (h.present_apart cases) hf hg with heq | hfg | hgf
  · exact .inl heq
  · exact .inr (hfg hfskip hgskip)
  · obtain ⟨hoffset,hq⟩ := hgf hgskip hfskip
    exact .inr ⟨hoffset.symm,fun hfone hgone => (hq hgone hfone).symm⟩

theorem mem_initValues {o : ℕ} {value : ProtoValue} (h : (o,value) ∈ initValues fields) :
    ∃ field ∈ fields, field.offset = o ∧ field.initial = some value := by
  unfold initValues at h
  rw [List.mem_reverse,List.mem_filterMap] at h
  obtain ⟨field,hfield,hvalue⟩ := h
  obtain ⟨initial,hinitial,heq⟩ := Option.map_eq_some_iff.mp hvalue
  obtain ⟨rfl,rfl⟩ := Prod.mk.inj heq
  exact ⟨field,hfield,rfl,hinitial⟩

theorem GeneratedFields.lookup_initValues (h : GeneratedFields fields sorted)
    {field : FieldDescriptor MessageDescriptor} (hfield : field ∈ fields) :
    (initValues fields).lookup field.offset = field.initial := by
  cases hlookup : (initValues fields).lookup field.offset with
  | none =>
    cases hinitial : field.initial with
    | none => rfl
    | some value =>
      have hmem : (field.offset,value) ∈ initValues fields := by
        unfold initValues
        rw [List.mem_reverse,List.mem_filterMap]
        exact ⟨field,hfield,by rw [hinitial,Option.map_some]⟩
      have hnone := List.lookup_eq_none_iff.mp hlookup _ hmem
      simp at hnone
  | some value =>
    have hmem : (field.offset,value) ∈ initValues fields := by
      obtain ⟨before,behind,hsplit,-⟩ := List.lookup_eq_some_iff.mp hlookup
      rw [hsplit]
      simp
    obtain ⟨other,hother,hoffset,hinitial⟩ := mem_initValues hmem
    have hsingle : other.isOneof = false := by
      unfold FieldDescriptor.initial at hinitial
      split_ifs at hinitial with hnone
      simp only [not_or,Bool.not_eq_true] at hnone
      exact hnone.2
    rcases pairwise_eq_or h.apart hother hfield with rfl | hapart | hapart
    · exact hinitial.symm
    · rw [(hapart hoffset).1] at hsingle
      exact Bool.noConfusion hsingle
    · rw [(hapart hoffset.symm).2.1] at hsingle
      exact Bool.noConfusion hsingle

theorem lookup_initValues_of_apart {o : ℕ} (h : ∀ field ∈ fields, field.offset ≠ o) :
    (initValues fields).lookup o = none := by
  rw [List.lookup_eq_none_iff]
  rintro ⟨offset,value⟩ hmem
  obtain ⟨field,hfield,rfl,-⟩ := mem_initValues hmem
  simpa using (h field hfield).symm

end Layout

section Agreement

variable {P : Platform} {fields : List (FieldDescriptor MessageDescriptor)} {sorted : List ℕ}
  {values values' : List (ℕ × ProtoValue)} {cases cases' : List (ℕ × ℕ)}

def sameNested (field : FieldDescriptor MessageDescriptor) : Option ProtoValue → Option ProtoValue → Prop :=
  nestedOf SameMessage (fun _ _ => False) field

theorem sameMessage_mk (fields : List (FieldDescriptor MessageDescriptor)) (sorted : List ℕ) :
    SameMessage (.mk fields sorted) = sameFields (fields.map (fun field => (field,sameNested field))) :=
  MessageDescriptor.fold_mk _ _ fields sorted

theorem not_sameNested_none (field : FieldDescriptor MessageDescriptor) (message : ProtoValue) :
    ¬sameNested field (some message) none := by
  unfold sameNested
  cases hdescriptor : field.descriptor with
  | none =>
    rw [nestedOf_none hdescriptor]
    exact id
  | some descriptor =>
    rw [nestedOf_some hdescriptor]
    cases descriptor with
    | mk fields sorted =>
      rw [sameMessage_mk]
      cases message <;> exact id

theorem not_shows_none (field : FieldDescriptor MessageDescriptor) (heap : ScriptHeap) (low : ℕ)
    (value : JSValue) : ¬(showsEntry field).2 heap low value none := by
  simp only [showsEntry]
  cases hdescriptor : field.descriptor with
  | none =>
    rw [nestedOf_none hdescriptor]
    exact id
  | some descriptor =>
    rw [nestedOf_some hdescriptor]
    cases descriptor with
    | mk fields sorted =>
      rw [showsMessage_mk]
      exact id

/-- A field of a new message has the content that `fromNative` read exactly when it may stay
unset. -/
theorem sameField_initial_iff {field : FieldDescriptor MessageDescriptor}
    (hone : field.isOneof = false) {content : Option ProtoValue} {heap : ScriptHeap} {low : ℕ}
    {shown : JSValue} (hshows : ShowsField field.label field.type ((showsEntry field).2 heap low)
      heap low shown content) :
    SameField field (sameNested field) content field.initial ↔ UnsetField field content := by
  unfold SameField UnsetField
  rw [and_iff_right hone]
  by_cases hlabel : field.label = .repeated
  · have hinitial : field.initial = none := by
      unfold FieldDescriptor.initial
      rw [if_pos (.inl hlabel)]
    rw [if_pos hlabel,if_pos hlabel,hinitial]
    exact List.forall₂_nil_right_iff
  · rw [ShowsField,if_neg hlabel] at hshows
    rw [if_neg hlabel,if_neg hlabel]
    cases htype : field.type with
    | message =>
      have hinitial : field.initial = none := by
        unfold FieldDescriptor.initial
        simp [htype]
      rw [hinitial]
      refine iff_of_false (fun hsame => ?_) id
      rw [htype] at hshows
      cases content with
      | none => exact not_shows_none field heap low shown hshows
      | some message => exact not_sameNested_none field message hsame
    | string =>
      rw [htype] at hshows
      obtain ⟨text,htext,-⟩ := hshows
      rw [and_iff_right (by rw [htext,Option.isSome_some])]
      rfl
    | _ => rfl

def writtenFields (fields : List (FieldDescriptor MessageDescriptor)) (cases : List (ℕ × ℕ)) :
    List (FieldDescriptor MessageDescriptor) :=
  fields.filter (isWritten cases)

theorem mem_writtenFields {field : FieldDescriptor MessageDescriptor} : field ∈ writtenFields fields cases ↔
      field ∈ fields ∧ isOneOfSkipped field cases = false ∧ field.name ≠ "__proto__" := by
  simp [writtenFields,isWritten]

/-- The case word of a oneof when the written fields were set: that of the message, unless it names
a field that is not written. -/
theorem selectedCase_written (q : ℕ) :
    (∀ member ∈ writtenFields fields cases, member.isOneof = true → member.quantifierOffset = q →
      selectedCase (writtenFields fields cases) q 0 = (cases.lookup q).getD 0) ∧
    ((∀ member ∈ writtenFields fields cases, member.isOneof = true → member.quantifierOffset ≠ q) →
      selectedCase (writtenFields fields cases) q 0 = 0) := by
  unfold selectedCase
  constructor
  · intro member hmember hone hq
    cases hfind : (writtenFields fields cases).find? (fun f => f.isOneof && f.quantifierOffset == q) with
    | none =>
      have hnot := List.find?_eq_none.mp hfind member hmember
      simp [hone,hq] at hnot
    | some found =>
      have hfound := List.find?_some hfind
      simp only [Bool.and_eq_true,beq_iff_eq] at hfound
      have hskip := (mem_writtenFields.mp (List.mem_of_find?_eq_some hfind)).2.1
      unfold isOneOfSkipped at hskip
      rw [hfound.1,Bool.true_and,bne_eq_false_iff_eq,hfound.2] at hskip
      exact hskip.symm
  · intro hnone
    have hfind : (writtenFields fields cases).find? (fun f => f.isOneof && f.quantifierOffset == q) = none := by
      rw [List.find?_eq_none]
      intro f hf
      simp only [Bool.and_eq_true,beq_iff_eq,not_and]
      exact hnone f hf
    rw [hfind]

/-- The message that was built agrees with the one that was read exactly when the written fields
have the same content, no presence flag was set, and the fields that are not written may stay
unset. -/
theorem agree_iff (hlayout : GeneratedFields fields sorted) {heap : ScriptHeap} {low : ℕ}
    {shaped : FieldDescriptor MessageDescriptor → ProtoValue → Prop}
    (hshaped : ∀ field ∈ fields, FieldShaped fields field (shaped field) values cases)
    (hshown : ∀ field ∈ fields, isOneOfSkipped field cases = false →
      ∃ shown, FieldShows.Shows (showsEntry field) heap low values shown)
    (hkept : ∀ o, (∀ field ∈ writtenFields fields cases, field.offset ≠ o) →
      values'.lookup o = (initValues fields).lookup o)
    (hselected : ∀ q, (cases'.lookup q).getD 0 = selectedCase (writtenFields fields cases) q 0) :
    (∀ field ∈ fields, AgreeIn field (sameNested field) values cases values' cases') ↔
      (∀ field ∈ writtenFields fields cases, SameField field (sameNested field)
        (values.lookup field.offset) (values'.lookup field.offset)) ∧
      ∀ field ∈ fields, isOneOfSkipped field cases = false →
        (field.hasFlag = true → boolContent (values.lookup field.quantifierOffset) = false) ∧
        (field.name = "__proto__" → UnsetField field (values.lookup field.offset)) := by
  have hflag : ∀ field ∈ fields, field.hasFlag = true →
      boolContent (values'.lookup field.quantifierOffset) = false := by
    intro field hfield hhas
    have hoffsets := hlayout.flags field hfield hhas
    rw [hkept _ (fun f hf => hoffsets f (mem_writtenFields.mp hf).1),
      lookup_initValues_of_apart hoffsets]
    rfl
  -- a field that is present but not written keeps what a new message holds
  have hinitial : ∀ field ∈ fields, isOneOfSkipped field cases = false →
      field.name = "__proto__" → values'.lookup field.offset = field.initial := by
    intro field hfield hskip hproto
    rw [hkept _ ?_,hlayout.lookup_initValues hfield]
    intro f hf
    obtain ⟨hmem,hfskip,hname⟩ := mem_writtenFields.mp hf
    rcases hlayout.eq_or_apart hmem hfield hfskip hskip with rfl | hapart
    · exact absurd hproto hname
    · exact hapart.1
  constructor
  · intro hagree
    refine ⟨fun field hfield => ?_,fun field hfield hskip => ⟨fun hhas => ?_,fun hproto => ?_⟩⟩
    · obtain ⟨hmem,hskip,-⟩ := mem_writtenFields.mp hfield
      exact (hagree field hmem).content hskip
    · rw [(hagree field hfield).flag hhas,hflag field hfield hhas]
    · have hone : field.isOneof = false := by
        by_contra hnot
        have hone : field.isOneof = true := by simpa using hnot
        have hword := (hagree field hfield).selected hone
        have hnone := (@selectedCase_written fields cases
          field.quantifierOffset).2 (fun member hmember hmone hq => by
            obtain ⟨hmem,hmskip,hname⟩ := mem_writtenFields.mp hmember
            rcases hlayout.eq_or_apart hmem hfield hmskip hskip with rfl | hapart
            · exact hname hproto
            · exact hapart.2 hmone hone hq)
        rw [hselected,hnone] at hword
        unfold isOneOfSkipped at hskip
        rw [hone,Bool.true_and,bne_eq_false_iff_eq,hword] at hskip
        exact hlayout.positive field hfield hone hskip.symm
      obtain ⟨shown,hshows⟩ := hshown field hfield hskip
      have hcontent := (hagree field hfield).content hskip
      rw [hinitial field hfield hskip hproto] at hcontent
      exact (sameField_initial_iff hone hshows).mp hcontent
  · rintro ⟨hwritten,hrest⟩ field hfield
    refine ⟨fun hone => ?_,fun hhas => ?_,fun hskip => ?_⟩
    · rw [hselected]
      by_cases hword : (cases.lookup field.quantifierOffset).getD 0 = 0
      · rw [hword]
        refine ((@selectedCase_written fields cases
          field.quantifierOffset).2 (fun member hmember hmone hq => ?_)).symm
        obtain ⟨hmem,hmskip,-⟩ := mem_writtenFields.mp hmember
        unfold isOneOfSkipped at hmskip
        rw [hmone,Bool.true_and,bne_eq_false_iff_eq,hq,hword] at hmskip
        exact hlayout.positive member hmem hmone hmskip.symm
      · obtain ⟨member,hmem,hmone,hq,hmskip⟩ := (hshaped field hfield).selected hone hword
        have hname : member.name ≠ "__proto__" := by
          intro hproto
          have hunset := ((hrest member hmem hmskip).2 hproto).1
          exact Bool.noConfusion (hmone.symm.trans hunset)
        exact ((@selectedCase_written fields cases field.quantifierOffset).1 member
          (mem_writtenFields.mpr ⟨hmem,hmskip,hname⟩) hmone hq).symm
    · have hsingle : field.isOneof = false := by
        simp only [FieldDescriptor.hasFlag,Bool.and_eq_true,Bool.not_eq_true'] at hhas
        exact hhas.1.1.2
      have hskip : isOneOfSkipped field cases = false := by simp [isOneOfSkipped,hsingle]
      rw [(hrest field hfield hskip).1 hhas,hflag field hfield hhas]
    · by_cases hproto : field.name = "__proto__"
      · have hunset := (hrest field hfield hskip).2 hproto
        obtain ⟨shown,hshows⟩ := hshown field hfield hskip
        rw [hinitial field hfield hskip hproto]
        exact (sameField_initial_iff hunset.1 hshows).mpr hunset
      · exact hwritten field (mem_writtenFields.mpr ⟨hfield,hskip,hproto⟩)

end Agreement

section RoundTrip

variable {P : Platform} {base : JSContext} {heap : ScriptHeap} {low : ℕ}

theorem shows_ne_exception (field : FieldDescriptor MessageDescriptor) (value : JSValue)
    (content : Option ProtoValue) (h : (showsEntry field).2 heap low value content) :
    value ≠ .exception := by
  simp only [showsEntry] at h
  cases hdescriptor : field.descriptor with
  | none =>
    rw [nestedOf_none hdescriptor] at h
    exact h.elim
  | some descriptor =>
    rw [nestedOf_some hdescriptor] at h
    cases descriptor with
    | mk fields sorted =>
      rw [showsMessage_mk] at h
      cases content with
      | none => exact h.elim
      | some message =>
        cases message with
        | message block own values cases =>
          obtain ⟨⟨id,properties,-,rfl,-⟩,-⟩ := h
          simp
        | _ => exact h.elim

variable {fields : List (FieldDescriptor MessageDescriptor)} {sorted : List ℕ}

/-- A message is restorable where its written fields are, and the others hold what a new message has. -/
theorem restorable_iff {block : ℕ} {own : List (FieldDescriptor MessageDescriptor)} {values : List (ℕ × ProtoValue)}
    {cases : List (ℕ × ℕ)} : (∃ message, some (ProtoValue.message block own values cases) = some message ∧
      RestorableMessage P (.mk fields sorted) message) ↔
    (∀ field ∈ writtenFields fields cases, RestorableField P field
      (nestedOf (RestorableMessage P) (fun _ => False) field) (values.lookup field.offset) field.initial) ∧
    ∀ field ∈ fields, isOneOfSkipped field cases = false →
      (field.hasFlag = true → boolContent (values.lookup field.quantifierOffset) = false) ∧
      (field.name = "__proto__" → UnsetField field (values.lookup field.offset)) := by
  rw [restorableMessage_mk]
  constructor
  · rintro ⟨message,hmessage,hall⟩
    obtain rfl := Option.some.inj hmessage
    have hin := fun field (hfield : field ∈ fields) => hall _ (List.mem_map_of_mem hfield)
    refine ⟨fun field hfield => ?_,fun field hfield hskip => ?_⟩
    · obtain ⟨hmem,hskip,hname⟩ := mem_writtenFields.mp hfield
      have hback := (hin field hmem hskip).content
      rwa [if_neg hname] at hback
    · refine ⟨(hin field hfield hskip).flag,fun hname => ?_⟩
      have hback := (hin field hfield hskip).content
      rwa [if_pos hname] at hback
  · rintro ⟨hback,hrest⟩
    refine ⟨_,rfl,fun entry hentry hskip => ?_⟩
    obtain ⟨field,hfield,rfl⟩ := List.mem_map.mp hentry
    refine ⟨(hrest field hfield hskip).1,?_⟩
    split_ifs with hname
    · exact (hrest field hfield hskip).2 hname
    · exact hback field (mem_writtenFields.mpr ⟨hfield,hskip,hname⟩)

/-- `toNative` of an object fills a new message with its properties. -/
theorem protoToNative_object {id : ℕ} {properties : List (String × JSValue)} (hobject : heap[id]? = some (.plain properties))
    (st : ConvertState) : protoToNative P (heap.context base) (.mk fields sorted) (.object id) st =
      let r := fillMessage (fields.map (fieldConverter P (heap.context base))) sorted
        properties { values := initValues fields } st.alloc
      let message := ProtoValue.message st.nextBlock fields r.2.1.values r.2.1.cases
      if r.1 then ⟨true,some message,r.2.2⟩ else ⟨false,none,r.2.2.free message.release⟩ := by
  have hids : (fields.map (fieldConverter P (heap.context base))).map (·.1) = fields := by
    rw [List.map_map]
    exact List.map_id fields
  have hown : (heap.context base).ownProperties id = properties := by
    simp only [ScriptHeap.context,JSContext.withObjects,hobject]
  rw [protoToNative_mk,buildMessage]
  simp only [hids,hown]

/-- The fields of a message that is shaped are. -/
theorem shaped_fields {block : ℕ} {own : List (FieldDescriptor MessageDescriptor)} {values : List (ℕ × ProtoValue)}
    {cases : List (ℕ × ℕ)} (hshaped : shapedFields (fields.map (fun field =>
      (field,nestedOf ShapedMessage (fun _ => False) field))) (.message block own values cases)) :
    ∀ field ∈ fields, FieldShaped fields field (nestedOf ShapedMessage (fun _ => False) field) values cases := by
  intro field hfield
  have hids : (fields.map (fun field =>
      (field,nestedOf ShapedMessage (fun _ => False) field))).map (·.1) = fields := by
    rw [List.map_map]
    exact List.map_id fields
  have hin := hshaped _ (List.mem_map_of_mem hfield)
  rw [hids] at hin
  exact hin

theorem GeneratedFields.written_apart (hlayout : GeneratedFields fields sorted) (cases : List (ℕ × ℕ)) :
    (writtenFields fields cases).Pairwise (fun f g => f.offset ≠ g.offset ∧
      (f.isOneof = true → g.isOneof = true → f.quantifierOffset ≠ g.quantifierOffset)) := by
  refine ((hlayout.present_apart cases).sublist List.filter_sublist).imp_of_mem ?_
  intro f g hf hg hfg
  exact hfg (mem_writtenFields.mp hf).2.1 (mem_writtenFields.mp hg).2.1

/-- `toNative` on an object that shows a message. -/
theorem protoToNative_decodes {descriptor : MessageDescriptor} (hgenerated : GeneratedMessage descriptor) :
    DecodesNested (protoToNative P (heap.context base) descriptor) (ShapedMessage descriptor)
      (RestorableMessage P descriptor) (SameMessage descriptor)
      (ShowsMessage descriptor heap low) := by
  induction descriptor using MessageDescriptor.induction with
  | mk fields sorted ih =>
    obtain ⟨hlayout,hnested⟩ := hgenerated
    have hsub : ∀ field ∈ fields, DecodesNested (nestedConverter P (heap.context base)
        field.descriptor) (nestedOf ShapedMessage (fun _ => False) field)
        (nestedOf (RestorableMessage P) (fun _ => False) field) (sameNested field)
        ((showsEntry field).2 heap low) := by
      intro field hfield
      simp only [sameNested,showsEntry]
      cases hdescriptor : field.descriptor with
      | none =>
        intro value content st _ hshows
        rw [nestedOf_none hdescriptor] at hshows
        exact hshows.elim
      | some nested =>
        simp only [nestedOf_some hdescriptor]
        exact ih field hfield nested hdescriptor (hnested field hfield nested hdescriptor)
    intro value content st hshaped hshows
    rw [showsMessage_mk] at hshows
    cases content with
    | none => exact hshows.elim
    | some message =>
      change ShapedMessage (.mk fields sorted) message at hshaped
      rw [shapedMessage_mk] at hshaped
      cases message with
      | message block own values cases =>
        obtain ⟨⟨id,properties,-,rfl,hobject,hproperties⟩,hall⟩ := hshows
        have hproto := shaped_fields hshaped
        have hshown : ∀ field ∈ fields, isOneOfSkipped field cases = false →
            ∃ shown, FieldShows.Shows (showsEntry field) heap low values shown :=
          fun field hfield hskip => hall _ (List.mem_map_of_mem hfield) hskip
        have hcontent : ∀ field ∈ fields, isOneOfSkipped field cases = false →
            ShapedContent field.label field.type (nestedOf ShapedMessage (fun _ => False) field)
              (values.lookup field.offset) := by
          intro field hfield hskip
          unfold ShapedContent
          split_ifs with hlabel
          · exact fun item hitem => ((hproto field hfield).repeated hskip hlabel item hitem).1
          · exact (hproto field hfield).single hskip hlabel
        rw [List.filter_map,List.forall₂_map_left_iff] at hproperties
        have hwritten : List.Forall₂ (fun field p => p.1 = field.name ∧ ∀ old st, Decodes st
            ((fieldConverter P (heap.context base) field).2 p.2 old st)
            (SameField field (sameNested field) (values.lookup field.offset))
            (RestorableField P field (nestedOf (RestorableMessage P) (fun _ => False) field)
              (values.lookup field.offset) old)) (writtenFields fields cases) properties := by
          refine forall₂_imp_mem (fun field hfield p _ hp => ?_) hproperties
          obtain ⟨hmem,hskip,-⟩ := mem_writtenFields.mp hfield
          refine ⟨hp.1,fun old st => ?_⟩
          refine toProtoField_decodes field (hsub field hmem) (fun value st => ?_)
            (shows_ne_exception field) (hcontent field hmem hskip) hp.2 old st
          cases field.descriptor with
          | none => exact addsReports_report st _
          | some nested => exact protoToNative_reports nested value st
        have hapart := hlayout.written_apart cases
        obtain ⟨hiff,hkept,hselected⟩ := @fillMessage_decodes P (heap.context base) fields sorted
          hlayout _ _ _ _ hwritten (fun field hfield => (mem_writtenFields.mp hfield).1)
          (hapart.imp And.left) (hapart.imp And.right) { values := initValues fields }
          (fun _ _ _ => rfl) st.alloc
        have hbuild : protoToNative P (heap.context base) (.mk fields sorted) (.object id) st = _ :=
          protoToNative_object hobject st
        set r := fillMessage (fields.map (fieldConverter P (heap.context base))) sorted
          properties { values := initValues fields } st.alloc
        rw [hbuild]
        have hwrittenIff : (∀ field ∈ writtenFields fields cases, RestorableField P field
            (nestedOf (RestorableMessage P) (fun _ => False) field)
            (values.lookup field.offset) field.initial) ↔
            r.1 = true ∧ r.2.2.events = st.alloc.events ∧
            ∀ field ∈ writtenFields fields cases, SameField field (sameNested field)
              (values.lookup field.offset) (r.2.1.values.lookup field.offset) := by
          rw [hiff]
          refine forall₂_congr (fun field hfield => ?_)
          rw [hlayout.lookup_initValues (mem_writtenFields.mp hfield).1]
        rw [Decodes,restorable_iff,hwrittenIff]
        by_cases hok : r.1 = true
        · have hagree := agree_iff hlayout hproto hshown (hkept hok) (hselected hok)
          simp only [hok,if_true,true_and]
          rw [and_assoc,← hagree,sameMessage_mk]
          refine and_congr_right (fun _ => ?_)
          exact List.forall_mem_map
        · simp [hok]
      | _ => exact hshaped.elim

/-- A message is converted to an object and from it to a message that agrees with it, and no item is
stored behind its buffer on the way. -/
def RoundTrips (P : Platform) (base : JSContext) (check : Option ProtoValue → Bool)
    (descriptor : MessageDescriptor) (message : ProtoValue) (heap : ScriptHeap)
    (st : ConvertState) : Prop :=
  let target := protoFromNative check descriptor (some message) heap
  let native := protoToNative P (target.heap.context base) descriptor target.value st
  target.ok = true ∧ native.ok = true ∧ native.state.events = st.events ∧
    SameMessage descriptor (some message) native.content

/-- A well-formed message comes back exactly when all of its fields do. -/
theorem roundTrips_iff_restorable (P : Platform) (base : JSContext)
    {check : Option ProtoValue → Bool} (hcheck : ∀ descriptor message,
      ShapedMessage descriptor message → check (some message) = true)
    {descriptor : MessageDescriptor} (hgenerated : GeneratedMessage descriptor)
    {message : ProtoValue} (hshaped : ShapedMessage descriptor message) (heap : ScriptHeap)
    (st : ConvertState) :
    RoundTrips P base check descriptor message heap st ↔
      RestorableMessage P descriptor message := by
  have hencodes := @protoFromNative_encodes check P hcheck descriptor hgenerated (some message) heap
    hshaped
  unfold RoundTrips
  set target := protoFromNative check descriptor (some message) heap
  have hdecodes : target.ok = true → Decodes st (protoToNative P (target.heap.context base)
      descriptor target.value st) (SameMessage descriptor (some message))
      (∃ m, some message = some m ∧ RestorableMessage P descriptor m) := fun hok =>
    protoToNative_decodes hgenerated target.value (some message) st hshaped (hencodes.shows hok)
  constructor
  · rintro ⟨hok,hnative⟩
    obtain ⟨m,hm,hrestorable⟩ := (hdecodes hok).mp hnative
    obtain rfl := Option.some.inj hm
    exact hrestorable
  · intro hrestorable
    have hok := hencodes.ok ⟨message,rfl,hrestorable⟩
    exact ⟨hok,(hdecodes hok).mpr ⟨message,rfl,hrestorable⟩⟩

def reportDescriptor : MessageDescriptor :=
  .mk [⟨"notice",1,.required,.message,0,24,some noticeDescriptor,false,none⟩,
    ⟨"samples",2,.repeated,.int64,32,40,none,false,none⟩] [0,1]

theorem ascending_of_names {fields : List (FieldDescriptor MessageDescriptor)} {sorted : List ℕ} {names : List String}
    (h : sorted.map (fun i => (fields[i]?).map (·.name)) = names.map some)
    (hnames : names.Pairwise (· < ·)) :
    (sorted.map (fun i => (fields[i]?).map (·.name))).Pairwise (fun a b =>
      ∃ m n, a = some m ∧ b = some n ∧ m < n) := by
  rw [h,List.pairwise_map]
  exact hnames.imp (fun {m n} hlt => ⟨m,n,rfl,rfl,hlt⟩)

theorem noticeDescriptor_generated : GeneratedMessage noticeDescriptor := by
  refine .mk ⟨⟨by simp,by simp⟩,by simp,by simp,by simp [FieldDescriptor.hasFlag],by simp,
    by decide,?_⟩ (by simp)
  exact @ascending_of_names _ _ ["level","raw","text","title"] rfl (by decide)

theorem reportDescriptor_generated : GeneratedMessage reportDescriptor := by
  refine .mk ⟨⟨by simp,by simp⟩,by simp,by simp,by simp [FieldDescriptor.hasFlag],by simp,
    by decide,?_⟩ (by simp [noticeDescriptor_generated])
  exact @ascending_of_names _ _ ["notice","samples"] rfl (by decide)

def noticeMessage : ProtoValue :=
  .message 1 [] [(24,.string 2 "battery"),(36,.int 2),(48,.string 3 "low")] [(40,3)]

def reportMessage : ProtoValue :=
  .message 0 [] [(24,noticeMessage),(40,.repeated 4 [some (.int 1),some (.int (-5))])] []

theorem noticeMessage_shaped : ShapedMessage noticeDescriptor noticeMessage := by
  rw [noticeDescriptor,shapedMessage_mk]
  intro entry hentry
  simp only [List.map_cons,List.map_nil,List.mem_cons,List.not_mem_nil,or_false] at hentry
  rcases hentry with rfl | rfl | rfl | rfl
  all_goals
    constructor <;> simp [List.lookup,isOneOfSkipped,Shaped,ProtobufType.InRange,ProtobufType.isPointer]

theorem reportMessage_shaped : ShapedMessage reportDescriptor reportMessage := by
  rw [reportDescriptor,shapedMessage_mk]
  intro entry hentry
  simp only [List.map_cons,List.map_nil,List.mem_cons,List.not_mem_nil,or_false] at hentry
  rcases hentry with rfl | rfl
  all_goals
    constructor <;> simp [List.lookup,isOneOfSkipped,Shaped,ProtobufType.InRange,ProtobufType.isPointer,
      itemsContent,nestedOf,noticeMessage_shaped]

theorem noticeMessage_restorable : RestorableMessage .bits64 noticeDescriptor noticeMessage := by
  rw [noticeDescriptor,restorableMessage_mk]
  intro entry hentry
  simp only [List.map_cons,List.map_nil,List.mem_cons,List.not_mem_nil,or_false] at hentry
  rcases hentry with rfl | rfl | rfl | rfl
  all_goals
    intro hskip
    constructor <;> simp_all [List.lookup,isOneOfSkipped,RestorableField,RestorableValue,textContent,
      FieldDescriptor.hasFlag,boolContent]

theorem reportMessage_restorable : RestorableMessage .bits64 reportDescriptor reportMessage := by
  rw [reportDescriptor,restorableMessage_mk]
  intro entry hentry
  simp only [List.map_cons,List.map_nil,List.mem_cons,List.not_mem_nil,or_false] at hentry
  rcases hentry with rfl | rfl
  all_goals
    intro hskip
    constructor <;> simp [List.lookup,RestorableField,RestorableValue,FieldDescriptor.hasFlag,nestedOf,
      noticeMessage_restorable,itemsContent,intContent,getProtoTypeSize]
    try decide

theorem report_roundTrips : RoundTrips .bits64 (engineOf []) Option.isSome reportDescriptor reportMessage [] {} :=
  (roundTrips_iff_restorable .bits64 (engineOf []) (fun _ _ _ => rfl) reportDescriptor_generated
    reportMessage_shaped [] {}).mpr reportMessage_restorable

def samplesDescriptor : MessageDescriptor :=
  .mk [⟨"samples",1,.repeated,.int32,24,32,none,false,none⟩] [0]

theorem samplesDescriptor_generated : GeneratedMessage samplesDescriptor := by
  refine .mk ⟨⟨by simp,by simp⟩,by simp,by simp,by simp [FieldDescriptor.hasFlag],by simp,
    by decide,?_⟩ (by simp)
  exact @ascending_of_names _ _ ["samples"] rfl (by decide)

/-- A message without samples: the property is undefined, which is no array. -/
theorem empty_repeated_refused :
    GeneratedMessage samplesDescriptor ∧ ShapedMessage samplesDescriptor (.message 0 [] [] []) ∧
    ¬RoundTrips .bits64 (engineOf []) Option.isSome samplesDescriptor (.message 0 [] [] []) [] {} := by
  refine ⟨samplesDescriptor_generated,?_,?_⟩
  · rw [samplesDescriptor,shapedMessage_mk]
    intro entry hentry
    simp only [List.map_cons,List.map_nil,List.mem_cons,List.not_mem_nil,or_false] at hentry
    obtain rfl := hentry
    constructor <;> simp [itemsContent]
  · rintro ⟨-,hok,-⟩
    exact absurd hok (by decide)

end RoundTrip

end FeatureRuntime
