import FeatureRuntime.Growth
import FeatureRuntime.ProtoTarget

/-! The objects that `fromNative` makes: they show the message, field by field, and stay as they are
while more objects are made. -/
namespace FeatureRuntime

section Shows

/-- A JS value shows the content of a field, with objects from `low` on. -/
def ShowsValue (type : ProtobufType) (nested : JSValue → Option ProtoValue → Prop)
    (heap : ScriptHeap) (low : ℕ) (value : JSValue) (content : Option ProtoValue) : Prop :=
  match type with
  | .message => nested value content
  | .int64 | .sint64 | .sfixed64 | .uint64 | .fixed64 =>
    value = .number (.ofInt64 ((intContent content).bmod (2 ^ 64)))
  | .float | .double => value = .number (numberContent content)
  | .bool => value = .bool (boolContent content)
  | .string => ∃ text, textContent content = some text ∧ value = .string text
  | .bytes => ∃ id, low ≤ id ∧ value = .object id ∧
      heap[id]? = some (.arrayBuffer (bytesContent content))
  | _ => value = .number (.int (toInt (intContent content)))

def ShowsField (label : ProtobufLabel) (type : ProtobufType)
    (nested : JSValue → Option ProtoValue → Prop) (heap : ScriptHeap) (low : ℕ) (value : JSValue)
    (content : Option ProtoValue) : Prop :=
  if label = .repeated then
    if itemsContent content = [] then value = .undefined
    else ∃ id elements, low ≤ id ∧ value = .object id ∧ heap[id]? = some (.array elements) ∧
      ((itemsContent content).length < 2 ^ 32 →
        List.Forall₂ (ShowsValue type nested heap low) elements (stridedItems type (itemsContent content)))
  else ShowsValue type nested heap low value content

abbrev FieldShows :=
  FieldDescriptor MessageDescriptor × (ScriptHeap → ℕ → JSValue → Option ProtoValue → Prop)

def FieldShows.Shows (entry : FieldShows) (heap : ScriptHeap) (low : ℕ)
    (values : List (ℕ × ProtoValue)) (value : JSValue) : Prop :=
  ShowsField entry.1.label entry.1.type (entry.2 heap low) heap low value (values.lookup entry.1.offset)

def FieldShows.Property (entry : FieldShows) (heap : ScriptHeap) (low : ℕ)
    (values : List (ℕ × ProtoValue)) (property : String × JSValue) : Prop :=
  property.1 = entry.1.name ∧ entry.Shows heap low values property.2

def isWritten (cases : List (ℕ × ℕ)) (field : FieldDescriptor MessageDescriptor) : Bool :=
  !isOneOfSkipped field cases && field.name != "__proto__"

def showsFields (entries : List FieldShows) (heap : ScriptHeap) (low : ℕ) (value : JSValue)
    (content : Option ProtoValue) : Prop :=
  match content with
  | some (.message _ _ values cases) =>
    (∃ id properties, low ≤ id ∧ value = .object id ∧ heap[id]? = some (.plain properties) ∧
      List.Forall₂ (fun entry property => FieldShows.Property entry heap low values property)
        (entries.filter (fun entry => isWritten cases entry.1)) properties) ∧
    ∀ entry ∈ entries, isOneOfSkipped entry.1 cases = false → ∃ shown, FieldShows.Shows entry heap low values shown
  | _ => False

def ShowsMessage : MessageDescriptor → ScriptHeap → ℕ → JSValue → Option ProtoValue → Prop :=
  MessageDescriptor.fold (fun entries _ => showsFields entries) (fun _ _ _ _ => False)

def showsEntry (field : FieldDescriptor MessageDescriptor) : FieldShows :=
  (field,nestedOf ShowsMessage (fun _ _ _ _ => False) field)

theorem showsMessage_mk (fields : List (FieldDescriptor MessageDescriptor)) (sorted : List ℕ) :
    ShowsMessage (.mk fields sorted) = showsFields (fields.map showsEntry) :=
  MessageDescriptor.fold_mk _ _ fields sorted

variable {heap heap' : ScriptHeap} {low low' : ℕ}

theorem ShowsValue.mono {type : ProtobufType} {nested nested' : JSValue → Option ProtoValue → Prop}
    (hagree : AgreeFrom heap heap' low) (hlow : low' ≤ low)
    (hnested : ∀ value content, nested value content → nested' value content) {value : JSValue}
    {content : Option ProtoValue} (h : ShowsValue type nested heap low value content) :
    ShowsValue type nested' heap' low' value content := by
  cases type with
  | message => exact hnested value content h
  | bytes =>
    obtain ⟨id,hid,hvalue,hobject⟩ := h
    exact ⟨id,hlow.trans hid,hvalue,hagree id hid _ hobject⟩
  | _ => exact h

theorem ShowsField.mono {label : ProtobufLabel} {type : ProtobufType}
    {nested nested' : JSValue → Option ProtoValue → Prop} (hagree : AgreeFrom heap heap' low)
    (hlow : low' ≤ low) (hnested : ∀ value content, nested value content → nested' value content)
    {value : JSValue} {content : Option ProtoValue}
    (h : ShowsField label type nested heap low value content) :
    ShowsField label type nested' heap' low' value content := by
  unfold ShowsField at h ⊢
  split_ifs at h ⊢ with hlabel hempty
  · exact h
  · obtain ⟨id,elements,hid,hvalue,hobject,hitems⟩ := h
    refine ⟨id,elements,hlow.trans hid,hvalue,hagree id hid _ hobject,fun hlength => ?_⟩
    exact (hitems hlength).imp (fun _ _ hitem => hitem.mono hagree hlow hnested)
  · exact h.mono hagree hlow hnested

theorem FieldShows.Shows.mono {entry : FieldShows} (hagree : AgreeFrom heap heap' low)
    (hlow : low' ≤ low) (hnested : ∀ value content, entry.2 heap low value content →
      entry.2 heap' low' value content) {values : List (ℕ × ProtoValue)} {value : JSValue}
    (h : entry.Shows heap low values value) : entry.Shows heap' low' values value :=
  ShowsField.mono hagree hlow hnested h

theorem showsFields_mono {entries : List FieldShows} (hagree : AgreeFrom heap heap' low)
    (hlow : low' ≤ low) (hnested : ∀ entry ∈ entries, ∀ value content,
      entry.2 heap low value content → entry.2 heap' low' value content) {value : JSValue}
    {content : Option ProtoValue} (h : showsFields entries heap low value content) :
    showsFields entries heap' low' value content := by
  have hshows : ∀ entry ∈ entries, ∀ values shown, FieldShows.Shows entry heap low values shown →
      FieldShows.Shows entry heap' low' values shown := by
    intro entry hentry values shown hshown
    exact FieldShows.Shows.mono hagree hlow (hnested entry hentry) hshown
  cases content with
  | none => exact h.elim
  | some message =>
    cases message with
    | message block own values cases =>
      obtain ⟨⟨id,properties,hid,hvalue,hobject,hproperties⟩,hshown⟩ := h
      refine ⟨⟨id,properties,hlow.trans hid,hvalue,hagree id hid _ hobject,?_⟩,?_⟩
      · rw [List.forall₂_iff_get] at hproperties ⊢
        obtain ⟨hlength,hget⟩ := hproperties
        refine ⟨hlength,fun i hi hi' => ?_⟩
        obtain ⟨hname,hvalue⟩ := hget i hi hi'
        exact ⟨hname,hshows _ (List.mem_filter.mp (List.get_mem _ _)).1 _ _ hvalue⟩
      · intro entry hentry hskip
        obtain ⟨shown,hvalue⟩ := hshown entry hentry hskip
        exact ⟨shown,hshows entry hentry values shown hvalue⟩
    | _ => exact h.elim

theorem ShowsMessage.mono (hagree : AgreeFrom heap heap' low) (hlow : low' ≤ low)
    {descriptor : MessageDescriptor} {value : JSValue} {content : Option ProtoValue}
    (h : ShowsMessage descriptor heap low value content) :
    ShowsMessage descriptor heap' low' value content := by
  induction descriptor using MessageDescriptor.induction generalizing value content with
  | mk fields sorted ih =>
    rw [showsMessage_mk] at h ⊢
    refine showsFields_mono hagree hlow ?_ h
    intro entry hentry value content hnested
    obtain ⟨field,hfield,rfl⟩ := List.mem_map.mp hentry
    simp only [showsEntry] at hnested ⊢
    cases hdescriptor : field.descriptor with
    | none =>
      rw [nestedOf_none hdescriptor] at hnested
      exact hnested.elim
    | some nested =>
      rw [nestedOf_some hdescriptor] at hnested ⊢
      exact ih field hfield nested hdescriptor hnested

theorem showsEntry_mono (hagree : AgreeFrom heap heap' low) (hlow : low' ≤ low)
    (field : FieldDescriptor MessageDescriptor) (value : JSValue) (content : Option ProtoValue)
    (h : (showsEntry field).2 heap low value content) :
    (showsEntry field).2 heap' low' value content := by
  simp only [showsEntry] at h ⊢
  cases hdescriptor : field.descriptor with
  | none =>
    rw [nestedOf_none hdescriptor] at h
    exact h.elim
  | some nested =>
    rw [nestedOf_some hdescriptor] at h ⊢
    exact h.mono hagree hlow

end Shows

section Encoding

/-- What the conversion of a content does: it makes new objects only; when it succeeds its value
shows the content; and it succeeds on a content that is restorable. -/
structure Encodes (heap : ScriptHeap) (r : FieldTarget) (restorable : Prop)
    (shows : ScriptHeap → ℕ → JSValue → Prop) : Prop where
  grows : heap <+: r.heap
  shows : r.ok = true → shows r.heap heap.length r.value
  ok : restorable → r.ok = true

def EncodesNested (nested : MessageTarget) (shaped restorable : ProtoValue → Prop)
    (shows : ScriptHeap → ℕ → JSValue → Option ProtoValue → Prop) : Prop :=
  ∀ content heap, Shaped .message shaped content → Encodes heap (nested content heap)
    (∃ message, content = some message ∧ restorable message)
    (fun heap low value => shows heap low value content)

variable {nested : MessageTarget} {shaped restorable : ProtoValue → Prop}
  {shows : ScriptHeap → ℕ → JSValue → Option ProtoValue → Prop}

theorem encodes_plain {heap : ScriptHeap} {value : JSValue} {P : Prop}
    {shows : ScriptHeap → ℕ → JSValue → Prop} (h : shows heap heap.length value) :
    Encodes heap ⟨true,value,heap⟩ P shows :=
  ⟨List.prefix_refl heap,fun _ => h,fun _ => rfl⟩

theorem fromProtoValue_encodes (type : ProtobufType)
    (hnested : EncodesNested nested shaped restorable shows) (content old : Option ProtoValue)
    (heap : ScriptHeap) (hshaped : Shaped type shaped content) :
    Encodes heap (fromProtoValue type nested content heap) (RestorableValue type restorable content old)
      (fun heap low value => ShowsValue type (shows heap low) heap low value content) := by
  cases type with
  | message => exact hnested content heap hshaped
  | string =>
    simp only [fromProtoValue,RestorableValue,ShowsValue]
    cases htext : textContent content with
    | none => exact ⟨List.prefix_refl heap,Bool.noConfusion,Bool.noConfusion⟩
    | some text => exact encodes_plain ⟨text,rfl,rfl⟩
  | bytes =>
    refine ⟨List.prefix_append heap _,fun _ => ?_,fun _ => rfl⟩
    refine ⟨heap.length,le_rfl,rfl,?_⟩
    simp [fromProtoValue]
  | _ => exact encodes_plain rfl

theorem setPropertyUint32_append {heap : ScriptHeap} {array : ℕ} {elements : List JSValue}
    (h : heap[array]? = some (.array elements)) (hlength : elements.length < 2 ^ 32 - 1)
    (value : JSValue) : heap.setPropertyUint32 array elements.length value =
      heap.set array (.array (elements ++ [value])) := by
  have hindex : elements.length % 2 ^ 32 = elements.length := Nat.mod_eq_of_lt (by omega)
  simp only [ScriptHeap.setPropertyUint32,h,hindex,lt_irrefl,if_false,hlength,and_self,if_true]

theorem setPropertyUint32_array {heap : ScriptHeap} {array : ℕ} {elements : List JSValue}
    (h : heap[array]? = some (.array elements)) (index : ℕ) (value : JSValue) :
    ∃ elements', heap.setPropertyUint32 array index value = heap.set array (.array elements') := by
  have hself : heap.set array (.array elements) = heap := by
    obtain ⟨hlt,hget⟩ := List.getElem?_eq_some_iff.mp h
    rw [← hget,List.set_getElem_self]
  simp only [ScriptHeap.setPropertyUint32,h]
  split_ifs
  · exact ⟨_,rfl⟩
  · exact ⟨_,rfl⟩
  · exact ⟨elements,hself.symm⟩

theorem fromProtoItems_grows {convert : Option ProtoValue → ScriptHeap → FieldTarget}
    {items : List (Option ProtoValue)}
    (hconvert : ∀ item ∈ items, ∀ heap, heap <+: (convert item heap).heap) {array : ℕ}
    {elements : List JSValue} {heap : ScriptHeap} (index : ℕ)
    (harray : heap[array]? = some (.array elements)) :
    GrowsAt array heap (fromProtoItems convert array index items heap).2 ∧
      ∃ elements', (fromProtoItems convert array index items heap).2[array]? = some (.array elements') := by
  induction items generalizing index heap elements with
  | nil => exact ⟨.refl array heap,elements,harray⟩
  | cons item items ih =>
    have hitem := hconvert item List.mem_cons_self heap
    have hkept : (convert item heap).heap[array]? = some (.array elements) :=
      agreeFrom_of_start hitem 0 array (Nat.zero_le _) _ harray
    simp only [fromProtoItems]
    split_ifs
    · obtain ⟨elements',hset⟩ := setPropertyUint32_array hkept index (convert item heap).value
      have hin : array < (convert item heap).heap.length := (List.getElem?_eq_some_iff.mp hkept).1
      rw [hset]
      obtain ⟨hgrows,hend⟩ := ih (fun item hmem => hconvert item (List.mem_cons_of_mem _ hmem))
        (index + 1) (List.getElem?_set_self hin)
      exact ⟨((growsAt_of_start hitem).trans (growsAt_set array _ _)).trans hgrows,hend⟩
    · exact ⟨growsAt_of_start hitem,elements,hkept⟩

theorem fromProtoItems_shows {convert : Option ProtoValue → ScriptHeap → FieldTarget}
    {shows : ScriptHeap → ℕ → JSValue → Option ProtoValue → Prop}
    {items : List (Option ProtoValue)}
    (hconvert : ∀ item ∈ items, ∀ heap, heap <+: (convert item heap).heap ∧ ((convert item heap).ok = true →
        shows (convert item heap).heap heap.length (convert item heap).value item))
    (hmono : ∀ heap heap' low low', AgreeFrom heap heap' low → low' ≤ low →
      ∀ value item, shows heap low value item → shows heap' low' value item)
    {array : ℕ} {elements : List JSValue} {done : List (Option ProtoValue)} {heap : ScriptHeap}
    (harray : heap[array]? = some (.array elements))
    (hdone : List.Forall₂ (shows heap (array + 1)) elements done)
    (hlength : elements.length + items.length < 2 ^ 32)
    (hok : (fromProtoItems convert array elements.length items heap).1 = true) :
    ∃ elements', (fromProtoItems convert array elements.length items heap).2[array]? = some (.array elements') ∧
      List.Forall₂ (shows (fromProtoItems convert array elements.length items heap).2 (array + 1))
        elements' (done ++ items) := by
  induction items generalizing heap elements done with
  | nil =>
    refine ⟨elements,harray,?_⟩
    rw [List.append_nil]
    exact hdone
  | cons item items ih =>
    obtain ⟨hstart,hshows⟩ := hconvert item List.mem_cons_self heap
    have hkept : (convert item heap).heap[array]? = some (.array elements) :=
      agreeFrom_of_start hstart 0 array (Nat.zero_le _) _ harray
    have hin : array < (convert item heap).heap.length := (List.getElem?_eq_some_iff.mp hkept).1
    have hbelow : array + 1 ≤ heap.length := (List.getElem?_eq_some_iff.mp harray).1
    rw [List.length_cons] at hlength
    simp only [fromProtoItems] at hok ⊢
    by_cases hitem : (convert item heap).ok = true
    · rw [if_pos hitem] at hok ⊢
      rw [setPropertyUint32_append hkept (by omega)] at hok ⊢
      set next := (convert item heap).heap.set array
        (.array (elements ++ [(convert item heap).value])) with hnext
      have hset : AgreeFrom (convert item heap).heap next (array + 1) :=
        agreeFrom_set (Nat.lt_succ_self array) _ _
      have hold : List.Forall₂ (shows next (array + 1)) elements done := by
        refine hdone.imp (fun value item hvalue => ?_)
        have hmiddle := hmono _ _ _ (array + 1)
          (agreeFrom_of_start hstart (array + 1)) le_rfl value item hvalue
        exact hmono _ _ _ _ hset le_rfl value item hmiddle
      have hnew : shows next (array + 1) (convert item heap).value item := by
        have hmiddle := hmono _ _ _ (array + 1) (agreeFrom_of_start
          (List.prefix_refl _) heap.length) hbelow _ item (hshows hitem)
        exact hmono _ _ _ _ hset le_rfl _ item hmiddle
      have hdone' : List.Forall₂ (shows next (array + 1)) (elements ++ [(convert item heap).value])
          (done ++ [item]) := List.rel_append hold (.cons hnew .nil)
      have hlast : (elements ++ [(convert item heap).value]).length = elements.length + 1 := by
        simp
      rw [← hlast] at hok ⊢
      have hrest := ih (fun item hmem => hconvert item (List.mem_cons_of_mem _ hmem))
        (List.getElem?_set_self hin) hdone' (by rw [hlast]; omega) hok
      rw [List.append_assoc] at hrest
      exact hrest
    · rw [if_neg hitem] at hok
      exact Bool.noConfusion hok

theorem fromProtoItems_ok {convert : Option ProtoValue → ScriptHeap → FieldTarget} {items : List (Option ProtoValue)}
    (hconvert : ∀ item ∈ items, ∀ heap, (convert item heap).ok = true) (array index : ℕ)
    (heap : ScriptHeap) : (fromProtoItems convert array index items heap).1 = true := by
  induction items generalizing index heap with
  | nil => rfl
  | cons item items ih =>
    simp only [fromProtoItems,hconvert item List.mem_cons_self heap,if_true]
    exact ih (fun item hmem => hconvert item (List.mem_cons_of_mem _ hmem)) _ _

theorem length_stridedItems (type : ProtobufType) (items : List (Option ProtoValue)) :
    (stridedItems type items).length = items.length := by
  unfold stridedItems
  split_ifs
  · rw [List.length_take,List.length_flatMap]
    simp only [List.length_cons,List.length_nil,List.map_const',List.sum_replicate,smul_eq_mul]
    omega
  · rfl

theorem shaped_stridedItems {type : ProtobufType} {shaped : ProtoValue → Prop} {items : List (Option ProtoValue)}
    (h : ∀ item ∈ items, Shaped type shaped item) : ∀ item ∈ stridedItems type items, Shaped type shaped item := by
  intro item hitem
  unfold stridedItems at hitem
  split_ifs at hitem
  · obtain ⟨first,hfirst,hmem⟩ := List.mem_flatMap.mp (List.mem_of_mem_take hitem)
    cases item with
    | none => exact trivial
    | some value =>
      obtain rfl : some value = first := by simpa using hmem
      exact h _ hfirst
  · exact h item hitem

def ShapedContent (label : ProtobufLabel) (type : ProtobufType) (shaped : ProtoValue → Prop)
    (content : Option ProtoValue) : Prop :=
  if label = .repeated then ∀ item ∈ itemsContent content, Shaped type shaped item
  else Shaped type shaped content

theorem fromProtoField_single {label : ProtobufLabel} (h : label ≠ .repeated) (type : ProtobufType)
    (nested : MessageTarget) (content : Option ProtoValue) (heap : ScriptHeap) :
    fromProtoField label type nested content heap = fromProtoValue type nested content heap := by
  unfold fromProtoField
  cases label with
  | repeated => exact absurd rfl h
  | _ => rfl

theorem fromProtoField_encodes (P : Platform) (field : FieldDescriptor MessageDescriptor)
    (hnested : EncodesNested nested shaped restorable shows)
    (hmono : ∀ heap heap' low low', AgreeFrom heap heap' low → low' ≤ low →
      ∀ value content, shows heap low value content → shows heap' low' value content)
    (content old : Option ProtoValue) (heap : ScriptHeap)
    (hshaped : ShapedContent field.label field.type shaped content) :
    Encodes heap (fromProtoField field.label field.type nested content heap)
      (RestorableField P field restorable content old)
      (fun heap low value =>
        ShowsField field.label field.type (shows heap low) heap low value content) := by
  by_cases hlabel : field.label = .repeated
  · rw [ShapedContent,if_pos hlabel] at hshaped
    simp only [fromProtoField,hlabel,RestorableField,ShowsField,if_true]
    by_cases hempty : itemsContent content = []
    · rw [hempty]
      exact encodes_plain rfl
    · have hconvert := fun item hitem heap => fromProtoValue_encodes field.type hnested item none heap
        (shaped_stridedItems hshaped item hitem)
      have hlength : (itemsContent content).length ≠ 0 := by simpa using hempty
      have hlast : (heap ++ [ScriptObject.array []])[heap.length]? = some (.array []) := by simp
      have hfill := fromProtoItems_grows (fun item hitem heap => (hconvert item hitem heap).grows) 0
        hlast
      rw [if_pos hlength]
      refine ⟨hfill.1.prefix_of_last,fun hok => ?_,fun hrestorable => ?_⟩
      · rw [if_neg hempty]
        obtain ⟨elements,helements⟩ := hfill.2
        refine ⟨heap.length,elements,le_rfl,rfl,helements,fun hsmall => ?_⟩
        have hmonoValue : ∀ heap heap' low low', AgreeFrom heap heap' low → low' ≤ low →
            ∀ value item, ShowsValue field.type (shows heap low) heap low value item →
            ShowsValue field.type (shows heap' low') heap' low' value item :=
          fun heap heap' low low' hagree hlow value item =>
            ShowsValue.mono hagree hlow (hmono heap heap' low low' hagree hlow)
        obtain ⟨elements',helements',hshows⟩ := @fromProtoItems_shows
          (fromProtoValue field.type nested)
          (fun heap low => ShowsValue field.type (shows heap low) heap low)
          (stridedItems field.type (itemsContent content))
          (fun item hitem heap => ⟨(hconvert item hitem heap).grows,(hconvert item hitem heap).shows⟩)
          hmonoValue _ _ _ _ hlast .nil (by simpa [length_stridedItems] using hsmall) hok
        have heq : elements' = elements := by
          have hsome := helements'.symm.trans helements
          simpa using hsome
        rw [heq,List.nil_append] at hshows
        exact hshows.imp (fun value item =>
          hmonoValue _ _ _ _ (agreeFrom_of_start (List.prefix_refl _) _) (Nat.le_succ _) value item)
      · have hsame : stridedItems field.type (itemsContent content) = itemsContent content := if_neg hrestorable.2.1
        exact fromProtoItems_ok (fun item hitem heap =>
          (hconvert item hitem heap).ok (hrestorable.2.2.2 item (hsame ▸ hitem))) _ _ _
  · rw [ShapedContent,if_neg hlabel] at hshaped
    have hvalue := fromProtoValue_encodes field.type hnested content old heap hshaped
    rw [fromProtoField_single hlabel]
    simp only [RestorableField,ShowsField,if_neg hlabel]
    exact hvalue

theorem setNamed_append {properties : List (String × JSValue)} {name : String}
    (h : ∀ p ∈ properties, p.1 ≠ name) (value : JSValue) :
    setNamed properties name value = properties ++ [(name,value)] := by
  have hnone : properties.any (fun p => p.1 = name) = false := by
    rw [List.any_eq_false]
    intro p hp
    simpa using h p hp
  rw [setNamed,hnone]
  rfl

end Encoding

section Fields

variable {values : List (ℕ × ProtoValue)} {cases : List (ℕ × ℕ)}
  {target : FieldDescriptor MessageDescriptor → MessageTarget}
  {restorable : FieldDescriptor MessageDescriptor → Prop}
  {shows : FieldDescriptor MessageDescriptor → ScriptHeap → ℕ → JSValue → Prop}

def fieldTarget (values : List (ℕ × ProtoValue)) (target : FieldDescriptor MessageDescriptor → MessageTarget)
    (field : FieldDescriptor MessageDescriptor) (heap : ScriptHeap) : FieldTarget :=
  fromProtoField field.label field.type (target field) (values.lookup field.offset) heap

theorem setPropertyStr_plain {heap : ScriptHeap} {object : ℕ} {properties : List (String × JSValue)}
    (h : heap[object]? = some (.plain properties)) (name : String) (value : JSValue) :
    heap.setPropertyStr object name value =
      if name = "__proto__" then heap
      else heap.set object (.plain (setNamed properties name value)) := by
  simp only [ScriptHeap.setPropertyStr,h]

/-- One turn of the loop over the fields: the object gets the property, unless the field is not
written. -/
theorem setPropertyStr_next {heap heap₁ : ScriptHeap} {object : ℕ}
    {properties : List (String × JSValue)} (hobject : heap[object]? = some (.plain properties))
    (hstart : heap <+: heap₁) (name : String) (value : JSValue) :
    GrowsAt object heap (heap₁.setPropertyStr object name value) ∧
    AgreeFrom heap₁ (heap₁.setPropertyStr object name value) (object + 1) ∧
    (heap₁.setPropertyStr object name value)[object]? = some (.plain
      (if name = "__proto__" then properties else setNamed properties name value)) := by
  have hkept : heap₁[object]? = some (.plain properties) :=
    agreeFrom_of_start hstart 0 object (Nat.zero_le _) _ hobject
  have hin : object < heap₁.length := (List.getElem?_eq_some_iff.mp hkept).1
  rw [setPropertyStr_plain hkept]
  split_ifs
  · exact ⟨growsAt_of_start hstart,agreeFrom_of_start (List.prefix_refl _) _,hkept⟩
  · exact ⟨(growsAt_of_start hstart).trans (growsAt_set object _ _),
      agreeFrom_set (Nat.lt_succ_self object) _ _,List.getElem?_set_self hin⟩

theorem fromProtoFields_cons (object : ℕ) (field : FieldDescriptor MessageDescriptor)
    (fields : List (FieldDescriptor MessageDescriptor)) (heap : ScriptHeap) :
    fromProtoFields object values cases ((field :: fields).map (fun f => (f,target f))) heap =
      if isOneOfSkipped field cases then
        fromProtoFields object values cases (fields.map (fun f => (f,target f))) heap
      else if (fieldTarget values target field heap).ok then
        fromProtoFields object values cases (fields.map (fun f => (f,target f)))
          ((fieldTarget values target field heap).heap.setPropertyStr object field.name
            (fieldTarget values target field heap).value)
      else (false,(fieldTarget values target field heap).heap) := rfl

theorem fromProtoFields_grows {fields : List (FieldDescriptor MessageDescriptor)}
    (hfields : ∀ field ∈ fields, isOneOfSkipped field cases = false → ∀ heap,
      Encodes heap (fieldTarget values target field heap) (restorable field) (shows field))
    {object : ℕ} {properties : List (String × JSValue)} {heap : ScriptHeap}
    (hobject : heap[object]? = some (.plain properties)) :
    GrowsAt object heap (fromProtoFields object values cases (fields.map (fun f => (f,target f))) heap).2 := by
  induction fields generalizing heap properties with
  | nil => exact .refl object heap
  | cons field fields ih =>
    have hrest := fun field hmem => hfields field (List.mem_cons_of_mem _ hmem)
    rw [fromProtoFields_cons]
    split_ifs with hskip hok
    · exact ih hrest hobject
    · have hfield := hfields field List.mem_cons_self (by simpa using hskip) heap
      obtain ⟨hgrows,-,hnext⟩ := setPropertyStr_next hobject hfield.grows field.name
        (fieldTarget values target field heap).value
      exact hgrows.trans (ih hrest hnext)
    · exact growsAt_of_start (hfields field List.mem_cons_self (by simpa using hskip) heap).grows

theorem fromProtoFields_shows {fields : List (FieldDescriptor MessageDescriptor)}
    (hfields : ∀ field ∈ fields, isOneOfSkipped field cases = false → ∀ heap,
      Encodes heap (fieldTarget values target field heap) (restorable field) (shows field))
    (hmono : ∀ field heap heap' low low', AgreeFrom heap heap' low → low' ≤ low →
      ∀ value, shows field heap low value → shows field heap' low' value)
    {object : ℕ} {properties : List (String × JSValue)} {heap : ScriptHeap}
    (hobject : heap[object]? = some (.plain properties))
    (hnames : (fields.map (·.name)).Nodup)
    (hfresh : ∀ field ∈ fields, ∀ p ∈ properties, p.1 ≠ field.name)
    (hok : (fromProtoFields object values cases (fields.map (fun f => (f,target f))) heap).1 = true) :
    let final := (fromProtoFields object values cases (fields.map (fun f => (f,target f))) heap).2
    (∃ added, final[object]? = some (.plain (properties ++ added)) ∧
      List.Forall₂ (fun field p => p.1 = field.name ∧ shows field final (object + 1) p.2)
        (fields.filter (isWritten cases)) added) ∧
    ∀ field ∈ fields, isOneOfSkipped field cases = false → ∃ value, shows field final (object + 1) value := by
  intro final
  induction fields generalizing heap properties with
  | nil =>
    refine ⟨⟨[],?_,.nil⟩,by simp⟩
    rw [List.append_nil]
    exact hobject
  | cons field fields ih =>
    have hrest := fun field hmem => hfields field (List.mem_cons_of_mem _ hmem)
    have hfreshRest := fun f hmem => hfresh f (List.mem_cons_of_mem _ hmem)
    rw [List.map_cons,List.nodup_cons] at hnames
    have hfinal : final = (fromProtoFields object values cases
        ((field :: fields).map (fun f => (f,target f))) heap).2 := rfl
    rw [fromProtoFields_cons] at hok hfinal
    by_cases hskip : isOneOfSkipped field cases = true
    · rw [if_pos hskip] at hok hfinal
      have hwritten : isWritten cases field = false := by simp [isWritten,hskip]
      obtain ⟨hadded,hall⟩ := ih hrest hobject hnames.2 hfreshRest hok
      rw [← hfinal] at hadded hall
      rw [List.filter_cons_of_neg (by simp [hwritten])]
      refine ⟨hadded,fun f hf hfskip => ?_⟩
      rcases List.mem_cons.mp hf with rfl | hmem
      · rw [hskip] at hfskip
        exact Bool.noConfusion hfskip
      · exact hall f hmem hfskip
    · have hskip' : isOneOfSkipped field cases = false := by simpa using hskip
      have hfield := hfields field List.mem_cons_self hskip' heap
      rw [if_neg hskip] at hok hfinal
      by_cases hconverted : (fieldTarget values target field heap).ok = true
      · rw [if_pos hconverted] at hok hfinal
        obtain ⟨-,hagree,hnext⟩ := setPropertyStr_next hobject hfield.grows field.name
          (fieldTarget values target field heap).value
        have hgrows := fromProtoFields_grows hrest hnext
        have hbelow : object + 1 ≤ heap.length := (List.getElem?_eq_some_iff.mp hobject).1
        have hshown : shows field final (object + 1) (fieldTarget values target field heap).value := by
          have hfirst := hmono field _ _ _ (object + 1) (agreeFrom_of_start
            (List.prefix_refl _) heap.length) hbelow _ (hfield.shows hconverted)
          have hsecond := hmono field _ _ _ _ hagree le_rfl _ hfirst
          rw [hfinal]
          exact hmono field _ _ _ _ hgrows.agreeFrom le_rfl _ hsecond
        have hall : (∀ f ∈ fields, isOneOfSkipped f cases = false →
            ∃ value, shows f final (object + 1) value) → ∀ f ∈ field :: fields,
            isOneOfSkipped f cases = false → ∃ value, shows f final (object + 1) value := by
          intro hothers f hf hfskip
          rcases List.mem_cons.mp hf with rfl | hmem
          · exact ⟨_,hshown⟩
          · exact hothers f hmem hfskip
        by_cases hproto : field.name = "__proto__"
        · rw [if_pos hproto] at hnext
          have hwritten : isWritten cases field = false := by simp [isWritten,hproto]
          obtain ⟨hadded,hothers⟩ := ih hrest hnext hnames.2 hfreshRest hok
          rw [← hfinal] at hadded hothers
          rw [List.filter_cons_of_neg (by simp [hwritten])]
          exact ⟨hadded,hall hothers⟩
        · have hwritten : isWritten cases field = true := by simp [isWritten,hproto,hskip']
          rw [if_neg hproto,setNamed_append (hfresh field List.mem_cons_self)] at hnext
          have hfreshNext : ∀ f ∈ fields, ∀ p ∈ properties ++
              [(field.name,(fieldTarget values target field heap).value)], p.1 ≠ f.name := by
            intro f hf p hp
            rcases List.mem_append.mp hp with hold | hnew
            · exact hfreshRest f hf p hold
            · rw [List.mem_singleton.mp hnew]
              intro heq
              exact hnames.1 (List.mem_map.mpr ⟨f,hf,heq.symm⟩)
          obtain ⟨⟨added,hobject',hadded⟩,hothers⟩ := ih hrest hnext hnames.2 hfreshNext hok
          rw [← hfinal] at hobject' hadded hothers
          rw [List.filter_cons_of_pos hwritten]
          rw [List.append_assoc] at hobject'
          exact ⟨⟨_ :: added,hobject',.cons ⟨rfl,hshown⟩ hadded⟩,hall hothers⟩
      · rw [if_neg hconverted] at hok
        exact Bool.noConfusion hok

theorem fromProtoFields_ok {fields : List (FieldDescriptor MessageDescriptor)}
    (hfields : ∀ field ∈ fields, isOneOfSkipped field cases = false → ∀ heap,
      (fieldTarget values target field heap).ok = true) (object : ℕ) (heap : ScriptHeap) :
    (fromProtoFields object values cases (fields.map (fun f => (f,target f))) heap).1 = true := by
  induction fields generalizing heap with
  | nil => rfl
  | cons field fields ih =>
    have hrest := fun field hmem => hfields field (List.mem_cons_of_mem _ hmem)
    rw [fromProtoFields_cons]
    split_ifs with hskip hok
    · exact ih hrest heap
    · exact ih hrest _
    · exact absurd (hfields field List.mem_cons_self (by simpa using hskip) heap) hok

end Fields

section Messages

theorem GeneratedFields.nodup_names {fields : List (FieldDescriptor MessageDescriptor)}
    {sorted : List ℕ} (h : GeneratedFields fields sorted) : (fields.map (·.name)).Nodup := by
  have hperm : (sorted.map (fun i => (fields[i]?).map (·.name))).Perm
      ((fields.map (·.name)).map some) := by
    refine (h.table.map _).trans (List.Perm.of_eq ?_)
    refine List.ext_getElem (by simp) (fun i hi hi' => ?_)
    rw [List.length_map,List.length_map] at hi'
    simp [hi']
  have hnodup : (sorted.map (fun i => (fields[i]?).map (·.name))).Nodup := by
    refine h.ascending.imp ?_
    rintro a b ⟨m,n,rfl,rfl,hlt⟩ heq
    obtain rfl := Option.some.inj heq
    exact absurd hlt (String.lt_irrefl m)
  exact List.Nodup.of_map _ (hperm.nodup_iff.mp hnodup)

/-- A field `__proto__` that comes back is converted on the way. -/
theorem fromProtoField_unset {field : FieldDescriptor MessageDescriptor} {nested : MessageTarget}
    {content : Option ProtoValue} (h : UnsetField field content) (heap : ScriptHeap) :
    (fromProtoField field.label field.type nested content heap).ok = true := by
  obtain ⟨-,hcontent⟩ := h
  by_cases hlabel : field.label = .repeated
  · rw [if_pos hlabel] at hcontent
    simp [fromProtoField,hlabel,hcontent]
  · rw [if_neg hlabel] at hcontent
    rw [fromProtoField_single hlabel]
    cases htype : field.type with
    | message =>
      rw [htype] at hcontent
      exact hcontent.elim
    | string =>
      rw [htype] at hcontent
      obtain ⟨text,htext⟩ := Option.isSome_iff_exists.mp hcontent.1
      simp [fromProtoValue,htext]
    | _ => rfl

variable {check : Option ProtoValue → Bool} {P : Platform}

def targetOf (check : Option ProtoValue → Bool) (field : FieldDescriptor MessageDescriptor) :
    MessageTarget :=
  nestedOf (protoFromNative check) (fun _ heap => ⟨false,.undefined,heap⟩) field

theorem protoFromNative_mk (fields : List (FieldDescriptor MessageDescriptor)) (sorted : List ℕ) :
    protoFromNative check (.mk fields sorted) =
      readMessage check (fields.map (fun field => (field,targetOf check field))) :=
  MessageDescriptor.fold_mk _ _ fields sorted

theorem shapedMessage_mk (fields : List (FieldDescriptor MessageDescriptor)) (sorted : List ℕ) :
    ShapedMessage (.mk fields sorted) = shapedFields
      (fields.map (fun field => (field,nestedOf ShapedMessage (fun _ => False) field))) :=
  MessageDescriptor.fold_mk _ _ fields sorted

theorem restorableMessage_mk (fields : List (FieldDescriptor MessageDescriptor))
    (sorted : List ℕ) : RestorableMessage P (.mk fields sorted) = restorableFields P
      (fields.map (fun field => (field,nestedOf (RestorableMessage P) (fun _ => False) field))) :=
  MessageDescriptor.fold_mk _ _ fields sorted

theorem protoFromNative_encodes (hcheck : ∀ descriptor message, ShapedMessage descriptor message →
    check (some message) = true) {descriptor : MessageDescriptor}
    (hgenerated : GeneratedMessage descriptor) :
    EncodesNested (protoFromNative check descriptor) (ShapedMessage descriptor)
      (RestorableMessage P descriptor) (ShowsMessage descriptor) := by
  induction descriptor using MessageDescriptor.induction with
  | mk fields sorted ih =>
    obtain ⟨hlayout,hnested⟩ := hgenerated
    have hfield : ∀ field ∈ fields, EncodesNested (targetOf check field)
        (nestedOf ShapedMessage (fun _ => False) field)
        (nestedOf (RestorableMessage P) (fun _ => False) field) (showsEntry field).2 := by
      intro field hmem
      cases hdescriptor : field.descriptor with
      | none =>
        intro content heap _
        simp only [targetOf,showsEntry,nestedOf_none hdescriptor]
        refine ⟨List.prefix_refl heap,Bool.noConfusion,?_⟩
        rintro ⟨-,-,hfalse⟩
        exact hfalse.elim
      | some nested =>
        simp only [targetOf,showsEntry,nestedOf_some hdescriptor]
        exact ih field hmem nested hdescriptor (hnested field hmem nested hdescriptor)
    intro content heap hshaped
    rw [protoFromNative_mk,restorableMessage_mk,showsMessage_mk]
    have hnew : heap <+: heap ++ [ScriptObject.plain []] := List.prefix_append heap _
    cases content with
    | none =>
      refine ⟨hnew,Bool.noConfusion,?_⟩
      rintro ⟨message,hmessage,-⟩
      cases hmessage
    | some message =>
      change ShapedMessage (.mk fields sorted) message at hshaped
      have hchecked := hcheck _ _ hshaped
      rw [shapedMessage_mk] at hshaped
      cases message with
      | message block own values cases =>
        have hcontent : ∀ field ∈ fields, isOneOfSkipped field cases = false →
            ShapedContent field.label field.type (nestedOf ShapedMessage (fun _ => False) field)
              (values.lookup field.offset) := by
          intro field hmem hskip
          have hin := hshaped _ (List.mem_map_of_mem hmem)
          unfold ShapedContent
          split_ifs with hlabel
          · exact fun item hitem => (hin.repeated hskip hlabel item hitem).1
          · exact hin.single hskip hlabel
        have hencodes : ∀ field ∈ fields, isOneOfSkipped field cases = false → ∀ heap,
            Encodes heap (fieldTarget values (targetOf check) field heap)
              (RestorableIn P field (nestedOf (RestorableMessage P) (fun _ => False) field) values)
              (fun heap low value => FieldShows.Shows (showsEntry field) heap low values value) := by
          intro field hmem hskip heap
          have hconvert := fromProtoField_encodes P field (hfield field hmem)
            (fun heap heap' low low' hagree hlow => showsEntry_mono hagree hlow field)
            (values.lookup field.offset) field.initial heap (hcontent field hmem hskip)
          refine ⟨hconvert.grows,hconvert.shows,fun hrestorable => ?_⟩
          have hback := hrestorable.content
          split_ifs at hback
          · exact fromProtoField_unset hback heap
          · exact hconvert.ok hback
        have hlast : (heap ++ [ScriptObject.plain []])[heap.length]? = some (.plain []) := by simp
        have hgrows := fromProtoFields_grows hencodes hlast
        have hread : readMessage check (fields.map (fun field => (field,targetOf check field)))
            (some (.message block own values cases)) heap =
            ⟨(fromProtoFields heap.length values cases (fields.map (fun field => (field,targetOf check field)))
              (heap ++ [ScriptObject.plain []])).1,.object heap.length,
            (fromProtoFields heap.length values cases (fields.map (fun field => (field,targetOf check field)))
              (heap ++ [ScriptObject.plain []])).2⟩ := by
          simp only [readMessage,hchecked,if_true]
        rw [hread]
        refine ⟨hgrows.prefix_of_last,fun hok => ?_,?_⟩
        · obtain ⟨⟨added,hobject,hadded⟩,hall⟩ := fromProtoFields_shows hencodes
            (fun field heap heap' low low' hagree hlow value hvalue =>
              FieldShows.Shows.mono hagree hlow (showsEntry_mono hagree hlow field) hvalue)
            hlast hlayout.nodup_names (by simp) hok
          have hweaker : ∀ field value, FieldShows.Shows (showsEntry field) (fromProtoFields
              heap.length values cases (fields.map (fun field => (field,targetOf check field)))
              (heap ++ [ScriptObject.plain []])).2 (heap.length + 1) values value →
              FieldShows.Shows (showsEntry field) (fromProtoFields heap.length values cases
                (fields.map (fun field => (field,targetOf check field)))
                (heap ++ [ScriptObject.plain []])).2 heap.length values value := by
            intro field value hvalue
            have hagree := agreeFrom_of_start (List.prefix_refl (fromProtoFields
              heap.length values cases (fields.map (fun field => (field,targetOf check field)))
              (heap ++ [ScriptObject.plain []])).2) (heap.length + 1)
            exact FieldShows.Shows.mono hagree (Nat.le_succ _) (showsEntry_mono hagree (Nat.le_succ _) field) hvalue
          refine ⟨⟨heap.length,added,le_rfl,rfl,hobject,?_⟩,?_⟩
          · rw [List.filter_map,List.forall₂_map_left_iff]
            exact hadded.imp (fun field p hp => ⟨hp.1,hweaker field p.2 hp.2⟩)
          · intro entry hentry hskip
            obtain ⟨field,hmem,rfl⟩ := List.mem_map.mp hentry
            obtain ⟨shown,hshown⟩ := hall field hmem hskip
            exact ⟨shown,hweaker field shown hshown⟩
        · rintro ⟨message,hmessage,hrestorable⟩
          obtain rfl := Option.some.inj hmessage
          refine fromProtoFields_ok (fun field hmem hskip heap => ?_) _ _
          exact (hencodes field hmem hskip heap).ok (hrestorable _ (List.mem_map_of_mem hmem) hskip)
      | _ => exact hshaped.elim

end Messages

end FeatureRuntime
