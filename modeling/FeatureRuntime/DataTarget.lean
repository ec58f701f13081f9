import FeatureRuntime.DataValue
import FeatureRuntime.Growth

/-! `convertValueToTarget` on data: the blocks that it makes in the engine show the native value, and
blocks that were there before stay as they are. -/
namespace FeatureRuntime

open RefCount

variable {P : Platform} {E : TargetEnv}

section Shows

def ShowsPrimitive (heap : Heap EngineNode) (type : PrimitiveType) (low : ℕ) (value : EngineValue)
    (content : DataValue) : Prop :=
  match content with
  | .bool b => type = .boolean ∧ value = .plain (.bool b)
  | .int n => type.holds n = true ∧ value = .plain (.number (newUint32 n))
  | .string text => type = .string ∧ cString text = text ∧
      ∃ ptr rc, low ≤ ptr ∧ value = .block ptr ∧ heap[ptr]? = some (some ⟨rc,.string text⟩)
  | .illFormed _ | .record _ | .list _ => False

mutual

/-- An engine value shows data of a type, with blocks from `low` on. -/
def Shows (P : Platform) (heap : Heap EngineNode) : FeatureType → ℕ → EngineValue → DataValue → Prop
  | .primitive type, low, value, content => ShowsPrimitive heap type low value content
  | .structMap _ members, low, value, content =>
    ∃ ptr rc properties contents, low ≤ ptr ∧ value = .block ptr ∧ content = .record contents ∧
      heap[ptr]? = some (some ⟨rc,.object properties⟩) ∧
      ShowsMembers P heap members (ptr + 1) properties contents
  | .optional type _, low, value, content => Shows P heap type low value content
  | .array elementType, low, value, content =>
    ∃ ptr rc elements contents, low ≤ ptr ∧ value = .block ptr ∧ content = .list contents ∧
      heap[ptr]? = some (some ⟨rc,.array elements⟩) ∧
      arrayFits P elementType contents.length = true ∧
      List.Forall₂ (fun element content => Shows P heap elementType (ptr + 1) element content)
        elements contents
  | _, _, _, _ => False

def ShowsMembers (P : Platform) (heap : Heap EngineNode) : List (ObjectMember FeatureType) → ℕ →
    List (String × EngineValue) → List DataValue → Prop
  | [], _, properties, contents => properties = [] ∧ contents = []
  | ⟨name,type,_⟩ :: members, low, properties, contents =>
    ∃ value properties' content contents', properties = (name,value) :: properties' ∧
      contents = content :: contents' ∧ Shows P heap type low value content ∧
      ShowsMembers P heap members low properties' contents'

end

variable {heap heap' : Heap EngineNode} {low low' : ℕ}

theorem ShowsMembers.mono {members : List (ObjectMember FeatureType)}
    (hmembers : ∀ m ∈ members, ∀ value content, Shows P heap m.type low value content →
      Shows P heap' m.type low' value content)
    {properties : List (String × EngineValue)} {contents : List DataValue}
    (h : ShowsMembers P heap members low properties contents) :
    ShowsMembers P heap' members low' properties contents := by
  induction members generalizing properties contents with
  | nil => exact h
  | cons m members ih =>
    obtain ⟨value,properties',content,contents',hproperties,hcontents,hvalue,hrest⟩ := h
    refine ⟨value,properties',content,contents',hproperties,hcontents,?_,?_⟩
    · exact hmembers m List.mem_cons_self value content hvalue
    · exact ih (fun m hm => hmembers m (List.mem_cons_of_mem _ hm)) hrest

theorem Shows.mono (hagree : AgreeFrom heap heap' low) (hlow : low' ≤ low) {type : FeatureType}
    {value : EngineValue} {content : DataValue} (h : Shows P heap type low value content) :
    Shows P heap' type low' value content := by
  induction type using FeatureType.induction generalizing low low' value content with
  | primitive type =>
    cases content with
    | string text =>
      obtain ⟨htype,htext,ptr,rc,hptr,hvalue,hblock⟩ := h
      exact ⟨htype,htext,ptr,rc,hlow.trans hptr,hvalue,hagree ptr hptr _ hblock⟩
    | _ => exact h
  | structMap size members ih =>
    obtain ⟨ptr,rc,properties,contents,hptr,hvalue,hcontent,hblock,hmembers⟩ := h
    have habove : AgreeFrom heap heap' (ptr + 1) := fun i hi => hagree i (by omega)
    refine ⟨ptr,rc,properties,contents,hlow.trans hptr,hvalue,hcontent,hagree ptr hptr _ hblock,?_⟩
    exact hmembers.mono (fun m hm value content h => ih m hm habove le_rfl h)
  | optional type value ih => exact ih hagree hlow h
  | array type ih =>
    obtain ⟨ptr,rc,elements,contents,hptr,hvalue,hcontent,hblock,hsize,helements⟩ := h
    have habove : AgreeFrom heap heap' (ptr + 1) := fun i hi => hagree i (by omega)
    refine ⟨ptr,rc,elements,contents,hlow.trans hptr,hvalue,hcontent,hagree ptr hptr _ hblock,hsize,?_⟩
    exact helements.imp (fun _ _ h => ih habove le_rfl h)
  | _ => exact h.elim

end Shows

section Conversion

/-- What the conversion of data does: it succeeds with a value that shows the data, and only makes
new blocks. -/
structure ShowsTarget (P : Platform) (type : FeatureType) (content : DataValue) (s : EngineState)
    (r : Targeted) : Prop where
  ok : r.ok = true
  fault : r.state.fault = s.fault
  grows : s.heap <+: r.state.heap
  target : ∃ value, r.target = some value ∧ Shows P r.state.heap type s.heap.length value content

def ShowsSlots (E : TargetEnv) (type : FeatureType) : Prop :=
  ∀ slot target s content, readNative E.platform type slot = some content →
    ShowsTarget E.platform type (content.decoded E) s (convertValueToTarget E type slot target s)

variable {s : EngineState}

theorem setStructField_new {target rc : ℕ} {properties : List (String × EngineValue)} {name : String}
    (h : s.heap[target]? = some (some ⟨rc,.object properties⟩))
    (hname : ∀ p ∈ properties, p.1 ≠ name) (value : EngineValue) :
    s.setStructField target name (some value) =
      { s with heap := s.heap.set target (some ⟨rc,.object (properties ++ [(name,value)])⟩) } := by
  have hkept : properties.filter (fun p => p.1 ≠ name) = properties :=
    List.filter_eq_self.mpr (fun p hp => decide_eq_true (hname p hp))
  have hnone : properties.filter (fun p => p.1 = name) = [] :=
    List.filter_eq_nil_iff.mpr (fun p hp => by simp [hname p hp])
  simp only [EngineState.setStructField,h,hkept,hnone,List.foldl_nil]

theorem arraySet_last {target rc : ℕ} {elements : List EngineValue}
    (h : s.heap[target]? = some (some ⟨rc,.array elements⟩)) (value : EngineValue) :
    s.arraySet target (some value) =
      { s with heap := s.heap.set target (some ⟨rc,.array (elements ++ [value])⟩) } := by
  simp only [EngineState.arraySet,h]

theorem convertMembersToTarget_shows {members : List (ObjectMember FeatureType)}
    (hshows : ∀ m ∈ members, ShowsSlots E m.type) {memory : List (Write Native)}
    {contents : List DataValue} (hread : readMembers E.platform members memory = some contents)
    (hnames : members.Pairwise (fun m m' => m.name ≠ m'.name)) {object rc : ℕ}
    {done : List (String × EngineValue)}
    (hobject : s.heap[object]? = some (some ⟨rc,.object done⟩))
    (hdone : ∀ p ∈ done, ∀ m ∈ members, p.1 ≠ m.name) :
    let r := convertMembersToTarget E members memory object s
    r.1 = true ∧ r.2.fault = s.fault ∧ GrowsAt object s.heap r.2.heap ∧
      ∃ properties, r.2.heap[object]? = some (some ⟨rc,.object (done ++ properties)⟩) ∧
        ShowsMembers E.platform r.2.heap members (object + 1) properties (decodedAll E contents) := by
  induction members generalizing s done contents with
  | nil =>
    obtain rfl : contents = [] := (Option.some.inj hread).symm
    refine ⟨rfl,rfl,.refl object s.heap,[],?_,rfl,rfl⟩
    rw [List.append_nil]
    exact hobject
  | cons m members ih =>
    obtain ⟨content,contents',rfl,hcontent,hrest⟩ := readMembers_cons_eq_some.mp hread
    rw [List.pairwise_cons] at hnames
    have hm := hshows m List.mem_cons_self _ none s content hcontent
    simp only [convertMembersToTarget]
    set r := convertValueToTarget E m.type (load memory m.offset (accessSize E.platform m.type))
      none s with hr
    obtain ⟨value,htarget,hvalue⟩ := hm.target
    have hkept : r.state.heap[object]? = some (some ⟨rc,.object done⟩) :=
      agreeFrom_of_start hm.grows 0 object (Nat.zero_le _) _ hobject
    have hin : object < r.state.heap.length := (List.getElem?_eq_some_iff.mp hkept).1
    have hbelow : object + 1 ≤ s.heap.length := (List.getElem?_eq_some_iff.mp hobject).1
    rw [if_pos hm.ok,htarget,setStructField_new hkept (fun p hp => hdone p hp m List.mem_cons_self) value]
    set next := r.state.heap.set object (some ⟨rc,.object (done ++ [(m.name,value)])⟩) with hnext
    have hdone' : ∀ p ∈ done ++ [(m.name,value)], ∀ m' ∈ members, p.1 ≠ m'.name := by
      intro p hp m' hm'
      obtain hp | hp := List.mem_append.mp hp
      · exact hdone p hp m' (List.mem_cons_of_mem _ hm')
      · obtain rfl := List.mem_singleton.mp hp
        exact hnames.1 m' hm'
    obtain ⟨hok,hfault,hgrows,properties,hproperties,hmembers⟩ :=
      ih (fun m hm => hshows m (List.mem_cons_of_mem _ hm)) hrest hnames.2
        (s := { r.state with heap := next }) (List.getElem?_set_self hin) hdone'
    refine ⟨hok,hfault.trans hm.fault,?_,(m.name,value) :: properties,?_,?_⟩
    · exact ((growsAt_of_start hm.grows).trans (growsAt_set object _ _)).trans hgrows
    · rw [hproperties,List.append_assoc]
      rfl
    · refine ⟨value,properties,content.decoded E,decodedAll E contents',rfl,rfl,?_,hmembers⟩
      have hset : AgreeFrom r.state.heap next (object + 1) :=
        agreeFrom_set (Nat.lt_succ_self object) _ _
      have hlater := hset.trans hgrows.agreeFrom
      exact (hvalue.mono (agreeFrom_refl _ _) hbelow).mono hlater le_rfl

theorem convertElementsToTarget_shows {type : FeatureType} (hshows : ShowsSlots E type)
    {slots : List (Option Native)} {contents : List DataValue}
    (hread : slots.mapM (fun element => readNative E.platform type (.ofOption element)) =
      some contents) {array rc : ℕ} {done : List EngineValue}
    (harray : s.heap[array]? = some (some ⟨rc,.array done⟩)) :
    let r := convertElementsToTarget (convertValueToTarget E type) array slots s
    r.1 = true ∧ r.2.fault = s.fault ∧ GrowsAt array s.heap r.2.heap ∧
      ∃ elements, r.2.heap[array]? = some (some ⟨rc,.array (done ++ elements)⟩) ∧ List.Forall₂ (fun element content =>
          Shows E.platform r.2.heap type (array + 1) element content) elements (decodedAll E contents) := by
  induction slots generalizing s done contents with
  | nil =>
    obtain rfl : [] = contents := Option.some.inj hread
    refine ⟨rfl,rfl,.refl array s.heap,[],?_,.nil⟩
    rw [List.append_nil]
    exact harray
  | cons slot slots ih =>
    obtain ⟨content,contents',rfl,hcontent,hrest⟩ := mapM_cons_eq_some.mp hread
    have hslot := hshows _ none s content hcontent
    simp only [convertElementsToTarget]
    set r := convertValueToTarget E type (.ofOption slot) none s with hr
    obtain ⟨value,htarget,hvalue⟩ := hslot.target
    have hkept : r.state.heap[array]? = some (some ⟨rc,.array done⟩) :=
      agreeFrom_of_start hslot.grows 0 array (Nat.zero_le _) _ harray
    have hin : array < r.state.heap.length := (List.getElem?_eq_some_iff.mp hkept).1
    have hbelow : array + 1 ≤ s.heap.length := (List.getElem?_eq_some_iff.mp harray).1
    rw [if_pos hslot.ok,htarget,arraySet_last hkept value]
    set next := r.state.heap.set array (some ⟨rc,.array (done ++ [value])⟩) with hnext
    obtain ⟨hok,hfault,hgrows,elements,helements,hforall⟩ :=
      ih hrest (s := { r.state with heap := next }) (List.getElem?_set_self hin)
    refine ⟨hok,hfault.trans hslot.fault,?_,value :: elements,?_,.cons ?_ hforall⟩
    · exact ((growsAt_of_start hslot.grows).trans (growsAt_set array _ _)).trans hgrows
    · rw [helements,List.append_assoc]
      rfl
    · have hset : AgreeFrom r.state.heap next (array + 1) :=
        agreeFrom_set (Nat.lt_succ_self array) _ _
      exact (hvalue.mono (agreeFrom_refl _ _) hbelow).mono (hset.trans hgrows.agreeFrom) le_rfl

theorem showsTarget_wrote {type : FeatureType} {content : DataValue} {value : JSValue}
    (h : Shows P s.heap type s.heap.length (.plain value) content) :
    ShowsTarget P type content s (s.wrote value) :=
  ⟨rfl,rfl,List.prefix_refl s.heap,.plain value,rfl,h⟩

variable {type : PrimitiveType}

theorem toTarget_int {n : ℤ} (h : type.holds n = true) {slot : Slot Native}
    (hslot : intAt slot = n) : toTarget E type slot = .number (newUint32 n) := by
  have hsmall : n ≤ 2147483647 → newUint32 n = .int n := fun hn => by rw [newUint32,if_pos hn]
  subst hslot
  cases type <;> simp [PrimitiveType.holds,PrimitiveType.intRange] at h <;>
    first | rfl | (rw [hsmall (by omega)]; rfl)

theorem convertPrimitiveToTarget_int {n : ℤ} (h : type.holds n = true)
    (slot : Slot Native) (target : Option EngineValue) (s : EngineState) :
    convertPrimitiveToTarget E type slot target s = s.wrote (toTarget E type slot) := by
  cases type <;> first | rfl | simp [PrimitiveType.holds,PrimitiveType.intRange] at h

theorem convertPrimitiveToTarget_shows {slot : Slot Native}
    {content : DataValue} (hread : readPrimitive type slot = some content)
    (target : Option EngineValue) (s : EngineState) :
    ShowsTarget P (.primitive type) (content.decoded E) s (convertPrimitiveToTarget E type slot target s) := by
  have hint : ∀ n, type.holds n = true → intAt slot = n →
      ShowsTarget P (.primitive type) (.int n) s (convertPrimitiveToTarget E type slot target s) := by
    intro n hn hslot
    rw [convertPrimitiveToTarget_int hn,toTarget_int hn hslot]
    exact showsTarget_wrote ⟨hn,rfl⟩
  cases slot with
  | torn => simp [readPrimitive] at hread
  | zero =>
    simp only [readPrimitive] at hread
    split_ifs at hread with hbool hzero
    · obtain rfl := Option.some.inj hread
      subst hbool
      exact showsTarget_wrote ⟨rfl,rfl⟩
    · obtain rfl := Option.some.inj hread
      exact hint 0 hzero rfl
  | value native =>
    cases native with
    | bool b =>
      simp only [readPrimitive] at hread
      split_ifs at hread with hbool
      obtain rfl := Option.some.inj hread
      subst hbool
      exact showsTarget_wrote ⟨rfl,rfl⟩
    | int n =>
      simp only [readPrimitive] at hread
      split_ifs at hread with hn
      obtain rfl := Option.some.inj hread
      exact hint n hn rfl
    | string id text =>
      simp only [readPrimitive] at hread
      split_ifs at hread with hstring
      obtain rfl := Option.some.inj hread
      subst hstring
      refine ⟨rfl,rfl,List.prefix_append s.heap _,_,rfl,rfl,cString_cString text,?_⟩
      refine ⟨s.heap.length,1,le_rfl,rfl,?_⟩
      exact List.getElem?_concat_length
    | illFormed id text =>
      simp only [readPrimitive] at hread
      split_ifs at hread with hstring
      obtain rfl := Option.some.inj hread
      subst hstring
      refine ⟨rfl,rfl,List.prefix_append s.heap _,_,rfl,rfl,cString_cString _,?_⟩
      refine ⟨s.heap.length,1,le_rfl,rfl,?_⟩
      exact List.getElem?_concat_length
    | _ => simp [readPrimitive] at hread

/-- Every native value of a type of data is converted, and shown by the result. -/
theorem convertValueToTarget_shows {type : FeatureType} (hdata : type.isData E.platform = true) :
    ShowsSlots E type := by
  induction type using FeatureType.induction with
  | primitive type =>
    intro slot target s content hread
    exact convertPrimitiveToTarget_shows hread target s
  | optional type value ih =>
    intro slot target s content hread
    have hshows := ih hdata slot target s content hread
    simp only [convertValueToTarget,if_pos hshows.ok]
    exact ⟨hshows.ok,hshows.fault,hshows.grows,hshows.target⟩
  | structMap size members ih =>
    intro slot target s content hread
    obtain ⟨hmembers,hpairs⟩ := isData_structMap hdata
    have hnames := hpairs.imp (fun h => h.1)
    simp only [readNative] at hread
    split at hread
    · next memory =>
      obtain ⟨contents,hcontents,rfl⟩ := Option.map_eq_some_iff.mp hread
      have hnew : (s.create (.object [])).2.heap[s.heap.length]? = some (some ⟨1,.object []⟩) :=
        List.getElem?_concat_length
      obtain ⟨hok,hfault,hgrows,properties,hobject,hshown⟩ :=
        convertMembersToTarget_shows (fun m hm => ih m hm (hmembers m hm)) hcontents hnames hnew
          (fun p hp => absurd hp List.not_mem_nil)
      refine ⟨hok,hfault,hgrows.prefix_of_last,_,rfl,?_⟩
      exact ⟨s.heap.length,1,properties,_,le_rfl,rfl,rfl,hobject,hshown⟩
    · simp at hread
  | array type ih =>
    intro slot target s content hread
    simp only [readNative] at hread
    split at hread
    · next size buffer slots =>
      split_ifs at hread with hsize
      obtain ⟨contents,hcontents,rfl⟩ := Option.map_eq_some_iff.mp hread
      have hnew : (s.create (.array [])).2.heap[s.heap.length]? = some (some ⟨1,.array []⟩) :=
        List.getElem?_concat_length
      obtain ⟨hok,hfault,hgrows,elements,harray,hshown⟩ :=
        convertElementsToTarget_shows (ih hdata) hcontents hnew
      have hsize0 : 0 ≤ size := (of_decide_eq_true hsize.1).1
      have hlength : (contents.length : ℤ) = size := by
        rw [length_mapM hcontents,List.length_take_of_le hsize.2]
        omega
      refine ⟨hok,hfault,hgrows.prefix_of_last,_,rfl,?_⟩
      refine ⟨s.heap.length,1,elements,_,le_rfl,rfl,rfl,harray,?_,hshown⟩
      rw [length_decodedAll,hlength]
      exact hsize.1
    · simp at hread
  | _ => simp [FeatureType.isData] at hdata

end Conversion
end FeatureRuntime
