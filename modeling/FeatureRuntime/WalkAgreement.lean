import FeatureRuntime.ValueWalk
import Mathlib.Data.List.Flatten

/-! The two walks agree: what `dupFtValue` retains is what `freeFtValue` releases. It is every `any` value of the tree, and
every pointer is read from its slot, where no `any` lies behind an optional and no array has narrow slots. -/
namespace FeatureRuntime

open WalkStep

namespace NativeMemory

section Walks

variable (M : NativeMemory)

/-- One member in the loop of `dupFtValue`. -/
def dupMember (structPtr : ℕ) (m : ObjectMember FeatureType) : List WalkStep :=
  if m.type.realType.needFree then M.dupFtValue m.type.realType (M.ownSlot (structPtr + m.offset)) else []

/-- One member in the loop of `freeFtValue`. -/
def freeMember (structPtr : ℕ) (m : ObjectMember FeatureType) : List WalkStep :=
  if m.type.realType.needFree then M.freeFtValue m.type.realType (M.ownSlot (structPtr + m.offset)) else []

theorem dupMembers_eq (members : List (ObjectMember FeatureType)) (structPtr : ℕ) :
    M.dupMembers members structPtr = members.flatMap (M.dupMember structPtr) := by
  induction members with
  | nil => rfl
  | cons m members ih =>
    obtain ⟨name,type,offset⟩ := m
    rw [List.flatMap_cons,← ih]
    cases type <;> rfl

theorem freeMembers_eq (members : List (ObjectMember FeatureType)) (structPtr : ℕ) :
    M.freeMembers members structPtr = members.flatMap (M.freeMember structPtr) := by
  induction members with
  | nil => rfl
  | cons m members ih =>
    obtain ⟨name,type,offset⟩ := m
    rw [List.flatMap_cons,← ih]
    cases type <;> rfl

theorem anyOfMembers_eq (members : List (ObjectMember FeatureType)) (structPtr : ℕ) :
    M.anyOfMembers members structPtr = members.flatMap (fun m => M.anyValues m.type (structPtr + m.offset)) := by
  induction members with
  | nil => rfl
  | cons m members ih => rw [List.flatMap_cons,← ih,anyOfMembers]

theorem anyValues_realType (type : FeatureType) (address : ℕ) :
    M.anyValues type.realType address = M.anyValues type address := by
  cases type <;> rfl

theorem anyValues_of_not_needFree {type : FeatureType} (hfree : type.needFree = false)
    (hoptional : type.isOptional = false) (address : ℕ) : M.anyValues type address = [] := by
  cases type with
  | primitive p => cases p <;> first | rfl | cases hfree
  | structMap | array | protobuf => cases hfree
  | optional => cases hoptional
  | callback | promise | interface => rfl

theorem dupFtValue_guarded (type : FeatureType) : ∃ body, ∀ slot, M.dupFtValue type slot = M.guarded slot body := by
  cases type with
  | primitive p => cases p <;> exact ⟨_,fun _ => rfl⟩
  | structMap | optional | callback | array | promise | interface | protobuf => exact ⟨_,fun _ => rfl⟩

theorem guarded_map (slot : WalkSlot) (body : ℕ → List WalkStep) :
    (M.guarded slot body).map release = M.guarded slot (fun ptr => (body ptr).map release) := by
  unfold guarded
  split_ifs <;> rfl

theorem retained_guarded (slot : WalkSlot) (body : ℕ → List WalkStep) :
    retained (M.guarded slot body) = (M.pointee slot.address).elim [] (fun ptr => retained (body ptr)) := by
  unfold guarded pointee
  by_cases h0 : slot.address = 0
  · rw [if_pos h0,if_pos (Or.inl h0)]
    rfl
  · by_cases hword : M.word slot.address = 0
    · rw [if_neg h0,if_pos hword,if_pos (Or.inr hword)]
      rfl
    · rw [if_neg h0,if_neg hword,if_neg (not_or.mpr ⟨h0,hword⟩)]
      rfl

theorem mem_guarded {step : WalkStep} {slot : WalkSlot} {body : ℕ → List WalkStep} :
    step ∈ M.guarded slot body ↔ slot.address ≠ 0 ∧
      (step = .read slot ∨ ∃ ptr, M.pointee slot.address = some ptr ∧ step ∈ body ptr) := by
  unfold guarded pointee
  by_cases h0 : slot.address = 0
  · simp [h0]
  · by_cases hword : M.word slot.address = 0 <;> simp [h0,hword]

/-- A type at which a walk ends after its null checks. -/
structure Leaf (type : FeatureType) : Prop where
  dup : ∀ slot, M.dupFtValue type slot = M.guarded slot (fun _ => [])
  free : ∀ slot, M.freeFtValue type slot = M.guarded slot (fun _ => [])
  any : ∀ address, M.anyValues type address = []

variable {M} in
/-- Induction along the walks, which go to the members of a struct at their real types. -/
theorem walk_induction {P : FeatureType → Prop} (leaf : ∀ type, M.Leaf type → P type)
    (anyRef : P (.primitive .anyRef))
    (structMap : ∀ size members, (∀ m ∈ members, P m.type.realType) → P (.structMap size members))
    (array : ∀ elementType, P elementType → P (.array elementType))
    (optional : ∀ type value, P type → P (.optional type value)) (type : FeatureType) : P type := by
  suffices h : P type ∧ P type.realType from h.1
  induction type using FeatureType.induction with
  | primitive p =>
    have h : P (.primitive p) := by
      cases p with
      | anyRef => exact anyRef
      | _ => exact leaf _ ⟨fun _ => rfl,fun _ => rfl,fun _ => rfl⟩
    exact ⟨h,h⟩
  | structMap size members ih =>
    have h := structMap size members (fun m hm => (ih m hm).2)
    exact ⟨h,h⟩
  | array t ih => exact ⟨array t ih.1,array t ih.1⟩
  | optional t v ih => exact ⟨optional t v ih.1,ih.1⟩
  | callback | promise | interface | protobuf =>
    exact ⟨leaf _ ⟨fun _ => rfl,fun _ => rfl,fun _ => rfl⟩,leaf _ ⟨fun _ => rfl,fun _ => rfl,fun _ => rfl⟩⟩

/-- `freeFtValue` goes the way of `dupFtValue`, with a release for every retention. -/
theorem freeFtValue_eq (type : FeatureType) (slot : WalkSlot) :
    M.freeFtValue type slot = (M.dupFtValue type slot).map release := by
  induction type using M.walk_induction generalizing slot with
  | leaf type h => rw [h.free,h.dup,guarded_map,List.map_nil]
  | anyRef => exact (M.guarded_map slot (fun value => [.dup (M.jsValue value)])).symm
  | structMap size members ih =>
    rw [freeFtValue,dupFtValue,guarded_map]
    refine congrArg (M.guarded slot) ?_
    funext structPtr
    rw [freeMembers_eq,dupMembers_eq,List.map_flatMap]
    refine List.flatMap_congr (fun m hm => ?_)
    unfold freeMember dupMember
    split_ifs
    · exact ih m hm _
    · rfl
  | array t ih =>
    rw [freeFtValue,dupFtValue,guarded_map]
    refine congrArg (M.guarded slot) ?_
    funext array
    rw [List.map_flatMap]
    exact List.flatMap_congr (fun i _ => ih _)
  | optional t v ih => exact (M.guarded_map slot (fun _ => [])).symm

/-- The slots of a walk are its first one, those of members and those of the elements of arrays it reaches. -/
theorem forall_dupFtValue {Q : WalkStep → Prop} (hdup : ∀ value, Q (.dup value))
    (hown : ∀ address, Q (.read (M.ownSlot address))) (type : FeatureType) (slot : WalkSlot) (hslot : Q (.read slot))
    (helement : ∀ t a array i, M.Reaches type slot.address (.array t) a → M.pointee a = some array →
      i < (M.arraySize array).toNat → Q (.read (M.elemSlot array t i))) :
    ∀ step ∈ M.dupFtValue type slot, Q step := by
  induction type using M.walk_induction generalizing slot with
  | leaf type h =>
    intro step hmem
    rw [h.dup,mem_guarded] at hmem
    obtain ⟨-,rfl | ⟨_,_,hmem⟩⟩ := hmem
    · exact hslot
    · cases hmem
  | anyRef =>
    intro step hmem
    rw [dupFtValue,mem_guarded] at hmem
    obtain ⟨-,rfl | ⟨_,_,hmem⟩⟩ := hmem
    · exact hslot
    · rw [List.mem_singleton.mp hmem]
      exact hdup _
  | structMap size members ih =>
    intro step hmem
    rw [dupFtValue,mem_guarded] at hmem
    obtain ⟨-,rfl | ⟨structPtr,hptr,hmem⟩⟩ := hmem
    · exact hslot
    · rw [dupMembers_eq,List.mem_flatMap] at hmem
      obtain ⟨m,hm,hmem⟩ := hmem
      unfold dupMember at hmem
      split_ifs at hmem
      · exact ih m hm _ (hown _) (fun t a array i hreach => helement t a array i (.member hptr hm hreach)) step hmem
      · cases hmem
  | array t ih =>
    intro step hmem
    rw [dupFtValue,mem_guarded] at hmem
    obtain ⟨-,rfl | ⟨array,hptr,hmem⟩⟩ := hmem
    · exact hslot
    · obtain ⟨i,hi,hmem⟩ := List.mem_flatMap.mp hmem
      have hi := List.mem_range.mp hi
      exact ih _ (helement t _ array i (.refl _ _) hptr hi)
        (fun t a array i hreach => helement t a array i (.element hptr hi hreach)) step hmem
  | optional t v ih =>
    intro step hmem
    rw [dupFtValue,mem_guarded] at hmem
    obtain ⟨-,rfl | ⟨_,_,hmem⟩⟩ := hmem
    · exact hslot
    · cases hmem

theorem released_dupFtValue (type : FeatureType) (slot : WalkSlot) : released (M.dupFtValue type slot) = [] := by
  refine released_nil (M.forall_dupFtValue (Q := fun step => ∀ value, step ≠ .free value) ?_ ?_ type slot ?_ ?_)
  · exact fun value other h => by cases h
  · exact fun address value h => by cases h
  · exact fun value h => by cases h
  · exact fun t a array i _ _ _ value h => by cases h

/-- Chunks that are no longer than others have the length of them all only where each has its length. -/
theorem length_eq_of_flatMap {α β γ : Type} {l : List α} {f : α → List β} {g : α → List γ}
    (hle : ∀ x ∈ l, (f x).length ≤ (g x).length) (h : (l.flatMap f).length = (l.flatMap g).length) :
    ∀ x ∈ l, (f x).length = (g x).length := by
  have htotal : ∀ l : List α, (∀ x ∈ l, (f x).length ≤ (g x).length) →
      (l.flatMap f).length ≤ (l.flatMap g).length := by
    intro l hle
    induction l with
    | nil => exact Nat.le_refl _
    | cons x l ih =>
      have hx := hle x List.mem_cons_self
      have hl := ih (fun y hy => hle y (List.mem_cons_of_mem x hy))
      rw [List.flatMap_cons,List.flatMap_cons,List.length_append,List.length_append]
      omega
  induction l with
  | nil => exact fun x hx => absurd hx List.not_mem_nil
  | cons y l ih =>
    have hrest : ∀ x ∈ l, (f x).length ≤ (g x).length := fun x hx => hle x (List.mem_cons_of_mem y hx)
    have hy := hle y List.mem_cons_self
    have hl := htotal l hrest
    rw [List.flatMap_cons,List.flatMap_cons,List.length_append,List.length_append] at h
    intro x hx
    rcases List.mem_cons.mp hx with rfl | hx
    · omega
    · exact ih hrest (by omega) x hx

theorem retained_flatMap {α : Type} (l : List α) (f : α → List WalkStep) :
    retained (l.flatMap f) = l.flatMap (fun x => retained (f x)) := List.filterMap_flatMap

theorem retained_structMap (size : ℕ) (members : List (ObjectMember FeatureType)) (slot : WalkSlot) :
    retained (M.dupFtValue (.structMap size members) slot) = (M.pointee slot.address).elim [] (fun structPtr =>
      members.flatMap (fun m => retained (M.dupMember structPtr m))) := by
  simp only [dupFtValue,retained_guarded,dupMembers_eq,retained_flatMap]

theorem retained_array (elementType : FeatureType) (slot : WalkSlot) :
    retained (M.dupFtValue (.array elementType) slot) = (M.pointee slot.address).elim [] (fun array =>
      (List.range (M.arraySize array).toNat).flatMap (fun i =>
        retained (M.dupFtValue elementType (M.elemSlot array elementType i)))) := by
  simp only [dupFtValue,retained_guarded,retained_flatMap]

theorem retained_optional (type : FeatureType) (value : OptionalValue) (slot : WalkSlot) :
    retained (M.dupFtValue (.optional type value) slot) = [] := by
  rw [dupFtValue,retained_guarded]
  cases M.pointee slot.address <;> rfl

theorem retained_sublist (type : FeatureType) (slot : WalkSlot) :
    (retained (M.dupFtValue type slot)).Sublist (M.anyValues type slot.address) := by
  induction type using M.walk_induction generalizing slot with
  | leaf type h =>
    rw [h.dup,retained_guarded]
    cases M.pointee slot.address <;> exact List.nil_sublist _
  | anyRef =>
    rw [dupFtValue,retained_guarded]
    exact List.Sublist.refl _
  | structMap size members ih =>
    rw [retained_structMap,anyValues]
    cases M.pointee slot.address with
    | none => exact List.nil_sublist _
    | some structPtr =>
      rw [Option.elim_some,Option.elim_some,anyOfMembers_eq]
      refine List.Sublist.flatMap_right _ (fun m hm => ?_)
      unfold dupMember
      split_ifs
      · rw [← anyValues_realType]
        exact ih m hm _
      · exact List.nil_sublist _
  | array t ih =>
    rw [retained_array,anyValues]
    cases M.pointee slot.address with
    | none => exact List.nil_sublist _
    | some array =>
      rw [Option.elim_some,Option.elim_some]
      exact List.Sublist.flatMap_right _ (fun i _ => ih _)
  | optional t v ih =>
    rw [retained_optional]
    exact List.nil_sublist _

/-- Where nothing is hidden behind an optional, all values are retained. -/
theorem retained_eq (type : FeatureType) (slot : WalkSlot)
    (h : ∀ t v a, M.Reaches type slot.address (.optional t v) a → M.anyValues t a = []) :
    retained (M.dupFtValue type slot) = M.anyValues type slot.address := by
  induction type using M.walk_induction generalizing slot with
  | leaf type hleaf =>
    rw [hleaf.dup,hleaf.any,retained_guarded]
    cases M.pointee slot.address <;> rfl
  | anyRef =>
    rw [dupFtValue,retained_guarded]
    rfl
  | structMap size members ih =>
    rw [retained_structMap,anyValues]
    cases hptr : M.pointee slot.address with
    | none => rw [Option.elim_none,Option.elim_none]
    | some structPtr =>
      rw [Option.elim_some,Option.elim_some,anyOfMembers_eq]
      refine List.flatMap_congr (fun m hm => ?_)
      have hbelow : ∀ t v a, M.Reaches m.type.realType (structPtr + m.offset) (.optional t v) a → M.anyValues t a = [] :=
        fun t v a hreach => h t v a (.member hptr hm hreach)
      unfold dupMember
      rw [← anyValues_realType]
      by_cases hfree : m.type.realType.needFree = true
      · rw [if_pos hfree]
        exact ih m hm _ hbelow
      · rw [if_neg hfree]
        cases hreal : m.type.realType with
        | optional t v =>
          rw [hreal] at hbelow
          exact (hbelow t v _ (.refl _ _)).symm
        | primitive | structMap | callback | array | promise | interface | protobuf =>
          rw [hreal] at hfree
          exact (M.anyValues_of_not_needFree (Bool.eq_false_iff.mpr hfree) rfl _).symm
  | array t ih =>
    rw [retained_array,anyValues]
    cases hptr : M.pointee slot.address with
    | none => rw [Option.elim_none,Option.elim_none]
    | some array =>
      rw [Option.elim_some,Option.elim_some]
      refine List.flatMap_congr (fun i hi => ?_)
      have hi := List.mem_range.mp hi
      exact ih (M.elemSlot array t i) (fun t v a hreach => h t v a (.element hptr hi hreach))
  | optional t v ih =>
    rw [retained_optional]
    exact (h t v _ (.refl _ _)).symm

theorem retained_congr (type : FeatureType) {slot slot' : WalkSlot} (h : slot.address = slot'.address) :
    retained (M.dupFtValue type slot) = retained (M.dupFtValue type slot') := by
  obtain ⟨body,hbody⟩ := M.dupFtValue_guarded type
  rw [hbody,hbody,retained_guarded,retained_guarded,h]

variable {M}

variable {t t' : FeatureType}

/-- Where all values are retained, they are at every place that is reached. -/
theorem Reaches.length_eq {a b : ℕ} (h : M.Reaches t a t' b)
    (heq : (retained (M.dupFtValue t (M.ownSlot a))).length = (M.anyValues t a).length) :
    (retained (M.dupFtValue t' (M.ownSlot b))).length = (M.anyValues t' b).length := by
  induction h with
  | refl => exact heq
  | @member size address structPtr b members m t' hptr hm h ih =>
    refine ih ?_
    have hmember : (retained (M.dupMember structPtr m)).length =
        (M.anyValues m.type (structPtr + m.offset)).length := by
      have haddress : (M.ownSlot address).address = address := rfl
      rw [retained_structMap,anyValues,haddress,hptr,Option.elim_some,Option.elim_some,anyOfMembers_eq] at heq
      refine length_eq_of_flatMap (fun m _ => ?_) heq m hm
      unfold dupMember
      split_ifs
      · rw [← anyValues_realType]
        exact (M.retained_sublist _ _).length_le
      · exact Nat.zero_le _
    have hle := (M.retained_sublist m.type.realType (M.ownSlot (structPtr + m.offset))).length_le
    have haddress : (M.ownSlot (structPtr + m.offset)).address = structPtr + m.offset := rfl
    rw [haddress,anyValues_realType] at hle
    rw [anyValues_realType]
    unfold dupMember at hmember
    split_ifs at hmember
    · exact hmember
    · have hnil : (retained []).length = 0 := rfl
      omega
  | @element address array i b elementType t' hptr hi h ih =>
    refine ih ?_
    have haddress : (M.ownSlot address).address = address := rfl
    rw [retained_array,anyValues,haddress,hptr,Option.elim_some,Option.elim_some] at heq
    have helement := length_eq_of_flatMap (fun i _ => (M.retained_sublist _ (M.elemSlot array elementType i)).length_le)
      heq i (List.mem_range.mpr hi)
    have hslot : (M.elemSlot array elementType i).address = (M.ownSlot (M.elemPtr array elementType i)).address := rfl
    rw [M.retained_congr elementType hslot] at helement
    exact helement

theorem Reaches.needFree {a b : ℕ} (h : M.Reaches t a t' b) (hfree : t'.needFree = true) : t.needFree = true := by
  cases h with
  | refl => exact hfree
  | member | element => rfl

theorem pointee_ne_zero {address ptr : ℕ} (h : M.pointee address = some ptr) : address ≠ 0 := by
  rintro rfl
  cases h

theorem Reaches.walked {a b : ℕ} (h : M.Reaches t a t' b) (hfree : t'.needFree = true)
    (slot : WalkSlot) (hslot : slot.address = a) :
    ∃ slot', slot'.address = b ∧ M.dupFtValue t' slot' ⊆ M.dupFtValue t slot := by
  induction h generalizing slot with
  | refl => exact ⟨slot,hslot,List.Subset.refl _⟩
  | @member size address structPtr b members m t' hptr hm h ih =>
    obtain ⟨slot',haddress,hsub⟩ := ih hfree (M.ownSlot (structPtr + m.offset)) rfl
    refine ⟨slot',haddress,fun step hstep => ?_⟩
    rw [dupFtValue,mem_guarded,hslot]
    refine ⟨pointee_ne_zero hptr,Or.inr ⟨structPtr,hptr,?_⟩⟩
    rw [dupMembers_eq]
    refine List.mem_flatMap.mpr ⟨m,hm,?_⟩
    rw [dupMember,if_pos (h.needFree hfree)]
    exact hsub hstep
  | @element address array i b elementType t' hptr hi h ih =>
    obtain ⟨slot',haddress,hsub⟩ := ih hfree (M.elemSlot array elementType i) rfl
    refine ⟨slot',haddress,fun step hstep => ?_⟩
    rw [dupFtValue,mem_guarded,hslot]
    exact ⟨pointee_ne_zero hptr,Or.inr ⟨array,hptr,List.mem_flatMap.mpr ⟨i,List.mem_range.mpr hi,hsub hstep⟩⟩⟩

theorem elemSlot_holds {array i : ℕ} {t : FeatureType} (hi : i < (M.arraySize array).toNat)
    (hwide : M.platform.pointerSize ≤ elementSize M.platform t) : (M.elemSlot array t i).Holds M.platform := by
  have hmul : elementSize M.platform t * (i + 1) ≤ elementSize M.platform t * (M.arraySize array).toNat :=
    Nat.mul_le_mul_left _ hi
  rw [Nat.mul_succ] at hmul
  constructor
  · exact Nat.le_add_right _ _
  · show M.elemPtr array t i + _ ≤ M.elemPtr array t _
    unfold elemPtr
    omega

end Walks

end NativeMemory

namespace NativeValue

variable (V : NativeValue)

theorem freeWalk_eq : V.freeWalk = V.dupWalk.map release := V.memory.freeFtValue_eq V.type _

theorem released_freeWalk : released V.freeWalk = retained V.dupWalk := by
  have hnone : released V.dupWalk = [] := V.memory.released_dupFtValue _ _
  rw [freeWalk_eq,released_release _ hnone]

theorem counts_unchanged (counts : ℕ → ℤ) : V.freeWalk.foldl counted (V.dupWalk.foldl counted counts) = counts := by
  funext value
  have hretained : retained V.freeWalk = [] := by rw [freeWalk_eq,retained_release]
  have hreleased : released V.dupWalk = [] := V.memory.released_dupFtValue _ _
  rw [foldl_counted,foldl_counted,hretained,hreleased,released_freeWalk]
  simp

theorem read_mem_freeWalk {slot : WalkSlot} : .read slot ∈ V.freeWalk ↔ .read slot ∈ V.dupWalk := by
  rw [freeWalk_eq,read_mem_release]

variable {V}

theorem WideSlots.holds (h : V.WideSlots) {slot : WalkSlot} (hmem : .read slot ∈ V.dupWalk) :
    slot.Holds V.memory.platform := by
  have hown : ∀ address, (V.memory.ownSlot address).Holds V.memory.platform :=
    fun address => ⟨Nat.le_refl _,Nat.le_refl _⟩
  refine V.memory.forall_dupFtValue (Q := fun step => ∀ slot, step = .read slot → slot.Holds V.memory.platform)
    ?_ ?_ V.type _ ?_ ?_ _ hmem slot rfl
  · exact fun value slot h => by cases h
  · exact fun address slot h => by
      cases h
      exact hown address
  · exact fun slot h => by
      cases h
      exact hown V.address
  · intro t a array i hreach hptr hi slot heq
    cases heq
    exact NativeMemory.elemSlot_holds hi (h t a array hreach hptr (by omega))

theorem WalksRight.noneHidden (h : V.WalksRight) : V.NoneHidden := by
  intro t v a hreach
  have hlength := hreach.length_eq h.retains.length_eq
  rw [V.memory.retained_optional] at hlength
  exact List.eq_nil_of_length_eq_zero hlength.symm

theorem WalksRight.wideSlots (h : V.WalksRight) : V.WideSlots := by
  intro t a array hreach hptr hsize
  have hne := V.hasElements t a array hreach hptr hsize
  have hfree : (FeatureType.array t).needFree = true := rfl
  obtain ⟨slot,haddress,hsub⟩ := hreach.walked hfree (V.memory.ownSlot V.address) rfl
  obtain ⟨i,hi⟩ : ∃ i, (V.memory.arraySize array).toNat = i + 1 := ⟨(V.memory.arraySize array).toNat - 1,by omega⟩
  have hread : .read (V.memory.elemSlot array t i) ∈ V.dupWalk := by
    refine hsub ?_
    rw [NativeMemory.dupFtValue,NativeMemory.mem_guarded,haddress]
    refine ⟨NativeMemory.pointee_ne_zero hptr,Or.inr ⟨array,hptr,List.mem_flatMap.mpr ⟨i,?_,?_⟩⟩⟩
    · rw [hi]
      exact List.mem_range.mpr (Nat.lt_succ_self i)
    · obtain ⟨body,hbody⟩ := V.memory.dupFtValue_guarded t
      rw [hbody,NativeMemory.mem_guarded]
      refine ⟨?_,Or.inl rfl⟩
      show V.memory.elemPtr array t i ≠ 0
      unfold NativeMemory.elemPtr
      omega
  have hholds := (h.within _ (Or.inl hread)).2
  have hend : V.memory.elemPtr array t i + V.memory.platform.pointerSize ≤
      V.memory.elemPtr array t (V.memory.arraySize array).toNat := hholds
  rw [hi,NativeMemory.elemPtr,NativeMemory.elemPtr,Nat.mul_succ] at hend
  omega

/-- The walks are right exactly where the slots of arrays are wide enough and no value is hidden behind an optional. -/
theorem walksRight_iff (V : NativeValue) : V.WalksRight ↔ V.WideSlots ∧ V.NoneHidden := by
  constructor
  · exact fun h => ⟨h.wideSlots,h.noneHidden⟩
  · rintro ⟨hwide,hnone⟩
    have hretained : retained V.dupWalk = V.memory.anyValues V.type V.address := V.memory.retained_eq V.type _ hnone
    refine ⟨.of_eq hretained,?_,V.counts_unchanged,?_⟩
    · rw [released_freeWalk]
      exact .of_eq hretained
    · rintro slot (hmem | hmem)
      · exact hwide.holds hmem
      · exact hwide.holds (V.read_mem_freeWalk.mp hmem)

/-- An `FtArray` at 32 with one element at 64. The pointer to it stands at 16. -/
def oneElement : NativeMemory where
  platform := .bits64
  byte address :=
    if address = 16 then 32 else if address = 32 ∨ address = 36 then 1 else if address = 40 then 64
    else if address = 64 then 7 else 0

theorem oneElement_pointee : oneElement.pointee 16 = some 32 := by decide

theorem oneElement_hasElements (t : FeatureType) (a array : ℕ)
    (h : oneElement.Reaches (.array (.primitive .int8)) 16 (.array t) a) (hptr : oneElement.pointee a = some array) :
    oneElement.arrayElement array ≠ 0 := by
  cases h with
  | refl =>
    rw [oneElement_pointee] at hptr
    obtain rfl := Option.some.inj hptr
    decide
  | element _ _ h => cases h

/-- An array of one `int8_t`. -/
def int8Array : NativeValue where
  memory := oneElement
  type := .array (.primitive .int8)
  address := 16
  hasElements t a array h hptr _ := oneElement_hasElements t a array h hptr

/-- Eight bytes are read at the only element. -/
theorem int8Array_not_walksRight : ¬ int8Array.WalksRight := by
  intro h
  have hmem : WalkStep.read ⟨64,64,65⟩ ∈ int8Array.dupWalk := by decide
  have hholds : 64 + 8 ≤ 65 := (h.within _ (Or.inl hmem)).2
  omega

end NativeValue

end FeatureRuntime
