import FeatureRuntime.Transition
import Mathlib.Data.List.Nodup
import Mathlib.Data.List.Perm.Basic

/-! The instance slots of a `FeaturePrototype`: where `addInstance` puts an instance, what the removal
by a finalizer frees, and what the walks over the slots find. -/
namespace FeatureRuntime

/-- A prototype with the instances created on it, numbered in the order of their creation. -/
structure FeaturePrototype where
  instances : List (Option ℕ) := []
  /-- `instance_id_` of every instance. Its 29 bits do not overflow: the slots, a pointer each, would fill the memory before
  that. -/
  instanceId : ℕ → ℤ := fun _ => -1
  created : ℕ := 0
  /-- The instances that are created and neither destroyed nor cleared. -/
  live : List ℕ := []
  /-- What each memory dump visited, and what was live. -/
  dumps : List (List ℕ × List ℕ) := []
  /-- What each `clearAllInstances` released, and what was live. -/
  cleared : List (List ℕ × List ℕ) := []
  /-- A method was called on the null pointer of an empty slot. -/
  nullCall : Bool := false

inductive SlotOp
  | create
  /-- The finalizer of the JS object of an instance. -/
  | destroy (i : ℕ)
  | dumpMemory
  | clear
  deriving DecidableEq

namespace FeaturePrototype

variable (s : FeaturePrototype)

def addInstance (i : ℕ) : ℕ × List (Option ℕ) :=
  match s.instances.findIdx? Option.isNone with
  | some pos => (pos,s.instances.set pos (some i))
  | none => (s.instances.length,s.instances ++ [some i])

/-- `FeatureInstance::initialize` of a new instance. -/
def create : FeaturePrototype :=
  let i := s.created
  let (iid,instances) := s.addInstance i
  { s with
    instances := instances
    instanceId := Function.update s.instanceId i iid
    created := i + 1
    live := s.live ++ [i] }

/-- `onDetached` is called on what the slot holds, and the slot is emptied. -/
def removeInstance (pos : ℕ) : FeaturePrototype :=
  match s.instances[pos]? with
  | none => s
  | some none => { s with nullCall := true }
  | some (some _) => { s with instances := s.instances.set pos none }

/-- A finalizer runs once. A negative id is no position, as a `size_t`. -/
def destroy (i : ℕ) : FeaturePrototype :=
  if i ∈ s.live then
    let s' := if 0 ≤ s.instanceId i then s.removeInstance (s.instanceId i).toNat else s
    { s' with live := s.live.erase i }
  else s

def hasInstanceAlive : Bool := s.instances.any Option.isSome

def onDumpMemory : FeaturePrototype :=
  match s.instances.mapM id with
  | none => { s with nullCall := true }
  | some visited => { s with dumps := s.dumps ++ [(visited,s.live)] }

def clearAllInstances : FeaturePrototype :=
  { s with
    instances := []
    live := []
    cleared := s.cleared ++ [(s.instances.filterMap id,s.live)] }

def step : SlotOp → FeaturePrototype
  | .create => s.create
  | .destroy i => s.destroy i
  | .dumpMemory => s.onDumpMemory
  | .clear => s.clearAllInstances

/-- The live instances have the slots of their ids, alone, nothing else is in a slot, and the walks
find exactly them. -/
structure SlotsRight : Prop where
  indexed : ∀ i ∈ s.live, ∃ k : ℕ, s.instanceId i = k ∧ s.instances[k]? = some (some i)
  distinct : ∀ i ∈ s.live, ∀ j ∈ s.live, s.instanceId i = s.instanceId j → i = j
  only : ∀ (k i : ℕ), s.instances[k]? = some (some i) → i ∈ s.live ∧ s.instanceId i = k
  alive : s.hasInstanceAlive = true ↔ s.live ≠ []
  dumps : ∀ walk ∈ s.dumps, walk.1.Perm walk.2
  cleared : ∀ walk ∈ s.cleared, walk.1.Perm walk.2
  nullCall : s.nullCall = false

/-- What a step may do to the slots: a new instance comes into a slot that holds none, and only the
slot of the instance that goes is emptied. -/
def SlotsKept : SlotOp → Prop
  | .create => ∀ k i : ℕ, s.instances[k]? = some (some i) →
      (s.step .create).instances[k]? = some (some i) ∧ (s.step .create).instanceId i = s.instanceId i
  | .destroy i => ∀ k j : ℕ, j ≠ i → s.instances[k]? = some (some j) →
      (s.step (.destroy i)).instances[k]? = some (some j)
  | .dumpMemory => (s.step .dumpMemory).instances = s.instances
  | .clear => True

/-- A step from a state that is right into one that is, with the slots kept. -/
structure StepRight (s : FeaturePrototype) (op : SlotOp) : Prop where
  before : s.SlotsRight
  kept : s.SlotsKept op
  after : (s.step op).SlotsRight

def DumpedFull (s : FeaturePrototype) : SlotOp → Prop
  | .dumpMemory => none ∉ s.instances
  | _ => True

variable {s}

structure SlotInvariant (s : FeaturePrototype) : Prop where
  right : s.SlotsRight
  nodup : s.live.Nodup
  bounded : ∀ i ∈ s.live, i < s.created

namespace SlotInvariant

theorem init : SlotInvariant {} where
  right :=
    { indexed := fun _ h => (nomatch h)
      distinct := fun _ h => (nomatch h)
      only := fun _ _ h => by simp at h
      alive := by decide
      dumps := fun _ h => (nomatch h)
      cleared := fun _ h => (nomatch h)
      nullCall := rfl }
  nodup := List.nodup_nil
  bounded _ h := (nomatch h)

theorem occupants_perm (h : s.SlotInvariant) : (s.instances.filterMap id).Perm s.live := by
  have hnodup : (s.instances.filterMap id).Nodup := by
    apply List.pairwise_filterMap.mpr
    rw [List.pairwise_iff_getElem]
    intro k l hk hl hlt i hi j hj heq
    subst heq
    have hfirst := h.right.only k i (by rw [List.getElem?_eq_getElem hk]; exact congrArg some hi)
    have hsecond := h.right.only l i (by rw [List.getElem?_eq_getElem hl]; exact congrArg some hj)
    have := hfirst.2.symm.trans hsecond.2
    omega
  apply (List.perm_ext_iff_of_nodup hnodup h.nodup).mpr
  intro i
  rw [List.mem_filterMap]
  constructor
  · rintro ⟨slot,hslot,rfl⟩
    obtain ⟨k,hk⟩ := List.getElem?_of_mem hslot
    exact (h.right.only k i hk).1
  · intro hi
    obtain ⟨k,-,hk⟩ := h.right.indexed i hi
    exact ⟨some i,List.mem_of_getElem? hk,rfl⟩

/-- An invariant is shown by what the slots hold; the alive check then follows. -/
theorem mk_of_slots {s : FeaturePrototype} (hindexed : ∀ i ∈ s.live, ∃ k : ℕ,
      s.instanceId i = k ∧ s.instances[k]? = some (some i))
    (honly : ∀ (k i : ℕ), s.instances[k]? = some (some i) → i ∈ s.live ∧ s.instanceId i = k)
    (hdumps : ∀ walk ∈ s.dumps, walk.1.Perm walk.2)
    (hcleared : ∀ walk ∈ s.cleared, walk.1.Perm walk.2) (hnull : s.nullCall = false)
    (hnodup : s.live.Nodup) (hbounded : ∀ i ∈ s.live, i < s.created) : s.SlotInvariant where
  right :=
    { indexed := hindexed
      distinct := by
        intro i hi j hj heq
        obtain ⟨k,hk,hslot⟩ := hindexed i hi
        obtain ⟨l,hl,hslot'⟩ := hindexed j hj
        have hkl : k = l := by omega
        rw [hkl,hslot'] at hslot
        exact (Option.some.inj (Option.some.inj hslot)).symm
      only := honly
      alive := by
        rw [hasInstanceAlive,List.any_eq_true]
        constructor
        · rintro ⟨slot,hslot,hsome⟩
          obtain ⟨i,rfl⟩ := Option.isSome_iff_exists.mp hsome
          obtain ⟨k,hk⟩ := List.getElem?_of_mem hslot
          exact List.ne_nil_of_mem (honly k i hk).1
        · intro hne
          obtain ⟨i,hi⟩ := List.exists_mem_of_ne_nil _ hne
          obtain ⟨k,-,hk⟩ := hindexed i hi
          exact ⟨some i,List.mem_of_getElem? hk,rfl⟩
      dumps := hdumps
      cleared := hcleared
      nullCall := hnull }
  nodup := hnodup
  bounded := hbounded

end SlotInvariant

/-- Where a new instance comes: a position without an instance, the others unchanged. -/
theorem addInstance_spec (s : FeaturePrototype) (i : ℕ) : (∀ j, s.instances[(s.addInstance i).1]? ≠ some (some j)) ∧
      (s.addInstance i).2[(s.addInstance i).1]? = some (some i) ∧
      ∀ k, k ≠ (s.addInstance i).1 → (s.addInstance i).2[k]? = s.instances[k]? := by
  unfold addInstance
  cases hfind : s.instances.findIdx? Option.isNone with
  | some pos =>
    obtain ⟨hlt,hempty,-⟩ := List.findIdx?_eq_some_iff_getElem.mp hfind
    refine ⟨fun j hj => ?_,?_,fun k hk => ?_⟩
    · rw [List.getElem?_eq_getElem hlt,Option.some.injEq] at hj
      rw [hj] at hempty
      cases hempty
    · exact List.getElem?_set_self hlt
    · exact List.getElem?_set_ne (Ne.symm hk)
  | none =>
    refine ⟨fun j hj => ?_,?_,fun k hk => ?_⟩
    · rw [List.getElem?_eq_none le_rfl] at hj
      cases hj
    · exact List.getElem?_concat_length
    · dsimp only at hk ⊢
      by_cases hlt : k < s.instances.length
      · exact List.getElem?_append_left hlt
      · rw [List.getElem?_eq_none,List.getElem?_eq_none]
        · omega
        · rw [List.length_append,List.length_singleton]
          omega

theorem create_kept (h : s.SlotInvariant) : s.SlotsKept .create := by
  intro k i hk
  obtain ⟨hfree,-,hrest⟩ := s.addInstance_spec s.created
  have hne : k ≠ (s.addInstance s.created).1 := by
    rintro rfl
    exact hfree i hk
  refine ⟨(hrest k hne).trans hk,?_⟩
  have hi := h.bounded i (h.right.only k i hk).1
  exact Function.update_of_ne (by omega) _ _

theorem SlotInvariant.create (h : s.SlotInvariant) : s.create.SlotInvariant := by
  obtain ⟨hfree,hnew,hrest⟩ := s.addInstance_spec s.created
  have hold : ∀ i ∈ s.live, s.create.instanceId i = s.instanceId i := fun i hi =>
    Function.update_of_ne (Nat.ne_of_lt (h.bounded i hi)) _ _
  have hself : s.create.instanceId s.created = (s.addInstance s.created).1 :=
    Function.update_self _ _ _
  apply SlotInvariant.mk_of_slots
  · intro i hi
    rcases List.mem_append.mp hi with hi | hi
    · obtain ⟨k,hk,hslot⟩ := h.right.indexed i hi
      have hkept := create_kept h k i hslot
      exact ⟨k,hkept.2.trans hk,hkept.1⟩
    · obtain rfl := List.mem_singleton.mp hi
      exact ⟨_,hself,hnew⟩
  · intro k i hk
    by_cases hpos : k = (s.addInstance s.created).1
    · subst hpos
      obtain rfl := Option.some.inj (Option.some.inj (hnew.symm.trans hk))
      exact ⟨List.mem_append_right _ (List.mem_singleton_self _),hself⟩
    · obtain ⟨hi,hid⟩ := h.right.only k i ((hrest k hpos).symm.trans hk)
      exact ⟨List.mem_append_left _ hi,(hold i hi).trans hid⟩
  · exact h.right.dumps
  · exact h.right.cleared
  · exact h.right.nullCall
  · apply List.Nodup.append h.nodup (List.nodup_singleton _)
    rw [List.disjoint_singleton]
    intro hi
    exact absurd (h.bounded _ hi) (Nat.lt_irrefl _)
  · intro i hi
    change i < s.created + 1
    rcases List.mem_append.mp hi with hi | hi
    · exact Nat.lt_succ_of_lt (h.bounded i hi)
    · obtain rfl := List.mem_singleton.mp hi
      exact Nat.lt_succ_self _

theorem destroy_eq (h : s.SlotInvariant) {i : ℕ} (hi : i ∈ s.live) :
    ∃ k : ℕ, s.instanceId i = k ∧ s.instances[k]? = some (some i) ∧
      s.destroy i = { s with instances := s.instances.set k none, live := s.live.erase i } := by
  obtain ⟨k,hk,hslot⟩ := h.right.indexed i hi
  refine ⟨k,hk,hslot,?_⟩
  simp [destroy,hi,hk,removeInstance,hslot]

theorem destroy_kept (h : s.SlotInvariant) (i : ℕ) : s.SlotsKept (.destroy i) := by
  intro k j hji hk
  by_cases hi : i ∈ s.live
  · obtain ⟨l,-,hslot,heq⟩ := destroy_eq h hi
    have hne : l ≠ k := by
      rintro rfl
      exact hji (Option.some.inj (Option.some.inj (hk.symm.trans hslot)))
    simp only [step,heq]
    rw [List.getElem?_set_ne hne,hk]
  · rw [step,destroy,if_neg hi]
    exact hk

theorem SlotInvariant.destroy (h : s.SlotInvariant) (i : ℕ) : (s.destroy i).SlotInvariant := by
  by_cases hi : i ∈ s.live
  · obtain ⟨l,hid,hslot,heq⟩ := destroy_eq h hi
    rw [heq]
    apply SlotInvariant.mk_of_slots
    · intro j hj
      obtain ⟨hne,hjlive⟩ := h.nodup.mem_erase_iff.mp hj
      obtain ⟨k,hk,hkslot⟩ := h.right.indexed j hjlive
      have hkl : l ≠ k := by
        rintro rfl
        exact hne (Option.some.inj (Option.some.inj (hkslot.symm.trans hslot)))
      exact ⟨k,hk,(List.getElem?_set_ne hkl).trans hkslot⟩
    · intro k j hk
      dsimp only at hk ⊢
      by_cases hkl : l = k
      · subst hkl
        rw [List.getElem?_set_self (List.getElem?_eq_some_iff.mp hslot).1] at hk
        cases hk
      · rw [List.getElem?_set_ne hkl] at hk
        obtain ⟨hj,hjid⟩ := h.right.only k j hk
        refine ⟨(h.nodup.mem_erase_iff).mpr ⟨?_,hj⟩,hjid⟩
        rintro rfl
        omega
    · exact h.right.dumps
    · exact h.right.cleared
    · exact h.right.nullCall
    · exact h.nodup.erase _
    · exact fun j hj => h.bounded j (List.mem_of_mem_erase hj)
  · rwa [FeaturePrototype.destroy,if_neg hi]

theorem walk_full {slots : List (Option ℕ)} (h : none ∉ slots) : slots.mapM id = some (slots.filterMap id) := by
  induction slots with
  | nil => rfl
  | cons slot slots ih =>
    rw [List.mem_cons,not_or] at h
    cases slot with
    | none => exact absurd rfl h.1
    | some i =>
      rw [List.mapM_cons,ih h.2]
      rfl

theorem walk_empty {slots : List (Option ℕ)} (h : none ∈ slots) : slots.mapM id = none := by
  induction slots with
  | nil => exact absurd h List.not_mem_nil
  | cons slot slots ih =>
    rw [List.mapM_cons]
    cases slot with
    | none => rfl
    | some i =>
      have hslots : none ∈ slots := by simpa using h
      rw [ih hslots]
      rfl

theorem SlotInvariant.onDumpMemory (h : s.SlotInvariant) (hfull : none ∉ s.instances) :
    s.onDumpMemory.SlotInvariant := by
  simp only [FeaturePrototype.onDumpMemory,walk_full hfull]
  apply SlotInvariant.mk_of_slots
  · exact h.right.indexed
  · exact h.right.only
  · intro walk hmem
    rcases List.mem_append.mp hmem with hmem | hmem
    · exact h.right.dumps walk hmem
    · obtain rfl := List.mem_singleton.mp hmem
      exact h.occupants_perm
  · exact h.right.cleared
  · exact h.right.nullCall
  · exact h.nodup
  · exact h.bounded

theorem SlotInvariant.clearAllInstances (h : s.SlotInvariant) :
    s.clearAllInstances.SlotInvariant := by
  apply SlotInvariant.mk_of_slots
  · exact fun _ hi => (nomatch hi)
  · intro k i hk
    simp [FeaturePrototype.clearAllInstances] at hk
  · exact h.right.dumps
  · intro walk hmem
    rcases List.mem_append.mp hmem with hmem | hmem
    · exact h.right.cleared walk hmem
    · obtain rfl := List.mem_singleton.mp hmem
      exact h.occupants_perm
  · exact h.right.nullCall
  · exact List.nodup_nil
  · exact fun _ hi => (nomatch hi)

theorem SlotInvariant.step (h : s.SlotInvariant) {op : SlotOp} (hop : s.DumpedFull op) :
    (s.step op).SlotInvariant := by
  cases op with
  | create => exact h.create
  | destroy i => exact h.destroy i
  | dumpMemory => exact h.onDumpMemory hop
  | clear => exact h.clearAllInstances

theorem SlotInvariant.kept (h : s.SlotInvariant) (op : SlotOp) : s.SlotsKept op := by
  cases op with
  | create => exact create_kept h
  | destroy i => exact destroy_kept h i
  | dumpMemory =>
    change s.onDumpMemory.instances = s.instances
    unfold FeaturePrototype.onDumpMemory
    split <;> rfl
  | clear => trivial

theorem onDumpMemory_empty (hempty : none ∈ s.instances) : s.onDumpMemory.nullCall = true := by
  simp only [onDumpMemory,walk_empty hempty]

/-- Whatever the order of creations, destructions and dumps, every step is right exactly when no dump
finds an empty slot. -/
theorem slots_right_iff (ops : List SlotOp) : Transition.Guarded FeaturePrototype.step StepRight {} ops ↔
      Transition.Guarded FeaturePrototype.step DumpedFull {} ops := by
  suffices h : ∀ s : FeaturePrototype, s.SlotInvariant → (Transition.Guarded FeaturePrototype.step StepRight s ops ↔
        Transition.Guarded FeaturePrototype.step DumpedFull s ops) from h {} SlotInvariant.init
  induction ops with
  | nil => exact fun _ _ => Iff.rfl
  | cons op ops ih =>
    intro s hs
    have hop : s.StepRight op ↔ s.DumpedFull op := by
      constructor
      · intro h
        cases op with
        | dumpMemory =>
          intro hempty
          have hnull := h.after.nullCall
          rw [step,onDumpMemory_empty hempty] at hnull
          cases hnull
        | _ => trivial
      · exact fun h => ⟨hs.right,hs.kept op,(hs.step h).right⟩
    constructor
    · rintro ⟨hright,hrest⟩
      exact ⟨hop.mp hright,(ih _ (hs.step (hop.mp hright))).mp hrest⟩
    · rintro ⟨hfull,hrest⟩
      exact ⟨hop.mpr hfull,(ih _ (hs.step hfull)).mpr hrest⟩

/-- Of two instances the first is destroyed, and then the memory is dumped. -/
theorem dump_not_right : ¬ Transition.Guarded FeaturePrototype.step StepRight {}
      [.create,.create,.destroy 0,.dumpMemory] := by
  rintro ⟨-,-,-,h,-⟩
  exact Bool.noConfusion (h.after.nullCall.symm.trans rfl : false = true)

end FeaturePrototype
end FeatureRuntime
