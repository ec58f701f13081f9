import FeatureRuntime.Bisection
import FeatureRuntime.CText
import FeatureRuntime.MachineInt
import Mathlib.Data.List.Perm.Subperm
import Mathlib.Data.List.Range

/-! `binarySearchField` on machine integers, with the comparison of names by `strcmp`. -/
namespace FeatureRuntime

/-- The part of a `ProtobufCMessageDescriptor` that a lookup reads: the names of its `n_fields` fields, and their
positions in the order of the names. The field numbers of a message are distinct and have at most 29 bits. -/
structure FieldTable where
  names : List CText
  sortedByName : List ℕ
  ids : List ℕ
  ids_length : ids.length = names.length
  ids_nodup : ids.Nodup
  ids_range : ∀ id ∈ ids, 1 ≤ id ∧ id ≤ 536870911
  table : sortedByName.Perm (List.range names.length)
  ascending : sortedByName.Pairwise (fun i j => ∀ s ∈ names[i]?, ∀ t ∈ names[j]?, strcmp s.bytes t.bytes ≤ 0)

namespace FieldTable

variable (D : FieldTable)

def fieldAt (i : ℤ) : Option CText := if 0 ≤ i then D.sortedByName[i.toNat]?.bind (D.names[·]?) else none

def probe (name : CText) (i : ℤ) : Option Ordering :=
  (D.fieldAt i).map (fun field => compare (strcmp field.bytes name.bytes) 0)

/-- `binarySearchField`: the position of the field, if it is found. The outer option is none where an index is out of
range or a sum overflows. -/
def binarySearchField (name : CText) : Option (Option ℕ) :=
  if D.names.length = 0 then some none
  else
    (bisect intMax (D.probe name) 0 (toInt (D.names.length - 1))).map (fun found =>
      found.bind (fun mid => D.sortedByName[mid.toNat]?))

def LooksUp : Prop :=
  ∀ name, ∃ found, D.binarySearchField name = some found ∧
    match found with
    | some i => ∃ field, D.names[i]? = some field ∧ field.bytes = name.bytes
    | none => ∀ field ∈ D.names, field.bytes ≠ name.bytes

theorem nFields_lt : D.names.length < 536870912 := by
  have hsub : D.ids ⊆ List.range' 1 536870911 := fun id hid => by
    have hrange := D.ids_range id hid
    rw [List.mem_range'_1]
    omega
  have hle := (List.subperm_of_subset D.ids_nodup hsub).length_le
  rw [List.length_range',D.ids_length] at hle
  omega

theorem sortedByName_length : D.sortedByName.length = D.names.length := by
  rw [D.table.length_eq,List.length_range]

theorem fieldAt_eq {i : ℤ} (h0 : 0 ≤ i) (hi : i < D.names.length) :
    ∃ index field, D.sortedByName[i.toNat]? = some index ∧ D.names[index]? = some field ∧
      D.fieldAt i = some field := by
  have hlt : i.toNat < D.sortedByName.length := by
    rw [D.sortedByName_length]
    omega
  have hindex : D.sortedByName[i.toNat] < D.names.length :=
    List.mem_range.mp (D.table.mem_iff.mp (List.getElem_mem hlt))
  refine ⟨_,_,List.getElem?_eq_getElem hlt,List.getElem?_eq_getElem hindex,?_⟩
  rw [fieldAt,if_pos h0,List.getElem?_eq_getElem hlt,Option.bind_some,List.getElem?_eq_getElem hindex]

theorem exists_position {field : CText} (hmem : field ∈ D.names) :
    ∃ i : ℤ, 0 ≤ i ∧ i < D.names.length ∧ D.fieldAt i = some field := by
  obtain ⟨index,hindex,rfl⟩ := List.getElem_of_mem hmem
  have hmem' : index ∈ D.sortedByName := D.table.mem_iff.mpr (List.mem_range.mpr hindex)
  obtain ⟨k,hk,hget⟩ := List.getElem_of_mem hmem'
  refine ⟨k,Int.natCast_nonneg k,by have := D.sortedByName_length; omega,?_⟩
  rw [fieldAt,if_pos (Int.natCast_nonneg k),Int.toNat_natCast,List.getElem?_eq_getElem hk,Option.bind_some,hget,
    List.getElem?_eq_getElem hindex]

theorem le {i j : ℤ} (h0 : 0 ≤ i) (hij : i < j) {s t : CText} (hs : D.fieldAt i = some s)
    (ht : D.fieldAt j = some t) : s.bytes ≤ t.bytes := by
  rw [fieldAt,if_pos h0,Option.bind_eq_some_iff] at hs
  rw [fieldAt,if_pos (by omega),Option.bind_eq_some_iff] at ht
  obtain ⟨m,hm,hs⟩ := hs
  obtain ⟨n,hn,ht⟩ := ht
  obtain ⟨hmlt,rfl⟩ := List.getElem?_eq_some_iff.mp hm
  obtain ⟨hnlt,rfl⟩ := List.getElem?_eq_some_iff.mp hn
  have hpair := List.pairwise_iff_getElem.mp D.ascending i.toNat j.toNat hmlt hnlt (by omega)
  exact (strcmp_le_iff s.noNul t.noNul).mp (hpair s hs t ht)

variable {D}

variable {name field : CText}

theorem probe_lt_iff {i : ℤ} (h : D.fieldAt i = some field) :
    D.probe name i = some .lt ↔ field.bytes < name.bytes := by
  rw [probe,h,Option.map_some,Option.some_inj,Int.compare_eq_lt,strcmp_neg_iff field.noNul name.noNul]

theorem probe_gt_iff {i : ℤ} (h : D.fieldAt i = some field) :
    D.probe name i = some .gt ↔ name.bytes < field.bytes := by
  rw [probe,h,Option.map_some,Option.some_inj,Int.compare_eq_gt,← strcmp_neg_iff name.noNul field.noNul,
    strcmp_swap field.bytes name.bytes]
  omega

theorem probe_eq_iff {i : ℤ} (h : D.fieldAt i = some field) :
    D.probe name i = some .eq ↔ field.bytes = name.bytes := by
  rw [probe,h,Option.map_some,Option.some_inj,Int.compare_eq_eq,strcmp_eq_zero field.noNul name.noNul]

theorem sided (name : CText) : Sided (D.probe name) 0 (D.names.length - 1) where
  defined i hi hi' := by
    obtain ⟨_,field,_,_,hfield⟩ := D.fieldAt_eq hi (by omega)
    rw [probe,hfield]
    rfl
  below i j hi hij hj hlt := by
    obtain ⟨_,s,_,_,hs⟩ := D.fieldAt_eq hi (by omega)
    obtain ⟨_,t,_,_,ht⟩ := D.fieldAt_eq (by omega) (by omega : j < D.names.length)
    rw [probe_lt_iff ht] at hlt
    exact (probe_lt_iff hs).mpr (List.lt_of_le_of_lt (D.le hi hij hs ht) hlt)
  above i j hi hij hj hgt := by
    obtain ⟨_,s,_,_,hs⟩ := D.fieldAt_eq hi (by omega)
    obtain ⟨_,t,_,_,ht⟩ := D.fieldAt_eq (by omega) (by omega : j < D.names.length)
    rw [probe_gt_iff hs] at hgt
    have hle : s.bytes ≤ t.bytes := D.le hi hij hs ht
    exact (probe_gt_iff ht).mpr (List.not_le.mp (fun hback => List.not_lt.mpr (List.le_trans hle hback) hgt))

/-- A lookup ends with all indices in range, and finds the field of a name if there is one: the double of a position
is an `int`, as there are fewer fields than field numbers. -/
theorem looksUp (D : FieldTable) : D.LooksUp := by
  intro name
  have hlt := D.nFields_lt
  by_cases hne : D.names.length = 0
  · refine ⟨none,by rw [binarySearchField,if_pos hne],?_⟩
    intro field hmem
    rw [List.length_eq_zero_iff.mp hne] at hmem
    cases hmem
  · have hsided := D.sided name
    have hsome : (bisect intMax (D.probe name) 0 (D.names.length - 1)).isSome = true :=
      bisect_isSome hsided.defined (by unfold intMax; omega)
    obtain ⟨found,hfound⟩ := Option.isSome_iff_exists.mp hsome
    have hhigh : toInt (D.names.length - 1) = D.names.length - 1 := toInt_of_le (by omega) (by unfold intMax; omega)
    rw [binarySearchField,if_neg hne,hhigh,hfound]
    cases found with
    | none =>
      refine ⟨none,rfl,?_⟩
      intro field hmem heq
      obtain ⟨i,h0,hi,hfield⟩ := D.exists_position hmem
      exact bisect_complete hsided hfound h0 (by omega) ((probe_eq_iff hfield).mpr heq)
    | some mid =>
      obtain ⟨h0,hmid,hprobe⟩ := bisect_sound hfound
      obtain ⟨index,field,hindex,hname,hfield⟩ := D.fieldAt_eq h0 (by omega)
      exact ⟨some index,by rw [← hindex]; rfl,field,hname,(probe_eq_iff hfield).mp hprobe⟩

end FieldTable

end FeatureRuntime
