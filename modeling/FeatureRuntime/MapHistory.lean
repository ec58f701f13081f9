import Mathlib

/-! An ordered map and the writes that filled it: what a key holds, and which writes its entries are. -/
namespace FeatureRuntime.MapHistory

variable {κ β : Type} {cmp : κ → κ → Ordering} [Std.TransCmp cmp] [Std.LawfulEqCmp cmp] [DecidableEq κ]

def fill (cmp : κ → κ → Ordering) (writes : List (κ × β)) : Std.TreeMap κ β cmp :=
  writes.foldl (fun m w => m.insert w.1 w.2) ∅

def valuesOf (writes : List (κ × β)) (k : κ) : List β := (writes.filter (fun w => w.1 = k)).map Prod.snd

def surviving : List (κ × β) → List (κ × β)
  | [] => []
  | w :: rest => if w.1 ∈ rest.map Prod.fst then surviving rest else w :: surviving rest

omit [Std.TransCmp cmp] [Std.LawfulEqCmp cmp] [DecidableEq κ] in
theorem fill_concat (writes : List (κ × β)) (w : κ × β) :
    fill cmp (writes ++ [w]) = (fill cmp writes).insert w.1 w.2 := by
  simp [fill]

theorem getElem?_insert_eq (m : Std.TreeMap κ β cmp) (k l : κ) (v : β) :
    (m.insert k v)[l]? = if k = l then some v else m[l]? := by
  rw [Std.TreeMap.getElem?_insert]
  simp only [Std.LawfulEqCmp.compare_eq_iff_eq]

@[simp] theorem valuesOf_concat_self (writes : List (κ × β)) (k : κ) (v : β) :
    valuesOf (writes ++ [(k,v)]) k = valuesOf writes k ++ [v] := by
  simp [valuesOf]

theorem valuesOf_concat_of_ne (writes : List (κ × β)) {k l : κ} (v : β) (h : k ≠ l) :
    valuesOf (writes ++ [(k,v)]) l = valuesOf writes l := by
  simp [valuesOf,h]

omit cmp [Std.TransCmp cmp] [Std.LawfulEqCmp cmp] in
theorem count_valuesOf [DecidableEq β] (writes : List (κ × β)) (k : κ) (v : β) :
    (valuesOf writes k).count v = writes.count (k,v) := by
  induction writes with
  | nil => rfl
  | cons w writes ih =>
    obtain ⟨l,u⟩ := w
    rw [valuesOf] at ih ⊢
    by_cases hk : l = k
    · subst hk
      rw [List.filter_cons_of_pos (by simp),List.map_cons,List.count_cons,List.count_cons,ih]
      simp
    · have hne : (l,u) ≠ (k,v) := fun h => hk (congrArg Prod.fst h)
      rw [List.filter_cons_of_neg (by simpa using hk),List.count_cons_of_ne hne,ih]

theorem getElem?_fill (writes : List (κ × β)) (k : κ) : (fill cmp writes)[k]? = (valuesOf writes k).getLast? := by
  induction writes using List.reverseRecOn with
  | nil => simp [fill,valuesOf]
  | append_singleton writes w ih =>
    obtain ⟨l,v⟩ := w
    rw [fill_concat,getElem?_insert_eq]
    by_cases h : l = k
    · subst h
      simp
    · rw [if_neg h,ih,valuesOf_concat_of_ne writes v h]

omit cmp [Std.TransCmp cmp] [Std.LawfulEqCmp cmp] in
theorem surviving_subset {writes : List (κ × β)} {w : κ × β} (h : w ∈ surviving writes) : w ∈ writes := by
  induction writes with
  | nil => exact h
  | cons v rest ih =>
    rw [surviving] at h
    split_ifs at h
    · exact List.mem_cons_of_mem _ (ih h)
    · rcases List.mem_cons.mp h with rfl | h
      · exact List.mem_cons_self
      · exact List.mem_cons_of_mem _ (ih h)

theorem surviving_distinct (writes : List (κ × β)) : (surviving writes).Pairwise (fun a b => a.1 ≠ b.1) := by
  induction writes with
  | nil => exact .nil
  | cons w rest ih =>
    rw [surviving]
    split_ifs with hw
    · exact ih
    · refine List.pairwise_cons.mpr ⟨fun v hv heq => hw ?_,ih⟩
      rw [heq]
      exact List.mem_map_of_mem (surviving_subset hv)

omit cmp [Std.TransCmp cmp] [Std.LawfulEqCmp cmp] in
theorem surviving_nodup (writes : List (κ × β)) : (surviving writes).Nodup :=
  (surviving_distinct writes).imp (fun hne h => hne (congrArg Prod.fst h))

theorem mem_surviving_iff (writes : List (κ × β)) (k : κ) (v : β) :
    (k,v) ∈ surviving writes ↔ (valuesOf writes k).getLast? = some v := by
  induction writes with
  | nil => simp [surviving,valuesOf]
  | cons w rest ih =>
    obtain ⟨l,u⟩ := w
    rw [surviving]
    by_cases hl : l ∈ rest.map Prod.fst
    · rw [if_pos hl,ih]
      by_cases hk : l = k
      · subst hk
        have hne : valuesOf rest l ≠ [] := by
          obtain ⟨w,hw,hwl⟩ := List.mem_map.mp hl
          exact List.ne_nil_of_mem (List.mem_map_of_mem (List.mem_filter.mpr ⟨hw,decide_eq_true hwl⟩))
        have hcons : valuesOf ((l,u) :: rest) l = u :: valuesOf rest l := by simp [valuesOf]
        rw [hcons,List.getLast?_cons_of_ne_nil hne]
      · have hskip : valuesOf ((l,u) :: rest) k = valuesOf rest k := by simp [valuesOf,hk]
        rw [hskip]
    · rw [if_neg hl,List.mem_cons,ih]
      by_cases hk : l = k
      · subst hk
        have hnil : valuesOf rest l = [] := by
          rw [valuesOf,List.map_eq_nil_iff,List.filter_eq_nil_iff]
          intro w hw hwl
          exact hl (List.mem_map.mpr ⟨w,hw,of_decide_eq_true hwl⟩)
        have hcons : valuesOf ((l,u) :: rest) l = [u] := by
          rw [valuesOf,List.filter_cons_of_pos (by simp),List.map_cons]
          rw [valuesOf] at hnil
          rw [hnil]
        rw [hcons,hnil]
        simp [eq_comm]
      · have hskip : valuesOf ((l,u) :: rest) k = valuesOf rest k := by simp [valuesOf,hk]
        have hne : (k,v) ≠ (l,u) := fun h => hk (congrArg Prod.fst h).symm
        rw [hskip,or_iff_right hne]

theorem toList_fill_perm (writes : List (κ × β)) : (fill cmp writes).toList.Perm (surviving writes) := by
  have hmap : (fill cmp writes).toList.Nodup := by
    refine (Std.TreeMap.distinct_keys_toList (t := fill cmp writes)).imp ?_
    rintro a b hne rfl
    exact hne Std.ReflCmp.compare_self
  refine (List.perm_ext_iff_of_nodup hmap (surviving_nodup writes)).mpr ?_
  rintro ⟨k,v⟩
  rw [Std.TreeMap.mem_toList_iff_getElem?_eq_some,getElem?_fill,mem_surviving_iff]

end FeatureRuntime.MapHistory
