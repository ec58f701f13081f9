import Mathlib

/-! Maps from integer ids, iterated in ascending order of the ids. -/
namespace FeatureRuntime

abbrev IdMap (β : Type*) := Std.TreeMap ℤ β

namespace IdMap

variable {β : Type*} (m : IdMap β)

theorem get_insert (k l : ℤ) (v : β) : (m.insert k v)[l]? = if k = l then some v else m[l]? := by
  rw [Std.TreeMap.getElem?_insert]
  simp only [compare_eq_iff_eq]

theorem get_insert_ne {k l : ℤ} (h : l ≠ k) (v : β) : (m.insert k v)[l]? = m[l]? := by
  rw [get_insert,if_neg (Ne.symm h)]

theorem get_erase (k l : ℤ) : (m.erase k)[l]? = if k = l then none else m[l]? := by
  rw [Std.TreeMap.getElem?_erase]
  simp only [compare_eq_iff_eq]

theorem get_erase_ne {k l : ℤ} (h : l ≠ k) : (m.erase k)[l]? = m[l]? := by
  rw [get_erase,if_neg (Ne.symm h)]

theorem contains_iff (k : ℤ) : m.contains k = true ↔ ∃ v, m[k]? = some v := by
  rw [Std.TreeMap.contains_eq_isSome_getElem?,Option.isSome_iff_exists]

theorem contains_eq_false_iff (k : ℤ) : m.contains k = false ↔ m[k]? = none := by
  rw [Std.TreeMap.contains_eq_isSome_getElem?,Option.isSome_eq_false_iff,Option.isNone_iff_eq_none]

end IdMap
end FeatureRuntime
