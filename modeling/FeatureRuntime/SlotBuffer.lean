import Mathlib.Data.List.Basic

/-! Buffers of slots of one byte width, accessed by `memcpy` and `memmove` with byte offsets.
An access outside the buffer has no result. -/
namespace FeatureRuntime.SlotBuffer

variable {α β : Type*}

/-- The slots from `i` on replaced by `xs`. -/
def overwrite (buf : List α) (i : ℕ) (xs : List α) : List α :=
  buf.take i ++ xs ++ buf.drop (i + xs.length)

theorem length_overwrite {buf : List α} {i : ℕ} {xs : List α} (h : i + xs.length ≤ buf.length) :
    (overwrite buf i xs).length = buf.length := by
  simp only [overwrite,List.length_append,List.length_take,List.length_drop]
  omega

theorem getElem?_overwrite {buf : List α} {i : ℕ} {xs : List α} (h : i + xs.length ≤ buf.length)
    (j : ℕ) : (overwrite buf i xs)[j]? =
      if j < i then buf[j]? else if j < i + xs.length then xs[j - i]? else buf[j]? := by
  have htake : (buf.take i).length = i := List.length_take_of_le (by omega)
  unfold overwrite
  split_ifs with h1 h2
  · rw [List.append_assoc,List.getElem?_append_left (by omega),List.getElem?_take_of_lt h1]
  · rw [List.append_assoc,List.getElem?_append_right (by omega),
      List.getElem?_append_left (by omega),htake]
  · rw [List.getElem?_append_right (by simp only [List.length_append]; omega),
      List.getElem?_drop,List.length_append,htake]
    congr 1
    omega

/-- `memcpy(buf + dst, data, n)` in a buffer of slots of `width` bytes. -/
def memcpy (width : ℕ) (buf : List α) (dst : ℕ) (data : List α) (n : ℕ) : Option (List α) :=
  if n = 0 then some buf
  else if dst + n ≤ buf.length * width ∧ n ≤ data.length * width then
    some (overwrite buf (dst / width) (data.take (n / width)))
  else none

/-- `memmove(buf + dst, buf + src, n)`. -/
def memmove (width : ℕ) (buf : List α) (dst src n : ℕ) : Option (List α) :=
  if n = 0 then some buf
  else if dst + n ≤ buf.length * width ∧ src + n ≤ buf.length * width then
    some (overwrite buf (dst / width) ((buf.drop (src / width)).take (n / width)))
  else none

theorem overwrite_nil (buf : List α) (i : ℕ) : overwrite buf i [] = buf := by
  simp [overwrite]

theorem memcpy_slots {width : ℕ} (hw : 0 < width) {buf : List α} {i k : ℕ} {data : List α}
    (hk : k ≤ data.length) (h : i + k ≤ buf.length) :
    memcpy width buf (i * width) data (k * width) = some (overwrite buf i (data.take k)) := by
  unfold memcpy
  split_ifs with hzero hin
  · have hnil : k = 0 := by
      rcases Nat.mul_eq_zero.mp hzero with hk | hwidth <;> omega
    rw [hnil,List.take_zero,overwrite_nil]
  · rw [Nat.mul_div_cancel _ hw,Nat.mul_div_cancel _ hw]
  · exfalso
    apply hin
    rw [← Nat.add_mul]
    exact ⟨Nat.mul_le_mul_right _ h,Nat.mul_le_mul_right _ hk⟩

theorem memmove_slots {width : ℕ} (hw : 0 < width) {buf : List α} {i j k : ℕ}
    (hi : i + k ≤ buf.length) (hj : j + k ≤ buf.length) :
    memmove width buf (i * width) (j * width) (k * width) = some (overwrite buf i ((buf.drop j).take k)) := by
  unfold memmove
  split_ifs with hzero hin
  · have hk : k = 0 := by
      rcases Nat.mul_eq_zero.mp hzero with hk | hwidth <;> omega
    rw [hk,List.take_zero,overwrite_nil]
  · rw [Nat.mul_div_cancel _ hw,Nat.mul_div_cancel _ hw,Nat.mul_div_cancel _ hw]
  · exfalso
    apply hin
    rw [← Nat.add_mul,← Nat.add_mul]
    exact ⟨Nat.mul_le_mul_right _ hi,Nat.mul_le_mul_right _ hj⟩

/-- A reallocated buffer of `n` slots; those beyond the old ones are indeterminate. -/
def fit (buf : List (Option β)) (n : ℕ) : List (Option β) :=
  buf.take n ++ List.replicate (n - buf.length) none

@[simp] theorem length_fit (buf : List (Option β)) (n : ℕ) : (fit buf n).length = n := by
  simp only [fit,List.length_append,List.length_take,List.length_replicate]
  omega

variable {buf : List (Option β)}

theorem getElem?_fit {n i : ℕ} (hi : i < buf.length) (hn : i < n) : (fit buf n)[i]? = buf[i]? := by
  unfold fit
  rw [List.getElem?_append_left (by simp only [List.length_take]; omega),
    List.getElem?_take_of_lt hn]

/-- The first slots of the buffer hold the list; `none` is an indeterminate slot. -/
def Holds (buf : List (Option β)) (xs : List β) : Prop := buf.take xs.length = xs.map some

variable {xs : List β}

theorem holds_iff : Holds buf xs ↔ ∀ i < xs.length, buf[i]? = xs[i]?.map some := by
  unfold Holds
  constructor
  · intro h i hi
    rw [← List.getElem?_take_of_lt hi,h,List.getElem?_map]
  · intro h
    apply List.ext_getElem?
    intro i
    rw [List.getElem?_map]
    by_cases hi : i < xs.length
    · rw [List.getElem?_take_of_lt hi,h i hi]
    · rw [List.getElem?_eq_none (by simp only [List.length_take]; omega),
        List.getElem?_eq_none (by omega),Option.map_none]

theorem Holds.length_le (h : Holds buf xs) : xs.length ≤ buf.length := by
  have hlen := congrArg List.length h
  simp only [List.length_take,List.length_map] at hlen
  omega

@[simp] theorem holds_nil (buf : List (Option β)) : Holds buf [] := rfl

theorem Holds.append (h : Holds buf xs) {ys : List β} (hfit : xs.length + ys.length ≤ buf.length) :
    Holds (overwrite buf xs.length (ys.map some)) (xs ++ ys) := by
  rw [holds_iff] at h ⊢
  intro i hi
  rw [List.length_append] at hi
  rw [getElem?_overwrite (by simpa using hfit),List.length_map]
  split_ifs with h1
  · rw [h i h1,List.getElem?_append_left h1]
  · rw [List.getElem?_append_right (by omega),List.getElem?_map]

theorem Holds.replace {front mid back new : List β} (h : Holds buf (front ++ mid ++ back))
    (hnew : new.length = mid.length) : Holds (overwrite buf front.length (new.map some)) (front ++ new ++ back) := by
  have hlen := h.length_le
  simp only [List.length_append] at hlen
  rw [holds_iff] at h ⊢
  intro i hi
  simp only [List.length_append] at hi
  have hi' : i < (front ++ mid ++ back).length := by
    simp only [List.length_append]
    omega
  rw [getElem?_overwrite (by rw [List.length_map]; omega),List.length_map]
  split_ifs with h1 h2
  · rw [h i hi',List.append_assoc,List.append_assoc,List.getElem?_append_left h1,List.getElem?_append_left h1]
  · rw [List.append_assoc,List.getElem?_append_right (by omega),List.getElem?_append_left (by omega),List.getElem?_map]
  · rw [h i hi',List.getElem?_append_right (by simp only [List.length_append]; omega),
      List.getElem?_append_right (by simp only [List.length_append]; omega),List.length_append,List.length_append,hnew]

/-- The determinate contents of `n` slots inside the buffer. -/
def load (buf : List (Option β)) (i n : ℕ) : Option (List β) :=
  if i + n ≤ buf.length then ((buf.drop i).take n).mapM id else none

theorem Holds.load {front mid back : List β} (h : Holds buf (front ++ mid ++ back)) :
    load buf front.length mid.length = some mid := by
  have hlen := h.length_le
  simp only [List.length_append] at hlen
  have hpart : (buf.drop front.length).take mid.length = mid.map some := by
    rw [holds_iff] at h
    apply List.ext_getElem?
    intro j
    rw [List.getElem?_map]
    by_cases hj : j < mid.length
    · rw [List.getElem?_take_of_lt hj,List.getElem?_drop,h _ (by simp only [List.length_append]; omega),List.append_assoc,
        List.getElem?_append_right (by omega),List.getElem?_append_left (by omega),Nat.add_sub_cancel_left]
    · rw [List.getElem?_eq_none (by simp only [List.length_take]; omega),List.getElem?_eq_none (by omega),Option.map_none]
  have hread : (mid.map some).mapM id = some mid := by
    rw [List.mapM_map]
    exact List.mapM_pure.trans (congrArg some (List.map_id' mid))
  rw [SlotBuffer.load,if_pos (by omega),hpart,hread]

theorem Holds.insert (h : Holds buf xs) {ys : List β}
    (hfit : xs.length + ys.length ≤ buf.length) {k : ℕ} (hk : k ≤ xs.length) :
    Holds (overwrite (overwrite buf (k + ys.length) ((buf.drop k).take (xs.length - k))) k
      (ys.map some)) (xs.take k ++ ys ++ xs.drop k) := by
  have htail : ((buf.drop k).take (xs.length - k)).length = xs.length - k :=
    List.length_take_of_le (by simp only [List.length_drop]; omega)
  have hmoved : k + ys.length + ((buf.drop k).take (xs.length - k)).length ≤ buf.length := by omega
  rw [holds_iff] at h ⊢
  intro i hi
  simp only [List.length_append,List.length_take,List.length_drop] at hi
  have hhead : (xs.take k).length = k := List.length_take_of_le hk
  rw [getElem?_overwrite (by rw [length_overwrite hmoved,List.length_map]; omega),
    getElem?_overwrite hmoved,List.length_map,htail]
  by_cases h1 : i < k
  · rw [if_pos h1,if_pos (by omega),h i (by omega),List.append_assoc,
      List.getElem?_append_left (by omega),List.getElem?_take_of_lt h1]
  rw [if_neg h1]
  by_cases h2 : i < k + ys.length
  · rw [if_pos h2,List.append_assoc,List.getElem?_append_right (by omega),
      List.getElem?_append_left (by omega),hhead,List.getElem?_map]
  · rw [if_neg h2,if_neg h2,if_pos (by omega),List.getElem?_take_of_lt (by omega),
      List.getElem?_drop,h _ (by omega),List.getElem?_append_right (by simp only [List.length_append]; omega),
      List.getElem?_drop,List.length_append,hhead]

theorem Holds.remove (h : Holds buf xs) {i d : ℕ} (hd : i + d ≤ xs.length) :
    Holds (overwrite buf i ((buf.drop (i + d)).take (xs.length - i - d))) (xs.take i ++ xs.drop (i + d)) := by
  have hlen := h.length_le
  have htail : ((buf.drop (i + d)).take (xs.length - i - d)).length = xs.length - i - d :=
    List.length_take_of_le (by simp only [List.length_drop]; omega)
  have hhead : (xs.take i).length = i := List.length_take_of_le (by omega)
  rw [holds_iff] at h ⊢
  intro j hj
  simp only [List.length_append,List.length_take,List.length_drop] at hj
  rw [getElem?_overwrite (by omega),htail]
  split_ifs with h1 h2
  · rw [h j (by omega),List.getElem?_append_left (by omega),List.getElem?_take_of_lt h1]
  · rw [List.getElem?_take_of_lt (by omega),List.getElem?_drop,h _ (by omega),
      List.getElem?_append_right (by omega),List.getElem?_drop,hhead]
  · omega

theorem Holds.take (h : Holds buf xs) (k : ℕ) : Holds buf (xs.take k) := by
  rw [holds_iff] at h ⊢
  intro i hi
  rw [List.length_take] at hi
  rw [h i (by omega),List.getElem?_take_of_lt (by omega)]

theorem Holds.congr {buf buf' : List (Option β)} (h : Holds buf xs)
    (heq : ∀ i < xs.length, buf'[i]? = buf[i]?) : Holds buf' xs := by
  rw [holds_iff] at h ⊢
  intro i hi
  rw [heq i hi,h i hi]

end FeatureRuntime.SlotBuffer
