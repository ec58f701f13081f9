import FeatureRuntime.FtArray

/-! Sequences of `FtArray` operations compute the corresponding list operations. -/
namespace FeatureRuntime

open SlotBuffer

theorem getValueSize_le (P : Platform) (t : FeatureType) : getValueSize P t ≤ 8 := by
  have hptr : P.pointerSize ≤ 8 := by rcases P.supported with h | h <;> omega
  unfold getValueSize
  simp only
  split_ifs
  · exact hptr
  · split
    · next p _ => cases p <;> simp [PrimitiveType.valueSize,hptr]
    · omega
    · omega

namespace FtArray

variable {P : Platform} (T : ElementType P)

def ofBuffer (buf : List (Option ℕ)) (xs : List ℕ) : FtArray := ⟨xs.length,buf.length,buf⟩

@[simp] theorem ofBuffer_size (buf : List (Option ℕ)) (xs : List ℕ) :
    (ofBuffer buf xs).size = xs.length := rfl

@[simp] theorem ofBuffer_capacity (buf : List (Option ℕ)) (xs : List ℕ) :
    (ofBuffer buf xs).capacity = buf.length := rfl

@[simp] theorem ofBuffer_element (buf : List (Option ℕ)) (xs : List ℕ) :
    (ofBuffer buf xs).element = buf := rfl

/-- The buffer holds the list, and its length and byte size are in range. -/
structure Represents (buf : List (Option ℕ)) (xs : List ℕ) : Prop where
  holds : Holds buf xs
  le_max : (buf.length : ℤ) ≤ intMax
  lt_space : buf.length * T.elemSize < P.addressSpace

/-- Room for `newSize` slots can be allocated, and the fallback of `realloc` can copy. -/
def GrowFits (size : ℤ) (newSize : ℤ) (realloc : Bool) : Prop :=
  newSize ≤ intMax ∧ newSize * T.elemSize < P.addressSpace ∧ (realloc = false → size * T.elemSize ≤ intMax)

/-- An insertion behind `start` stays inside the list and in range; for a reference type at most
one element is inserted. -/
structure InsertFits (arr : FtArray) (start : ℤ) (count : ℕ) (realloc : Bool) : Prop where
  position : -1 ≤ start
  sum : arr.size + count ≤ intMax
  grow : arr.capacity < arr.size + count → GrowFits T arr.size (arr.size + count + 5) realloc
  offset : (start + 1) * T.elemSize ≤ intMax
  tail : start + 1 < arr.size → arr.size - start ≤ intMax ∧ (arr.size - start - 1) * T.elemSize ≤ intMax
  slots : T.isReference → count ≤ 1

variable {T}

section Operations

variable {buf : List (Option ℕ)} {xs : List ℕ}

theorem sizeT_capacity (h : Represents T buf xs) : sizeT P.addressSpace (buf.length : ℤ) = buf.length := by
  have hspace := P.le_addressSpace
  have hmax := h.le_max
  unfold intMax at hmax
  exact sizeT_natCast (by omega)

variable {n : ℕ}

theorem sizeT_mul (h : n * T.elemSize < P.addressSpace) :
    sizeT P.addressSpace ((n : ℤ) * T.elemSize) = n * T.elemSize :=
  sizeT_of_lt (by push_cast; rfl) h

variable {realloc : Bool}

theorem resize_represents (h : Represents T buf xs) (hgrow : buf.length < n → GrowFits T xs.length n realloc) :
    ∃ buf', resize T (ofBuffer buf xs) n realloc = some (ofBuffer buf' xs) ∧
      Represents T buf' xs ∧ n ≤ buf'.length ∧ buf.length ≤ buf'.length := by
  have hlen := h.holds.length_le
  unfold resize
  simp only [ofBuffer_size,ofBuffer_capacity,ofBuffer_element,sizeT_capacity h]
  by_cases hle : n ≤ buf.length
  · rw [if_pos hle]
    exact ⟨buf,rfl,h,hle,Nat.le_refl _⟩
  rw [if_neg hle]
  obtain ⟨hmax,hspace,hcopy⟩ := hgrow (by omega)
  have hspace' : n * T.elemSize < P.addressSpace := by exact_mod_cast hspace
  have hslots : sizeT P.addressSpace ((n : ℤ) * T.elemSize) / T.elemSize = n := by
    rw [sizeT_mul hspace',Nat.mul_div_cancel _ T.elemSize_pos]
  simp only [hslots,toInt_of_le (Int.natCast_nonneg n) hmax]
  cases realloc with
  | true =>
    refine ⟨fit buf n,by simp [ofBuffer],⟨?_,by simpa using hmax,by simpa using hspace'⟩,by simp,?_⟩
    · exact h.holds.congr (fun i hi => getElem?_fit (by omega) (by omega))
    · rw [length_fit]
      omega
  | false =>
    have hused := signed_of_le (Int.mul_nonneg (Int.natCast_nonneg _) (Int.natCast_nonneg _)) (hcopy rfl)
    have hbytes : xs.length * T.elemSize < P.addressSpace :=
      Nat.lt_of_le_of_lt (Nat.mul_le_mul_right _ hlen) h.lt_space
    have hfit : 0 + xs.length ≤ (List.replicate n (none : Option ℕ)).length := by
      rw [List.length_replicate]
      omega
    have hcopied := memcpy_slots T.elemSize_pos hlen hfit
    rw [Nat.zero_mul,h.holds] at hcopied
    have hlength : (overwrite (List.replicate n none) 0 (xs.map some)).length = n := by
      rw [length_overwrite (by simpa using hfit),List.length_replicate]
    refine ⟨overwrite (List.replicate n none) 0 (xs.map some),?_,⟨?_,?_,?_⟩,?_,?_⟩
    · simp [ofBuffer,hused,sizeT_mul hbytes,hcopied,hlength]
    · simpa using (holds_nil (List.replicate n none)).append (by simpa using hfit)
    · rwa [hlength]
    · rwa [hlength]
    · rw [hlength]
    · omega

theorem elemSize_le (T : ElementType P) : T.elemSize ≤ 8 := getValueSize_le P T.type

theorem mul_lt_space (h : (n : ℤ) * T.elemSize ≤ intMax) : n * T.elemSize < P.addressSpace := by
  have hspace := P.le_addressSpace
  have hcast : ((n * T.elemSize : ℕ) : ℤ) ≤ intMax := by
    push_cast
    exact h
  unfold intMax at hcast
  omega

theorem signed_mul (h : (n : ℤ) * T.elemSize ≤ intMax) :
    signed ((n : ℤ) * T.elemSize) = some ((n : ℤ) * T.elemSize) :=
  signed_of_le (Int.mul_nonneg (Int.natCast_nonneg _) (Int.natCast_nonneg _)) h

theorem reserveOne_represents (h : Represents T buf xs) (realloc : Bool)
    (hoffset : (xs.length : ℤ) * T.elemSize ≤ intMax)
    (hgrow : xs.length = buf.length → (xs.length : ℤ) + 5 ≤ intMax) :
    ∃ buf', reserveOne T (ofBuffer buf xs) realloc = some (ofBuffer buf' xs) ∧
      Represents T buf' xs ∧ xs.length < buf'.length := by
  have hlen := h.holds.length_le
  have hmax := h.le_max
  have hspace := P.le_addressSpace
  have hsize := elemSize_le T
  unfold reserveOne
  simp only [ofBuffer_size,ofBuffer_capacity]
  by_cases hfull : xs.length = buf.length
  · have hgrown := hgrow hfull
    have hfit : GrowFits T xs.length ((xs.length + 5 : ℕ) : ℤ) realloc := by
      refine ⟨by push_cast; exact hgrown,?_,fun _ => hoffset⟩
      have hsplit : ((xs.length + 5 : ℕ) : ℤ) * T.elemSize = xs.length * T.elemSize + 5 * T.elemSize := by
        rw [Int.natCast_add,Int.add_mul]
        rfl
      unfold intMax at hoffset
      omega
    obtain ⟨buf',hresize,hrep,hn,-⟩ := resize_represents h (fun _ => hfit)
    have hnext : signed ((xs.length : ℤ) + 1) = some ((xs.length : ℤ) + 1) :=
      signed_of_le (by omega) (by omega)
    have hgrown' : signed ((xs.length : ℤ) + 5) = some ((xs.length : ℤ) + 5) :=
      signed_of_le (by omega) hgrown
    have hsizeT : sizeT P.addressSpace ((xs.length : ℤ) + 5) = xs.length + 5 := by
      unfold intMax at hgrown
      exact sizeT_of_lt (by push_cast; rfl) (by omega)
    have hfull' : (xs.length : ℤ) + 1 > buf.length := by omega
    refine ⟨buf',?_,hrep,by omega⟩
    simp only [hnext,hgrown',hsizeT,hresize,hfull',if_true,Option.bind_eq_bind,Option.bind_some]
  · have hnext : signed ((xs.length : ℤ) + 1) = some ((xs.length : ℤ) + 1) :=
      signed_of_le (by omega) (by omega)
    have hroom : ¬ (xs.length : ℤ) + 1 > buf.length := by omega
    refine ⟨buf,?_,h,by omega⟩
    simp only [hnext,hroom,if_false,Option.bind_eq_bind,Option.bind_some]

/-- `FeatureArrayAppend` writes one more element behind the list. -/
theorem append_represents (h : Represents T buf xs) {data : ℕ} (hoffset : (xs.length : ℤ) * T.elemSize ≤ intMax)
    (hgrow : xs.length = buf.length → (xs.length : ℤ) + 5 ≤ intMax) :
    ∃ buf', append T (ofBuffer buf xs) data realloc =
        some { ret := 0, array := ofBuffer buf' (xs ++ [data])
               dups := if T.isReference then [data] else [] } ∧
      Represents T buf' (xs ++ [data]) := by
  obtain ⟨buf1,hreserve,hrep,hroom⟩ := reserveOne_represents h realloc hoffset hgrow
  have hroom' : xs.length + [some data].length ≤ buf1.length := hroom
  have hcopy := memcpy_slots T.elemSize_pos (Nat.le_refl [some data].length) hroom'
  rw [List.take_length,List.length_singleton,Nat.one_mul] at hcopy
  have hlength := length_overwrite hroom'
  refine ⟨overwrite buf1 xs.length [some data],?_,hrep.holds.append hroom',?_,?_⟩
  · simp [append,hreserve,signed_mul hoffset,sizeT_mul (mul_lt_space hoffset),hcopy]
    simp [ofBuffer,hlength]
  · rw [hlength]
    exact hrep.le_max
  · rw [hlength]
    exact hrep.lt_space

theorem reserve_represents (h : Represents T buf xs) {count : ℕ} (hsum : (xs.length : ℤ) + count ≤ intMax)
    (hgrow : (buf.length : ℤ) < xs.length + count → GrowFits T xs.length (xs.length + count + 5) realloc) :
    ∃ buf', reserve T (ofBuffer buf xs) count realloc = some (ofBuffer buf' xs) ∧
      Represents T buf' xs ∧ xs.length + count ≤ buf'.length := by
  have hspace := P.le_addressSpace
  have htotal : sizeT P.addressSpace ((xs.length : ℤ) + count) = xs.length + count := by
    unfold intMax at hsum
    exact sizeT_of_lt (by push_cast; rfl) (by omega)
  have hint : toInt ((xs.length + count : ℕ) : ℤ) = xs.length + count := by
    push_cast
    exact toInt_of_le (by omega) hsum
  unfold reserve
  simp only [ofBuffer_size,ofBuffer_capacity,htotal,hint]
  by_cases hfull : (xs.length : ℤ) + count > buf.length
  · have hfit := hgrow hfull
    have hnew : sizeT P.addressSpace (((xs.length + count : ℕ) : ℤ) + 5) = xs.length + count + 5 := by
      have hmax := hfit.1
      unfold intMax at hmax
      exact sizeT_of_lt (by push_cast; rfl) (by omega)
    have hfit' : GrowFits T xs.length ((xs.length + count + 5 : ℕ) : ℤ) realloc := by
      push_cast
      exact hfit
    obtain ⟨buf',hresize,hrep,hn,-⟩ := resize_represents h (fun _ => hfit')
    exact ⟨buf',by rw [if_pos hfull,hnew,hresize],hrep,by omega⟩
  · exact ⟨buf,by rw [if_neg hfull],h,by omega⟩

theorem mul_lt_of_le (h : Represents T buf xs) (hn : n ≤ buf.length) : n * T.elemSize < P.addressSpace :=
  Nat.lt_of_le_of_lt (Nat.mul_le_mul_right _ hn) h.lt_space

variable {data : List ℕ}

/-- Both ways of placing the new elements, at the end and in the middle. -/
theorem place_represents (h : Represents T buf xs) {k : ℕ} (hk : k ≤ xs.length)
    (hroom : xs.length + data.length ≤ buf.length) (hoffset : (k : ℤ) * T.elemSize ≤ intMax)
    (htail : k < xs.length → (xs.length : ℤ) - k + 1 ≤ intMax ∧ ((xs.length - k : ℕ) : ℤ) * T.elemSize ≤ intMax) :
    ∃ buf', place T (ofBuffer buf xs) (k - 1) (data.map some) = some buf' ∧
      buf'.length = buf.length ∧ Represents T buf' (xs.take k ++ data ++ xs.drop k) := by
  have hlen := h.holds.length_le
  have hmaplen : (data.map some).length = data.length := List.length_map _
  have hbytes : sizeT P.addressSpace ((data.length : ℤ) * T.elemSize) = data.length * T.elemSize :=
    sizeT_mul (mul_lt_of_le h (by omega))
  have hsrc : sizeT P.addressSpace ((k : ℤ) * T.elemSize) = k * T.elemSize :=
    sizeT_mul (mul_lt_of_le h (by omega))
  unfold place
  simp only [hmaplen,hbytes,ofBuffer_size,ofBuffer_element]
  by_cases hend : k = xs.length
  · subst hend
    rw [if_pos rfl,Int.mul_comm,signed_mul hoffset]
    have hfit : xs.length + data.length ≤ buf.length := hroom
    have hcopy := memcpy_slots T.elemSize_pos (Nat.le_of_eq hmaplen.symm) hfit
    rw [← hmaplen,List.take_length,hmaplen] at hcopy
    have hlength : (overwrite buf xs.length (data.map some)).length = buf.length :=
      length_overwrite (by rw [hmaplen]; exact hfit)
    refine ⟨overwrite buf xs.length (data.map some),?_,hlength,?_,?_,?_⟩
    · simp only [Option.bind_eq_bind,Option.bind_some,hsrc,hcopy]
    · simpa using h.holds.append hfit
    · rw [hlength]
      exact h.le_max
    · rw [hlength]
      exact h.lt_space
  · obtain ⟨hbehind,hmoved⟩ := htail (by omega)
    have hstart : (k : ℤ) - 1 + 1 = k := by omega
    have hgap : (xs.length : ℤ) - (k - 1) - 1 = ((xs.length - k : ℕ) : ℤ) := by omega
    have hsigned : signed ((xs.length : ℤ) - (k - 1)) = some ((xs.length : ℤ) - (k - 1)) :=
      signed_of_le (by omega) (by omega)
    have hspace := P.le_addressSpace
    have hmax := h.le_max
    unfold intMax at hmax
    have hdst : sizeT P.addressSpace ((k : ℤ) - 1 + data.length + 1) = k + data.length :=
      sizeT_of_lt (by push_cast; omega) (by omega)
    have hdst' : sizeT P.addressSpace (((k + data.length : ℕ) : ℤ) * T.elemSize) =
        (k + data.length) * T.elemSize := sizeT_mul (mul_lt_of_le h (by omega))
    have hcount : sizeT P.addressSpace (((xs.length - k : ℕ) : ℤ) * T.elemSize) =
        (xs.length - k) * T.elemSize := sizeT_mul (mul_lt_of_le h (by omega))
    have hmove := memmove_slots T.elemSize_pos
      (show k + data.length + (xs.length - k) ≤ buf.length by omega)
      (show k + (xs.length - k) ≤ buf.length by omega)
    have htaken : ((buf.drop k).take (xs.length - k)).length = xs.length - k :=
      List.length_take_of_le (by rw [List.length_drop]; omega)
    have hlength : (overwrite buf (k + data.length) ((buf.drop k).take (xs.length - k))).length =
        buf.length := length_overwrite (by omega)
    have hcopy := memcpy_slots (i := k) T.elemSize_pos (Nat.le_of_eq hmaplen.symm)
      (show k + data.length ≤ (overwrite buf (k + data.length) ((buf.drop k).take (xs.length - k))).length by omega)
    rw [← hmaplen,List.take_length,hmaplen] at hcopy
    have hlength' := length_overwrite
      (show k + (data.map some).length ≤ (overwrite buf (k + data.length)
        ((buf.drop k).take (xs.length - k))).length by omega)
    have hne : ¬ (k : ℤ) - 1 = xs.length - 1 := by omega
    refine ⟨_,?_,hlength'.trans hlength,h.holds.insert hroom hk,?_,?_⟩
    · rw [if_neg hne]
      simp only [hstart,hsigned,hgap,Option.bind_eq_bind,Option.bind_some,hdst,
        Int.mul_comm (T.elemSize : ℤ),signed_mul hoffset,signed_mul hmoved,hsrc,hdst',hcount,
        hmove,hcopy]
    · rw [hlength',hlength]
      exact h.le_max
    · rw [hlength',hlength]
      exact h.lt_space

theorem dupSlots_eq_self (h : data.length ≤ 1) : dupSlots P data = data := by
  match data, h with
  | [], _ => rfl
  | [_], _ => rfl

theorem insertAfter_of_ge (arr : FtArray) {start : ℤ} (h : arr.size ≤ start) (data : List ℕ)
    (realloc : Bool) : insertAfter T arr start data realloc = some { ret := 0, array := arr } := by
  rw [insertAfter,if_pos h]

/-- `FeatureArrayInsertAfter` inside the list and in range. -/
theorem insertAfter_represents (h : Represents T buf xs) {start : ℤ} (hstart : start < xs.length)
    (hfits : InsertFits T (ofBuffer buf xs) start data.length realloc) :
    ∃ buf', insertAfter T (ofBuffer buf xs) start data realloc =
        some { ret := data.length
               array := ofBuffer buf'
                (xs.take (start + 1).toNat ++ data ++ xs.drop (start + 1).toNat) } ∧
      Represents T buf' (xs.take (start + 1).toNat ++ data ++ xs.drop (start + 1).toNat) := by
  obtain ⟨hposition,hsum,hgrow,hoffset,htail,hslots⟩ := hfits
  simp only [ofBuffer_size,ofBuffer_capacity] at hsum hgrow htail
  obtain ⟨k,hk⟩ : ∃ k : ℕ, start = (k : ℤ) - 1 := ⟨(start + 1).toNat,by omega⟩
  subst hk
  have hk : ((k : ℤ) - 1 + 1).toNat = k := by omega
  obtain ⟨buf1,hreserve,hrep,hroom⟩ := reserve_represents h hsum hgrow
  have hdata : (if T.isReference then dupSlots P data else data) = data := by
    split_ifs with href
    · exact dupSlots_eq_self (hslots href)
    · rfl
  have hoffset' : (k : ℤ) * T.elemSize ≤ intMax := by
    rw [Int.sub_add_cancel] at hoffset
    exact hoffset
  obtain ⟨buf2,hplace,hlength,hrep2⟩ := place_represents hrep (show k ≤ xs.length by omega) hroom
    hoffset' (fun hlt => by
      obtain ⟨h1,h2⟩ := htail (by omega)
      have hgap : (xs.length : ℤ) - (k - 1) - 1 = ((xs.length - k : ℕ) : ℤ) := by omega
      rw [hgap] at h2
      exact ⟨by omega,h2⟩)
  rw [hk]
  have hcount : (data.length : ℤ) ≤ intMax := by omega
  have hsum0 : 0 ≤ (xs.length : ℤ) + data.length := by omega
  have hnot : ¬ (k : ℤ) - 1 ≥ xs.length := by omega
  have hsize : ((xs.take k ++ data ++ xs.drop k).length : ℤ) = xs.length + data.length := by
    simp only [List.length_append,List.length_take,List.length_drop]
    omega
  refine ⟨buf2,?_,hrep2⟩
  simp only [insertAfter,ofBuffer_size,hnot,if_false,hreserve,hdata,hplace,
    toInt_of_le hsum0 hsum,toInt_of_le (Int.natCast_nonneg _) hcount,Option.bind_eq_bind,
    Option.bind_some]
  simp only [ofBuffer,hsize,hlength]
  rfl

theorem mapM_some (ys : List ℕ) : ys.mapM some = some ys := by
  induction ys with
  | nil => rfl
  | cons y ys ih => simp [List.mapM_cons,ih]

theorem readSlots_represents (h : Holds buf xs) {i n : ℕ} (hin : i + n ≤ xs.length) :
    readSlots buf i n = some ((xs.drop i).take n) := by
  have hlen := h.length_le
  have hslots : (buf.drop i).take n = ((xs.drop i).take n).map some := by
    have hstart := congrArg (fun l => (l.drop i).take n) h
    simp only [← List.map_drop,← List.map_take] at hstart
    rw [← hstart,List.drop_take,List.take_take,Nat.min_eq_left (by omega)]
  unfold readSlots
  rw [if_pos (by rw [List.length_drop]; omega),hslots,List.mapM_map]
  exact mapM_some _

theorem min_toInt {count n : ℕ} (h : (count : ℤ) ≤ intMax) : min (toInt count) (n : ℤ) = ((min count n : ℕ) : ℤ) := by
  rw [toInt_of_le (Int.natCast_nonneg _) h]
  omega

theorem closeGap_represents (h : Represents T buf xs) {start del : ℕ} (hdel : start + del ≤ xs.length)
    (hoffset : start + del < xs.length → (start : ℤ) * T.elemSize ≤ intMax) :
    ∃ buf', closeGap T (ofBuffer buf xs) start (start + del) (xs.length - (start + del)) =
        some buf' ∧ buf'.length = buf.length ∧ Holds buf' (xs.take start ++ xs.drop (start + del)) := by
  have hlen := h.holds.length_le
  unfold closeGap
  by_cases hnone : xs.length - (start + del) = 0
  · refine ⟨buf,by rw [if_pos hnone,ofBuffer_element],rfl,?_⟩
    rw [List.drop_eq_nil_of_le (by omega),List.append_nil]
    exact h.holds.take start
  · have hoff := hoffset (by omega)
    have hmove := memmove_slots T.elemSize_pos
      (show start + (xs.length - start - del) ≤ buf.length by omega)
      (show start + del + (xs.length - start - del) ≤ buf.length by omega)
    have htaken : ((buf.drop (start + del)).take (xs.length - start - del)).length =
        xs.length - start - del := List.length_take_of_le (by rw [List.length_drop]; omega)
    refine ⟨_,?_,length_overwrite (by omega),h.holds.remove hdel⟩
    rw [if_neg hnone,signed_mul hoff,ofBuffer_element,← hmove,← Nat.sub_sub,Option.bind_eq_bind,
      Option.bind_some,sizeT_mul (mul_lt_of_le h (by omega)),
      sizeT_mul (mul_lt_of_le h (by omega)),sizeT_mul (mul_lt_of_le h (by omega))]

/-- `FeatureArrayRemove` at a position inside the list, with the words it gives to
`FeatureFreeValue`. -/
theorem remove_represents (h : Represents T buf xs) {start count : ℕ} (hstart : start < xs.length)
    (hcount : (count : ℤ) ≤ intMax) (hpos : 0 < count)
    (hoffset : start + count < xs.length → (start : ℤ) * T.elemSize ≤ intMax) :
    ∃ buf', remove T (ofBuffer buf xs) start count =
        some { ret := (min count (xs.length - start) : ℕ)
               array := ofBuffer buf' (xs.take start ++ xs.drop (start + count))
               frees := if T.isReference then (xs.drop start).take count else [] } ∧
      Represents T buf' (xs.take start ++ xs.drop (start + count)) := by
  have hlen := h.holds.length_le
  have hmax := h.le_max
  have hspace := P.le_addressSpace
  obtain ⟨del,hdel⟩ : ∃ del, del = min count (xs.length - start) := ⟨_,rfl⟩
  have hframe : xs.drop (start + del) = xs.drop (start + count) := by
    rcases Nat.le_total count (xs.length - start) with hle | hle
    · rw [hdel,Nat.min_eq_left hle]
    · rw [List.drop_eq_nil_of_le (by omega),List.drop_eq_nil_of_le (by omega)]
  have hfreed : (xs.drop start).take del = (xs.drop start).take count := by
    rw [hdel,← List.length_drop,List.take_eq_take_iff]
    omega
  have hread := readSlots_represents h.holds (show start + del ≤ xs.length by omega)
  obtain ⟨buf',hclose,hlength,hholds⟩ := closeGap_represents h (show start + del ≤ xs.length by omega)
    (fun hlt => hoffset (by omega))
  rw [hframe] at hholds
  have hsize : ((xs.take start ++ xs.drop (start + count)).length : ℤ) = xs.length - del := by
    rw [← hframe,List.length_append,List.length_take,List.length_drop]
    omega
  have hbehind : (xs.length : ℤ) - start = ((xs.length - start : ℕ) : ℤ) := by omega
  have hbehind_le : ((xs.length - start : ℕ) : ℤ) ≤ intMax := by omega
  have hleft : ((xs.length - start : ℕ) : ℤ) - del = ((xs.length - (start + del) : ℕ) : ℤ) := by omega
  have hdel_le : (del : ℤ) ≤ intMax := by omega
  have hne : ¬ del = 0 := by omega
  have hsub0 : 0 ≤ (xs.length : ℤ) - del := by omega
  have hsub_le : (xs.length : ℤ) - del ≤ intMax := by omega
  have hsum : (start : ℤ) + del = ((start + del : ℕ) : ℤ) := by omega
  unfold intMax at hmax
  have hlt : ∀ n ≤ xs.length, n < P.addressSpace := fun n hn => by omega
  refine ⟨buf',?_,hholds,hlength ▸ h.le_max,hlength ▸ h.lt_space⟩
  have hfrees : freedRange T (ofBuffer buf xs) start (start + del) =
      some (if T.isReference then (xs.drop start).take count else []) := by
    unfold freedRange
    rw [ofBuffer_element,sizeT_natCast (hlt start (by omega)),Nat.add_sub_cancel_left,hread,hfreed]
    split_ifs <;> rfl
  unfold remove
  rw [ofBuffer_size,hbehind,signed_of_le (Int.natCast_nonneg _) hbehind_le,Option.bind_eq_bind,
    Option.bind_some,min_toInt hcount,← hdel,sizeT_natCast (hlt del (by omega)),if_neg hne]
  unfold removeSlots
  rw [hsum,sizeT_natCast (hlt (start + del) (by omega)),hfrees,hleft,
    sizeT_natCast (hlt (xs.length - (start + del)) (by omega)),hclose,
    toInt_of_le (Int.natCast_nonneg _) hdel_le,ofBuffer_size,toInt_of_le hsub0 hsub_le]
  simp only [Option.bind_eq_bind,Option.bind_some,ofBuffer,hsize,hlength]
  rfl

theorem remove_none {start : ℤ} {count : ℕ} (hcount : (count : ℤ) ≤ intMax)
    (hlow : (xs.length : ℤ) - start ≤ intMax) (hle : start ≤ xs.length)
    (hnone : count = 0 ∨ start = xs.length) :
    remove T (ofBuffer buf xs) start count = some { ret := 0, array := ofBuffer buf xs } := by
  have hbehind : signed ((xs.length : ℤ) - start) = some ((xs.length : ℤ) - start) :=
    signed_of_le (by omega) hlow
  have hmin : min (toInt count) ((xs.length : ℤ) - start) = 0 := by
    rw [toInt_of_le (Int.natCast_nonneg _) hcount]
    omega
  have hzero : sizeT P.addressSpace 0 = 0 := by simp [sizeT]
  simp [remove,hbehind,hmin,hzero]

/-- `FeatureArrayClear` with the words it gives to `FeatureFreeValue`. -/
theorem clear_represents (h : Represents T buf xs)
    (hoffset : T.isReference → ((xs.length : ℤ) - 1) * T.elemSize ≤ intMax) :
    clear T (ofBuffer buf xs) =
      some { ret := xs.length, array := ofBuffer buf []
             frees := if T.isReference then xs else [] } := by
  unfold clear
  by_cases href : T.isReference
  · by_cases hnil : xs = []
    · subst hnil
      simp [href,ofBuffer]
    · have hpos : 0 < xs.length := List.length_pos_iff.mpr hnil
      have hcast : ((xs.length : ℤ) - 1) = ((xs.length - 1 : ℕ) : ℤ) := by omega
      have hoff := hoffset href
      rw [hcast] at hoff
      have hread := readSlots_represents h.holds (show 0 + xs.length ≤ xs.length by omega)
      rw [List.drop_zero,List.take_length] at hread
      have hpos' : (0 : ℤ) < xs.length := by omega
      simp only [ofBuffer_size,ofBuffer_element,href,hpos',hcast,Int.mul_comm (T.elemSize : ℤ),
        signed_mul hoff,Int.toNat_natCast,hread,true_and,if_true,Option.bind_eq_bind,
        Option.bind_some]
      rfl
  · simp [href,ofBuffer]

theorem create_represents {capacity : ℕ} (hmax : (capacity : ℤ) ≤ intMax)
    (hspace : capacity * T.elemSize < P.addressSpace) :
    create T capacity = ofBuffer (List.replicate capacity (some 0)) [] ∧
      Represents T (List.replicate capacity (some 0)) [] := by
  have hlength : (List.replicate capacity (some 0)).length = capacity := List.length_replicate
  refine ⟨?_,holds_nil _,by rwa [hlength],by rwa [hlength]⟩
  rw [create,sizeT_mul hspace,Nat.mul_div_cancel _ T.elemSize_pos,toInt_of_le (Int.natCast_nonneg _) hmax]
  simp [ofBuffer]

theorem copy_represents (hmax : (data.length : ℤ) ≤ intMax) (hspace : data.length * T.elemSize < P.addressSpace) :
    ∃ buf', copy T data = some { ret := 0, array := ofBuffer buf' data
                                 dups := if T.isReference then data else [] } ∧
      Represents T buf' data := by
  have hcreate := (create_represents hmax hspace).1
  have hroom : 0 + data.length ≤ (List.replicate data.length (some 0)).length := by simp
  have hcopy := memcpy_slots T.elemSize_pos (Nat.le_of_eq (List.length_map some).symm) hroom
  rw [Nat.zero_mul,← List.map_take,List.take_length] at hcopy
  have hlength : (overwrite (List.replicate data.length (some 0)) 0 (data.map some)).length =
      data.length := by
    rw [length_overwrite (by simp),List.length_replicate]
  refine ⟨overwrite (List.replicate data.length (some 0)) 0 (data.map some),?_,?_,by rwa [hlength],
    by rwa [hlength]⟩
  · rw [copy,hcreate,ofBuffer_element,sizeT_mul hspace,hcopy,toInt_of_le (Int.natCast_nonneg _) hmax]
    simp [ofBuffer,hlength]
  · exact (holds_nil _).append (by simp)

end Operations

/-- `0 <= _size <= _capacity`, the buffer has `_capacity` slots, and the first `_size` of them are
the list. -/
structure Refines (arr : FtArray) (xs : List ℕ) : Prop where
  size_nonneg : 0 ≤ arr.size
  size_le : arr.size ≤ arr.capacity
  slots : (arr.element.length : ℤ) = arr.capacity
  size_eq : arr.size = xs.length
  holds : Holds arr.element xs

end FtArray

namespace ArrayOp

variable {P : Platform} (T : ElementType P)

/-- The positions, counts and sizes for which an operation computes what the list operation
computes. -/
def InRange (arr : FtArray) : ArrayOp → Prop
  | .append _ _ =>
    arr.size * T.elemSize ≤ intMax ∧ (arr.size = arr.capacity → arr.size + 5 ≤ intMax)
  | .insertAfter start data realloc =>
    start < arr.size → FtArray.InsertFits T arr start data.length realloc
  | .insertBefore start data realloc =>
    0 ≤ start → start - 1 < arr.size → FtArray.InsertFits T arr (start - 1) data.length realloc
  | .remove start count =>
    (count : ℤ) ≤ intMax ∧ start ≤ arr.size ∧ arr.size - start ≤ intMax ∧ (start < 0 → count = 0) ∧
      (0 < count → start + count < arr.size → start * T.elemSize ≤ intMax)
  | .clear => T.isReference → (arr.size - 1) * T.elemSize ≤ intMax
  | .resize newSize realloc =>
    arr.capacity < newSize → FtArray.GrowFits T arr.size newSize realloc

def dupped : ArrayOp → List ℕ
  | .append data _ => if T.isReference then [data] else []
  | _ => []

def freed (xs : List ℕ) : ArrayOp → List ℕ
  | .remove start count =>
    if T.isReference ∧ 0 ≤ start ∧ start < xs.length then (xs.drop start.toNat).take count else []
  | .clear => if T.isReference then xs else []
  | _ => []

variable {T} {buf : List (Option ℕ)} {xs : List ℕ}

theorem insertAfter_call (h : FtArray.Represents T buf xs) {start : ℤ} {data : List ℕ}
    {realloc : Bool} (hfits : start < xs.length → FtArray.InsertFits T (.ofBuffer buf xs) start data.length realloc) :
    ∃ buf' ret, FtArray.insertAfter T (.ofBuffer buf xs) start data realloc =
        some { ret := ret
               array := .ofBuffer buf' ((ArrayOp.insertAfter start data realloc).onList xs) } ∧
      FtArray.Represents T buf' ((ArrayOp.insertAfter start data realloc).onList xs) := by
  by_cases hlt : start < xs.length
  · have hfits' := hfits hlt
    obtain ⟨buf',hcall,hrep⟩ := FtArray.insertAfter_represents h hlt hfits'
    rw [onList,if_pos ⟨hfits'.position,hlt⟩]
    exact ⟨buf',_,hcall,hrep⟩
  · rw [onList,if_neg (fun hin => hlt hin.2)]
    exact ⟨buf,0,FtArray.insertAfter_of_ge _ (Int.not_lt.mp hlt) _ _,h⟩

theorem insertBefore_onList (start : ℤ) (data : List ℕ) (realloc : Bool) :
    (ArrayOp.insertBefore start data realloc).onList xs =
      if 0 ≤ start then (ArrayOp.insertAfter (start - 1) data realloc).onList xs else xs := by
  simp only [onList,Int.sub_add_cancel]
  split_ifs <;> first | rfl | omega

theorem remove_call (h : FtArray.Represents T buf xs) {start : ℤ} {count : ℕ}
    (hrange : (ArrayOp.remove start count).InRange T (.ofBuffer buf xs)) :
    ∃ buf' ret, FtArray.remove T (.ofBuffer buf xs) start count =
        some { ret := ret
               array := .ofBuffer buf' ((ArrayOp.remove start count).onList xs)
               frees := (ArrayOp.remove start count).freed T xs } ∧
      FtArray.Represents T buf' ((ArrayOp.remove start count).onList xs) := by
  obtain ⟨hcount,hle,hlow,hneg,hoffset⟩ := hrange
  simp only [FtArray.ofBuffer_size] at hle hlow hoffset
  by_cases hin : 0 < count ∧ start < xs.length
  · have hnonneg : 0 ≤ start := by
      by_contra hlt
      have := hneg (by omega)
      omega
    lift start to ℕ using hnonneg
    obtain ⟨buf',hcall,hrep⟩ := FtArray.remove_represents h (by omega) hcount hin.1
      (fun hlt => hoffset hin.1 (by omega))
    have hpos : 0 ≤ (start : ℤ) ∧ (start : ℤ) < xs.length := ⟨Int.natCast_nonneg _,hin.2⟩
    simp only [onList,freed,hpos,and_true,if_true,Int.toNat_natCast]
    exact ⟨buf',_,hcall,hrep⟩
  · have hnone : count = 0 ∨ start = xs.length := by omega
    have hsame : (ArrayOp.remove start count).onList xs = xs := by
      simp only [onList]
      split_ifs with hpos
      · rw [show count = 0 by omega,Nat.add_zero,List.take_append_drop]
      · rfl
    have hfreed : (ArrayOp.remove start count).freed T xs = [] := by
      simp only [freed]
      split_ifs with hpos
      · rw [show count = 0 by omega,List.take_zero]
      · rfl
    rw [hsame,hfreed]
    exact ⟨buf,0,FtArray.remove_none hcount hlow hle hnone,h⟩

/-- An operation in range has a result, which represents the result of the list operation. -/
theorem call_represents (h : FtArray.Represents T buf xs) {op : ArrayOp} (hrange : op.InRange T (.ofBuffer buf xs)) :
    ∃ buf' ret, op.call T (.ofBuffer buf xs) =
        some { ret := ret, array := .ofBuffer buf' (op.onList xs)
               dups := op.dupped T, frees := op.freed T xs } ∧
      FtArray.Represents T buf' (op.onList xs) := by
  cases op with
  | append data realloc =>
    obtain ⟨buf',hcall,hrep⟩ := FtArray.append_represents h hrange.1
      (fun hfull => hrange.2 (by simp [hfull]))
    exact ⟨buf',_,hcall,hrep⟩
  | insertAfter start data realloc => exact insertAfter_call h hrange
  | insertBefore start data realloc =>
    rw [insertBefore_onList,call,FtArray.insertBefore]
    by_cases hneg : start < 0
    · rw [if_pos hneg,if_neg (by omega)]
      exact ⟨buf,0,rfl,h⟩
    · rw [if_neg hneg,if_pos (by omega)]
      exact insertAfter_call h (hrange (by omega))
  | remove start count => exact remove_call h hrange
  | clear =>
    refine ⟨buf,xs.length,FtArray.clear_represents h hrange,?_⟩
    exact ⟨holds_nil buf,h.le_max,h.lt_space⟩
  | resize newSize realloc =>
    obtain ⟨buf',hcall,hrep,-⟩ := FtArray.resize_represents h
      (fun hlt => hrange (by simpa using hlt))
    exact ⟨buf',0,by simp only [call,hcall]; rfl,hrep⟩

end ArrayOp

/-- `FeatureCreateArray` with a capacity, or `FeatureArrayCopy` of some words. -/
inductive ArrayOrigin
  | create (capacity : ℕ)
  | copy (data : List ℕ)
  deriving DecidableEq

namespace ArrayOrigin

variable {P : Platform} (T : ElementType P)

def make : ArrayOrigin → Option FtArray
  | .create capacity => some (.create T capacity)
  | .copy data => (FtArray.copy T data).map (·.array)

def list : ArrayOrigin → List ℕ
  | .create _ => []
  | .copy data => data

def slots : ArrayOrigin → ℕ
  | .create capacity => capacity
  | .copy data => data.length

/-- The number of slots fits an `int` and their bytes a `size_t`. -/
def InRange (origin : ArrayOrigin) : Prop :=
  (origin.slots : ℤ) ≤ intMax ∧ origin.slots * T.elemSize < P.addressSpace

end ArrayOrigin

/-- An array under a sequence of calls, `none` after undefined behaviour, and the list the calls
are meant to compute. -/
structure ArrayRun where
  array : Option FtArray
  list : List ℕ
  deriving DecidableEq

namespace ArrayRun

variable {P : Platform} (T : ElementType P)

def start (origin : ArrayOrigin) : ArrayRun := ⟨origin.make T,origin.list⟩

def step (s : ArrayRun) (op : ArrayOp) : ArrayRun :=
  ⟨s.array.bind (fun arr => (op.call T arr).map (·.array)),op.onList s.list⟩

def Refines (s : ArrayRun) : Prop := ∃ arr, s.array = some arr ∧ FtArray.Refines arr s.list

def InRange (s : ArrayRun) (op : ArrayOp) : Prop := ∀ arr, s.array = some arr → op.InRange T arr

def Inv (s : ArrayRun) : Prop :=
  ∃ buf, s.array = some (.ofBuffer buf s.list) ∧ FtArray.Represents T buf s.list

variable {T}

theorem Inv.refines {s : ArrayRun} (h : Inv T s) : s.Refines := by
  obtain ⟨buf,harr,hrep⟩ := h
  have hlen := hrep.holds.length_le
  refine ⟨_,harr,?_⟩
  exact { size_nonneg := Int.natCast_nonneg _, size_le := Int.ofNat_le.mpr hlen, slots := rfl
          size_eq := rfl, holds := hrep.holds }

theorem Inv.step {s : ArrayRun} (h : Inv T s) {op : ArrayOp} (hrange : s.InRange T op) : Inv T (s.step T op) := by
  obtain ⟨buf,harr,hrep⟩ := h
  obtain ⟨buf',ret,hcall,hrep'⟩ := ArrayOp.call_represents hrep (hrange _ harr)
  exact ⟨buf',by simp [ArrayRun.step,harr,hcall],hrep'⟩

theorem inv_start {origin : ArrayOrigin} (h : origin.InRange T) : Inv T (start T origin) := by
  cases origin with
  | create capacity =>
    obtain ⟨hcreate,hrep⟩ := FtArray.create_represents h.1 h.2
    exact ⟨_,congrArg some hcreate,hrep⟩
  | copy data =>
    obtain ⟨buf,hcopy,hrep⟩ := FtArray.copy_represents (T := T) h.1 h.2
    exact ⟨buf,by simp only [start,ArrayOrigin.make,hcopy]; rfl,hrep⟩

/-- Every sequence of calls in range on a created or copied array computes the list operations,
and no access leaves the element buffer. -/
theorem array_refines_list (origin : ArrayOrigin) (horigin : origin.InRange T) (ops : List ArrayOp)
    (h : Transition.Guarded (step T) (InRange T) (start T origin) ops) :
    Transition.Always (step T) Refines (start T origin) ops :=
  (h.always (I := Inv T) (fun _ _ hs hgood => hs.step hgood) (inv_start horigin)).mono
    (fun _ hs => hs.refines)

def intElement : ElementType .bits64 := ⟨.primitive .int32,by decide⟩

/-- An `int32` array of capacity 4, with one element put in front and another one behind. -/
theorem array_refines_list_of_two_inserts : Transition.Always (step intElement) Refines (start intElement (.create 4))
      [.insertBefore 0 [7] true,.append 9 true] := by
  refine array_refines_list _ ⟨by decide,by decide⟩ _ ⟨?_,?_,trivial⟩
  · rintro arr harr - -
    obtain rfl : ⟨0,4,List.replicate 4 (some 0)⟩ = arr := Option.some.inj harr
    exact ⟨by decide,by decide,by simp,by decide,by simp,by decide⟩
  · rintro arr harr
    obtain rfl : ⟨1,4,[some 7,some 0,some 0,some 0]⟩ = arr := Option.some.inj harr
    exact ⟨by decide,by decide⟩

/-- Removing nothing behind the end of an empty array leaves one element. -/
theorem remove_behind_end :
    ¬ Transition.Always (step intElement) Refines (start intElement (.create 4)) [.remove 1 0] := by
  intro h
  obtain ⟨arr,harr,hrefines⟩ := h.last
  obtain rfl : ⟨1,4,List.replicate 4 (some 0)⟩ = arr := Option.some.inj harr
  exact absurd hrefines.size_eq (by decide)

end ArrayRun
end FeatureRuntime
