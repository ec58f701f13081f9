import FeatureRuntime.ArrayRefinement
import FeatureRuntime.RefCount
import Mathlib.Data.List.Perm.Subperm

/-! Who owns the elements of an `FtArray`: arrays, their element blocks, and a caller that holds
references of its own. -/
namespace FeatureRuntime

open RefCount

/-- The body of a `FeatureMalloc` block: an array, or a string, an `any` or a struct with the
non-null pointers in its members. -/
inductive ElementBody (P : Platform)
  | array (type : ElementType P) (arr : FtArray)
  | other (members : List ℕ)

namespace ElementBody

variable {P : Platform}

/-- The pointers `FeatureFreeValue` gives back with the block. -/
def refs : ElementBody P → List ℕ
  | .array type arr =>
    if type.type.needFree then (arr.element.take arr.size.toNat).filterMap id else []
  | .other members => members

def WellFormed : ElementBody P → Prop
  | .array type arr => type.type.needFree = true ∧
      ∃ buf xs, arr = .ofBuffer buf xs ∧ FtArray.Represents type buf xs
  | .other _ => True

end ElementBody

/-- The heap and the references the caller holds. -/
structure ArrayHeap (P : Platform) where
  heap : Heap (ElementBody P) := [none]
  caller : List ℕ := []
  fault : Bool := false

inductive OwnershipOp (P : Platform)
  /-- A new element block takes over references of the caller to its members. -/
  | newElement (members : List ℕ)
  /-- `FeatureDupValue` by the caller. -/
  | dup (p : ℕ)
  /-- `FeatureFreeValue` by the caller, of an element or of an array. -/
  | free (p : ℕ)
  /-- `FeatureCreateArray` or `FeatureArrayCopy`. -/
  | createArray (type : ElementType P) (origin : ArrayOrigin)
  /-- An operation on the array at an address. -/
  | call (array : ℕ) (op : ArrayOp)

namespace ArrayHeap

variable {P : Platform}

def makeArray (type : ElementType P) : ArrayOrigin → Option ArrayCall
  | .create capacity => some { ret := 0, array := FtArray.create type capacity }
  | .copy data => FtArray.copy type data

/-- `FeatureFreeValue`. -/
def freeValues (heap : Heap (ElementBody P)) (ps : List ℕ) : Option (Heap (ElementBody P)) :=
  freeAll ElementBody.refs heap ps

/-- One operation; `none` is undefined behaviour. -/
def perform (s : ArrayHeap P) : OwnershipOp P → Option (ArrayHeap P)
  | .newElement members =>
    let r := alloc s.heap (.other members)
    some { s with heap := r.2, caller := r.1 :: s.caller.diff members }
  | .dup p => do
    let heap ← dupWrap s.heap p
    return { s with heap := heap, caller := p :: s.caller }
  | .free p => do
    let heap ← freeValues s.heap [p]
    return { s with heap := heap, caller := s.caller.erase p }
  | .createArray type origin => do
    let c ← makeArray type origin
    let heap ← dupAll s.heap c.dups
    let r := alloc heap (.array type c.array)
    return { s with heap := r.2, caller := r.1 :: s.caller }
  | .call array op =>
    match s.heap[array]? with
    | some (some ⟨_,.array type arr⟩) => do
      let c ← op.call type arr
      let heap ← dupAll s.heap c.dups
      let heap ← setBody heap array (.array type c.array)
      let heap ← freeValues heap c.frees
      return { s with heap := heap }
    | _ => none

def step (s : ArrayHeap P) (op : OwnershipOp P) : ArrayHeap P :=
  if s.fault then s else (s.perform op).getD { s with fault := true }

/-- Every reference count is the number of array slots and members that hold the block plus the
references of the caller; a freed block is held by nobody. -/
def Balanced (s : ArrayHeap P) : Prop :=
  s.fault = false ∧ ∀ p, p ≠ 0 → rcOf s.heap p = heldBy ElementBody.refs s.heap p + s.caller.count p

/-- The blocks are live, and their 32-bit counts have room for a reference to each of them. -/
def HasRoom (s : ArrayHeap P) (ps : List ℕ) : Prop := ∀ p ∈ ps, 0 < rcOf s.heap p ∧ rcOf s.heap p + ps.count p < 2 ^ 32

/-- An accepted `InsertAfter` or `InsertBefore` inserts nothing, and an appended block is live. -/
def Owned (s : ArrayHeap P) (arr : FtArray) : ArrayOp → Prop
  | .append data _ => s.HasRoom [data]
  | .insertAfter start data _ => start < arr.size → data = []
  | .insertBefore start data _ => 0 ≤ start → start - 1 < arr.size → data = []
  | _ => True

/-- The caller gives back and gives away only references it holds, passes live blocks with less than
`2 ^ 32` references, and calls in range on arrays it holds, without inserting by position. -/
def InRange (s : ArrayHeap P) : OwnershipOp P → Prop
  | .newElement members => ∀ p ∈ members, members.count p ≤ s.caller.count p
  | .dup p => s.HasRoom [p]
  | .free p => p ∈ s.caller
  | .createArray type origin =>
    type.type.needFree = true ∧ origin.InRange type ∧ s.HasRoom origin.list
  | .call array op => ∃ rc type arr, s.heap[array]? = some (some ⟨rc,.array type arr⟩) ∧
      op.InRange type arr ∧ s.Owned arr op

structure Inv (s : ArrayHeap P) : Prop where
  noFault : s.fault = false
  ledger : Ledger ElementBody.refs s.heap s.caller
  wellFormed : All ElementBody.WellFormed s.heap

theorem inv_init : Inv ({} : ArrayHeap P) where
  noFault := rfl
  ledger :=
    { null := rfl
      rc_pos := by
        intro p b hp
        have := List.mem_of_getElem? hp
        simp at this
      rc_eq := by
        intro p hp
        have hnone : ([none] : Heap (ElementBody P))[p]? = none := List.getElem?_eq_none (by simp; omega)
        simp [rcOf,hnone,heldBy,cellRefs] }
  wellFormed := by
    intro p b hp
    have := List.mem_of_getElem? hp
    simp at this

theorem isReference_of_needFree {t : FeatureType} (h : t.needFree = true) : t.isReference = true := by
  unfold FeatureType.needFree at h
  unfold FeatureType.isReference
  rw [eq_of_beq h]
  rfl

variable {type : ElementType P}

theorem refs_ofBuffer {buf : List (Option ℕ)} {xs : List ℕ}
    (hfree : type.type.needFree = true) (h : FtArray.Represents type buf xs) :
    ElementBody.refs (.array type (.ofBuffer buf xs)) = xs := by
  have hholds := h.holds
  unfold SlotBuffer.Holds at hholds
  simp only [ElementBody.refs,hfree,if_true,FtArray.ofBuffer_element,FtArray.ofBuffer_size,
    Int.toNat_natCast,hholds,List.filterMap_map]
  simp

variable {s : ArrayHeap P}

/-- Every operation but the insertions exchanges slots and references one for one. -/
theorem count_onList {buf : List (Option ℕ)} {xs : List ℕ}
    (href : type.isReference = true) {op : ArrayOp} (howned : s.Owned (.ofBuffer buf xs) op) (p : ℕ) :
    xs.count p + (op.dupped type).count p = (op.onList xs).count p + (op.freed type xs).count p := by
  cases op with
  | append data realloc => simp [ArrayOp.dupped,ArrayOp.onList,ArrayOp.freed,href,List.count_append]
  | insertAfter start data realloc =>
    simp only [ArrayOp.dupped,ArrayOp.onList,ArrayOp.freed]
    split_ifs with hin
    · rw [howned hin.2,List.append_nil,List.take_append_drop]
    · rfl
  | insertBefore start data realloc =>
    simp only [ArrayOp.dupped,ArrayOp.onList,ArrayOp.freed]
    split_ifs with hin
    · rw [howned hin.1 (by simp only [FtArray.ofBuffer_size]; omega),List.append_nil,
        List.take_append_drop]
    · rfl
  | remove start count =>
    simp only [ArrayOp.dupped,ArrayOp.onList,ArrayOp.freed,href,true_and]
    split_ifs with hin
    · have hsplit : xs = xs.take start.toNat ++ ((xs.drop start.toNat).take count ++
          xs.drop (start.toNat + count)) := by
        rw [← List.drop_drop,List.take_append_drop,List.take_append_drop]
      have hcount := congrArg (List.count p) hsplit
      simp only [List.count_append,List.count_nil] at hcount ⊢
      omega
    · rfl
  | clear => simp [ArrayOp.dupped,ArrayOp.onList,ArrayOp.freed,href]
  | resize newSize realloc => rfl

theorem Inv.newElement (hs : s.Inv) {members : List ℕ} (hgood : s.InRange (.newElement members)) :
    ∃ s', s.perform (.newElement members) = some s' ∧ s'.Inv := by
  refine ⟨_,rfl,hs.noFault,?_,hs.wellFormed.alloc trivial⟩
  refine hs.ledger.alloc (.other members) (fun q _ => ?_)
  rw [← List.count_append]
  exact (List.subperm_append_diff_self_of_count_le hgood).symm.count_eq q

theorem Inv.dup (hs : s.Inv) {p : ℕ} (hgood : s.InRange (.dup p)) : ∃ s', s.perform (.dup p) = some s' ∧ s'.Inv := by
  obtain ⟨heap,hdup,hledger⟩ := hs.ledger.dupAll hgood
  have hsingle : dupWrap s.heap p = some heap := by
    simp only [dupAll] at hdup
    cases h : dupWrap s.heap p <;> simp_all
  exact ⟨{ s with heap := heap, caller := p :: s.caller },by simp only [perform,hsingle]; rfl,
    hs.noFault,hledger,hs.wellFormed.dupAll hdup⟩

theorem Inv.free (hs : s.Inv) {p : ℕ} (hgood : s.InRange (.free p)) :
    ∃ s', s.perform (.free p) = some s' ∧ s'.Inv := by
  have hperm : ∀ q, q ≠ 0 → ([p] ++ s.caller.erase p).count q = s.caller.count q :=
    fun q _ => (List.perm_cons_erase hgood).symm.count_eq q
  obtain ⟨heap,hfree,hledger⟩ := (hs.ledger.congr hperm).freeAll
  exact ⟨{ s with heap := heap, caller := s.caller.erase p },
    by simp only [perform,freeValues,hfree]; rfl,hs.noFault,hledger,hs.wellFormed.freeValues hfree⟩

theorem Inv.createArray (hs : s.Inv) {origin : ArrayOrigin} (hgood : s.InRange (.createArray type origin)) :
    ∃ s', s.perform (.createArray type origin) = some s' ∧ s'.Inv := by
  obtain ⟨hfree,horigin,hlive⟩ := hgood
  obtain ⟨buf,ret,hmake,hrep⟩ : ∃ buf ret, makeArray type origin =
      some { ret := ret, array := .ofBuffer buf origin.list, dups := origin.list } ∧
      FtArray.Represents type buf origin.list := by
    cases origin with
    | create capacity =>
      obtain ⟨hcreate,hrep⟩ := FtArray.create_represents horigin.1 horigin.2
      change FtArray.create type capacity = _ at hcreate
      exact ⟨_,0,by rw [makeArray,hcreate]; rfl,hrep⟩
    | copy data =>
      obtain ⟨buf,hcopy,hrep⟩ := FtArray.copy_represents (T := type) horigin.1 horigin.2
      have href : type.isReference = true := isReference_of_needFree hfree
      exact ⟨buf,0,by rw [makeArray,hcopy,if_pos href]; rfl,hrep⟩
  obtain ⟨heap,hdup,hledger⟩ := hs.ledger.dupAll hlive
  let r := alloc heap (.array type (.ofBuffer buf origin.list))
  refine ⟨{ s with heap := r.2, caller := r.1 :: s.caller },?_,hs.noFault,?_,?_⟩
  · simp only [perform,hmake,Option.bind_eq_bind,Option.bind_some,hdup]
    rfl
  · refine hledger.alloc _ (fun q _ => ?_)
    rw [refs_ofBuffer hfree hrep,List.count_append]
  · exact (hs.wellFormed.dupAll hdup).alloc ⟨hfree,buf,_,rfl,hrep⟩

theorem Inv.call (hs : s.Inv) {array : ℕ} {op : ArrayOp} (hgood : s.InRange (.call array op)) :
    ∃ s', s.perform (.call array op) = some s' ∧ s'.Inv := by
  obtain ⟨rc,type,arr,hget,hrange,howned⟩ := hgood
  obtain ⟨hfree,buf,xs,rfl,hrep⟩ := hs.wellFormed array _ hget
  have href : type.isReference = true := isReference_of_needFree hfree
  obtain ⟨buf',ret,hcall,hrep'⟩ := ArrayOp.call_represents hrep hrange
  have hlive : s.HasRoom (op.dupped type) := by
    cases op with
    | append data realloc =>
      simp only [ArrayOp.dupped,href,if_true]
      exact howned
    | _ => exact fun _ hp => by simp [ArrayOp.dupped] at hp
  obtain ⟨heap1,hdup,hledger1⟩ := hs.ledger.dupAll hlive
  have hsame := dupAll_get hdup array
  obtain ⟨b1,hget1,hbody1⟩ : ∃ b1, heap1[array]? = some (some b1) ∧ b1.body = .array type (.ofBuffer buf xs) := by
    rw [hget] at hsame
    simpa using hsame
  have hexchange : ∀ q, q ≠ 0 → (ElementBody.refs b1.body).count q + (op.dupped type ++ s.caller).count q =
      (ElementBody.refs (.array type (.ofBuffer buf' (op.onList xs)))).count q +
        (op.freed type xs ++ s.caller).count q := by
    intro q _
    rw [hbody1,refs_ofBuffer hfree hrep,refs_ofBuffer hfree hrep']
    have hcount := count_onList href howned q
    simp only [List.count_append]
    omega
  obtain ⟨heap2,hset,hledger2⟩ := hledger1.setBody hget1 _ hexchange
  obtain ⟨heap3,hfrees,hledger3⟩ := hledger2.freeAll
  refine ⟨{ s with heap := heap3 },?_,hs.noFault,hledger3,?_⟩
  · simp only [perform,hget,hcall,Option.bind_eq_bind,Option.bind_some,hdup,hset,freeValues,hfrees]
    rfl
  · have hbody : ElementBody.WellFormed (.array type (.ofBuffer buf' (op.onList xs))) :=
      ⟨hfree,buf',_,rfl,hrep'⟩
    exact ((hs.wellFormed.dupAll hdup).setBody hbody hset).freeValues hfrees

theorem Inv.step (hs : s.Inv) {op : OwnershipOp P} (hgood : s.InRange op) : (s.step op).Inv := by
  obtain ⟨s',hperform,hs'⟩ : ∃ s', s.perform op = some s' ∧ s'.Inv := by
    cases op with
    | newElement members => exact hs.newElement hgood
    | dup p => exact hs.dup hgood
    | free p => exact hs.free hgood
    | createArray type origin => exact hs.createArray hgood
    | call array op => exact hs.call hgood
  rw [ArrayHeap.step,hs.noFault,if_neg (by simp),hperform]
  exact hs'

/-- Along every sequence of calls in range that inserts elements by `Append` only, each reference
count is the number of slots that hold the block plus the references of the caller. -/
theorem elements_balanced (ops : List (OwnershipOp P)) (h : Transition.Guarded step InRange ({} : ArrayHeap P) ops) :
    Transition.Always step Balanced ({} : ArrayHeap P) ops :=
  (h.always (I := Inv) (fun _ _ hs hgood => hs.step hgood) inv_init).mono
    (fun _ hs => ⟨hs.noFault,hs.ledger.rc_eq⟩)

def stringElement : ElementType .bits64 := ⟨.primitive .string,by decide⟩

/-- A string appended to an array is removed again, and both are freed. -/
theorem elements_balanced_of_append : Transition.Always step Balanced ({} : ArrayHeap .bits64)
      [.newElement [],.createArray stringElement (.create 1),.call 2 (.append 1 true),.free 1,
        .call 2 (.remove 0 1),.free 2] := by
  refine elements_balanced _ ⟨by simp [InRange],⟨rfl,⟨by decide,by decide⟩,by simp [HasRoom,ArrayOrigin.list]⟩,
    ⟨1,stringElement,⟨0,1,[some 0]⟩,rfl,⟨by decide,by decide⟩,
      by simp only [Owned,HasRoom]; decide⟩,List.Mem.tail _ (List.Mem.head _),
    ⟨1,stringElement,⟨1,1,[some 1]⟩,rfl,⟨by decide,by decide,by decide,by decide,by decide⟩,trivial⟩,
    List.Mem.head _,trivial⟩

/-- Inserting a string before position 0 takes no reference to it. -/
theorem insert_takes_no_reference : ¬ Transition.Always step Balanced ({} : ArrayHeap .bits64)
      [.newElement [],.createArray stringElement (.create 1),.call 2 (.insertBefore 0 [1] true)] := by
  intro h
  exact absurd (h.last.2 1 (by decide)) (by decide)

end ArrayHeap
end FeatureRuntime
