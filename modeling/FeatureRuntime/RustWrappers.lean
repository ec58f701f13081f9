import FeatureRuntime.RefCount
import FeatureRuntime.Transition

/-! The owning handles of the Rust framework crate over blocks of the C heap, and the reference
counts that their constructors, clones and accessors leave. -/
namespace FeatureRuntime

open RefCount

/-- The body of a block; the words of a managed array are the pointers of its elements. -/
inductive WrappedBody
  | array (managed : Bool) (capacity : ℕ) (elements : List ℕ)
  /-- A string, an `ArrayBuffer`, a JSON object or a struct, with the non-null members of a struct. -/
  | other (members : List ℕ)
  deriving DecidableEq

/-- The pointers `FeatureFreeValue` gives back with the block. -/
def WrappedBody.refs : WrappedBody → List ℕ
  | .array true _ elements => elements
  | .array false _ _ => []
  | .other members => members

/-- The element types of a `FeatureReferenceArray`; an object is a JSON object or a struct wrapper. -/
inductive ReferenceType
  | arrayBuffer
  | object
  deriving DecidableEq

/-- The types that own a reference; the elements of a primitive array are numbers or strings. -/
inductive WrapperType
  | ptr
  | string
  | reference (type : ReferenceType)
  | primitiveArray (strings : Bool)
  | referenceArray (type : ReferenceType)
  deriving DecidableEq

/-- Whether a block can be what a value of the type points to; an array type needs an array with its
kind of elements. -/
def WrapperType.fits : WrapperType → WrappedBody → Bool
  | .primitiveArray strings, .array managed _ _ => managed == strings
  | .referenceArray _, .array managed _ _ => managed
  | .primitiveArray _, .other _ => false
  | .referenceArray _, .other _ => false
  | _, _ => true

structure WrapperHandle where
  type : WrapperType
  ptr : ℕ
  deriving DecidableEq

/-- A sound C heap and the references that C holds to it. -/
structure BorrowedHeap where
  heap : Heap WrappedBody
  held : List ℕ
  ledger : Ledger WrappedBody.refs heap held

/-- The heap, the live Rust handles and the references that `into_raw` took out of handles. -/
structure RustWorld (B : BorrowedHeap) where
  heap : Heap WrappedBody := B.heap
  handles : List WrapperHandle := []
  raw : List ℕ := []
  fault : Bool := false

inductive WrapperOp
  /-- `new`; the capacity is that of an array. -/
  | new (type : WrapperType) (capacity : ℕ)
  | fromRaw (type : WrapperType) (ptr : ℕ)
  | clone (h : WrapperHandle)
  | intoRaw (h : WrapperHandle)
  | get (h : WrapperHandle) (idx : ℕ)
  | append (h item : WrapperHandle)
  /-- `FeaturePrimitiveArray::append` of a number. -/
  | appendNumber (h : WrapperHandle) (item : ℕ)
  | appendString (h item : WrapperHandle)
  | enlarge (h : WrapperHandle) (newSize : ℕ)
  | drop (h : WrapperHandle)

section Functions

variable (heap : Heap WrappedBody)

def featureFreeValue (p : ℕ) : Option (Heap WrappedBody) := freeAll WrappedBody.refs heap [p]

/-- `FeaturePtr::new`. -/
def featurePtrNew : ℕ × Heap WrappedBody := alloc heap (.other [])

/-- `FeaturePtr::from_raw` of a pointer that is not null. -/
def featurePtrFromRaw (p : ℕ) : Option (Heap WrappedBody) := dupWrap heap p

/-- `FeaturePtr::clone`. -/
def featurePtrClone (p : ℕ) : Option (Heap WrappedBody) :=
  (dupWrap heap p).bind (featurePtrFromRaw · p)

/-- A new block of C, wrapped by `from_raw` and then released. -/
def wrapNew (body : WrappedBody) : Option (ℕ × Heap WrappedBody) :=
  let r := alloc heap body
  ((featurePtrFromRaw r.2 r.1).bind (featureFreeValue · r.1)).map (fun heap => (r.1,heap))

/-- `FeatureString::new`. -/
def featureStringNew : Option (ℕ × Heap WrappedBody) := wrapNew heap (.other [])

/-- `FeatureArrayBuffer::from_vec`. -/
def featureArrayBufferFromVec : Option (ℕ × Heap WrappedBody) := wrapNew heap (.other [])

/-- `FeatureRawArray::new`. -/
def featureRawArrayNew (managed : Bool) (capacity : ℕ) : Option (ℕ × Heap WrappedBody) :=
  let r := alloc heap (.array managed capacity [])
  (featurePtrFromRaw r.2 r.1).map (fun heap => (r.1,heap))

/-- `FeatureRawArray::enlarge`. -/
def featureRawArrayEnlarge (capacity newSize : ℕ) : ℕ :=
  if newSize ≤ capacity then capacity else newSize

/-- `FeatureRawArray::append` of a word. -/
def featureRawArrayAppend (managed : Bool) (capacity : ℕ) (elements : List ℕ) (item : ℕ) :
    WrappedBody :=
  let capacity :=
    if elements.length ≥ capacity then featureRawArrayEnlarge capacity (capacity + 1) else capacity
  .array managed capacity (elements ++ [item])

end Functions

namespace RustWorld

variable {B : BorrowedHeap} (s : RustWorld B)

def own (type : WrapperType) (r : ℕ × Heap WrappedBody) : RustWorld B :=
  { s with heap := r.2, handles := ⟨type,r.1⟩ :: s.handles }

def new (type : WrapperType) (capacity : ℕ) : Option (RustWorld B) :=
  (match type with
    | .ptr | .reference .object => some (featurePtrNew s.heap)
    | .string => featureStringNew s.heap
    | .reference .arrayBuffer => featureArrayBufferFromVec s.heap
    | .primitiveArray strings => featureRawArrayNew s.heap strings capacity
    | .referenceArray _ => featureRawArrayNew s.heap true capacity).map (s.own type)

/-- `from_raw`; a pointer that is neither null nor to a block of the type is undefined behaviour. -/
def fromRaw (type : WrapperType) (p : ℕ) : Option (RustWorld B) :=
  if p = 0 then some s
  else
    match s.heap[p]? with
    | some (some b) =>
      if type.fits b.body then
        (featurePtrFromRaw s.heap p).map (fun heap => s.own type (p,heap))
      else none
    | _ => none

def clone (h : WrapperHandle) : Option (RustWorld B) :=
  (featurePtrClone s.heap h.ptr).map (fun heap => s.own h.type (h.ptr,heap))

def intoRaw (h : WrapperHandle) : RustWorld B :=
  { s with handles := s.handles.erase h, raw := h.ptr :: s.raw }

/-- `get`; that of a primitive array lends the element. -/
def get (h : WrapperHandle) (idx : ℕ) : Option (RustWorld B) :=
  match h.type, s.heap[h.ptr]? with
  | .referenceArray type, some (some ⟨_,.array _ _ elements⟩) =>
    match elements[idx]? with
    | some p =>
      if p = 0 then some s
      else (featurePtrFromRaw s.heap p).map (fun heap => s.own (.reference type) (p,heap))
    | none => some s
  | .referenceArray _, _ => none
  | _, _ => some s

/-- `FeatureRawArray::append` on the block of a handle. -/
def push (h : WrapperHandle) (item : ℕ) (handles : List WrapperHandle) : Option (RustWorld B) :=
  match s.heap[h.ptr]? with
  | some (some ⟨_,.array managed capacity elements⟩) =>
    (setBody s.heap h.ptr (featureRawArrayAppend managed capacity elements item)).map
      (fun heap => { s with heap := heap, handles := handles })
  | _ => none

/-- `append` of an item that is moved; a `FeatureString` is wider than the slots of an array. -/
def append (h item : WrapperHandle) : Option (RustWorld B) :=
  match h.type, item.type with
  | .referenceArray type, .reference type' =>
    if type = type' then s.push h item.ptr (s.handles.erase item) else some s
  | .primitiveArray true, .string => none
  | _, _ => some s

/-- `append_string`, which every primitive array has; a pointer is wider than a number. -/
def appendString (h item : WrapperHandle) : Option (RustWorld B) :=
  match h.type, item.type with
  | .primitiveArray true, .string => s.push h item.ptr (s.handles.erase item)
  | .primitiveArray false, .string => none
  | _, _ => some s

def enlarge (h : WrapperHandle) (newSize : ℕ) : Option (RustWorld B) :=
  match h.type, s.heap[h.ptr]? with
  | .primitiveArray _, some (some ⟨_,.array managed capacity elements⟩)
  | .referenceArray _, some (some ⟨_,.array managed capacity elements⟩) =>
    (setBody s.heap h.ptr (.array managed (featureRawArrayEnlarge capacity newSize) elements)).map
      (fun heap => { s with heap := heap })
  | .primitiveArray _, _ | .referenceArray _, _ => none
  | _, _ => some s

def drop (h : WrapperHandle) : Option (RustWorld B) :=
  (featureFreeValue s.heap h.ptr).map (fun heap => { s with heap := heap, handles := s.handles.erase h })

/-- One call; `none` is undefined behaviour. A program calls on handles that it owns. -/
def perform : WrapperOp → Option (RustWorld B)
  | .new type capacity => s.new type capacity
  | .fromRaw type p => s.fromRaw type p
  | .clone h => if h ∈ s.handles then s.clone h else some s
  | .intoRaw h => if h ∈ s.handles then some (s.intoRaw h) else some s
  | .get h idx => if h ∈ s.handles then s.get h idx else some s
  | .append h item => if h ∈ s.handles ∧ item ∈ s.handles then s.append h item else some s
  | .appendNumber h item =>
    if h ∈ s.handles ∧ h.type = .primitiveArray false then s.push h item s.handles else some s
  | .appendString h item => if h ∈ s.handles ∧ item ∈ s.handles then s.appendString h item else some s
  | .enlarge h newSize => if h ∈ s.handles then s.enlarge h newSize else some s
  | .drop h => if h ∈ s.handles then s.drop h else some s

def step (op : WrapperOp) : RustWorld B :=
  if s.fault then s else (s.perform op).getD { s with fault := true }

/-- The references that no block owns: those of handles, of `into_raw` and of C. -/
def external : List ℕ := s.handles.map WrapperHandle.ptr ++ (s.raw ++ B.held)

/-- Every reference count is the number of handles, raw references, slots and members, and
references of C. -/
def Counted : Prop :=
  s.fault = false ∧ ∀ p, p ≠ 0 → rcOf s.heap p =
    (s.handles.map WrapperHandle.ptr).count p + s.raw.count p + heldBy WrappedBody.refs s.heap p + B.held.count p

/-- When no handle and no raw reference is left and the blocks of C hold what they held, every
count is what C left, and no block of Rust is left. -/
def Settled : Prop :=
  s.handles = [] → s.raw = [] →
    (∀ (p : ℕ) (b b' : Block WrappedBody), B.heap[p]? = some (some b) → s.heap[p]? = some (some b') →
      b'.body.refs = b.body.refs) →
    ∀ p, rcOf s.heap p = rcOf B.heap p

/-- The element that `get` of a reference array looks at. -/
def element (h : WrapperHandle) (idx : ℕ) : Option ℕ :=
  match h.type, s.heap[h.ptr]? with
  | .referenceArray _, some (some ⟨_,.array _ _ elements⟩) => elements[idx]?
  | _, _ => none

/-- No array is made by Rust, no handle is cloned, `from_raw` gets valid pointers, the items of a
primitive array fit its slots, and no block is driven to `2 ^ 32` references. -/
def Sound : WrapperOp → Prop
  | .new type _ => ∀ strings item, type ≠ .primitiveArray strings ∧ type ≠ .referenceArray item
  | .fromRaw type p =>
    p = 0 ∨ ∃ b, s.heap[p]? = some (some b) ∧ type.fits b.body = true ∧ b.rc + 1 < 2 ^ 32
  | .clone h => h ∉ s.handles
  | .get h idx => h ∈ s.handles → ∀ p, s.element h idx = some p → p = 0 ∨ rcOf s.heap p + 1 < 2 ^ 32
  | .append h item =>
    h ∈ s.handles → item ∈ s.handles → h.type = .primitiveArray true → item.type ≠ .string
  | .appendString h item =>
    h ∈ s.handles → item ∈ s.handles → h.type = .primitiveArray false → item.type ≠ .string
  | _ => True

/-- The references of the ledger, the blocks of C with at least what they held, and the blocks of
Rust, which hold nothing. -/
structure Lent (B : BorrowedHeap) (heap : Heap WrappedBody) (handles : List WrapperHandle)
    (raw : List ℕ) : Prop where
  ledger : Ledger WrappedBody.refs heap (handles.map WrapperHandle.ptr ++ (raw ++ B.held))
  length : B.heap.length ≤ heap.length
  kept : ∀ (p : ℕ) (b : Block WrappedBody), B.heap[p]? = some (some b) →
    ∃ b', heap[p]? = some (some b') ∧ b.body.refs ⊆ b'.body.refs
  origin : ∀ (p : ℕ) (b : Block WrappedBody), heap[p]? = some (some b) →
    (∃ c, B.heap[p]? = some (some c)) ∨ (B.heap.length ≤ p ∧ b.body = .other [])
  fits : ∀ h ∈ handles, h.ptr ≠ 0 ∧ ∀ (b : Block WrappedBody), heap[h.ptr]? = some (some b) →
    h.type.fits b.body = true

theorem lent_init : Lent B B.heap [] [] where
  ledger := B.ledger
  length := le_rfl
  kept _ b hb := ⟨b,hb,List.Subset.refl _⟩
  origin _ b hb := .inl ⟨b,hb⟩
  fits := by simp

namespace Lent

variable {heap : Heap WrappedBody} {handles : List WrapperHandle} {raw : List ℕ}

theorem of_bodies (hl : Lent B heap handles raw) {heap' : Heap WrappedBody} {raw' : List ℕ}
    (hledger : Ledger WrappedBody.refs heap' (handles.map WrapperHandle.ptr ++ (raw' ++ B.held)))
    (hlength : heap.length ≤ heap'.length)
    (hkept : ∀ (p : ℕ) (b : Block WrappedBody), (∃ c, B.heap[p]? = some (some c)) →
      heap[p]? = some (some b) → ∃ b', heap'[p]? = some (some b') ∧ b'.body = b.body)
    (hget : ∀ (p : ℕ) (b' : Block WrappedBody), heap'[p]? = some (some b') →
      ∃ b, heap[p]? = some (some b) ∧ b.body = b'.body) : Lent B heap' handles raw' where
  ledger := hledger
  length := hl.length.trans hlength
  kept p b hb := by
    obtain ⟨b1,hb1,hsub⟩ := hl.kept p b hb
    obtain ⟨b',hb',hbody⟩ := hkept p b1 ⟨b,hb⟩ hb1
    exact ⟨b',hb',hbody ▸ hsub⟩
  origin p b' hb' := by
    obtain ⟨b,hb,hbody⟩ := hget p b' hb'
    rw [← hbody]
    exact hl.origin p b hb
  fits h hh := by
    refine ⟨(hl.fits h hh).1,fun b' hb' => ?_⟩
    obtain ⟨b,hb,hbody⟩ := hget h.ptr b' hb'
    rw [← hbody]
    exact (hl.fits h hh).2 b hb

theorem alloc (hl : Lent B heap handles raw) :
    Lent B (RefCount.alloc heap (.other [])).2 handles (heap.length :: raw) := by
  have hget : ∀ p, (heap ++ [some ⟨1,.other []⟩])[p]? =
      if p = heap.length then some (some ⟨1,WrappedBody.other []⟩) else heap[p]? := by
    intro p
    rcases Nat.lt_trichotomy p heap.length with hlt | rfl | hgt
    · rw [if_neg (by omega),List.getElem?_append_left hlt]
    · simp
    · rw [if_neg (by omega),List.getElem?_eq_none (by simp; omega),List.getElem?_eq_none (by omega)]
  have hledger := hl.ledger.alloc (.other []) (fun _ _ => (Nat.zero_add _).symm)
  refine ⟨hledger.congr (fun q _ => ?_),?_,fun p b hb => ?_,fun p b hb => ?_,fun h hh => ?_⟩
  · simp only [RefCount.alloc,List.count_append,List.count_cons,List.cons_append]
    omega
  · simpa [RefCount.alloc] using Nat.le_succ_of_le hl.length
  · obtain ⟨b',hb',hsub⟩ := hl.kept p b hb
    refine ⟨b',?_,hsub⟩
    have hlt := (List.getElem?_eq_some_iff.mp hb').1
    simp only [RefCount.alloc,hget]
    rw [if_neg (by omega),hb']
  · simp only [RefCount.alloc,hget] at hb
    split_ifs at hb with hp
    · obtain rfl := Option.some.inj (Option.some.inj hb)
      exact .inr ⟨hp ▸ hl.length,rfl⟩
    · exact hl.origin p b hb
  · obtain ⟨hne,hfits⟩ := hl.fits h hh
    refine ⟨hne,fun b hb => ?_⟩
    obtain ⟨c,hc⟩ := hl.ledger.live_of_mem
      (List.mem_append_left _ (List.mem_map_of_mem hh)) hne
    have hlt := (List.getElem?_eq_some_iff.mp hc).1
    simp only [RefCount.alloc,hget] at hb
    rw [if_neg (by omega)] at hb
    exact hfits b hb

theorem dup (hl : Lent B heap handles raw) {p : ℕ} {b : Block WrappedBody} (hb : heap[p]? = some (some b))
    (hroom : b.rc + 1 < 2 ^ 32) : ∃ heap', featurePtrFromRaw heap p = some heap' ∧ Lent B heap' handles (p :: raw) ∧
      heap'[p]? = some (some { b with rc := b.rc + 1 }) := by
  obtain ⟨heap',hdup,hledger⟩ := hl.ledger.dup hb
  have hset : heap.set p (some { b with rc := b.rc + 1 }) = heap' := by
    simpa [RefCount.dup,hb] using hdup
  have hget : ∀ q, heap'[q]? =
      if p = q then some (some { b with rc := b.rc + 1 }) else heap[q]? := by
    intro q
    rw [← hset,getElem?_set_cell hb]
  refine ⟨heap',(hl.ledger.dupWrap hb hroom).trans hdup,hl.of_bodies (hledger.congr (fun q _ => ?_)) ?_ (fun q c _ hc => ?_)
    (fun q c hc => ?_),by rw [hget,if_pos rfl]⟩
  · simp only [List.count_append,List.count_cons,List.cons_append]
    omega
  · rw [← hset,List.length_set]
  · rw [hget]
    split_ifs with hpq
    · subst hpq
      obtain rfl : b = c := by simpa [hb] using hc
      exact ⟨_,rfl,rfl⟩
    · exact ⟨c,hc,rfl⟩
  · rw [hget] at hc
    split_ifs at hc with hpq
    · obtain rfl := Option.some.inj (Option.some.inj hc)
      exact ⟨b,hpq ▸ hb,rfl⟩
    · exact ⟨c,hc,rfl⟩

theorem rooted (hl : Lent B heap handles raw) (p : ℕ) (hp : ∃ c, B.heap[p]? = some (some c)) :
    p ∈ B.held ∨ ∃ (q : ℕ) (b : Block WrappedBody),
      (∃ c, B.heap[q]? = some (some c)) ∧ heap[q]? = some (some b) ∧ p ∈ b.body.refs := by
  obtain ⟨c,hc⟩ := hp
  have hpos := B.ledger.rc_pos p c hc
  have hrc := B.ledger.rc_eq p (B.ledger.ne_zero hc)
  rw [rcOf_of_get hc] at hrc
  by_cases hheld : 0 < B.held.count p
  · exact .inl (List.count_pos_iff.mp hheld)
  · obtain ⟨q,b,hq,hpq⟩ := heldBy_pos_iff.mp (by omega : 0 < heldBy WrappedBody.refs B.heap p)
    obtain ⟨b',hb',hsub⟩ := hl.kept q b hq
    exact .inr ⟨q,b',⟨b,hq⟩,hb',hsub hpq⟩

theorem free {p : ℕ} (hl : Lent B heap handles (p :: raw)) :
    ∃ heap', featureFreeValue heap p = some heap' ∧ Lent B heap' handles raw := by
  have hcongr : Ledger WrappedBody.refs heap ([p] ++ (handles.map WrapperHandle.ptr ++ (raw ++ B.held))) := by
    refine hl.ledger.congr (fun q _ => ?_)
    simp only [List.count_append,List.count_cons,List.count_nil,List.cons_append]
    omega
  obtain ⟨heap',hfree,hledger⟩ := hcongr.freeAll
  refine ⟨heap',hfree,hl.of_bodies hledger (freeValues_length hfree).ge (fun q b hq hb => ?_)
    (fun q b' hb' => freeValues_get hfree hb')⟩
  refine hcongr.freeAll_keeps (S := fun r => ∃ c, B.heap[r]? = some (some c)) (fun r hr => ?_) hfree hq hb
  exact (hl.rooted r hr).imp_left (fun hr => by simp [hr])

theorem take {type : WrapperType} {p : ℕ} (hl : Lent B heap handles (p :: raw)) (hp : p ≠ 0)
    (hfits : ∀ (b : Block WrappedBody), heap[p]? = some (some b) → type.fits b.body = true) :
    Lent B heap (⟨type,p⟩ :: handles) raw where
  ledger := by
    refine hl.ledger.congr (fun q _ => ?_)
    simp only [List.map_cons,List.count_append,List.count_cons,List.cons_append]
    omega
  length := hl.length
  kept := hl.kept
  origin := hl.origin
  fits := List.forall_mem_cons.mpr ⟨⟨hp,hfits⟩,hl.fits⟩

theorem release {h : WrapperHandle} (hl : Lent B heap handles raw) (hh : h ∈ handles) :
    Lent B heap (handles.erase h) (h.ptr :: raw) where
  ledger := by
    refine hl.ledger.congr (fun q _ => ?_)
    have hperm := ((List.perm_cons_erase hh).map WrapperHandle.ptr).count_eq q
    simp only [List.map_cons,List.count_append,List.count_cons,List.cons_append] at hperm ⊢
    omega
  length := hl.length
  kept := hl.kept
  origin := hl.origin
  fits k hk := hl.fits k (List.mem_of_mem_erase hk)

theorem live (hl : Lent B heap handles raw) {h : WrapperHandle} (hh : h ∈ handles) :
    ∃ b, heap[h.ptr]? = some (some b) ∧ h.type.fits b.body = true := by
  obtain ⟨hne,hfits⟩ := hl.fits h hh
  obtain ⟨b,hb⟩ := hl.ledger.live_of_mem (List.mem_append_left _ (List.mem_map_of_mem hh)) hne
  exact ⟨b,hb,hfits b hb⟩

theorem setArray {p : ℕ} {rc capacity : ℕ} {managed : Bool} {elements : List ℕ} (capacity' : ℕ)
    (items taken : List ℕ) (hl : Lent B heap handles (taken ++ raw))
    (hb : heap[p]? = some (some ⟨rc,.array managed capacity elements⟩))
    (htaken : taken = if managed then items else []) :
    ∃ heap', setBody heap p (.array managed capacity' (elements ++ items)) = some heap' ∧
      Lent B heap' handles raw := by
  have hexchange : ∀ q, q ≠ 0 → (WrappedBody.array managed capacity elements).refs.count q +
          (handles.map WrapperHandle.ptr ++ (taken ++ raw ++ B.held)).count q =
        (WrappedBody.array managed capacity' (elements ++ items)).refs.count q +
          (handles.map WrapperHandle.ptr ++ (raw ++ B.held)).count q := by
    intro q _
    cases managed
    · simp [htaken,WrappedBody.refs]
    · simp only [htaken,if_true,WrappedBody.refs,List.count_append]
      omega
  obtain ⟨heap',hset,hledger⟩ := hl.ledger.setBody hb _ hexchange
  have hheap : heap' = heap.set p (some ⟨rc,.array managed capacity' (elements ++ items)⟩) := by
    simpa [RefCount.setBody,hb] using hset.symm
  have hget : ∀ q, heap'[q]? = if p = q then
      some (some ⟨rc,.array managed capacity' (elements ++ items)⟩) else heap[q]? := by
    intro q
    rw [hheap,getElem?_set_cell hb]
  refine ⟨heap',hset,hledger,?_,fun q b hq => ?_,fun q b hq => ?_,fun h hh => ?_⟩
  · rw [hheap,List.length_set]
    exact hl.length
  · obtain ⟨b',hb',hsub⟩ := hl.kept q b hq
    rw [hget]
    split_ifs with hpq
    · subst hpq
      obtain rfl : (⟨rc,.array managed capacity elements⟩ : Block WrappedBody) = b' := by
        simpa [hb] using hb'
      refine ⟨_,rfl,List.Subset.trans hsub ?_⟩
      cases managed
      · exact List.Subset.refl _
      · exact List.subset_append_left _ _
    · exact ⟨b',hb',hsub⟩
  · rw [hget] at hq
    split_ifs at hq with hpq
    · subst hpq
      exact (hl.origin p _ hb).imp_right (fun h => absurd h.2 (by simp))
    · exact hl.origin q b hq
  · obtain ⟨hne,hfits⟩ := hl.fits h hh
    refine ⟨hne,fun b hq => ?_⟩
    rw [hget] at hq
    split_ifs at hq with hpq
    · obtain rfl := Option.some.inj (Option.some.inj hq)
      have hold := hfits _ (hpq ▸ hb)
      cases htype : h.type <;> simp_all [WrapperType.fits]
    · exact hfits b hq

end Lent
structure Inv (s : RustWorld B) : Prop where
  noFault : s.fault = false
  lent : Lent B s.heap s.handles s.raw

variable {s : RustWorld B}

theorem Inv.counted (hs : s.Inv) : s.Counted := by
  refine ⟨hs.noFault,fun p hp => ?_⟩
  rw [hs.lent.ledger.rc_eq p hp,List.count_append,List.count_append]
  omega

/-- The blocks of Rust hold nothing, so those of C account for all slots and members. -/
theorem heldBy_of_lent {heap : Heap WrappedBody} {handles : List WrapperHandle} {raw : List ℕ}
    (hl : Lent B heap handles raw)
    (hsame : ∀ (p : ℕ) (b b' : Block WrappedBody), B.heap[p]? = some (some b) →
      heap[p]? = some (some b') → b'.body.refs = b.body.refs) (p : ℕ) :
    heldBy WrappedBody.refs heap p = heldBy WrappedBody.refs B.heap p := by
  have hfront : (heap.take B.heap.length).map (cellRefs WrappedBody.refs) =
      B.heap.map (cellRefs WrappedBody.refs) := by
    apply List.ext_getElem?
    intro q
    rw [List.getElem?_map,List.getElem?_map,List.getElem?_take]
    split_ifs with hq
    · have hheap : q < heap.length := hq.trans_le hl.length
      rw [List.getElem?_eq_getElem hheap,List.getElem?_eq_getElem hq,Option.map_some,Option.map_some]
      congr 1
      cases hcell : B.heap[q] with
      | none =>
        cases hcell' : heap[q] with
        | none => rfl
        | some b' =>
          rcases hl.origin q b' (by rw [List.getElem?_eq_getElem hheap,hcell']) with ⟨c,hc⟩ | ⟨hle,_⟩
          · simp [List.getElem?_eq_getElem hq,hcell] at hc
          · omega
      | some b =>
        have hb : B.heap[q]? = some (some b) := by rw [List.getElem?_eq_getElem hq,hcell]
        obtain ⟨b',hb',_⟩ := hl.kept q b hb
        have hcell' : heap[q] = some b' := by
          simpa [List.getElem?_eq_getElem hheap] using hb'
        rw [hcell']
        exact hsame q b b' hb hb'
    · rw [List.getElem?_eq_none (Nat.le_of_not_lt hq)]
  have hback : ∀ cell ∈ heap.drop B.heap.length, cellRefs WrappedBody.refs cell = [] := by
    intro cell hcell
    obtain ⟨q,hq⟩ := List.mem_iff_getElem?.mp hcell
    rw [List.getElem?_drop] at hq
    cases cell with
    | none => rfl
    | some b =>
      rcases hl.origin _ b hq with ⟨c,hc⟩ | ⟨_,hbody⟩
      · have := (List.getElem?_eq_some_iff.mp hc).1
        omega
      · simp [cellRefs,hbody,WrappedBody.refs]
  have hflat : ∀ h : Heap WrappedBody, heldBy WrappedBody.refs h p =
      (h.flatMap (cellRefs WrappedBody.refs)).count p := fun _ => List.count_flatMap.symm
  have hrest : (heap.drop B.heap.length).flatMap (cellRefs WrappedBody.refs) = [] :=
    List.flatMap_eq_nil_iff.mpr hback
  rw [hflat,hflat,← List.take_append_drop B.heap.length heap,List.flatMap_append,hrest,
    List.append_nil,List.flatMap_def,List.flatMap_def,hfront]

theorem Inv.settled (hs : s.Inv) : s.Settled := by
  intro hhandles hraw hsame p
  have hl := hs.lent
  rcases Nat.eq_zero_or_pos p with rfl | hp
  · simp [rcOf,hl.ledger.null,B.ledger.null]
  · have hrc := hl.ledger.rc_eq p hp.ne'
    rw [hhandles,hraw] at hrc
    rw [hrc,B.ledger.rc_eq p hp.ne',heldBy_of_lent hl hsame]
    rfl

variable {type : WrapperType}

theorem Inv.new (hs : s.Inv) {capacity : ℕ}
    (hgood : s.Sound (.new type capacity)) : ∃ s', s.new type capacity = some s' ∧ s'.Inv := by
  have hne : s.heap.length ≠ 0 := by
    have := (List.getElem?_eq_some_iff.mp hs.lent.ledger.null).1
    omega
  have halloc := hs.lent.alloc
  have hget : (RefCount.alloc s.heap (.other [])).2[s.heap.length]? = some (some ⟨1,.other []⟩) := by
    simp [RefCount.alloc]
  have hptr : ∀ type : WrapperType, (∀ body, type.fits body = true) → (s.own type (featurePtrNew s.heap)).Inv := by
    intro type hfits
    exact ⟨hs.noFault,halloc.take hne (fun b _ => hfits b.body)⟩
  have hwrap : ∀ type : WrapperType, (∀ body, type.fits body = true) →
      ∃ s', (wrapNew s.heap (.other [])).map (s.own type) = some s' ∧ s'.Inv := by
    intro type hfits
    obtain ⟨heap1,hdup,hlent1,_⟩ := halloc.dup hget (show 1 + 1 < 2 ^ 32 by decide)
    obtain ⟨heap2,hfree,hlent2⟩ := hlent1.free
    refine ⟨s.own type (s.heap.length,heap2),?_,hs.noFault,hlent2.take hne (fun b _ => hfits b.body)⟩
    have hraw : featurePtrFromRaw (RefCount.alloc s.heap (.other [])).2
        (RefCount.alloc s.heap (.other [])).1 = some heap1 := hdup
    have hrel : featureFreeValue heap1 (RefCount.alloc s.heap (.other [])).1 = some heap2 := hfree
    simp only [wrapNew,hraw,Option.bind_some,hrel,Option.map_some]
    rfl
  cases type with
  | ptr => exact ⟨_,rfl,hptr .ptr (fun body => by cases body <;> rfl)⟩
  | string => exact hwrap .string (fun body => by cases body <;> rfl)
  | reference item =>
    cases item with
    | arrayBuffer => exact hwrap _ (fun body => by cases body <;> rfl)
    | object => exact ⟨_,rfl,hptr _ (fun body => by cases body <;> rfl)⟩
  | primitiveArray strings => exact absurd rfl (hgood strings .object).1
  | referenceArray item => exact absurd rfl (hgood true item).2

theorem Inv.own (hs : s.Inv) {p : ℕ} {b : Block WrappedBody}
    (hb : s.heap[p]? = some (some b)) (hfits : type.fits b.body = true) (hroom : b.rc + 1 < 2 ^ 32) :
    ∃ s', (featurePtrFromRaw s.heap p).map (fun heap => s.own type (p,heap)) = some s' ∧ s'.Inv := by
  obtain ⟨heap,hdup,hlent,hget⟩ := hs.lent.dup hb hroom
  refine ⟨s.own type (p,heap),by rw [hdup,Option.map_some],hs.noFault,?_⟩
  refine hlent.take (hs.lent.ledger.ne_zero hb) (fun c hc => ?_)
  obtain rfl := Option.some.inj (Option.some.inj (hget.symm.trans hc))
  exact hfits

theorem Inv.fromRaw (hs : s.Inv) {p : ℕ}
    (hgood : s.Sound (.fromRaw type p)) : ∃ s', s.fromRaw type p = some s' ∧ s'.Inv := by
  unfold RustWorld.fromRaw
  split_ifs with hp
  · exact ⟨s,rfl,hs⟩
  · obtain ⟨b,hb,hfits,hroom⟩ := hgood.resolve_left hp
    rw [hb]
    simp only [hfits,if_true]
    exact hs.own hb hfits hroom

variable {h : WrapperHandle}

theorem Inv.intoRaw (hs : s.Inv) (hh : h ∈ s.handles) : (s.intoRaw h).Inv :=
  ⟨hs.noFault,hs.lent.release hh⟩

theorem Inv.drop (hs : s.Inv) (hh : h ∈ s.handles) : ∃ s', s.drop h = some s' ∧ s'.Inv := by
  obtain ⟨heap,hfree,hlent⟩ := (hs.lent.release hh).free
  exact ⟨{ s with heap := heap, handles := s.handles.erase h },
    by rw [RustWorld.drop,hfree,Option.map_some],hs.noFault,hlent⟩

theorem Inv.array (hs : s.Inv) (hh : h ∈ s.handles) :
    (∀ strings, h.type = .primitiveArray strings → ∃ rc capacity elements,
      s.heap[h.ptr]? = some (some ⟨rc,.array strings capacity elements⟩)) ∧
    (∀ item, h.type = .referenceArray item → ∃ rc capacity elements,
      s.heap[h.ptr]? = some (some ⟨rc,.array true capacity elements⟩)) := by
  obtain ⟨⟨rc,body⟩,hb,hfits⟩ := hs.lent.live hh
  constructor
  · intro strings htype
    rw [htype] at hfits
    cases body with
    | array managed capacity elements =>
      obtain rfl : managed = strings := by simpa [WrapperType.fits] using hfits
      exact ⟨rc,capacity,elements,hb⟩
    | other members => simp [WrapperType.fits] at hfits
  · intro item htype
    rw [htype] at hfits
    cases body with
    | array managed capacity elements =>
      obtain rfl : managed = true := by simpa [WrapperType.fits] using hfits
      exact ⟨rc,capacity,elements,hb⟩
    | other members => simp [WrapperType.fits] at hfits

theorem Inv.get (hs : s.Inv) (hh : h ∈ s.handles) {idx : ℕ} (hgood : s.Sound (.get h idx)) :
    ∃ s', s.get h idx = some s' ∧ s'.Inv := by
  unfold RustWorld.get
  cases htype : h.type with
  | referenceArray item =>
    obtain ⟨rc,capacity,elements,hb⟩ := (hs.array hh).2 item htype
    simp only [hb]
    cases hslot : elements[idx]? with
    | none => exact ⟨s,rfl,hs⟩
    | some p =>
      simp only
      split_ifs with hp
      · exact ⟨s,rfl,hs⟩
      · have hheld : 0 < heldBy WrappedBody.refs s.heap p :=
          heldBy_pos_iff.mpr ⟨h.ptr,_,hb,show p ∈ elements from List.mem_of_getElem? hslot⟩
        have hrc := hs.lent.ledger.rc_eq p hp
        obtain ⟨c,hc⟩ := exists_of_rcOf_pos (h := s.heap) (p := p) (by omega)
        have hroom := (hgood hh p (by simp only [element,htype,hb,hslot])).resolve_left hp
        rw [rcOf_of_get hc] at hroom
        exact hs.own hc (by cases c.body <;> rfl) hroom
  | _ => exact ⟨s,rfl,hs⟩

theorem Inv.push {handles : List WrapperHandle}
    {rc capacity item : ℕ} {managed : Bool} {elements : List ℕ} (hs : s.Inv) (taken : List ℕ)
    (hl : Lent B s.heap handles (taken ++ s.raw))
    (hb : s.heap[h.ptr]? = some (some ⟨rc,.array managed capacity elements⟩))
    (htaken : taken = if managed then [item] else []) :
    ∃ s', s.push h item handles = some s' ∧ s'.Inv := by
  have hgrown : ∃ capacity', featureRawArrayAppend managed capacity elements item =
      .array managed capacity' (elements ++ [item]) := ⟨_,rfl⟩
  obtain ⟨capacity',happend⟩ := hgrown
  obtain ⟨heap,hset,hlent⟩ := hl.setArray capacity' [item] taken hb htaken
  refine ⟨{ s with heap := heap, handles := handles },?_,hs.noFault,hlent⟩
  simp only [RustWorld.push,hb,happend,hset,Option.map_some]

theorem Inv.append (hs : s.Inv) {h item : WrapperHandle} (hh : h ∈ s.handles)
    (hitem : item ∈ s.handles) (hgood : s.Sound (.append h item)) :
    ∃ s', s.append h item = some s' ∧ s'.Inv := by
  have hgood := hgood hh hitem
  unfold RustWorld.append
  split
  · next type type' htype htype' =>
    split_ifs
    · obtain ⟨rc,capacity,elements,hb⟩ := (hs.array hh).2 type htype
      exact hs.push [item.ptr] (hs.lent.release hitem) hb rfl
    · exact ⟨s,rfl,hs⟩
  · next htype htype' => exact absurd htype' (hgood htype)
  · exact ⟨s,rfl,hs⟩

theorem Inv.appendNumber (hs : s.Inv) (hh : h ∈ s.handles) (htype : h.type = .primitiveArray false) (item : ℕ) :
    ∃ s', s.push h item s.handles = some s' ∧ s'.Inv := by
  obtain ⟨rc,capacity,elements,hb⟩ := (hs.array hh).1 false htype
  exact hs.push [] hs.lent hb rfl

theorem Inv.appendString (hs : s.Inv) {h item : WrapperHandle} (hh : h ∈ s.handles)
    (hitem : item ∈ s.handles) (hgood : s.Sound (.appendString h item)) :
    ∃ s', s.appendString h item = some s' ∧ s'.Inv := by
  have hgood := hgood hh hitem
  unfold RustWorld.appendString
  split
  · next htype htype' =>
    obtain ⟨rc,capacity,elements,hb⟩ := (hs.array hh).1 true htype
    exact hs.push [item.ptr] (hs.lent.release hitem) hb rfl
  · next htype htype' => exact absurd htype' (hgood htype)
  · exact ⟨s,rfl,hs⟩

theorem Inv.enlarge (hs : s.Inv) (hh : h ∈ s.handles) (newSize : ℕ) :
    ∃ s', s.enlarge h newSize = some s' ∧ s'.Inv := by
  have hgrow : ∀ {rc capacity : ℕ} {managed : Bool} {elements : List ℕ},
      s.heap[h.ptr]? = some (some ⟨rc,.array managed capacity elements⟩) →
      ∃ s' : RustWorld B, (setBody s.heap h.ptr
        (.array managed (featureRawArrayEnlarge capacity newSize) elements)).map
          (fun heap => { s with heap := heap }) = some s' ∧ s'.Inv := by
    intro rc capacity managed elements hb
    obtain ⟨heap,hset,hlent⟩ := hs.lent.setArray (featureRawArrayEnlarge capacity newSize) [] [] hb
      (by cases managed <;> rfl)
    rw [List.append_nil] at hset
    exact ⟨{ s with heap := heap },by rw [hset,Option.map_some],hs.noFault,hlent⟩
  unfold RustWorld.enlarge
  cases htype : h.type with
  | primitiveArray strings =>
    obtain ⟨rc,capacity,elements,hb⟩ := (hs.array hh).1 strings htype
    simp only [hb]
    exact hgrow hb
  | referenceArray item =>
    obtain ⟨rc,capacity,elements,hb⟩ := (hs.array hh).2 item htype
    simp only [hb]
    exact hgrow hb
  | _ => exact ⟨s,rfl,hs⟩

variable {op : WrapperOp}

theorem Inv.step (hs : s.Inv) (hgood : s.Sound op) : (s.step op).Inv := by
  obtain ⟨s',hperform,hs'⟩ : ∃ s', s.perform op = some s' ∧ s'.Inv := by
    have hskip : ∃ s', some s = some s' ∧ s'.Inv := ⟨s,rfl,hs⟩
    cases op with
    | new type capacity => exact hs.new hgood
    | fromRaw type p => exact hs.fromRaw hgood
    | clone h => rwa [perform,if_neg hgood]
    | intoRaw h =>
      by_cases hh : h ∈ s.handles
      · exact ⟨s.intoRaw h,if_pos hh,hs.intoRaw hh⟩
      · rwa [perform,if_neg hh]
    | get h idx =>
      by_cases hh : h ∈ s.handles
      · rw [perform,if_pos hh]
        exact hs.get hh hgood
      · rwa [perform,if_neg hh]
    | append h item =>
      by_cases hh : h ∈ s.handles ∧ item ∈ s.handles
      · rw [perform,if_pos hh]
        exact hs.append hh.1 hh.2 hgood
      · rwa [perform,if_neg hh]
    | appendNumber h item =>
      by_cases hh : h ∈ s.handles ∧ h.type = .primitiveArray false
      · rw [perform,if_pos hh]
        exact hs.appendNumber hh.1 hh.2 item
      · rwa [perform,if_neg hh]
    | appendString h item =>
      by_cases hh : h ∈ s.handles ∧ item ∈ s.handles
      · rw [perform,if_pos hh]
        exact hs.appendString hh.1 hh.2 hgood
      · rwa [perform,if_neg hh]
    | enlarge h newSize =>
      by_cases hh : h ∈ s.handles
      · rw [perform,if_pos hh]
        exact hs.enlarge hh newSize
      · rwa [perform,if_neg hh]
    | drop h =>
      by_cases hh : h ∈ s.handles
      · rw [perform,if_pos hh]
        exact hs.drop hh
      · rwa [perform,if_neg hh]
  rw [RustWorld.step,hs.noFault,if_neg (by simp),hperform]
  exact hs'

theorem not_counted {s' : RustWorld B} {p : ℕ} (hp : p ≠ 0) {ext : List ℕ}
    (hledger : Ledger WrappedBody.refs s'.heap ext)
    (hmore : s'.external.count p < ext.count p) : ¬ s'.Counted := by
  rintro ⟨_,hcount⟩
  have hrc := hledger.rc_eq p hp
  have hs' := hcount p hp
  simp only [external,List.count_append] at hmore
  omega

theorem not_counted_of_fault (hs : s.Inv) (hnone : s.perform op = none) : ¬ (s.step op).Counted := by
  rw [RustWorld.step,hs.noFault,if_neg (by simp),hnone]
  exact fun h => Bool.noConfusion h.1

/-- A handle over a block whose count is not one more than before. -/
theorem Inv.not_counted_own (hs : s.Inv) {p : ℕ} {b : Block WrappedBody} (hb : s.heap[p]? = some (some b)) {rc : ℕ}
    (hrc : rc ≠ b.rc + 1) (type : WrapperType) : ¬ (s.own type (p,s.heap.set p (some { b with rc := rc }))).Counted := by
  rintro ⟨_,hcount⟩
  have hne := hs.lent.ledger.ne_zero hb
  have hold := hs.counted.2 p hne
  have hnew := hcount p hne
  have hheld := heldBy_set WrappedBody.refs hb (some { b with rc := rc }) p
  rw [rcOf_of_get hb] at hold
  simp only [RustWorld.own,rcOf_set hb,if_true,Option.elim_some,List.map_cons,List.count_cons_self] at hnew
  simp only [cellRefs,Option.elim_some] at hheld
  omega

/-- A count that comes round is not one more than before. -/
theorem raised_ne {rc : ℕ} (hfull : ¬ rc + 1 < 2 ^ 32) : raised rc ≠ rc + 1 := by
  unfold raised
  split_ifs <;> omega

theorem raised_twice_ne (rc : ℕ) (hpos : 0 < rc) : raised (raised rc) ≠ rc + 1 := by
  unfold raised
  split_ifs <;> omega

/-- The element that `get` looks at is held by the array, and gets a handle. -/
theorem Inv.element_eq_some (hs : s.Inv) (hh : h ∈ s.handles) {idx p : ℕ} (helement : s.element h idx = some p) :
    0 < heldBy WrappedBody.refs s.heap p ∧ ∃ item, s.get h idx =
      if p = 0 then some s else (featurePtrFromRaw s.heap p).map (fun heap => s.own (.reference item) (p,heap)) := by
  unfold RustWorld.element at helement
  split at helement
  · next item rc managed capacity elements htype hb =>
    obtain ⟨rc',capacity',elements',hb'⟩ := (hs.array hh).2 item htype
    rw [hb'] at hb
    obtain ⟨rfl,rfl⟩ : managed = true ∧ elements = elements' := by simp_all
    refine ⟨heldBy_pos_iff.mpr ⟨h.ptr,_,hb',show p ∈ elements from List.mem_of_getElem? helement⟩,item,?_⟩
    simp only [RustWorld.get,htype,hb',helement]
  · simp at helement

theorem featurePtrFromRaw_eq {heap : Heap WrappedBody} {p : ℕ} {b : Block WrappedBody} (hb : heap[p]? = some (some b)) :
    featurePtrFromRaw heap p = some (heap.set p (some { b with rc := raised b.rc })) := by
  simp only [featurePtrFromRaw,dupWrap,hb]

/-- `FeatureRawArray::new` takes a second reference to the new array. -/
theorem Inv.new_array (hs : s.Inv) (type : WrapperType) (managed : Bool) (capacity : ℕ) :
    ∃ s', (featureRawArrayNew s.heap managed capacity).map (s.own type) = some s' ∧ ¬ s'.Counted := by
  have hne : s.heap.length ≠ 0 := by
    have := (List.getElem?_eq_some_iff.mp hs.lent.ledger.null).1
    omega
  have hledger : Ledger WrappedBody.refs (RefCount.alloc s.heap (.array managed capacity [])).2
      (s.heap.length :: s.external) :=
    hs.lent.ledger.alloc _ (fun _ _ => by cases managed <;> exact (Nat.zero_add _).symm)
  have hget : (RefCount.alloc s.heap (.array managed capacity [])).2[s.heap.length]? =
      some (some ⟨1,.array managed capacity []⟩) := by
    simp [RefCount.alloc]
  obtain ⟨heap,hdup,hledger'⟩ := hledger.dup hget
  rw [← hledger.dupWrap hget (show 1 + 1 < 2 ^ 32 by decide)] at hdup
  refine ⟨s.own type (s.heap.length,heap),?_,not_counted hne hledger' ?_⟩
  · have hraw : featurePtrFromRaw (RefCount.alloc s.heap (.array managed capacity [])).2
        (RefCount.alloc s.heap (.array managed capacity [])).1 = some heap := hdup
    simp only [featureRawArrayNew,hraw,Option.map_some]
    rfl
  · simp only [external,RustWorld.own,List.map_cons,List.cons_append,List.count_cons_self]
    omega

theorem Inv.clone (hs : s.Inv) (hh : h ∈ s.handles) : ∃ s', s.clone h = some s' ∧ ¬ s'.Counted := by
  obtain ⟨b,hb,_⟩ := hs.lent.live hh
  have hpos := hs.lent.ledger.rc_pos h.ptr b hb
  refine ⟨_,?_,hs.not_counted_own hb (raised_twice_ne b.rc hpos) h.type⟩
  have hfirst : dupWrap s.heap h.ptr = _ := featurePtrFromRaw_eq hb
  have hsecond := featurePtrFromRaw_eq ((getElem?_set_cell hb (some { b with rc := raised b.rc }) h.ptr).trans (if_pos rfl))
  rw [RustWorld.clone,featurePtrClone,hfirst,Option.bind_some,hsecond,Option.map_some,List.set_set]

/-- A new array and a clone have a reference too many, and the other calls out of the guard are
undefined. -/
theorem Inv.breaks (hs : s.Inv) (hbad : ¬ s.Sound op) : ¬ (s.step op).Counted := by
  have hstep : ∀ s', s.perform op = some s' → ¬ s'.Counted → ¬ (s.step op).Counted := by
    intro s' hperform hs'
    rwa [RustWorld.step,hs.noFault,if_neg (by simp),hperform]
  cases op with
  | new type capacity =>
    cases type with
    | primitiveArray strings =>
      obtain ⟨s',hnew,hs'⟩ := hs.new_array (.primitiveArray strings) strings capacity
      exact hstep s' hnew hs'
    | referenceArray item =>
      obtain ⟨s',hnew,hs'⟩ := hs.new_array (.referenceArray item) true capacity
      exact hstep s' hnew hs'
    | _ => exact absurd (fun _ _ => ⟨nofun,nofun⟩) hbad
  | clone h =>
    have hh : h ∈ s.handles := not_not.mp hbad
    obtain ⟨s',hclone,hs'⟩ := hs.clone hh
    exact hstep s' (by rw [perform,if_pos hh,hclone]) hs'
  | fromRaw type p =>
    obtain ⟨hp,hnone⟩ := not_or.mp hbad
    by_cases hvalid : ∃ b, s.heap[p]? = some (some b) ∧ type.fits b.body = true
    · obtain ⟨b,hb,hfits⟩ := hvalid
      refine hstep _ ?_ (hs.not_counted_own hb (raised_ne fun hroom => hnone ⟨b,hb,hfits,hroom⟩) type)
      rw [perform,RustWorld.fromRaw,if_neg hp,hb]
      simp only [hfits,if_true,featurePtrFromRaw_eq hb,Option.map_some]
    · refine not_counted_of_fault hs ?_
      rw [perform,RustWorld.fromRaw,if_neg hp]
      split
      · next b hb =>
        rw [if_neg]
        exact fun hfits => hvalid ⟨b,hb,hfits⟩
      · rfl
  | get h idx =>
    obtain ⟨hh,p,helement,hfull⟩ : h ∈ s.handles ∧ ∃ p, s.element h idx = some p ∧
        ¬ (p = 0 ∨ rcOf s.heap p + 1 < 2 ^ 32) := by
      simpa only [Sound,Classical.not_imp,not_forall,exists_prop] using hbad
    obtain ⟨hp,hfull⟩ := not_or.mp hfull
    obtain ⟨hheld,item,hget⟩ := hs.element_eq_some hh helement
    have hrc := hs.lent.ledger.rc_eq p hp
    obtain ⟨b,hb⟩ := exists_of_rcOf_pos (h := s.heap) (p := p) (by omega)
    rw [rcOf_of_get hb] at hfull
    refine hstep _ ?_ (hs.not_counted_own hb (raised_ne hfull) (.reference item))
    rw [perform,if_pos hh,hget,if_neg hp,featurePtrFromRaw_eq hb,Option.map_some]
  | append h item =>
    simp only [Sound,Classical.not_imp,not_not] at hbad
    obtain ⟨hh,hitem,htype,htype'⟩ := hbad
    exact not_counted_of_fault hs (by rw [perform,if_pos ⟨hh,hitem⟩,RustWorld.append,htype,htype'])
  | appendString h item =>
    simp only [Sound,Classical.not_imp,not_not] at hbad
    obtain ⟨hh,hitem,htype,htype'⟩ := hbad
    exact not_counted_of_fault hs (by rw [perform,if_pos ⟨hh,hitem⟩,RustWorld.appendString,htype,htype'])
  | _ => exact absurd trivial hbad

/-- Along every run over every sound C heap, the counts are right and nothing is left over exactly
when no array is made by Rust, no handle is cloned, and the calls are defined. -/
theorem counted_iff (B : BorrowedHeap) (ops : List WrapperOp) :
    Transition.Always step (fun s : RustWorld B => s.Counted ∧ s.Settled) {} ops ↔
      Transition.Guarded step Sound ({} : RustWorld B) ops :=
  Transition.always_iff_guarded (I := Inv) (fun _ hs => ⟨hs.counted,hs.settled⟩)
    (fun _ _ hs hgood => hs.step hgood) (fun _ _ hs hbad h => hs.breaks hbad h.1)
    ⟨rfl,lent_init⟩ ops

def emptyHeap : BorrowedHeap where
  heap := [none]
  held := []
  ledger :=
    { null := rfl
      rc_pos := by
        intro p b hp
        have := List.mem_of_getElem? hp
        simp at this
      rc_eq := by
        intro p hp
        have hnone : ([none] : Heap WrappedBody)[p]? = none := List.getElem?_eq_none (by simp; omega)
        simp [rcOf,hnone,heldBy,cellRefs] }

/-- A string and its clone are dropped, and the string is never freed. -/
theorem clone_leaks : ¬ Transition.Always step (fun s : RustWorld emptyHeap => s.Counted ∧ s.Settled) {}
    [.new .string 0,.clone ⟨.string,1⟩,.drop ⟨.string,1⟩,.drop ⟨.string,1⟩] := by
  intro h
  have hlast := h.last.1.2 1 (by decide)
  exact absurd hlast (by decide)

end RustWorld
end FeatureRuntime
