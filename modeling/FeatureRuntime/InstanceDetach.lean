import FeatureRuntime.Reclaim
import FeatureRuntime.Transition
import Mathlib.Data.List.Forall2

/-! `FeatureManager::detachFeatureInstances`: the walk over the list of instances, with the
finalizers that run while instances give back what they hold. -/
namespace FeatureRuntime

open RefCount

/-- What `onDetached` does to others: the references it gives back (the target, what the native
callback holds, promises, callbacks and event handlers), and the interface instances that the native
callback creates. -/
structure Teardown where
  values : List ℕ := []
  creates : ℕ := 0

/-- The instance behind a JS object, with the teardown that `removeInstance` runs when the object is
finalized. -/
structure Binding where
  inst : ℕ
  teardown : Teardown

/-- A JS object, or an instance with its object `weak_self_`. The teardown of an instance with an
object stands in the object's binding; without one the destructor runs it. -/
inductive EngineBlock
  | object (props : List ℕ) (binding : Option Binding)
  | instance (weakSelf : ℕ) (teardown : Teardown)

namespace EngineBlock

/-- What goes with the block. A finalized object takes the prototype's reference to its instance
along. -/
def refs : EngineBlock → List ℕ
  | .object props none => props
  | .object props (some b) => props ++ b.teardown.values ++ [b.inst]
  | .instance _ teardown => teardown.values

def creates : EngineBlock → ℕ
  | .object _ none => 0
  | .object _ (some b) => b.teardown.creates
  | .instance _ teardown => teardown.creates

def Settled : EngineBlock → Prop
  | .instance weakSelf teardown => weakSelf ≠ 0 → teardown = {}
  | .object .. => True

end EngineBlock

/-- The heap and `feature_node_list_`. -/
structure InstanceList where
  heap : Heap EngineBlock
  nodes : List ℕ

def createdBetween (heap heap' : Heap EngineBlock) : ℕ :=
  ((heap.zip heap').map (fun cells =>
    match cells with
    | (some b,none) => b.body.creates
    | _ => 0)).sum

namespace InstanceList

def alive (heap : Heap EngineBlock) (x : ℕ) : Bool :=
  match heap[x]? with
  | some (some _) => true
  | _ => false

/-- `onDetached` up to the release of the target: the instance and its object are separated. A
detached or finalized instance has nothing left to give back. -/
def unbind (heap : Heap EngineBlock) (x : ℕ) : Heap EngineBlock × Teardown :=
  match heap[x]? with
  | some (some ⟨rc,.instance weakSelf teardown⟩) =>
    match heap[weakSelf]? with
    | some (some ⟨rcSelf,.object props (some b)⟩) =>
      ((heap.set weakSelf (some ⟨rcSelf,.object props none⟩)).set x (some ⟨rc,.instance 0 {}⟩),b.teardown)
    | _ => (heap.set x (some ⟨rc,.instance 0 {}⟩),teardown)
  | _ => (heap,{})

/-- `FeatureCreateInterface`: the instance enters the list at its end. -/
def createInterface (l : InstanceList) : InstanceList :=
  let r := alloc l.heap (.instance 0 {})
  ⟨r.2,l.nodes ++ [r.1]⟩

/-- `onDetached`. Blocks whose last reference is given back run their finalizers, and destroyed
instances leave the list. -/
def onDetached (l : InstanceList) (x : ℕ) : Option InstanceList := do
  let (heap,teardown) := unbind l.heap x
  let heap' ← freeAll EngineBlock.refs heap teardown.values
  return createInterface^[teardown.creates + createdBetween heap heap'] ⟨heap',l.nodes.filter (alive heap')⟩

/-- The block at `q` goes with what `onDetached` of `x` gives back. -/
def GoesWith (l : InstanceList) (x q : ℕ) : Prop :=
  Gone EngineBlock.refs (unbind l.heap x).1 (unbind l.heap x).2.values q

end InstanceList

/-- The loop of `feature_list_for_every_safe`; `none` is the head of the list. -/
structure DetachLoop where
  list : InstanceList
  node : Option ℕ
  temp : Option ℕ
  /-- The instances on which the loop called `onDetached`. -/
  calls : List ℕ := []
  /-- A destroyed instance or its node was used. -/
  fault : Bool := false

namespace DetachLoop

/-- `node->next`. -/
def next (nodes : List ℕ) : Option ℕ → Option ℕ
  | none => nodes.head?
  | some y => (nodes.dropWhile (· ≠ y)).tail.head?

def start (l : InstanceList) : DetachLoop :=
  { list := l, node := l.nodes.head?, temp := next l.nodes l.nodes.head? }

def step (s : DetachLoop) (_ : Unit) : DetachLoop :=
  match s.node with
  | none => s
  | some x =>
    match s.list.onDetached x with
    | none => { s with fault := true }
    | some l =>
      { list := l
        node := s.temp
        temp := next l.nodes s.temp
        calls := x :: s.calls
        fault := s.fault || !InstanceList.alive l.heap x ||
          s.temp.any (fun y => !InstanceList.alive l.heap y) }

/-- No destroyed instance is used, and at its end the loop has called every instance of the list. -/
def Safe (s : DetachLoop) : Prop :=
  s.fault = false ∧ (s.node = none → ∀ z ∈ s.list.nodes, z ∈ s.calls)

/-- Neither the instance nor its successor goes with what the instance gives back, and the last
instance of the list brings about no new one. -/
def Keeps (s : DetachLoop) (_ : Unit) : Prop :=
  ∀ x, s.node = some x → ¬ s.list.GoesWith x x ∧ (∀ y, s.temp = some y → ¬ s.list.GoesWith x y) ∧
    (s.temp = none → (InstanceList.unbind s.list.heap x).2.creates = 0 ∧ ∀ (q : ℕ) (b : Block EngineBlock),
        (InstanceList.unbind s.list.heap x).1[q]? = some (some b) →
        s.list.GoesWith x q → b.body.creates = 0)

end DetachLoop

namespace InstanceList

/-- A list of live instances over a heap whose counts are right. -/
structure Valid (l : InstanceList) : Prop where
  ledger : ∃ ext, Ledger EngineBlock.refs l.heap ext
  settled : All EngineBlock.Settled l.heap
  live : ∀ x ∈ l.nodes, alive l.heap x = true
  nodup : l.nodes.Nodup

section Unbind

variable {heap heap' : Heap EngineBlock} {ext : List ℕ} {l : InstanceList} {x : ℕ}

theorem alive_iff : alive heap x = true ↔ ∃ b, heap[x]? = some (some b) := by
  unfold alive
  split
  · next b hb => simp [hb]
  · next hnone => simpa using hnone

theorem alive_set {p : ℕ} {b b' : Block EngineBlock} (hb : heap[p]? = some (some b)) (q : ℕ) :
    alive (heap.set p (some b')) q = alive heap q := by
  unfold alive
  rw [getElem?_set_cell hb]
  split_ifs with hpq
  · subst hpq
    rw [hb]
  · rfl

/-- Separating an instance from its object leaves what it gives back to the caller. -/
theorem unbind_spec (hl : Ledger EngineBlock.refs heap ext) (hsettled : All EngineBlock.Settled heap)
    (x : ℕ) : ∃ ext', Ledger EngineBlock.refs (unbind heap x).1 ((unbind heap x).2.values ++ ext') ∧
      All EngineBlock.Settled (unbind heap x).1 ∧
      (∀ q, alive (unbind heap x).1 q = alive heap q) ∧
      (unbind heap x).1.length = heap.length := by
  unfold unbind
  split
  · rename_i rc weakSelf teardown hx
    have hrc : 0 < rc := hl.rc_pos x _ hx
    have hmine : All EngineBlock.Settled (heap.set x (some ⟨rc,.instance 0 {}⟩)) :=
      hsettled.set hx (by rintro _ ⟨⟩; exact fun h => absurd rfl h)
    split
    · rename_i rcSelf props b hself
      have hne : weakSelf ≠ 0 := hl.ne_zero hself
      have hteardown : teardown = {} := hsettled x _ hx hne
      have hdistinct : weakSelf ≠ x := by
        rintro rfl
        rw [hx] at hself
        cases hself
      have hx' : (heap.set weakSelf (some ⟨rcSelf,.object props none⟩))[x]? =
          some (some ⟨rc,.instance weakSelf teardown⟩) := by
        rw [List.getElem?_set_ne hdistinct]
        exact hx
      have hpos : 0 < rcSelf := hl.rc_pos weakSelf _ hself
      have hobject : Ledger EngineBlock.refs (heap.set weakSelf (some ⟨rcSelf,.object props none⟩))
          (b.teardown.values ++ (b.inst :: ext)) := by
        apply hl.set hself hpos
        intro q _
        simp only [EngineBlock.refs,List.count_append,List.count_cons,List.count_nil]
        omega
      refine ⟨b.inst :: ext,?_,?_,fun q => ?_,?_⟩
      · apply hobject.set hx' hrc
        intro q _
        rw [hteardown]
        rfl
      · exact (hsettled.set hself (by rintro _ ⟨⟩; trivial)).set hx'
          (by rintro _ ⟨⟩; exact fun h => absurd rfl h)
      · dsimp only
        rw [alive_set hx',alive_set hself]
      · simp
    · refine ⟨ext,?_,hmine,fun q => alive_set hx q,List.length_set⟩
      apply hl.set hx hrc
      intro q _
      simp only [EngineBlock.refs,List.count_append,List.count_nil]
      omega
  · exact ⟨ext,hl,hsettled,fun _ => rfl,rfl⟩

theorem createInterfaces_heap (n : ℕ) : (createInterface^[n] l).heap =
    l.heap ++ List.replicate n (some ⟨1,.instance 0 {}⟩) := by
  induction n with
  | zero => simp
  | succ n ih =>
    rw [Function.iterate_succ_apply',createInterface]
    dsimp only [alloc]
    rw [ih,List.append_assoc,← List.replicate_succ']

theorem createInterfaces_nodes (n : ℕ) : (createInterface^[n] l).nodes = l.nodes ++ List.range' l.heap.length n := by
  induction n with
  | zero => simp
  | succ n ih =>
    rw [Function.iterate_succ_apply',createInterface]
    dsimp only [alloc]
    rw [ih,createInterfaces_heap,List.append_assoc,List.length_append,List.length_replicate,
      List.range'_concat,Nat.one_mul]

theorem createInterfaces_ledger (hl : Ledger EngineBlock.refs l.heap ext) (n : ℕ) :
    ∃ ext', Ledger EngineBlock.refs (createInterface^[n] l).heap ext' := by
  induction n with
  | zero => exact ⟨ext,hl⟩
  | succ n ih =>
    obtain ⟨ext',hl'⟩ := ih
    rw [Function.iterate_succ_apply']
    exact ⟨_,hl'.alloc _ fun q _ => (Nat.zero_add _).symm⟩

theorem createdBetween_eq_zero_iff (hr : Reduces heap heap') : createdBetween heap heap' = 0 ↔
    ∀ (q : ℕ) (b : Block EngineBlock), heap[q]? = some (some b) → heap'[q]? = some none → b.body.creates = 0 := by
  induction hr with
  | nil => simp [createdBetween]
  | @cons c c' heap heap' hc _ ih =>
    have hsum : createdBetween (c :: heap) (c' :: heap') = createdBetween [c] [c'] + createdBetween heap heap' := by
      simp [createdBetween]
    rw [hsum,Nat.add_eq_zero_iff,ih]
    constructor
    · rintro ⟨hfirst,hrest⟩ q b hb hnone
      cases q with
      | zero =>
        cases hb
        cases hnone
        simpa [createdBetween] using hfirst
      | succ q => exact hrest q b hb hnone
    · intro h
      refine ⟨?_,fun q b hb hnone => h (q + 1) b hb hnone⟩
      cases hc with
      | free b => simpa [createdBetween] using h 0 b rfl rfl
      | refl => cases c <;> simp [createdBetween]
      | recount => simp [createdBetween]

/-- A call of `onDetached` that leaves the heap `heap'` before instances are created. -/
structure Detaches (l : InstanceList) (x : ℕ) (heap' : Heap EngineBlock) : Prop where
  call : l.onDetached x =
    some (createInterface^[(unbind l.heap x).2.creates + createdBetween (unbind l.heap x).1 heap']
      ⟨heap',l.nodes.filter (alive heap')⟩)
  reduces : Reduces (unbind l.heap x).1 heap'
  length : heap'.length = l.heap.length
  freed : ∀ (q : ℕ) (b : Block EngineBlock), (unbind l.heap x).1[q]? = some (some b) →
    (heap'[q]? = some none ↔ l.GoesWith x q)
  alive : ∀ q, InstanceList.alive l.heap q = true → (InstanceList.alive heap' q = false ↔ l.GoesWith x q)
  ledger : ∃ ext, Ledger EngineBlock.refs heap' ext
  settled : All EngineBlock.Settled heap'

theorem Detaches.lt {x q : ℕ} {heap' : Heap EngineBlock} (h : l.Detaches x heap')
    (hlive : InstanceList.alive l.heap q = true) : q < heap'.length := by
  obtain ⟨b,hb⟩ := alive_iff.mp hlive
  rw [h.length]
  exact (List.getElem?_eq_some_iff.mp hb).1

theorem exists_detaches (hv : l.Valid) (x : ℕ) : ∃ heap', l.Detaches x heap' := by
  obtain ⟨ext,hl⟩ := hv.ledger
  obtain ⟨ext',hl',hsettled,halive,hlength⟩ := unbind_spec hl hv.settled x
  obtain ⟨heap',hfree,hledger,hr,hgone⟩ := hl'.freeAll_gone
  refine ⟨heap',?_,hr,?_,hgone,fun q hq => ?_,⟨ext',hledger⟩,fun p b hb => ?_⟩
  · rw [onDetached]
    dsimp only
    rw [hfree]
    rfl
  · rw [← hlength]
    exact hr.length_eq.symm
  · rw [← halive q,alive_iff] at hq
    obtain ⟨b,hb⟩ := hq
    rw [GoesWith,← hgone q b hb]
    obtain ⟨c,hc,-⟩ := hr.cell hb
    unfold InstanceList.alive
    rw [hc]
    cases c <;> simp
  · obtain ⟨b₀,hb₀,hbody⟩ := hr.live hb
    exact hbody ▸ hsettled p b₀ hb₀

theorem alive_append {heap₁ : Heap EngineBlock} {q : ℕ} (hq : q < heap.length) :
    alive (heap ++ heap₁) q = alive heap q := by
  unfold alive
  rw [List.getElem?_append_left hq]

theorem valid_after (hv : l.Valid) (hl : Ledger EngineBlock.refs heap' ext)
    (hsettled : All EngineBlock.Settled heap') (hlength : heap'.length = l.heap.length) (n : ℕ) :
    (createInterface^[n] ⟨heap',l.nodes.filter (alive heap')⟩).Valid := by
  have hlt : ∀ z ∈ l.nodes.filter (alive heap'), z < heap'.length := by
    intro z hz
    obtain ⟨b,hb⟩ := alive_iff.mp (List.mem_filter.mp hz).2
    exact (List.getElem?_eq_some_iff.mp hb).1
  refine ⟨createInterfaces_ledger hl n,?_,fun z hz => ?_,?_⟩
  · rw [createInterfaces_heap]
    intro p b hb
    rcases Nat.lt_or_ge p heap'.length with hp | hp
    · rw [List.getElem?_append_left hp] at hb
      exact hsettled p b hb
    · rw [List.getElem?_append_right hp] at hb
      have hmem := List.eq_of_mem_replicate (List.mem_of_getElem? hb)
      cases hmem
      exact fun h => absurd rfl h
  · rw [createInterfaces_nodes,List.mem_append] at hz
    rw [createInterfaces_heap,alive_iff]
    rcases hz with hz | hz
    · obtain ⟨b,hb⟩ := alive_iff.mp (List.mem_filter.mp hz).2
      exact ⟨b,by rw [List.getElem?_append_left (hlt z hz)]; exact hb⟩
    · obtain ⟨hge,hless⟩ := List.mem_range'_1.mp hz
      dsimp only at hge hless
      refine ⟨⟨1,.instance 0 {}⟩,?_⟩
      rw [List.getElem?_append_right hge,List.getElem?_replicate,if_pos (by omega)]
  · rw [createInterfaces_nodes,List.nodup_append]
    refine ⟨hv.nodup.filter _,List.nodup_range',fun a ha b hb => ?_⟩
    have hless := hlt a ha
    have hge := (List.mem_range'_1.mp hb).1
    dsimp only at hge
    omega

end Unbind

end InstanceList

namespace DetachLoop

open InstanceList

/-- Between two rounds: the instances before the current one were called, and the next one is
remembered. -/
structure Inv (s : DetachLoop) : Prop where
  valid : s.list.Valid
  noFault : s.fault = false
  called : ∀ z ∈ s.calls, z < s.list.heap.length
  done : s.node = none → ∀ z ∈ s.list.nodes, z ∈ s.calls
  current : ∀ x, s.node = some x → ∃ before after, s.list.nodes = before ++ x :: after ∧
    s.temp = after.head? ∧ ∀ z ∈ before, z ∈ s.calls

theorem next_append {before after : List ℕ} {y : ℕ} (hy : y ∉ before) :
    next (before ++ y :: after) (some y) = after.head? := by
  induction before with
  | nil => simp [next]
  | cons z before ih =>
    rw [List.mem_cons,not_or] at hy
    have hrest := ih hy.2
    simp only [next,List.cons_append] at hrest ⊢
    rw [List.dropWhile_cons_of_pos (by simpa using Ne.symm hy.1)]
    exact hrest

theorem Inv.safe {s : DetachLoop} (h : s.Inv) : s.Safe := ⟨h.noFault,h.done⟩

theorem inv_start {l : InstanceList} (hv : l.Valid) : (start l).Inv := by
  refine ⟨hv,rfl,fun _ h => (nomatch h),fun hnone z hz => ?_,fun x hx => ?_⟩
  · have hnil : l.nodes = [] := List.head?_eq_none_iff.mp hnone
    simp [start,hnil] at hz
  · cases hnodes : l.nodes with
    | nil => simp [start,hnodes] at hx
    | cons z after =>
      obtain rfl : z = x := by simpa [start,hnodes] using hx
      refine ⟨[],after,hnodes,?_,fun _ h => (nomatch h)⟩
      simp only [start,hnodes,List.head?_cons]
      exact next_append (List.not_mem_nil)

section Round

variable {s : DetachLoop} {x : ℕ} {heap' : Heap EngineBlock}

theorem step_eq (hnode : s.node = some x) (hd : s.list.Detaches x heap') :
    let n := (unbind s.list.heap x).2.creates + createdBetween (unbind s.list.heap x).1 heap'
    s.step () =
      { list := createInterface^[n] ⟨heap',s.list.nodes.filter (alive heap')⟩
        node := s.temp
        temp := next (s.list.nodes.filter (alive heap') ++ List.range' heap'.length n) s.temp
        calls := x :: s.calls
        fault := s.fault || !alive (heap' ++ List.replicate n (some ⟨1,.instance 0 {}⟩)) x ||
          s.temp.any (fun y =>
            !alive (heap' ++ List.replicate n (some ⟨1,.instance 0 {}⟩)) y) } := by
  rw [DetachLoop.step,hnode]
  dsimp only
  rw [hd.call]
  dsimp only
  rw [createInterfaces_heap,createInterfaces_nodes]

/-- A round that keeps the instance and its successor moves on to the successor. -/
theorem Inv.step (h : s.Inv) (hkeeps : s.Keeps ()) : (s.step ()).Inv := by
  cases hnode : s.node with
  | none =>
    have hsame : s.step () = s := by simp [DetachLoop.step,hnode]
    rwa [hsame]
  | some x =>
    obtain ⟨before,after,hnodes,htemp,hbefore⟩ := h.current x hnode
    obtain ⟨hx,hy,hlast⟩ := hkeeps x hnode
    obtain ⟨heap',hd⟩ := exists_detaches h.valid x
    have hlt := fun z hz => hd.lt (h.valid.live z hz)
    have hkept : ∀ z ∈ s.list.nodes, ¬ s.list.GoesWith x z → alive heap' z = true := by
      intro z hz hgone
      rw [← hd.alive z (h.valid.live z hz),Bool.not_eq_false] at hgone
      exact hgone
    have hxmem : x ∈ s.list.nodes := by simp [hnodes]
    have hxalive := hkept x hxmem hx
    have hymem : ∀ y, s.temp = some y → y ∈ s.list.nodes := by
      intro y hyt
      rw [htemp] at hyt
      rw [hnodes]
      exact List.mem_append_right _ (List.mem_cons_of_mem _ (List.mem_of_head? hyt))
    obtain ⟨ext,hledger⟩ := hd.ledger
    rw [step_eq hnode hd]
    refine ⟨valid_after h.valid hledger hd.settled hd.length _,?_,fun z hz => ?_,
      fun hnone z hz => ?_,fun y hyt => ?_⟩
    · dsimp only
      rw [h.noFault,alive_append (hlt x hxmem),hxalive]
      cases htempEq : s.temp with
      | none => rfl
      | some y =>
        have hyalive := hkept y (hymem y htempEq) (hy y htempEq)
        simp [alive_append (hlt y (hymem y htempEq)),hyalive]
    · dsimp only at hz ⊢
      rw [createInterfaces_heap,List.length_append]
      have hzlt : z < heap'.length := by
        rcases List.mem_cons.mp hz with rfl | hz
        · exact hlt z hxmem
        · exact hd.length ▸ h.called z hz
      exact Nat.lt_add_right _ hzlt
    · -- the last call: nothing was created, and every node was visited
      dsimp only at hnone hz ⊢
      obtain ⟨hcreates,hgone⟩ := hlast hnone
      have hzero : createdBetween (unbind s.list.heap x).1 heap' = 0 :=
        (createdBetween_eq_zero_iff hd.reduces).mpr fun q b hb hfreed =>
          hgone q b hb ((hd.freed q b hb).mp hfreed)
      rw [createInterfaces_nodes,hcreates,hzero] at hz
      simp only [Nat.add_zero,List.range'_zero,List.append_nil] at hz
      have hnil : after = [] := List.head?_eq_none_iff.mp (htemp ▸ hnone)
      have hmem := (List.mem_filter.mp hz).1
      rw [hnodes,hnil,List.mem_append,List.mem_singleton] at hmem
      rcases hmem with hmem | rfl
      · exact List.mem_cons_of_mem _ (hbefore z hmem)
      · exact List.mem_cons_self
    · dsimp only at hyt ⊢
      obtain ⟨after,rfl⟩ : ∃ after', after = y :: after' := by
        cases after with
        | nil => simp [htemp] at hyt
        | cons z after =>
          obtain rfl : z = y := by simpa [htemp] using hyt
          exact ⟨after,rfl⟩
      have hyalive := hkept y (hymem y hyt) (hy y hyt)
      set new := List.range' heap'.length
        ((unbind s.list.heap x).2.creates + createdBetween (unbind s.list.heap x).1 heap') with hnew
      have hsplit : s.list.nodes.filter (alive heap') ++ new =
          (before.filter (alive heap') ++ [x]) ++ y :: (after.filter (alive heap') ++ new) := by
        simp [hnodes,hxalive,hyalive]
      have hnotin : y ∉ before.filter (alive heap') ++ [x] := by
        have hnodup := h.valid.nodup
        rw [hnodes,List.nodup_append] at hnodup
        obtain ⟨-,hrest,hdisjoint⟩ := hnodup
        rw [List.mem_append,List.mem_singleton]
        rintro (hmem | rfl)
        · exact hdisjoint y (List.mem_filter.mp hmem).1 y (by simp) rfl
        · exact (List.nodup_cons.mp hrest).1 List.mem_cons_self
      refine ⟨before.filter (alive heap') ++ [x],after.filter (alive heap') ++ new,?_,?_,fun z hz => ?_⟩
      · rw [createInterfaces_nodes]
        exact hsplit
      · rw [hsplit,hyt]
        exact next_append hnotin
      · rcases List.mem_append.mp hz with hz | hz
        · exact List.mem_cons_of_mem _ (hbefore z (List.mem_filter.mp hz).1)
        · rw [List.mem_singleton.mp hz]
          exact List.mem_cons_self

/-- A safe round kept the instance and its successor, and did not end the loop with new
instances. -/
theorem Inv.keeps_of_safe (h : s.Inv) (hsafe : (s.step ()).Safe) : s.Keeps () := by
  intro x hnode
  obtain ⟨before,after,hnodes,htemp,hbefore⟩ := h.current x hnode
  obtain ⟨heap',hd⟩ := exists_detaches h.valid x
  have hlt := fun z hz => hd.lt (h.valid.live z hz)
  have hkept : ∀ z ∈ s.list.nodes, alive heap' z = true → ¬ s.list.GoesWith x z := by
    intro z hz halive hgone
    rw [← hd.alive z (h.valid.live z hz),halive] at hgone
    cases hgone
  have hxmem : x ∈ s.list.nodes := by simp [hnodes]
  rw [step_eq hnode hd] at hsafe
  obtain ⟨hfault,hdone⟩ := hsafe
  dsimp only at hfault hdone
  rw [Bool.or_eq_false_iff,Bool.or_eq_false_iff,Bool.not_eq_false',alive_append (hlt x hxmem)] at hfault
  obtain ⟨⟨-,hxalive⟩,hyalive⟩ := hfault
  refine ⟨hkept x hxmem hxalive,fun y hy => ?_,fun hnone => ?_⟩
  · have hymem : y ∈ s.list.nodes := by
      rw [hnodes]
      rw [htemp] at hy
      exact List.mem_append_right _ (List.mem_cons_of_mem _ (List.mem_of_head? hy))
    rw [hy,Option.any_some,Bool.not_eq_false',alive_append (hlt y hymem)] at hyalive
    exact hkept y hymem hyalive
  · -- a new instance would stand in the list without having been called
    have hzero : (unbind s.list.heap x).2.creates + createdBetween (unbind s.list.heap x).1 heap' = 0 := by
      by_contra hpos
      have hnew := hdone hnone heap'.length (by
        rw [createInterfaces_nodes]
        apply List.mem_append_right
        rw [List.mem_range'_1]
        dsimp only
        omega)
      rcases List.mem_cons.mp hnew with heq | hcalled
      · exact absurd (hlt x hxmem) (heq ▸ lt_irrefl _)
      · exact absurd (h.called _ hcalled) (hd.length ▸ lt_irrefl _)
    rw [Nat.add_eq_zero_iff,createdBetween_eq_zero_iff hd.reduces] at hzero
    exact ⟨hzero.1,fun q b hb hgone => hzero.2 q b hb ((hd.freed q b hb).mpr hgone)⟩

end Round

variable {l : InstanceList}

/-- The walk stays off destroyed instances and calls every instance that is there at its end,
exactly when each call keeps its instance and the one that was remembered, and the call of the last
instance brings about no new one. -/
theorem detach_iff (hv : l.Valid) (n : ℕ) : Transition.Always step Safe (start l) (List.replicate n ()) ↔
      Transition.Guarded step Keeps (start l) (List.replicate n ()) := by
  apply Transition.always_iff_guarded (I := Inv)
  · exact fun s h => h.safe
  · exact fun s _ h hkeeps => h.step hkeeps
  · exact fun s _ h hbad hsafe => hbad (h.keeps_of_safe hsafe)
  · exact inv_start hv

/-- Two instances, 3 and 4, with their objects 1 and 2; a handler of the first holds the object of
the second, which a script holds when `script` is true. -/
def handlerHolds (script : Bool) : InstanceList :=
  { heap := [none,some ⟨1,.object [] (some ⟨3,{ values := [2] }⟩)⟩,
      some ⟨if script then 2 else 1,.object [] (some ⟨4,{}⟩)⟩,
      some ⟨1,.instance 1 {}⟩,some ⟨1,.instance 2 {}⟩]
    nodes := [3,4] }

theorem handlerHolds_valid (script : Bool) : (handlerHolds script).Valid := by
  have hcells : ∀ p b, (handlerHolds script).heap[p]? = some (some b) → p = 1 ∨ p = 2 ∨ p = 3 ∨ p = 4 := by
    intro p b hb
    match p, hb with
    | 1, _ | 2, _ | 3, _ | 4, _ => decide
  refine ⟨⟨1 :: if script then [2] else [],rfl,?_,?_⟩,?_,?_,?_⟩
  · intro p b hb
    rcases hcells p b hb with rfl | rfl | rfl | rfl <;> cases hb <;> cases script <;> decide
  · intro p hp
    match p, hp with
    | 1, _ | 2, _ | 3, _ | 4, _ => cases script <;> decide
    | n + 5, _ => cases script <;> simp [handlerHolds,rcOf,heldBy,cellRefs,EngineBlock.refs]
  · intro p b hb
    rcases hcells p b hb with rfl | rfl | rfl | rfl <;> cases hb
    · trivial
    · trivial
    · exact fun _ => rfl
    · exact fun _ => rfl
  · intro x hx
    cases script <;> revert x <;> decide
  · cases script <;> decide

/-- Without the script, detaching the first instance finalizes the second one's object and deletes
the instance whose node is visited next. -/
theorem detach_handler : ¬ ∀ (l : InstanceList) (n : ℕ), l.Valid →
    Transition.Always step Safe (start l) (List.replicate n ()) := by
  intro h
  have hfault := (h (handlerHolds false) 1 (handlerHolds_valid false)).last.1
  revert hfault
  decide

theorem detach_iff_handler : Transition.Always step Safe (start (handlerHolds true)) (List.replicate 2 ()) := by
  refine (detach_iff (handlerHolds_valid true) 2).mpr ⟨?_,?_,trivial⟩
  · intro x hx
    cases hx
    refine ⟨?_,?_,fun hnone => (nomatch hnone)⟩
    · rintro ⟨hb,hown,-⟩
      cases hb
      revert hown
      decide
    · rintro y hy ⟨hb,-,hholders⟩
      cases hy
      obtain ⟨hb',hown,-⟩ := hholders 2 ⟨_,rfl,by decide⟩
      cases hb'
      revert hown
      decide
  · intro x hx
    cases hx
    refine ⟨?_,fun y hy => (nomatch hy),fun _ => ⟨rfl,fun q b hb _ => ?_⟩⟩
    · rintro ⟨hb,hown,-⟩
      cases hb
      revert hown
      decide
    · match q, hb with
      | 1, hb | 2, hb | 3, hb | 4, hb => cases hb; rfl

end DetachLoop

end FeatureRuntime
