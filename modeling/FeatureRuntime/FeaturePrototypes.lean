import FeatureRuntime.FeatureRegistry
import FeatureRuntime.Transition

/-! `FeatureManagerQjs`: the prototypes behind the features that scripts look up, and the native hooks that are
called for them and for their instances. -/
namespace FeatureRuntime

/-- The hooks of `native_callbacks` that the manager calls, none without callbacks. -/
structure ManagerHooks where
  onCreate : Bool
  onRequired : Bool
  onDestroy : Bool

/-- A prototype and its JS object, undefined at first. -/
structure FeaturePrototypeQjs (D : Type) where
  description : D
  ftProto : Option ℕ := none

/-- A call of a hook of a description, for the prototype under a name or for one of its instances. -/
inductive HookCall (D : Type)
  | onCreate (d : D) (name : String)
  | onRequired (d : D) (name : String) (inst : ℕ)
  | onDestroy (d : D) (name : String)

def HookCall.prototype {D : Type} : HookCall D → Option String
  | .onCreate _ name | .onDestroy _ name => some name
  | .onRequired .. => none

structure FeatureManagerQjs (D : Type) where
  registry : FeatureRegistry D := {}
  prototypes : Std.TreeMap String (FeaturePrototypeQjs D) := ∅
  /-- JS objects and instances are numbered as they are made. -/
  objects : ℕ := 0
  instances : ℕ := 0
  hookCalls : List (HookCall D) := []
  /-- A prototype was met whose name has no description. -/
  nullDescription : Bool := false

/-- A call of the manager. The engine may fail to make the object of a prototype, and the class of the instances. -/
inductive ManagerOp (D : Type)
  | registerFeature (c : RegisterCall D)
  | featureRequire (name : String) (object jsClass : Bool)
  | findFeature (name : String) (object : Bool)
  | createFeature (proto : Option ℕ) (object jsClass : Bool)

namespace FeatureManagerQjs

variable {D : Type} (desc : D → RegistryDescription) (hooks : D → ManagerHooks) (s : FeatureManagerQjs D)

/-- `prototypes[name]`, which the first lookup fills in. -/
def prototypeOf (name : String) (d : D) : FeatureManagerQjs D × FeaturePrototypeQjs D :=
  match s.prototypes[name]? with
  | some p => (s,p)
  | none => ({ s with prototypes := s.prototypes.insert name { description := d } },{ description := d })

def createCalls (name : String) (p : FeaturePrototypeQjs D) : List (HookCall D) :=
  if p.ftProto.isSome && (hooks p.description).onCreate then [.onCreate p.description name] else []

def ensureJsPrototype (name : String) (p : FeaturePrototypeQjs D) (object : Bool) : FeatureManagerQjs D × Bool :=
  if p.ftProto.isSome then (s,true)
  else if object then
    let p := { p with ftProto := some s.objects }
    ({ s with
        prototypes := s.prototypes.insert name p
        objects := s.objects + 1
        hookCalls := s.hookCalls ++ createCalls hooks name p },true)
  else (s,false)

def createJsInstance (name : String) (p : FeaturePrototypeQjs D) (object jsClass : Bool) :
    FeatureManagerQjs D × Option ℕ :=
  let (s,ensured) := s.ensureJsPrototype hooks name p object
  if ensured && jsClass then ({ s with objects := s.objects + 1 },some s.objects) else (s,none)

/-- A new instance of a prototype, of which the native code is told by the hook of a description. -/
def newInstance (name : String) (p : FeaturePrototypeQjs D) (d : D) (object jsClass : Bool) :
    FeatureManagerQjs D × Option ℕ :=
  let inst := s.instances
  let (s,jsInstance) := createJsInstance hooks { s with instances := inst + 1 } name p object jsClass
  ({ s with hookCalls := s.hookCalls ++ if (hooks d).onRequired then [.onRequired d name inst] else [] },jsInstance)

def featureRequire (name : String) (object jsClass : Bool) : FeatureManagerQjs D × Option ℕ :=
  match s.registry.findFeature name with
  | none => (s,none)
  | some d =>
    let (s,p) := s.prototypeOf name d
    s.newInstance hooks name p d object jsClass

def findFeature (name : String) (object : Bool) : FeatureManagerQjs D × Option ℕ :=
  match s.registry.findFeature name with
  | none => (s,none)
  | some d =>
    match (desc d).name with
    | none => (s,none)
    | some key =>
      let (s,p) := s.prototypeOf key d
      let (s,ensured) := s.ensureJsPrototype hooks key p object
      (s,if ensured then s.prototypes[key]?.bind FeaturePrototypeQjs.ftProto else none)

def createFeature (proto : Option ℕ) (object jsClass : Bool) : FeatureManagerQjs D × Option ℕ :=
  match s.prototypes.toList.find? (fun e => e.2.ftProto = proto) with
  | none => (s,none)
  | some (name,p) =>
    match s.registry.findFeature name with
    | none => ({ s with nullDescription := true },none)
    | some d => s.newInstance hooks name p d object jsClass

/-- What the prototype under a name is told of its end, by the description that the name has by now. -/
def destroyCalls (name : String) : List (HookCall D) :=
  match s.registry.findFeature name with
  | some d => if (hooks d).onDestroy then [.onDestroy d name] else []
  | none => []

def uninit : FeatureManagerQjs D :=
  { s with
    hookCalls := s.hookCalls ++ s.prototypes.toList.flatMap (fun e => s.destroyCalls hooks e.1)
    nullDescription := s.nullDescription || s.prototypes.toList.any (fun e => (s.registry.findFeature e.1).isNone)
    registry := s.registry.destroy desc }

def step (s : FeatureManagerQjs D) : ManagerOp D → FeatureManagerQjs D
  | .registerFeature c => { s with registry := (s.registry.registerFeature desc c).1 }
  | .featureRequire name object jsClass => (s.featureRequire hooks name object jsClass).1
  | .findFeature name object => (s.findFeature desc hooks name object).1
  | .createFeature proto object jsClass => (s.createFeature hooks proto object jsClass).1

def run (ops : List (ManagerOp D)) : FeatureManagerQjs D := Transition.run (step desc hooks) {} ops

def toldOf (name : String) : List (HookCall D) := s.hookCalls.filter (fun c => c.prototype = some name)

/-- What the prototype under a name should have been told before the end. -/
def created (name : String) : List (HookCall D) := s.prototypes[name]?.elim [] (createCalls hooks name)

def destroyed (name : String) : List (HookCall D) :=
  s.prototypes[name]?.elim [] (fun _ => s.destroyCalls hooks name)

/-- Before its end, the prototypes of a manager stand under registered names, have objects of their own, and
were told of their creation once. -/
structure Cached : Prop where
  named : ∀ name d, s.registry.findFeature name = some d → (desc d).name = some name
  registered : ∀ (name : String) (p : FeaturePrototypeQjs D), s.prototypes[name]? = some p →
    (s.registry.findFeature name).isSome
  checked : s.nullDescription = false
  fresh : ∀ (name : String) (p : FeaturePrototypeQjs D) o, s.prototypes[name]? = some p → p.ftProto = some o →
    o < s.objects
  distinct : ∀ (name name' : String) (p p' : FeaturePrototypeQjs D) o, s.prototypes[name]? = some p →
    s.prototypes[name']? = some p' → p.ftProto = some o → p'.ftProto = some o → name = name'
  told : ∀ name, s.toldOf name = s.created hooks name

/-- A state that is reached from another, with the prototypes that had objects. -/
structure Follows (s t : FeatureManagerQjs D) : Prop where
  cached : t.Cached desc hooks
  kept : ∀ (name : String) (p : FeaturePrototypeQjs D), s.prototypes[name]? = some p → p.ftProto.isSome →
    t.prototypes[name]? = some p

variable {desc hooks s} {name : String} {p : FeaturePrototypeQjs D} {d : D}

theorem cached_init : Cached desc hooks ({} : FeatureManagerQjs D) where
  named name d h := by simp [FeatureRegistry.findFeature] at h
  registered name p h := by simp at h
  checked := rfl
  fresh name p o h := by simp at h
  distinct name name' p p' o h := by simp at h
  told name := by simp [toldOf,created]

theorem Follows.refl (h : s.Cached desc hooks) : Follows desc hooks s s := ⟨h,fun _ _ hp _ => hp⟩

theorem Follows.trans {t u : FeatureManagerQjs D} (h : Follows desc hooks s t) (h' : Follows desc hooks t u) :
    Follows desc hooks s u :=
  ⟨h'.cached,fun name p hp hsome => h'.kept name p (h.kept name p hp hsome) hsome⟩

theorem createCalls_prototype {c : HookCall D} (h : c ∈ createCalls hooks name p) : c.prototype = some name := by
  unfold createCalls at h
  split_ifs at h
  · rw [List.mem_singleton.mp h]
    rfl
  · cases h

theorem destroyCalls_prototype {c : HookCall D} (h : c ∈ s.destroyCalls hooks name) : c.prototype = some name := by
  unfold destroyCalls at h
  split at h
  · split_ifs at h
    · rw [List.mem_singleton.mp h]
      rfl
    · cases h
  · cases h

theorem filter_prototype {calls : List (HookCall D)} (h : ∀ c ∈ calls, c.prototype = some name) (key : String) :
    calls.filter (fun c => c.prototype = some key) = if name = key then calls else [] := by
  split_ifs with hkey
  · subst hkey
    exact List.filter_eq_self.mpr fun c hc => decide_eq_true (h c hc)
  · refine List.filter_eq_nil_iff.mpr fun c hc => ?_
    rw [h c hc]
    simpa using hkey

namespace Cached

theorem put (h : s.Cached desc hooks) (hreg : (s.registry.findFeature name).isSome)
    (hnew : ∀ q : FeaturePrototypeQjs D, s.prototypes[name]? = some q → q.ftProto = none)
    (p : FeaturePrototypeQjs D) {n : ℕ} (hn : s.objects ≤ n) (hp : ∀ o, p.ftProto = some o → o = s.objects ∧ o < n) :
    Follows desc hooks s { s with
      prototypes := s.prototypes.insert name p
      objects := n
      hookCalls := s.hookCalls ++ createCalls hooks name p } := by
  have hold := h.fresh
  refine ⟨⟨h.named,fun key q hq => ?_,h.checked,fun key q o hq ho => ?_,
    fun key key' q q' o hq hq' ho ho' => ?_,fun key => ?_⟩,fun key q hq hsome => ?_⟩
  · rw [MapHistory.getElem?_insert_eq] at hq
    split_ifs at hq with hkey
    · exact hkey ▸ hreg
    · exact h.registered key q hq
  · rw [MapHistory.getElem?_insert_eq] at hq
    split_ifs at hq with hkey
    · cases hq
      exact (hp o ho).2
    · exact (hold key q o hq ho).trans_le hn
  · rw [MapHistory.getElem?_insert_eq] at hq hq'
    split_ifs at hq with hkey <;> split_ifs at hq' with hkey'
    · exact hkey.symm.trans hkey'
    · cases hq
      exact absurd (hold key' q' o hq' ho') (by rw [(hp o ho).1]; exact Nat.lt_irrefl _)
    · cases hq'
      exact absurd (hold key q o hq ho) (by rw [(hp o ho').1]; exact Nat.lt_irrefl _)
    · exact h.distinct key key' q q' o hq hq' ho ho'
  · have htold := h.told key
    simp only [toldOf,created] at htold ⊢
    rw [List.filter_append,htold,filter_prototype (fun _ => createCalls_prototype),MapHistory.getElem?_insert_eq]
    split_ifs with hkey
    · subst hkey
      have hnone : s.prototypes[name]?.elim [] (createCalls hooks name) = [] := by
        cases hq : s.prototypes[name]? with
        | none => rfl
        | some q => simp [createCalls,hnew q hq]
      rw [hnone]
      rfl
    · exact List.append_nil _
  · rw [MapHistory.getElem?_insert_eq,if_neg]
    · exact hq
    · rintro rfl
      rw [hnew q hq] at hsome
      cases hsome

/-- Instances and what they are told leave the prototypes alone. -/
theorem tell (h : s.Cached desc hooks) {n : ℕ} (hn : s.objects ≤ n) (m : ℕ) {calls : List (HookCall D)}
    (hcalls : ∀ c ∈ calls, c.prototype = none) : Follows desc hooks s
      { s with objects := n, instances := m, hookCalls := s.hookCalls ++ calls } := by
  refine ⟨⟨h.named,h.registered,h.checked,fun key q o hq ho => (h.fresh key q o hq ho).trans_le hn,
    h.distinct,fun key => ?_⟩,fun _ _ hq _ => hq⟩
  have htold := h.told key
  simp only [toldOf] at htold ⊢
  rw [List.filter_append,htold,List.filter_eq_nil_iff.mpr fun c hc => by simp [hcalls c hc]]
  exact List.append_nil _

theorem count (h : s.Cached desc hooks) {n : ℕ} (hn : s.objects ≤ n) (m : ℕ) :
    Follows desc hooks s { s with objects := n, instances := m } := by
  have hnone : ∀ c ∈ ([] : List (HookCall D)), c.prototype = none := fun _ hc => nomatch hc
  simpa using h.tell hn m hnone

theorem prototypeOf (h : s.Cached desc hooks) (hd : s.registry.findFeature name = some d) :
    Follows desc hooks s (s.prototypeOf name d).1 ∧
      (s.prototypeOf name d).1.prototypes[name]? = some (s.prototypeOf name d).2 := by
  unfold FeatureManagerQjs.prototypeOf
  cases hp : s.prototypes[name]? with
  | some p => exact ⟨.refl h,hp⟩
  | none =>
    have hreg : (s.registry.findFeature name).isSome := by simp [hd]
    have hnew : ∀ q : FeaturePrototypeQjs D, s.prototypes[name]? = some q → q.ftProto = none := by simp [hp]
    have hput := h.put hreg hnew { description := d } le_rfl (fun o ho => nomatch ho)
    refine ⟨?_,Std.TreeMap.getElem?_insert_self⟩
    simpa [createCalls] using hput

theorem ensureJsPrototype (h : s.Cached desc hooks) (hp : s.prototypes[name]? = some p) (object : Bool) :
    Follows desc hooks s (s.ensureJsPrototype hooks name p object).1 := by
  unfold FeatureManagerQjs.ensureJsPrototype
  split_ifs with hsome
  · exact .refl h
  · have hnone : p.ftProto = none := by simpa using hsome
    refine h.put (h.registered name p hp) (fun q hq => ?_) _ (Nat.le_succ _) (fun o ho => ?_)
    · rw [hp] at hq
      exact Option.some.inj hq ▸ hnone
    · cases ho
      exact ⟨rfl,Nat.lt_succ_self _⟩
  · exact .refl h

theorem createJsInstance (h : s.Cached desc hooks) (hp : s.prototypes[name]? = some p) (object jsClass : Bool) :
    Follows desc hooks s (s.createJsInstance hooks name p object jsClass).1 := by
  have hens := h.ensureJsPrototype hp object
  unfold FeatureManagerQjs.createJsInstance
  dsimp only
  split_ifs
  · exact hens.trans (hens.cached.count (Nat.le_succ _) _)
  · exact hens

theorem newInstance (h : s.Cached desc hooks) (hp : s.prototypes[name]? = some p) (d : D) (object jsClass : Bool) :
    Follows desc hooks s (s.newInstance hooks name p d object jsClass).1 := by
  have hinst := h.count le_rfl (s.instances + 1)
  have hobject := hinst.cached.createJsInstance hp object jsClass
  apply (hinst.trans hobject).trans
  apply hobject.cached.tell le_rfl
  intro c hc
  split_ifs at hc
  · rw [List.mem_singleton.mp hc]
    rfl
  · cases hc

theorem registerFeature (h : s.Cached desc hooks) (c : RegisterCall D) :
    Follows desc hooks s { s with registry := (s.registry.registerFeature desc c).1 } := by
  have hreg := FeatureRegistry.registerFeature_registered desc s.registry c
  refine ⟨⟨fun key d hd => ?_,fun key q hq => ?_,h.checked,h.fresh,h.distinct,h.told⟩,fun _ _ hq _ => hq⟩
  · rw [FeatureRegistry.findFeature,hreg] at hd
    cases hentry : FeatureRegistry.entry desc c with
    | none =>
      rw [hentry] at hd
      exact h.named key d hd
    | some e =>
      rw [hentry,MapHistory.getElem?_insert_eq] at hd
      split_ifs at hd with hkey
      · cases hd
        exact hkey ▸ FeatureRegistry.entry_name desc hentry
      · exact h.named key d hd
  · rw [FeatureRegistry.findFeature,hreg]
    have hold := h.registered key q hq
    cases FeatureRegistry.entry desc c with
    | none => exact hold
    | some e =>
      dsimp only
      rw [MapHistory.getElem?_insert_eq]
      split_ifs
      · rfl
      · exact hold

theorem find?_ftProto (h : s.Cached desc hooks) {o : ℕ} (hp : s.prototypes[name]? = some p)
    (ho : p.ftProto = some o) : s.prototypes.toList.find? (fun e => e.2.ftProto = some o) = some (name,p) := by
  cases hfind : s.prototypes.toList.find? (fun e => e.2.ftProto = some o) with
  | none =>
    have hmem := Std.TreeMap.mem_toList_iff_getElem?_eq_some.mpr hp
    simpa [ho] using List.find?_eq_none.mp hfind _ hmem
  | some e =>
    obtain ⟨key,q⟩ := e
    have hq := Std.TreeMap.mem_toList_iff_getElem?_eq_some.mp (List.mem_of_find?_eq_some hfind)
    have hsame := List.find?_some hfind
    have hkey := h.distinct key name q p o hq hp (of_decide_eq_true hsame) ho
    subst hkey
    rw [Option.some.inj (hq.symm.trans hp)]

theorem step (h : s.Cached desc hooks) (op : ManagerOp D) : Follows desc hooks s (s.step desc hooks op) := by
  unfold FeatureManagerQjs.step
  cases op with
  | registerFeature c => exact h.registerFeature c
  | featureRequire name object jsClass =>
    dsimp only [FeatureManagerQjs.featureRequire]
    cases hd : s.registry.findFeature name with
    | none => exact .refl h
    | some d =>
      obtain ⟨hfirst,hp⟩ := h.prototypeOf hd
      exact hfirst.trans (hfirst.cached.newInstance hp d object jsClass)
  | findFeature name object =>
    dsimp only [FeatureManagerQjs.findFeature]
    cases hd : s.registry.findFeature name with
    | none => exact .refl h
    | some d =>
      dsimp only
      rw [h.named name d hd]
      obtain ⟨hfirst,hp⟩ := h.prototypeOf hd
      exact hfirst.trans (hfirst.cached.ensureJsPrototype hp object)
  | createFeature proto object jsClass =>
    dsimp only [FeatureManagerQjs.createFeature]
    cases hfind : s.prototypes.toList.find? (fun e => e.2.ftProto = proto) with
    | none => exact .refl h
    | some e =>
      have hp := Std.TreeMap.mem_toList_iff_getElem?_eq_some.mp (List.mem_of_find?_eq_some hfind)
      obtain ⟨d,hd⟩ := Option.isSome_iff_exists.mp (h.registered _ _ hp)
      dsimp only
      rw [hd]
      exact h.newInstance hp d object jsClass

theorem run (h : s.Cached desc hooks) (ops : List (ManagerOp D)) :
    Follows desc hooks s (Transition.run (FeatureManagerQjs.step desc hooks) s ops) := by
  induction ops generalizing s with
  | nil => exact .refl h
  | cons op ops ih =>
    have hstep := h.step op
    exact hstep.trans (ih hstep.cached)

/-- The end of the manager tells every prototype of its own, once. -/
theorem toldOf_uninit (h : s.Cached desc hooks) (name : String) :
    (s.uninit desc hooks).toldOf name = s.created hooks name ++ s.destroyed hooks name := by
  have hwalk : ∀ entries : List (String × FeaturePrototypeQjs D), entries.Pairwise (fun a b => a.1 ≠ b.1) →
      (entries.flatMap (fun e => s.destroyCalls hooks e.1)).filter (fun c => c.prototype = some name) =
        if name ∈ entries.map Prod.fst then s.destroyCalls hooks name else [] := by
    intro entries
    induction entries with
    | nil => simp
    | cons e entries ih =>
      intro hdistinct
      obtain ⟨hne,hrest⟩ := List.pairwise_cons.mp hdistinct
      rw [List.flatMap_cons,List.filter_append,ih hrest,filter_prototype (fun _ => destroyCalls_prototype)]
      by_cases hname : e.1 = name
      · subst hname
        have hnot : e.1 ∉ entries.map Prod.fst := by
          rintro hmem
          obtain ⟨b,hb,hkey⟩ := List.mem_map.mp hmem
          exact hne b hb hkey.symm
        simp [hnot]
      · rw [if_neg hname,List.map_cons,List.nil_append]
        simp only [List.mem_cons,Ne.symm hname,false_or]
  have hkeys : s.prototypes.toList.Pairwise (fun a b => a.1 ≠ b.1) :=
    Std.TreeMap.distinct_keys_toList.imp fun hab heq => hab (by rw [heq]; exact Std.ReflCmp.compare_self)
  have htold := h.told name
  simp only [toldOf,uninit,destroyed] at htold ⊢
  rw [List.filter_append,htold,hwalk _ hkeys]
  congr 1
  cases hp : s.prototypes[name]? with
  | none =>
    rw [if_neg]
    · rfl
    · intro hmem
      obtain ⟨e,he,rfl⟩ := List.mem_map.mp hmem
      rw [Std.TreeMap.mem_toList_iff_getElem?_eq_some.mp he] at hp
      cases hp
  | some p =>
    exact if_pos (List.mem_map.mpr ⟨_,Std.TreeMap.mem_toList_iff_getElem?_eq_some.mpr hp,rfl⟩)

theorem uninit_checked (h : s.Cached desc hooks) : (s.uninit desc hooks).nullDescription = false := by
  simp only [uninit,h.checked,Bool.false_or,List.any_eq_false]
  intro e he
  have hreg := h.registered e.1 e.2 (Std.TreeMap.mem_toList_iff_getElem?_eq_some.mp he)
  simpa using Option.isSome_iff_ne_none.mp hreg

end Cached

theorem cached_run (ops : List (ManagerOp D)) : (run desc hooks ops).Cached desc hooks := (cached_init.run ops).cached

theorem run_split (before after : List (ManagerOp D)) (op : ManagerOp D) : run desc hooks (before ++ op :: after) =
    Transition.run (step desc hooks) ((run desc hooks before).step desc hooks op) after := by
  rw [run,Transition.run_append,Transition.run_cons]
  rfl

/-- However features are registered, looked up and required, a prototype is told of its creation when its object is
made, and of its end when the manager ends, at most once each, by the description that it was made with and by the one
that its name has by then. -/
theorem lifecycle_told (ops : List (ManagerOp D)) (name : String) :
    (run desc hooks ops).toldOf name = (run desc hooks ops).created hooks name ∧
      ((run desc hooks ops).uninit desc hooks).toldOf name =
        (run desc hooks ops).created hooks name ++ (run desc hooks ops).destroyed hooks name ∧
      ((run desc hooks ops).uninit desc hooks).nullDescription = false := by
  have hcached : (run desc hooks ops).Cached desc hooks := cached_run ops
  exact ⟨hcached.told name,hcached.toldOf_uninit name,hcached.uninit_checked⟩

theorem newInstance_made {o : ℕ} (ho : p.ftProto = some o) (d : D) (object jsClass : Bool) :
    (s.newInstance hooks name p d object jsClass).1.hookCalls =
      s.hookCalls ++ if (hooks d).onRequired then [.onRequired d name s.instances] else [] := by
  simp only [newInstance,createJsInstance,ensureJsPrototype,ho,Option.isSome_some,if_true,Bool.true_and]
  cases jsClass <;> rfl

/-- Whatever the manager is asked for in between, an object that a lookup gave out makes an instance of the feature
that was looked up, and only the hook of its present description is told. -/
theorem create_of_found {before between : List (ManagerOp D)} {object : Bool} {o : ℕ}
    (hfound : ((run desc hooks before).findFeature desc hooks name object).2 = some o)
    (object' jsClass : Bool) :
    let s := run desc hooks (before ++ .findFeature name object :: between)
    ∃ d, s.registry.findFeature name = some d ∧ (s.createFeature hooks (some o) object' jsClass).1.hookCalls =
      s.hookCalls ++ if (hooks d).onRequired then [.onRequired d name s.instances] else [] := by
  have hcached : (run desc hooks before).Cached desc hooks := cached_run before
  have hlookup : ∃ p, ((run desc hooks before).step desc hooks (.findFeature name object)).prototypes[name]? = some p ∧
      p.ftProto = some o := by
    unfold step
    dsimp only [findFeature] at hfound ⊢
    cases hd : (run desc hooks before).registry.findFeature name with
    | none => simp [hd] at hfound
    | some d =>
      have hname := hcached.named name d hd
      simp only [hd,hname] at hfound ⊢
      split_ifs at hfound
      exact Option.bind_eq_some_iff.mp hfound
  obtain ⟨p,hp,ho⟩ := hlookup
  have hfollows := (hcached.step (.findFeature name object)).cached.run between
  have hkept := hfollows.kept name p hp (by simp [ho])
  rw [← run_split] at hfollows hkept
  obtain ⟨d,hd⟩ := Option.isSome_iff_exists.mp (hfollows.cached.registered name p hkept)
  refine ⟨d,hd,?_⟩
  simp only [createFeature,hfollows.cached.find?_ftProto hkept ho,hd]
  exact newInstance_made ho d object' jsClass

/-- Two features are looked up, and then the first object makes an instance. -/
theorem create_of_found_first :
    let desc := fun b : Bool => (⟨some (if b then "f" else "g"),none⟩ : RegistryDescription)
    let hooks := fun _ : Bool => (⟨true,true,true⟩ : ManagerHooks)
    let s := run desc hooks ([.registerFeature ⟨some true,none⟩,.registerFeature ⟨some false,none⟩] ++
      .findFeature "f" true :: [.findFeature "g" true])
    ∃ d, s.registry.findFeature "f" = some d ∧ (s.createFeature hooks (some 0) true true).1.hookCalls =
      s.hookCalls ++ if (hooks d).onRequired then [.onRequired d "f" s.instances] else [] :=
  create_of_found rfl true true

end FeatureManagerQjs
end FeatureRuntime
