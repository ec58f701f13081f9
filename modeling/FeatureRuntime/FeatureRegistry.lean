import FeatureRuntime.CText
import FeatureRuntime.MapHistory

/-! `FeatureRegistry`: registrations, the hooks they call, and the end of the registry. -/
namespace FeatureRuntime

/-- The hooks of `native_callbacks` that are set. -/
structure RegistryHooks where
  onRegister : Bool
  onUnregister : Bool
  deriving DecidableEq, Repr

/-- What the registry reads of a `FeatureDescription`. -/
structure RegistryDescription where
  name : Option String
  nativeCallbacks : Option RegistryHooks
  deriving DecidableEq, Repr

namespace RegistryDescription

def hasOnRegister (d : RegistryDescription) : Bool := d.nativeCallbacks.any RegistryHooks.onRegister

def hasOnUnregister (d : RegistryDescription) : Bool := d.nativeCallbacks.any RegistryHooks.onUnregister

end RegistryDescription

/-- A call of a native hook of the description at an address. -/
inductive RegistryEvent (D : Type)
  | onRegister (d : D)
  | onUnregister (d : D)
  deriving DecidableEq, Repr

structure FeatureRegistry (D : Type) where
  registeredFeatures : Std.TreeMap String D := ∅
  events : List (RegistryEvent D) := []

/-- A call of `registerFeature`: the address that is passed, if any, and what `onFeatureRegistered_` answers
if it is set and called. -/
structure RegisterCall (D : Type) where
  description : Option D
  onFeatureRegistered : Option Bool := none

namespace FeatureRegistry

variable {D : Type} (desc : D → RegistryDescription)

def registerFeature (s : FeatureRegistry D) (c : RegisterCall D) : FeatureRegistry D × Bool :=
  match c.description with
  | none => (s,false)
  | some d =>
    match (desc d).name with
    | none => (s,false)
    | some name =>
      let s := { s with registeredFeatures := s.registeredFeatures.insert name d }
      let s := if (desc d).hasOnRegister then { s with events := s.events ++ [.onRegister d] } else s
      match c.onFeatureRegistered with
      | some answer => (s,answer)
      | none => (s,true)

def unregistered (entries : List (String × D)) : List (RegistryEvent D) :=
  (entries.filter (fun e => (desc e.2).hasOnUnregister)).map (fun e => .onUnregister e.2)

def unregisterAllFeatures (s : FeatureRegistry D) : FeatureRegistry D :=
  { s with events := s.events ++ unregistered desc s.registeredFeatures.toList }

def findFeature (s : FeatureRegistry D) (name : String) : Option D := s.registeredFeatures[name]?

/-- `~FeatureRegistry`. -/
def destroy (s : FeatureRegistry D) : FeatureRegistry D :=
  { unregisterAllFeatures desc s with registeredFeatures := ∅ }

def run (calls : List (RegisterCall D)) : FeatureRegistry D :=
  calls.foldl (fun s c => (s.registerFeature desc c).1) {}

def answer (before : List (RegisterCall D)) (c : RegisterCall D) : Bool :=
  ((run desc before).registerFeature desc c).2

def entry (c : RegisterCall D) : Option (String × D) :=
  c.description.bind (fun d => (desc d).name.map (fun name => (name,d)))

def descriptionsOf (calls : List (RegisterCall D)) (name : String) : List D :=
  MapHistory.valuesOf (calls.filterMap (entry desc)) name

def successes (calls : List (RegisterCall D)) : List (String × D) :=
  (calls.foldl (fun (done : FeatureRegistry D × List (String × D)) c =>
    let result := done.1.registerFeature desc c
    (result.1,if result.2 then done.2 ++ (entry desc c).toList else done.2)) ({},[])).2

def lastRegistration (calls : List (RegisterCall D)) (name : String) : Option D :=
  (MapHistory.valuesOf (successes desc calls) name).getLast?

/-! What one call does, and then what a run does. -/

theorem registerFeature_registered (s : FeatureRegistry D) (c : RegisterCall D) :
    (s.registerFeature desc c).1.registeredFeatures =
      match entry desc c with
      | some e => s.registeredFeatures.insert e.1 e.2
      | none => s.registeredFeatures := by
  obtain ⟨_ | d,hook⟩ := c
  · rfl
  · cases hname : (desc d).name with
    | none => simp [registerFeature,entry,hname]
    | some name => cases hook <;> cases h : (desc d).hasOnRegister <;> simp [registerFeature,entry,hname,h]

theorem registerFeature_events (s : FeatureRegistry D) (c : RegisterCall D) :
    (s.registerFeature desc c).1.events = s.events ++
      (((entry desc c).toList.filter (fun e => (desc e.2).hasOnRegister)).map (fun e => .onRegister e.2)) := by
  obtain ⟨_ | d,hook⟩ := c
  · simp [registerFeature,entry]
  · cases hname : (desc d).name with
    | none => simp [registerFeature,entry,hname]
    | some name => cases hook <;> cases h : (desc d).hasOnRegister <;> simp [registerFeature,entry,hname,h]

theorem registerFeature_answer (s : FeatureRegistry D) (c : RegisterCall D) :
    (s.registerFeature desc c).2 = ((entry desc c).isSome && c.onFeatureRegistered != some false) := by
  obtain ⟨_ | d,hook⟩ := c
  · rfl
  · cases hname : (desc d).name with
    | none => simp [registerFeature,entry,hname]
    | some name => rcases hook with _ | _ | _ <;> simp [registerFeature,entry,hname]

@[simp] theorem run_concat (calls : List (RegisterCall D)) (c : RegisterCall D) :
    run desc (calls ++ [c]) = ((run desc calls).registerFeature desc c).1 := by
  simp [run]

theorem run_registered (calls : List (RegisterCall D)) :
    (run desc calls).registeredFeatures = MapHistory.fill compare (calls.filterMap (entry desc)) := by
  induction calls using List.reverseRecOn with
  | nil => rfl
  | append_singleton calls c ih =>
    rw [run_concat,registerFeature_registered,ih,List.filterMap_append]
    cases hentry : entry desc c with
    | none => simp [hentry]
    | some e => simp [hentry,MapHistory.fill_concat]

theorem run_events (calls : List (RegisterCall D)) : (run desc calls).events =
      ((calls.filterMap (entry desc)).filter (fun e => (desc e.2).hasOnRegister)).map (fun e => .onRegister e.2) := by
  induction calls using List.reverseRecOn with
  | nil => rfl
  | append_singleton calls c ih =>
    rw [run_concat,registerFeature_events,ih,List.filterMap_append,List.filter_append,List.map_append]
    cases hentry : entry desc c <;> simp [hentry]

theorem successes_concat (calls : List (RegisterCall D)) (c : RegisterCall D) : successes desc (calls ++ [c]) =
      successes desc calls ++ if answer desc calls c then (entry desc c).toList else [] := by
  have hrun : ∀ l : List (RegisterCall D), (l.foldl (fun (done : FeatureRegistry D × List (String × D)) c =>
        let result := done.1.registerFeature desc c
        (result.1,if result.2 then done.2 ++ (entry desc c).toList else done.2)) ({},[])).1 = run desc l := by
    intro l
    induction l using List.reverseRecOn with
    | nil => rfl
    | append_singleton l c ih => simp [ih]
  rw [successes,List.foldl_concat]
  dsimp only
  rw [hrun,← answer,← successes]
  split_ifs <;> simp

theorem findFeature_run (calls : List (RegisterCall D)) (name : String) :
    (run desc calls).findFeature name = (descriptionsOf desc calls name).getLast? := by
  rw [findFeature,run_registered,MapHistory.getElem?_fill,descriptionsOf]

section HasFeature

variable (members : D → List String)

/-- `FeatureManager::hasFeature`: the name of a feature, or of one with a member behind the last dot. -/
def hasFeature (s : FeatureRegistry D) (featureMethod : String) : Bool :=
  match s.findFeature featureMethod with
  | some _ => true
  | none =>
    match findLastOf '.' featureMethod.toList with
    | none => false
    | some lastDot =>
      match s.findFeature (String.ofList (featureMethod.toList.take lastDot)) with
      | none => false
      | some d => (members d).any (fun name => name = String.ofList (featureMethod.toList.drop (lastDot + 1)))

/-- A feature is there if it was registered, and a member of it if it is one of the description that was registered
last; a name with dots is read both ways. -/
theorem hasFeature_run (calls : List (RegisterCall D)) (featureMethod : String) :
    (run desc calls).hasFeature members featureMethod = true ↔ descriptionsOf desc calls featureMethod ≠ [] ∨
      ∃ name method d, featureMethod = name ++ "." ++ method ∧ '.' ∉ method.toList ∧
        (descriptionsOf desc calls name).getLast? = some d ∧ method ∈ members d := by
  have hdot : (".").toList = ['.'] := rfl
  rw [hasFeature,findFeature_run]
  cases hwhole : (descriptionsOf desc calls featureMethod).getLast? with
  | some d =>
    have hne : descriptionsOf desc calls featureMethod ≠ [] := by
      intro hnil
      simp [hnil] at hwhole
    simp [hne]
  | none =>
    simp only [List.getLast?_eq_none_iff.mp hwhole,ne_eq,not_true_eq_false,false_or,findFeature_run]
    constructor
    · intro h
      cases hlast : findLastOf '.' featureMethod.toList with
      | none => simp [hlast] at h
      | some lastDot =>
        obtain ⟨heq,hnot⟩ := findLastOf_eq_some hlast
        simp only [hlast] at h
        split at h
        · cases h
        · next d hd =>
          obtain ⟨method,hmem,hmethod⟩ := List.any_eq_true.mp h
          have hmethod := of_decide_eq_true hmethod
          refine ⟨_,method,d,?_,?_,hd,hmem⟩
          · rw [hmethod,← String.toList_inj]
            simpa [hdot] using heq
          · rwa [hmethod,String.toList_ofList]
    · rintro ⟨name,method,d,rfl,hnot,hd,hmem⟩
      have htext : (name ++ "." ++ method).toList = name.toList ++ '.' :: method.toList := by simp [hdot]
      simp [htext,findLastOf_append name.toList hnot,hd,hmem]

end HasFeature

/-! How often the hooks of one description are called. -/

variable {c : RegisterCall D}

theorem entry_name {e : String × D} (h : entry desc c = some e) : (desc e.2).name = some e.1 := by
  obtain ⟨d,_,hd⟩ := Option.bind_eq_some_iff.mp h
  obtain ⟨name,hname,heq⟩ := Option.map_eq_some_iff.mp hd
  subst heq
  exact hname

variable {calls : List (RegisterCall D)}

theorem name_of_mem {e : String × D} (h : e ∈ calls.filterMap (entry desc)) : (desc e.2).name = some e.1 := by
  obtain ⟨c,_,hc⟩ := List.mem_filterMap.mp h
  exact entry_name desc hc

variable {name : String}

theorem name_of_mem_descriptionsOf {d : D} (h : d ∈ descriptionsOf desc calls name) : (desc d).name = some name := by
  obtain ⟨e,he,rfl⟩ := List.mem_map.mp h
  obtain ⟨hmem,hname⟩ := List.mem_filter.mp he
  rw [name_of_mem desc hmem,of_decide_eq_true hname]

theorem descriptionsOf_concat {d : D}
    (h : entry desc c = some (name,d)) (key : String) : descriptionsOf desc (calls ++ [c]) key =
      if name = key then descriptionsOf desc calls key ++ [d] else descriptionsOf desc calls key := by
  rw [descriptionsOf,List.filterMap_append]
  have hone : [c].filterMap (entry desc) = [(name,d)] := by simp [h]
  rw [hone]
  split_ifs with hkey
  · subst hkey
    exact MapHistory.valuesOf_concat_self _ _ _
  · exact MapHistory.valuesOf_concat_of_ne _ _ hkey

theorem descriptionsOf_concat_none (h : entry desc c = none) (key : String) :
    descriptionsOf desc (calls ++ [c]) key = descriptionsOf desc calls key := by
  rw [descriptionsOf,List.filterMap_append]
  simp [h,descriptionsOf]

theorem answer_eq_false_iff (before : List (RegisterCall D)) (c : RegisterCall D) :
    answer desc before c = false ↔ entry desc c = none ∨ c.onFeatureRegistered = some false := by
  rw [answer,registerFeature_answer]
  cases entry desc c <;> simp

variable [DecidableEq D]

/-- The calls of a hook that descriptions have by `p`, for entries that stand under their names. -/
theorem count_hooks {f : D → RegistryEvent D} (hf : Function.Injective f) (p : RegistryDescription → Bool)
    {d : D} (hname : (desc d).name = some name) (entries : List (String × D))
    (hentries : ∀ e ∈ entries, (desc e.2).name = some e.1) :
    ((entries.filter (fun e => p (desc e.2))).map (fun e => f e.2)).count (f d) =
      if p (desc d) then entries.count (name,d) else 0 := by
  induction entries with
  | nil => simp
  | cons e entries ih =>
    obtain ⟨he,hrest⟩ := List.forall_mem_cons.mp hentries
    have ih := ih hrest
    obtain ⟨key,c⟩ := e
    by_cases hd : c = d
    · subst hd
      obtain rfl : key = name := Option.some.inj (he.symm.trans hname)
      cases hp : p (desc c) with
      | false => simpa [hp] using ih
      | true =>
        rw [if_pos hp] at ih
        simp [hp,ih]
    · have hfne : f c ≠ f d := fun h => hd (hf h)
      have hne : (key,c) ≠ (name,d) := fun h => hd (congrArg Prod.snd h)
      rw [List.count_cons_of_ne hne,← ih]
      cases hp : p (desc c) <;> simp [hp,hfne]

theorem count_onRegister {d : D} (hname : (desc d).name = some name)
    (calls : List (RegisterCall D)) : (run desc calls).events.count (.onRegister d) =
      if (desc d).hasOnRegister then (descriptionsOf desc calls name).count d else 0 := by
  have hinjective : Function.Injective (RegistryEvent.onRegister (D := D)) := fun _ _ h =>
    RegistryEvent.onRegister.inj h
  rw [run_events,count_hooks desc hinjective _ hname _ (fun e he => name_of_mem desc he),descriptionsOf,
    MapHistory.count_valuesOf]

/-- The end of the registry reaches the descriptions that are registered last under their names. -/
theorem count_onUnregister {d : D} (hname : (desc d).name = some name)
    (calls : List (RegisterCall D)) : (destroy desc (run desc calls)).events.count (.onUnregister d) =
      if (desc d).hasOnUnregister ∧ (descriptionsOf desc calls name).getLast? = some d then 1 else 0 := by
  have hinjective : Function.Injective (RegistryEvent.onUnregister (D := D)) := fun _ _ h =>
    RegistryEvent.onUnregister.inj h
  have hrun : (run desc calls).events.count (.onUnregister d) = 0 := by
    rw [run_events]
    refine List.count_eq_zero.mpr (fun hmem => ?_)
    obtain ⟨_,_,heq⟩ := List.mem_map.mp hmem
    cases heq
  have hperm : (run desc calls).registeredFeatures.toList.Perm
      (MapHistory.surviving (calls.filterMap (entry desc))) := by
    rw [run_registered]
    exact MapHistory.toList_fill_perm _
  have hnames : ∀ e ∈ MapHistory.surviving (calls.filterMap (entry desc)), (desc e.2).name = some e.1 :=
    fun e he => name_of_mem desc (MapHistory.surviving_subset he)
  have hcount := ((hperm.filter (fun e => (desc e.2).hasOnUnregister)).map
    (fun e => RegistryEvent.onUnregister e.2)).count_eq (.onUnregister d)
  rw [count_hooks desc hinjective RegistryDescription.hasOnUnregister hname _ hnames] at hcount
  rw [destroy,unregisterAllFeatures,List.count_append,hrun,unregistered,hcount,descriptionsOf,Nat.zero_add,
    List.Nodup.count (MapHistory.surviving_nodup _)]
  simp only [MapHistory.mem_surviving_iff]
  split_ifs <;> simp_all

theorem count_onRegister_destroy (calls : List (RegisterCall D)) (d : D) :
    (destroy desc (run desc calls)).events.count (.onRegister d) = (run desc calls).events.count (.onRegister d) := by
  have hnone : (unregistered desc (run desc calls).registeredFeatures.toList).count (.onRegister d) = 0 := by
    refine List.count_eq_zero.mpr (fun hmem => ?_)
    obtain ⟨_,_,heq⟩ := List.mem_map.mp hmem
    cases heq
  rw [destroy,unregisterAllFeatures,List.count_append,hnone,Nat.add_zero]

/-! The balance. -/

/-- The hooks are called in pairs, a call that returns false changes nothing, and a name has the description
of its last registration. -/
structure Balanced (calls : List (RegisterCall D)) : Prop where
  paired : ∀ d, .onRegister d ∈ (destroy desc (run desc calls)).events →
    (destroy desc (run desc calls)).events.count (.onUnregister d) =
      (destroy desc (run desc calls)).events.count (.onRegister d)
  unchanged : ∀ before c after, calls = before ++ c :: after → answer desc before c = false →
    ∀ name, (run desc (before ++ [c])).findFeature name = (run desc before).findFeature name
  found : ∀ before after, calls = before ++ after →
    ∀ name, (run desc before).findFeature name = lastRegistration desc before name

/-- A call that is refused repeats the description that its name has, and a description that is told of its
registration is told of its end, and is registered once and last under its name. -/
structure Steady (calls : List (RegisterCall D)) : Prop where
  refused : ∀ before c after d name, calls = before ++ c :: after → entry desc c = some (name,d) →
    c.onFeatureRegistered = some false → (descriptionsOf desc before name).getLast? = some d
  told : ∀ d name, d ∈ descriptionsOf desc calls name → (desc d).hasOnRegister = true →
    (desc d).hasOnUnregister = true ∧ (descriptionsOf desc calls name).count d = 1 ∧
      (descriptionsOf desc calls name).getLast? = some d

theorem unchanged_of_steady (h : Steady desc calls) {before after : List (RegisterCall D)}
    (hcalls : calls = before ++ c :: after) (hfalse : answer desc before c = false)
    (name : String) : (run desc (before ++ [c])).findFeature name = (run desc before).findFeature name := by
  rw [findFeature_run,findFeature_run]
  cases hentry : entry desc c with
  | none => rw [descriptionsOf_concat_none desc hentry]
  | some e =>
    obtain ⟨key,d⟩ := e
    have hrefused := ((answer_eq_false_iff desc before c).mp hfalse).resolve_left (by simp [hentry])
    rw [descriptionsOf_concat desc hentry]
    split_ifs with hkey
    · subst hkey
      rw [List.getLast?_concat,h.refused before c after d key hcalls hentry hrefused]
    · rfl

theorem found_of_steady (h : Steady desc calls) (before : List (RegisterCall D)) : ∀ after, calls = before ++ after →
      ∀ name, (run desc before).findFeature name = lastRegistration desc before name := by
  induction before using List.reverseRecOn with
  | nil => intro _ _ name; rfl
  | append_singleton before c ih =>
    intro after hcalls name
    have hcalls : calls = before ++ c :: after := by simpa using hcalls
    have ih := ih (c :: after) hcalls name
    rw [lastRegistration] at ih ⊢
    rw [successes_concat]
    cases hanswer : answer desc before c with
    | false =>
      rw [unchanged_of_steady desc h hcalls hanswer name,ih]
      simp
    | true =>
      cases hentry : entry desc c with
      | none =>
        rw [(answer_eq_false_iff desc before c).mpr (.inl hentry)] at hanswer
        cases hanswer
      | some e =>
        obtain ⟨key,d⟩ := e
        rw [findFeature_run,descriptionsOf_concat desc hentry]
        rw [findFeature_run] at ih
        simp only [if_true,Option.toList_some]
        split_ifs with hkey
        · subst hkey
          simp
        · rw [MapHistory.valuesOf_concat_of_ne _ _ hkey,ih]

/-- For every sequence of calls: the registry balances exactly when the sequence is steady. -/
theorem balanced_iff_steady (calls : List (RegisterCall D)) : Balanced desc calls ↔ Steady desc calls := by
  constructor
  · intro h
    refine ⟨fun before c after d name hcalls hentry hrefused => ?_,fun d name hmem hhook => ?_⟩
    · have hfalse := (answer_eq_false_iff desc before c).mpr (.inr hrefused)
      have hsame := h.unchanged before c after hcalls hfalse name
      rw [findFeature_run,findFeature_run,descriptionsOf_concat desc hentry,if_pos rfl,List.getLast?_concat] at hsame
      exact hsame.symm
    · have hname := name_of_mem_descriptionsOf desc hmem
      have hregister := count_onRegister_destroy desc calls d
      rw [count_onRegister desc hname,if_pos hhook] at hregister
      have hpos := List.count_pos_iff.mpr hmem
      have hpaired := h.paired d (List.count_pos_iff.mp (hregister ▸ hpos))
      rw [hregister,count_onUnregister desc hname] at hpaired
      split_ifs at hpaired with hlast
      · exact ⟨hlast.1,hpaired.symm,hlast.2⟩
      · omega
  · intro h
    refine ⟨fun d hmem => ?_,fun before c after hcalls hfalse name => unchanged_of_steady desc h hcalls hfalse name,
      fun before after hcalls => found_of_steady desc h before after hcalls⟩
    have hpos := List.count_pos_iff.mpr hmem
    rw [count_onRegister_destroy] at hpos ⊢
    cases hname : (desc d).name with
    | none =>
      have hzero : (run desc calls).events.count (.onRegister d) = 0 := by
        rw [run_events]
        refine List.count_eq_zero.mpr (fun hd => ?_)
        obtain ⟨e,he,heq⟩ := List.mem_map.mp hd
        have hkey := name_of_mem desc (List.mem_of_mem_filter he)
        rw [RegistryEvent.onRegister.inj heq,hname] at hkey
        cases hkey
      omega
    | some name =>
      rw [count_onRegister desc hname] at hpos ⊢
      rw [count_onUnregister desc hname]
      split_ifs at hpos with hhook
      · obtain ⟨hunhook,hone,hlast⟩ := h.told d name (List.count_pos_iff.mp hpos) hhook
        rw [if_pos ⟨hunhook,hlast⟩,if_pos hhook,hone]
      · omega

def hookedFeature : ℕ → RegistryDescription := fun _ => ⟨some "system.file",some ⟨true,true⟩⟩

/-- A second registration of a name is never undone, and neither is one that is refused. -/
theorem repeated_registration_unbalanced :
    ¬ ∀ (desc : ℕ → RegistryDescription) (calls : List (RegisterCall ℕ)), Balanced desc calls := by
  intro h
  have hpaired := (h hookedFeature [⟨some 0,none⟩,⟨some 1,none⟩]).paired 0
  have hname : (hookedFeature 0).name = some "system.file" := rfl
  rw [← List.count_pos_iff,count_onRegister_destroy,count_onRegister hookedFeature hname,
    count_onUnregister hookedFeature hname] at hpaired
  exact absurd (hpaired (by decide)) (by decide)

end FeatureRegistry
end FeatureRuntime
