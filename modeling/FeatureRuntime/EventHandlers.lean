import FeatureRuntime.EventEmission
import FeatureRuntime.IdMap
import FeatureRuntime.Transition

/-! The handlers of the events of an instance: what a history of registrations and removals says
they are, and the map of `EventManager` with the references it takes. -/
namespace FeatureRuntime

inductive HandlerEdit (F : Type)
  | add (f : F)
  | remove (f : F)
  | clear

namespace HandlerEdit

variable {F : Type}

/-- Whether the edit ends a registration of `f`. -/
def Removes (f : F) : HandlerEdit F → Prop
  | .add _ => False
  | .remove g => g = f
  | .clear => True

/-- `f` has been registered since position `t`: it was added there, it has not been removed since,
and every earlier registration of it had been removed before. -/
def RegisteredAt (history : List (HandlerEdit F)) (f : F) (t : ℕ) : Prop :=
  history[t]? = some (.add f) ∧ (∀ u edit, t < u → history[u]? = some edit → ¬ edit.Removes f) ∧
    ∀ t' < t, history[t']? = some (.add f) → ∃ u edit, t' < u ∧ u < t ∧ history[u]? = some edit ∧ edit.Removes f

/-- The list holds the registered functions, each once, in the order of their registration. -/
structure Lists (history : List (HandlerEdit F)) (handlers : List F) : Prop where
  nodup : handlers.Nodup
  mem_iff : ∀ f, f ∈ handlers ↔ ∃ t, RegisteredAt history f t
  ordered : handlers.Pairwise (fun f g =>
    ∀ t u, RegisteredAt history f t → RegisteredAt history g u → t < u)

def apply [DecidableEq F] (handlers : List F) : HandlerEdit F → List F
  | .add f => if f ∈ handlers then handlers else handlers ++ [f]
  | .remove f => handlers.filter (· ≠ f)
  | .clear => []

end HandlerEdit

/-- The ids of the events that a description declares. -/
structure EventTable (n : ℕ) where
  id : Fin n → ℤ
  positive : ∀ event, 0 < id event
  injective : Function.Injective id

/-- `EventData`. -/
structure HandlerData (n : ℕ) (F : Type) where
  memberEvent : Fin n
  callbacks : List F := []

/-- `EventManager`, with the reference counts of the functions of the script. -/
structure EventManager {n : ℕ} (T : EventTable n) (F : Type) where
  eventsMap : IdMap (HandlerData n F) := ∅
  refs : F → ℤ

section Refs

variable {F : Type} [DecidableEq F]

def addRef (refs : F → ℤ) (f : F) : F → ℤ := refs + Pi.single f 1

def releaseRef (refs : F → ℤ) (f : F) : F → ℤ := refs - Pi.single f 1

end Refs

namespace HandlerData

variable {n : ℕ} {F : Type} [DecidableEq F] (data : HandlerData n F) (refs : F → ℤ)

/-- `EventData::addCallback`. -/
def addCallback (cb : F) : HandlerData n F × (F → ℤ) :=
  if cb ∈ data.callbacks then (data,refs)
  else ({ data with callbacks := data.callbacks ++ [cb] },addRef refs cb)

/-- `EventData::eraseCallback`. -/
def eraseCallback (cb : F) : HandlerData n F × (F → ℤ) :=
  ({ data with callbacks := data.callbacks.filter (· ≠ cb) },
    (data.callbacks.filter (· = cb)).foldl releaseRef refs)

/-- `EventData::clear`. -/
def clear : HandlerData n F × (F → ℤ) :=
  ({ data with callbacks := [] },data.callbacks.foldl releaseRef refs)

end HandlerData

namespace EventManager

variable {n : ℕ} {T : EventTable n} {F : Type} [DecidableEq F] (s : EventManager T F)

/-- `findEventId`: 0 when no entry of the map is for the event. -/
def findEventId (event : Fin n) : ℤ :=
  ((s.eventsMap.toList.find? (fun it => it.2.memberEvent = event)).map Prod.fst).getD 0

def put (eid : ℤ) (r : HandlerData n F × (F → ℤ)) : EventManager T F :=
  { eventsMap := s.eventsMap.insert eid r.1, refs := r.2 }

def addEventCallback (event : Fin n) (cb : F) : EventManager T F :=
  let eid := s.findEventId event
  if eid ≤ 0 then
    let s := s.put (T.id event) (⟨event,[]⟩,s.refs)
    s.put (T.id event) (((s.eventsMap[T.id event]?).getD ⟨event,[]⟩).addCallback s.refs cb)
  else s.put eid (((s.eventsMap[eid]?).getD ⟨event,[]⟩).addCallback s.refs cb)

def eraseEventCallback (event : Fin n) (cb : F) : EventManager T F :=
  let eid := s.findEventId event
  if eid ≤ 0 then s
  else s.put eid (((s.eventsMap[eid]?).getD ⟨event,[]⟩).eraseCallback s.refs cb)

/-- `EventManager::removeEventCallbacks`, with the id kept. -/
def removeEventCallbacks (eid : ℤ) : EventManager T F :=
  if eid ≤ 0 then s
  else
    match s.eventsMap[eid]? with
    | none => s
    | some data => s.put eid (data.clear s.refs)

def getEventCallbacks (event : Fin n) : List F :=
  let eid := s.findEventId event
  if eid ≤ 0 then [] else ((s.eventsMap[eid]?).map HandlerData.callbacks).getD []

/-- `arrayGet` and `dupValue`: one more reference to a function. -/
def dupValue (f : F) : EventManager T F := { s with refs := addRef s.refs f }

def freeValue (f : F) : EventManager T F := { s with refs := releaseRef s.refs f }

def editElements (edit : EventManager T F → F → EventManager T F) :
    List (Option F) → EventManager T F → Bool × EventManager T F
  | [], s => (true,s)
  | none :: _, s => (false,s)
  | some f :: elements, s => editElements edit elements ((edit (s.dupValue f) f).freeValue f)

def addEventCallbacks (event : Fin n) : EventTarget F → Bool × EventManager T F
  | .nullish => (true,s)
  | .function f => (true,s.addEventCallback event f)
  | .array elements => editElements (fun s f => s.addEventCallback event f) elements s
  | .other => (false,s)

/-- `removeEventCallbacks` on a value of the script. -/
def removeCallbacks (event : Fin n) : EventTarget F → Bool × EventManager T F
  | .nullish => (true,s.removeEventCallbacks (s.findEventId event))
  | .function f => (true,s.eraseEventCallback event f)
  | .array elements => editElements (fun s f => s.eraseEventCallback event f) elements s
  | .other => (false,s)

def eventSet (event : Fin n) (val : EventTarget F) : Bool × EventManager T F :=
  (s.removeEventCallbacks (s.findEventId event)).addEventCallbacks event val

/-- `eventGet`: a new array holds one more reference to every handler. -/
def eventGet (event : Fin n) : List F × EventManager T F :=
  (s.getEventCallbacks event,(s.getEventCallbacks event).foldl dupValue s)

/-- `eventOnOff` and `eventSet` on an event. -/
def step (label : Fin n × EventOp F) : EventManager T F :=
  match label.2 with
  | .on target => (s.addEventCallbacks label.1 target).2
  | .off target => (s.removeCallbacks label.1 target).2
  | .set target => (s.eventSet label.1 target).2

def reassign (event : Fin n) : EventManager T F :=
  let r := s.eventGet event
  r.1.foldl freeValue (r.2.eventSet event (.array (r.1.map some))).2

end EventManager

def EventTarget.functions {F : Type} : EventTarget F → List F
  | .function f => [f]
  | .array elements => (elements.takeWhile Option.isSome).filterMap id
  | _ => []

def EventOp.edits {F : Type} : EventOp F → List (HandlerEdit F)
  | .on target => target.functions.map .add
  | .off .nullish => [.clear]
  | .off target => target.functions.map .remove
  | .set target => .clear :: target.functions.map .add

def eventHistory {n : ℕ} {F : Type} (event : Fin n) (labels : List (Fin n × EventOp F)) : List (HandlerEdit F) :=
  (labels.filter (·.1 = event)).flatMap (fun label => label.2.edits)

namespace HandlerEdit

variable {F : Type} {history : List (HandlerEdit F)} {f g : F}

theorem RegisteredAt.lt_length {t : ℕ} (h : RegisteredAt history f t) : t < history.length :=
  (List.getElem?_eq_some_iff.mp h.1).1

/-- A function that was added after its last removal has been registered since some position. -/
theorem registered_of_added {t : ℕ} (hadd : history[t]? = some (.add f))
    (hlast : ∀ u edit, t < u → history[u]? = some edit → ¬ edit.Removes f) :
    ∃ t', RegisteredAt history f t' := by
  induction t using Nat.strong_induction_on with
  | _ t ih =>
    by_cases hearlier : ∃ t' < t, history[t']? = some (.add f) ∧
        ∀ u edit, t' < u → history[u]? = some edit → ¬ edit.Removes f
    · obtain ⟨t',hlt,hadd',hlast'⟩ := hearlier
      exact ih t' hlt hadd' hlast'
    · refine ⟨t,hadd,hlast,fun t' hlt hadd' => ?_⟩
      by_contra hnone
      refine hearlier ⟨t',hlt,hadd',fun u edit hu hedit hremoves => ?_⟩
      rcases Nat.lt_trichotomy u t with hut | rfl | hut
      · exact hnone ⟨u,edit,hu,hut,hedit,hremoves⟩
      · obtain rfl := Option.some.inj (hadd.symm.trans hedit)
        exact hremoves
      · exact hlast u edit hut hedit hremoves

theorem getElem?_concat (edit : HandlerEdit F) (u : ℕ) :
    (history ++ [edit])[u]? = if u = history.length then some edit else history[u]? := by
  rcases Nat.lt_trichotomy u history.length with hlt | rfl | hgt
  · rw [if_neg (by omega),List.getElem?_append_left hlt]
  · simp
  · rw [if_neg (by omega),List.getElem?_eq_none (by simp; omega),List.getElem?_eq_none (by omega)]

variable {edit : HandlerEdit F}

/-- An edit that does not end the registration of `f` keeps its position. -/
theorem registeredAt_concat_iff (hkeep : ¬ edit.Removes f) {t : ℕ}
    (ht : t < history.length) : RegisteredAt (history ++ [edit]) f t ↔ RegisteredAt history f t := by
  have hget : ∀ u, u < history.length → (history ++ [edit])[u]? = history[u]? :=
    fun u hu => List.getElem?_append_left hu
  unfold RegisteredAt
  rw [hget t ht]
  refine and_congr_right (fun _ => and_congr ⟨fun h u e hu he => ?_,fun h u e hu he => ?_⟩
    ⟨fun h t' ht' hadd => ?_,fun h t' ht' hadd => ?_⟩)
  · have hlt := (List.getElem?_eq_some_iff.mp he).1
    exact h u e hu (by rw [hget u hlt,he])
  · rw [getElem?_concat] at he
    split_ifs at he with hend
    · exact Option.some.inj he ▸ hkeep
    · exact h u e hu he
  · obtain ⟨u,e,hu,hut,he,hremoves⟩ := h t' ht' (by rw [hget t' (by omega),hadd])
    exact ⟨u,e,hu,hut,by rw [← hget u (by omega),he],hremoves⟩
  · obtain ⟨u,e,hu,hut,he,hremoves⟩ := h t' ht' (by rw [← hget t' (by omega),hadd])
    exact ⟨u,e,hu,hut,by rw [hget u (by omega),he],hremoves⟩

theorem not_registered_concat (hremoves : edit.Removes f) (t : ℕ) : ¬ RegisteredAt (history ++ [edit]) f t := by
  intro h
  have hlen := h.lt_length
  rw [List.length_append,List.length_singleton] at hlen
  have hend : (history ++ [edit])[history.length]? = some edit := by simp
  rcases Nat.lt_or_ge t history.length with hlt | hge
  · exact h.2.1 history.length edit hlt hend hremoves
  · obtain rfl : t = history.length := by omega
    obtain rfl := Option.some.inj (hend.symm.trans h.1)
    exact hremoves

/-- An addition registers a function that was not, at the end of the history. -/
theorem registeredAt_concat_add_iff {t : ℕ} (ht : history.length ≤ t) : RegisteredAt (history ++ [.add g]) f t ↔
      t = history.length ∧ f = g ∧ ¬ ∃ t', RegisteredAt history f t' := by
  constructor
  · intro h
    have hlen := h.lt_length
    rw [List.length_append,List.length_singleton] at hlen
    obtain rfl : t = history.length := by omega
    have hg : some (HandlerEdit.add g) = some (.add f) := by
      rw [← h.1]
      simp
    obtain rfl : g = f := by simpa using hg
    refine ⟨rfl,rfl,?_⟩
    rintro ⟨t',h'⟩
    have ht' := h'.lt_length
    obtain ⟨u,edit,hu,hut,hedit,hremoves⟩ := h.2.2 t' ht'
      (by rw [List.getElem?_append_left ht']; exact h'.1)
    rw [List.getElem?_append_left hut] at hedit
    exact h'.2.1 u edit hu hedit hremoves
  · rintro ⟨rfl,rfl,hnone⟩
    refine ⟨by simp,fun u edit hu hedit => ?_,fun t' ht' hadd => ?_⟩
    · have hlen := (List.getElem?_eq_some_iff.mp hedit).1
      rw [List.length_append,List.length_singleton] at hlen
      omega
    · rw [List.getElem?_append_left ht'] at hadd
      by_contra hno
      refine hnone (registered_of_added hadd (fun u edit hu hedit hremoves => hno ?_))
      have hlen := (List.getElem?_eq_some_iff.mp hedit).1
      exact ⟨u,edit,hu,hlen,by rw [List.getElem?_append_left hlen,hedit],hremoves⟩

theorem lists_nil : Lists ([] : List (HandlerEdit F)) [] := by
  refine ⟨List.nodup_nil,fun f => ?_,List.Pairwise.nil⟩
  simp [RegisteredAt]

theorem registeredAt_concat (hkeep : ¬ edit.Removes f)
    (hadd : edit = .add f → ∃ t, RegisteredAt history f t) (t : ℕ) :
    RegisteredAt (history ++ [edit]) f t ↔ RegisteredAt history f t := by
  rcases Nat.lt_or_ge t history.length with hlt | hge
  · exact registeredAt_concat_iff hkeep hlt
  · refine iff_of_false (fun h => ?_) (fun h => absurd h.lt_length (by omega))
    have hlen := h.lt_length
    rw [List.length_append,List.length_singleton] at hlen
    obtain rfl : t = history.length := by omega
    have hedit : edit = .add f := by simpa using h.1
    subst hedit
    exact ((registeredAt_concat_add_iff le_rfl).mp h).2.2 (hadd rfl)

variable {handlers : List F}

theorem lists_congr {history' : List (HandlerEdit F)} (h : Lists history handlers)
    (hsame : ∀ f t, RegisteredAt history' f t ↔ RegisteredAt history f t) : Lists history' handlers where
  nodup := h.nodup
  mem_iff f := by simp only [hsame,h.mem_iff]
  ordered := h.ordered.imp (fun hlt t u ht hu => hlt t u ((hsame _ _).mp ht) ((hsame _ _).mp hu))

variable [DecidableEq F]

theorem Lists.add (h : Lists history handlers) (g : F) : Lists (history ++ [.add g]) (apply handlers (.add g)) := by
  simp only [apply]
  split_ifs with hg
  · refine lists_congr h (fun f t => registeredAt_concat id (fun hedit => ?_) t)
    obtain rfl : g = f := by simpa using hedit
    exact (h.mem_iff g).mp hg
  · have hother : ∀ f ∈ handlers, ∀ t, RegisteredAt (history ++ [.add g]) f t ↔ RegisteredAt history f t := by
      intro f hf t
      refine registeredAt_concat id (fun hedit => ?_) t
      obtain rfl : g = f := by simpa using hedit
      exact absurd hf hg
    have hself : ∀ t, RegisteredAt (history ++ [.add g]) g t ↔ t = history.length := by
      intro t
      rcases Nat.lt_or_ge t history.length with hlt | hge
      · rw [registeredAt_concat_iff (by exact id) hlt]
        exact iff_of_false (fun ht => hg ((h.mem_iff g).mpr ⟨t,ht⟩)) (by omega)
      · rw [registeredAt_concat_add_iff hge]
        exact ⟨fun ht => ht.1,fun ht => ⟨ht,rfl,fun hreg => hg ((h.mem_iff g).mpr hreg)⟩⟩
    refine ⟨?_,fun f => ?_,?_⟩
    · exact List.nodup_append.mpr ⟨h.nodup,List.nodup_singleton _,by
        rintro f hf _ hg' rfl
        exact hg (List.mem_singleton.mp hg' ▸ hf)⟩
    · rw [List.mem_append,List.mem_singleton]
      by_cases hf : f = g
      · subst hf
        exact iff_of_true (.inr rfl) ⟨history.length,(hself _).mpr rfl⟩
      · have hsame : ∀ t, RegisteredAt (history ++ [.add g]) f t ↔ RegisteredAt history f t :=
          registeredAt_concat id (fun hedit => absurd (by simpa using hedit : g = f) (Ne.symm hf))
        simp only [hsame,← h.mem_iff,hf,or_false]
    · refine List.pairwise_append.mpr ⟨?_,List.pairwise_singleton _ _,fun f hf f' hf' t u ht hu => ?_⟩
      · refine h.ordered.imp_of_mem (fun hf hf' hlt t u ht hu => ?_)
        exact hlt t u ((hother _ hf t).mp ht) ((hother _ hf' u).mp hu)
      · obtain rfl := List.mem_singleton.mp hf'
        rw [(hself u).mp hu]
        exact ((hother f hf t).mp ht).lt_length

theorem Lists.remove (h : Lists history handlers) (g : F) :
    Lists (history ++ [.remove g]) (apply handlers (.remove g)) := by
  have hother : ∀ f, f ≠ g → ∀ t, RegisteredAt (history ++ [.remove g]) f t ↔ RegisteredAt history f t := by
    intro f hf t
    have hkeep : ¬ (HandlerEdit.remove g).Removes f := Ne.symm hf
    exact registeredAt_concat hkeep nofun t
  have hmem : ∀ f, f ∈ apply handlers (.remove g) ↔ f ∈ handlers ∧ f ≠ g := by simp [apply]
  refine ⟨h.nodup.filter _,fun f => ?_,?_⟩
  · rw [hmem]
    by_cases hf : f = g
    · subst hf
      have hremoves : (HandlerEdit.remove f).Removes f := rfl
      exact iff_of_false (fun hn => hn.2 rfl) (fun ⟨t,ht⟩ => not_registered_concat hremoves t ht)
    · simp only [hother f hf,← h.mem_iff,ne_eq,hf,not_false_eq_true,and_true]
  · refine (h.ordered.filter _).imp_of_mem (fun hf hf' hlt t u ht hu => ?_)
    exact hlt t u ((hother _ ((hmem _).mp hf).2 t).mp ht) ((hother _ ((hmem _).mp hf').2 u).mp hu)

theorem Lists.concat (h : Lists history handlers) (edit : HandlerEdit F) :
    Lists (history ++ [edit]) (apply handlers edit) := by
  cases edit with
  | add g => exact h.add g
  | remove g => exact h.remove g
  | clear =>
    refine ⟨List.nodup_nil,fun f => ?_,List.Pairwise.nil⟩
    have hremoves : (HandlerEdit.clear).Removes f := trivial
    exact iff_of_false List.not_mem_nil (fun ⟨t,ht⟩ => not_registered_concat hremoves t ht)

theorem lists_foldl (history : List (HandlerEdit F)) : Lists history (history.foldl apply []) := by
  induction history using List.reverseRecOn with
  | nil => exact lists_nil
  | append_singleton history edit ih =>
    rw [List.foldl_append]
    exact ih.concat edit

end HandlerEdit

namespace EventManager

variable {n : ℕ} {T : EventTable n} {F : Type} [DecidableEq F]

def handlers (s : EventManager T F) (event : Fin n) : List F :=
  ((s.eventsMap[T.id event]?).map HandlerData.callbacks).getD []

/-- The map has the given handlers under the ids of their events, and the counts have one reference
for each of them on top of the others. -/
structure Holds (s : EventManager T F) (others : F → ℤ) (h : Fin n → List F) : Prop where
  keys : ∀ k data, s.eventsMap[k]? = some data → k = T.id data.memberEvent
  handlers : ∀ event, s.handlers event = h event
  refs : ∀ f, s.refs f = others f + ∑ event, ((h event).count f : ℤ)

variable {s : EventManager T F} {others : F → ℤ} {h : Fin n → List F}

theorem holds_empty (refs : F → ℤ) : Holds ({ refs := refs } : EventManager T F) refs (fun _ => []) := by
  refine ⟨fun k data hk => ?_,fun event => ?_,fun f => by simp⟩
  · simp at hk
  · simp [handlers]

/-- `findEventId` finds the id of the event when the map has an entry for it. -/
theorem Holds.findEventId (hs : Holds s others h) (event : Fin n) :
    (s.eventsMap[T.id event]? = none ∧ s.findEventId event = 0) ∨
      ∃ callbacks, s.eventsMap[T.id event]? = some ⟨event,callbacks⟩ ∧ s.findEventId event = T.id event := by
  unfold EventManager.findEventId
  cases hfind : s.eventsMap.toList.find? (fun it => it.2.memberEvent = event) with
  | none =>
    refine .inl ⟨?_,rfl⟩
    cases hget : s.eventsMap[T.id event]? with
    | none => rfl
    | some data =>
      have hkey := hs.keys _ data hget
      have hmem := List.find?_eq_none.mp hfind _ (Std.TreeMap.mem_toList_iff_getElem?_eq_some.mpr hget)
      exact absurd (T.injective hkey).symm (by simpa using hmem)
  | some it =>
    obtain ⟨k,data⟩ := it
    have hevent : data.memberEvent = event := by simpa using List.find?_some hfind
    have hget := Std.TreeMap.mem_toList_iff_getElem?_eq_some.mp (List.mem_of_find?_eq_some hfind)
    have hkey := hs.keys k data hget
    subst hevent
    exact .inr ⟨data.callbacks,hkey ▸ hget,hkey⟩

theorem foldl_releaseRef (l : List F) (refs : F → ℤ) (f : F) : l.foldl releaseRef refs f = refs f - l.count f := by
  induction l generalizing refs with
  | nil => simp
  | cons g l ih =>
    rw [List.foldl_cons,ih,List.count_cons]
    by_cases hg : g = f
    · subst hg
      simp [releaseRef]
      ring
    · simp [releaseRef,hg]

theorem sum_count_update (h : Fin n → List F) (event : Fin n) (l : List F) (f : F) :
    ∑ e, ((Function.update h event l e).count f : ℤ) = ∑ e, ((h e).count f : ℤ) - (h event).count f + l.count f := by
  have hupdate : (fun e => ((Function.update h event l e).count f : ℤ)) =
      Function.update (fun e => ((h e).count f : ℤ)) event (l.count f) := by
    funext e
    by_cases he : e = event
    · subst he
      simp
    · simp [he]
  rw [hupdate,Finset.sum_update_of_mem (Finset.mem_univ event),
    ← Finset.add_sum_erase Finset.univ (fun e => ((h e).count f : ℤ)) (Finset.mem_univ event),
    Finset.sdiff_singleton_eq_erase]
  ring

variable {event : Fin n}

theorem Holds.put (hs : Holds s others h) {l : List F} {refs : F → ℤ}
    (hrefs : ∀ f, refs f = s.refs f - (h event).count f + l.count f) :
    Holds (s.put (T.id event) (⟨event,l⟩,refs)) others (Function.update h event l) := by
  refine ⟨fun k data hk => ?_,fun e => ?_,fun f => ?_⟩
  · simp only [EventManager.put,IdMap.get_insert] at hk
    split_ifs at hk with heq
    · rw [← heq,← Option.some.inj hk]
    · exact hs.keys k data hk
  · simp only [EventManager.handlers,EventManager.put,IdMap.get_insert]
    by_cases he : e = event
    · subst he
      simp
    · rw [if_neg (fun heq => he (T.injective heq).symm),Function.update_of_ne he]
      exact hs.handlers e
  · rw [sum_count_update]
    simp only [EventManager.put]
    rw [hrefs f,hs.refs f]
    ring

theorem Holds.of_entry (hs : Holds s others h) {callbacks : List F}
    (hget : s.eventsMap[T.id event]? = some ⟨event,callbacks⟩) : h event = callbacks := by
  rw [← hs.handlers event,EventManager.handlers,hget]
  rfl

theorem Holds.of_no_entry (hs : Holds s others h) (hget : s.eventsMap[T.id event]? = none) : h event = [] := by
  rw [← hs.handlers event,EventManager.handlers,hget]
  rfl

theorem Holds.addCallback (hs : Holds s others h) (event : Fin n) (cb : F) :
    Holds (s.put (T.id event) ((⟨event,h event⟩ : HandlerData n F).addCallback s.refs cb)) others
      (Function.update h event (HandlerEdit.apply (h event) (.add cb))) := by
  unfold HandlerData.addCallback
  simp only [HandlerEdit.apply]
  split_ifs with hmem
  · exact hs.put (fun f => by ring)
  · refine hs.put (fun f => ?_)
    simp only [addRef,Pi.add_apply,List.count_append,List.count_singleton]
    by_cases hf : f = cb
    · subst hf
      simp
      ring
    · simp [hf,Ne.symm hf]

theorem Holds.addEventCallback (hs : Holds s others h) (event : Fin n) (cb : F) :
    Holds (s.addEventCallback event cb) others (Function.update h event (HandlerEdit.apply (h event) (.add cb))) := by
  have hpos := T.positive event
  unfold EventManager.addEventCallback
  rcases hs.findEventId event with ⟨hget,hfind⟩ | ⟨callbacks,hget,hfind⟩
  · have hnil := hs.of_no_entry hget
    have hnew : Holds (s.put (T.id event) (⟨event,[]⟩,s.refs)) others h := by
      have hput : Holds (s.put (T.id event) (⟨event,[]⟩,s.refs)) others (Function.update h event []) :=
        hs.put (by simp [hnil])
      have hsame : Function.update h event [] = h := by rw [← hnil,Function.update_eq_self]
      rwa [hsame] at hput
    have hentry : (s.put (T.id event) (⟨event,[]⟩,s.refs)).eventsMap[T.id event]? =
        some ⟨event,[]⟩ := by simp [EventManager.put]
    simp only [hfind,le_refl,if_true,hentry,Option.getD_some]
    have hadd := hnew.addCallback event cb
    rw [hnil] at hadd ⊢
    exact hadd
  · simp only [hfind,if_neg (not_le.mpr hpos),hget,Option.getD_some]
    rw [← hs.of_entry hget]
    exact hs.addCallback event cb

theorem Holds.eraseEventCallback (hs : Holds s others h) (event : Fin n) (cb : F) :
    Holds (s.eraseEventCallback event cb) others
      (Function.update h event (HandlerEdit.apply (h event) (.remove cb))) := by
  have hpos := T.positive event
  unfold EventManager.eraseEventCallback
  rcases hs.findEventId event with ⟨hget,hfind⟩ | ⟨callbacks,hget,hfind⟩
  · have hsame : HandlerEdit.apply (h event) (.remove cb) = h event := by
      simp [HandlerEdit.apply,hs.of_no_entry hget]
    simp only [hfind,le_refl,if_true]
    rwa [hsame,Function.update_eq_self]
  · simp only [hfind,if_neg (not_le.mpr hpos),hget,Option.getD_some,HandlerData.eraseCallback]
    rw [← hs.of_entry hget]
    refine hs.put (fun f => ?_)
    rw [foldl_releaseRef]
    by_cases hf : f = cb
    · subst hf
      have hgone : ((h event).filter (· ≠ f)).count f = 0 :=
        List.count_eq_zero_of_not_mem (by simp)
      rw [List.count_filter (by simp),hgone]
      simp
    · rw [List.count_eq_zero_of_not_mem (l := (h event).filter (· = cb)) (by simp [hf]),
        List.count_filter (by simp [hf])]
      ring

theorem Holds.clear (hs : Holds s others h) (event : Fin n) :
    Holds (s.removeEventCallbacks (s.findEventId event)) others
      (Function.update h event (HandlerEdit.apply (h event) .clear)) := by
  have hpos := T.positive event
  unfold EventManager.removeEventCallbacks
  rcases hs.findEventId event with ⟨hget,hfind⟩ | ⟨callbacks,hget,hfind⟩
  · have hsame : HandlerEdit.apply (h event) .clear = h event := (hs.of_no_entry hget).symm
    simp only [hfind,le_refl,if_true]
    rwa [hsame,Function.update_eq_self]
  · simp only [hfind,if_neg (not_le.mpr hpos),hget,HandlerData.clear]
    rw [← hs.of_entry hget]
    refine hs.put (fun f => ?_)
    rw [foldl_releaseRef]
    simp

theorem Holds.getEventCallbacks (hs : Holds s others h) (event : Fin n) : s.getEventCallbacks event = h event := by
  have hpos := T.positive event
  unfold EventManager.getEventCallbacks
  rcases hs.findEventId event with ⟨hget,hfind⟩ | ⟨callbacks,hget,hfind⟩
  · simp [hfind,hs.of_no_entry hget]
  · simp [hfind,not_le.mpr hpos,hget,hs.of_entry hget]

theorem Holds.dupValue (hs : Holds s others h) (f : F) : Holds (s.dupValue f) (addRef others f) h := by
  refine ⟨hs.keys,hs.handlers,fun g => ?_⟩
  simp only [EventManager.dupValue,addRef,Pi.add_apply,hs.refs g]
  ring

theorem Holds.freeValue (hs : Holds s others h) (f : F) : Holds (s.freeValue f) (releaseRef others f) h := by
  refine ⟨hs.keys,hs.handlers,fun g => ?_⟩
  simp only [EventManager.freeValue,releaseRef,Pi.sub_apply,hs.refs g]
  ring

theorem releaseRef_addRef (refs : F → ℤ) (f : F) : releaseRef (addRef refs f) f = refs := by
  simp [releaseRef,addRef]

/-- The loop over an array makes the edits of its functions, and keeps none of the references it
takes to the elements. -/
theorem Holds.editElements {edit : EventManager T F → F → EventManager T F} {kind : F → HandlerEdit F}
    (hedit : ∀ {s : EventManager T F} {others : F → ℤ} {h : Fin n → List F} (f : F),
      Holds s others h → Holds (edit s f) others (Function.update h event (HandlerEdit.apply (h event) (kind f))))
    (elements : List (Option F)) (hs : Holds s others h) :
    Holds (editElements edit elements s).2 others (Function.update h event
      ((((elements.takeWhile Option.isSome).filterMap id).map kind).foldl HandlerEdit.apply (h event))) := by
  induction elements generalizing s h with
  | nil => simpa [EventManager.editElements] using hs
  | cons element elements ih =>
    cases element with
    | none => simpa [EventManager.editElements] using hs
    | some f =>
      have hone := (hedit f (hs.dupValue f)).freeValue f
      rw [releaseRef_addRef] at hone
      have hrest := ih hone
      rw [Function.update_idem,Function.update_self] at hrest
      simpa [EventManager.editElements] using hrest

theorem Holds.addEventCallbacks (hs : Holds s others h) (event : Fin n) (target : EventTarget F) :
    Holds (s.addEventCallbacks event target).2 others (Function.update h event
      ((target.functions.map .add).foldl HandlerEdit.apply (h event))) := by
  cases target with
  | nullish => simpa [EventManager.addEventCallbacks,EventTarget.functions] using hs
  | function f => exact hs.addEventCallback event f
  | array elements => exact Holds.editElements (fun f hs => hs.addEventCallback event f) elements hs
  | other => simpa [EventManager.addEventCallbacks,EventTarget.functions] using hs

theorem Holds.eventSet (hs : Holds s others h) (event : Fin n) (target : EventTarget F) :
    Holds (s.eventSet event target).2 others (Function.update h event
      ((HandlerEdit.clear :: target.functions.map .add).foldl HandlerEdit.apply (h event))) := by
  have hset := (hs.clear event).addEventCallbacks event target
  rwa [Function.update_idem,Function.update_self] at hset

theorem Holds.step (hs : Holds s others h) (event : Fin n) (op : EventOp F) :
    Holds (s.step (event,op)) others (Function.update h event (op.edits.foldl HandlerEdit.apply (h event))) := by
  cases op with
  | on target => exact hs.addEventCallbacks event target
  | set target => exact hs.eventSet event target
  | off target =>
    cases target with
    | nullish => exact hs.clear event
    | function f => exact hs.eraseEventCallback event f
    | array elements => exact Holds.editElements (fun f hs => hs.eraseEventCallback event f) elements hs
    | other => simpa [EventManager.step,EventManager.removeCallbacks,EventOp.edits,
        EventTarget.functions] using hs

/-- The sets of handlers after a sequence of calls, as the history of every event says. -/
theorem holds_run (refs : F → ℤ) (labels : List (Fin n × EventOp F)) :
    Holds (Transition.run step ({ refs := refs } : EventManager T F) labels) refs
      (fun event => (eventHistory event labels).foldl HandlerEdit.apply []) := by
  induction labels using List.reverseRecOn with
  | nil => exact holds_empty refs
  | append_singleton labels label ih =>
    obtain ⟨event,op⟩ := label
    rw [Transition.run_append]
    have hstep := ih.step event op
    have heq : (fun e => (eventHistory e (labels ++ [(event,op)])).foldl HandlerEdit.apply []) =
        Function.update (fun e => (eventHistory e labels).foldl HandlerEdit.apply []) event
          (op.edits.foldl HandlerEdit.apply ((eventHistory event labels).foldl HandlerEdit.apply [])) := by
      funext e
      by_cases he : e = event
      · subst he
        simp [eventHistory]
      · simp [eventHistory,he,Ne.symm he]
    rw [heq]
    exact hstep

theorem foldl_add (l acc : List F) (h : (acc ++ l).Nodup) :
    (l.map HandlerEdit.add).foldl HandlerEdit.apply acc = acc ++ l := by
  induction l generalizing acc with
  | nil => simp
  | cons f l ih =>
    have hf : f ∉ acc := fun hmem =>
      (List.nodup_append.mp h).2.2 f hmem f List.mem_cons_self rfl
    have hrest : (acc ++ [f] ++ l).Nodup := by simpa using h
    simp only [List.map_cons,List.foldl_cons,HandlerEdit.apply,if_neg hf]
    rw [ih (acc ++ [f]) hrest]
    simp

theorem holds_foldl_dupValue (hs : Holds s others h) (l : List F) :
    Holds (l.foldl EventManager.dupValue s) (l.foldl addRef others) h := by
  induction l generalizing s others with
  | nil => exact hs
  | cons f l ih => exact ih (hs.dupValue f)

theorem holds_foldl_freeValue (hs : Holds s others h) (l : List F) :
    Holds (l.foldl EventManager.freeValue s) (l.foldl releaseRef others) h := by
  induction l generalizing s others with
  | nil => exact hs
  | cons f l ih => exact ih (hs.freeValue f)

theorem foldl_addRef (l : List F) (refs : F → ℤ) (f : F) : l.foldl addRef refs f = refs f + l.count f := by
  induction l generalizing refs with
  | nil => simp
  | cons g l ih =>
    rw [List.foldl_cons,ih,List.count_cons]
    by_cases hg : g = f
    · subst hg
      simp [addRef]
      ring
    · simp [addRef,hg]

omit [DecidableEq F] in
theorem functions_array (l : List F) : (EventTarget.array (l.map some)).functions = l := by
  induction l with
  | nil => rfl
  | cons f l ih => simpa [EventTarget.functions] using ih

/-- Assigning the array that was read changes neither handlers nor counts. -/
theorem Holds.reassign (hs : Holds s others h) (event : Fin n) (hnodup : (h event).Nodup) :
    Holds (s.reassign event) others h := by
  have hread := hs.getEventCallbacks event
  unfold EventManager.reassign EventManager.eventGet
  rw [hread]
  have hset := (holds_foldl_dupValue hs (h event)).eventSet event (.array ((h event).map some))
  have hedits : (HandlerEdit.clear :: (EventTarget.array ((h event).map some)).functions.map .add).foldl
      HandlerEdit.apply (h event) = h event := by
    rw [functions_array,List.foldl_cons]
    exact foldl_add (h event) [] hnodup
  rw [hedits,Function.update_eq_self] at hset
  have hfree := holds_foldl_freeValue hset (h event)
  have hothers : (h event).foldl releaseRef ((h event).foldl addRef others) = others := by
    funext f
    rw [foldl_releaseRef,foldl_addRef]
    ring
  rwa [hothers] at hfree

/-- After every sequence of calls: the handlers of an event are the functions registered by its
history, each once and in the order of registration; each set they are in holds one reference to
them; a read gives them in this order; and assigning the array just read changes nothing. -/
theorem handlers_listed (refs : F → ℤ) (labels : List (Fin n × EventOp F)) :
    let s := Transition.run step ({ refs := refs } : EventManager T F) labels
    (∀ event, HandlerEdit.Lists (eventHistory event labels) (s.handlers event)) ∧
      (∀ f, s.refs f = refs f + (Finset.univ.filter (fun event => f ∈ s.handlers event)).card) ∧
      (∀ event, (s.eventGet event).1 = s.handlers event) ∧
      ∀ event, (s.reassign event).handlers = s.handlers ∧ (s.reassign event).refs = s.refs := by
  intro s
  have hs := holds_run (T := T) refs labels
  have hlists : ∀ event, HandlerEdit.Lists (eventHistory event labels) (s.handlers event) := by
    intro event
    rw [hs.handlers event]
    exact HandlerEdit.lists_foldl _
  refine ⟨hlists,fun f => ?_,fun event => ?_,fun event => ?_⟩
  · have hcount : ∀ event, (((eventHistory event labels).foldl HandlerEdit.apply []).count f : ℤ) =
        if f ∈ s.handlers event then 1 else 0 := by
      intro event
      rw [← hs.handlers event,(hlists event).nodup.count]
      split_ifs <;> rfl
    rw [hs.refs f,Finset.sum_congr rfl (fun event _ => hcount event),Finset.sum_boole]
  · rw [hs.handlers event]
    exact hs.getEventCallbacks event
  · have hre := hs.reassign event (by rw [← hs.handlers event]; exact (hlists event).nodup)
    refine ⟨?_,?_⟩
    · funext e
      rw [hre.handlers e,hs.handlers e]
    · funext f
      rw [hre.refs f,hs.refs f]

end EventManager
end FeatureRuntime
