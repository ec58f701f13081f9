import FeatureRuntime.Description
import FeatureRuntime.IdMap
import FeatureRuntime.MachineInt
import FeatureRuntime.Transition

/-! `CallbackManager`: registration of JS functions under callback ids, invocation through an id,
and the lifetime of the ids that conversions hand to independent holders. -/
namespace FeatureRuntime

/-- `CallbackData`: the JS function and the type it was registered with. -/
structure CallbackData (F : Type) where
  cb : F
  type : CallbackType

structure CallbackManager (F : Type) where
  currCid : ℤ := 0
  callbacks : IdMap (CallbackData F) := ∅

/-- The arguments `callCallback` passes on to `doInvokeCallback`. -/
structure Invocation (F : Type) where
  type : CallbackType
  cb : F
  fixedArgc : ℕ
  restArgc : ℤ

namespace CallbackManager

variable {F : Type} (m : CallbackManager F)

def findCallbackId [DecidableEq F] (cb : F) : ℤ :=
  match m.callbacks.toList.find? (fun entry => entry.2.cb = cb) with
  | some entry => entry.1
  | none => 0

def addCallback [DecidableEq F] (cb : F) (type : CallbackType) : ℤ × CallbackManager F :=
  let cid := m.findCallbackId cb
  if cid > 0 then (cid,m)
  else
    let next := toInt (m.currCid + 1)
    (next,{ currCid := next, callbacks := m.callbacks.insert next ⟨cb,type⟩ })

def eraseCallback (cid : ℤ) : Bool × CallbackManager F :=
  if cid ≤ 0 then (false,m)
  else if m.callbacks.contains cid then
    (true,{ m with callbacks := m.callbacks.erase cid })
  else (false,m)

def getCallbackData (cid : ℤ) : Option (CallbackData F) := m.callbacks[cid]?

/-- `FeatureInstanceQjs::invokeCallback`; `none` is the error return. -/
def invokeCallback (cid : ℤ) : Option (Invocation F) :=
  if cid ≤ 0 then none
  else
    match m.getCallbackData cid with
    | none => none
    | some data =>
      if data.type.hasRest then none
      else some ⟨data.type,data.cb,data.type.parameters.length,0⟩

/-- `FeatureInstanceQjs::invokeCallbackCount`. -/
def invokeCallbackCount (cid count : ℤ) : Option (Invocation F) :=
  match m.getCallbackData cid with
  | none => none
  | some data =>
    if !data.type.hasRest ∨ count < data.type.parameters.length then none
    else some ⟨data.type,data.cb,data.type.parameters.length,
      count - data.type.parameters.length⟩

theorem findCallbackId_cases [DecidableEq F] (cb : F) :
    (∃ data, m.getCallbackData (m.findCallbackId cb) = some data ∧ data.cb = cb) ∨
    (m.findCallbackId cb = 0 ∧ ∀ k data, m.getCallbackData k = some data → data.cb ≠ cb) := by
  unfold findCallbackId
  cases hfind : m.callbacks.toList.find? (fun entry => entry.2.cb = cb) with
  | some entry =>
    left
    have hmem := List.mem_of_find?_eq_some hfind
    have hcb := List.find?_some hfind
    exact ⟨entry.2,Std.TreeMap.mem_toList_iff_getElem?_eq_some.mp hmem,by simpa using hcb⟩
  | none =>
    right
    refine ⟨rfl,fun k data hk heq => ?_⟩
    have hnot := List.find?_eq_none.mp hfind (k,data) (Std.TreeMap.mem_toList_iff_getElem?_eq_some.mpr hk)
    simp [heq] at hnot

theorem eraseCallback_keeps {cid k : ℤ} (h : k ≠ cid) :
    (m.eraseCallback cid).2.getCallbackData k = m.getCallbackData k := by
  unfold eraseCallback
  split_ifs
  · rfl
  · exact IdMap.get_erase_ne _ h
  · rfl

theorem eraseCallback_removes {cid : ℤ} (h : 0 < cid) : (m.eraseCallback cid).2.getCallbackData cid = none := by
  unfold eraseCallback
  rw [if_neg (by omega)]
  split_ifs with hmem
  · exact Std.TreeMap.getElem?_erase_self
  · exact (IdMap.contains_eq_false_iff _ _).mp (Bool.not_eq_true _ ▸ hmem)

theorem eraseCallback_subset {cid k : ℤ} {data : CallbackData F}
    (h : (m.eraseCallback cid).2.getCallbackData k = some data) :
    m.getCallbackData k = some data := by
  by_cases hk : k = cid
  · subst hk
    unfold eraseCallback at h
    split_ifs at h
    · exact h
    · simp [getCallbackData] at h
    · exact h
  · rwa [eraseCallback_keeps m hk] at h

@[simp] theorem eraseCallback_currCid (cid : ℤ) :
    (m.eraseCallback cid).2.currCid = m.currCid := by
  unfold eraseCallback
  split_ifs <;> rfl

/-- Every registered id was handed out by the counter, which has not overflowed. -/
structure Bounded : Prop where
  nonneg : 0 ≤ m.currCid
  le_max : m.currCid ≤ intMax
  ids : ∀ k data, m.getCallbackData k = some data → 0 < k ∧ k ≤ m.currCid

/-- What a registration does while the counter is in range: it shares the entry of the same
function, or it opens a fresh entry with the wrapped successor of the counter. -/
theorem Bounded.addCallback_cases [DecidableEq F] {m : CallbackManager F} (hm : m.Bounded)
    (cb : F) (type : CallbackType) :
    (∃ data, m.getCallbackData (m.findCallbackId cb) = some data ∧ data.cb = cb ∧
      m.addCallback cb type = (m.findCallbackId cb,m)) ∨
    (m.getCallbackData (m.findCallbackId cb) = none ∧ m.addCallback cb type = (toInt (m.currCid + 1),
        ⟨toInt (m.currCid + 1),m.callbacks.insert (toInt (m.currCid + 1)) ⟨cb,type⟩⟩)) := by
  rcases m.findCallbackId_cases cb with ⟨data,hdata,hcb⟩ | ⟨hzero,-⟩
  · left
    have hpos := (hm.ids _ _ hdata).1
    exact ⟨data,hdata,hcb,by simp [addCallback,hpos]⟩
  · right
    have hnone : m.getCallbackData 0 = none := by
      cases h : m.getCallbackData 0 with
      | none => rfl
      | some data => exact absurd (hm.ids _ _ h).1 (by omega)
    exact ⟨by rw [hzero]; exact hnone,by simp [addCallback,hzero]⟩

theorem Bounded.eraseCallback {m : CallbackManager F} (hm : m.Bounded) (cid : ℤ) :
    (m.eraseCallback cid).2.Bounded where
  nonneg := by simpa using hm.nonneg
  le_max := by simpa using hm.le_max
  ids k data hk := by
    rw [eraseCallback_currCid]
    exact hm.ids k data (m.eraseCallback_subset hk)

theorem Bounded.insert_next {m : CallbackManager F} (hm : m.Bounded) (hlt : m.currCid < intMax)
    (data : CallbackData F) :
    (CallbackManager.mk (m.currCid + 1) (m.callbacks.insert (m.currCid + 1) data)).Bounded where
  nonneg := by have := hm.nonneg; simp only; omega
  le_max := by simp only; omega
  ids k d hk := by
    have hpos := hm.nonneg
    simp only [getCallbackData,IdMap.get_insert] at hk
    simp only
    split_ifs at hk with heq
    · omega
    · have := hm.ids k d hk
      omega

end CallbackManager

structure CallbackIds where
  success : ℤ := -1
  fail : ℤ := -1
  complete : ℤ := -1
  deriving DecidableEq

/-- One id returned by a conversion, with the function and the type it was asked for. -/
structure CallbackHolder (F : Type) where
  cid : ℤ
  cb : F
  type : CallbackType

/-- An instance's callback table together with the parameters, method calls and struct members
that hold an id of it. -/
structure CallbackSession (F : Type) where
  manager : CallbackManager F := {}
  holders : List (CallbackHolder F) := []

/-- A conversion of a JS function under some callback type, or a holder giving up its id. -/
inductive CallbackOp (F : Type)
  | convert (cb : F) (type : CallbackType)
  | erase (holder : ℕ)

namespace CallbackHolder

variable {F : Type}

def invoke (m : CallbackManager F) (h : CallbackHolder F) (restArgc : ℕ) : Option (Invocation F) :=
  if h.type.hasRest then m.invokeCallbackCount h.cid (h.type.parameters.length + restArgc)
  else m.invokeCallback h.cid

/-- The id is valid and registered, and invoking it calls the holder's function with arguments
converted by the holder's parameter list. -/
def Served (m : CallbackManager F) (h : CallbackHolder F) : Prop :=
  0 < h.cid ∧ (m.getCallbackData h.cid).isSome ∧ ∀ restArgc : ℕ, h.invoke m restArgc =
    some ⟨h.type,h.cb,h.type.parameters.length,if h.type.hasRest then restArgc else 0⟩

theorem served_iff (m : CallbackManager F) (h : CallbackHolder F) :
    h.Served m ↔ 0 < h.cid ∧ m.getCallbackData h.cid = some ⟨h.cb,h.type⟩ := by
  unfold Served invoke
  constructor
  · rintro ⟨hpos,hsome,hinv⟩
    refine ⟨hpos,?_⟩
    obtain ⟨data,hdata⟩ := Option.isSome_iff_exists.mp hsome
    have h0 := hinv 0
    rw [hdata]
    by_cases hrest : h.type.hasRest
    · simp only [hrest,if_true,CallbackManager.invokeCallbackCount,hdata] at h0
      split_ifs at h0
      cases data
      simp_all
    · simp only [hrest,CallbackManager.invokeCallback,hdata,Bool.false_eq_true,if_false] at h0
      split_ifs at h0
      cases data
      simp_all
  · rintro ⟨hpos,hdata⟩
    refine ⟨hpos,by simp [hdata],fun restArgc => ?_⟩
    by_cases hrest : h.type.hasRest
    · simp [hrest,CallbackManager.invokeCallbackCount,hdata]
    · simp [hrest,CallbackManager.invokeCallback,hdata,hpos]

end CallbackHolder

namespace CallbackSession

variable {F : Type} [DecidableEq F]

def step (s : CallbackSession F) : CallbackOp F → CallbackSession F
  | .convert cb type =>
    let r := s.manager.addCallback cb type
    { manager := r.2, holders := s.holders ++ [⟨r.1,cb,type⟩] }
  | .erase k =>
    match s.holders[k]? with
    | none => s
    | some h => { manager := (s.manager.eraseCallback h.cid).2, holders := s.holders.eraseIdx k }

@[simp] theorem step_convert (s : CallbackSession F) (cb : F) (type : CallbackType) :
    s.step (.convert cb type) = ⟨(s.manager.addCallback cb type).2,
        s.holders ++ [⟨(s.manager.addCallback cb type).1,cb,type⟩]⟩ := rfl

theorem step_erase (s : CallbackSession F) {k : ℕ} {h : CallbackHolder F} (hk : s.holders[k]? = some h) :
    s.step (.erase k) = ⟨(s.manager.eraseCallback h.cid).2,s.holders.eraseIdx k⟩ := by
  simp [step,hk]

theorem step_erase_none (s : CallbackSession F) {k : ℕ} (hk : s.holders[k]? = none) : s.step (.erase k) = s := by
  simp [step,hk]

def AllServed (s : CallbackSession F) : Prop := ∀ h ∈ s.holders, h.Served s.manager

/-- A conversion finds an entry of its own type, or none while the id counter is below its
maximum; an erased id has no second holder. -/
def Unshared (s : CallbackSession F) : CallbackOp F → Prop
  | .convert cb type =>
    match s.manager.getCallbackData (s.manager.findCallbackId cb) with
    | some data => data.type = type
    | none => s.manager.currCid < intMax
  | .erase k => ∀ h, s.holders[k]? = some h → ∀ h' ∈ s.holders.eraseIdx k, h'.cid ≠ h.cid

structure Inv (s : CallbackSession F) : Prop where
  bounded : s.manager.Bounded
  served : s.AllServed

omit [DecidableEq F] in
theorem inv_init : Inv ({} : CallbackSession F) where
  bounded := ⟨le_rfl,by simp [intMax],by simp [CallbackManager.getCallbackData]⟩
  served := by simp [AllServed]

variable {s : CallbackSession F}

omit [DecidableEq F] in
theorem Inv.served_insert_next (hs : s.Inv) (data : CallbackData F) {h : CallbackHolder F} (hh : h ∈ s.holders) :
    h.Served ⟨s.manager.currCid + 1,s.manager.callbacks.insert (s.manager.currCid + 1) data⟩ := by
  have hold := (h.served_iff s.manager).mp (hs.served h hh)
  have hle := (hs.bounded.ids _ _ hold.2).2
  refine (CallbackHolder.served_iff _ h).mpr ⟨hold.1,?_⟩
  simp only [CallbackManager.getCallbackData]
  rw [IdMap.get_insert_ne _ (by omega)]
  exact hold.2

theorem Inv.convert (hs : s.Inv) {cb : F} {type : CallbackType}
    (hgood : s.Unshared (.convert cb type)) : (s.step (.convert cb type)).Inv := by
  rcases hs.bounded.addCallback_cases cb type with ⟨data,hdata,hcb,hadd⟩ | ⟨hnone,hadd⟩
  · -- the entry of the same function is shared, and its type is the one asked for
    simp only [Unshared,hdata] at hgood
    have hpos := (hs.bounded.ids _ _ hdata).1
    refine ⟨by simpa [hadd] using hs.bounded,?_⟩
    intro h hh
    simp only [step_convert,hadd,List.mem_append,List.mem_singleton] at hh ⊢
    rcases hh with hh | rfl
    · exact hs.served h hh
    · refine (CallbackHolder.served_iff _ _).mpr ⟨hpos,?_⟩
      rw [hdata,← hcb,← hgood]
  · simp only [Unshared,hnone] at hgood
    rw [toInt_of_le (by have := hs.bounded.nonneg; omega) (by omega)] at hadd
    refine ⟨by simpa [hadd] using hs.bounded.insert_next hgood ⟨cb,type⟩,?_⟩
    intro h hh
    simp only [step_convert,hadd,List.mem_append,List.mem_singleton] at hh ⊢
    rcases hh with hh | rfl
    · exact hs.served_insert_next _ hh
    · refine (CallbackHolder.served_iff _ _).mpr ⟨?_,Std.TreeMap.getElem?_insert_self⟩
      have := hs.bounded.nonneg
      simp only
      omega

theorem Inv.erase (hs : s.Inv) {k : ℕ} (hgood : s.Unshared (.erase k)) : (s.step (.erase k)).Inv := by
  cases hk : s.holders[k]? with
  | none => rwa [step_erase_none s hk]
  | some h =>
    rw [step_erase s hk]
    refine ⟨hs.bounded.eraseCallback _,fun h' hh' => ?_⟩
    have hne := hgood h hk h' hh'
    have hold := (h'.served_iff _).mp (hs.served h' (List.mem_of_mem_eraseIdx hh'))
    refine (h'.served_iff _).mpr ⟨hold.1,?_⟩
    rw [CallbackManager.eraseCallback_keeps _ hne]
    exact hold.2

theorem Inv.step {op : CallbackOp F} (hs : s.Inv) (hgood : s.Unshared op) : (s.step op).Inv := by
  cases op with
  | convert cb type => exact hs.convert hgood
  | erase k => exact hs.erase hgood

/-- A conversion that shares an entry of another type, overflows the counter, or an erasure of a
shared id leaves some holder unserved at once. -/
theorem Inv.not_allServed {op : CallbackOp F} (hs : s.Inv) (hbad : ¬ s.Unshared op) : ¬ (s.step op).AllServed := by
  intro hall
  apply hbad
  cases op with
  | convert cb type =>
    rcases hs.bounded.addCallback_cases cb type with ⟨data,hdata,-,hadd⟩ | ⟨hnone,hadd⟩
    · have hnew := hall ⟨s.manager.findCallbackId cb,cb,type⟩ (by simp [CallbackSession.step,hadd])
      rw [CallbackHolder.served_iff] at hnew
      simp only [CallbackSession.step,hadd,hdata] at hnew
      simp only [Unshared,hdata]
      exact congrArg CallbackData.type (Option.some.inj hnew.2)
    · have hnew := hall ⟨toInt (s.manager.currCid + 1),cb,type⟩ (by simp [hadd])
      rw [CallbackHolder.served_iff] at hnew
      simp only [Unshared,hnone]
      by_contra hle
      have hmax : s.manager.currCid = intMax := by have := hs.bounded.le_max; omega
      rw [hmax,toInt_succ_intMax] at hnew
      simp at hnew
  | erase k =>
    intro h hk h' hh' heq
    rw [step_erase s hk] at hall
    have hserved := hall h' hh'
    rw [CallbackHolder.served_iff,heq] at hserved
    rw [CallbackManager.eraseCallback_removes _ hserved.1] at hserved
    exact absurd hserved.2 (by simp)

/-- Ids serve their holders along a run exactly when no conversion shares an entry of another
type, no erased id has another holder, and the id counter does not overflow. -/
theorem ids_serve_holders_iff (ops : List (CallbackOp F)) :
    Transition.Always step AllServed ({} : CallbackSession F) ops ↔
      Transition.Guarded step Unshared ({} : CallbackSession F) ops :=
  Transition.always_iff_guarded (I := Inv) (fun _ hs => hs.served) (fun _ _ hs hgood => hs.step hgood)
    (fun _ _ hs hbad => hs.not_allServed hbad) inv_init ops

/-- Two parameters receive the same JS function; the first erases its id and the second one's
id is gone. -/
theorem shared_id_erased : ¬ Transition.Always step AllServed ({} : CallbackSession ℕ)
      [.convert 0 ⟨[],false⟩,.convert 0 ⟨[],false⟩,.erase 0] := by
  intro hall
  have hlast := hall.last ⟨1,0,⟨[],false⟩⟩ (List.Mem.head _)
  exact absurd hlast.2.1 (by decide)

end CallbackSession
end FeatureRuntime
