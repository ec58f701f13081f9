import FeatureRuntime.MapHistory

/-! The user data of a `FeatureManager`: what its setter hands back, and what the end of the manager
frees. -/
namespace FeatureRuntime

/-- A pointer, and the callback that frees it if there is one. -/
structure UserDataEntry (F : Type) where
  data : ℕ
  freeCb : Option F
  deriving DecidableEq, Repr

/-- A call of `FeatureSetManagerUserDataWithFreeCallback`; `handle` tells whether the manager is passed. -/
structure SetUserDataCall (F : Type) where
  handle : Bool
  name : String
  data : ℕ
  freeCb : Option F

/-- `user_data_` of a manager. -/
structure ManagerUserData (F : Type) where
  userData : Std.TreeMap String (UserDataEntry F) := ∅

namespace ManagerUserData

variable {F : Type}

def getUserData (s : ManagerUserData F) (name : String) : ℕ :=
  match s.userData[name]? with
  | some entry => entry.data
  | none => 0

def setUserData (s : ManagerUserData F) (name : String) (data : ℕ) (freeCb : Option F) : ManagerUserData F :=
  { s with userData := s.userData.insert name ⟨data,freeCb⟩ }

/-- `FeatureSetManagerUserDataWithFreeCallback`. -/
def setManagerUserData (s : ManagerUserData F) (c : SetUserDataCall F) : ManagerUserData F × ℕ :=
  if c.handle then
    let ret := s.getUserData c.name
    (s.setUserData c.name c.data c.freeCb,ret)
  else (s,0)

/-- The calls of free callbacks that `clearUserData` makes. -/
def clearUserData (s : ManagerUserData F) : List (F × ℕ) :=
  s.userData.toList.filterMap (fun it => it.2.freeCb.map (fun freeCb => (freeCb,it.2.data)))

def run (calls : List (SetUserDataCall F)) : ManagerUserData F :=
  calls.foldl (fun s c => (s.setManagerUserData c).1) {}

def handedBack (before : List (SetUserDataCall F)) (c : SetUserDataCall F) : ℕ :=
  ((run before).setManagerUserData c).2

def freed (calls : List (SetUserDataCall F)) : List (F × ℕ) := (run calls).clearUserData

def stores (calls : List (SetUserDataCall F)) : List (String × UserDataEntry F) :=
  (calls.filter SetUserDataCall.handle).map (fun c => (c.name,⟨c.data,c.freeCb⟩))

def obligation (e : UserDataEntry F) : Option (F × ℕ) := e.freeCb.map (fun freeCb => (freeCb,e.data))

theorem run_concat (calls : List (SetUserDataCall F)) (c : SetUserDataCall F) :
    run (calls ++ [c]) = ((run calls).setManagerUserData c).1 := by
  simp [run]

theorem stores_append (calls calls' : List (SetUserDataCall F)) :
    stores (calls ++ calls') = stores calls ++ stores calls' := by
  simp [stores]

theorem run_userData (calls : List (SetUserDataCall F)) :
    (run calls).userData = MapHistory.fill compare (stores calls) := by
  induction calls using List.reverseRecOn with
  | nil => rfl
  | append_singleton calls c ih =>
    rw [run_concat,stores_append,setManagerUserData]
    cases hhandle : c.handle with
    | false => simp [stores,hhandle,ih]
    | true =>
      have hone : stores [c] = [(c.name,⟨c.data,c.freeCb⟩)] := by simp [stores,hhandle]
      rw [if_pos rfl,hone,MapHistory.fill_concat]
      simp only [setUserData,ih]

theorem handedBack_eq (before : List (SetUserDataCall F)) (c : SetUserDataCall F) (hhandle : c.handle = true) :
    handedBack before c = ((MapHistory.valuesOf (stores before) c.name).getLast?.map UserDataEntry.data).getD 0 := by
  rw [handedBack,setManagerUserData,if_pos hhandle]
  simp only [getUserData,run_userData,MapHistory.getElem?_fill]
  cases (MapHistory.valuesOf (stores before) c.name).getLast? <;> rfl

theorem valuesOf_stores_of_other {calls : List (SetUserDataCall F)} {name : String}
    (h : ∀ c ∈ calls, c.handle = true → c.name ≠ name) : MapHistory.valuesOf (stores calls) name = [] := by
  rw [MapHistory.valuesOf,List.map_eq_nil_iff,List.filter_eq_nil_iff]
  intro e he hname
  obtain ⟨c,hc,rfl⟩ := List.mem_map.mp he
  obtain ⟨hmem,hhandle⟩ := List.mem_filter.mp hc
  exact h c hmem hhandle (of_decide_eq_true hname)

/-- Who is left with each datum that is stored with a callback. -/
structure Owned (calls : List (SetUserDataCall F)) : Prop where
  /-- The call that stores the next entry under a name hands the datum back. -/
  replaced : ∀ before c between next after, calls = before ++ c :: between ++ next :: after →
    c.handle = true → next.handle = true → next.name = c.name →
    (∀ d ∈ between, d.handle = true → d.name ≠ c.name) →
    handedBack (before ++ c :: between) next = c.data
  /-- The entries that none replaces are freed, each once and by its own callback. -/
  once : (freed calls).Perm ((MapHistory.surviving (stores calls)).filterMap (fun w => obligation w.2))
  /-- A callback is called with a datum where the last entry of some name has both. -/
  own : ∀ freeCb data, (freeCb,data) ∈ freed calls ↔
    ∃ name, (MapHistory.valuesOf (stores calls) name).getLast? = some ⟨data,some freeCb⟩

/-- For every sequence of calls and the end of the manager behind them: each datum is handed back, or freed
once by its own callback. -/
theorem user_data_owned (calls : List (SetUserDataCall F)) : Owned calls := by
  have hperm : (run calls).userData.toList.Perm (MapHistory.surviving (stores calls)) := by
    rw [run_userData]
    exact MapHistory.toList_fill_perm _
  have honce : (freed calls).Perm ((MapHistory.surviving (stores calls)).filterMap (fun w => obligation w.2)) :=
    hperm.filterMap _
  refine ⟨fun before c between next after _ hc hnext hname hother => ?_,honce,fun freeCb data => ?_⟩
  · have hbetween := valuesOf_stores_of_other hother
    have hvalues : MapHistory.valuesOf (stores (before ++ c :: between)) c.name =
        MapHistory.valuesOf (stores before) c.name ++ [⟨c.data,c.freeCb⟩] := by
      rw [MapHistory.valuesOf] at hbetween
      have hsplit : stores (before ++ c :: between) =
          stores before ++ (c.name,⟨c.data,c.freeCb⟩) :: stores between := by
        simp [stores,hc]
      rw [hsplit,MapHistory.valuesOf,List.filter_append,List.map_append,List.filter_cons_of_pos (by simp),
        List.map_cons,hbetween,MapHistory.valuesOf]
    rw [handedBack_eq _ _ hnext,hname,hvalues,List.getLast?_concat]
    rfl
  · rw [honce.mem_iff,List.mem_filterMap]
    constructor
    · rintro ⟨⟨name,entry⟩,hmem,hentry⟩
      obtain ⟨cb,hcb,heq⟩ := Option.map_eq_some_iff.mp hentry
      obtain ⟨rfl,rfl⟩ := Prod.mk.inj heq
      refine ⟨name,?_⟩
      rw [(MapHistory.mem_surviving_iff _ _ _).mp hmem,← hcb]
    · rintro ⟨name,hlast⟩
      exact ⟨(name,_),(MapHistory.mem_surviving_iff _ _ _).mpr hlast,rfl⟩

end ManagerUserData
end FeatureRuntime
