import FeatureRuntime.InterfaceLayout

/-! The three ways to count agree: the stub of every own or inherited member passes the position of
its function in the final vtable, and the event ids of an interface run from 1 to their number. -/
namespace FeatureRuntime.Jidl

namespace MemberInfo

def slots (m : MemberInfo) : List VTableSlot :=
  match m.type with
  | .method => [⟨m.iname,m.name,.method⟩]
  | .accessor hasGetter hasSetter =>
    (if hasGetter then [⟨m.iname,m.name,.getter⟩] else []) ++
      (if hasSetter then [⟨m.iname,m.name,.setter⟩] else [])
  | .event => []

theorem slots_of_member {m : MemberInfo} {slot : VTableSlot} (h : slot ∈ m.slots) :
    slot.origin = m.iname ∧ slot.name = m.name := by
  obtain ⟨_,_,type⟩ := m
  cases type with
  | method =>
    rw [List.mem_singleton.mp h]
    exact ⟨rfl,rfl⟩
  | accessor hasGetter hasSetter =>
    cases hasGetter <;> cases hasSetter <;> simp [slots] at h <;> rcases h with rfl | rfl <;>
      exact ⟨rfl,rfl⟩
  | event => cases h

def events (m : MemberInfo) : List (String × String) :=
  match m.type with
  | .event => [(m.iname,m.name)]
  | _ => []

end MemberInfo

def InterfaceMember.info (iname : String) : InterfaceMember → MemberInfo
  | .function identifier _ _ => ⟨iname,identifier,.method⟩
  | .property name _ readable writeable const =>
    ⟨iname,name,.accessor (propertyHasGetter readable const) (propertyHasSetter writeable const)⟩
  | .event identifier => ⟨iname,identifier,.event⟩

@[simp] theorem InterfaceMember.info_iname (iname : String) (m : InterfaceMember) :
    (m.info iname).iname = iname := by
  cases m <;> rfl

@[simp] theorem InterfaceMember.info_name (iname : String) (m : InterfaceMember) :
    (m.info iname).name = m.name := by
  cases m <;> rfl

def numberStubs (slots : List VTableSlot) (k : ℕ) : List MemberStub :=
  (slots.zipIdx k).map (fun e => ⟨e.1,e.2⟩)

/-- Definitions of events with the ids after `k`. -/
def numberEvents (events : List (String × String)) (k : ℕ) : List EventDef :=
  (events.zipIdx (k + 1)).map (fun e => ⟨e.1.1,e.1.2,e.2⟩)

section Number

@[simp] theorem numberStubs_nil (k : ℕ) : numberStubs [] k = [] := rfl

@[simp] theorem numberStubs_cons (slot : VTableSlot) (slots : List VTableSlot) (k : ℕ) :
    numberStubs (slot :: slots) k = ⟨slot,k⟩ :: numberStubs slots (k + 1) := rfl

theorem numberStubs_append (slots slots' : List VTableSlot) (k : ℕ) :
    numberStubs (slots ++ slots') k = numberStubs slots k ++ numberStubs slots' (k + slots.length) := by
  simp [numberStubs,List.zipIdx_append]

@[simp] theorem numberEvents_nil (k : ℕ) : numberEvents [] k = [] := rfl

@[simp] theorem numberEvents_cons (e : String × String) (events : List (String × String)) (k : ℕ) :
    numberEvents (e :: events) k = ⟨e.1,e.2,k + 1⟩ :: numberEvents events (k + 1) := rfl

theorem numberEvents_append (events events' : List (String × String)) (k : ℕ) : numberEvents (events ++ events') k =
      numberEvents events k ++ numberEvents events' (k + events.length) := by
  simp [numberEvents,List.zipIdx_append,Nat.add_right_comm]

theorem mem_numberStubs {stub : MemberStub} {slots : List VTableSlot} :
    stub ∈ numberStubs slots 0 ↔ slots[stub.index]? = some stub.slot := by
  unfold numberStubs
  rw [List.mem_map]
  constructor
  · rintro ⟨⟨slot,i⟩,hmem,rfl⟩
    exact List.mk_mem_zipIdx_iff_getElem?.mp hmem
  · intro h
    exact ⟨(stub.slot,stub.index),List.mk_mem_zipIdx_iff_getElem?.mpr h,rfl⟩

theorem numberEvents_ids (events : List (String × String)) (k : ℕ) :
    (numberEvents events k).map (·.id) = List.range' (k + 1) events.length := by
  induction events generalizing k with
  | nil => rfl
  | cons e events ih =>
    rw [numberEvents_cons,List.map_cons,ih,List.length_cons,List.range'_succ]

theorem numberEvents_events (events : List (String × String)) (k : ℕ) :
    (numberEvents events k).map (fun e => (e.origin,e.name)) = events := by
  induction events generalizing k with
  | nil => rfl
  | cons e events ih => rw [numberEvents_cons,List.map_cons,ih]

theorem genParentMemberDefs_eq (members : List MemberInfo) (vtableIdx eventIdx : ℕ) :
    genParentMemberDefs members vtableIdx eventIdx = ⟨numberStubs (members.flatMap (·.slots)) vtableIdx,
        numberEvents (members.flatMap (·.events)) eventIdx⟩ := by
  induction members generalizing vtableIdx eventIdx with
  | nil => rfl
  | cons m members ih =>
    obtain ⟨iname,name,type⟩ := m
    cases type with
    | method => simp [genParentMemberDefs,ih,MemberInfo.slots,MemberInfo.events]
    | accessor hasGetter hasSetter =>
      cases hasGetter <;> cases hasSetter <;> simp [genParentMemberDefs,ih,MemberInfo.slots,MemberInfo.events]
    | event => simp [genParentMemberDefs,ih,MemberInfo.slots,MemberInfo.events]

end Number

def Fits (slot : VTableSlot) (item : VTableItem) : Prop :=
  item.name = slot.name ∧ item.type = slot.type

theorem exists_fitting_slot {slots : List VTableSlot} {items : List VTableItem}
    (h : List.Forall₂ Fits slots items) {item : VTableItem} (hitem : item ∈ items) :
    ∃ slot ∈ slots, Fits slot item := by
  induction h with
  | nil => cases hitem
  | cons hfit _ ih =>
    rcases List.mem_cons.mp hitem with rfl | hitem
    · exact ⟨_,List.mem_cons_self,hfit⟩
    · obtain ⟨slot,hslot,hfit⟩ := ih hitem
      exact ⟨slot,List.mem_cons_of_mem _ hslot,hfit⟩

/-- The caches of each interface describe the same members. -/
structure Coherent (r : Render) : Prop where
  slots : ∀ n, List.Forall₂ Fits ((r.interfaceMembers n).flatMap (·.slots)) ((r.vtable n).getD [])
  events : ∀ n, r.interfaceEvents n = ((r.interfaceMembers n).flatMap (·.events)).map (·.2)
  origins : ∀ n, ∀ m ∈ r.interfaceMembers n, m.iname = n

/-- The interface's cached vtable grows by items for the slots. -/
structure GrowsVTable (iname : String) (r r' : Render) (slots : List VTableSlot) : Prop where
  extendsList : r'.interfaceExtends = r.interfaceExtends
  members : r'.interfaceMembers = r.interfaceMembers
  events : r'.interfaceEvents = r.interfaceEvents
  others : ∀ n ≠ iname, r'.vtable n = r.vtable n
  own : ∃ items, (r'.vtable iname).getD [] = (r.vtable iname).getD [] ++ items ∧ List.Forall₂ Fits slots items

/-- The caches change for the interface's own members only. -/
structure CachesMembers (iname : String) (r r' : Render) (members : List InterfaceMember) :
    Prop where
  extendsList : r'.interfaceExtends = r.interfaceExtends
  vtables : ∀ n ≠ iname, r'.vtable n = r.vtable n
  events : ∀ n ≠ iname, r'.interfaceEvents n = r.interfaceEvents n
  others : ∀ n ≠ iname, r'.interfaceMembers n = r.interfaceMembers n
  members : r'.interfaceMembers iname = r.interfaceMembers iname ++ members.map (·.info iname)

section Cache

variable {r r' r'' : Render} {iname name params returnType : String} {type : VTableItemType}

theorem GrowsVTable.refl (iname : String) (r : Render) : GrowsVTable iname r r [] :=
  ⟨rfl,rfl,rfl,fun _ _ => rfl,[],by simp,.nil⟩

theorem GrowsVTable.trans {slots slots' : List VTableSlot} (h : GrowsVTable iname r r' slots)
    (h' : GrowsVTable iname r' r'' slots') : GrowsVTable iname r r'' (slots ++ slots') where
  extendsList := h'.extendsList.trans h.extendsList
  members := h'.members.trans h.members
  events := h'.events.trans h.events
  others n hn := (h'.others n hn).trans (h.others n hn)
  own := by
    obtain ⟨items,hitems,hfits⟩ := h.own
    obtain ⟨items',hitems',hfits'⟩ := h'.own
    refine ⟨items ++ items',?_,List.rel_append hfits hfits'⟩
    rw [hitems',hitems,List.append_assoc]

def Render.Free (r : Render) (iname name : String) (type : VTableItemType) : Prop :=
  ∀ item ∈ (r.vtable iname).getD [], item.name = name → item.type ≠ type

theorem cacheVTableItem_spec (params returnType : String) (h : r.Free iname name type) :
    (r.cacheVTableItem iname name params returnType type).1 = ((r.vtable iname).getD []).length ∧
    GrowsVTable iname r (r.cacheVTableItem iname name params returnType type).2 [⟨iname,name,type⟩] := by
  have hnew : (⟨0,name,params,returnType,type⟩ : VTableItem) ∉ (r.vtable iname).getD [] :=
    fun hmem => h _ hmem rfl rfl
  have hindex : ((r.vtable iname).getD [] ++ [(⟨0,name,params,returnType,type⟩ :
      VTableItem)]).idxOf ⟨0,name,params,returnType,type⟩ = ((r.vtable iname).getD []).length := by
    rw [List.idxOf_append_of_notMem hnew,List.idxOf_cons_self,Nat.add_zero]
  refine ⟨hindex,rfl,rfl,rfl,fun n hn => Function.update_of_ne hn _ _,
    [⟨((r.vtable iname).getD []).length,name,params,returnType,type⟩],?_,.cons ⟨rfl,rfl⟩ .nil⟩
  unfold Render.cacheVTableItem
  dsimp only
  rw [Function.update_self,Option.getD_some,hindex]

theorem genAccessor_spec (params returnType : String) (has : Bool) (offset : ℕ)
    (h : has = true → r.Free iname name type) :
    let slots : List VTableSlot := if has then [⟨iname,name,type⟩] else []
    GrowsVTable iname r (genAccessor iname has name params returnType type offset r).1 slots ∧
    (genAccessor iname has name params returnType type offset r).2 =
      numberStubs slots (offset + ((r.vtable iname).getD []).length) := by
  cases has with
  | false => exact ⟨GrowsVTable.refl iname r,rfl⟩
  | true =>
    obtain ⟨hindex,hgrows⟩ := cacheVTableItem_spec params returnType
      (h rfl)
    refine ⟨hgrows,?_⟩
    simp [genAccessor,hindex,Nat.add_comm]

theorem GrowsVTable.free {slots : List VTableSlot} (h : GrowsVTable iname r r' slots)
    (hfree : r.Free iname name type) (hslots : ∀ slot ∈ slots, slot.type ≠ type) :
    r'.Free iname name type := by
  obtain ⟨items,hitems,hfits⟩ := h.own
  intro item hitem hname
  rw [hitems,List.mem_append] at hitem
  rcases hitem with hitem | hitem
  · exact hfree item hitem hname
  · obtain ⟨slot,hslot,hfit⟩ := exists_fitting_slot hfits hitem
    rw [hfit.2]
    exact hslots slot hslot

theorem GrowsVTable.length {slots : List VTableSlot} (h : GrowsVTable iname r r' slots) :
    ((r'.vtable iname).getD []).length = ((r.vtable iname).getD []).length + slots.length := by
  obtain ⟨items,hitems,hfits⟩ := h.own
  rw [hitems,List.length_append,hfits.length_eq]

theorem Coherent.free (h : Coherent r) (hname : ∀ m ∈ r.interfaceMembers iname, m.name ≠ name)
    (type : VTableItemType) : r.Free iname name type := by
  intro item hitem hsame
  obtain ⟨slot,hslot,hfit⟩ := exists_fitting_slot (h.slots iname) hitem
  obtain ⟨m,hm,hslot⟩ := List.mem_flatMap.mp hslot
  exact absurd ((MemberInfo.slots_of_member hslot).2.symm.trans (hfit.1.symm.trans hsame)) (hname m hm)

/-- Caching a member behind its vtable items keeps the caches coherent. -/
theorem Coherent.cacheMember {m : InterfaceMember} (h : Coherent r)
    (hgrows : GrowsVTable iname r r' (m.info iname).slots) (hevents : (m.info iname).events = []) :
    Coherent (r'.cacheInterfaceMember (m.info iname)) ∧
      CachesMembers iname r (r'.cacheInterfaceMember (m.info iname)) [m] := by
  have hmembers : (r'.cacheInterfaceMember (m.info iname)).interfaceMembers =
      Function.update r.interfaceMembers iname (r.interfaceMembers iname ++ [m.info iname]) := by
    unfold Render.cacheInterfaceMember
    rw [InterfaceMember.info_iname,hgrows.members]
  constructor
  · constructor
    · intro n
      rw [hmembers]
      by_cases hn : n = iname
      · subst hn
        obtain ⟨items,hitems,hfits⟩ := hgrows.own
        change List.Forall₂ Fits _ ((r'.vtable n).getD [])
        rw [hitems,Function.update_self,List.flatMap_append]
        exact List.rel_append (h.slots n) (by simpa using hfits)
      · change List.Forall₂ Fits _ ((r'.vtable n).getD [])
        rw [hgrows.others n hn,Function.update_of_ne hn]
        exact h.slots n
    · intro n
      change r'.interfaceEvents n = _
      rw [hgrows.events,hmembers,h.events]
      by_cases hn : n = iname
      · subst hn
        rw [Function.update_self,List.flatMap_append]
        simp [hevents]
      · rw [Function.update_of_ne hn]
    · intro n m' hm'
      rw [hmembers] at hm'
      by_cases hn : n = iname
      · subst hn
        rw [Function.update_self,List.mem_append,List.mem_singleton] at hm'
        rcases hm' with hm' | rfl
        · exact h.origins n m' hm'
        · exact InterfaceMember.info_iname n m
      · rw [Function.update_of_ne hn] at hm'
        exact h.origins n m' hm'
  · refine ⟨hgrows.extendsList,hgrows.others,fun n _ => ?_,fun n hn => ?_,?_⟩
    · exact congrFun hgrows.events n
    · rw [hmembers,Function.update_of_ne hn]
    · rw [hmembers,Function.update_self,List.map_singleton]

end Cache

section Members

variable {depth : ℕ} {iname : String} {r r' : Render}

theorem Coherent.length_vtable (h : Coherent r) (n : String) :
    ((r.vtable n).getD []).length = ((r.interfaceMembers n).flatMap (·.slots)).length :=
  (h.slots n).length_eq.symm

theorem Coherent.length_events (h : Coherent r) (n : String) :
    (r.interfaceEvents n).length = ((r.interfaceMembers n).flatMap (·.events)).length := by
  rw [h.events,List.length_map]

theorem Coherent.event_mem (h : Coherent r) {n id : String} (hid : id ∈ r.interfaceEvents n) :
    ∃ m ∈ r.interfaceMembers n, m.name = id := by
  rw [h.events,List.mem_map] at hid
  obtain ⟨e,he,rfl⟩ := hid
  obtain ⟨m,hm,hem⟩ := List.mem_flatMap.mp he
  refine ⟨m,hm,?_⟩
  obtain ⟨_,_,type⟩ := m
  cases type with
  | event => rw [List.mem_singleton.mp hem]
  | _ => cases hem

theorem checkInterfaceEventId_false {id n : String} (h : r.checkInterfaceEventId depth n id = some false) :
    id ∈ r.interfaceEvents n ∨ ∃ a, Inheritance.Ancestor r.interfaceExtends n a ∧ id ∈ r.interfaceEvents a := by
  induction depth generalizing n with
  | zero => cases h
  | succ depth ih =>
    have hparents : ∀ ps : List String, ps.allM (fun p => r.checkInterfaceEventId depth p id) = some false →
        ∃ p ∈ ps, r.checkInterfaceEventId depth p id = some false := by
      intro ps hps
      induction ps with
      | nil => cases hps
      | cons p ps ihs =>
        rw [List.allM_cons] at hps
        cases hp : r.checkInterfaceEventId depth p id with
        | none => simp [hp] at hps
        | some b =>
          cases b with
          | false => exact ⟨p,List.mem_cons_self,hp⟩
          | true =>
            obtain ⟨q,hq,hfalse⟩ := ihs (by simpa [hp] using hps)
            exact ⟨q,List.mem_cons_of_mem _ hq,hfalse⟩
    rw [Render.checkInterfaceEventId] at h
    cases hall : (r.interfaceExtends n).allM (fun p => r.checkInterfaceEventId depth p id) with
    | none => simp [hall] at h
    | some b =>
      cases b with
      | false =>
        obtain ⟨p,hp,hfalse⟩ := hparents _ hall
        right
        rcases ih hfalse with hown | ⟨a,ha,hid⟩
        · exact ⟨p,Inheritance.Ancestor.parent hp,hown⟩
        · exact ⟨a,Inheritance.Ancestor.of_parent hp ha,hid⟩
      | true => exact .inl (by simpa [hall] using h)

theorem Coherent.cacheEvent (iname id : String) (h : Coherent r) :
    let r' : Render := { r with
      interfaceEvents := Function.update r.interfaceEvents iname (r.interfaceEvents iname ++ [id]) }
    Coherent (r'.cacheInterfaceMember ⟨iname,id,.event⟩) ∧
      CachesMembers iname r (r'.cacheInterfaceMember ⟨iname,id,.event⟩) [.event id] := by
  intro r'
  have hmembers : (r'.cacheInterfaceMember ⟨iname,id,.event⟩).interfaceMembers =
      Function.update r.interfaceMembers iname (r.interfaceMembers iname ++ [⟨iname,id,.event⟩]) := rfl
  have hevents : (r'.cacheInterfaceMember ⟨iname,id,.event⟩).interfaceEvents =
      Function.update r.interfaceEvents iname (r.interfaceEvents iname ++ [id]) := rfl
  constructor
  · refine ⟨fun n => ?_,fun n => ?_,fun n m hm => ?_⟩
    · change List.Forall₂ Fits _ ((r.vtable n).getD [])
      rw [hmembers]
      by_cases hn : n = iname
      · subst hn
        rw [Function.update_self,List.flatMap_append]
        simpa [MemberInfo.slots] using h.slots n
      · rw [Function.update_of_ne hn]
        exact h.slots n
    · rw [hmembers,hevents]
      by_cases hn : n = iname
      · subst hn
        rw [Function.update_self,Function.update_self,List.flatMap_append,List.map_append,h.events]
        rfl
      · rw [Function.update_of_ne hn,Function.update_of_ne hn]
        exact h.events n
    · rw [hmembers] at hm
      by_cases hn : n = iname
      · subst hn
        rw [Function.update_self,List.mem_append,List.mem_singleton] at hm
        rcases hm with hm | rfl
        · exact h.origins n m hm
        · rfl
      · rw [Function.update_of_ne hn] at hm
        exact h.origins n m hm
  · refine ⟨rfl,fun _ _ => rfl,fun n hn => ?_,fun n hn => ?_,?_⟩
    · rw [hevents,Function.update_of_ne hn]
    · rw [hmembers,Function.update_of_ne hn]
    · rw [hmembers,Function.update_self]
      rfl

theorem genInterfaceMember_spec {m : InterfaceMember} {glue : MemberGlue} (hc : Coherent r)
    (hname : ∀ m' ∈ r.interfaceMembers iname, m'.name ≠ m.name)
    (hcheck : r.checkInterfaceEventId depth iname m.name ≠ some false)
    (hgen : genInterfaceMember depth iname r m = some (r',glue)) :
    Coherent r' ∧ CachesMembers iname r r' [m] ∧
    (∀ k, (∀ o, r.vtableOffset depth iname = some o → o = k) → glue.stubs = numberStubs (m.info iname).slots
        (k + ((r.interfaceMembers iname).flatMap (·.slots)).length)) ∧
    (∀ k, (∀ o, r.eventOffset depth iname = some o → o = k) → glue.events = numberEvents (m.info iname).events
        (k + ((r.interfaceMembers iname).flatMap (·.events)).length)) := by
  rw [← hc.length_vtable,← hc.length_events]
  cases m with
  | function identifier params returnType =>
    have hfree : r.Free iname identifier .method := hc.free hname .method
    obtain ⟨hindex,hgrows⟩ := cacheVTableItem_spec params returnType
      hfree
    unfold genInterfaceMember genInterfaceFunction at hgen
    cases hoffset : r.vtableOffset depth iname with
    | none => simp [hoffset] at hgen
    | some offset =>
      simp only [hoffset,Option.bind_eq_bind,Option.bind_some,Option.pure_def,
        Option.some.injEq,Prod.mk.injEq] at hgen
      obtain ⟨rfl,rfl⟩ := hgen
      obtain ⟨hcoherent,hcaches⟩ := hc.cacheMember
        (m := .function identifier params returnType) hgrows rfl
      refine ⟨hcoherent,hcaches,fun k hk => ?_,fun _ _ => rfl⟩
      rw [← hk offset rfl]
      simp [hindex,InterfaceMember.info,MemberInfo.slots,Nat.add_comm]
  | property name cppType readable writeable const =>
    unfold genInterfaceMember genInterfaceProperty at hgen
    cases hoffset : r.vtableOffset depth iname with
    | none => simp [hoffset] at hgen
    | some offset =>
      simp only [hoffset,Option.bind_eq_bind,Option.bind_some,Option.pure_def,
        Option.some.injEq,Prod.mk.injEq] at hgen
      obtain ⟨rfl,rfl⟩ := hgen
      set hasGetter := InterfaceMember.propertyHasGetter readable const with hget
      set hasSetter := InterfaceMember.propertyHasSetter writeable const with hset
      have hunused : ∀ type, r.Free iname name type := fun type => hc.free hname type
      -- the getter comes first, and leaves the slot of the setter free
      obtain ⟨hgetter,hgetterStubs⟩ := genAccessor_spec "" cppType hasGetter offset
        (fun _ => hunused .getter)
      have hfree := hgetter.free (hunused .setter) (by
        intro slot hslot
        split_ifs at hslot
        · rw [List.mem_singleton.mp hslot]
          simp
        · cases hslot)
      obtain ⟨hsetter,hsetterStubs⟩ := genAccessor_spec (cppType ++ " " ++ name) "void"
        hasSetter offset (fun _ => hfree)
      obtain ⟨hcoherent,hcaches⟩ := hc.cacheMember
        (m := .property name cppType readable writeable const) (hgetter.trans hsetter) rfl
      refine ⟨hcoherent,hcaches,fun k hk => ?_,fun _ _ => rfl⟩
      have hslots : (InterfaceMember.info iname (.property name cppType readable writeable const)).slots =
          (if hasGetter then [⟨iname,name,.getter⟩] else []) ++
            (if hasSetter then [⟨iname,name,.setter⟩] else []) := rfl
      rw [← hk offset rfl,hslots,numberStubs_append]
      simp only [hgetterStubs,hsetterStubs,hgetter.length,Nat.add_assoc]
  | event identifier =>
    unfold genInterfaceMember genInterfaceEvent at hgen
    cases hsuccess : r.checkInterfaceEventId depth iname identifier with
    | none => simp [hsuccess] at hgen
    | some success =>
      cases success with
      | false => exact absurd hsuccess hcheck
      | true =>
        cases hoffset : r.eventOffset depth iname with
        | none => simp [hsuccess,hoffset] at hgen
        | some offset =>
          by_cases hin : identifier ∈ r.interfaceEvents iname
          · simp [hsuccess,hoffset,Render.cacheInterfaceEventId,hin] at hgen
          · simp only [hsuccess,hoffset,Render.cacheInterfaceEventId,hin,
              Option.bind_eq_bind,Option.bind_some,Option.pure_def,if_true,if_false,
              Option.some.injEq,Prod.mk.injEq] at hgen
            obtain ⟨rfl,rfl⟩ := hgen
            obtain ⟨hcoherent,hcaches⟩ := hc.cacheEvent iname identifier
            refine ⟨hcoherent,hcaches,fun _ _ => rfl,fun k hk => ?_⟩
            rw [← hk offset rfl]
            simp only [InterfaceMember.info,MemberInfo.events,numberEvents_cons,numberEvents_nil]
            rw [Nat.add_comm offset,Nat.add_right_comm]

def Render.Acyclic (r : Render) (iname : String) : Prop :=
  ¬Inheritance.Ancestor r.interfaceExtends iname iname

theorem CachesMembers.trans {r'' : Render} {members members' : List InterfaceMember}
    (h : CachesMembers iname r r' members) (h' : CachesMembers iname r' r'' members') :
    CachesMembers iname r r'' (members ++ members') where
  extendsList := h'.extendsList.trans h.extendsList
  vtables n hn := (h'.vtables n hn).trans (h.vtables n hn)
  events n hn := (h'.events n hn).trans (h.events n hn)
  others n hn := (h'.others n hn).trans (h.others n hn)
  members := by rw [h'.members,h.members,List.map_append,List.append_assoc]

variable {members : List InterfaceMember}

theorem CachesMembers.inherit_eq {M : Type}
    (h : CachesMembers iname r r' members) (hacyclic : r.Acyclic iname) {own own' : String → Option M}
    (hown : ∀ n ≠ iname, own' n = own n) (combine : M → M → M) (init : M) (depth : ℕ) :
    Inheritance.inherit r'.interfaceExtends own' combine init depth iname =
      Inheritance.inherit r.interfaceExtends own combine init depth iname := by
  rw [h.extendsList]
  refine (Inheritance.inherit_congr (fun n hn => ⟨rfl,(hown n ?_).symm⟩) rfl depth).symm
  rintro rfl
  exact hacyclic hn

theorem CachesMembers.vtableOffset (h : CachesMembers iname r r' members) (hacyclic : r.Acyclic iname) (depth : ℕ) :
    r'.vtableOffset depth iname = r.vtableOffset depth iname :=
  h.inherit_eq hacyclic (fun n hn => by rw [h.vtables n hn]) _ _ depth

theorem CachesMembers.eventOffset (h : CachesMembers iname r r' members) (hacyclic : r.Acyclic iname) (depth : ℕ) :
    r'.eventOffset depth iname = r.eventOffset depth iname :=
  h.inherit_eq hacyclic (fun n hn => by rw [h.events n hn]) _ _ depth

/-- The own members of an interface are numbered behind what it inherits. -/
theorem genInterfaceMembers_spec {glue : MemberGlue} (hc : Coherent r) (hacyclic : r.Acyclic iname)
    (hnames : ((r.interfaceMembers iname).map (·.name) ++ members.map (·.name)).Nodup)
    (hancestors : ∀ a, Inheritance.Ancestor r.interfaceExtends iname a → ∀ m ∈ members, m.name ∉ r.interfaceEvents a)
    (hgen : genInterfaceMembers depth iname members r = some (r',glue)) :
    Coherent r' ∧ CachesMembers iname r r' members ∧
    (∀ k, (∀ o, r.vtableOffset depth iname = some o → o = k) →
      glue.stubs = numberStubs ((members.map (·.info iname)).flatMap (·.slots))
        (k + ((r.interfaceMembers iname).flatMap (·.slots)).length)) ∧
    (∀ k, (∀ o, r.eventOffset depth iname = some o → o = k) →
      glue.events = numberEvents ((members.map (·.info iname)).flatMap (·.events))
        (k + ((r.interfaceMembers iname).flatMap (·.events)).length)) := by
  induction members generalizing r glue with
  | nil =>
    cases hgen
    exact ⟨hc,⟨rfl,fun _ _ => rfl,fun _ _ => rfl,fun _ _ => rfl,by simp⟩,fun _ _ => rfl,
      fun _ _ => rfl⟩
  | cons m members ih =>
    unfold genInterfaceMembers at hgen
    cases hfirst : genInterfaceMember depth iname r m with
    | none => simp [hfirst] at hgen
    | some first =>
      obtain ⟨r₁,own⟩ := first
      simp only [hfirst,Option.bind_eq_bind,Option.bind_some] at hgen
      cases hrest : genInterfaceMembers depth iname members r₁ with
      | none => simp [hrest] at hgen
      | some last =>
        obtain ⟨r₂,rest⟩ := last
        simp only [hrest,Option.bind_some,Option.pure_def,Option.some.injEq,Prod.mk.injEq] at hgen
        obtain ⟨rfl,rfl⟩ := hgen
        have hnew : ∀ m' ∈ r.interfaceMembers iname, m'.name ≠ m.name := by
          intro m' hm' heq
          rw [List.map_cons] at hnames
          exact (List.nodup_append.mp hnames).2.2 _ (List.mem_map_of_mem hm') _ List.mem_cons_self heq
        have hcheck : r.checkInterfaceEventId depth iname m.name ≠ some false := by
          intro hfalse
          rcases checkInterfaceEventId_false hfalse with hown | ⟨a,ha,hid⟩
          · obtain ⟨m',hm',heq⟩ := hc.event_mem hown
            exact hnew m' hm' heq
          · exact hancestors a ha m List.mem_cons_self hid
        obtain ⟨hc₁,hcaches,hstubs,hevents⟩ := genInterfaceMember_spec hc hnew hcheck hfirst
        have hmembers : r₁.interfaceMembers iname = r.interfaceMembers iname ++ [m.info iname] :=
          hcaches.members
        obtain ⟨hc₂,hcaches',hstubs',hevents'⟩ := ih hc₁
          (by rwa [Render.Acyclic,hcaches.extendsList])
          (by simpa [hmembers] using hnames)
          (by
            intro a ha m' hm'
            rw [hcaches.extendsList] at ha
            rw [hcaches.events a (fun h => hacyclic (h ▸ ha))]
            exact hancestors a ha m' (List.mem_cons_of_mem _ hm'))
          hrest
        refine ⟨hc₂,by simpa using hcaches.trans hcaches',fun k hk => ?_,fun k hk => ?_⟩
        · dsimp only
          rw [hstubs k hk,hstubs' k (by rwa [hcaches.vtableOffset hacyclic]),hmembers,
            List.map_cons,List.flatMap_cons,numberStubs_append]
          simp [Nat.add_assoc]
        · dsimp only
          rw [hevents k hk,hevents' k (by rwa [hcaches.eventOffset hacyclic]),hmembers,
            List.map_cons,List.flatMap_cons,numberEvents_append]
          simp [Nat.add_assoc]

end Members

/-- The caches hold the generated interfaces and nothing else. -/
structure Records (r : Render) (done : List InterfaceNode) : Prop where
  coherent : Coherent r
  extendsList : ∀ i ∈ done, r.interfaceExtends i.name = i.extendsList
  members : ∀ i ∈ done, r.interfaceMembers i.name = i.members.map (·.info i.name)
  fresh : ∀ n ∉ done.map (·.name), r.interfaceExtends n = [] ∧ r.interfaceMembers n = []

def ParentsDeclared (done : List InterfaceNode) : Prop :=
  ∀ i ∈ done, ∀ e ∈ i.extendsList, e ∈ done.map (·.name)

def ParentsFirst : List String → List InterfaceNode → Prop
  | _, [] => True
  | declared, inode :: inodes => (∀ e ∈ inode.extendsList, e ∈ declared) ∧
    ParentsFirst (declared ++ [inode.name]) inodes

/-- The interface is the other one, or extends it directly or indirectly. -/
inductive Inherits (inodes : List InterfaceNode) : InterfaceNode → InterfaceNode → Prop
  | self (i : InterfaceNode) : Inherits inodes i i
  | parent {i p o : InterfaceNode} : p ∈ inodes → p.name ∈ i.extendsList → Inherits inodes p o →
      Inherits inodes i o

def DistinctMembers (inodes : List InterfaceNode) : Prop :=
  ∀ i ∈ inodes, (i.members.map (·.name)).Nodup ∧ ∀ a ∈ inodes, Inherits inodes i a → a ≠ i →
    ∀ m ∈ i.members, ∀ m' ∈ a.members, m'.name ≠ m.name

/-- The second state has the same caches for the generated interfaces. -/
structure Keeps (r r' : Render) (done : List InterfaceNode) : Prop where
  extendsList : ∀ n ∈ done.map (·.name), r'.interfaceExtends n = r.interfaceExtends n
  vtables : ∀ n ∈ done.map (·.name), r'.vtable n = r.vtable n
  members : ∀ n ∈ done.map (·.name), r'.interfaceMembers n = r.interfaceMembers n

def Counts (r : Render) (depth : ℕ) (glue : InterfaceGlue) : Prop :=
  ∃ members, r.getFinalInterfaceMembers depth glue.node.name = some members ∧
    glue.events = numberEvents (members.flatMap (·.events)) 0 ∧
    ∀ vtable, r.getFinalVTable depth glue.node.name = some vtable →
      glue.stubs = numberStubs (members.flatMap (·.slots)) 0

section Interfaces

variable {depth : ℕ} {r r' : Render} {done inodes : List InterfaceNode} {inode : InterfaceNode}

theorem Inherits.snoc {i j k : InterfaceNode} (h : Inherits inodes i j) (hk : k ∈ inodes)
    (hjk : k.name ∈ j.extendsList) : Inherits inodes i k := by
  induction h with
  | self i => exact .parent hk hjk (.self k)
  | parent hp hip _ ih => exact .parent hp hip (ih hjk)

theorem ancestor_mem (h : ∀ i ∈ done, r.interfaceExtends i.name = i.extendsList)
    (hdeclared : ParentsDeclared done) {n a : String} (hn : ∀ p ∈ r.interfaceExtends n,
      p ∈ done.map (·.name)) (ha : Inheritance.Ancestor r.interfaceExtends n a) : a ∈ done.map (·.name) := by
  refine ha.mem hn (fun m hm p hp => ?_)
  obtain ⟨i,hi,rfl⟩ := List.mem_map.mp hm
  rw [h i hi] at hp
  exact hdeclared i hi p hp

/-- The ancestors in the caches are the interfaces that are inherited. -/
theorem inherits_of_ancestor (h : ∀ i ∈ done, r.interfaceExtends i.name = i.extendsList)
    (hdeclared : ParentsDeclared done) (hsub : done ⊆ inodes)
    (hself : r.interfaceExtends inode.name = inode.extendsList)
    (hparents : ∀ e ∈ inode.extendsList, e ∈ done.map (·.name)) {a : String}
    (ha : Inheritance.Ancestor r.interfaceExtends inode.name a) :
    ∃ j ∈ done, j.name = a ∧ Inherits inodes inode j := by
  induction ha with
  | single hp =>
    rw [hself] at hp
    obtain ⟨j,hj,rfl⟩ := List.mem_map.mp (hparents _ hp)
    exact ⟨j,hj,rfl,.parent (hsub hj) hp (.self j)⟩
  | tail _ hp ih =>
    obtain ⟨j,hj,rfl,hinherits⟩ := ih
    rw [h j hj] at hp
    obtain ⟨k,hk,rfl⟩ := List.mem_map.mp (hdeclared j hj _ hp)
    exact ⟨k,hk,rfl,hinherits.snoc (hsub hk) hp⟩

theorem Keeps.collect_eq {M : Type} (h : Keeps r r' done) (hr : Records r done)
    (hdeclared : ParentsDeclared done) {own own' : String → Option M}
    (hown : ∀ n ∈ done.map (·.name), own' n = own n) (combine : M → M → M) (init : M) (depth : ℕ)
    {n : String} (hn : n ∈ done.map (·.name)) :
    Inheritance.collect r'.interfaceExtends own' combine init depth n =
      Inheritance.collect r.interfaceExtends own combine init depth n := by
  have hbelow : ∀ p ∈ r.interfaceExtends n, p ∈ done.map (·.name) := by
    intro p hp
    obtain ⟨i,hi,rfl⟩ := List.mem_map.mp hn
    rw [hr.extendsList i hi] at hp
    exact hdeclared i hi p hp
  refine (Inheritance.collect_congr (fun a ha => ?_) (h.extendsList n hn).symm (hown n hn).symm
    depth).symm
  have hmem := ancestor_mem hr.extendsList hdeclared hbelow ha
  exact ⟨(h.extendsList a hmem).symm,(hown a hmem).symm⟩

theorem Keeps.counts (h : Keeps r r' done) (hr : Records r done) (hdeclared : ParentsDeclared done)
    {glue : InterfaceGlue} (hglue : glue.node ∈ done) (hcounts : Counts r depth glue) :
    Counts r' depth glue := by
  have hn : glue.node.name ∈ done.map (·.name) := List.mem_map_of_mem hglue
  obtain ⟨members,hmembers,hevents,hstubs⟩ := hcounts
  refine ⟨members,?_,hevents,fun vtable hvtable => hstubs vtable ?_⟩
  · rw [← hmembers]
    exact h.collect_eq hr hdeclared (fun n hn => by rw [h.members n hn]) _ _ depth hn
  · rw [← hvtable]
    exact (h.collect_eq hr hdeclared h.vtables _ _ depth hn).symm

variable {members : List MemberInfo}

/-- Inherited members have as many slots as the inherited vtable has items. -/
theorem Coherent.vtableOffset_eq (hc : Coherent r) {n : String} {vtable : List VTableItem} {k : ℕ}
    (hmembers : Inheritance.inherit r.interfaceExtends (fun k => some (r.interfaceMembers k))
      (· ++ ·) [] depth n = some members)
    (hvtable : Inheritance.inherit r.interfaceExtends r.vtable (· ++ ·) [] depth n = some vtable)
    (hk : r.vtableOffset depth n = some k) : k = (members.flatMap (·.slots)).length := by
  obtain ⟨size,hsize,hlength⟩ := Inheritance.inherit_rel (fun vt n => n = List.length vt)
    (fun k => (r.vtable k).map List.length) (· + ·) 0 rfl
    (fun h h' => by rw [h,h',List.length_append])
    (fun k vt hvt => ⟨vt.length,by rw [hvt]; rfl,rfl⟩) hvtable
  obtain ⟨ms,hms,hfits⟩ := Inheritance.inherit_rel
    (fun vt ms => List.Forall₂ Fits (ms.flatMap MemberInfo.slots) vt)
    (fun k => some (r.interfaceMembers k)) (· ++ ·) [] .nil
    (fun h h' => by rw [List.flatMap_append]; exact List.rel_append h h')
    (fun k vt hvt => ⟨_,rfl,by simpa [hvt] using hc.slots k⟩) hvtable
  rw [hmembers] at hms
  obtain rfl := Option.some.inj hms
  rw [Render.vtableOffset,hsize] at hk
  rw [← Option.some.inj hk,hlength,hfits.length_eq]

theorem Coherent.eventOffset_eq (hc : Coherent r) {n : String} {k : ℕ}
    (hmembers : Inheritance.inherit r.interfaceExtends (fun k => some (r.interfaceMembers k))
      (· ++ ·) [] depth n = some members)
    (hk : r.eventOffset depth n = some k) : k = (members.flatMap (·.events)).length := by
  obtain ⟨size,hsize,hlength⟩ := Inheritance.inherit_rel
    (fun ms n => n = (List.flatMap MemberInfo.events ms).length)
    (fun k => some (r.interfaceEvents k).length) (· + ·) 0 rfl
    (fun h h' => by rw [h,h',List.flatMap_append,List.length_append])
    (fun k ms hms => ⟨_,rfl,by rw [← Option.some.inj hms,hc.length_events]⟩) hmembers
  rw [Render.eventOffset,hsize] at hk
  rw [← Option.some.inj hk,hlength]

/-- One interface: the caches take up its members, and its glue code counts them. -/
theorem genInterface_spec {glue : InterfaceGlue} (hr : Records r done)
    (hdeclared : ParentsDeclared done) (hsub : done ⊆ inodes) (hin : inode ∈ inodes)
    (hnew : inode.name ∉ done.map (·.name))
    (hparents : ∀ e ∈ inode.extendsList, e ∈ done.map (·.name)) (hdistinct : DistinctMembers inodes)
    (hgen : genInterface depth inode r = some (r',glue)) :
    Records r' (done ++ [inode]) ∧ Keeps r r' done ∧ glue.node = inode ∧ Counts r' depth glue := by
  obtain ⟨hnoExtends,hnoMembers⟩ := hr.fresh _ hnew
  set r₁ := r.cacheInterfaceExtends inode.name inode.extendsList with hr₁
  have hextends : r₁.interfaceExtends = Function.update r.interfaceExtends inode.name
      inode.extendsList := by
    rw [hr₁,Render.cacheInterfaceExtends,hnoExtends,List.nil_append]
  have hself : r₁.interfaceExtends inode.name = inode.extendsList := by
    rw [hextends,Function.update_self]
  have hc₁ : Coherent r₁ := ⟨hr.coherent.slots,hr.coherent.events,hr.coherent.origins⟩
  have hne : ∀ i ∈ done, i.name ≠ inode.name := by
    intro i hi heq
    rw [← heq] at hnew
    exact hnew (List.mem_map_of_mem hi)
  have hdone : ∀ i ∈ done, r₁.interfaceExtends i.name = i.extendsList := by
    intro i hi
    rw [hextends,Function.update_of_ne (hne i hi)]
    exact hr.extendsList i hi
  have hacyclic : r₁.Acyclic inode.name := by
    intro hself'
    exact hnew (ancestor_mem hdone hdeclared (by rwa [hself]) hself')
  -- events of ancestors are members of inherited interfaces
  have hancestors : ∀ a, Inheritance.Ancestor r₁.interfaceExtends inode.name a →
      ∀ m ∈ inode.members, m.name ∉ r₁.interfaceEvents a := by
    intro a ha m hm hid
    obtain ⟨j,hj,rfl,hinherits⟩ := inherits_of_ancestor hdone hdeclared hsub hself hparents ha
    obtain ⟨info,hinfo,hname⟩ := hc₁.event_mem hid
    obtain ⟨m',hm',rfl⟩ : ∃ m' ∈ j.members, m'.info j.name = info := by
      have hmembers : r₁.interfaceMembers j.name = _ := hr.members j hj
      rwa [hmembers,List.mem_map] at hinfo
    rw [InterfaceMember.info_name] at hname
    exact (hdistinct inode hin).2 j (hsub hj) hinherits
      (fun h => hne j hj (congrArg InterfaceNode.name h)) m hm m' hm' hname
  have hnoMembers₁ : r₁.interfaceMembers inode.name = [] := hnoMembers
  unfold genInterface at hgen
  cases hparentMembers : r₁.getFinalInterfaceMembers depth inode.name with
  | none => simp [← hr₁,hparentMembers] at hgen
  | some parentMembers =>
    cases hown : genInterfaceMembers depth inode.name inode.members r₁ with
    | none => simp [← hr₁,hparentMembers,hown] at hgen
    | some own =>
      obtain ⟨r₂,ownGlue⟩ := own
      simp only [← hr₁,hparentMembers,hown,Option.bind_eq_bind,Option.bind_some,
        Option.pure_def,Option.some.injEq,Prod.mk.injEq] at hgen
      obtain ⟨rfl,rfl⟩ := hgen
      obtain ⟨hc₂,hcaches,hstubs,hevents⟩ := genInterfaceMembers_spec hc₁ hacyclic
        (by simpa [hnoMembers₁] using (hdistinct inode hin).1) hancestors hown
      rw [hnoMembers₁] at hstubs hevents
      have hmembers₂ : r₂.interfaceMembers inode.name = inode.members.map (·.info inode.name) := by
        rw [hcaches.members,hnoMembers₁,List.nil_append]
      refine ⟨⟨hc₂,fun i hi => ?_,fun i hi => ?_,fun n hn => ?_⟩,⟨?_,?_,?_⟩,rfl,?_⟩
      · rw [hcaches.extendsList]
        rcases List.mem_append.mp hi with hi | hi
        · exact hdone i hi
        · rw [List.mem_singleton.mp hi,hself]
      · rcases List.mem_append.mp hi with hi | hi
        · rw [hcaches.others _ (hne i hi)]
          exact hr.members i hi
        · rw [List.mem_singleton.mp hi,hmembers₂]
      · rw [List.map_append,List.mem_append,not_or] at hn
        obtain ⟨hold,hother⟩ := hn
        have hn' : n ≠ inode.name := by simpa using hother
        rw [hcaches.extendsList,hcaches.others n hn',hextends,Function.update_of_ne hn']
        exact hr.fresh n hold
      · intro n hn
        obtain ⟨i,hi,rfl⟩ := List.mem_map.mp hn
        rw [hcaches.extendsList,hextends,Function.update_of_ne (hne i hi)]
      · intro n hn
        obtain ⟨i,hi,rfl⟩ := List.mem_map.mp hn
        exact hcaches.vtables _ (hne i hi)
      · intro n hn
        obtain ⟨i,hi,rfl⟩ := List.mem_map.mp hn
        exact hcaches.others _ (hne i hi)
      · cases depth with
        | zero => cases hparentMembers
        | succ depth =>
          obtain ⟨inherited,mine,hinherited,hmine,hconcat⟩ :=
            Inheritance.collect_succ_eq_some_iff.mp hparentMembers
          have hparent : parentMembers = inherited := by
            rw [hconcat,← Option.some.inj hmine,hnoMembers₁,List.append_nil]
          have hdeep := Inheritance.inherit_succ hinherited
          refine ⟨inherited ++ inode.members.map (·.info inode.name),?_,?_,?_⟩
          · refine Inheritance.collect_succ_eq_some_iff.mpr ⟨inherited,_,?_,?_,rfl⟩
            · rw [hcaches.inherit_eq hacyclic (fun n hn => by rw [hcaches.others n hn])]
              exact hinherited
            · rw [hmembers₂]
          · rw [genParentMemberDefs_eq,hparent,List.flatMap_append,numberEvents_append,
              hevents _ (fun o ho => hc₁.eventOffset_eq hdeep ho)]
            simp
          · intro vtable hvtable
            obtain ⟨inheritedVTable,_,hinheritedVTable,-,-⟩ :=
              Inheritance.collect_succ_eq_some_iff.mp hvtable
            rw [hcaches.inherit_eq hacyclic hcaches.vtables] at hinheritedVTable
            have hdeepVTable := Inheritance.inherit_succ hinheritedVTable
            rw [genParentMemberDefs_eq,hparent,List.flatMap_append,numberStubs_append,
              hstubs _ (fun o ho => hc₁.vtableOffset_eq hdeep hdeepVTable ho)]
            simp

theorem ParentsDeclared.snoc (h : ParentsDeclared done) (hparents : ∀ e ∈ inode.extendsList, e ∈ done.map (·.name)) :
    ParentsDeclared (done ++ [inode]) := by
  intro i hi e he
  rw [List.map_append]
  apply List.mem_append_left
  rcases List.mem_append.mp hi with hi | hi
  · exact h i hi e he
  · rw [List.mem_singleton.mp hi] at he
    exact hparents e he

theorem Keeps.trans_snoc {r'' : Render} (h : Keeps r r' done)
    (h' : Keeps r' r'' (done ++ [inode])) : Keeps r r'' done := by
  have hmem : ∀ n ∈ done.map (·.name), n ∈ (done ++ [inode]).map (·.name) := by
    intro n hn
    rw [List.map_append]
    exact List.mem_append_left _ hn
  exact ⟨fun n hn => (h'.extendsList n (hmem n hn)).trans (h.extendsList n hn),
    fun n hn => (h'.vtables n (hmem n hn)).trans (h.vtables n hn),
    fun n hn => (h'.members n (hmem n hn)).trans (h.members n hn)⟩

theorem genInterfaces_spec {rest : List InterfaceNode} {glues : List InterfaceGlue}
    (hr : Records r done) (hdeclared : ParentsDeclared done) (hsub : done ++ rest ⊆ inodes)
    (hnames : ((done ++ rest).map (·.name)).Nodup)
    (hfirst : ParentsFirst (done.map (·.name)) rest) (hdistinct : DistinctMembers inodes)
    (hgen : genInterfaces depth rest r = some (r',glues)) :
    Records r' (done ++ rest) ∧ Keeps r r' done ∧ glues.map (·.node) = rest ∧
      ∀ glue ∈ glues, Counts r' depth glue := by
  induction rest generalizing r done glues with
  | nil =>
    cases hgen
    rw [List.append_nil]
    exact ⟨hr,⟨fun _ _ => rfl,fun _ _ => rfl,fun _ _ => rfl⟩,rfl,fun _ h => nomatch h⟩
  | cons inode rest ih =>
    unfold genInterfaces at hgen
    cases hone : genInterface depth inode r with
    | none => simp [hone] at hgen
    | some one =>
      obtain ⟨r₁,glue⟩ := one
      simp only [hone,Option.bind_eq_bind,Option.bind_some] at hgen
      cases hothers : genInterfaces depth rest r₁ with
      | none => simp [hothers] at hgen
      | some others =>
        obtain ⟨r₂,glues⟩ := others
        simp only [hothers,Option.bind_some,Option.pure_def,Option.some.injEq,Prod.mk.injEq] at hgen
        obtain ⟨rfl,rfl⟩ := hgen
        have hsplit : done ++ inode :: rest = (done ++ [inode]) ++ rest := by simp
        have hnew : inode.name ∉ done.map (·.name) := by
          intro hin
          rw [List.map_append,List.map_cons] at hnames
          exact (List.nodup_append.mp hnames).2.2 _ hin _ List.mem_cons_self rfl
        obtain ⟨hr₁,hkeeps,hnode,hcounts⟩ := genInterface_spec hr hdeclared
          (fun i hi => hsub (List.mem_append_left _ hi))
          (hsub (List.mem_append_right _ List.mem_cons_self)) hnew hfirst.1 hdistinct hone
        have hdeclared₁ := hdeclared.snoc hfirst.1
        obtain ⟨hr₂,hkeeps₂,hnodes,hall⟩ := ih hr₁ hdeclared₁ (by rwa [← hsplit])
          (by rwa [← hsplit]) (by simpa using hfirst.2) hothers
        refine ⟨by rwa [hsplit],hkeeps.trans_snoc hkeeps₂,by rw [List.map_cons,hnode,hnodes],?_⟩
        intro g hg
        rcases List.mem_cons.mp hg with rfl | hg
        · exact hkeeps₂.counts hr₁ hdeclared₁ (by simp [hnode]) hcounts
        · exact hall g hg

/-- The final members of an interface contain those of the interfaces that it inherits. -/
theorem Records.mem_finalMembers (hr : Records r inodes) {i o : InterfaceNode}
    (h : Inherits inodes i o) (hi : i ∈ inodes)
    (hmembers : r.getFinalInterfaceMembers depth i.name = some members) {m : InterfaceMember}
    (hm : m ∈ o.members) : m.info o.name ∈ members := by
  induction h generalizing depth members with
  | self i =>
    cases depth with
    | zero => cases hmembers
    | succ depth =>
      obtain ⟨inherited,mine,-,hmine,rfl⟩ := Inheritance.collect_succ_eq_some_iff.mp hmembers
      rw [← Option.some.inj hmine,hr.members i hi]
      exact List.mem_append_right _ (List.mem_map_of_mem hm)
  | @parent i p o hp hip _ ih =>
    cases depth with
    | zero => cases hmembers
    | succ depth =>
      obtain ⟨inherited,mine,hinherited,-,rfl⟩ := Inheritance.collect_succ_eq_some_iff.mp hmembers
      obtain ⟨lists,hlists,rfl⟩ := Inheritance.inherit_eq_some_iff.mp hinherited
      rw [hr.extendsList i hi] at hlists
      obtain ⟨l,hl,hpl⟩ := Inheritance.exists_result hlists hip
      have hfold : ∀ (ls : List (List MemberInfo)) (acc : List MemberInfo),
          ls.foldl (· ++ ·) acc = acc ++ ls.flatten := by
        intro ls
        induction ls with
        | nil => simp
        | cons l ls ihl => simp [ihl]
      apply List.mem_append_left
      rw [hfold,List.nil_append]
      exact List.mem_flatten_of_mem hl (ih hp hpl hm)

end Interfaces

/-- The item of the vtable is the very one that was cached for the slot's member. -/
structure IsItemOf (r : Render) (slot : VTableSlot) (item : VTableItem) : Prop where
  fits : Fits slot item
  cached : item ∈ (r.vtable slot.origin).getD []

theorem Coherent.items {r : Render} (h : Coherent r) (n : String) :
    List.Forall₂ (IsItemOf r) ((r.interfaceMembers n).flatMap (·.slots)) ((r.vtable n).getD []) := by
  rw [List.forall₂_iff_zip]
  refine ⟨(h.slots n).length_eq,fun {slot item} hpair => ?_⟩
  obtain ⟨hslot,hitem⟩ := List.of_mem_zip hpair
  obtain ⟨m,hm,hslot⟩ := List.mem_flatMap.mp hslot
  refine ⟨List.forall₂_zip (h.slots n) hpair,?_⟩
  rw [(MemberInfo.slots_of_member hslot).1,h.origins n m hm]
  exact hitem

/-- The layout of one interface agrees: every stub passes the position of its function in the
struct, every own or inherited member has its stubs or its event, and the event ids run from 1 to
their number. -/
structure LayoutAgrees (inodes : List InterfaceNode) (depth : ℕ) (out : Generated)
    (glue : InterfaceGlue) : Prop where
  positions : ∃ vtable, out.render.getFinalVTable depth glue.node.name = some vtable ∧
    (glue.node.name,vtable) ∈ out.vtableStructs ∧
    ∀ stub ∈ glue.stubs, ∃ item, vtable[stub.index]? = some item ∧ IsItemOf out.render stub.slot item
  stubs : ∀ o ∈ inodes, Inherits inodes glue.node o → ∀ m ∈ o.members,
    ∀ slot ∈ (m.info o.name).slots, ∃ stub ∈ glue.stubs, stub.slot = slot
  events : ∀ o ∈ inodes, Inherits inodes glue.node o → ∀ id, .event id ∈ o.members →
    ∃ event ∈ glue.events, event.origin = o.name ∧ event.name = id
  ids : ∃ n, out.render.getInterfaceFinalEventSize depth glue.node.name = some n ∧
    glue.events.map (·.id) = List.range' 1 n

theorem records_empty : Records {} [] where
  coherent := ⟨fun _ => .nil,fun _ => rfl,fun _ _ h => nomatch h⟩
  extendsList _ h := nomatch h
  members _ h := nomatch h
  fresh _ _ := ⟨rfl,rfl⟩

/-- When the generation completes, the layouts of all interfaces agree. -/
theorem layout_agrees (depth : ℕ) (inodes : List InterfaceNode) (out : Generated)
    (hnames : (inodes.map (·.name)).Nodup) (hfirst : ParentsFirst [] inodes)
    (hdistinct : DistinctMembers inodes) (hgen : generate depth inodes = some out) :
    out.glues.map (·.node) = inodes ∧ ∀ glue ∈ out.glues, LayoutAgrees inodes depth out glue := by
  unfold generate at hgen
  cases hsource : genInterfaces depth inodes {} with
  | none => simp [hsource] at hgen
  | some source =>
    obtain ⟨r,glues⟩ := source
    simp only [hsource,Option.bind_eq_bind,Option.bind_some] at hgen
    cases hheader : inodes.mapM (genInterfaceVTableDefines depth r) with
    | none => simp [hheader] at hgen
    | some vtableStructs =>
      simp only [hheader,Option.bind_some,Option.pure_def,Option.some.injEq] at hgen
      subst hgen
      obtain ⟨hr,-,hnodes,hcounts⟩ := genInterfaces_spec records_empty
        (fun _ h => nomatch h) (List.Subset.refl inodes) hnames hfirst hdistinct hsource
      have hr : Records r inodes := hr
      refine ⟨hnodes,fun glue hglue => ?_⟩
      have hin : glue.node ∈ inodes := by
        rw [← hnodes]
        exact List.mem_map_of_mem hglue
      obtain ⟨members,hmembers,hevents,hstubs⟩ := hcounts glue hglue
      obtain ⟨⟨n,vtable⟩,hstruct,hdefines⟩ := Inheritance.exists_result
        (Inheritance.mapM_eq_some_iff.mp hheader) hin
      obtain ⟨vtable',hvtable,hpair⟩ := Option.map_eq_some_iff.mp hdefines
      cases hpair
      have hstubs := hstubs vtable hvtable
      have hmem : ∀ o ∈ inodes, Inherits inodes glue.node o → ∀ m ∈ o.members, m.info o.name ∈ members :=
        fun o _ hinherits m hm => hr.mem_finalMembers hinherits hin hmembers hm
      -- slots and items correspond in their order, each with its origin
      have hitems : List.Forall₂ (IsItemOf r) (members.flatMap (·.slots)) vtable := by
        obtain ⟨ms,hms,hforall⟩ := Inheritance.collect_rel
          (fun vt ms => List.Forall₂ (IsItemOf r) (ms.flatMap MemberInfo.slots) vt)
          (fun k => some (r.interfaceMembers k)) (· ++ ·) [] .nil
          (fun h h' => by rw [List.flatMap_append]; exact List.rel_append h h')
          (fun k vt hvt => ⟨_,rfl,by simpa [hvt] using hr.coherent.items k⟩) hvtable
        rw [Option.some.inj (hmembers.symm.trans hms)]
        exact hforall
      refine ⟨⟨vtable,hvtable,hstruct,fun stub hstub => ?_⟩,fun o ho hinherits m hm slot hslot => ?_,
        fun o ho hinherits id hid => ?_,?_⟩
      · rw [hstubs,mem_numberStubs] at hstub
        exact Inheritance.getElem?_result hitems hstub
      · obtain ⟨i,hi⟩ := List.getElem?_of_mem
          (List.mem_flatMap.mpr ⟨_,hmem o ho hinherits m hm,hslot⟩)
        exact ⟨⟨slot,i⟩,by rw [hstubs]; exact mem_numberStubs.mpr hi,rfl⟩
      · have hevent : (o.name,id) ∈ members.flatMap (·.events) :=
          List.mem_flatMap.mpr ⟨_,hmem o ho hinherits _ hid,List.mem_singleton.mpr rfl⟩
        rw [← numberEvents_events (members.flatMap (·.events)) 0,← hevents,List.mem_map] at hevent
        obtain ⟨event,hevent,heq⟩ := hevent
        exact ⟨event,hevent,congrArg Prod.fst heq,congrArg Prod.snd heq⟩
      · obtain ⟨n,hn,hlength⟩ := Inheritance.collect_rel
          (fun ms n => n = (List.flatMap MemberInfo.events ms).length)
          (fun k => some (r.interfaceEvents k).length) (· + ·) 0 rfl
          (fun h h' => by rw [h,h',List.flatMap_append,List.length_append])
          (fun k ms hms => ⟨_,rfl,by rw [← Option.some.inj hms,hr.coherent.length_events]⟩) hmembers
        exact ⟨n,hn,by rw [hevents,numberEvents_ids,hlength]⟩

def playerInterfaces : List InterfaceNode :=
  [⟨"Source",[],[.function "open" "FtString url" "void",.event "error"]⟩,
   ⟨"Player",["Source"],[.property "volume" "FtInt" true true false,.event "ended"]⟩]

theorem layout_agrees_of_player : ∃ out, generate 3 playerInterfaces = some out ∧
    out.glues.map (·.node) = playerInterfaces ∧
    ∀ glue ∈ out.glues, LayoutAgrees playerInterfaces 3 out glue := by
  have hdistinct : DistinctMembers playerInterfaces := by
    intro i hi
    refine ⟨?_,fun a ha _ hne m hm m' hm' => ?_⟩
    all_goals
      simp only [playerInterfaces,List.mem_cons,List.not_mem_nil,or_false] at hi
    · rcases hi with rfl | rfl <;> decide
    · simp only [playerInterfaces,List.mem_cons,List.not_mem_nil,or_false] at ha
      rcases hi with rfl | rfl <;> rcases ha with rfl | rfl <;> first
        | exact absurd rfl hne
        | (simp only [List.mem_cons,List.not_mem_nil,or_false] at hm hm'
           rcases hm with rfl | rfl <;> rcases hm' with rfl | rfl <;> decide)
  exact ⟨_,rfl,layout_agrees 3 playerInterfaces _ (by decide)
    ⟨by decide,by decide,trivial⟩ hdistinct rfl⟩

end FeatureRuntime.Jidl
