import FeatureRuntime.Inheritance
import Mathlib.Data.List.Nodup
import Mathlib.Logic.Function.Basic

/-! The JIDL generator on declared permissions: the bit sets of a request, and the stubs that
request them before they call a native body. -/
namespace FeatureRuntime.Jidl

def lowPermsMap : List (String × ℕ) :=
  [("hapjs.permission.INTERNET",0),("hapjs.permission.LOCATION",1),("hapjs.permission.RECORD",2),
   ("hapjs.permission.DEVICE_INFO",3),("hapjs.permission.READ_HEALTH_DATA",4)]

def highPermsMap : List (String × ℕ) := [("hapjs.permission.MAX",64)]

/-- `FeaturePermissions`. -/
structure PermissionBits where
  lowBits : ℕ := 0
  highBits : ℕ := 0
  deriving DecidableEq

def markPermission (bits permId : ℕ) : ℕ := bits ||| 1 <<< (permId % 64)

/-- The components of a `permissions` attribute, blanks removed. -/
def splitPermissions (permissions : String) : List String :=
  ((permissions.toList.filter (· ≠ ' ')).splitOn ',').map String.ofList

/-- The loop of `GetPermissionIds`: a name in neither map is passed over. -/
def addPermission (bits : PermissionBits) (perm : String) : PermissionBits :=
  match lowPermsMap.lookup perm with
  | some id => { bits with lowBits := markPermission bits.lowBits id }
  | none => match highPermsMap.lookup perm with
    | some id => { bits with highBits := markPermission bits.highBits id }
    | none => bits

def getPermissionIds (permissions : String) : PermissionBits :=
  (splitPermissions permissions).foldl addPermission {}

def PermissionBits.requests (bits : PermissionBits) (perm : String) : Bool :=
  match lowPermsMap.lookup perm with
  | some id => bits.lowBits.testBit (id % 64)
  | none => match highPermsMap.lookup perm with
    | some id => bits.highBits.testBit (id % 64)
    | none => false

def isPermission (perm : String) : Bool :=
  (lowPermsMap.lookup perm).isSome || (highPermsMap.lookup perm).isSome

/-- A function node with its `permissions` attribute. -/
structure FunctionNode where
  identifier : String
  permissions : Option String

namespace FunctionNode

def declared (f : FunctionNode) : List String :=
  match f.permissions with
  | none => []
  | some permissions => (splitPermissions permissions).filter (· ≠ "")

end FunctionNode

/-- The members of a module whose stubs call a native body. -/
inductive ModuleMember
  | function (node : FunctionNode)
  /-- `use`: a function that forwards to the callee. -/
  | use (node : FunctionNode) (callee : String)
  | interface (name : String) (extendsList : List String) (methods : List FunctionNode)

/-- The native code behind a stub, with the node that declares it. -/
inductive NativeBody
  | function (node : FunctionNode)
  | method (iname : String) (node : FunctionNode)

def NativeBody.node : NativeBody → FunctionNode
  | .function node | .method _ node => node

/-- A stub that scripts call: the interface it belongs to, if any, what it requests first, and the
body that it reaches. -/
structure CallableStub where
  owner : Option String
  identifier : String
  requests : Option PermissionBits
  body : NativeBody

/-- `GenMemberMethod`; an empty attribute counts as none. -/
def genMemberMethod (identifier : String) (permissions : Option String) (body : NativeBody) : CallableStub where
  owner := none
  identifier := identifier
  requests := match permissions with
    | none => none
    | some permissions => if permissions = "" then none else some (getPermissionIds permissions)
  body := body

/-- `GenInterfaceMemberMethod`, and its counterpart for inherited methods. -/
def genInterfaceMemberMethod (iname : String) (method : String × FunctionNode) : CallableStub where
  owner := some iname
  identifier := method.2.identifier
  requests := none
  body := .method method.1 method.2

structure StubRender where
  functions : List FunctionNode := []
  extendsMap : String → List String := fun _ => []
  methods : String → List (String × FunctionNode) := fun _ => []

namespace StubRender

/-- The methods of an interface, inherited ones first, at most `depth` levels deep. -/
def finalMethods (r : StubRender) (depth : ℕ) (iname : String) : Option (List (String × FunctionNode)) :=
  Inheritance.collect r.extendsMap (fun k => some (r.methods k)) (· ++ ·) [] depth iname

def cacheInterface (r : StubRender) (iname : String) (extendsList : List String)
    (methods : List FunctionNode) : StubRender :=
  { r with
    extendsMap := Function.update r.extendsMap iname extendsList
    methods := Function.update r.methods iname (methods.map (fun f => (iname,f))) }

end StubRender

/-- One member of the module. A `use` reaches the function that it names, which has to be generated
before; the attributes of a `use` are not part of the function node inside it. -/
def genModuleMember (depth : ℕ) (r : StubRender) : ModuleMember → Option (StubRender × List CallableStub)
  | .function node =>
    some ({ r with functions := r.functions ++ [node] },
      [genMemberMethod node.identifier node.permissions (.function node)])
  | .use node callee => do
    let f ← r.functions.find? (fun f => f.identifier = callee)
    return (r,[genMemberMethod node.identifier none (.function f)])
  | .interface name extendsList methods => do
    let r := r.cacheInterface name extendsList methods
    let final ← r.finalMethods depth name
    return (r,final.map (genInterfaceMemberMethod name))

def genModuleMembers (depth : ℕ) : List ModuleMember → StubRender → Option (List CallableStub)
  | [], _ => some []
  | m :: members, r => do
    let (r,stubs) ← genModuleMember depth r m
    let rest ← genModuleMembers depth members r
    return stubs ++ rest

def genModule (depth : ℕ) (members : List ModuleMember) : Option (List CallableStub) :=
  genModuleMembers depth members {}

def PermissionBits.Exactly (bits : PermissionBits) (declared : List String) : Prop :=
  ∀ perm, bits.requests perm = true ↔ perm ∈ declared

def RequestsDeclared (stubs : List CallableStub) : Prop :=
  ∀ stub ∈ stubs, stub.body.node.declared ≠ [] →
    ∃ bits, stub.requests = some bits ∧ bits.Exactly stub.body.node.declared

def moduleFunctions (members : List ModuleMember) : List FunctionNode :=
  members.filterMap (fun m => match m with
    | .function node => some node
    | _ => none)

/-- Functions declare permissions that the generator knows; methods of interfaces declare none, and
no alias forwards to a function that declares some. -/
structure Requestable (members : List ModuleMember) : Prop where
  functions : ∀ f, .function f ∈ members → ∀ perm ∈ f.declared, isPermission perm = true
  methods : ∀ name extendsList methods, .interface name extendsList methods ∈ members → ∀ f ∈ methods, f.declared = []
  aliases : ∀ node callee, .use node callee ∈ members → ∀ f, .function f ∈ members →
    f.identifier = callee → f.declared = []

section Bits

theorem testBit_markPermission (bits permId i : ℕ) :
    (markPermission bits permId).testBit i = (bits.testBit i || decide (permId % 64 = i)) := by
  rw [markPermission,Nat.testBit_or,Nat.one_shiftLeft,Nat.testBit_two_pow]

theorem lookup_mem {l : List (String × ℕ)} {perm : String} {id : ℕ}
    (h : l.lookup perm = some id) : (perm,id) ∈ l := by
  obtain ⟨l₁,l₂,rfl,-⟩ := List.lookup_eq_some_iff.mp h
  simp

theorem low_injective : ∀ e ∈ lowPermsMap, ∀ e' ∈ lowPermsMap, e.2 % 64 = e'.2 % 64 → e.1 = e'.1 := by
  decide

theorem high_injective : ∀ e ∈ highPermsMap, ∀ e' ∈ highPermsMap, e.2 % 64 = e'.2 % 64 → e.1 = e'.1 := by
  decide

theorem requests_addPermission (bits : PermissionBits) (added perm : String) :
    (addPermission bits added).requests perm =
      (bits.requests perm || (isPermission perm && decide (added = perm))) := by
  have hbit : ∀ {l : List (String × ℕ)} {id id' : ℕ},
      (∀ e ∈ l, ∀ e' ∈ l, e.2 % 64 = e'.2 % 64 → e.1 = e'.1) → l.lookup added = some id →
      l.lookup perm = some id' → decide (id % 64 = id' % 64) = decide (added = perm) := by
    intro l id id' hinj hid hid'
    by_cases heq : added = perm
    · subst heq
      rw [hid] at hid'
      simp [Option.some.inj hid']
    · have hne : id % 64 ≠ id' % 64 :=
        fun h => heq (hinj _ (lookup_mem hid) _ (lookup_mem hid') h)
      simp [heq,hne]
  have hdifferent : ∀ {l : List (String × ℕ)} {id : ℕ}, l.lookup added = none →
      l.lookup perm = some id → added ≠ perm := by
    rintro l id hnone hsome rfl
    rw [hnone] at hsome
    cases hsome
  unfold addPermission PermissionBits.requests isPermission
  cases hlow : lowPermsMap.lookup added with
  | some id =>
    cases hlow' : lowPermsMap.lookup perm with
    | some id' => simp [testBit_markPermission,hbit low_injective hlow hlow']
    | none =>
      have hne : added ≠ perm := fun h => by rw [h,hlow'] at hlow; cases hlow
      simp [hne]
  | none =>
    cases hhigh : highPermsMap.lookup added with
    | some id =>
      cases hlow' : lowPermsMap.lookup perm with
      | some id' => simp [hdifferent hlow hlow']
      | none =>
        cases hhigh' : highPermsMap.lookup perm with
        | some id' => simp [testBit_markPermission,hbit high_injective hhigh hhigh']
        | none => simp
    | none =>
      cases hlow' : lowPermsMap.lookup perm with
      | some id' => simp [hdifferent hlow hlow']
      | none =>
        cases hhigh' : highPermsMap.lookup perm with
        | some id' => simp [hdifferent hhigh hhigh']
        | none => simp

theorem requests_foldl (perms : List String) (bits : PermissionBits) (perm : String) :
    (perms.foldl addPermission bits).requests perm =
      (bits.requests perm || (isPermission perm && decide (perm ∈ perms))) := by
  induction perms generalizing bits with
  | nil => simp
  | cons added perms ih =>
    rw [List.foldl_cons,ih,requests_addPermission,Bool.or_assoc,← Bool.and_or_distrib_left]
    congr 2
    by_cases h : added = perm
    · simp [h]
    · simp [h,Ne.symm h]

theorem requests_empty (perm : String) : ({} : PermissionBits).requests perm = false := by
  unfold PermissionBits.requests
  cases lowPermsMap.lookup perm <;> cases highPermsMap.lookup perm <;> simp

theorem requests_getPermissionIds (permissions perm : String) : (getPermissionIds permissions).requests perm = true ↔
      isPermission perm = true ∧ perm ∈ splitPermissions permissions := by
  rw [getPermissionIds,requests_foldl,requests_empty]
  simp

theorem getPermissionIds_exactly_iff (permissions : String) :
    (getPermissionIds permissions).Exactly ((splitPermissions permissions).filter (· ≠ "")) ↔
      ∀ perm ∈ (splitPermissions permissions).filter (· ≠ ""), isPermission perm = true := by
  constructor
  · intro h perm hperm
    exact ((requests_getPermissionIds permissions perm).mp ((h perm).mpr hperm)).1
  · intro h perm
    rw [requests_getPermissionIds]
    constructor
    · rintro ⟨hknown,hmem⟩
      refine List.mem_filter.mpr ⟨hmem,?_⟩
      have hne : perm ≠ "" := by
        rintro rfl
        revert hknown
        decide
      simpa using hne
    · intro hmem
      exact ⟨h perm hmem,(List.mem_filter.mp hmem).1⟩

end Bits

section Stubs

variable {depth : ℕ} {r r' : StubRender} {all members : List ModuleMember} {m : ModuleMember}
  {stubs : List CallableStub}

structure CachedFrom (r : StubRender) (all : List ModuleMember) : Prop where
  functions : ∀ f ∈ r.functions, .function f ∈ all
  methods : ∀ k, ∀ e ∈ r.methods k, ∃ extendsList methods, .interface e.1 extendsList methods ∈ all ∧ e.2 ∈ methods

theorem CachedFrom.finalMethods (h : CachedFrom r all) {iname : String}
    {final : List (String × FunctionNode)} (hfinal : r.finalMethods depth iname = some final) :
    ∀ e ∈ final, ∃ extendsList methods, .interface e.1 extendsList methods ∈ all ∧ e.2 ∈ methods := by
  refine Inheritance.collect_property (P := fun ms => ∀ e ∈ ms, ∃ extendsList methods,
    .interface e.1 extendsList methods ∈ all ∧ e.2 ∈ methods) (by simp) ?_ ?_ hfinal
  · intro ms ms' hms hms' e he
    exact (List.mem_append.mp he).elim (hms e) (hms' e)
  · intro k ms hms
    rw [← Option.some.inj hms]
    exact h.methods k

variable {methods : List FunctionNode} {extendsList : List String}

theorem CachedFrom.cacheInterface (h : CachedFrom r all) {name : String}
    (hin : .interface name extendsList methods ∈ all) :
    CachedFrom (r.cacheInterface name extendsList methods) all where
  functions := h.functions
  methods k e he := by
    unfold StubRender.cacheInterface at he
    dsimp only at he
    by_cases hk : k = name
    · subst hk
      rw [Function.update_self,List.mem_map] at he
      obtain ⟨f,hf,rfl⟩ := he
      exact ⟨extendsList,methods,hin,hf⟩
    · rw [Function.update_of_ne hk] at he
      exact h.methods k e he

theorem mem_moduleFunctions {f : FunctionNode} : f ∈ moduleFunctions members ↔ .function f ∈ members := by
  unfold moduleFunctions
  rw [List.mem_filterMap]
  constructor
  · rintro ⟨m,hm,hmatch⟩
    cases m with
    | function node =>
      obtain rfl := Option.some.inj hmatch
      exact hm
    | _ => cases hmatch
  · exact fun h => ⟨_,h,rfl⟩

theorem genModuleMember_interface {name : String}
    (hgen : genModuleMember depth r (.interface name extendsList methods) = some (r',stubs)) :
    ∃ final, (r.cacheInterface name extendsList methods).finalMethods depth name = some final ∧
      r' = r.cacheInterface name extendsList methods ∧
      stubs = final.map (genInterfaceMemberMethod name) := by
  unfold genModuleMember at hgen
  cases hfinal : (r.cacheInterface name extendsList methods).finalMethods depth name with
  | none => simp [hfinal] at hgen
  | some final =>
    simp only [hfinal,Option.bind_eq_bind,Option.bind_some,Option.pure_def,Option.some.injEq,Prod.mk.injEq] at hgen
    exact ⟨final,rfl,hgen.1.symm,hgen.2.symm⟩

theorem genModuleMember_use (h : CachedFrom r all) {node : FunctionNode} {callee : String}
    (hgen : genModuleMember depth r (.use node callee) = some (r',stubs)) :
    r' = r ∧ ∃ f, .function f ∈ all ∧ f.identifier = callee ∧
      stubs = [genMemberMethod node.identifier none (.function f)] := by
  unfold genModuleMember at hgen
  cases hfind : r.functions.find? (fun f => f.identifier = callee) with
  | none => simp [hfind] at hgen
  | some f =>
    simp only [hfind,Option.bind_eq_bind,Option.bind_some,Option.pure_def,Option.some.injEq,Prod.mk.injEq] at hgen
    exact ⟨hgen.1.symm,f,h.functions f (List.mem_of_find?_eq_some hfind),by simpa using List.find?_some hfind,
      hgen.2.symm⟩

theorem own_mem_finalMethods {name : String} {final : List (String × FunctionNode)} {f : FunctionNode}
    (hfinal : (r.cacheInterface name extendsList methods).finalMethods depth name = some final)
    (hf : f ∈ methods) : (name,f) ∈ final := by
  cases depth with
  | zero => cases hfinal
  | succ depth =>
    obtain ⟨inherited,mine,-,hmine,rfl⟩ := Inheritance.collect_succ_eq_some_iff.mp hfinal
    refine List.mem_append_right _ ?_
    rw [← Option.some.inj hmine]
    unfold StubRender.cacheInterface
    dsimp only
    rw [Function.update_self]
    exact List.mem_map_of_mem hf

theorem CachedFrom.member (h : CachedFrom r all) (hin : m ∈ all)
    (hgen : genModuleMember depth r m = some (r',stubs)) : CachedFrom r' all := by
  cases m with
  | function node =>
    cases hgen
    refine ⟨fun f hf => ?_,h.methods⟩
    rcases List.mem_append.mp hf with hf | hf
    · exact h.functions f hf
    · rwa [List.mem_singleton.mp hf]
  | use node callee =>
    obtain ⟨rfl,-⟩ := genModuleMember_use h hgen
    exact h
  | interface name extendsList methods =>
    obtain ⟨final,-,rfl,-⟩ := genModuleMember_interface hgen
    exact h.cacheInterface hin

/-- The stubs of a module are those of its members, each generated with what was cached before. -/
theorem mem_genModuleMembers (h : CachedFrom r all) (hsub : members ⊆ all)
    (hgen : genModuleMembers depth members r = some stubs) :
    (∀ stub ∈ stubs, ∃ m ∈ members, ∃ r₁ r₂ own, CachedFrom r₁ all ∧
      genModuleMember depth r₁ m = some (r₂,own) ∧ stub ∈ own) ∧
    ∀ m ∈ members, ∃ r₁ r₂ own, CachedFrom r₁ all ∧ genModuleMember depth r₁ m = some (r₂,own) ∧ own ⊆ stubs := by
  induction members generalizing r stubs with
  | nil =>
    cases hgen
    exact ⟨fun _ h => (nomatch h),fun _ h => (nomatch h)⟩
  | cons m members ih =>
    unfold genModuleMembers at hgen
    cases hone : genModuleMember depth r m with
    | none => simp [hone] at hgen
    | some one =>
      obtain ⟨r₁,own⟩ := one
      simp only [hone,Option.bind_eq_bind,Option.bind_some] at hgen
      cases hothers : genModuleMembers depth members r₁ with
      | none => simp [hothers] at hgen
      | some rest =>
        simp only [hothers,Option.bind_some,Option.pure_def,Option.some.injEq] at hgen
        subst hgen
        obtain ⟨hfrom,hcover⟩ := ih (h.member (hsub List.mem_cons_self) hone)
          (fun m' hm' => hsub (List.mem_cons_of_mem _ hm')) hothers
        constructor
        · intro stub hstub
          rcases List.mem_append.mp hstub with hstub | hstub
          · exact ⟨m,List.mem_cons_self,r,r₁,own,h,hone,hstub⟩
          · obtain ⟨m',hm',rest'⟩ := hfrom stub hstub
            exact ⟨m',List.mem_cons_of_mem _ hm',rest'⟩
        · intro m' hm'
          rcases List.mem_cons.mp hm' with rfl | hm'
          · exact ⟨r,r₁,own,h,hone,List.subset_append_left _ _⟩
          · obtain ⟨r₃,r₄,own',hr₃,hgen',hown'⟩ := hcover m' hm'
            exact ⟨r₃,r₄,own',hr₃,hgen',List.subset_append_of_subset_right _ hown'⟩

/-- The stub of a function requests exactly what the function declares, if every name is known. -/
theorem genMemberMethod_requests_iff (f : FunctionNode) (identifier : String) :
    (f.declared ≠ [] → ∃ bits, (genMemberMethod identifier f.permissions (.function f)).requests =
      some bits ∧ bits.Exactly f.declared) ↔ ∀ perm ∈ f.declared, isPermission perm = true := by
  unfold FunctionNode.declared genMemberMethod
  cases f.permissions with
  | none => simp
  | some permissions =>
    dsimp only
    by_cases hempty : permissions = ""
    · have hnone : (splitPermissions "").filter (· ≠ "") = [] := by decide
      subst hempty
      rw [hnone]
      simp
    · rw [if_neg hempty,← getPermissionIds_exactly_iff]
      constructor
      · intro h
        by_cases hnil : (splitPermissions permissions).filter (· ≠ "") = []
        · rw [getPermissionIds_exactly_iff,hnil]
          exact fun _ h => nomatch h
        · obtain ⟨bits,hbits,hexact⟩ := h hnil
          rwa [Option.some.inj hbits]
      · exact fun h _ => ⟨_,rfl,h⟩

/-- Every body with declared permissions is behind an exact request exactly when the module is
requestable. -/
theorem requestsDeclared_iff (hnames : ((moduleFunctions all).map (·.identifier)).Nodup)
    (hgen : genModule depth all = some stubs) : RequestsDeclared stubs ↔ Requestable all := by
  have hempty : CachedFrom {} all := ⟨fun _ h => (nomatch h),fun _ _ h => (nomatch h)⟩
  obtain ⟨hfrom,hcover⟩ := mem_genModuleMembers hempty (List.Subset.refl _) hgen
  constructor
  · intro h
    refine ⟨fun f hf => ?_,fun name extendsList methods hin f hf => ?_,
      fun node callee hin f hf hcallee => ?_⟩
    · obtain ⟨r₁,r₂,own,-,hone,hown⟩ := hcover _ hf
      cases hone
      exact (genMemberMethod_requests_iff f f.identifier).mp (h _ (hown List.mem_cons_self))
    · obtain ⟨r₁,r₂,own,-,hone,hown⟩ := hcover _ hin
      by_contra hdeclared
      have hmem : genInterfaceMemberMethod name (name,f) ∈ own := by
        obtain ⟨final,hfinal,-,rfl⟩ := genModuleMember_interface hone
        exact List.mem_map_of_mem (own_mem_finalMethods hfinal hf)
      obtain ⟨bits,hbits,-⟩ := h _ (hown hmem) hdeclared
      cases hbits
    · obtain ⟨r₁,r₂,own,hr₁,hone,hown⟩ := hcover _ hin
      obtain ⟨-,f',hf',hcallee',rfl⟩ := genModuleMember_use hr₁ hone
      have hsame : f' = f := List.inj_on_of_nodup_map hnames (mem_moduleFunctions.mpr hf')
        (mem_moduleFunctions.mpr hf) (hcallee'.trans hcallee.symm)
      subst hsame
      by_contra hdeclared
      obtain ⟨bits,hbits,-⟩ := h _ (hown List.mem_cons_self) hdeclared
      cases hbits
  · intro h stub hstub hdeclared
    obtain ⟨m,hm,r₁,r₂,own,hr₁,hone,hin⟩ := hfrom stub hstub
    cases m with
    | function f =>
      cases hone
      rw [List.mem_singleton.mp hin] at hdeclared ⊢
      exact (genMemberMethod_requests_iff f f.identifier).mpr (h.functions f hm) hdeclared
    | use node callee =>
      obtain ⟨-,f,hf,hcallee,rfl⟩ := genModuleMember_use hr₁ hone
      rw [List.mem_singleton.mp hin] at hdeclared
      exact absurd (h.aliases node callee hm f hf hcallee) hdeclared
    | interface name extendsList methods =>
      obtain ⟨final,hfinal,rfl,rfl⟩ := genModuleMember_interface hone
      obtain ⟨e,he,rfl⟩ := List.mem_map.mp hin
      obtain ⟨extendsList',methods',hin',he'⟩ :=
        (hr₁.cacheInterface hm).finalMethods hfinal e he
      exact absurd (h.methods e.1 extendsList' methods' hin' e.2 he') hdeclared

end Stubs

end FeatureRuntime.Jidl
