import FeatureRuntime.Inheritance
import Mathlib.Logic.Function.Basic

/-! The JIDL generator on interfaces: the caches that the templates fill, the stubs with the index
of their function in the vtable, the events with their ids, and the vtable struct of the header. -/
namespace FeatureRuntime.Jidl

/-- The `type` of a vtable item: 0, 1 and 2 in the generator. -/
inductive VTableItemType
  | method | getter | setter
  deriving DecidableEq

/-- A member node of an interface, with the C types that are rendered for it. -/
inductive InterfaceMember
  | function (identifier params returnType : String)
  | property (name cppType : String) (readable writeable const : Bool)
  | event (identifier : String)

namespace InterfaceMember

def name : InterfaceMember → String
  | .function identifier _ _ => identifier
  | .property name _ _ _ _ => name
  | .event identifier => identifier

def propertyHasGetter (readable const : Bool) : Bool := readable || const

def propertyHasSetter (writeable const : Bool) : Bool := writeable && !const

end InterfaceMember

structure InterfaceNode where
  name : String
  extendsList : List String
  members : List InterfaceMember

structure VTableItem where
  index : ℕ
  name : String
  params : String
  returnType : String
  type : VTableItemType
  deriving DecidableEq

/-- The `type` of a cached member: `MemberMethod`, `MemberAccessor` or `MemberEvent`. -/
inductive MemberInfoType
  | method
  | accessor (hasGetter hasSetter : Bool)
  | event

/-- An entry of the member cache; `iname` is the interface that declares the member. -/
structure MemberInfo where
  iname : String
  name : String
  type : MemberInfoType

/-- The caches of the renderer that concern interfaces. -/
structure Render where
  interfaceExtends : String → List String := fun _ => []
  vtable : String → Option (List VTableItem) := fun _ => none
  interfaceMembers : String → List MemberInfo := fun _ => []
  interfaceEvents : String → List String := fun _ => []

/-- A method, getter or setter of the interface that declares it. -/
structure VTableSlot where
  origin : String
  name : String
  type : VTableItemType
  deriving DecidableEq

/-- A stub and the index that it passes to `FeatureGetInterfaceMember`. -/
structure MemberStub where
  slot : VTableSlot
  index : ℕ
  deriving DecidableEq

/-- A `MemberEvent` definition. -/
structure EventDef where
  origin : String
  name : String
  id : ℕ
  deriving DecidableEq

namespace Render

variable (r : Render)

/-- `depth` bounds the recursion of the generator's interpreter, here and below. -/
def getFinalVTable (depth : ℕ) (iname : String) : Option (List VTableItem) :=
  Inheritance.collect r.interfaceExtends r.vtable (· ++ ·) [] depth iname

def getFinalInterfaceMembers (depth : ℕ) (iname : String) : Option (List MemberInfo) :=
  Inheritance.collect r.interfaceExtends (fun k => some (r.interfaceMembers k)) (· ++ ·) [] depth
    iname

def getInterfaceFinalEventSize (depth : ℕ) (iname : String) : Option ℕ :=
  Inheritance.collect r.interfaceExtends (fun k => some (r.interfaceEvents k).length) (· + ·) 0
    depth iname

/-- The `index_offset` of an own method or property. -/
def vtableOffset (depth : ℕ) (iname : String) : Option ℕ :=
  Inheritance.inherit r.interfaceExtends (fun k => (r.vtable k).map List.length) (· + ·) 0 depth
    iname

/-- The `index_offset` of an own event. -/
def eventOffset (depth : ℕ) (iname : String) : Option ℕ :=
  Inheritance.inherit r.interfaceExtends (fun k => some (r.interfaceEvents k).length) (· + ·) 0
    depth iname

/-- No interface that `iname` extends has the event, nor has it itself. -/
def checkInterfaceEventId : ℕ → String → String → Option Bool
  | 0, _, _ => none
  | depth + 1, iname, id => do
    let inherited ← (r.interfaceExtends iname).allM (fun extend =>
      checkInterfaceEventId depth extend id)
    return inherited && id ∉ r.interfaceEvents iname

/-- `CacheVTableItem`: the item is looked up again with the index 0 that it starts with. -/
def cacheVTableItem (iname name params returnType : String) (type : VTableItemType) : ℕ × Render :=
  let items := (r.vtable iname).getD []
  let item : VTableItem := ⟨0,name,params,returnType,type⟩
  let index := (items ++ [item]).idxOf item
  (index,{ r with
    vtable := Function.update r.vtable iname (some (items ++ [{ item with index := index }])) })

def cacheInterfaceMember (info : MemberInfo) : Render :=
  { r with
    interfaceMembers := Function.update r.interfaceMembers info.iname
      (r.interfaceMembers info.iname ++ [info]) }

/-- `CacheInterfaceEventId`; an event that is there already is an error. -/
def cacheInterfaceEventId (iname id : String) : Option (ℕ × Render) :=
  if id ∈ r.interfaceEvents iname then none
  else some ((r.interfaceEvents iname).length + 1,{ r with
    interfaceEvents := Function.update r.interfaceEvents iname (r.interfaceEvents iname ++ [id]) })

/-- The loop over `CacheInterfaceExtend`. -/
def cacheInterfaceExtends (iname : String) (extendsList : List String) : Render :=
  { r with
    interfaceExtends := Function.update r.interfaceExtends iname
      (r.interfaceExtends iname ++ extendsList) }

end Render

structure MemberGlue where
  stubs : List MemberStub
  events : List EventDef

structure InterfaceGlue where
  node : InterfaceNode
  stubs : List MemberStub
  events : List EventDef

/-- `GenParentInterFaceMemberDefs` with its two counters. -/
def genParentMemberDefs : List MemberInfo → ℕ → ℕ → MemberGlue
  | [], _, _ => ⟨[],[]⟩
  | m :: members, vtableIdx, eventIdx =>
    match m.type with
    | .method =>
      let rest := genParentMemberDefs members (vtableIdx + 1) eventIdx
      ⟨⟨⟨m.iname,m.name,.method⟩,vtableIdx⟩ :: rest.stubs,rest.events⟩
    | .accessor true true =>
      let rest := genParentMemberDefs members (vtableIdx + 1 + 1) eventIdx
      ⟨⟨⟨m.iname,m.name,.getter⟩,vtableIdx⟩ :: ⟨⟨m.iname,m.name,.setter⟩,vtableIdx + 1⟩ :: rest.stubs,rest.events⟩
    | .accessor true false =>
      let rest := genParentMemberDefs members (vtableIdx + 1) eventIdx
      ⟨⟨⟨m.iname,m.name,.getter⟩,vtableIdx⟩ :: rest.stubs,rest.events⟩
    | .accessor false true =>
      let rest := genParentMemberDefs members (vtableIdx + 1) eventIdx
      ⟨⟨⟨m.iname,m.name,.setter⟩,vtableIdx⟩ :: rest.stubs,rest.events⟩
    | .accessor false false => genParentMemberDefs members vtableIdx eventIdx
    | .event =>
      let rest := genParentMemberDefs members vtableIdx (eventIdx + 1)
      ⟨rest.stubs,⟨m.iname,m.name,eventIdx + 1⟩ :: rest.events⟩

section Generate

variable (depth : ℕ) (iname : String)

def genInterfaceFunction (identifier params returnType : String) (r : Render) : Option (Render × MemberGlue) := do
  let offset ← r.vtableOffset depth iname
  let (index,r) := r.cacheVTableItem iname identifier params returnType .method
  return (r.cacheInterfaceMember ⟨iname,identifier,.method⟩,⟨[⟨⟨iname,identifier,.method⟩,index + offset⟩],[]⟩)

def genAccessor (has : Bool) (name params returnType : String) (type : VTableItemType)
    (offset : ℕ) (r : Render) : Render × List MemberStub :=
  if has then
    let (index,r) := r.cacheVTableItem iname name params returnType type
    (r,[⟨⟨iname,name,type⟩,index + offset⟩])
  else (r,[])

def genInterfaceProperty (name cppType : String) (readable writeable const : Bool) (r : Render) :
    Option (Render × MemberGlue) := do
  let hasGetter := InterfaceMember.propertyHasGetter readable const
  let hasSetter := InterfaceMember.propertyHasSetter writeable const
  let offset ← r.vtableOffset depth iname
  let (r,getter) := genAccessor iname hasGetter name "" cppType .getter offset r
  let (r,setter) := genAccessor iname hasSetter name (cppType ++ " " ++ name) "void" .setter offset r
  return (r.cacheInterfaceMember ⟨iname,name,.accessor hasGetter hasSetter⟩,⟨getter ++ setter,[]⟩)

def genInterfaceEvent (id : String) (r : Render) : Option (Render × MemberGlue) := do
  let success ← r.checkInterfaceEventId depth iname id
  if success then
    let offset ← r.eventOffset depth iname
    let (eventIdx,r) ← r.cacheInterfaceEventId iname id
    return (r.cacheInterfaceMember ⟨iname,id,.event⟩,⟨[],[⟨iname,id,eventIdx + offset⟩]⟩)
  else return (r,⟨[],[]⟩)

def genInterfaceMember (r : Render) : InterfaceMember → Option (Render × MemberGlue)
  | .function identifier params returnType =>
    genInterfaceFunction depth iname identifier params returnType r
  | .property name cppType readable writeable const =>
    genInterfaceProperty depth iname name cppType readable writeable const r
  | .event identifier => genInterfaceEvent depth iname identifier r

/-- The loop of `GenInterface` over the own members. -/
def genInterfaceMembers : List InterfaceMember → Render → Option (Render × MemberGlue)
  | [], r => some (r,⟨[],[]⟩)
  | m :: members, r => do
    let (r,glue) ← genInterfaceMember depth iname r m
    let (r,rest) ← genInterfaceMembers members r
    return (r,⟨glue.stubs ++ rest.stubs,glue.events ++ rest.events⟩)

end Generate

def genInterface (depth : ℕ) (inode : InterfaceNode) (r : Render) : Option (Render × InterfaceGlue) := do
  let r := r.cacheInterfaceExtends inode.name inode.extendsList
  let parentMembers ← r.getFinalInterfaceMembers depth inode.name
  let parents := genParentMemberDefs parentMembers 0 0
  let (r,own) ← genInterfaceMembers depth inode.name inode.members r
  return (r,⟨inode,parents.stubs ++ own.stubs,parents.events ++ own.events⟩)

def genInterfaces (depth : ℕ) : List InterfaceNode → Render → Option (Render × List InterfaceGlue)
  | [], r => some (r,[])
  | inode :: inodes, r => do
    let (r,glue) ← genInterface depth inode r
    let (r,rest) ← genInterfaces depth inodes r
    return (r,glue :: rest)

def genInterfaceVTableDefines (depth : ℕ) (r : Render) (inode : InterfaceNode) : Option (String × List VTableItem) :=
  (r.getFinalVTable depth inode.name).map (fun vtable => (inode.name,vtable))

/-- The generated source and header, with the caches at the end. -/
structure Generated where
  render : Render
  glues : List InterfaceGlue
  /-- The vtable structs, each with the name of its interface. -/
  vtableStructs : List (String × List VTableItem)

def generate (depth : ℕ) (inodes : List InterfaceNode) : Option Generated := do
  let (r,glues) ← genInterfaces depth inodes {}
  let vtableStructs ← inodes.mapM (genInterfaceVTableDefines depth r)
  return ⟨r,glues,vtableStructs⟩

end FeatureRuntime.Jidl
