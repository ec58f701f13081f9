import FeatureRuntime.JidlTypes

/-! The nodes that the JIDL parser builds, before any name is resolved. -/
namespace FeatureRuntime.JidlParser.Ast

open Jidl (BaseName)

/-- The exceptions that building a node can raise. -/
inductive PyError
  | attributeError | typeError
  deriving DecidableEq, Repr

/-- The value of a literal: the text of its token, or a number that an enum gives. -/
inductive Scalar
  | text (s : String)
  | number (n : ℤ)
  deriving DecidableEq, Repr

structure LiteralValue where
  value : Scalar
  /-- The name of its primary type. -/
  type : BaseName
  deriving DecidableEq, Repr

/-- A type as it is written. `GetPrimaryType` has no node for `jsvalue` and `jscontext`. -/
inductive TypeSyntax
  | primary (name : Option BaseName)
  | primaryArray (base : Option BaseName)
  | idArray (name : String)
  | typedArray (base : BaseName)
  | uniqueBuffer
  | message (name : String)
  | id (name : String)
  | promise (resolveType : TypeSyntax)
  deriving DecidableEq, Repr

/-- The value of a meta attribute, or an element of such a value. -/
inductive MetaValue
  | literal (value : LiteralValue)
  | array (elements : List MetaValue)

structure MetaAttribute where
  name : String
  value : MetaValue

/-- A node with the `meta_attributes` of its class. -/
structure Attributed (α : Type) where
  node : α
  metaAttributes : List MetaAttribute := []

def Attributed.setMetaAttributes {α : Type} (n : Attributed α) (metaAttrs : List MetaAttribute) :
    Attributed α := { n with metaAttributes := metaAttrs }

/-- A `ListNode` is its `content`. -/
abbrev ListNode (α : Type) := List α

def ListNode.append {α : Type} (l : ListNode α) (n : α) : ListNode α := List.append l [n]

abbrev BlockList := ListNode

abbrev ImportList := ListNode

structure ParamDefine where
  type : TypeSyntax
  name : String
  default : Option LiteralValue := none

structure EllipseType where
  primary : Option BaseName := none

/-- An entry of a `ParamList`. -/
inductive ParamEntry
  | define (param : Attributed ParamDefine)
  | ellipse (e : EllipseType)

abbrev ParamList := ListNode ParamEntry

/-- `ParamList.__init__`, which has a default for its node. -/
def ParamList.init (node : Option ParamEntry) : ParamList :=
  match node with
  | none => []
  | some n => ListNode.append [] n

/-- An entry of a `ParamCallList`. -/
inductive ParamCall
  | id (name : String)
  | literal (value : LiteralValue)
  | ellipse (e : EllipseType)

abbrev ParamCallList := ListNode ParamCall

/-- `ParamCallList.__init__` on the arguments that a call passes: it has no default. -/
def ParamCallList.init (args : List ParamCall) : Except PyError ParamCallList :=
  match args with
  | [node] => .ok (ListNode.append [] node)
  | _ => .error .typeError

structure FunctionDefine where
  name : String
  params : ParamList
  returnType : TypeSyntax := .primary (some .void)
  asyncInfo : String := "self"
  isPrivate : Bool := false

structure EventDefine where
  name : String
  params : ParamList
  forceAsync : Bool := false

structure PropertyDefine where
  name : String
  type : TypeSyntax
  readable : Bool := true
  writeable : Bool := true
  isConst : Bool := false

structure FunctionCall where
  name : String
  params : ParamCallList

structure UseDefine where
  baseFunction : FunctionDefine
  functionCall : FunctionCall

/-- A `ConstDefine` or a `ConstObjectDefine`. -/
inductive ConstNode
  | const (name : String) (value : LiteralValue)
  | object (name : String) (content : List ConstNode)

/-- A `ConstDefine` of an enum. -/
structure EnumMember where
  name : String
  value : Option LiteralValue

structure EnumDefine where
  name : String
  members : List (Attributed EnumMember)

/-- The loop of `EnumDefine.__init__`. After an explicit integer it reads the value of the enum, which
has none. -/
def enumLoop : ℤ → List (Attributed EnumMember) → Except PyError (List (Attributed EnumMember))
  | _,[] => .ok []
  | idx,m :: members =>
    match m.node.value with
    | some value =>
      if value.type = .int then .error .attributeError
      else do
        let members ← enumLoop idx members
        return m :: members
    | none => do
      let v : LiteralValue := { value := .number (idx + 1), type := .int }
      let members ← enumLoop (idx + 1) members
      return { m with node := { m.node with value := some v } } :: members

def EnumDefine.init (name : String) (blockList : List (Attributed EnumMember)) :
    Except PyError EnumDefine := do
  let members ← enumLoop 0 blockList
  return { name := name, members := members }

inductive BaseDefine
  | function (d : FunctionDefine)
  | property (d : PropertyDefine)
  | use (d : UseDefine)
  | event (d : EventDefine)
  | const (d : ConstNode)
  | enum (d : EnumDefine)

/-- An entry of the body of a class; a `ConstructorDefine` is its parameters. -/
inductive ClassBlock
  | base (d : Attributed BaseDefine)
  | constructor (params : Attributed ParamList)

/-- `StructMemberBase`, `StructMemberStruct` and `StructMemberCallback`. -/
inductive StructMember
  | base (type : TypeSyntax) (name : String) (default : Option LiteralValue)
  | struct (type : String) (name : String) (defaultNull : Option LiteralValue)
  | callback (type : String) (name : String) (defaultNull : Option LiteralValue)

/-- `InterfaceDefine`, and `ClassDefine` and `StructDefine`, which extend nothing. -/
structure InterfaceDefine (α : Type) where
  name : String
  extendsList : List String := []
  content : BlockList α

structure CallbackDefine where
  name : String
  params : ParamList

structure UserTypeDefine where
  name : String
  target : Option BaseName

inductive ModuleBlock
  | base (d : Attributed BaseDefine)
  | callback (d : Attributed CallbackDefine)
  | classDefine (d : Attributed (InterfaceDefine ClassBlock))
  | interface (d : Attributed (InterfaceDefine (Attributed BaseDefine)))
  | struct (d : Attributed (InterfaceDefine (Attributed StructMember)))
  | userType (d : Attributed UserTypeDefine)

structure MessageDeclare where
  pbName : String
  messageName : String
  deriving DecidableEq, Repr

/-- An `ImportDefine` or an `ImportMessage`. -/
inductive ImportBlock
  | importDefine (moduleName : String) (version : String)
  | importMessage (messageList : List MessageDeclare) (pbPath : String)

structure ModuleDefine where
  name : String
  version : String
  imports : Option (ImportList ImportBlock)
  content : Option (BlockList ModuleBlock)

end FeatureRuntime.JidlParser.Ast
