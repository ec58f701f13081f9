import FeatureRuntime.JidlAst
import FeatureRuntime.LeftRecursion

/-! The derivations of the JIDL grammar, and the semantic actions that the parser runs on them. Types,
literals and names are given as their nodes: no list is in them. -/
namespace FeatureRuntime.JidlParser

open LeftRecursion
open Jidl (BaseName)
open Ast (PyError LiteralValue TypeSyntax EllipseType Attributed ListNode MessageDeclare)

abbrev Parse := Except PyError

/-- `append` on what an action has in `p[0]`, which is `None` until the action stores something there. -/
def pyAppend {α : Type} (p0 : Option (List α)) (x : α) : Parse (List α) :=
  match p0 with
  | some l => .ok (l ++ [x])
  | none => .error .attributeError

/-! The actions of the list productions. -/

/-- A list of Python's own: `p[0] = [p[1]]`, or `p[0] = p[1]` and `p[0].append(p[3])`. -/
def listActions (α : Type) : ListActions PyError α (List α) where
  one p1 := .ok [p1]
  more p1 p3 := pyAppend (some p1) p3

/-- A `BlockList` that each element is appended to. -/
def blockActions (α : Type) : ListActions PyError α (List α) where
  one p1 := .ok (ListNode.append [] p1)
  more p1 p2 := .ok (ListNode.append p1 p2)

/-- A `BlockList` that may stay empty. -/
def bodyActions (α : Type) : StarActions PyError α (List α) where
  nil := .ok []
  more p1 p2 := .ok (ListNode.append p1 p2)

/-- A `ParamList` of its first parameter, and `ParamList.Append`. -/
def paramActions : ListActions PyError Ast.ParamEntry (List Ast.ParamEntry) where
  one p1 := .ok (Ast.ParamList.init (some p1))
  more p1 p3 := .ok (ListNode.append p1 p3)

def pMetaAttributeList := listActions Ast.MetaAttribute

def pArrayLiteralElements := listActions Ast.MetaValue

def pInterfaceExtendsList := listActions String

/-- `p_message_list`: the second alternative appends to `p[0]` without storing anything in it. -/
def pMessageList : ListActions PyError MessageDeclare (List MessageDeclare) where
  one p1 := .ok [p1]
  more _ p3 := pyAppend none p3

def pModuleBlocks := blockActions Ast.ModuleBlock

def pStructBody := blockActions (Attributed Ast.StructMember)

def pConstBody := blockActions Ast.ConstNode

def pClassBodyDefine := bodyActions Ast.ClassBlock

def pInterfaceBody := bodyActions (Attributed Ast.BaseDefine)

/-- `p_import_list`, with `ImportList.Append`. -/
def pImportList := blockActions Ast.ImportBlock

def pParamList := paramActions

/-- `p_param_list_may_defualts`. -/
def pParamListMayDefaults := paramActions

def pParamCallList : ListActions PyError Ast.ParamCall (List Ast.ParamCall) where
  one p1 := Ast.ParamCallList.init [p1]
  more p1 p3 := .ok (ListNode.append p1 p3)

/-- The alternatives of an argument list: it may be empty and may end with an ellipsis. -/
inductive ListArgs (L E : Type)
  | empty
  | ellipsis (e : E)
  | list (l : L)
  | listEllipsis (l : L) (e : E)

def ListArgs.values {L L' E E' : Type} (f : L → Parse L') (g : E → E') : ListArgs L E → Parse (ListArgs L' E')
  | .empty => .ok .empty
  | .ellipsis e => .ok (.ellipsis (g e))
  | .list l => do
    let p1 ← f l
    return .list p1
  | .listEllipsis l e => do
    let p1 ← f l
    return .listEllipsis p1 (g e)

def paramArgsAction : ListArgs Ast.ParamList EllipseType → Parse Ast.ParamList
  | .empty => .ok (Ast.ParamList.init none)
  | .ellipsis p1 => .ok (Ast.ParamList.init (some (.ellipse p1)))
  | .list p1 => .ok p1
  | .listEllipsis p1 p3 => .ok (ListNode.append p1 (.ellipse p3))

def pParamListArgs := paramArgsAction

/-- `p_param_list_may_defualts_args`. -/
def pParamListMayDefaultsArgs := paramArgsAction

/-- `p_param_call_list_args`: the empty alternative passes no node to `ParamCallList`. -/
def pParamCallListArgs : ListArgs Ast.ParamCallList Unit → Parse Ast.ParamCallList
  | .empty => Ast.ParamCallList.init []
  | .ellipsis _ => Ast.ParamCallList.init [.ellipse {}]
  | .list p1 => .ok p1
  | .listEllipsis p1 _ => .ok (ListNode.append p1 (.ellipse {}))

/-! Meta attributes. -/

/-- `array_literal_element`; an `array_literal` is its elements. -/
inductive ArrayLiteralElement
  | literal (value : LiteralValue)
  | array (elements : LeftList ArrayLiteralElement)

mutual

/-- `p_array_literal_element`, `p_array_literal`. -/
def ArrayLiteralElement.eval : ArrayLiteralElement → Parse Ast.MetaValue
  | .literal value => .ok (.literal value)
  | .array elements => do
    let p2 ← ArrayLiteralElement.evalElements elements
    return .array p2

def ArrayLiteralElement.evalElements : LeftList ArrayLiteralElement → Parse (List Ast.MetaValue)
  | .one element => do
    let p1 ← element.eval
    pArrayLiteralElements.one p1
  | .more elements element => do
    let p1 ← ArrayLiteralElement.evalElements elements
    let p3 ← element.eval
    pArrayLiteralElements.more p1 p3

end

/-- `meta_attribute`: the value is a literal or an array literal. -/
structure MetaAttribute where
  metaId : String
  value : ArrayLiteralElement

/-- `p_meta_attribute`. -/
def MetaAttribute.eval (d : MetaAttribute) : Parse Ast.MetaAttribute := do
  let p3 ← d.value.eval
  return { name := d.metaId, value := p3 }

/-- A definition that `meta_attributes_define` may stand in front of. -/
inductive WithMeta (α : Type)
  | plain (define : α)
  | withMeta (metaAttributes : LeftList MetaAttribute) (define : α)

def WithMeta.define {α : Type} : WithMeta α → α
  | .plain d | .withMeta _ d => d

/-- The node of the definition, and `SetMetaAttributes`. -/
def WithMeta.eval {α β : Type} (f : α → Parse β) : WithMeta α → Parse (Attributed β)
  | .plain d => do
    let n ← f d
    return { node := n }
  | .withMeta metaAttributes d => do
    let p1 ← metaAttributes.run pMetaAttributeList MetaAttribute.eval
    let n ← f d
    return ({ node := n } : Attributed β).setMetaAttributes p1

/-! Parameters. -/

/-- `value_type param_id`. -/
structure ParamSymbols where
  valueType : TypeSyntax
  paramId : String

abbrev ParamDefine := WithMeta ParamSymbols

/-- `p_param_define`. -/
def ParamDefine.eval (d : ParamDefine) : Parse (Attributed Ast.ParamDefine) :=
  WithMeta.eval (fun s => .ok { type := s.valueType, name := s.paramId }) d

inductive ParamEllipse
  | ellipsis
  | primary (primaryType : Option BaseName)

/-- `p_ellipse`. -/
def ParamEllipse.eval : ParamEllipse → EllipseType
  | .ellipsis => {}
  | .primary p1 => { primary := p1 }

/-- `param_may_defualt`. -/
inductive ParamMayDefault
  | plain (param : ParamDefine)
  | withDefault (param : ParamDefine) (value : LiteralValue)

/-- `p_param_may_default`. -/
def ParamMayDefault.eval : ParamMayDefault → Parse (Attributed Ast.ParamDefine)
  | .plain param => param.eval
  | .withDefault param value => do
    let p1 ← param.eval
    return { p1 with node := { p1.node with default := some value } }

abbrev ParamListArgs := ListArgs (LeftList ParamDefine) ParamEllipse

/-- `param_list_may_defualts_args`. -/
abbrev ParamListMayDefaultsArgs := ListArgs (LeftList ParamMayDefault) ParamEllipse

def ParamListArgs.eval (d : ParamListArgs) : Parse Ast.ParamList := do
  let p ← ListArgs.values (LeftList.run pParamList (fun e => Ast.ParamEntry.define <$> e.eval))
    ParamEllipse.eval d
  pParamListArgs p

def ParamListMayDefaultsArgs.eval (d : ParamListMayDefaultsArgs) : Parse Ast.ParamList := do
  let p ← ListArgs.values
    (LeftList.run pParamListMayDefaults (fun e => Ast.ParamEntry.define <$> e.eval)) ParamEllipse.eval d
  pParamListMayDefaultsArgs p

/-! Functions, events and properties. -/

structure BaseFunctionDefine where
  id : String
  params : ParamListMayDefaultsArgs

/-- `p_base_function_define`. -/
def BaseFunctionDefine.eval (d : BaseFunctionDefine) : Parse Ast.FunctionDefine := do
  let p3 ← d.params.eval
  return { name := d.id, params := p3 }

/-- `base_function_define_return`; `VOID` and a `promise_type` are types. -/
inductive BaseFunctionDefineReturn
  | plain (returnType : TypeSyntax) (define : BaseFunctionDefine)
  | async (asyncDefine : String) (returnType : TypeSyntax) (define : BaseFunctionDefine)

/-- `p_base_function_define_return`. -/
def BaseFunctionDefineReturn.eval : BaseFunctionDefineReturn → Parse Ast.FunctionDefine
  | .plain p1 define => do
    let p2 ← define.eval
    return { p2 with returnType := p1 }
  | .async p1 p2 define => do
    let p3 ← define.eval
    return { p3 with returnType := p2, asyncInfo := p1 }

inductive FunctionDefine
  | plain (define : BaseFunctionDefineReturn)
  | hidden (define : BaseFunctionDefineReturn)

/-- `p_function_define`: `SetPrivate`. -/
def FunctionDefine.eval : FunctionDefine → Parse Ast.FunctionDefine
  | .plain define => do
    let function ← define.eval
    return { function with isPrivate := false }
  | .hidden define => do
    let function ← define.eval
    return { function with isPrivate := true }

inductive EventDefine
  | plain (id : String) (params : ParamListArgs)
  | async (id : String) (params : ParamListArgs)

/-- `p_event_define`. -/
def EventDefine.eval : EventDefine → Parse Ast.EventDefine
  | .plain p2 params => do
    let p4 ← params.eval
    return { name := p2, params := p4 }
  | .async p3 params => do
    let p5 ← params.eval
    return { name := p3, params := p5, forceAsync := true }

inductive PropertyDefine
  | plain (valueType : TypeSyntax) (typeName : String)
  | readonly (valueType : TypeSyntax) (typeName : String)
  | writeonly (valueType : TypeSyntax) (typeName : String)
  | const (valueType : TypeSyntax) (typeName : String)

/-- `p_property_define`. -/
def PropertyDefine.eval : PropertyDefine → Ast.PropertyDefine
  | .plain type name => { name := name, type := type }
  | .readonly type name => { name := name, type := type, readable := true, writeable := false }
  | .writeonly type name => { name := name, type := type, readable := false, writeable := true }
  | .const type name => { name := name, type := type, isConst := true }

inductive ParamCall
  | id (name : String)
  | literal (value : LiteralValue)

/-- `p_param_call`. -/
def ParamCall.eval : ParamCall → Ast.ParamCall
  | .id name => .id name
  | .literal value => .literal value

abbrev ParamCallListArgs := ListArgs (LeftList ParamCall) Unit

def ParamCallListArgs.eval (d : ParamCallListArgs) : Parse Ast.ParamCallList := do
  let p ← ListArgs.values (LeftList.run pParamCallList (fun e => .ok e.eval)) id d
  pParamCallListArgs p

structure FunctionCall where
  id : String
  params : ParamCallListArgs

/-- `p_function_call`. -/
def FunctionCall.eval (d : FunctionCall) : Parse Ast.FunctionCall := do
  let p3 ← d.params.eval
  return { name := d.id, params := p3 }

structure UseDefine where
  baseFunction : BaseFunctionDefine
  functionCall : FunctionCall

/-- `p_use_define`. -/
def UseDefine.eval (d : UseDefine) : Parse Ast.UseDefine := do
  let p2 ← d.baseFunction.eval
  let p4 ← d.functionCall.eval
  return { baseFunction := p2, functionCall := p4 }

/-! Constants and enums. -/

/-- `const_block`, and behind its keyword `const_define`. -/
inductive ConstBlock
  | base (id : String) (value : LiteralValue)
  | object (id : String) (body : LeftList ConstBlock)

mutual

/-- `p_const_base`, `p_const_object`. -/
def ConstBlock.eval : ConstBlock → Parse Ast.ConstNode
  | .base id value => .ok (.const id value)
  | .object id body => do
    let p4 ← ConstBlock.evalBody body
    return .object id p4

def ConstBlock.evalBody : LeftList ConstBlock → Parse (List Ast.ConstNode)
  | .one block => do
    let p1 ← block.eval
    pConstBody.one p1
  | .more body block => do
    let p1 ← ConstBlock.evalBody body
    let p3 ← block.eval
    pConstBody.more p1 p3

end

inductive EnumMember
  | plain (id : String)
  | withValue (id : String) (value : LiteralValue)

/-- `p_enum_member`. -/
def EnumMember.eval : EnumMember → Ast.EnumMember
  | .plain p1 => { name := p1, value := none }
  | .withValue p1 p3 => { name := p1, value := some p3 }

structure EnumMemberMeta where
  metaAttributes : LeftList MetaAttribute
  enumMember : EnumMember

/-- `p_enum_member_meta`. -/
def EnumMemberMeta.eval (d : EnumMemberMeta) : Parse (Attributed Ast.EnumMember) := do
  let p1 ← d.metaAttributes.run pMetaAttributeList MetaAttribute.eval
  return ({ node := d.enumMember.eval } : Attributed Ast.EnumMember).setMetaAttributes p1

/-- `enum_members`: a comma may stand without a member behind it. -/
inductive EnumMembers
  | one (member : EnumMemberMeta)
  | comma (members : EnumMembers)
  | more (members : EnumMembers) (member : EnumMemberMeta)

def EnumMembers.elements : EnumMembers → List EnumMemberMeta
  | .one member => [member]
  | .comma members => members.elements
  | .more members member => members.elements ++ [member]

/-- `p_enum_members`. -/
def EnumMembers.eval : EnumMembers → Parse (List (Attributed Ast.EnumMember))
  | .one member => do
    let p1 ← member.eval
    return [p1]
  | .comma members => members.eval
  | .more members member => do
    let p1 ← members.eval
    let p3 ← member.eval
    pyAppend (some p1) p3

inductive EnumDefine
  | members (id : String) (enumMembers : EnumMembers)
  | empty (id : String)

/-- `p_enum_define`. -/
def EnumDefine.eval : EnumDefine → Parse Ast.EnumDefine
  | .members p2 enumMembers => do
    let p4 ← enumMembers.eval
    Ast.EnumDefine.init p2 p4
  | .empty p2 => Ast.EnumDefine.init p2 []

inductive BaseDefine
  | function (define : FunctionDefine)
  | property (define : PropertyDefine)
  | use (define : UseDefine)
  | event (define : EventDefine)
  | const (define : ConstBlock)
  | enum (define : EnumDefine)

/-- `p_base_define`. -/
def BaseDefine.eval : BaseDefine → Parse Ast.BaseDefine
  | .function define => .function <$> define.eval
  | .property define => .ok (.property define.eval)
  | .use define => .use <$> define.eval
  | .event define => .event <$> define.eval
  | .const define => .const <$> define.eval
  | .enum define => .enum <$> define.eval

abbrev BaseDefineWithMeta := WithMeta BaseDefine

/-- `p_base_define_with_meta`. -/
def BaseDefineWithMeta.eval (d : BaseDefineWithMeta) : Parse (Attributed Ast.BaseDefine) :=
  WithMeta.eval BaseDefine.eval d

/-! The blocks of a module. -/

abbrev ConstructorDefine := WithMeta ParamListMayDefaultsArgs

/-- `p_constructor_define`. -/
def ConstructorDefine.eval (d : ConstructorDefine) : Parse (Attributed Ast.ParamList) :=
  WithMeta.eval ParamListMayDefaultsArgs.eval d

inductive ClassBlockDefine
  | base (define : BaseDefineWithMeta)
  | constructor (define : ConstructorDefine)

/-- `p_class_block_define`. -/
def ClassBlockDefine.eval : ClassBlockDefine → Parse Ast.ClassBlock
  | .base define => .base <$> define.eval
  | .constructor define => .constructor <$> define.eval

/-- `CLASS ID LBRACE class_body RBRACE`. -/
structure ClassSymbols where
  id : String
  body : LeftStar ClassBlockDefine

abbrev ClassDefine := WithMeta ClassSymbols

/-- `p_class_define`. -/
def ClassDefine.eval (d : ClassDefine) : Parse (Attributed (Ast.InterfaceDefine Ast.ClassBlock)) :=
  WithMeta.eval (fun s => do
    let content ← s.body.run pClassBodyDefine ClassBlockDefine.eval
    return { name := s.id, content := content }) d

/-- `CALLBACK type_name LPAREN param_list_args RPAREN`. -/
structure CallbackSymbols where
  typeName : String
  params : ParamListArgs

abbrev CallbackDefine := WithMeta CallbackSymbols

/-- `p_callback_define`. -/
def CallbackDefine.eval (d : CallbackDefine) : Parse (Attributed Ast.CallbackDefine) :=
  WithMeta.eval (fun s => do
    let params ← s.params.eval
    return { name := s.typeName, params := params }) d

/-- `INTERFACE type_name interface_extends LBRACE interface_body RBRACE`. -/
structure InterfaceSymbols where
  typeName : String
  /-- `interface_extends`. -/
  extendsList : Option (LeftList String)
  body : LeftStar BaseDefineWithMeta

/-- `p_interface_extends`. -/
def InterfaceSymbols.evalExtends (s : InterfaceSymbols) : Parse (Option (List String)) :=
  match s.extendsList with
  | none => .ok none
  | some list => some <$> list.run pInterfaceExtendsList .ok

abbrev InterfaceDefine := WithMeta InterfaceSymbols

/-- `p_interface_define`: `SetExtends` only with a list that has elements. -/
def InterfaceDefine.eval (d : InterfaceDefine) :
    Parse (Attributed (Ast.InterfaceDefine (Attributed Ast.BaseDefine))) :=
  WithMeta.eval (fun s => do
    let extendsList ← s.evalExtends
    let content ← s.body.run pInterfaceBody BaseDefineWithMeta.eval
    return { name := s.typeName, extendsList := extendsList.getD [], content := content }) d

inductive StructBlock
  | memberDefine (valueType : TypeSyntax) (memberName : String) (default : Option LiteralValue)
  | memberStruct (typeName : String) (id : String) (nullLiteral : Option LiteralValue)
  | memberCallback (typeName : String) (memberName : String) (nullLiteral : Option LiteralValue)

/-- `p_struct_member_define`, `p_struct_member_struct`, `p_struct_member_callback`. -/
def StructBlock.eval : StructBlock → Ast.StructMember
  | .memberDefine type name default => .base type name default
  | .memberStruct type name nullLiteral => .struct type name nullLiteral
  | .memberCallback type name nullLiteral => .callback type name nullLiteral

abbrev StructBlockWithMeta := WithMeta StructBlock

/-- `p_struct_block_with_meta`. -/
def StructBlockWithMeta.eval (d : StructBlockWithMeta) : Parse (Attributed Ast.StructMember) :=
  WithMeta.eval (fun s => .ok s.eval) d

/-- `STRUCT type_name LBRACE struct_body RBRACE`. -/
structure StructSymbols where
  typeName : String
  body : LeftList StructBlockWithMeta

abbrev StructDefine := WithMeta StructSymbols

/-- `p_struct_define`. -/
def StructDefine.eval (d : StructDefine) : Parse (Attributed (Ast.InterfaceDefine (Attributed Ast.StructMember))) :=
  WithMeta.eval (fun s => do
    let content ← s.body.run pStructBody StructBlockWithMeta.eval
    return { name := s.typeName, content := content }) d

/-- `TYPE ID EQUALS primary_type`. -/
structure TypeSymbols where
  id : String
  primaryType : Option BaseName

abbrev TypeDefine := WithMeta TypeSymbols

/-- `p_type_define`. -/
def TypeDefine.eval (d : TypeDefine) : Parse (Attributed Ast.UserTypeDefine) :=
  WithMeta.eval (fun s => .ok { name := s.id, target := s.primaryType }) d

inductive ModuleBlock
  | base (define : BaseDefineWithMeta)
  | callback (define : CallbackDefine)
  | classDefine (define : ClassDefine)
  | interface (define : InterfaceDefine)
  | struct (define : StructDefine)
  | type (define : TypeDefine)

/-- `p_module_block`. -/
def ModuleBlock.eval : ModuleBlock → Parse Ast.ModuleBlock
  | .base define => .base <$> define.eval
  | .callback define => .callback <$> define.eval
  | .classDefine define => .classDefine <$> define.eval
  | .interface define => .interface <$> define.eval
  | .struct define => .struct <$> define.eval
  | .type define => .userType <$> define.eval

/-! Imports and the module. -/

inductive MessageDecl
  | plain (messageId : String)
  | renamed (pbMessageId : String) (messageId : String)

/-- `p_message_decl`. -/
def MessageDecl.eval : MessageDecl → MessageDeclare
  | .plain p1 => { pbName := p1, messageName := p1 }
  | .renamed p1 p3 => { pbName := p1, messageName := p3 }

/-- `import_message`; the path is the text of its token. -/
structure ImportMessage where
  messageList : LeftList MessageDecl
  path : String

/-- `pb_path.value[1:-1]`. -/
def unquote (text : String) : String := String.ofList (text.toList.tail.dropLast)

/-- `p_import_message`. -/
def ImportMessage.eval (d : ImportMessage) : Parse Ast.ImportBlock := do
  let p3 ← d.messageList.run pMessageList (fun e => .ok e.eval)
  return .importMessage p3 (unquote d.path)

inductive ImportBlock
  | importDefine (moduleName : String) (number : String)
  | importMessage (d : ImportMessage)

/-- `p_import_block`, `p_import`. -/
def ImportBlock.eval : ImportBlock → Parse Ast.ImportBlock
  | .importDefine p2 p4 => .ok (.importDefine p2 p4)
  | .importMessage d => d.eval

inductive ModuleDefine
  | versioned (moduleName : String) (number : String)
  | plain (moduleName : String)

/-- `p_module_define`: the name and the version. -/
def ModuleDefine.eval : ModuleDefine → String × String
  | .versioned p2 p4 => (p2,p4)
  | .plain p2 => (p2,"1.0")

structure ModuleHead where
  importList : Option (LeftList ImportBlock)
  moduleDefine : ModuleDefine

/-- `p_module_head`: the key `imports` is there when there is a list. -/
def ModuleHead.eval (d : ModuleHead) : Parse ((String × String) × Option (Ast.ImportList Ast.ImportBlock)) :=
  match d.importList with
  | none => .ok (d.moduleDefine.eval,none)
  | some importList => do
    let p1 ← importList.run pImportList ImportBlock.eval
    return (d.moduleDefine.eval,some p1)

structure ModuleFile where
  moduleHead : ModuleHead
  moduleBlocks : Option (LeftList ModuleBlock)

/-- `p_module_file`, for which the whole sentence is reduced. -/
def ModuleFile.eval (d : ModuleFile) : Parse Ast.ModuleDefine := do
  let p1 ← d.moduleHead.eval
  match d.moduleBlocks with
  | none => return { name := p1.1.1, version := p1.1.2, imports := p1.2, content := none }
  | some moduleBlocks =>
    let p2 ← moduleBlocks.run pModuleBlocks ModuleBlock.eval
    return { name := p1.1.1, version := p1.1.2, imports := p1.2, content := some p2 }

end FeatureRuntime.JidlParser
