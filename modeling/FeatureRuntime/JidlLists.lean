import FeatureRuntime.JidlActions

/-! The lists of a JIDL sentence: the tree that a sentence stands for, and the sentences for which the
parser builds it. -/
namespace FeatureRuntime.JidlParser

open LeftRecursion
open Ast (LiteralValue Attributed ListNode)

/-! The tree that a sentence stands for: each list has the nodes of its elements, in the order of the
sentence. -/

mutual

def ArrayLiteralElement.node : ArrayLiteralElement → Ast.MetaValue
  | .literal value => .literal value
  | .array elements => .array (ArrayLiteralElement.nodes elements)

/-- `nodes_eq_map` says which list this is. -/
def ArrayLiteralElement.nodes : LeftList ArrayLiteralElement → List Ast.MetaValue
  | .one element => [element.node]
  | .more elements element => ArrayLiteralElement.nodes elements ++ [element.node]

end

def MetaAttribute.node (d : MetaAttribute) : Ast.MetaAttribute := { name := d.metaId, value := d.value.node }

def WithMeta.node {α β : Type} (g : α → β) : WithMeta α → Attributed β
  | .plain d => { node := g d }
  | .withMeta metaAttributes d =>
    { node := g d, metaAttributes := metaAttributes.elements.map MetaAttribute.node }

def ParamDefine.node (d : ParamDefine) : Attributed Ast.ParamDefine :=
  WithMeta.node (fun s => { type := s.valueType, name := s.paramId }) d

def ParamMayDefault.node : ParamMayDefault → Attributed Ast.ParamDefine
  | .plain param => param.node
  | .withDefault param value => { param.node with node := { param.node.node with default := some value } }

def ListArgs.nodes {α E β : Type} (g : α → β) (ellipse : E → β) : ListArgs (LeftList α) E → List β
  | .empty => []
  | .ellipsis e => [ellipse e]
  | .list l => l.elements.map g
  | .listEllipsis l e => l.elements.map g ++ [ellipse e]

def ParamListArgs.node (d : ParamListArgs) : Ast.ParamList :=
  ListArgs.nodes (fun p => .define p.node) (fun e => .ellipse e.eval) d

def ParamListMayDefaultsArgs.node (d : ParamListMayDefaultsArgs) : Ast.ParamList :=
  ListArgs.nodes (fun p => .define p.node) (fun e => .ellipse e.eval) d

def ParamCallListArgs.node (d : ParamCallListArgs) : Ast.ParamCallList :=
  ListArgs.nodes ParamCall.eval (fun _ => .ellipse {}) d

def BaseFunctionDefine.node (d : BaseFunctionDefine) : Ast.FunctionDefine :=
  { name := d.id, params := d.params.node }

def BaseFunctionDefineReturn.node : BaseFunctionDefineReturn → Ast.FunctionDefine
  | .plain type define => { define.node with returnType := type }
  | .async info type define => { define.node with returnType := type, asyncInfo := info }

def FunctionDefine.node : FunctionDefine → Ast.FunctionDefine
  | .plain define => { define.node with isPrivate := false }
  | .hidden define => { define.node with isPrivate := true }

def EventDefine.node : EventDefine → Ast.EventDefine
  | .plain id params => { name := id, params := params.node }
  | .async id params => { name := id, params := params.node, forceAsync := true }

def UseDefine.node (d : UseDefine) : Ast.UseDefine where
  baseFunction := d.baseFunction.node
  functionCall := { name := d.functionCall.id, params := d.functionCall.params.node }

mutual

def ConstBlock.node : ConstBlock → Ast.ConstNode
  | .base id value => .const id value
  | .object id body => .object id (ConstBlock.nodes body)

def ConstBlock.nodes : LeftList ConstBlock → List Ast.ConstNode
  | .one block => [block.node]
  | .more body block => ConstBlock.nodes body ++ [block.node]

end

def EnumMemberMeta.node (d : EnumMemberMeta) : Attributed Ast.EnumMember where
  node := d.enumMember.eval
  metaAttributes := d.metaAttributes.elements.map MetaAttribute.node

def numberMembers : ℤ → List (Attributed Ast.EnumMember) → List (Attributed Ast.EnumMember)
  | _,[] => []
  | idx,m :: members =>
    match m.node.value with
    | some _ => m :: numberMembers idx members
    | none =>
      { m with node := { m.node with value := some { value := .number (idx + 1), type := .int } } } ::
        numberMembers (idx + 1) members

theorem numberMembers_keeps (idx : ℤ) (members : List (Attributed Ast.EnumMember)) :
    (numberMembers idx members).map (fun m => (m.node.name,m.metaAttributes)) =
      members.map (fun m => (m.node.name,m.metaAttributes)) := by
  induction members generalizing idx with
  | nil => rfl
  | cons m members ih =>
    cases hvalue : m.node.value with
    | none => simp only [numberMembers,hvalue,List.map_cons,ih]
    | some v => simp only [numberMembers,hvalue,List.map_cons,ih]

def EnumDefine.elements : EnumDefine → List EnumMemberMeta
  | .members _ enumMembers => enumMembers.elements
  | .empty _ => []

def EnumDefine.id : EnumDefine → String
  | .members id _ | .empty id => id

def EnumDefine.node (d : EnumDefine) : Ast.EnumDefine where
  name := d.id
  members := numberMembers 0 (d.elements.map EnumMemberMeta.node)

def BaseDefine.node : BaseDefine → Ast.BaseDefine
  | .function define => .function define.node
  | .property define => .property define.eval
  | .use define => .use define.node
  | .event define => .event define.node
  | .const define => .const define.node
  | .enum define => .enum define.node

def BaseDefineWithMeta.node (d : BaseDefineWithMeta) : Attributed Ast.BaseDefine :=
  WithMeta.node BaseDefine.node d

def ClassBlockDefine.node : ClassBlockDefine → Ast.ClassBlock
  | .base define => .base define.node
  | .constructor define => .constructor (WithMeta.node ParamListMayDefaultsArgs.node define)

def ClassDefine.node (d : ClassDefine) : Attributed (Ast.InterfaceDefine Ast.ClassBlock) :=
  WithMeta.node (fun s => { name := s.id, content := s.body.elements.map ClassBlockDefine.node }) d

def CallbackDefine.node (d : CallbackDefine) : Attributed Ast.CallbackDefine :=
  WithMeta.node (fun s => { name := s.typeName, params := s.params.node }) d

def InterfaceDefine.node (d : InterfaceDefine) : Attributed (Ast.InterfaceDefine (Attributed Ast.BaseDefine)) :=
  WithMeta.node (fun s =>
    { name := s.typeName
      extendsList := (s.extendsList.map LeftList.elements).getD []
      content := s.body.elements.map BaseDefineWithMeta.node }) d

def StructDefine.node (d : StructDefine) : Attributed (Ast.InterfaceDefine (Attributed Ast.StructMember)) :=
  WithMeta.node (fun s =>
    { name := s.typeName, content := s.body.elements.map (WithMeta.node StructBlock.eval) }) d

def TypeDefine.node (d : TypeDefine) : Attributed Ast.UserTypeDefine :=
  WithMeta.node (fun s => { name := s.id, target := s.primaryType }) d

def ModuleBlock.node : ModuleBlock → Ast.ModuleBlock
  | .base define => .base define.node
  | .callback define => .callback define.node
  | .classDefine define => .classDefine define.node
  | .interface define => .interface define.node
  | .struct define => .struct define.node
  | .type define => .userType define.node

def ImportBlock.node : ImportBlock → Ast.ImportBlock
  | .importDefine name number => .importDefine name number
  | .importMessage d => .importMessage (d.messageList.elements.map MessageDecl.eval) (unquote d.path)

def ModuleFile.node (d : ModuleFile) : Ast.ModuleDefine where
  name := d.moduleHead.moduleDefine.eval.1
  version := d.moduleHead.moduleDefine.eval.2
  imports := d.moduleHead.importList.map (fun l => l.elements.map ImportBlock.node)
  content := d.moduleBlocks.map (fun l => l.elements.map ModuleBlock.node)

/-! The list actions that accumulate. -/

theorem listActions_accumulates (α : Type) : (listActions α).Accumulates := ⟨fun _ => rfl,fun _ _ => rfl⟩

theorem blockActions_accumulates (α : Type) : (blockActions α).Accumulates :=
  ⟨fun _ => rfl,fun _ _ => rfl⟩

theorem bodyActions_accumulates (α : Type) : (bodyActions α).Accumulates := ⟨rfl,fun _ _ => rfl⟩

theorem paramActions_accumulates : paramActions.Accumulates := ⟨fun _ => rfl,fun _ _ => rfl⟩

theorem pParamCallList_accumulates : pParamCallList.Accumulates := ⟨fun _ => rfl,fun _ _ => rfl⟩

/-! Meta attributes and parameters are always built. -/

mutual

theorem ArrayLiteralElement.eval_eq : ∀ d : ArrayLiteralElement, d.eval = .ok d.node
  | .literal _ => by simp only [eval,node]
  | .array elements => by
    rw [eval,ArrayLiteralElement.evalElements_eq elements,node]
    rfl

theorem ArrayLiteralElement.evalElements_eq : ∀ l : LeftList ArrayLiteralElement, evalElements l = .ok (nodes l)
  | .one element => by
    rw [evalElements,ArrayLiteralElement.eval_eq element,nodes]
    rfl
  | .more elements element => by
    rw [evalElements,ArrayLiteralElement.evalElements_eq elements,ArrayLiteralElement.eval_eq element,nodes]
    rfl

end

theorem ArrayLiteralElement.nodes_eq_map (l : LeftList ArrayLiteralElement) : nodes l = l.elements.map node := by
  induction l with
  | one element => rfl
  | more elements element ih => rw [nodes,ih,LeftList.elements,List.map_append,List.map_singleton]

theorem MetaAttribute.eval_eq (d : MetaAttribute) : d.eval = .ok d.node := by
  rw [eval,d.value.eval_eq]
  rfl

theorem metaAttributes_eq (l : LeftList MetaAttribute) :
    l.run pMetaAttributeList MetaAttribute.eval = .ok (l.elements.map MetaAttribute.node) :=
  LeftList.run_eq_ok (listActions_accumulates _) MetaAttribute.eval_eq l

theorem WithMeta.eval_eq_ok_iff {α β : Type} (f : α → Parse β) (g : α → β) (d : WithMeta α) :
    d.eval f = .ok (d.node g) ↔ f d.define = .ok (g d.define) := by
  cases d with
  | plain d =>
    cases h : f d <;> simp [eval,node,define,h]
  | withMeta metaAttributes d =>
    cases h : f d <;> simp [eval,node,define,h,metaAttributes_eq,Attributed.setMetaAttributes]

theorem WithMeta.eval_eq {α β : Type} {f : α → Parse β} {g : α → β} (h : ∀ a, f a = .ok (g a))
    (d : WithMeta α) : d.eval f = .ok (d.node g) := (eval_eq_ok_iff f g d).mpr (h d.define)

theorem ParamDefine.eval_eq (d : ParamDefine) : ParamDefine.eval d = .ok (ParamDefine.node d) :=
  WithMeta.eval_eq (fun _ => rfl) d

theorem ParamMayDefault.eval_eq (d : ParamMayDefault) : d.eval = .ok d.node := by
  cases d with
  | plain param => exact param.eval_eq
  | withDefault param value =>
    rw [eval,ParamDefine.eval_eq]
    rfl

theorem paramArgs_eq {α : Type} {f : α → Parse Ast.ParamEntry} {g : α → Ast.ParamEntry}
    (h : ∀ a, f a = .ok (g a)) (d : ListArgs (LeftList α) ParamEllipse) :
    (do let p ← ListArgs.values (LeftList.run paramActions f) ParamEllipse.eval d
        paramArgsAction p) = .ok (ListArgs.nodes g (fun e => .ellipse e.eval) d) := by
  have hlist := LeftList.run_eq_ok paramActions_accumulates h
  cases d with
  | empty => rfl
  | ellipsis e => rfl
  | list l => simp [ListArgs.values,hlist,paramArgsAction,ListArgs.nodes]
  | listEllipsis l e => simp [ListArgs.values,hlist,paramArgsAction,ListArgs.nodes,ListNode.append]

theorem ParamListArgs.eval_eq (d : ParamListArgs) : ParamListArgs.eval d = .ok (ParamListArgs.node d) :=
  paramArgs_eq (fun e => by rw [ParamDefine.eval_eq]; rfl) d

theorem ParamListMayDefaultsArgs.eval_eq (d : ParamListMayDefaultsArgs) :
    ParamListMayDefaultsArgs.eval d = .ok (ParamListMayDefaultsArgs.node d) :=
  paramArgs_eq (fun e => by rw [ParamMayDefault.eval_eq]; rfl) d

theorem BaseFunctionDefine.eval_eq (d : BaseFunctionDefine) : d.eval = .ok d.node := by
  rw [eval,ParamListMayDefaultsArgs.eval_eq]
  rfl

theorem BaseFunctionDefineReturn.eval_eq (d : BaseFunctionDefineReturn) : d.eval = .ok d.node := by
  cases d with
  | plain type define =>
    rw [eval,define.eval_eq]
    rfl
  | async info type define =>
    rw [eval,define.eval_eq]
    rfl

theorem FunctionDefine.eval_eq (d : FunctionDefine) : d.eval = .ok d.node := by
  cases d with
  | plain define =>
    rw [eval,define.eval_eq]
    rfl
  | hidden define =>
    rw [eval,define.eval_eq]
    rfl

theorem EventDefine.eval_eq (d : EventDefine) : d.eval = .ok d.node := by
  cases d with
  | plain id params =>
    rw [eval,ParamListArgs.eval_eq]
    rfl
  | async id params =>
    rw [eval,ParamListArgs.eval_eq]
    rfl

mutual

theorem ConstBlock.eval_eq : ∀ d : ConstBlock, d.eval = .ok d.node
  | .base _ _ => by simp only [eval,node]
  | .object id body => by
    rw [eval,ConstBlock.evalBody_eq body,node]
    rfl

theorem ConstBlock.evalBody_eq : ∀ l : LeftList ConstBlock, evalBody l = .ok (nodes l)
  | .one block => by
    rw [evalBody,ConstBlock.eval_eq block,nodes]
    rfl
  | .more body block => by
    rw [evalBody,ConstBlock.evalBody_eq body,ConstBlock.eval_eq block,nodes]
    rfl

end

theorem ConstBlock.nodes_eq_map (l : LeftList ConstBlock) : nodes l = l.elements.map node := by
  induction l with
  | one block => rfl
  | more body block ih => rw [nodes,ih,LeftList.elements,List.map_append,List.map_singleton]

/-! The definitions that may fail: calls and enums. -/

theorem ParamCallListArgs.eval_eq_ok_iff (d : ParamCallListArgs) :
    ParamCallListArgs.eval d = .ok (ParamCallListArgs.node d) ↔ d ≠ .empty := by
  have hlist := LeftList.run_eq_ok pParamCallList_accumulates
    (fun a : ParamCall => (rfl : (.ok a.eval : Parse Ast.ParamCall) = .ok a.eval))
  cases d with
  | empty => exact iff_of_false nofun (fun h => h rfl)
  | ellipsis e => exact iff_of_true rfl nofun
  | list l =>
    refine iff_of_true ?_ nofun
    simp [ParamCallListArgs.eval,ParamCallListArgs.node,ListArgs.values,hlist,pParamCallListArgs,ListArgs.nodes]
  | listEllipsis l e =>
    refine iff_of_true ?_ nofun
    simp [ParamCallListArgs.eval,ParamCallListArgs.node,ListArgs.values,hlist,pParamCallListArgs,
      ListArgs.nodes,ListNode.append]

/-- A call in a `use` definition has arguments. -/
def UseDefine.HasArguments (d : UseDefine) : Prop := d.functionCall.params ≠ .empty

theorem UseDefine.eval_eq_ok_iff (d : UseDefine) : d.eval = .ok d.node ↔ d.HasArguments := by
  rw [HasArguments,← ParamCallListArgs.eval_eq_ok_iff,eval,d.baseFunction.eval_eq,FunctionCall.eval]
  cases h : ParamCallListArgs.eval d.functionCall.params <;> simp [node]

theorem EnumMemberMeta.eval_eq (d : EnumMemberMeta) : d.eval = .ok d.node := by
  rw [eval,metaAttributes_eq]
  rfl

theorem EnumMembers.eval_eq (l : EnumMembers) : l.eval = .ok (l.elements.map EnumMemberMeta.node) := by
  induction l with
  | one member =>
    rw [eval,EnumMemberMeta.eval_eq]
    rfl
  | comma members ih => exact ih
  | more members member ih =>
    rw [eval,ih,EnumMemberMeta.eval_eq,elements,List.map_append]
    rfl

def NotInteger (value : Option LiteralValue) : Prop := ∀ v, value = some v → v.type ≠ .int

theorem enumLoop_eq_ok_iff (idx : ℤ) (members : List (Attributed Ast.EnumMember)) :
    Ast.enumLoop idx members = .ok (numberMembers idx members) ↔ ∀ m ∈ members, NotInteger m.node.value := by
  induction members generalizing idx with
  | nil => simp [Ast.enumLoop,numberMembers]
  | cons m members ih =>
    rw [List.forall_mem_cons]
    cases hvalue : m.node.value with
    | none =>
      have hhead : NotInteger none := nofun
      rw [and_iff_right hhead,← ih (idx + 1)]
      simp only [Ast.enumLoop,numberMembers,hvalue]
      cases Ast.enumLoop (idx + 1) members <;> simp
    | some v =>
      simp only [Ast.enumLoop,numberMembers,hvalue]
      by_cases hint : v.type = .int
      · rw [if_pos hint]
        exact iff_of_false nofun (fun h => h.1 v rfl hint)
      · have hhead : NotInteger (some v) := fun w hw => Option.some.inj hw ▸ hint
        rw [if_neg hint,and_iff_right hhead,← ih idx]
        cases Ast.enumLoop idx members <;> simp

def EnumDefine.NoInteger (d : EnumDefine) : Prop := ∀ m ∈ d.elements, NotInteger m.enumMember.eval.value

theorem EnumDefine.eval_eq_init (d : EnumDefine) :
    d.eval = Ast.EnumDefine.init d.id (d.elements.map EnumMemberMeta.node) := by
  cases d with
  | members id enumMembers =>
    rw [eval,EnumMembers.eval_eq]
    rfl
  | empty id => rfl

theorem EnumDefine.eval_eq_ok_iff (d : EnumDefine) : d.eval = .ok d.node ↔ d.NoInteger := by
  have hloop := enumLoop_eq_ok_iff 0 (d.elements.map EnumMemberMeta.node)
  rw [List.forall_mem_map] at hloop
  rw [NoInteger,eval_eq_init,Ast.EnumDefine.init]
  refine Iff.trans ?_ hloop
  cases Ast.enumLoop 0 (d.elements.map EnumMemberMeta.node) <;> simp [node]

/-- The definitions that are built: a `use` with arguments, an enum without integers, and any other. -/
def BaseDefine.Builds : BaseDefine → Prop
  | .use d => d.HasArguments
  | .enum d => d.NoInteger
  | _ => True

theorem BaseDefine.eval_eq_ok_iff (d : BaseDefine) : d.eval = .ok d.node ↔ d.Builds := by
  cases d with
  | function d => exact iff_true_intro (by rw [eval,d.eval_eq]; rfl)
  | property d => exact iff_true_intro rfl
  | use d => exact (map_eq_ok_iff (fun _ _ h => Ast.BaseDefine.use.inj h) _ _).trans d.eval_eq_ok_iff
  | event d => exact iff_true_intro (by rw [eval,d.eval_eq]; rfl)
  | const d => exact iff_true_intro (by rw [eval,d.eval_eq]; rfl)
  | enum d => exact (map_eq_ok_iff (fun _ _ h => Ast.BaseDefine.enum.inj h) _ _).trans d.eval_eq_ok_iff

theorem BaseDefineWithMeta.eval_eq_ok_iff (d : BaseDefineWithMeta) :
    BaseDefineWithMeta.eval d = .ok (BaseDefineWithMeta.node d) ↔ d.define.Builds :=
  (WithMeta.eval_eq_ok_iff BaseDefine.eval BaseDefine.node d).trans d.define.eval_eq_ok_iff

/-! The blocks of a module are built when the definitions in them are. -/

def ClassBlockDefine.baseDefines : ClassBlockDefine → List BaseDefine
  | .base d => [d.define]
  | .constructor _ => []

def ModuleBlock.baseDefines : ModuleBlock → List BaseDefine
  | .base d => [d.define]
  | .classDefine d => d.define.body.elements.flatMap ClassBlockDefine.baseDefines
  | .interface d => d.define.body.elements.map WithMeta.define
  | .callback _ | .struct _ | .type _ => []

theorem ClassBlockDefine.eval_eq_ok_iff (d : ClassBlockDefine) :
    d.eval = .ok d.node ↔ ∀ b ∈ d.baseDefines, b.Builds := by
  cases d with
  | base d =>
    rw [baseDefines,List.forall_mem_singleton,← BaseDefineWithMeta.eval_eq_ok_iff]
    exact map_eq_ok_iff (fun _ _ h => Ast.ClassBlock.base.inj h) _ _
  | constructor d =>
    refine iff_of_true ?_ nofun
    rw [eval,ConstructorDefine.eval,WithMeta.eval_eq ParamListMayDefaultsArgs.eval_eq]
    rfl

theorem ClassDefine.eval_eq_ok_iff (d : ClassDefine) : ClassDefine.eval d = .ok (ClassDefine.node d) ↔
      ∀ b ∈ (ModuleBlock.classDefine d).baseDefines, b.Builds := by
  have hbody := LeftStar.run_eq_ok_iff (bodyActions_accumulates _) ClassBlockDefine.eval
    ClassBlockDefine.node d.define.body
  simp only [ClassBlockDefine.eval_eq_ok_iff,← List.forall_mem_flatMap] at hbody
  rw [ClassDefine.eval,ClassDefine.node,WithMeta.eval_eq_ok_iff,ModuleBlock.baseDefines,← hbody,pClassBodyDefine]
  cases d.define.body.run (bodyActions Ast.ClassBlock) ClassBlockDefine.eval <;> simp

theorem InterfaceSymbols.evalExtends_eq (s : InterfaceSymbols) :
    s.evalExtends = .ok (s.extendsList.map LeftList.elements) := by
  rw [evalExtends]
  cases s.extendsList with
  | none => rfl
  | some list =>
    have hid : ∀ name : String, (.ok name : Parse String) = .ok (id name) := fun _ => rfl
    have hrun : list.run pInterfaceExtendsList .ok = .ok (list.elements.map id) :=
      LeftList.run_eq_ok (listActions_accumulates String) hid list
    rw [List.map_id] at hrun
    simp only [hrun]
    rfl

theorem InterfaceDefine.eval_eq_ok_iff (d : InterfaceDefine) : InterfaceDefine.eval d = .ok (InterfaceDefine.node d) ↔
      ∀ b ∈ (ModuleBlock.interface d).baseDefines, b.Builds := by
  have hbody := LeftStar.run_eq_ok_iff (bodyActions_accumulates _) BaseDefineWithMeta.eval
    BaseDefineWithMeta.node d.define.body
  simp only [BaseDefineWithMeta.eval_eq_ok_iff] at hbody
  rw [InterfaceDefine.eval,InterfaceDefine.node,WithMeta.eval_eq_ok_iff,ModuleBlock.baseDefines,
    List.forall_mem_map,← hbody,pInterfaceBody,InterfaceSymbols.evalExtends_eq]
  cases d.define.body.run (bodyActions (Attributed Ast.BaseDefine)) BaseDefineWithMeta.eval <;> simp

theorem StructDefine.eval_eq (d : StructDefine) : StructDefine.eval d = .ok (StructDefine.node d) := by
  refine WithMeta.eval_eq (fun s => ?_) d
  have hblock : ∀ b : StructBlockWithMeta, StructBlockWithMeta.eval b = .ok (WithMeta.node StructBlock.eval b) :=
    WithMeta.eval_eq (fun _ => rfl)
  rw [pStructBody,LeftList.run_eq_ok (blockActions_accumulates _) hblock]
  rfl

theorem CallbackDefine.eval_eq (d : CallbackDefine) : CallbackDefine.eval d = .ok (CallbackDefine.node d) :=
  WithMeta.eval_eq (fun s => by rw [ParamListArgs.eval_eq]; rfl) d

theorem TypeDefine.eval_eq (d : TypeDefine) : TypeDefine.eval d = .ok (TypeDefine.node d) :=
  WithMeta.eval_eq (fun _ => rfl) d

theorem ModuleBlock.eval_eq_ok_iff (d : ModuleBlock) : d.eval = .ok d.node ↔ ∀ b ∈ d.baseDefines, b.Builds := by
  cases d with
  | base d =>
    rw [baseDefines,List.forall_mem_singleton,← BaseDefineWithMeta.eval_eq_ok_iff]
    exact map_eq_ok_iff (fun _ _ h => Ast.ModuleBlock.base.inj h) _ _
  | callback d => exact iff_of_true (by rw [eval,CallbackDefine.eval_eq]; rfl) nofun
  | classDefine d =>
    exact (map_eq_ok_iff (fun _ _ h => Ast.ModuleBlock.classDefine.inj h) _ _).trans d.eval_eq_ok_iff
  | interface d =>
    exact (map_eq_ok_iff (fun _ _ h => Ast.ModuleBlock.interface.inj h) _ _).trans d.eval_eq_ok_iff
  | struct d => exact iff_of_true (by rw [eval,StructDefine.eval_eq]; rfl) nofun
  | type d => exact iff_of_true (by rw [eval,TypeDefine.eval_eq]; rfl) nofun

/-! The imports and the whole sentence. -/

def ImportBlock.messageLists : ImportBlock → List (LeftList MessageDecl)
  | .importDefine _ _ => []
  | .importMessage d => [d.messageList]

def ModuleFile.messageLists (d : ModuleFile) : List (LeftList MessageDecl) :=
  (d.moduleHead.importList.elim [] LeftList.elements).flatMap ImportBlock.messageLists

def ModuleFile.baseDefines (d : ModuleFile) : List BaseDefine :=
  (d.moduleBlocks.elim [] LeftList.elements).flatMap ModuleBlock.baseDefines

def ModuleFile.KeepsLists (d : ModuleFile) : Prop := d.eval = .ok d.node

/-- Each import has one message, each call of a `use` has arguments, and no member of an enum has an
integer. -/
def ModuleFile.Buildable (d : ModuleFile) : Prop :=
  (∀ l ∈ d.messageLists, l.elements.length = 1) ∧ ∀ b ∈ d.baseDefines, b.Builds

theorem messageList_eq_ok_iff (l : LeftList MessageDecl) :
    l.run pMessageList (fun e => .ok e.eval) = .ok (l.elements.map MessageDecl.eval) ↔
      l.elements.length = 1 := by
  cases l with
  | one element => exact iff_of_true rfl rfl
  | more list element =>
    have hfails : (LeftList.more list element).run pMessageList (fun e => .ok e.eval) ≠
        .ok ((LeftList.more list element).elements.map MessageDecl.eval) := by
      rw [LeftList.run]
      cases list.run pMessageList (fun e => .ok e.eval) <;> (intro h; cases h)
    have hpos := List.length_pos_iff.mpr list.elements_ne_nil
    refine iff_of_false hfails ?_
    rw [LeftList.elements,List.length_append,List.length_singleton]
    omega

theorem ImportBlock.eval_eq_ok_iff (d : ImportBlock) :
    d.eval = .ok d.node ↔ ∀ l ∈ d.messageLists, l.elements.length = 1 := by
  cases d with
  | importDefine name number => exact iff_of_true rfl nofun
  | importMessage d =>
    rw [messageLists,List.forall_mem_singleton,← messageList_eq_ok_iff,eval,ImportMessage.eval]
    cases d.messageList.run pMessageList (fun e => .ok e.eval) <;> simp [node]

theorem ModuleHead.eval_eq_ok_iff (d : ModuleHead) :
    d.eval = .ok (d.moduleDefine.eval,d.importList.map (fun l => l.elements.map ImportBlock.node)) ↔
      ∀ l ∈ (d.importList.elim [] LeftList.elements).flatMap ImportBlock.messageLists, l.elements.length = 1 := by
  rw [eval]
  cases d.importList with
  | none => exact iff_of_true rfl nofun
  | some importList =>
    have hrun := LeftList.run_eq_ok_iff (A := pImportList) (blockActions_accumulates _)
      ImportBlock.eval ImportBlock.node importList
    simp only [ImportBlock.eval_eq_ok_iff,← List.forall_mem_flatMap] at hrun
    rw [Option.elim_some,← hrun]
    dsimp only
    cases importList.run pImportList ImportBlock.eval <;> simp

theorem ModuleFile.keepsLists_iff (d : ModuleFile) : d.KeepsLists ↔ d.Buildable := by
  rw [KeepsLists,Buildable,messageLists,baseDefines,← ModuleHead.eval_eq_ok_iff,eval]
  cases hblocks : d.moduleBlocks with
  | none =>
    cases d.moduleHead.eval <;> simp [node,hblocks,Prod.ext_iff,and_assoc]
  | some moduleBlocks =>
    have hrun := LeftList.run_eq_ok_iff (A := pModuleBlocks) (blockActions_accumulates _)
      ModuleBlock.eval ModuleBlock.node moduleBlocks
    simp only [ModuleBlock.eval_eq_ok_iff,← List.forall_mem_flatMap] at hrun
    rw [Option.elim_some,← hrun]
    dsimp only
    cases d.moduleHead.eval with
    | error e => simp
    | ok p1 =>
      cases moduleBlocks.run pModuleBlocks ModuleBlock.eval <;> simp [node,hblocks,Prod.ext_iff,and_assoc]

/-- In the tree the nested lists too are those of the nodes of their elements, and enums keep their
members; and for every sentence of the grammar the parser builds the tree exactly under the condition. -/
theorem parser_keeps_lists_iff (d : ModuleFile) :
    (∀ l, ArrayLiteralElement.nodes l = l.elements.map ArrayLiteralElement.node) ∧
      (∀ l, ConstBlock.nodes l = l.elements.map ConstBlock.node) ∧
      (∀ idx members, (numberMembers idx members).map (fun m => (m.node.name,m.metaAttributes)) =
        members.map (fun m => (m.node.name,m.metaAttributes))) ∧
      (d.KeepsLists ↔ d.Buildable) :=
  ⟨ArrayLiteralElement.nodes_eq_map,ConstBlock.nodes_eq_map,numberMembers_keeps,d.keepsLists_iff⟩

/-- `import_message {A, B} from "m.proto"` in front of a module. -/
def twoMessages : ModuleFile where
  moduleHead :=
    { importList := some (.one (.importMessage
        { messageList := .more (.one (.plain "A")) (.plain "B"), path := "\"m.proto\"" }))
      moduleDefine := .versioned "m" "1.0" }
  moduleBlocks := none

/-- The second message stops the parser. -/
theorem second_message_fails : ¬ ∀ d : ModuleFile, d.KeepsLists := by
  intro h
  have hkept := h twoMessages
  have hfails : twoMessages.eval = .error .attributeError := rfl
  rw [ModuleFile.KeepsLists,hfails] at hkept
  exact absurd hkept nofun

end FeatureRuntime.JidlParser
