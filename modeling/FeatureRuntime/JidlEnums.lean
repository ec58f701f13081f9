import FeatureRuntime.JidlLists
import Mathlib.Data.List.TakeWhile

/-! The numbers of an enum: what `EnumDefine` makes of its members, and the constants that the LVGL
binding generates from them. -/
namespace FeatureRuntime.JidlParser

open Ast (Scalar MetaValue Attributed)
open Jidl (BaseName)

/-! The integer that a text stands for, as the token `INTEGER` is written. -/

def integerSuffixes : List (List Char) :=
  [[],['u'],['U'],['l'],['L'],['u','l'],['u','L'],['U','l'],['U','L'],['l','u'],['l','U'],['L','u'],['L','U']]

theorem suffix_lawful : LawfulBEq (List Char) := inferInstance

attribute [local instance] suffix_lawful

def readDigits (s : List Char) : Option ℕ :=
  let digits := s.takeWhile Char.isDigit
  if digits ≠ [] ∧ s.dropWhile Char.isDigit ∈ integerSuffixes then some (Nat.ofDigitChars 10 digits 0)
  else none

def readInteger (s : String) : Option ℤ :=
  match s.toList with
  | '-' :: rest => (readDigits rest).map (fun n => -(n : ℤ))
  | '+' :: rest => (readDigits rest).map (fun n => (n : ℤ))
  | rest => (readDigits rest).map (fun n => (n : ℤ))

theorem readDigits_repr (n : ℕ) : readDigits (Nat.repr n).toList = some n := by
  have hdigits : ∀ c ∈ Nat.toDigits 10 n, c.isDigit = true := fun c hc =>
    Nat.isDigit_of_mem_toDigits (by decide) (by decide) hc
  have htake : (Nat.toDigits 10 n).takeWhile Char.isDigit = Nat.toDigits 10 n :=
    List.takeWhile_eq_self_iff.mpr hdigits
  have hdrop : (Nat.toDigits 10 n).dropWhile Char.isDigit = [] := List.dropWhile_eq_nil_iff.mpr hdigits
  have hnil : ([] : List Char) ∈ integerSuffixes := List.mem_cons_self
  rw [Nat.toList_repr,readDigits,htake,hdrop,if_pos ⟨Nat.toDigits_ne_nil,hnil⟩,Nat.ofDigitChars_ten_toDigits]

theorem readInteger_toString (n : ℕ) : readInteger (toString (n : ℤ)) = some (n : ℤ) := by
  have htext : toString (n : ℤ) = Nat.repr n := rfl
  have hread := readDigits_repr n
  rw [htext,readInteger]
  split
  · next rest heq =>
    have hminus : '-' ∈ (Nat.repr n).toList := by
      rw [heq]
      exact List.mem_cons_self
    rw [Nat.toList_repr] at hminus
    exact absurd (Nat.isDigit_of_mem_toDigits (by decide) (by decide) hminus) (by decide)
  · next rest heq =>
    have hplus : '+' ∈ (Nat.repr n).toList := by
      rw [heq]
      exact List.mem_cons_self
    rw [Nat.toList_repr] at hplus
    exact absurd (Nat.isDigit_of_mem_toDigits (by decide) (by decide) hplus) (by decide)
  · rw [hread]
    rfl

namespace Ast

/-- `str` of a value. -/
def Scalar.str : Scalar → String
  | .text s => s
  | .number n => toString n

def Scalar.integer : Scalar → Option ℤ
  | .text s => readInteger s
  | .number n => some n

end Ast

/-! The JSON of a member and the constant that `gen_const_content` writes from it. -/

inductive MetaJson
  | text (s : String)
  | number (n : ℤ)
  | list (elements : List MetaJson)

def MetaJson.truthy : MetaJson → Bool
  | .text s => s ≠ ""
  | .number n => n ≠ 0
  | .list elements => !elements.isEmpty

mutual

def removeLiteralStringQuotes : MetaValue → MetaJson
  | .literal value =>
    match value.value with
    | .text s =>
      if 2 ≤ s.length ∧ s.toList.head? = some '"' ∧ s.toList.getLast? = some '"' then
        .text (String.ofList s.toList.tail.dropLast)
      else .text s
    | .number n => .number n
  | .array elements => .list (removeQuotesOfAll elements)

def removeQuotesOfAll : List MetaValue → List MetaJson
  | [] => []
  | element :: elements => removeLiteralStringQuotes element :: removeQuotesOfAll elements

end

/-- The JSON of a `ConstDefine`. A later entry of `meta` takes the place of an earlier one. -/
structure ConstJson where
  name : String
  value : String
  valueType : String
  entries : List (String × MetaJson)

def typeName : BaseName → String
  | .int => "int"
  | .float => "float"
  | .double => "double"
  | .string => "string"
  | .boolean => "boolean"
  | .long => "long"
  | .uint => "uint"
  | .ulong => "ulong"
  | .null => "null"
  | .array => "array"
  | .object => "object"
  | .jsonobject => "jsonobject"
  | .void => "void"
  | .uint8 => "uint8"
  | .int8 => "int8"
  | .uint16 => "uint16"
  | .int16 => "int16"
  | .uint32 => "uint32"
  | .int32 => "int32"
  | .uint64 => "uint64"
  | .int64 => "int64"

/-- `ConstDefine.ToJson` of a member that has a value. -/
def memberJson (m : Attributed Ast.EnumMember) : Option ConstJson :=
  m.node.value.map (fun value => {
    name := m.node.name
    value := value.value.str
    valueType := typeName value.type
    entries := m.metaAttributes.map (fun a => (a.name,removeLiteralStringQuotes a.value)) })

namespace ConstJson

def getMetaValue (m : ConstJson) (key : String) : Option MetaJson := m.entries.reverse.lookup key

def getConstValue (m : ConstJson) : MetaJson :=
  match (m.getMetaValue "value").filter MetaJson.truthy with
  | some v => v
  | none => if m.valueType = "string" then .text ("\"" ++ m.value ++ "\"") else .text m.value

def getConstValueType (m : ConstJson) : MetaJson :=
  ((m.getMetaValue "value_type").filter MetaJson.truthy).getD (.text m.valueType)

def getConstInitFunc (m : ConstJson) : Option MetaJson := (m.getMetaValue "init").filter MetaJson.truthy

end ConstJson

/-- The `js_type` of a generated constant. -/
inductive JsType
  | int | float | boolean | string
  deriving DecidableEq, Repr

inductive ValueField
  | ival | fval | sval | ptr
  deriving DecidableEq, Repr

structure GeneratedConst where
  name : String
  useInit : Bool
  type : JsType
  field : ValueField
  value : MetaJson

def toIdName (s : String) : String :=
  String.ofList (s.toList.map (fun c => if c.isAlphanum ∨ c = '_' then c else '_'))

def genConstContent (pname : String) (m : ConstJson) : GeneratedConst :=
  match m.getConstInitFunc with
  | some _ => ⟨m.name,true,.int,.ptr,.text (pname ++ "_" ++ toIdName m.name ++ "_init")⟩
  | none =>
    match m.getConstValueType with
    | .text "init" => ⟨m.name,false,.int,.ival,m.getConstValue⟩
    | .text "float" => ⟨m.name,false,.float,.fval,m.getConstValue⟩
    | .text "bool" => ⟨m.name,false,.boolean,.ival,m.getConstValue⟩
    | .text "string" => ⟨m.name,false,.string,.sval,m.getConstValue⟩
    | _ => ⟨m.name,false,.int,.ival,m.getConstValue⟩

/-! The numbering. -/

def memberInteger (m : Attributed Ast.EnumMember) : Option ℤ :=
  m.node.value.bind (fun value => if value.type = .int then value.value.integer else none)

def Overridden (m : Attributed Ast.EnumMember) : Prop :=
  ∃ a ∈ m.metaAttributes, a.name = "value" ∨ a.name = "init" ∨ a.name = "value_type"

def Reproduced (pname : String) (m : Attributed Ast.EnumMember) : Prop :=
  ∃ n text json, memberInteger m = some n ∧ memberJson m = some json ∧
    genConstContent pname json = ⟨m.node.name,false,.int,.ival,.text text⟩ ∧ readInteger text = some n

def startValue : ℤ := 1

/-- The members of an enum as they are built from those that are written. -/
structure Numbered (written built : List (Attributed Ast.EnumMember)) : Prop where
  same : built.map (fun m => (m.node.name,m.metaAttributes)) =
    written.map (fun m => (m.node.name,m.metaAttributes))
  kept : ∀ (i : ℕ) (m b : Attributed Ast.EnumMember), written[i]? = some m → built[i]? = some b →
    m.node.value ≠ none → b.node.value = m.node.value
  first : ∀ m b : Attributed Ast.EnumMember, written[0]? = some m → built[0]? = some b →
    m.node.value = none → memberInteger b = some startValue
  next : ∀ (i : ℕ) (m p b : Attributed Ast.EnumMember), written[i + 1]? = some m → built[i]? = some p →
    built[i + 1]? = some b → m.node.value = none →
    ∃ n, memberInteger p = some n ∧ memberInteger b = some (n + 1)
  reproduced : ∀ (pname : String) (b : Attributed Ast.EnumMember), b ∈ built → ¬ Overridden b → Reproduced pname b

def withNumber (m : Attributed Ast.EnumMember) (n : ℤ) : Attributed Ast.EnumMember :=
  { m with node := { m.node with value := some { value := .number n, type := .int } } }

@[simp] theorem memberInteger_withNumber (m : Attributed Ast.EnumMember) (n : ℤ) :
    memberInteger (withNumber m n) = some n := rfl

theorem numberMembers_getElem? (idx : ℤ) (members : List (Attributed Ast.EnumMember))
    (hnone : ∀ m ∈ members, m.node.value = none) (i : ℕ) :
    (numberMembers idx members)[i]? = members[i]?.map (fun m => withNumber m (idx + i + 1)) := by
  induction members generalizing idx i with
  | nil => rfl
  | cons m members ih =>
    obtain ⟨hm,hmembers⟩ := List.forall_mem_cons.mp hnone
    have hhead : numberMembers idx (m :: members) = withNumber m (idx + 1) :: numberMembers (idx + 1) members := by
      rw [numberMembers]
      split
      · next v hv => simp [hm] at hv
      · rfl
    rw [hhead]
    cases i with
    | zero => simp
    | succ i =>
      rw [List.getElem?_cons_succ,List.getElem?_cons_succ,ih (idx + 1) hmembers]
      have hshift : idx + 1 + (i : ℤ) + 1 = idx + ((i + 1 : ℕ) : ℤ) + 1 := by omega
      rw [hshift]

theorem lookup_eq_none {entries : List (String × MetaJson)} {key : String}
    (h : ∀ e ∈ entries, e.1 ≠ key) : entries.lookup key = none := by
  rw [List.lookup_eq_none_iff]
  intro e he
  exact bne_iff_ne.mpr (Ne.symm (h e he))

/-- The constant of a numbered member, unless an attribute overrides it. -/
theorem reproduced_withNumber (pname : String) (m : Attributed Ast.EnumMember) (n : ℕ)
    (h : ¬ Overridden (withNumber m n)) : Reproduced pname (withNumber m n) := by
  have hentries : ∀ key, key = "value" ∨ key = "init" ∨ key = "value_type" →
      ((m.metaAttributes.map (fun a => (a.name,removeLiteralStringQuotes a.value))).reverse).lookup key =
        none := by
    intro key hkey
    refine lookup_eq_none ?_
    intro e he heq
    obtain ⟨a,ha,rfl⟩ := List.mem_map.mp (List.mem_reverse.mp he)
    exact h ⟨a,ha,by rw [show a.name = key from heq]; exact hkey⟩
  refine ⟨n,toString (n : ℤ),_,memberInteger_withNumber m n,rfl,?_,readInteger_toString n⟩
  simp only [genConstContent,ConstJson.getConstInitFunc,ConstJson.getConstValueType,
    ConstJson.getConstValue,ConstJson.getMetaValue,withNumber,hentries "value" (.inl rfl),
    hentries "init" (.inr (.inl rfl)),hentries "value_type" (.inr (.inr rfl))]
  rfl

/-- The loop gives up at an integer, and otherwise numbers the members. -/
theorem enumLoop_eq_ok {idx : ℤ} {members built : List (Attributed Ast.EnumMember)}
    (h : Ast.enumLoop idx members = .ok built) : built = numberMembers idx members := by
  induction members generalizing idx built with
  | nil => exact (Except.ok.inj h).symm
  | cons m members ih =>
    cases hvalue : m.node.value with
    | none =>
      simp only [Ast.enumLoop,hvalue] at h
      cases htail : Ast.enumLoop (idx + 1) members with
      | error e => simp [htail] at h
      | ok tail =>
        simp only [htail] at h
        rw [numberMembers,hvalue,← ih htail]
        exact (Except.ok.inj h).symm
    | some v =>
      simp only [Ast.enumLoop,hvalue] at h
      split_ifs at h
      cases htail : Ast.enumLoop idx members with
      | error e => simp [htail] at h
      | ok tail =>
        simp only [htail] at h
        rw [numberMembers,hvalue,← ih htail]
        exact (Except.ok.inj h).symm

theorem numbered_of_none {members : List (Attributed Ast.EnumMember)}
    (hnone : ∀ m ∈ members, m.node.value = none) : Numbered members (numberMembers 0 members) := by
  have hget := numberMembers_getElem? 0 members hnone
  refine ⟨numberMembers_keeps 0 members,fun i m b hm _ hvalue => ?_,fun m b hm hb _ => ?_,
    fun i m p b hm hp hb _ => ?_,fun pname b hb hover => ?_⟩
  · exact absurd (hnone m (List.mem_of_getElem? hm)) hvalue
  · rw [hget 0,hm] at hb
    obtain rfl := Option.some.inj hb
    rfl
  · rw [hget] at hp hb
    obtain ⟨p',_,rfl⟩ := Option.map_eq_some_iff.mp hp
    obtain ⟨b',_,rfl⟩ := Option.map_eq_some_iff.mp hb
    refine ⟨_,memberInteger_withNumber _ _,?_⟩
    have hnext : (0 : ℤ) + ((i + 1 : ℕ) : ℤ) + 1 = 0 + (i : ℤ) + 1 + 1 := by omega
    rw [memberInteger_withNumber,hnext]
  · obtain ⟨i,hi⟩ := List.mem_iff_getElem?.mp hb
    rw [hget] at hi
    obtain ⟨m,_,rfl⟩ := Option.map_eq_some_iff.mp hi
    have hnat : (0 : ℤ) + (i : ℤ) + 1 = ((i + 1 : ℕ) : ℤ) := by omega
    rw [hnat] at hover ⊢
    exact reproduced_withNumber pname m (i + 1) hover

def EnumDefine.IntegerMembers (d : EnumDefine) : Prop :=
  ∀ m ∈ d.elements, ∀ v, m.enumMember.eval.value = some v →
    v.type = .int ∧ ∃ s, v.value = .text s ∧ (readInteger s).isSome

/-- The members that the rules of an enum hand to `EnumDefine`. -/
def EnumDefine.written (d : EnumDefine) : List (Attributed Ast.EnumMember) :=
  d.elements.map EnumMemberMeta.node

/-- For every enum whose explicit values are integers: it is built and numbered as it should be exactly when
none of its members has an explicit value. -/
theorem enum_numbered_iff (d : EnumDefine) (h : d.IntegerMembers) :
    (∃ e, d.eval = .ok e ∧ e.name = d.id ∧ Numbered d.written e.members) ↔
      ∀ m ∈ d.elements, m.enumMember.eval.value = none := by
  constructor
  · rintro ⟨e,heval,_,_⟩ m hm
    have hnode : d.eval = .ok d.node := by
      rw [EnumDefine.eval_eq_init,Ast.EnumDefine.init] at heval ⊢
      cases hloop : Ast.enumLoop 0 (d.elements.map EnumMemberMeta.node) with
      | error error => simp [hloop] at heval
      | ok built =>
        rw [enumLoop_eq_ok hloop]
        rfl
    have hno := d.eval_eq_ok_iff.mp hnode m hm
    cases hvalue : m.enumMember.eval.value with
    | none => rfl
    | some v => exact absurd (h m hm v hvalue).1 (hno v hvalue)
  · intro hnone
    have hno : d.NoInteger := by
      intro m hm v hv
      rw [hnone m hm] at hv
      cases hv
    refine ⟨d.node,d.eval_eq_ok_iff.mpr hno,rfl,numbered_of_none ?_⟩
    intro m hm
    obtain ⟨member,hmember,rfl⟩ := List.mem_map.mp hm
    exact hnone member hmember

/-- `[doc = ""]` in front of a member. -/
def docAttribute : LeftRecursion.LeftList MetaAttribute := .one ⟨"doc",.literal ⟨.text "\"\"",.string⟩⟩

/-- `enum E { [doc = ""] A, [doc = ""] B }`. -/
def plainEnum : EnumDefine :=
  .members "E" (.more (.one ⟨docAttribute,.plain "A"⟩) ⟨docAttribute,.plain "B"⟩)

/-- `enum E { [doc = ""] A = 1 }`. -/
def explicitEnum : EnumDefine :=
  .members "E" (.one ⟨docAttribute,.withValue "A" ⟨.text "1",.int⟩⟩)

/-- `enum E { [doc = ""] A, [doc = ""] B = 2 }`. -/
def mixedEnum : EnumDefine :=
  .members "E" (.more (.one ⟨docAttribute,.plain "A"⟩) ⟨docAttribute,.withValue "B" ⟨.text "2",.int⟩⟩)

/-- Members without values are numbered; one value among them, and the enum is not built as it should be. -/
theorem plain_enum_numbered :
    (∃ e, plainEnum.eval = .ok e ∧ e.name = plainEnum.id ∧ Numbered plainEnum.written e.members) ∧
      ¬∃ e, mixedEnum.eval = .ok e ∧ e.name = mixedEnum.id ∧ Numbered mixedEnum.written e.members := by
  have hplain : ∀ m ∈ plainEnum.elements, m.enumMember.eval.value = none := by
    intro m hm
    rcases List.mem_cons.mp hm with rfl | hm
    · rfl
    · obtain rfl := List.mem_singleton.mp hm
      rfl
  have hmixed : mixedEnum.IntegerMembers := by
    intro m hm v hv
    rcases List.mem_cons.mp hm with rfl | hm
    · cases hv
    · obtain rfl := List.mem_singleton.mp hm
      obtain rfl := Option.some.inj hv
      exact ⟨rfl,"2",rfl,by decide⟩
  constructor
  · exact (enum_numbered_iff plainEnum (fun m hm v hv => by rw [hplain m hm] at hv; cases hv)).mpr hplain
  · intro h
    have hvalue := (enum_numbered_iff mixedEnum hmixed).mp h _ (List.mem_cons_of_mem _ (List.mem_singleton_self _))
    cases hvalue

/-- Building an enum with an explicit integer raises an exception. -/
theorem explicit_value_fails : ¬ ∀ d : EnumDefine, d.IntegerMembers →
      ∃ e, d.eval = .ok e ∧ e.name = d.id ∧ Numbered d.written e.members := by
  intro h
  have hinteger : explicitEnum.IntegerMembers := by
    intro m hm v hv
    obtain rfl := List.mem_singleton.mp hm
    obtain rfl := Option.some.inj hv
    exact ⟨rfl,"1",rfl,by decide⟩
  obtain ⟨e,heval,_⟩ := h explicitEnum hinteger
  cases heval

end FeatureRuntime.JidlParser
