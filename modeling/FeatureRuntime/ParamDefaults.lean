import FeatureRuntime.JidlTypes
import FeatureRuntime.MethodCall

/-! Default values of parameters: the parameter lists that the JIDL grammar derives, the parameter
types that are written for them, and the calls that the runtime accepts. -/
namespace FeatureRuntime.Jidl

section OptionalSuffix

variable {α : Type*} (p : α → Bool)

/-- A predicate that an element hands on to the next one holds of a suffix. -/
theorem isChain_iff_split (l : List α) : l.IsChain (fun a b => p a = true → p b = true) ↔
      ∃ l₁ l₂, l = l₁ ++ l₂ ∧ (∀ x ∈ l₁, p x = false) ∧ ∀ x ∈ l₂, p x = true := by
  constructor
  · intro h
    induction l with
    | nil => exact ⟨[],[],rfl,by simp,by simp⟩
    | cons a l ih =>
      obtain ⟨l₁,l₂,rfl,hbefore,hafter⟩ := ih h.tail
      cases ha : p a with
      | false => exact ⟨a :: l₁,l₂,rfl,by simpa [ha] using hbefore,hafter⟩
      | true =>
        cases l₁ with
        | nil => exact ⟨[],a :: l₂,rfl,by simp,by simpa [ha] using hafter⟩
        | cons b l₁ =>
          have hb : p b = true := (List.isChain_cons_cons.mp h).1 ha
          rw [hbefore b List.mem_cons_self] at hb
          cases hb
  · rintro ⟨l₁,l₂,rfl,hbefore,hafter⟩
    apply List.Pairwise.isChain
    rw [List.pairwise_append]
    refine ⟨?_,?_,fun a ha b hb _ => hafter b hb⟩
    · refine List.Pairwise.imp_of_mem (R := fun _ _ => True) ?_ (List.pairwise_of_forall (fun _ _ => trivial))
      intro a b ha _ _ hpa
      rw [hbefore a ha] at hpa
      cases hpa
    · refine List.Pairwise.imp_of_mem (R := fun _ _ => True) ?_ (List.pairwise_of_forall (fun _ _ => trivial))
      exact fun _ hb _ _ => hafter _ hb

/-- As many elements of the end as there are that satisfy the predicate all satisfy it, exactly when
they are a suffix. -/
theorem isChain_iff_drop (l : List α) : l.IsChain (fun a b => p a = true → p b = true) ↔
      ∀ k, l.length ≤ k + l.countP p → ∀ x ∈ l.drop k, p x = true := by
  rw [isChain_iff_split]
  constructor
  · rintro ⟨l₁,l₂,rfl,hbefore,hafter⟩ k hk x hx
    have hnone : l₁.countP p = 0 := by
      rw [List.countP_eq_zero]
      intro a ha
      simp [hbefore a ha]
    have hall : l₂.countP p = l₂.length := List.countP_eq_length.mpr hafter
    rw [List.countP_append,List.length_append,hnone,hall] at hk
    rw [List.drop_append,List.drop_eq_nil_of_le (by omega),List.nil_append] at hx
    exact hafter x (List.mem_of_mem_drop hx)
  · intro h
    have hle : l.countP p ≤ l.length := List.countP_le_length
    have hafter := h (l.length - l.countP p) (by omega)
    refine ⟨l.take (l.length - l.countP p),l.drop (l.length - l.countP p),(List.take_append_drop _ _).symm,?_,hafter⟩
    have hdrop : (l.drop (l.length - l.countP p)).countP p = l.countP p := by
      rw [List.countP_eq_length.mpr hafter,List.length_drop]
      omega
    have hsum : l.countP p = (l.take (l.length - l.countP p)).countP p +
        (l.drop (l.length - l.countP p)).countP p := by
      rw [← List.countP_append,List.take_append_drop]
    have hnone : (l.take (l.length - l.countP p)).countP p = 0 := by omega
    intro x hx
    simpa using List.countP_eq_zero.mp hnone x hx

end OptionalSuffix

/-- A `LiteralValue` with its text. -/
structure LiteralValue where
  text : String
  type : BaseName
  deriving DecidableEq, Repr

def LiteralValue.isNull (v : LiteralValue) : Bool := v.type = .null

/-- A `ParamDefine` after `Resolve`. -/
structure ParamDefine where
  type : TypeNode
  name : String
  default : Option LiteralValue := none
  deriving DecidableEq, Repr

/-- An entry of a `ParamList`. -/
inductive ParamEntry
  | define (param : ParamDefine)
  | ellipse (primary : Option BaseName)
  deriving DecidableEq, Repr

def ParamEntry.hasDefault : ParamEntry → Bool
  | .define param => param.default.isSome
  | .ellipse _ => false

/-- The productions of `param_may_defualt`. -/
inductive ParamMayDefault
  | plain (type : TypeNode) (name : String)
  | withDefault (type : TypeNode) (name : String) (value : LiteralValue)

/-- The productions of `param_list_may_defualts`. -/
inductive ParamListMayDefaults
  | one (param : ParamMayDefault)
  | append (list : ParamListMayDefaults) (param : ParamMayDefault)

/-- The productions of `param_list_may_defualts_args`. -/
inductive ParamListMayDefaultsArgs
  | empty
  | ellipse (primary : Option BaseName)
  | params (list : ParamListMayDefaults)
  | paramsEllipse (list : ParamListMayDefaults) (primary : Option BaseName)

/-- `p_param_may_default`. -/
def ParamMayDefault.node : ParamMayDefault → ParamDefine
  | .plain type name => { type := type, name := name }
  | .withDefault type name value => { type := type, name := name, default := some value }

/-- `p_param_list_may_defualts`. -/
def ParamListMayDefaults.node : ParamListMayDefaults → List ParamEntry
  | .one param => [.define param.node]
  | .append list param => list.node ++ [.define param.node]

/-- `p_param_list_may_defualts_args`. -/
def ParamListMayDefaultsArgs.node : ParamListMayDefaultsArgs → List ParamEntry
  | .empty => []
  | .ellipse primary => [.ellipse primary]
  | .params list => list.node
  | .paramsEllipse list primary => list.node ++ [.ellipse primary]

def ParamDefine.checkDefault (param : ParamDefine) : Bool :=
  match param.default with
  | none => true
  | some value => param.type.isNullable == value.isNull

/-- `Resolve` and `Check` of a parameter list whose types are known report no error: the defaults are
right and the names differ. -/
def resolves (params : List ParamEntry) : Bool :=
  (params.all fun entry => match entry with
    | .define param => param.checkDefault
    | .ellipse _ => true) &&
  (params.filterMap fun entry => match entry with
    | .define param => some param.name
    | .ellipse _ => none).Nodup

/-- An element of the emitted array of parameter types. -/
inductive FtExpr
  | info (info : FtInfo)
  | optional (info : FtInfo) (default : String)
  | restEnd
  deriving DecidableEq, Repr

/-- The loop body of `GenParamsFeatureType`; `none` is an exception. -/
def genParam (names : NameSets) : ParamEntry → Option FtExpr
  | .ellipse _ => some .restEnd
  | .define param => do
    let info ← generateFeatureInfo names param.type.json
    match param.default with
    | none => return .info info
    | some value =>
      if info.isComplex && value.text ≠ "null" then none
      else return .optional info value.text

def genParamsFeatureType (names : NameSets) (params : List ParamEntry) : Option (List FtExpr) :=
  params.mapM (genParam names)

/-- The words of the emitted array, as the C compiler reads them: `inl` is a type and `inr` says
whether the array ends in `FT_PARAM_REST_END`. -/
def FtExpr.word (d : Descriptors) (optionalValue : FtInfo → String → OptionalValue) :
    FtExpr → Option (FeatureType ⊕ Bool)
  | .info ft => (ft.featureType d).map .inl
  | .optional ft value =>
    (ft.featureType d).map fun type => .inl (.optional type (optionalValue ft value))
  | .restEnd => some (.inr true)

/-- What `getParamCount` finds in an array of words. -/
def getParams : List (FeatureType ⊕ Bool) → List FeatureType × Bool
  | .inl type :: words => (type :: (getParams words).1,(getParams words).2)
  | .inr rest :: _ => ([],rest)
  | [] => ([],false)

def compileMethod (names : NameSets) (d : Descriptors)
    (optionalValue : FtInfo → String → OptionalValue) (returnType : FeatureType)
    (params : List ParamEntry) : Option MemberMethod := do
  let exprs ← genParamsFeatureType names params
  let words ← exprs.mapM (FtExpr.word d optionalValue)
  let found := getParams words
  return ⟨found.1,found.2,returnType⟩

/-- The checks of `methodCall` on the kinds of the parameters, in a call with `argc` arguments. -/
def consistent (method : MemberMethod) (argc : ℕ) : Bool :=
  !(method.hasRest && 0 < optionalCount method.parameters) &&
  (method.hasRest || optionalCount method.parameters = 0 || (method.parameters.drop argc).all FeatureType.isOptional)

/-- Compiler and runtime agree on the optional parameters of a method. -/
structure Agrees (params : List ParamEntry) (method : MemberMethod) : Prop where
  suffix : ∃ n : ℕ, ∀ (i : ℕ) (param : ParamDefine), params[i]? = some (.define param) →
    (param.default.isSome ↔ n ≤ i)
  noRest : ∀ param, ParamEntry.define param ∈ params → param.default.isSome →
    ∀ primary, ParamEntry.ellipse primary ∉ params
  filled : ∀ style argc, countFits method style argc = true → method.hasRest = false →
    0 < optionalCount method.parameters → ∀ type ∈ method.parameters.drop argc, type.isOptional = true
  checks : ∀ style argc, countFits method style argc = true → consistent method argc = true

def DefaultsLast (params : List ParamEntry) : Prop :=
  params.IsChain fun entry next => entry.hasDefault = true → next.hasDefault = true

theorem node_eq (params : ParamListMayDefaultsArgs) : ∃ defines : List ParamDefine, ∃ rest : Option (Option BaseName),
      params.node = defines.map .define ++ rest.toList.map .ellipse := by
  have hlist : ∀ params : ParamListMayDefaults, ∃ defines : List ParamDefine, params.node = defines.map .define := by
    intro params
    induction params with
    | one param => exact ⟨[param.node],rfl⟩
    | append params param ih =>
      obtain ⟨defines,heq⟩ := ih
      refine ⟨defines ++ [param.node],?_⟩
      rw [ParamListMayDefaults.node,heq,List.map_append,List.map_singleton]
  cases params with
  | empty => exact ⟨[],none,rfl⟩
  | ellipse primary => exact ⟨[],some primary,rfl⟩
  | params params =>
    obtain ⟨defines,heq⟩ := hlist params
    exact ⟨defines,none,by simp [ParamListMayDefaultsArgs.node,heq]⟩
  | paramsEllipse params primary =>
    obtain ⟨defines,heq⟩ := hlist params
    exact ⟨defines,some primary,by simp [ParamListMayDefaultsArgs.node,heq]⟩

variable {names : NameSets} {d : Descriptors} {optionalValue : FtInfo → String → OptionalValue}
  {returnType : FeatureType} {method : MemberMethod}

theorem genParam_word {param : ParamDefine} {expr : FtExpr} {word : FeatureType ⊕ Bool}
    (hexpr : genParam names (.define param) = some expr)
    (hword : expr.word d optionalValue = some word) :
    ∃ type, word = .inl type ∧ type.isOptional = param.default.isSome := by
  obtain ⟨info,-,hrest⟩ := Option.bind_eq_some_iff.mp hexpr
  cases hdefault : param.default with
  | none =>
    rw [hdefault] at hrest
    cases hrest
    obtain ⟨type,htype,rfl⟩ := Option.map_eq_some_iff.mp hword
    exact ⟨type,rfl,FtInfo.isOptional_eq_false htype⟩
  | some value =>
    rw [hdefault] at hrest
    dsimp only at hrest
    split_ifs at hrest
    cases hrest
    obtain ⟨type,-,rfl⟩ := Option.map_eq_some_iff.mp hword
    exact ⟨_,rfl,rfl⟩

variable {defines : List ParamDefine} {rest : Option (Option BaseName)}

theorem getParams_eq {exprs : List FtExpr} {words : List (FeatureType ⊕ Bool)}
    (hexprs : genParamsFeatureType names (defines.map .define ++ rest.toList.map .ellipse) = some exprs)
    (hwords : exprs.mapM (FtExpr.word d optionalValue) = some words) :
    (getParams words).2 = rest.isSome ∧
      (getParams words).1.map FeatureType.isOptional = defines.map (·.default.isSome) := by
  unfold genParamsFeatureType at hexprs
  induction defines generalizing exprs words with
  | nil =>
    cases rest with
    | none =>
      cases hexprs
      cases hwords
      exact ⟨rfl,rfl⟩
    | some primary =>
      cases hexprs
      cases hwords
      exact ⟨rfl,rfl⟩
  | cons param defines ih =>
    rw [List.map_cons,List.cons_append,List.mapM_cons] at hexprs
    obtain ⟨expr,hexpr,hrest⟩ := Option.bind_eq_some_iff.mp hexprs
    obtain ⟨exprs',hexprs',heq⟩ := Option.bind_eq_some_iff.mp hrest
    cases heq
    rw [List.mapM_cons] at hwords
    obtain ⟨word,hword,hrest⟩ := Option.bind_eq_some_iff.mp hwords
    obtain ⟨words',hwords',heq⟩ := Option.bind_eq_some_iff.mp hrest
    cases heq
    obtain ⟨type,rfl,htype⟩ := genParam_word hexpr hword
    obtain ⟨hhas,htypes⟩ := ih hexprs' hwords'
    refine ⟨hhas,?_⟩
    rw [getParams,List.map_cons,List.map_cons,htypes,htype]

theorem compileMethod_eq (h : compileMethod names d optionalValue returnType
      (defines.map .define ++ rest.toList.map .ellipse) = some method) :
    method.hasRest = rest.isSome ∧ method.parameters.map FeatureType.isOptional = defines.map (·.default.isSome) := by
  obtain ⟨exprs,hexprs,hrest⟩ := Option.bind_eq_some_iff.mp h
  obtain ⟨words,hwords,hmethod⟩ := Option.bind_eq_some_iff.mp hrest
  cases hmethod
  exact getParams_eq hexprs hwords

/-- With an ellipsis at the end, the defaults are last only when there are none. -/
theorem defaultsLast_iff : DefaultsLast (defines.map .define ++ rest.toList.map .ellipse) ↔
      (defines.map (·.default.isSome)).IsChain (fun b b' => b = true → b' = true) ∧
        (rest.isSome = true → ∀ param ∈ defines, param.default.isSome = false) := by
  cases rest with
  | none =>
    simp only [DefaultsLast,Option.toList_none,List.map_nil,List.append_nil,List.isChain_map,
      Option.isSome_none,Bool.false_eq_true,false_imp_iff,and_true]
    rfl
  | some primary =>
    have hall : DefaultsLast (defines.map .define ++ [.ellipse primary]) ↔
        ∀ param ∈ defines, param.default.isSome = false := by
      unfold DefaultsLast
      rw [isChain_iff_split]
      constructor
      · rintro ⟨l₁,l₂,heq,hbefore,hafter⟩ param hparam
        -- the ellipsis has no default, so that nothing has one
        have hnone : l₂ = [] := by
          by_contra hne
          have hlast : l₂.getLast? = some (.ellipse primary) := by
            rw [← List.getLast?_append_of_ne_nil l₁ hne,← heq,List.getLast?_concat]
          have hdefault := hafter _ (List.mem_of_getLast? hlast)
          cases hdefault
        rw [hnone,List.append_nil] at heq
        apply hbefore (.define param)
        rw [← heq]
        exact List.mem_append_left _ (List.mem_map_of_mem hparam)
      · intro hnone
        refine ⟨_,[],(List.append_nil _).symm,?_,by simp⟩
        intro entry hentry
        rcases List.mem_append.mp hentry with hentry | hentry
        · obtain ⟨param,hparam,rfl⟩ := List.mem_map.mp hentry
          exact hnone param hparam
        · rw [List.mem_singleton.mp hentry]
          rfl
    simp only [Option.toList_some,List.map_cons,List.map_nil,hall,Option.isSome_some,forall_const]
    refine ⟨fun hnone => ⟨?_,hnone⟩,fun h => h.2⟩
    rw [isChain_iff_split (fun b => b)]
    refine ⟨_,[],(List.append_nil _).symm,?_,by simp⟩
    intro b hb
    obtain ⟨param,hparam,rfl⟩ := List.mem_map.mp hb
    exact hnone param hparam

theorem isChain_parameters_iff
    (hoptional : method.parameters.map FeatureType.isOptional = defines.map (·.default.isSome)) :
    (defines.map (·.default.isSome)).IsChain (fun b b' => b = true → b' = true) ↔
      ∀ k, method.parameters.length ≤ k + optionalCount method.parameters →
        ∀ type ∈ method.parameters.drop k, type.isOptional = true := by
  rw [← hoptional,List.isChain_map]
  exact isChain_iff_drop FeatureType.isOptional method.parameters

theorem optionalCount_eq_zero_iff
    (hoptional : method.parameters.map FeatureType.isOptional = defines.map (·.default.isSome)) :
    optionalCount method.parameters = 0 ↔ ∀ param ∈ defines, param.default.isSome = false := by
  have hcount : optionalCount method.parameters = defines.countP (·.default.isSome) := by
    have hmap := congrArg (List.countP (fun b => b)) hoptional
    rwa [List.countP_map,List.countP_map] at hmap
  rw [hcount,List.countP_eq_zero]
  simp

/-- Compiler and runtime agree on a method exactly when its defaults are last. -/
theorem agrees_iff_defaultsLast {params : ParamListMayDefaultsArgs}
    (h : compileMethod names d optionalValue returnType params.node = some method) :
    Agrees params.node method ↔ DefaultsLast params.node := by
  obtain ⟨defines,rest,heq⟩ := node_eq params
  rw [heq] at h ⊢
  obtain ⟨hrest,hoptional⟩ := compileMethod_eq h
  constructor
  · intro hagrees
    rw [defaultsLast_iff,← optionalCount_eq_zero_iff hoptional,isChain_parameters_iff hoptional]
    constructor
    · intro k hk
      cases hhas : method.hasRest with
      | true =>
        -- the first check of a call with the fixed arguments
        have hcount : countFits method .plain method.parameters.length = true := by
          simp [countFits,hhas]
        have hchecks := hagrees.checks .plain _ hcount
        have hnone : optionalCount method.parameters = 0 := by
          simpa [consistent,hhas] using hchecks
        rw [List.drop_eq_nil_of_le (by omega)]
        simp
      | false =>
        by_cases hzero : optionalCount method.parameters = 0
        · rw [List.drop_eq_nil_of_le (by omega)]
          simp
        · have hcount : countFits method .plain k = true := by
            simp [countFits,hhas,Nat.pos_of_ne_zero hzero,hk]
          exact hagrees.filled .plain k hcount hhas (Nat.pos_of_ne_zero hzero)
    · intro hsome
      have hcount : countFits method .plain method.parameters.length = true := by
        simp [countFits,hrest,hsome]
      have hchecks := hagrees.checks .plain _ hcount
      simpa [consistent,hrest,hsome] using hchecks
  · intro hlast
    obtain ⟨l₁,l₂,hsplit,hbefore,hafter⟩ := (isChain_iff_split _ _).mp hlast
    obtain ⟨hchain,hnone⟩ := defaultsLast_iff.mp hlast
    rw [isChain_parameters_iff hoptional] at hchain
    rw [← optionalCount_eq_zero_iff hoptional,← hrest] at hnone
    have hfilled : ∀ style argc, countFits method style argc = true → method.hasRest = false →
        0 < optionalCount method.parameters → ∀ type ∈ method.parameters.drop argc, type.isOptional = true := by
      intro style argc hcount hhas hpos
      apply hchain
      simpa [countFits,hhas,hpos] using hcount
    refine ⟨⟨l₁.length,fun i param hparam => ?_⟩,?_,hfilled,fun style argc hcount => ?_⟩
    · rw [hsplit] at hparam
      by_cases hi : i < l₁.length
      · rw [List.getElem?_append_left hi] at hparam
        have hdefault : param.default.isSome = false := hbefore _ (List.mem_of_getElem? hparam)
        simp [hdefault,hi]
      · rw [List.getElem?_append_right (by omega)] at hparam
        have hdefault : param.default.isSome = true := hafter _ (List.mem_of_getElem? hparam)
        simp only [hdefault,true_iff]
        omega
    · intro param hparam hdefault primary hellipse
      have hsome : rest.isSome = true := by
        rcases List.mem_append.mp hellipse with hin | hin
        · obtain ⟨other,-,hother⟩ := List.mem_map.mp hin
          cases hother
        · obtain ⟨other,hother,-⟩ := List.mem_map.mp hin
          rw [Option.mem_toList.mp hother]
          rfl
      have hdefine : param ∈ defines := by
        rcases List.mem_append.mp hparam with hin | hin
        · obtain ⟨other,hother,heq⟩ := List.mem_map.mp hin
          cases heq
          exact hother
        · obtain ⟨other,-,hother⟩ := List.mem_map.mp hin
          cases hother
      rw [hrest] at hnone
      have hzero := (optionalCount_eq_zero_iff hoptional).mp (hnone hsome) param hdefine
      rw [hzero] at hdefault
      cases hdefault
    · unfold consistent
      cases hhas : method.hasRest with
      | true => simp [hnone hhas]
      | false =>
        by_cases hzero : optionalCount method.parameters = 0
        · simp [hzero]
        · simpa [hzero] using hfilled style argc hcount hhas (Nat.pos_of_ne_zero hzero)

def Descriptors.empty : Descriptors where
  callback _ := ⟨[],false⟩
  struct _ := (0,[])
  interface _ := 0
  message _ := .mk [] []

/-- `f(int a, int b = 1)`. -/
theorem agrees_trailing_default : Agrees (ParamListMayDefaultsArgs.params (.append (.one (.plain (.primary .int) "a"))
      (.withDefault (.primary .int) "b" ⟨"1",.int⟩))).node
      ⟨[.primitive .int,.optional (.primitive .int) {}],false,.primitive .void⟩ := by
  have hmethod : compileMethod ⟨[],[],[]⟩ .empty (fun _ _ => {}) (.primitive .void)
      (ParamListMayDefaultsArgs.params (.append (.one (.plain (.primary .int) "a"))
        (.withDefault (.primary .int) "b" ⟨"1",.int⟩))).node =
      some ⟨[.primitive .int,.optional (.primitive .int) {}],false,.primitive .void⟩ := rfl
  exact (agrees_iff_defaultsLast hmethod).mpr (by unfold DefaultsLast; decide)

/-- `f(int a = 1, int b)` passes the compiler. -/
theorem default_before_required : ∃ params : ParamListMayDefaultsArgs, resolves params.node = true ∧ ∃ method,
      compileMethod ⟨[],[],[]⟩ .empty (fun _ _ => {}) (.primitive .void) params.node = some method ∧
        ¬Agrees params.node method := by
  refine ⟨.params (.append (.one (.withDefault (.primary .int) "a" ⟨"1",.int⟩))
    (.plain (.primary .int) "b")),by decide,_,rfl,fun hagrees => ?_⟩
  have hchecks := hagrees.checks .plain 1 (by decide)
  revert hchecks
  decide

end FeatureRuntime.Jidl
