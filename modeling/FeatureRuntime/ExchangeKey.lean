import FeatureRuntime.CText
import FeatureRuntime.MachineInt
import Mathlib.Data.List.Basic

/-! The keys of `system.exchange`: the checks of a request in the C++ feature and in the Rust feature. -/
namespace FeatureRuntime

/-- `EXCHAGE_OP`, without the initial one. -/
inductive ExchangeKind
  | get
  | set
  | remove
  | clear
  deriving DecidableEq

/-- `PROPERTY_KEY_MAX` and `PROPERTY_VALUE_MAX`. -/
structure PropertyLimits where
  key : ℕ
  value : ℕ

/-- What the check reads of an `ExchangeHandle`, by the bytes of its C strings; a null string is `none`. -/
structure ExchangeArgs where
  op : ExchangeKind
  key : Option (List UInt8) := none
  value : Option (List UInt8) := none
  scope : Option (List UInt8) := none
  package : Option (List UInt8) := none
  sign : Option (List UInt8) := none

/-- What `system_exchange_wrap_set`, `_get`, `_remove` and `_clear` put into the handle. -/
def ExchangeKind.args (key value scope : Option (List UInt8)) : ExchangeKind → ExchangeArgs
  | .get => { op := .get, key := key, scope := scope }
  | .set => { op := .set, key := key, value := value, scope := scope }
  | .remove => { op := .remove, key := key, scope := scope }
  | .clear => { op := .clear, scope := scope }

/-- What the check returns, with the key of the property that it leaves in the handle. -/
inductive ExchangeCheck
  | error
  | ok (key : List UInt8)
  /-- No buffer is as short as the length that is asked for. -/
  | undefined
  deriving DecidableEq

/-- `snprintf` into a buffer of some size. -/
def snprintf (size : ℕ) (text : List UInt8) : List UInt8 := text.take (size - 1)

def propertyKey (scope key : List UInt8) : List UInt8 := utf8 "persist." ++ scope ++ utf8 "." ++ key

namespace ExchangeArgs

variable (limits : PropertyLimits) (args : ExchangeArgs)

def keyScope : Option (List UInt8) :=
  match args.scope with
  | none => args.package
  | some scope =>
    if scope = utf8 "application" then if args.package = none ∨ args.sign = none then none else args.package
    else if scope = utf8 "vendor" ∨ scope = utf8 "global" then
      if args.package ≠ none ∨ args.sign ≠ none then none else some scope
    else none

/-- `key_len`, an `int`. -/
def keyLen (scope : List UInt8) (key : Option (List UInt8)) : ℤ :=
  let keyLen := toInt (8 + scope.length + 1)
  match key with
  | none => keyLen
  | some key => toInt (keyLen + (key.length + 1))

/-- `exchange_args_get_and_check`. -/
def getAndCheck : ExchangeCheck :=
  if args.op ≠ .clear ∧ args.key.getD [] = [] then .error
  else if args.op = .set ∧ (args.value.getD [] = [] ∨ limits.value ≤ (args.value.getD []).length) then .error
  else
    match args.keyScope with
    | none => .error
    | some scope =>
      let keyLen := keyLen scope args.key
      if keyLen > limits.key then .error
      else if keyLen ≤ 0 then .undefined
      else .ok (snprintf keyLen.toNat (propertyKey scope (args.key.getD (utf8 "(null)"))))

end ExchangeArgs

namespace RustExchange

def propKeyMax : ℕ := 127

def propValueMax : ℕ := 255

/-- An answer of the feature: the key of an accepted request, or the panic of `as_str` on bytes that are no
UTF-8. -/
inductive Answer
  | rejected
  | accepted (key : List UInt8)
  | panicked
  deriving DecidableEq

def Supported (scope : Option (List UInt8)) : Prop := scope = some (utf8 "vendor") ∨ scope = some (utf8 "global")

instance (scope : Option (List UInt8)) : Decidable (Supported scope) := inferInstanceAs (Decidable (_ ∨ _))

def processProperties (op : ExchangeKind) (key value scope : Option (List UInt8)) : Answer :=
  if key.getD [] = [] then .rejected
  else if scope.getD [] = [] then .rejected
  else if op = .set ∧ ¬(value.getD [] ≠ [] ∧ (value.getD []).length ≤ propValueMax) then .rejected
  else if ¬IsUtf8 (scope.getD []) then .panicked
  else if ¬Supported scope then .rejected
  else if 8 + (scope.getD []).length + 1 + (key.getD []).length + 1 > propKeyMax then .rejected
  -- the key is formatted
  else if ¬IsUtf8 (key.getD []) then .panicked
  else .accepted (propertyKey (scope.getD []) (key.getD []))

/-- `Exchange::set`, `get`, `remove` and `clear`; `clear` has no key. -/
def check (op : ExchangeKind) (key value scope : Option (List UInt8)) : Answer :=
  match op with
  | .clear =>
    if scope = none then .rejected
    else if ¬IsUtf8 (scope.getD []) then .panicked
    else if Supported scope then .accepted []
    else .rejected
  | .set =>
    match processProperties .set key value scope with
    -- `value.to_string()`
    | .accepted key' => if IsUtf8 (value.getD []) then .accepted key' else .panicked
    | answer => answer
  | _ => processProperties op key value scope

end RustExchange

/-- The readings of the limits: the C macros are those of the Rust feature, or count the terminator. -/
inductive LimitReading
  | same
  | terminated
  deriving DecidableEq

def LimitReading.limits : LimitReading → PropertyLimits
  | .same => ⟨RustExchange.propKeyMax,RustExchange.propValueMax⟩
  | .terminated => ⟨RustExchange.propKeyMax + 1,RustExchange.propValueMax + 1⟩

def ExchangeAgrees (limits : PropertyLimits) (op : ExchangeKind) (key value scope : Option (List UInt8)) : Prop :=
  match (op.args key value scope).getAndCheck limits,RustExchange.check op key value scope with
  | .error,.rejected => True
  | .ok key',.accepted key'' =>
    op ≠ .clear → key' = key'' ∧ key'' = propertyKey (scope.getD []) (key.getD [])
  | _,_ => False

def totalLength (key scope : Option (List UInt8)) : ℕ :=
  8 + (scope.getD []).length + 1 + (key.getD []).length + 1

def ExchangeNamed (key scope : Option (List UInt8)) : Prop :=
  key.getD [] ≠ [] ∧ RustExchange.Supported scope

def ExchangeFits (limit : ℕ) (op : ExchangeKind) (value : Option (List UInt8)) : Prop :=
  op = .set → value.getD [] ≠ [] ∧ (value.getD []).length < limit

/-- The requests in which the Rust feature gets to bytes that are no UTF-8: a scope that it compares, or the key
or the value of a request that passes its checks. -/
def ExchangePanics (op : ExchangeKind) (key value scope : Option (List UInt8)) : Prop :=
  if op = .clear then scope ≠ none ∧ ¬IsUtf8 (scope.getD [])
  else key.getD [] ≠ [] ∧ scope.getD [] ≠ [] ∧ ExchangeFits (RustExchange.propValueMax + 1) op value ∧
    (¬IsUtf8 (scope.getD []) ∨ RustExchange.Supported scope ∧ totalLength key scope ≤ RustExchange.propKeyMax ∧
      (¬IsUtf8 (key.getD []) ∨ op = .set ∧ ¬IsUtf8 (value.getD [])))

/-- The requests with a key that only one of the features accepts: a value of exactly the greatest length of
the Rust feature when the limits are the same, and a key too long for it whose length, as an `int`, is within
the limit of the C++ feature. -/
def ExchangeExceptional (reading : LimitReading) (op : ExchangeKind) (key value scope : Option (List UInt8)) : Prop :=
  op ≠ .clear ∧ ExchangeNamed key scope ∧
    (reading = .same ∧ op = .set ∧ (value.getD []).length = RustExchange.propValueMax ∧
        totalLength key scope ≤ RustExchange.propKeyMax ∨
      ExchangeFits reading.limits.value op value ∧ RustExchange.propKeyMax < totalLength key scope ∧
        toInt (totalLength key scope) ≤ reading.limits.key)

section Agreement

theorem length_propertyKey (key scope : Option (List UInt8)) :
    (propertyKey (scope.getD []) (key.getD [])).length + 1 = totalLength key scope := by
  have hpersist : (utf8 "persist.").length = 8 := by decide
  have hdot : (utf8 ".").length = 1 := by decide
  unfold propertyKey totalLength
  rw [List.length_append,List.length_append,List.length_append,hpersist,hdot]

theorem snprintf_whole {size : ℕ} {text : List UInt8} (h : text.length < size) : snprintf size text = text :=
  List.take_of_length_le (by omega)

theorem supported_length {scope : Option (List UInt8)} (h : RustExchange.Supported scope) :
    (scope.getD []).length = 6 := by
  rcases h with rfl | rfl <;> decide

theorem supported_utf8 {scope : Option (List UInt8)} (h : RustExchange.Supported scope) : IsUtf8 (scope.getD []) := by
  rcases h with rfl | rfl <;> exact isUtf8_utf8 _

theorem supported_ne {scope : Option (List UInt8)} (h : RustExchange.Supported scope) : scope.getD [] ≠ [] := by
  intro hempty
  have hlength := supported_length h
  rw [hempty] at hlength
  exact absurd hlength (by decide)

variable {op : ExchangeKind} {key value scope : Option (List UInt8)}

/-- What the checks of the Rust feature let pass. -/
def ExchangePasses (op : ExchangeKind) (key value scope : Option (List UInt8)) : Prop :=
  ExchangeNamed key scope ∧ ExchangeFits (RustExchange.propValueMax + 1) op value ∧
    totalLength key scope ≤ RustExchange.propKeyMax

theorem value_taken (hfits : ExchangeFits (RustExchange.propValueMax + 1) op value) :
    ¬(op = .set ∧ ¬(value.getD [] ≠ [] ∧ (value.getD []).length ≤ RustExchange.propValueMax)) := by
  rintro ⟨hset,hbad⟩
  exact hbad ⟨(hfits hset).1,Nat.lt_succ_iff.mp (hfits hset).2⟩

theorem rust_passes (h : ExchangePasses op key value scope) :
    RustExchange.processProperties op key value scope = if IsUtf8 (key.getD []) then
      .accepted (propertyKey (scope.getD []) (key.getD [])) else .panicked := by
  obtain ⟨⟨hkey,hscope⟩,hfits,hlength⟩ := h
  unfold totalLength at hlength
  unfold RustExchange.processProperties
  rw [if_neg hkey,if_neg (supported_ne hscope),if_neg (value_taken hfits),if_neg (not_not.mpr (supported_utf8 hscope)),
    if_neg (not_not.mpr hscope),if_neg (by omega)]
  split_ifs <;> rfl

theorem rust_scope_panics (hkey : key.getD [] ≠ []) (hscope : scope.getD [] ≠ [])
    (hfits : ExchangeFits (RustExchange.propValueMax + 1) op value) (hbad : ¬IsUtf8 (scope.getD [])) :
    RustExchange.processProperties op key value scope = .panicked := by
  unfold RustExchange.processProperties
  rw [if_neg hkey,if_neg hscope,if_neg (value_taken hfits),if_pos hbad]

theorem rust_refuses (h : ¬ExchangePasses op key value scope)
    (hquiet : ¬(key.getD [] ≠ [] ∧ scope.getD [] ≠ [] ∧ ExchangeFits (RustExchange.propValueMax + 1) op value ∧
      ¬IsUtf8 (scope.getD []))) : RustExchange.processProperties op key value scope = .rejected := by
  unfold RustExchange.processProperties
  by_cases hkey : key.getD [] = []
  · rw [if_pos hkey]
  rw [if_neg hkey]
  by_cases hempty : scope.getD [] = []
  · rw [if_pos hempty]
  rw [if_neg hempty]
  by_cases hvalue : op = .set ∧ ¬(value.getD [] ≠ [] ∧ (value.getD []).length ≤ RustExchange.propValueMax)
  · rw [if_pos hvalue]
  rw [if_neg hvalue]
  have hfits : ExchangeFits (RustExchange.propValueMax + 1) op value := by
    intro hset
    obtain ⟨hne,hle⟩ := not_and_not_right.mp hvalue hset
    exact ⟨hne,Nat.lt_succ_iff.mpr hle⟩
  rw [if_neg (fun hbad => hquiet ⟨hkey,hempty,hfits,hbad⟩)]
  by_cases hscope : RustExchange.Supported scope
  · rw [if_neg (not_not.mpr hscope),if_pos]
    by_contra hlength
    exact h ⟨⟨hkey,hscope⟩,hfits,Nat.not_lt.mp hlength⟩
  · rw [if_pos hscope]

theorem rust_panics (h : ExchangePanics op key value scope) :
    RustExchange.check op key value scope = .panicked := by
  unfold ExchangePanics at h
  split_ifs at h with hclear
  · subst hclear
    unfold RustExchange.check
    dsimp only
    rw [if_neg h.1,if_pos h.2]
  obtain ⟨hkey,hscope,hfits,hbad | ⟨hsupported,hlength,hbad⟩⟩ := h
  · have hprocess := rust_scope_panics hkey hscope hfits hbad
    cases op with
    | clear => exact absurd rfl hclear
    | set => simp only [RustExchange.check,hprocess]
    | _ => exact hprocess
  · have hpasses : ExchangePasses op key value scope := ⟨⟨hkey,hsupported⟩,hfits,hlength⟩
    have hprocess := rust_passes hpasses
    cases op with
    | clear => exact absurd rfl hclear
    | set =>
      simp only [RustExchange.check,hprocess]
      by_cases hutf8 : IsUtf8 (key.getD [])
      · simp only [if_pos hutf8,if_neg (hbad.resolve_left (not_not.mpr hutf8)).2]
      · simp only [if_neg hutf8]
    | _ => exact hprocess.trans (if_neg (hbad.resolve_right fun hset => ExchangeKind.noConfusion hset.1))

theorem rust_check (hop : op ≠ .clear)
    (hquiet : ¬ExchangePanics op key value scope) :
    RustExchange.check op key value scope = .accepted (propertyKey (scope.getD []) (key.getD [])) ∧
        ExchangePasses op key value scope ∨
      RustExchange.check op key value scope = .rejected ∧ ¬ExchangePasses op key value scope := by
  unfold ExchangePanics at hquiet
  rw [if_neg hop] at hquiet
  by_cases hpasses : ExchangePasses op key value scope
  · obtain ⟨⟨hkey,hscope⟩,hfits,hlength⟩ := hpasses
    have hutf8 : IsUtf8 (key.getD []) := by
      by_contra hbad
      exact hquiet ⟨hkey,supported_ne hscope,hfits,.inr ⟨hscope,hlength,.inl hbad⟩⟩
    have hprocess := (rust_passes ⟨⟨hkey,hscope⟩,hfits,hlength⟩).trans (if_pos hutf8)
    refine .inl ⟨?_,⟨hkey,hscope⟩,hfits,hlength⟩
    cases op with
    | clear => exact absurd rfl hop
    | set =>
      have hvalue : IsUtf8 (value.getD []) := by
        by_contra hbad
        exact hquiet ⟨hkey,supported_ne hscope,hfits,.inr ⟨hscope,hlength,.inr ⟨rfl,hbad⟩⟩⟩
      simp only [RustExchange.check,hprocess,if_pos hvalue]
    | _ => exact hprocess
  · have hprocess := rust_refuses hpasses (fun h => hquiet ⟨h.1,h.2.1,h.2.2.1,.inl h.2.2.2⟩)
    refine .inr ⟨?_,hpasses⟩
    cases op with
    | clear => exact absurd rfl hop
    | set => simp only [RustExchange.check,hprocess]
    | _ => exact hprocess

theorem keyLen_eq {key scope : Option (List UInt8)} (h : ExchangeNamed key scope) :
    ExchangeArgs.keyLen (scope.getD []) key = toInt (totalLength key scope) := by
  obtain ⟨hkey,hscope⟩ := h
  have hlength := supported_length hscope
  cases key with
  | none => exact absurd rfl hkey
  | some key =>
    unfold ExchangeArgs.keyLen totalLength
    rw [hlength]
    have hscopeLen : toInt (8 + ((6 : ℕ) : ℤ) + 1) = 15 := by decide
    dsimp only [Option.getD_some]
    rw [hscopeLen]
    congr 1

theorem keyScope_supported {args : ExchangeArgs} (hpackage : args.package = none) (hsign : args.sign = none)
    (h : RustExchange.Supported args.scope) : args.keyScope = some (args.scope.getD []) := by
  unfold ExchangeArgs.keyScope
  rw [hpackage,hsign]
  rcases h with h | h <;> rw [h] <;> rfl

theorem keyScope_unsupported {args : ExchangeArgs} (hpackage : args.package = none)
    (h : ¬RustExchange.Supported args.scope) : args.keyScope = none := by
  unfold ExchangeArgs.keyScope
  cases hscope : args.scope with
  | none => exact hpackage
  | some scope =>
    rw [RustExchange.Supported,hscope] at h
    simp only [Option.some.injEq] at h
    dsimp only
    rw [if_neg h,hpackage]
    split_ifs <;> rfl

theorem args_eq (hop : op ≠ .clear) (key value scope : Option (List UInt8)) :
    (op.args key value scope).op = op ∧ (op.args key value scope).key = key ∧
      (op = .set → (op.args key value scope).value = value) ∧ (op.args key value scope).scope = scope ∧
      (op.args key value scope).package = none ∧ (op.args key value scope).sign = none := by
  cases op with
  | clear => exact absurd rfl hop
  | set => exact ⟨rfl,rfl,fun _ => rfl,rfl,rfl,rfl⟩
  | get => exact ⟨rfl,rfl,fun h => ExchangeKind.noConfusion h,rfl,rfl,rfl⟩
  | remove => exact ⟨rfl,rfl,fun h => ExchangeKind.noConfusion h,rfl,rfl,rfl⟩

theorem cpp_check (limits : PropertyLimits) (hop : op ≠ .clear) (key value scope : Option (List UInt8)) :
    (op.args key value scope).getAndCheck limits = (if toInt (totalLength key scope) > limits.key then .error
        else if toInt (totalLength key scope) ≤ 0 then .undefined
        else .ok (snprintf (toInt (totalLength key scope)).toNat (propertyKey (scope.getD []) (key.getD [])))) ∧
        ExchangeNamed key scope ∧ ExchangeFits limits.value op value ∨
      (op.args key value scope).getAndCheck limits = .error ∧
        ¬(ExchangeNamed key scope ∧ ExchangeFits limits.value op value) := by
  obtain ⟨hargsOp,hargsKey,hargsValue,hargsScope,hpackage,hsign⟩ := args_eq hop key value scope
  unfold ExchangeArgs.getAndCheck
  rw [hargsOp,hargsKey]
  by_cases hkey : key.getD [] = []
  · rw [if_pos ⟨hop,hkey⟩]
    exact .inr ⟨rfl,fun h => h.1.1 hkey⟩
  rw [if_neg (fun h => hkey h.2)]
  by_cases hvalue : op = .set ∧ ((op.args key value scope).value.getD [] = [] ∨
      limits.value ≤ ((op.args key value scope).value.getD []).length)
  · rw [if_pos hvalue]
    refine .inr ⟨rfl,fun h => ?_⟩
    obtain ⟨hne,hlt⟩ := h.2 hvalue.1
    rw [hargsValue hvalue.1] at hvalue
    rcases hvalue.2 with h | h
    · exact hne h
    · exact absurd hlt (Nat.not_lt.mpr h)
  rw [if_neg hvalue]
  have hfits : ExchangeFits limits.value op value := by
    intro hset
    rw [hargsValue hset] at hvalue
    obtain ⟨hne,hlt⟩ := not_or.mp (fun h => hvalue ⟨hset,h⟩)
    exact ⟨hne,Nat.not_le.mp hlt⟩
  by_cases hscope : scope = some (utf8 "vendor") ∨ scope = some (utf8 "global")
  · have hnamed : ExchangeNamed key scope := ⟨hkey,hscope⟩
    refine .inl ⟨?_,hnamed,hfits⟩
    rw [keyScope_supported hpackage hsign (by rwa [hargsScope]),hargsScope]
    dsimp only
    rw [keyLen_eq hnamed]
    cases key with
    | none => exact absurd rfl hkey
    | some key => rfl
  · rw [keyScope_unsupported hpackage (by rwa [hargsScope])]
    exact .inr ⟨rfl,fun h => hscope h.1.2⟩

theorem clear_check {limits : PropertyLimits} (hlimits : 15 ≤ limits.key) (key value scope : Option (List UInt8)) :
    RustExchange.Supported scope ∧
        (∃ key', (ExchangeKind.clear.args key value scope).getAndCheck limits = .ok key') ∨
      ¬RustExchange.Supported scope ∧
        (ExchangeKind.clear.args key value scope).getAndCheck limits = .error := by
  unfold ExchangeArgs.getAndCheck
  rw [if_neg (fun h => h.1 rfl),if_neg (fun h => ExchangeKind.noConfusion h.1)]
  by_cases hscope : RustExchange.Supported scope
  · refine .inl ⟨hscope,?_⟩
    have hargs : (ExchangeKind.clear.args key value scope).keyScope = some (scope.getD []) :=
      keyScope_supported rfl rfl hscope
    have hlength : ExchangeArgs.keyLen (scope.getD []) none = 15 := by
      unfold ExchangeArgs.keyLen
      rw [supported_length hscope]
      decide
    rw [hargs]
    change ∃ key', (if ExchangeArgs.keyLen (scope.getD []) none > limits.key then ExchangeCheck.error else _) = _
    rw [hlength,if_neg (by omega)]
    change ∃ key', (if ExchangeArgs.keyLen (scope.getD []) none ≤ 0 then ExchangeCheck.undefined else _) = _
    rw [hlength,if_neg (by decide)]
    exact ⟨_,rfl⟩
  · have hargs : (ExchangeKind.clear.args key value scope).keyScope = none := keyScope_unsupported rfl hscope
    rw [hargs]
    exact .inr ⟨hscope,rfl⟩

theorem clear_agrees (reading : LimitReading)
    (hquiet : ¬ExchangePanics .clear key value scope) : ExchangeAgrees reading.limits .clear key value scope := by
  have hlimits : 15 ≤ reading.limits.key := by cases reading <;> decide
  have hutf8 : scope ≠ none → IsUtf8 (scope.getD []) := fun hne => by
    by_contra hbad
    exact hquiet ⟨hne,hbad⟩
  unfold ExchangeAgrees RustExchange.check
  dsimp only
  rcases clear_check hlimits key value scope with ⟨hscope,key',hcheck⟩ | ⟨hscope,hcheck⟩
  · have hsome : scope ≠ none := by rcases hscope with rfl | rfl <;> exact Option.some_ne_none _
    rw [hcheck,if_neg hsome,if_neg (not_not.mpr (hutf8 hsome)),if_pos hscope]
    exact fun h => absurd rfl h
  · rw [hcheck]
    by_cases hnone : scope = none
    · rw [if_pos hnone]
      trivial
    · rw [if_neg hnone,if_neg (not_not.mpr (hutf8 hnone)),if_neg hscope]
      trivial

end Agreement

/-- Under each reading of the limits the features agree on exactly the requests that are not exceptional and in
which the Rust feature does not panic. -/
theorem exchange_agrees_iff (reading : LimitReading) (op : ExchangeKind) (key value scope : Option (List UInt8)) :
    ExchangeAgrees reading.limits op key value scope ↔
      ¬ExchangePanics op key value scope ∧ ¬ExchangeExceptional reading op key value scope := by
  by_cases hpanics : ExchangePanics op key value scope
  · refine iff_of_false ?_ (fun h => h.1 hpanics)
    unfold ExchangeAgrees
    rw [rust_panics hpanics]
    cases (op.args key value scope).getAndCheck reading.limits <;> exact id
  simp only [hpanics,not_false_eq_true,true_and]
  by_cases hop : op = .clear
  · subst hop
    exact iff_of_true (clear_agrees reading hpanics) (fun h => h.1 rfl)
  have hkeyLimit : RustExchange.propKeyMax ≤ reading.limits.key := by cases reading <;> decide
  have hshort : totalLength key scope ≤ RustExchange.propKeyMax →
      toInt (totalLength key scope) = totalLength key scope := by
    intro h
    apply toInt_of_le (Int.natCast_nonneg _)
    unfold intMax RustExchange.propKeyMax at *
    omega
  unfold ExchangeAgrees
  rcases cpp_check reading.limits hop key value scope with ⟨hcpp,hnamed,hfits⟩ | ⟨hcpp,hbad⟩
  · have hfits' : ExchangeFits (RustExchange.propValueMax + 1) op value := by
      intro hset
      refine ⟨(hfits hset).1,Nat.lt_of_lt_of_le (hfits hset).2 ?_⟩
      cases reading <;> decide
    rcases rust_check hop hpanics with ⟨hrust,_,_,hle⟩ | ⟨hrust,hlong⟩
    · -- Both accept: the length is that of the whole key.
      rw [hcpp,hrust,hshort hle,if_neg (by omega),if_neg (by unfold totalLength; omega)]
      refine iff_of_true (fun _ => ⟨?_,rfl⟩) ?_
      · apply snprintf_whole
        rw [← length_propertyKey]
        omega
      · rintro ⟨_,_,⟨rfl,hset,hvalue,_⟩ | ⟨_,hlt,_⟩⟩
        · exact absurd (hfits hset).2 (by rw [hvalue]; decide)
        · omega
    · have hlong : RustExchange.propKeyMax < totalLength key scope :=
        Nat.not_le.mp (fun h => hlong ⟨hnamed,hfits',h⟩)
      rw [hcpp,hrust]
      by_cases hwithin : toInt (totalLength key scope) ≤ reading.limits.key
      · rw [if_neg (Int.not_lt.mpr hwithin)]
        refine iff_of_false ?_ (not_not.mpr ⟨hop,hnamed,.inr ⟨hfits,hlong,hwithin⟩⟩)
        split_ifs <;> exact id
      · rw [if_pos (Int.not_le.mp hwithin)]
        refine iff_of_true trivial ?_
        rintro ⟨_,_,⟨_,_,_,hle⟩ | ⟨_,_,hle⟩⟩
        · omega
        · exact hwithin hle
  · rw [hcpp]
    rcases rust_check hop hpanics with ⟨hrust,hnamed,hfits,hle⟩ | ⟨hrust,hlong⟩
    · -- Only a value of the greatest length fits one and not the other.
      rw [hrust]
      refine iff_of_false id (not_not.mpr ⟨hop,hnamed,.inl ?_⟩)
      have hnot : ¬ ExchangeFits reading.limits.value op value := fun h => hbad ⟨hnamed,h⟩
      unfold ExchangeFits at hnot hfits
      obtain ⟨hset,hnot⟩ := Classical.not_imp.mp hnot
      obtain ⟨hne,hlt⟩ := hfits hset
      have hge := Nat.not_lt.mp (fun hless => hnot ⟨hne,hless⟩)
      cases reading with
      | same => exact ⟨rfl,hset,Nat.le_antisymm (Nat.lt_succ_iff.mp hlt) hge,hle⟩
      | terminated => exact absurd hlt (Nat.not_lt.mpr hge)
    · rw [hrust]
      refine iff_of_true trivial ?_
      rintro ⟨_,hnamed,⟨rfl,hset,hvalue,hle⟩ | ⟨hfits,_,_⟩⟩
      · refine hlong ⟨hnamed,fun _ => ⟨?_,by omega⟩,hle⟩
        intro hempty
        rw [hempty] at hvalue
        exact absurd hvalue (by decide)
      · exact hbad ⟨hnamed,hfits⟩

/-- Under no reading do the features agree on every request: one disagrees about a value of 255 bytes, the
other about a key of 112. -/
theorem no_common_reading :
    ¬ ∃ reading : LimitReading, ∀ op key value scope, ExchangeAgrees reading.limits op key value scope := by
  rintro ⟨reading,h⟩
  have hscope : some (utf8 "global") = some (utf8 "vendor") ∨ some (utf8 "global") = some (utf8 "global") := .inr rfl
  cases reading with
  | same =>
    obtain ⟨value,hvalue⟩ : ∃ value : List UInt8, value.length = 255 :=
      ⟨List.replicate 255 97,List.length_replicate⟩
    have hset := h .set (some (utf8 "k")) (some value) (some (utf8 "global"))
    rw [exchange_agrees_iff] at hset
    exact hset.2 ⟨by decide,⟨by decide,hscope⟩,.inl ⟨rfl,rfl,hvalue,by decide⟩⟩
  | terminated =>
    obtain ⟨key,hkey⟩ : ∃ key : List UInt8, key.length = 112 := ⟨List.replicate 112 97,List.length_replicate⟩
    have hget := h .get (some key) none (some (utf8 "global"))
    rw [exchange_agrees_iff] at hget
    have hlength : totalLength (some key) (some (utf8 "global")) = 128 := by
      unfold totalLength
      dsimp only [Option.getD_some]
      rw [hkey]
      decide
    have hne : key ≠ [] := List.ne_nil_of_length_pos (by omega)
    refine hget.2 ⟨by decide,⟨hne,hscope⟩,.inr ⟨fun hset => ExchangeKind.noConfusion hset,?_,?_⟩⟩
    · rw [hlength]
      decide
    · rw [hlength]
      decide

end FeatureRuntime
