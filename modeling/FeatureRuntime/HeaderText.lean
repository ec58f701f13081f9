import FeatureRuntime.CText
import Mathlib.Data.List.Induction

/-! The headers of a response: the parser that cuts the text up in place, and the object that the lines of
the text stand for. -/
namespace FeatureRuntime.HeaderText

abbrev Bytes := List UInt8

abbrev Properties := List (Bytes × Bytes)

def propertyOf (obj : Properties) (name : Bytes) : Option Bytes :=
  (obj.find? (fun p => p.1 = name)).map Prod.snd

def setEntry (name value : Bytes) : Properties → Properties
  | [] => [(name,value)]
  | p :: obj => if p.1 = name then (name,value) :: obj else p :: setEntry name value obj

def proto : Bytes := [95,95,112,114,111,116,111,95,95]

/-- `ft_obj_set_property` with a string: the prototype of an object does not become one. -/
def objSetProperty (obj : Properties) (name value : Bytes) : Properties :=
  if name = proto then obj else setEntry name value obj

/-- `strtok_r` with the delimiter `\n`: the block from the token on, with the delimiter behind the token
overwritten, and the block that is left for the next call. -/
def strtok : Bytes → Option (Option (Bytes × Bytes))
  | [] => none
  | c :: s =>
    if c = 10 then strtok s
    else if c = 0 then some none
    else cut [c] s
where
  /-- The token goes on to the next delimiter or to the terminator. -/
  cut (token : Bytes) : Bytes → Option (Option (Bytes × Bytes))
    | [] => none
    | c :: s =>
      if c = 10 then some (some (token ++ 0 :: s,s))
      else if c = 0 then some (some (token ++ 0 :: s,0 :: s))
      else cut (token ++ [c]) s

/-- `remove '\r'`. -/
def removeReturn (line : Bytes) (value : ℕ) : Option Bytes := do
  let length ← strlen (line.drop value)
  let last ← readByte line ((value : ℤ) + length - 1)
  if last = 13 then writeByte line (value + length - 1) 0 else pure line

/-- The body of the loop on the line at the start of the block: the key and the value, none when the line
has no colon. -/
def lineField (line : Bytes) : Option (Option (Bytes × Bytes)) := do
  match ← strchr 58 line with
  | none => return none
  | some colon =>
    let length ← strlen line
    -- `remove value ' '`
    let (line,value) ←
      if length > colon + 1 then do
        let line ← writeByte line (colon + 1) 0
        pure (line,colon + 2)
      else pure (line,colon + 1)
    -- `remove ':'`
    let line ← writeByte line colon 0
    let line ← removeReturn line value
    return some (cstr line,cstr (line.drop value))

def formLoop : ℕ → Bytes → Properties → Option Properties
  | 0,_,_ => none
  | fuel + 1,saveptr,obj => do
    match ← strtok saveptr with
    | none => return obj
    | some (line,saveptr) =>
      match ← lineField line with
      | none => formLoop fuel saveptr obj
      | some (key,value) => formLoop fuel saveptr (objSetProperty obj key value)

/-- `ft_form_headers`. -/
def formHeaders (headers : Bytes) : Option Properties :=
  formLoop (headers.length + 1) headers []

/-! The object that a text stands for. -/

def isBlank (c : UInt8) : Bool := c = 32 || c = 9

def field (line : Bytes) : Option (Bytes × Bytes) :=
  match line.dropWhile (· ≠ 58) with
  | [] => none
  | _ :: rest => some (line.takeWhile (· ≠ 58),rest)

def fields (text : Bytes) : List (Bytes × Bytes) := (text.splitOn 10).filterMap field

def dropReturn (s : Bytes) : Bytes := if s.getLast? = some 13 then s.dropLast else s

def value (rest : Bytes) : Bytes := (dropReturn rest).dropWhile isBlank

def lastRest (fields : List (Bytes × Bytes)) (name : Bytes) : Option Bytes :=
  (fields.reverse.find? (fun f => f.1 = name)).map Prod.snd

def mapping (text : Bytes) : Bytes → Option Bytes := fun name => (lastRest (fields text) name).map value

def Clean (rest : Bytes) : Prop :=
  rest = [] ∨ rest = [13] ∨ ∃ blank v, rest = blank :: v ∧ isBlank blank = true ∧ ∀ c ∈ v.head?, isBlank c = false

/-! What the loop makes of a line. -/

def cutValue (rest : Bytes) : Bytes := dropReturn rest.tail

theorem ne_colon {name : Bytes} (h : 58 ∉ name) : ∀ c ∈ name, decide (c ≠ 58) = true := by
  intro c hc
  have hne : c ≠ 58 := fun heq => h (heq ▸ hc)
  simpa using hne

variable {line : Bytes}

theorem field_of_notMem (h : 58 ∉ line) : field line = none := by
  have hdrop : line.dropWhile (· ≠ 58) = [] := List.dropWhile_eq_nil_iff.mpr (ne_colon h)
  rw [field,hdrop]

theorem field_append {name : Bytes} (h : 58 ∉ name) (rest : Bytes) :
    field (name ++ 58 :: rest) = some (name,rest) := by
  rw [field,List.dropWhile_append_of_pos (ne_colon h),List.takeWhile_append_of_pos (ne_colon h)]
  simp

/-- The byte before the value is a terminator, so that a return that goes is one of the value. -/
theorem removeReturn_eq (before v after : Bytes) (hv : 0 ∉ v) :
    ∃ after', removeReturn (before ++ 0 :: (v ++ 0 :: after)) (before.length + 1) =
      some (before ++ 0 :: (dropReturn v ++ 0 :: after')) := by
  have hdrop : (before ++ 0 :: (v ++ 0 :: after)).drop (before.length + 1) = v ++ 0 :: after := by
    simp
  simp only [removeReturn,hdrop,strlen_append hv,Option.bind_eq_bind,Option.bind_some]
  rcases List.eq_nil_or_concat v with rfl | ⟨w,x,rfl⟩
  · have hread : readByte (before ++ 0 :: ([] ++ 0 :: after))
        (((before.length + 1 : ℕ) : ℤ) + (([] : Bytes).length : ℕ) - 1) = some 0 := by
      have hindex : (((before.length + 1 : ℕ) : ℤ) + (([] : Bytes).length : ℕ) - 1) =
          before.length := by simp
      rw [hindex,readByte_append]
    rw [hread]
    exact ⟨after,rfl⟩
  · have hline : before ++ 0 :: (w ++ [x] ++ 0 :: after) = before ++ 0 :: w ++ x :: 0 :: after := by
      simp
    have hlength : ((before.length + 1 : ℕ) : ℤ) + ((w ++ [x]).length : ℕ) - 1 = (before ++ 0 :: w).length := by
      simp only [List.length_append,List.length_cons,List.length_nil]
      omega
    have hindex : before.length + 1 + (w ++ [x]).length - 1 = (before ++ 0 :: w).length := by
      simp only [List.length_append,List.length_cons,List.length_nil]
      omega
    rw [List.concat_eq_append,hline,hlength,hindex,readByte_append,Option.bind_some]
    by_cases hx : x = 13
    · refine ⟨0 :: after,?_⟩
      rw [if_pos hx,writeByte_append]
      simp [dropReturn,hx]
    · refine ⟨after,?_⟩
      rw [if_neg hx]
      simp [dropReturn,hx]

theorem lineField_of_notMem (h0 : 0 ∉ line) (h : 58 ∉ line) (after : Bytes) :
    lineField (line ++ 0 :: after) = some none := by
  simp [lineField,strchr_of_notMem h0 h (by decide)]

theorem lineField_append {name rest : Bytes} (hname : 0 ∉ name) (hcolon : 58 ∉ name)
    (hrest : 0 ∉ rest) (after : Bytes) :
    lineField (name ++ 58 :: rest ++ 0 :: after) = some (some (name,cutValue rest)) := by
  have hline : 0 ∉ name ++ 58 :: rest := by simp [hname,hrest]
  have hchr : strchr 58 (name ++ 58 :: rest ++ 0 :: after) = some (some name.length) := by
    rw [List.append_assoc]
    exact strchr_of_mem hname hcolon _
  have hlength : (name ++ 58 :: rest).length = name.length + 1 + rest.length := by
    simp only [List.length_append,List.length_cons]
    omega
  simp only [lineField,hchr,strlen_append hline,Option.bind_eq_bind,Option.bind_some,hlength]
  cases rest with
  | nil =>
    have hshort : ¬ name.length + 1 + ([] : Bytes).length > name.length + 1 := by simp
    have hwrite : writeByte (name ++ [58] ++ 0 :: after) name.length 0 = some (name ++ 0 :: ([] ++ 0 :: after)) := by
      have h := writeByte_append name 58 0 (0 :: after)
      simpa using h
    obtain ⟨after',hremove⟩ := removeReturn_eq name [] after List.not_mem_nil
    simp only [if_neg hshort,pure,Option.bind_some,hwrite,hremove]
    rw [CText.cstr_append hname]
    simp [cutValue,dropReturn,cstr]
  | cons c v =>
    have hlong : name.length + 1 + (c :: v).length > name.length + 1 := by simp
    have hv : 0 ∉ v := fun hmem => hrest (List.mem_cons_of_mem c hmem)
    have hfirst : writeByte (name ++ 58 :: c :: v ++ 0 :: after) (name.length + 1) 0 =
        some (name ++ 58 :: 0 :: (v ++ 0 :: after)) := by
      have h := writeByte_append (name ++ [58]) c 0 (v ++ 0 :: after)
      simpa using h
    have hsecond : writeByte (name ++ 58 :: 0 :: (v ++ 0 :: after)) name.length 0 =
        some (name ++ [0] ++ 0 :: (v ++ 0 :: after)) := by
      have h := writeByte_append name 58 0 (0 :: (v ++ 0 :: after))
      simpa using h
    obtain ⟨after',hremove⟩ := removeReturn_eq (name ++ [0]) v after hv
    have hvalue : (name ++ [0]).length + 1 = name.length + 2 := by simp
    rw [hvalue] at hremove
    have hdropReturn : 0 ∉ dropReturn v := by
      simp only [dropReturn]
      split_ifs
      · exact fun hmem => hv ((List.dropLast_sublist v).subset hmem)
      · exact hv
    have hdrop : (name ++ [0] ++ 0 :: (dropReturn v ++ 0 :: after')).drop (name.length + 2) =
        dropReturn v ++ 0 :: after' := by
      rw [← hvalue,← List.drop_drop,List.drop_left]
      rfl
    simp only [if_pos hlong,pure,hfirst,Option.bind_some,hsecond,hremove,hdrop,CText.cstr_append hdropReturn]
    have hkey : cstr (name ++ [0] ++ 0 :: (dropReturn v ++ 0 :: after')) = name := by
      rw [List.append_assoc]
      exact CText.cstr_append hname _
    rw [hkey]
    rfl

theorem lineField_eq (h0 : 0 ∉ line) (after : Bytes) :
    lineField (line ++ 0 :: after) = some ((field line).map (fun f => (f.1,cutValue f.2))) := by
  by_cases hcolon : 58 ∈ line
  · obtain ⟨name,rest,rfl,hname⟩ := List.eq_append_cons_of_mem hcolon
    have hname0 : 0 ∉ name := fun hmem => h0 (List.mem_append_left _ hmem)
    have hrest0 : 0 ∉ rest := fun hmem => h0 (by simp [hmem])
    rw [lineField_append hname0 hname hrest0,field_append hname]
    rfl
  · rw [lineField_of_notMem h0 hcolon,field_of_notMem hcolon]
    rfl

theorem cut_append {l : Bytes} (h10 : 10 ∉ l) (h0 : 0 ∉ l) (token s : Bytes) :
    strtok.cut token (l ++ s) = strtok.cut (token ++ l) s := by
  induction l generalizing token with
  | nil => simp
  | cons c l ih =>
    simp only [List.mem_cons,not_or] at h10 h0
    rw [List.cons_append,strtok.cut,if_neg (Ne.symm h10.1),if_neg (Ne.symm h0.1),ih h10.2 h0.2,
      List.append_assoc,List.singleton_append]

theorem cut_delimiter {l : Bytes} (h10 : 10 ∉ l) (h0 : 0 ∉ l) (token s : Bytes) :
    strtok.cut token (l ++ 10 :: s) = some (some (token ++ l ++ 0 :: s,s)) := by
  rw [cut_append h10 h0]
  simp [strtok.cut]

theorem cut_end {l : Bytes} (h10 : 10 ∉ l) (h0 : 0 ∉ l) (token : Bytes) :
    strtok.cut token (l ++ [0]) = some (some (token ++ l ++ [0],[0])) := by
  rw [cut_append h10 h0]
  simp [strtok.cut]

theorem fields_newline (text : Bytes) : fields (10 :: text) = fields text := by
  have hsplit := List.splitOn_cons_eq_if_modifyHead (a := 10) (10 : UInt8) text
  rw [fields,hsplit]
  rfl

theorem fields_line (h : 10 ∉ line) (text : Bytes) :
    fields (line ++ 10 :: text) = (field line).toList ++ fields text := by
  rw [fields,List.splitOn_append_cons_self_of_not_mem h]
  cases hfield : field line <;> simp [hfield,fields]

theorem fields_last (h : 10 ∉ line) : fields line = (field line).toList := by
  rw [fields,List.splitOn_eq_singleton h]
  cases hfield : field line <;> simp [hfield]

def applied (fields : List (Bytes × Bytes)) (obj : Properties) : Properties :=
  fields.foldl (fun obj f => objSetProperty obj f.1 (cutValue f.2)) obj

theorem formLoop_line {line block saveptr : Bytes} (h0 : 0 ∉ line) {after : Bytes}
    (hstrtok : strtok block = some (some (line ++ 0 :: after,saveptr))) (fuel : ℕ) (obj : Properties) :
    formLoop (fuel + 1) block obj = formLoop fuel saveptr (applied (field line).toList obj) := by
  simp only [formLoop,hstrtok,Option.bind_eq_bind,Option.bind_some,lineField_eq h0]
  cases field line <;> rfl

theorem formLoop_eq (text : Bytes) (h0 : 0 ∉ text) (fuel : ℕ) (hfuel : text.length < fuel)
    (obj : Properties) : formLoop fuel (text ++ [0]) obj = some (applied (fields text) obj) := by
  induction hn : text.length using Nat.strongRecOn generalizing text fuel obj with
  | ind n ih =>
    subst hn
    cases fuel with
    | zero => omega
    | succ fuel =>
      cases text with
      | nil => rfl
      | cons c t =>
        simp only [List.mem_cons,not_or] at h0
        rw [List.length_cons] at hfuel
        by_cases hc : c = 10
        · subst hc
          have hskip : formLoop (fuel + 1) (10 :: t ++ [0]) obj =
              formLoop (fuel + 1) (t ++ [0]) obj := by simp [formLoop,strtok]
          rw [hskip,fields_newline]
          exact ih t.length (by simp) t h0.2 (fuel + 1) (by omega) obj rfl
        · by_cases hmem : 10 ∈ t
          · obtain ⟨l,s,rfl,hl⟩ := List.eq_append_cons_of_mem hmem
            have hl0 : 0 ∉ l := fun hmem0 => h0.2 (List.mem_append_left _ hmem0)
            have hs0 : 0 ∉ s := fun hmem0 => h0.2 (by simp [hmem0])
            have hline0 : 0 ∉ c :: l := by simp [h0.1,hl0]
            have hline10 : 10 ∉ c :: l := by simp [Ne.symm hc,hl]
            have hstrtok : strtok (c :: (l ++ 10 :: s) ++ [0]) =
                some (some (c :: l ++ 0 :: (s ++ [0]),s ++ [0])) := by
              have hcut := cut_delimiter hl hl0 [c] (s ++ [0])
              simpa [strtok,hc,Ne.symm h0.1] using hcut
            rw [formLoop_line hline0 hstrtok]
            have hfields : fields (c :: (l ++ 10 :: s)) = (field (c :: l)).toList ++ fields s :=
              fields_line hline10 s
            have happlied : applied ((field (c :: l)).toList ++ fields s) obj =
                applied (fields s) (applied (field (c :: l)).toList obj) := List.foldl_append
            rw [hfields,happlied]
            simp only [List.length_append,List.length_cons] at hfuel
            exact ih s.length (by simp; omega) s hs0 fuel (by omega) _ rfl
          · have hline0 : 0 ∉ c :: t := by simp [h0.1,h0.2]
            have hline10 : 10 ∉ c :: t := by simp [Ne.symm hc,hmem]
            have hstrtok : strtok (c :: t ++ [0]) = some (some (c :: t ++ [0],[0])) := by
              have hcut := cut_end hmem h0.2 [c]
              simpa [strtok,hc,Ne.symm h0.1] using hcut
            rw [formLoop_line hline0 hstrtok,fields_last hline10]
            exact ih 0 (by simp) [] List.not_mem_nil fuel (by rw [List.length_nil]; omega) _ rfl

theorem formHeaders_block (text : CText) : formHeaders text.block = some (applied (fields text.bytes) []) := by
  refine formLoop_eq text.bytes text.noNul _ ?_ _
  simp only [CText.block,List.length_append,List.length_singleton]
  omega

/-! When the object is the one that the text stands for. -/

theorem dropReturn_cons {v : Bytes} (h : v ≠ []) (c : UInt8) : dropReturn (c :: v) = c :: dropReturn v := by
  obtain ⟨x,w,rfl⟩ := List.exists_cons_of_ne_nil h
  simp only [dropReturn,List.getLast?_cons_cons]
  split_ifs <;> simp

theorem head_dropReturn {v : Bytes} (h : v ≠ [13]) : (dropReturn v).head? = v.head? := by
  cases v with
  | nil => rfl
  | cons c w =>
    by_cases hw : w = []
    · subst hw
      have hc : c ≠ 13 := fun heq => h (by rw [heq])
      simp [dropReturn,hc]
    · rw [dropReturn_cons hw]
      rfl

theorem dropWhile_eq_self_iff (p : UInt8 → Bool) (s : Bytes) : s.dropWhile p = s ↔ ∀ c ∈ s.head?, p c = false := by
  cases s with
  | nil => simp
  | cons c s =>
    cases hc : p c with
    | false => simp [hc]
    | true =>
      refine iff_of_false (fun heq => ?_) (by simp [hc])
      have hlen := congrArg List.length heq
      have hle := (s.dropWhile_sublist p).length_le
      simp only [List.dropWhile_cons,hc,if_true,List.length_cons] at hlen
      omega

theorem cutValue_eq_iff (rest : Bytes) : cutValue rest = value rest ↔ Clean rest := by
  cases rest with
  | nil => exact iff_of_true rfl (.inl rfl)
  | cons c v =>
    by_cases hv : v = []
    · subst hv
      by_cases hc : c = 13
      · subst hc
        exact iff_of_true (by decide) (.inr (.inl rfl))
      · cases hblank : isBlank c with
        | true =>
          refine iff_of_true ?_ (.inr (.inr ⟨c,[],rfl,hblank,by simp⟩))
          simp [cutValue,value,dropReturn,hc,hblank]
        | false =>
          refine iff_of_false (by simp [cutValue,value,dropReturn,hc,hblank]) ?_
          rintro (h | h | ⟨blank,w,h,hb,-⟩)
          · exact List.cons_ne_nil _ _ h
          · exact hc (List.cons.inj h).1
          · rw [← (List.cons.inj h).1,hblank] at hb
            exact Bool.noConfusion hb
    · have hvalue : value (c :: v) = (c :: dropReturn v).dropWhile isBlank := by
        rw [value,dropReturn_cons hv]
      have hcut : cutValue (c :: v) = dropReturn v := rfl
      rw [hvalue,hcut]
      cases hblank : isBlank c with
      | true =>
        rw [List.dropWhile_cons_of_pos hblank,eq_comm,dropWhile_eq_self_iff]
        have hhead : (∀ b ∈ (dropReturn v).head?, isBlank b = false) ↔ ∀ b ∈ v.head?, isBlank b = false := by
          by_cases hreturn : v = [13]
          · subst hreturn
            exact iff_of_true (by simp [dropReturn]) (by simp [isBlank])
          · rw [head_dropReturn hreturn]
        rw [hhead]
        constructor
        · intro h
          exact .inr (.inr ⟨c,v,rfl,hblank,h⟩)
        · rintro (h | h | ⟨blank,w,h,-,hw⟩)
          · exact absurd h (List.cons_ne_nil _ _)
          · exact absurd (List.cons.inj h).2 hv
          · rwa [(List.cons.inj h).2]
      | false =>
        rw [List.dropWhile_cons_of_neg (by simp [hblank])]
        refine iff_of_false (fun h => ?_) ?_
        · have hlen := congrArg List.length h
          rw [List.length_cons] at hlen
          omega
        · rintro (h | h | ⟨blank,w,h,hb,-⟩)
          · exact List.cons_ne_nil _ _ h
          · exact hv (List.cons.inj h).2
          · rw [← (List.cons.inj h).1,hblank] at hb
            exact Bool.noConfusion hb

theorem propertyOf_setEntry (name value : Bytes) (obj : Properties) (key : Bytes) :
    propertyOf (setEntry name value obj) key =
      if name = key then some value else propertyOf obj key := by
  induction obj with
  | nil => by_cases hkey : name = key <;> simp [setEntry,propertyOf,hkey]
  | cons p obj ih =>
    simp only [propertyOf] at ih ⊢
    by_cases hp : p.1 = name
    · by_cases hkey : name = key <;> simp [setEntry,hp,hkey]
    · by_cases hkey : p.1 = key
      · have hne : name ≠ key := fun h => hp (hkey.trans h.symm)
        rw [setEntry,if_neg hp]
        simp [hkey,hne]
      · simp [setEntry,hp,hkey,ih]

/-- The object has every name but one with the value that was cut out of its last line. -/
theorem propertyOf_applied (fields : List (Bytes × Bytes)) (name : Bytes) : propertyOf (applied fields []) name =
      if name = proto then none else (lastRest fields name).map cutValue := by
  induction fields using List.reverseRecOn with
  | nil => simp [applied,lastRest,propertyOf]
  | append_singleton fields f ih =>
    have happlied : applied (fields ++ [f]) [] = objSetProperty (applied fields []) f.1 (cutValue f.2) := by
      simp [applied]
    have hlast : lastRest (fields ++ [f]) name =
        if f.1 = name then some f.2 else lastRest fields name := by
      simp only [lastRest,List.reverse_append,List.reverse_singleton,List.singleton_append,List.find?_cons]
      by_cases hf : f.1 = name <;> simp [hf]
    rw [happlied,hlast,objSetProperty]
    by_cases hproto : f.1 = proto
    · rw [if_pos hproto,ih]
      by_cases hname : name = proto
      · rw [if_pos hname,if_pos hname]
      · have hne : f.1 ≠ name := fun h => hname (h ▸ hproto)
        rw [if_neg hname,if_neg hname,if_neg hne]
    · rw [if_neg hproto,propertyOf_setEntry]
      by_cases hf : f.1 = name
      · subst hf
        simp [hproto]
      · rw [if_neg hf,ih,if_neg hf]

/-- For every text: the parser stays within the text and makes the object that its lines stand for exactly
when, of the last line with each name, nothing, a lone carriage return or one blank and no second follows
the colon, and no line is about the prototype. -/
theorem headers_parsed_iff (text : CText) : (formHeaders text.block).map propertyOf = some (mapping text.bytes) ↔
      ∀ name rest, lastRest (fields text.bytes) name = some rest → name ≠ proto ∧ Clean rest := by
  rw [formHeaders_block,Option.map_some,Option.some_inj,funext_iff]
  refine forall_congr' (fun name => ?_)
  rw [propertyOf_applied,mapping]
  cases hlast : lastRest (fields text.bytes) name with
  | none => simp
  | some rest =>
    simp only [Option.map_some,Option.some.injEq,forall_eq']
    by_cases hname : name = proto
    · simp [hname]
    · rw [if_neg hname,Option.some_inj,cutValue_eq_iff]
      exact (and_iff_right hname).symm

/-- `a:b`. -/
def tightLine : CText := ⟨[97,58,98],by decide⟩

/-- The first byte of a value without a blank before it is lost. -/
theorem tight_line_cut : ¬ ∀ text : CText, (formHeaders text.block).map propertyOf = some (mapping text.bytes) := by
  intro h
  have hvalue := congrArg (Option.map (fun obj => obj [97])) (h tightLine)
  exact absurd hvalue (by decide)

end FeatureRuntime.HeaderText
