import FeatureRuntime.Convertor
import FeatureRuntime.TargetConvertor
import Mathlib.Data.List.Forall2
import Mathlib.Data.List.TakeWhile

/-! Native values of the types that hold data only (booleans, integers of up to 32 bits, strings,
structs, optionals and arrays), read out of their slots. -/
namespace FeatureRuntime

/-- The content of a native value, without the blocks that it lies in. -/
inductive DataValue
  | bool (value : Bool)
  | int (value : ℤ)
  | string (text : String)
  | illFormed (text : IllFormed)
  | record (members : List DataValue)
  | list (elements : List DataValue)

mutual

/-- The data as the engine takes it over: ill-formed strings are replaced. -/
def DataValue.decoded (E : TargetEnv) : DataValue → DataValue
  | .illFormed text => .string (cString (E.newString text.bytes))
  | .record members => .record (decodedAll E members)
  | .list elements => .list (decodedAll E elements)
  | value => value

def decodedAll (E : TargetEnv) : List DataValue → List DataValue
  | [] => []
  | value :: values => value.decoded E :: decodedAll E values

end

def PrimitiveType.intRange : PrimitiveType → Option (ℤ × ℤ)
  | .int | .int32 => some (-2 ^ 31,2 ^ 31)
  | .int8 => some (-2 ^ 7,2 ^ 7)
  | .int16 => some (-2 ^ 15,2 ^ 15)
  | .uint8 => some (0,2 ^ 8)
  | .uint16 => some (0,2 ^ 16)
  | .uint32 => some (0,2 ^ 32)
  | _ => none

def PrimitiveType.holds (type : PrimitiveType) (value : ℤ) : Bool :=
  match type.intRange with
  | some (low,high) => low ≤ value ∧ value < high
  | none => false

def PrimitiveType.isData (type : PrimitiveType) : Bool :=
  type = .boolean || type = .string || type.intRange.isSome

def apart (P : Platform) (m m' : ObjectMember FeatureType) : Bool :=
  m.offset + accessSize P m.type ≤ m'.offset || m'.offset + accessSize P m'.type ≤ m.offset

mutual

def FeatureType.isData (P : Platform) : FeatureType → Bool
  | .primitive type => type.isData
  | .structMap _ members =>
    isDataMembers P members && members.Pairwise (fun m m' => m.name ≠ m'.name ∧ apart P m m')
  | .optional type _ => type.isData P
  | .array elementType => elementType.isData P
  | _ => false

def isDataMembers (P : Platform) : List (ObjectMember FeatureType) → Bool
  | [] => true
  | ⟨_,type,_⟩ :: members => type.isData P && isDataMembers P members

end

def FeatureType.holdsObject : FeatureType → Bool
  | .optional type _ => type.holdsObject
  | .structMap .. | .array _ => true
  | _ => false

def readPrimitive (type : PrimitiveType) (slot : Slot Native) : Option DataValue :=
  match slot with
  | .value (.bool value) => if type = .boolean then some (.bool value) else none
  | .value (.int value) => if type.holds value then some (.int value) else none
  | .value (.string _ text) => if type = .string then some (.string (cString text)) else none
  | .value (.illFormed _ text) => if type = .string then some (.illFormed text) else none
  | .zero =>
    if type = .boolean then some (.bool false) else if type.holds 0 then some (.int 0) else none
  | _ => none

/-- The size of an `FtArray` with an element buffer that lies in the address space. -/
def arrayFits (P : Platform) (elementType : FeatureType) (size : ℤ) : Bool :=
  0 ≤ size ∧ size ≤ intMax ∧ elementSize P elementType * size.toNat < 2 ^ (8 * P.pointerSize)

mutual

def readNative (P : Platform) : FeatureType → Slot Native → Option DataValue
  | .primitive type, slot => readPrimitive type slot
  | .structMap _ members, slot =>
    match slot with
    | .value (.structMap _ _ memory) => (readMembers P members memory).map .record
    | _ => none
  | .optional type _, slot => readNative P type slot
  | .array elementType, slot =>
    match slot with
    | .value (.array _ _ size _ elements) =>
      if arrayFits P elementType size ∧ size.toNat ≤ elements.length then
        ((elements.take size.toNat).mapM (fun element => readNative P elementType (.ofOption element))).map .list
      else none
    | _ => none
  | _, _ => none

def readMembers (P : Platform) : List (ObjectMember FeatureType) → List (Write Native) → Option (List DataValue)
  | [], _ => some []
  | ⟨_,type,offset⟩ :: members, memory =>
    (readNative P type (load memory offset (accessSize P type))).bind
      (fun value => (readMembers P members memory).map (value :: ·))

end

section Reading

variable {P : Platform}

theorem isDataMembers_iff (members : List (ObjectMember FeatureType)) :
    isDataMembers P members = true ↔ ∀ m ∈ members, m.type.isData P = true := by
  induction members with
  | nil => simp [isDataMembers]
  | cons m members ih => simp [isDataMembers,ih]

theorem isData_structMap {size : ℕ} {members : List (ObjectMember FeatureType)}
    (h : (FeatureType.structMap size members).isData P = true) :
    (∀ m ∈ members, m.type.isData P = true) ∧
      members.Pairwise (fun m m' => m.name ≠ m'.name ∧ apart P m m' = true) := by
  rw [FeatureType.isData,Bool.and_eq_true,isDataMembers_iff,decide_eq_true_eq] at h
  exact h

theorem accessSize_pos {type : FeatureType} (h : type.isData P = true) : 0 < accessSize P type := by
  have hpointer : 0 < P.pointerSize := by
    obtain hp | hp := P.supported <;> omega
  induction type using FeatureType.induction with
  | primitive type =>
    cases type <;> first
      | exact hpointer
      | exact Nat.succ_pos _
      | simp [FeatureType.isData,PrimitiveType.isData,PrimitiveType.intRange] at h
  | optional type value ih => exact ih h
  | structMap | array => exact hpointer
  | _ => simp [FeatureType.isData] at h

theorem accessSize_of_holdsObject {type : FeatureType} (h : type.holdsObject = true) :
    accessSize P type = P.pointerSize := by
  induction type using FeatureType.induction with
  | optional type value ih => exact ih h
  | structMap | array => rfl
  | _ => simp [FeatureType.holdsObject] at h

theorem cString_cString (text : String) : cString (cString text) = cString text := by
  simp only [cString,String.toList_ofList,List.takeWhile_idem]

theorem readMembers_cons (m : ObjectMember FeatureType) (members : List (ObjectMember FeatureType))
    (memory : List (Write Native)) :
    readMembers P (m :: members) memory = (readNative P m.type (load memory m.offset (accessSize P m.type))).bind
        (fun value => (readMembers P members memory).map (value :: ·)) := rfl

theorem readMembers_cons_eq_some {m : ObjectMember FeatureType}
    {members : List (ObjectMember FeatureType)} {memory : List (Write Native)}
    {contents : List DataValue} :
    readMembers P (m :: members) memory = some contents ↔ ∃ value rest, contents = value :: rest ∧
        readNative P m.type (load memory m.offset (accessSize P m.type)) = some value ∧
        readMembers P members memory = some rest := by
  rw [readMembers_cons]
  simp only [Option.bind_eq_some_iff,Option.map_eq_some_iff]
  constructor
  · rintro ⟨value,hvalue,rest,hrest,rfl⟩
    exact ⟨value,rest,rfl,hvalue,hrest⟩
  · rintro ⟨value,rest,rfl,hvalue,hrest⟩
    exact ⟨value,hvalue,rest,hrest,rfl⟩

theorem mapM_cons_eq_some {α β : Type} {f : α → Option β} {x : α} {xs : List α} {ys : List β} :
    (x :: xs).mapM f = some ys ↔ ∃ y rest, ys = y :: rest ∧ f x = some y ∧ xs.mapM f = some rest := by
  simp only [List.mapM_cons,Option.bind_eq_bind,Option.bind_eq_some_iff,Option.pure_def,Option.some.injEq]
  constructor
  · rintro ⟨y,hy,rest,hrest,rfl⟩
    exact ⟨y,rest,rfl,hy,hrest⟩
  · rintro ⟨y,rest,rfl,hy,hrest⟩
    exact ⟨y,hy,rest,hrest,rfl⟩

theorem length_mapM {α β : Type} {f : α → Option β} {xs : List α} {ys : List β}
    (h : xs.mapM f = some ys) : ys.length = xs.length := by
  induction xs generalizing ys with
  | nil =>
    obtain rfl : [] = ys := Option.some.inj h
    rfl
  | cons x xs ih =>
    obtain ⟨y,rest,rfl,-,hrest⟩ := mapM_cons_eq_some.mp h
    rw [List.length_cons,List.length_cons,ih hrest]

theorem length_decodedAll (E : TargetEnv) (values : List DataValue) : (decodedAll E values).length = values.length := by
  induction values with
  | nil => rfl
  | cons value values ih => rw [decodedAll,List.length_cons,List.length_cons,ih]

end Reading
end FeatureRuntime
