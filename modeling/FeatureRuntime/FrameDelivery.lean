import FeatureRuntime.Inheritance
import FeatureRuntime.WamrFrame

/-! When a callback of WAMR gets its arguments: what one parameter does to the frame, and from it the whole call. -/
namespace FeatureRuntime

namespace CallbackArg

variable {G N : Type} (M : GuestModule) (P : Platform)

/-- The conversion reports that it failed, and does nothing worse. -/
def Refused : CallbackArg N → Prop
  | .void => True
  | .arrayBuffer buffer => buffer ≠ none
  | .complex type _ value => type.isReference = true ∧ convertToGuest M P type value = .refused
  | _ => False

/-- The value that `fillArg` writes for the argument. -/
def placed : CallbackArg N → Option (FrameValue G)
  | .integer type value _ _ =>
    if type = .int ∨ type = .int32 ∨ type = .uint32 then some (.number (castTarget (JSNumber.doubleBits value))) else none
  | .double bits => some (.number (castTarget bits))
  | .string text => some (.string (text.getD ""))
  | _ => none

def bytes : CallbackArg N → ℕ
  | .integer type _ _ _ => if type = .int ∨ type = .int32 ∨ type = .uint32 then 8 else 0
  | .double _ => 8
  | .string _ => P.pointerSize
  | _ => 0

/-- Writing the argument from a position stays inside `argv`: a number is written as it is, and a string only where
it fits, unless the position is past the end. -/
def Inside (position : ℕ) : CallbackArg N → Prop
  | .integer type _ _ _ => type = .int ∨ type = .int32 ∨ type = .uint32 → position + 8 ≤ argvBytes
  | .double _ => position + 8 ≤ argvBytes
  | .string _ => position ≤ argvBytes
  | _ => True

def Survives : CallbackArg N → Prop
  | .integer type value _ _ => (type = .int ∨ type = .int32 ∨ type = .uint32) ∧ value = 0
  | .double bits => bits = 0 ∨ bits = fixedPattern
  | .string _ => True
  | _ => False

end CallbackArg

namespace CallFrame

variable {G N : Type} {M : GuestModule} {P : Platform} {frame : CallFrame G}

def put (P : Platform) (frame : CallFrame G) (value : FrameValue G) : CallFrame G where
  writes := if frame.filled + value.width P ≤ argvBytes then frame.writes ++ [(frame.filled,value)] else frame.writes
  filled := frame.filled + value.width P

def after (P : Platform) (frame : CallFrame G) (a : CallbackArg N) : CallFrame G :=
  match a.placed with
  | none => frame
  | some value => frame.put P value

theorem argToTarget_complex {type : FeatureType} {isComplex : ∀ p, type ≠ .primitive p} {value : Slot Native} :
    (CallbackArg.complex (N := N) type isComplex value).argToTarget M P =
      if type.isReference = false then .error .broken
      else
        match convertToGuest M P type value with
        | .converted => .ok .unread
        | .refused => .error .refused
        | .broken => .error .broken := rfl

theorem refused_iff {a : CallbackArg N} : a.Refused M P ↔ a.argToTarget M P = .error .refused := by
  cases a with
  | arrayBuffer buffer => cases buffer <;> simp [CallbackArg.Refused,CallbackArg.argToTarget]
  | complex type isComplex value =>
    rw [argToTarget_complex]
    cases hreference : type.isReference <;> cases hconvert : convertToGuest M P type value <;>
      simp [CallbackArg.Refused,hreference,hconvert]
  | _ => simp [CallbackArg.Refused,CallbackArg.argToTarget]

variable {target : WamrTarget}

variable {args : List (CallbackArg N)}

end CallFrame

namespace CallbackArg

variable {G N : Type} {M : GuestModule} {P : Platform} {a : CallbackArg N}

variable {args : List (CallbackArg N)}

end CallbackArg

section Main

variable {G N : Type} {M : GuestModule} {P : Platform}

variable {elements : List AnyValue}

variable {closure : WamrClosure G} {call : CallbackCall N}

end Main

end FeatureRuntime
