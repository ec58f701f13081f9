import FeatureRuntime.RefCount
import FeatureRuntime.Transition
import Mathlib.Data.Nat.Notation
import Mathlib.Tactic.Common

/-! `ArrayBufferQjs`: an array buffer between the holders of its `FeatureValue`, the script that holds its JS object and
the manager that clears it. -/
namespace FeatureRuntime

open RefCount

/-- `ArrayBufferCreateParams`: bytes with or without a free function, with its opaque pointer, copied bytes, or a JS value. -/
inductive BufferSource
  | native (freeFunc : Bool) (opaquePtr : ℕ)
  | nativeCopy
  | target
  deriving DecidableEq

inductive BufferAllocator
  | new | malloc
  deriving DecidableEq

inductive BufferEvent
  | freeFunc (opaquePtr : ℕ)
  | infoFreed (allocator : BufferAllocator)
  | released
  | recordFreed (allocator : BufferAllocator)
  deriving DecidableEq

/-- A buffer with the 32-bit count in its header, its native holders, the references of the script to its JS object, and
whether `val_` is defined. The manager lists it as long as it is. -/
structure ArrayBufferQjs where
  source : BufferSource
  refCount : ℕ
  holders : ℕ
  scriptRefs : ℕ
  retained : Bool
  log : List BufferEvent
  deriving DecidableEq

inductive BufferOp
  | dup | free | scriptTakes | scriptDrops | shutdown
  deriving DecidableEq

def BufferEvent.freeCalls (log : List BufferEvent) : List ℕ :=
  log.filterMap (fun | .freeFunc opaquePtr => some opaquePtr | _ => none)

def BufferEvent.infosFreed (log : List BufferEvent) : List BufferAllocator :=
  log.filterMap (fun | .infoFreed allocator => some allocator | _ => none)

def BufferEvent.recordsFreed (log : List BufferEvent) : List BufferAllocator :=
  log.filterMap (fun | .recordFreed allocator => some allocator | _ => none)

section Logs

variable (log log' : List BufferEvent)

theorem BufferEvent.freeCalls_append : freeCalls (log ++ log') = freeCalls log ++ freeCalls log' := List.filterMap_append

theorem BufferEvent.infosFreed_append : infosFreed (log ++ log') = infosFreed log ++ infosFreed log' :=
  List.filterMap_append

theorem BufferEvent.recordsFreed_append : recordsFreed (log ++ log') = recordsFreed log ++ recordsFreed log' :=
  List.filterMap_append

end Logs

namespace BufferSource

def scriptRefs : BufferSource → ℕ
  | .target => 1
  | _ => 0

/-- What the creation of an `ArrayBufferFreeInfo` uses. -/
def infoAllocator : BufferAllocator := .new

/-- The finalizer that `JS_NewArrayBuffer` is given: `free_func_with_opaque`, `free_func_without_opaque` or
`default_free_func`, which frees the bytes. Other bytes belong to the engine. -/
def finalizer : BufferSource → List BufferEvent
  | .native true opaquePtr => if opaquePtr ≠ 0 then [.freeFunc opaquePtr,.infoFreed .malloc] else [.freeFunc 0]
  | _ => []

end BufferSource

namespace ArrayBufferQjs

/-- `createArrayBuffer`; the record comes from `FeatureMalloc`. -/
def create (source : BufferSource) : ArrayBufferQjs := ⟨source,1,1,source.scriptRefs,true,[]⟩

variable (b : ArrayBufferQjs)

def collect : ArrayBufferQjs :=
  if b.scriptRefs = 0 ∧ b.retained = false then { b with log := b.log ++ b.source.finalizer } else b

def release : ArrayBufferQjs :=
  if b.retained then collect { b with retained := false, log := b.log ++ [.released] } else b

/-- `FeatureFreeValue`. The call that `destroy` is followed by takes a count of zero to the largest one and returns. -/
def freeValue : ArrayBufferQjs :=
  if b.holders = 0 then b
  else if b.refCount = 1 then
    let b' := { b with refCount := 0, holders := b.holders - 1 }.release
    { b' with log := b'.log ++ [.recordFreed .malloc] }
  else { b with refCount := lowered b.refCount, holders := b.holders - 1 }

def step : BufferOp → ArrayBufferQjs
  | .dup => if b.holders = 0 then b else { b with refCount := raised b.refCount, holders := b.holders + 1 }
  | .free => b.freeValue
  | .scriptTakes => if b.retained ∨ 0 < b.scriptRefs then { b with scriptRefs := b.scriptRefs + 1 } else b
  | .scriptDrops => if b.scriptRefs = 0 then b else { b with scriptRefs := b.scriptRefs - 1 }.collect
  -- `clearClearables`
  | .shutdown => b.release

def Unheld : Prop := b.holders = 0 ∧ b.scriptRefs = 0

instance : Decidable b.Unheld := inferInstanceAs (Decidable (_ ∧ _))

/-- The free function is called once with its own pointer when nobody holds the buffer any more, and its record is freed
then as it was made; the value is released once and the record of the buffer freed once when no native holder is left,
and as long as there are some the count is theirs. -/
structure Owned : Prop where
  counted : b.refCount = b.holders
  freeCalls : BufferEvent.freeCalls b.log = match b.source with
    | .native true opaquePtr => if b.Unheld then [opaquePtr] else []
    | _ => []
  infosFreed : BufferEvent.infosFreed b.log = match b.source with
    | .native true opaquePtr => if b.Unheld ∧ opaquePtr ≠ 0 then [BufferSource.infoAllocator] else []
    | _ => []
  released : b.log.count .released = if b.retained then 0 else 1
  ended : b.holders = 0 → b.retained = false
  recordsFreed : BufferEvent.recordsFreed b.log = if b.holders = 0 then [.malloc] else []

def Ends : BufferOp → Prop
  | .free => b.holders = 1 ∧ b.retained = true ∧ b.scriptRefs = 0
  | .scriptDrops => b.scriptRefs = 1 ∧ b.retained = false
  | .shutdown => b.retained = true ∧ b.scriptRefs = 0
  | _ => False

/-- The count does not come round, and an operation that gives up an object with a free function finds no opaque pointer
and leaves no native holder. -/
structure Proper (op : BufferOp) : Prop where
  room : op = .dup → b.holders + 1 < 2 ^ 32
  ends : b.Ends op → ∀ opaquePtr, b.source = .native true opaquePtr → opaquePtr = 0 ∧ (op = .free ∨ b.holders = 0)

/-- What holds in runs of proper operations: an object with a free function outlives the native holders. -/
structure Inv : Prop extends Owned b where
  outlives : ∀ opaquePtr, b.source = .native true opaquePtr → b.retained = false → b.scriptRefs = 0 → b.holders = 0

section Steps

variable {b}

@[simp] theorem step_source (op : BufferOp) : (b.step op).source = b.source := by
  cases op <;> simp only [step,freeValue,release,collect] <;> split_ifs <;> rfl

theorem Inv.of_log {b' : ArrayBufferQjs} (h : Inv b) (hsource : b'.source = b.source) (hlog : b'.log = b.log)
    (hretained : b'.retained = b.retained) (hcounted : b'.refCount = b'.holders) (hzero : b'.holders = 0 ↔ b.holders = 0)
    (hheld : b.retained = false → (b'.scriptRefs = 0 ↔ b.scriptRefs = 0)) : Inv b' := by
  have hunheld : b'.Unheld ↔ b.Unheld := by
    unfold Unheld
    rw [hzero]
    exact and_congr_right (fun h0 => hheld (h.ended h0))
  refine ⟨⟨hcounted,?_,?_,?_,fun h0 => ?_,?_⟩,fun opaquePtr hnative hfalse hscript => ?_⟩
  · simpa only [hlog,hsource,hunheld] using h.freeCalls
  · simpa only [hlog,hsource,hunheld] using h.infosFreed
  · rw [hlog,hretained]
    exact h.released
  · rw [hretained]
    exact h.ended (hzero.mp h0)
  · simpa only [hlog,hzero] using h.recordsFreed
  · rw [hsource] at hnative
    rw [hretained] at hfalse
    exact hzero.mpr (h.outlives opaquePtr hnative hfalse ((hheld hfalse).mp hscript))

theorem finalizer_eq_nil {source : BufferSource} {scriptRefs : ℕ}
    (h : ∀ opaquePtr, source = .native true opaquePtr → scriptRefs ≠ 0) :
    (if scriptRefs = 0 then source.finalizer else []) = [] := by
  split_ifs with hscript
  · cases source with
    | native freeFunc opaquePtr =>
      cases freeFunc with
      | true => exact absurd hscript (h opaquePtr rfl)
      | false => rfl
    | nativeCopy | target => rfl
  · rfl

/-- After the value is released the object is given up with the last reference of the script. -/
theorem inv_collected {source : BufferSource} {holders scriptRefs : ℕ} {log rest : List BufferEvent}
    (hproper : scriptRefs = 0 → ∀ opaquePtr, source = .native true opaquePtr → opaquePtr = 0 ∧ holders = 0)
    (hcalls : BufferEvent.freeCalls (log ++ rest) = []) (hinfos : BufferEvent.infosFreed (log ++ rest) = [])
    (hreleased : (log ++ rest).count .released = 1)
    (hrecords : BufferEvent.recordsFreed (log ++ rest) = if holders = 0 then [.malloc] else []) :
    Inv ⟨source,holders,holders,scriptRefs,false,log ++ (if scriptRefs = 0 then source.finalizer else []) ++ rest⟩ := by
  by_cases hcollected : scriptRefs = 0 ∧ ∃ opaquePtr, source = .native true opaquePtr
  · obtain ⟨rfl,opaquePtr,rfl⟩ := hcollected
    obtain ⟨rfl,rfl⟩ := hproper rfl opaquePtr rfl
    have hlog : log ++ (if 0 = 0 then (BufferSource.native true 0).finalizer else []) ++ rest =
        log ++ [.freeFunc 0] ++ rest := rfl
    rw [hlog]
    rw [BufferEvent.freeCalls_append,List.append_eq_nil_iff] at hcalls
    refine ⟨⟨rfl,?_,?_,?_,fun _ => rfl,?_⟩,fun _ _ _ _ => rfl⟩
    · show BufferEvent.freeCalls (log ++ [.freeFunc 0] ++ rest) = [0]
      rw [BufferEvent.freeCalls_append,BufferEvent.freeCalls_append,hcalls.1,hcalls.2]
      rfl
    · rw [BufferEvent.infosFreed_append] at hinfos
      rw [BufferEvent.infosFreed_append,BufferEvent.infosFreed_append]
      exact (congrArg (· ++ _) (List.append_nil _)).trans hinfos
    · show (log ++ [BufferEvent.freeFunc 0] ++ rest).count BufferEvent.released = 1
      rw [List.count_append] at hreleased
      rw [List.count_append,List.count_append]
      exact hreleased
    · rw [BufferEvent.recordsFreed_append] at hrecords
      rw [BufferEvent.recordsFreed_append,BufferEvent.recordsFreed_append]
      exact (congrArg (· ++ _) (List.append_nil _)).trans hrecords
  · have hheld : ∀ opaquePtr, source = .native true opaquePtr → scriptRefs ≠ 0 :=
      fun opaquePtr hnative hscript => hcollected ⟨hscript,opaquePtr,hnative⟩
    rw [finalizer_eq_nil hheld,List.append_nil]
    refine ⟨⟨rfl,?_,?_,hreleased,fun _ => rfl,hrecords⟩,
      fun opaquePtr hnative _ hscript => absurd hscript (hheld opaquePtr hnative)⟩
    · cases source with
      | native freeFunc opaquePtr =>
        cases freeFunc with
        | true => exact hcalls.trans (if_neg (fun hunheld => hheld opaquePtr rfl hunheld.2)).symm
        | false => exact hcalls
      | nativeCopy | target => exact hcalls
    · cases source with
      | native freeFunc opaquePtr =>
        cases freeFunc with
        | true => exact hinfos.trans (if_neg (fun hunheld => hheld opaquePtr rfl hunheld.1.2)).symm
        | false => exact hinfos
      | nativeCopy | target => exact hinfos

theorem Owned.quiet (h : Owned b) (hheld : ¬ b.Unheld) :
    BufferEvent.freeCalls b.log = [] ∧ BufferEvent.infosFreed b.log = [] := by
  have hcalls := h.freeCalls
  have hinfos := h.infosFreed
  constructor
  · rw [hcalls]
    split
    · exact if_neg hheld
    · rfl
  · rw [hinfos]
    split
    · exact if_neg (fun hboth => hheld hboth.1)
    · rfl

theorem release_eq (hretained : b.retained = true) : b.release = ⟨b.source,b.refCount,b.holders,b.scriptRefs,false,
      b.log ++ [.released] ++ if b.scriptRefs = 0 then b.source.finalizer else []⟩ := by
  unfold release collect
  rw [if_pos hretained]
  by_cases hscript : b.scriptRefs = 0 <;> simp [hscript]

theorem Inv.free (h : Inv b) (hproper : b.Proper .free) : Inv (b.step .free) := by
  show Inv b.freeValue
  unfold freeValue
  by_cases hzero : b.holders = 0
  · rw [if_pos hzero]
    exact h
  by_cases hone : b.holders = 1
  · rw [if_neg hzero,if_pos (h.counted.trans hone),hone]
    obtain ⟨hcalls,hinfos⟩ := h.quiet (fun hunheld => hzero hunheld.1)
    have hrecords := h.recordsFreed
    have hreleased := h.released
    rw [if_neg hzero] at hrecords
    by_cases hretained : b.retained = true
    · rw [if_pos hretained] at hreleased
      rw [release_eq (b := { b with refCount := 0, holders := 1 - 1 }) hretained]
      refine inv_collected (fun hscript opaquePtr hnative => ?_) ?_ ?_ ?_ ?_
      · exact ⟨(hproper.ends ⟨hone,hretained,hscript⟩ opaquePtr hnative).1,rfl⟩
      · rw [BufferEvent.freeCalls_append,BufferEvent.freeCalls_append,hcalls]
        rfl
      · rw [BufferEvent.infosFreed_append,BufferEvent.infosFreed_append,hinfos]
        rfl
      · rw [List.count_append,List.count_append,hreleased]
        rfl
      · rw [BufferEvent.recordsFreed_append,BufferEvent.recordsFreed_append,hrecords]
        rfl
    · have hfalse : b.retained = false := Bool.eq_false_iff.mpr hretained
      rw [if_neg hretained] at hreleased
      have hheld : ∀ opaquePtr, b.source = .native true opaquePtr → b.scriptRefs ≠ 0 :=
        fun opaquePtr hnative hscript => hzero (h.outlives opaquePtr hnative hfalse hscript)
      have hrelease : ArrayBufferQjs.release { b with refCount := 0, holders := 1 - 1 } =
          ⟨b.source,0,0,b.scriptRefs,false,b.log ++ if b.scriptRefs = 0 then b.source.finalizer else []⟩ := by
        rw [finalizer_eq_nil hheld,List.append_nil,← hfalse]
        exact if_neg hretained
      rw [hrelease]
      refine inv_collected (fun hscript opaquePtr hnative => absurd hscript (hheld opaquePtr hnative)) ?_ ?_ ?_ ?_
      · rw [BufferEvent.freeCalls_append,hcalls]
        rfl
      · rw [BufferEvent.infosFreed_append,hinfos]
        rfl
      · rw [List.count_append,hreleased]
        rfl
      · rw [BufferEvent.recordsFreed_append,hrecords]
        rfl
  · have hcounted := h.counted
    rw [if_neg hzero,if_neg (by omega)]
    refine h.of_log rfl rfl rfl ?_ ?_ (fun _ => Iff.rfl)
    · show lowered b.refCount = b.holders - 1
      rw [lowered_of_pos (by omega),hcounted]
    · show b.holders - 1 = 0 ↔ b.holders = 0
      omega

theorem Inv.scriptDrops (h : Inv b) (hproper : b.Proper .scriptDrops) : Inv (b.step .scriptDrops) := by
  show Inv (if b.scriptRefs = 0 then b else _)
  by_cases hnone : b.scriptRefs = 0
  · rw [if_pos hnone]
    exact h
  rw [if_neg hnone]
  obtain ⟨hcalls,hinfos⟩ := h.quiet (fun hunheld => hnone hunheld.2)
  by_cases hlast : b.scriptRefs = 1 ∧ b.retained = false
  · have hreleased := h.released
    rw [hlast.2] at hreleased
    have hcollect : collect { b with scriptRefs := b.scriptRefs - 1 } =
        ⟨b.source,b.holders,b.holders,0,false,b.log ++ (if 0 = 0 then b.source.finalizer else []) ++ []⟩ := by
      unfold collect
      simp [hlast.1,hlast.2,h.counted]
    rw [hcollect]
    refine inv_collected (fun _ opaquePtr hnative => ?_) ?_ ?_ ?_ ?_
    · obtain ⟨hpointer,hfree | hzero⟩ := hproper.ends hlast opaquePtr hnative
      · cases hfree
      · exact ⟨hpointer,hzero⟩
    · rwa [List.append_nil]
    · rwa [List.append_nil]
    · rwa [List.append_nil]
    · rw [List.append_nil]
      exact h.recordsFreed
  · have hcollect : collect { b with scriptRefs := b.scriptRefs - 1 } = { b with scriptRefs := b.scriptRefs - 1 } := by
      unfold collect
      rw [if_neg]
      rintro ⟨hscript,hretained⟩
      have hscript : b.scriptRefs - 1 = 0 := hscript
      exact hlast ⟨by omega,hretained⟩
    rw [hcollect]
    refine h.of_log rfl rfl rfl h.counted Iff.rfl (fun hretained => ?_)
    show b.scriptRefs - 1 = 0 ↔ b.scriptRefs = 0
    have hne : b.scriptRefs ≠ 1 := fun hone => hlast ⟨hone,hretained⟩
    omega

theorem Inv.shutdown (h : Inv b) (hproper : b.Proper .shutdown) : Inv (b.step .shutdown) := by
  show Inv b.release
  by_cases hretained : b.retained = true
  · have hzero : b.holders ≠ 0 := by
      intro hzero
      rw [h.ended hzero] at hretained
      cases hretained
    obtain ⟨hcalls,hinfos⟩ := h.quiet (fun hunheld => hzero hunheld.1)
    have hreleased := h.released
    rw [if_pos hretained] at hreleased
    rw [release_eq hretained,← List.append_nil (_ ++ _),h.counted]
    refine inv_collected (fun hscript opaquePtr hnative => ?_) ?_ ?_ ?_ ?_
    · obtain ⟨-,hfree | hgone⟩ := hproper.ends ⟨hretained,hscript⟩ opaquePtr hnative
      · cases hfree
      · exact absurd hgone hzero
    · rw [List.append_nil,BufferEvent.freeCalls_append,hcalls]
      rfl
    · rw [List.append_nil,BufferEvent.infosFreed_append,hinfos]
      rfl
    · rw [List.append_nil,List.count_append,hreleased]
      rfl
    · rw [List.append_nil,BufferEvent.recordsFreed_append,h.recordsFreed]
      exact List.append_nil _
  · unfold release
    rw [if_neg hretained]
    exact h

theorem Inv.step (h : Inv b) (op : BufferOp) (hproper : b.Proper op) : Inv (b.step op) := by
  cases op with
  | dup =>
    show Inv (if b.holders = 0 then b else _)
    split_ifs with hzero
    · exact h
    · have hroom := hproper.room rfl
      refine h.of_log rfl rfl rfl ?_ ?_ (fun _ => Iff.rfl)
      · show raised b.refCount = b.holders + 1
        rw [h.counted,raised_of_lt (by omega) hroom]
      · show b.holders + 1 = 0 ↔ b.holders = 0
        omega
  | free => exact h.free hproper
  | scriptTakes =>
    show Inv (if b.retained = true ∨ 0 < b.scriptRefs then _ else b)
    split_ifs with hheld
    · refine h.of_log rfl rfl rfl h.counted Iff.rfl (fun hfalse => ?_)
      rw [hfalse] at hheld
      show b.scriptRefs + 1 = 0 ↔ b.scriptRefs = 0
      simp at hheld
      omega
    · exact h
  | scriptDrops => exact h.scriptDrops hproper
  | shutdown => exact h.shutdown hproper

theorem inv_create (source : BufferSource) : Inv (create source) := by
  refine ⟨⟨rfl,?_,?_,rfl,fun hzero => absurd hzero Nat.one_ne_zero,rfl⟩,fun _ _ hfalse => ?_⟩
  · cases source with
    | native freeFunc opaquePtr => cases freeFunc <;> rfl
    | nativeCopy | target => rfl
  · cases source with
    | native freeFunc opaquePtr => cases freeFunc <;> rfl
    | nativeCopy | target => rfl
  · cases hfalse

theorem Ends.mem_log {op : BufferOp} (hcounted : b.refCount = b.holders) (h : b.Ends op) {e : BufferEvent} (he : e ∈ b.source.finalizer) :
    e ∈ (b.step op).log := by
  cases op with
  | dup | scriptTakes => exact h.elim
  | free =>
    obtain ⟨hone,hretained,hscript⟩ := h
    have hrelease := release_eq (b := { b with refCount := 0, holders := b.holders - 1 }) hretained
    show e ∈ b.freeValue.log
    unfold freeValue
    rw [if_neg (by omega),if_pos (hcounted.trans hone),hrelease]
    simp [hscript,he]
  | scriptDrops =>
    obtain ⟨hone,hretained⟩ := h
    simp [ArrayBufferQjs.step,collect,hone,hretained,he]
  | shutdown =>
    obtain ⟨hretained,hscript⟩ := h
    simp [ArrayBufferQjs.step,release_eq hretained,hscript,he]

/-- A count that comes round to 0 is not the number of the holders. -/
theorem not_owned_of_full (h : Owned b) (hfull : ¬ b.holders + 1 < 2 ^ 32) : ¬ Owned (b.step .dup) := by
  intro howned
  have hcounted := howned.counted
  simp only [ArrayBufferQjs.step,if_neg (show b.holders ≠ 0 by omega),h.counted,raised] at hcounted
  omega

/-- The operation that is not proper calls the free function too early or frees its record the wrong way. -/
theorem not_owned_of_not_proper {op : BufferOp} (hb : Owned b) (h : ¬ b.Proper op) : ¬ Owned (b.step op) := by
  intro howned
  have hroom : op = .dup → b.holders + 1 < 2 ^ 32 := by
    rintro rfl
    exact not_not.mp fun hfull => not_owned_of_full hb hfull howned
  obtain ⟨hends,opaquePtr,hnative,hbad⟩ : b.Ends op ∧ ∃ opaquePtr, b.source = .native true opaquePtr ∧
      ¬ (opaquePtr = 0 ∧ (op = .free ∨ b.holders = 0)) := by
    have hnot := mt (Proper.mk hroom) h
    simpa only [Classical.not_imp,not_forall,exists_prop] using hnot
  have hsource : (b.step op).source = .native true opaquePtr := by rw [step_source,hnative]
  have hcalls := howned.freeCalls
  have hinfos := howned.infosFreed
  rw [hsource] at hcalls hinfos
  dsimp only at hcalls hinfos
  by_cases hpointer : opaquePtr = 0
  · subst hpointer
    have hmem : BufferEvent.freeFunc 0 ∈ (b.step op).log := by
      refine hends.mem_log hb.counted ?_
      rw [hnative]
      exact List.mem_singleton_self _
    have hcall : 0 ∈ BufferEvent.freeCalls (b.step op).log := List.mem_filterMap.mpr ⟨_,hmem,rfl⟩
    have hrefs : (b.step op).holders = b.holders := by
      cases op with
      | dup | scriptTakes => exact hends.elim
      | free => exact absurd ⟨rfl,.inl rfl⟩ hbad
      | scriptDrops | shutdown => simp only [ArrayBufferQjs.step,release,collect]; split_ifs <;> rfl
    rw [hcalls,if_neg (fun hunheld => hbad ⟨rfl,.inr (hrefs.symm.trans hunheld.1)⟩)] at hcall
    cases hcall
  · have hmem : BufferEvent.infoFreed .malloc ∈ (b.step op).log := by
      refine hends.mem_log hb.counted ?_
      rw [hnative]
      simp [BufferSource.finalizer,hpointer]
    have hfreed : BufferAllocator.malloc ∈ BufferEvent.infosFreed (b.step op).log :=
      List.mem_filterMap.mpr ⟨_,hmem,rfl⟩
    rw [hinfos] at hfreed
    split_ifs at hfreed
    · cases List.mem_singleton.mp hfreed
    · cases hfreed

end Steps

/-- A buffer is owned as it should be in every state of a run exactly when every operation is proper. -/
theorem owned_iff_proper (source : BufferSource) (ops : List BufferOp) :
    Transition.Always step Owned (create source) ops ↔ Transition.Guarded step Proper (create source) ops :=
  Transition.always_iff_guarded (fun _ h => h.toOwned) (fun _ op h hproper => h.step op hproper)
    (fun _ _ h hbad => not_owned_of_not_proper h.toOwned hbad) (inv_create source) ops

/-- The last native holder of a buffer with an opaque pointer goes: the record that `new` made is given to `free`. -/
theorem not_owned_of_freed : ¬ ∀ source ops, Transition.Always step Owned (create source) ops := by
  intro h
  have hinfos := (h (.native true 1) [.free]).last.infosFreed
  exact absurd hinfos (by decide)

end ArrayBufferQjs

end FeatureRuntime
