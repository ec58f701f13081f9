import FeatureRuntime.ProtoOwnership

/-! The whole life of the memory of a message: built or abandoned by `toNative`, and released. -/
namespace FeatureRuntime
open FreeLog

/-- What was freed on the way, with what giving back the result frees, is every block of the
conversion exactly once and nothing else. A refused message has no result: `toNative` has released
it. -/
def ReleasedOnce (release : ProtoValue → List FreeEvent) (st : ConvertState) (r : ProtoResult) :
    Prop :=
  ∃ log, r.state.freed = st.freed ++ log ∧
    Balanced (log ++ (r.content.map release).getD []) st.nextBlock r.state.nextBlock

theorem Leaves.releasedOnce_iff {release : ProtoValue → List FreeEvent} {st : ConvertState}
    {r : ProtoResult} {P : Prop} (h : Leaves st r.state ((r.content.map release).getD []) P) :
    ReleasedOnce release st r ↔ P := by
  obtain ⟨log,hlog,howns⟩ := h
  rw [← howns.balanced]
  constructor
  · rintro ⟨log',hlog',hbalanced⟩
    rwa [List.append_cancel_left (hlog.symm.trans hlog')]
  · intro hbalanced
    exact ⟨log,hlog,hbalanced⟩

/-- The memory of a message comes out right exactly when its effect says so: for a message whose
last reference is given back, and for one that `proto_utils::release` releases. -/
theorem protoToNative_releasedOnce_iff (P : Platform) (ctx : JSContext) {descriptor : MessageDescriptor}
    (h : MessageLayout descriptor) (value : JSValue) (st : ConvertState) :
    (ReleasedOnce ProtoValue.freeMessage st (protoToNative P ctx descriptor value st) ↔
      (messageEffect ctx descriptor value).balanced = true) ∧
    (ReleasedOnce ProtoValue.release st (protoToNative P ctx descriptor value st) ↔
      (messageEffect ctx descriptor value).clean = true ∧ (messageEffect ctx descriptor value).bare = true) := by
  have heffect := protoToNative_effect P ctx descriptor h value
  constructor
  · exact (heffect.parameter st).releasedOnce_iff
  · have hnested : Leaves st _ _ _ := (heffect.nested none st).2.1
    rw [Bool.and_eq_true] at hnested
    exact hnested.releasedOnce_iff

def noticeDescriptor : MessageDescriptor :=
  .mk [⟨"title",1,.optional,.string,0,24,none,false,some "untitled"⟩,
    ⟨"level",2,.optional,.int32,32,36,none,false,none⟩,
    ⟨"text",3,.none,.string,40,48,none,true,none⟩,
    ⟨"raw",4,.none,.bytes,40,48,none,true,none⟩] [1,3,2,0]

theorem noticeDescriptor_layout : MessageLayout noticeDescriptor := by
  refine .mk ⟨?_,?_⟩ ?_
  · simp
  · simp
  · simp

/-- The engine of an application whose object `0` has the given properties. -/
def engineOf (properties : List (String × JSValue)) : JSContext :=
  { JSContext.ofProperties (fun _ _ => .undefined) with ownProperties := fun _ => properties }

theorem notice_releasedOnce :
    let ctx := engineOf [("level",.number (.int 2)),("text",.string "low"),("title",.string "battery")]
    ReleasedOnce ProtoValue.freeMessage {} (protoToNative .bits64 ctx noticeDescriptor (.object 0) {}) :=
  (protoToNative_releasedOnce_iff .bits64 _ noticeDescriptor_layout (.object 0) {}).1.mpr (by decide)

/-- A notice without title: the default of the field, a static string, is freed. -/
theorem default_title_freed : MessageLayout noticeDescriptor ∧ ¬ReleasedOnce ProtoValue.freeMessage {}
      (protoToNative .bits64 (engineOf []) noticeDescriptor (.object 0) {}) := by
  refine ⟨noticeDescriptor_layout,?_⟩
  rintro ⟨log,-,hbalanced⟩
  refine hbalanced.valid (List.mem_append_right _ ?_)
  decide

end FeatureRuntime
