import FeatureRuntime.Health
import FeatureRuntime.Transition
import Mathlib.Data.List.Nodup

/-! What becomes of the requests and of the records of `service.health` over whole runs. -/
namespace FeatureRuntime

namespace Health

open LiveCallbacks

variable {ι : Type}

/-- No record of a topic is freed from a state to a later one. -/
structure Piles (s t : Health ι) : Prop where
  made : s.made .record ≤ t.made .record
  released : t.released .record = s.released .record

theorem Piles.refl (s : Health ι) : s.Piles s := ⟨Nat.le_refl _,rfl⟩

theorem Piles.trans {s t u : Health ι} (h : s.Piles t) (h' : t.Piles u) : s.Piles u :=
  ⟨h.made.trans h'.made,h'.released.trans h.released⟩

theorem Piles.of_eq {s t u : Health ι} (h : t.Piles u) (hmade : t.made .record = s.made .record)
    (hreleased : t.released .record = s.released .record) : s.Piles u :=
  ⟨hmade ▸ h.made,h.released.trans hreleased⟩

theorem piles_foldl {α : Type} {f : Health ι → α → Health ι} (hf : ∀ s a, Piles s (f s a)) (xs : List α) (s : Health ι) :
    s.Piles (xs.foldl f s) := by
  induction xs generalizing s with
  | nil => exact Piles.refl s
  | cons a xs ih => exact (hf s a).trans (ih (f s a))

theorem piles_make (s : Health ι) (resource : HealthResource) : s.Piles (s.make resource) :=
  ⟨Nat.le_add_right _ _,rfl⟩

theorem piles_release (s : Health ι) (resource : HealthResource) (h : resource ≠ .record) :
    s.Piles (s.release resource) := by
  refine ⟨Nat.le_refl _,?_⟩
  simp [release,Ne.symm h]

theorem piles_settle (s : Health ι) (feature : ι) (pid supported : ℕ) (samples : Option (List (Option ℤ))) :
    s.Piles (s.settle feature pid supported samples) := by
  simp only [settle]
  split_ifs
  · exact Piles.refl s
  · exact ⟨Nat.le_refl _,rfl⟩

theorem piles_failTopic (s : Health ι) : s.Piles s.failTopic :=
  (piles_make s .topic).trans (piles_release _ _ (by simp))

theorem piles_openTopic (s : Health ι) (address : ℕ) : s.Piles (s.openTopic address) :=
  ⟨(piles_make s .topic).made,rfl⟩

theorem piles_newRecord (s : Health ι) (magic : HealthMagic) : s.Piles (s.newRecord magic) :=
  ⟨(piles_make s .record).made,rfl⟩

theorem piles_closeIdle (s : Health ι) (address : ℕ) : s.Piles (s.closeIdle address) := by
  simp only [closeIdle]
  split
  · exact Piles.refl s
  · split_ifs
    · exact Piles.refl s
    · exact ⟨Nat.le_refl _,rfl⟩

theorem piles_withRecord (s : Health ι) (magic : HealthMagic) : s.Piles (s.withRecord magic) := by
  simp only [withRecord]
  split_ifs
  · exact Piles.refl s
  · exact piles_newRecord s magic

theorem piles_collect (s : Health ι) (num : ℕ) (tmpList : List ℕ) (dataTypes : List HealthEntry) :
    s.Piles (s.collect num tmpList dataTypes).1 := by
  induction dataTypes generalizing s num tmpList with
  | nil => exact Piles.refl s
  | cons entry rest ih =>
    simp only [collect]
    cases getHealthMagic entry.type with
    | none => exact ih s (num - 1) tmpList
    | some magic =>
      dsimp only
      have hrecord := piles_withRecord s magic
      split_ifs
      · exact ih s (num - 1) tmpList
      · exact hrecord.trans (ih _ num _)
      · exact (hrecord.trans (piles_openTopic _ _)).trans (ih _ num _)
      · exact hrecord.trans (piles_failTopic _)

variable {dataTypes : List HealthEntry}

theorem piles_collected (s : Health ι) (feature : ι) (hsome : dataTypes ≠ []) :
    (collect (make { s with nextPid := s.nextPid + 1 } .request) dataTypes.length [] dataTypes).1.Piles
      (s.getRecentSamples feature dataTypes) := by
  simp only [getRecentSamples,hsome,if_false]
  cases collect (make { s with nextPid := s.nextPid + 1 } .request) dataTypes.length [] dataTypes with
  | mk t result =>
    have hrejected := (piles_release t .request (by simp)).trans (piles_settle _ feature s.nextPid 0 none)
    cases result with
    | none => exact hrejected
    | some left =>
      obtain ⟨num,tmpList⟩ := left
      dsimp only
      split_ifs
      · exact hrejected
      · have hpush := piles_foldl (fun (s : Health ι) address => ⟨Nat.le_refl _,rfl⟩) tmpList t (f := fun s address =>
          s.change address (fun record => { record with getList := record.getList ++ [⟨feature,t.requests.length⟩] }))
        exact hpush.trans ⟨(piles_make _ .array).made,rfl⟩

theorem piles_getRecentSamples (s : Health ι) (feature : ι) (dataTypes : List HealthEntry) :
    s.Piles (s.getRecentSamples feature dataTypes) := by
  have hnew : s.Piles { s with nextPid := s.nextPid + 1 } := ⟨Nat.le_refl _,rfl⟩
  by_cases hsome : dataTypes = []
  · simp only [getRecentSamples,hsome,if_true]
    exact hnew.trans (piles_settle _ _ _ _ _)
  · exact ((hnew.trans (piles_make _ .request)).trans (piles_collect _ _ _ _)).trans (piles_collected s feature hsome)

variable [DecidableEq ι]

theorem piles_subscribeSample (s : Health ι) (feature : ι) (type callback fail : ℤ) (subscribes : Bool) :
    s.Piles (s.subscribeSample feature type callback fail subscribes) := by
  simp only [subscribeSample]
  cases s.live feature callback with
  | false => exact ⟨Nat.le_refl _,rfl⟩
  | true =>
    simp only [Bool.true_eq_false,if_false]
    cases getHealthMagic type with
    | none => exact ⟨Nat.le_refl _,rfl⟩
    | some magic =>
      dsimp only
      have hrecord := piles_withRecord s magic
      have hopen := piles_openTopic (s.withRecord magic) (s.addressFor magic)
      split
      · exact hrecord.trans ⟨Nat.le_refl _,rfl⟩
      · split_ifs
        · exact hrecord.trans ⟨Nat.le_refl _,rfl⟩
        · exact hrecord.trans ⟨hopen.made,hopen.released⟩
        · have hfail := piles_failTopic (s.withRecord magic)
          exact hrecord.trans ⟨hfail.made,hfail.released⟩

theorem piles_unsubscribe (s : Health ι) (address : ℕ) (feature : ι) : s.Piles (s.unsubscribe address feature) := by
  simp only [unsubscribe]
  split
  · exact Piles.refl s
  · exact (piles_closeIdle _ address).of_eq rfl rfl

theorem piles_perform (s : Health ι) (feature : ι) (call : HealthCall) : s.Piles (s.perform feature call) := by
  cases call with
  | getRecentSamples dataTypes => exact piles_getRecentSamples s feature dataTypes
  | subscribeSample type callback fail subscribes =>
    exact (piles_subscribeSample _ feature type callback fail subscribes).of_eq rfl rfl
  | unsubscribeSample type =>
    simp only [perform,unsubscribeSample]
    split
    · exact Piles.refl s
    · exact piles_unsubscribe s _ feature

theorem piles_deliver (inside : ℕ → ι → List HealthCall) (address sample : ℕ) (s : Health ι) (place : ℕ) :
    s.Piles (deliver inside address sample s place) := by
  simp only [deliver]
  split
  · exact Piles.refl s
  · split
    · exact Piles.refl s
    · rename_i record _ sub _
      have hcalls := piles_foldl (f := fun (s : Health ι) call => s.perform sub.feature call)
        (fun s call => piles_perform s sub.feature call) (inside sample sub.feature) s
      split_ifs
      · exact Piles.refl s
      · exact hcalls.trans ⟨Nat.le_refl _,rfl⟩
      · exact hcalls

theorem piles_onSamples (inside : ℕ → ι → List HealthCall) (address : ℕ) (s : Health ι) (sample : ℕ)
    (samples : List ℤ) : s.Piles (onSamples inside address s sample samples) := by
  induction samples generalizing s sample with
  | nil => exact Piles.refl s
  | cons value rest ih =>
    have hmade := (piles_make s .text).trans (piles_make (s.make .text) .object)
    have hgiven := hmade.trans (piles_foldl (piles_deliver inside address sample)
      (List.range (((s.make .text).make .object).subsOf address).length) _)
    simp only [onSamples]
    split_ifs
    · exact (hgiven.trans (piles_release _ _ (by simp))).trans (ih _ _)
    · exact (hgiven.trans (piles_release _ _ (by simp))).trans (ih _ _)

omit [DecidableEq ι] in
theorem piles_finish (s : Health ι) (feature : ι) (request : HealthRequest) : s.Piles (s.finish feature request) :=
  ((piles_settle s feature request.pid request.supported (some request.array)).trans
    (piles_release _ .array (by simp))).trans (piles_release _ .request (by simp))

omit [DecidableEq ι] in
theorem piles_serve (s : Health ι) (address : ℕ) (samples : List ℤ) : s.Piles (s.serve address samples) := by
  simp only [serve]
  split
  · exact Piles.refl s
  · split
    · exact Piles.refl s
    · rename_i waiting _ _ request _
      have hfinish : ∀ (t : Health ι) served f, s.Piles t →
          s.Piles ((if request.num - 1 = 0 then t.finish waiting.feature served else t).change address f) := by
        intro t served f ht
        split_ifs
        · have hfinished := ht.trans (piles_finish t waiting.feature served)
          exact ⟨hfinished.made,hfinished.released⟩
        · exact ⟨ht.made,ht.released⟩
      have hend : ∀ t : Health ι, s.Piles t → s.Piles (if samples = [] then t
          else (((t.make .text).make .object).release .object).release .text) := by
        intro t ht
        split_ifs
        · exact ht
        · have hmade := (piles_make t .text).trans (piles_make _ .object)
          exact ((ht.trans hmade).trans (piles_release _ .object (by simp))).trans (piles_release _ .text (by simp))
      by_cases hfreed : request.freed = true
      · rw [if_pos hfreed]
        exact ⟨Nat.le_refl _,rfl⟩
      · rw [if_neg hfreed]
        apply hend
        exact hfinish _ _ _ ⟨Nat.le_refl _,rfl⟩

theorem piles_healthTopicCb (inside : ℕ → ι → List HealthCall) (s : Health ι) (address : ℕ) (samples : List ℤ) :
    s.Piles (s.healthTopicCb inside address samples) :=
  ((piles_onSamples inside address s 0 samples).trans (piles_serve _ address samples)).trans (piles_closeIdle _ address)

theorem piles_detachTopic (feature : ι) (s : Health ι) (magic : HealthMagic) :
    s.Piles (detachTopic feature s magic) := by
  simp only [detachTopic]
  split
  · exact Piles.refl s
  · exact (piles_unsubscribe _ _ feature).of_eq rfl rfl

theorem piles_onDetached (s : Health ι) (feature : ι) : s.Piles (s.onDetached feature) := by
  have htopics := piles_foldl (piles_detachTopic feature) magics s
  exact ⟨htopics.made,htopics.released⟩

omit [DecidableEq ι] in
theorem piles_destroyTopic (s : Health ι) (magic : HealthMagic) : s.Piles (s.destroyTopic magic) := by
  simp only [destroyTopic]
  split
  · exact Piles.refl s
  · exact ⟨Nat.le_refl _,rfl⟩

theorem piles_destroy (s : Health ι) (features : List ι) : s.Piles (s.destroy features) := by
  have hdetached := piles_foldl piles_onDetached features s
  have htopics := piles_foldl piles_destroyTopic magics
    { features.foldl (fun s feature => s.onDetached feature) s with isDestroy := true }
  exact hdetached.trans (htopics.of_eq rfl rfl)

theorem piles_step (s : Health ι) (op : HealthOp ι) : s.Piles (s.step op) := by
  cases op with
  | call feature call =>
    simp only [step]
    split_ifs
    · exact Piles.refl s
    · exact piles_perform s feature call
  | batch topic samples inside =>
    simp only [step]
    split
    · exact Piles.refl s
    · exact piles_healthTopicCb inside s _ samples
  | detach feature =>
    simp only [step]
    split_ifs
    · exact Piles.refl s
    · exact piles_onDetached s feature
  | destroy =>
    simp only [step]
    split_ifs
    · exact Piles.refl s
    · exact piles_destroy s s.features
  | topicClosed topic =>
    simp only [step]
    split_ifs
    · have hreleased := piles_release s .topic (by simp)
      exact ⟨hreleased.made,hreleased.released⟩
    · exact Piles.refl s

/-- What is promised: no promise is settled twice, or without its instance, and one that is resolved has a sample for each
supported entry; no topic is subscribed to that nobody waits for; nothing is used after it has been freed; and when the
feature has ended and its topics are closed, all that was taken from the heap has been released. -/
structure Right (s : Health ι) : Prop where
  once : (s.settled.map HealthOutcome.pid).Nodup
  attached : ∀ outcome ∈ s.settled, outcome.attached = true
  samples : ∀ outcome ∈ s.settled, ∀ samples, outcome.samples = some samples →
    samples.length = outcome.supported ∧ none ∉ samples
  served : ∀ record ∈ s.records, record.topicList ≠ [] →
    record.subList ≠ [] ∨ ∃ waiting ∈ record.getList, s.detached waiting.feature = false
  safe : s.fault = false
  released : s.isDestroy = true → s.closing = [] → s.released = s.made

def Finished (s : Health ι) : Prop := s.isDestroy = true ∧ s.closing = []

def supported (entry : HealthEntry) : Bool := (getHealthMagic entry.type).isSome && entry.present

def Meets (s : Health ι) : HealthOp ι → Prop
  | .call feature (.getRecentSamples dataTypes) =>
    s.detached feature = false → s.isDestroy = false → ∀ entry ∈ dataTypes, supported entry = false
  | .call feature (.subscribeSample type callback _ _) =>
    s.detached feature = false → s.isDestroy = false → 0 < callback → getHealthMagic type = none
  | _ => True

/-- No record has been made, and what was made has been released. -/
structure Empty (s : Health ι) : Prop where
  records : s.records = []
  event : ∀ magic, s.event magic = none
  closing : s.closing = []
  once : (s.settled.map HealthOutcome.pid).Nodup
  issued : ∀ outcome ∈ s.settled, outcome.pid < s.nextPid
  attached : ∀ outcome ∈ s.settled, outcome.attached = true
  rejected : ∀ outcome ∈ s.settled, outcome.samples = none
  safe : s.fault = false
  released : s.released = s.made
  positive : ∀ feature id, s.live feature id = true → 0 < id

variable {s : Health ι}

omit [DecidableEq ι] in
theorem Empty.right (h : s.Empty) : s.Right := by
  refine ⟨h.once,h.attached,fun outcome houtcome samples hsamples => ?_,fun record hrecord => ?_,h.safe,
    fun _ _ => h.released⟩
  · rw [h.rejected outcome houtcome] at hsamples
    cases hsamples
  · rw [h.records] at hrecord
    cases hrecord

omit [DecidableEq ι] in
/-- Entries that are not supported are counted down, and nothing else is done with them. -/
theorem collect_unsupported (s : Health ι) (num : ℕ) (tmpList : List ℕ)
    (hnone : ∀ entry ∈ dataTypes, supported entry = false) :
    s.collect num tmpList dataTypes = (s,some (num - dataTypes.length,tmpList)) := by
  induction dataTypes generalizing num with
  | nil => simp [collect]
  | cons entry rest ih =>
    have hrest := ih (num - 1) (fun other hother => hnone other (List.mem_cons_of_mem _ hother))
    have hentry := hnone entry List.mem_cons_self
    simp only [collect]
    cases hmagic : getHealthMagic entry.type with
    | none =>
      dsimp only
      rw [hrest,List.length_cons,Nat.sub_sub,Nat.add_comm 1]
    | some magic =>
      have hpresent : entry.present = false := by simpa [supported,hmagic] using hentry
      simp only [hpresent,if_true]
      rw [hrest,List.length_cons,Nat.sub_sub,Nat.add_comm 1]

omit [DecidableEq ι] in
theorem collect_supported (s : Health ι) (hevent : ∀ magic, s.event magic = none) (num : ℕ) (tmpList : List ℕ)
    (hsome : ∃ entry ∈ dataTypes, supported entry = true) :
    s.made .record < (s.collect num tmpList dataTypes).1.made .record := by
  induction dataTypes generalizing num with
  | nil => simp at hsome
  | cons entry rest ih =>
    simp only [collect]
    have hrest : supported entry = false → ∃ other ∈ rest, supported other = true := by
      intro hentry
      obtain ⟨other,hother,hsupported⟩ := hsome
      obtain rfl | hmem := List.mem_cons.mp hother
      · rw [hentry] at hsupported
        cases hsupported
      · exact ⟨other,hmem,hsupported⟩
    cases hmagic : getHealthMagic entry.type with
    | none => exact ih (num - 1) (hrest (by simp [supported,hmagic]))
    | some magic =>
      have hnew : s.made .record < (s.withRecord magic).made .record := by
        simp [withRecord,hevent magic,newRecord,make]
      dsimp only
      split_ifs with hpresent
      · exact ih (num - 1) (hrest (by simp [supported,hpresent]))
      · exact hnew.trans_le (piles_collect _ num _ rest).made
      · exact hnew.trans_le ((piles_openTopic _ _).trans (piles_collect _ num _ rest)).made
      · exact hnew.trans_le (piles_failTopic _).made

omit [DecidableEq ι] in
theorem Empty.reject (h : s.Empty) (feature : ι) :
    (settle { s with nextPid := s.nextPid + 1 } feature s.nextPid 0 none).Empty := by
  simp only [settle]
  split_ifs with hdetached
  · exact ⟨h.records,h.event,h.closing,h.once,fun outcome houtcome => Nat.lt_succ_of_lt (h.issued outcome houtcome),
      h.attached,h.rejected,h.safe,h.released,h.positive⟩
  · have hfresh : s.nextPid ∉ s.settled.map HealthOutcome.pid := by
      intro hmem
      obtain ⟨outcome,houtcome,hpid⟩ := List.mem_map.mp hmem
      have hissued := h.issued outcome houtcome
      omega
    refine ⟨h.records,h.event,h.closing,?_,?_,?_,?_,h.safe,h.released,h.positive⟩
    · rw [List.map_append,List.map_singleton,← List.concat_eq_append]
      exact h.once.concat hfresh
    · intro outcome houtcome
      obtain hold | hnew := List.mem_append.mp houtcome
      · exact Nat.lt_succ_of_lt (h.issued outcome hold)
      · rw [List.mem_singleton.mp hnew]
        exact Nat.lt_succ_self _
    · intro outcome houtcome
      obtain hold | hnew := List.mem_append.mp houtcome
      · exact h.attached outcome hold
      · rw [List.mem_singleton.mp hnew]
        simpa using hdetached
    · intro outcome houtcome
      obtain hold | hnew := List.mem_append.mp houtcome
      · exact h.rejected outcome hold
      · rw [List.mem_singleton.mp hnew]

omit [DecidableEq ι] in
theorem Empty.getRecentSamples (h : s.Empty) (feature : ι)
    (hnone : ∀ entry ∈ dataTypes, supported entry = false) : (s.getRecentSamples feature dataTypes).Empty := by
  have hreleased : ((s.make .request).release .request).Empty := by
    refine ⟨h.records,h.event,h.closing,h.once,h.issued,h.attached,h.rejected,h.safe,?_,h.positive⟩
    simp only [make,release,h.released]
  simp only [Health.getRecentSamples]
  split_ifs
  · exact h.reject feature
  · rw [collect_unsupported _ _ _ hnone]
    simp only [Nat.sub_self,if_true]
    exact hreleased.reject feature

omit [DecidableEq ι] in
theorem Empty.relive (h : s.Empty) {live : ι → ℤ → Bool}
    (hpositive : ∀ feature id, live feature id = true → 0 < id) : Empty { s with live := live } :=
  ⟨h.records,h.event,h.closing,h.once,h.issued,h.attached,h.rejected,h.safe,h.released,hpositive⟩

theorem Empty.subscribeSample (h : s.Empty) (feature : ι) {type callback : ℤ} (fail : ℤ) (subscribes : Bool)
    (hnone : s.live feature callback = true → getHealthMagic type = none) :
    (s.subscribeSample feature type callback fail subscribes).Empty := by
  have hrefused : (s.refuse feature callback fail).Empty := by
    apply h.relive
    intro other id hlive
    exact h.positive other id ((removeAll_iff ..).mp hlive).1
  simp only [Health.subscribeSample]
  cases hlive : s.live feature callback with
  | false => exact hrefused
  | true =>
    rw [hnone hlive]
    exact hrefused

theorem Empty.unsubscribeSample (h : s.Empty) (feature : ι) (type : Option ℤ) :
    s.unsubscribeSample feature type = s := by
  have hnone : (type.bind getHealthMagic).bind s.event = none := by
    cases type.bind getHealthMagic with
    | none => rfl
    | some magic => exact h.event magic
  simp only [Health.unsubscribeSample,hnone]

theorem Empty.onDetached (h : s.Empty) (feature : ι) : (s.onDetached feature).Empty := by
  have htopics : magics.foldl (detachTopic feature) s = s := by
    simp [magics,detachTopic,h.event]
  simp only [Health.onDetached,htopics]
  refine ⟨h.records,h.event,h.closing,h.once,h.issued,h.attached,h.rejected,h.safe,h.released,fun other id hlive => ?_⟩
  exact h.positive other id (Bool.and_eq_true_iff.mp hlive).1

theorem Empty.destroy (h : s.Empty) : (s.destroy s.features).Empty := by
  have hnobody : s.features = [] := by simp [features,h.records]
  have hdestroyed : s.destroy s.features = { s with isDestroy := true } := by
    rw [hnobody]
    simp [Health.destroy,magics,destroyTopic,h.event]
  rw [hdestroyed]
  exact ⟨h.records,h.event,h.closing,h.once,h.issued,h.attached,h.rejected,h.safe,h.released,h.positive⟩

theorem Empty.step (h : s.Empty) (op : HealthOp ι) (hmeets : s.Meets op) : (s.step op).Empty := by
  cases op with
  | call feature call =>
    simp only [Health.step]
    split_ifs with hunheard
    · exact h
    · rw [not_or,Bool.not_eq_true,Bool.not_eq_true] at hunheard
      cases call with
      | getRecentSamples dataTypes => exact h.getRecentSamples feature (hmeets hunheard.1 hunheard.2)
      | unsubscribeSample type =>
        rw [perform,h.unsubscribeSample]
        exact h
      | subscribeSample type callback fail subscribes =>
        have hregistered : Empty { s with live := register (register s.live feature callback) feature fail } := by
          apply h.relive
          intro other id hlive
          simp only [register_iff] at hlive
          obtain (hold | ⟨-,rfl,hpositive⟩) | ⟨-,rfl,hpositive⟩ := hlive
          · exact h.positive other id hold
          · exact hpositive
          · exact hpositive
        apply hregistered.subscribeSample
        intro hlive
        exact hmeets hunheard.1 hunheard.2 (hregistered.positive feature callback hlive)
  | batch topic samples inside => simpa [Health.step,h.records] using h
  | detach feature =>
    simp only [Health.step]
    split_ifs
    · exact h
    · exact h.onDetached feature
  | destroy =>
    simp only [Health.step]
    split_ifs
    · exact h
    · exact h.destroy
  | topicClosed topic => simpa [Health.step,h.closing] using h

theorem subscribeSample_made (hevent : ∀ magic, s.event magic = none) (feature : ι) {type callback : ℤ}
    (fail : ℤ) (subscribes : Bool) (hlive : s.live feature callback = true) (htype : getHealthMagic type ≠ none) :
    s.made .record < (s.subscribeSample feature type callback fail subscribes).made .record := by
  obtain ⟨magic,hmagic⟩ := Option.ne_none_iff_exists'.mp htype
  have hnew : s.made .record < (s.withRecord magic).made .record := by
    simp [withRecord,hevent magic,newRecord,make]
  simp only [Health.subscribeSample,hlive,Bool.true_eq_false,if_false,hmagic]
  split
  · exact hnew
  · split_ifs
    · exact hnew
    · exact hnew.trans_le (piles_openTopic (s.withRecord magic) (s.addressFor magic)).made
    · exact hnew.trans_le (piles_failTopic (s.withRecord magic)).made

theorem Empty.made_of_not_meets (h : s.Empty) (op : HealthOp ι) (hbad : ¬ s.Meets op) :
    (s.step op).released .record < (s.step op).made .record := by
  rw [(piles_step s op).released,h.released]
  cases op with
  | call feature call =>
    cases call with
    | unsubscribeSample type => exact absurd trivial hbad
    | getRecentSamples dataTypes =>
      simp only [Meets,not_forall] at hbad
      obtain ⟨hattached,hthere,entry,hentry,hsupported⟩ := hbad
      rw [Bool.not_eq_false] at hsupported
      have hsome : dataTypes ≠ [] := List.ne_nil_of_mem hentry
      have hmore := collect_supported (make { s with nextPid := s.nextPid + 1 } .request) h.event dataTypes.length []
        ⟨entry,hentry,hsupported⟩
      simp only [Health.step,hattached,hthere,Bool.false_eq_true,or_self,if_false,perform]
      exact Nat.lt_of_lt_of_le hmore (piles_collected s feature hsome).made
    | subscribeSample type callback fail subscribes =>
      simp only [Meets,not_forall] at hbad
      obtain ⟨hattached,hthere,hpositive,htype⟩ := hbad
      simp only [Health.step,hattached,hthere,Bool.false_eq_true,or_self,if_false]
      have hlive : register (register s.live feature callback) feature fail feature callback = true := by
        simp [hpositive]
      exact subscribeSample_made (s := { s with live := register (register s.live feature callback) feature fail })
        h.event feature fail subscribes hlive htype
  | batch topic samples inside => exact absurd trivial hbad
  | detach feature => exact absurd trivial hbad
  | destroy => exact absurd trivial hbad
  | topicClosed topic => exact absurd trivial hbad

omit [DecidableEq ι] in
theorem Empty.onCreate : (onCreate : Health ι).Empty := by
  constructor <;> simp [Health.onCreate]

/-- In a run to the end of the feature, the requests, the topics and all that they take from the heap are right
throughout exactly when no call asks for a type of data that there is: the record of a topic is never freed. -/
theorem right_iff (ops : List (HealthOp ι)) (hend : Finished (Transition.run step onCreate ops)) :
    Transition.Always step Right onCreate ops ↔ Transition.Guarded step Meets onCreate ops := by
  refine Transition.always_iff_guarded_of_doomed (I := Empty) (D := fun s => s.released .record < s.made .record)
    (fun _ hs => hs.right) (fun _ op hs hmeets => hs.step op hmeets)
    (fun _ op hs hbad => .inr (hs.made_of_not_meets op hbad)) (fun s op hpiled _ => ?_) Empty.onCreate ops
    (fun hright hpiled => ?_)
  · have hpiles := piles_step s op
    exact hpiles.released ▸ Nat.lt_of_lt_of_le hpiled hpiles.made
  · rw [hright.released hend.1 hend.2] at hpiled
    exact Nat.lt_irrefl _ hpiled

def nothingSupported : List (HealthOp ℕ) :=
  [.call 0 (.getRecentSamples [⟨7,true,true⟩,⟨0,false,true⟩]),.call 0 (.subscribeSample 3 1 2 true),.detach 0,.destroy]

theorem nothing_supported_right : Finished (Transition.run step onCreate nothingSupported) ∧
    (Transition.Always step Right onCreate nothingSupported ↔
      Transition.Guarded step Meets onCreate nothingSupported) :=
  ⟨⟨rfl,rfl⟩,right_iff nothingSupported ⟨rfl,rfl⟩⟩

/-- A request that is answered with a sample leaves the record of its topic behind. -/
theorem answered_record_kept : ¬ ∀ ops : List (HealthOp ℕ), Finished (Transition.run step onCreate ops) →
    Transition.Always step Right onCreate ops := by
  intro h
  have hright := (h [.call 0 (.getRecentSamples [⟨0,true,true⟩]),.batch 0 [72] (fun _ _ => []),.topicClosed 0,.detach 0,
    .destroy] ⟨rfl,rfl⟩).last
  exact absurd (congrFun (hright.released rfl rfl) .record) (by decide)

end Health
end FeatureRuntime
