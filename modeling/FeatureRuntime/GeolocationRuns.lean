import FeatureRuntime.Geolocation
import FeatureRuntime.Transition
import Mathlib.Data.List.Nodup

/-! The topic, the samples, the promises and the context of `system.geolocation` over whole runs. -/
namespace FeatureRuntime

namespace GeoSubscriber

variable {ι : Type} (sub : GeoSubscriber ι)

def replaced : GeoCall → GeoSubscriber ι
  | .subscribe callback fail => ⟨sub.feature,callback,fail⟩
  | _ => sub

/-- A subscriber that is given a sample may ask for the location, and may take another function for its callback. -/
def Admits : GeoCall → Prop
  | .getLocation _ _ => True
  | .subscribe callback _ => 0 < callback ∧ callback ≠ sub.callback ∧ callback ≠ sub.fail
  | .unsubscribe => False

@[simp] theorem replaced_feature (call : GeoCall) : (sub.replaced call).feature = sub.feature := by
  cases call <;> rfl

@[simp] theorem run_replaced_feature (calls : List GeoCall) :
    (Transition.run replaced sub calls).feature = sub.feature := by
  induction calls generalizing sub with
  | nil => rfl
  | cons call calls ih => simp [ih]

end GeoSubscriber

namespace Geolocation

open LiveCallbacks

variable {ι : Type}

def callsInside (inside : ℕ → ι → List GeoCall) (feature : ι) (samples : List (Bool × ℕ)) : List GeoCall :=
  samples.flatMap (fun sample => if sample.1 then inside sample.2 feature else [])

def deliveries (features : List ι) (samples : List (Bool × ℕ)) : List (ℕ × ι) :=
  samples.flatMap (fun sample => if sample.1 then features.map (fun feature => (sample.2,feature)) else [])

/-- What all states have in common: one topic at most, and one where somebody waits; every subscriber can be called;
the promises that wait are not settled; and the context counts its users. -/
structure Sound (s : Geolocation ι) : Prop where
  one : s.topicList.length ≤ 1
  served : s.isActive = true → s.topicList ≠ []
  stopped : s.timer ≠ .running → s.topicList = []
  heard : ∀ sub ∈ s.subList, s.live sub.feature sub.callback = true
  distinct : (s.subList.map GeoSubscriber.feature).Nodup
  promises : (s.settled ++ s.getList.map GeoRequest.pid).Nodup
  issued : ∀ pid ∈ s.settled ++ s.getList.map GeoRequest.pid, pid < s.nextPid
  count : s.refCount = (if s.timer = .closed then 0 else 1) + s.topicList.length + s.closing.length
  freed : s.freed = if s.timer = .closed ∧ s.topicList = [] ∧ s.closing = [] then 1 else 0
  safe : s.fault = false

/-- A request that waits goes on to wait, or its promise is settled, or its instance is detached. -/
structure Keeps (s t : Geolocation ι) : Prop where
  settled : ∀ pid ∈ s.settled, pid ∈ t.settled
  detached : ∀ feature, s.detached feature = true → t.detached feature = true
  waits : ∀ request ∈ s.getList, request ∈ t.getList ∨ request.pid ∈ t.settled ∨ t.detached request.feature = true

variable {s t : Geolocation ι}

theorem Keeps.refl (s : Geolocation ι) : s.Keeps s := ⟨fun _ h => h,fun _ h => h,fun _ h => .inl h⟩

theorem Keeps.trans {u : Geolocation ι} (h : s.Keeps t) (h' : t.Keeps u) : s.Keeps u := by
  refine ⟨fun pid hpid => h'.settled pid (h.settled pid hpid),
    fun feature hfeature => h'.detached feature (h.detached feature hfeature),fun request hrequest => ?_⟩
  obtain hwaits | hsettled | hdetached := h.waits request hrequest
  · exact h'.waits request hwaits
  · exact .inr (.inl (h'.settled _ hsettled))
  · exact .inr (.inr (h'.detached _ hdetached))

theorem isActive_iff : s.isActive = true ↔ s.getList ≠ [] ∨ s.subList ≠ [] := by
  simp [isActive]

theorem Sound.freed_of_running (h : s.Sound) (hrunning : s.timer = .running) : s.freed = 0 := by
  rw [h.freed,hrunning]
  simp

theorem closeIdle_cases (s : Geolocation ι) : (s.closeIdle = s ∧ (s.isActive = true ∨ s.topicList = [])) ∨
      ∃ topic rest, s.topicList = topic :: rest ∧ s.isActive = false ∧
        s.closeIdle = { s with topicList := rest, closing := s.closing ++ [topic] } := by
  cases htopics : s.topicList with
  | nil => exact .inl ⟨by simp [closeIdle,htopics],.inr rfl⟩
  | cons topic rest =>
    cases hactive : s.isActive with
    | true => exact .inl ⟨by simp [closeIdle,htopics,hactive],.inl rfl⟩
    | false => exact .inr ⟨topic,rest,rfl,rfl,by simp [closeIdle,htopics,hactive]⟩

theorem Sound.alone (h : s.Sound) {topic : ℕ} {rest : List ℕ} (htopics : s.topicList = topic :: rest) :
    rest = [] ∧ s.timer = .running := by
  refine ⟨List.eq_nil_of_length_eq_zero ?_,?_⟩
  · simpa [htopics] using h.one
  · by_contra hstopped
    simp [h.stopped hstopped] at htopics

theorem Sound.closeIdle (h : s.Sound) : s.closeIdle.Sound := by
  obtain ⟨hsame,-⟩ | ⟨topic,rest,htopics,hidle,hclosed⟩ := s.closeIdle_cases
  · rwa [hsame]
  · rw [hclosed]
    obtain ⟨rfl,hrunning⟩ := h.alone htopics
    refine ⟨by simp,?_,fun _ => rfl,h.heard,h.distinct,h.promises,h.issued,?_,?_,h.safe⟩
    · intro hactive
      rw [isActive_iff] at hactive
      simp [Geolocation.isActive] at hidle
      simp [hidle] at hactive
    · have hcount := h.count
      simp only [htopics,hrunning,List.length_cons,List.length_nil,List.length_append] at hcount ⊢
      simp at hcount ⊢
      omega
    · simp [h.freed_of_running hrunning,hrunning]

theorem Sound.closeIdle_served (h : s.Sound) : s.closeIdle.topicList ≠ [] ↔ s.closeIdle.isActive = true := by
  obtain ⟨hsame,hcases⟩ | ⟨topic,rest,htopics,hidle,hclosed⟩ := s.closeIdle_cases
  · rw [hsame]
    refine ⟨fun htopics => ?_,h.served⟩
    obtain hactive | hnone := hcases
    · exact hactive
    · exact absurd hnone htopics
  · rw [hclosed]
    simp only [(h.alone htopics).1,ne_eq,not_true_eq_false,false_iff,Bool.not_eq_true]
    exact hidle

theorem closeIdle_frame (s : Geolocation ι) :
    ∃ topics closing, s.closeIdle = { s with topicList := topics, closing := closing } := by
  obtain ⟨hsame,-⟩ | ⟨topic,rest,-,-,hclosed⟩ := s.closeIdle_cases
  · exact ⟨s.topicList,s.closing,hsame⟩
  · exact ⟨rest,s.closing ++ [topic],hclosed⟩

theorem Sound.openTopic (h : s.Sound) (hrunning : s.timer = .running) (hnone : s.topicList = []) :
    s.openTopic.Sound := by
  refine ⟨by simp [Geolocation.openTopic,hnone],by simp [Geolocation.openTopic],fun hstopped => absurd hrunning hstopped,
    h.heard,h.distinct,h.promises,h.issued,?_,?_,h.safe⟩
  · have hcount := h.count
    simp only [Geolocation.openTopic,hrunning,hnone,List.nil_append,List.length_cons,List.length_nil] at hcount ⊢
    simp at hcount ⊢
    omega
  · simp [Geolocation.openTopic,h.freed_of_running hrunning]

theorem Sound.refuse (h : s.Sound) : Sound { s with nextPid := s.nextPid + 1, settled := s.settled ++ [s.nextPid] } := by
  have hfresh : s.nextPid ∉ s.settled ++ s.getList.map GeoRequest.pid := fun hmem => absurd (h.issued _ hmem) (by omega)
  have hperm : (s.settled ++ [s.nextPid] ++ s.getList.map GeoRequest.pid).Perm
      (s.nextPid :: (s.settled ++ s.getList.map GeoRequest.pid)) := by
    rw [List.append_assoc]
    exact List.perm_middle
  refine ⟨h.one,h.served,h.stopped,h.heard,h.distinct,?_,?_,h.count,h.freed,h.safe⟩
  · exact hperm.nodup_iff.mpr (List.nodup_cons.mpr ⟨hfresh,h.promises⟩)
  · intro pid hpid
    obtain rfl | hold := List.mem_cons.mp (hperm.mem_iff.mp hpid)
    · exact Nat.lt_succ_self _
    · exact Nat.lt_succ_of_lt (h.issued pid hold)

theorem Sound.await (h : s.Sound) (htopics : s.topicList ≠ []) (request : GeoRequest ι) (hpid : request.pid = s.nextPid) :
    Sound { s with nextPid := s.nextPid + 1, getList := s.getList ++ [request] } := by
  have hfresh : s.nextPid ∉ s.settled ++ s.getList.map GeoRequest.pid := fun hmem => absurd (h.issued _ hmem) (by omega)
  refine ⟨h.one,fun _ => htopics,h.stopped,h.heard,h.distinct,?_,?_,h.count,h.freed,h.safe⟩
  · rw [List.map_append,← List.append_assoc,List.map_singleton,hpid,← List.concat_eq_append]
    exact h.promises.concat hfresh
  · intro pid hmem
    rw [List.map_append,← List.append_assoc,List.map_singleton,hpid] at hmem
    obtain hold | hnew := List.mem_append.mp hmem
    · exact Nat.lt_succ_of_lt (h.issued pid hold)
    · rw [List.mem_singleton.mp hnew]
      exact Nat.lt_succ_self _

theorem Sound.getLocation (h : s.Sound) (hrunning : s.timer = .running) (feature : ι) (now timeout : ℤ)
    (hmeets : s.isActive = true ∨ s.topicList = []) : (s.getLocation feature now timeout).Sound := by
  simp only [Geolocation.getLocation]
  split_ifs with hmany hactive
  · exact h.refuse
  · exact h.await (h.served hactive) ⟨feature,s.nextPid,now,timeout⟩ rfl
  · have hnone := hmeets.resolve_left hactive
    exact (h.openTopic hrunning hnone).await (by simp [Geolocation.openTopic]) ⟨feature,s.nextPid,now,timeout⟩ rfl

theorem keeps_getLocation (s : Geolocation ι) (feature : ι) (now timeout : ℤ) :
    s.Keeps (s.getLocation feature now timeout) := by
  simp only [Geolocation.getLocation]
  split_ifs
  · exact ⟨fun _ h => List.mem_append_left _ h,fun _ h => h,fun _ h => .inl h⟩
  · exact ⟨fun _ h => h,fun _ h => h,fun _ h => .inl (List.mem_append_left _ h)⟩
  · exact ⟨fun _ h => h,fun _ h => h,fun _ h => .inl (List.mem_append_left _ h)⟩

variable [DecidableEq ι]

/-- Where every instance has one entry at most, what is erased is all of an instance. -/
theorem eraseP_eq_filter {subs : List (GeoSubscriber ι)} (hdistinct : (subs.map GeoSubscriber.feature).Nodup)
    (feature : ι) : subs.eraseP (fun sub => sub.feature = feature) = subs.filter (fun sub => sub.feature ≠ feature) := by
  induction subs with
  | nil => rfl
  | cons sub subs ih =>
    rw [List.map_cons,List.nodup_cons] at hdistinct
    by_cases hsub : sub.feature = feature
    · have hothers : ∀ other ∈ subs, other.feature ≠ feature := by
        intro other hother hsame
        exact hdistinct.1 (List.mem_map.mpr ⟨other,hother,hsame.trans hsub.symm⟩)
      rw [List.eraseP_cons_of_pos (by simp [hsub]),List.filter_cons_of_neg (by simp [hsub])]
      exact (List.filter_eq_self.mpr (by simpa using hothers)).symm
    · rw [List.eraseP_cons_of_neg (by simp [hsub]),List.filter_cons_of_pos (by simp [hsub]),ih hdistinct.2]

/-- The entry of an instance, where it has one, is taken out, and its callbacks with it. -/
theorem Sound.unsubscribe_eq (h : s.Sound) (feature : ι) :
    (s.unsubscribe feature = s ∧ ∀ sub ∈ s.subList, sub.feature ≠ feature) ∨
      ∃ old ∈ s.subList, old.feature = feature ∧ s.unsubscribe feature = Geolocation.closeIdle { s with
        live := removeAll s.live feature old.callback old.fail
        subList := s.subList.filter (fun sub => sub.feature ≠ feature) } := by
  cases hfind : s.subList.find? (fun sub => sub.feature = feature) with
  | none =>
    left
    refine ⟨by simp only [Geolocation.unsubscribe,hfind],fun sub hsub => ?_⟩
    simpa using List.find?_eq_none.mp hfind sub hsub
  | some old =>
    right
    refine ⟨old,List.mem_of_find?_eq_some hfind,by simpa using List.find?_some hfind,?_⟩
    simp only [Geolocation.unsubscribe,hfind,eraseP_eq_filter h.distinct]

theorem Sound.unsubscribe (h : s.Sound) (feature : ι) : (s.unsubscribe feature).Sound := by
  obtain ⟨hsame,-⟩ | ⟨old,-,-,hremoved⟩ := h.unsubscribe_eq feature
  · rwa [hsame]
  · rw [hremoved]
    apply Sound.closeIdle
    refine ⟨h.one,?_,h.stopped,?_,?_,h.promises,h.issued,h.count,h.freed,h.safe⟩
    · intro hactive
      apply h.served
      rw [isActive_iff] at hactive ⊢
      obtain hget | hsub := hactive
      · exact .inl hget
      · refine .inr fun hnone => hsub ?_
        simp [hnone]
    · intro sub hsub
      obtain ⟨hmem,hother⟩ := List.mem_filter.mp hsub
      rw [removeAll_iff]
      refine ⟨h.heard sub hmem,fun hsame => ?_⟩
      exact absurd hsame.1 (by simpa using hother)
    · exact h.distinct.sublist (List.filter_sublist.map _)

theorem Sound.unsubscribe_subList (h : s.Sound) (feature : ι) :
    (s.unsubscribe feature).subList = s.subList.filter (fun sub => sub.feature ≠ feature) := by
  obtain ⟨hsame,hnone⟩ | ⟨old,-,-,hremoved⟩ := h.unsubscribe_eq feature
  · rw [hsame]
    exact (List.filter_eq_self.mpr (by simpa using hnone)).symm
  · obtain ⟨topics,closing,hclosed⟩ := closeIdle_frame { s with
        live := removeAll s.live feature old.callback old.fail
        subList := s.subList.filter (fun sub => sub.feature ≠ feature) }
    rw [hremoved,hclosed]

theorem Sound.unsubscribe_frame (h : s.Sound) (feature : ι) :
    (s.unsubscribe feature).getList = s.getList ∧ (s.unsubscribe feature).timer = s.timer ∧
      (s.unsubscribe feature).settled = s.settled ∧ (s.unsubscribe feature).detached = s.detached := by
  obtain ⟨hsame,-⟩ | ⟨old,-,-,hremoved⟩ := h.unsubscribe_eq feature
  · rw [hsame]
    exact ⟨rfl,rfl,rfl,rfl⟩
  · obtain ⟨topics,closing,hclosed⟩ := closeIdle_frame { s with
        live := removeAll s.live feature old.callback old.fail
        subList := s.subList.filter (fun sub => sub.feature ≠ feature) }
    rw [hremoved,hclosed]
    exact ⟨rfl,rfl,rfl,rfl⟩

theorem Sound.withdraw (h : s.Sound) (feature : ι) :
    Sound { s with getList := s.getList.filter (fun request => request.feature ≠ feature) } := by
  refine ⟨h.one,?_,h.stopped,h.heard,h.distinct,?_,?_,h.count,h.freed,h.safe⟩
  · intro hactive
    apply h.served
    rw [isActive_iff] at hactive ⊢
    obtain hget | hsub := hactive
    · refine .inl fun hnone => hget ?_
      simp [hnone]
    · exact .inr hsub
  · exact h.promises.sublist ((List.filter_sublist.map _).append_left _)
  · intro pid hpid
    exact h.issued pid (((List.filter_sublist.map _).append_left _).subset hpid)

theorem Sound.onDetached (h : s.Sound) (feature : ι) : (s.onDetached feature).Sound := by
  have hfiltered := h.withdraw feature
  have hunsubscribed := hfiltered.unsubscribe feature
  refine ⟨hunsubscribed.one,hunsubscribed.served,hunsubscribed.stopped,?_,hunsubscribed.distinct,
    hunsubscribed.promises,hunsubscribed.issued,hunsubscribed.count,hunsubscribed.freed,hunsubscribed.safe⟩
  intro sub hsub
  have hother : sub.feature ≠ feature := by
    simp only [Geolocation.onDetached,hfiltered.unsubscribe_subList] at hsub
    simpa using (List.mem_filter.mp hsub).2
  have hlive := hunsubscribed.heard sub hsub
  simp only [Geolocation.onDetached,hother,decide_false,Bool.not_false,Bool.and_true]
  exact hlive

theorem Sound.onDetached_keeps (h : s.Sound) (feature : ι) : s.Keeps (s.onDetached feature) := by
  have hfiltered := h.withdraw feature
  obtain ⟨hget,-,hsettled,hdetached⟩ := hfiltered.unsubscribe_frame feature
  refine ⟨fun pid hpid => ?_,fun other hother => ?_,fun request hrequest => ?_⟩
  · simpa only [Geolocation.onDetached,hsettled] using hpid
  · simp only [Geolocation.onDetached,hdetached]
    by_cases hsame : other = feature
    · simp [hsame]
    · simpa [Function.update_of_ne hsame] using hother
  · by_cases hsame : request.feature = feature
    · simp [Geolocation.onDetached,hsame]
    · left
      simp only [Geolocation.onDetached,hget]
      exact List.mem_filter.mpr ⟨hrequest,by simpa using hsame⟩

theorem Sound.register (h : s.Sound) (feature : ι) (id : ℤ) :
    Sound { s with live := LiveCallbacks.register s.live feature id } := by
  refine ⟨h.one,h.served,h.stopped,fun sub hsub => ?_,h.distinct,h.promises,h.issued,h.count,h.freed,h.safe⟩
  exact (register_iff ..).mpr (.inl (h.heard sub hsub))

/-- A subscriber takes other callbacks, and its old ones are removed. -/
theorem Sound.resubscribe_eq (h : s.Sound) {old : GeoSubscriber ι} (hold : old ∈ s.subList) (callback fail : ℤ) :
    s.subscribe old.feature callback fail = { s with
      live := removeAll s.live old.feature old.callback old.fail
      subList := s.subList.map (fun sub => if sub.feature = old.feature then ⟨old.feature,callback,fail⟩ else sub) } := by
  have hfind : s.subList.find? (fun sub => sub.feature = old.feature) = some old := by
    cases hfind : s.subList.find? (fun sub => sub.feature = old.feature) with
    | none => exact absurd (List.find?_eq_none.mp hfind old hold) (by simp)
    | some found =>
      have hfeature : found.feature = old.feature := by simpa using List.find?_some hfind
      rw [List.inj_on_of_nodup_map h.distinct (List.mem_of_find?_eq_some hfind) hold hfeature]
  simp only [Geolocation.subscribe,hfind]

theorem Sound.resubscribe (h : s.Sound) {old : GeoSubscriber ι} (hold : old ∈ s.subList) {callback : ℤ} (fail : ℤ)
    (hlive : s.live old.feature callback = true) (hcallback : callback ≠ old.callback) (hfail : callback ≠ old.fail) :
    (s.subscribe old.feature callback fail).Sound := by
  rw [h.resubscribe_eq hold]
  have hfeatures : (s.subList.map (fun sub => if sub.feature = old.feature then
      (⟨old.feature,callback,fail⟩ : GeoSubscriber ι) else sub)).map GeoSubscriber.feature =
      s.subList.map GeoSubscriber.feature := by
    rw [List.map_map]
    apply List.map_congr_left
    intro sub _
    by_cases hsame : sub.feature = old.feature
    · simp [hsame]
    · simp [hsame]
  refine ⟨h.one,?_,h.stopped,?_,by rw [hfeatures]; exact h.distinct,h.promises,h.issued,h.count,h.freed,h.safe⟩
  · intro hactive
    apply h.served
    rw [isActive_iff]
    exact .inr (List.ne_nil_of_mem hold)
  · intro sub hsub
    obtain ⟨other,hother,rfl⟩ := List.mem_map.mp hsub
    rw [removeAll_iff]
    by_cases hsame : other.feature = old.feature
    · simp only [hsame,if_true]
      refine ⟨hlive,fun hremoved => ?_⟩
      obtain hid | hid := hremoved.2
      · exact hcallback hid
      · exact hfail hid
    · simp only [hsame,if_false]
      exact ⟨h.heard other hother,fun hremoved => hremoved.1⟩

theorem Sound.subscribeNew (h : s.Sound) (hrunning : s.timer = .running) {feature : ι} {callback : ℤ} (fail : ℤ)
    (hlive : s.live feature callback = true) (hnone : ∀ sub ∈ s.subList, sub.feature ≠ feature)
    (hmeets : s.isActive = true ∨ s.topicList = []) : (s.subscribe feature callback fail).Sound := by
  have hfind : s.subList.find? (fun sub => sub.feature = feature) = none := by
    simpa using hnone
  have hadd : ∀ t : Geolocation ι, t.Sound → t.topicList ≠ [] → t.live = s.live → t.subList = s.subList →
      Sound { t with subList := t.subList ++ [⟨feature,callback,fail⟩] } := by
    intro t ht htopics hsamelive hsamelist
    refine ⟨ht.one,fun _ => htopics,ht.stopped,?_,?_,ht.promises,ht.issued,ht.count,ht.freed,ht.safe⟩
    · intro sub hsub
      obtain hold | hnew := List.mem_append.mp hsub
      · exact ht.heard sub hold
      · rw [List.mem_singleton.mp hnew,hsamelive]
        exact hlive
    · rw [List.map_append,List.map_singleton,hsamelist,← List.concat_eq_append]
      apply h.distinct.concat
      intro hmem
      obtain ⟨sub,hsub,hsame⟩ := List.mem_map.mp hmem
      exact hnone sub hsub hsame
  simp only [Geolocation.subscribe,hfind]
  split_ifs with hactive
  · exact hadd s h (h.served hactive) rfl rfl
  · exact hadd _ (h.openTopic hrunning (hmeets.resolve_left hactive)) (by simp [Geolocation.openTopic]) rfl rfl

/-- A subscriber may ask for the location and take another callback: its entry is replaced, and no other one changes. -/
theorem Sound.perform_inside (h : s.Sound) (hrunning : s.timer = .running) {sub : GeoSubscriber ι} (hsub : sub ∈ s.subList)
    {call : GeoCall} (hadmits : sub.Admits call) :
    (s.perform sub.feature call).Sound ∧ s.Keeps (s.perform sub.feature call) ∧ (s.perform sub.feature call).subList =
        s.subList.map (fun other => if other.feature = sub.feature then other.replaced call else other) ∧
      (s.perform sub.feature call).topicList = s.topicList ∧ (s.perform sub.feature call).timer = .running ∧
      (s.perform sub.feature call).delivered = s.delivered := by
  have hactive : s.isActive = true := isActive_iff.mpr (.inr (List.ne_nil_of_mem hsub))
  cases call with
  | getLocation now timeout =>
    have hmap : s.subList.map (fun other => if other.feature = sub.feature
        then other.replaced (.getLocation now timeout) else other) = s.subList := by
      simp [GeoSubscriber.replaced]
    rw [hmap]
    refine ⟨h.getLocation hrunning sub.feature now timeout (.inl hactive),
      keeps_getLocation s sub.feature now timeout,?_⟩
    simp only [perform,Geolocation.getLocation]
    split_ifs
    · exact ⟨rfl,rfl,hrunning,rfl⟩
    · exact ⟨rfl,rfl,hrunning,rfl⟩
    · contradiction
  | unsubscribe => exact hadmits.elim
  | subscribe callback fail =>
    obtain ⟨hpositive,hcallback,hfail⟩ := hadmits
    have hregistered := (h.register sub.feature callback).register sub.feature fail
    refine ⟨hregistered.resubscribe hsub fail (by simp [hpositive]) hcallback hfail,?_⟩
    rw [perform,hregistered.resubscribe_eq hsub callback fail]
    refine ⟨⟨fun _ h => h,fun _ h => h,fun _ h => .inl h⟩,?_,rfl,hrunning,rfl⟩
    apply List.map_congr_left
    intro other _
    by_cases hsame : other.feature = sub.feature
    · simp [GeoSubscriber.replaced,hsame]
    · simp [hsame]

/-- All the calls that a subscriber makes while it is given a sample. -/
theorem Sound.performs_inside (h : s.Sound) (hrunning : s.timer = .running) {sub : GeoSubscriber ι} (hsub : sub ∈ s.subList)
    {calls : List GeoCall} (hadmits : Transition.Guarded GeoSubscriber.replaced GeoSubscriber.Admits sub calls) :
    let after := calls.foldl (fun s call => s.perform sub.feature call) s
    after.Sound ∧ s.Keeps after ∧ after.subList = s.subList.map (fun other => if other.feature = sub.feature
        then Transition.run GeoSubscriber.replaced other calls else other) ∧
      after.topicList = s.topicList ∧ after.timer = .running ∧ after.delivered = s.delivered := by
  induction calls generalizing s sub with
  | nil => simpa [hrunning,h] using Keeps.refl s
  | cons call calls ih =>
    obtain ⟨hcall,hkeeps,hlist,htopics,htimer,hdelivered⟩ := h.perform_inside hrunning hsub hadmits.1
    have hsub' : sub.replaced call ∈ (s.perform sub.feature call).subList := by
      rw [hlist]
      exact List.mem_map.mpr ⟨sub,hsub,by simp⟩
    obtain ⟨hcalls,hkeeps',hlist',htopics',htimer',hdelivered'⟩ := ih hcall htimer hsub' hadmits.2
    simp only [GeoSubscriber.replaced_feature] at hcalls hkeeps' hlist' htopics' htimer' hdelivered'
    refine ⟨hcalls,hkeeps.trans hkeeps',?_,htopics'.trans htopics,htimer',hdelivered'.trans hdelivered⟩
    simp only [List.foldl_cons,hlist',hlist,List.map_map]
    apply List.map_congr_left
    intro other _
    by_cases hsame : other.feature = sub.feature
    · simp [hsame]
    · simp [hsame]

omit [DecidableEq ι] in
theorem not_unsubscribe_mem {sub : GeoSubscriber ι} {calls : List GeoCall}
    (hadmits : Transition.Guarded GeoSubscriber.replaced GeoSubscriber.Admits sub calls) : .unsubscribe ∉ calls := by
  induction calls generalizing sub with
  | nil => simp
  | cons call calls ih =>
    intro hmem
    obtain rfl | hrest := List.mem_cons.mp hmem
    · exact hadmits.1
    · exact ih hadmits.2 hrest

variable {inside : ℕ → ι → List GeoCall} {sample : ℕ}

theorem Sound.deliver_at (h : s.Sound) (hrunning : s.timer = .running) {place : ℕ} {sub : GeoSubscriber ι}
    (hplace : s.subList[place]? = some sub)
    (hadmits : Transition.Guarded GeoSubscriber.replaced GeoSubscriber.Admits sub (inside sample sub.feature)) :
    let after := deliver inside sample s place
    after.Sound ∧ s.Keeps after ∧ after.subList = s.subList.map (fun other => if other.feature = sub.feature
        then Transition.run GeoSubscriber.replaced other (inside sample sub.feature) else other) ∧
      after.topicList = s.topicList ∧ after.timer = .running ∧
      after.delivered = s.delivered ++ [(sample,sub.feature)] := by
  have hsub := List.mem_of_getElem? hplace
  have hgiven : Sound { s with delivered := s.delivered ++ [(sample,sub.feature)] } :=
    ⟨h.one,h.served,h.stopped,h.heard,h.distinct,h.promises,h.issued,h.count,h.freed,h.safe⟩
  obtain ⟨hsound,hkeeps,hlist,htopics,htimer,hdelivered⟩ := hgiven.performs_inside hrunning hsub hadmits
  have hdeliver : deliver inside sample s place = (inside sample sub.feature).foldl
      (fun s call => s.perform sub.feature call) { s with delivered := s.delivered ++ [(sample,sub.feature)] } := by
    simp [deliver,h.safe,hplace,h.heard sub hsub,not_unsubscribe_mem hadmits]
  simp only [hdeliver]
  exact ⟨hsound,⟨hkeeps.settled,hkeeps.detached,hkeeps.waits⟩,hlist,htopics,htimer,hdelivered⟩

theorem Sound.deliver_range (h : s.Sound) (hrunning : s.timer = .running) (hadmits : ∀ sub ∈ s.subList,
      Transition.Guarded GeoSubscriber.replaced GeoSubscriber.Admits sub (inside sample sub.feature))
    (place : ℕ) (hplace : place ≤ s.subList.length) :
    let after := (List.range place).foldl (deliver inside sample) s
    after.Sound ∧ s.Keeps after ∧ after.subList = s.subList.mapIdx (fun i sub => if i < place
        then Transition.run GeoSubscriber.replaced sub (inside sample sub.feature) else sub) ∧
      after.topicList = s.topicList ∧ after.timer = .running ∧
      after.delivered = s.delivered ++ (s.subList.take place).map (fun sub => (sample,sub.feature)) := by
  induction place with
  | zero =>
    refine ⟨h,Keeps.refl s,?_,rfl,hrunning,by simp⟩
    apply List.ext_getElem?
    simp
  | succ place ih =>
    obtain ⟨hsound,hkeeps,hlist,htopics,htimer,hdelivered⟩ := ih (by omega)
    have hsub : s.subList[place]? = some s.subList[place] := List.getElem?_eq_getElem (by omega)
    have hat : ((List.range place).foldl (deliver inside sample) s).subList[place]? = some s.subList[place] := by
      rw [hlist]
      simp [hsub]
    obtain ⟨hsound',hkeeps',hlist',htopics',htimer',hdelivered'⟩ :=
      hsound.deliver_at htimer hat (hadmits _ (List.getElem_mem _))
    simp only [List.range_succ,List.foldl_append,List.foldl_cons,List.foldl_nil]
    refine ⟨hsound',hkeeps.trans hkeeps',?_,htopics'.trans htopics,htimer',?_⟩
    · rw [hlist',hlist]
      apply List.ext_getElem?
      intro i
      simp only [List.getElem?_map,List.getElem?_mapIdx,Option.map_map]
      cases hi : s.subList[i]? with
      | none => rfl
      | some other =>
        -- the entry of an instance is the one at its own place
        have hown : other.feature = s.subList[place].feature ↔ i = place := by
          constructor
          · intro hfeature
            have hmap : (s.subList.map GeoSubscriber.feature)[i]? = (s.subList.map GeoSubscriber.feature)[place]? := by
              simp [hi,hsub,hfeature]
            exact (List.getElem?_inj (by simpa using (List.getElem?_eq_some_iff.mp hi).1) h.distinct).mp hmap
          · rintro rfl
            rw [hsub] at hi
            rw [Option.some.inj hi]
        by_cases hbefore : i < place
        · have hother : ¬ other.feature = s.subList[place].feature := fun hsame => by
            have := hown.mp hsame
            omega
          simp [hbefore,hother,Nat.lt_succ_of_lt hbefore]
        · by_cases hsame : i = place
          · have hfeature := hown.mpr hsame
            simp [hsame,hfeature]
          · have hother : ¬ other.feature = s.subList[place].feature := fun h => hsame (hown.mp h)
            have hafter : ¬ i < place + 1 := by omega
            simp [hbefore,hother,hafter]
    · rw [hdelivered',hdelivered,List.take_add_one,hsub,List.map_append,List.append_assoc]
      rfl

omit [DecidableEq ι] in
theorem Sound.resolve (h : s.Sound) {request : GeoRequest ι} {rest : List (GeoRequest ι)}
    (hget : s.getList = request :: rest) :
    Sound { s with getList := rest, settled := s.settled ++ [request.pid] } := by
  have hsame : s.settled ++ s.getList.map GeoRequest.pid = s.settled ++ [request.pid] ++ rest.map GeoRequest.pid := by
    simp [hget]
  have hpromises := h.promises
  have hissued := h.issued
  rw [hsame] at hpromises hissued
  refine ⟨h.one,fun _ => ?_,h.stopped,h.heard,h.distinct,hpromises,hissued,h.count,h.freed,h.safe⟩
  exact h.served (isActive_iff.mpr (.inl (by simp [hget])))

theorem Sound.onSample (h : s.Sound) (hrunning : s.timer = .running) (valid last : Bool)
    (hadmits : ∀ sub ∈ s.subList, Transition.Guarded GeoSubscriber.replaced GeoSubscriber.Admits sub
      (callsInside inside sub.feature [(valid,sample)])) :
    let after := onSample inside s sample valid last
    after.Sound ∧ s.Keeps after ∧ after.subList = s.subList.map (fun sub => Transition.run GeoSubscriber.replaced sub
        (callsInside inside sub.feature [(valid,sample)])) ∧
      after.timer = .running ∧
      after.delivered = s.delivered ++ deliveries (s.subList.map GeoSubscriber.feature) [(valid,sample)] := by
  cases valid with
  | false => simpa [Geolocation.onSample,callsInside,deliveries,hrunning,h] using Keeps.refl s
  | true =>
    simp only [callsInside,List.flatMap_cons,List.flatMap_nil,if_true,List.append_nil] at hadmits ⊢
    have hserve : ∀ t : Geolocation ι, t.Sound → s.Keeps t → t.subList = s.subList → t.timer = .running →
        t.delivered = s.delivered →
        let after := (List.range t.subList.length).foldl (deliver inside sample) t
        after.Sound ∧ s.Keeps after ∧
          after.subList = s.subList.map (fun sub => Transition.run GeoSubscriber.replaced sub (inside sample sub.feature)) ∧
          after.timer = .running ∧
          after.delivered = s.delivered ++ deliveries (s.subList.map GeoSubscriber.feature) [(true,sample)] := by
      intro t ht hkeeps hlist htimer hdelivered
      obtain ⟨hsound,hkeeps',hlist',-,htimer',hdelivered'⟩ :=
        ht.deliver_range htimer (by simpa [hlist] using hadmits) t.subList.length (Nat.le_refl _)
      refine ⟨hsound,hkeeps.trans hkeeps',?_,htimer',?_⟩
      · rw [hlist',hlist]
        apply List.ext_getElem (by simp)
        intro i hi _
        rw [List.length_mapIdx] at hi
        simp [hi]
      · rw [hdelivered',hdelivered,List.take_length,hlist]
        simp [deliveries,Function.comp_def]
    simp only [Geolocation.onSample,if_true]
    cases hget : s.getList with
    | nil => exact hserve s h (Keeps.refl s) rfl hrunning rfl
    | cons request rest =>
      cases last with
      | false => exact hserve s h (Keeps.refl s) rfl hrunning rfl
      | true =>
        refine hserve { s with getList := rest, settled := s.settled ++ [request.pid] } (h.resolve hget) ?_ rfl hrunning rfl
        refine ⟨fun _ h => List.mem_append_left _ h,fun _ h => h,fun other hother => ?_⟩
        rw [hget] at hother
        obtain rfl | hrest := List.mem_cons.mp hother
        · exact .inr (.inl (List.mem_append_right _ (List.mem_singleton.mpr rfl)))
        · exact .inl hrest

/-- The samples of a batch from one on; where the topic is closed on the way there is no subscriber. -/
theorem Sound.onSamples (h : s.Sound) (hrunning : s.timer = .running) (samples : List Bool)
    (hadmits : ∀ sub ∈ s.subList, Transition.Guarded GeoSubscriber.replaced GeoSubscriber.Admits sub
      (callsInside inside sub.feature (samples.zipIdx sample))) :
    let after := onSamples inside s sample samples
    after.Sound ∧ s.Keeps after ∧
      after.delivered = s.delivered ++ deliveries (s.subList.map GeoSubscriber.feature) (samples.zipIdx sample) := by
  induction samples generalizing s sample with
  | nil =>
    refine ⟨h,Keeps.refl s,?_⟩
    simp [Geolocation.onSamples,deliveries]
  | cons valid rest ih =>
    have hsplit : ∀ feature, callsInside inside feature ((valid :: rest).zipIdx sample) =
        callsInside inside feature [(valid,sample)] ++ callsInside inside feature (rest.zipIdx (sample + 1)) := by
      intro feature
      simp [callsInside,List.zipIdx_cons]
    have hboth : ∀ sub ∈ s.subList,
        Transition.Guarded GeoSubscriber.replaced GeoSubscriber.Admits sub (callsInside inside sub.feature [(valid,sample)]) ∧
        Transition.Guarded GeoSubscriber.replaced GeoSubscriber.Admits
          (Transition.run GeoSubscriber.replaced sub (callsInside inside sub.feature [(valid,sample)]))
          (callsInside inside sub.feature (rest.zipIdx (sample + 1))) := by
      intro sub hsub
      have hsub' := hadmits sub hsub
      rw [hsplit,Transition.guarded_append] at hsub'
      exact hsub'
    obtain ⟨hsound,hkeeps,hlist,htimer,hdelivered⟩ :=
      h.onSample hrunning valid rest.isEmpty (fun sub hsub => (hboth sub hsub).1)
    have hfeatures : (Geolocation.onSample inside s sample valid rest.isEmpty).subList.map GeoSubscriber.feature =
        s.subList.map GeoSubscriber.feature := by
      rw [hlist,List.map_map]
      apply List.map_congr_left
      intro sub _
      simp
    have hdeliveries : deliveries (s.subList.map GeoSubscriber.feature) ((valid :: rest).zipIdx sample) =
        deliveries (s.subList.map GeoSubscriber.feature) [(valid,sample)] ++
          deliveries (s.subList.map GeoSubscriber.feature) (rest.zipIdx (sample + 1)) := by
      simp [deliveries,List.zipIdx_cons]
    simp only [Geolocation.onSamples]
    split_ifs with hidle
    · -- nobody waits any more, so nobody misses the rest
      have hnobody : s.subList.map GeoSubscriber.feature = [] := by
        rw [← hfeatures]
        by_contra hsome
        have hactive := isActive_iff.mpr (.inr (fun hnone => hsome (by rw [hnone]; rfl)))
        rw [hidle.1] at hactive
        cases hactive
      obtain ⟨topics,closing,hclosed⟩ := closeIdle_frame (Geolocation.onSample inside s sample valid rest.isEmpty)
      refine ⟨hsound.closeIdle,hkeeps.trans ?_,?_⟩
      · rw [hclosed]
        exact ⟨fun _ h => h,fun _ h => h,fun _ h => .inl h⟩
      · rw [hclosed,hdeliveries,hnobody]
        simp only [hdelivered,hnobody]
        simp [deliveries]
    · obtain ⟨hsound',hkeeps',hdelivered'⟩ := ih hsound htimer (by
        intro sub hsub
        rw [hlist] at hsub
        obtain ⟨old,hold,rfl⟩ := List.mem_map.mp hsub
        rw [GeoSubscriber.run_replaced_feature]
        exact (hboth old hold).2)
      refine ⟨hsound',hkeeps.trans hkeeps',?_⟩
      rw [hdelivered',hdelivered,hfeatures,hdeliveries,List.append_assoc]

omit [DecidableEq ι] in
/-- The requests at the front that have waited too long are rejected. -/
theorem Sound.reject (h : s.Sound) (now : ℤ) : Sound { s with
    getList := s.getList.dropWhile (expired now)
    settled := s.settled ++ (s.getList.takeWhile (expired now)).map GeoRequest.pid } := by
  have hsame : s.settled ++ s.getList.map GeoRequest.pid =
      s.settled ++ (s.getList.takeWhile (expired now)).map GeoRequest.pid ++
        (s.getList.dropWhile (expired now)).map GeoRequest.pid := by
    rw [List.append_assoc,← List.map_append,List.takeWhile_append_dropWhile]
  have hpromises := h.promises
  have hissued := h.issued
  rw [hsame] at hpromises hissued
  refine ⟨h.one,fun hactive => ?_,h.stopped,h.heard,h.distinct,hpromises,hissued,h.count,h.freed,h.safe⟩
  apply h.served
  rw [isActive_iff] at hactive ⊢
  obtain hget | hsub := hactive
  · refine .inl fun hnone => hget ?_
    simp [hnone]
  · exact .inr hsub

omit [DecidableEq ι] in
theorem Sound.timerHandler (h : s.Sound) (now : ℤ) : (s.timerHandler now).Sound := (h.reject now).closeIdle

omit [DecidableEq ι] in
theorem keeps_timerHandler (s : Geolocation ι) (now : ℤ) : s.Keeps (s.timerHandler now) := by
  obtain ⟨topics,closing,hclosed⟩ := closeIdle_frame { s with
    getList := s.getList.dropWhile (expired now)
    settled := s.settled ++ (s.getList.takeWhile (expired now)).map GeoRequest.pid }
  simp only [Geolocation.timerHandler,hclosed]
  refine ⟨fun _ h => List.mem_append_left _ h,fun _ h => h,fun request hrequest => ?_⟩
  rw [← List.takeWhile_append_dropWhile (p := expired now) (l := s.getList)] at hrequest
  obtain htaken | hleft := List.mem_append.mp hrequest
  · exact .inr (.inl (List.mem_append_right _ (List.mem_map.mpr ⟨request,htaken,rfl⟩)))
  · exact .inl hleft

omit [DecidableEq ι] in
/-- Where the requests that have waited too long are all at the front, a tick rejects them all. -/
theorem timerHandler_rejects (s : Geolocation ι) (now : ℤ)
    (hfront : s.getList.Pairwise (fun first second => expired now second = true → expired now first = true)) :
    ∀ request ∈ s.getList, expired now request = true → request.pid ∈ (s.timerHandler now).settled := by
  have htaken : ∀ requests : List (GeoRequest ι),
      requests.Pairwise (fun first second => expired now second = true → expired now first = true) →
      ∀ request ∈ requests, expired now request = true → request ∈ requests.takeWhile (expired now) := by
    intro requests hfront
    induction hfront with
    | nil => simp
    | @cons first rest hfirst _ ih =>
      intro request hrequest hexpired
      have hhead : expired now first = true := by
        obtain rfl | hrest := List.mem_cons.mp hrequest
        · exact hexpired
        · exact hfirst request hrest hexpired
      rw [List.takeWhile_cons_of_pos hhead]
      obtain rfl | hrest := List.mem_cons.mp hrequest
      · exact List.mem_cons_self
      · exact List.mem_cons_of_mem _ (ih request hrest hexpired)
  intro request hrequest hexpired
  obtain ⟨topics,closing,hclosed⟩ := closeIdle_frame { s with
    getList := s.getList.dropWhile (expired now)
    settled := s.settled ++ (s.getList.takeWhile (expired now)).map GeoRequest.pid }
  simp only [Geolocation.timerHandler,hclosed]
  exact List.mem_append_right _ (List.mem_map.mpr ⟨request,htaken _ hfront request hrequest hexpired,rfl⟩)

theorem Sound.detachAll (h : s.Sound) (features : List ι) :
    let after := features.foldl Geolocation.onDetached s
    after.Sound ∧ s.Keeps after ∧ after.timer = s.timer ∧
      (∀ sub ∈ after.subList, sub ∈ s.subList ∧ sub.feature ∉ features) ∧
      ∀ request ∈ after.getList, request ∈ s.getList ∧ request.feature ∉ features := by
  induction features generalizing s with
  | nil => exact ⟨h,Keeps.refl s,rfl,fun _ hsub => ⟨hsub,by simp⟩,fun _ hrequest => ⟨hrequest,by simp⟩⟩
  | cons feature features ih =>
    obtain ⟨hsound,hkeeps,htimer,hsubs,hrequests⟩ := ih (h.onDetached feature)
    have hfiltered := h.withdraw feature
    obtain ⟨hget,htimer',-,-⟩ := hfiltered.unsubscribe_frame feature
    refine ⟨hsound,(h.onDetached_keeps feature).trans hkeeps,htimer.trans htimer',fun sub hsub => ?_,
      fun request hrequest => ?_⟩
    · obtain ⟨hmem,hothers⟩ := hsubs sub hsub
      simp only [Geolocation.onDetached,hfiltered.unsubscribe_subList,List.mem_filter,decide_eq_true_eq] at hmem
      exact ⟨hmem.1,by simp [hmem.2,hothers]⟩
    · obtain ⟨hmem,hothers⟩ := hrequests request hrequest
      simp only [Geolocation.onDetached,hget,List.mem_filter,decide_eq_true_eq] at hmem
      exact ⟨hmem.1,by simp [hmem.2,hothers]⟩

omit [DecidableEq ι] in
theorem Sound.onDestroy (h : s.Sound) (hrunning : s.timer = .running) (hsubs : s.subList = []) (hget : s.getList = []) :
    s.onDestroy.Sound ∧ s.Keeps s.onDestroy := by
  have hpromises := h.promises
  have hissued := h.issued
  rw [hget] at hpromises hissued
  refine ⟨⟨by simp [Geolocation.onDestroy],fun hactive => ?_,fun _ => rfl,h.heard,h.distinct,hpromises,hissued,?_,?_,
    h.safe⟩,⟨fun _ h => h,fun _ h => h,fun request hrequest => ?_⟩⟩
  · simp [isActive_iff,Geolocation.onDestroy,hsubs] at hactive
  · have hcount := h.count
    simp only [hrunning,reduceCtorEq,if_false] at hcount
    simp only [Geolocation.onDestroy,List.length_append,List.length_nil,reduceCtorEq,if_false,hcount]
    omega
  · simp [Geolocation.onDestroy,h.freed_of_running hrunning]
  · rw [hget] at hrequest
    cases hrequest

theorem Sound.destroy (h : s.Sound) (hrunning : s.timer = .running) : s.destroy.Sound ∧ s.Keeps s.destroy := by
  obtain ⟨hsound,hkeeps,htimer,hsubs,hrequests⟩ :=
    h.detachAll (s.getList.map GeoRequest.feature ++ s.subList.map GeoSubscriber.feature)
  have hnosubs := List.eq_nil_iff_forall_not_mem.mpr (fun sub hsub => (hsubs sub hsub).2
    (List.mem_append_right _ (List.mem_map.mpr ⟨sub,(hsubs sub hsub).1,rfl⟩)))
  have hnorequests := List.eq_nil_iff_forall_not_mem.mpr (fun request hrequest => (hrequests request hrequest).2
    (List.mem_append_left _ (List.mem_map.mpr ⟨request,(hrequests request hrequest).1,rfl⟩)))
  obtain ⟨hended,hkeeps'⟩ := hsound.onDestroy (htimer.trans hrunning) hnosubs hnorequests
  exact ⟨hended,hkeeps.trans hkeeps'⟩

omit [DecidableEq ι] in
/-- The context is there as long as it has a user, and the last one frees it. -/
theorem Sound.topicClosed (h : s.Sound) {topic : ℕ} (htopic : topic ∈ s.closing) :
    (release { s with closing := s.closing.erase topic }).Sound := by
  have hsome : s.closing ≠ [] := List.ne_nil_of_mem htopic
  have hfreed : s.freed = 0 := by
    rw [h.freed]
    simp [hsome]
  have hlength := List.length_erase_of_mem htopic
  have hpositive := List.length_pos_of_mem htopic
  have hcount := h.count
  refine ⟨h.one,h.served,h.stopped,h.heard,h.distinct,h.promises,h.issued,?_,?_,by simp [release,h.safe,hfreed]⟩
  · simp only [release]
    omega
  · have hlast : s.refCount - 1 = 0 ↔ s.timer = .closed ∧ s.topicList = [] ∧ s.closing.erase topic = [] := by
      rw [← List.length_eq_zero_iff (l := s.topicList),← List.length_eq_zero_iff (l := s.closing.erase topic)]
      by_cases hclosed : s.timer = .closed
      · simp only [hclosed,if_true,true_and] at hcount ⊢
        omega
      · simp only [hclosed,if_false,false_and,iff_false] at hcount ⊢
        omega
    simp only [release,hfreed,hlast]

omit [DecidableEq ι] in
theorem Sound.timerClosed (h : s.Sound) (hclosing : s.timer = .closing) : (release { s with timer := .closed }).Sound := by
  have hfreed : s.freed = 0 := by
    rw [h.freed]
    simp [hclosing]
  have hstopped := h.stopped (by simp [hclosing])
  have hcount := h.count
  simp only [hclosing,reduceCtorEq,if_false] at hcount
  refine ⟨h.one,h.served,fun _ => hstopped,h.heard,h.distinct,h.promises,h.issued,?_,?_,by simp [release,h.safe,hfreed]⟩
  · simp only [release,if_true]
    omega
  · have hlast : s.refCount - 1 = 0 ↔ s.closing = [] := by
      rw [← List.length_eq_zero_iff (l := s.closing),hcount,hstopped,List.length_nil]
      omega
    simp only [release,hfreed,hlast,hstopped,true_and]

/-- The condition on a call of an instance: no topic is left where nobody waits, and a subscription brings a function,
another one than the instance is subscribed with. -/
def CallMeets (s : Geolocation ι) (feature : ι) : GeoCall → Prop
  | .getLocation _ _ => s.isActive = true ∨ s.topicList = []
  | .subscribe callback _ => (s.isActive = true ∨ s.topicList = []) ∧ 0 < callback ∧
      ∀ sub ∈ s.subList, sub.feature = feature → callback ≠ sub.callback ∧ callback ≠ sub.fail
  | .unsubscribe => True

/-- The condition on what happens: the subscribers do not unsubscribe while they are given a sample, and at a tick the
requests that have waited too long are in front of the others. -/
def Meets (s : Geolocation ι) : GeoOp ι → Prop
  | .call feature call => s.detached feature = false → s.timer = .running → s.CallMeets feature call
  | .batch samples inside => ∀ sub ∈ s.subList, Transition.Guarded GeoSubscriber.replaced GeoSubscriber.Admits sub
      (callsInside inside sub.feature samples.zipIdx)
  | .tick now => s.timer = .running →
      s.getList.Pairwise (fun first second => expired now second = true → expired now first = true)
  | _ => True

/-- What is promised of the state after an operation: one topic at most, and after a tick one just where somebody waits;
every valid sample of a batch once to every subscriber; no promise settled twice or lost, and every one whose time is up
at a tick settled; and the context freed once, when the last topic and the timer are closed, and not used after it. -/
structure Right (s : Geolocation ι) (op : GeoOp ι) : Prop where
  one : (s.step op).topicList.length ≤ 1
  served : ∀ now, op = .tick now → s.timer = .running → ((s.step op).topicList ≠ [] ↔ (s.step op).isActive = true)
  delivered : ∀ samples inside, op = .batch samples inside →
    (s.step op).delivered = deliveries (s.subList.map GeoSubscriber.feature) samples.zipIdx
  once : (s.step op).settled.Nodup
  kept : s.Keeps (s.step op)
  rejected : ∀ now, op = .tick now → s.timer = .running →
    ∀ request ∈ s.getList, expired now request = true → request.pid ∈ (s.step op).settled
  freed : (s.step op).freed =
    if (s.step op).timer = .closed ∧ (s.step op).topicList = [] ∧ (s.step op).closing = [] then 1 else 0
  safe : (s.step op).fault = false

theorem Sound.call (h : s.Sound) (hrunning : s.timer = .running) (feature : ι) {call : GeoCall}
    (hmeets : s.CallMeets feature call) : (s.perform feature call).Sound ∧ s.Keeps (s.perform feature call) := by
  cases call with
  | getLocation now timeout =>
    exact ⟨h.getLocation hrunning feature now timeout hmeets,keeps_getLocation s feature now timeout⟩
  | unsubscribe =>
    obtain ⟨hget,-,hsettled,hdetached⟩ := h.unsubscribe_frame feature
    refine ⟨h.unsubscribe feature,?_⟩
    refine ⟨fun _ h => by rwa [perform,hsettled],fun _ h => by rwa [perform,hdetached],fun _ h => .inl ?_⟩
    rwa [perform,hget]
  | subscribe callback fail =>
    obtain ⟨htopics,hpositive,hids⟩ := hmeets
    have hregistered := (h.register feature callback).register feature fail
    by_cases hsub : ∃ sub ∈ s.subList, sub.feature = feature
    · obtain ⟨sub,hmem,rfl⟩ := hsub
      refine ⟨hregistered.resubscribe hmem fail (by simp [hpositive]) (hids sub hmem rfl).1 (hids sub hmem rfl).2,?_⟩
      rw [perform,hregistered.resubscribe_eq hmem callback fail]
      exact ⟨fun _ h => h,fun _ h => h,fun _ h => .inl h⟩
    · have hnone : ∀ sub ∈ s.subList, sub.feature ≠ feature := fun sub hmem hsame => hsub ⟨sub,hmem,hsame⟩
      refine ⟨hregistered.subscribeNew hrunning fail (by simp [hpositive]) hnone htopics,?_⟩
      have hfind : s.subList.find? (fun sub => sub.feature = feature) = none := by
        simpa using hnone
      simp only [perform,Geolocation.subscribe,hfind]
      split_ifs
      · exact ⟨fun _ h => h,fun _ h => h,fun _ h => .inl h⟩
      · exact ⟨fun _ h => h,fun _ h => h,fun _ h => .inl h⟩

theorem Sound.batch (h : s.Sound) (samples : List Bool)
    (hadmits : ∀ sub ∈ s.subList, Transition.Guarded GeoSubscriber.replaced GeoSubscriber.Admits sub
      (callsInside inside sub.feature samples.zipIdx)) :
    (s.step (.batch samples inside)).Sound ∧ s.Keeps (s.step (.batch samples inside)) ∧
      (s.step (.batch samples inside)).delivered = deliveries (s.subList.map GeoSubscriber.feature) samples.zipIdx := by
  have hnew : Sound { s with delivered := [] } :=
    ⟨h.one,h.served,h.stopped,h.heard,h.distinct,h.promises,h.issued,h.count,h.freed,h.safe⟩
  cases htopics : s.topicList with
  | nil =>
    have hnobody : s.subList = [] := by
      by_contra hsome
      exact h.served (isActive_iff.mpr (.inr hsome)) htopics
    have hstep : s.step (.batch samples inside) = { s with delivered := [] } := by
      simp [Geolocation.step,htopics]
    rw [hstep]
    exact ⟨hnew,⟨fun _ h => h,fun _ h => h,fun _ h => .inl h⟩,by simp [deliveries,hnobody]⟩
  | cons topic rest =>
    obtain ⟨rfl,hrunning⟩ := h.alone htopics
    have hstep : s.step (.batch samples inside) = Geolocation.onSamples inside { s with delivered := [] } 0 samples := by
      simp [Geolocation.step,htopics,gnssTopicCb,h.freed_of_running hrunning]
    rw [hstep]
    obtain ⟨hsound,hkeeps,hdelivered⟩ := hnew.onSamples hrunning samples hadmits
    exact ⟨hsound,⟨hkeeps.settled,hkeeps.detached,hkeeps.waits⟩,by simpa using hdelivered⟩

theorem Sound.step (h : s.Sound) (op : GeoOp ι) (hmeets : s.Meets op) : (s.step op).Sound ∧ s.Keeps (s.step op) := by
  cases op with
  | batch samples inside =>
    obtain ⟨hsound,hkeeps,-⟩ := h.batch samples hmeets
    exact ⟨hsound,hkeeps⟩
  | call feature call =>
    simp only [Geolocation.step]
    split_ifs with hunheard
    · exact ⟨h,Keeps.refl s⟩
    · rw [not_or,Bool.not_eq_true,not_not] at hunheard
      exact h.call hunheard.2 feature (hmeets hunheard.1 hunheard.2)
  | tick now =>
    simp only [Geolocation.step]
    split_ifs with hstopped hfreed
    · exact ⟨h,Keeps.refl s⟩
    · have hnone := h.freed_of_running (not_not.mp hstopped)
      omega
    · exact ⟨h.timerHandler now,keeps_timerHandler s now⟩
  | detach feature =>
    simp only [Geolocation.step]
    split_ifs
    · exact ⟨h,Keeps.refl s⟩
    · exact ⟨h.onDetached feature,h.onDetached_keeps feature⟩
  | destroy =>
    simp only [Geolocation.step]
    split_ifs with hstopped
    · exact ⟨h,Keeps.refl s⟩
    · exact h.destroy (not_not.mp hstopped)
  | topicClosed topic =>
    simp only [Geolocation.step]
    split_ifs with htopic
    · exact ⟨h.topicClosed htopic,⟨fun _ h => h,fun _ h => h,fun _ h => .inl h⟩⟩
    · exact ⟨h,Keeps.refl s⟩
  | timerClosed =>
    simp only [Geolocation.step]
    split_ifs with hclosing
    · exact ⟨h.timerClosed hclosing,⟨fun _ h => h,fun _ h => h,fun _ h => .inl h⟩⟩
    · exact ⟨h,Keeps.refl s⟩

theorem Sound.right (h : s.Sound) (op : GeoOp ι) (hmeets : s.Meets op) : s.Right op := by
  obtain ⟨hsound,hkeeps⟩ := h.step op hmeets
  refine ⟨hsound.one,?_,?_,hsound.promises.of_append_left,hkeeps,?_,hsound.freed,hsound.safe⟩
  · rintro now rfl hrunning
    have hfreed := h.freed_of_running hrunning
    simp only [Geolocation.step,hrunning,hfreed,ne_eq,not_true_eq_false,if_false,Nat.lt_irrefl]
    exact (h.reject now).closeIdle_served
  · rintro samples inside rfl
    exact (h.batch samples hmeets).2.2
  · rintro now rfl hrunning
    have hfreed := h.freed_of_running hrunning
    simp only [Geolocation.step,hrunning,hfreed,ne_eq,not_true_eq_false,if_false,Nat.lt_irrefl]
    exact timerHandler_rejects s now (hmeets hrunning)

omit [DecidableEq ι] in
theorem Sound.onCreate : (onCreate : Geolocation ι).Sound := by
  constructor <;> simp [Geolocation.onCreate,isActive]

/-- In every run whose operations meet their conditions, the topic, the samples, the promises and the context are right
after each of them. -/
theorem right_of_meets (ops : List (GeoOp ι)) (h : Transition.Guarded Geolocation.step Meets onCreate ops) :
    Transition.Guarded Geolocation.step Right onCreate ops :=
  h.imp (fun _ op hs hmeets => hs.right op hmeets) (fun _ op hs hmeets => (hs.step op hmeets).1) Sound.onCreate

/-- A subscriber that asks for the location while it is given a sample, a request that waits too long, and the end. -/
def oneSubscriber : List (GeoOp ℕ) :=
  [.call 0 (.subscribe 1 0),.batch [true,false] (fun _ _ => [.getLocation 5 1000]),.call 1 (.getLocation 9 60000),
    .tick 12,.detach 0,.destroy,.topicClosed 0,.timerClosed]

theorem one_subscriber_right : Transition.Guarded Geolocation.step Right onCreate oneSubscriber := by
  apply right_of_meets oneSubscriber
  refine ⟨fun _ _ => ?_,fun sub hsub => ?_,fun _ _ => .inl rfl,fun _ => ?_,trivial,trivial,trivial,trivial,trivial⟩
  · exact ⟨.inr rfl,by decide,fun sub hsub => nomatch hsub⟩
  · obtain rfl : sub = ⟨0,1,0⟩ := List.mem_singleton.mp hsub
    exact ⟨trivial,trivial⟩
  · exact .cons (by simp [expired]) (.cons (by simp) .nil)

/-- A request with a short timeout waits behind one with a long timeout, and is not rejected. -/
theorem second_request_not_rejected :
    ¬ ∀ ops : List (GeoOp ℕ), Transition.Guarded Geolocation.step Right onCreate ops := by
  intro h
  obtain ⟨-,-,hright,-⟩ := h [.call 0 (.getLocation 0 60000),.call 1 (.getLocation 0 1000),.tick 5]
  have hsettled := hright.rejected 5 rfl rfl ⟨1,1,0,1000⟩ (.tail _ (.head _)) rfl
  exact absurd hsettled (by decide)

end Geolocation
end FeatureRuntime
