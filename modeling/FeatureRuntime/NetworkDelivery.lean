import FeatureRuntime.NetworkMonitor
import Mathlib.Data.List.Chain

/-! What the callbacks of network subscriptions are told, over whole runs. -/
namespace FeatureRuntime.SystemNetwork

/-- The subscriptions that were called since the last `unsubscribe`. -/
def live : List NetEvent → List ℕ
  | .called k :: log => k :: live log
  | .unsubscribed :: _ => []
  | _ :: log => live log
  | [] => []

def newest : List NetEvent → Option ℕ
  | .started k :: _ => some k
  | _ :: log => newest log
  | [] => none

def lastPosted (k : ℕ) : List NetEvent → Option NetType
  | .posted j type :: log => if j = k then some type else lastPosted k log
  | _ :: log => lastPosted k log
  | [] => none

def lastDelivered (k : ℕ) : List NetEvent → Option NetType
  | .delivered j type :: log => if j = k then some type else lastDelivered k log
  | _ :: log => lastDelivered k log
  | [] => none

inductive Owed
  | nothing
  | evaluation (k : ℕ)
  | post (k : ℕ) (type : NetType)

def owed : List NetEvent → Owed
  | .received k d :: _ => if ∃ m ∈ d, m.Newlink then .evaluation k else .nothing
  | .evaluated k (some type) :: log => if lastPosted k log = some type then .nothing else .post k type
  | _ => .nothing

def Pays (e : NetEvent) : Owed → Prop
  | .nothing => True
  | .evaluation k => ∃ type, e = .evaluated k type
  | .post k type => e = .posted k type

/-- Only the newest task posts. What is delivered was subscribed to since the last `unsubscribe` and is not what was
delivered before, and all that is posted is delivered. -/
def Allowed (log : List NetEvent) : NetEvent → Prop
  | .posted k _ => newest log = some k
  | .delivered k type => k ∈ live log ∧ lastDelivered k log ≠ some type
  | .lost .. => False
  | _ => True

def Lawful : List NetEvent → Prop
  | [] => True
  | e :: log => Pays e (owed log) ∧ Allowed log e ∧ Lawful log

/-- The events come as they should, and none is owed at the end. -/
structure Monitored (log : List NetEvent) : Prop where
  lawful : Lawful log
  settled : owed log = .nothing

def UnderWay : NetPhase → Prop
  | .called valid => valid = true
  | .waiting _ => True
  | _ => False

def Leading (d : Datagram) : Prop := (∃ m ∈ d, m.Newlink) → ∃ m ∈ d.head?, m.Newlink

def wakes (queue : List (Option Datagram)) : ℕ :=
  queue.countP (fun d => d.any (fun d => isNewlinkEvent d.received))

def Quiet (answers : ℕ → NetAnswer) (s : SystemNetwork) (k : ℕ) : Prop :=
  ∀ i < wakes (s.subs k).queue, (answers (s.queries + i)).fetch = none ∨
    (answers (s.queries + i)).fetch = (s.subs k).lastType

/-- When a step goes well: a callback of no subscription that still has its own, `unsubscribe` while no callback is
posted and no subscription is under way, datagrams that start with their message, and a stopped task that is awaited by
the next subscription or has nothing to say. -/
def Orderly (answers : ℕ → NetAnswer) (s : SystemNetwork) : NetOp → Prop
  | .subscribe callback => ∀ k, s.holds k = true → (s.subs k).callback ≠ callback
  | .unsubscribe => s.posted = [] ∧ ∀ k, ¬ UnderWay (s.subs k).phase
  | .arrive _ (some d) => Leading d
  | .poll k _ => (s.subs k).phase = .monitoring → (s.subs k).stopped = true →
      (newest s.log = some k ∧ ∃ w, (s.subs w).phase = .waiting k) ∨ Quiet answers s k
  | _ => True

def states (s : SystemNetwork) (k : ℕ) : List NetType :=
  (lastDelivered k s.log).toList ++ (s.posted.filter (fun p => p.1 = k)).map Prod.snd

/-- What holds of a subscription between any two events. -/
structure Sound (s : SystemNetwork) (k : ℕ) (sub : NetSubscription) : Prop where
  posts : lastPosted k s.log = sub.lastType
  ends : (s.states k).getLast? = sub.lastType
  awaited : ∀ old, sub.phase = .waiting old → old ∈ live s.log
  underWay : UnderWay sub.phase → k ∈ live s.log
  monitors : sub.phase = .monitoring → sub.stopped = false → s.current = some k
  leading : ∀ d, some d ∈ sub.queue → Leading d
  fresh : s.count ≤ k → sub = { phase := .finished }

structure Core (s : SystemNetwork) : Prop where
  lawful : Lawful s.log
  alternates : ∀ k, (s.states k).IsChain (· ≠ ·)
  posted_live : ∀ p ∈ s.posted, p.1 ∈ live s.log
  current_live : ∀ j, s.current = some j → j ∈ live s.log
  live_lt : ∀ j ∈ live s.log, j < s.count
  sound : ∀ k, Sound s k (s.subs k)

/-- Every callback that is held is registered, and held by one subscription. -/
structure Own (s : SystemNetwork) : Prop where
  registered : ∀ k, s.holds k = true → s.registered (s.subs k).callback = true
  apart : ∀ j k, s.holds j = true → s.holds k = true → (s.subs j).callback = (s.subs k).callback → j = k

structure Inv (s : SystemNetwork) : Prop extends Core s where
  settled : owed s.log = .nothing
  current_newest : ∀ j, s.current = some j → newest s.log = some j
  unreported : ∀ k, UnderWay (s.subs k).phase → (s.subs k).lastType = none

section Steps

variable {answers : ℕ → NetAnswer} {s : SystemNetwork} {k : ℕ}

variable {sub : NetSubscription}

theorem forall_update {P : ℕ → NetSubscription → Prop} (h : ∀ j, j ≠ k → P j (s.subs j))
    (hk : P k sub) (j : ℕ) : P j (Function.update s.subs k sub j) := by
  by_cases hj : j = k
  · subst hj
    simpa using hk
  · simpa [hj] using h j hj

theorem holds_of_posted {type : NetType} (h : (k,type) ∈ s.posted) : s.holds k = true := by
  simp only [SystemNetwork.holds,Bool.or_eq_true]
  exact .inr (List.any_eq_true.mpr ⟨_,h,by simp⟩)

theorem Core.setSub (h : Core s) (hsub : Sound s k sub) : Core (s.setSub k sub) where
  lawful := h.lawful
  alternates := h.alternates
  posted_live := h.posted_live
  current_live := h.current_live
  live_lt := h.live_lt
  sound := forall_update (P := Sound (s.setSub k sub))
    (fun j _ => ⟨(h.sound j).posts,(h.sound j).ends,(h.sound j).awaited,(h.sound j).underWay,(h.sound j).monitors,
      (h.sound j).leading,(h.sound j).fresh⟩)
    ⟨hsub.posts,hsub.ends,hsub.awaited,hsub.underWay,hsub.monitors,hsub.leading,hsub.fresh⟩

theorem Core.tell (h : Core s) {e : NetEvent} {queries : ℕ}
    (he : e = .started k ∨ (∃ d, e = .received k d) ∨ ∃ type, e = .evaluated k type) (hpays : Pays e (owed s.log)) :
    Core { s with queries := queries, log := e :: s.log } := by
  obtain rfl | ⟨d,rfl⟩ | ⟨type,rfl⟩ := he <;>
    exact ⟨⟨hpays,trivial,h.lawful⟩,h.alternates,h.posted_live,h.current_live,h.live_lt,fun j =>
      ⟨(h.sound j).posts,(h.sound j).ends,(h.sound j).awaited,(h.sound j).underWay,(h.sound j).monitors,
        (h.sound j).leading,(h.sound j).fresh⟩⟩

theorem states_invoke (type : NetType) (j : ℕ) :
    (s.invoke k type).states j = s.states j ++ if k = j then [type] else [] := by
  show _ ++ ((s.posted ++ [(k,type)]).filter _).map Prod.snd = _
  rw [List.filter_append,List.map_append,← List.append_assoc]
  by_cases hj : k = j <;> simp [states,hj,lastDelivered,SystemNetwork.invoke,SystemNetwork.tell,SystemNetwork.setSub]

theorem Core.invoke (h : Core s) {type : NetType} (hpays : Pays (.posted k type) (owed s.log))
    (hnewest : newest s.log = some k) (hlive : k ∈ live s.log) (hne : (s.subs k).lastType ≠ some type) :
    Core (s.invoke k type) where
  lawful := ⟨hpays,hnewest,h.lawful⟩
  alternates j := by
    rw [states_invoke]
    by_cases hj : k = j
    · subst hj
      rw [if_pos rfl,List.isChain_append]
      refine ⟨h.alternates k,List.isChain_singleton _,fun x hx y hy => ?_⟩
      rw [(h.sound k).ends] at hx
      rintro rfl
      obtain rfl := Option.some.inj hy
      exact hne hx
    · rw [if_neg hj,List.append_nil]
      exact h.alternates j
  posted_live p hp := by
    rcases List.mem_append.mp hp with hp | hp
    · exact h.posted_live p hp
    · rw [List.mem_singleton.mp hp]
      exact hlive
  current_live := h.current_live
  live_lt := h.live_lt
  sound := by
    have hself := h.sound k
    refine forall_update (P := Sound (s.invoke k type)) (fun j hj => ?_) ?_
    · have hj' := h.sound j
      refine ⟨?_,?_,hj'.awaited,hj'.underWay,hj'.monitors,hj'.leading,hj'.fresh⟩
      · exact (if_neg (Ne.symm hj)).trans hj'.posts
      · rw [states_invoke,if_neg (Ne.symm hj),List.append_nil]
        exact hj'.ends
    · refine ⟨if_pos rfl,?_,hself.awaited,hself.underWay,hself.monitors,hself.leading,
        fun hle => absurd hle (Nat.not_le.mpr (h.live_lt k hlive))⟩
      rw [states_invoke,if_pos rfl,List.getLast?_concat]

theorem Core.tryStopMonitoring (h : Core s) : Core s.tryStopMonitoring := by
  unfold SystemNetwork.tryStopMonitoring
  cases hcurrent : s.current with
  | none => exact h
  | some j =>
    refine ⟨h.lawful,h.alternates,h.posted_live,fun _ hnone => (Option.some_ne_none _ hnone.symm).elim,
      h.live_lt,?_⟩
    refine forall_update (P := Sound { s.stop j with current := none }) (fun i hi => ?_) ?_
    · have hi' := h.sound i
      refine ⟨hi'.posts,hi'.ends,hi'.awaited,hi'.underWay,fun hphase hstop => ?_,hi'.leading,hi'.fresh⟩
      have hsome := hi'.monitors hphase hstop
      rw [hcurrent] at hsome
      exact absurd (Option.some.inj hsome).symm hi
    · have hj := h.sound j
      refine ⟨hj.posts,hj.ends,hj.awaited,hj.underWay,fun _ hstop => absurd hstop (by simp),hj.leading,fun hle => ?_⟩
      exact absurd hle (Nat.not_le.mpr (h.live_lt j (h.current_live j hcurrent)))

@[simp] theorem tryStopMonitoring_current : s.tryStopMonitoring.current = none := by
  unfold SystemNetwork.tryStopMonitoring
  cases h : s.current <;> simp [h]

@[simp] theorem tryStopMonitoring_log : s.tryStopMonitoring.log = s.log := by
  unfold SystemNetwork.tryStopMonitoring
  cases s.current <;> rfl

theorem tryStopMonitoring_sub (j : ℕ) : ∃ stopped, s.tryStopMonitoring.subs j = { s.subs j with stopped := stopped } := by
  unfold SystemNetwork.tryStopMonitoring
  cases s.current with
  | none => exact ⟨_,rfl⟩
  | some i =>
    by_cases hi : j = i
    · subst hi
      exact ⟨true,by simp [stop,setSub]⟩
    · exact ⟨_,by simp [stop,setSub,hi]; rfl⟩

def report (answers : ℕ → NetAnswer) (s : SystemNetwork) (k : ℕ) : SystemNetwork :=
  match (answers s.queries).fetch with
  | some type => if (s.subs k).lastType ≠ some type then (s.evaluate answers k).invoke k type else s.evaluate answers k
  | none => s.evaluate answers k

theorem receive_eq (d : Datagram) : s.receive answers k d =
    if isNewlinkEvent d.received then report answers (s.tell (.received k d)) k else s.tell (.received k d) := rfl

theorem isNewlinkEvent_cons (m : NetlinkMessage) (d : Datagram) :
    isNewlinkEvent (Datagram.received (m :: d)) = decide m.Newlink := by
  obtain ⟨len,low,high,rest,hheader⟩ := m
  have hreceived : Datagram.received (⟨len,low,high,rest,hheader⟩ :: d) =
      len 0 :: len 1 :: len 2 :: len 3 :: low :: high :: (rest ++ d.flatMap NetlinkMessage.bytes).take 122 := rfl
  have hlength : ¬ (Datagram.received (⟨len,low,high,rest,hheader⟩ :: d)).length < 16 := by
    rw [hreceived]
    simp
    omega
  rw [isNewlinkEvent,if_neg hlength,hreceived]
  simp only [NetlinkMessage.Newlink]
  rfl

theorem isNewlinkEvent_iff {d : Datagram} (h : Leading d) :
    isNewlinkEvent d.received = true ↔ ∃ m ∈ d, m.Newlink := by
  cases d with
  | nil => simp [Datagram.received,isNewlinkEvent]
  | cons m d =>
    rw [isNewlinkEvent_cons,decide_eq_true_iff]
    constructor
    · exact fun hm => ⟨m,List.mem_cons_self,hm⟩
    · intro hany
      obtain ⟨m',hhead,hm⟩ := h hany
      rwa [Option.some.inj hhead]

structure Reported (k : ℕ) (s s' : SystemNetwork) : Prop where
  current : s'.current = s.current
  newest : newest s'.log = newest s.log
  live : live s'.log = live s.log
  subs : ∃ last, s'.subs = Function.update s.subs k { s.subs k with lastType := last }

theorem Reported.trans {s' s'' : SystemNetwork} (h : Reported k s s') (h' : Reported k s' s'') : Reported k s s'' where
  current := h'.current.trans h.current
  newest := h'.newest.trans h.newest
  live := h'.live.trans h.live
  subs := by
    obtain ⟨last,hlast⟩ := h.subs
    obtain ⟨last',hlast'⟩ := h'.subs
    exact ⟨last',by simp [hlast',hlast]⟩

/-- A task may report when it is the newest one, and otherwise if the answer is not new. -/
theorem Core.report (h : Core s) (hpays : Pays (.evaluated k (answers s.queries).fetch) (owed s.log))
    (hmay : (newest s.log = some k ∧ k ∈ live s.log) ∨
      ((answers s.queries).fetch = none ∨ (answers s.queries).fetch = (s.subs k).lastType)) :
    Core (s.report answers k) ∧ owed (s.report answers k).log = .nothing ∧ Reported k s (s.report answers k) := by
  have hcore : Core (s.evaluate answers k) := h.tell (.inr (.inr ⟨_,rfl⟩)) hpays
  unfold SystemNetwork.report
  cases hfetch : (answers s.queries).fetch with
  | none =>
    refine ⟨hcore,?_,rfl,rfl,rfl,(s.subs k).lastType,?_⟩
    · show owed (.evaluated k (answers s.queries).fetch :: s.log) = _
      rw [hfetch]
      rfl
    · exact (Function.update_eq_self k s.subs).symm
  | some type =>
    have howed : owed (s.evaluate answers k).log =
        if lastPosted k s.log = some type then .nothing else .post k type := by
      show owed (.evaluated k (answers s.queries).fetch :: s.log) = _
      rw [hfetch]
      rfl
    rw [(h.sound k).posts] at howed
    dsimp only
    by_cases hlast : (s.subs k).lastType = some type
    · rw [if_neg (not_not.mpr hlast)]
      rw [if_pos hlast] at howed
      exact ⟨hcore,howed,rfl,rfl,rfl,(s.subs k).lastType,(Function.update_eq_self k s.subs).symm⟩
    · rw [if_pos hlast]
      rw [if_neg hlast] at howed
      have hnewest : newest s.log = some k ∧ k ∈ live s.log := by
        refine hmay.resolve_right (fun hquiet => ?_)
        rw [hfetch] at hquiet
        rcases hquiet with hquiet | hquiet
        · cases hquiet
        · exact hlast hquiet.symm
      refine ⟨hcore.invoke ?_ hnewest.1 hnewest.2 hlast,rfl,rfl,rfl,rfl,some type,rfl⟩
      rw [howed]
      rfl

theorem Core.receive (h : Core s) (hsettled : owed s.log = .nothing) {d : Datagram} (hd : Leading d)
    (hmay : (newest s.log = some k ∧ k ∈ live s.log) ∨ (isNewlinkEvent d.received = true →
      (answers s.queries).fetch = none ∨ (answers s.queries).fetch = (s.subs k).lastType)) :
    Core (s.receive answers k d) ∧ owed (s.receive answers k d).log = .nothing ∧
      Reported k s (s.receive answers k d) := by
  have hreceived : Core (s.tell (.received k d)) := by
    refine h.tell (.inr (.inl ⟨d,rfl⟩)) ?_
    rw [hsettled]
    trivial
  have hnothing : Reported k s (s.tell (.received k d)) :=
    ⟨rfl,rfl,rfl,(s.subs k).lastType,(Function.update_eq_self k s.subs).symm⟩
  have howed : owed (s.tell (.received k d)).log = if ∃ m ∈ d, m.Newlink then .evaluation k else .nothing := rfl
  rw [receive_eq]
  by_cases hnew : isNewlinkEvent d.received = true
  · rw [if_pos hnew]
    rw [if_pos ((isNewlinkEvent_iff hd).mp hnew)] at howed
    have hpays : Pays (.evaluated k (answers s.queries).fetch) (owed (s.tell (.received k d)).log) := by
      rw [howed]
      exact ⟨_,rfl⟩
    obtain ⟨hcore,hend,hreported⟩ := hreceived.report hpays (hmay.imp_right (fun hquiet => hquiet hnew))
    exact ⟨hcore,hend,hnothing.trans hreported⟩
  · rw [if_neg hnew]
    rw [if_neg (fun hany => hnew ((isNewlinkEvent_iff hd).mpr hany))] at howed
    exact ⟨hreceived,howed,hnothing⟩

theorem receive_quiet {d : Datagram} (h : isNewlinkEvent d.received = true →
      (answers s.queries).fetch = none ∨ (answers s.queries).fetch = (s.subs k).lastType) :
    (s.receive answers k d).queries = s.queries + (if isNewlinkEvent d.received then 1 else 0) ∧
      (s.receive answers k d).subs = s.subs := by
  rw [receive_eq]
  by_cases hnew : isNewlinkEvent d.received = true
  · rw [if_pos hnew,if_pos hnew,report]
    obtain hnone | hsame := h hnew
    · simp [SystemNetwork.tell,evaluate,hnone]
    · cases hlast : (s.subs k).lastType with
      | none => simp [SystemNetwork.tell,evaluate,hsame,hlast]
      | some type => simp [SystemNetwork.tell,evaluate,hsame,hlast]
  · rw [if_neg hnew,if_neg hnew]
    exact ⟨rfl,rfl⟩

theorem Core.drain {queue : List (Option Datagram)} (h : Core s) (hsettled : owed s.log = .nothing)
    (hqueue : ∀ d, some d ∈ queue → Leading d)
    (hmay : (newest s.log = some k ∧ k ∈ live s.log) ∨ ∀ i < wakes queue,
      (answers (s.queries + i)).fetch = none ∨ (answers (s.queries + i)).fetch = (s.subs k).lastType) :
    Core (drain answers k queue s).1 ∧ owed (drain answers k queue s).1.log = .nothing ∧
      Reported k s (drain answers k queue s).1 := by
  have hrefl : Reported k s s := ⟨rfl,rfl,rfl,(s.subs k).lastType,(Function.update_eq_self k s.subs).symm⟩
  induction queue generalizing s with
  | nil => exact ⟨h,hsettled,hrefl⟩
  | cons d queue ih =>
    cases d with
    | none => exact ⟨h,hsettled,hrefl⟩
    | some d =>
      have hwakes : wakes (some d :: queue) = wakes queue + if isNewlinkEvent d.received then 1 else 0 := by
        simp [wakes,List.countP_cons]
      have hfirst : (newest s.log = some k ∧ k ∈ live s.log) ∨ (isNewlinkEvent d.received = true →
          (answers s.queries).fetch = none ∨ (answers s.queries).fetch = (s.subs k).lastType) := by
        refine hmay.imp_right (fun hquiet hnew => hquiet 0 ?_)
        rw [hwakes,if_pos hnew]
        omega
      obtain ⟨hcore,hend,hreported⟩ := h.receive hsettled (hqueue d List.mem_cons_self) hfirst
      have hrest : (newest (s.receive answers k d).log = some k ∧ k ∈ live (s.receive answers k d).log) ∨
          ∀ i < wakes queue, (answers ((s.receive answers k d).queries + i)).fetch = none ∨
            (answers ((s.receive answers k d).queries + i)).fetch = ((s.receive answers k d).subs k).lastType := by
        rcases hmay with hnewest | hquiet
        · left
          rwa [hreported.newest,hreported.live]
        · right
          intro i hi
          have hsame : isNewlinkEvent d.received = true →
              (answers s.queries).fetch = none ∨ (answers s.queries).fetch = (s.subs k).lastType := by
            intro hnew
            refine hquiet 0 ?_
            rw [hwakes,if_pos hnew]
            omega
          obtain ⟨hqueries,hsubs⟩ := receive_quiet hsame
          rw [hqueries,hsubs,Nat.add_assoc]
          refine hquiet _ ?_
          rw [hwakes]
          omega
      obtain ⟨hcore,hend,hreported'⟩ := ih hcore hend (fun d hd => hqueue d (List.mem_cons_of_mem _ hd)) hrest
        ⟨rfl,rfl,rfl,_,(Function.update_eq_self k _).symm⟩
      exact ⟨hcore,hend,hreported.trans hreported'⟩

theorem Inv.setSub (h : Inv s) (hsub : Sound s k sub)
    (hlast : UnderWay sub.phase → sub.lastType = none) : Inv (s.setSub k sub) where
  toCore := h.toCore.setSub hsub
  settled := h.settled
  current_newest := h.current_newest
  unreported := forall_update (P := fun _ sub => UnderWay sub.phase → sub.lastType = none)
    (fun j _ => h.unreported j) hlast

theorem Inv.dropCallback (h : Inv s) : Inv (s.dropCallback k) := by
  unfold SystemNetwork.dropCallback
  split_ifs
  · exact h
  · have hsound := fun j => h.sound j
    exact ⟨⟨h.lawful,h.alternates,h.posted_live,h.current_live,h.live_lt,fun j => ⟨(hsound j).posts,(hsound j).ends,
      (hsound j).awaited,(hsound j).underWay,(hsound j).monitors,(hsound j).leading,(hsound j).fresh⟩⟩,h.settled,
      h.current_newest,h.unreported⟩

theorem Core.sound_phase (h : Core s) {phase : NetPhase} (hcalled : (s.subs k).phase ≠ .finished)
    (hawaited : ∀ old, phase = .waiting old → old ∈ live s.log) (hunder : UnderWay phase → k ∈ live s.log)
    (hmonitor : phase ≠ .monitoring) : Sound s k { s.subs k with phase := phase } where
  posts := (h.sound k).posts
  ends := (h.sound k).ends
  awaited := hawaited
  underWay := hunder
  monitors hphase := absurd hphase hmonitor
  leading := (h.sound k).leading
  fresh hle := absurd (by rw [(h.sound k).fresh hle]) hcalled

theorem Inv.tryStopMonitoring (h : Inv s) : Inv s.tryStopMonitoring where
  toCore := h.toCore.tryStopMonitoring
  settled := by
    rw [tryStopMonitoring_log]
    exact h.settled
  current_newest j hj := by
    rw [tryStopMonitoring_current] at hj
    cases hj
  unreported j := by
    obtain ⟨stopped,hstopped⟩ := s.tryStopMonitoring_sub j
    rw [hstopped]
    exact h.unreported j

theorem Core.take (h : Core s) (hcurrent : s.current = none) (hlive : k ∈ live s.log) :
    Core { s.setSub k { s.subs k with phase := .monitoring } with current := some k } where
  lawful := h.lawful
  alternates := h.alternates
  posted_live := h.posted_live
  current_live j hj := by
    rw [← Option.some.inj hj]
    exact hlive
  live_lt := h.live_lt
  sound := by
    refine forall_update (P := Sound { s.setSub k { s.subs k with phase := .monitoring } with current := some k })
      (fun j _ => ?_) ?_
    · have hj := h.sound j
      refine ⟨hj.posts,hj.ends,hj.awaited,hj.underWay,fun hphase hstop => ?_,hj.leading,hj.fresh⟩
      have hsome := hj.monitors hphase hstop
      rw [hcurrent] at hsome
      cases hsome
    · have hk := h.sound k
      refine ⟨hk.posts,hk.ends,fun _ hwait => ?_,fun hunder => hunder.elim,fun _ _ => rfl,hk.leading,
        fun hle => absurd hle (Nat.not_le.mpr (h.live_lt k hlive))⟩
      cases hwait

theorem start_eq (h : (s.subs k).lastType = none) : s.start answers k =
    let s' := (report answers (s.tell (.started k)) k).tryStopMonitoring
    { s'.setSub k { s'.subs k with phase := .monitoring } with current := some k } := by
  have hnone : ∀ type, (s.subs k).lastType ≠ some type := by simp [h]
  unfold start report
  cases hfetch : (answers s.queries).fetch with
  | none => simp [SystemNetwork.tell,hfetch]
  | some type => simp [SystemNetwork.tell,hfetch,h]

/-- A subscription reports the state of the network and starts its task. -/
theorem Inv.start (h : Inv s) (hunder : UnderWay (s.subs k).phase) : Inv (s.start answers k) := by
  have hlive : k ∈ live s.log := (h.sound k).underWay hunder
  have hstarted : Core (s.tell (.started k)) := by
    refine h.toCore.tell (.inl rfl) ?_
    rw [h.settled]
    trivial
  have hpays : Pays (.evaluated k (answers s.queries).fetch) (owed (s.tell (.started k)).log) := trivial
  obtain ⟨hcore,hend,hreported⟩ := hstarted.report hpays (.inl ⟨rfl,hlive⟩)
  rw [start_eq (h.unreported k hunder)]
  have hlive' : k ∈ live (report answers (s.tell (.started k)) k).tryStopMonitoring.log := by
    rw [tryStopMonitoring_log,hreported.live]
    exact hlive
  refine ⟨hcore.tryStopMonitoring.take tryStopMonitoring_current hlive',?_,fun j hj => ?_,?_⟩
  · show owed (report answers (s.tell (.started k)) k).tryStopMonitoring.log = _
    rw [tryStopMonitoring_log]
    exact hend
  · rw [← Option.some.inj hj]
    show newest (report answers (s.tell (.started k)) k).tryStopMonitoring.log = _
    rw [tryStopMonitoring_log,hreported.newest]
    rfl
  · refine forall_update (P := fun _ sub => UnderWay sub.phase → sub.lastType = none) (fun j hj => ?_)
      (fun hnever => hnever.elim)
    obtain ⟨stopped,hstopped⟩ := tryStopMonitoring_sub (s := report answers (s.tell (.started k)) k) j
    obtain ⟨last,hlast⟩ := hreported.subs
    rw [hstopped,hlast,Function.update_of_ne hj]
    exact h.unreported j

theorem Inv.pollMonitor (h : Inv s) (hphase : (s.subs k).phase = .monitoring)
    (hmay : (newest s.log = some k ∧ k ∈ live s.log) ∨ Quiet answers s k) : Inv (s.pollMonitor answers k) := by
  obtain ⟨hcore,hend,hreported⟩ := h.toCore.drain h.settled (h.sound k).leading hmay
  obtain ⟨last,hlast⟩ := hreported.subs
  have hsub : (drain answers k (s.subs k).queue s).1.subs k = { s.subs k with lastType := last } := by
    rw [hlast,Function.update_self]
  have hsound := hcore.sound k
  unfold SystemNetwork.pollMonitor
  refine Inv.dropCallback ⟨hcore.setSub ?_,hend,fun j hj => ?_,?_⟩
  · refine ⟨hsound.posts,hsound.ends,fun old hwait => ?_,fun hunder => ?_,fun hmonitor hstop => ?_,
      fun d hd => absurd hd List.not_mem_nil,fun hle => ?_⟩
    · revert hwait
      dsimp only
      split_ifs <;> exact fun hwait => by cases hwait
    · revert hunder
      dsimp only
      split_ifs <;> exact fun hunder => hunder.elim
    · exact hsound.monitors (by rw [hsub]; exact hphase) hstop
    · have hfresh := hsound.fresh hle
      rw [hsub] at hfresh
      have hover := congrArg NetSubscription.phase hfresh
      rw [hphase] at hover
      cases hover
  · have hcurrent : s.current = some j := hreported.current.symm.trans hj
    exact hreported.newest.trans (h.current_newest j hcurrent)
  · refine forall_update (P := fun _ sub => UnderWay sub.phase → sub.lastType = none) (fun j hj => ?_) ?_
    · rw [hlast,Function.update_of_ne hj]
      exact h.unreported j
    · dsimp only
      split_ifs <;> exact fun hunder => hunder.elim

theorem Inv.poll (h : Inv s) (socket : Bool) (hgood : Orderly answers s (.poll k socket)) :
    Inv (s.poll answers k socket) := by
  unfold SystemNetwork.poll
  cases hphase : (s.subs k).phase with
  | called valid =>
    have hcalled : (s.subs k).phase ≠ .finished := by simp [hphase]
    dsimp only
    have hended : Inv (s.setSub k { s.subs k with phase := .finished }) := by
      refine h.setSub (h.sound_phase hcalled ?_ ?_ ?_) ?_ <;> simp [UnderWay]
    split_ifs with hvalid hsocket
    · exact hended
    · exact hended.dropCallback
    · have hunder : UnderWay (s.subs k).phase := by
        rw [hphase]
        simpa [UnderWay] using hvalid
      cases hcurrent : s.current with
      | none => exact h.start hunder
      | some old =>
        obtain ⟨stopped,hstopped⟩ := s.tryStopMonitoring_sub k
        have hstill : UnderWay (s.tryStopMonitoring.subs k).phase := by
          rw [hstopped]
          exact hunder
        have hlive := h.current_live old hcurrent
        dsimp only
        split_ifs
        · exact h.tryStopMonitoring.start hstill
        · refine h.tryStopMonitoring.setSub (h.tryStopMonitoring.sound_phase ?_ (fun old' heq => ?_) (fun _ => ?_) ?_)
            (fun _ => h.tryStopMonitoring.unreported k hstill)
          · rw [hstopped]
            exact hcalled
          · rw [tryStopMonitoring_log,← NetPhase.waiting.inj heq]
            exact hlive
          · exact (h.tryStopMonitoring.sound k).underWay hstill
          · simp
  | waiting old =>
    have hunder : UnderWay (s.subs k).phase := by
      rw [hphase]
      trivial
    dsimp only
    split_ifs
    · exact h.start hunder
    · exact h
  | monitoring =>
    refine h.pollMonitor hphase ?_
    by_cases hstop : (s.subs k).stopped = true
    · refine (hgood hphase hstop).imp_left (fun ⟨hnewest,w,hwait⟩ => ⟨hnewest,?_⟩)
      exact (h.sound w).awaited k hwait
    · have hcurrent := (h.sound k).monitors hphase (Bool.eq_false_iff.mpr hstop)
      exact .inl ⟨h.current_newest k hcurrent,h.current_live k hcurrent⟩
  | finished => exact h

theorem Inv.subscribe (h : Inv s) (callback : ℕ) : Inv (s.step answers (.subscribe callback)) where
  lawful := by
    refine ⟨?_,trivial,h.lawful⟩
    show Pays _ (owed s.log)
    rw [h.settled]
    trivial
  alternates := h.alternates
  posted_live p hp := List.mem_cons_of_mem _ (h.posted_live p hp)
  current_live j hj := List.mem_cons_of_mem _ (h.current_live j hj)
  live_lt j hj := by
    show j < s.count + 1
    rcases List.mem_cons.mp hj with rfl | hj
    · omega
    · have hlt := h.live_lt j hj
      omega
  sound := by
    refine forall_update (P := Sound (s.step answers (.subscribe callback))) (fun j hj => ?_) ?_
    · have hj' := h.sound j
      refine ⟨hj'.posts,hj'.ends,fun old hwait => List.mem_cons_of_mem _ (hj'.awaited old hwait),
        fun hunder => List.mem_cons_of_mem _ (hj'.underWay hunder),hj'.monitors,hj'.leading,fun hle => hj'.fresh ?_⟩
      have hle : s.count + 1 ≤ j := hle
      omega
    · have hnew := h.sound s.count
      have hfresh := hnew.fresh (Nat.le_refl _)
      have hposts := hnew.posts
      have hends := hnew.ends
      rw [hfresh] at hposts hends
      refine ⟨hposts,hends,fun _ hwait => ?_,fun _ => List.mem_cons_self,fun hphase => ?_,
        fun d hd => absurd hd List.not_mem_nil,fun hle => absurd hle (Nat.not_succ_le_self s.count)⟩
      · cases hwait
      · cases hphase
  settled := rfl
  current_newest := h.current_newest
  unreported := forall_update (P := fun _ sub => UnderWay sub.phase → sub.lastType = none)
    (fun j _ => h.unreported j) (fun _ => rfl)

theorem Inv.unsubscribe (h : Inv s) (hgood : Orderly answers s .unsubscribe) : Inv (s.step answers .unsubscribe) := by
  have hposted : s.tryStopMonitoring.posted = [] := by
    unfold SystemNetwork.tryStopMonitoring
    cases s.current <;> exact hgood.1
  have hnone : ∀ k, ¬ UnderWay (s.tryStopMonitoring.subs k).phase := by
    intro k
    obtain ⟨stopped,hstopped⟩ := s.tryStopMonitoring_sub k
    rw [hstopped]
    exact hgood.2 k
  have h' := h.tryStopMonitoring
  refine ⟨⟨⟨?_,trivial,h'.lawful⟩,h'.alternates,fun p hp => ?_,fun j hj => ?_,fun j hj => ?_,fun k => ?_⟩,rfl,
    h'.current_newest,h'.unreported⟩
  · show Pays _ (owed s.tryStopMonitoring.log)
    rw [h'.settled]
    trivial
  · have hp : p ∈ s.tryStopMonitoring.posted := hp
    rw [hposted] at hp
    cases hp
  · have hj : s.tryStopMonitoring.current = some j := hj
    rw [tryStopMonitoring_current] at hj
    cases hj
  · cases hj
  · have hk := h'.sound k
    refine ⟨hk.posts,hk.ends,fun old hwait => ?_,fun hunder => (hnone k hunder).elim,hk.monitors,hk.leading,hk.fresh⟩
    have hwait : (s.tryStopMonitoring.subs k).phase = .waiting old := hwait
    have hnever := hnone k
    rw [hwait] at hnever
    exact (hnever trivial).elim

theorem Inv.arrive (h : Inv s) {d : Option Datagram} (hgood : Orderly answers s (.arrive k d)) :
    Inv (s.step answers (.arrive k d)) := by
  show Inv (if listens (s.subs k).phase then _ else s)
  split_ifs with hlistens
  · have hk := h.sound k
    refine h.setSub ⟨hk.posts,hk.ends,hk.awaited,hk.underWay,hk.monitors,fun d' hd => ?_,fun hle => ?_⟩ (h.unreported k)
    · rcases List.mem_append.mp hd with hd | hd
      · exact hk.leading d' hd
      · rw [← List.mem_singleton.mp hd] at hgood
        exact hgood
    · rw [hk.fresh hle] at hlistens
      cases hlistens
  · exact h

theorem Inv.runPosted (h : Inv s) (hown : Own s) : Inv (s.step answers .runPosted) := by
  cases hposted : s.posted with
  | nil =>
    have hsame : s.step answers .runPosted = s := by simp only [SystemNetwork.step,hposted]
    rw [hsame]
    exact h
  | cons p posted =>
    obtain ⟨k,type⟩ := p
    have hregistered : s.registered (s.subs k).callback = true := hown.registered k (holds_of_posted (hposted ▸ List.mem_cons_self))
    have hstep : s.step answers .runPosted =
        ({ s with posted := posted }.tell (.delivered k type)).dropCallback k := by
      simp only [SystemNetwork.step,hposted,hregistered,if_true]
    rw [hstep]
    apply Inv.dropCallback
    have hstates : states ({ s with posted := posted }.tell (.delivered k type)) k =
        type :: (posted.filter (fun p => p.1 = k)).map Prod.snd := by
      simp [states,SystemNetwork.tell,lastDelivered]
    have hself : s.states k = (lastDelivered k s.log).toList ++
        states ({ s with posted := posted }.tell (.delivered k type)) k := by
      rw [hstates]
      simp [states,hposted]
    have hother : ∀ j, j ≠ k → states ({ s with posted := posted }.tell (.delivered k type)) j = s.states j := by
      intro j hj
      simp [states,hposted,SystemNetwork.tell,lastDelivered,Ne.symm hj]
    have hchain := h.alternates k
    rw [hself,List.isChain_append] at hchain
    have hne : lastDelivered k s.log ≠ some type := by
      intro hlast
      refine hchain.2.2 type ?_ type ?_ rfl
      · rw [hlast]
        rfl
      · rw [hstates]
        rfl
    refine ⟨⟨⟨?_,⟨h.posted_live (k,type) ?_,hne⟩,h.lawful⟩,fun j => ?_,fun p hp => h.posted_live p ?_,h.current_live,
      h.live_lt,fun j => ?_⟩,rfl,h.current_newest,h.unreported⟩
    · show Pays _ (owed s.log)
      rw [h.settled]
      trivial
    · rw [hposted]
      exact List.mem_cons_self
    · by_cases hj : j = k
      · subst hj
        exact hchain.2.1
      · rw [hother j hj]
        exact h.alternates j
    · rw [hposted]
      exact List.mem_cons_of_mem _ hp
    · have hj := h.sound j
      refine ⟨hj.posts,?_,hj.awaited,hj.underWay,hj.monitors,hj.leading,hj.fresh⟩
      by_cases hjk : j = k
      · subst hjk
        have hends := hj.ends
        rw [hself,hstates,List.getLast?_append_of_ne_nil _ (List.cons_ne_nil _ _),← hstates] at hends
        exact hends
      · rw [hother j hjk]
        exact hj.ends

theorem Inv.step (h : Inv s) (hown : Own s) (op : NetOp) (hgood : Orderly answers s op) : Inv (s.step answers op) := by
  cases op with
  | subscribe callback => exact h.subscribe callback
  | unsubscribe => exact h.unsubscribe hgood
  | arrive k d => exact h.arrive hgood
  | poll k socket => exact h.poll socket hgood
  | runPosted => exact h.runPosted hown

section Callbacks

/-- What does not touch the callbacks, and lets nobody have one that had none. -/
structure Kept (s t : SystemNetwork) : Prop where
  registered : t.registered = s.registered
  callback : ∀ j, (t.subs j).callback = (s.subs j).callback
  holds : ∀ j, t.holds j = true → s.holds j = true

variable {t : SystemNetwork}

theorem Kept.refl (s : SystemNetwork) : Kept s s := ⟨rfl,fun _ => rfl,fun _ h => h⟩

theorem Kept.own (h : Kept s t) (hown : Own s) : Own t where
  registered j hj := by
    rw [h.registered,h.callback]
    exact hown.registered j (h.holds j hj)
  apart i j hi hj hsame := by
    rw [h.callback,h.callback] at hsame
    exact hown.apart i j (h.holds i hi) (h.holds j hj) hsame

/-- A subscription that had its callback may give it up. -/
theorem Own.drop (hown : Own s) (hk : s.holds k = true) (h : Kept s t) : Own (t.dropCallback k) := by
  unfold SystemNetwork.dropCallback
  split_ifs with hstill
  · exact h.own hown
  · refine ⟨fun j hj => ?_,(h.own hown).apart⟩
    have hne : (t.subs j).callback ≠ (t.subs k).callback := by
      intro hsame
      rw [h.callback,h.callback] at hsame
      obtain rfl := hown.apart j k (h.holds j hj) hk hsame
      exact hstill hj
    exact (Function.update_of_ne hne _ _).trans ((h.own hown).registered j hj)

theorem Kept.setSub (h : Kept s t) (hcallback : sub.callback = (t.subs k).callback)
    (hk : (t.setSub k sub).holds k = true → s.holds k = true) : Kept s (t.setSub k sub) where
  registered := h.registered
  callback := forall_update (P := fun j sub => sub.callback = (s.subs j).callback) (fun j _ => h.callback j)
    (hcallback.trans (h.callback k))
  holds j hj := by
    by_cases hjk : j = k
    · subst hjk
      exact hk hj
    · exact h.holds j (by simpa [SystemNetwork.holds,SystemNetwork.setSub,hjk] using hj)

theorem Kept.tell (h : Kept s t) (e : NetEvent) : Kept s (t.tell e) := ⟨h.registered,h.callback,h.holds⟩

theorem Kept.evaluate (h : Kept s t) : Kept s (t.evaluate answers k) := ⟨h.registered,h.callback,h.holds⟩

theorem Kept.tryStop (h : Kept s t) : Kept s t.tryStopMonitoring := by
  unfold SystemNetwork.tryStopMonitoring
  cases t.current with
  | none => exact h
  | some j =>
    have hstop : Kept s (t.stop j) := h.setSub rfl (fun hj => h.holds j (by
      simpa [SystemNetwork.holds,SystemNetwork.setSub] using hj))
    exact ⟨hstop.registered,hstop.callback,hstop.holds⟩

theorem Kept.invoke (h : Kept s t) (hk : s.holds k = true) (type : NetType) : Kept s (t.invoke k type) where
  registered := h.registered
  callback := forall_update (P := fun j sub => sub.callback = (s.subs j).callback) (fun j _ => h.callback j)
    (h.callback k)
  holds j hj := by
    by_cases hjk : j = k
    · subst hjk
      exact hk
    · refine h.holds j ?_
      simpa [SystemNetwork.holds,SystemNetwork.invoke,SystemNetwork.tell,SystemNetwork.setSub,hjk,Ne.symm hjk] using hj

theorem Kept.receive (h : Kept s t) (hk : s.holds k = true) (d : Datagram) : Kept s (t.receive answers k d) := by
  rw [receive_eq]
  unfold report
  split_ifs
  · cases (answers (t.tell (.received k d)).queries).fetch with
    | none => exact (h.tell _).evaluate
    | some type =>
      dsimp only
      split_ifs
      · exact ((h.tell _).evaluate).invoke hk type
      · exact (h.tell _).evaluate
  · exact h.tell _

theorem Kept.drain (h : Kept s t) (hk : s.holds k = true) (queue : List (Option Datagram)) :
    Kept s (drain answers k queue t).1 := by
  induction queue generalizing t with
  | nil => exact h
  | cons d queue ih =>
    cases d with
    | none => exact h
    | some d => exact ih (h.receive hk d)

theorem Kept.start (h : Kept s t) (hk : s.holds k = true) : Kept s (t.start answers k) := by
  have hreported (u : SystemNetwork) (hu : Kept s u) :
      Kept s { u.tryStopMonitoring.setSub k { u.tryStopMonitoring.subs k with phase := .monitoring } with
        current := some k } := by
    have hset : Kept s (u.tryStopMonitoring.setSub k { u.tryStopMonitoring.subs k with phase := .monitoring }) :=
      hu.tryStop.setSub rfl (fun _ => hk)
    exact ⟨hset.registered,hset.callback,hset.holds⟩
  unfold SystemNetwork.start
  cases (answers t.queries).fetch with
  | none => exact hreported _ (h.tell _).evaluate
  | some type => exact hreported _ (((h.tell _).evaluate).invoke hk type)

theorem Own.poll (hown : Own s) (socket : Bool) : Own (s.poll answers k socket) := by
  have hrefl := Kept.refl s
  unfold SystemNetwork.poll
  cases hphase : (s.subs k).phase with
  | called valid =>
    have hended : Kept s (s.setSub k { s.subs k with phase := .finished }) := hrefl.setSub rfl (fun h => by
      simp only [SystemNetwork.holds,SystemNetwork.setSub,Function.update_self,Bool.false_or] at h
      simp only [SystemNetwork.holds,h,Bool.or_true])
    dsimp only
    split_ifs with hvalid hsocket
    · exact hended.own hown
    · exact hown.drop (by simpa [SystemNetwork.holds,hphase] using .inl (by simpa using hvalid)) hended
    · have hk : s.holds k = true := by simp_all [SystemNetwork.holds]
      cases s.current with
      | none => exact (hrefl.start hk).own hown
      | some old =>
        dsimp only
        split_ifs
        · exact (hrefl.tryStop.start hk).own hown
        · refine Kept.own (hrefl.tryStop.setSub ?_ (fun _ => hk)) hown
          rfl
  | waiting old =>
    have hk : s.holds k = true := by simp [SystemNetwork.holds,hphase]
    dsimp only
    split_ifs
    · exact (hrefl.start hk).own hown
    · exact hown
  | monitoring =>
    have hk : s.holds k = true := by simp [SystemNetwork.holds,hphase]
    exact hown.drop hk ((hrefl.drain hk _).setSub rfl (fun _ => hk))
  | finished => exact hown

theorem Own.subscribe (hown : Own s) (h : Inv s) (callback : ℕ) (hgood : Orderly answers s (.subscribe callback)) :
    Own (s.step answers (.subscribe callback)) := by
  have hnone : s.posted.any (·.1 = s.count) = false := by
    refine List.any_eq_false.mpr fun p hp => ?_
    have hlt := h.live_lt p.1 (h.posted_live p hp)
    simpa using Nat.ne_of_lt hlt
  have hold (j : ℕ) (hj : j ≠ s.count) (hholds : (s.step answers (.subscribe callback)).holds j = true) :
      s.holds j = true ∧ ((s.step answers (.subscribe callback)).subs j).callback = (s.subs j).callback := by
    refine ⟨?_,?_⟩
    · simpa [SystemNetwork.holds,SystemNetwork.step,SystemNetwork.tell,SystemNetwork.setSub,hj] using hholds
    · simp [SystemNetwork.step,SystemNetwork.tell,SystemNetwork.setSub,hj]
  have hnew : ((s.step answers (.subscribe callback)).subs s.count).callback = callback := by
    simp [SystemNetwork.step,SystemNetwork.tell,SystemNetwork.setSub]
  refine ⟨fun j hholds => ?_,fun i j hi hj hsame => ?_⟩
  · show Function.update s.registered callback (0 < callback) _ = true
    by_cases hj : j = s.count
    · subst hj
      rw [hnew,Function.update_self]
      simpa [SystemNetwork.holds,SystemNetwork.step,SystemNetwork.tell,SystemNetwork.setSub,hnone] using hholds
    · obtain ⟨hheld,hcallback⟩ := hold j hj hholds
      rw [hcallback,Function.update_of_ne (hgood j hheld)]
      exact hown.registered j hheld
  · by_cases hi' : i = s.count
    · by_cases hj' : j = s.count
      · exact hi'.trans hj'.symm
      · obtain ⟨hheld,hcallback⟩ := hold j hj' hj
        subst hi'
        rw [hnew,hcallback] at hsame
        exact absurd hsame.symm (hgood j hheld)
    · obtain ⟨hiheld,hicallback⟩ := hold i hi' hi
      by_cases hj' : j = s.count
      · subst hj'
        rw [hnew,hicallback] at hsame
        exact absurd hsame (hgood i hiheld)
      · obtain ⟨hjheld,hjcallback⟩ := hold j hj' hj
        rw [hicallback,hjcallback] at hsame
        exact hown.apart i j hiheld hjheld hsame

theorem Own.step (hown : Own s) (h : Inv s) (op : NetOp) (hgood : Orderly answers s op) : Own (s.step answers op) := by
  have hrefl := Kept.refl s
  cases op with
  | subscribe callback => exact hown.subscribe h callback hgood
  | unsubscribe => exact (hrefl.tryStop.tell _).own hown
  | arrive k d =>
    show Own (if listens (s.subs k).phase then _ else s)
    split_ifs
    · refine Kept.own (hrefl.setSub ?_ (fun hk => ?_)) hown
      · rfl
      · simpa [SystemNetwork.holds,SystemNetwork.setSub] using hk
    · exact hown
  | poll k socket => exact hown.poll socket
  | runPosted =>
    unfold SystemNetwork.step
    cases hposted : s.posted with
    | nil => exact hown
    | cons p posted =>
      obtain ⟨k,type⟩ := p
      have hpopped : Kept s { s with posted := posted } := ⟨rfl,fun _ => rfl,fun j hj => by
        simp only [SystemNetwork.holds,hposted,List.any_cons,Bool.or_eq_true] at hj ⊢
        tauto⟩
      exact hown.drop (holds_of_posted (hposted ▸ List.mem_cons_self)) (hpopped.tell _)

end Callbacks

theorem own_initial : Own {} := ⟨fun _ h => Bool.noConfusion h,fun _ _ h => Bool.noConfusion h⟩

theorem inv_initial : Inv {} := by
  refine ⟨⟨trivial,fun _ => List.isChain_nil,?_,?_,?_,?_⟩,rfl,?_,fun k hunder => hunder.elim⟩
  · exact fun p hp => absurd hp List.not_mem_nil
  · exact fun j hj => by cases hj
  · exact fun j hj => absurd hj List.not_mem_nil
  · refine fun k => ⟨rfl,rfl,fun _ hwait => ?_,fun hunder => hunder.elim,fun hphase => ?_,
      fun d hd => absurd hd List.not_mem_nil,fun _ => rfl⟩
    · cases hwait
    · cases hphase
  · exact fun j hj => by cases hj

end Steps

/-- In a run of orderly steps the callbacks are told what they should be in every state. -/
theorem monitored_of_orderly (answers : ℕ → NetAnswer) (ops : List NetOp)
    (h : Transition.Guarded (step answers) (Orderly answers) {} ops) :
    Transition.Always (step answers) (fun s => Monitored s.log) {} ops :=
  (h.always (I := fun s => Inv s ∧ Own s)
    (fun _ op hs hgood => ⟨hs.1.step hs.2 op hgood,hs.2.step hs.1 op hgood⟩) ⟨inv_initial,own_initial⟩).mono
    (fun _ hs => ⟨hs.1.lawful,hs.1.settled⟩)

theorem newlink_header : 10 ≤ (List.replicate 10 (0 : UInt8)).length := by decide

/-- `RTM_NEWLINK` without a body. -/
def newlink : NetlinkMessage := ⟨fun _ => 0,16,0,List.replicate 10 0,newlink_header⟩

/-- A subscription that is told of two states of the network, and one with another function that takes its place. -/
theorem monitored_of_change : Transition.Always (step (fun i => ⟨0,UInt8.ofNat (i + 1)⟩)) (fun s => Monitored s.log) {}
    [.subscribe 1,.poll 0 true,.arrive 0 (some [newlink]),.poll 0 true,.runPosted,.runPosted,.subscribe 2,.poll 1 true,
      .poll 0 true,.poll 1 true,.runPosted] := by
  refine monitored_of_orderly _ _ ⟨fun _ hholds => Bool.noConfusion hholds,fun hphase => ?_,
    fun _ => ⟨newlink,rfl,by decide⟩,fun _ hstop => ?_,trivial,trivial,fun k _ hsame => ?_,fun hphase => ?_,fun _ _ => ?_,
    fun hphase => ?_,trivial,trivial⟩
  · cases hphase
  · cases hstop
  · cases k with
    | zero => cases hsame
    | succ k => cases hsame
  · cases hphase
  · exact .inl ⟨rfl,1,rfl⟩
  · cases hphase

/-- A subscription that is unsubscribed before its task is polled is told of the network nevertheless. -/
theorem not_monitored_of_unsubscribe : ¬ ∀ answers ops, Monitored (Transition.run (step answers) {} ops).log := by
  intro h
  have hlawful := (h (fun _ => ⟨0,1⟩) [.subscribe 1,.unsubscribe,.poll 0 true,.runPosted]).lawful
  have hlive : 0 ∈ ([] : List ℕ) := hlawful.2.1.1
  exact List.not_mem_nil hlive

end FeatureRuntime.SystemNetwork
