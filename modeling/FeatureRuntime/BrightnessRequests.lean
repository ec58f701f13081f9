import FeatureRuntime.Brightness

/-! What the requests of `system.brightness` report, and what becomes of their records. -/
namespace FeatureRuntime

inductive BrightnessKind
  | success
  | fail
  | complete
  deriving DecidableEq

def BrightnessReport.kind : BrightnessReport → BrightnessKind
  | .success _ _ => .success
  | .fail _ _ => .fail
  | .complete => .complete

namespace BrightnessParam

variable (param : BrightnessParam)

def ids : List ℤ := [param.success,param.fail,param.complete]

def expected (ok : Bool) : List BrightnessKind :=
  (if ok then if 0 < param.success then [.success] else [] else if 0 < param.fail then [.fail] else []) ++
    if 0 < param.complete then [.complete] else []

/-- What an act tells where the callbacks of the request are registered. -/
def tells : BrightnessAct → List BrightnessKind
  | .success _ => if 0 < param.success then [.success] else []
  | .fail _ => if 0 < param.fail then [.fail] else []
  | .complete => if 0 < param.complete then [.complete] else []
  | .removeCallbacks | .freeRecord | .freeParam => []

end BrightnessParam

namespace Brightness

open LiveCallbacks RequestRun

variable {ι : Type}

def reported (s : Brightness ι) (request : ℕ) : List BrightnessKind :=
  (s.events.filter (fun event => event.request = request)).map (fun event => event.report.kind)

/-- What is still done for a request that is under way. -/
def acts (s : Brightness ι) (request : ℕ) : List BrightnessAct := select request s.todo

/-- What is promised: a request that has its answer reports it, once and in order, and has reported all of it when nothing
is under way for it; one that has none has reported nothing; no callback is invoked after a detach; and every record is
freed once, when its request is done with or its instance is detached, and not used after it. -/
structure Right (s : Brightness ι) : Prop where
  answered : ∀ (request : ℕ) record ok, s.records[request]? = some record → record.outcome = some ok →
    s.reported request <+: record.param.expected ok ∧
      (s.acts request = [] → s.reported request = record.param.expected ok)
  silent : ∀ (request : ℕ) record, s.records[request]? = some record → record.outcome = none → s.reported request = []
  heard : ∀ event ∈ s.events, event.late = false
  freed : ∀ (request : ℕ) record, s.records[request]? = some record → record.freed =
    if (record.outcome = none ∨ s.acts request ≠ []) ∧ s.detached record.feature = false then 0 else 1
  params : ∀ record ∈ s.records, record.paramFreed = record.freed
  safe : s.fault = false

def Untold (param : BrightnessParam) : Prop := param.success ≤ 0 ∧ param.fail ≤ 0

def CallMeets (param : BrightnessParam) : BrightnessCall → Prop
  | .getValue status | .setValue status | .getMode status | .setMode status => status = 0 ∨ Untold param
  | .setKeepScreenOn keep turned status => (keep = true → turned = 0) ∧ status = 0

/-- The backend has yet to complete the request, or `do_callback` to remove its callbacks. -/
def Needs (s : Brightness ι) (request : ℕ) (record : BrightnessRecord ι) : Prop :=
  record.held = true ∨ .removeCallbacks ∈ s.acts request

/-- The condition on what happens: the backend neither refuses a request nor completes it with an error, where it has a
callback that tells; a call brings no callback of a request of its instance that still needs it; and an instance is not
detached from a callback of its own requests, nor a request completed after it. -/
def Meets (s : Brightness ι) : BrightnessOp ι → Prop
  | .call feature call param => s.detached feature = false → CallMeets param call ∧
      ∀ (request : ℕ) record, s.records[request]? = some record → s.Needs request record → record.feature = feature →
        ∀ id ∈ record.param.ids, 0 < id → id ∉ param.ids
  | .complete request status _ => s.todo = [] → ∀ record, s.records[request]? = some record → record.held = true →
      s.detached record.feature = false ∧ (status = 0 ∨ Untold record.param)
  | .detach feature => ∀ (request : ℕ) record, s.records[request]? = some record → record.feature = feature →
      s.acts request = []
  | .next => True

/-- A record and its request: the request has told what it was asked to, or goes on to; its record is in the list until it
is freed; and its callbacks are registered as long as it needs them. -/
structure Fine (s : Brightness ι) (request : ℕ) (record : BrightnessRecord ι) : Prop where
  waits : record.outcome = none → s.reported request = [] ∧ s.acts request = []
  tells : ∀ ok, record.outcome = some ok →
    s.reported request ++ (s.acts request).flatMap record.param.tells = record.param.expected ok
  course : ∃ value, s.acts request <:+ [.success value,.complete,.removeCallbacks,.freeRecord]
  listed : record.listed = true ↔
    (record.outcome = none ∨ s.acts request ≠ []) ∧ s.detached record.feature = false
  freed : record.freed = if record.listed then 0 else 1
  params : record.paramFreed = record.freed
  held : record.held = true → record.outcome = none
  idle : s.detached record.feature = true → s.acts request = []
  live : s.Needs request record → s.detached record.feature = false → ∀ id ∈ record.param.ids, 0 < id →
    s.live record.feature id = true

/-- Requests of one instance that need their callbacks share none. -/
def Apart (s : Brightness ι) : Prop :=
  ∀ (n m : ℕ) a b, s.records[n]? = some a → s.records[m]? = some b → n ≠ m → s.Needs n a → s.Needs m b →
    a.feature = b.feature → ∀ id ∈ a.param.ids, 0 < id → id ∉ b.param.ids

structure Sound (s : Brightness ι) : Prop where
  fine : ∀ (request : ℕ) record, s.records[request]? = some record → s.Fine request record
  apart : s.Apart
  deaf : ∀ feature id, s.detached feature = true → s.live feature id = false
  positive : ∀ feature id, s.live feature id = true → 0 < id
  known : ∀ event ∈ s.events, event.request < s.records.length
  owned : ∀ act ∈ s.todo, act.1 < s.records.length
  heard : ∀ event ∈ s.events, event.late = false
  safe : s.fault = false

variable {s s' : Brightness ι} {record : BrightnessRecord ι} {request : ℕ} {feature : ι} {param : BrightnessParam}

theorem Sound.right (h : s.Sound) : s.Right := by
  refine ⟨fun n a ok ha hok => ?_,fun n a ha hnone => ((h.fine n a ha).waits hnone).1,h.heard,fun n a ha => ?_,
    fun a ha => ?_,h.safe⟩
  · have htells := (h.fine n a ha).tells ok hok
    refine ⟨htells ▸ List.prefix_append _ _,fun hacts => ?_⟩
    rwa [hacts,List.flatMap_nil,List.append_nil] at htells
  · have hfine := h.fine n a ha
    simp only [hfine.freed,hfine.listed]
  · obtain ⟨n,hn⟩ := List.mem_iff_getElem?.mp ha
    exact (h.fine n a hn).params

/-- A step that is not about the request leaves it as it is. -/
theorem Fine.congr (h : s.Fine request record) (hreported : s'.reported request = s.reported request)
    (hacts : s'.acts request = s.acts request) (hdetached : s'.detached record.feature = s.detached record.feature)
    (hlive : s.Needs request record → ∀ id ∈ record.param.ids, 0 < id → s.live record.feature id = true →
      s'.live record.feature id = true) : s'.Fine request record := by
  refine ⟨?_,?_,?_,?_,h.freed,h.params,h.held,?_,?_⟩
  · rw [hreported,hacts]
    exact h.waits
  · rw [hreported,hacts]
    exact h.tells
  · rw [hacts]
    exact h.course
  · rw [hacts,hdetached]
    exact h.listed
  · rw [hacts,hdetached]
    exact h.idle
  · intro hneeds hattached id hid hpos
    have hneeds' : s.Needs request record := by
      rw [Needs,hacts] at hneeds
      exact hneeds
    exact hlive hneeds' id hid hpos (h.live hneeds' (hdetached ▸ hattached) id hid hpos)

/-- Requests that need their callbacks are apart where they needed them before. -/
theorem Apart.mono (h : s.Apart) (hneeds : ∀ (n : ℕ) a', s'.records[n]? = some a' → s'.Needs n a' →
    ∃ a, s.records[n]? = some a ∧ s.Needs n a ∧ a.feature = a'.feature ∧ a.param = a'.param) : s'.Apart := by
  intro n m a' b' ha' hb' hne hneedsA hneedsB hfeature id hid hpos
  obtain ⟨a,ha,hna,hfa,hpa⟩ := hneeds n a' ha' hneedsA
  obtain ⟨b,hb,hnb,hfb,hpb⟩ := hneeds m b' hb' hneedsB
  rw [← hpa] at hid
  rw [← hpb]
  exact h n m a b ha hb hne hna hnb (hfa.trans (hfeature.trans hfb.symm)) id hid hpos

theorem change_cases (hrecord : s.records[request]? = some record) {f : BrightnessRecord ι → BrightnessRecord ι} {n : ℕ}
    {a : BrightnessRecord ι} (ha : (s.change request f).records[n]? = some a) :
    n = request ∧ a = f record ∨ n ≠ request ∧ s.records[n]? = some a := by
  rw [change,List.getElem?_modify] at ha
  obtain ⟨old,hold,rfl⟩ := Option.map_eq_some_iff.mp ha
  by_cases hn : request = n
  · subst hn
    rw [hrecord] at hold
    obtain rfl := Option.some.inj hold
    exact .inl ⟨rfl,if_pos rfl⟩
  · rw [if_neg hn]
    exact .inr ⟨Ne.symm hn,hold⟩

theorem acts_answer (s : Brightness ι) (request : ℕ) (ok : Bool) (list : List BrightnessAct) (n : ℕ) :
    (s.answer request ok list).acts n = if n = request then list ++ s.acts n else s.acts n := by
  unfold acts answer
  rw [select_append]
  split_ifs with hn
  · rw [hn,select_own]
  · rw [select_other (Ne.symm hn),List.nil_append]

theorem tells_expected {ok : Bool} (htold : ok = true ∨ Untold param) (value : ℤ) :
    [.success value,.complete,.removeCallbacks,.freeRecord].flatMap param.tells = param.expected ok := by
  rcases htold with rfl | ⟨hsuccess,hfail⟩
  · simp [BrightnessParam.tells,BrightnessParam.expected]
  · have hno : ¬ 0 < param.success := by omega
    have hno' : ¬ 0 < param.fail := by omega
    cases ok <;> simp [BrightnessParam.tells,BrightnessParam.expected,hno,hno']

/-- A request that the backend holds gets its answer, and a function goes on with it. -/
theorem Sound.answer (h : s.Sound) (hrecord : s.records[request]? = some record) (hheld : record.held = true)
    (hattached : s.detached record.feature = false) {ok : Bool} (htold : ok = true ∨ Untold record.param) (value : ℤ)
    {code : ℤ} (hcode : 0 ≤ code) : (s.answer request ok (doCallback value code ++ [.freeRecord])).Sound := by
  have hlist : doCallback value code ++ [.freeRecord] = [.success value,.complete,.removeCallbacks,.freeRecord] := by
    simp [doCallback,hcode]
  rw [hlist]
  have hfine := h.fine request record hrecord
  have hnone := hfine.held hheld
  obtain ⟨hsilent,hidle⟩ := hfine.waits hnone
  have hself : (s.answer request ok [.success value,.complete,.removeCallbacks,.freeRecord]).acts request =
      [.success value,.complete,.removeCallbacks,.freeRecord] := by
    rw [acts_answer,if_pos rfl,hidle,List.append_nil]
  have hother : ∀ n, n ≠ request →
      (s.answer request ok [.success value,.complete,.removeCallbacks,.freeRecord]).acts n = s.acts n := by
    intro n hn
    rw [acts_answer,if_neg hn]
  have hlength : (s.answer request ok [.success value,.complete,.removeCallbacks,.freeRecord]).records.length =
      s.records.length := List.length_modify _ s.records request
  refine ⟨fun n a ha => ?_,h.apart.mono (fun n a ha hneeds => ?_),h.deaf,h.positive,?_,fun act hact => ?_,h.heard,h.safe⟩
  · obtain ⟨rfl,rfl⟩ | ⟨hn,ha⟩ := change_cases hrecord ha
    · refine ⟨fun hcontra => (Option.some_ne_none ok hcontra).elim,fun ok' hok => ?_,⟨value,?_⟩,?_,hfine.freed,hfine.params,
        fun hcontra => Bool.noConfusion hcontra,fun hgone => ?_,fun _ => hfine.live (.inl hheld)⟩
      · obtain rfl := Option.some.inj hok
        rw [hself]
        exact (congrArg (· ++ _) hsilent).trans (tells_expected htold value)
      · rw [hself]
      · rw [hself]
        refine hfine.listed.trans ?_
        change _ ∧ s.detached record.feature = false ↔ _ ∧ s.detached record.feature = false
        simp [hnone]
      · exact absurd (hattached.symm.trans hgone) Bool.false_ne_true
    · exact (h.fine n a ha).congr rfl (hother n hn) rfl (fun _ _ _ _ hlive => hlive)
  · obtain ⟨rfl,rfl⟩ | ⟨hn,ha⟩ := change_cases hrecord ha
    · exact ⟨record,hrecord,.inl hheld,rfl,rfl⟩
    · rw [Needs,hother n hn] at hneeds
      exact ⟨a,ha,hneeds,rfl,rfl⟩
  · rw [hlength]
    exact h.known
  · rw [hlength]
    rcases List.mem_append.mp hact with hnew | hold
    · obtain ⟨_,_,rfl⟩ := List.mem_map.mp hnew
      exact (List.getElem?_eq_some_iff.mp hrecord).1
    · exact h.owned act hold

/-- A new request of an attached instance, whose callbacks are registered and are none that another request needs. -/
theorem Sound.brightnessGet (h : s.Sound) (hattached : s.detached feature = false) (type : BrightnessType)
    (hlive : ∀ id ∈ param.ids, 0 < id → s.live feature id = true)
    (hfree : ∀ (n : ℕ) a, s.records[n]? = some a → s.Needs n a → a.feature = feature →
      ∀ id ∈ a.param.ids, 0 < id → id ∉ param.ids) : (s.brightnessGet feature type param).Sound := by
  have hcases : ∀ (n : ℕ) (a : BrightnessRecord ι), (s.brightnessGet feature type param).records[n]? = some a →
      n < s.records.length ∧ s.records[n]? = some a ∨
        n = s.records.length ∧ a = ⟨feature,type,param,true,true,0,0,none⟩ := by
    intro n a ha
    by_cases hlt : n < s.records.length
    · rw [Brightness.brightnessGet,List.getElem?_append_left hlt] at ha
      exact .inl ⟨hlt,ha⟩
    · rw [Brightness.brightnessGet,List.getElem?_append_right (Nat.le_of_not_lt hlt)] at ha
      obtain ⟨hlength,hsame⟩ := List.getElem?_eq_some_iff.mp ha
      rw [List.length_singleton] at hlength
      exact .inr ⟨by omega,by simpa using hsame.symm⟩
  have hreported : s.reported s.records.length = [] := by
    rw [reported,List.map_eq_nil_iff,List.filter_eq_nil_iff]
    intro event hevent
    simpa using (h.known event hevent).ne
  have hacts : s.acts s.records.length = [] := by
    rw [acts,select,List.filterMap_eq_nil_iff]
    intro act hact
    rw [if_neg (h.owned act hact).ne]
  refine ⟨fun n a ha => ?_,fun n m a b ha hb hne hneedsA hneedsB hfeature id hid hpos => ?_,h.deaf,h.positive,
    fun event hevent => ?_,fun act hact => ?_,h.heard,h.safe⟩
  · obtain ⟨_,ha⟩ | ⟨rfl,rfl⟩ := hcases n a ha
    · exact (h.fine n a ha).congr rfl rfl rfl (fun _ _ _ _ hlive => hlive)
    · exact ⟨fun _ => ⟨hreported,hacts⟩,fun _ hcontra => (Option.some_ne_none _ hcontra.symm).elim,
        ⟨0,hacts ▸ List.nil_suffix⟩,⟨fun _ => ⟨.inl rfl,hattached⟩,fun _ => rfl⟩,rfl,rfl,fun _ => rfl,fun _ => hacts,
        fun _ _ => hlive⟩
  · obtain ⟨hn,ha⟩ | ⟨rfl,rfl⟩ := hcases n a ha
    · obtain ⟨_,hb⟩ | ⟨rfl,rfl⟩ := hcases m b hb
      · exact h.apart n m a b ha hb hne hneedsA hneedsB hfeature id hid hpos
      · exact hfree n a ha hneedsA hfeature id hid hpos
    · obtain ⟨_,hb⟩ | ⟨rfl,rfl⟩ := hcases m b hb
      · exact fun hmem => hfree m b hb hneedsB hfeature.symm id hmem hpos hid
      · exact absurd rfl hne
  · have hlt := h.known event hevent
    rw [Brightness.brightnessGet,List.length_append]
    omega
  · have hlt := h.owned act hact
    rw [Brightness.brightnessGet,List.length_append]
    omega

variable [DecidableEq ι]

theorem Sound.registered (h : s.Sound) (hattached : s.detached feature = false) (param : BrightnessParam) :
    (s.registered feature param).Sound := by
  refine ⟨fun n a ha => ?_,h.apart,fun other id hother => ?_,fun other id hlive => ?_,h.known,h.owned,h.heard,h.safe⟩
  · refine (h.fine n a ha).congr rfl rfl rfl (fun _ id _ _ hlive => ?_)
    simp only [Brightness.registered,register_iff]
    exact .inl (.inl (.inl hlive))
  · have hne : other ≠ feature := by
      rintro rfl
      exact absurd (hattached.symm.trans hother) Bool.false_ne_true
    simp only [Brightness.registered,register,h.deaf other id hother,hne,false_and,decide_false,Bool.or_self]
  · simp only [Brightness.registered,register_iff] at hlive
    obtain ((hold | ⟨-,rfl,hpositive⟩) | ⟨-,rfl,hpositive⟩) | ⟨-,rfl,hpositive⟩ := hlive
    · exact h.positive other id hold
    · exact hpositive
    · exact hpositive
    · exact hpositive

theorem registered_live (s : Brightness ι) (feature : ι) (param : BrightnessParam) (id : ℤ) (hid : id ∈ param.ids)
    (hpos : 0 < id) : (s.registered feature param).live feature id = true := by
  simp only [Brightness.registered,register_iff]
  simp only [BrightnessParam.ids,List.mem_cons,List.not_mem_nil,or_false] at hid
  rcases hid with rfl | rfl | rfl <;> simp [hpos]

omit [DecidableEq ι] in
theorem Sound.perform (h : s.Sound) (hattached : s.detached feature = false)
    (hlive : ∀ id ∈ param.ids, 0 < id → s.live feature id = true)
    (hfree : ∀ (n : ℕ) a, s.records[n]? = some a → s.Needs n a → a.feature = feature →
      ∀ id ∈ a.param.ids, 0 < id → id ∉ param.ids)
    {call : BrightnessCall} (hmeets : CallMeets param call) : (s.perform feature param call).Sound := by
  have hget := fun type => h.brightnessGet hattached type hlive hfree
  have hsubmit : ∀ type status, status = 0 ∨ Untold param → (s.submit feature type param status).Sound := by
    intro type status hmeets
    rw [Brightness.submit]
    split_ifs with hstatus
    · exact (hget type).answer (List.getElem?_concat_length) rfl hattached (.inr (hmeets.resolve_left hstatus)) status
        (by decide)
    · exact hget type
  cases call with
  | getValue status => exact hsubmit .getValue status hmeets
  | setValue status => exact hsubmit .setValue status hmeets
  | getMode status => exact hsubmit .getMode status hmeets
  | setMode status => exact hsubmit .setMode status hmeets
  | setKeepScreenOn keep turned status =>
    have hturned : ¬ (keep = true ∧ turned ≠ 0) := fun hbad => hbad.2 (hmeets.1 hbad.1)
    have hstatus : ¬ status ≠ 0 := fun hbad => hbad hmeets.2
    rw [Brightness.perform,setKeepScreenOn,if_neg hturned,if_neg hstatus]
    exact hget .keepOn

theorem Sound.detach (h : s.Sound) (feature : ι) (hquiet : s.Meets (.detach feature)) : (s.detach feature).Sound := by
  have hcases : ∀ (n : ℕ) a', (s.detach feature).records[n]? = some a' → ∃ a, s.records[n]? = some a ∧
      a' = if a.feature = feature ∧ a.listed then freeRecord a else a := by
    intro n a' ha'
    rw [Brightness.detach,List.getElem?_map] at ha'
    obtain ⟨a,ha,hsame⟩ := Option.map_eq_some_iff.mp ha'
    exact ⟨a,ha,hsame.symm⟩
  have hattached : ∀ other, other ≠ feature → (s.detach feature).detached other = s.detached other := by
    intro other hother
    simp [Brightness.detach,Function.update_of_ne hother]
  have hgone : (s.detach feature).detached feature = true := by simp [Brightness.detach]
  refine ⟨fun n a' ha' => ?_,h.apart.mono (fun n a' ha' hneeds => ?_),fun other id hother => ?_,fun other id hlive => ?_,?_,?_,
    h.heard,h.safe⟩
  · obtain ⟨a,ha,rfl⟩ := hcases n a' ha'
    have hfine := h.fine n a ha
    by_cases hfeature : a.feature = feature
    · have hacts : s.acts n = [] := hquiet n a ha hfeature
      -- the record is freed now, or has been
      have hfreed : ∀ b : BrightnessRecord ι, b.feature = a.feature → b.outcome = a.outcome → b.param = a.param →
          b.held = a.held → b.listed = false → b.freed = 1 → b.paramFreed = 1 → (s.detach feature).Fine n b := by
        intro b hf houtcome hparam hheld hlisted hone hone'
        refine ⟨?_,?_,⟨0,?_⟩,?_,?_,hone'.trans hone.symm,?_,fun _ => hacts,fun _ hcontra => ?_⟩
        · rw [houtcome]
          exact hfine.waits
        · rw [houtcome,hparam]
          exact hfine.tells
        · exact hacts ▸ List.nil_suffix
        · rw [hlisted,hf,hfeature,hgone]
          simp
        · rw [hlisted]
          exact hone
        · rw [hheld,houtcome]
          exact hfine.held
        · rw [hf,hfeature,hgone] at hcontra
          cases hcontra
      split_ifs with hlisted
      · have hzero := hfine.freed
        rw [if_pos hlisted.2] at hzero
        have hzero' := hfine.params.trans hzero
        exact hfreed (freeRecord a) rfl rfl rfl rfl rfl (congrArg (· + 1) hzero) (congrArg (· + 1) hzero')
      · have hunlisted : a.listed = false := by
          cases hcase : a.listed with
          | false => rfl
          | true => exact absurd ⟨hfeature,hcase⟩ hlisted
        have hone := hfine.freed
        rw [hunlisted] at hone
        exact hfreed a rfl rfl rfl rfl hunlisted hone (hfine.params.trans hone)
    · rw [if_neg (fun hboth => hfeature hboth.1)]
      refine hfine.congr rfl rfl (hattached a.feature hfeature) (fun _ id _ _ hlive => ?_)
      simp [Brightness.detach,hlive,hfeature]
  · obtain ⟨a,ha,rfl⟩ := hcases n a' ha'
    refine ⟨a,ha,?_,?_,?_⟩
    · split_ifs at hneeds
      · exact hneeds
      · exact hneeds
    · split_ifs <;> rfl
    · split_ifs <;> rfl
  · by_cases hsame : other = feature
    · simp [Brightness.detach,hsame]
    · rw [hattached other hsame] at hother
      simp [Brightness.detach,h.deaf other id hother]
  · simp only [Brightness.detach,Bool.and_eq_true] at hlive
    exact h.positive other id hlive.1
  · simpa [Brightness.detach] using h.known
  · simpa [Brightness.detach] using h.owned

omit [DecidableEq ι] in
theorem acts_cons {act : BrightnessAct} {todo : List (ℕ × BrightnessAct)} (htodo : s.todo = (request,act) :: todo)
    (n : ℕ) : s.acts n = if n = request then act :: select n todo else select n todo := by
  rw [acts,htodo]
  split_ifs with hn
  · simp [select,hn]
  · simp [select,Ne.symm hn]

omit [DecidableEq ι] in
/-- What a function under way can still do. -/
theorem Fine.course_cons (h : s.Fine request record) {act : BrightnessAct} {rest : List BrightnessAct}
    (hacts : s.acts request = act :: rest) :
    (∃ value, act = .success value ∧ rest = [.complete,.removeCallbacks,.freeRecord]) ∨
    (act = .complete ∧ rest = [.removeCallbacks,.freeRecord]) ∨ (act = .removeCallbacks ∧ rest = [.freeRecord]) ∨
      (act = .freeRecord ∧ rest = []) := by
  obtain ⟨value,hcourse⟩ := h.course
  rw [hacts] at hcourse
  simp only [List.suffix_cons_iff,List.cons.injEq] at hcourse
  obtain ⟨rfl,rfl⟩ | ⟨rfl,rfl⟩ | ⟨rfl,rfl⟩ | ⟨rfl,rfl⟩ | hnil := hcourse
  · exact .inl ⟨value,rfl,rfl⟩
  · exact .inr (.inl ⟨rfl,rfl⟩)
  · exact .inr (.inr (.inl ⟨rfl,rfl⟩))
  · exact .inr (.inr (.inr ⟨rfl,rfl⟩))
  · simp at hnil

section Next

variable {todo : List (ℕ × BrightnessAct)} {act : BrightnessAct}

omit [DecidableEq ι] in
theorem Sound.attached (h : s.Sound) (hrecord : s.records[request]? = some record) (hacts : s.acts request ≠ []) :
    s.detached record.feature = false := by
  cases hgone : s.detached record.feature with
  | false => rfl
  | true => exact absurd ((h.fine request record hrecord).idle hgone) hacts

omit [DecidableEq ι] in
theorem Sound.undone (h : s.Sound) (hrecord : s.records[request]? = some record) (hacts : s.acts request ≠ []) :
    record.outcome ≠ none ∧ record.held ≠ true := by
  have hfine := h.fine request record hrecord
  have houtcome : record.outcome ≠ none := fun hnone => hacts (hfine.waits hnone).2
  exact ⟨houtcome,fun hheld => houtcome (hfine.held hheld)⟩

omit [DecidableEq ι] in
/-- The function under way goes on, and not to the end. -/
theorem Fine.advance (h : s.Fine request record) {rest : List BrightnessAct} (hacts : s.acts request = act :: rest)
    (hacts' : s'.acts request = rest) (hrest : rest ≠ [])
    (hreported : s'.reported request = s.reported request ++ record.param.tells act)
    (hdetached : s'.detached record.feature = s.detached record.feature)
    (hlive : .removeCallbacks ∈ rest → ∀ id ∈ record.param.ids, 0 < id → s.live record.feature id = true →
      s'.live record.feature id = true) : s'.Fine request record := by
  have hbusy : s.acts request ≠ [] := hacts ▸ List.cons_ne_nil act rest
  have houtcome : record.outcome ≠ none := fun hnone => hbusy (h.waits hnone).2
  obtain ⟨value,hcourse⟩ := h.course
  refine ⟨fun hnone => absurd hnone houtcome,fun ok hok => ?_,⟨value,?_⟩,?_,h.freed,h.params,h.held,fun hgone => ?_,
    fun hneeds hattached id hid hpos => ?_⟩
  · have htells := h.tells ok hok
    rw [hacts,List.flatMap_cons] at htells
    rw [hreported,hacts',List.append_assoc,htells]
  · rw [hacts']
    rw [hacts] at hcourse
    exact (List.suffix_cons act rest).trans hcourse
  · have hlisted := h.listed
    simp only [hbusy,hrest,hacts',hdetached,ne_eq,not_false_eq_true,or_true,true_and] at hlisted ⊢
    exact hlisted
  · exact absurd (h.idle (hdetached ▸ hgone)) hbusy
  · have hleft : .removeCallbacks ∈ rest := by
      rcases hneeds with hheld | hmem
      · exact absurd (h.held hheld) houtcome
      · exact hacts' ▸ hmem
    refine hlive hleft id hid hpos (h.live (.inr ?_) (hdetached ▸ hattached) id hid hpos)
    exact hacts ▸ List.mem_cons_of_mem act hleft

omit [DecidableEq ι] in
theorem needs_of_rest (htodo : s.todo = (request,act) :: todo) {n : ℕ} {a : BrightnessRecord ι}
    (hneeds : a.held = true ∨ .removeCallbacks ∈ select n todo) : s.Needs n a := by
  refine hneeds.imp_right (fun hmem => ?_)
  rw [acts_cons htodo n]
  split_ifs
  · exact List.mem_cons_of_mem act hmem
  · exact hmem

omit [DecidableEq ι] in
/-- A callback that the request needs is invoked where the request brought one. -/
theorem Sound.tell (h : s.Sound) (hrecord : s.records[request]? = some record)
    (htodo : s.todo = (request,act) :: todo) {id : ℤ} (hid : id ∈ record.param.ids) (report : BrightnessReport)
    (hreport : record.param.tells act = if 0 < id then [report.kind] else [])
    (hleft : .removeCallbacks ∈ select request todo) :
    ({ s with todo := todo }.invoke record.feature id request report).Sound := by
  have hacts := acts_cons htodo
  have hself : s.acts request = act :: select request todo := (hacts request).trans (if_pos rfl)
  have hfine := h.fine request record hrecord
  have hattached := h.attached hrecord (hself ▸ List.cons_ne_nil _ _)
  have hlive : s.live record.feature id = true ↔ 0 < id := by
    refine ⟨h.positive record.feature id,fun hpos => hfine.live (.inr ?_) hattached id hid hpos⟩
    exact hself ▸ List.mem_cons_of_mem act hleft
  have htold : ∀ n, ({ s with todo := todo }.invoke record.feature id request report).reported n =
      s.reported n ++ if n = request then record.param.tells act else [] := by
    intro n
    by_cases hpos : 0 < id
    · rw [invoke,if_pos (hlive.mpr hpos),hreport,if_pos hpos]
      by_cases hn : n = request
      · simp [reported,hn]
      · simp [reported,hn,Ne.symm hn]
    · rw [invoke,if_neg (fun hlive' => hpos (hlive.mp hlive')),hreport,if_neg hpos,ite_self,List.append_nil]
      rfl
  obtain ⟨events,hsame,hevents⟩ : ∃ events, { s with todo := todo }.invoke record.feature id request report =
      { s with todo := todo, events := events } ∧
        ∀ event ∈ events, event ∈ s.events ∨ event.request = request ∧ event.late = false := by
    rw [invoke]
    split_ifs
    · refine ⟨_,rfl,fun event hevent => (List.mem_append.mp hevent).imp_right (fun hnew => ?_)⟩
      obtain rfl := List.mem_singleton.mp hnew
      exact ⟨rfl,hattached⟩
    · exact ⟨s.events,rfl,fun event hevent => .inl hevent⟩
  rw [hsame] at htold ⊢
  refine ⟨fun n a ha => ?_,h.apart.mono (fun n a ha hneeds => ⟨a,ha,needs_of_rest htodo hneeds,rfl,rfl⟩),h.deaf,h.positive,
    fun event hevent => ?_,fun act hact => ?_,fun event hevent => ?_,h.safe⟩
  · by_cases hn : n = request
    · subst hn
      obtain rfl := Option.some.inj (hrecord.symm.trans ha)
      exact hfine.advance hself rfl (List.ne_nil_of_mem hleft) ((htold n).trans (by rw [if_pos rfl])) rfl
        (fun _ _ _ _ hlive => hlive)
    · refine (h.fine n a ha).congr ((htold n).trans ?_) ((hacts n).trans (if_neg hn)).symm rfl (fun _ _ _ _ hlive => hlive)
      rw [if_neg hn,List.append_nil]
  · rcases hevents event hevent with hold | ⟨hnew,_⟩
    · exact h.known event hold
    · exact hnew ▸ (List.getElem?_eq_some_iff.mp hrecord).1
  · exact h.owned act (htodo ▸ List.mem_cons_of_mem _ hact)
  · rcases hevents event hevent with hold | ⟨_,hlate⟩
    · exact h.heard event hold
    · exact hlate

/-- The callbacks are removed, which no other request of the instance needs. -/
theorem Sound.removeCallbacks (h : s.Sound) (hrecord : s.records[request]? = some record)
    (htodo : s.todo = (request,.removeCallbacks) :: todo) (hrest : select request todo = [.freeRecord]) :
    ({ s with todo := todo }.removeCallbacks record.feature record.param).Sound := by
  have hacts := acts_cons htodo
  have hself : s.acts request = .removeCallbacks :: select request todo := (hacts request).trans (if_pos rfl)
  have hneeds : s.Needs request record := .inr (hself ▸ List.mem_cons_self)
  refine ⟨fun n a ha => ?_,h.apart.mono (fun n a ha hneeds => ⟨a,ha,needs_of_rest htodo hneeds,rfl,rfl⟩),
    fun other id hother => ?_,fun other id hlive => ?_,h.known,fun act hact => ?_,h.heard,h.safe⟩
  · by_cases hn : n = request
    · subst hn
      obtain rfl := Option.some.inj (hrecord.symm.trans ha)
      refine (h.fine n record hrecord).advance hself rfl (hrest ▸ List.cons_ne_nil _ _) (List.append_nil _).symm rfl
        (fun hleft => ?_)
      rw [hrest] at hleft
      simp at hleft
    · refine (h.fine n a ha).congr rfl ((hacts n).trans (if_neg hn)).symm rfl (fun hneeds' id hid hpos hlive => ?_)
      have hapart : a.feature = record.feature → id ∉ record.param.ids :=
        fun hfeature => h.apart n request a record ha hrecord hn hneeds' hneeds hfeature id hid hpos
      simp only [Brightness.removeCallbacks,remove_iff]
      simp only [BrightnessParam.ids,List.mem_cons,List.not_mem_nil,or_false,not_or] at hapart
      exact ⟨⟨⟨hlive,fun hboth => (hapart hboth.1).1 hboth.2⟩,fun hboth => (hapart hboth.1).2.1 hboth.2⟩,
        fun hboth => (hapart hboth.1).2.2 hboth.2⟩
  · have hlive := h.deaf other id hother
    cases hcase : ({ s with todo := todo }.removeCallbacks record.feature record.param).live other id with
    | false => rfl
    | true =>
      simp only [Brightness.removeCallbacks,remove_iff] at hcase
      exact absurd (hlive.symm.trans hcase.1.1.1) Bool.false_ne_true
  · simp only [Brightness.removeCallbacks,remove_iff] at hlive
    exact h.positive other id hlive.1.1.1
  · exact h.owned act (htodo ▸ List.mem_cons_of_mem _ hact)

omit [DecidableEq ι] in
/-- The function under way is done, and the record is freed. -/
theorem Sound.freeRecord (h : s.Sound) (hrecord : s.records[request]? = some record)
    (htodo : s.todo = (request,.freeRecord) :: todo) (hrest : select request todo = []) :
    ({ s with todo := todo }.change request freeRecord).Sound := by
  have hacts := acts_cons htodo
  have hself : s.acts request = [.freeRecord] := (hacts request).trans (by rw [if_pos rfl,hrest])
  have hfine := h.fine request record hrecord
  have hattached := h.attached hrecord (hself ▸ List.cons_ne_nil _ _)
  obtain ⟨houtcome,hheld⟩ := h.undone hrecord (hself ▸ List.cons_ne_nil _ _)
  have hzero := hfine.freed
  rw [if_pos (hfine.listed.mpr ⟨.inr (hself ▸ List.cons_ne_nil _ _),hattached⟩)] at hzero
  have hlength : ({ s with todo := todo }.change request Brightness.freeRecord).records.length = s.records.length :=
    List.length_modify _ s.records request
  refine ⟨fun n a ha => ?_,h.apart.mono (fun n a ha hneeds => ?_),h.deaf,h.positive,?_,fun act hact => ?_,h.heard,h.safe⟩
  · obtain ⟨rfl,rfl⟩ | ⟨hn,ha⟩ := change_cases (s := { s with todo := todo }) hrecord ha
    · refine ⟨fun hnone => absurd hnone houtcome,fun ok hok => ?_,⟨0,?_⟩,⟨fun hlisted => Bool.noConfusion hlisted,?_⟩,
        congrArg (· + 1) hzero,congrArg (· + 1) hfine.params,fun hheld' => absurd hheld' hheld,fun _ => hrest,?_⟩
      · have htells := hfine.tells ok hok
        rw [hself] at htells
        change s.reported n ++ (select n todo).flatMap record.param.tells = _
        rw [hrest]
        exact htells
      · change select n todo <:+ _
        rw [hrest]
        exact List.nil_suffix
      · rintro ⟨hnone | hmore,_⟩
        · exact absurd hnone houtcome
        · exact absurd hrest hmore
      · rintro (hheld' | hmem)
        · exact absurd hheld' hheld
        · change .removeCallbacks ∈ select n todo at hmem
          rw [hrest] at hmem
          cases hmem
    · exact (h.fine n a ha).congr rfl ((hacts n).trans (if_neg hn)).symm rfl (fun _ _ _ _ hlive => hlive)
  · obtain ⟨rfl,rfl⟩ | ⟨hn,ha⟩ := change_cases (s := { s with todo := todo }) hrecord ha
    · rcases hneeds with hheld' | hmem
      · exact absurd hheld' hheld
      · change .removeCallbacks ∈ select n todo at hmem
        rw [hrest] at hmem
        cases hmem
    · exact ⟨a,ha,needs_of_rest htodo hneeds,rfl,rfl⟩
  · rw [hlength]
    exact h.known
  · rw [hlength]
    exact h.owned act (htodo ▸ List.mem_cons_of_mem _ hact)

theorem Sound.next (h : s.Sound) : s.next.Sound := by
  rw [Brightness.next]
  cases htodo : s.todo with
  | nil => exact h
  | cons head todo =>
    obtain ⟨request,act⟩ := head
    dsimp only
    cases hrecord : s.records[request]? with
    | none => exact h
    | some record =>
      have hfine := h.fine request record hrecord
      have hacts : s.acts request = act :: select request todo := (acts_cons htodo request).trans (if_pos rfl)
      have hmem : ∀ id, id = record.param.success ∨ id = record.param.complete → id ∈ record.param.ids := by
        rintro id (rfl | rfl)
        · exact List.mem_cons_self
        · exact List.mem_cons_of_mem _ (List.mem_cons_of_mem _ List.mem_cons_self)
      obtain ⟨value,rfl,hrest⟩ | ⟨rfl,hrest⟩ | ⟨rfl,hrest⟩ | ⟨rfl,hrest⟩ := hfine.course_cons hacts
      · exact h.tell hrecord htodo (hmem _ (.inl rfl)) (.success value value) rfl (hrest ▸ by simp)
      · exact h.tell hrecord htodo (hmem _ (.inr rfl)) .complete rfl (hrest ▸ by simp)
      · exact h.removeCallbacks hrecord htodo hrest
      · have hlisted := hfine.listed.mpr ⟨.inr (hacts ▸ List.cons_ne_nil _ _),
          h.attached hrecord (hacts ▸ List.cons_ne_nil _ _)⟩
        have hzero := hfine.freed
        rw [if_pos hlisted] at hzero
        unfold Brightness.act
        dsimp only
        rw [if_neg (by omega)]
        exact h.freeRecord hrecord htodo hrest

end Next

theorem Sound.step (h : s.Sound) (op : BrightnessOp ι) (hmeets : s.Meets op) : (s.step op).Sound := by
  cases op with
  | call feature call param =>
    rw [Brightness.step]
    split_ifs with hdetached
    · exact h
    · have hattached : s.detached feature = false := by simpa using hdetached
      obtain ⟨hcall,hfree⟩ := hmeets hattached
      exact (h.registered hattached param).perform hattached (registered_live s feature param) hfree hcall
  | complete request status value =>
    rw [Brightness.step]
    split_ifs with hholds
    · obtain ⟨htodo,hany⟩ := hholds
      obtain ⟨record,hrecord,hheld⟩ := (Option.any_eq_true _ _).mp hany
      obtain ⟨hattached,htold⟩ := hmeets (List.isEmpty_iff.mp htodo) record hrecord hheld
      have hfine := h.fine request record hrecord
      have hzero := hfine.freed
      rw [if_pos (hfine.listed.mpr ⟨.inl (hfine.held hheld),hattached⟩)] at hzero
      rw [brightnessCb,hrecord]
      dsimp only
      rw [if_neg (by omega)]
      refine h.answer hrecord hheld hattached (htold.imp_left decide_eq_true) _ ?_
      split_ifs <;> decide
    · exact h
  | detach feature =>
    rw [Brightness.step]
    split_ifs
    · exact h
    · exact h.detach feature hmeets
  | next => exact h.next

omit [DecidableEq ι] in
theorem Sound.init : (init : Brightness ι).Sound := by
  refine ⟨?_,?_,?_,?_,?_,?_,?_,rfl⟩ <;> simp [Brightness.init,Apart]

/-- Throughout a run whose steps meet their conditions the requests report their outcomes, and their records are freed once. -/
theorem reports_right_of_meets (ops : List (BrightnessOp ι)) (h : Transition.Guarded Brightness.step Meets init ops) :
    Transition.Always Brightness.step Right init ops :=
  (h.always (fun _ op h hmeets => h.step op hmeets) Sound.init).mono (fun _ h => h.right)

/-- The script of the success callback asks for more, the screen stays on, and the instance is detached while the backend
holds the second request. -/
theorem nested_right : Transition.Always Brightness.step Right init
    [.call 0 (.getValue 0) ⟨1,2,3⟩,.complete 0 0 80,.next,.call 0 (.setKeepScreenOn true 0 0) ⟨4,5,6⟩,.next,.next,.next,
      .detach 0] := by
  refine reports_right_of_meets _ ⟨?_,?_,trivial,?_,trivial,trivial,trivial,?_,trivial⟩
  · exact fun _ => ⟨.inl rfl,fun n record hrecord => absurd hrecord (by simp [init])⟩
  · intro _ record hrecord _
    obtain rfl := Option.some.inj hrecord
    exact ⟨rfl,.inl rfl⟩
  · refine fun _ => ⟨⟨fun _ => rfl,rfl⟩,fun n record hrecord _ _ => ?_⟩
    match n with
    | 0 =>
      obtain rfl := Option.some.inj hrecord
      decide
    | n + 1 => cases hrecord
  · intro n record hrecord _
    match n with
    | 0 => rfl
    | 1 => rfl
    | n + 2 => cases hrecord

/-- A request that the backend refuses reports success. -/
theorem refused_reports_success : ¬ ∀ ops : List (BrightnessOp ℕ),
    Transition.Always Brightness.step Right init ops := by
  intro h
  have hright := (h [.call 0 (.getValue (-22)) ⟨1,2,3⟩,.next]).last
  have hanswered := (hright.answered 0 ⟨0,.getValue,⟨1,2,3⟩,true,false,0,0,some false⟩ false rfl rfl).1
  exact absurd hanswered (by decide)

end Brightness
end FeatureRuntime
