import FeatureRuntime.MapHistory
import FeatureRuntime.Transition

/-! `FeatureTracker`: how often the functions of a feature ran and for how long, as the log shows it at the end. -/
namespace FeatureRuntime

/-- `Tracker`; nothing runs where `begin_time_` is zero. -/
structure Tracker where
  beginTime : ℤ := 0
  totalDuration : ℤ := 0
  times : ℕ := 0

namespace Tracker

def begin_ (t : Tracker) (now : ℤ) : Tracker := { t with beginTime := now }

def end_ (t : Tracker) (now : ℤ) : Tracker :=
  if t.beginTime = 0 then t
  else { beginTime := 0, totalDuration := t.totalDuration + (now - t.beginTime), times := t.times + 1 }

end Tracker

/-- A call of `begin` or of `end` for a function, at a time of `now_ms`. -/
structure TrackerCall where
  starts : Bool
  func : String
  now : ℤ

structure FeatureTracker where
  funcInfoMap : Std.TreeMap String Tracker := ∅

namespace FeatureTracker

def step (s : FeatureTracker) (c : TrackerCall) : FeatureTracker :=
  match s.funcInfoMap[c.func]? with
  | none => if c.starts then ⟨s.funcInfoMap.insert c.func (Tracker.begin_ {} c.now)⟩ else s
  | some t => ⟨s.funcInfoMap.insert c.func (if c.starts then t.begin_ c.now else t.end_ c.now)⟩

/-- The rows of the log with count, total and average; there are none if an average divides by zero. -/
def printFeatureInfo (s : FeatureTracker) : Option (List (String × ℕ × ℤ × ℤ)) :=
  s.funcInfoMap.toList.mapM (fun e =>
    if e.2.times = 0 then none
    else some (e.1,e.2.times,e.2.totalDuration,e.2.totalDuration.tdiv e.2.times))

def run (calls : List TrackerCall) : FeatureTracker := Transition.run step {} calls

/-- The calls for one function. -/
def callsFor (func : String) (calls : List TrackerCall) : List TrackerCall := calls.filter (fun c => c.func = func)

/-- The time from a `begin` to an `end`. -/
def span (c d : TrackerCall) : Option ℤ :=
  if c.starts ∧ c.now ≠ 0 ∧ ¬ d.starts then some (d.now - c.now) else none

/-- The times of an `end` right behind a `begin`. -/
def spans (calls : List TrackerCall) : List ℤ := (calls.zip calls.tail).filterMap (fun e => span e.1 e.2)

/-- What the tracker of a function should hold after the calls for it. -/
def tracked (calls : List TrackerCall) : Option Tracker :=
  if calls.any TrackerCall.starts then
    some
      { beginTime := calls.getLast?.elim 0 (fun c => if c.starts then c.now else 0)
        totalDuration := (spans calls).sum
        times := (spans calls).length }
  else none

theorem callsFor_concat (func : String) (calls : List TrackerCall) (c : TrackerCall) :
    callsFor func (calls ++ [c]) = callsFor func calls ++ if c.func = func then [c] else [] := by
  rw [callsFor,List.filter_append]
  congr 1
  by_cases h : c.func = func <;> simp [h]

theorem spans_concat (calls : List TrackerCall) (c : TrackerCall) :
    spans (calls ++ [c]) = spans calls ++ (calls.getLast?.bind (fun b => span b c)).toList := by
  induction calls with
  | nil => rfl
  | cons a calls ih =>
    cases calls with
    | nil => cases h : span a c <;> simp [spans,h]
    | cons b calls =>
      have hcons : ∀ l : List TrackerCall, spans (a :: b :: l) = (span a b).toList ++ spans (b :: l) := by
        intro l
        cases h : span a b <;> simp [spans,h]
      rw [List.cons_append,List.cons_append,hcons,hcons,List.append_assoc,← List.cons_append,ih]
      rfl

theorem spans_eq_nil {calls : List TrackerCall} (h : calls.any TrackerCall.starts = false) : spans calls = [] := by
  induction calls using List.reverseRecOn with
  | nil => rfl
  | append_singleton calls c ih =>
    rw [List.any_append,Bool.or_eq_false_iff] at h
    rw [spans_concat,ih h.1,List.nil_append]
    cases hlast : calls.getLast? with
    | none => rfl
    | some b =>
      have hb := List.any_eq_false.mp h.1 b (List.mem_of_getLast? hlast)
      simp [span,hb]

/-- One more call for the function of a tracker. -/
theorem tracked_concat (calls : List TrackerCall) (c : TrackerCall) : tracked (calls ++ [c]) =
    match tracked calls with
    | none => if c.starts then some (Tracker.begin_ {} c.now) else none
    | some t => some (if c.starts then t.begin_ c.now else t.end_ c.now) := by
  unfold tracked
  rw [List.any_append,spans_concat,List.getLast?_concat]
  cases hany : calls.any TrackerCall.starts with
  | false =>
    have hnone : calls.getLast?.bind (fun b => span b c) = none := by
      cases hlast : calls.getLast? with
      | none => rfl
      | some b =>
        have hb := List.any_eq_false.mp hany b (List.mem_of_getLast? hlast)
        simp [span,hb]
    cases hc : c.starts <;> simp [hc,hnone,spans_eq_nil hany,Tracker.begin_]
  | true =>
    cases hlast : calls.getLast? with
    | none =>
      rw [List.getLast?_eq_none_iff.mp hlast] at hany
      cases hany
    | some b =>
      cases hc : c.starts
      · cases hb : b.starts
        · simp [hc,hb,span,Tracker.end_]
        · by_cases hzero : b.now = 0 <;> simp [hc,hb,hzero,span,Tracker.end_]
      · simp [hc,span,Tracker.begin_]

theorem funcInfoMap_run (calls : List TrackerCall) (func : String) :
    (run calls).funcInfoMap[func]? = tracked (callsFor func calls) := by
  induction calls using List.reverseRecOn with
  | nil => simp [run,tracked,callsFor]
  | append_singleton calls c ih =>
    have hrun : run (calls ++ [c]) = (run calls).step c := by
      rw [run,Transition.run_append]
      rfl
    rw [hrun,callsFor_concat,step]
    by_cases hfunc : c.func = func
    · subst hfunc
      rw [if_pos rfl,tracked_concat,← ih]
      cases hold : (run calls).funcInfoMap[c.func]? with
      | none => cases c.starts <;> simp [hold]
      | some t => simp
    · rw [if_neg hfunc,List.append_nil,← ih]
      cases (run calls).funcInfoMap[c.func]? with
      | none => cases c.starts <;> simp [MapHistory.getElem?_insert_eq,hfunc]
      | some t => simp [MapHistory.getElem?_insert_eq,hfunc]

/-- Whatever functions begin and end in between, a function is counted once for each `end` right behind a `begin` of
its own, with the time between them; and the log can be written when each function that began was counted. -/
theorem tracker_counts (calls : List TrackerCall) :
    (∀ func, (run calls).funcInfoMap[func]? = tracked (callsFor func calls)) ∧
      ((run calls).printFeatureInfo ≠ none ↔
        ∀ c ∈ calls, c.starts = true → spans (callsFor c.func calls) ≠ []) := by
  refine ⟨funcInfoMap_run calls,?_⟩
  have hmapM : ∀ entries : List (String × Tracker), entries.mapM (fun e => if e.2.times = 0 then none
      else some (e.1,e.2.times,e.2.totalDuration,e.2.totalDuration.tdiv e.2.times)) ≠ none ↔
        ∀ e ∈ entries, e.2.times ≠ 0 := by
    intro entries
    induction entries with
    | nil => simp
    | cons e entries ih =>
      rw [List.mapM_cons,List.forall_mem_cons,← ih]
      by_cases hzero : e.2.times = 0
      · simp [hzero]
      · cases hrest : entries.mapM (fun e => if e.2.times = 0 then none
          else some (e.1,e.2.times,e.2.totalDuration,e.2.totalDuration.tdiv e.2.times)) <;> simp [hzero]
  rw [printFeatureInfo,hmapM]
  constructor
  · intro h c hc hstarts hnil
    have hany : (callsFor c.func calls).any TrackerCall.starts = true :=
      List.any_eq_true.mpr ⟨c,List.mem_filter.mpr ⟨hc,by simp⟩,hstarts⟩
    have hfound := funcInfoMap_run calls c.func
    rw [tracked,if_pos hany] at hfound
    refine h _ (Std.TreeMap.mem_toList_iff_getElem?_eq_some.mpr hfound) ?_
    rw [hnil]
    rfl
  · intro h e he hzero
    have hfound := funcInfoMap_run calls e.1
    rw [Std.TreeMap.mem_toList_iff_getElem?_eq_some.mp he,tracked] at hfound
    split_ifs at hfound with hany
    obtain ⟨c,hc,hstarts⟩ := List.any_eq_true.mp hany
    obtain ⟨hmem,hfunc⟩ := List.mem_filter.mp hc
    have hne := h c hmem hstarts
    rw [of_decide_eq_true hfunc] at hne
    rw [Option.some.inj hfound] at hzero
    exact hne (List.length_eq_zero_iff.mp hzero)

end FeatureTracker
end FeatureRuntime
