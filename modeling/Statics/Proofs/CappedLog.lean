import Statics.Report.Collector

/-!
# The collector is a capped log

A collector is told errors and warnings, one after another. It takes one error more than its cap and refuses the rest.
It lists all warnings, and the errors it takes that are not at the place of the error before.
-/

namespace Statics

namespace Collector

/-- What a collector is told. -/
inductive Call where
  | report (d : Diagnostic)
  | warn (d : Diagnostic)

/-- The diagnostic of a call. -/
def Call.diagnostic : Call → Diagnostic
  | report d | warn d => d

/-- The error that a call reports. -/
def Call.reported? : Call → Option Diagnostic
  | report d => some d
  | warn _ => none

/-- The warning of a call. -/
def Call.warned? : Call → Option Diagnostic
  | report _ => none
  | warn d => some d

/-- Tells a collector one thing after another. The answers are those to the reports. -/
def run : List Call → Collector → Collector × List (Except TooManyErrors Unit)
  | [], c => (c, [])
  | .report d :: rest, c => ((run rest (c.report d).1).1, (c.report d).2 :: (run rest (c.report d).1).2)
  | .warn d :: rest, c => run rest (c.warn d)

/-- Errors without those at the place of the one just before. The one before the first is at `last`. -/
def withoutRepeats : Option Pos → List Diagnostic → List Diagnostic
  | _, [] => []
  | last, d :: rest =>
    if last = some d.pos then withoutRepeats (some d.pos) rest else d :: withoutRepeats (some d.pos) rest

/-- The answer to the report that comes after `k` others. -/
def answerAfter (cap k : Nat) : Except TooManyErrors Unit := if k < cap then .ok () else .error ⟨cap + 1⟩

/-- What became of a collector that was told `calls`: it is `after` now, and gave `answers`. -/
structure Took (c : Collector) (calls : List Call) (after : Collector)
    (answers : List (Except TooManyErrors Unit)) : Prop where
  cap : after.cap = c.cap
  count : after.count = min (c.count + (calls.filterMap Call.reported?).length) (c.cap + 1)
  answers : answers = (List.range (calls.filterMap Call.reported?).length).map fun k => answerAfter c.cap (c.count + k)
  stored : ∃ stored : List Call, stored.Sublist calls ∧
    after.diagnostics = c.diagnostics ++ stored.map Call.diagnostic ∧
    stored.filterMap Call.reported? =
      withoutRepeats c.last ((calls.filterMap Call.reported?).take (c.cap + 1 - c.count)) ∧
    stored.filterMap Call.warned? = calls.filterMap Call.warned?

namespace Took

variable {c after : Collector} {rest : List Call} {answers : List (Except TooManyErrors Unit)} {d : Diagnostic}

theorem warn (h : (c.warn d).Took rest after answers) : c.Took (.warn d :: rest) after answers := by
  obtain ⟨stored, hsub, hlisted, hreports, hwarnings⟩ := h.stored
  refine ⟨h.cap, h.count, h.answers, .warn d :: stored, hsub.cons_cons _, ?_, hreports, ?_⟩
  · rw [hlisted]
    simp [diagnostics, Collector.warn, Call.diagnostic]
  · simp [Call.warned?, hwarnings]

/-- A report past the cap changes nothing. -/
theorem refuse (h : c.Took rest after answers) (hfull : c.count = c.cap + 1) :
    c.Took (.report d :: rest) after (.error ⟨c.count⟩ :: answers) := by
  obtain ⟨stored, hsub, hlisted, hreports, hwarnings⟩ := h.stored
  have hanswer (k : Nat) : answerAfter c.cap (c.count + k) = .error ⟨c.count⟩ := by
    rw [answerAfter, if_neg (by omega), hfull]
  refine ⟨h.cap, ?_, ?_, stored, hsub.cons _, hlisted, ?_, hwarnings⟩
  · rw [h.count, hfull]
    simp [Call.reported?]
  · rw [h.answers]
    simp [Call.reported?, List.range_succ_eq_map, Function.comp_def, hanswer]
  · rw [hreports, hfull]
    simp

/-- A report up to the cap, and the one after, are counted, and listed unless they are at the place of the one
before. -/
theorem accept (hroom : c.count ≤ c.cap)
    (h : Took { c with
      count := c.count + 1, last := some d.pos, log := c.log ++ [⟨d, c.last != some d.pos⟩] } rest after answers) :
    c.Took (.report d :: rest) after (answerAfter c.cap c.count :: answers) := by
  obtain ⟨stored, hsub, hlisted, hreports, hwarnings⟩ := h.stored
  have hleft : c.cap + 1 - c.count = (c.cap + 1 - (c.count + 1)) + 1 := by omega
  refine ⟨h.cap, ?_, ?_, ?_⟩
  · rw [h.count]
    simp [Call.reported?]
    omega
  · rw [h.answers]
    simp [Call.reported?, List.range_succ_eq_map, Nat.add_assoc, Nat.add_comm 1]
  · rw [hleft]
    by_cases hlast : c.last = some d.pos
    · refine ⟨stored, hsub.cons _, ?_, ?_, hwarnings⟩
      · simp_all [diagnostics]
      · simp_all [Call.reported?, withoutRepeats]
    · refine ⟨.report d :: stored, hsub.cons_cons _, ?_, ?_, ?_⟩
      · simp_all [diagnostics, Call.diagnostic]
      · simp_all [Call.reported?, withoutRepeats]
      · exact hwarnings

end Took

theorem took_run {c : Collector} (hc : c.count ≤ c.cap + 1) (calls : List Call) :
    c.Took calls (run calls c).1 (run calls c).2 := by
  induction calls generalizing c with
  | nil => exact ⟨rfl, by simp [run, hc], rfl, [], .slnil, by simp [run], by simp [withoutRepeats], rfl⟩
  | cons call rest ih =>
    cases call with
    | warn d => exact (ih (c := c.warn d) hc).warn
    | report d =>
      by_cases hfatal : c.cap < c.count
      · have hreport : c.report d = (c, .error ⟨c.count⟩) := if_pos (by simpa [isFatal] using hfatal)
        simp only [run, hreport]
        exact (ih hc).refuse (by omega)
      · have hroom : c.count ≤ c.cap := by omega
        have hreport : c.report d =
            ({ c with count := c.count + 1, last := some d.pos, log := c.log ++ [⟨d, c.last != some d.pos⟩] },
              answerAfter c.cap c.count) := by
          grind [report, isFatal, answerAfter]
        simp only [run, hreport]
        exact Took.accept hroom (ih (by simpa using hroom))

end Collector

open Collector in
/-- A collector that is told errors and warnings counts the errors up to one past its cap. It accepts as many as its
cap and refuses the others, which it says with the count where it stopped. It lists all warnings and, of the errors
that it counts, those that are not at the place of the error just before, in the order in which it was told. After a
refusal, a report changes nothing. -/
theorem collector_is_capped_log (cap : Nat) (calls : List Call) :
    let reports := calls.filterMap Call.reported?
    let (c, answers) := run calls (.empty cap)
    c.count = min reports.length (cap + 1) ∧
      answers = (List.range reports.length).map (answerAfter cap) ∧
      (∃ stored : List Call, stored.Sublist calls ∧ c.diagnostics = stored.map Call.diagnostic ∧
        stored.filterMap Call.reported? = withoutRepeats none (reports.take (cap + 1)) ∧
        stored.filterMap Call.warned? = calls.filterMap Call.warned?) ∧
      ((∃ stop, .error stop ∈ answers) → ∀ d, (c.report d).1 = c) := by
  have h := took_run (c := .empty cap) (Nat.zero_le _) calls
  refine ⟨?_, ?_, ?_, ?_⟩
  · simpa [empty] using h.count
  · simpa [empty] using h.answers
  · simpa [empty, diagnostics] using h.stored
  · rintro ⟨stop, hstop⟩ d
    -- A refusal is the answer to a report after `cap` others, so the count passed the cap.
    rw [h.answers] at hstop
    obtain ⟨k, hk, hanswer⟩ := List.mem_map.1 hstop
    have hcap : cap ≤ k := Nat.le_of_not_lt fun hless => by simp [answerAfter, empty, hless] at hanswer
    have hfatal : (run calls (empty cap)).1.isFatal = true := by
      have hlength := List.mem_range.1 hk
      have hcount : _ = min (0 + _) (cap + 1) := h.count
      have hsame : _ = cap := h.cap
      exact decide_eq_true (by omega)
    exact congrArg Prod.fst (if_pos hfatal)

end Statics
