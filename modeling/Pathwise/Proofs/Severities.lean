import Mathlib.Data.List.Induction
import Pathwise.Report.Tally

/-!
# Severities from reports

Checks are reported path by path, those of one problem among those of all others. What is kept of a
problem is how often each verdict occurred (`get?_collect`): each event adds to the tally of its own
problem and leaves the others alone (`get?_observe`). Counting knows no order, so neither do the
severities, and since they only ask which verdicts occurred at all, how often something was reported
does not matter either.

## Results

* `Tallies.get?_observe`        — what one event does to the tally of a problem.
* `Tallies.get?_collect`        — the tally of a problem counts its reports.
* `Tallies.collect_perm`        — the order of reports has no influence.
* `Tallies.severity_of_reports` — severities, and the problems that have one, from the reports.
-/

namespace Pathwise

variable {p q : Problem} {f : Fact} {v : Verdict} {s : Severity} {e : Event} {es es' : List Event}

/-- What an event reports of a problem. -/
def Event.reportOf? (p : Problem) : Event → Option (Fact × Verdict)
  | condition q _ f v _ => if q = p then some (f, v) else none
  | _ => none

namespace Tally

variable {t : Tally} {rs rs' : List (Fact × Verdict)} {r : Fact × Verdict}

theorem severity?_eq_definite_iff :
    t.severity? = some .definite ↔ 0 < t.alwaysFails ∧ t.neverFails = 0 ∧ t.unsure = 0 := by
  unfold severity?
  split
  · rename_i hDefinite
    exact iff_of_true rfl hDefinite
  · rename_i hDefinite
    refine iff_of_false ?_ hDefinite
    split <;> nofun

theorem severity?_eq_none_iff :
    t.severity? = Option.none ↔ t.alwaysFails = 0 ∧ t.unsureNullable = 0 := by
  unfold severity?
  split
  · rename_i hDefinite
    exact iff_of_false nofun fun h => by omega
  · split
    · rename_i hPossible
      exact iff_of_false nofun fun h => by omega
    · rename_i hPossible
      exact iff_of_true rfl (by omega)

/-- The tally of the reports of a problem: how many there are of each kind. -/
def counting (p : Problem) (rs : List (Fact × Verdict)) : Tally where
  alwaysFails := rs.countP fun r => decide (r.2 = .alwaysFails)
  neverFails := rs.countP fun r => decide (r.2 = .neverFails)
  unsure := rs.countP fun r => decide (r.2 = .unsure)
  unsureNullable := rs.countP fun r => decide (r.2 = .unsure) && isNullable p r.1

theorem counting_nil : counting p [] = none := rfl

/-- One more report is one more verdict. -/
theorem counting_concat : counting p (rs ++ [r]) = (counting p rs).add p r.1 r.2 := by
  obtain ⟨f, v⟩ := r
  cases v <;> simp [counting, add, List.countP_append, List.countP_singleton]

theorem counting_perm (h : rs.Perm rs') : counting p rs = counting p rs' := by
  simp only [counting, h.countP_eq]

end Tally

namespace Tallies

variable {t : Tallies}

-- ---------------------------------------------------------------------------
-- Runs
-- ---------------------------------------------------------------------------

/-- **What one event does to the tally of a problem**: a report of it is added, and all else leaves
the tally as it is. -/
theorem get?_observe : (t.observe e).tallies.get? p =
    (e.reportOf? p).elim (t.tallies.get? p)
      fun r => some (((t.tallies.get? p).getD .none).add p r.1 r.2) := by
  cases e with
  | condition q value f v state =>
    by_cases hEq : q = p
    · subst hEq
      simp [observe, report, Event.reportOf?]
    · simp [observe, report, Event.reportOf?, hEq]
  | _ => rfl

theorem collect_concat : collect (es ++ [e]) = (collect es).observe e := by
  simp [collect, List.foldl_append]

/-- What was reported of a problem, in the order of the reports. -/
def reports (p : Problem) (es : List Event) : List (Fact × Verdict) :=
  es.filterMap (Event.reportOf? p)

/-- **The tally of a problem counts its reports**, and there is none without a report. The induction
is on the last event. -/
theorem get?_collect : (collect es).tallies.get? p =
    if reports p es = [] then none else some (.counting p (reports p es)) := by
  induction es using List.reverseRecOn with
  | nil => rfl
  | append_singleton es e ih =>
    have hTally : ((collect es).tallies.get? p).getD .none = .counting p (reports p es) := by
      rw [ih]
      split
      · rename_i hNone
        rw [hNone, Tally.counting_nil, Option.getD_none]
      · rw [Option.getD_some]
    rw [collect_concat, get?_observe, hTally]
    cases hReport : e.reportOf? p with
    | none => simp [reports, hReport, ih]
    | some r => simp [reports, hReport, ← Tally.counting_concat]

/-- **The order of reports has no influence.** -/
theorem collect_perm (h : es.Perm es') : collect es = collect es' := by
  have hTallies : (collect es).tallies = (collect es').tallies := by
    refine OrdMap.ext_get? fun p => ?_
    have hReports : (reports p es).Perm (reports p es') := h.filterMap _
    rw [get?_collect, get?_collect, Tally.counting_perm hReports]
    simp only [← List.length_eq_zero_iff, hReports.length_eq]
  exact congrArg mk hTallies

-- ---------------------------------------------------------------------------
-- Severities
-- ---------------------------------------------------------------------------

/-- The problem was reported, with a fact and a verdict. -/
def Reported (es : List Event) (p : Problem) (f : Fact) (v : Verdict) : Prop :=
  ∃ value state, Event.condition p value f v state ∈ es

theorem mem_reports_iff : (f, v) ∈ reports p es ↔ Reported es p f v := by
  rw [reports, List.mem_filterMap]
  constructor
  · rintro ⟨e, he, hReport⟩
    cases e with
    | condition q value g u state =>
      simp only [Event.reportOf?, Option.ite_none_right_eq_some, Option.some.injEq,
        Prod.mk.injEq] at hReport
      obtain ⟨rfl, rfl, rfl⟩ := hReport
      exact ⟨value, state, he⟩
    | _ => cases hReport
  · rintro ⟨value, state, hMem⟩
    exact ⟨_, hMem, if_pos rfl⟩

/-- A problem without a report has the severity of a tally without verdicts. -/
theorem severity?_collect :
    (collect es).severity? p = (Tally.counting p (reports p es)).severity? := by
  rw [severity?, get?_collect]
  split
  · rename_i hNone
    rw [hNone, Tally.counting_nil]
    rfl
  · rfl

theorem severity?_eq_definite_iff : (collect es).severity? p = some .definite ↔
    (∃ f v, Reported es p f v) ∧ ∀ f v, Reported es p f v → v = .alwaysFails := by
  rw [severity?_collect, Tally.severity?_eq_definite_iff]
  simp only [Tally.counting, List.countP_pos_iff, List.countP_eq_zero, decide_eq_true_eq,
    Prod.exists, Prod.forall, mem_reports_iff]
  constructor
  · rintro ⟨⟨f, v, hReported, -⟩, hNever, hUnsure⟩
    refine ⟨⟨f, v, hReported⟩, fun g u hg => ?_⟩
    cases u with
    | alwaysFails => rfl
    | neverFails => exact absurd rfl (hNever g _ hg)
    | unsure => exact absurd rfl (hUnsure g _ hg)
  · rintro ⟨⟨f, v, hReported⟩, hAlways⟩
    refine ⟨⟨f, v, hReported, hAlways f v hReported⟩, fun g u hg => ?_, fun g u hg => ?_⟩
    · rw [hAlways g u hg]
      decide
    · rw [hAlways g u hg]
      decide

theorem severity?_eq_none_iff : (collect es).severity? p = none ↔
    (∀ f, ¬ Reported es p f .alwaysFails) ∧
      (p.isNullness = true → ∀ f, Reported es p f .unsure → f.nullness ≠ .nullable) := by
  rw [severity?_collect, Tally.severity?_eq_none_iff]
  simp only [Tally.counting, Tally.isNullable, List.countP_eq_zero, Prod.forall, mem_reports_iff,
    Bool.and_eq_true, decide_eq_true_eq, beq_iff_eq]
  constructor
  · rintro ⟨hAlways, hNullable⟩
    exact ⟨fun f hf => hAlways f _ hf rfl, fun hNullness f hf hEq =>
      hNullable f _ hf ⟨rfl, hNullness, hEq⟩⟩
  · rintro ⟨hAlways, hNullable⟩
    refine ⟨fun f v hf hEq => ?_, fun f v hf h => ?_⟩
    · rw [hEq] at hf
      exact hAlways f hf
    · rw [h.1] at hf
      exact hNullable h.2.1 f hf h.2.2

theorem severity?_eq_possible_iff : (collect es).severity? p = some .possible ↔
    (collect es).severity? p ≠ some .definite ∧
      ((∃ f, Reported es p f .alwaysFails) ∨
        p.isNullness = true ∧ ∃ f, Reported es p f .unsure ∧ f.nullness = .nullable) := by
  have hSome : ((∃ f, Reported es p f .alwaysFails) ∨
      p.isNullness = true ∧ ∃ f, Reported es p f .unsure ∧ f.nullness = .nullable) ↔
      (collect es).severity? p ≠ none := by
    rw [Ne, severity?_eq_none_iff]
    simp only [not_and_or, not_forall, not_not, exists_prop]
  rw [hSome]
  cases (collect es).severity? p with
  | none => simp
  | some s => cases s <;> simp

-- ---------------------------------------------------------------------------
-- The problems that have a severity
-- ---------------------------------------------------------------------------

theorem mem_problems_iff : (p, s) ∈ t.problems ↔ t.severity? p = some s := by
  rw [problems, List.mem_filterMap]
  constructor
  · rintro ⟨q, -, hSeverity⟩
    obtain ⟨s', hSeverity, hEq⟩ := Option.map_eq_some_iff.mp hSeverity
    cases hEq
    exact hSeverity
  · intro hSeverity
    obtain ⟨tally, hTally, -⟩ := Option.bind_eq_some_iff.mp hSeverity
    exact ⟨p, OrdMap.mem_keys_iff.mpr (Option.isSome_of_eq_some hTally), by rw [hSeverity]; rfl⟩

/-- Problems are listed in their order, each of them once. -/
theorem ascending_problems : t.problems.Pairwise fun a b => compare a.1 b.1 = .lt := by
  have hKeys : t.tallies.keys.Pairwise fun p q => compare p q = .lt :=
    List.pairwise_map.mpr t.tallies.ascending
  refine hKeys.filterMap _ fun p q hLess a ha b hb => ?_
  obtain ⟨-, -, rfl⟩ := Option.map_eq_some_iff.mp ha
  obtain ⟨-, -, rfl⟩ := Option.map_eq_some_iff.mp hb
  exact hLess

/-- **What a collector answers** depends on what was reported and on nothing else. A problem is
definite if it was reported and always failed, possible if it is not and failed for certain at
some time, or may be one of a value declared to be nullable, and has no severity otherwise. -/
theorem severity_of_reports (es : List Event) :
    (∀ p, ((collect es).severity? p = some .definite ↔
        (∃ f v, Reported es p f v) ∧ ∀ f v, Reported es p f v → v = .alwaysFails) ∧
      ((collect es).severity? p = some .possible ↔
        (collect es).severity? p ≠ some .definite ∧
          ((∃ f, Reported es p f .alwaysFails) ∨
            p.isNullness = true ∧ ∃ f, Reported es p f .unsure ∧ f.nullness = .nullable)) ∧
      ((collect es).severity? p = none ↔
        (∀ f, ¬ Reported es p f .alwaysFails) ∧
          (p.isNullness = true → ∀ f, Reported es p f .unsure → f.nullness ≠ .nullable))) ∧
    (∀ p s, (p, s) ∈ (collect es).problems ↔ (collect es).severity? p = some s) ∧
    (collect es).problems.Pairwise (fun a b => compare a.1 b.1 = .lt) ∧
    ∀ es', es'.Perm es → collect es' = collect es :=
  ⟨fun _ => ⟨severity?_eq_definite_iff, severity?_eq_possible_iff, severity?_eq_none_iff⟩,
    fun _ _ => mem_problems_iff, ascending_problems, fun _ => collect_perm⟩

/-- Reports of four problems, and a branch between them. -/
def interleaved : List Event :=
  let report (p : Problem) (f : Fact) (v : Verdict) : Event := .condition p 0 f v .initial
  [report (.nullDereference 1) .unknownRef .unsure, report (.classCast 4) .notNull .alwaysFails,
    report (.arrayIndex 3) .nullable .alwaysFails, report (.nullDereference 2) .nullable .unsure,
    .jump 5 true, report (.arrayIndex 3) .nullable .neverFails,
    report (.classCast 4) .unknownRef .alwaysFails]

/-- **In the reverse order** all is the same: a cast that failed on two paths of two is definite, a
value that may be null is a problem if it is declared to be nullable, and an index that was wrong
on one path of two is listed as well. -/
theorem severity_of_reports_interleaved :
    collect interleaved.reverse = collect interleaved ∧
    (collect interleaved).severity? (.classCast 4) = some .definite ∧
    (collect interleaved).severity? (.nullDereference 1) = none ∧
    (.nullDereference 2, .possible) ∈ (collect interleaved).problems ∧
    (collect interleaved).problems =
      [(.nullDereference 2, .possible), (.arrayIndex 3, .possible), (.classCast 4, .definite)] := by
  obtain ⟨hSeverity, hProblems, -, hPerm⟩ := severity_of_reports interleaved
  refine ⟨hPerm _ interleaved.reverse_perm, ?_, ?_, ?_, by decide +kernel⟩
  · refine (hSeverity _).1.mpr ⟨⟨.notNull, .alwaysFails, 0, .initial, by simp [interleaved]⟩, ?_⟩
    have hReports : reports (.classCast 4) interleaved =
        [(.notNull, .alwaysFails), (.unknownRef, .alwaysFails)] := by decide +kernel
    intro f v hf
    rw [← mem_reports_iff, hReports] at hf
    simp only [List.mem_cons, List.not_mem_nil, Prod.mk.injEq, or_false] at hf
    exact hf.elim And.right And.right
  · refine (hSeverity _).2.2.mpr ⟨fun f hf => ?_, fun _ f hf => ?_⟩
    · simp [Reported, interleaved] at hf
    · have hUnknown : f = .unknownRef := by simpa [Reported, interleaved] using hf
      rw [hUnknown]
      decide
  · refine (hProblems _ _).mpr ((hSeverity _).2.1.mpr ⟨?_, Or.inr ⟨rfl, .nullable, ?_, rfl⟩⟩)
    · decide +kernel
    · exact ⟨0, .initial, by simp [interleaved]⟩

end Tallies

end Pathwise
