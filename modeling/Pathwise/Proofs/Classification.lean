import Pathwise.Proofs.Exhaustive
import Pathwise.Proofs.Isolation
import Pathwise.Proofs.Recording

/-!
# Branches whose outcome never varies

The record of outcomes only grows, so at the end of a run it covers the outcomes of every
visit: an instruction that was found always to be true has had no other outcome on any path
that is evidence.

`Visit.outcomes` says which outcome each item of a visit has: for a conditional jump which
way was taken, for any other instruction what is known of the value that it has pushed.

## Results

* `covers_outcomes`              — the record after a visit covers the outcomes of the visit.
* `grown_of_explore`             — the record at the end of a run covers those of all visits.
* `constant_branches_never_vary` — what an analysis tells of branches that never vary.
-/

namespace Pathwise

-- ---------------------------------------------------------------------------
-- The outcomes of a visit
-- ---------------------------------------------------------------------------

open Step

/-- The items that a visit returns, with their outcomes: of a conditional jump whether it was
taken, and of any other instruction that has an outcome the known boolean of the value that
it has pushed. -/
def Visit.outcomes (ctx : Context) (flow : Flow) (v : Visit) : List (Item × Option Bool) :=
  match flow.get? v.index, v.result ctx flow with
  | some (.branch target negated _), .ok _ _ =>
    [true, false].flatMap fun taken =>
      (branchItem? v.session.arena v.index target negated v.state taken).toList.map (·, some taken)
  | some i, .ok items τ =>
    if i.hasOutcome then items.map fun it => (it, topOutcome τ.arena it.state) else []
  | _, _ => []

variable {ctx : Context} {flow : Flow} {v : Visit} {items : List Item} {τ : Session}
  {i : Instr}

/-- **The outcomes of a visit are recorded**, but for those of ephemeral items. They are
outcomes of all its items. -/
theorem covers_outcomes (hGet : flow.get? v.index = some i) (hOutcome : i.hasOutcome = true)
    (hResult : v.result ctx flow = .ok items τ) :
    Session.Later v.index v.session τ ∧ (v.outcomes ctx flow).map (·.1) = items ∧
      ∀ p ∈ v.outcomes ctx flow, p.1.state.isEphemeral = false →
        (τ.record.outcomesAt v.index).Covers p.2 := by
  have hPerform : perform ctx v.index v.state i v.session = .ok items τ := by
    rw [Visit.result, Step.visit, hGet] at hResult
    exact hResult
  -- what has pushed a value is treated alike
  have hPushed : Shown v.index v.session items τ →
      v.outcomes ctx flow = items.map (fun it => (it, topOutcome τ.arena it.state)) →
      Session.Later v.index v.session τ ∧ (v.outcomes ctx flow).map (·.1) = items ∧
        ∀ p ∈ v.outcomes ctx flow, p.1.state.isEphemeral = false →
          (τ.record.outcomesAt v.index).Covers p.2 := by
    intro hShown hOutcomes
    rw [hOutcomes]
    refine ⟨hShown.1, ?_, fun p hp => ?_⟩
    · rw [List.map_map]
      exact List.map_id items
    · obtain ⟨it, hit, rfl⟩ := List.mem_map.mp hp
      exact hShown.2 it hit
  cases i with
  | branch target negated anchor =>
    obtain ⟨hLater, rfl, hCovers⟩ := branch_ways hPerform
    have hOutcomes : v.outcomes ctx flow = [true, false].flatMap fun taken =>
        (branchItem? v.session.arena v.index target negated v.state taken).toList.map
          (·, some taken) := by
      rw [Visit.outcomes, hGet, hResult]
    rw [hOutcomes]
    refine ⟨hLater, ?_, fun p hp => ?_⟩
    · simp only [List.flatMap_cons, List.flatMap_nil, List.append_nil, List.map_append,
        List.map_map]
      exact congrArg₂ (· ++ ·) (List.map_id _) (List.map_id _)
    · obtain ⟨taken, -, hp⟩ := List.mem_flatMap.mp hp
      obtain ⟨it, hit, rfl⟩ := List.mem_map.mp hp
      exact hCovers taken it hit
  | not anchor =>
    exact hPushed (shown_not hPerform) (by rw [Visit.outcomes, hGet, hResult]; rfl)
  | boolean op anchor =>
    exact hPushed (shown_boolean hPerform) (by rw [Visit.outcomes, hGet, hResult]; rfl)
  | instanceOf isClassObject anchor =>
    exact hPushed (shown_instanceOf hPerform) (by rw [Visit.outcomes, hGet, hResult]; rfl)
  | _ => cases hOutcome

-- ---------------------------------------------------------------------------
-- Runs
-- ---------------------------------------------------------------------------

/-- The record has grown by outcomes of instructions of the flow that have one. -/
structure Record.Grown (flow : Flow) (r r' : Record) : Prop where
  outcomes : ∀ j, (r.outcomesAt j).Within (r'.outcomesAt j)
  found    : ∀ j, (r'.reach.get? j).isSome = true →
    (r.reach.get? j).isSome = true ∨ (flow.get? j).any (·.hasOutcome) = true

namespace Record.Grown

variable {r r' r'' : Record}

theorem congr (h : r'.reach = r.reach) : Grown flow r r' := by
  constructor
  · intro j
    rw [outcomesAt, outcomesAt, h]
    exact .refl _
  · intro j hj
    rw [h] at hj
    exact Or.inl hj

theorem trans (h : Grown flow r r') (h' : Grown flow r' r'') : Grown flow r r'' := by
  refine ⟨fun j => (h.outcomes j).trans (h'.outcomes j), fun j hj => ?_⟩
  rcases h'.found j hj with hOld | hNew
  · exact h.found j hOld
  · exact Or.inr hNew

end Record.Grown

/-- A visit records outcomes of its own instruction only, if that has any. -/
theorem grown_of_visit (hHandler : ctx.handler = .usual)
    (hResult : v.result ctx flow = .ok items τ) :
    Record.Grown flow v.session.record τ.record := by
  cases hGet : flow.get? v.index with
  | none =>
    rw [Visit.result, Step.visit, hGet] at hResult
    cases hResult
    exact .congr rfl
  | some i =>
    cases hOutcome : i.hasOutcome with
    | false =>
      rw [Visit.result, Step.visit, hGet] at hResult
      exact .congr ((confined_perform hHandler (Or.inr hOutcome)).of_ok hResult).1
    | true =>
      obtain ⟨hLater, -, -⟩ := covers_outcomes hGet hOutcome hResult
      constructor
      · intro j
        by_cases hj : j = v.index
        · rw [hj]
          exact hLater.outcomes
        · rw [Record.outcomesAt, Record.outcomesAt, hLater.others j hj]
          exact .refl _
      · intro j hj
        by_cases hIndex : j = v.index
        · refine Or.inr ?_
          rw [hIndex, hGet]
          exact hOutcome
        · rw [hLater.others j hIndex] at hj
          exact Or.inl hj

namespace Exploration

variable {cancelled : Nat → Bool} {x y : Exploration}

/-- The run as a turn leaves it, before a visit. -/
def Turn.left : Turn → Exploration
  | skips y | stops _ y | performs _ y => y

/-- A turn adds to the log at most. -/
theorem record_turn (ctx : Context) (flow : Flow) (cancelled : Nat → Bool) (x : Exploration) :
    (x.turn ctx flow cancelled).left.session.record = x.session.record := by
  obtain ⟨queue, seen, σ⟩ := x
  cases queue with
  | nil => rfl
  | cons i queue =>
    simp only [turn]
    split
    · rfl
    · cases flow.get? i.index with
      | none => rfl
      | some instr =>
        dsimp only
        split
        · rfl
        · split
          · rfl
          · split <;> rfl

/-- **The record at the end of a run has grown from those after all its visits**, which have
returned. -/
theorem grown_of_explore (hHandler : ctx.handler = .usual) {n : Nat}
    (h : explore ctx flow cancelled n x = some (.ok, y)) :
    Record.Grown flow x.session.record y.session.record ∧
      ∀ v ∈ x.visits ctx flow cancelled n, ∃ items τ, v.result ctx flow = .ok items τ ∧
        Record.Grown flow τ.record y.session.record := by
  induction n generalizing x with
  | zero => cases h
  | succ n ih =>
    rw [explore_succ] at h
    rw [visits_succ]
    have hSame := record_turn ctx flow cancelled x
    cases hTurn : x.turn ctx flow cancelled with
    | skips z =>
      rw [hTurn] at h hSame
      rw [← hSame]
      exact ih h
    | stops outcome z =>
      rw [hTurn] at h hSame
      cases h
      exact ⟨.congr (congrArg Record.reach hSame), nofun⟩
    | performs i z =>
      rw [hTurn] at h hSame
      cases hResult : (⟨i, z.session⟩ : Visit).result ctx flow with
      | error e σ =>
        rw [progress_of_error hResult] at h
        cases h
      | ok items σ =>
        rw [progress_of_ok hResult] at h ⊢
        obtain ⟨hAfter, hVisits⟩ := ih h
        have hVisit : Record.Grown flow z.session.record σ.record := grown_of_visit hHandler hResult
        refine ⟨hSame ▸ hVisit.trans hAfter, fun v hv => ?_⟩
        rcases List.mem_append.mp hv with hFirst | hLater
        · rw [List.mem_singleton.mp hFirst]
          exact ⟨items, σ, hResult, hAfter⟩
        · exact hVisits v hLater

end Exploration

-- ---------------------------------------------------------------------------
-- Analyses
-- ---------------------------------------------------------------------------

namespace Analysis

variable {cancelled : Nat → Bool} {rounds : Nat} {a : Arena} {x : Analysis} {index : Nat}

theorem mem_indicesReaching {r : Record} {reach : Reach} :
    index ∈ indicesReaching flow r reach ↔
      r.reach.get? index = some reach ∧ ((flow.get? index).bind (·.anchor?)).isSome = true := by
  rw [indicesReaching, OrdSet.mem_ofList, List.mem_map]
  constructor
  · rintro ⟨⟨j, found⟩, hMem, rfl⟩
    obtain ⟨hEntry, hKept⟩ := List.mem_filter.mp hMem
    rw [Bool.and_eq_true, decide_eq_true_iff] at hKept
    exact ⟨hKept.1 ▸ OrdMap.mem_entries_iff.mp hEntry, hKept.2⟩
  · rintro ⟨hReach, hAnchor⟩
    refine ⟨(index, reach), List.mem_filter.mpr ⟨OrdMap.mem_entries_iff.mpr hReach, ?_⟩, rfl⟩
    rw [Bool.and_eq_true, decide_eq_true_iff]
    exact ⟨rfl, hAnchor⟩

/-- **The record of an analysis that ends as `ok`** has grown from an empty one, and from
those after all its visits, which have returned. -/
theorem grown_of_run (hHandler : ctx.handler = .usual)
    (hRun : run ctx cancelled rounds a (some flow) = some x) (hOk : x.outcome = .ok) :
    x.flow = some flow ∧ Record.Grown flow .empty x.session.record ∧
      ∀ v ∈ visits ctx cancelled rounds a flow, ∃ items τ, v.result ctx flow = .ok items τ ∧
        Record.Grown flow τ.record x.session.record := by
  obtain ⟨hBranches, hValid⟩ := explores_of_ok hRun hOk
  cases hEntry : entry a flow.notNullParams .initial with
  | error v =>
    -- a parameter contradicts its declaration, and nothing is explored
    have hVisits : visits ctx cancelled rounds a flow = [] := by
      rw [visits, if_neg (by omega), hValid, hEntry]
    rw [run, if_neg (by omega), hValid] at hRun
    dsimp only at hRun
    rw [explore, show (logging (Session.start a) (.analyzing flow)).arena = a from rfl,
      hEntry] at hRun
    cases hRun
    refine ⟨rfl, .congr rfl, ?_⟩
    rw [hVisits]
    exact fun _ hv => absurd hv List.not_mem_nil
  | ok s =>
    rw [run_eq_explore hBranches hValid hEntry, Option.map_eq_some_iff] at hRun
    obtain ⟨⟨outcome, y⟩, hExplore, rfl⟩ := hRun
    cases hOk
    rw [visits_eq_visits hBranches hValid hEntry]
    exact ⟨rfl, Exploration.grown_of_explore hHandler hExplore⟩

/-- The instruction at an index branches and has a place in the source, and no item that came
out of its visits had another outcome than `b`, unless it is ephemeral. -/
structure Always (ctx : Context) (flow : Flow) (vs : List Visit) (index : Nat) (b : Bool) :
    Prop where
  anchored : ∃ i, flow.get? index = some i ∧ i.isBranching = true ∧ i.hasOutcome = true ∧
    i.anchor?.isSome = true
  outcomes : ∀ v ∈ vs, v.index = index → ∃ items τ, v.result ctx flow = .ok items τ ∧
    (v.outcomes ctx flow).map (·.1) = items ∧
    ∀ p ∈ v.outcomes ctx flow, p.1.state.isEphemeral = false → p.2 = some b

/-- Where only one outcome was recorded, no visit had another. -/
theorem always_of_mem (hHandler : ctx.handler = .usual)
    (hRun : run ctx cancelled rounds a (some flow) = some x) (hOk : x.outcome = .ok) {b : Bool}
    (hMem : index ∈ indicesReaching flow x.session.record ⟨b, !b⟩) :
    Always ctx flow (visits ctx cancelled rounds a flow) index b := by
  obtain ⟨-, hFromEmpty, hVisits⟩ := grown_of_run hHandler hRun hOk
  obtain ⟨hReach, hAnchor⟩ := mem_indicesReaching.mp hMem
  obtain ⟨i, hGet, hPlace⟩ : ∃ i, flow.get? index = some i ∧ i.anchor?.isSome = true := by
    cases hGet : flow.get? index with
    | none =>
      rw [hGet] at hAnchor
      cases hAnchor
    | some i =>
      rw [hGet] at hAnchor
      exact ⟨i, rfl, hAnchor⟩
  have hOutcome : i.hasOutcome = true := by
    rcases hFromEmpty.found index (by rw [hReach]; rfl) with hOld | hNew
    · cases hOld
    · rwa [hGet] at hNew
  have hBranching : i.isBranching = true := by
    cases i with
    | branch | not | boolean | instanceOf => rfl
    | _ => cases hOutcome
  refine ⟨⟨i, hGet, hBranching, hOutcome, hPlace⟩, fun v hv hIndex => ?_⟩
  obtain ⟨items, τ, hResult, hGrown⟩ := hVisits v hv
  subst hIndex
  obtain ⟨-, hItems, hCovers⟩ := covers_outcomes hGet hOutcome hResult
  refine ⟨items, τ, hResult, hItems, fun p hp hReal => ?_⟩
  -- what the visit has recorded is still in the record at the end
  have hEnd := (hCovers p hp hReal).mono (hGrown.outcomes v.index)
  rw [Record.outcomesAt, hReach] at hEnd
  exact Reach.eq_some_of_covers hEnd

/-- **Branches whose outcome never varies.** With the usual handler,

* an ephemeral state returns only ephemeral items, whatever instruction it visits, and leaves
  no outcome in the record, also where the visit finds a fault;
* so if an analysis that ends as `ok` tells that a branch is always true, every item that came
  out of its visits is ephemeral or had the outcome true; likewise for false;
* and it never tells both of one branch. -/
theorem constant_branches_never_vary (hHandler : ctx.handler = .usual) :
    (∀ index s i σ, s.isEphemeral = true →
      (∀ items τ, perform ctx index s i σ = .ok items τ →
        τ.record.reach = σ.record.reach ∧ ∀ it ∈ items, it.state.isEphemeral = true) ∧
      ∀ e τ, perform ctx index s i σ = .error e τ → τ.record.reach = σ.record.reach) ∧
    ∀ cancelled rounds a flow x, run ctx cancelled rounds a (some flow) = some x →
      x.outcome = .ok →
      (∀ index ∈ x.constantBranches.alwaysTrue,
        Always ctx flow (visits ctx cancelled rounds a flow) index true) ∧
      (∀ index ∈ x.constantBranches.alwaysFalse,
        Always ctx flow (visits ctx cancelled rounds a flow) index false) ∧
      ∀ index ∈ x.constantBranches.alwaysTrue, index ∉ x.constantBranches.alwaysFalse := by
  constructor
  · intro index s i σ hs
    have hConfined : Confined (perform ctx index s i) (AllEphemeralIf (s.isEphemeral = true)) :=
      confined_perform hHandler (Or.inl hs)
    refine ⟨fun items τ hOk => ?_, fun e τ hError => hConfined.of_error hError⟩
    obtain ⟨hReach, hItems⟩ := hConfined.of_ok hOk
    exact ⟨hReach, fun it hit => hItems it hit hs⟩
  · intro cancelled rounds a flow x hRun hOk
    obtain ⟨hFlow, -, -⟩ := grown_of_run hHandler hRun hOk
    have hConstant : x.constantBranches =
        ⟨indicesReaching flow x.session.record ⟨true, false⟩,
          indicesReaching flow x.session.record ⟨false, true⟩⟩ := by
      rw [constantBranches, hOk, hFlow]
    rw [hConstant]
    refine ⟨fun index h => always_of_mem hHandler hRun hOk h,
      fun index h => always_of_mem hHandler hRun hOk h, fun index hTrue hFalse => ?_⟩
    obtain ⟨hReach, -⟩ := mem_indicesReaching.mp hTrue
    obtain ⟨hReach', -⟩ := mem_indicesReaching.mp hFalse
    rw [hReach] at hReach'
    cases hReach'

/-- A string of which it is not known whether it may be null is tested to be a string. The
test fails for null only, which is no evidence, so it is found always to be true. -/
theorem string_test_never_varies :
    let ctx : Context := ⟨.usual, default, .usual⟩
    let a : Arena := ⟨#[.unknown, .var ⟨.parameter "x" 0, none, .ofType .string .unknown⟩,
      .typed (.ofType .string .notNull)]⟩
    let flow : Flow :=
      ⟨#[.push 1 none, .push 2 none, .instanceOf false (some 7), .pop, .ret], []⟩
    ((visits ctx (fun _ => false) 20 a flow).map fun v =>
        (v.outcomes ctx flow).map fun p => (p.1.state.isEphemeral, p.2)) =
        [[], [], [(false, some true), (true, some false)], [], [], [], []] ∧
      ∃ x, run ctx (fun _ => false) 20 a (some flow) = some x ∧
        Always ctx flow (visits ctx (fun _ => false) 20 a flow) 2 true := by
  intro ctx a flow
  have hEvaluated : (run ctx (fun _ => false) 20 a (some flow)).map
      (fun x => (x.outcome, x.constantBranches.alwaysTrue.toList)) = some (.ok, [2]) := by
    decide +kernel
  obtain ⟨x, hRun, hFound⟩ := Option.map_eq_some_iff.mp hEvaluated
  obtain ⟨hOk, hTrue⟩ := Prod.mk.inj hFound
  refine ⟨by decide +kernel, x, hRun, ?_⟩
  refine ((constant_branches_never_vary rfl).2 _ 20 a flow x hRun hOk).1 2 ?_
  rw [OrdSet.mem_def, hTrue]
  exact List.mem_singleton_self 2

end Analysis

end Pathwise
