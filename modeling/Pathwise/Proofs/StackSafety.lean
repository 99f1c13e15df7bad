import Pathwise.Proofs.Depths
import Pathwise.Proofs.Edges
import Pathwise.Proofs.Rounds

/-!
# Faults of a flow that passed the check

The check of a flow finds the stack depth at each instruction, and a run keeps to it:
every queued state has the depth that the table has at its instruction
(`shaped_progress`). So an instruction finds the values that it is said to take, and
there is no fault.

That is not all of it: `ensure` reads a value that it is not said to take. The check lets
one pass that stands where the stack is empty, and such an `ensure` is the only fault that
a run can find.

## Results

* `visits_shaped`, `visits_depths`    — the stack depths of all visits.
* `Visit.Returns.mem_edges`           — what a visit returns takes an edge of the flow.
* `aborts_iff_ensure_on_empty_stack`  — exactly when a visit finds a fault.
-/

namespace Pathwise

open Step

/-- The visit is of an `ensure`, and there is no value that it could check. -/
def Visit.EnsuresNothing (flow : Flow) (v : Visit) : Prop :=
  (flow.get? v.index).any (·.isEnsure) = true ∧ v.state.stack = []

namespace Exploration

/-- Every queued state has the stack depth that the table has at its instruction. -/
def Shaped (flow : Flow) (known : OrdMap Nat Nat) (x : Exploration) : Prop :=
  ∀ i ∈ x.queue, i.index < flow.size → known.get? i.index = some i.state.depth

/-- A table that knows where each instruction that it knows leads. -/
def Closed (flow : Flow) (known : OrdMap Nat Nat) : Prop :=
  ∀ index depth, known.get? index = some depth → Flow.Settled flow known index

variable {ctx : Context} {flow : Flow} {cancelled : Nat → Bool} {known : OrdMap Nat Nat}
  {x y : Exploration} {i : Item}

-- ---------------------------------------------------------------------------
-- One visit
-- ---------------------------------------------------------------------------

/-- The item that is taken up has the depth of the table. -/
theorem shaped_turn (h : x.turn ctx flow cancelled = .performs i y)
    (hShaped : x.Shaped flow known) :
    known.get? i.index = some i.state.depth ∧ y.Shaped flow known := by
  obtain ⟨instr, hGet, hQueue, -⟩ := describes_of_turn h
  have hInside : i.index < flow.size := (Array.getElem?_eq_some_iff.mp hGet).1
  refine ⟨hShaped i (by rw [hQueue]; exact List.mem_cons_self) hInside, ?_⟩
  intro j hj
  exact hShaped j (by rw [hQueue]; exact List.mem_cons_of_mem _ hj)

/-- A visit with the depth of the table returns items that take an edge of the flow, unless
it ensures nothing. -/
theorem visit_leads (hHandler : ctx.handler = .usual) (hClosed : Closed flow known) (v : Visit)
    (hDepth : known.get? v.index = some v.state.depth) (hValue : ¬ v.EnsuresNothing flow) :
    ∃ instr items σ, flow.get? v.index = some instr ∧ v.result ctx flow = .ok items σ ∧
      Leads v.index v.state.depth instr items ∧
      ∀ e ∈ Flow.edges v.index v.state.depth instr,
        e.1 = flow.size ∨ known.get? e.1 = some e.2 := by
  obtain ⟨instr, depth, hGet, hKnown, hPops, hEdges⟩ := hClosed _ _ hDepth
  have hSame : depth = v.state.depth := by
    rw [hDepth] at hKnown
    exact (Option.some.inj hKnown).symm
  subst hSame
  have hEnsure : instr.isEnsure = true → v.state.stack ≠ [] := by
    intro hIs hEmpty
    exact hValue ⟨by rw [hGet]; exact hIs, hEmpty⟩
  have hYields : Yields (Step.perform ctx v.index v.state instr) v.session fun items _ =>
      Leads v.index v.state.depth instr items := yields_perform hHandler hPops hEnsure
  obtain ⟨items, σ, hPerform, hLeads⟩ := hYields
  refine ⟨instr, items, σ, hGet, ?_, hLeads, hEdges⟩
  rw [Visit.result, Step.visit, hGet]
  exact hPerform

/-- **A visit with the depth of the table** returns items with the depths of the table,
unless it ensures nothing. -/
theorem visit_shaped (hHandler : ctx.handler = .usual) (hClosed : Closed flow known) (v : Visit)
    (hDepth : known.get? v.index = some v.state.depth) (hValue : ¬ v.EnsuresNothing flow) :
    ∃ items σ, v.result ctx flow = .ok items σ ∧
      ∀ j ∈ items, j.index < flow.size → known.get? j.index = some j.state.depth := by
  obtain ⟨instr, items, σ, -, hResult, hLeads, hEdges⟩ :=
    visit_leads hHandler hClosed v hDepth hValue
  refine ⟨items, σ, hResult, ?_⟩
  intro j hj hInside
  rcases hEdges _ (hLeads j hj) with hEnd | hTarget
  · dsimp only at hEnd
    omega
  · exact hTarget

/-- **The one fault**: an `ensure` finds no value. -/
theorem result_ensuresNothing {v : Visit} (h : v.EnsuresNothing flow) :
    v.result ctx flow = .error (.stackUnderflow v.index) v.session := by
  obtain ⟨hEnsure, hEmpty⟩ := h
  cases hGet : flow.get? v.index with
  | none =>
    rw [hGet] at hEnsure
    cases hEnsure
  | some instr =>
    rw [hGet, Option.any_some] at hEnsure
    rw [Visit.result, Step.visit, hGet]
    exact perform_ensure_empty hEnsure hEmpty

-- ---------------------------------------------------------------------------
-- One round
-- ---------------------------------------------------------------------------

/-- A run that goes on keeps to the table. -/
theorem shaped_progress (hHandler : ctx.handler = .usual) (hClosed : Closed flow known)
    (hShaped : x.Shaped flow known)
    (h : (x.turn ctx flow cancelled).progress ctx flow = .going y) : y.Shaped flow known := by
  cases hTurn : x.turn ctx flow cancelled with
  | skips z =>
    obtain ⟨i, queue, hQueue, hRest, -⟩ := describes_of_turn hTurn
    rw [hTurn] at h
    cases h
    intro j hj
    rw [hRest] at hj
    exact hShaped j (by rw [hQueue]; exact List.mem_cons_of_mem _ hj)
  | stops outcome z =>
    rw [hTurn] at h
    cases h
  | performs i z =>
    obtain ⟨hDepth, hRest⟩ := shaped_turn hTurn hShaped
    rw [hTurn] at h
    by_cases hValue : (⟨i, z.session⟩ : Visit).EnsuresNothing flow
    · rw [progress_of_error (result_ensuresNothing hValue)] at h
      cases h
    · obtain ⟨items, σ, hResult, hItems⟩ :=
        visit_shaped hHandler hClosed ⟨i, z.session⟩ hDepth hValue
      rw [progress_of_ok hResult] at h
      cases h
      intro j hj hInside
      rw [queue_enqueue] at hj
      rcases List.mem_append.mp hj with hj | hj
      · exact hRest j hj hInside
      · obtain ⟨k, hk, rfl⟩ := List.mem_map.mp hj
        exact hItems k (List.mem_of_mem_filter hk) hInside

-- ---------------------------------------------------------------------------
-- Runs
-- ---------------------------------------------------------------------------

/-- **All visits keep to the table.** -/
theorem visits_shaped (hHandler : ctx.handler = .usual) (hClosed : Closed flow known)
    (n : Nat) (hShaped : x.Shaped flow known) :
    ∀ v ∈ x.visits ctx flow cancelled n, known.get? v.index = some v.state.depth := by
  induction n generalizing x with
  | zero => simp [visits]
  | succ n ih =>
    intro v hv
    rw [visits_succ, List.mem_append] at hv
    rcases hv with hv | hv
    · cases hTurn : x.turn ctx flow cancelled with
      | skips z => simp [hTurn, Turn.visit?] at hv
      | stops outcome z => simp [hTurn, Turn.visit?] at hv
      | performs i z =>
        simp only [hTurn, Turn.visit?, Option.toList_some, List.mem_singleton] at hv
        subst hv
        exact (shaped_turn hTurn hShaped).1
    · cases hProgress : (x.turn ctx flow cancelled).progress ctx flow with
      | going y =>
        rw [hProgress] at hv
        exact ih (shaped_progress hHandler hClosed hShaped hProgress) v hv
      | ended outcome y =>
        rw [hProgress] at hv
        cases hv

/-- A run that is not cancelled is aborted by a visit that ensures nothing, and by no
other. -/
theorem aborted_iff (hHandler : ctx.handler = .usual) (hClosed : Closed flow known)
    (hCancelled : ∀ k, cancelled k = false) {n : Nat} {outcome : Outcome}
    (hShaped : x.Shaped flow known) (hEnd : explore ctx flow cancelled n x = some (outcome, y)) :
    outcome = .aborted ↔ ∃ v ∈ x.visits ctx flow cancelled n, v.EnsuresNothing flow := by
  induction n generalizing x with
  | zero => cases hEnd
  | succ n ih =>
    rw [explore_succ] at hEnd
    rw [visits_succ]
    cases hTurn : x.turn ctx flow cancelled with
    | skips z =>
      have hProgress : (x.turn ctx flow cancelled).progress ctx flow = .going z := by
        rw [hTurn]
        rfl
      have hNext := shaped_progress hHandler hClosed hShaped hProgress
      rw [hTurn] at hEnd
      exact ih hNext hEnd
    | stops o z =>
      rw [hTurn] at hEnd
      cases hEnd
      simp only [Turn.visit?, Turn.progress, Option.toList_none, List.append_nil,
        List.not_mem_nil, false_and, exists_false, iff_false]
      -- a round that only stops is aborted by a cancellation alone
      rcases describes_of_turn hTurn with ⟨rfl, -⟩ | ⟨-, hStop⟩ | rfl
      · intro h
        cases h
      · rw [hCancelled] at hStop
        cases hStop
      · intro h
        cases h
    | performs i z =>
      rw [hTurn] at hEnd
      obtain ⟨hDepth, -⟩ := shaped_turn hTurn hShaped
      by_cases hValue : (⟨i, z.session⟩ : Visit).EnsuresNothing flow
      · rw [progress_of_error (result_ensuresNothing hValue)] at hEnd
        cases hEnd
        refine iff_of_true rfl ⟨⟨i, z.session⟩, ?_, hValue⟩
        exact List.mem_append_left _ (List.mem_singleton_self _)
      · obtain ⟨items, σ, hResult, -⟩ :=
          visit_shaped hHandler hClosed ⟨i, z.session⟩ hDepth hValue
        have hProgress := progress_of_ok hResult
        have hTurned := hProgress
        rw [← hTurn] at hTurned
        have hNext := shaped_progress hHandler hClosed hShaped hTurned
        rw [hProgress] at hEnd ⊢
        rw [ih hNext hEnd]
        -- the visit itself is not to blame, so one of the later ones is
        constructor
        · rintro ⟨v, hv, hNothing⟩
          exact ⟨v, List.mem_append_right _ hv, hNothing⟩
        · rintro ⟨v, hv, hNothing⟩
          rcases List.mem_append.mp hv with hv | hv
          · rw [List.mem_singleton.mp hv] at hNothing
            exact absurd hNothing hValue
          · exact ⟨v, hv, hNothing⟩

end Exploration

/-- **What a visit returns takes an edge** of the instruction that it performs. -/
theorem Visit.Returns.mem_edges {ctx : Context} {flow : Flow} {known : OrdMap Nat Nat} {v : Visit}
    {index : Nat} {s : State} (hHandler : ctx.handler = .usual)
    (hClosed : Exploration.Closed flow known) (hDepth : known.get? v.index = some v.state.depth)
    (h : v.Returns ctx flow index s) :
    ∃ instr, flow.get? v.index = some instr ∧
      (index, s.depth) ∈ Flow.edges v.index v.state.depth instr ∧
      (index = flow.size ∨ known.get? index = some s.depth) := by
  obtain ⟨items, σ, hResult, i, hi, rfl, rfl⟩ := h
  have hValue : ¬ v.EnsuresNothing flow := by
    intro hNothing
    rw [Exploration.result_ensuresNothing hNothing] at hResult
    cases hResult
  obtain ⟨instr, items', σ', hGet, hResult', hLeads, hEdges⟩ :=
    Exploration.visit_leads hHandler hClosed v hDepth hValue
  rw [hResult'] at hResult
  cases hResult
  exact ⟨instr, hGet, hLeads i hi, hEdges _ (hLeads i hi)⟩

-- ---------------------------------------------------------------------------
-- Analyses
-- ---------------------------------------------------------------------------

namespace Analysis

open Exploration

variable {ctx : Context} {cancelled : Nat → Bool} {rounds : Nat} {a : Arena} {flow : Flow}

theorem stack_entry {vs : List ValueId} {s t : State} (h : entry a vs s = .ok t) :
    t.stack = s.stack := by
  induction vs generalizing s with
  | nil =>
    cases h
    rfl
  | cons v vs ih =>
    unfold entry at h
    dsimp only at h
    split at h
    · rw [ih h, State.frame_meetFact.stack]
    · cases h

/-- A flow that passes the check has a closed table, and the first item keeps to it. -/
theorem exists_table (hValid : flow.validate = .ok ()) :
    ∃ known, flow.depths = .ok known ∧ Closed flow known ∧
      ∀ s, entry a flow.notNullParams .initial = .ok s →
        (beginning a flow s).Shaped flow known := by
  cases hDepths : flow.depths with
  | error e =>
    rw [Flow.validate, hDepths] at hValid
    cases hValid
  | ok known =>
    obtain ⟨hStart, hClosed⟩ := Flow.depths_closed hDepths
    refine ⟨known, rfl, hClosed, ?_⟩
    intro s hEntry i hi _
    rw [List.mem_singleton.mp hi]
    have hStack : s.stack = [] := stack_entry hEntry
    show known.get? 0 = some s.depth
    rw [hStart, State.depth, hStack, List.length_nil]

/-- The visits of an analysis keep to the table of its flow. -/
theorem visits_depths (hHandler : ctx.handler = .usual) (hValid : flow.validate = .ok ()) :
    ∃ known, Closed flow known ∧ ∀ cancelled rounds, ∀ v ∈ visits ctx cancelled rounds a flow,
      known.get? v.index = some v.state.depth := by
  obtain ⟨known, -, hClosed, hFirst⟩ := exists_table (a := a) hValid
  refine ⟨known, hClosed, ?_⟩
  intro cancelled rounds v hv
  rcases explores_or_ends ctx a flow with ⟨s, hBranches, -, hEntry⟩ | hAtOnce
  · rw [visits_eq_visits hBranches hValid hEntry] at hv
    exact visits_shaped hHandler hClosed rounds (hFirst s hEntry) v hv
  · obtain ⟨-, -, -, hNone⟩ := hAtOnce cancelled rounds
    rw [hNone] at hv
    cases hv

/-- **The faults of a flow that passed the check.** With the usual handler, a visit finds a
fault exactly if it is of an `ensure` and the stack is empty; the fault is an underflow at
this instruction. So a run that is not cancelled is aborted exactly if it comes to such a
visit. -/
theorem aborts_iff_ensure_on_empty_stack (hHandler : ctx.handler = .usual)
    (hValid : flow.validate = .ok ()) :
    (∀ v ∈ visits ctx cancelled rounds a flow, ∀ e σ,
      v.result ctx flow = .error e σ ↔
        v.EnsuresNothing flow ∧ e = .stackUnderflow v.index ∧ σ = v.session) ∧
    ∀ x, run ctx cancelled rounds a (some flow) = some x → (∀ n, cancelled n = false) →
      (x.outcome = .aborted ↔ ∃ v ∈ visits ctx cancelled rounds a flow, v.EnsuresNothing flow) := by
  constructor
  · obtain ⟨known, hClosed, hDepths⟩ := visits_depths (a := a) hHandler hValid
    intro v hv e σ
    have hDepth := hDepths cancelled rounds v hv
    constructor
    · intro hError
      by_cases hValue : v.EnsuresNothing flow
      · rw [result_ensuresNothing hValue] at hError
        cases hError
        exact ⟨hValue, rfl, rfl⟩
      · obtain ⟨items, τ, hResult, -⟩ := visit_shaped hHandler hClosed v hDepth hValue
        rw [hResult] at hError
        cases hError
    · rintro ⟨hValue, rfl, rfl⟩
      exact result_ensuresNothing hValue
  · intro x hRun hCancelled
    rcases explores_or_ends ctx a flow with ⟨s, hBranches, -, hEntry⟩ | hEnds
    · obtain ⟨known, -, hClosed, hFirst⟩ := exists_table (a := a) hValid
      rw [run_eq_explore hBranches hValid hEntry] at hRun
      rw [visits_eq_visits hBranches hValid hEntry]
      obtain ⟨⟨outcome, y⟩, hExplore, rfl⟩ := Option.map_eq_some_iff.mp hRun
      exact aborted_iff hHandler hClosed hCancelled (hFirst s hEntry) hExplore
    · -- the run is over at once, and a flow that passed the check is not to blame
      obtain ⟨y, hRun', hOutcome, hVisits⟩ := hEnds cancelled rounds
      rw [hRun'] at hRun
      cases hRun
      rw [hVisits]
      simp only [List.not_mem_nil, false_and, exists_false, iff_false]
      rcases hOutcome with hOk | hComplex | ⟨-, hInvalid⟩
      · simp [hOk]
      · simp [hComplex]
      · exact absurd hValid hInvalid

/-- An `ensure` at the very start: the flow passes the check and the run is aborted. -/
theorem aborts_at_first_ensure :
    ∃ x, run ⟨.usual, default, .usual⟩ (fun _ => false) 5 .new
        (some ⟨#[.ensure .eq (.bool true) none false none, .ret], []⟩) = some x ∧
      x.outcome = .aborted ∧
      ∃ v ∈ visits ⟨.usual, default, .usual⟩ (fun _ => false) 5 .new
          ⟨#[.ensure .eq (.bool true) none false none, .ret], []⟩,
        v.EnsuresNothing ⟨#[.ensure .eq (.bool true) none false none, .ret], []⟩ := by
  have hAborted : (run ⟨.usual, default, .usual⟩ (fun _ => false) 5 .new
      (some ⟨#[.ensure .eq (.bool true) none false none, .ret], []⟩)).map (·.outcome) =
        some .aborted := by decide +kernel
  obtain ⟨x, hRun, hOutcome⟩ := Option.map_eq_some_iff.mp hAborted
  have hValid : (⟨#[.ensure .eq (.bool true) none false none, .ret], []⟩ : Flow).validate =
      .ok () := by decide +kernel
  exact ⟨x, hRun, hOutcome,
    ((aborts_iff_ensure_on_empty_stack rfl hValid).2 x hRun fun _ => rfl).mp hOutcome⟩

end Analysis

end Pathwise
