import Mathlib.Tactic.Common
import Pathwise.Run.Analysis

/-!
# Rounds and visits

A round takes the first queued item and may perform its instruction; that is a
*visit*. `Exploration.turn` splits a round at this point: what is decided about the
item first, and what the visit makes of it then (`round_eq_turn`). All that a turn can
do is said once (`turn_describes`), so that later proofs never open a round again.

`Exploration.visits` lists the visits of a run in order, and `Analysis.visits` those
of an analysis.

## Results

* `round_eq_turn`       — a round is its turn, followed by the visit if there is one.
* `turn_describes`      — all that a turn can do.
* `turn_of_new`, `new_of_turn` — a new state at a branching instruction, and the cap.
* `seenAt_performs`     — what a visit adds to the states that are remembered.
* `explore_succ`        — a run by its first turn.
* `run_eq_explore`      — an analysis that explores, as a run.
-/

namespace Pathwise

/-- An instruction being performed: the item that is taken up, and the session that
it finds. -/
structure Visit where
  item : Item
  session : Session

namespace Visit

/-- The instruction that is performed stands here. -/
def index (v : Visit) : Nat := v.item.index

/-- The state in which the instruction is performed. -/
def state (v : Visit) : State := v.item.state

/-- What the visit returns: the items that come out, or a fault. -/
def result (ctx : Context) (flow : Flow) (v : Visit) :
    EStateM.Result FlowError Session (List Item) :=
  Step.visit ctx flow v.index v.state v.session

/-- Whether a visit returns an item, its distance apart. -/
def Returns (ctx : Context) (flow : Flow) (v : Visit) (index : Nat) (s : State) : Prop :=
  ∃ items σ, v.result ctx flow = .ok items σ ∧ ∃ i ∈ items, i.index = index ∧ i.state = s

end Visit

namespace Exploration

/-- What a round decides about the first queued item. -/
inductive Turn where
  /-- The item is dropped and the run goes on. -/
  | skips (x : Exploration)
  /-- The run has ended. -/
  | stops (outcome : Outcome) (x : Exploration)
  /-- The instruction of the item is performed. -/
  | performs (i : Item) (x : Exploration)

/-- What the next round decides about the first queued item. -/
def turn (ctx : Context) (flow : Flow) (cancelled : Nat → Bool) (x : Exploration) : Turn :=
  match x.queue with
  | [] => .stops .ok x
  | i :: queue =>
    if cancelled x.session.events.size then
      .stops .aborted (x.logging (.cancelled (queue.length + 1)))
    else
      match flow.get? i.index with
      | none => .skips { x with queue := queue }
      | some instr =>
        let x := { x with queue := queue }.logging (.visiting i.index instr i.state)
        let seen := x.seenAt i.index
        if !instr.isBranching then .performs i x
        else if seen.contains i.state then .skips x
        else if ctx.config.maxStatesPerBranch < seen.length then
          .stops .tooComplex (x.logging (.tooManyStates ctx.config.maxStatesPerBranch i.index))
        else .performs i { x with seen := x.seen.insert i.index (i.state :: seen) }

/-- What comes of a turn. -/
def Turn.progress (ctx : Context) (flow : Flow) : Turn → Progress
  | skips x => .going x
  | stops outcome x => .ended outcome x
  | performs i x => x.perform ctx flow i

/-- The visit of a turn, if there is one. -/
def Turn.visit? : Turn → Option Visit
  | performs i x => some ⟨i, x.session⟩
  | _ => none

/-- The visits of at most `n` rounds, in their order. -/
def visits (ctx : Context) (flow : Flow) (cancelled : Nat → Bool) :
    Nat → Exploration → List Visit
  | 0, _ => []
  | n + 1, x =>
    (x.turn ctx flow cancelled).visit?.toList ++
      match x.round ctx flow cancelled with
      | .going y => y.visits ctx flow cancelled n
      | .ended _ _ => []

variable {ctx : Context} {flow : Flow} {cancelled : Nat → Bool} {x y : Exploration} {i j : Item}

-- ---------------------------------------------------------------------------
-- One round
-- ---------------------------------------------------------------------------

/-- **A round is its turn**, followed by the visit if there is one. -/
theorem round_eq_turn (x : Exploration) :
    x.round ctx flow cancelled = (x.turn ctx flow cancelled).progress ctx flow := by
  obtain ⟨queue, seen, σ⟩ := x
  cases queue with
  | nil => rfl
  | cons i queue =>
    simp only [round, turn]
    split
    · rfl
    · simp only [takeUp]
      cases flow.get? i.index with
      | none => rfl
      | some instr =>
        dsimp only
        cases hBranching : instr.isBranching with
        | false => simp [Turn.progress]
        | true =>
          simp only [performNew, if_true, Bool.not_true, Bool.false_eq_true, if_false]
          split
          · rfl
          · split <;> rfl

/-- A visit that returns items queues those that are not explored. -/
theorem progress_of_ok {items : List Item} {σ : Session}
    (h : (⟨i, y.session⟩ : Visit).result ctx flow = .ok items σ) :
    (Turn.performs i y).progress ctx flow =
      .going (enqueue { y with session := σ } flow (i.distance + 1) items) := by
  have hVisit : Step.visit ctx flow i.index i.state y.session = .ok items σ := h
  rw [Turn.progress, perform, hVisit]

/-- A visit that finds a fault aborts the run. -/
theorem progress_of_error {e : FlowError} {σ : Session}
    (h : (⟨i, y.session⟩ : Visit).result ctx flow = .error e σ) :
    (Turn.performs i y).progress ctx flow =
      .ended .aborted (logging { y with session := σ } (.analysisAborted e)) := by
  have hVisit : Step.visit ctx flow i.index i.state y.session = .error e σ := h
  rw [Turn.progress, perform, hVisit]

theorem isExplored_iff {x : Exploration} {i : Item} :
    x.isExplored flow i = true ↔ flow.branchesAt i.index = true ∧ i.state ∈ x.seenAt i.index := by
  simp [isExplored]

theorem branchesAt_of_get? {index : Nat} {instr : Instr} (h : flow.get? index = some instr) :
    flow.branchesAt index = instr.isBranching := by
  simp [Flow.branchesAt, h]

/-- What a turn takes up, and why.

* It skips an item past the end, or one that is explored.
* It stops when the queue is empty, when the run is cancelled, or at an instruction at
  which too many states were explored.
* It performs the instruction of the first item. A state at a branching instruction is
  new there and is remembered. -/
def Turn.Describes (ctx : Context) (flow : Flow) (cancelled : Nat → Bool) (x : Exploration) :
    Turn → Prop
  | skips y =>
    ∃ i queue, x.queue = i :: queue ∧ y.queue = queue ∧ y.seen = x.seen ∧
      (flow.get? i.index = none ∨ x.isExplored flow i = true)
  | stops outcome _ =>
    (outcome = .ok ∧ x.queue = []) ∨
      (outcome = .aborted ∧ cancelled x.session.events.size = true) ∨ outcome = .tooComplex
  | performs i y =>
    ∃ instr, flow.get? i.index = some instr ∧ x.queue = i :: y.queue ∧
      ((instr.isBranching = false ∧ y.seen = x.seen) ∨
        (instr.isBranching = true ∧ i.state ∉ x.seenAt i.index ∧
          (x.seenAt i.index).length ≤ ctx.config.maxStatesPerBranch ∧
          y.seen = x.seen.insert i.index (i.state :: x.seenAt i.index)))

/-- **All that a turn can do.** -/
theorem turn_describes :
    (x.turn ctx flow cancelled).Describes ctx flow cancelled x := by
  obtain ⟨queue, seen, σ⟩ := x
  cases queue with
  | nil => exact Or.inl ⟨rfl, rfl⟩
  | cons i queue =>
    simp only [turn]
    split
    · rename_i hCancelled
      exact Or.inr (Or.inl ⟨rfl, hCancelled⟩)
    · cases hGet : flow.get? i.index with
      | none => exact ⟨i, queue, rfl, rfl, rfl, Or.inl hGet⟩
      | some instr =>
        dsimp only
        split
        · rename_i hQuiet
          exact ⟨instr, hGet, rfl, Or.inl ⟨by simpa using hQuiet, rfl⟩⟩
        · rename_i hBranching
          have hBranching : instr.isBranching = true := by simpa using hBranching
          split
          · rename_i hSeen
            refine ⟨i, queue, rfl, rfl, rfl, Or.inr (isExplored_iff.mpr ⟨?_, ?_⟩)⟩
            · rw [branchesAt_of_get? hGet, hBranching]
            · simpa [logging, seenAt] using hSeen
          · rename_i hNew
            split
            · exact Or.inr (Or.inr rfl)
            · rename_i hLength
              refine ⟨instr, hGet, rfl, Or.inr ⟨hBranching, ?_, ?_, rfl⟩⟩
              · simpa [logging, seenAt] using hNew
              · simpa [logging, seenAt] using hLength

theorem describes_of_turn {t : Turn} (h : x.turn ctx flow cancelled = t) :
    t.Describes ctx flow cancelled x :=
  h ▸ turn_describes

/-- **A new state at a branching instruction** is taken up unless too many were explored there. -/
theorem turn_of_new {queue : List Item} (hQueue : x.queue = i :: queue)
    (hGoing : cancelled x.session.events.size = false)
    (hBranches : flow.branchesAt i.index = true) (hNew : i.state ∉ x.seenAt i.index) :
    ∃ y z, x.turn ctx flow cancelled =
      if ctx.config.maxStatesPerBranch < (x.seenAt i.index).length then .stops .tooComplex y
      else .performs i z := by
  obtain ⟨instr, hGet, hBranching⟩ := (Option.any_eq_true _ _).mp hBranches
  have hContains : (x.seenAt i.index).contains i.state = false := by simpa using hNew
  rw [seenAt] at hContains ⊢
  simp only [turn, hQueue, hGoing, Bool.false_eq_true, if_false, hGet, hBranching, Bool.not_true,
    logging, seenAt, hContains]
  exact ⟨_, _, rfl⟩

/-- A run is too complex only where a new state comes to a branching instruction at which too many
were explored. -/
theorem new_of_turn (h : x.turn ctx flow cancelled = .stops .tooComplex y) :
    ∃ i queue, x.queue = i :: queue ∧ cancelled x.session.events.size = false ∧
      flow.branchesAt i.index = true ∧ i.state ∉ x.seenAt i.index ∧
      ctx.config.maxStatesPerBranch < (x.seenAt i.index).length := by
  obtain ⟨queue, seen, σ⟩ := x
  cases queue with
  | nil => cases h
  | cons i queue =>
    simp only [turn] at h
    split at h
    · cases h
    · rename_i hGoing
      cases hGet : flow.get? i.index with
      | none =>
        rw [hGet] at h
        cases h
      | some instr =>
        rw [hGet] at h
        dsimp only at h
        split at h
        · cases h
        · rename_i hBranching
          split at h
          · cases h
          · rename_i hNew
            split at h
            · rename_i hMany
              refine ⟨i, queue, rfl, by simpa using hGoing, ?_, ?_, hMany⟩
              · rw [branchesAt_of_get? hGet]
                simpa using hBranching
              · simpa [logging, seenAt] using hNew
            · cases h

theorem seenAt_of_insert {index k : Nat} {states : List State}
    (h : y.seen = x.seen.insert index states) :
    y.seenAt k = if index = k then states else x.seenAt k := by
  rw [seenAt, h, OrdMap.get?_insert]
  split <;> rfl

/-- **What a visit adds** to the states that are remembered at a branching instruction. -/
theorem seenAt_performs {index : Nat} (hBranches : flow.branchesAt index = true)
    (h : x.turn ctx flow cancelled = .performs i y) :
    y.seenAt index = if i.index = index then i.state :: x.seenAt index else x.seenAt index := by
  obtain ⟨instr, hGet, -, ⟨hQuiet, hSeen⟩ | ⟨-, -, -, hSeen⟩⟩ := describes_of_turn h
  · have hElsewhere : i.index ≠ index := by
      rintro rfl
      rw [branchesAt_of_get? hGet, hQuiet] at hBranches
      cases hBranches
    rw [if_neg hElsewhere, seenAt, seenAt, hSeen]
  · rw [seenAt_of_insert hSeen]
    split
    · rename_i hHere
      rw [hHere]
    · rfl

/-- A visit adds its own state to those that are remembered, if the instruction is
branching, and nothing else. -/
theorem isExplored_performs (h : x.turn ctx flow cancelled = .performs i y) :
    y.isExplored flow j = true ↔ x.isExplored flow j = true ∨
      (flow.branchesAt j.index = true ∧ j.index = i.index ∧ j.state = i.state) := by
  obtain ⟨instr, hGet, -, ⟨hBranching, hSeen⟩ | ⟨-, -, -, hSeen⟩⟩ := describes_of_turn h
  · have hAt : y.seenAt j.index = x.seenAt j.index := by rw [seenAt, seenAt, hSeen]
    rw [isExplored_iff, isExplored_iff, hAt]
    constructor
    · exact Or.inl
    · rintro (hOld | ⟨hBranches, hIndex, -⟩)
      · exact hOld
      · rw [hIndex, branchesAt_of_get? hGet, hBranching] at hBranches
        cases hBranches
  · rw [isExplored_iff, isExplored_iff, seenAt_of_insert hSeen]
    by_cases hIndex : i.index = j.index
    · rw [if_pos hIndex, List.mem_cons, ← hIndex]
      tauto
    · have hIndex' : j.index ≠ i.index := fun h => hIndex h.symm
      rw [if_neg hIndex]
      tauto

/-- A visit finds a state that is not remembered. -/
theorem not_isExplored_performs (h : x.turn ctx flow cancelled = .performs i y) :
    x.isExplored flow i = false := by
  obtain ⟨instr, hGet, -, ⟨hBranching, -⟩ | ⟨-, hNew, -, -⟩⟩ := describes_of_turn h
  · simp [isExplored, branchesAt_of_get? hGet, hBranching]
  · rw [← Bool.not_eq_true, isExplored_iff]
    exact fun hOld => hNew hOld.2

/-- What comes out of a visit is queued, unless it is explored. -/
theorem queue_enqueue (x : Exploration) (distance : Nat) (items : List Item) :
    (x.enqueue flow distance items).queue =
      x.queue ++ (items.filter fun i => !x.isExplored flow i).map fun i =>
        { i with distance := distance } := rfl

/-- Queueing leaves alone what is remembered. -/
@[simp] theorem isExplored_enqueue (x : Exploration) (distance : Nat) (items : List Item) :
    (x.enqueue flow distance items).isExplored flow j = x.isExplored flow j := rfl

@[simp] theorem isExplored_session (x : Exploration) (σ : Session) :
    ({ x with session := σ } : Exploration).isExplored flow j = x.isExplored flow j := rfl

-- ---------------------------------------------------------------------------
-- Runs
-- ---------------------------------------------------------------------------

/-- A run by its first turn. -/
theorem explore_succ (n : Nat) (x : Exploration) :
    explore ctx flow cancelled (n + 1) x =
      match (x.turn ctx flow cancelled).progress ctx flow with
      | .going y => explore ctx flow cancelled n y
      | .ended outcome y => some (outcome, y) := by
  cases hProgress : (x.turn ctx flow cancelled).progress ctx flow with
  | going y => simp only [explore, round_eq_turn, hProgress]
  | ended outcome y => simp only [explore, round_eq_turn, hProgress]

/-- The visits of a run by its first turn. -/
theorem visits_succ (n : Nat) (x : Exploration) :
    x.visits ctx flow cancelled (n + 1) =
      (x.turn ctx flow cancelled).visit?.toList ++
        match (x.turn ctx flow cancelled).progress ctx flow with
        | .going y => y.visits ctx flow cancelled n
        | .ended _ _ => [] := by
  rw [visits, round_eq_turn]

/-- There is at most one visit a round. -/
theorem length_visits_le (n : Nat) (x : Exploration) :
    (x.visits ctx flow cancelled n).length ≤ n := by
  induction n generalizing x with
  | zero => simp [visits]
  | succ n ih =>
    have hFirst : (x.turn ctx flow cancelled).visit?.toList.length ≤ 1 := by
      cases (x.turn ctx flow cancelled).visit? <;> simp
    rw [visits, List.length_append]
    cases x.round ctx flow cancelled with
    | going y =>
      have := ih y
      dsimp only
      omega
    | ended outcome y =>
      simp only [List.length_nil]
      omega

/-- A run that has ended makes no more visits in more rounds. -/
theorem visits_eq_of_explore {n m : Nat} {outcome : Outcome}
    (hEnd : explore ctx flow cancelled n x = some (outcome, y)) (hLe : n ≤ m) :
    x.visits ctx flow cancelled m = x.visits ctx flow cancelled n := by
  induction n generalizing x m with
  | zero => cases hEnd
  | succ n ih =>
    obtain ⟨k, rfl⟩ : ∃ k, m = k + 1 := ⟨m - 1, by omega⟩
    rw [explore] at hEnd
    rw [visits, visits]
    cases hRound : x.round ctx flow cancelled with
    | going z =>
      rw [hRound] at hEnd
      dsimp only at hEnd ⊢
      rw [ih hEnd (by omega)]
    | ended outcome z => rfl

/-- Fewer rounds make the first of the visits. -/
theorem visits_prefix {n m : Nat} (hLe : n ≤ m) (x : Exploration) :
    x.visits ctx flow cancelled n <+: x.visits ctx flow cancelled m := by
  induction n generalizing x m with
  | zero => exact List.nil_prefix
  | succ n ih =>
    obtain ⟨k, rfl⟩ : ∃ k, m = k + 1 := ⟨m - 1, by omega⟩
    rw [visits, visits]
    refine (List.prefix_append_right_inj _).mpr ?_
    cases x.round ctx flow cancelled with
    | going y => exact ih (by omega) y
    | ended outcome y => exact List.prefix_rfl

end Exploration

-- ---------------------------------------------------------------------------
-- Analyses
-- ---------------------------------------------------------------------------

namespace Analysis

/-- The run of an analysis that explores its flow, before the first round. -/
def beginning (a : Arena) (flow : Flow) (s : State) : Exploration :=
  .start s (logging (.start a) (.analyzing flow))

/-- The visits of an analysis in at most the given number of rounds. A flow that has
too many branching instructions or is not well shaped is not explored, nor is one of
which a parameter contradicts its declaration. -/
def visits (ctx : Context) (cancelled : Nat → Bool) (rounds : Nat) (a : Arena) (flow : Flow) :
    List Visit :=
  if ctx.config.maxBranches < flow.branchCount then []
  else
    match flow.validate, entry a flow.notNullParams .initial with
    | .ok _, .ok s => (beginning a flow s).visits ctx flow cancelled rounds
    | _, _ => []

variable {ctx : Context} {cancelled : Nat → Bool} {rounds : Nat} {a : Arena} {flow : Flow}

/-- An analysis that explores is the run from its beginning. -/
theorem run_eq_explore {s : State} (hBranches : flow.branchCount ≤ ctx.config.maxBranches)
    (hShape : flow.validate = .ok ()) (hEntry : entry a flow.notNullParams .initial = .ok s) :
    run ctx cancelled rounds a (some flow) =
      (Exploration.explore ctx flow cancelled rounds (beginning a flow s)).map fun r =>
        ⟨r.1, some flow, r.2.session⟩ := by
  rw [run, if_neg (by omega), hShape]
  dsimp only
  rw [explore, show (logging (Session.start a) (.analyzing flow)).arena = a from rfl, hEntry]
  rfl

/-- The visits of an analysis that explores are those of the run from its beginning. -/
theorem visits_eq_visits {s : State} (hBranches : flow.branchCount ≤ ctx.config.maxBranches)
    (hShape : flow.validate = .ok ()) (hEntry : entry a flow.notNullParams .initial = .ok s) :
    visits ctx cancelled rounds a flow =
      (beginning a flow s).visits ctx flow cancelled rounds := by
  rw [visits, if_neg (by omega), hShape, hEntry]

/-- An analysis explores its flow, or ends at once and makes no visit. -/
theorem explores_or_ends (ctx : Context) (a : Arena) (flow : Flow) :
    (∃ s, flow.branchCount ≤ ctx.config.maxBranches ∧ flow.validate = .ok () ∧
      entry a flow.notNullParams .initial = .ok s) ∨
    (∀ cancelled rounds, ∃ x, run ctx cancelled rounds a (some flow) = some x ∧
      (x.outcome = .ok ∨ (x.outcome = .tooComplex ∧ ctx.config.maxBranches < flow.branchCount) ∨
        x.outcome = .aborted ∧ flow.validate ≠ .ok ()) ∧
      visits ctx cancelled rounds a flow = []) := by
  by_cases hBranches : ctx.config.maxBranches < flow.branchCount
  · refine Or.inr fun cancelled rounds =>
      ⟨_, by rw [run, if_pos hBranches], by simp [hBranches], ?_⟩
    rw [visits, if_pos hBranches]
  · cases hShape : flow.validate with
    | error e =>
      refine Or.inr fun cancelled rounds => ⟨_, by rw [run, if_neg hBranches, hShape],
        by simp, ?_⟩
      rw [visits, if_neg hBranches, hShape]
    | ok u =>
      cases hEntry : entry a flow.notNullParams .initial with
      | error v =>
        let σ := logging (.start a) (.analyzing flow)
        refine Or.inr fun cancelled rounds =>
          ⟨⟨.ok, some flow, logging σ (.paramAlwaysNull v)⟩, ?_, by simp, ?_⟩
        · rw [run, if_neg hBranches, hShape]
          dsimp only
          rw [explore, show (logging (Session.start a) (.analyzing flow)).arena = a from rfl,
            hEntry]
        · rw [visits, if_neg hBranches, hShape, hEntry]
      | ok s => exact Or.inl ⟨s, by omega, rfl, rfl⟩

/-- An analysis that ends as `ok` had a flow within the bounds and well shaped. -/
theorem explores_of_ok {x : Analysis} (hRun : run ctx cancelled rounds a (some flow) = some x)
    (hOk : x.outcome = .ok) :
    flow.branchCount ≤ ctx.config.maxBranches ∧ flow.validate = .ok () := by
  by_cases hBranches : ctx.config.maxBranches < flow.branchCount
  · rw [run, if_pos hBranches] at hRun
    cases hRun
    cases hOk
  · cases hShape : flow.validate with
    | error e =>
      rw [run, if_neg hBranches, hShape] at hRun
      cases hRun
      cases hOk
    | ok u => exact ⟨by omega, rfl⟩

end Analysis

/-- A well-shaped flow has a first instruction. -/
theorem Flow.size_pos_of_validate {flow : Flow} (h : flow.validate = .ok ()) : 0 < flow.size := by
  by_contra hEmpty
  rw [validate, depths, if_pos (by omega)] at h
  cases h

end Pathwise
