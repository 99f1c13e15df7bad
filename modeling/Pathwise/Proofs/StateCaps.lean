import Pathwise.Proofs.Queues

/-!
# The cap on states

Of the states that come to a branching instruction each one is performed once, as the ones that
were performed are remembered. They are also counted, and a run is cut off where there are too
many. The count is taken before a state is added, and a run is cut off only if the count *exceeds*
the limit. So one state more is performed than the limit says, and it is the one after that which
ends the run.

What is remembered at an instruction is what the visits there were made with, in the opposite order
(`seenAt_after`), so that the cap holds of the visits.

## Results

* `Exploration.capped_visits` — the states at a branching instruction are distinct and capped.
* `Exploration.seenAt_after`  — the states that are remembered are those of the visits.
* `Analysis.states_capped`    — **how many states are performed, and when a run is cut off**.
* `Analysis.cap_is_exceeded`  — a run with more states than the limit that ends as `ok`.
-/

namespace Pathwise

namespace Exploration

variable {ctx : Context} {flow : Flow} {cancelled : Nat → Bool} {x y z : Exploration} {i : Item}
  {index n m : Nat}

-- ---------------------------------------------------------------------------
-- Rounds in a row
-- ---------------------------------------------------------------------------

/-- A run that goes on is the run of the rounds to come. -/
theorem explore_after (h : x.after ctx flow cancelled n = some y) :
    explore ctx flow cancelled (n + m) x = explore ctx flow cancelled m y := by
  induction n generalizing x with
  | zero =>
    cases h
    rw [Nat.zero_add]
  | succ n ih =>
    obtain ⟨z, hProgress, hAfter⟩ := after_succ h
    rw [Nat.add_right_comm, explore_succ, hProgress]
    exact ih hAfter

/-- The visits of a run that goes on are followed by those to come. -/
theorem visits_after (h : x.after ctx flow cancelled n = some y) :
    x.visits ctx flow cancelled (n + m) =
      x.visits ctx flow cancelled n ++ y.visits ctx flow cancelled m := by
  induction n generalizing x with
  | zero =>
    cases h
    rw [Nat.zero_add]
    rfl
  | succ n ih =>
    obtain ⟨z, hProgress, hAfter⟩ := after_succ h
    rw [Nat.add_right_comm, visits_succ, visits_succ, hProgress, List.append_assoc]
    exact congrArg _ (ih hAfter)

theorem visits_one : x.visits ctx flow cancelled 1 = (x.turn ctx flow cancelled).visit?.toList := by
  rw [visits_succ]
  cases (x.turn ctx flow cancelled).progress ctx flow <;> exact List.append_nil _

/-- A run that has ended did so in a round. -/
theorem exists_last_round {outcome : Outcome}
    (h : explore ctx flow cancelled n x = some (outcome, z)) :
    ∃ k y, k < n ∧ x.after ctx flow cancelled k = some y ∧
      (y.turn ctx flow cancelled).progress ctx flow = .ended outcome z := by
  induction n generalizing x with
  | zero => cases h
  | succ n ih =>
    rw [explore_succ] at h
    cases hProgress : (x.turn ctx flow cancelled).progress ctx flow with
    | going y =>
      rw [hProgress] at h
      obtain ⟨k, u, hk, hAfter, hLast⟩ := ih h
      refine ⟨k + 1, u, Nat.succ_lt_succ hk, ?_, hLast⟩
      rw [after, round_eq_turn, hProgress]
      exact hAfter
    | ended outcome y =>
      rw [hProgress] at h
      cases h
      exact ⟨0, x, Nat.succ_pos n, rfl, hProgress⟩

/-- Only a turn that stops a run makes it too complex. -/
theorem turn_eq_of_tooComplex
    (h : (x.turn ctx flow cancelled).progress ctx flow = .ended .tooComplex z) :
    x.turn ctx flow cancelled = .stops .tooComplex z := by
  cases hTurn : x.turn ctx flow cancelled with
  | skips y =>
    rw [hTurn] at h
    cases h
  | stops outcome y =>
    rw [hTurn] at h
    cases h
    rfl
  | performs i y =>
    rw [hTurn] at h
    cases hResult : (⟨i, y.session⟩ : Visit).result ctx flow with
    | error e σ =>
      rw [progress_of_error hResult] at h
      cases h
    | ok items σ =>
      rw [progress_of_ok hResult] at h
      cases h

-- ---------------------------------------------------------------------------
-- States at an instruction
-- ---------------------------------------------------------------------------

/-- The states in which visits perform an instruction. -/
def statesAt (index : Nat) (vs : List Visit) : List State :=
  (vs.filter (·.index == index)).map (·.state)

theorem length_statesAt {vs : List Visit} :
    (statesAt index vs).length = vs.countP (·.index == index) := by
  rw [statesAt, List.length_map, List.countP_eq_length_filter]

theorem statesAt_append {vs ws : List Visit} :
    statesAt index (vs ++ ws) = statesAt index vs ++ statesAt index ws := by
  rw [statesAt, List.filter_append, List.map_append]
  rfl

/-- The states are distinct, and no more than the limit and one. -/
def Capped (ctx : Context) (states : List State) : Prop :=
  states.Nodup ∧ states.length ≤ ctx.config.maxStatesPerBranch + 1

theorem capped_reverse {states : List State} : Capped ctx states.reverse ↔ Capped ctx states := by
  rw [Capped, List.nodup_reverse, List.length_reverse]
  rfl

/-- **A visit adds its state** to those that are remembered in its place. -/
theorem remembered_performs {σ : Session} (hBranches : flow.branchesAt index = true)
    (h : x.turn ctx flow cancelled = .performs i y) :
    (y.seenAt index).reverse = (x.seenAt index).reverse ++ statesAt index [⟨i, σ⟩] := by
  rw [seenAt_performs hBranches h]
  by_cases hHere : i.index = index
  · rw [if_pos hHere, List.reverse_cons]
    simp [statesAt, Visit.index, Visit.state, hHere]
  · rw [if_neg hHere]
    simp [statesAt, Visit.index, hHere]

/-- **A visit keeps the cap.** -/
theorem capped_performs (hBranches : flow.branchesAt index = true)
    (h : x.turn ctx flow cancelled = .performs i y) (hCapped : Capped ctx (x.seenAt index)) :
    Capped ctx (y.seenAt index) := by
  rw [seenAt_performs hBranches h]
  split
  · rename_i hHere
    obtain ⟨instr, hGet, -, ⟨hQuiet, -⟩ | ⟨-, hNew, hFew, -⟩⟩ := describes_of_turn h
    · rw [← hHere, branchesAt_of_get? hGet, hQuiet] at hBranches
      cases hBranches
    · rw [hHere] at hNew hFew
      exact ⟨List.nodup_cons.mpr ⟨hNew, hCapped.1⟩, Nat.succ_le_succ hFew⟩
  · exact hCapped

/-- **The states at a branching instruction are distinct and capped**, those that are remembered
and those of the visits to come. -/
theorem capped_visits (hBranches : flow.branchesAt index = true) (n : Nat)
    (hCapped : Capped ctx (x.seenAt index)) :
    Capped ctx ((x.seenAt index).reverse ++ statesAt index (x.visits ctx flow cancelled n)) := by
  have hRemembered : ∀ {u : Exploration}, Capped ctx (u.seenAt index) →
      Capped ctx ((u.seenAt index).reverse ++ statesAt index []) := by
    intro u hu
    rw [show statesAt index [] = [] from rfl, List.append_nil]
    exact capped_reverse.mpr hu
  induction n generalizing x with
  | zero => exact hRemembered hCapped
  | succ n ih =>
    rw [visits_succ]
    cases hTurn : x.turn ctx flow cancelled with
    | skips y =>
      obtain ⟨-, -, -, -, hSeen, -⟩ := describes_of_turn hTurn
      have hSame : x.seenAt index = y.seenAt index := by rw [seenAt, seenAt, hSeen]
      rw [hSame] at hCapped ⊢
      exact ih hCapped
    | stops outcome y => exact hRemembered hCapped
    | performs i y =>
      have hNext := capped_performs hBranches hTurn hCapped
      have hVisit : (Turn.performs i y).visit?.toList = [⟨i, y.session⟩] := rfl
      rw [hVisit, statesAt_append, ← List.append_assoc, ← remembered_performs hBranches hTurn]
      cases hResult : (⟨i, y.session⟩ : Visit).result ctx flow with
      | error e σ =>
        rw [progress_of_error hResult]
        exact hRemembered hNext
      | ok items σ =>
        rw [progress_of_ok hResult]
        exact ih (x := enqueue { y with session := σ } flow (i.distance + 1) items) hNext

/-- **The states that are remembered** at a branching instruction are those of the visits. -/
theorem seenAt_after (hBranches : flow.branchesAt index = true)
    (h : x.after ctx flow cancelled n = some y) :
    (y.seenAt index).reverse =
      (x.seenAt index).reverse ++ statesAt index (x.visits ctx flow cancelled n) := by
  induction n generalizing x with
  | zero =>
    cases h
    exact (List.append_nil _).symm
  | succ n ih =>
    obtain ⟨z, hProgress, hAfter⟩ := after_succ h
    rw [visits_succ, hProgress, statesAt_append, ← List.append_assoc, ih hAfter]
    congr 1
    cases hTurn : x.turn ctx flow cancelled with
    | skips u =>
      obtain ⟨-, -, -, -, hSeen, -⟩ := describes_of_turn hTurn
      rw [hTurn] at hProgress
      cases hProgress
      rw [seenAt, seenAt, hSeen]
      exact (List.append_nil _).symm
    | stops outcome u =>
      rw [hTurn] at hProgress
      cases hProgress
    | performs i u =>
      rw [hTurn] at hProgress
      cases hResult : (⟨i, u.session⟩ : Visit).result ctx flow with
      | error e σ =>
        rw [progress_of_error hResult] at hProgress
        cases hProgress
      | ok items σ =>
        rw [progress_of_ok hResult] at hProgress
        cases hProgress
        show (u.seenAt index).reverse = _
        exact remembered_performs hBranches hTurn

end Exploration

-- ---------------------------------------------------------------------------
-- Analyses
-- ---------------------------------------------------------------------------

namespace Analysis

open Exploration

/-- An analysis that explores its flow, after the given number of rounds if it has not ended by
then. -/
def stage (ctx : Context) (cancelled : Nat → Bool) (rounds : Nat) (a : Arena) (flow : Flow) :
    Option Exploration :=
  if ctx.config.maxBranches < flow.branchCount then none
  else
    match flow.validate, entry a flow.notNullParams .initial with
    | .ok _, .ok s => (beginning a flow s).after ctx flow cancelled rounds
    | _, _ => none

/-- The states in which an instruction is performed within the given number of rounds. -/
def dispatched (ctx : Context) (cancelled : Nat → Bool) (rounds : Nat) (a : Arena) (flow : Flow)
    (index : Nat) : List State :=
  statesAt index (visits ctx cancelled rounds a flow)

/-- **A state arrives** at an instruction after the given number of rounds: it is the first in the
queue, and the run is not cancelled. -/
def Arrives (ctx : Context) (cancelled : Nat → Bool) (rounds : Nat) (a : Arena) (flow : Flow)
    (index : Nat) (s : State) : Prop :=
  ∃ x i, stage ctx cancelled rounds a flow = some x ∧ x.queue.head? = some i ∧
    cancelled x.session.events.size = false ∧ i.index = index ∧ i.state = s

variable {ctx : Context} {cancelled : Nat → Bool} {a : Arena} {flow : Flow} {y : Exploration}
  {index rounds : Nat} {s : State}

theorem exists_of_stage (h : stage ctx cancelled rounds a flow = some y) :
    ∃ s, flow.branchCount ≤ ctx.config.maxBranches ∧ flow.validate = .ok () ∧
      entry a flow.notNullParams .initial = .ok s ∧
      (beginning a flow s).after ctx flow cancelled rounds = some y := by
  rw [stage] at h
  split at h
  · cases h
  · rename_i hFew
    split at h
    · rename_i s hValid hEntry
      exact ⟨s, Nat.le_of_not_lt hFew, hValid, hEntry, h⟩
    · cases h

theorem stage_eq (hFew : flow.branchCount ≤ ctx.config.maxBranches)
    (hValid : flow.validate = .ok ()) (hEntry : entry a flow.notNullParams .initial = .ok s) :
    stage ctx cancelled rounds a flow = (beginning a flow s).after ctx flow cancelled rounds := by
  rw [stage, if_neg (Nat.not_lt.mpr hFew), hValid, hEntry]

/-- **The states at a branching instruction are distinct and capped** at all times. -/
theorem capped_dispatched (hBranches : flow.branchesAt index = true) :
    Capped ctx (dispatched ctx cancelled rounds a flow index) := by
  rw [dispatched]
  rcases explores_or_ends ctx a flow with ⟨s, hFew, hValid, hEntry⟩ | hAtOnce
  · rw [visits_eq_visits hFew hValid hEntry]
    exact capped_visits (x := beginning a flow s) hBranches rounds ⟨List.nodup_nil, Nat.zero_le _⟩
  · obtain ⟨-, -, -, hNone⟩ := hAtOnce cancelled rounds
    rw [hNone]
    exact ⟨List.nodup_nil, Nat.zero_le _⟩

/-- What is remembered after some rounds is what was performed in them. -/
theorem dispatched_eq (hBranches : flow.branchesAt index = true)
    (h : stage ctx cancelled rounds a flow = some y) :
    dispatched ctx cancelled rounds a flow index = (y.seenAt index).reverse := by
  obtain ⟨s, hFew, hValid, hEntry, hAfter⟩ := exists_of_stage h
  rw [dispatched, visits_eq_visits hFew hValid hEntry]
  exact (seenAt_after hBranches hAfter).symm

theorem dispatched_succ (h : stage ctx cancelled rounds a flow = some y) :
    dispatched ctx cancelled (rounds + 1) a flow index =
      dispatched ctx cancelled rounds a flow index ++
        statesAt index (y.turn ctx flow cancelled).visit?.toList := by
  obtain ⟨s, hFew, hValid, hEntry, hAfter⟩ := exists_of_stage h
  rw [dispatched, dispatched, visits_eq_visits hFew hValid hEntry,
    visits_eq_visits hFew hValid hEntry, visits_after hAfter, statesAt_append, visits_one]

/-- An analysis of a flow that has not too many branching instructions is too complex only if it
explores. -/
theorem explores_of_tooComplex {x : Analysis}
    (hFew : flow.branchCount ≤ ctx.config.maxBranches)
    (hRun : run ctx cancelled rounds a (some flow) = some x) (hOutcome : x.outcome = .tooComplex) :
    flow.validate = .ok () ∧ ∃ s, entry a flow.notNullParams .initial = .ok s := by
  rcases explores_or_ends ctx a flow with ⟨s, -, hValid, hEntry⟩ | hAtOnce
  · exact ⟨hValid, s, hEntry⟩
  · obtain ⟨y, hSame, hEnd, -⟩ := hAtOnce cancelled rounds
    cases hSame.symm.trans hRun
    rcases hEnd with hOk | ⟨-, hMany⟩ | ⟨hAborted, -⟩
    · cases hOutcome.symm.trans hOk
    · exact absurd hFew (Nat.not_le.mpr hMany)
    · cases hOutcome.symm.trans hAborted

/-- What becomes of a new state that arrives depends on the number of states until then. -/
theorem turn_of_arrives (hBranches : flow.branchesAt index = true)
    (hArrives : Arrives ctx cancelled rounds a flow index s)
    (hNew : s ∉ dispatched ctx cancelled rounds a flow index) :
    ∃ x i y z, stage ctx cancelled rounds a flow = some x ∧ i.index = index ∧ i.state = s ∧
      x.turn ctx flow cancelled =
        if ctx.config.maxStatesPerBranch <
          (dispatched ctx cancelled rounds a flow index).length then .stops .tooComplex y
        else .performs i z := by
  obtain ⟨x, i, hStage, hHead, hGoing, rfl, rfl⟩ := hArrives
  obtain ⟨queue, hQueue⟩ := List.head?_eq_some_iff.mp hHead
  rw [dispatched_eq hBranches hStage] at hNew ⊢
  rw [List.mem_reverse] at hNew
  rw [List.length_reverse]
  obtain ⟨y, z, hTurn⟩ := turn_of_new hQueue hGoing hBranches hNew
  exact ⟨x, i, y, z, hStage, rfl, rfl, hTurn⟩

/-- **A new state is performed** if the states until then are within the limit. -/
theorem dispatched_of_arrives (hBranches : flow.branchesAt index = true)
    (hArrives : Arrives ctx cancelled rounds a flow index s)
    (hNew : s ∉ dispatched ctx cancelled rounds a flow index)
    (hFew : (dispatched ctx cancelled rounds a flow index).length ≤
      ctx.config.maxStatesPerBranch) :
    dispatched ctx cancelled (rounds + 1) a flow index =
      dispatched ctx cancelled rounds a flow index ++ [s] := by
  obtain ⟨x, i, y, z, hStage, rfl, rfl, hTurn⟩ := turn_of_arrives hBranches hArrives hNew
  rw [if_neg (Nat.not_lt.mpr hFew)] at hTurn
  rw [dispatched_succ hStage, hTurn]
  simp [Turn.visit?, statesAt, Visit.index, Visit.state]

/-- **A new state ends the run** if the states until then exceed the limit. -/
theorem tooComplex_of_arrives (hBranches : flow.branchesAt index = true)
    (hArrives : Arrives ctx cancelled rounds a flow index s)
    (hNew : s ∉ dispatched ctx cancelled rounds a flow index)
    (hMany : ctx.config.maxStatesPerBranch <
      (dispatched ctx cancelled rounds a flow index).length) (more : Nat) :
    (run ctx cancelled (rounds + 1 + more) a (some flow)).map (·.outcome) =
      some .tooComplex := by
  obtain ⟨x, i, y, z, hStage, -, -, hTurn⟩ := turn_of_arrives hBranches hArrives hNew
  obtain ⟨t, hFew, hValid, hEntry, hAfter⟩ := exists_of_stage hStage
  rw [if_pos hMany] at hTurn
  rw [run_eq_explore hFew hValid hEntry, Nat.add_assoc, explore_after hAfter,
    Nat.add_comm 1 more, explore_succ, hTurn]
  rfl

/-- **A run that is too complex**, though its branching instructions are not too many, has met a
new state where the states until then were one more than the limit. -/
theorem exists_arrives_of_tooComplex (hFew : flow.branchCount ≤ ctx.config.maxBranches)
    (hEnd : (run ctx cancelled rounds a (some flow)).map (·.outcome) = some .tooComplex) :
    ∃ index earlier s, earlier < rounds ∧ flow.branchesAt index = true ∧
      Arrives ctx cancelled earlier a flow index s ∧
      s ∉ dispatched ctx cancelled earlier a flow index ∧
      (dispatched ctx cancelled earlier a flow index).length =
        ctx.config.maxStatesPerBranch + 1 := by
  obtain ⟨r, hRun, hOutcome⟩ := Option.map_eq_some_iff.mp hEnd
  obtain ⟨hValid, t, hEntry⟩ := explores_of_tooComplex hFew hRun hOutcome
  rw [run_eq_explore hFew hValid hEntry, Option.map_eq_some_iff] at hRun
  obtain ⟨⟨outcome, z⟩, hExplore, rfl⟩ := hRun
  cases hOutcome
  obtain ⟨earlier, x, hEarlier, hAfter, hLast⟩ := exists_last_round hExplore
  obtain ⟨i, queue, hQueue, hGoing, hBranches, hNew, hMany⟩ :=
    new_of_turn (turn_eq_of_tooComplex hLast)
  have hStage : stage ctx cancelled earlier a flow = some x :=
    (stage_eq hFew hValid hEntry).trans hAfter
  have hCapped : Capped ctx (dispatched ctx cancelled earlier a flow i.index) :=
    capped_dispatched hBranches
  rw [← List.mem_reverse, ← dispatched_eq hBranches hStage] at hNew
  rw [← List.length_reverse, ← dispatched_eq hBranches hStage] at hMany
  exact ⟨i.index, earlier, i.state, hEarlier, hBranches,
    ⟨x, i, hStage, by rw [hQueue]; rfl, hGoing, rfl, rfl⟩, hNew,
    Nat.le_antisymm hCapped.2 hMany⟩

/-- **How many states are performed at a branching instruction**, and when a run is cut off. At
all times the states are distinct, and no more than the limit and one. A new state that arrives is
performed in the next round if the states until then are no more than the limit. If they are one
more the run ends as too complex, however many rounds it is given. And where a run of a flow that
has not too many branching instructions ends so, that is what has happened. -/
theorem states_capped (ctx : Context) (cancelled : Nat → Bool) (a : Arena) (flow : Flow) :
    (∀ index rounds, flow.branchesAt index = true →
      (dispatched ctx cancelled rounds a flow index).Nodup ∧
        (dispatched ctx cancelled rounds a flow index).length ≤
          ctx.config.maxStatesPerBranch + 1) ∧
    (∀ index rounds s, flow.branchesAt index = true →
      Arrives ctx cancelled rounds a flow index s →
      s ∉ dispatched ctx cancelled rounds a flow index →
        ((dispatched ctx cancelled rounds a flow index).length ≤ ctx.config.maxStatesPerBranch →
          dispatched ctx cancelled (rounds + 1) a flow index =
            dispatched ctx cancelled rounds a flow index ++ [s]) ∧
        ((dispatched ctx cancelled rounds a flow index).length =
            ctx.config.maxStatesPerBranch + 1 →
          ∀ more, (run ctx cancelled (rounds + 1 + more) a (some flow)).map (·.outcome) =
            some .tooComplex)) ∧
    ∀ rounds, flow.branchCount ≤ ctx.config.maxBranches →
      (run ctx cancelled rounds a (some flow)).map (·.outcome) = some .tooComplex →
      ∃ index earlier s, earlier < rounds ∧ flow.branchesAt index = true ∧
        Arrives ctx cancelled earlier a flow index s ∧
        s ∉ dispatched ctx cancelled earlier a flow index ∧
        (dispatched ctx cancelled earlier a flow index).length =
          ctx.config.maxStatesPerBranch + 1 := by
  refine ⟨fun index rounds hBranches => capped_dispatched hBranches, ?_,
    fun rounds hFew hEnd => exists_arrives_of_tooComplex hFew hEnd⟩
  intro index rounds s hBranches hArrives hNew
  refine ⟨dispatched_of_arrives hBranches hArrives hNew, fun hMany more => ?_⟩
  exact tooComplex_of_arrives hBranches hArrives hNew (hMany ▸ Nat.lt_succ_self _) more

/-- A boolean that is not known. -/
def flagArena : Arena := ⟨#[.unknown, .var ⟨.localVar "b" false, none, .bool none⟩]⟩

/-- Two tests of a boolean. The second one is met in two states, which the first one tells apart. -/
def twoTests : Flow :=
  ⟨#[.push 1 none, .branch 2 true none, .push 1 none, .branch 4 true none, .ret], []⟩

/-- No state is allowed, one is performed, and the second one ends the run. -/
theorem states_capped_twoTests :
    let ctx : Context := ⟨{ Config.usual with maxStatesPerBranch := 0 }, default, .usual⟩
    (dispatched ctx (fun _ => false) 20 flagArena twoTests 3).length ≤ 1 ∧
      (∃ s, Arrives ctx (fun _ => false) 5 flagArena twoTests 3 s ∧
        ∀ more, (run ctx (fun _ => false) (6 + more) flagArena (some twoTests)).map (·.outcome) =
          some .tooComplex) ∧
      ∃ index earlier s, earlier < 20 ∧ Arrives ctx (fun _ => false) earlier flagArena twoTests
        index s := by
  intro ctx
  have hBranches : twoTests.branchesAt 3 = true := by decide
  have hMany : (dispatched ctx (fun _ => false) 5 flagArena twoTests 3).length = 1 := by
    decide +kernel
  have hArrival : ((stage ctx (fun _ => false) 5 flagArena twoTests).any fun x =>
      x.queue.head?.any fun i => i.index == 3 &&
        !(dispatched ctx (fun _ => false) 5 flagArena twoTests 3).contains i.state) = true := by
    decide +kernel
  obtain ⟨x, hStage, hHead⟩ := (Option.any_eq_true _ _).mp hArrival
  obtain ⟨i, hHead, hItem⟩ := (Option.any_eq_true _ _).mp hHead
  rw [Bool.and_eq_true, beq_iff_eq, Bool.not_eq_true', ← Bool.not_eq_true,
    List.contains_iff_mem] at hItem
  obtain ⟨hHere, hNew⟩ := hItem
  have hArrives : Arrives ctx (fun _ => false) 5 flagArena twoTests 3 i.state :=
    ⟨x, i, hStage, hHead, rfl, hHere, rfl⟩
  obtain ⟨hCapped, hTurns, hEnds⟩ := states_capped ctx (fun _ => false) flagArena twoTests
  obtain ⟨index, earlier, s, hEarlier, -, hOnce, -⟩ := hEnds 20 (by decide) (by decide +kernel)
  exact ⟨(hCapped 3 20 hBranches).2,
    ⟨i.state, hArrives, (hTurns 3 5 i.state hBranches hArrives hNew).2 hMany⟩,
    index, earlier, s, hEarlier, hOnce⟩

/-- One state is allowed, and two are performed. -/
theorem cap_is_exceeded :
    let ctx : Context := ⟨{ Config.usual with maxStatesPerBranch := 1 }, default, .usual⟩
    twoTests.branchesAt 3 = true ∧
      (dispatched ctx (fun _ => false) 20 flagArena twoTests 3).Nodup ∧
      ctx.config.maxStatesPerBranch <
        (dispatched ctx (fun _ => false) 20 flagArena twoTests 3).length ∧
      (run ctx (fun _ => false) 20 flagArena (some twoTests)).map (·.outcome) = some .ok := by
  decide +kernel

end Analysis

end Pathwise
