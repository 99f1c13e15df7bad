import Pathwise.Proofs.StateCaps
import Pathwise.Proofs.Termination

/-!
# Cycles that branch

A cycle of a flow is a list of instructions, each at a way on from the one before and the
first at a way on from the last. Where every cycle has an instruction that branches, an
analysis ends whatever it computes: of the states at one such instruction only so many
are taken up, equal or not, and between them the ways on lead to the end of the flow.

Nothing is said about values, so a loop that makes a new state each time is cut off as
well; its analysis is too complex then.

## Results

* `cyclesBranch_iff_loopsBranch` — cycles as lists, and loops as closed paths.
* `countP_visits_le_maxStates`   — how often an instruction that branches is performed.
* `ends_of_cyclesBranch`         — an analysis ends if every cycle branches.
-/

namespace Pathwise

-- ---------------------------------------------------------------------------
-- Cycles
-- ---------------------------------------------------------------------------

namespace Flow

variable {flow : Flow} {j k : Nat}

/-- The ways on from an instruction: its successors and the targets of its transfer. -/
def targets (flow : Flow) (index : Nat) : List Nat :=
  match flow.get? index with
  | some i => i.successors index ++ i.transferTargets
  | none => []

/-- Instructions that lead from one to the next and back from the last to the first. -/
structure Cycle (flow : Flow) (c : List Nat) : Prop where
  nonempty : c ≠ []
  linked   : c.IsChain fun j k => k ∈ flow.targets j
  closed   : c.head nonempty ∈ flow.targets (c.getLast nonempty)

/-- Every cycle of the flow has an instruction that branches. -/
def CyclesBranch (flow : Flow) : Prop :=
  ∀ c, flow.Cycle c → ∃ j ∈ c, flow.branchesAt j = true

theorem mem_quietTargets_iff :
    k ∈ flow.quietTargets j ↔ flow.branchesAt j = false ∧ k ∈ flow.targets j := by
  rw [quietTargets, targets, branchesAt]
  cases flow.get? j with
  | none => simp
  | some i => cases hBranching : i.isBranching <;> simp [hBranching]

/-- A closed path that does not branch is a cycle that does not. -/
theorem exists_cycle_of_transGen
    (h : Relation.TransGen (fun j k => k ∈ flow.quietTargets j) j j) :
    ∃ c, flow.Cycle c ∧ ∀ k ∈ c, flow.branchesAt k = false := by
  obtain ⟨last, hPath, hBack⟩ := Relation.TransGen.tail'_iff.mp h
  obtain ⟨c, hNonempty, hLinked, hHead, hLast⟩ :=
    List.exists_isChain_ne_nil_of_relationReflTransGen hPath
  refine ⟨c, ⟨hNonempty, ?_, ?_⟩, ?_⟩
  · exact hLinked.imp fun _ _ hk => (mem_quietTargets_iff.mp hk).2
  · rw [hHead, hLast]
    exact (mem_quietTargets_iff.mp hBack).2
  · -- every instruction of the cycle is quiet, as there is a quiet way on from it
    refine hLinked.backwards_induction _ c (fun _ _ hk _ => (mem_quietTargets_iff.mp hk).1) ?_
    intro hNonempty
    rw [hLast]
    exact (mem_quietTargets_iff.mp hBack).1

/-- A cycle that does not branch is a closed path that does not. -/
theorem transGen_of_cycle {c : List Nat} (h : flow.Cycle c)
    (hQuiet : ∀ k ∈ c, flow.branchesAt k = false) :
    Relation.TransGen (fun j k => k ∈ flow.quietTargets j) (c.head h.nonempty)
      (c.head h.nonempty) := by
  have hLinked : c.IsChain fun j k => k ∈ flow.quietTargets j :=
    h.linked.imp_of_mem_imp fun j _ hj _ hk => mem_quietTargets_iff.mpr ⟨hQuiet j hj, hk⟩
  have hPath := List.relationReflTransGen_of_exists_isChain c hLinked h.nonempty
  exact .tail' hPath (mem_quietTargets_iff.mpr ⟨hQuiet _ (List.getLast_mem _), h.closed⟩)

/-- **Every cycle branches exactly if every loop does.** -/
theorem cyclesBranch_iff_loopsBranch : flow.CyclesBranch ↔ flow.LoopsBranch := by
  constructor
  · intro hCycles j hLoop
    obtain ⟨c, hCycle, hQuiet⟩ := exists_cycle_of_transGen hLoop
    obtain ⟨k, hk, hBranches⟩ := hCycles c hCycle
    rw [hQuiet k hk] at hBranches
    cases hBranches
  · intro hLoops c hCycle
    by_contra hNone
    refine hLoops _ (transGen_of_cycle hCycle fun k hk => ?_)
    exact eq_false_of_ne_true fun hBranches => hNone ⟨k, hk, hBranches⟩

end Flow

-- ---------------------------------------------------------------------------
-- Analyses
-- ---------------------------------------------------------------------------

namespace Analysis

open Exploration

variable {ctx : Context} {cancelled : Nat → Bool} {a : Arena} {flow : Flow}

/-- An instruction that branches is performed as often as states may be remembered at it,
and once more. -/
theorem countP_visits_le_maxStates {rounds index : Nat} (hBranches : flow.branchesAt index = true) :
    (visits ctx cancelled rounds a flow).countP (·.index == index) ≤
      ctx.config.maxStatesPerBranch + 1 := by
  have hCapped : Capped ctx (dispatched ctx cancelled rounds a flow index) :=
    capped_dispatched hBranches
  rw [← length_statesAt]
  exact hCapped.2

/-- **An analysis ends if every cycle branches**, whatever the values that it computes. No
instruction that branches is performed more often than states may be remembered at it,
and once more, in any number of rounds. -/
theorem ends_of_cyclesBranch (hHandler : ctx.handler = .usual) (hValid : flow.validate = .ok ())
    (hCycles : flow.CyclesBranch) :
    Ends ctx cancelled a flow ∧
      ∀ rounds index, flow.branchesAt index = true →
        (visits ctx cancelled rounds a flow).countP (·.index == index) ≤
          ctx.config.maxStatesPerBranch + 1 := by
  refine ⟨?_, fun rounds index hBranches => countP_visits_le_maxStates hBranches⟩
  obtain ⟨known, hClosed, hDepths⟩ := visits_depths (a := a) hHandler hValid
  have hLoops := Flow.cyclesBranch_iff_loopsBranch.mp hCycles
  have hBound : ∀ rounds vs, Streak ctx flow vs →
      vs.Sublist (visits ctx cancelled rounds a flow) → vs.length ≤ flow.size := by
    intro rounds vs hStreak hSub
    exact hStreak.length_le hHandler hClosed hLoops fun v hv =>
      hDepths cancelled rounds v (hSub.subset hv)
  exact ends_of_bounded hBound

/-- The values of a loop that counts: its counter, its bound, zero and one. -/
def counterArena : Arena :=
  ⟨#[.unknown, .var ⟨.localVar "i" false, none, .int (.ofWidth .int)⟩,
    .var ⟨.parameter "n" 0, none, .int (.ofWidth .int)⟩, .typed (.int (.point 0)),
    .typed (.int (.point 1))]⟩

/-- A loop that counts: `i = 0; while (i < n) i = i + 1`. -/
def counterFlow : Flow :=
  ⟨#[.push 1 none, .push 3 none, .assign none false none none, .pop,
    .push 1 none, .push 2 none, .boolean (.relation .lt) (some 1), .branch 15 true (some 2),
    .push 1 none, .push 1 none, .push 4 none, .arithmetic .plus .int,
    .assign none false none none, .pop, .goto 4, .ret], []⟩

/-- A loop that counts is cut off: each time round the counter has a new value, so the states
at the test never repeat. -/
theorem counter_ends :
    let ctx : Context :=
      ⟨{ Config.usual with deterministic := true, maxStatesPerBranch := 3 }, default, .usual⟩
    Ends ctx (fun _ => false) counterArena counterFlow ∧
      (run ctx (fun _ => false) 200 counterArena (some counterFlow)).map (·.outcome) =
        some .tooComplex := by
  intro ctx
  have hValid : counterFlow.validate = .ok () := by decide +kernel
  have hCycles : counterFlow.CyclesBranch := by
    -- from the start and from the body of the loop on to its test
    refine Flow.cyclesBranch_iff_loopsBranch.mpr (Flow.loopsBranch_of_decreasing
      (fun k => [6, 5, 4, 3, 2, 1, 0, 0, 9, 8, 7, 6, 5, 4, 3, 0].getD k 0) ?_)
    decide +kernel
  exact ⟨(ends_of_cyclesBranch rfl hValid hCycles).1, by decide +kernel⟩

end Analysis

end Pathwise
