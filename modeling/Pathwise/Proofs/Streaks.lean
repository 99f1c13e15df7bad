import Mathlib.Data.List.Chain
import Mathlib.Logic.Relation
import Pathwise.Proofs.StackSafety

/-!
# Streaks

A streak is a sequence of visits at instructions that do not branch, each of an item
that the one before has returned. Nothing is remembered along a streak, so nothing but
the flow can bring it to an end.

Where every loop of a flow that passed the check goes through an instruction that
branches, it does: a streak goes along the ways on from its instructions, so it comes to
no instruction twice.

## Results

* `loopsBranch_of_decreasing` — a criterion for loops to go through a branch.
* `Streak.length_le`          — then no streak is longer than the flow.
-/

namespace Pathwise

-- ---------------------------------------------------------------------------
-- Loops
-- ---------------------------------------------------------------------------

namespace Flow

variable {flow : Flow}

/-- The ways on from an instruction that does not branch. -/
def quietTargets (flow : Flow) (index : Nat) : List Nat :=
  match flow.get? index with
  | some i => if i.isBranching then [] else i.successors index ++ i.transferTargets
  | none => []

/-- Every loop of the flow goes through an instruction that branches. -/
def LoopsBranch (flow : Flow) : Prop :=
  ∀ index, ¬ Relation.TransGen (fun j k => k ∈ flow.quietTargets j) index index

/-- There is no loop if something decreases from one instruction to the next. -/
theorem loopsBranch_of_decreasing (rank : Nat → Nat)
    (h : ∀ j < flow.size, ∀ k ∈ flow.quietTargets j, rank k < rank j) : flow.LoopsBranch := by
  have hStep : ∀ {j k}, k ∈ flow.quietTargets j → rank k < rank j := by
    intro j k hk
    refine h j ?_ k hk
    by_contra hOut
    rw [quietTargets, get?, Array.getElem?_eq_none (Nat.le_of_not_lt hOut)] at hk
    cases hk
  have hPath : ∀ {j k}, Relation.TransGen (fun j k => k ∈ flow.quietTargets j) j k →
      rank k < rank j := by
    intro j k hjk
    induction hjk with
    | single hk => exact hStep hk
    | tail _ hk ih => exact (hStep hk).trans ih
  exact fun index hLoop => Nat.lt_irrefl _ (hPath hLoop)

theorem mem_quietTargets {index depth : Nat} {i : Instr} {e : Nat × Nat}
    (hGet : flow.get? index = some i) (hQuiet : i.isBranching = false)
    (he : e ∈ edges index depth i) : e.1 ∈ flow.quietTargets index := by
  rw [quietTargets, hGet]
  dsimp only
  rw [hQuiet, if_neg Bool.false_ne_true]
  rcases List.mem_append.mp he with he | he
  · obtain ⟨k, hk, rfl⟩ := List.mem_map.mp he
    exact List.mem_append_left _ hk
  · obtain ⟨k, hk, rfl⟩ := List.mem_map.mp he
    exact List.mem_append_right _ hk

end Flow

-- ---------------------------------------------------------------------------
-- Streaks
-- ---------------------------------------------------------------------------

open Exploration

variable {ctx : Context} {flow : Flow} {known : OrdMap Nat Nat} {v : Visit} {vs : List Visit}

/-- Visits at instructions that do not branch, each of an item that the one before has
returned. -/
structure Streak (ctx : Context) (flow : Flow) (vs : List Visit) : Prop where
  linked : vs.IsChain fun v w => v.Returns ctx flow w.index w.state
  quiet  : ∀ v ∈ vs, flow.branchesAt v.index = false

/-- A streak goes on with a visit of an item that its last visit has returned. -/
theorem Streak.concat (h : Streak ctx flow vs) (hQuiet : flow.branchesAt v.index = false)
    (hLast : ∀ w ∈ vs.getLast?, w.Returns ctx flow v.index v.state) :
    Streak ctx flow (vs ++ [v]) := by
  refine ⟨List.isChain_append.mpr ⟨h.linked, List.isChain_singleton v, ?_⟩, ?_⟩
  · intro w hw u hu
    rw [List.head?_singleton, Option.mem_some_iff] at hu
    exact hu ▸ hLast w hw
  · intro w hw
    rcases List.mem_append.mp hw with hw | hw
    · exact h.quiet w hw
    · rw [List.mem_singleton.mp hw]
      exact hQuiet

/-- What a visit returns is on a way on from its instruction. -/
theorem Visit.Returns.mem_quietTargets {index : Nat} {s : State} (hHandler : ctx.handler = .usual)
    (hClosed : Closed flow known) (hDepth : known.get? v.index = some v.state.depth)
    (hQuiet : flow.branchesAt v.index = false) (h : v.Returns ctx flow index s) :
    index ∈ flow.quietTargets v.index := by
  obtain ⟨instr, hGet, hEdge, -⟩ := h.mem_edges hHandler hClosed hDepth
  rw [branchesAt_of_get? hGet] at hQuiet
  exact Flow.mem_quietTargets hGet hQuiet hEdge

/-- **No streak is longer than the flow** if every loop branches: it would come to an
instruction for the second time, along ways on that do not branch. -/
theorem Streak.length_le (hHandler : ctx.handler = .usual) (hClosed : Closed flow known)
    (hLoops : flow.LoopsBranch) (hDepths : ∀ v ∈ vs, known.get? v.index = some v.state.depth)
    (h : Streak ctx flow vs) : vs.length ≤ flow.size := by
  have hWays : vs.IsChain fun v w =>
      Relation.TransGen (fun j k => k ∈ flow.quietTargets j) v.index w.index := by
    refine h.linked.imp_of_mem_imp fun v w hv _ hReturns => ?_
    exact .single (hReturns.mem_quietTargets hHandler hClosed (hDepths v hv) (h.quiet v hv))
  have hPaths : (vs.map Visit.index).Pairwise
      (Relation.TransGen fun j k => k ∈ flow.quietTargets j) :=
    List.isChain_iff_pairwise.mp (List.isChain_map_of_isChain Visit.index (fun _ _ h => h) hWays)
  have hNodup : (vs.map Visit.index).Nodup := by
    refine hPaths.imp fun {j k} hPath hSame => ?_
    subst hSame
    exact hLoops j hPath
  have hInside : ∀ k ∈ vs.map Visit.index, k < flow.size := by
    intro k hk
    obtain ⟨v, hv, rfl⟩ := List.mem_map.mp hk
    obtain ⟨i, depth, hGet, -⟩ := hClosed _ _ (hDepths v hv)
    exact (Array.getElem?_eq_some_iff.mp hGet).1
  have hLength := Flow.length_le_size hNodup hInside
  rwa [List.length_map] at hLength

end Pathwise
