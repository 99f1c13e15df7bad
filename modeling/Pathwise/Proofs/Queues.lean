import Pathwise.Proofs.StackSafety

/-!
# What is queued

The check of a flow knows the stack depth at each instruction that it has found. The
queue of a run keeps to it at all times: an item is the start, or it was returned by a
visit and has taken an edge of the flow. So it is at an instruction that the check has
found, with the stack depth that the check has found there, or past the end.

`Exploration.after` is the run after a number of rounds, and `Analysis.queued` the queue
of an analysis then.

## Results

* `mem_queue_progress`, `mem_queue_after` — where the items of the queue come from.
* `shaped_after`                          — the queue keeps to the table at all times.
* `queued_at_known_depth`                 — all that is queued took an edge, to where the
  check has found the same depth.
-/

namespace Pathwise

namespace Exploration

variable {ctx : Context} {flow : Flow} {cancelled : Nat → Bool} {known : OrdMap Nat Nat}
  {x y : Exploration}

/-- The run after `n` rounds, if it has not ended by then. -/
def after (ctx : Context) (flow : Flow) (cancelled : Nat → Bool) :
    Nat → Exploration → Option Exploration
  | 0, x => some x
  | n + 1, x =>
    match x.round ctx flow cancelled with
    | .going y => y.after ctx flow cancelled n
    | .ended _ _ => none

/-- A run that goes on after its first turn. -/
theorem after_succ {n : Nat} {z : Exploration} (h : x.after ctx flow cancelled (n + 1) = some z) :
    ∃ y, (x.turn ctx flow cancelled).progress ctx flow = .going y ∧
      y.after ctx flow cancelled n = some z := by
  rw [after, round_eq_turn] at h
  cases hProgress : (x.turn ctx flow cancelled).progress ctx flow with
  | going y =>
    rw [hProgress] at h
    exact ⟨y, rfl, h⟩
  | ended outcome y =>
    rw [hProgress] at h
    cases h

/-- An item that is queued after a round was queued before, or the visit of the round has
returned it. -/
theorem mem_queue_progress {i : Item}
    (h : (x.turn ctx flow cancelled).progress ctx flow = .going y) (hi : i ∈ y.queue) :
    i ∈ x.queue ∨
      ∃ v ∈ (x.turn ctx flow cancelled).visit?, v.Returns ctx flow i.index i.state := by
  cases hTurn : x.turn ctx flow cancelled with
  | skips z =>
    obtain ⟨j, queue, hQueue, hRest, -⟩ := describes_of_turn hTurn
    rw [hTurn] at h
    cases h
    rw [hQueue, ← hRest]
    exact Or.inl (List.mem_cons_of_mem _ hi)
  | stops outcome z =>
    rw [hTurn] at h
    cases h
  | performs j z =>
    obtain ⟨-, -, hQueue, -⟩ := describes_of_turn hTurn
    rw [hTurn] at h
    cases hResult : (⟨j, z.session⟩ : Visit).result ctx flow with
    | error e σ =>
      rw [progress_of_error hResult] at h
      cases h
    | ok items σ =>
      rw [progress_of_ok hResult] at h
      cases h
      rw [queue_enqueue] at hi
      rcases List.mem_append.mp hi with hOld | hNew
      · rw [hQueue]
        exact Or.inl (List.mem_cons_of_mem _ hOld)
      · obtain ⟨k, hk, rfl⟩ := List.mem_map.mp hNew
        exact Or.inr ⟨_, rfl, items, σ, hResult, k, List.mem_of_mem_filter hk, rfl, rfl⟩

/-- **Where the items of the queue come from**: they were queued at the beginning, or a
visit has returned them. -/
theorem mem_queue_after {n : Nat} {i : Item} (h : x.after ctx flow cancelled n = some y)
    (hi : i ∈ y.queue) :
    i ∈ x.queue ∨ ∃ v ∈ x.visits ctx flow cancelled n, v.Returns ctx flow i.index i.state := by
  induction n generalizing x with
  | zero =>
    cases h
    exact Or.inl hi
  | succ n ih =>
    obtain ⟨z, hProgress, hAfter⟩ := after_succ h
    rw [visits_succ, hProgress]
    rcases ih hAfter with hQueued | ⟨v, hv, hReturns⟩
    · rcases mem_queue_progress hProgress hQueued with hOld | ⟨v, hv, hReturns⟩
      · exact Or.inl hOld
      · exact Or.inr ⟨v, List.mem_append_left _ (Option.mem_toList.mpr hv), hReturns⟩
    · exact Or.inr ⟨v, List.mem_append_right _ hv, hReturns⟩

/-- **The queue keeps to the table at all times.** -/
theorem shaped_after (hHandler : ctx.handler = .usual) (hClosed : Closed flow known)
    (hShaped : x.Shaped flow known) {n : Nat} (h : x.after ctx flow cancelled n = some y) :
    y.Shaped flow known := by
  induction n generalizing x with
  | zero =>
    cases h
    exact hShaped
  | succ n ih =>
    obtain ⟨z, hProgress, hAfter⟩ := after_succ h
    exact ih (shaped_progress hHandler hClosed hShaped hProgress) hAfter

end Exploration

-- ---------------------------------------------------------------------------
-- Analyses
-- ---------------------------------------------------------------------------

namespace Analysis

open Exploration

/-- The queue of an analysis after the given number of rounds, the first item first.
Nothing is queued when the analysis has ended by then. -/
def queued (ctx : Context) (cancelled : Nat → Bool) (rounds : Nat) (a : Arena) (flow : Flow) :
    List Item :=
  if ctx.config.maxBranches < flow.branchCount then []
  else
    match flow.validate, entry a flow.notNullParams .initial with
    | .ok _, .ok s =>
      (((beginning a flow s).after ctx flow cancelled rounds).map (·.queue)).getD []
    | _, _ => []

variable {ctx : Context} {cancelled : Nat → Bool} {rounds : Nat} {a : Arena} {flow : Flow}

/-- What is queued is queued in the run from the beginning of the analysis. -/
theorem exists_of_mem_queued {i : Item} (h : i ∈ queued ctx cancelled rounds a flow) :
    ∃ s y, entry a flow.notNullParams .initial = .ok s ∧
      (beginning a flow s).after ctx flow cancelled rounds = some y ∧ i ∈ y.queue ∧
      visits ctx cancelled rounds a flow =
        (beginning a flow s).visits ctx flow cancelled rounds := by
  rw [queued] at h
  split at h
  · cases h
  · rename_i hBranches
    split at h
    · rename_i s hValid hEntry
      cases hAfter : (beginning a flow s).after ctx flow cancelled rounds with
      | none =>
        rw [hAfter] at h
        cases h
      | some y =>
        rw [hAfter] at h
        exact ⟨s, y, hEntry, hAfter, h, visits_eq_visits (by omega) hValid hEntry⟩
    · cases h

/-- **The stacks of a run have the depths that the check has found.** With the usual
handler and a flow that passes the check, whatever is queued at any time

* is the start, or was returned by a visit, at a successor of the instruction that was
  performed or with an empty stack at a target of its transfer;
* is inside the flow or just past its end;
* and if it is inside, the check has found the instruction, and with the same depth. -/
theorem queued_at_known_depth (hHandler : ctx.handler = .usual)
    (hValid : flow.validate = .ok ()) :
    ∃ known, flow.depths = .ok known ∧
      ∀ cancelled rounds, ∀ i ∈ queued ctx cancelled rounds a flow,
        (i.index = 0 ∧ i.state.stack = [] ∨
          ∃ v ∈ visits ctx cancelled rounds a flow, v.Returns ctx flow i.index i.state ∧
            ∃ instr, flow.get? v.index = some instr ∧
              (i.index ∈ instr.successors v.index ∨
                i.index ∈ instr.transferTargets ∧ i.state.stack = [])) ∧
        i.index ≤ flow.size ∧
        (i.index < flow.size → known.get? i.index = some i.state.depth) := by
  obtain ⟨known, hKnown, hClosed, hFirst⟩ := exists_table (a := a) hValid
  refine ⟨known, hKnown, ?_⟩
  intro cancelled rounds i hi
  obtain ⟨s, y, hEntry, hAfter, hQueued, hVisits⟩ := exists_of_mem_queued hi
  have hShaped := shaped_after hHandler hClosed (hFirst s hEntry) hAfter i hQueued
  rcases mem_queue_after hAfter hQueued with hStart | ⟨v, hv, hReturns⟩
  · rw [List.mem_singleton.mp hStart] at hShaped ⊢
    exact ⟨Or.inl ⟨rfl, stack_entry hEntry⟩, Nat.zero_le _, hShaped⟩
  · have hDepth := visits_shaped hHandler hClosed rounds (hFirst s hEntry) v hv
    obtain ⟨instr, hGet, hEdge, hTarget⟩ := hReturns.mem_edges hHandler hClosed hDepth
    have hInside : i.index ≤ flow.size := by
      rcases hTarget with hEnd | hFound
      · omega
      · obtain ⟨next, -, hNext, -⟩ := hClosed _ _ hFound
        exact Nat.le_of_lt (Array.getElem?_eq_some_iff.mp hNext).1
    refine ⟨Or.inr ⟨v, hVisits ▸ hv, hReturns, instr, hGet, ?_⟩, hInside, hShaped⟩
    -- an edge of the flow goes on with the stack, or is that of a transfer
    rcases List.mem_append.mp hEdge with hOn | hTransfer
    · obtain ⟨k, hk, hSame⟩ := List.mem_map.mp hOn
      obtain ⟨rfl, -⟩ := Prod.mk.inj hSame
      exact Or.inl hk
    · obtain ⟨k, hk, hSame⟩ := List.mem_map.mp hTransfer
      obtain ⟨rfl, hEmpty⟩ := Prod.mk.inj hSame
      exact Or.inr ⟨hk, List.length_eq_zero_iff.mp hEmpty.symm⟩

/-- A reference that may be null is checked with another value below it on the stack: both
ways on are queued, the one with both values and the other with none, as the check has it. -/
theorem checkNotNull_queued_at_known_depth :
    let ctx : Context := ⟨.usual, default, .usual⟩
    let a : Arena := ⟨#[.unknown,
      .var ⟨.localVar "x" false, none, .ref (.ofNullness .nullable) none none⟩]⟩
    let flow : Flow :=
      ⟨#[.push 1 none, .push 1 none, .checkNotNull .dereference (some (.goto 4)) none, .ret, .ret],
        []⟩
    (queued ctx (fun _ => false) 3 a flow).map (fun i => (i.index, i.state.depth)) =
        [(3, 2), (4, 0)] ∧
      ∃ known, flow.depths = .ok known ∧ known.get? 3 = some 2 ∧ known.get? 4 = some 0 := by
  intro ctx a flow
  have hQueue : (queued ctx (fun _ => false) 3 a flow).map (fun i => (i.index, i.state.depth)) =
      [(3, 2), (4, 0)] := by decide +kernel
  have hValid : flow.validate = .ok () := by decide +kernel
  obtain ⟨known, hKnown, hQueued⟩ :=
    queued_at_known_depth (a := a) (rfl : ctx.handler = .usual) hValid
  -- the depth of every item that is queued is the one of the check
  have hDepth : ∀ index depth, index < 5 →
      (index, depth) ∈ (queued ctx (fun _ => false) 3 a flow).map
        (fun i => (i.index, i.state.depth)) → known.get? index = some depth := by
    intro index depth hInside hMem
    obtain ⟨i, hi, hSame⟩ := List.mem_map.mp hMem
    obtain ⟨rfl, rfl⟩ := Prod.mk.inj hSame
    exact (hQueued _ _ i hi).2.2 hInside
  rw [hQueue] at hDepth
  exact ⟨hQueue, known, hKnown, hDepth 3 2 (by omega) (by simp), hDepth 4 0 (by omega) (by simp)⟩

end Analysis

end Pathwise
