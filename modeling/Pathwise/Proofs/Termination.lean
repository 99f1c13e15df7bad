import Mathlib.Data.Multiset.Basic
import Mathlib.Algebra.BigOperators.Group.Finset.Basic
import Mathlib.Algebra.Order.BigOperators.Group.Finset
import Mathlib.Logic.Hydra
import Mathlib.Tactic.Linarith
import Pathwise.Proofs.Streaks

/-!
# When a run ends

Without a clock only two things can end a path: its own end, and the states that are
remembered at branching instructions. So a run ends exactly if its streaks are bounded.

Two quantities decrease. A visit at a branching instruction uses up one of the finitely
many states that may still be remembered there (`capacity`). Any other visit replaces
its item by items that have one visit less left in their streak (`Owes`). The queue is
a multiset of such debts, and cutting one and growing finitely many smaller ones is
well founded.

## Results

* `capacity_performs`         — a visit at a branching instruction uses up capacity.
* `ends_of_streaks_bounded`   — a run of which the streaks are bounded ends.
* `ends_iff_streaks_bounded`  — an analysis ends exactly if its streaks are bounded, and
  always where loops go through a branch.
* `goto_self_never_ends`      — a jump to itself never ends.
-/

namespace Pathwise

namespace Exploration

variable {ctx : Context} {flow : Flow} {cancelled : Nat → Bool} {x y : Exploration} {i : Item}

-- ---------------------------------------------------------------------------
-- Capacity
-- ---------------------------------------------------------------------------

/-- How many states may still be remembered at all instructions together. -/
def capacity (ctx : Context) (flow : Flow) (x : Exploration) : Nat :=
  ∑ index ∈ Finset.range flow.size,
    (ctx.config.maxStatesPerBranch + 1 - (x.seenAt index).length)

theorem capacity_congr (h : y.seen = x.seen) : y.capacity ctx flow = x.capacity ctx flow := by
  simp only [capacity, seenAt, h]

/-- **A visit at a branching instruction uses up capacity**, and no other visit does. -/
theorem capacity_performs (h : x.turn ctx flow cancelled = .performs i y) :
    (flow.branchesAt i.index = false ∧ y.capacity ctx flow = x.capacity ctx flow) ∨
      (flow.branchesAt i.index = true ∧ y.capacity ctx flow < x.capacity ctx flow) := by
  obtain ⟨instr, hGet, -, ⟨hBranching, hSeen⟩ | ⟨hBranching, -, hLength, hSeen⟩⟩ :=
    describes_of_turn h
  · exact Or.inl ⟨by rw [branchesAt_of_get? hGet, hBranching], capacity_congr hSeen⟩
  · refine Or.inr ⟨by rw [branchesAt_of_get? hGet, hBranching], ?_⟩
    have hInside : i.index < flow.size := by
      rw [Flow.get?, Array.getElem?_eq_some_iff] at hGet
      exact hGet.1
    refine Finset.sum_lt_sum (fun k _ => ?_) ⟨i.index, Finset.mem_range.mpr hInside, ?_⟩
    · rw [seenAt_of_insert hSeen]
      split
      · rename_i hIndex
        subst hIndex
        rw [List.length_cons]
        omega
      · exact Nat.le_refl _
    · rw [seenAt_of_insert hSeen, if_pos rfl, List.length_cons]
      omega

-- ---------------------------------------------------------------------------
-- Debts
-- ---------------------------------------------------------------------------

/-- An item owes at most `l` more visits of its streak, if no streak is longer than `n`:
the visits so far contain a streak that has returned the item. -/
def Owes (ctx : Context) (flow : Flow) (n : Nat) (past : List Visit) (i : Item) (l : Nat) : Prop :=
  ∃ vs, Streak ctx flow vs ∧ vs.Sublist past ∧ vs.length + l = n ∧
    ∀ v ∈ vs.getLast?, v.Returns ctx flow i.index i.state

theorem Owes.mono {n l : Nat} {past later : List Visit} (h : Owes ctx flow n past i l) :
    Owes ctx flow n (past ++ later) i l := by
  obtain ⟨vs, hStreak, hSub, hLength, hLast⟩ := h
  exact ⟨vs, hStreak, hSub.trans (List.sublist_append_left past later), hLength, hLast⟩

/-- Every item may start a streak of its own. -/
theorem owes_all (n : Nat) (past : List Visit) (i : Item) : Owes ctx flow n past i n :=
  ⟨[], ⟨List.IsChain.nil, fun v hv => absurd hv (List.not_mem_nil)⟩, List.nil_sublist past,
    Nat.zero_add n, fun v hv => absurd hv (by simp)⟩

/-- What a quiet visit returns owes one visit less than the item that was visited. -/
theorem Owes.returned {n l : Nat} {past : List Visit} {v : Visit} {j : Item}
    (h : Owes ctx flow n past v.item l) (hQuiet : flow.branchesAt v.index = false)
    (hBound : ∀ vs, Streak ctx flow vs → vs.Sublist (past ++ [v]) → vs.length ≤ n)
    (hReturns : v.Returns ctx flow j.index j.state) :
    l - 1 < l ∧ Owes ctx flow n (past ++ [v]) j (l - 1) := by
  obtain ⟨vs, hStreak, hSub, hLength, hLast⟩ := h
  have hLonger : Streak ctx flow (vs ++ [v]) := hStreak.concat hQuiet hLast
  have hSub' : (vs ++ [v]).Sublist (past ++ [v]) := hSub.append_right [v]
  have hLe := hBound _ hLonger hSub'
  rw [List.length_append, List.length_singleton] at hLe
  refine ⟨by omega, vs ++ [v], hLonger, hSub', ?_, ?_⟩
  · rw [List.length_append, List.length_singleton]
    omega
  · intro w hw
    rw [List.getLast?_concat, Option.mem_some_iff] at hw
    exact hw ▸ hReturns

/-- Cutting the first debt and growing smaller ones at the end. -/
theorem cutExpand_queue {l : Nat} (rest : List Nat) {new : List Nat} (hNew : ∀ k ∈ new, k < l) :
    Relation.CutExpand (· < ·) (↑(rest ++ new) : Multiset Nat) ↑(l :: rest) := by
  refine ⟨↑new, l, fun k hk => hNew k (Multiset.mem_coe.mp hk), ?_⟩
  rw [← Multiset.coe_singleton, Multiset.coe_add, Multiset.coe_add, Multiset.coe_eq_coe]
  exact List.perm_append_comm.trans (by simp)

-- ---------------------------------------------------------------------------
-- Runs
-- ---------------------------------------------------------------------------

/-- What decreases: capacity first, then the debts of the queue. -/
def Smaller : Nat × Multiset Nat → Nat × Multiset Nat → Prop :=
  Prod.Lex (· < ·) (Relation.CutExpand (· < ·))

theorem wellFounded_smaller : WellFounded Smaller :=
  WellFounded.prod_lex Nat.lt_wfRel.wf Nat.lt_wfRel.wf.cutExpand

/-- A turn that drops an item drops its debt. -/
theorem smaller_skips {l : Nat} {rest : List Nat} (hTurn : x.turn ctx flow cancelled = .skips y) :
    Smaller (y.capacity ctx flow, ↑rest) (x.capacity ctx flow, ↑(l :: rest)) := by
  obtain ⟨-, -, -, -, hSeen, -⟩ := describes_of_turn hTurn
  rw [capacity_congr hSeen]
  refine Prod.Lex.right _ ?_
  have hNone : ∀ k ∈ ([] : List Nat), k < l := fun k hk => by cases hk
  have hCut := cutExpand_queue rest hNone
  rw [List.append_nil] at hCut
  exact hCut

/-- **A visit makes the run smaller**: what it has returned owes less than the item that
was visited, unless the visit has used up capacity. -/
theorem smaller_performs {n l : Nat} {past : List Visit} (rest : List Nat) {items : List Item}
    (hTurn : x.turn ctx flow cancelled = .performs i y) (hFirst : Owes ctx flow n past i l)
    (hBound : ∀ vs, Streak ctx flow vs → vs.Sublist (past ++ [⟨i, y.session⟩]) → vs.length ≤ n)
    (hReturns : ∀ j ∈ items, (⟨i, y.session⟩ : Visit).Returns ctx flow j.index j.state) :
    ∃ new : List Nat,
      List.Forall₂ (Owes ctx flow n (past ++ [⟨i, y.session⟩])) items new ∧
      Smaller (y.capacity ctx flow, ↑(rest ++ new)) (x.capacity ctx flow, ↑(l :: rest)) := by
  rcases capacity_performs hTurn with ⟨hQuiet, hSame⟩ | ⟨-, hLess⟩
  · have hLess : ∀ j ∈ items,
        l - 1 < l ∧ Owes ctx flow n (past ++ [⟨i, y.session⟩]) j (l - 1) :=
      fun j hj => Owes.returned hFirst hQuiet hBound (hReturns j hj)
    refine ⟨items.map fun _ => l - 1, ?_, ?_⟩
    · rw [List.forall₂_map_right_iff, List.forall₂_same]
      exact fun j hj => (hLess j hj).2
    · rw [hSame]
      refine Prod.Lex.right _ (cutExpand_queue rest fun k hk => ?_)
      obtain ⟨j, hj, rfl⟩ := List.mem_map.mp hk
      exact (hLess j hj).1
  · refine ⟨items.map fun _ => n, ?_, Prod.Lex.left _ _ hLess⟩
    rw [List.forall₂_map_right_iff, List.forall₂_same]
    exact fun j _ => owes_all n _ j

/-- **A run of which the streaks are bounded ends.** The streaks are those of all its
visits, the visits so far included. -/
theorem ends_of_streaks_bounded {n : Nat} {past : List Visit} {debts : List Nat}
    (hDebts : List.Forall₂ (Owes ctx flow n past) x.queue debts)
    (hBound : ∀ rounds vs, Streak ctx flow vs →
      vs.Sublist (past ++ x.visits ctx flow cancelled rounds) → vs.length ≤ n) :
    ∃ rounds outcome y, explore ctx flow cancelled rounds x = some (outcome, y) := by
  obtain ⟨m, hm⟩ : ∃ m : Nat × Multiset Nat, m = (x.capacity ctx flow, ↑debts) := ⟨_, rfl⟩
  induction m using wellFounded_smaller.induction generalizing x past debts with
  | _ m ih =>
  subst hm
  cases hTurn : x.turn ctx flow cancelled with
  | stops outcome y =>
    refine ⟨1, outcome, y, ?_⟩
    rw [explore_succ, hTurn]
    rfl
  | skips y =>
    obtain ⟨i, queue, hQueue, hTail, -, -⟩ := describes_of_turn hTurn
    rw [hQueue, ← hTail] at hDebts
    cases hDebts with
    | @cons _ l _ rest hFirst hRest =>
    have hVisits : ∀ rounds, x.visits ctx flow cancelled (rounds + 1) =
        y.visits ctx flow cancelled rounds := by
      intro rounds
      rw [visits_succ, hTurn]
      rfl
    obtain ⟨rounds, outcome, z, hEnd⟩ := ih _ (smaller_skips hTurn) hRest
      (fun rounds vs hStreak hSub => hBound (rounds + 1) vs hStreak (hVisits rounds ▸ hSub)) rfl
    refine ⟨rounds + 1, outcome, z, ?_⟩
    rw [explore_succ, hTurn]
    exact hEnd
  | performs i y =>
    obtain ⟨-, -, hQueue, -⟩ := describes_of_turn hTurn
    rw [hQueue] at hDebts
    cases hDebts with
    | @cons _ l _ rest hFirst hRest =>
    cases hResult : (⟨i, y.session⟩ : Visit).result ctx flow with
    | error e σ =>
      refine ⟨1, .aborted, logging { y with session := σ } (.analysisAborted e), ?_⟩
      rw [explore_succ, hTurn, progress_of_error hResult]
    | ok items σ =>
      have hProgress := progress_of_ok hResult
      have hVisits : ∀ rounds, past ++ x.visits ctx flow cancelled (rounds + 1) =
          (past ++ [⟨i, y.session⟩]) ++
            (enqueue { y with session := σ } flow (i.distance + 1) items).visits
              ctx flow cancelled rounds := by
        intro rounds
        rw [visits_succ, hTurn, hProgress, List.append_assoc]
        rfl
      have hBound' : ∀ rounds vs, Streak ctx flow vs → vs.Sublist ((past ++ [⟨i, y.session⟩]) ++
          (enqueue { y with session := σ } flow (i.distance + 1) items).visits
            ctx flow cancelled rounds) → vs.length ≤ n :=
        fun rounds vs hStreak hSub => hBound (rounds + 1) vs hStreak (hVisits rounds ▸ hSub)
      -- only what the visit has returned is queued, so the debts of the new items are small
      have hReturns : ∀ j ∈ (items.filter fun j => !y.isExplored flow j).map fun j =>
          { j with distance := i.distance + 1 },
          (⟨i, y.session⟩ : Visit).Returns ctx flow j.index j.state := by
        intro j hj
        obtain ⟨k, hk, rfl⟩ := List.mem_map.mp hj
        exact ⟨items, σ, hResult, k, (List.mem_filter.mp hk).1, rfl, rfl⟩
      obtain ⟨new, hNew, hSmaller⟩ := smaller_performs rest hTurn hFirst
        (fun vs hStreak hSub => hBound' 0 vs hStreak (by simpa [visits] using hSub)) hReturns
      obtain ⟨rounds, outcome, w, hEnd⟩ := ih _ hSmaller
        (List.rel_append (hRest.imp fun j k hj => hj.mono) hNew) hBound' rfl
      refine ⟨rounds + 1, outcome, w, ?_⟩
      rw [explore_succ, hTurn, hProgress]
      exact hEnd

/-- A run ends with one of three outcomes. -/
theorem outcome_of_explore {n : Nat} {outcome : Outcome}
    (h : explore ctx flow cancelled n x = some (outcome, y)) :
    outcome = .ok ∨ outcome = .tooComplex ∨ outcome = .aborted := by
  induction n generalizing x with
  | zero => cases h
  | succ n ih =>
    rw [explore_succ] at h
    cases hTurn : x.turn ctx flow cancelled with
    | skips z =>
      rw [hTurn] at h
      exact ih h
    | stops outcome z =>
      rw [hTurn] at h
      cases h
      rcases describes_of_turn hTurn with ⟨rfl, -⟩ | ⟨rfl, -⟩ | rfl <;> simp
    | performs i z =>
      rw [hTurn] at h
      cases hResult : (⟨i, z.session⟩ : Visit).result ctx flow with
      | error e σ =>
        rw [progress_of_error hResult] at h
        cases h
        simp
      | ok items σ =>
        rw [progress_of_ok hResult] at h
        exact ih h

end Exploration

namespace Analysis

open Exploration

variable {ctx : Context} {cancelled : Nat → Bool} {a : Arena} {flow : Flow}

/-- The analysis ends, and does so with one of three outcomes. -/
def Ends (ctx : Context) (cancelled : Nat → Bool) (a : Arena) (flow : Flow) : Prop :=
  ∃ rounds x, run ctx cancelled rounds a (some flow) = some x ∧
    (x.outcome = .ok ∨ x.outcome = .tooComplex ∨ x.outcome = .aborted)

/-- An analysis of which the streaks are bounded ends. -/
theorem ends_of_bounded {n : Nat} (hBound : ∀ rounds vs, Streak ctx flow vs →
    vs.Sublist (visits ctx cancelled rounds a flow) → vs.length ≤ n) :
    Ends ctx cancelled a flow := by
  rcases explores_or_ends ctx a flow with ⟨s, hBranches, hShape, hEntry⟩ | hAtOnce
  · simp only [visits_eq_visits hBranches hShape hEntry] at hBound
    have hDebts : List.Forall₂ (Owes ctx flow n []) (beginning a flow s).queue [n] :=
      List.Forall₂.cons (owes_all n [] _) List.Forall₂.nil
    obtain ⟨rounds, outcome, y, hEnd⟩ := ends_of_streaks_bounded hDebts hBound
    simp only [Ends, run_eq_explore hBranches hShape hEntry, Option.map_eq_some_iff]
    exact ⟨rounds, _, ⟨(outcome, y), hEnd, rfl⟩, outcome_of_explore hEnd⟩
  · obtain ⟨x, hRun, hOutcome, -⟩ := hAtOnce cancelled 0
    exact ⟨0, x, hRun, hOutcome.imp_right (Or.imp And.left And.left)⟩

/-- The visits of an analysis that ends are as many as its rounds at most. -/
theorem bounded_of_ends (h : Ends ctx cancelled a flow) :
    ∃ n, ∀ rounds, (visits ctx cancelled rounds a flow).length ≤ n := by
  obtain ⟨rounds, x, hRun, -⟩ := h
  rcases explores_or_ends ctx a flow with ⟨s, hBranches, hShape, hEntry⟩ | hAtOnce
  · rw [run_eq_explore hBranches hShape hEntry] at hRun
    obtain ⟨⟨outcome, y⟩, hEnd, -⟩ := Option.map_eq_some_iff.mp hRun
    refine ⟨rounds, fun rounds' => ?_⟩
    rw [visits_eq_visits hBranches hShape hEntry]
    rcases Nat.le_total rounds' rounds with hLe | hLe
    · exact (length_visits_le rounds' _).trans hLe
    · rw [visits_eq_of_explore hEnd hLe]
      exact length_visits_le rounds _
  · refine ⟨0, fun rounds' => ?_⟩
    obtain ⟨-, -, -, hNone⟩ := hAtOnce cancelled rounds'
    rw [hNone, List.length_nil]

/-- **An analysis ends exactly if its streaks are bounded**, and with the usual handler
they are if every loop of the flow goes through an instruction that branches. -/
theorem ends_iff_streaks_bounded (ctx : Context) (cancelled : Nat → Bool) (a : Arena)
    (flow : Flow) :
    (Ends ctx cancelled a flow ↔ ∃ n, ∀ rounds vs, Streak ctx flow vs →
      vs.Sublist (visits ctx cancelled rounds a flow) → vs.length ≤ n) ∧
    (ctx.handler = .usual → flow.validate = .ok () → flow.LoopsBranch →
      Ends ctx cancelled a flow) := by
  refine ⟨⟨fun hEnds => ?_, fun ⟨n, hBound⟩ => ends_of_bounded hBound⟩, ?_⟩
  · obtain ⟨n, hVisits⟩ := bounded_of_ends hEnds
    exact ⟨n, fun rounds vs _ hSub => hSub.length_le.trans (hVisits rounds)⟩
  · intro hHandler hValid hLoops
    obtain ⟨known, hClosed, hDepths⟩ := visits_depths (a := a) hHandler hValid
    have hBound : ∀ rounds vs, Streak ctx flow vs →
        vs.Sublist (visits ctx cancelled rounds a flow) → vs.length ≤ flow.size := by
      intro rounds vs hStreak hSub
      exact hStreak.length_le hHandler hClosed hLoops fun v hv =>
        hDepths cancelled rounds v (hSub.subset hv)
    exact ends_of_bounded hBound

/-- A loop that is left when a variable is false goes through the test of the variable. -/
theorem loop_through_branch_ends :
    Ends ⟨.usual, default, .usual⟩ (fun _ => false)
      ⟨#[.unknown, .var ⟨.localVar "b" false, none, .bool none⟩]⟩
      ⟨#[.push 1 none, .branch 3 true none, .goto 0, .ret], []⟩ := by
  refine (ends_iff_streaks_bounded _ _ _ _).2 rfl (by decide +kernel) ?_
  -- from the jump to the start and on to the test
  exact Flow.loopsBranch_of_decreasing (fun k => [1, 0, 2, 0].getD k 0) (by decide +kernel)

/-- Round after round a jump to itself leaves one item in the queue. -/
theorem explore_goto_self (ctx : Context) (n distance : Nat) (σ : Session) :
    Exploration.explore ctx ⟨#[.goto 0], []⟩ (fun _ => false) n
      ⟨[⟨0, .initial, distance⟩], ∅, σ⟩ = none := by
  induction n generalizing distance σ with
  | zero => rfl
  | succ n ih => exact ih (distance + 1) _

/-- **A jump to itself never ends**: the flow is well shaped and within the bounds, but
nothing is remembered at its only instruction. -/
theorem goto_self_never_ends :
    (⟨#[.goto 0], []⟩ : Flow).validate = .ok () ∧
    (⟨#[.goto 0], []⟩ : Flow).branchCount ≤ Config.usual.maxBranches ∧
    ¬∃ rounds x, run ⟨{ Config.usual with deterministic := true }, default, .usual⟩
      (fun _ => false) rounds .new (some ⟨#[.goto 0], []⟩) = some x := by
  have hShape : (⟨#[.goto 0], []⟩ : Flow).validate = .ok () := by decide +kernel
  have hBranches : (⟨#[.goto 0], []⟩ : Flow).branchCount ≤ Config.usual.maxBranches := by decide
  refine ⟨hShape, hBranches, ?_⟩
  rintro ⟨rounds, x, hRun⟩
  rw [run_eq_explore (s := .initial) hBranches hShape rfl, beginning, start,
    explore_goto_self] at hRun
  cases hRun

end Analysis

end Pathwise
