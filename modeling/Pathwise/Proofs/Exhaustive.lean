import Pathwise.Proofs.Rounds

/-!
# Complete runs are exhaustive

A run that ends as `ok` has explored everything: its visits begin with the first
instruction in the state of the start, and whatever a visit returns inside the flow
is the state of another visit. States are dropped at two places, when an item is
queued and when it is taken up, and at both only because an equal one was visited.

The invariant of a run is `Exhausts x vs`, for `vs` the visits still to come. It is
built backwards from the end, where the queue is empty: each turn either drops an
item that is settled, or adds one visit in front that settles its own item.

## Results

* `exhausts_of_explore`  — the invariant, for every run that ends as `ok`.
* `ok_visits_exhaustive` — a complete analysis has explored everything, each state at
  a branching instruction once.
-/

namespace Pathwise

namespace Exploration

variable {ctx : Context} {flow : Flow} {cancelled : Nat → Bool} {x y : Exploration}
  {i j : Item} {vs : List Visit}

/-- Nothing is left to do for an item: its path is at its end, or it was explored
before, or one of the visits explores it. -/
def Settled (flow : Flow) (x : Exploration) (vs : List Visit) (i : Item) : Prop :=
  flow.get? i.index = none ∨ x.isExplored flow i = true ∨
    ∃ v ∈ vs, v.index = i.index ∧ v.state = i.state

/-- The distance of an item does not matter. -/
theorem Settled.congr (hIndex : i.index = j.index) (hState : i.state = j.state)
    (h : Settled flow x vs i) : Settled flow x vs j := by
  unfold Settled isExplored at *
  rw [← hIndex, ← hState]
  exact h

/-- What is settled after a visit was settled before, or is settled by the visit. -/
theorem Settled.of_performs {σ : Session} (hTurn : x.turn ctx flow cancelled = .performs i y)
    (h : Settled flow y vs j) : Settled flow x (⟨i, σ⟩ :: vs) j := by
  rcases h with hEnd | hOld | ⟨v, hv, hAt⟩
  · exact Or.inl hEnd
  · rcases (isExplored_performs hTurn).mp hOld with hOld | ⟨-, hIndex, hState⟩
    · exact Or.inr (Or.inl hOld)
    · exact Or.inr (Or.inr ⟨⟨i, σ⟩, List.mem_cons_self, hIndex.symm, hState.symm⟩)
  · exact Or.inr (Or.inr ⟨v, List.mem_cons_of_mem _ hv, hAt⟩)

/-- The visits still to come do all that is left: they settle what is queued and what
they return, and no two of them explore the same state at a branching instruction. -/
structure Exhausts (ctx : Context) (flow : Flow) (x : Exploration) (vs : List Visit) : Prop where
  queued   : ∀ i ∈ x.queue, Settled flow x vs i
  returned : ∀ v ∈ vs, ∃ items σ, v.result ctx flow = .ok items σ ∧
               ∀ i ∈ items, Settled flow x vs i
  fresh    : ∀ v ∈ vs, x.isExplored flow v.item = false
  once     : vs.Pairwise fun v w =>
               flow.branchesAt v.index = true → ¬(w.index = v.index ∧ w.state = v.state)

/-- A turn that drops an item keeps the invariant: the item is settled. -/
theorem exhausts_of_skips (hTurn : x.turn ctx flow cancelled = .skips y)
    (h : Exhausts ctx flow y vs) : Exhausts ctx flow x vs := by
  obtain ⟨i, queue, hQueue, hTail, hSeen, hDropped⟩ := describes_of_turn hTurn
  have hExplored : ∀ j : Item, y.isExplored flow j = x.isExplored flow j := by
    intro j
    rw [isExplored, isExplored, seenAt, seenAt, hSeen]
  have hSettled : ∀ j, Settled flow y vs j → Settled flow x vs j := by
    intro j hj
    rw [Settled, ← hExplored]
    exact hj
  refine ⟨?_, ?_, ?_, h.once⟩
  · intro j hj
    rw [hQueue, List.mem_cons] at hj
    rcases hj with rfl | hj
    · exact hDropped.imp id Or.inl
    · exact hSettled j (h.queued j (hTail ▸ hj))
  · intro v hv
    obtain ⟨items, σ, hResult, hItems⟩ := h.returned v hv
    exact ⟨items, σ, hResult, fun j hj => hSettled j (hItems j hj)⟩
  · intro v hv
    rw [← hExplored]
    exact h.fresh v hv

/-- A visit keeps the invariant: it settles its own item, and what it returns is
queued or explored. -/
theorem exhausts_of_performs {items : List Item} {σ : Session} {distance : Nat}
    (hTurn : x.turn ctx flow cancelled = .performs i y)
    (hResult : (⟨i, y.session⟩ : Visit).result ctx flow = .ok items σ)
    (h : Exhausts ctx flow (enqueue { y with session := σ } flow distance items) vs) :
    Exhausts ctx flow x (⟨i, y.session⟩ :: vs) := by
  obtain ⟨-, -, hQueue, -⟩ := describes_of_turn hTurn
  have hSettled : ∀ j, Settled flow (enqueue { y with session := σ } flow distance items) vs j →
      Settled flow x (⟨i, y.session⟩ :: vs) j := fun j hj => Settled.of_performs hTurn hj
  refine ⟨?_, ?_, ?_, ?_⟩
  · intro j hj
    rw [hQueue, List.mem_cons] at hj
    rcases hj with rfl | hj
    · exact Or.inr (Or.inr ⟨_, List.mem_cons_self, rfl, rfl⟩)
    · exact hSettled j (h.queued j (List.mem_append_left _ hj))
  · intro v hv
    rcases List.mem_cons.mp hv with rfl | hv
    · refine ⟨items, σ, hResult, fun j hj => ?_⟩
      -- what is not queued was explored before the next visit, maybe by this one
      by_cases hOld : y.isExplored flow j = true
      · exact Settled.of_performs hTurn (Or.inr (Or.inl hOld))
      · have hQueued : { j with distance := distance } ∈
            (enqueue { y with session := σ } flow distance items).queue := by
          refine List.mem_append_right _ (List.mem_map.mpr ⟨j, ?_, rfl⟩)
          exact List.mem_filter.mpr ⟨hj, by simpa using hOld⟩
        exact (hSettled _ (h.queued _ hQueued)).congr rfl rfl
    · obtain ⟨items', σ', hResult', hItems⟩ := h.returned v hv
      exact ⟨items', σ', hResult', fun j hj => hSettled j (hItems j hj)⟩
  · intro v hv
    rcases List.mem_cons.mp hv with rfl | hv
    · exact not_isExplored_performs hTurn
    · have hFresh := h.fresh v hv
      rw [isExplored_enqueue, isExplored_session] at hFresh
      by_contra hOld
      rw [(isExplored_performs hTurn).mpr (Or.inl (by simpa using hOld))] at hFresh
      cases hFresh
  · refine List.pairwise_cons.mpr ⟨?_, h.once⟩
    -- a later visit of the same state would have been of one that is remembered
    intro w hw hBranches hSame
    have hFresh := h.fresh w hw
    rw [isExplored_enqueue, isExplored_session] at hFresh
    have hRemembered : y.isExplored flow w.item = true := by
      refine (isExplored_performs hTurn).mpr (Or.inr ⟨?_, hSame⟩)
      rw [show w.item.index = i.index from hSame.1]
      exact hBranches
    rw [hRemembered] at hFresh
    cases hFresh

/-- **The visits of a run that ends as `ok` do all that was left.** -/
theorem exhausts_of_explore {n : Nat} (h : explore ctx flow cancelled n x = some (.ok, y)) :
    Exhausts ctx flow x (x.visits ctx flow cancelled n) := by
  induction n generalizing x with
  | zero => cases h
  | succ n ih =>
    rw [explore_succ] at h
    rw [visits_succ]
    cases hTurn : x.turn ctx flow cancelled with
    | skips z =>
      rw [hTurn] at h
      exact exhausts_of_skips hTurn (ih h)
    | stops outcome z =>
      rw [hTurn] at h
      cases h
      rcases describes_of_turn hTurn with ⟨-, hQueue⟩ | ⟨hOutcome, -⟩ | hOutcome
      · refine ⟨fun i hi => ?_, fun v hv => absurd hv (List.not_mem_nil),
          fun v hv => absurd hv (List.not_mem_nil), List.Pairwise.nil⟩
        rw [hQueue] at hi
        cases hi
      · cases hOutcome
      · cases hOutcome
    | performs i z =>
      rw [hTurn] at h
      cases hResult : (⟨i, z.session⟩ : Visit).result ctx flow with
      | error e σ =>
        rw [progress_of_error hResult] at h
        cases h
      | ok items σ =>
        rw [progress_of_ok hResult] at h ⊢
        exact exhausts_of_performs hTurn hResult (ih h)

end Exploration

namespace Analysis

open Exploration

/-- **An `ok` outcome means that everything was explored.** If the parameters can be
narrowed at the start, the visits of the analysis contain the first instruction in the
state of the start, they all succeed and return only what another visit takes up or
what is past the end, and no state at a branching instruction is visited twice. -/
theorem ok_visits_exhaustive {ctx : Context} {cancelled : Nat → Bool} {rounds : Nat} {a : Arena}
    {flow : Flow} {s : State} {x : Analysis}
    (hRun : run ctx cancelled rounds a (some flow) = some x) (hOk : x.outcome = .ok)
    (hEntry : entry a flow.notNullParams .initial = .ok s) :
    (∃ v ∈ visits ctx cancelled rounds a flow, v.index = 0 ∧ v.state = s) ∧
    (∀ v ∈ visits ctx cancelled rounds a flow, ∃ items σ, v.result ctx flow = .ok items σ ∧
      ∀ i ∈ items, i.index < flow.size →
        ∃ w ∈ visits ctx cancelled rounds a flow, w.index = i.index ∧ w.state = i.state) ∧
    (visits ctx cancelled rounds a flow).Pairwise fun v w =>
      flow.branchesAt v.index = true → ¬(w.index = v.index ∧ w.state = v.state) := by
  obtain ⟨hBranches, hShape⟩ := explores_of_ok hRun hOk
  rw [run_eq_explore hBranches hShape hEntry, Option.map_eq_some_iff] at hRun
  obtain ⟨⟨outcome, y⟩, hExplore, rfl⟩ := hRun
  cases hOk
  rw [visits_eq_visits hBranches hShape hEntry]
  have hExhausts := exhausts_of_explore hExplore
  -- nothing is explored at the start, so what is settled inside the flow was visited
  have hVisited : ∀ i : Item, i.index < flow.size →
      Settled flow (beginning a flow s) ((beginning a flow s).visits ctx flow cancelled rounds) i →
      ∃ w ∈ (beginning a flow s).visits ctx flow cancelled rounds,
        w.index = i.index ∧ w.state = i.state := by
    rintro i hi (hEnd | hOld | hVisit)
    · rw [Flow.get?, Array.getElem?_eq_none_iff] at hEnd
      exact absurd hi (by simpa [Flow.size] using hEnd)
    · rw [isExplored_iff] at hOld
      exact absurd hOld.2 (List.not_mem_nil)
    · exact hVisit
  refine ⟨?_, ?_, hExhausts.once⟩
  · have hFirst := hExhausts.queued ⟨0, s, 0⟩ List.mem_cons_self
    exact hVisited _ (Flow.size_pos_of_validate hShape) hFirst
  · intro v hv
    obtain ⟨items, σ, hResult, hItems⟩ := hExhausts.returned v hv
    exact ⟨items, σ, hResult, fun i hi hInside => hVisited i hInside (hItems i hi)⟩

/-- A loop that is left when a variable is false is explored to the end. -/
theorem loop_visits_exhaustive :
    let ctx : Context := ⟨.usual, default, .usual⟩
    let a : Arena := ⟨#[.unknown, .var ⟨.localVar "b" false, none, .bool none⟩]⟩
    let flow : Flow := ⟨#[.push 1 none, .branch 3 true none, .goto 0, .ret], []⟩
    ∃ x, run ctx (fun _ => false) 20 a (some flow) = some x ∧ x.outcome = .ok ∧
      ∃ v ∈ visits ctx (fun _ => false) 20 a flow, v.index = 0 ∧ v.state = .initial := by
  intro ctx a flow
  have hOk : (run ctx (fun _ => false) 20 a (some flow)).map (·.outcome) = some .ok := by
    decide +kernel
  obtain ⟨x, hRun, hOutcome⟩ := Option.map_eq_some_iff.mp hOk
  exact ⟨x, hRun, hOutcome, (ok_visits_exhaustive hRun hOutcome rfl).1⟩

end Analysis

end Pathwise
