import Mathlib.Data.List.Forall2
import Pathwise.Proofs.StateCaps

/-!
# Exploration is breadth first

The queue of a run holds items of one distance, followed by items of the next one. A round takes
the first item away and puts what its visit has returned at the end, one step further than the item
was. States that are split, items that are skipped and duplicates that are dropped do not matter
for this, and neither does the distance that a handler has put on what it returns: it is replaced.

What the distance counts is made explicit by a list that is kept beside the queue, of the visits
that have led to each item (`Exploration.waysAfter`).

## Results

* `Exploration.Advances`          — all that a round does to the queue.
* `Exploration.levelled_after`    — the queue holds two levels at most.
* `Exploration.le_distance_after` — no later item is nearer than all that are queued.
* `Exploration.forall₂_way_after` — the distance of an item is the number of visits on its way.
* `Analysis.breadth_first`        — **the worklist is breadth first**.
-/

namespace Pathwise

namespace Exploration

variable {ctx : Context} {flow : Flow} {cancelled : Nat → Bool} {x y z : Exploration} {i : Item}
  {queue news : List Item} {s : State} {known : List (List Visit)} {made made' : List Visit}
  {n m d : Nat}

-- ---------------------------------------------------------------------------
-- Ways
-- ---------------------------------------------------------------------------

/-- The ways to the queued items after a turn: the way to the first item goes on with the visit
to each item that is queued. -/
def Turn.ways (ctx : Context) (flow : Flow) (ways : List (List Visit)) : Turn → List (List Visit)
  | performs i y =>
    match (⟨i, y.session⟩ : Visit).result ctx flow with
    | .ok items _ =>
      ways.tail ++ (items.filter fun j => !y.isExplored flow j).map fun _ =>
        ways.headD [] ++ [⟨i, y.session⟩]
    | .error _ _ => ways.tail
  | skips _ | stops _ _ => ways.tail

/-- The ways to the queued items after `n` rounds, if the run has not ended by then. -/
def waysAfter (ctx : Context) (flow : Flow) (cancelled : Nat → Bool) :
    Nat → Exploration → List (List Visit) → List (List Visit)
  | 0, _, ways => ways
  | n + 1, x, ways =>
    match x.round ctx flow cancelled with
    | .going y => y.waysAfter ctx flow cancelled n ((x.turn ctx flow cancelled).ways ctx flow ways)
    | .ended _ _ => []

theorem waysAfter_succ (h : (x.turn ctx flow cancelled).progress ctx flow = .going y) :
    x.waysAfter ctx flow cancelled (n + 1) known =
      y.waysAfter ctx flow cancelled n ((x.turn ctx flow cancelled).ways ctx flow known) := by
  rw [waysAfter, round_eq_turn, h]

/-- **What a round does to the queue** and to the ways. The first item leaves. If it is visited,
what the visit has returned comes last, and is one step further. -/
inductive Advances (ctx : Context) (flow : Flow) (x : Exploration) (t : Turn) (y : Exploration) :
    Prop where
  | drops {i : Item} : t.visit? = none → x.queue = i :: y.queue →
      (∀ ways, t.ways ctx flow ways = ways.tail) → Advances ctx flow x t y
  | visits {v : Visit} {queue news : List Item} : t.visit? = some v →
      x.queue = v.item :: queue → y.queue = queue ++ news →
      (∀ j ∈ news, j.distance = v.item.distance + 1 ∧ v.Returns ctx flow j.index j.state) →
      (∀ ways, t.ways ctx flow ways =
        ways.tail ++ news.map fun _ => ways.headD [] ++ [v]) → Advances ctx flow x t y

theorem advances_of_progress (h : (x.turn ctx flow cancelled).progress ctx flow = .going y) :
    Advances ctx flow x (x.turn ctx flow cancelled) y := by
  cases hTurn : x.turn ctx flow cancelled with
  | skips z =>
    obtain ⟨i, queue, hQueue, hRest, -⟩ := describes_of_turn hTurn
    rw [hTurn] at h
    cases h
    exact .drops rfl (by rw [hQueue, hRest]) fun _ => rfl
  | stops outcome z =>
    rw [hTurn] at h
    cases h
  | performs i z =>
    obtain ⟨-, -, hQueue, -⟩ := describes_of_turn hTurn
    rw [hTurn] at h
    cases hResult : (⟨i, z.session⟩ : Visit).result ctx flow with
    | error e σ =>
      rw [progress_of_error hResult] at h
      cases h
    | ok items σ =>
      rw [progress_of_ok hResult] at h
      cases h
      refine .visits rfl hQueue (queue_enqueue ..) ?_ ?_
      · intro j hj
        obtain ⟨k, hk, rfl⟩ := List.mem_map.mp hj
        exact ⟨rfl, items, σ, hResult, k, List.mem_of_mem_filter hk, rfl, rfl⟩
      · intro ways
        simp only [Turn.ways, hResult, List.map_map]
        rfl

-- ---------------------------------------------------------------------------
-- Levels
-- ---------------------------------------------------------------------------

/-- **The queue holds two levels at most**, the nearer one first. -/
def Levelled (queue : List Item) : Prop :=
  queue.Pairwise fun i j => i.distance ≤ j.distance ∧ j.distance ≤ i.distance + 1

/-- The level after the one of the first item may be added to, once that item has left. -/
theorem Levelled.append (h : Levelled (i :: queue))
    (hNews : ∀ j ∈ news, j.distance = i.distance + 1) : Levelled (queue ++ news) := by
  obtain ⟨hFirst, hRest⟩ := List.pairwise_cons.mp h
  refine List.pairwise_append.mpr ⟨hRest, ?_, ?_⟩
  · refine List.pairwise_of_forall_mem_list fun j hj k hk => ?_
    have hj := hNews j hj
    have hk := hNews k hk
    omega
  · intro j hj k hk
    have hj := hFirst j hj
    have hk := hNews k hk
    omega

/-- **A round keeps the levels.** -/
theorem levelled_progress (h : (x.turn ctx flow cancelled).progress ctx flow = .going y)
    (hx : Levelled x.queue) : Levelled y.queue := by
  cases advances_of_progress h with
  | drops hVisit hQueue hWays =>
    rw [hQueue] at hx
    exact (List.pairwise_cons.mp hx).2
  | visits hVisit hQueue hNext hNews hWays =>
    rw [hQueue] at hx
    rw [hNext]
    exact hx.append fun j hj => (hNews j hj).1

theorem levelled_after (h : x.after ctx flow cancelled n = some y) (hx : Levelled x.queue) :
    Levelled y.queue := by
  induction n generalizing x with
  | zero =>
    cases h
    exact hx
  | succ n ih =>
    obtain ⟨z, hProgress, hAfter⟩ := after_succ h
    exact ih hAfter (levelled_progress hProgress hx)

/-- A round queues nothing that is nearer than all that was queued. -/
theorem le_distance_progress (h : (x.turn ctx flow cancelled).progress ctx flow = .going y)
    (hx : ∀ i ∈ x.queue, d ≤ i.distance) : ∀ j ∈ y.queue, d ≤ j.distance := by
  intro j hj
  cases advances_of_progress h with
  | drops hVisit hQueue hWays =>
    rw [hQueue] at hx
    exact hx j (List.mem_cons_of_mem _ hj)
  | @visits v _ _ hVisit hQueue hNext hNews hWays =>
    rw [hQueue] at hx
    rw [hNext] at hj
    rcases List.mem_append.mp hj with hj | hj
    · exact hx j (List.mem_cons_of_mem _ hj)
    · have hFirst := hx v.item List.mem_cons_self
      have hLevel := (hNews j hj).1
      omega

theorem le_distance_after (h : x.after ctx flow cancelled n = some y)
    (hx : ∀ i ∈ x.queue, d ≤ i.distance) : ∀ j ∈ y.queue, d ≤ j.distance := by
  induction n generalizing x with
  | zero =>
    cases h
    exact hx
  | succ n ih =>
    obtain ⟨z, hProgress, hAfter⟩ := after_succ h
    exact ih hAfter (le_distance_progress hProgress hx)

/-- The first item is as near as any that is queued. -/
theorem Levelled.le_of_head (h : Levelled queue) (hi : i ∈ queue.head?) :
    ∀ j ∈ queue, i.distance ≤ j.distance := by
  intro j hj
  obtain ⟨rest, rfl⟩ := List.head?_eq_some_iff.mp hi
  rcases List.mem_cons.mp hj with rfl | hj
  · exact Nat.le_refl _
  · exact ((List.pairwise_cons.mp h).1 j hj).1

-- ---------------------------------------------------------------------------
-- Distances
-- ---------------------------------------------------------------------------

/-- **The visits of a way have produced an item**: the first one performs the initial item, and
each one the item that the one before it has returned. -/
inductive Produces (ctx : Context) (flow : Flow) (s : State) : List Visit → Item → Prop where
  | start : Produces ctx flow s [] ⟨0, s, 0⟩
  | visit {way : List Visit} {v : Visit} {i : Item} : Produces ctx flow s way v.item →
      v.Returns ctx flow i.index i.state → Produces ctx flow s (way ++ [v]) i

/-- **The way to a queued item**, which is as long as the item is distant. -/
structure Way (ctx : Context) (flow : Flow) (s : State) (made way : List Visit) (i : Item) :
    Prop where
  produces : Produces ctx flow s way i
  length   : way.length = i.distance
  /-- The visits are among those that were made. -/
  subset   : ∀ v ∈ way, v ∈ made

theorem Way.mono {way : List Visit} (h : Way ctx flow s made way i) (hMore : made ⊆ made') :
    Way ctx flow s made' way i :=
  ⟨h.produces, h.length, fun v hv => hMore (h.subset v hv)⟩

/-- One more visit goes on to what it has returned. -/
theorem Way.visit {way : List Visit} {v : Visit} (h : Way ctx flow s made way v.item)
    (hDistance : i.distance = v.item.distance + 1) (hReturns : v.Returns ctx flow i.index i.state) :
    Way ctx flow s (made ++ [v]) (way ++ [v]) i := by
  refine ⟨.visit h.produces hReturns, ?_, ?_⟩
  · rw [List.length_append, List.length_singleton, h.length, hDistance]
  · intro u hu
    rcases List.mem_append.mp hu with hu | hu
    · exact List.mem_append_left _ (h.subset u hu)
    · exact List.mem_append_right _ hu

/-- **A round keeps the ways** beside the items that they lead to. -/
theorem forall₂_way_progress (h : (x.turn ctx flow cancelled).progress ctx flow = .going y)
    (hx : List.Forall₂ (Way ctx flow s made) known x.queue) :
    List.Forall₂ (Way ctx flow s (made ++ (x.turn ctx flow cancelled).visit?.toList))
      ((x.turn ctx flow cancelled).ways ctx flow known) y.queue := by
  cases advances_of_progress h with
  | drops hVisit hQueue hWays =>
    rw [hQueue] at hx
    rw [hWays, hVisit]
    cases hx with
    | cons hFirst hRest =>
      exact hRest.imp fun way i hWay => hWay.mono (List.subset_append_left _ _)
  | @visits v queue news hVisit hQueue hNext hNews hWays =>
    rw [hQueue] at hx
    rw [hWays, hVisit, hNext]
    cases hx with
    | cons hFirst hRest =>
      refine List.rel_append ?_ ?_
      · exact hRest.imp fun way i hWay => hWay.mono (List.subset_append_left _ _)
      · rw [List.forall₂_map_left_iff, List.forall₂_same]
        intro j hj
        exact hFirst.visit (hNews j hj).1 (hNews j hj).2

/-- **The distance of a queued item is the number of visits on its way**, at all times. -/
theorem forall₂_way_after (h : x.after ctx flow cancelled n = some y)
    (hx : List.Forall₂ (Way ctx flow s made) known x.queue) :
    List.Forall₂ (Way ctx flow s (made ++ x.visits ctx flow cancelled n))
      (x.waysAfter ctx flow cancelled n known) y.queue := by
  induction n generalizing x known made with
  | zero =>
    cases h
    rw [visits, List.append_nil]
    exact hx
  | succ n ih =>
    obtain ⟨z, hProgress, hAfter⟩ := after_succ h
    have hNext := ih hAfter (forall₂_way_progress hProgress hx)
    rw [visits_succ, hProgress, ← List.append_assoc, waysAfter_succ hProgress]
    exact hNext

/-- A run after more rounds is the run of these rounds from then on. -/
theorem after_after (h : x.after ctx flow cancelled n = some y) :
    x.after ctx flow cancelled (n + m) = y.after ctx flow cancelled m := by
  induction n generalizing x with
  | zero =>
    cases h
    rw [Nat.zero_add]
  | succ n ih =>
    obtain ⟨z, hProgress, hAfter⟩ := after_succ h
    rw [Nat.add_right_comm, after, round_eq_turn, hProgress]
    exact ih hAfter

end Exploration

-- ---------------------------------------------------------------------------
-- Analyses
-- ---------------------------------------------------------------------------

namespace Analysis

open Exploration

variable {ctx : Context} {cancelled : Nat → Bool} {a : Arena} {flow : Flow} {x : Exploration}
  {rounds : Nat}

/-- The ways to the items that an analysis has queued after the given number of rounds. No visit
leads to the first item. -/
def ways (ctx : Context) (cancelled : Nat → Bool) (rounds : Nat) (a : Arena) (flow : Flow) :
    List (List Visit) :=
  match entry a flow.notNullParams .initial with
  | .ok s => (beginning a flow s).waysAfter ctx flow cancelled rounds [[]]
  | .error _ => []

/-- **The worklist is breadth first**, at all times of an analysis that explores, whatever a
handler returns:

* the queued items are in the order of their distances, and the last one is at most one step
  further than the first one;
* each item was produced by a way of visits, and its distance is the number of these visits;
* the item that is taken up next is as near as all that are queued then or later. -/
theorem breadth_first (h : stage ctx cancelled rounds a flow = some x) :
    Levelled x.queue ∧
    (∃ s, entry a flow.notNullParams .initial = .ok s ∧
      List.Forall₂ (Way ctx flow s (visits ctx cancelled rounds a flow))
        (ways ctx cancelled rounds a flow) x.queue) ∧
    ∀ later y, stage ctx cancelled (rounds + later) a flow = some y →
      ∀ i ∈ x.queue.head?, ∀ j ∈ y.queue, i.distance ≤ j.distance := by
  obtain ⟨s, hFew, hValid, hEntry, hAfter⟩ := exists_of_stage h
  have hLevelled : Levelled x.queue := levelled_after hAfter (List.pairwise_singleton _ _)
  refine ⟨hLevelled, ⟨s, hEntry, ?_⟩, ?_⟩
  · have hStart : List.Forall₂ (Way ctx flow s []) [[]] (beginning a flow s).queue :=
      .cons ⟨.start, rfl, nofun⟩ .nil
    have hWays := forall₂_way_after hAfter hStart
    rw [visits_eq_visits hFew hValid hEntry, ways, hEntry]
    exact hWays
  · intro later y hLater i hi
    rw [stage_eq hFew hValid hEntry, after_after hAfter] at hLater
    exact le_distance_after hLater (hLevelled.le_of_head hi)

/-- A handler that puts a distance on what it returns. -/
def farContext : Context :=
  ⟨.usual, default, fun t s => t.targets.map fun target => ⟨target, s, 7⟩⟩

/-- A test of a boolean, and a jump if it is false. -/
def jumpFlow : Flow :=
  ⟨#[.push 1 none, .branch 3 true none, .transfer (.goto 5), .push 1 none, .pop, .ret], []⟩

/-- The distance of the handler is replaced: after four rounds, three visits lead to the item after
the jump and to the other one that is queued. -/
theorem breadth_first_jump :
    (farContext.handler (.goto 5) .initial).map (·.distance) = [7] ∧
      ∃ x s, stage farContext (fun _ => false) 4 flagArena jumpFlow = some x ∧
        x.queue.map (fun i => (i.index, i.distance)) = [(4, 3), (5, 3)] ∧
        (ways farContext (fun _ => false) 4 flagArena jumpFlow).map (·.map (·.index)) =
          [[0, 1, 3], [0, 1, 2]] ∧
        Levelled x.queue ∧
        List.Forall₂
          (Way farContext jumpFlow s (visits farContext (fun _ => false) 4 flagArena jumpFlow))
          (ways farContext (fun _ => false) 4 flagArena jumpFlow) x.queue := by
  have hEval : (stage farContext (fun _ => false) 4 flagArena jumpFlow).map
      (fun x => x.queue.map fun i => (i.index, i.distance)) = some [(4, 3), (5, 3)] := by
    decide +kernel
  obtain ⟨x, hStage, hQueue⟩ := Option.map_eq_some_iff.mp hEval
  obtain ⟨hLevelled, ⟨s, -, hWays⟩, -⟩ := breadth_first hStage
  exact ⟨rfl, x, s, hStage, hQueue, by decide +kernel, hLevelled, hWays⟩

end Analysis

end Pathwise
