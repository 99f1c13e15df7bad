import Pathwise.Proofs.Depths

/-!
# What the check of a flow accepts

A flow is well shaped if one can write a stack depth at every instruction that is reached,
such that what each instruction does to the stack agrees with the depths on both sides
(`Shapes`). Nothing in this speaks of an order in which the instructions are looked at.

The check looks at them in one order, and gives an instruction the depth that it finds
there first. Both come to the same:

* What the check knows when it ends without a fault is such a labelling, since the table is
  closed (`depths_closed`).
* Where there is such a labelling, every depth that the check finds is the one of the
  labelling (`Faithful`), so two ways to an instruction cannot disagree, and there is no
  fault to report.

The check is also given as a loop whose rounds are not counted (`Checks`), and that loop
ends for every flow.

## Results

* `shapes_of_validate`          — a flow that passes is well shaped.
* `depthsUpTo_ok`               — a well-shaped flow has no fault.
* `checks_depthsUpTo`           — the loop ends, with what the counted rounds find.
* `validate_iff_well_shaped`    — the check accepts exactly the well-shaped flows, and ends.
-/

namespace Pathwise.Flow

-- ---------------------------------------------------------------------------
-- Well-shaped flows
-- ---------------------------------------------------------------------------

/-- Both kinds of ways on from an instruction. -/
def LeadsTo (index : Nat) (i : Instr) (target : Nat) : Prop :=
  target ∈ i.successors index ∨ target ∈ i.transferTargets

/-- The instructions that are reached from the first one. -/
inductive Reaches (flow : Flow) : Nat → Prop
  | start (hSize : 0 < flow.size) : Reaches flow 0
  | step {index target : Nat} {i : Instr} (hReaches : Reaches flow index)
      (hGet : flow.get? index = some i) (hLeads : LeadsTo index i target)
      (hInside : target < flow.size) : Reaches flow target

/-- The depths are those of a stack that is empty at first, and that each instruction that is
reached leaves as it says: a successor keeps the rest of it, a transfer discards it. -/
structure Shapes (flow : Flow) (depth : Nat → Nat) : Prop where
  start : depth 0 = 0
  pops : ∀ index i, flow.Reaches index → flow.get? index = some i → i.pops ≤ depth index
  target : ∀ index i target, flow.Reaches index → flow.get? index = some i →
    LeadsTo index i target → target ≤ flow.size
  successor : ∀ index i target, flow.Reaches index → flow.get? index = some i →
    target ∈ i.successors index → target < flow.size →
      depth target = depth index - i.pops + i.pushes
  transfer : ∀ index i target, flow.Reaches index → flow.get? index = some i →
    target ∈ i.transferTargets → target < flow.size → depth target = 0

variable {flow : Flow} {depth : Nat → Nat} {d d' : Depths} {index : Nat} {i : Instr}

-- ---------------------------------------------------------------------------
-- A flow that passes is well shaped
-- ---------------------------------------------------------------------------

theorem mem_edges_of_successor {target n : Nat} (h : target ∈ i.successors index) :
    (target, n - i.pops + i.pushes) ∈ edges index n i :=
  List.mem_append_left _ (List.mem_map.mpr ⟨target, h, rfl⟩)

theorem mem_edges_of_transfer {target n : Nat} (h : target ∈ i.transferTargets) :
    (target, 0) ∈ edges index n i :=
  List.mem_append_right _ (List.mem_map.mpr ⟨target, h, rfl⟩)

/-- Either way on is an edge. -/
theorem LeadsTo.exists_mem_edges {target n : Nat} (h : LeadsTo index i target) :
    ∃ m, (target, m) ∈ edges index n i := by
  rcases h with h | h
  · exact ⟨_, mem_edges_of_successor h⟩
  · exact ⟨_, mem_edges_of_transfer h⟩

/-- What a closed table knows of an instruction with a known depth. -/
theorem Settled.at {known : OrdMap Nat Nat} {n : Nat} (h : Settled flow known index)
    (hGet : flow.get? index = some i) (hKnown : known.get? index = some n) :
    i.pops ≤ n ∧ ∀ e ∈ edges index n i, e.1 = flow.size ∨ known.get? e.1 = some e.2 := by
  obtain ⟨i', n', hGet', hKnown', hPops, hEdges⟩ := h
  obtain rfl : i' = i := Option.some.inj (hGet'.symm.trans hGet)
  obtain rfl : n' = n := Option.some.inj (hKnown'.symm.trans hKnown)
  exact ⟨hPops, hEdges⟩

/-- A closed table knows every instruction that is reached. -/
theorem Reaches.known {known : OrdMap Nat Nat} (hStart : known.get? 0 = some 0)
    (hClosed : ∀ index n, known.get? index = some n → Settled flow known index)
    (h : flow.Reaches index) : ∃ n, known.get? index = some n := by
  induction h with
  | start => exact ⟨0, hStart⟩
  | step _ hGet hLeads hInside ih =>
    obtain ⟨n, hKnown⟩ := ih
    obtain ⟨m, hEdge⟩ := hLeads.exists_mem_edges (n := n)
    refine ⟨m, ?_⟩
    rcases ((hClosed _ _ hKnown).at hGet hKnown).2 _ hEdge with hEnd | hTarget
    · exact absurd hEnd (by dsimp only; omega)
    · exact hTarget

/-- A closed table is a labelling of the instructions that are reached. -/
theorem shapes_of_closed {known : OrdMap Nat Nat} (hStart : known.get? 0 = some 0)
    (hClosed : ∀ index n, known.get? index = some n → Settled flow known index) :
    flow.Shapes fun index => (known.get? index).getD 0 := by
  -- at an instruction that is reached the depth is one that the table knows
  have hAt : ∀ index i, flow.Reaches index → flow.get? index = some i →
      i.pops ≤ (known.get? index).getD 0 ∧
        ∀ e ∈ edges index ((known.get? index).getD 0) i,
          e.1 = flow.size ∨ known.get? e.1 = some e.2 := by
    intro index i hReaches hGet
    obtain ⟨n, hKnown⟩ := hReaches.known hStart hClosed
    rw [hKnown, Option.getD_some]
    exact (hClosed _ _ hKnown).at hGet hKnown
  refine ⟨by rw [hStart, Option.getD_some], ?_, ?_, ?_, ?_⟩
  · intro index i hReaches hGet
    exact (hAt index i hReaches hGet).1
  · intro index i target hReaches hGet hLeads
    obtain ⟨m, hEdge⟩ := hLeads.exists_mem_edges (n := (known.get? index).getD 0)
    rcases (hAt index i hReaches hGet).2 _ hEdge with hEnd | hTarget
    · exact Nat.le_of_eq hEnd
    · obtain ⟨_, _, hGet', -⟩ := hClosed _ _ hTarget
      exact Nat.le_of_lt (Array.getElem?_eq_some_iff.mp hGet').1
  · intro index i target hReaches hGet hMem hInside
    rcases (hAt index i hReaches hGet).2 _ (mem_edges_of_successor hMem) with hEnd | hTarget
    · exact absurd hEnd (by dsimp only; omega)
    · rw [hTarget, Option.getD_some]
  · intro index i target hReaches hGet hMem hInside
    rcases (hAt index i hReaches hGet).2 _ (mem_edges_of_transfer hMem) with hEnd | hTarget
    · exact absurd hEnd (by dsimp only; omega)
    · rw [hTarget, Option.getD_some]

/-- **A flow that passes the check is well shaped.** -/
theorem shapes_of_validate (h : flow.validate = .ok ()) :
    0 < flow.size ∧ ∃ depth, flow.Shapes depth := by
  rw [validate] at h
  cases hDepths : flow.depths with
  | error e =>
    rw [hDepths] at h
    cases h
  | ok known =>
    obtain ⟨hStart, hClosed⟩ := depths_closed hDepths
    obtain ⟨_, _, hGet, -⟩ := hClosed 0 0 hStart
    exact ⟨(Array.getElem?_eq_some_iff.mp hGet).1, _, shapes_of_closed hStart hClosed⟩

-- ---------------------------------------------------------------------------
-- A well-shaped flow passes
-- ---------------------------------------------------------------------------

/-- The check knows only instructions that are reached, with the depths of the labelling. -/
def Faithful (flow : Flow) (depth : Nat → Nat) (d : Depths) : Prop :=
  ∀ index n, d.known.get? index = some n → flow.Reaches index ∧ depth index = n

/-- Where an edge leads, the labelling has the depth of the edge. -/
theorem Shapes.edge (h : flow.Shapes depth) (hReaches : flow.Reaches index)
    (hGet : flow.get? index = some i) {e : Nat × Nat} (he : e ∈ edges index (depth index) i) :
    e.1 ≤ flow.size ∧ (e.1 < flow.size → flow.Reaches e.1 ∧ depth e.1 = e.2) := by
  rcases List.mem_append.mp he with he | he
  · obtain ⟨target, hMem, rfl⟩ := List.mem_map.mp he
    refine ⟨h.target _ _ _ hReaches hGet (.inl hMem), fun hInside => ?_⟩
    exact ⟨hReaches.step hGet (.inl hMem) hInside, h.successor _ _ _ hReaches hGet hMem hInside⟩
  · obtain ⟨target, hMem, rfl⟩ := List.mem_map.mp he
    refine ⟨h.target _ _ _ hReaches hGet (.inr hMem), fun hInside => ?_⟩
    exact ⟨hReaches.step hGet (.inr hMem) hInside, h.transfer _ _ _ hReaches hGet hMem hInside⟩

/-- A way on that agrees with the labelling is no fault. -/
theorem follow_ok (index : Nat) {e : Nat × Nat} (hFaithful : Faithful flow depth d)
    (hInside : e.1 ≤ flow.size) (hAgrees : e.1 < flow.size → flow.Reaches e.1 ∧ depth e.1 = e.2) :
    ∃ d', flow.follow index e d = .ok d' ∧ Faithful flow depth d' := by
  rw [follow, if_neg (by omega)]
  split
  · exact ⟨d, rfl, hFaithful⟩
  · rename_i hEnd
    obtain ⟨hReaches, hDepth⟩ := hAgrees (by omega)
    cases hKnown : d.known.get? e.1 with
    | none =>
      refine ⟨_, rfl, ?_⟩
      intro k n hk
      dsimp only at hk
      rw [OrdMap.get?_insert] at hk
      split at hk
      · rename_i hSame
        cases hk
        exact hSame ▸ ⟨hReaches, hDepth⟩
      · exact hFaithful k n hk
    | some found =>
      -- what was found before is the depth of the labelling, as the edge has it
      have hFound : found = e.2 := (hFaithful _ _ hKnown).2.symm.trans hDepth
      exact ⟨d, if_pos hFound, hFaithful⟩

theorem followAll_ok {es : List (Nat × Nat)} (hFaithful : Faithful flow depth d)
    (hEdges : ∀ e ∈ es,
      e.1 ≤ flow.size ∧ (e.1 < flow.size → flow.Reaches e.1 ∧ depth e.1 = e.2)) :
    ∃ d', flow.followAll index es d = .ok d' ∧ Faithful flow depth d' := by
  induction es generalizing d with
  | nil => exact ⟨d, rfl, hFaithful⟩
  | cons e es ih =>
    obtain ⟨hInside, hAgrees⟩ := hEdges e List.mem_cons_self
    obtain ⟨d₁, hFollow, hFaithful₁⟩ := follow_ok index hFaithful hInside hAgrees
    rw [followAll, hFollow]
    exact ih hFaithful₁ fun e he => hEdges e (List.mem_cons_of_mem _ he)

/-- An instruction with a known depth is settled without a fault. -/
theorem settle_ok (h : flow.Shapes depth) (hFaithful : Faithful flow depth d) {n : Nat}
    (hKnown : d.known.get? index = some n) :
    ∃ d', flow.settle index d = .ok d' ∧ Faithful flow depth d' := by
  obtain ⟨hReaches, rfl⟩ := hFaithful _ _ hKnown
  rw [settle]
  cases hGet : flow.get? index with
  | none => exact ⟨d, rfl, hFaithful⟩
  | some i =>
    have hPops : ¬ depth index < i.pops := Nat.not_lt.mpr (h.pops _ _ hReaches hGet)
    dsimp only
    rw [hKnown, Option.getD_some, if_neg hPops]
    exact followAll_ok hFaithful fun e he => h.edge hReaches hGet he

/-- **A well-shaped flow has no fault**, in however many rounds. -/
theorem depthsUpTo_ok {n : Nat} {done : List Nat} (h : flow.Shapes depth)
    (hTracked : Tracked flow done d) (hFaithful : Faithful flow depth d) :
    ∃ d', flow.depthsUpTo n d = .ok d' := by
  induction n generalizing d done with
  | zero => exact ⟨d, rfl⟩
  | succ n ih =>
    rw [depthsUpTo]
    cases hTodo : d.todo with
    | nil => exact ⟨d, rfl⟩
    | cons index todo =>
      obtain ⟨m, hKnown⟩ := hTracked.known index (by simp [hTodo])
      obtain ⟨d₁, hSettle, hFaithful₁⟩ : ∃ d', flow.settle index { d with todo := todo } = .ok d' ∧
          Faithful flow depth d' := settle_ok h hFaithful hKnown
      obtain ⟨hTracked₁, -, -⟩ := settle_spec hTodo hSettle hTracked
      dsimp only
      rw [hSettle]
      exact ih hTracked₁ hFaithful₁

/-- At the start the labelling is right. -/
theorem faithful_start (h : flow.Shapes depth) (hSize : 0 < flow.size) :
    Faithful flow depth ⟨OrdMap.empty.insert 0 0, [0]⟩ := by
  intro index n hKnown
  dsimp only at hKnown
  rw [OrdMap.get?_insert] at hKnown
  split at hKnown
  · rename_i hZero
    cases hKnown
    exact hZero ▸ ⟨.start hSize, h.start⟩
  · cases hKnown

-- ---------------------------------------------------------------------------
-- The loop
-- ---------------------------------------------------------------------------

/-- The check as a loop: it goes on until no instruction is left to be looked at, or there is
a fault. -/
inductive Checks (flow : Flow) : Depths → Except FlowError Depths → Prop
  | done {d : Depths} (hTodo : d.todo = []) : Checks flow d (.ok d)
  | fault {d : Depths} {index : Nat} {todo : List Nat} {e : FlowError}
      (hTodo : d.todo = index :: todo)
      (hSettle : flow.settle index { d with todo := todo } = .error e) :
      Checks flow d (.error e)
  | next {d d' : Depths} {index : Nat} {todo : List Nat} {r : Except FlowError Depths}
      (hTodo : d.todo = index :: todo)
      (hSettle : flow.settle index { d with todo := todo } = .ok d')
      (hRest : Checks flow d' r) : Checks flow d r

/-- The loop leaves nothing open: it has one result. -/
theorem Checks.unique {r r' : Except FlowError Depths} (h : flow.Checks d r)
    (h' : flow.Checks d r') : r = r' := by
  induction h with
  | done hTodo =>
    cases h' with
    | done => rfl
    | fault hTodo' => cases hTodo.symm.trans hTodo'
    | next hTodo' => cases hTodo.symm.trans hTodo'
  | fault hTodo hSettle =>
    cases h' with
    | done hTodo' => cases hTodo.symm.trans hTodo'
    | fault hTodo' hSettle' =>
      cases hTodo.symm.trans hTodo'
      exact hSettle.symm.trans hSettle' ▸ rfl
    | next hTodo' hSettle' =>
      cases hTodo.symm.trans hTodo'
      cases hSettle.symm.trans hSettle'
  | next hTodo hSettle _ ih =>
    cases h' with
    | done hTodo' => cases hTodo.symm.trans hTodo'
    | fault hTodo' hSettle' =>
      cases hTodo.symm.trans hTodo'
      cases hSettle.symm.trans hSettle'
    | next hTodo' hSettle' hRest' =>
      cases hTodo.symm.trans hTodo'
      cases hSettle.symm.trans hSettle'
      exact ih hRest'

/-- **The loop ends**, and a round for each instruction that is not done is enough. -/
theorem checks_depthsUpTo {n : Nat} {done : List Nat} (hTracked : Tracked flow done d)
    (hRounds : flow.size ≤ done.length + n) : flow.Checks d (flow.depthsUpTo n d) := by
  induction n generalizing d done with
  | zero =>
    have hLength := length_le_size hTracked.nodup hTracked.inside
    rw [List.length_append] at hLength
    exact .done (List.length_eq_zero_iff.mp (by omega))
  | succ n ih =>
    rw [depthsUpTo]
    cases hTodo : d.todo with
    | nil => exact .done hTodo
    | cons index todo =>
      dsimp only
      cases hSettle : flow.settle index { d with todo := todo } with
      | error e => exact .fault hTodo hSettle
      | ok d₁ =>
        obtain ⟨hTracked₁, -, -⟩ := settle_spec hTodo hSettle hTracked
        refine .next hTodo hSettle (ih hTracked₁ ?_)
        rw [List.length_append, List.length_singleton]
        omega

/-- With no instructions, the loop has nothing to look at. -/
theorem checks_of_empty (hSize : flow.size = 0) :
    flow.Checks ⟨OrdMap.empty.insert 0 0, [0]⟩ (.ok ⟨OrdMap.empty.insert 0 0, []⟩) := by
  have hGet : flow.get? 0 = none := Array.getElem?_eq_none_iff.mpr (Nat.le_of_eq hSize)
  exact .next rfl (by rw [settle, hGet]) (.done rfl)

-- ---------------------------------------------------------------------------
-- The check
-- ---------------------------------------------------------------------------

/-- The check of a flow with instructions is what its rounds find. -/
theorem validate_eq (hSize : flow.size ≠ 0) :
    flow.validate =
      (flow.depthsUpTo flow.size ⟨OrdMap.empty.insert 0 0, [0]⟩).map fun _ => () := by
  rw [validate, depths, if_neg hSize]
  cases flow.depthsUpTo flow.size ⟨OrdMap.empty.insert 0 0, [0]⟩ <;> rfl

/-- **The check accepts exactly the well-shaped flows**, and its loop ends for every flow. -/
theorem validate_iff_well_shaped (flow : Flow) :
    (flow.validate = .ok () ↔ 0 < flow.size ∧ ∃ depth, flow.Shapes depth) ∧
      ∃ result,
        (∀ r, flow.Checks ⟨OrdMap.empty.insert 0 0, [0]⟩ r ↔ r = result) ∧
        flow.validate =
          if flow.size = 0 then .error .emptyFlow else result.map fun _ => () := by
  have hOnly : ∀ {result}, flow.Checks ⟨OrdMap.empty.insert 0 0, [0]⟩ result →
      ∀ r, flow.Checks ⟨OrdMap.empty.insert 0 0, [0]⟩ r ↔ r = result := by
    intro result h r
    exact ⟨fun h' => h'.unique h, fun hSame => hSame ▸ h⟩
  refine ⟨⟨shapes_of_validate, ?_⟩, ?_⟩
  · rintro ⟨hSize, depth, hShapes⟩
    have hSize' : flow.size ≠ 0 := Nat.ne_of_gt hSize
    obtain ⟨d, hUpTo⟩ := depthsUpTo_ok (n := flow.size) hShapes (tracked_start hSize')
      (faithful_start hShapes hSize)
    rw [validate_eq hSize', hUpTo]
    rfl
  · by_cases hSize : flow.size = 0
    · refine ⟨_, hOnly (checks_of_empty hSize), ?_⟩
      rw [if_pos hSize, validate, depths, if_pos hSize]
      rfl
    · have hEnds := checks_depthsUpTo (n := flow.size) (tracked_start hSize) (by simp)
      refine ⟨_, hOnly hEnds, ?_⟩
      rw [if_neg hSize, validate_eq hSize]

end Pathwise.Flow
