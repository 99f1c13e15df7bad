import Mathlib.Data.List.Nodup
import Mathlib.Data.List.Perm.Subperm
import Pathwise.Flow.Basic

/-!
# The check of a flow

`Flow.depths` looks at the successors of one instruction after the other. It is given
as many rounds as there are instructions, and this suffices: an instruction is put on
the list when its depth becomes known, which happens once. So when the rounds are used
up the list is empty, and the table that comes out is *closed*: whatever instruction it
knows, the instruction has the values that it takes, and the table knows every way on.

The induction keeps a list `done` of the instructions whose successors have been looked
at. What is known is what is done or still on the list, without repetitions.

## Results

* `follow_spec`   — what one way on adds to the table.
* `depths_closed` — the table that comes out is closed.
-/

namespace Pathwise.Flow

/-- A table of stack depths tells the depth at each way on from an instruction that it
knows, and the instruction has the values that it takes. -/
def Settled (flow : Flow) (known : OrdMap Nat Nat) (index : Nat) : Prop :=
  ∃ i depth, flow.get? index = some i ∧ known.get? index = some depth ∧ i.pops ≤ depth ∧
    ∀ e ∈ edges index depth i, e.1 = flow.size ∨ known.get? e.1 = some e.2

/-- What a table knows, another one knows as well. -/
def Extends (known known' : OrdMap Nat Nat) : Prop :=
  ∀ index depth, known.get? index = some depth → known'.get? index = some depth

theorem Extends.rfl {known : OrdMap Nat Nat} : Extends known known := fun _ _ h => h

theorem Extends.trans {k₁ k₂ k₃ : OrdMap Nat Nat} (h : Extends k₁ k₂) (h' : Extends k₂ k₃) :
    Extends k₁ k₃ := fun index depth hKnown => h' index depth (h index depth hKnown)

theorem Settled.extend {flow : Flow} {known known' : OrdMap Nat Nat} {index : Nat}
    (h : Settled flow known index) (hExtends : Extends known known') :
    Settled flow known' index := by
  obtain ⟨i, depth, hGet, hKnown, hPops, hEdges⟩ := h
  refine ⟨i, depth, hGet, hExtends _ _ hKnown, hPops, ?_⟩
  intro e he
  exact (hEdges e he).imp id (hExtends _ _)

/-- The bookkeeping of the check: the instructions that are known are those that are done
and those that are still on the list, each one once. -/
structure Tracked (flow : Flow) (done : List Nat) (d : Depths) : Prop where
  start  : d.known.get? 0 = some 0
  nodup  : (done ++ d.todo).Nodup
  found  : ∀ index depth, d.known.get? index = some depth → index ∈ done ++ d.todo
  known  : ∀ index ∈ done ++ d.todo, ∃ depth, d.known.get? index = some depth
  inside : ∀ index ∈ done ++ d.todo, index < flow.size

variable {flow : Flow} {done : List Nat} {d d' : Depths} {index : Nat}

/-- There are no more different instructions than the flow has. -/
theorem length_le_size {l : List Nat} (hNodup : l.Nodup) (hInside : ∀ k ∈ l, k < flow.size) :
    l.length ≤ flow.size := by
  have hSubset : l ⊆ List.range flow.size := fun k hk => List.mem_range.mpr (hInside k hk)
  have hLength := (List.Nodup.subperm hNodup hSubset).length_le
  rwa [List.length_range] at hLength

-- ---------------------------------------------------------------------------
-- One instruction
-- ---------------------------------------------------------------------------

/-- An instruction whose depth becomes known is put on the list, for the first time. -/
theorem Tracked.find {target depth : Nat} (h : Tracked flow done d)
    (hNew : d.known.get? target = none) (hInside : target < flow.size) :
    Tracked flow done ⟨d.known.insert target depth, d.todo ++ [target]⟩ ∧
      Extends d.known (d.known.insert target depth) := by
  have hFresh : target ∉ done ++ d.todo := by
    intro hMem
    obtain ⟨found, hKnown⟩ := h.known _ hMem
    rw [hNew] at hKnown
    cases hKnown
  have hInsert : ∀ k, (d.known.insert target depth).get? k =
      if target = k then some depth else d.known.get? k := fun k => OrdMap.get?_insert
  have hExtends : Extends d.known (d.known.insert target depth) := by
    intro k found hKnown
    have hNe : target ≠ k := by
      rintro rfl
      rw [hNew] at hKnown
      cases hKnown
    rw [hInsert, if_neg hNe, hKnown]
  have hMem : ∀ {k}, k ∈ done ++ (d.todo ++ [target]) ↔ k ∈ done ++ d.todo ∨ k = target := by
    intro k
    rw [← List.append_assoc, List.mem_append, List.mem_singleton]
  refine ⟨⟨hExtends _ _ h.start, ?_, ?_, ?_, ?_⟩, hExtends⟩
  · show (done ++ (d.todo ++ [target])).Nodup
    rw [← List.append_assoc]
    exact List.Nodup.append h.nodup (List.nodup_singleton _) (by simpa using hFresh)
  · intro k found hKnown
    rw [hInsert] at hKnown
    split at hKnown
    · rename_i hSame
      exact hMem.mpr (Or.inr hSame.symm)
    · exact hMem.mpr (Or.inl (h.found k found hKnown))
  · intro k hk
    rcases hMem.mp hk with hk | rfl
    · obtain ⟨found, hKnown⟩ := h.known k hk
      exact ⟨found, hExtends _ _ hKnown⟩
    · exact ⟨depth, by rw [hInsert, if_pos rfl]⟩
  · intro k hk
    rcases hMem.mp hk with hk | rfl
    · exact h.inside k hk
    · exact hInside

/-- One way on: the table knows its target then, and still what it knew before. -/
theorem follow_spec {e : Nat × Nat} (h : flow.follow index e d = .ok d')
    (hTracked : Tracked flow done d) :
    Tracked flow done d' ∧ Extends d.known d'.known ∧
      (e.1 = flow.size ∨ d'.known.get? e.1 = some e.2) := by
  rw [follow] at h
  split at h
  · cases h
  · split at h
    · rename_i hEnd
      cases h
      exact ⟨hTracked, .rfl, Or.inl hEnd⟩
    · split at h
      · rename_i hNew
        cases h
        obtain ⟨hTracked', hExtends⟩ := hTracked.find hNew (by omega)
        refine ⟨hTracked', hExtends, Or.inr ?_⟩
        show (d.known.insert e.1 e.2).get? e.1 = some e.2
        rw [OrdMap.get?_insert, if_pos rfl]
      · rename_i found hFound
        split at h
        · rename_i hSame
          cases h
          exact ⟨hTracked, .rfl, Or.inr (by rw [hFound, hSame])⟩
        · cases h

/-- All ways on, one after the other. -/
theorem followAll_spec {es : List (Nat × Nat)} (h : flow.followAll index es d = .ok d')
    (hTracked : Tracked flow done d) :
    Tracked flow done d' ∧ Extends d.known d'.known ∧
      ∀ e ∈ es, e.1 = flow.size ∨ d'.known.get? e.1 = some e.2 := by
  induction es generalizing d with
  | nil =>
    cases h
    exact ⟨hTracked, .rfl, by simp⟩
  | cons e es ih =>
    rw [followAll] at h
    cases hFollow : flow.follow index e d with
    | error _ =>
      rw [hFollow] at h
      cases h
    | ok d₁ =>
      rw [hFollow] at h
      obtain ⟨hTracked₁, hExtends₁, hEdge⟩ := follow_spec hFollow hTracked
      obtain ⟨hTracked', hExtends', hEdges⟩ := ih h hTracked₁
      refine ⟨hTracked', hExtends₁.trans hExtends', ?_⟩
      intro e' he
      rcases List.mem_cons.mp he with rfl | he
      · exact hEdge.imp id (hExtends' _ _)
      · exact hEdges e' he

/-- **The first instruction on the list is settled** and done. -/
theorem settle_spec {todo : List Nat} (hTodo : d.todo = index :: todo)
    (h : flow.settle index { d with todo := todo } = .ok d') (hTracked : Tracked flow done d) :
    Tracked flow (done ++ [index]) d' ∧ Extends d.known d'.known ∧
      Settled flow d'.known index := by
  have hSplit : done ++ d.todo = (done ++ [index]) ++ todo := by
    rw [hTodo, List.append_assoc, List.singleton_append]
  have hTracked₀ : Tracked flow (done ++ [index]) { d with todo := todo } := by
    refine ⟨hTracked.start, ?_, ?_, ?_, ?_⟩
    · exact hSplit ▸ hTracked.nodup
    · exact hSplit ▸ hTracked.found
    · exact hSplit ▸ hTracked.known
    · exact hSplit ▸ hTracked.inside
  have hMem : index ∈ done ++ d.todo := by simp [hTodo]
  obtain ⟨depth, hKnown⟩ := hTracked.known index hMem
  rw [settle] at h
  cases hGet : flow.get? index with
  | none =>
    have hInside : index < flow.size := hTracked.inside index hMem
    rw [get?, Array.getElem?_eq_none_iff] at hGet
    rw [size] at hInside
    omega
  | some i =>
    rw [hGet] at h
    dsimp only at h
    rw [hKnown, Option.getD_some] at h
    split at h
    · cases h
    · rename_i hPops
      obtain ⟨hTracked', hExtends, hEdges⟩ := followAll_spec h hTracked₀
      exact ⟨hTracked', hExtends, i, depth, hGet, hExtends _ _ hKnown, by omega, hEdges⟩

-- ---------------------------------------------------------------------------
-- The whole flow
-- ---------------------------------------------------------------------------

/-- As many rounds as there are instructions left to be done leave none on the list. -/
theorem depthsUpTo_spec {n : Nat} (h : flow.depthsUpTo n d = .ok d')
    (hTracked : Tracked flow done d) (hRounds : flow.size ≤ done.length + n)
    (hDone : ∀ k ∈ done, Settled flow d.known k) :
    ∃ done', Tracked flow done' d' ∧ d'.todo = [] ∧ ∀ k ∈ done', Settled flow d'.known k := by
  induction n generalizing d done with
  | zero =>
    cases h
    refine ⟨done, hTracked, ?_, hDone⟩
    have hLength := length_le_size hTracked.nodup hTracked.inside
    rw [List.length_append] at hLength
    exact List.length_eq_zero_iff.mp (by omega)
  | succ n ih =>
    rw [depthsUpTo] at h
    cases hTodo : d.todo with
    | nil =>
      rw [hTodo] at h
      cases h
      exact ⟨done, hTracked, hTodo, hDone⟩
    | cons index todo =>
      rw [hTodo] at h
      dsimp only at h
      cases hSettle : flow.settle index { d with todo := todo } with
      | error _ =>
        rw [hSettle] at h
        cases h
      | ok d₁ =>
        rw [hSettle] at h
        obtain ⟨hTracked₁, hExtends, hSettled⟩ := settle_spec hTodo hSettle hTracked
        refine ih h hTracked₁ (by rw [List.length_append, List.length_singleton]; omega) ?_
        intro k hk
        rcases List.mem_append.mp hk with hk | hk
        · exact (hDone k hk).extend hExtends
        · rw [List.mem_singleton] at hk
          exact hk ▸ hSettled

/-- At the start the first instruction is known, and nothing is done. -/
theorem tracked_start (hSize : flow.size ≠ 0) :
    Tracked flow [] ⟨OrdMap.empty.insert 0 0, [0]⟩ := by
  have hInsert : ∀ k, ((OrdMap.empty : OrdMap Nat Nat).insert 0 0).get? k =
      if 0 = k then some 0 else none := fun k => OrdMap.get?_insert
  refine ⟨by rw [hInsert, if_pos rfl], List.nodup_singleton 0, ?_, ?_, ?_⟩
  · intro k depth hKnown
    rw [hInsert] at hKnown
    split at hKnown
    · rename_i hZero
      exact List.mem_singleton.mpr hZero.symm
    · cases hKnown
  · intro k hk
    rw [List.nil_append, List.mem_singleton] at hk
    exact ⟨0, by rw [hInsert, if_pos hk.symm]⟩
  · intro k hk
    rw [List.nil_append, List.mem_singleton] at hk
    omega

/-- **The table of a flow that passes the check is closed**: it starts with an empty stack,
and is settled wherever it knows the depth. -/
theorem depths_closed {known : OrdMap Nat Nat} (h : flow.depths = .ok known) :
    known.get? 0 = some 0 ∧
      ∀ index depth, known.get? index = some depth → Settled flow known index := by
  rw [depths] at h
  split at h
  · cases h
  · rename_i hSize
    cases hUpTo : flow.depthsUpTo flow.size ⟨OrdMap.empty.insert 0 0, [0]⟩ with
    | error _ =>
      rw [hUpTo] at h
      cases h
    | ok d =>
      rw [hUpTo] at h
      cases h
      obtain ⟨done, hTracked, hTodo, hDone⟩ :=
        depthsUpTo_spec hUpTo (tracked_start hSize) (by simp) (by simp)
      refine ⟨hTracked.start, ?_⟩
      intro index depth hKnown
      have hMem := hTracked.found index depth hKnown
      rw [hTodo, List.append_nil] at hMem
      exact hDone index hMem

end Pathwise.Flow
