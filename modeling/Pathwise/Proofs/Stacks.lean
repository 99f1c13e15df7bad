import Pathwise.Proofs.Coherence
import Pathwise.Proofs.Steps

/-!
# What instructions do to the stack

Narrowing and updating a state leave its stack alone, and the mark of a path that assumes a
failure (`State.SameFrame`); only the instructions themselves move values. `Leads index depth i`
is the set of ways on from an instruction together with the stack depth there, as the check of a
flow computes it from the instruction alone (`Flow.edges`). A transfer takes an edge with an
empty stack, and what a branching instruction splits into takes the edges to its successors.

## Results

* `frame_apply`, `frame_assign`, …      — operations on facts and relations keep the rest.
* `flushAfterCall_of_forget`            — what is kept when a call forgets what it may change.
* `yields_mapM_returnFrom_eq`           — what a call goes on with.
* `leads_dispatch`                      — a transfer discards the stack.
* `yields_branch`, `yields_boolean`, …  — branching instructions.
-/

namespace Pathwise

/-- A narrowed state is the one that the attempt has come to. -/
theorem Narrowing.state?_eq_some {n : Narrowing} {s : State} :
    n.state? = some s ↔ n.feasible = true ∧ n.state = s := by
  rw [Narrowing.state?]
  split <;> simp_all

namespace State

variable {a : Arena} {s t u : State} {v source : ValueId} {f : Fact}

-- ---------------------------------------------------------------------------
-- Operations on facts and relations
-- ---------------------------------------------------------------------------

/-- **Only facts and relations differ**: the stack is the same, and so is the mark of a path
that was taken only because a failure was assumed. -/
structure SameFrame (s t : State) : Prop where
  stack       : t.stack = s.stack
  isEphemeral : t.isEphemeral = s.isEphemeral

theorem SameFrame.refl (s : State) : s.SameFrame s := ⟨rfl, rfl⟩

theorem SameFrame.trans (h : s.SameFrame t) (h' : t.SameFrame u) : s.SameFrame u :=
  ⟨h'.stack.trans h.stack, h'.isEphemeral.trans h.isEphemeral⟩

theorem frame_setFact : s.SameFrame (s.setFact a v f) := by
  rw [setFact]
  split
  · exact .refl s
  · split <;> exact ⟨rfl, rfl⟩

theorem frame_addLink {rel : Relation} : s.SameFrame (s.addLink v rel source) := by
  rw [addLink]
  split
  · exact ⟨rfl, rfl⟩
  · split <;> exact ⟨rfl, rfl⟩

/-- **The basic operations are on facts and relations**, whatever the facts. -/
theorem frame_invariant (a : Arena) (s : State) : Invariant a s.SameFrame fun _ => True where
  closed := ⟨fun _ => trivial, fun _ _ => trivial, fun _ _ => trivial, fun _ => trivial⟩
  declared _ := trivial
  fact _ := trivial
  store _ hs := hs.trans frame_setFact
  link _ _ hs := hs.trans frame_addLink
  forget hs := ⟨hs.stack, hs.isEphemeral⟩

theorem frame_meetFact : s.SameFrame (s.meetFact a v f).state :=
  (frame_invariant a s).meetFact trivial (.refl s)

theorem frame_apply {c : Condition} : s.SameFrame (s.apply a c).state :=
  (frame_invariant a s).apply (.refl s) c

theorem frame_flushVariable : s.SameFrame (s.flushVariable a v) :=
  (frame_invariant a s).flushVariable (.refl s)

theorem frame_flushFields : s.SameFrame (s.flushFields a) :=
  (frame_invariant a s).flushFields (.refl s)

theorem frame_assign : s.SameFrame (s.assign a v source) := by
  rw [assign]
  split
  · exact .refl s
  · split
    · exact frame_flushVariable.trans (frame_setFact.trans frame_addLink)
    · exact frame_flushVariable.trans frame_setFact

theorem frame_dropLocality : s.SameFrame (s.dropLocality a v).1 := by
  rcases (frame_invariant a s).dropLocality (v := v) (.refl s) with ⟨-, h⟩ | ⟨-, -, -, -, hSame⟩
  · exact h
  · rw [hSame]
    exact .refl s

/-- What changes only facts and relations at each step of a traversal does so over all. -/
theorem frame_foldl {β : Type} {g : State → β → State} (h : ∀ s b, SameFrame s (g s b))
    (bs : List β) (s : State) : s.SameFrame (bs.foldl g s) :=
  List.foldlRecOn _ _ (.refl s) fun t ht b _ => ht.trans (h t b)

/-- States with the same stack have the same depth. -/
theorem depth_congr {s t : State} (h : s.stack = t.stack) : s.depth = t.depth := by
  rw [depth, depth, h]

@[simp] theorem depth_push : (s.push v).depth = s.depth + 1 := rfl

end State

namespace Step

-- ---------------------------------------------------------------------------
-- What a call forgets
-- ---------------------------------------------------------------------------

/-- What is kept when a variable is forgotten is kept when a call forgets what it may change. -/
theorem flushAfterCall_of_forget {a : Arena} {P : State → Prop} {args : CallArgs} {s : State}
    (hForget : ∀ s v, P s → P (s.forget v)) (hs : P s) : P (flushAfterCall a args s) := by
  have hDependentsIf : ∀ (p : Bool) t v, P t → P (if p then t.flushDependents a v else t) := by
    intro p t v ht
    split
    · exact State.flushDependents_of_forget hForget ht
    · exact ht
  unfold flushAfterCall
  split
  · exact List.foldlRecOn _ _ (State.flushFields_of_forget hForget hs)
      fun t ht v _ => hDependentsIf _ t v ht
  · exact List.foldlRecOn _ _ (hDependentsIf _ s _ hs) fun t ht p _ => hDependentsIf _ t p.1 ht

theorem frame_flushAfterCall {a : Arena} {args : CallArgs} {s : State} :
    s.SameFrame (flushAfterCall a args s) :=
  flushAfterCall_of_forget (fun _ _ => (State.frame_invariant a s).forget) (.refl s)

/-- **After each result** a call forgets what it may change and goes on with the result, one item
for each. It asks for no values in this. -/
theorem yields_mapM_returnFrom_eq {index : Nat} {anchor : Option Anchor} {args : CallArgs}
    {σ : Session} (results : List (State × ValueId)) :
    Yields (results.mapM (returnFrom index anchor args)) σ fun items τ =>
      τ.arena = σ.arena ∧
      items = results.map fun r => next index ((flushAfterCall σ.arena args r.1).push r.2) := by
  induction results generalizing σ with
  | nil => exact yields_pure.mpr ⟨rfl, rfl⟩
  | cons r results ih =>
    have hReturn : Yields (returnFrom index anchor args r) σ fun it τ =>
        τ.arena = σ.arena ∧
          it = next index ((flushAfterCall σ.arena args r.1).push r.2) := by
      cases anchor <;> simp [returnFrom, yields_bind]
    rw [List.mapM_cons]
    refine hReturn.bind ?_
    rintro it τ ⟨hArena, rfl⟩
    refine Yields.bind ih ?_
    rintro its υ ⟨hArena', rfl⟩
    rw [yields_pure, hArena', hArena]
    exact ⟨rfl, rfl⟩

-- ---------------------------------------------------------------------------
-- Items that come out
-- ---------------------------------------------------------------------------

/-- All items are at one instruction with stacks of one depth. -/
def AllAt (index depth : Nat) (items : List Item) : Prop :=
  ∀ i ∈ items, i.index = index ∧ i.state.depth = depth

theorem allAt_nil (index depth : Nat) : AllAt index depth [] := by
  intro i hi
  cases hi

theorem allAt_singleton {index depth distance : Nat} {s : State} (h : s.depth = depth) :
    AllAt index depth [⟨index, s, distance⟩] := by
  intro i hi
  rw [List.mem_singleton] at hi
  subst hi
  exact ⟨rfl, h⟩

theorem AllAt.append {index depth : Nat} {is js : List Item} (hi : AllAt index depth is)
    (hj : AllAt index depth js) : AllAt index depth (is ++ js) := by
  intro i h
  rcases List.mem_append.mp h with h | h
  · exact hi i h
  · exact hj i h

/-- Every item takes a way on that the instruction has, with the stack depth that the
way has. -/
def Leads (index depth : Nat) (i : Instr) (items : List Item) : Prop :=
  ∀ it ∈ items, (it.index, it.state.depth) ∈ Flow.edges index depth i

theorem Leads.append {index depth : Nat} {i : Instr} {is js : List Item}
    (hi : Leads index depth i is) (hj : Leads index depth i js) :
    Leads index depth i (is ++ js) := by
  intro it h
  rcases List.mem_append.mp h with h | h
  · exact hi it h
  · exact hj it h

/-- Items at a successor with the stack that the instruction leaves take an edge. -/
theorem AllAt.leads {index depth target after : Nat} {i : Instr} {items : List Item}
    (h : AllAt target after items) (hTarget : target ∈ i.successors index)
    (hAfter : depth - i.pops + i.pushes = after) : Leads index depth i items := by
  intro it hit
  obtain ⟨hIndex, hDepth⟩ := h it hit
  refine List.mem_append_left _ (List.mem_map.mpr ⟨target, hTarget, ?_⟩)
  rw [hIndex, hDepth, hAfter]

/-- The clauses that may catch an exception continue at their targets. -/
theorem mem_caughtAt {s : State} {e : TypeDesc} {cs : List CatchClause} {it : Item}
    (h : it ∈ Transfer.caughtAt s e cs) : it.state = s ∧ it.index ∈ cs.map (·.target) := by
  induction cs with
  | nil => cases h
  | cons c cs ih =>
    rw [Transfer.caughtAt] at h
    rw [List.map_cons, List.mem_cons]
    split at h
    · rw [List.mem_singleton] at h
      subst h
      exact ⟨rfl, Or.inl rfl⟩
    · split at h
      · rcases List.mem_cons.mp h with rfl | h
        · exact ⟨rfl, Or.inl rfl⟩
        · exact ⟨(ih h).1, Or.inr (ih h).2⟩
      · exact ⟨(ih h).1, Or.inr (ih h).2⟩

/-- **A transfer discards the stack**: its items take the edges of the transfer. -/
theorem leads_dispatch {ctx : Context} (hHandler : ctx.handler = .usual) {index depth : Nat}
    {i : Instr} {t : Transfer} (hTransfer : i.transfer? = some t) (s : State) (ephemeral : Bool) :
    Leads index depth i (dispatch ctx s t ephemeral) := by
  intro it hit
  have hEdge : it.state.depth = 0 ∧ it.index ∈ t.targets := by
    rw [dispatch, hHandler] at hit
    cases t with
    | exit => cases hit
    | goto target =>
      rw [TransferHandler.usual, List.mem_singleton] at hit
      subst hit
      exact ⟨rfl, List.mem_singleton_self _⟩
    | throw e cs =>
      obtain ⟨hState, hTarget⟩ := mem_caughtAt hit
      rw [hState]
      exact ⟨rfl, hTarget⟩
  refine List.mem_append_right _ (List.mem_map.mpr ⟨it.index, ?_, ?_⟩)
  · rw [Instr.transferTargets, hTransfer]
    exact hEdge.2
  · rw [hEdge.1]

-- ---------------------------------------------------------------------------
-- Branching instructions
-- ---------------------------------------------------------------------------

section Branching

variable {index n : Nat} {anchor : Option Anchor} {s : State} {σ : Session}

theorem yields_branchWay (c : Condition) (taken : Bool) (target : Nat) :
    Yields (branchWay index anchor s c taken target) σ fun items _ =>
      AllAt target s.depth items := by
  rw [branchWay, yields_bind, yields_apply]
  split
  · simp only [yields_bind, yields_reach, yields_reportJump, yields_pure]
    exact allAt_singleton (State.depth_congr State.frame_apply.stack)
  · exact yields_pure.mpr (allAt_nil _ _)

theorem yields_booleanResult (outcome : Option Bool) :
    Yields (booleanResult index anchor s outcome) σ fun it _ =>
      it.index = index + 1 ∧ it.state.depth = s.depth + 1 := by
  unfold booleanResult
  cases outcome <;>
    simp [yields_bind, next]

theorem yields_outcomeIf (c : Condition) (outcome : Option Bool) :
    Yields (outcomeIf index anchor s c outcome) σ fun items _ =>
      AllAt (index + 1) (s.depth + 1) items := by
  rw [outcomeIf, yields_bind, yields_apply]
  split
  · refine (yields_booleanResult outcome).bind fun it τ hit => yields_pure.mpr ?_
    intro i hi
    rw [List.mem_singleton] at hi
    rw [hi, hit.2, State.depth_congr State.frame_apply.stack]
    exact ⟨hit.1, rfl⟩
  · exact yields_pure.mpr (allAt_nil _ _)

/-- A single boolean result is at the next instruction with one value more. -/
theorem yields_booleanResult_singleton (outcome : Option Bool) :
    Yields (do return [← booleanResult index anchor s outcome]) σ fun items _ =>
      AllAt (index + 1) (s.depth + 1) items := by
  refine (yields_booleanResult outcome).bind fun it τ hit => yields_pure.mpr ?_
  intro i hi
  rw [List.mem_singleton] at hi
  exact hi ▸ hit

theorem yields_branch {target : Nat} {negated : Bool} (hDepth : s.depth = n + 1) :
    Yields (branch index target negated anchor s) σ fun items _ =>
      Leads index (n + 1) (.branch target negated anchor) items := by
  have hTaken : ∀ {items : List Item}, AllAt target n items →
      Leads index (n + 1) (.branch target negated anchor) items := fun h =>
    h.leads (List.mem_cons_self) (by simp [Instr.pops, Instr.pushes])
  have hFallen : ∀ {items : List Item}, AllAt (index + 1) n items →
      Leads index (n + 1) (.branch target negated anchor) items := fun h =>
    h.leads (by simp [Instr.successors]) (by simp [Instr.pops, Instr.pushes])
  rw [branch, yields_bind]
  refine yields_pop hDepth fun v vs _ hLength => ?_
  simp only [yields_bind, yields_intern, yields_condition]
  split
  · exact (yields_branchWay _ _ _).mono fun items τ h => hTaken (hLength ▸ h)
  · split
    · exact (yields_branchWay _ _ _).mono fun items τ h => hFallen (hLength ▸ h)
    · refine (yields_branchWay _ _ _).bind fun taken τ hT => ?_
      refine (yields_branchWay _ _ _).bind fun fallen ρ hF => yields_pure.mpr ?_
      exact (hTaken (hLength ▸ hT)).append (hFallen (hLength ▸ hF))

theorem yields_not (hDepth : s.depth = n + 1) :
    Yields (not index anchor s) σ fun items _ => AllAt (index + 1) (n + 1) items := by
  rw [Step.not, yields_bind]
  refine yields_pop hDepth fun v vs _ hLength => ?_
  simp only [yields_bind, yields_intern, yields_condition]
  refine (yields_outcomeIf _ _).mono fun yes τ hYes => ?_
  refine (yields_outcomeIf _ _).mono fun no ρ hNo => yields_pure.mpr ?_
  exact hLength ▸ hYes.append hNo

theorem yields_compareByContent (rel : Relation) (left right : ValueId) :
    Yields (compareByContent index rel left right anchor s) σ fun items _ =>
      AllAt (index + 1) (s.depth + 1) items := by
  rw [compareByContent, yields_bind, yields_condition, yields_bind]
  refine (yields_outcomeIf _ _).mono fun equal τ hEqual => ?_
  exact (yields_outcomeIf _ _).bind fun different ρ hDifferent =>
    yields_pure.mpr (hEqual.append hDifferent)

theorem yields_compareCases (rel : Relation) (left right : ValueId) (subs : List Relation)
    {found : List Item} (hFound : AllAt (index + 1) (s.depth + 1) found) :
    Yields (compareCases index rel left right anchor s subs found) σ fun items _ =>
      AllAt (index + 1) (s.depth + 1) items := by
  induction subs generalizing found σ with
  | nil => exact yields_pure.mpr hFound
  | cons sub subs ih =>
    rw [compareCases, yields_bind, yields_condition]
    split
    · exact ih hFound
    · exact yields_booleanResult_singleton _
    · exact (yields_outcomeIf _ _).bind fun items τ hItems => ih (hFound.append hItems)

/-- An operand that may be a NaN is narrowed to one. -/
theorem frame_unordered? {a : Arena} {left right : ValueId} {u : State}
    (h : unordered? a s left right = some u) : s.SameFrame u := by
  have hNarrowed : ∀ m : Narrowing, s.SameFrame m.state → m.state? = some u → s.SameFrame u := by
    intro m hm hSome
    obtain ⟨-, rfl⟩ := Narrowing.state?_eq_some.mp hSome
    exact hm
  rw [unordered?] at h
  split at h
  · exact hNarrowed _ State.frame_meetFact h
  · split at h
    · exact hNarrowed _ State.frame_meetFact h
    · cases h

theorem yields_compare (rel : Relation) (left right : ValueId) :
    Yields (compare index rel left right anchor s) σ fun items _ =>
      AllAt (index + 1) (s.depth + 1) items := by
  have hRest : ∀ (unordered : List Item) (τ : Session),
      AllAt (index + 1) (s.depth + 1) unordered →
      Yields (do
        let items ← compareCases index rel left right anchor s rel.cases unordered
        if items.isEmpty then return [← booleanResult index anchor s (some false)]
        else return items) τ fun items _ => AllAt (index + 1) (s.depth + 1) items := by
    intro unordered τ hUnordered
    refine (yields_compareCases rel left right rel.cases hUnordered).bind fun items ρ hItems => ?_
    split
    · exact yields_booleanResult_singleton _
    · exact yields_pure.mpr hItems
  unfold compare
  rw [yields_bind, yields_arena]
  simp only []
  split
  · exact yields_compareByContent rel left right
  · split
    · rename_i u hUnordered
      have hStack : u.stack = s.stack := by
        split at hUnordered
        · exact (frame_unordered? hUnordered).stack
        · cases hUnordered
      refine (yields_booleanResult (some false)).bind fun it τ hit => ?_
      rw [pure_bind]
      refine hRest [it] τ ?_
      intro i hi
      rw [List.mem_singleton] at hi
      rw [hi, ← State.depth_congr hStack]
      exact hit
    · rw [pure_bind]
      exact hRest [] _ (allAt_nil _ _)

theorem yields_junction (isOr : Bool) (left right : ValueId) :
    Yields (junction index isOr left right anchor s) σ fun items _ =>
      AllAt (index + 1) (s.depth + 1) items := by
  rw [junction]
  simp only [yields_bind, yields_intern, yields_condition]
  refine (yields_outcomeIf _ _).mono fun decided τ hDecided => ?_
  rw [yields_apply]
  split
  · simp only [yields_bind, yields_fact, yields_reach, yields_pushResult, yields_pure]
    refine hDecided.append (allAt_singleton ?_)
    rw [State.depth_push, State.depth_congr State.frame_apply.stack]
  · exact yields_pure.mpr hDecided

theorem yields_boolean {op : BooleanOp} (hDepth : s.depth = n + 2) :
    Yields (boolean index op anchor s) σ fun items _ => AllAt (index + 1) (n + 1) items := by
  rw [boolean, yields_bind]
  refine yields_pop hDepth fun right vs _ hRight => ?_
  rw [yields_bind]
  refine yields_pop hRight fun left ws _ hLength => ?_
  subst hLength
  cases op with
  | relation rel => exact yields_compare rel left right
  | and => exact yields_junction false left right
  | or => exact yields_junction true left right

theorem yields_testInstance (left : ValueId) (c : Condition) (isUnknownType : Bool) :
    Yields (testInstance index anchor left c isUnknownType s) σ fun r _ =>
      AllAt (index + 1) (s.depth + 1) r.1 := by
  rw [testInstance, yields_bind, yields_fact, yields_bind]
  refine (yields_outcomeIf _ _).mono fun yes τ hYes => ?_
  rw [yields_bind, yields_apply]
  split
  · simp only [yields_bind, yields_arena]
    refine (yields_booleanResult (some false)).mono fun no ρ hNo => yields_pure.mpr ?_
    refine hYes.append ?_
    intro i hi
    rw [List.mem_singleton] at hi
    rw [hi, hNo.2]
    refine ⟨hNo.1, ?_⟩
    rw [Nat.add_right_cancel_iff]
    refine State.depth_congr ?_
    split
    · exact State.frame_apply.stack
    · exact State.frame_apply.stack
  · exact yields_pure.mpr hYes

theorem yields_testedType (isClassObject : Bool) (left right : ValueId) :
    Yields (testedType isClassObject left right s) σ fun _ _ => True := by
  rw [testedType]
  split
  · simp
  · rw [yields_bind, yields_fact]
    split
    · simp [yields_bind]
    · split
      · simp [yields_bind]
      · simp [yields_bind]

theorem yields_instanceOf {isClassObject : Bool} (hDepth : s.depth = n + 2) :
    Yields (instanceOf index isClassObject anchor s) σ fun items _ =>
      AllAt (index + 1) (n + 1) items := by
  have hRest : ∀ (useful : Bool) (items : List Item) (τ : Session),
      AllAt (index + 1) (n + 1) items →
      Yields (do
        if useful then
          record fun r => { r with usefulInstanceofs := r.usefulInstanceofs.insert index }
        return items) τ fun items _ => AllAt (index + 1) (n + 1) items := by
    intro useful items τ hItems
    split
    · exact yields_bind.mpr (yields_record.mpr (yields_pure.mpr hItems))
    · exact yields_pure.mpr hItems
  unfold instanceOf
  rw [yields_bind]
  refine yields_pop hDepth fun right vs _ hRight => ?_
  rw [yields_bind]
  refine yields_pop hRight fun left ws _ hLength => ?_
  subst hLength
  refine (yields_testedType isClassObject left right).bind fun r τ _ => ?_
  obtain ⟨right, c, isUnknownType⟩ := r
  rw [yields_bind, yields_arena]
  simp only []
  split
  · rw [yields_bind, yields_arena]
    refine (yields_booleanResult none).bind fun it ρ hit => ?_
    rw [pure_bind]
    refine hRest _ [it] ρ ?_
    intro i hi
    rw [List.mem_singleton] at hi
    exact hi ▸ hit
  · exact (yields_testInstance left c isUnknownType).bind fun r ρ hItems => hRest r.2 r.1 ρ hItems

end Branching

end Step

end Pathwise
