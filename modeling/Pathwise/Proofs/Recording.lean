import Pathwise.Proofs.Growth
import Pathwise.Proofs.Stacks

/-!
# What branches record

An instruction that has an outcome records it for every state that goes on, unless the state
is ephemeral. `Session.Later` says what such an instruction may do to a session: it asks for
more constants and records outcomes of its own index, and nothing that was there is lost.

What is recorded is said of the items that come out. An item of a conditional jump has taken a
way (`branchItem?`), and the way is recorded. Any other has a value on top of its stack:
`Settles` says that it is a constant that is recorded, which later steps keep, and `Shows`
that what is known of it is recorded.

## Results

* `later_reach`                                         — recording an outcome.
* `settled_booleanResult`, `settled_outcomeIf`          — single outcomes.
* `shown_not`, `shown_boolean`, `shown_instanceOf`      — the outcomes of what has pushed a value.
* `branch_ways`                                         — the ways of a conditional jump.
-/

namespace Pathwise

-- ---------------------------------------------------------------------------
-- Recorded outcomes
-- ---------------------------------------------------------------------------

namespace Reach

variable {r r' r'' : Reach} {outcome : Option Bool}

/-- The outcome is one of those that were reached, where no boolean stands for both. -/
def Covers (r : Reach) : Option Bool → Prop
  | some true => r.trueReached = true
  | some false => r.falseReached = true
  | Option.none => r.trueReached = true ∧ r.falseReached = true

/-- What one has reached, the other has reached as well. -/
structure Within (r r' : Reach) : Prop where
  whenTrue  : r.trueReached = true → r'.trueReached = true
  whenFalse : r.falseReached = true → r'.falseReached = true

theorem Within.refl (r : Reach) : r.Within r := ⟨id, id⟩

theorem Within.trans (h : r.Within r') (h' : r'.Within r'') : r.Within r'' :=
  ⟨h'.whenTrue ∘ h.whenTrue, h'.whenFalse ∘ h.whenFalse⟩

theorem Covers.mono (h : r.Covers outcome) (hWithin : r.Within r') : r'.Covers outcome := by
  match outcome with
  | some true => exact hWithin.whenTrue h
  | some false => exact hWithin.whenFalse h
  | Option.none => exact ⟨hWithin.whenTrue h.1, hWithin.whenFalse h.2⟩

/-- Where both outcomes were reached, any one is covered. -/
theorem Covers.any (h : r.Covers Option.none) : r.Covers outcome := by
  match outcome with
  | some true => exact h.1
  | some false => exact h.2
  | Option.none => exact h

theorem covers_add : (r.add outcome).Covers outcome := by
  match outcome with
  | some true => rfl
  | some false => rfl
  | Option.none => exact ⟨rfl, rfl⟩

theorem within_add : r.Within (r.add outcome) := by
  match outcome with
  | some true => exact ⟨fun _ => rfl, id⟩
  | some false => exact ⟨id, fun _ => rfl⟩
  | Option.none => exact ⟨fun _ => rfl, fun _ => rfl⟩

/-- Where only one outcome was reached, no other is covered. -/
theorem eq_some_of_covers {b : Bool} (h : Covers ⟨b, !b⟩ outcome) : outcome = some b := by
  match b, outcome with
  | true, some true => rfl
  | false, some false => rfl
  | true, some false => cases h
  | false, some true => cases h
  | true, Option.none => cases h.2
  | false, Option.none => cases h.1

end Reach

namespace Record

variable {r : Record} {index j : Nat} {outcome : Option Bool}

/-- The outcomes recorded of an instruction. -/
def outcomesAt (r : Record) (index : Nat) : Reach := (r.reach.get? index).getD .none

theorem outcomesAt_addReach_self :
    (r.addReach index outcome).outcomesAt index = (r.outcomesAt index).add outcome := by
  rw [outcomesAt, addReach, OrdMap.get?_insert, if_pos rfl]
  rfl

theorem get?_addReach_of_ne (h : j ≠ index) :
    (r.addReach index outcome).reach.get? j = r.reach.get? j := by
  rw [addReach, OrdMap.get?_insert, if_neg fun hEq => h hEq.symm]

end Record

/-- **What an instruction that has an outcome does to a session**: no value that was there
changes, no outcome is lost, and none is recorded elsewhere. -/
structure Session.Later (index : Nat) (σ τ : Session) : Prop where
  grows    : σ.arena.Grows τ.arena
  outcomes : (σ.record.outcomesAt index).Within (τ.record.outcomesAt index)
  others   : ∀ j, j ≠ index → τ.record.reach.get? j = σ.record.reach.get? j

namespace Session.Later

variable {index : Nat} {σ τ υ : Session}

theorem refl (σ : Session) : Later index σ σ := ⟨.refl _, .refl _, fun _ _ => rfl⟩

theorem trans (h : Later index σ τ) (h' : Later index τ υ) : Later index σ υ :=
  ⟨h.grows.trans h'.grows, h.outcomes.trans h'.outcomes,
    fun j hj => (h'.others j hj).trans (h.others j hj)⟩

/-- More values that are known by a fact. -/
theorem typed {f : Fact} : Later index σ { σ with arena := (σ.arena.typed f).2 } :=
  ⟨Arena.grows_typed, .refl _, fun _ _ => rfl⟩

/-- Neither events nor type tests matter. -/
theorem congr (hArena : τ.arena = σ.arena) (hReach : τ.record.reach = σ.record.reach) :
    Later index σ τ := by
  refine ⟨hArena ▸ .refl _, ?_, fun j _ => by rw [hReach]⟩
  rw [Record.outcomesAt, Record.outcomesAt, hReach]
  exact .refl _

/-- One more outcome. -/
theorem addReach {outcome : Option Bool} :
    Later index σ { σ with record := σ.record.addReach index outcome } := by
  refine ⟨.refl _, ?_, fun j hj => Record.get?_addReach_of_ne hj⟩
  rw [Record.outcomesAt_addReach_self]
  exact Reach.within_add

end Session.Later

namespace Step

open Session (Later)

variable {index : Nat} {anchor : Option Anchor} {s : State} {σ τ : Session} {it : Item}
  {is js items : List Item} {v left right : ValueId} {outcome : Option Bool}

-- ---------------------------------------------------------------------------
-- Single outcomes
-- ---------------------------------------------------------------------------

/-- Recording an outcome of a state that is not ephemeral. -/
theorem later_reach (outcome : Option Bool) :
    Yields (reach index s outcome) σ fun _ τ => Later index σ τ ∧ τ.arena = σ.arena ∧
      (s.isEphemeral = false → (τ.record.outcomesAt index).Covers outcome) := by
  rw [yields_reach]
  split
  · rename_i hMarked
    refine ⟨.refl σ, rfl, fun hs => ?_⟩
    rw [hMarked] at hs
    cases hs
  · refine ⟨.addReach, rfl, fun _ => ?_⟩
    dsimp only
    rw [Record.outcomesAt_addReach_self]
    exact Reach.covers_add

theorem later_pushResult (index : Nat) :
    Yields (pushResult anchor v s) σ fun t τ => t = s.push v ∧ Later index σ τ ∧
      τ.arena = σ.arena ∧ τ.record = σ.record := by
  rw [yields_pushResult]
  cases anchor with
  | none => exact ⟨rfl, .refl σ, rfl, rfl⟩
  | some a => exact ⟨rfl, .congr rfl rfl, rfl, rfl⟩

/-- The item is ephemeral, or it has a boolean constant on top of its stack that is recorded as
an outcome, or some value where both outcomes are recorded. -/
def Settles (index : Nat) (τ : Session) (it : Item) : Prop :=
  it.state.isEphemeral = false → ∃ v vs, it.state.stack = v :: vs ∧
    ((τ.record.outcomesAt index).Covers none ∨ ∃ b, v < τ.arena.size ∧
      τ.arena.get v = .typed (.ofBool b) ∧ (τ.record.outcomesAt index).Covers (some b))

/-- What is settled stays settled. -/
theorem Settles.later (h : Settles index σ it) (hLater : Later index σ τ) :
    Settles index τ it := by
  intro hs
  obtain ⟨v, vs, hStack, hCovers⟩ := h hs
  refine ⟨v, vs, hStack, ?_⟩
  rcases hCovers with hBoth | ⟨b, hv, hGet, hCovers⟩
  · exact Or.inl (hBoth.mono hLater.outcomes)
  · refine Or.inr ⟨b, Nat.lt_of_lt_of_le hv hLater.grows.size, ?_, hCovers.mono hLater.outcomes⟩
    rw [hLater.grows.get hv, hGet]

/-- The known boolean of the value on top of the stack. -/
def topOutcome (a : Arena) (s : State) : Option Bool :=
  s.peek?.bind fun v => (s.fact a v).bool?

theorem topOutcome_push {a : Arena} : topOutcome a (s.push v) = (s.fact a v).bool? := by
  show ((s.push v).fact a v).bool? = (s.fact a v).bool?
  rw [State.fact_congr (t := s.push v) (s := s) rfl]

/-- The item is ephemeral, or what is known of the value on top of its stack is recorded. -/
def Shows (index : Nat) (τ : Session) (it : Item) : Prop :=
  it.state.isEphemeral = false →
    (τ.record.outcomesAt index).Covers (topOutcome τ.arena it.state)

/-- What is known of a constant is the constant. -/
theorem Settles.shows (h : Settles index τ it) : Shows index τ it := by
  intro hs
  obtain ⟨v, vs, hStack, hCovers⟩ := h hs
  rcases hCovers with hBoth | ⟨b, -, hGet, hCovers⟩
  · exact hBoth.any
  · have hVariable : τ.arena.isVariable v = false :=
      Arena.isVariable_of_get_ne hGet (by simp)
    have hTop : topOutcome τ.arena it.state = some b := by
      rw [topOutcome, State.peek?, hStack, List.head?_cons, Option.bind_some,
        State.fact_of_not_variable hVariable, Arena.inherent, hGet]
      rfl
    rw [hTop]
    exact hCovers

/-- The session is a later one, and the items are settled. -/
def Settled (index : Nat) (σ : Session) (items : List Item) (τ : Session) : Prop :=
  Later index σ τ ∧ ∀ it ∈ items, Settles index τ it

theorem settled_nil : Settled index σ [] σ := ⟨.refl σ, nofun⟩

/-- Items that were settled before, and more that are. -/
theorem Settled.append (hi : ∀ it ∈ is, Settles index σ it) (hj : Settled index σ js τ) :
    Settled index σ (is ++ js) τ := by
  refine ⟨hj.1, fun it hit => ?_⟩
  rcases List.mem_append.mp hit with h | h
  · exact (hi it h).later hj.1
  · exact hj.2 it h

/-- Two steps, of which the second keeps what the first has settled. -/
theorem Settled.trans {υ : Session} (h : Later index σ τ) (h' : Settled index τ items υ) :
    Settled index σ items υ := ⟨h.trans h'.1, h'.2⟩

theorem settled_booleanResult (outcome : Option Bool) :
    Yields (booleanResult index anchor s outcome) σ fun it τ => Settled index σ [it] τ := by
  -- the value is settled as soon as the outcome is recorded
  have hRest : ∀ (v : ValueId) (σ' : Session), Later index σ σ' →
      (outcome = none ∨ ∃ b, outcome = some b ∧ v < σ'.arena.size ∧
        σ'.arena.get v = .typed (.ofBool b)) →
      Yields (do
        reach index s outcome
        return next index (← pushResult anchor v s)) σ' fun it τ => Settled index σ [it] τ := by
    intro v σ' hStart hValue
    refine (later_reach outcome).bind fun _ τ hReach => ?_
    obtain ⟨hLater, hArena, hCovers⟩ := hReach
    refine (later_pushResult index).bind fun t υ hPush => ?_
    obtain ⟨rfl, hPushed, hArena', hRecord⟩ := hPush
    refine yields_pure.mpr ⟨(hStart.trans hLater).trans hPushed, fun it hit hs => ?_⟩
    rw [List.mem_singleton.mp hit] at hs ⊢
    have hOutcome := hCovers hs
    refine ⟨v, s.stack, rfl, ?_⟩
    rw [hArena', hArena, hRecord]
    rcases hValue with rfl | ⟨b, rfl, hv, hGet⟩
    · exact Or.inl hOutcome
    · exact Or.inr ⟨b, hv, hGet, hOutcome⟩
  unfold booleanResult
  cases outcome with
  | none => exact yields_bind.mpr (yields_pure.mpr (hRest _ σ (.refl σ) (Or.inl rfl)))
  | some b =>
    refine yields_bind.mpr (yields_intern.mpr (hRest _ _ .typed (Or.inr ⟨b, rfl, ?_, ?_⟩)))
    · exact Arena.lt_size_intern
    · exact Arena.get_typed

theorem settled_singleton (outcome : Option Bool) :
    Yields (do return [← booleanResult index anchor s outcome]) σ (Settled index σ) :=
  (settled_booleanResult outcome).bind fun _ _ hit => yields_pure.mpr hit

theorem settled_outcomeIf (c : Condition) (outcome : Option Bool) :
    Yields (outcomeIf index anchor s c outcome) σ (Settled index σ) := by
  rw [outcomeIf, yields_bind, yields_apply]
  split
  · exact settled_singleton outcome
  · exact yields_pure.mpr settled_nil

-- ---------------------------------------------------------------------------
-- Branching instructions
-- ---------------------------------------------------------------------------

/-- Two outcomes, one after the other. -/
theorem settled_two {c d : Condition} {o o' : Option Bool} :
    Yields (do
      let yes ← outcomeIf index anchor s c o
      let no ← outcomeIf index anchor s d o'
      return yes ++ no) σ (Settled index σ) := by
  refine (settled_outcomeIf c o).bind fun yes τ hYes => ?_
  refine (settled_outcomeIf d o').bind fun no υ hNo => yields_pure.mpr ?_
  exact .trans hYes.1 (hNo.append hYes.2)

theorem settled_compareCases (rel : Relation) (left right : ValueId) (subs : List Relation)
    {found : List Item} (hFound : ∀ it ∈ found, Settles index σ it) :
    Yields (compareCases index rel left right anchor s subs found) σ (Settled index σ) := by
  induction subs generalizing found σ with
  | nil => exact yields_pure.mpr ⟨.refl σ, hFound⟩
  | cons sub subs ih =>
    rw [compareCases, yields_bind, yields_condition]
    split
    · exact ih hFound
    · exact settled_singleton _
    · refine (settled_outcomeIf _ _).bind fun items τ hItems => ?_
      exact (ih (hItems.append hFound).2).mono fun _ _ => .trans hItems.1

theorem settled_compare (rel : Relation) (left right : ValueId) :
    Yields (compare index rel left right anchor s) σ (Settled index σ) := by
  have hRest : ∀ (unordered : List Item) (τ : Session), Settled index σ unordered τ →
      Yields (do
        let items ← compareCases index rel left right anchor s rel.cases unordered
        if items.isEmpty then return [← booleanResult index anchor s (some false)]
        else return items) τ (Settled index σ) := by
    intro unordered τ hUnordered
    refine (settled_compareCases rel left right rel.cases hUnordered.2).bind ?_
    intro items υ hItems
    have hStart := hUnordered.1.trans hItems.1
    split
    · exact (settled_singleton _).mono fun _ _ => .trans hStart
    · exact yields_pure.mpr ⟨hStart, hItems.2⟩
  unfold compare
  rw [yields_bind, yields_arena]
  dsimp only
  split
  · rw [compareByContent, yields_bind, yields_condition]
    exact settled_two
  · split
    · refine (settled_booleanResult (some false)).bind fun it τ hit => ?_
      rw [pure_bind]
      exact hRest [it] τ hit
    · rw [pure_bind]
      exact hRest [] σ settled_nil

/-- The session is a later one, and what the items have on top of their stacks is recorded. -/
def Shown (index : Nat) (σ : Session) (items : List Item) (τ : Session) : Prop :=
  Later index σ τ ∧ ∀ it ∈ items, Shows index τ it

theorem Settled.shown (h : Settled index σ items τ) : Shown index σ items τ :=
  ⟨h.1, fun it hit => (h.2 it hit).shows⟩

/-- The left operand of a conjunction or disjunction is its result where the right one does not
decide, so it is recorded as far as it is known. -/
theorem shown_junction (isOr : Bool) (left right : ValueId) :
    Yields (junction index isOr left right anchor s) σ (Shown index σ) := by
  unfold junction
  rw [yields_bind, yields_intern, yields_bind, yields_condition]
  refine (settled_outcomeIf _ _).bind fun decided τ hDecided => ?_
  have hStart := Later.typed.trans hDecided.1
  rw [yields_bind, yields_apply]
  split
  · rw [yields_bind, yields_fact]
    refine (later_reach _).bind fun _ υ hReach => ?_
    obtain ⟨hLater, hArena, hCovers⟩ := hReach
    refine (later_pushResult index).bind fun t φ hPush => yields_pure.mpr ?_
    obtain ⟨rfl, hPushed, hArena', hRecord⟩ := hPush
    refine ⟨(hStart.trans hLater).trans hPushed, fun it hit => ?_⟩
    rcases List.mem_append.mp hit with hOld | hNew
    · exact (((hDecided.2 it hOld).later hLater).later hPushed).shows
    · intro hs
      rw [List.mem_singleton.mp hNew] at hs ⊢
      rw [hRecord, hArena', hArena]
      show Reach.Covers _ (topOutcome τ.arena (State.push _ left))
      rw [topOutcome_push]
      exact hCovers hs
  · exact yields_pure.mpr (Settled.shown ⟨hStart, hDecided.2⟩)

theorem settled_testInstance (left : ValueId) (c : Condition) (isUnknownType : Bool) :
    Yields (testInstance index anchor left c isUnknownType s) σ fun r τ =>
      Settled index σ r.1 τ := by
  rw [testInstance, yields_bind, yields_fact]
  refine (settled_outcomeIf _ _).bind fun yes τ hYes => ?_
  rw [yields_bind, yields_apply]
  split
  · rw [yields_bind, yields_arena]
    refine (settled_booleanResult (some false)).bind fun no υ hNo => yields_pure.mpr ?_
    exact .trans hYes.1 (hNo.append hYes.2)
  · exact yields_pure.mpr hYes

theorem later_testedType (index : Nat) (isClassObject : Bool) (left right : ValueId) :
    Yields (testedType isClassObject left right s) σ fun _ τ => Later index σ τ := by
  rw [testedType]
  split
  · exact yields_bind.mpr (yields_condition.mpr (yields_pure.mpr (.refl σ)))
  · rw [yields_bind, yields_fact]
    split
    · exact yields_bind.mpr (yields_intern.mpr (yields_bind.mpr
        (yields_condition.mpr (yields_pure.mpr .typed))))
    · split
      · exact yields_bind.mpr (yields_intern.mpr (yields_bind.mpr
          (yields_condition.mpr (yields_pure.mpr .typed))))
      · exact yields_bind.mpr (yields_intern.mpr (yields_bind.mpr
          (yields_condition.mpr (yields_pure.mpr .typed))))

-- ---------------------------------------------------------------------------
-- Visits that return
-- ---------------------------------------------------------------------------

/-- What a step that yields it returns is as the step yields it. -/
theorem Yields.of_ok {α : Type} {m : Step α} {Q : α → Session → Prop} {x : α}
    (h : Yields m σ Q) (hOk : m σ = .ok x τ) : Q x τ := by
  obtain ⟨y, υ, hResult, hQ⟩ := h
  rw [hOk] at hResult
  cases hResult
  exact hQ

/-- A step that returns has found the value that it takes first. -/
theorem exists_of_pop_bind_ok {α : Type} {f : ValueId × State → Step α} {x : α}
    (h : (pop index s >>= f) σ = .ok x τ) :
    ∃ v t, s.pop? = some (v, t) ∧ f (v, t) σ = .ok x τ := by
  rw [bind_eq, pop] at h
  cases hPop : s.pop? with
  | none =>
    rw [hPop] at h
    cases h
  | some r =>
    rw [hPop] at h
    exact ⟨r.1, r.2, rfl, h⟩

theorem shown_not (h : not index anchor s σ = .ok items τ) : Shown index σ items τ := by
  obtain ⟨v, t, -, hRest⟩ := exists_of_pop_bind_ok h
  refine Settled.shown (Yields.of_ok ?_ hRest)
  dsimp only
  rw [yields_bind, yields_intern, yields_bind, yields_condition]
  exact settled_two.mono fun _ _ => .trans .typed

theorem shown_boolean {op : BooleanOp} (h : boolean index op anchor s σ = .ok items τ) :
    Shown index σ items τ := by
  obtain ⟨right, t, -, hLeft⟩ := exists_of_pop_bind_ok h
  obtain ⟨left, u, -, hRest⟩ := exists_of_pop_bind_ok hLeft
  cases op with
  | relation rel => exact ((settled_compare rel left right).of_ok hRest).shown
  | and => exact (shown_junction false left right).of_ok hRest
  | or => exact (shown_junction true left right).of_ok hRest

theorem shown_instanceOf {isClassObject : Bool}
    (h : instanceOf index isClassObject anchor s σ = .ok items τ) : Shown index σ items τ := by
  have hRest : ∀ (useful : Bool) (items : List Item) (τ : Session), Settled index σ items τ →
      Yields (do
        if useful then
          record fun r => { r with usefulInstanceofs := r.usefulInstanceofs.insert index }
        return items) τ (Settled index σ) := by
    intro useful items τ hItems
    split
    · rw [yields_bind, yields_record, yields_pure]
      have hRecorded : Later index τ { τ with record :=
          { τ.record with usefulInstanceofs := τ.record.usefulInstanceofs.insert index } } :=
        .congr rfl rfl
      exact ⟨hItems.1.trans hRecorded, fun it hit => (hItems.2 it hit).later hRecorded⟩
    · exact yields_pure.mpr hItems
  obtain ⟨right, t, -, hLeft⟩ := exists_of_pop_bind_ok h
  obtain ⟨left, u, -, hOk⟩ := exists_of_pop_bind_ok hLeft
  refine Settled.shown (Yields.of_ok ?_ hOk)
  refine (later_testedType index isClassObject left right).bind ?_
  rintro ⟨right, c, isUnknownType⟩ υ hTested
  rw [yields_bind, yields_arena]
  dsimp only
  split
  · rw [yields_bind, yields_arena]
    refine (settled_booleanResult none).bind fun it φ hit => ?_
    rw [pure_bind]
    exact hRest _ [it] φ (.trans hTested hit)
  · exact (settled_testInstance left c isUnknownType).bind fun r φ hr =>
      hRest r.2 r.1 φ (.trans hTested hr)

/-- The item of one way of a conditional jump, if the state allows that way. -/
def branchItem? (a : Arena) (index target : Nat) (negated : Bool) (s : State) (taken : Bool) :
    Option Item := do
  let (v, s) ← s.pop?
  let (expected, a) := a.bool !negated
  let jump := Condition.of a v .eq expected
  let n := s.apply a (if taken then jump else jump.negated)
  if n.feasible then some ⟨if taken then target else index + 1, n.state, 0⟩ else none

theorem yields_branchWay_item (c : Condition) (taken : Bool) (target : Nat) :
    Yields (branchWay index anchor s c taken target) σ fun items τ => Later index σ τ ∧
      τ.arena = σ.arena ∧
      items = (if (s.apply σ.arena c).feasible then
        [⟨target, (s.apply σ.arena c).state, 0⟩] else []) ∧
      ∀ it ∈ items, it.state.isEphemeral = false →
        (τ.record.outcomesAt index).Covers (some taken) := by
  rw [branchWay, yields_bind, yields_apply]
  split
  · refine (later_reach _).bind fun _ τ hReach => ?_
    obtain ⟨hLater, hArena, hCovers⟩ := hReach
    have hJump : Yields (reportJump anchor taken) τ fun _ υ =>
        Later index τ υ ∧ υ.arena = τ.arena ∧ υ.record = τ.record := by
      rw [yields_reportJump]
      cases anchor with
      | none => exact ⟨.refl τ, rfl, rfl⟩
      | some a => exact ⟨.congr rfl rfl, rfl, rfl⟩
    refine hJump.bind fun _ υ hReport => yields_pure.mpr ?_
    obtain ⟨hReported, hArena', hRecord⟩ := hReport
    refine ⟨hLater.trans hReported, hArena'.trans hArena, rfl, fun it hit hs => ?_⟩
    rw [List.mem_singleton.mp hit] at hs
    rw [hRecord]
    exact hCovers hs
  · exact yields_pure.mpr ⟨.refl σ, rfl, rfl, fun _ hit => absurd hit List.not_mem_nil⟩

section Ways

variable {a : Arena} {target : Nat} {negated taken : Bool} {t : State} {jump : Condition}

/-- The item of a way, once the condition of the jump is known. -/
theorem branchItem?_of_pop (hPop : s.pop? = some (v, t))
    (hJump : jump = .of (a.bool !negated).2 v .eq (a.bool !negated).1) :
    (branchItem? a index target negated s taken).toList =
      if (t.apply (a.bool !negated).2 (if taken then jump else jump.negated)).feasible then
        [⟨if taken then target else index + 1,
          (t.apply (a.bool !negated).2 (if taken then jump else jump.negated)).state, 0⟩]
      else [] := by
  rw [branchItem?, hPop, hJump]
  exact apply_ite Option.toList _ _ _

/-- A way whose condition never holds has no item. -/
theorem branchItem?_of_never (hPop : s.pop? = some (v, t))
    (hJump : jump = .of (a.bool !negated).2 v .eq (a.bool !negated).1)
    (hNever : (if taken then jump else jump.negated) = .never) :
    (branchItem? a index target negated s taken).toList = [] := by
  rw [branchItem?_of_pop hPop hJump, hNever]
  rfl

/-- A way is followed to its item, and it is recorded that it was taken. -/
theorem yields_way (hPop : s.pop? = some (v, t)) (hArena : σ.arena = (a.bool !negated).2)
    (hJump : jump = .of (a.bool !negated).2 v .eq (a.bool !negated).1) (target : Nat)
    (taken : Bool) :
    Yields (branchWay index anchor t (if taken then jump else jump.negated) taken
        (if taken then target else index + 1)) σ fun items τ =>
      Later index σ τ ∧ τ.arena = σ.arena ∧
        items = (branchItem? a index target negated s taken).toList ∧
        ∀ it ∈ items, it.state.isEphemeral = false →
          (τ.record.outcomesAt index).Covers (some taken) := by
  rw [branchItem?_of_pop hPop hJump, ← hArena]
  exact yields_branchWay_item _ _ _

end Ways

/-- **A conditional jump goes on as its ways say**, and records for each way that it was
taken. -/
theorem branch_ways {target : Nat} {negated : Bool}
    (h : branch index target negated anchor s σ = .ok items τ) :
    Later index σ τ ∧
      items = (branchItem? σ.arena index target negated s true).toList ++
        (branchItem? σ.arena index target negated s false).toList ∧
      ∀ taken, ∀ it ∈ (branchItem? σ.arena index target negated s taken).toList,
        it.state.isEphemeral = false → (τ.record.outcomesAt index).Covers (some taken) := by
  obtain ⟨v, t, hPop, hRest⟩ := exists_of_pop_bind_ok h
  obtain ⟨jump, hJump⟩ : ∃ c, c = Condition.of (σ.arena.bool !negated).2 v .eq
    (σ.arena.bool !negated).1 := ⟨_, rfl⟩
  have hStart : Later index σ { σ with arena := (σ.arena.bool !negated).2 } := .typed
  refine Yields.of_ok (Q := fun items τ => Later index σ τ ∧
    items = (branchItem? σ.arena index target negated s true).toList ++
      (branchItem? σ.arena index target negated s false).toList ∧
    ∀ taken, ∀ it ∈ (branchItem? σ.arena index target negated s taken).toList,
      it.state.isEphemeral = false → (τ.record.outcomesAt index).Covers (some taken)) ?_ hRest
  dsimp only
  rw [yields_bind, yields_intern, yields_bind, yields_condition, ← hJump]
  split
  · -- a jump that is always taken has one way only
    rename_i hAlways
    subst hAlways
    refine (yields_way hPop rfl hJump target true).mono fun items τ hTaken => ?_
    obtain ⟨hLater, -, rfl, hCovers⟩ := hTaken
    have hNone : (branchItem? σ.arena index target negated s false).toList = [] :=
      branchItem?_of_never hPop hJump rfl
    rw [hNone]
    refine ⟨hStart.trans hLater, (List.append_nil _).symm, Bool.forall_bool.mpr ⟨?_, hCovers⟩⟩
    rw [hNone]
    nofun
  · split
    · -- so has one that never is
      rename_i hNever
      have hJumpNever : jump = .never := by
        cases jump with
        | never => rfl
        | always | relation => cases hNever
      subst hJumpNever
      refine (yields_way hPop rfl hJump target false).mono fun items τ hFallen => ?_
      obtain ⟨hLater, -, rfl, hCovers⟩ := hFallen
      have hNone : (branchItem? σ.arena index target negated s true).toList = [] :=
        branchItem?_of_never hPop hJump rfl
      rw [hNone]
      refine ⟨hStart.trans hLater, rfl, Bool.forall_bool.mpr ⟨hCovers, ?_⟩⟩
      rw [hNone]
      nofun
    · refine (yields_way hPop rfl hJump target true).bind fun taken τ hTaken => ?_
      obtain ⟨hLater, hArena, rfl, hCovers⟩ := hTaken
      refine (yields_way hPop hArena hJump target false).bind fun fallen υ hFallen => ?_
      obtain ⟨hLater', -, rfl, hCovers'⟩ := hFallen
      refine yields_pure.mpr ⟨(hStart.trans hLater).trans hLater', rfl,
        Bool.forall_bool.mpr ⟨hCovers', fun it hit hs => ?_⟩⟩
      exact (hCovers it hit hs).mono hLater'.outcomes

end Step

end Pathwise
