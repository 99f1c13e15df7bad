import Pathwise.Proofs.Interning
import Pathwise.Proofs.Narrowing

/-!
# States are canonical

Paths that know the same are to be explored once, so a state is to have one form: facts are
stored for variables only, and none is stored that says nothing or that the declaration of the
variable says anyway. A relation is recorded between two different variables, the one of
smaller index on the left, and it is a comparison.

Whatever is done to a state, it does not leave this form. For facts this is a matter of
`setFact`, through which all of them are stored. For relations, one operation records at most
one, of two different variables and after some were forgotten (`Moves.links`).

## Results

* `State.Moves`, `State.Arises` — one operation on an arena and a state, and any number of them.
* `Moves.links`                 — what one operation does to the recorded relations.
* `State.Canonical`             — the form of states.
* `canonical_of_arises`         — all states have it.
* `Canonical.ext`               — and differ if and only if they know something different.
-/

namespace Pathwise

theorem Arena.Becomes.trans {a b c : Arena} (h : a.Becomes b) (h' : b.Becomes c) :
    a.Becomes c := by
  induction h' with
  | refl => exact h
  | ask _ hr ih => exact ih.ask hr

namespace State

variable {a b : Arena} {s t : State} {f : Fact} {rel : Relation} {u v : ValueId} {l : Link}

-- ---------------------------------------------------------------------------
-- Operations
-- ---------------------------------------------------------------------------

/-- **One operation** on an arena and a state. Assuming a condition or narrowing a fact may fail,
and leaves the state as far as it was narrowed. -/
inductive Moves (a : Arena) (s : State) : Arena → State → Prop where
  | ask {r : Arena.Request} {v : ValueId} {b : Arena} : a.Answers r v b → Moves a s b s
  | push (v : ValueId) : Moves a s a (s.push v)
  | pop {v : ValueId} {t : State} : s.pop? = some (v, t) → Moves a s a t
  | clearStack : Moves a s a s.clearStack
  | markEphemeral : Moves a s a s.markEphemeral
  | snapshot : Moves a s a s.snapshot
  | setFact (v : ValueId) (f : Fact) : Moves a s a (s.setFact a v f)
  | meetFact (v : ValueId) (f : Fact) : Moves a s a (s.meetFact a v f).state
  | apply (c : Condition) : Moves a s a (s.apply a c).state
  | flushVariable (v : ValueId) : Moves a s a (s.flushVariable a v)
  | flushFields : Moves a s a (s.flushFields a)
  | assign (v u : ValueId) : a.isVariable v = true → Moves a s a (s.assign a v u)
  | dropLocality (v : ValueId) : Moves a s (s.dropLocality a v).2.2 (s.dropLocality a v).1

/-- **The arenas and states that arise** from the new arena and the initial state by any number
of operations. -/
inductive Arises : Arena → State → Prop where
  | start : Arises .new .initial
  | move {a b : Arena} {s t : State} : Arises a s → Moves a s b t → Arises b t

/-- A value that escapes is replaced by another one, if at all. -/
theorem becomes_dropLocality (ha : a.Ordered) : a.Becomes (s.dropLocality a v).2.2 := by
  unfold dropLocality
  cases hv : a.get v with
  | var x => exact .refl
  | typed f =>
    dsimp only
    split
    · exact .ask .refl (r := .typed f.dropLocality) ⟨nofun, rfl⟩
    · exact .refl
  | wrapped l inner f =>
    have hInner : inner < a.size :=
      Nat.lt_trans (ha.inner_lt hv) (Arena.lt_size_of_get (hv ▸ nofun))
    dsimp only
    split
    · refine .ask .refl (r := .wrapped l inner f.dropLocality) ⟨fun u hu => ?_, rfl⟩
      rw [List.mem_singleton.mp hu]
      exact hInner
    · exact .refl
  | unknown => exact .refl

/-- An operation puts values into the arena by requests. -/
theorem Moves.becomes (h : Moves a s b t) (ha : a.Ordered) : a.Becomes b := by
  cases h with
  | ask hr => exact .ask .refl hr
  | dropLocality v => exact becomes_dropLocality ha
  | _ => exact .refl

theorem Arises.becomes (h : Arises a s) : Arena.new.Becomes a := by
  induction h with
  | start => exact .refl
  | move _ hMove ih => exact ih.trans (hMove.becomes (ih.ordered Arena.ordered_new))

theorem Arises.ordered (h : Arises a s) : a.Ordered := h.becomes.ordered Arena.ordered_new

-- ---------------------------------------------------------------------------
-- Relations
-- ---------------------------------------------------------------------------

/-- A relation may be recorded: it is a comparison of two different variables and contradicts
none that is recorded. -/
structure MayRecord (a : Arena) (s : State) (u : ValueId) (rel : Relation) (v : ValueId) :
    Prop where
  left       : a.isVariable u = true
  right      : a.isVariable v = true
  ne         : u ≠ v
  comparison : rel.isTypeTest = false
  compatible : s.contradictsLink u rel v = false

theorem links_addLink (h : t.links = s.links) :
    (t.addLink u rel v).links = (s.addLink u rel v).links := by
  unfold addLink
  split
  · rw [h]
  · split
    · rw [h]
    · exact h

/-- What is assumed is recorded if it is a comparison of two variables. -/
theorem links_applyOpen (hNe : rel.isTypeTest = false → u ≠ v) :
    (s.applyOpen a u rel v).state.links = s.links ∨
      s.MayRecord a u rel v ∧
        (s.applyOpen a u rel v).state.links = (s.addLink u rel v).links := by
  unfold applyOpen
  dsimp only
  split
  · exact Or.inl rfl
  · rename_i hFree
    -- narrowing records nothing, whatever is narrowed
    have hRecorded : ∀ {n : Narrowing}, n.state.links = s.links →
        (if (n.feasible && (a.isVariable u && a.isVariable v && !rel.isTypeTest)) = true then
          (⟨true, n.state.addLink u rel v⟩ : Narrowing) else n).state.links = s.links ∨
        s.MayRecord a u rel v ∧
          (if (n.feasible && (a.isVariable u && a.isVariable v && !rel.isTypeTest)) = true then
            (⟨true, n.state.addLink u rel v⟩ : Narrowing) else n).state.links =
            (s.addLink u rel v).links := by
      intro n hn
      split
      · rename_i hLinked
        simp only [Bool.and_eq_true, Bool.not_eq_true'] at hLinked hFree
        obtain ⟨-, ⟨hu, hv⟩, hComparison⟩ := hLinked
        refine Or.inr ⟨⟨hu, hv, hNe hComparison, hComparison, ?_⟩, links_addLink hn⟩
        exact Bool.eq_false_iff.mpr fun h => hFree ⟨⟨⟨hu, hv⟩, hComparison⟩, h⟩
      · exact Or.inl hn
    split
    · exact Or.inl links_meetFact
    · split
      · exact hRecorded (links_meetFact.trans links_meetFact)
      · exact hRecorded links_meetFact

/-- A relation of a value with itself is not recorded. -/
theorem links_applySelf : (s.applySelf a v rel).state.links = s.links := by
  unfold applySelf
  split
  · split
    · exact links_meetFact
    all_goals rfl
  · rfl

/-- Assuming a condition records at most the relation that is assumed. -/
theorem links_apply {c : Condition} :
    (s.apply a c).state.links = s.links ∨
      ∃ u rel v, s.MayRecord a u rel v ∧
        (s.apply a c).state.links = (s.addLink u rel v).links := by
  cases c with
  | always | never => exact Or.inl rfl
  | relation u rel v =>
    show (s.applyRelation a u rel v).state.links = s.links ∨ ∃ u' rel' v',
      s.MayRecord a u' rel' v' ∧
        (s.applyRelation a u rel v).state.links = (s.addLink u' rel' v').links
    unfold applyRelation
    dsimp only
    split
    · exact Or.inl rfl
    · split
      · exact Or.inl rfl
      · split
        · exact Or.inl links_applySelf
        · rename_i hOther
          have hNe : rel.isTypeTest = false → u ≠ v := by
            intro hComparison hEq
            exact hOther (by rw [hEq, hComparison]; simp)
          split
          · exact Or.inl rfl
          · exact (links_applyOpen hNe).imp_right fun h => ⟨u, rel, v, h⟩

/-- Nothing is known to relate a value to one that no link mentions. -/
theorem contradictsLink_of_fresh (h : ∀ l ∈ s.links, l.mentions u = false) :
    s.contradictsLink u rel v = false := by
  have hNone : s.linksBetween u v = [] := by
    refine List.filterMap_eq_nil_iff.mpr fun l hl => ?_
    have hFar := h l hl
    simp only [Link.mentions, Bool.or_eq_false_iff, beq_eq_false_iff_ne] at hFar
    rw [Link.between?, if_neg fun hEq => hFar.1 hEq.1, if_neg fun hEq => hFar.2 hEq.2]
  rw [contradictsLink, hNone]
  rfl

theorem mem_links_flushVariable :
    l ∈ (s.flushVariable a v).links ↔
      l ∈ s.links ∧ ∀ m ∈ v :: a.dependents v, l.mentions m = false :=
  mem_links_foldl_forget (v :: a.dependents v)

/-- An assignment forgets the relations of its destination and records at most one anew. -/
theorem links_assign (hv : a.isVariable v = true) :
    (s.assign a v u).links = s.links ∨ (s.assign a v u).links = (s.flushVariable a v).links ∨
      (s.flushVariable a v).MayRecord a v .eq u ∧
        (s.assign a v u).links = ((s.flushVariable a v).addLink v .eq u).links := by
  unfold assign
  split
  · exact Or.inl rfl
  · rename_i hNe
    dsimp only
    split
    · rename_i hu
      refine Or.inr (Or.inr ⟨⟨hv, hu, hNe, rfl, ?_⟩, links_addLink setFact_links⟩)
      exact contradictsLink_of_fresh fun l hl =>
        (mem_links_flushVariable.mp hl).2 v List.mem_cons_self
    · exact Or.inr (Or.inl setFact_links)

theorem links_flushFields : ∀ l ∈ (s.flushFields a).links, l ∈ s.links :=
  flushFields_of_forget (P := fun t => ∀ l ∈ t.links, l ∈ s.links)
    (fun _ _ ht l hl => ht l (OrdSet.mem_filter.mp hl).1) fun _ hl => hl

theorem links_dropLocality : (s.dropLocality a v).1.links = s.links := by
  unfold dropLocality
  split
  · refine List.foldlRecOn _ _ (motive := fun t : State => t.links = s.links) rfl ?_
    intro t ht v _
    unfold dropVariableLocality
    dsimp only
    split
    · exact setFact_links.trans ht
    · exact ht
  all_goals rfl

/-- **What one operation does to the relations**: some are forgotten, and then at most one is
recorded. -/
theorem Moves.links (h : Moves a s b t) :
    (∀ l ∈ t.links, l ∈ s.links) ∨
      ∃ (r : State) (u : ValueId) (rel : Relation) (v : ValueId),
        (∀ l ∈ r.links, l ∈ s.links) ∧ r.MayRecord a u rel v ∧ t.links = (r.addLink u rel v).links := by
  have hSame : ∀ {r t : State}, t.links = r.links → (∀ l ∈ r.links, l ∈ s.links) →
      ∀ l ∈ t.links, l ∈ s.links := fun hEq hr l hl => hr l (hEq ▸ hl)
  have hSelf : ∀ l ∈ s.links, l ∈ s.links := fun _ hl => hl
  have hFlushed : ∀ v, ∀ l ∈ (s.flushVariable a v).links, l ∈ s.links := fun v l hl =>
    (mem_links_flushVariable.mp hl).1
  cases h with
  | pop hPop =>
    refine Or.inl (hSame ?_ hSelf)
    unfold pop? at hPop
    split at hPop
    · cases hPop
    · cases hPop
      rfl
  | setFact v f => exact Or.inl (hSame setFact_links hSelf)
  | meetFact v f => exact Or.inl (hSame links_meetFact hSelf)
  | apply c =>
    rcases links_apply with hLinks | ⟨u, rel, v, hMay, hLinks⟩
    · exact Or.inl (hSame hLinks hSelf)
    · exact Or.inr ⟨s, u, rel, v, hSelf, hMay, hLinks⟩
  | flushVariable v => exact Or.inl (hFlushed v)
  | flushFields => exact Or.inl links_flushFields
  | assign v u hv =>
    rcases links_assign hv with hLinks | hLinks | ⟨hMay, hLinks⟩
    · exact Or.inl (hSame hLinks hSelf)
    · exact Or.inl (hSame hLinks (hFlushed v))
    · exact Or.inr ⟨_, v, .eq, u, hFlushed v, hMay, hLinks⟩
  | dropLocality v => exact Or.inl fun l hl => links_dropLocality ▸ hl
  | _ => exact Or.inl hSelf

-- ---------------------------------------------------------------------------
-- The form of states
-- ---------------------------------------------------------------------------

/-- Each stored fact is about a variable and says something new. -/
def Informative (a : Arena) (s : State) : Prop :=
  ∀ v f, s.facts.get? v = some f → a.isVariable v = true ∧ f ≠ .top ∧ f ≠ a.inherent v

/-- Each recorded relation is a comparison of two variables in their order. -/
def Ascending (a : Arena) (s : State) : Prop :=
  ∀ l ∈ s.links, l.left < l.right ∧ (a.isVariable l.left = true ∧ a.isVariable l.right = true) ∧
    l.rel.isTypeTest = false

/-- **A state is canonical**: it stores nothing but what is new about variables, and the
relations that it records are comparisons of two variables in their order. -/
structure Canonical (a : Arena) (s : State) : Prop where
  informative : s.Informative a
  ascending   : s.Ascending a

theorem Informative.setFact (hs : s.Informative a) : (s.setFact a v f).Informative a := by
  intro u g hu
  unfold State.setFact at hu
  split at hu
  · exact hs u g hu
  · rename_i hVariable
    split at hu
    · rw [OrdMap.get?_erase] at hu
      split at hu
      · cases hu
      · exact hs u g hu
    · rename_i hSaid
      rw [OrdMap.get?_insert] at hu
      split at hu
      · rename_i hEq
        cases hu
        subst hEq
        simp only [Bool.or_eq_true, decide_eq_true_eq, not_or] at hSaid
        refine ⟨by simpa using hVariable, ?_, hSaid.1⟩
        rintro rfl
        exact hSaid.2 rfl
      · exact hs u g hu

/-- All facts are stored through `setFact`. -/
theorem informative_invariant : Invariant a (Informative a) fun _ => True where
  closed := ⟨fun _ => trivial, fun _ _ => trivial, fun _ _ => trivial, fun _ => trivial⟩
  declared _ := trivial
  fact _ := trivial
  store _ hs := hs.setFact
  link _ _ hs := by
    unfold Informative
    rw [facts_addLink]
    exact hs
  forget := by
    intro s v hs u f hu
    simp only [State.forget, OrdMap.get?_erase] at hu
    split at hu
    · cases hu
    · exact hs u f hu

theorem Informative.part (hs : s.Informative a) (hPart : a.Part b) : s.Informative b := by
  intro v f hv
  obtain ⟨hVariable, hTop, hSaid⟩ := hs v f hv
  have hLess := Arena.lt_of_isVariable hVariable
  exact ⟨(hPart.isVariable hLess).trans hVariable, hTop, hPart.inherent hLess ▸ hSaid⟩

theorem Ascending.part (hs : s.Ascending a) (hPart : a.Part b) : s.Ascending b := by
  intro l hl
  obtain ⟨hOrder, ⟨hLeft, hRight⟩, hComparison⟩ := hs l hl
  exact ⟨hOrder, ⟨(hPart.isVariable (Arena.lt_of_isVariable hLeft)).trans hLeft,
    (hPart.isVariable (Arena.lt_of_isVariable hRight)).trans hRight⟩, hComparison⟩

theorem isTypeTest_of_flipped? {r : Relation} (h : rel.flipped? = some r) :
    r.isTypeTest = false := by
  cases rel <;> cases h <;> rfl

/-- A relation is recorded in the order of its variables, flipped if need be. -/
theorem Ascending.addLink (hs : s.Ascending a) (h : s.MayRecord a u rel v) :
    (s.addLink u rel v).Ascending a := by
  intro l hl
  unfold State.addLink at hl
  split at hl
  · rename_i hLess
    rcases OrdSet.mem_insert.mp hl with rfl | hl
    · exact ⟨hLess, ⟨h.left, h.right⟩, h.comparison⟩
    · exact hs l hl
  · rename_i hNot
    have hLess : v < u := Nat.lt_of_le_of_ne (Nat.le_of_not_lt hNot) h.ne.symm
    split at hl
    · rename_i r hFlipped
      rcases OrdSet.mem_insert.mp hl with rfl | hl
      · exact ⟨hLess, ⟨h.right, h.left⟩, isTypeTest_of_flipped? hFlipped⟩
      · exact hs l hl
    · exact hs l hl

/-- **One operation** keeps what is stored informative. -/
theorem Moves.informative (h : Moves a s b t) (ha : a.Ordered) (hs : s.Informative a) :
    t.Informative b := by
  cases h with
  | ask hr => exact hs.part (hr.part ha)
  | pop hPop =>
    unfold pop? at hPop
    split at hPop
    · cases hPop
    · cases hPop
      exact hs
  | setFact v f => exact hs.setFact
  | meetFact v f => exact informative_invariant.meetFact trivial hs
  | apply c => exact informative_invariant.apply hs c
  | flushVariable v => exact informative_invariant.flushVariable hs
  | flushFields => exact informative_invariant.flushFields hs
  | assign v u hv => exact informative_invariant.assign hs hv
  | dropLocality v =>
    rcases informative_invariant.dropLocality (v := v) hs with
      ⟨hArena, hState⟩ | ⟨x, -, -, hArena, hState⟩
    · rw [hArena]
      exact hState
    · rw [hState]
      exact hs.part ((Moves.dropLocality v).becomes ha |>.part ha)
  | _ => exact hs

/-- **One operation** keeps the recorded relations in order. -/
theorem Moves.ascending (h : Moves a s b t) (ha : a.Ordered) (hs : s.Ascending a) :
    t.Ascending b := by
  refine Ascending.part ?_ ((h.becomes ha).part ha)
  rcases h.links with hFewer | ⟨r, u, rel, v, hFewer, hMay, hLinks⟩
  · exact fun l hl => hs l (hFewer l hl)
  · have hr : r.Ascending a := fun l hl => hs l (hFewer l hl)
    exact fun l hl => hr.addLink hMay l (hLinks ▸ hl)

/-- The induction is on the operations, here and for the relations. -/
theorem Arises.informative (h : Arises a s) : s.Informative a := by
  induction h with
  | start => exact nofun
  | move hBefore hMove ih => exact hMove.informative hBefore.ordered ih

theorem Arises.ascending (h : Arises a s) : s.Ascending a := by
  induction h with
  | start => exact nofun
  | move hBefore hMove ih => exact hMove.ascending hBefore.ordered ih

/-- **States are canonical**, however they arise. -/
theorem canonical_of_arises (h : Arises a s) : s.Canonical a := ⟨h.informative, h.ascending⟩

/-- What is stored says something, so nothing is stored where nothing is said. -/
theorem Canonical.get?_facts (hs : s.Canonical a) :
    s.facts.get? v = if s.stored v = .top then none else some (s.stored v) := by
  unfold State.stored
  cases h : s.facts.get? v with
  | none => exact (if_pos rfl).symm
  | some f => exact (if_neg (hs.informative v f h).2.1).symm

/-- **States that know the same are equal**, and are explored once. -/
theorem Canonical.ext (hs : s.Canonical a) (ht : t.Canonical b) (hStack : s.stack = t.stack)
    (hEphemeral : s.isEphemeral = t.isEphemeral) (hStored : ∀ v, s.stored v = t.stored v)
    (hLinks : ∀ l, l ∈ s.links ↔ l ∈ t.links) : s = t := by
  have hFacts : s.facts = t.facts := by
    refine OrdMap.ext_get? fun v => ?_
    rw [hs.get?_facts, ht.get?_facts, hStored v]
  cases s
  cases t
  exact (State.mk.injEq ..).mpr ⟨hStack, hFacts, OrdSet.ext_mem hLinks, hEphemeral⟩

/-- Two integer parameters. -/
def integers : Arena :=
  ((Arena.new.var (.parameter "x" 0) none (.int (.ofWidth .int))).2.var (.parameter "y" 1) none
    (.int (.ofWidth .int))).2

theorem arises_integers : Arises integers .initial :=
  .move (.move .start (.ask (r := .var (.parameter "x" 0) none (.int (.ofWidth .int)))
      ⟨nofun, rfl⟩))
    (.ask (r := .var (.parameter "y" 1) none (.int (.ofWidth .int))) ⟨nofun, rfl⟩)

/-- The smaller of two integers is at most 5. -/
def smallerOf : State :=
  ((initial.setFact integers 1 (.int (.between 0 5))).apply integers (.relation 2 .gt 1)).state

/-- The relation is recorded in the order of the variables. -/
theorem canonical_smallerOf :
    Arises integers smallerOf ∧ smallerOf.Canonical integers ∧
      smallerOf.facts.entries = [(1, .int (.between 0 5)), (2, .int (.between 1 2147483647))] ∧
      smallerOf.links.toList = [⟨1, .lt, 2⟩] := by
  have hArises : Arises integers smallerOf :=
    .move (.move arises_integers (.setFact 1 (.int (.between 0 5)))) (.apply (.relation 2 .gt 1))
  exact ⟨hArises, canonical_of_arises hArises, by decide +kernel, by decide +kernel⟩

end State

end Pathwise
