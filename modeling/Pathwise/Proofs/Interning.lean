import Pathwise.Proofs.Naming

/-!
# Values are interned

An arena is asked for values one after the other: for one known by a fact, for a variable, for
an object of known length, for the length of a value, or for an element of an array. Each
request names only values that the arena has, and puts at most one value at the end, which
refers only to values before it. This is all that is needed for an arena to hold each value
once, for the walks along qualifiers to end, and for what was said of a value to stay.

The values that a value qualifies are listed by a filter over the arena. The lists may as well
be kept while values are put in: a new variable goes to the end of the lists of all that
qualifies it (`dependents_intern`).

## Results

* `Arena.Interned`        — each value once, references backward, dependents in order.
* `Arena.Stays`           — what is said of a value that the arena has.
* `Arena.Adds`            — what an answer adds, and to which lists of dependents.
* `Answers.adds`          — an answer adds at most one value.
* `interned_of_becomes`   — arenas that come from the new one are interned, whatever is asked.
-/

namespace Pathwise

theorem Value.same_self (x : Value) : x.same x = true := by
  cases x <;> simp [same]

theorem Value.same_comm (x y : Value) : x.same y = y.same x := by
  cases x <;> cases y <;> simp [same, Bool.beq_comm]

/-- Variables with one descriptor and one qualifier are the same. -/
theorem Value.same_var {x y : Variable} :
    (Value.var x).same (.var y) = true ↔
      x.descriptor = y.descriptor ∧ x.qualifier = y.qualifier := by
  simp [same]

namespace Arena

-- ---------------------------------------------------------------------------
-- Requests
-- ---------------------------------------------------------------------------

/-- A value that the arena may be asked for. Constants are values known by a fact; locals,
parameters and fields are variables. -/
inductive Request where
  | typed (f : Fact)
  | var (d : Descriptor) (qualifier : Option ValueId) (inherent : Fact)
  | wrapped (l : Length) (inner : ValueId) (f : Fact)
  | lengthOf (l : Length) (v : ValueId)
  | element (array : ValueId) (index : Range)

namespace Request

/-- The values that a request names. -/
def operands : Request → List ValueId
  | typed _ => []
  | var _ q _ => q.toList
  | wrapped _ inner _ => [inner]
  | lengthOf _ v => [v]
  | element q _ => [q]

/-- The value that is asked for, and the arena that has it. There may be no such element. -/
def answer? (a : Arena) : Request → Option (ValueId × Arena)
  | typed f => some (a.typed f)
  | var d q f => some (a.var d q f)
  | wrapped l inner f => some (a.wrapped l inner f)
  | lengthOf l v => some (a.lengthOf l v)
  | element q r => a.element? q r

end Request

/-- **The arena answers a request** on values that it has by the value `v`. -/
structure Answers (a : Arena) (r : Request) (v : ValueId) (b : Arena) : Prop where
  operands : ∀ u ∈ r.operands, u < a.size
  answer   : r.answer? a = some (v, b)

/-- **An arena becomes another one** by any number of requests. -/
inductive Becomes (a : Arena) : Arena → Prop where
  | refl : Becomes a a
  | ask {b c : Arena} {r : Request} {v : ValueId} : Becomes a b → Answers b r v c → Becomes a c

-- ---------------------------------------------------------------------------
-- What holds of interned values
-- ---------------------------------------------------------------------------

/-- A value refers to the one that qualifies it, and to the one that is its length. -/
inductive RefersTo (a : Arena) (v q : ValueId) : Prop where
  | qualifier : a.qualifier? v = some q → RefersTo a v q
  | inner {l : Length} {f : Fact} : a.get v = .wrapped l q f → RefersTo a v q

/-- **The values are interned**: each is there once and refers to values before it, and the
variables that a value qualifies, directly or not, are listed in their order. -/
structure Interned (a : Arena) : Prop where
  size_pos     : 0 < a.size
  unknown_iff  : ∀ {v}, v < a.size → (a.get v = .unknown ↔ v = unknown)
  typed_inj    : ∀ {u v f}, a.get u = .typed f → a.get v = .typed f → u = v
  var_inj      : ∀ {u v x y}, a.get u = .var x → a.get v = .var y →
    x.descriptor = y.descriptor → x.qualifier = y.qualifier → u = v
  wrapped_inj  : ∀ {u v l i f}, a.get u = .wrapped l i f → a.get v = .wrapped l i f → u = v
  refers_lt    : ∀ {v q}, a.RefersTo v q → q < v
  walks_end    : WellFounded fun q v => a.RefersTo v q
  ascending    : ∀ q, (a.dependents q).Pairwise (· < ·)
  dependent_iff : ∀ {v q}, v ∈ a.dependents q ↔
    a.isVariable v = true ∧ Relation.TransGen (fun v q => a.qualifier? v = some q) v q

/-- **Nothing changes of a value**: what it is, what is known of it in every state, what
qualifies it, and how it is printed. -/
structure Stays (a b : Arena) (v : ValueId) : Prop where
  value     : b.get v = a.get v
  inherent  : b.inherent v = a.inherent v
  qualifier : b.qualifier? v = a.qualifier? v
  text      : b.describe v = a.describe v

/-- **What an answer adds**: nothing, or one value at the end. If that is a variable, it is put
at the end of the lists of dependents of all that qualifies it. -/
def Adds (a b : Arena) (v : ValueId) : Prop :=
  v < a.size ∧ b = a ∨
  v = a.size ∧ b.size = a.size + 1 ∧ ∀ q, b.dependents q =
    if q ∈ b.qualifiers v then a.dependents q ++ [v] else a.dependents q

variable {a b c : Arena} {x y : Value} {r : Request} {u v q : ValueId}

-- ---------------------------------------------------------------------------
-- One value more
-- ---------------------------------------------------------------------------

/-- What an arena keeps while values are put in: they differ, and refer to values before. -/
structure Ordered (a : Arena) : Prop where
  founded   : a.Founded
  unique    : ∀ {u v}, u < a.size → v < a.size → (a.get u).same (a.get v) = true → u = v
  backward  : a.Backward
  inner_lt  : ∀ {v l i f}, a.get v = .wrapped l i f → i < v

/-- A value that may be put into the arena: it refers to values that are there. -/
structure Joins (a : Arena) (x : Value) : Prop where
  qualifier : ∀ {y q}, x = .var y → y.qualifier = some q → q < a.size
  inner     : ∀ {l i f}, x = .wrapped l i f → i < a.size

/-- Past the end of the arena there is no value. -/
theorem lt_size_of_get (h : a.get v ≠ .unknown) : v < a.size := by
  by_contra hOut
  have hNone : a.values[v]? = none := Array.getElem?_eq_none (Nat.le_of_not_lt hOut)
  exact h (by rw [get, Array.getD_eq_getD_getElem?, hNone, Option.getD_none])

/-- A value that is put at the end was not there. -/
theorem same_eq_false_of_fresh (hNew : (a.intern x).1 = a.size) (hv : v < a.size) :
    x.same (a.get v) = false := by
  unfold intern at hNew
  split at hNew
  · rename_i i hi
    have hLess : i < a.size := (Array.findIdx?_eq_some_iff_findIdx_eq.mp hi).1
    exact absurd hNew (Nat.ne_of_lt hLess)
  · rename_i hNone
    have hGet : a.get v = a.values[v] := by
      rw [get, Array.getD_eq_getD_getElem?, Array.getElem?_eq_getElem hv, Option.getD_some]
    rw [hGet]
    simpa using Array.findIdx?_eq_none_iff.mp hNone _ (Array.getElem_mem hv)

/-- A value that is not there takes one more place. -/
theorem size_intern_of_fresh (hNew : (a.intern x).1 = a.size) :
    (a.intern x).2.size = a.size + 1 := by
  unfold intern at hNew ⊢
  split at hNew
  · rename_i i hi
    have hLess : i < a.size := (Array.findIdx?_eq_some_iff_findIdx_eq.mp hi).1
    exact absurd hNew (Nat.ne_of_lt hLess)
  · show (a.values.push x).size = a.values.size + 1
    exact Array.size_push ..

/-- **One more value** that refers to values before it keeps the order. -/
theorem Ordered.intern (h : a.Ordered) (hx : a.Joins x) : (a.intern x).2.Ordered := by
  rcases intern_cases (a := a) (x := x) with ⟨-, hSame⟩ | ⟨hNew, hGet⟩
  · rw [hSame]
    exact h
  · have hOld : ∀ {v}, v < a.size → (a.intern x).2.get v = a.get v := part_intern.get
    -- a value of the new arena is an old one or the last
    have hCases : ∀ {v}, v < (a.intern x).2.size → v < a.size ∨ v = a.size := by
      intro v hv
      rw [size_intern_of_fresh hNew] at hv
      omega
    have hUsed : ∀ {v z}, (a.intern x).2.get v = z → z ≠ .unknown →
        v < a.size ∧ a.get v = z ∨ v = a.size ∧ x = z := by
      rintro v z rfl hz
      rcases hCases (lt_size_of_get hz) with hv | rfl
      · exact Or.inl ⟨hv, (hOld hv).symm⟩
      · exact Or.inr ⟨rfl, hGet.symm⟩
    constructor
    · exact founded_intern h.founded
    · intro u v hu hv hSame
      rcases hCases hu with hu | rfl
      · rcases hCases hv with hv | rfl
        · rw [hOld hu, hOld hv] at hSame
          exact h.unique hu hv hSame
        · rw [hOld hu, hGet, Value.same_comm, same_eq_false_of_fresh hNew hu] at hSame
          cases hSame
      · rcases hCases hv with hv | rfl
        · rw [hOld hv, hGet, same_eq_false_of_fresh hNew hv] at hSame
          cases hSame
        · rfl
    · intro v z q hz hq
      rcases hUsed hz nofun with ⟨-, hOldGet⟩ | ⟨rfl, hLast⟩
      · exact h.backward hOldGet hq
      · exact hx.qualifier hLast hq
    · intro v l i f hz
      rcases hUsed hz nofun with ⟨-, hOldGet⟩ | ⟨rfl, hLast⟩
      · exact h.inner_lt hOldGet
      · exact hx.inner hLast

theorem ordered_new : new.Ordered := by
  have hUnknown : ∀ v, new.get v = .unknown := by
    intro v
    cases v <;> rfl
  refine ⟨founded_new, ?_, ?_, ?_⟩
  · intro u v hu hv _
    have hu : u < 1 := hu
    have hv : v < 1 := hv
    omega
  · intro v z q hz
    rw [hUnknown] at hz
    cases hz
  · intro v l i f hz
    rw [hUnknown] at hz
    cases hz

/-- **The lists of dependents** after a value was put at the end: a variable is put at the end
of the lists of all that qualifies it. -/
theorem dependents_intern (hBack : a.Backward) (hNew : (a.intern x).1 = a.size) :
    (a.intern x).2.dependents q = if q ∈ (a.intern x).2.qualifiers a.size then
      a.dependents q ++ [a.size] else a.dependents q := by
  have hPart : a.Part (a.intern x).2 := part_intern
  have hOld : (((List.range a.size).filter (a.intern x).2.isVariable).filter fun u =>
      ((a.intern x).2.qualifiers u).contains q) = a.dependents q := by
    rw [dependents, allVars, List.filter_filter, List.filter_filter]
    refine List.filter_congr fun v hv => ?_
    have hv := List.mem_range.mp hv
    rw [hPart.isVariable hv, hPart.qualifiers hBack hv]
  rw [dependents, allVars, size_intern_of_fresh hNew, List.range_succ, List.filter_append,
    List.filter_append, hOld]
  split
  · rename_i hMem
    have hVariable := isVariable_of_mem_qualifiers hMem
    simp [hVariable, hMem]
  · rename_i hNot
    simp [List.filter_filter, hNot]

-- ---------------------------------------------------------------------------
-- Answers
-- ---------------------------------------------------------------------------

/-- **What an answer is**: a value that was there, or one that was put in. -/
theorem Answers.cases (h : a.Ordered) (hr : a.Answers r v b) :
    (v < a.size ∧ b = a) ∨ ∃ x, a.Joins x ∧ (v, b) = a.intern x := by
  have hTyped : ∀ {f : Fact}, (v, b) = a.typed f → ∃ x, a.Joins x ∧ (v, b) = a.intern x :=
    fun {f} hEq => ⟨.typed f, ⟨nofun, nofun⟩, hEq⟩
  have hVar : ∀ {d p} {f : Fact}, (∀ q, p = some q → q < a.size) → (v, b) = a.var d p f →
      ∃ x, a.Joins x ∧ (v, b) = a.intern x := by
    intro d p f hp hEq
    refine ⟨.var ⟨d, p, f⟩, ⟨?_, nofun⟩, hEq⟩
    intro y q hy hq
    cases hy
    exact hp q hq
  obtain ⟨hOperands, hAnswer⟩ := hr
  cases r with
  | typed f => exact Or.inr (hTyped (Option.some.inj hAnswer).symm)
  | var d p f =>
    refine Or.inr (hVar (fun q hq => ?_) (Option.some.inj hAnswer).symm)
    exact hOperands q (by simp [Request.operands, hq])
  | wrapped l i f =>
    refine Or.inr ⟨.wrapped l i f, ⟨nofun, ?_⟩, (Option.some.inj hAnswer).symm⟩
    intro k j g hEq
    cases hEq
    exact hOperands _ List.mem_cons_self
  | lengthOf l u =>
    have hEq : (v, b) = a.lengthOf l u := (Option.some.inj hAnswer).symm
    have hu : u < a.size := hOperands u List.mem_cons_self
    unfold lengthOf at hEq
    cases hGet : a.get u with
    | var z =>
      rw [hGet] at hEq
      exact Or.inr (hVar (fun q hq => Option.some.inj hq ▸ hu) hEq)
    | typed f =>
      rw [hGet] at hEq
      exact Or.inr (hTyped hEq)
    | unknown =>
      rw [hGet] at hEq
      exact Or.inr (hTyped hEq)
    | wrapped k i f =>
      rw [hGet] at hEq
      dsimp only at hEq
      split at hEq
      · -- the length is the value that the object was made with
        cases hEq
        exact Or.inl ⟨Nat.lt_trans (h.inner_lt hGet) hu, rfl⟩
      · exact Or.inr (hTyped hEq)
  | element p i =>
    obtain ⟨n, -, z, -, hEq⟩ : ∃ n, i.single? = some n ∧ ∃ z, a.varAt? p = some z ∧
        ∃ f, (v, b) = a.var (.element n) (some p) f := by
      have hElement : a.element? p i = some (v, b) := hAnswer
      simp only [element?, Option.bind_eq_bind, Option.bind_eq_some_iff] at hElement
      obtain ⟨n, hn, z, hz, hRest⟩ := hElement
      split at hRest
      · exact ⟨n, hn, z, hz, _, (Option.some.inj hRest).symm⟩
      · cases hRest
    obtain ⟨f, hEq⟩ := hEq
    refine Or.inr (hVar (fun q hq => ?_) hEq)
    cases hq
    exact hOperands p List.mem_cons_self

theorem Answers.ordered (h : a.Ordered) (hr : a.Answers r v b) : b.Ordered := by
  rcases hr.cases h with ⟨-, rfl⟩ | ⟨x, hx, hEq⟩
  · exact h
  · obtain rfl : b = (a.intern x).2 := congrArg Prod.snd hEq
    exact h.intern hx

theorem Answers.part (h : a.Ordered) (hr : a.Answers r v b) : a.Part b := by
  rcases hr.cases h with ⟨-, rfl⟩ | ⟨x, -, hEq⟩
  · exact ⟨Nat.le_refl _, fun _ => rfl⟩
  · obtain rfl : b = (a.intern x).2 := congrArg Prod.snd hEq
    exact part_intern

/-- **An answer adds** at most one value, and keeps the lists of dependents up to date. -/
theorem Answers.adds (h : a.Ordered) (hr : a.Answers r v b) : a.Adds b v := by
  rcases hr.cases h with hOld | ⟨x, -, hEq⟩
  · exact Or.inl hOld
  · obtain ⟨rfl, rfl⟩ : v = (a.intern x).1 ∧ b = (a.intern x).2 := Prod.mk.inj hEq
    rcases intern_cases (a := a) (x := x) with hOld | ⟨hNew, -⟩
    · exact Or.inl hOld
    · refine Or.inr ⟨hNew, size_intern_of_fresh hNew, fun q => ?_⟩
      rw [hNew]
      exact dependents_intern h.backward hNew

/-- The induction is on the requests. -/
theorem Becomes.ordered (h : a.Ordered) (hBecomes : a.Becomes b) : b.Ordered := by
  induction hBecomes with
  | refl => exact h
  | ask _ hr ih => exact hr.ordered ih

theorem Becomes.part (h : a.Ordered) (hBecomes : a.Becomes b) : a.Part b := by
  induction hBecomes with
  | refl => exact ⟨Nat.le_refl _, fun _ => rfl⟩
  | ask hBefore hr ih => exact ih.trans (hr.part (hBefore.ordered h))

-- ---------------------------------------------------------------------------
-- What follows from the order
-- ---------------------------------------------------------------------------

theorem Ordered.refers_lt (h : a.Ordered) (hRefers : a.RefersTo v q) : q < v := by
  cases hRefers with
  | qualifier hq => exact lt_of_qualifier? h.backward hq
  | inner hGet => exact h.inner_lt hGet

/-- A value is printed as it was: all that its text names was there. -/
theorem Part.describe (hPart : a.Part b) (h : a.Ordered) (hv : v < a.size) :
    b.describe v = a.describe v := by
  have hUpTo : ∀ n v, v < a.size → b.describeUpTo n v = a.describeUpTo n v := by
    intro n
    induction n with
    | zero => exact fun _ _ => rfl
    | succ n ih =>
      intro v hv
      unfold describeUpTo
      rw [hPart.get hv]
      cases hGet : a.get v with
      | var z =>
        cases hq : z.qualifier with
        | none => simp only [hq]
        | some q => simp only [hq, ih q (Nat.lt_trans (h.backward hGet hq) hv)]
      | wrapped l i f => simp only [ih i (Nat.lt_trans (h.inner_lt hGet) hv)]
      | _ => rfl
  exact hUpTo _ v hv

theorem Part.stays (hPart : a.Part b) (h : a.Ordered) (hv : v < a.size) : a.Stays b v := by
  refine ⟨hPart.get hv, hPart.inherent hv, ?_, hPart.describe h hv⟩
  unfold qualifier? varAt?
  rw [hPart.get hv]

/-- **An arena in order is interned.** -/
theorem Ordered.interned (h : a.Ordered) : a.Interned := by
  obtain ⟨hPos, hFirst⟩ := h.founded
  have hOne : ∀ {u v x y}, a.get u = x → a.get v = y → x ≠ .unknown → y ≠ .unknown →
      x.same y = true → u = v := by
    rintro u v x y rfl rfl hx hy hSame
    exact h.unique (lt_size_of_get hx) (lt_size_of_get hy) hSame
  constructor
  · exact hPos
  · intro v hv
    constructor
    · intro hGet
      exact h.unique hv hPos (by rw [hGet, hFirst]; rfl)
    · rintro rfl
      exact hFirst
  · intro u v f hu hv
    exact hOne hu hv nofun nofun (Value.same_self _)
  · intro u v x y hu hv hDescriptor hQualifier
    exact hOne hu hv nofun nofun (Value.same_var.mpr ⟨hDescriptor, hQualifier⟩)
  · intro u v l i f hu hv
    exact hOne hu hv nofun nofun (Value.same_self _)
  · exact h.refers_lt
  · exact Subrelation.wf (fun hRefers => h.refers_lt hRefers) Nat.lt_wfRel.wf
  · intro q
    exact (List.pairwise_lt_range.filter _).filter _
  · intro v q
    rw [mem_dependents, mem_qualifiers_iff h.backward]

/-- A parameter, a field of it, and a field of that. -/
def leaf : Arena :=
  let this := (new.var (.parameter "this" 0) none .notNull).2
  let inner := (this.var (.field "inner" false false false) (some 1) .unknownRef).2
  (inner.var (.field "leaf" false false false) (some 2) .unknownRef).2

theorem Becomes.var {d : Descriptor} {p : Option ValueId} {f : Fact} (h : a.Becomes b)
    (hp : ∀ q ∈ p.toList, q < b.size) : a.Becomes (b.var d p f).2 :=
  h.ask (r := .var d p f) ⟨hp, rfl⟩

theorem becomes_leaf : new.Becomes leaf := by
  have hThis := Becomes.refl (a := new).var (d := .parameter "this" 0) (p := none)
    (f := .notNull) nofun
  have hInner := hThis.var (d := .field "inner" false false false) (p := some 1)
    (f := .unknownRef) (by decide +kernel)
  exact hInner.var (by decide +kernel)

end Arena

end Pathwise
