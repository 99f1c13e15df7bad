import Pathwise.Fact.Compare
import Pathwise.Proofs.Comparisons
import Pathwise.Proofs.Meets

/-!
# Comparisons of facts are sound

What facts tell about a comparison agrees with every pair of values that the facts keep:
an outcome that is decided is the outcome, and narrowing the fact on the left takes away
no value that is in the relation to some value on the right.

## Results

* `of_decideComparison?`  — how a comparison of facts can come to be decided.
* `eq_true_of_decide?`    — a comparison that holds is not decided to fail.
* `eq_false_of_decide?_of_admits` — a comparison that fails is not decided to hold.
* `keeps_narrow`          — narrowing by a comparison that holds.
-/

namespace Pathwise

-- ---------------------------------------------------------------------------
-- Numbers
-- ---------------------------------------------------------------------------

/-- The comparison of two numbers. -/
theorem Double.compare?_eq {rel : Relation} {c d : Double} {b : Bool}
    (hCompare : compare? rel c d = some b) (h : rel.HoldsOfInts c.key d.key) : b = true := by
  cases rel with
  | instanceOf | notInstanceOf => cases hCompare
  | _ =>
    cases hCompare
    exact decide_eq_true h

theorem Double.not_holds_of_compare? {rel : Relation} {c d : Double}
    (hCompare : compare? rel c d = some true) : ¬ rel.negated.HoldsOfInts c.key d.key := by
  intro h
  cases rel with
  | instanceOf | notInstanceOf => cases hCompare
  | _ =>
    simp only [compare?, Option.some.injEq, decide_eq_true_eq] at hCompare
    simp only [Relation.negated, Relation.HoldsOfInts] at h
    omega

-- ---------------------------------------------------------------------------
-- Decided outcomes
-- ---------------------------------------------------------------------------

namespace Fact

variable {w : World} {f g : Fact} {rel : Relation} {o : Nat} {x y : Concrete} {b : Bool}

/-- Two facts with a common value are not disjoint. -/
theorem disjoint_eq_false (hf : f.Over w.types) (hg : g.Over w.types)
    (hOrdered : Ordered w o x) (hfx : f.Keeps w o x) (hgx : g.Keeps w o x) :
    disjoint f g = false := by
  have hBottom := (keeps_meet hf hg hOrdered hfx hgx).isBottom
  rw [disjoint, hBottom, Bool.and_false]

/-- **How a comparison is decided**: by ranges, by numbers, by booleans, by nullness, or by
what the facts have in common. -/
theorem of_decideComparison? (h : decideComparison? rel f g = some b) :
    (∃ r s, f = int r ∧ g = int s ∧ Range.decide? rel r s = some b) ∨
    (∃ c d, f = double c ∧ g = double d ∧ ((c = .nan ∨ d = .nan) ∧ b = false ∨
      ∃ p q, c = .const p ∧ d = .const q ∧ Double.compare? rel p q = some b)) ∨
    rel = .eq ∧
      ((∃ a a', f = bool (some a) ∧ g = bool (some a') ∧ b = (a == a')) ∨
        f.isNull = true ∧ g.isNull = true ∧ b = true ∨
        b = false ∧ (f.isNull = true ∧ g.nullness = .notNull ∨
          f.nullness = .notNull ∧ g.isNull = true ∨ disjoint f g = true)) := by
  unfold decideComparison? at h
  split at h
  · exact Or.inl ⟨_, _, rfl, rfl, h⟩
  · rename_i c d
    refine Or.inr (Or.inl ⟨c, d, rfl, rfl, ?_⟩)
    split at h
    · rename_i hNaN
      cases h
      exact Or.inl ⟨by simpa using hNaN, rfl⟩
    · split at h
      · exact Or.inr ⟨_, _, rfl, rfl, h⟩
      · cases h
  · refine Or.inr (Or.inr ?_)
    split at h
    · rename_i hEq
      cases h
      exact ⟨hEq, Or.inl ⟨_, _, rfl, rfl, rfl⟩⟩
    · cases h
  · -- two references: their nullness comes before what they have in common
    refine Or.inr (Or.inr ?_)
    split at h
    · rename_i hEq
      refine ⟨hEq, Or.inr ?_⟩
      split at h
      · rename_i hNull hNull'
        cases h
        exact Or.inl ⟨beq_iff_eq.mpr hNull, beq_iff_eq.mpr hNull', rfl⟩
      · rename_i hNull hNotNull
        cases h
        exact Or.inr ⟨rfl, Or.inl ⟨beq_iff_eq.mpr hNull, hNotNull⟩⟩
      · rename_i hNotNull hNull
        cases h
        exact Or.inr ⟨rfl, Or.inr (Or.inl ⟨hNotNull, beq_iff_eq.mpr hNull⟩)⟩
      · split at h
        · rename_i hDisjoint
          cases h
          exact Or.inr ⟨rfl, Or.inr (Or.inr hDisjoint)⟩
        · cases h
    · cases h
  · -- all other facts can only be disjoint
    refine Or.inr (Or.inr ?_)
    split at h
    · rename_i hDisjoint
      rw [Bool.and_eq_true, decide_eq_true_eq] at hDisjoint
      cases h
      exact ⟨hDisjoint.1, Or.inr (Or.inr ⟨rfl, Or.inr (Or.inr hDisjoint.2)⟩)⟩
    · cases h

/-- Numbers other than NaN that compare are in the order of their keys. -/
theorem holds_of_numbers {c d : DoubleFact} {u v : Option Double} (hc : c.Admits u)
    (hd : d.Admits v) (h : Concrete.Holds rel (.double u) (.double v)) (hNe : rel ≠ .ne)
    (hDecide : (c = .nan ∨ d = .nan) ∧ b = false ∨
      ∃ p q, c = .const p ∧ d = .const q ∧ Double.compare? rel p q = some b) : b = true := by
  rcases hDecide with ⟨rfl | rfl, -⟩ | ⟨p, q, rfl, rfl, hCompare⟩
  · exact absurd (Concrete.eq_ne_of_holds_nan h (Or.inl (congrArg _ hc))) hNe
  · exact absurd (Concrete.eq_ne_of_holds_nan h (Or.inr (congrArg _ hd))) hNe
  · cases hc
    cases hd
    exact Double.compare?_eq hCompare h

/-- A reference that is said not to be null is not. -/
theorem not_admits_null (h : f.nullness = .notNull) : ¬ f.Admits w .null := by
  intro hNull
  rcases admits_null_iff.mp hNull with rfl | ⟨r, al, sl, rfl, hr⟩
  · cases h
  · exact hr.nullable h

/-- What is said to be null is. -/
theorem eq_null_of_isNull (hNull : f.isNull = true) (h : f.Admits w x) : x = .null := by
  obtain ⟨r, al, sl, rfl, hr⟩ := isNull_iff.mp hNull
  rcases h with ⟨rfl, -⟩ | ⟨p, -, hp, -⟩
  · rfl
  · exact absurd hr hp.notNull

/-- Equal values are not decided to differ. -/
theorem eq_true_of_decide_eq (hDisjoint : disjoint f g = false) (hfx : f.Admits w x)
    (hgx : g.Admits w x) (h : Concrete.Holds .eq x x)
    (hDecide : decideComparison? .eq f g = some b) : b = true := by
  rcases of_decideComparison? hDecide with ⟨r, s, rfl, rfl, hRanges⟩ | ⟨c, d, rfl, rfl, hNumbers⟩ |
    ⟨-, ⟨a, a', rfl, rfl, rfl⟩ | ⟨-, -, rfl⟩ | ⟨rfl, hNull | hNull | hCommon⟩⟩
  · obtain ⟨n, hn, rfl, hMem⟩ := hfx
    exact Range.eq_true_of_decide? hRanges hMem (admits_int.mp hgx) rfl
  · obtain ⟨u, rfl, hu⟩ := hfx
    exact holds_of_numbers hu (admits_double.mp hgx) h nofun hNumbers
  · obtain ⟨c, rfl, hc⟩ := hfx
    exact beq_iff_eq.mpr ((hc a rfl).symm.trans (admits_bool.mp hgx a' rfl))
  · rfl
  · -- one is null and the other one is not
    rw [eq_null_of_isNull hNull.1 hfx] at hgx
    exact absurd hgx (not_admits_null hNull.2)
  · rw [eq_null_of_isNull hNull.2 hgx] at hfx
    exact absurd hfx (not_admits_null hNull.1)
  · rw [hDisjoint] at hCommon
    cases hCommon

/-- Values that differ are not decided to be equal. -/
theorem eq_false_of_decide_eq (hfx : f.Admits w x) (hgy : g.Admits w y)
    (h : Concrete.Holds .ne x y) (hDecide : decideComparison? .eq f g = some b) : b = false := by
  rw [Bool.eq_false_iff]
  rintro rfl
  rcases of_decideComparison? hDecide with ⟨r, s, rfl, rfl, hRanges⟩ | ⟨c, d, rfl, rfl, hNumbers⟩ |
    ⟨-, ⟨a, a', rfl, rfl, hBools⟩ | ⟨hNull, hNull', -⟩ | ⟨hFalse, -⟩⟩
  · obtain ⟨m, hm, rfl, hMem⟩ := hfx
    obtain ⟨n, hn, rfl, hMem'⟩ := hgy
    exact Range.not_holds_of_decide? hRanges hMem hMem' h
  · rcases hNumbers with ⟨-, hFalse⟩ | ⟨p, q, rfl, rfl, hCompare⟩
    · cases hFalse
    · obtain ⟨u, rfl, rfl⟩ := hfx
      obtain ⟨v, rfl, rfl⟩ := hgy
      exact Double.not_holds_of_compare? hCompare h
  · obtain ⟨c, rfl, hc⟩ := hfx
    obtain ⟨d, rfl, hd⟩ := hgy
    rcases h with ⟨hEq, -⟩ | ⟨-, hNe⟩
    · cases hEq
    · exact hNe ((hc a rfl).trans ((beq_iff_eq.mp hBools.symm).trans (hd a' rfl).symm))
  · -- null does not differ from null
    rw [eq_null_of_isNull hNull hfx, eq_null_of_isNull hNull' hgy] at h
    cases h
  · cases hFalse

/-- An order relation that holds is not decided to fail. -/
theorem eq_true_of_decide_order (hOrdering : rel.isOrdering = true) (hfx : f.Admits w x)
    (hgy : g.Admits w y) (h : Concrete.Holds rel x y)
    (hDecide : decideComparison? rel f g = some b) : b = true := by
  have hNe : rel ≠ .ne := by
    rintro rfl
    cases hOrdering
  rcases of_decideComparison? hDecide with ⟨r, s, rfl, rfl, hRanges⟩ | ⟨c, d, rfl, rfl, hNumbers⟩ |
    ⟨rfl, -⟩
  · obtain ⟨m, hm, rfl, hMem⟩ := hfx
    obtain ⟨n, hn, rfl, hMem'⟩ := hgy
    exact Range.eq_true_of_decide? hRanges hMem hMem' h
  · obtain ⟨u, rfl, hu⟩ := hfx
    obtain ⟨v, rfl, hv⟩ := hgy
    exact holds_of_numbers hu hv h hNe hNumbers
  · cases hOrdering

/-- A comparison that holds is not decided to fail. -/
theorem eq_true_of_decide?_of_admits (hDisjoint : x = y → disjoint f g = false) (hfx : f.Admits w x)
    (hgy : g.Admits w y) (h : Concrete.Holds rel x y) (hDecide : decide? rel f g = some b) :
    b = true := by
  unfold decide? at hDecide
  split at hDecide
  · cases hDecide
  · have hCompares := Concrete.not_isTypeTest_of_holds h
    cases rel with
    | eq =>
      have hSame := Concrete.eq_of_holds h
      subst hSame
      exact eq_true_of_decide_eq (hDisjoint rfl) hfx hgy h hDecide
    | ne =>
      obtain ⟨c, hc, rfl⟩ := Option.map_eq_some_iff.mp hDecide
      rw [eq_false_of_decide_eq hfx hgy h hc]
      rfl
    | instanceOf | notInstanceOf => cases hCompares
    | _ => exact eq_true_of_decide_order rfl hfx hgy h hDecide

/-- **A comparison that holds** of values that the facts keep is not decided to fail. -/
theorem eq_true_of_decide? (hf : f.Over w.types) (hg : g.Over w.types)
    (hOrdered : Ordered w o x) (hfx : f.Keeps w o x) (hgy : g.Keeps w o y)
    (h : Concrete.Holds rel x y) (hDecide : decide? rel f g = some b) : b = true := by
  refine eq_true_of_decide?_of_admits ?_ hfx.admits hgy.admits h hDecide
  rintro rfl
  exact disjoint_eq_false hf hg hOrdered hfx hgy

/-- An order relation that fails is not decided to hold. -/
theorem eq_false_of_decide_order (hOrdering : rel.isOrdering = true) (hfx : f.Admits w x)
    (hgy : g.Admits w y) (h : Concrete.Holds rel.negated x y)
    (hDecide : decideComparison? rel f g = some b) : b = false := by
  rw [Bool.eq_false_iff]
  rintro rfl
  rcases of_decideComparison? hDecide with ⟨r, s, rfl, rfl, hRanges⟩ | ⟨c, d, rfl, rfl, hNumbers⟩ |
    ⟨rfl, -⟩
  · obtain ⟨m, hm, rfl, hMem⟩ := hfx
    obtain ⟨n, hn, rfl, hMem'⟩ := hgy
    exact Range.not_holds_of_decide? hRanges hMem hMem' h
  · rcases hNumbers with ⟨-, hFalse⟩ | ⟨p, q, rfl, rfl, hCompare⟩
    · cases hFalse
    · obtain ⟨u, rfl, rfl⟩ := hfx
      obtain ⟨v, rfl, rfl⟩ := hgy
      exact Double.not_holds_of_compare? hCompare h
  · cases hOrdering

/-- **A comparison that fails is not decided to hold.** -/
theorem eq_false_of_decide?_of_admits (hDisjoint : x = y → disjoint f g = false)
    (hfx : f.Admits w x) (hgy : g.Admits w y) (h : Concrete.Holds rel.negated x y)
    (hDecide : decide? rel f g = some b) : b = false := by
  unfold decide? at hDecide
  split at hDecide
  · cases hDecide
  · have hCompares := Concrete.not_isTypeTest_of_holds h
    cases rel with
    | eq => exact eq_false_of_decide_eq hfx hgy h hDecide
    | ne =>
      have hSame := Concrete.eq_of_holds h
      subst hSame
      obtain ⟨c, hc, rfl⟩ := Option.map_eq_some_iff.mp hDecide
      rw [eq_true_of_decide_eq (hDisjoint rfl) hfx hgy h hc]
      rfl
    | instanceOf | notInstanceOf => cases hCompares
    | _ => exact eq_false_of_decide_order rfl hfx hgy h hDecide

-- ---------------------------------------------------------------------------
-- Narrowing
-- ---------------------------------------------------------------------------

section Narrow

variable {w : World} {f g : Fact} {rel : Relation} {o : Nat} {x y : Concrete}

/-- A fact that says of a reference only whether it is null admits all objects. -/
theorem ofNullness_admits {n : Nullness} (h : n ≠ .null) : (ofNullness n).Admits w (.object o) :=
  admits_object.mpr ⟨⟨h, TypeBound.allows_top, nofun, trivial, nofun⟩, trivial, trivial⟩

theorem notNull_admits : notNull.Admits w (.object o) := ofNullness_admits nofun

/-- A constant other than NaN is one value, which does not differ from itself. -/
theorem not_holds_ne_of_isConstant (hConstant : f.isConstant = true)
    (hNaN : f ≠ double .nan) (hfx : f.Admits w x) (hfy : f.Admits w y) :
    ¬ Concrete.Holds .ne x y := by
  intro h
  cases f with
  | top | bottom => cases hConstant
  | bool a =>
    obtain ⟨c, rfl, hc⟩ := hfx
    obtain ⟨d, rfl, hd⟩ := hfy
    obtain ⟨e, he⟩ := Option.isSome_iff_exists.mp hConstant
    rcases h with ⟨hEq, -⟩ | ⟨-, hNe⟩
    · cases hEq
    · exact hNe ((hc e he).trans (hd e he).symm)
  | int r =>
    obtain ⟨m, _, rfl, hm⟩ := hfx
    obtain ⟨n, _, rfl, hn⟩ := hfy
    obtain ⟨k, hk⟩ := Option.isSome_iff_exists.mp hConstant
    exact h ((Range.eq_of_single? hk hm).trans (Range.eq_of_single? hk hn).symm)
  | double c =>
    obtain ⟨u, rfl, hu⟩ := hfx
    obtain ⟨v, rfl, hv⟩ := hfy
    cases c with
    | any => cases hConstant
    | nan => exact hNaN rfl
    | const c =>
      cases hu
      cases hv
      exact h rfl
  | ref r al sl =>
    rw [isConstant, Bool.or_eq_true, beq_iff_eq] at hConstant
    rcases hfx with ⟨rfl, hr⟩ | ⟨p, rfl, hp, -⟩
    · rcases hfy with ⟨rfl, -⟩ | ⟨q, rfl, hq, -⟩
      · exact absurd (Concrete.holds_null_right h) (by simp)
      · rw [hr.literal] at hConstant
        exact hConstant.elim hq.notNull nofun
    · obtain ⟨l, hl⟩ := Option.isSome_iff_exists.mp (hConstant.resolve_left hp.notNull)
      rcases hfy with ⟨rfl, hr⟩ | ⟨q, rfl, hq, -⟩
      · rw [hr.literal] at hl
        cases hl
      · rcases h with ⟨hEq, -⟩ | ⟨-, hNe⟩
        · cases hEq
        · exact hNe (w.literal_inj (hp.literal l hl) (hq.literal l hl))

/-- **Against a value that differs** the fact is narrowed by constants only. -/
theorem keeps_narrowNe (hf : f.Over w.types) (hOrdered : Ordered w o x)
    (hfx : f.Keeps w o x) (hgy : g.Admits w y) (h : Concrete.Holds .ne x y)
    (hNaN : f ≠ double .nan) : (narrowNe f g).Keeps w o x := by
  unfold narrowNe
  split
  · exact hfx
  · rename_i hConstant
    have hConstant : g.isConstant = true := by simpa using hConstant
    -- a constant that excludes itself would be the value on both sides
    have hSelf : (if f = g then bottom else f).Keeps w o x := by
      split
      · rename_i hSame
        subst hSame
        exact absurd h (not_holds_ne_of_isConstant hConstant hNaN hfx.admits hgy)
      · exact hfx
    split
    · -- an integer is taken off the range
      rename_i s
      split
      · rename_i r n hSingle
        obtain ⟨m, hm, rfl, hMem⟩ := hfx.admits
        obtain ⟨n', _, rfl, hMem'⟩ := hgy
        have hNe : m ≠ n := Range.eq_of_single? hSingle hMem' ▸ h
        exact keeps_of_admits nofun
          (admits_ofRange.mpr (admits_int.mpr (Range.mem_without hMem hNe)))
      · exact hfx
    · -- the other boolean is left
      rename_i hOnly
      obtain ⟨d, rfl, hd⟩ := hgy
      obtain ⟨c, rfl, ⟨hEq, -⟩ | ⟨-, hNe⟩⟩ := Concrete.holds_bool_right h
      · cases hEq
      · refine keeps_meet hf (over_of_info rfl) hOrdered hfx (keeps_of_admits nofun ?_)
        rw [ofBool, admits_bool, ← hd _ rfl]
        exact fun e he => (Bool.eq_not.mpr hNe).trans (Option.some.inj he)
    · rename_i s al sl
      split
      · -- what differs from null is an object
        rename_i hNull
        rcases hgy with ⟨rfl, -⟩ | ⟨q, -, hq, -⟩
        · obtain ⟨-, hEq⟩ | ⟨-, p, rfl⟩ := Concrete.holds_null_right h
          · cases hEq
          · exact keeps_meet hf over_ofNullness hOrdered hfx
              (keeps_of_admits nofun notNull_admits)
        · exact absurd hNull hq.notNull
      · exact hSelf
    · exact hSelf

/-- **In an order relation** to a number the fact is narrowed to the numbers there are. -/
theorem keeps_narrowOrder (hOrdering : rel.isOrdering = true) (hf : f.Over w.types)
    (hg : g.Over w.types) (hOrdered : Ordered w o x) (hfx : f.Keeps w o x)
    (hgy : g.Keeps w o y) (h : Concrete.Holds rel x y) : (narrowOrder rel f g).Keeps w o x := by
  have hNe : rel ≠ .ne := by
    rintro rfl
    cases hOrdering
  have hImage : ∀ s, g = int s → (f.meet (ofRange (s.image rel))).Keeps w o x := by
    rintro s rfl
    obtain ⟨n, hn, rfl, hMem⟩ := hgy.admits
    obtain ⟨m, hm, rfl, hmn⟩ := Concrete.holds_int_right h
    refine keeps_meet hf (over_of_info info_ofRange) hOrdered hfx (keeps_of_admits nofun ?_)
    exact admits_ofRange.mpr (admits_int.mpr (Range.mem_image hm hMem hmn))
  unfold narrowOrder
  split
  · -- a NaN is in no order relation
    rename_i hNaN
    refine absurd (Concrete.eq_ne_of_holds_nan h ?_) hNe
    rw [Bool.or_eq_true, decide_eq_true_eq, decide_eq_true_eq] at hNaN
    rcases hNaN with rfl | rfl
    · obtain ⟨u, rfl, rfl⟩ := hfx.admits
      exact Or.inl rfl
    · obtain ⟨v, rfl, rfl⟩ := hgy.admits
      exact Or.inr rfl
  · split
    · exact hImage _ rfl
    · exact hImage _ rfl
    · -- numbers for which the relation was decided to fail
      split
      · rename_i hDecide
        have hTrue := eq_true_of_decide? hf hg hOrdered hfx hgy h hDecide
        cases hTrue
      · exact hfx
    · exact hfx

/-- **Narrowing by a comparison that holds** takes away no value it holds of. -/
theorem keeps_narrow (hf : f.Over w.types) (hg : g.Over w.types) (hOrdered : Ordered w o x)
    (hfx : f.Keeps w o x) (hgy : g.Keeps w o y) (h : Concrete.Holds rel x y)
    (hNaN : f ≠ double .nan) : (narrow rel f g).Keeps w o x := by
  have hCompares := Concrete.not_isTypeTest_of_holds h
  cases rel with
  | eq =>
    have hSame := Concrete.eq_of_holds h
    subst hSame
    exact keeps_meet hf hg hOrdered hfx hgy
  | ne => exact keeps_narrowNe hf hOrdered hfx hgy.admits h hNaN
  | instanceOf | notInstanceOf => cases hCompares
  | _ => exact keeps_narrowOrder rfl hf hg hOrdered hfx hgy h

/-- What a fact may be met with when it is narrowed by `g`. -/
inductive Narrower (g : Fact) : Fact → Prop where
  | same : Narrower g g
  | plain {h : Fact} : h.info? = none → Narrower g h
  | nullness (n : Nullness) : Narrower g (ofNullness n)
  | bound (n : Nullness) : Narrower g (ofBound n g.bound)
  | excluded (n : Nullness) {t : TypeDesc} : g.bound.mostSpecific? = some t →
      Narrower g (ofBound n (.notSubtypeOf t))

/-- **What may be left of a fact** narrowed by `g`: all of it, a meet, or else no reference and no
more than the fact. -/
inductive Narrowed (f g : Fact) : Fact → Prop where
  | kept : Narrowed f g f
  | fewer {k : Fact} : k.info? = none → (∀ (w : World) x, k.Admits w x → f.Admits w x) → Narrowed f g k
  | meet {h : Fact} : Narrower g h → Narrowed f g (f.meet h)

theorem narrowed_narrow : Narrowed f g (narrow rel f g) := by
  have hBottom : Narrowed f g bottom := .fewer rfl fun _ _ h => h.elim
  cases rel with
  | eq => exact .meet .same
  | ne =>
    simp only [narrow]
    unfold narrowNe
    split
    · exact .kept
    · split
      · split
        · refine .fewer info_ofRange fun w x h => ?_
          obtain ⟨n, hn, rfl, hMem⟩ := admits_ofRange.mp h
          exact admits_int.mpr (Range.mem_of_mem_without hMem)
        · exact .kept
      · exact .meet (.plain rfl)
      · split
        · exact .meet (.nullness .notNull)
        · split
          · exact hBottom
          · exact .kept
      · split
        · exact hBottom
        · exact .kept
  | instanceOf => exact .meet (.bound .notNull)
  | notInstanceOf =>
    simp only [narrow]
    unfold narrowNotInstance
    split
    · exact .kept
    · split
      · exact .kept
      · rename_i t ht
        dsimp only
        split
        · exact .meet (.nullness .null)
        · exact .meet (.excluded .unknown ht)
  | _ =>
    simp only [narrow]
    unfold narrowOrder
    split
    · exact hBottom
    · split
      · exact .meet (.plain info_ofRange)
      · exact .meet (.plain info_ofRange)
      · split
        · exact hBottom
        · exact .kept
      · exact .kept

theorem Narrower.over {H : Hierarchy} {h : Fact} (h' : Narrower g h) (hg : g.Over H) :
    h.Over H := by
  cases h' with
  | same => exact hg
  | plain hNone => exact over_of_info hNone
  | nullness n => exact over_ofNullness
  | bound n => exact over_ofBound hg
  | excluded n ht =>
    exact over_ofBound (TypeBound.over_notSubtypeOf (TypeBound.Over.mostSpecific hg ht))

/-- Narrowing names the types that the facts name. -/
theorem over_narrow {H : Hierarchy} (hf : f.Over H) (hg : g.Over H) :
    (narrow rel f g).Over H := by
  have hNarrowed : Narrowed f g (narrow rel f g) := narrowed_narrow
  generalize narrow rel f g = k at hNarrowed ⊢
  cases hNarrowed with
  | kept => exact hf
  | fewer hNone _ => exact over_of_info hNone
  | meet hNarrower => exact over_meet hf (hNarrower.over hg)

/-- **Narrowing only takes values away**, by whatever relation. -/
theorem admits_of_narrow (hf : f.Over w.types) (hg : g.Over w.types)
    (h : (narrow rel f g).Admits w x) : f.Admits w x := by
  have hNarrowed : Narrowed f g (narrow rel f g) := narrowed_narrow
  generalize narrow rel f g = k at hNarrowed h
  cases hNarrowed with
  | kept => exact h
  | fewer _ hFewer => exact hFewer w x h
  | meet hNarrower => exact (admits_of_meet hf (hNarrower.over hg) h).1

end Narrow

end Fact

end Pathwise
