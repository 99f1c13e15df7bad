import Pathwise.Fact.Basic
import Pathwise.Proofs.Bounds

/-!
# Runtime values

What facts are about. A `World` tells of each object its class, its lengths, whether it
is local and modifiable, and which constant it is. A runtime value is a boolean, a 64-bit
integer, a double, null or an object, and `Fact.Admits` says when a fact describes it.

Comparisons relate values of one kind: numbers by their order, where a NaN differs from
every double and is in no other relation, booleans and references by identity.

## Results

* `Fact.Admits`                         — the values that a fact describes.
* `Concrete.Holds`                      — the comparisons of runtime values.
* `Concrete.eq_of_holds`, `holds_flipped`, `compatible_of_holds` — their laws.
-/

namespace Pathwise

/-- A comparison of two integers. -/
def Relation.HoldsOfInts : Relation → Int → Int → Prop
  | eq, m, n => m = n
  | ne, m, n => m ≠ n
  | lt, m, n => m < n
  | le, m, n => m ≤ n
  | gt, m, n => n < m
  | ge, m, n => n ≤ m
  | instanceOf, _, _ | notInstanceOf, _, _ => False

/-- The objects of a running program. -/
structure World where
  types : Hierarchy
  classOf : Nat → TypeDesc
  declared : ∀ o, types.Declares (classOf o)
  length? : Length → Nat → Option Int
  length_mem : ∀ {l o n}, length? l o = some n → n ∈ Range.lengths
  IsLocal : Nat → Prop
  IsModifiable : Nat → Prop
  literal? : Nat → Option RefLiteral
  /-- A constant is one object. -/
  literal_inj : ∀ {o p l}, literal? o = some l → literal? p = some l → o = p
  literal_length : ∀ {o s}, literal? o = some (.string s) →
    length? .string o = some (Text.units s)

/-- The objects of a program that makes plain ones of one class. -/
def World.ofClass (H : Hierarchy) (t : TypeDesc) (ht : H.Declares t) : World where
  types := H
  classOf _ := t
  declared _ := ht
  length? _ _ := none
  length_mem := nofun
  IsLocal _ := False
  IsModifiable _ := False
  literal? _ := none
  literal_inj := nofun
  literal_length := nofun

@[simp] theorem World.types_ofClass {H : Hierarchy} {t : TypeDesc} {ht : H.Declares t} :
    (World.ofClass H t ht).types = H :=
  rfl

/-- A runtime value. -/
inductive Concrete where
  | bool (b : Bool)
  | int (n : Int) (isLong : n ∈ Range.full)
  /-- A double, where no number stands for a NaN. -/
  | double (d : Option Double)
  | null
  | object (o : Nat)

namespace Concrete

/-- Whether a comparison holds of two values. -/
def Holds (rel : Relation) : Concrete → Concrete → Prop
  | bool a, bool b => rel = .eq ∧ a = b ∨ rel = .ne ∧ a ≠ b
  | int m _, int n _ => rel.HoldsOfInts m n
  | double (some c), double (some d) => rel.HoldsOfInts c.key d.key
  | double _, double _ => rel = .ne
  | null, null => rel = .eq
  | object o, object p => rel = .eq ∧ o = p ∨ rel = .ne ∧ o ≠ p
  | null, object _ | object _, null => rel = .ne
  | _, _ => False

end Concrete

-- ---------------------------------------------------------------------------
-- The values that a fact describes
-- ---------------------------------------------------------------------------

/-- The double, or NaN, is as described. -/
def DoubleFact.Admits : DoubleFact → Option Double → Prop
  | any, _ => True
  | const c, d => d = some c
  | nan, d => d = none

/-- An object that is modifiable, or not, is as described. -/
def Mutability.Admits : Mutability → Prop → Prop
  | unknown, _ => True
  | mutable, p => p
  | unmodifiable, p => ¬p

/-- Null is as described: a constant is another reference. -/
structure RefInfo.AdmitsNull (r : RefInfo) : Prop where
  nullable : r.nullness ≠ .notNull
  literal  : r.literal = none

/-- The object is as described, its lengths apart. -/
structure RefInfo.AdmitsObject (w : World) (r : RefInfo) (o : Nat) : Prop where
  notNull    : r.nullness ≠ .null
  bound      : r.bound.Allows (w.classOf o)
  isLocal    : r.isLocal = true → w.IsLocal o
  mutability : r.mutability.Admits (w.IsModifiable o)
  literal    : ∀ l, r.literal = some l → w.literal? o = some l

namespace Fact

mutual

/-- **The fact admits a value**: it is one of those that the fact describes. A reference
may be null unless it is said not to be, or to be a constant. -/
def Admits (w : World) : Fact → Concrete → Prop
  | bottom, _ => False
  | top, _ => True
  | bool b, x => ∃ c, x = .bool c ∧ ∀ d, b = some d → c = d
  | int r, x => ∃ n h, x = .int n h ∧ n ∈ r
  | double f, x => ∃ d, x = .double d ∧ f.Admits d
  | ref r al sl, x =>
    (x = .null ∧ r.AdmitsNull) ∨
    ∃ o, x = .object o ∧ r.AdmitsObject w o ∧ AdmitsLength w al (w.length? .array o) ∧
      AdmitsLength w sl (w.length? .string o)

/-- A length is as stated: there is one, if anything is stated. -/
def AdmitsLength (w : World) : Option Fact → Option Int → Prop
  | none, _ => True
  | some f, n => ∃ m h, n = some m ∧ f.Admits w (.int m h)

end

variable {w : World} {f g : Fact} {r : RefInfo} {al sl : Option Fact} {n : Int}
  {isLong : n ∈ Range.full} {o : Nat}

@[simp] theorem not_admits_bottom {x : Concrete} : ¬ bottom.Admits w x := fun h => h

@[simp] theorem admits_top {x : Concrete} : top.Admits w x := trivial

@[simp] theorem admits_bool {b : Option Bool} {c : Bool} :
    (bool b).Admits w (.bool c) ↔ ∀ d, b = some d → c = d := by
  constructor
  · rintro ⟨c, hEq, h⟩
    cases hEq
    exact h
  · intro h
    exact ⟨c, rfl, h⟩

@[simp] theorem admits_int {s : Range} : (int s).Admits w (.int n isLong) ↔ n ∈ s := by
  constructor
  · rintro ⟨m, h, hEq, hMem⟩
    cases hEq
    exact hMem
  · intro hMem
    exact ⟨n, isLong, rfl, hMem⟩

@[simp] theorem admits_double {d : DoubleFact} {x : Option Double} :
    (double d).Admits w (.double x) ↔ d.Admits x := by
  constructor
  · rintro ⟨x, hEq, h⟩
    cases hEq
    exact h
  · intro h
    exact ⟨x, rfl, h⟩

@[simp] theorem admits_null : (ref r al sl).Admits w .null ↔ r.AdmitsNull := by
  constructor
  · rintro (⟨-, h⟩ | ⟨o, hEq, -⟩)
    · exact h
    · cases hEq
  · intro h
    exact Or.inl ⟨rfl, h⟩

@[simp] theorem admits_object :
    (ref r al sl).Admits w (.object o) ↔ r.AdmitsObject w o ∧
      AdmitsLength w al (w.length? .array o) ∧ AdmitsLength w sl (w.length? .string o) := by
  constructor
  · rintro (⟨hEq, -⟩ | ⟨p, hEq, h⟩)
    · cases hEq
    · cases hEq
      exact h
  · intro h
    exact Or.inr ⟨o, rfl, h⟩

/-- A fact that admits an integer says nothing or gives a range. -/
theorem admits_int_iff :
    f.Admits w (.int n isLong) ↔ f = top ∨ ∃ s, f = int s ∧ n ∈ s := by
  cases f with
  | int s => simp
  | _ => simp [Admits]

theorem admits_bool_iff {b : Bool} :
    f.Admits w (.bool b) ↔ f = top ∨ ∃ c, f = bool c ∧ ∀ d, c = some d → b = d := by
  cases f <;> simp [Admits]

theorem admits_double_iff {x : Option Double} :
    f.Admits w (.double x) ↔ f = top ∨ ∃ d, f = double d ∧ d.Admits x := by
  cases f <;> simp [Admits]

theorem admits_null_iff :
    f.Admits w .null ↔ f = top ∨ ∃ r al sl, f = ref r al sl ∧ r.AdmitsNull := by
  cases f <;> simp [Admits]

theorem admits_object_iff :
    f.Admits w (.object o) ↔ f = top ∨ ∃ r al sl, f = ref r al sl ∧ r.AdmitsObject w o ∧
      AdmitsLength w al (w.length? .array o) ∧ AdmitsLength w sl (w.length? .string o) := by
  cases f <;> simp [Admits]

end Fact

-- ---------------------------------------------------------------------------
-- Laws of comparisons
-- ---------------------------------------------------------------------------

/-- The order of doubles tells them apart. -/
theorem Double.key_inj {c d : Double} (h : c.key = d.key) : c = d := by
  obtain ⟨b, hb, hb'⟩ := c
  obtain ⟨e, he, he'⟩ := d
  have hBound := b.toNat_lt
  have hBound' := e.toNat_lt
  have hBits : b.toNat = e.toNat := by
    simp only [key, Bits.isNegative, Bits.magnitude, Bits.negativeZero] at h hb' he'
    by_cases hSign : 9223372036854775808 ≤ b.toNat
    · by_cases hSign' : 9223372036854775808 ≤ e.toNat
      · simp only [hSign, hSign', decide_true, if_true] at h
        omega
      · simp only [hSign, hSign', decide_true, decide_false, if_true] at h
        simp at h
        omega
    · by_cases hSign' : 9223372036854775808 ≤ e.toNat
      · simp [hSign, hSign'] at h
        omega
      · simp [hSign, hSign'] at h
        omega
  have hEq : b = e := UInt64.toNat_inj.mp hBits
  subst hEq
  rfl

namespace Concrete

variable {rel rel' : Relation} {x y : Concrete}

/-- Only identical values are equal. -/
theorem eq_of_holds (h : Holds .eq x y) : x = y := by
  cases x <;> cases y <;> simp_all [Holds, Relation.HoldsOfInts]
  rename_i c d
  cases c <;> cases d <;> simp_all
  exact Double.key_inj h

/-- A comparison holds with its operands exchanged. -/
theorem holds_flipped {r : Relation} (hFlipped : rel.flipped? = some r) (h : Holds rel x y) :
    Holds r y x := by
  have hInts : ∀ m n, rel.HoldsOfInts m n → r.HoldsOfInts n m := by
    intro m n hmn
    cases rel <;> cases hFlipped <;> simp_all [Relation.HoldsOfInts, eq_comm]
  have hEq : rel = .eq → r = .eq := by
    rintro rfl
    exact (Option.some.inj hFlipped).symm
  have hNe : rel = .ne → r = .ne := by
    rintro rfl
    exact (Option.some.inj hFlipped).symm
  cases x <;> cases y <;> simp only [Holds] at h ⊢ <;> try exact h.elim
  · exact h.imp (fun h => ⟨hEq h.1, h.2.symm⟩) fun h => ⟨hNe h.1, Ne.symm h.2⟩
  · exact hInts _ _ h
  · rename_i c d
    cases c <;> cases d
    · exact hNe h
    · exact hNe h
    · exact hNe h
    · exact hInts _ _ h
  · exact hEq h
  · exact hNe h
  · exact hNe h
  · exact h.imp (fun h => ⟨hEq h.1, h.2.symm⟩) fun h => ⟨hNe h.1, Ne.symm h.2⟩

/-- Two comparisons that hold of the same values are compatible. -/
theorem compatible_of_holds (h : Holds rel x y) (h' : Holds rel' x y) :
    rel.compatible rel' = true := by
  have hInts : ∀ m n, rel.HoldsOfInts m n → rel'.HoldsOfInts m n →
      rel.compatible rel' = true := by
    intro m n hmn hmn'
    cases rel <;> cases rel' <;>
      first
      | rfl
      | (simp only [Relation.HoldsOfInts] at hmn hmn'; omega)
  have hNe : rel = .ne → rel' = .ne → rel.compatible rel' = true := by
    rintro rfl rfl
    rfl
  have hIdentity : ∀ p : Prop, (rel = .eq ∧ p ∨ rel = .ne ∧ ¬p) →
      (rel' = .eq ∧ p ∨ rel' = .ne ∧ ¬p) → rel.compatible rel' = true := by
    rintro p (⟨rfl, hp⟩ | ⟨rfl, hp⟩) (⟨rfl, hp'⟩ | ⟨rfl, hp'⟩)
    · rfl
    · exact absurd hp hp'
    · exact absurd hp' hp
    · rfl
  cases x <;> cases y <;> simp only [Holds] at h h' <;> try exact h.elim
  · exact hIdentity _ h h'
  · exact hInts _ _ h h'
  · rename_i c d
    cases c <;> cases d
    · exact hNe h h'
    · exact hNe h h'
    · exact hNe h h'
    · exact hInts _ _ h h'
  · rw [h, h']
    rfl
  · exact hNe h h'
  · exact hNe h h'
  · exact hIdentity _ h h'

/-- Only an integer compares to an integer. -/
theorem holds_int_right {n : Int} {hn : n ∈ Range.full} (h : Holds rel x (.int n hn)) :
    ∃ m hm, x = .int m hm ∧ rel.HoldsOfInts m n := by
  cases x <;> simp_all [Holds]

/-- Only a boolean compares to a boolean. -/
theorem holds_bool_right {d : Bool} (h : Holds rel x (.bool d)) :
    ∃ c, x = .bool c ∧ (rel = .eq ∧ c = d ∨ rel = .ne ∧ c ≠ d) := by
  cases x <;> simp_all [Holds]

/-- What compares to null is null or an object. -/
theorem holds_null_right (h : Holds rel x .null) :
    x = .null ∧ rel = .eq ∨ rel = .ne ∧ ∃ p, x = .object p := by
  cases x <;> simp_all [Holds]

theorem holds_null_left (h : Holds rel .null y) :
    y = .null ∧ rel = .eq ∨ rel = .ne ∧ ∃ p, y = .object p := by
  cases y <;> simp_all [Holds]

/-- Only a NaN differs from itself, and nothing is before itself. -/
theorem eq_nan_of_holds_self (h : Holds rel x x) (hStrict : rel = .ne ∨ rel = .lt ∨ rel = .gt) :
    rel = .ne ∧ x = .double none := by
  cases x with
  | double d =>
    cases d with
    | none => exact ⟨h, rfl⟩
    | some d =>
      rcases hStrict with rfl | rfl | rfl <;> simp [Holds, Relation.HoldsOfInts] at h
  | _ =>
    rcases hStrict with rfl | rfl | rfl <;> simp [Holds, Relation.HoldsOfInts] at h

/-- A NaN is in no relation but `≠`. -/
theorem eq_ne_of_holds_nan (h : Holds rel x y) (hNaN : x = .double none ∨ y = .double none) :
    rel = .ne := by
  rcases hNaN with rfl | rfl
  · cases y with
    | double d => exact h
    | _ => exact h.elim
  · cases x with
    | double d => cases d <;> exact h
    | _ => exact h.elim

/-- **Every value equals itself**, a NaN apart. -/
theorem holds_eq_iff : Holds .eq x y ↔ x = y ∧ x ≠ .double none := by
  constructor
  · intro h
    refine ⟨eq_of_holds h, ?_⟩
    rintro rfl
    cases eq_ne_of_holds_nan h (Or.inl rfl)
  · rintro ⟨rfl, hNumber⟩
    cases x with
    | double d =>
      cases d with
      | none => exact absurd rfl hNumber
      | some d => exact rfl
    | null => exact rfl
    | int n hn => exact rfl
    | bool b => exact Or.inl ⟨rfl, rfl⟩
    | object o => exact Or.inl ⟨rfl, rfl⟩

/-- Type tests do not compare. -/
theorem not_isTypeTest_of_holds (h : Holds rel x y) : rel.isTypeTest = false := by
  have hNone : ∀ r : Relation, r.isTypeTest = true → ¬ Holds r x y := by
    intro r hr hHolds
    cases x <;> cases y <;> cases r <;> cases hr <;>
      simp [Holds] at hHolds
    all_goals
      rename_i c d
      cases c <;> cases d <;> simp [Relation.HoldsOfInts] at hHolds
  cases hTest : rel.isTypeTest with
  | false => rfl
  | true => exact absurd h (hNone rel hTest)

end Concrete

end Pathwise
