/-!
# Relations between values

The binary relations that conditions are built from: the six comparisons and
the two type tests. A comparison is a set of the three *primitive* outcomes
`<`, `=` and `>` of comparing two ordered values; negation, implication and
compatibility of comparisons are complement, inclusion and overlap of those
sets.
-/

namespace Pathwise

/-- A binary relation between two values. -/
inductive Relation where
  | eq
  | ne
  | lt
  | le
  | gt
  | ge
  /-- The left value is an instance of the type on the right. -/
  | instanceOf
  /-- The left value is no instance of the type on the right. -/
  | notInstanceOf
  deriving DecidableEq, Repr, Inhabited

namespace Relation

/-- The relation that holds exactly when this one does not. -/
def negated : Relation → Relation
  | eq => ne
  | ne => eq
  | lt => ge
  | le => gt
  | gt => le
  | ge => lt
  | instanceOf => notInstanceOf
  | notInstanceOf => instanceOf

/-- The relation with its operands exchanged. A type test has none. -/
def flipped? : Relation → Option Relation
  | eq => some eq
  | ne => some ne
  | lt => some gt
  | le => some ge
  | gt => some lt
  | ge => some le
  | instanceOf | notInstanceOf => none

/-- Whether the relation is a type test rather than a comparison. -/
def isTypeTest : Relation → Bool
  | instanceOf | notInstanceOf => true
  | _ => false

/-- Whether the relation compares by order. -/
def isOrdering : Relation → Bool
  | lt | le | gt | ge => true
  | _ => false

/-- The primitive outcomes that make up a comparison. -/
def primitives : Relation → List Relation
  | eq => [eq]
  | ne => [lt, gt]
  | lt => [lt]
  | gt => [gt]
  | le => [lt, eq]
  | ge => [gt, eq]
  | instanceOf | notInstanceOf => []

/-- Whether `r` follows from `s`, for `s` the relation itself or one of its proper parts. -/
def impliedBy (r s : Relation) : Bool :=
  r == s ||
    match r with
    | le => s == lt || s == eq
    | ge => s == gt || s == eq
    | ne => s == lt || s == gt
    | _ => false

/-- The relations to try one by one so that both outcomes of this one are met. -/
def cases (r : Relation) : List Relation :=
  if r.isOrdering then [lt, gt, eq] else [r, r.negated]

/-- Whether two relations can hold of the same two values. -/
def compatible (r s : Relation) : Bool :=
  r.isTypeTest || s.isTypeTest || r.primitives.any (s.primitives.contains ·)

/-- The position of a relation in the order of declaration. -/
def rank : Relation → Nat
  | eq => 0
  | ne => 1
  | lt => 2
  | le => 3
  | gt => 4
  | ge => 5
  | instanceOf => 6
  | notInstanceOf => 7

theorem rank_inj {r s : Relation} (h : r.rank = s.rank) : r = s := by
  cases r <;> cases s <;> simp_all [rank]

/-- The relation as it is written between two operands. -/
def text : Relation → String
  | eq => "=="
  | ne => "!="
  | lt => "<"
  | le => "<="
  | gt => ">"
  | ge => ">="
  | instanceOf => "instanceof"
  | notInstanceOf => "!instanceof"

@[simp] theorem negated_negated (r : Relation) : r.negated.negated = r := by cases r <;> rfl

theorem flipped?_eq_none_iff {r : Relation} : r.flipped? = none ↔ r.isTypeTest = true := by
  cases r <;> simp [flipped?, isTypeTest]

theorem flipped?_flipped? {r s : Relation} (h : r.flipped? = some s) : s.flipped? = some r := by
  cases r <;> cases s <;> simp_all [flipped?]

end Relation

end Pathwise
