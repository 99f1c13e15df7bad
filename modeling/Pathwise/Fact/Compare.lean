import Pathwise.Fact.Meet
import Pathwise.Range.Compare

/-!
# Comparing facts

Two questions about a relation between two values of which only facts are known:
has it the same outcome for all such values (`Fact.decide?`), and what is known
about its left value when it holds (`Fact.narrow`)?
-/

namespace Pathwise.Fact

/-- The outcome of testing a value against the type bound of `target`. Null is an
instance of nothing, and a bound that says nothing decides nothing. -/
def decideInstance? (f target : Fact) : Option Bool :=
  match f with
  | ref r _ _ =>
    if target.bound.isTop then none
    else if r.nullness = .null then some false
    else if (r.bound.meet? target.bound).isNone then some false
    else if r.nullness = .notNull && target.bound.covers r.bound then some true
    else none
  | _ => none

/-- Whether neither fact is `top` and no value satisfies both. -/
def disjoint (f g : Fact) : Bool := !f.isTop && !g.isTop && (f.meet g).isBottom

/-- The outcome of a comparison that is not by equality of facts. -/
def decideComparison? (rel : Relation) (f g : Fact) : Option Bool :=
  match f, g with
  | int r, int s => Range.decide? rel r s
  | double c, double d =>
    if c = .nan || d = .nan then some false
    else
      match c, d with
      | .const x, .const y => Double.compare? rel x y
      | _, _ => none
  | bool (some a), bool (some b) => if rel = .eq then some (a == b) else none
  | ref r _ _, ref s _ _ =>
    if rel = .eq then
      match r.nullness, s.nullness with
      | .null, .null => some true
      | .null, .notNull | .notNull, .null => some false
      | _, _ => if disjoint f g then some false else none
    else none
  | _, _ => if rel = .eq && disjoint f g then some false else none

/-- The outcome of a relation that is the same for all values of the two facts, as
far as can be told from the facts. No value is a contradiction, not an outcome. -/
def decide? (rel : Relation) (f g : Fact) : Option Bool :=
  if f.isBottom || g.isBottom then none
  else
    match rel with
    | .ne => (decideComparison? .eq f g).map (!·)
    | .instanceOf => decideInstance? f g
    | .notInstanceOf => (decideInstance? f g).map (!·)
    | rel => decideComparison? rel f g

/-- What is known about a value that differs from one of `g`. Only a constant
excludes something. -/
def narrowNe (f g : Fact) : Fact :=
  if !g.isConstant then f
  else
    match g with
    | int s =>
      match f, s.single? with
      | int r, some n => ofRange (r.without n)
      | f, _ => f
    | bool (some b) => f.meet (ofBool !b)
    | ref s _ _ => if s.nullness = .null then f.meet notNull else if f = g then bottom else f
    | g => if f = g then bottom else f

/-- What is known about a value that is in an order relation to one of `g`. A NaN
is in none. -/
def narrowOrder (rel : Relation) (f g : Fact) : Fact :=
  if f = double .nan || g = double .nan then bottom
  else
    match f, g with
    | int _, int s | top, int s => f.meet (ofRange (s.image rel))
    | double _, double _ => if decide? rel f g = some false then bottom else f
    | _, _ => f

/-- What is known about a value that is no instance of the type of `g`: null, or of
a class that is no subtype. -/
def narrowNotInstance (f g : Fact) : Fact :=
  if f.isNull then f
  else
    match g.bound.mostSpecific? with
    | none => f
    | some t =>
      -- bottom if every class that the value may have is a subtype; null has no class
      let narrowed := f.meet (ofBound .unknown (.notSubtypeOf t))
      if narrowed.isBottom && f.nullness != .notNull then f.meet null else narrowed

/-- What is known about a value of `f` that is in a relation to a value of `g`. -/
def narrow (rel : Relation) (f g : Fact) : Fact :=
  match rel with
  | .eq => f.meet g
  | .ne => f.narrowNe g
  | .lt | .le | .gt | .ge => f.narrowOrder rel g
  | .instanceOf => f.meet (ofBound .notNull g.bound)
  | .notInstanceOf => f.narrowNotInstance g

end Pathwise.Fact
