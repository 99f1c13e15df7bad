import Pathwise.Type.Basic

/-!
# Type bounds

What is known about the runtime class of a reference: the class itself, or
classes it is an instance of, together with classes it is no instance of. A
bound that names the exact class names nothing else, and the classes of
`within` are kept minimal: none is a supertype of another.
-/

namespace Pathwise

/-- A constraint on the runtime class of a reference. -/
structure TypeBound where
  /-- The runtime class, if it is known. -/
  known? : Option TypeDesc
  /-- Types that the class is a subtype of. -/
  within : OrdSet TypeDesc
  /-- Types that the class is no subtype of. -/
  excluded : OrdSet TypeDesc
  deriving DecidableEq

namespace TypeBound

/-- The bound that every class meets. -/
def top : TypeBound := ⟨none, ∅, ∅⟩

instance : Inhabited TypeBound := ⟨top⟩

/-- The class is `t`. -/
def exactly (t : TypeDesc) : TypeBound := { top with known? := some t }

/-- The class is a subtype of `t`. The topmost class bounds nothing, and a final
one leaves only itself. -/
def subtypeOf (t : TypeDesc) : TypeBound :=
  if t.name = objectName then top
  else if t.isFinal then exactly t
  else { top with within := OrdSet.empty.insert t }

/-- The class is no subtype of `t`. -/
def notSubtypeOf (t : TypeDesc) : TypeBound := { top with excluded := OrdSet.empty.insert t }

/-- Whether the bound says nothing. -/
def isTop (b : TypeBound) : Bool := b.known?.isNone && b.within.isEmpty && b.excluded.isEmpty

/-- The most specific type that the class is known to be a subtype of: of several
incomparable ones the first. -/
def mostSpecific? (b : TypeBound) : Option TypeDesc := b.known? <|> b.within.min?

/-- Whether the class is known exactly and has this name. -/
def isExactly (b : TypeBound) (name : String) : Bool := b.known?.any (·.name == name)

/-- Whether the class is known to be an array type. -/
def isArray (b : TypeBound) : Bool := b.mostSpecific?.any (·.isArray)

/-- The classes whose instances are compared by content. -/
def byContent : List String :=
  [stringName, "java.lang.Integer", "java.lang.Long", "java.lang.Short", "java.lang.Byte",
    "java.lang.Character", "java.lang.Boolean", "java.lang.Double", "java.lang.Float"]

/-- Whether values of the class are compared by content, so that comparing the
references says little. -/
def isComparedByContent (b : TypeBound) : Bool :=
  b.mostSpecific?.any fun t => byContent.contains t.name

/-- The members of a set of types that have no other member below them. -/
def minimal (s : OrdSet TypeDesc) : OrdSet TypeDesc :=
  s.filter fun a => !s.any fun b => decide (b ≠ a) && b.isSubtypeOf a

/-- The meet of two bounds; none if no class satisfies both. -/
def meet? (b c : TypeBound) : Option TypeBound :=
  let within := b.within.union c.within
  let excluded := b.excluded.union c.excluded
  let pinned? (t : TypeDesc) : Option TypeBound :=
    if within.all t.isSubtypeOf && !excluded.any t.isSubtypeOf then some (exactly t) else none
  match b.known?, c.known? with
  | some s, some t => if s = t then pinned? s else none
  | some s, none => pinned? s
  | none, some t => pinned? t
  | none, none =>
    if within.any (fun s => excluded.any s.isSubtypeOf || within.any (!s.mayIntersect ·)) then none
    else some ⟨none, minimal within, excluded⟩

/-- Whether every class that satisfies `c` is known to satisfy `b`. -/
def covers (b c : TypeBound) : Bool :=
  let below (t : TypeDesc) : Bool :=
    match c.known? with
    | some e => e.isSubtypeOf t
    | none => c.within.any (·.isSubtypeOf t)
  (b.known?.isNone || decide (b.known? = c.known?)) &&
    b.within.all below &&
    b.excluded.all fun t => c.excluded.any t.isSubtypeOf || c.known?.any (!·.isSubtypeOf t)

end TypeBound

end Pathwise
