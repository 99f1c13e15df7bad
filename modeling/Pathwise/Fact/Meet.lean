import Pathwise.Fact.Basic

/-!
# Meets of facts

The meet of two facts describes the values that satisfy both. Facts of different
kinds have no value in common. Two null references are the same null reference
whatever else was said about them.
-/

namespace Pathwise

/-- What two statements on nullness leave; none if they contradict each other. -/
def Nullness.meet? : Nullness → Nullness → Option Nullness
  | .null, .notNull | .notNull, .null => none
  | .null, _ | _, .null => some .null
  | .notNull, _ | _, .notNull => some .notNull
  | .nullable, _ | _, .nullable => some .nullable
  | .unknown, .unknown => some .unknown

/-- What two statements on mutability leave; none if they contradict each other. -/
def Mutability.meet? : Mutability → Mutability → Option Mutability
  | .unknown, m => some m
  | m, .unknown => some m
  | m, n => if m = n then some m else none

/-- What two statements on a double leave; none if they contradict each other. -/
def DoubleFact.meet? : DoubleFact → DoubleFact → Option DoubleFact
  | .any, d => some d
  | d, .any => some d
  | c, d => if c = d then some c else none

/-- What two pieces of optional knowledge leave; none if they contradict each other. -/
def meetKnown? {α : Type} [DecidableEq α] : Option α → Option α → Option (Option α)
  | none, b => some b
  | some a, none => some (some a)
  | some a, some b => if a = b then some (some a) else none

/-- What two statements on a reference leave; none if they contradict each other.
A null reference keeps nothing but its nullness and is no constant of another kind. -/
def RefInfo.meet? (r s : RefInfo) : Option RefInfo := do
  let nullness ← r.nullness.meet? s.nullness
  let literal ← meetKnown? r.literal s.literal
  if nullness = .null then
    if literal.isSome then none else some (.ofNullness .null)
  else
    let bound ← r.bound.meet? s.bound
    let mutability ← r.mutability.meet? s.mutability
    some ⟨nullness, bound, r.isLocal || s.isLocal, mutability, literal⟩

namespace Fact

/-- Whether a stated length fails when `g` was met into it: a statement that only
the left side made is not looked at again. -/
def lengthFails (g met : Option Fact) : Bool := g.isSome && met.any isBottom

mutual

/-- The values that satisfy both facts. -/
def meet : Fact → Fact → Fact
  | bottom, _ => bottom
  | _, bottom => bottom
  | top, g => g
  | f, top => f
  | bool a, bool b =>
    match meetKnown? a b with
    | some c => bool c
    | none => bottom
  | int r, int s => ofRange (r.meet s)
  | double c, double d =>
    match c.meet? d with
    | some e => double e
    | none => bottom
  | ref r al sl, ref s al' sl' =>
    match r.meet? s with
    | none => bottom
    | some t =>
      if t.nullness = .null then null
      else
        let al := meetLength al al'
        let sl := meetLength sl sl'
        if lengthFails al' al || lengthFails sl' sl then bottom else ref t al sl
  | _, _ => bottom

/-- What two statements on a length leave. -/
def meetLength : Option Fact → Option Fact → Option Fact
  | none, g => g
  | some f, none => some f
  | some f, some g => some (meet f g)

end

/-- The fact on a length as far as the fact on its owner tells: a constant string
has its length in 16-bit units, any other length is a valid one. -/
def lengthFact (l : Length) : Fact → Fact
  | ref r a s =>
    match l, r.literal with
    | .string, some (.string v) => ofInt (Text.units v)
    | .string, _ => statedLength s
    | .array, _ => statedLength a
  | _ => int .lengths
where
  statedLength : Option Fact → Fact
    | some f => f.meet (int .lengths)
    | none => int .lengths

end Fact

end Pathwise
