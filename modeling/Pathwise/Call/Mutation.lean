import Pathwise.Ordered.BitSet

/-!
# Mutation signatures

Which of the values it is given a call may modify.
-/

namespace Pathwise

/-- Which values a call may modify. -/
structure Mutation where
  /-- Whether the call may modify its receiver. -/
  mutatesThis : Bool
  /-- The arguments that the call is known to modify. -/
  args : BitSet
  /-- Whether the call may modify everything it can reach. -/
  isUnknown : Bool
  deriving DecidableEq

namespace Mutation

/-- The call may modify everything it can reach. -/
def unknown : Mutation := ⟨true, ∅, true⟩

/-- The call modifies nothing. -/
def pure : Mutation := ⟨false, ∅, false⟩

instance : Inhabited Mutation := ⟨unknown⟩

/-- The signature with the receiver modified too. -/
def alsoThis (m : Mutation) : Mutation := { m with mutatesThis := true }

/-- The signature with one more argument modified. -/
def alsoArg (m : Mutation) (i : Nat) : Mutation := { m with args := (m.args.insert i).1 }

/-- Whether the call modifies nothing. -/
def isPure (m : Mutation) : Bool := !m.isUnknown && !m.mutatesThis && m.args.isEmpty

/-- Whether the call may modify an argument. -/
def mutatesArg (m : Mutation) (i : Nat) : Bool := m.isUnknown || m.args.contains i

end Mutation

end Pathwise
