import Pathwise.Flow.Instr

/-!
# Problems and events

A problem is a defect condition that the analysis checks, tied to a place in the
source. Each check on a path has a verdict. Checks and other remarkable moments
are reported as events, in the order in which they happen.
-/

namespace Pathwise

open Std

/-- A defect condition. -/
inductive Problem where
  | nullDereference (anchor : Anchor)
  | nullableArgument (anchor : Anchor)
  | arrayIndex (anchor : Anchor)
  | classCast (anchor : Anchor)
  /-- An unmodifiable value is modified, as the receiver of a call or as an argument. -/
  | mutability (anchor : Anchor) (isReceiver : Bool)
  | unsatisfiedCondition (anchor : Anchor)
  deriving DecidableEq, Repr

namespace Problem

/-- The place in the source. -/
def anchor : Problem → Anchor
  | nullDereference a | nullableArgument a | arrayIndex a | classCast a | mutability a _
  | unsatisfiedCondition a => a

/-- Whether the problem is about a value being null. -/
def isNullness : Problem → Bool
  | nullDereference _ | nullableArgument _ => true
  | _ => false

/-- The position of the kind of problem in the order of declaration. -/
def rank : Problem → Nat
  | nullDereference _ => 0
  | nullableArgument _ => 1
  | arrayIndex _ => 2
  | classCast _ => 3
  | mutability .. => 4
  | unsatisfiedCondition _ => 5

/-- Whether the problem is about the receiver of a call. -/
def isReceiver : Problem → Bool
  | mutability _ r => r
  | _ => false

/-- Problems are ordered by kind, then place, and last arguments before receivers. -/
instance : Ord Problem where
  compare := compareLex (compareOn rank) (compareLex (compareOn anchor) (compareOn isReceiver))

instance : TransOrd Problem := inferInstanceAs (TransCmp (compareLex _ (compareLex _ _)))

theorem eq_of_attributes {p q : Problem} (hr : p.rank = q.rank) (ha : p.anchor = q.anchor)
    (hv : p.isReceiver = q.isReceiver) : p = q := by
  cases p <;> cases q <;> simp_all [rank, anchor, isReceiver]

instance : LawfulEqOrd Problem where
  eq_of_compare {a b} h := by
    have h : compareLex _ (compareLex _ _) a b = .eq := h
    simp only [compareLex_eq_eq, compareOn] at h
    obtain ⟨h₁, h₂, h₃⟩ := h
    exact eq_of_attributes (LawfulEqOrd.eq_of_compare h₁) (LawfulEqOrd.eq_of_compare h₂)
      (LawfulEqOrd.eq_of_compare h₃)

end Problem

/-- The result of checking a problem on one path. -/
inductive Verdict where
  | alwaysFails
  | neverFails
  | unsure
  deriving DecidableEq, Repr

/-- A remarkable moment of an analysis, with the state at that moment. -/
inductive Event where
  /-- A problem was checked on a value. -/
  | condition (problem : Problem) (value : ValueId) (fact : Fact) (verdict : Verdict)
      (state : State)
  /-- A value is about to be assigned. -/
  | assignment (source dest : ValueId) (state : State)
  /-- A branch goes one way. -/
  | jump (anchor : Anchor) (taken : Bool)
  /-- An initializer is about to end. -/
  | initializerEnd (isStatic : Bool) (state : State)
  /-- The result of an expression is about to be pushed. -/
  | push (value : ValueId) (anchor : Anchor) (state : State)
  deriving DecidableEq

end Pathwise
