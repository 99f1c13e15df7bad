import Pathwise.Proofs.Hierarchy
import Pathwise.Proofs.Stacks

/-!
# Where exceptions are caught

Of an exception that is thrown a static type is known, and its class is that type or one below.
It is caught by the first clause for a supertype of its class, so which clause that is depends on
more than is known, and the states go on at every clause that may be the one.

A clause for a supertype of the static type catches everything, and none after it is looked at. A
clause for a subtype may catch. Any other clause is passed over, and this is where the exceptions
have to be in a row: a class could be below the static type and below the type of the clause,
with neither of them below the other. There is one superclass to a class, so among types of
exceptions there are no such two (`Hierarchy.Linear`).

## Results

* `mem_caughtAt_of_catcher` — the clause that catches the exception is not passed over.
* `caughtAt_append`         — after a clause that catches everything nothing is looked at.
* `usual_reaches_catcher`   — where the states go on after an exception was thrown.
-/

namespace Pathwise

/-- The types above a class are in a row. -/
def Hierarchy.Linear (H : Hierarchy) (c : TypeDesc) : Prop :=
  ∀ s, H.Declares s → ∀ t, H.Declares t → c.isSubtypeOf s = true → c.isSubtypeOf t = true →
    s.isSubtypeOf t = true ∨ t.isSubtypeOf s = true

namespace Transfer

variable {H : Hierarchy} {e thrown : TypeDesc} {s : State} {c : CatchClause}
  {cs before after : List CatchClause}

/-- The clause that catches an exception of a class: the first for a supertype. -/
def catcher? (cs : List CatchClause) (thrown : TypeDesc) : Option CatchClause :=
  cs.find? fun c => thrown.isSubtypeOf c.caught

/-- **The clause that catches an exception is used**, whatever is known of its class. The induction
is on the clauses before: none of them catches, so none of them is for a supertype of the static
type. -/
theorem mem_caughtAt_of_catcher (he : H.Declares e) (hThrown : H.Declares thrown)
    (hcs : ∀ c ∈ cs, H.Declares c.caught) (hLinear : H.Linear thrown)
    (hBelow : thrown.isSubtypeOf e = true) (h : catcher? cs thrown = some c) :
    ⟨c.target, s, 0⟩ ∈ caughtAt s e cs := by
  induction cs with
  | nil => cases h
  | cons k ks ih =>
    obtain ⟨hk, hks⟩ := List.forall_mem_cons.mp hcs
    rw [catcher?, List.find?_cons] at h
    cases hCatches : thrown.isSubtypeOf k.caught with
    | true =>
      rw [hCatches] at h
      obtain rfl : k = c := Option.some.inj h
      rw [caughtAt]
      split
      · exact List.mem_singleton_self _
      · rename_i hUnsure
        have hMay := (hLinear e he k.caught hk hBelow hCatches).resolve_left hUnsure
        rw [if_pos hMay]
        exact List.mem_cons_self
    | false =>
      rw [hCatches] at h
      have hRest := ih hks h
      have hUnsure : ¬ e.isSubtypeOf k.caught = true := fun hSure => by
        rw [Hierarchy.isSubtypeOf_trans hThrown he hk hBelow hSure] at hCatches
        cases hCatches
      rw [caughtAt, if_neg hUnsure]
      split
      · exact List.mem_cons_of_mem _ hRest
      · exact hRest

/-- **A clause for a supertype of the static type is the last** that is looked at. -/
theorem caughtAt_append (hSure : e.isSubtypeOf c.caught = true) :
    caughtAt s e (before ++ c :: after) = caughtAt s e (before ++ [c]) := by
  induction before with
  | nil =>
    rw [List.nil_append, List.nil_append, caughtAt, caughtAt, if_pos hSure, if_pos hSure]
  | cons k ks ih => rw [List.cons_append, List.cons_append, caughtAt, caughtAt, ih]

/-- **An exception arrives where it is caught.** Whatever the class of an exception is below its
static type, a state goes on at the clause that catches it; all states that go on are the one in
which the exception was thrown, with an empty stack; and no clause has a part after one that
catches everything. -/
theorem usual_reaches_catcher (he : H.Declares e) (hThrown : H.Declares thrown)
    (hcs : ∀ c ∈ cs, H.Declares c.caught) (hLinear : H.Linear thrown)
    (hBelow : thrown.isSubtypeOf e = true) :
    (∀ c, catcher? cs thrown = some c →
      ∃ it ∈ TransferHandler.usual (.throw e cs) s, it.index = c.target) ∧
    (∀ it ∈ TransferHandler.usual (.throw e cs) s, it.state.stack = [] ∧
      it.state.facts = s.facts ∧ it.state.links = s.links ∧
      it.state.isEphemeral = s.isEphemeral) ∧
    ∀ before c after, cs = before ++ c :: after → e.isSubtypeOf c.caught = true →
      TransferHandler.usual (.throw e cs) s =
        TransferHandler.usual (.throw e (before ++ [c])) s := by
  refine ⟨fun c hc => ?_, fun it hit => ?_, ?_⟩
  · exact ⟨_, mem_caughtAt_of_catcher he hThrown hcs hLinear hBelow hc, rfl⟩
  · obtain ⟨hState, -⟩ := Step.mem_caughtAt hit
    rw [hState]
    exact ⟨rfl, rfl, rfl, rfl⟩
  · rintro before c after rfl hSure
    exact caughtAt_append hSure

-- ---------------------------------------------------------------------------
-- Some exceptions
-- ---------------------------------------------------------------------------

/-- The class of an exception with its superclasses. -/
def exceptionType (name : String) (above : List String) : TypeDesc :=
  .ofClass ("java.lang." ++ name) (above.map ("java.lang." ++ ·)) false

def throwable : TypeDesc := exceptionType "Throwable" []

def exception : TypeDesc := exceptionType "Exception" ["Throwable"]

def runtimeException : TypeDesc := exceptionType "RuntimeException" ["Exception", "Throwable"]

def nullPointer : TypeDesc :=
  exceptionType "NullPointerException" ["RuntimeException", "Exception", "Throwable"]

def interrupted : TypeDesc := exceptionType "InterruptedException" ["Exception", "Throwable"]

/-- The types of the exceptions. -/
def exceptions : Hierarchy :=
  .ofList [.object, throwable, exception, runtimeException, nullPointer, interrupted]
    (by decide +kernel)

/-- The second clause may catch, the third one catches everything that is left. -/
def clauses : List CatchClause :=
  [⟨interrupted, 5⟩, ⟨nullPointer, 3⟩, ⟨exception, 7⟩, ⟨throwable, 9⟩]

theorem linear_nullPointer : exceptions.Linear nullPointer := by
  simp only [Hierarchy.Linear, exceptions, Hierarchy.declares_ofList]
  decide +kernel

/-- Where a runtime exception is thrown it may be for a null that was dereferenced. That arrives at
the second clause with nothing on the stack, and nothing arrives at the last one. -/
theorem usual_reaches_catcher_nullPointer :
    (∃ it ∈ TransferHandler.usual (.throw runtimeException clauses) (State.initial.push 1),
      it.index = 3) ∧
    ∀ it ∈ TransferHandler.usual (.throw runtimeException clauses) (State.initial.push 1),
      it.state.stack = [] ∧ it.index ≠ 9 := by
  have hDeclared : exceptions.Declares runtimeException ∧ exceptions.Declares nullPointer ∧
      ∀ c ∈ clauses, exceptions.Declares c.caught := by
    simp only [exceptions, Hierarchy.declares_ofList]
    decide +kernel
  have hTypes : nullPointer.isSubtypeOf runtimeException = true ∧
      runtimeException.isSubtypeOf exception = true ∧
      catcher? clauses nullPointer = some ⟨nullPointer, 3⟩ := by
    decide +kernel
  obtain ⟨hArrives, hState, hLast⟩ := usual_reaches_catcher (s := State.initial.push 1)
    hDeclared.1 hDeclared.2.1 hDeclared.2.2 linear_nullPointer hTypes.1
  refine ⟨hArrives _ hTypes.2.2, fun it hit => ⟨(hState it hit).1, fun hIndex => ?_⟩⟩
  rw [hLast [⟨interrupted, 5⟩, ⟨nullPointer, 3⟩] ⟨exception, 7⟩ [⟨throwable, 9⟩] rfl
    hTypes.2.1] at hit
  have hTarget := (Step.mem_caughtAt hit).2
  rw [hIndex] at hTarget
  revert hTarget
  decide

end Transfer

end Pathwise
