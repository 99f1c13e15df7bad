import Pathwise.Proofs.Subtyping
import Pathwise.Proofs.Verdicts

/-!
# One bound within another

A bound covers another one if each thing that it says is said there in a stronger form: a type is
required by way of one below it, and excluded by way of one above it, or the class is known and
settles both. All of these are steps from one type to the next, so no more is asked of the types
than to be in order (`TypeDesc.Orderly`), as those of a program are (`Hierarchy.orderly`) and those
of any coherent hierarchy with its arrays (`TypeDesc.Coherent.orderly`).

What follows only from two things said together, as where one class alone is below two interfaces,
is not covered. Of a class that is known all is, and a meet is covered by what it is made of.

A type test on what is no null passes where the bound of the test covers that of the value, so each
object that the value may be is an instance.

## Results

* `Fact.decide?_instanceOf_iff` — when a type test is decided to pass.
* `TypeBound.covers_sound`      — a bound that covers another one allows what that allows.
-/

namespace Pathwise

namespace Fact

variable {f g : Fact} {b : Bool}

/-- A fact with a bound that says something is no contradiction. -/
theorem isBottom_of_bound (h : f.bound.isTop = false) : f.isBottom = false := by
  cases f with
  | bottom => cases h
  | _ => rfl

theorem decide?_instanceOf_eq (h : decide? .instanceOf f g = some b) :
    decideInstance? f g = some b := by
  unfold decide? at h
  split at h
  · cases h
  · exact h

/-- **A type test is decided to pass** exactly for what is an object for certain, if the bound of
the test says something that the bound of the value, with which it has a meet, implies. -/
theorem decide?_instanceOf_iff : decide? .instanceOf f g = some true ↔
    f.info?.isSome = true ∧ f.nullness = .notNull ∧ g.bound.isTop = false ∧
      f.bound.meet? g.bound ≠ none ∧ g.bound.covers f.bound = true := by
  constructor
  · intro h
    obtain ⟨r, al, sl, rfl, hTop, hCase⟩ := of_decideInstance? (decide?_instanceOf_eq h)
    rcases hCase with ⟨-, hFalse⟩ | ⟨-, hFalse⟩ | ⟨hMeet, hNotNull, hCovers, -⟩
    · cases hFalse
    · cases hFalse
    · exact ⟨rfl, hNotNull, hTop, hMeet, hCovers⟩
  · rintro ⟨hRef, hNotNull, hTop, hMeet, hCovers⟩
    cases f with
    | ref r al sl =>
      have hDecide : decideInstance? (ref r al sl) g = some true := by
        have hNotNull : r.nullness = .notNull := hNotNull
        have hMeet : (r.bound.meet? g.bound).isNone = false :=
          Option.isNone_eq_false_iff.mpr (Option.isSome_iff_ne_none.mpr hMeet)
        have hCovers : g.bound.covers r.bound = true := hCovers
        simp [decideInstance?, hTop, hNotNull, hMeet, hCovers]
      rw [decide?, isBottom_of_bound hTop]
      exact hDecide
    | _ => cases hRef

end Fact

namespace TypeBound

variable {D : TypeDesc → Prop} {b d : TypeBound}

/-- **A bound that covers another one allows all that it allows.** So a type test that is decided
to pass does, for each value of the fact and in each program whose classes are of the hierarchy.
Nothing is missed of a class that is known, or of a meet. -/
theorem covers_sound (hD : TypeDesc.Orderly D) (hb : b.NamesIn D) (hd : d.NamesIn D) :
    (b.covers d = true → ∀ c, D c → d.Allows c → b.Allows c) ∧
    (∀ e, b.covers (exactly e) = true ↔ b.Allows e) ∧
    (∀ m, b.meet? d = some m → b.covers m = true ∧ d.covers m = true) ∧
    ∀ f g : Fact, f.bound = d → g.bound = b →
      (Fact.decide? .instanceOf f g = some true ↔
        f.info?.isSome = true ∧ f.nullness = .notNull ∧ b.isTop = false ∧ d.meet? b ≠ none ∧
          b.covers d = true) ∧
      (Fact.decide? .instanceOf f g = some true → ∀ w : World, (∀ o, D (w.classOf o)) →
        ∀ x, f.Describes w x → Concrete.IsInstance w b x) := by
  refine ⟨fun hCovers c hc h => allows_of_covers hD hc hb hd hCovers h,
    fun _ => covers_exactly_iff, fun m hMeet => covers_meet? hD hb hd hMeet, ?_⟩
  rintro f g rfl rfl
  refine ⟨Fact.decide?_instanceOf_iff, fun hPasses w hClass x hfx => ?_⟩
  have hDecide := Fact.decide?_instanceOf_eq hPasses
  exact Fact.isInstance_of_decideInstance? hD hClass hd hb hfx hDecide

/-- Strings, what they are below, and arrays of these. -/
def stringArrays : Hierarchy :=
  .ofList [.object, .charSequence, .serializable, .string, .array .charSequence, .array .string]
    (by decide +kernel)

/-- What can be serialized and is no string. -/
def noStrings : TypeBound :=
  { subtypeOf .serializable with excluded := OrdSet.empty.insert .string }

/-- Arrays of character sequences that are no character sequences themselves. -/
def sequenceArrays : TypeBound :=
  { subtypeOf (.array .charSequence) with excluded := OrdSet.empty.insert .charSequence }

/-- **An array of character sequences** can be serialized, and is no string if it is no character
sequence itself. So it passes a test for both, which an array of strings is an instance of. -/
theorem covers_sound_stringArrays :
    (subtypeOf .serializable).meet? (notSubtypeOf .string) = some noStrings ∧
    (subtypeOf (.array .charSequence)).meet? (notSubtypeOf .charSequence) = some sequenceArrays ∧
    noStrings.Allows (.array .string) ∧
    Concrete.IsInstance (.ofClass stringArrays (.array .string) (by simp [stringArrays])) noStrings
      (.object 0) := by
  have hDeclared : ∀ t ∈ [TypeDesc.charSequence, .serializable, .string, .array .charSequence],
      stringArrays.Declares t :=
    fun t ht => List.mem_cons_of_mem _ (List.mem_append_left [TypeDesc.array .string] ht)
  have hLeft : (subtypeOf .serializable).meet? (notSubtypeOf .string) = some noStrings := by
    decide +kernel
  have hRight : (subtypeOf (.array .charSequence)).meet? (notSubtypeOf .charSequence) =
      some sequenceArrays := by decide +kernel
  have hLeftNames := namesIn_meet? (namesIn_subtypeOf (hDeclared .serializable (by simp)))
    (namesIn_notSubtypeOf (hDeclared .string (by simp))) hLeft
  have hRightNames := namesIn_meet? (namesIn_subtypeOf (hDeclared (.array .charSequence) (by simp)))
    (namesIn_notSubtypeOf (hDeclared .charSequence (by simp))) hRight
  have hArray : sequenceArrays.Allows (.array .string) :=
    covers_exactly_iff.mp (by decide +kernel)
  obtain ⟨hAllows, -, -, hTest⟩ := covers_sound stringArrays.orderly hLeftNames hRightNames
  refine ⟨hLeft, hRight, ?_, ?_⟩
  · exact hAllows (by decide +kernel) (.array .string) (by simp [stringArrays]) hArray
  · obtain ⟨hDecides, hPasses⟩ := hTest (.ofBound .notNull sequenceArrays)
      (.ofBound .notNull noStrings) rfl rfl
    have hDecided := hDecides.mpr (by decide +kernel)
    refine hPasses hDecided _ (fun _ => by simp [stringArrays, World.ofClass]) _ ?_
    exact Or.inl (Fact.admits_object.mpr
      ⟨⟨nofun, hArray, nofun, trivial, nofun⟩, trivial, trivial⟩)

end TypeBound

end Pathwise
