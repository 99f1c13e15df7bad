import Mathlib.Tactic.Common
import Pathwise.Step.Calling

/-!
# Mutation signatures are compared by what they say

A signature holds the arguments that a call modifies as a bit set. Whether an argument may leak
is decided by comparing signatures, so two of them have to be equal as soon as they name the same
arguments, in whatever order and however often these were declared. For bit sets that holds as
no word is stored that need not be: however members are added, the list of words depends on
the set of members only.

## Results

* `BitSet.ofList_eq_iff`         — bit sets are equal exactly if they have the same members.
* `Mutation.ofArgs_eq_iff`       — so are signatures.
* `Step.argMayLeak_ofArgs`       — which arguments of a call may leak.
* `BitSet.insertions_canonical`  — **all that insertions can tell and leave**.
-/

namespace Pathwise

namespace BitSet

variable {l m : List Nat} {i : Nat}

/-- Only the set without insertions has no members. -/
theorem isEmpty_ofList : (ofList l).isEmpty = true ↔ l = [] := by
  simp only [isEmpty_iff, contains_ofList, decide_eq_false_iff_not]
  exact List.eq_nil_iff_forall_not_mem.symm

/-- **The order of insertions does not matter**, nor do repetitions. -/
theorem ofList_eq_iff : ofList l = ofList m ↔ ∀ i, i ∈ l ↔ i ∈ m := by
  constructor
  · intro h i
    have hBoth : (ofList l).contains i = (ofList m).contains i := by rw [h]
    simpa using hBoth
  · intro h
    apply ext_contains
    intro i
    simp [h i]

end BitSet

namespace Mutation

variable {l m : List Nat} {i : Nat}

/-- The call modifies the listed arguments and nothing else. -/
def ofArgs (l : List Nat) : Mutation := l.foldl alsoArg .pure

theorem foldl_alsoArg (l : List Nat) (μ : Mutation) :
    l.foldl alsoArg μ = { μ with args := l.foldl (fun s i => (s.insert i).1) μ.args } := by
  induction l generalizing μ with
  | nil => rfl
  | cons i l ih => rw [List.foldl_cons, List.foldl_cons, ih, alsoArg]

theorem ofArgs_eq : ofArgs l = ⟨false, .ofList l, false⟩ := foldl_alsoArg l .pure

/-- **Signatures that name the same arguments are equal.** -/
theorem ofArgs_eq_iff : ofArgs l = ofArgs m ↔ ∀ i, i ∈ l ↔ i ∈ m := by
  rw [ofArgs_eq, ofArgs_eq, ← BitSet.ofList_eq_iff]
  simp

theorem isPure_ofArgs : (ofArgs l).isPure = true ↔ l = [] := by
  simp [ofArgs_eq, isPure, BitSet.isEmpty_ofList]

end Mutation

namespace Step

/-- **An argument may leak** unless it is declared not to, or the call modifies no other argument
and its result holds no reference to it. -/
theorem argMayLeak_ofArgs (c : Call) (info : MethodInfo) (l : List Nat) (i : Nat) :
    argMayLeak c { info with mutation := .ofArgs l } i = false ↔
      info.noParameterLeak = true ∨ (∀ j ∈ l, j = i) ∧ resultMayLeak c = false := by
  have hItself : ((Mutation.ofArgs l).isPure ||
      Mutation.ofArgs l == Mutation.pure.alsoArg i) = true ↔ ∀ j ∈ l, j = i := by
    have hSingle : Mutation.pure.alsoArg i = .ofArgs [i] := rfl
    rw [Bool.or_eq_true, beq_iff_eq, Mutation.isPure_ofArgs, hSingle, Mutation.ofArgs_eq_iff]
    constructor
    · rintro (hNone | hSame) j hj
      · simp [hNone] at hj
      · simpa using (hSame j).mp hj
    · intro hOnly
      by_cases hNone : l = []
      · exact Or.inl hNone
      · obtain ⟨j, hj⟩ := List.exists_mem_of_ne_nil l hNone
        refine Or.inr fun k => ?_
        rw [List.mem_singleton]
        exact ⟨hOnly k, fun hk => by rwa [hk, ← hOnly j hj]⟩
  simp only [argMayLeak, Bool.not_eq_false', Bool.or_eq_true, Bool.and_eq_true, hItself,
    Bool.not_eq_true']

end Step

namespace BitSet

/-- **Bit sets are canonical.** After any insertions, in any order and with repetitions,

* the members are the numbers that were inserted;
* one more insertion tells whether its number was none of them;
* the set is empty only if there was no insertion;
* its words are those of any other sequence of insertions of the same numbers, and of no
  sequence of others.

Signatures are compared by their bit sets, so they are equal exactly if they name the same
arguments, and that decides which argument may leak. -/
theorem insertions_canonical :
    (∀ l i, (ofList l).contains i = true ↔ i ∈ l) ∧
    (∀ l i, ((ofList l).insert i).2 = true ↔ i ∉ l) ∧
    (∀ l, (ofList l).isEmpty = true ↔ l = []) ∧
    (∀ l m, (ofList l).words = (ofList m).words ↔ ∀ i, i ∈ l ↔ i ∈ m) ∧
    (∀ l m, Mutation.ofArgs l = .ofArgs m ↔ ∀ i, i ∈ l ↔ i ∈ m) ∧
    (∀ (c : Call) (info : MethodInfo) (l : List Nat) (i : Nat),
      Step.argMayLeak c { info with mutation := .ofArgs l } i = false ↔
        info.noParameterLeak = true ∨ (∀ j ∈ l, j = i) ∧ Step.resultMayLeak c = false) := by
  refine ⟨fun l i => ?_, fun l i => ?_, fun l => isEmpty_ofList, fun l m => ?_,
    fun l m => Mutation.ofArgs_eq_iff, Step.argMayLeak_ofArgs⟩
  · rw [contains_ofList, decide_eq_true_eq]
  · rw [insert_isNew, contains_ofList]
    simp
  · rw [← ofList_eq_iff]
    exact ⟨words_inj, fun h => congrArg words h⟩

/-- Two words, whichever member comes first. -/
example : (ofList [70, 1]).words = [2, 64] ∧ (ofList [1, 70, 1]).words = [2, 64] := by decide

end BitSet

end Pathwise
