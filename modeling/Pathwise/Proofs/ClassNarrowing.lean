import Pathwise.Proofs.Canonical
import Pathwise.Proofs.Stacks

/-!
# Narrowing stays within a class

Narrowing a value narrows each value of its class, one after the other, and stops where no value
is left. Whether it succeeds or stops half-way, it has stored facts for values of the class and
has changed nothing else.

## Results

* `facts_meetFact_of_not_mem` — the facts of other values are as before.
* `equalClass_exact`          — **classes are exact**, and narrowing stays within them.
-/

namespace Pathwise.State

variable {a : Arena} {s : State} {f g : Fact} {v m : ValueId}

theorem get?_setFact_of_ne (h : m ≠ v) : (s.setFact a v g).facts.get? m = s.facts.get? m := by
  unfold setFact
  split
  · rfl
  · split
    · simp [Ne.symm h]
    · simp [Ne.symm h]

/-- Narrowing variables one after the other stores facts for these only, as far as it gets. -/
theorem facts_meetFacts_of_not_mem {vs : List ValueId} (h : m ∉ vs) :
    (meetFacts a f vs s).state.facts.get? m = s.facts.get? m := by
  induction vs generalizing s with
  | nil => rfl
  | cons v vs ih =>
    simp only [List.mem_cons, not_or] at h
    rw [meetFacts]
    split
    · rfl
    · rw [ih h.2, get?_setFact_of_ne h.1]

/-- **Narrowing a value stores facts for members of its class only**, feasible or not. -/
theorem facts_meetFact_of_not_mem (h : m ∉ s.equalClass v) :
    (s.meetFact a v f).state.facts.get? m = s.facts.get? m := by
  unfold meetFact
  split
  · exact facts_meetFacts_of_not_mem h
  · rfl

/-- The class of a variable holds variables only, as relations are recorded between variables. -/
theorem Arises.isVariable_of_mem_equalClass (h : Arises a s) (hv : a.isVariable v = true)
    (hm : m ∈ s.equalClass v) : a.isVariable m = true := by
  refine equalClass_induction (P := fun m => a.isVariable m = true) hv ?_ hm
  intro l hl _
  obtain ⟨-, ⟨hLeft, hRight⟩, -⟩ := h.ascending l hl
  rw [hLeft, hRight]

/-- **Classes of equal values are exact.** In every state that arises, for every value,

* the search for its class ends, with one list;
* the list holds the value and all that a chain of recorded equalities connects to it, each once
  and nothing else, and these are variables if the value is one;
* narrowing the value, whether it succeeds or not, keeps the facts stored for all others, the
  relations, the stack and the mark of ephemeral paths. -/
theorem equalClass_exact (h : Arises a s) (v : ValueId) :
    (∀ cls, s.Closes [] [v] cls ↔ cls = s.equalClass v) ∧
    (s.equalClass v).Nodup ∧
    (∀ m, m ∈ s.equalClass v ↔ s.Connected v m) ∧
    (a.isVariable v = true → ∀ m ∈ s.equalClass v, a.isVariable m = true) ∧
    ∀ f, (∀ m, ¬ s.Connected v m → (s.meetFact a v f).state.facts.get? m = s.facts.get? m) ∧
      (s.meetFact a v f).state.links = s.links ∧
      (s.meetFact a v f).state.stack = s.stack ∧
      (s.meetFact a v f).state.isEphemeral = s.isEphemeral := by
  refine ⟨?_, nodup_equalClass, fun m => mem_equalClass, ?_, ?_⟩
  · intro cls
    constructor
    · intro hEnds
      exact hEnds.unique closes_equalClass
    · intro hSame
      rw [hSame]
      exact closes_equalClass
  · exact fun hv m => h.isVariable_of_mem_equalClass hv
  · intro f
    refine ⟨?_, links_meetFact, frame_meetFact.stack, frame_meetFact.isEphemeral⟩
    intro m hm
    exact facts_meetFact_of_not_mem fun hMember => hm (mem_equalClass.mp hMember)

/-- Two more integer parameters. -/
def quartet : Arena :=
  ((integers.var (.parameter "z" 2) none (.int (.ofWidth .int))).2.var (.parameter "u" 3) none
    (.int (.ofWidth .int))).2

/-- Three of them are equal, which is recorded for each pair, the fourth is larger than one of
these, and the range of one is known. -/
def ring : State :=
  let chain := ((initial.apply quartet (.relation 1 .eq 2)).state.apply quartet
    (.relation 3 .eq 2)).state
  let closed := (chain.apply quartet (.relation 3 .eq 1)).state
  (closed.apply quartet (.relation 4 .gt 1)).state.setFact quartet 3 (.int (.between 10 20))

theorem arises_ring : Arises quartet ring := by
  have hQuartet : Arises quartet .initial :=
    .move (.move arises_integers (.ask (r := .var (.parameter "z" 2) none (.int (.ofWidth .int)))
        ⟨nofun, rfl⟩))
      (.ask (r := .var (.parameter "u" 3) none (.int (.ofWidth .int))) ⟨nofun, rfl⟩)
  have hChain := Arises.move (.move hQuartet (.apply (.relation 1 .eq 2)))
    (.apply (.relation 3 .eq 2))
  have hClosed := hChain.move (.apply (.relation 3 .eq 1))
  exact (hClosed.move (.apply (.relation 4 .gt 1))).move (.setFact 3 (.int (.between 10 20)))

/-- The cycle of equalities is walked once, and the value that is larger is no member. A narrowing
that fails at the last member has changed the facts of the two before it. -/
theorem equalClass_ring :
    ring.links.toList = [⟨1, .eq, 2⟩, ⟨1, .eq, 3⟩, ⟨1, .lt, 4⟩, ⟨2, .eq, 3⟩] ∧
    ring.Closes [] [1] [1, 2, 3] ∧ ring.Connected 3 2 ∧ ¬ ring.Connected 1 4 ∧
    (ring.meetFact quartet 1 (.int (.between 12 15))).feasible = true ∧
    (ring.meetFact quartet 1 (.int (.between 0 7))).feasible = false ∧
    (ring.meetFact quartet 1 (.int (.between 0 7))).state.facts.get? 2 =
      some (.int (.between 0 7)) ∧
    (ring.meetFact quartet 1 (.int (.between 0 7))).state.facts.get? 4 = ring.facts.get? 4 := by
  obtain ⟨hEnds, -, hMem, -, hMeet⟩ := equalClass_exact arises_ring 1
  have hClass : ring.equalClass 1 = [1, 2, 3] := by decide +kernel
  have hApart : ¬ ring.Connected 1 4 := by
    rw [← hMem, hClass]
    decide
  have hTwo : ring.Connected 3 2 := by
    refine ((equalClass_exact arises_ring 3).2.2.1 2).mp ?_
    decide +kernel
  exact ⟨by decide +kernel, (hEnds _).mpr hClass.symm, hTwo, hApart, by decide +kernel,
    by decide +kernel, by decide +kernel, (hMeet _).1 4 hApart⟩

end Pathwise.State
