import Pathwise.Proofs.Flushing
import Pathwise.Proofs.Throughout

/-!
# What a call forgets

A call of which it is not known what it changes may change every variable that can be reached
from elsewhere. So the state forgets what is tracked, unless a local object owns it, and then all
that its operands qualify, unless they are local themselves.

Whether something is owned by a local object is read off the facts that are being forgotten, and
an answer that was given stays right (`forgets_flushFields`). Forgetting what an operand qualifies
may take locality from a value only if the operand qualifies that value. Then all that the value
owns is forgotten too.

## Results

* `owned_flushFields`      — what a call may change is owned by a local object, or forgotten.
* `State.Forgetful`        — what a state after a call knows nothing about.
* `forgetful_flushAfterCall` — whatever the order and nesting of qualifiers.
* `perform_call_forgetful` — every successor of a call is forgetful.
-/

namespace Pathwise

namespace State

variable {a : Arena} {s t : State} {u v q m : ValueId}

-- ---------------------------------------------------------------------------
-- Objects that are owned
-- ---------------------------------------------------------------------------

/-- All that the state knows something about and a call may change is owned by a local object. -/
def Owned (a : Arena) (s : State) : Prop :=
  ∀ v, s.Mentions v → a.isCallFlushable v = true → s.isOwnedByLocal a v = true

/-- **What a call may change** is forgotten, unless a local object owns it. -/
theorem owned_flushFields (hBack : a.Backward) : (s.flushFields a).Owned a := by
  intro v hMentions hFlushable
  have hExact := forgets_flushFields (s := s) hBack
  by_contra hNot
  exact hExact.gone ⟨hExact.fewer hMentions, hFlushable, Bool.eq_false_iff.mpr hNot⟩ hMentions

/-- Forgetting what a value qualifies leaves the rest owned: what loses its locality is
qualified by the value, and so is all that it owns. -/
theorem Owned.flushDependents (hBack : a.Backward) (h : s.Owned a) :
    (s.flushDependents a v).Owned a := by
  have hForgets := forgets_flushDependents hBack (s := s) (v := v)
  intro m hMentions hFlushable
  obtain ⟨q, hq, hLocal⟩ := isOwnedByLocal_iff.mp (h m (hForgets.fewer hMentions) hFlushable)
  refine isOwnedByLocal_iff.mpr ⟨q, hq, ?_⟩
  rw [fact_flushDependents hBack fun hMem =>
    hForgets.gone (Arena.mem_dependents_of_mem_qualifiers hBack hq hMem) hMentions]
  exact hLocal

-- ---------------------------------------------------------------------------
-- Operands
-- ---------------------------------------------------------------------------

/-- Nothing is known of what a variable qualifies, unless it is local. -/
def Abandons (a : Arena) (s : State) (v : ValueId) : Prop :=
  a.isVariable v = true → (s.fact a v).isLocal = false → ∀ m ∈ a.dependents v, ¬ s.Mentions m

/-- A variable that loses its locality is qualified by the value of which the dependents are
forgotten, and what it qualifies is forgotten with it. -/
theorem Abandons.flushDependents (hBack : a.Backward) (h : s.Abandons a v) :
    (s.flushDependents a u).Abandons a v := by
  have hForgets := forgets_flushDependents hBack (s := s) (v := u)
  intro hVariable hLocal m hm hMentions
  by_cases hMem : v ∈ a.dependents u
  · exact hForgets.gone
      (Arena.mem_dependents_of_mem_qualifiers hBack (Arena.mem_dependents.mp hm).2 hMem) hMentions
  · refine h hVariable ?_ m hm (hForgets.fewer hMentions)
    rw [← hLocal, fact_flushDependents hBack hMem]

/-- The state after an operand was passed on: what it qualifies is forgotten, unless it is local. -/
def flushOperand (a : Arena) (s : State) (v : ValueId) : State :=
  if a.isVariable v && !(s.fact a v).isLocal then s.flushDependents a v else s

theorem Owned.flushOperand (hBack : a.Backward) (h : s.Owned a) : (s.flushOperand a v).Owned a := by
  unfold State.flushOperand
  split
  · exact h.flushDependents hBack
  · exact h

theorem Abandons.flushOperand (hBack : a.Backward) (h : s.Abandons a v) :
    (s.flushOperand a u).Abandons a v := by
  unfold State.flushOperand
  split
  · exact h.flushDependents hBack
  · exact h

/-- An operand that is passed on is abandoned. -/
theorem abandons_flushOperand (hBack : a.Backward) : (s.flushOperand a v).Abandons a v := by
  unfold flushOperand
  split
  · exact fun _ _ m hm => (forgets_flushDependents hBack).gone hm
  · rename_i hStays
    intro hVariable hLocal
    rw [hVariable, hLocal] at hStays
    exact absurd rfl hStays

/-- What the operands qualify is forgotten, one operand after the other. -/
theorem abandons_foldl (hBack : a.Backward) {vs : List ValueId} (hv : v ∈ vs) :
    (vs.foldl (flushOperand a) s).Abandons a v := by
  induction vs generalizing s with
  | nil => cases hv
  | cons u us ih =>
    rcases List.mem_cons.mp hv with rfl | hv
    · exact List.foldlRecOn us _ (motive := fun t : State => t.Abandons a v)
        (abandons_flushOperand hBack) fun t ht u _ => ht.flushOperand hBack
    · exact ih hv

/-- **A state knows nothing of what was changed**: what is still mentioned and a call may change
has a local value among its qualifiers, and nothing that an operand qualifies is mentioned,
unless the operand is local. -/
structure Forgetful (a : Arena) (operands : List ValueId) (s : State) : Prop where
  owned    : ∀ v, s.Mentions v → a.isCallFlushable v = true →
    ∃ q ∈ a.qualifiers v, (s.fact a q).isLocal = true
  operands : ∀ v ∈ operands, a.isVariable v = true → (s.fact a v).isLocal = false →
    ∀ m ∈ a.dependents v, ¬ s.Mentions m

/-- **After a call that may change anything** the state is forgetful. -/
theorem forgetful_flushAfterCall {args : CallArgs} (hBack : a.Backward)
    (hUnknown : args.mutation.isUnknown = true) :
    (Step.flushAfterCall a args s).Forgetful a (args.qualifier :: args.args) := by
  have hFlushed : Step.flushAfterCall a args s =
      (args.qualifier :: args.args).foldl (flushOperand a) (s.flushFields a) := by
    unfold Step.flushAfterCall
    rw [if_pos hUnknown]
    rfl
  have hOwned : (Step.flushAfterCall a args s).Owned a := by
    rw [hFlushed]
    exact List.foldlRecOn _ _ (motive := fun t : State => t.Owned a) (owned_flushFields hBack)
      fun t ht u _ => ht.flushOperand hBack
  constructor
  · exact fun v hMentions hFlushable => isOwnedByLocal_iff.mp (hOwned v hMentions hFlushable)
  · intro v hv
    rw [hFlushed]
    exact abandons_foldl hBack hv

theorem Forgetful.congr {operands operands' : List ValueId} (h : s.Forgetful a operands)
    (hFacts : t.facts = s.facts) (hLinks : t.links = s.links)
    (hOperands : ∀ v ∈ operands', a.isVariable v = true → v ∈ operands) :
    t.Forgetful a operands' := by
  have hMentions : ∀ {v}, t.Mentions v → s.Mentions v := by
    intro v hv
    unfold Mentions at hv ⊢
    rw [hFacts, hLinks] at hv
    exact hv
  constructor
  · intro v hv hFlushable
    obtain ⟨q, hq, hLocal⟩ := h.owned v (hMentions hv) hFlushable
    exact ⟨q, hq, by rw [fact_congr hFacts]; exact hLocal⟩
  · intro v hv hVariable hLocal m hm hMentioned
    rw [fact_congr hFacts] at hLocal
    exact h.operands v (hOperands v hv hVariable) hVariable hLocal m hm (hMentions hMentioned)

end State

-- ---------------------------------------------------------------------------
-- Calls
-- ---------------------------------------------------------------------------

namespace Arena

variable {a : Arena} {x : Value} {d : Descriptor} {f : Fact} {l : Length} {v : ValueId}

/-- A value whose qualifier is in the arena comes after it. -/
theorem Backward.intern (h : a.Backward)
    (hx : ∀ {y q}, x = .var y → y.qualifier = some q → q < a.size) : (a.intern x).2.Backward := by
  intro u y q hGet hq
  rcases get_intern (a := a) (x := x) (v := u) with hOld | ⟨rfl, hNew⟩
  · exact h (hOld ▸ hGet) hq
  · exact hx (hNew.symm.trans hGet) hq

theorem Backward.typed (h : a.Backward) : (a.typed f).2.Backward :=
  h.intern (by simp)

theorem Backward.var (h : a.Backward) (hv : a.isVariable v = true) :
    (a.var d (some v) f).2.Backward := by
  refine h.intern fun hy hq => ?_
  cases hy
  cases hq
  exact lt_of_isVariable hv

theorem Backward.lengthOf (h : a.Backward) : (a.lengthOf l v).2.Backward := by
  unfold Arena.lengthOf
  cases hGet : a.get v with
  | var y => exact h.var (isVariable_iff.mpr ⟨y, hGet⟩)
  | wrapped k inner f =>
    dsimp only
    split
    · exact h
    · exact h.typed
  | typed f => exact h.typed
  | unknown => exact h.typed

theorem Backward.dropLocality {s : State} (h : a.Backward) :
    (s.dropLocality a v).2.2.Backward := by
  unfold State.dropLocality
  cases a.get v with
  | var y => exact h
  | typed f =>
    dsimp only
    split
    · exact h.typed
    · exact h
  | wrapped k inner f =>
    dsimp only
    split
    · exact h.intern (by simp)
    · exact h
  | unknown => exact h

end Arena

namespace Step

variable {σ τ : Session} {ctx : Context} {c : Call} {index : Nat} {s : State} {items : List Item}

/-- That what qualifies a variable comes before it is kept throughout a call. -/
theorem backward_throughout : CallInvariant (fun _ => True) fun a _ => a.Backward where
  congr h _ _ := h
  typed h _ := h.typed
  lengthOf h := h.lengthOf
  getter h hq _ := h.var hq
  escape h := h.dropLocality
  mutate _ _ h _ := h
  apply h := h

/-- **An unknown call forgets everything that it may change**: whatever its contracts, its
operands and their qualifiers are. -/
theorem perform_call_forgetful (hBack : σ.arena.Backward)
    (hUnknown : ((c.method.bind ctx.metadata.info?).getD .unknown).mutation.isUnknown = true)
    (h : perform ctx index s (.call c) σ = .ok items τ) :
    ∀ it ∈ items, it.state.Forgetful τ.arena (s.stack.take (c.argCount + 1)) := by
  intro it hit
  have hBrings : BringsIn (fun _ => True) (fun a _ => a.Backward) ctx c
      ((c.method.bind ctx.metadata.info?).getD .unknown) :=
    ⟨fun _ _ => ⟨fun _ _ _ _ => trivial, fun _ _ => trivial⟩, fun _ _ => trivial,
      fun _ _ _ _ _ _ _ _ => trivial, fun _ _ => trivial, fun _ _ => trivial, trivial⟩
  obtain ⟨-, args, r, v, hState, hBackward, hMutation, hPasses⟩ :=
    ensures_call backward_throughout hBrings hBack items τ h it hit
  rw [hState]
  refine (State.forgetful_flushAfterCall hBackward (hMutation ▸ hUnknown)).congr rfl rfl ?_
  intro u hu hVariable
  obtain ⟨w, hw, hPassed⟩ := hPasses u hu
  exact hPassed.eq hVariable ▸ hw

/-- Two objects, the second a local one, and a field of each. -/
def fields : Arena :=
  let first := (Arena.new.var (.localVar "x" false) none .unknownRef).2
  let read := (first.var (.field "f" false false false) (some 1) .unknownRef).2
  let second := (read.var (.localVar "y" false) none .localObject).2
  (second.var (.field "g" false false false) (some 3) .unknownRef).2

theorem becomes_fields : Arena.new.Becomes fields := by
  have hFirst := Arena.Becomes.refl (a := .new).var (d := .localVar "x" false) (p := none)
    (f := .unknownRef) nofun
  have hRead := hFirst.var (d := .field "f" false false false) (p := some 1) (f := .unknownRef)
    (by decide +kernel)
  have hSecond := hRead.var (d := .localVar "y" false) (p := none) (f := .localObject) nofun
  exact hSecond.var (by decide +kernel)

/-- Neither field is null, and the first object is on the stack. -/
def beforeCall : State :=
  ((State.initial.setFact fields 2 .notNull).setFact fields 4 .notNull).push 1

/-- A call without arguments of a method of which nothing is known. -/
def unknownCall : Call := ⟨none, 0, none, false, none⟩

/-- The states after the call. -/
def afterCall : Option (List State) :=
  match perform usualContext 0 beforeCall (.call unknownCall) (.start fields) with
  | .ok items _ => some (items.map (·.state))
  | .error _ _ => none

/-- The field of the local object is all that is still known. -/
theorem perform_call_fields : ∃ items τ,
    perform usualContext 0 beforeCall (.call unknownCall) (.start fields) = .ok items τ ∧
      items.map (·.state.tracked.toList) = [[4]] ∧
      ∀ it ∈ items, it.state.Forgetful τ.arena [1] := by
  have hAfter : afterCall.map (·.map (·.tracked.toList)) = some [[4]] := by decide +kernel
  have hUnknown : ((unknownCall.method.bind usualContext.metadata.info?).getD
      .unknown).mutation.isUnknown = true := rfl
  unfold afterCall at hAfter
  cases h : perform usualContext 0 beforeCall (.call unknownCall) (.start fields) with
  | error e τ =>
    rw [h] at hAfter
    cases hAfter
  | ok items τ =>
    rw [h] at hAfter
    refine ⟨items, τ, rfl, ?_, ?_⟩
    · simpa using hAfter
    · exact perform_call_forgetful
        (becomes_fields.ordered Arena.ordered_new).backward hUnknown h

end Step

end Pathwise
