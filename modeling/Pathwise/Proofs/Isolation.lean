import Pathwise.Proofs.Confined
import Pathwise.Proofs.Edges

/-!
# Paths that assume a failure

A path that was taken only because a failure was assumed is explored like any other, but
what it comes to is no evidence: it stays ephemeral whatever it visits, and it leaves no
outcome in the record of branches. Nor does an instruction that has no outcome, on any path.

An instruction that has an outcome records it for the states that go on, so these laws are
about ephemeral states. The others hold of every state, and say that the mark is kept.

## Results

* `confined_branch`, `confined_call`, … — one law for each kind of instruction.
* `confined_perform`                    — no outcome of an ephemeral state is recorded, and
  all that comes out of it is ephemeral.
-/

namespace Pathwise

/-- Whether the instruction has a boolean outcome, which is recorded. -/
def Instr.hasOutcome : Instr → Bool
  | branch .. | not _ | boolean .. | instanceOf .. => true
  | _ => false

namespace Step

open State

variable {b : Prop} {s : State} {v : ValueId} {index : Nat} {anchor : Option Anchor}
  {ctx : Context}

-- ---------------------------------------------------------------------------
-- Branching instructions
-- ---------------------------------------------------------------------------

theorem confined_booleanResult (hs : s.isEphemeral = true) (outcome : Option Bool) :
    Confined (booleanResult index anchor s outcome) fun it => it.state.EphemeralIf True := by
  have hRest : ∀ v : ValueId, Confined (do
      reach index s outcome
      return next index (← pushResult anchor v s)) fun it => it.state.EphemeralIf True := by
    intro v
    refine (confined_reach hs).then fun _ => ?_
    exact (confined_pushResult fun _ => hs).bind fun t ht => confined_pure.mpr ht
  unfold booleanResult
  cases outcome with
  | none => exact (confined_pure (P := fun _ => True)).mpr trivial |>.then hRest
  | some x => exact confined_intern.then hRest

theorem confined_booleanResult_singleton (hs : s.isEphemeral = true) (outcome : Option Bool) :
    Confined (do return [← booleanResult index anchor s outcome]) (AllEphemeralIf True) :=
  (confined_booleanResult hs outcome).bind fun _ hit =>
    confined_pure.mpr (allEphemeralIf_singleton hit)

theorem confined_outcomeIf (hs : s.isEphemeral = true) (c : Condition) (outcome : Option Bool) :
    Confined (outcomeIf index anchor s c outcome) (AllEphemeralIf True) := by
  refine (confined_apply (b := True) fun _ => hs).bind fun n hn => ?_
  split
  · exact confined_booleanResult_singleton (hn trivial) outcome
  · exact confined_pure.mpr allEphemeralIf_nil

theorem confined_branchWay (hs : s.isEphemeral = true) (c : Condition) (taken : Bool)
    (target : Nat) :
    Confined (branchWay index anchor s c taken target) (AllEphemeralIf True) := by
  refine (confined_apply (b := True) fun _ => hs).bind fun n hn => ?_
  split
  · refine (confined_reach (hn trivial)).then fun _ => confined_reportJump.then fun _ => ?_
    exact confined_pure.mpr (allEphemeralIf_singleton hn)
  · exact confined_pure.mpr allEphemeralIf_nil

theorem confined_branch (hs : s.isEphemeral = true) (target : Nat) (negated : Bool) :
    Confined (branch index target negated anchor s) (AllEphemeralIf True) := by
  refine (confined_pop (b := True) fun _ => hs).bind ?_
  rintro ⟨v, t⟩ ht
  have ht : t.isEphemeral = true := ht trivial
  refine confined_intern.then fun _ => confined_condition.then fun jump => ?_
  split
  · exact confined_branchWay ht _ _ _
  · split
    · exact confined_branchWay ht _ _ _
    · refine (confined_branchWay ht _ _ _).bind fun taken hTaken => ?_
      refine (confined_branchWay ht _ _ _).bind fun fallen hFallen => ?_
      exact confined_pure.mpr (hTaken.append hFallen)

theorem confined_not (hs : s.isEphemeral = true) :
    Confined (not index anchor s) (AllEphemeralIf True) := by
  refine (confined_pop (b := True) fun _ => hs).bind ?_
  rintro ⟨v, t⟩ ht
  have ht : t.isEphemeral = true := ht trivial
  refine confined_intern.then fun _ => confined_condition.then fun isFalse => ?_
  refine (confined_outcomeIf ht _ _).bind fun yes hYes => ?_
  refine (confined_outcomeIf ht _ _).bind fun no hNo => ?_
  exact confined_pure.mpr (hYes.append hNo)

theorem confined_compareByContent (hs : s.isEphemeral = true) (rel : Relation)
    (left right : ValueId) :
    Confined (compareByContent index rel left right anchor s) (AllEphemeralIf True) := by
  refine confined_condition.then fun c => ?_
  refine (confined_outcomeIf hs _ _).bind fun equal hEqual => ?_
  refine (confined_outcomeIf hs _ _).bind fun different hDifferent => ?_
  exact confined_pure.mpr (hEqual.append hDifferent)

theorem confined_compareCases (hs : s.isEphemeral = true) (rel : Relation) (left right : ValueId)
    (subs : List Relation) {found : List Item} (hFound : AllEphemeralIf True found) :
    Confined (compareCases index rel left right anchor s subs found) (AllEphemeralIf True) := by
  induction subs generalizing found with
  | nil => exact confined_pure.mpr hFound
  | cons sub subs ih =>
    refine confined_condition.then fun c => ?_
    split
    · exact ih hFound
    · exact confined_booleanResult_singleton hs _
    · exact (confined_outcomeIf hs _ _).bind fun items hItems => ih (hFound.append hItems)

theorem confined_compare (hs : s.isEphemeral = true) (rel : Relation) (left right : ValueId) :
    Confined (compare index rel left right anchor s) (AllEphemeralIf True) := by
  have hRest : ∀ unordered : List Item, AllEphemeralIf True unordered → Confined (do
      let items ← compareCases index rel left right anchor s rel.cases unordered
      if items.isEmpty then return [← booleanResult index anchor s (some false)]
      else return items) (AllEphemeralIf True) := by
    intro unordered hUnordered
    refine (confined_compareCases hs rel left right rel.cases hUnordered).bind ?_
    intro items hItems
    split
    · exact confined_booleanResult_singleton hs _
    · exact confined_pure.mpr hItems
  refine confined_arena.then fun a => ?_
  dsimp only
  split
  · exact confined_compareByContent hs rel left right
  · split
    · rename_i u hUnordered
      have hu : u.isEphemeral = true := by
        split at hUnordered
        · exact (frame_unordered? hUnordered).isEphemeral.trans hs
        · cases hUnordered
      refine (confined_booleanResult hu _).bind fun it hit => ?_
      rw [pure_bind]
      exact hRest [it] (allEphemeralIf_singleton hit)
    · rw [pure_bind]
      exact hRest [] allEphemeralIf_nil

theorem confined_junction (hs : s.isEphemeral = true) (isOr : Bool) (left right : ValueId) :
    Confined (junction index isOr left right anchor s) (AllEphemeralIf True) := by
  refine confined_intern.then fun _ => confined_condition.then fun c => ?_
  refine (confined_outcomeIf hs _ _).bind fun decided hDecided => ?_
  refine (confined_apply (b := True) fun _ => hs).bind fun n hn => ?_
  split
  · refine confined_fact.then fun f => (confined_reach (hn trivial)).then fun _ => ?_
    refine (confined_pushResult hn).bind fun t ht => ?_
    exact confined_pure.mpr (hDecided.append (allEphemeralIf_singleton ht))
  · exact confined_pure.mpr hDecided

theorem confined_boolean (hs : s.isEphemeral = true) (op : BooleanOp) :
    Confined (boolean index op anchor s) (AllEphemeralIf True) := by
  refine (confined_pop (b := True) fun _ => hs).bind ?_
  rintro ⟨right, t⟩ ht
  refine (confined_pop ht).bind ?_
  rintro ⟨left, u⟩ hu
  have hu : u.isEphemeral = true := hu trivial
  cases op with
  | relation rel => exact confined_compare hu rel left right
  | and => exact confined_junction hu false left right
  | or => exact confined_junction hu true left right

theorem confined_testedType (isClassObject : Bool) (left right : ValueId) :
    Confined (testedType isClassObject left right s) fun _ => True := by
  have hUnknown : Confined (do
      let null ← intern (·.null)
      return (right, ← condition left .ne null, true)) fun _ => True :=
    confined_intern.then fun _ => confined_condition.then fun _ => confined_pure.mpr trivial
  unfold testedType
  dsimp only
  split
  · exact confined_condition.then fun _ => confined_pure.mpr trivial
  · refine confined_fact.then fun f => ?_
    split
    · exact hUnknown
    · split
      · exact hUnknown
      · exact confined_intern.then fun _ => confined_condition.then fun _ =>
          confined_pure.mpr trivial

theorem confined_testInstance (hs : s.isEphemeral = true) (left : ValueId) (c : Condition)
    (isUnknownType : Bool) :
    Confined (testInstance index anchor left c isUnknownType s) fun r =>
      AllEphemeralIf True r.1 := by
  refine confined_fact.then fun before => (confined_outcomeIf hs _ _).bind fun yes hYes => ?_
  refine (confined_apply (b := True) fun _ => hs).bind fun n hn => ?_
  split
  · refine confined_arena.then fun a => ?_
    dsimp only
    have hState : (if (n.state.isNull a left && before.nullness == .unknown) = true then
        n.state.markEphemeral else n.state).isEphemeral = true := by
      split
      · rfl
      · exact hn trivial
    refine (confined_booleanResult hState _).bind fun no hNo => ?_
    exact confined_pure.mpr (hYes.append (allEphemeralIf_singleton hNo))
  · exact confined_pure.mpr hYes

theorem confined_instanceOf (hs : s.isEphemeral = true) (isClassObject : Bool) :
    Confined (instanceOf index isClassObject anchor s) (AllEphemeralIf True) := by
  have hRest : ∀ (useful : Bool) (items : List Item), AllEphemeralIf True items →
      Confined (do
        if useful then
          record fun r => { r with usefulInstanceofs := r.usefulInstanceofs.insert index }
        return items) (AllEphemeralIf True) := by
    intro useful items hItems
    split
    · exact (confined_record fun _ => rfl).then fun _ => confined_pure.mpr hItems
    · exact confined_pure.mpr hItems
  refine (confined_pop (b := True) fun _ => hs).bind ?_
  rintro ⟨right, t⟩ ht
  refine (confined_pop ht).bind ?_
  rintro ⟨left, u⟩ hu
  have hu : u.isEphemeral = true := hu trivial
  refine (confined_testedType isClassObject left right).then ?_
  rintro ⟨right, c, isUnknownType⟩
  refine confined_arena.then fun a => ?_
  dsimp only
  split
  · refine confined_arena.then fun a => ?_
    refine (confined_booleanResult hu none).bind fun it hit => ?_
    rw [pure_bind]
    exact hRest _ [it] (allEphemeralIf_singleton hit)
  · exact (confined_testInstance hu left c isUnknownType).bind fun r hr => hRest r.2 r.1 hr

-- ---------------------------------------------------------------------------
-- Checking instructions
-- ---------------------------------------------------------------------------

theorem confined_reportNull {problem : Option Problem} :
    Confined (reportNull problem v s) fun _ => True :=
  confined_fact.then fun _ => confined_report

theorem confined_dereference (hs : s.EphemeralIf b) (problem : Option Problem) :
    Confined (dereference s v problem) fun r => r.2.EphemeralIf b := by
  refine confined_reportNull.then fun _ => confined_arena.then fun a => ?_
  dsimp only
  split
  · split
    · exact confined_pure.mpr (hs.congr frame_setFact.isEphemeral)
    · exact confined_pure.mpr (hs.congr frame_meetFact.isEphemeral)
  · split
    · exact confined_pure.mpr hs
    · exact confined_intern.then fun _ => confined_pure.mpr hs

theorem confined_transferIf (hHandler : ctx.handler = .usual) (hs : s.EphemeralIf b)
    (cs : List Condition) (t : Transfer) (ephemeral : Bool) :
    Confined (transferIf ctx s cs t ephemeral) (AllEphemeralIf b) := by
  refine confined_arena.then fun a => ?_
  split
  · rename_i u hu
    obtain ⟨-, rfl⟩ := Narrowing.state?_eq_some.mp hu
    exact confined_pure.mpr (allEphemeralIf_dispatch hHandler
      (hs.congr (frame_applyAll cs s).isEphemeral) t ephemeral)
  · exact confined_pure.mpr allEphemeralIf_nil

theorem confined_checkNotNull (hHandler : ctx.handler = .usual) (hs : s.EphemeralIf b)
    (kind : NullCheck) (onNull : Option Transfer) :
    Confined (checkNotNull ctx index kind onNull anchor s) (AllEphemeralIf b) := by
  cases kind with
  | argument =>
    refine confined_peek.then fun v => confined_reportNull.then fun _ => ?_
    exact confined_pure.mpr (allEphemeralIf_singleton hs)
  | dereference =>
    refine (confined_pop hs).bind ?_
    rintro ⟨v, t⟩ ht
    refine confined_arena.then fun a => (confined_dereference ht _).bind ?_
    rintro ⟨w, after⟩ hAfter
    dsimp only
    have hNormal : ∀ ends : Bool,
        AllEphemeralIf b (if ends then [] else [next index (after.push w)]) := fun ends =>
      allEphemeralIf_ite allEphemeralIf_nil (allEphemeralIf_singleton hAfter)
    cases onNull with
    | none => exact confined_pure.mpr (hNormal _)
    | some transfer =>
      refine confined_intern.then fun null => confined_condition.then fun isNull => ?_
      refine (confined_transferIf hHandler ht _ transfer true).bind fun items hItems => ?_
      exact confined_pure.mpr ((hNormal _).append hItems)

theorem confined_applyBounds (hs : s.EphemeralIf b) (array element : ValueId) :
    Confined (applyBounds s array element) fun n => n.state.EphemeralIf b := by
  refine confined_intern.then fun length => confined_intern.then fun least => ?_
  refine confined_condition.then fun _ => confined_condition.then fun _ => ?_
  refine confined_condition.then fun _ => confined_arena.then fun a => ?_
  exact confined_pure.mpr (hs.congr (frame_applyAll _ s).isEphemeral)

theorem confined_arrayAccess (hHandler : ctx.handler = .usual) (hs : s.EphemeralIf b)
    (fallback : Option ValueId) (outOfBounds : Option Transfer) :
    Confined (arrayAccess ctx index fallback outOfBounds anchor s) (AllEphemeralIf b) := by
  refine (confined_pop hs).bind ?_
  rintro ⟨element, t⟩ ht
  refine (confined_pop ht).bind ?_
  rintro ⟨array, u⟩ hu
  refine (confined_applyBounds hu array element).bind fun n hn => confined_report.then fun _ => ?_
  split
  · split
    · exact confined_pure.mpr (allEphemeralIf_dispatch hHandler hu _ true)
    · exact confined_pure.mpr allEphemeralIf_nil
  · refine confined_fact.then fun f => ?_
    have hElement : Confined (elementAt array f fallback) fun _ => True :=
      confined_intern?.then fun _ => confined_pure.mpr trivial
    refine hElement.then fun v => confined_arena.then fun a => ?_
    refine confined_next_pushResult ?_
    split
    · exact hn.congr frame_dropElementLocality.isEphemeral
    · exact hn

theorem confined_castTop (hs : s.EphemeralIf b) (f : Fact) :
    Confined (castTop index f s) fun n => n.state.EphemeralIf b := by
  refine confined_peek.then fun v => confined_arena.then fun a => ?_
  dsimp only
  split
  · exact confined_pure.mpr hs
  · split
    · exact confined_pure.mpr hs
    · have hMet : (s.meetFact a v ((s.fact a v).meet f)).state.EphemeralIf b :=
        hs.congr frame_meetFact.isEphemeral
      split
      · exact confined_pure.mpr hMet
      · refine (confined_pop hMet).bind ?_
        rintro ⟨w, t⟩ ht
        exact confined_intern.then fun _ => confined_pure.mpr ht

theorem confined_cast (hHandler : ctx.handler = .usual) (hs : s.EphemeralIf b) (t : TypeDesc)
    (convertible : Bool) (onFail : Option Transfer) :
    Confined (cast ctx index t convertible onFail anchor s) (AllEphemeralIf b) := by
  have hNormal : ∀ (n : Narrowing) (passes : Bool), n.state.EphemeralIf b →
      AllEphemeralIf b (if passes then [next index n.state] else []) := fun n passes hn =>
    allEphemeralIf_ite (allEphemeralIf_singleton hn) allEphemeralIf_nil
  -- a cast is reported, if at all, before the path goes on
  have hNarrowed : ∀ rest : Narrowing → Step (List Item),
      (∀ n : Narrowing, n.state.EphemeralIf b → Confined (rest n) (AllEphemeralIf b)) →
      Confined (do
        let n ← if convertible then castTop index (.ofType t .unknown) s else pure ⟨true, s⟩
        if anchor.isSome then
          let v ← peek index n.state
          report (anchor.map .classCast) v (if n.feasible then .unsure else .alwaysFails) n.state
        rest n) (AllEphemeralIf b) := by
    intro rest hRest
    have hReported : ∀ n : Narrowing, n.state.EphemeralIf b → Confined (do
        if anchor.isSome then
          let v ← peek index n.state
          report (anchor.map .classCast) v (if n.feasible then .unsure else .alwaysFails) n.state
        rest n) (AllEphemeralIf b) := by
      intro n hn
      dsimp only
      split
      · exact confined_peek.then fun v => confined_report.then fun _ => hRest n hn
      · exact hRest n hn
    dsimp only
    split
    · exact (confined_castTop hs _).bind hReported
    · rw [pure_bind]
      exact hReported _ hs
  unfold cast
  refine hNarrowed _ fun n hn => ?_
  cases onFail with
  | none => exact confined_pure.mpr (hNormal n _ hn)
  | some transfer =>
    refine confined_peek.then fun v => confined_intern.then fun null => ?_
    refine confined_intern.then fun target => confined_condition.then fun notNull => ?_
    refine confined_condition.then fun notInstance => ?_
    refine (confined_transferIf hHandler hs _ transfer true).bind fun items hItems => ?_
    exact confined_pure.mpr ((hNormal n _ hn).append hItems)

theorem confined_ensure (hHandler : ctx.handler = .usual) (hs : s.EphemeralIf b) (rel : Relation)
    (expected : Fact) (onFail : Option Transfer) (makeEphemeral : Bool) :
    Confined (ensure ctx index rel expected onFail makeEphemeral anchor s)
      (AllEphemeralIf b) := by
  have hNormal : ∀ n : Narrowing, n.state.EphemeralIf b →
      AllEphemeralIf b (if n.feasible then [next index n.state] else []) := fun n hn =>
    allEphemeralIf_ite (allEphemeralIf_singleton hn) allEphemeralIf_nil
  unfold ensure
  refine confined_peek.then fun v => confined_intern.then fun w => ?_
  refine confined_condition.then fun c => ?_
  dsimp only
  split
  · exact confined_report.then fun _ => confined_pure.mpr (allEphemeralIf_singleton hs)
  · refine (confined_apply hs).bind fun holding hHolding => ?_
    cases onFail with
    | none => exact confined_report.then fun _ => confined_pure.mpr (hNormal _ hHolding)
    | some t =>
      refine (confined_apply hs).bind fun failing hFailing => confined_report.then fun _ => ?_
      refine confined_pure.mpr ((hNormal _ hHolding).append ?_)
      exact allEphemeralIf_ite (allEphemeralIf_dispatch hHandler hFailing t makeEphemeral)
        allEphemeralIf_nil

-- ---------------------------------------------------------------------------
-- Computing instructions
-- ---------------------------------------------------------------------------

theorem confined_known {f : Fact} : Confined (known f) fun _ => True := by
  rw [known]
  split
  · exact confined_pure.mpr trivial
  · exact confined_intern

/-- One value is asked for and pushed, and the next instruction follows. -/
theorem confined_next_push {m : Step ValueId} (hm : Confined m fun _ => True)
    (hs : s.EphemeralIf b) :
    Confined (do return [next index (s.push (← m))]) (AllEphemeralIf b) :=
  hm.then fun _ => confined_pure.mpr (allEphemeralIf_singleton hs)

theorem confined_arithmetic (hs : s.EphemeralIf b) (op : ArithmeticOp) (w : Width) :
    Confined (arithmetic index op w s) (AllEphemeralIf b) := by
  refine (confined_pop hs).bind ?_
  rintro ⟨right, t⟩ ht
  refine (confined_pop ht).bind ?_
  rintro ⟨left, u⟩ hu
  refine confined_fact.then fun f => confined_fact.then fun g => ?_
  dsimp only
  split
  · exact confined_pure.mpr allEphemeralIf_nil
  · exact confined_next_push confined_known hu

theorem confined_negate (hs : s.EphemeralIf b) (w : Width) :
    Confined (negate index w s) (AllEphemeralIf b) := by
  refine (confined_pop hs).bind ?_
  rintro ⟨v, t⟩ ht
  exact confined_fact.then fun f => confined_next_push confined_known ht

theorem confined_concat (hs : s.EphemeralIf b) :
    Confined (concat ctx index s) (AllEphemeralIf b) := by
  refine (confined_pop hs).bind ?_
  rintro ⟨right, t⟩ ht
  refine (confined_pop ht).bind ?_
  rintro ⟨left, u⟩ hu
  refine confined_fact.then fun f => confined_fact.then fun g => ?_
  split
  · exact confined_next_push confined_intern hu
  · refine confined_intern.then fun leftLength => confined_intern.then fun rightLength => ?_
    refine confined_fact.then fun f => confined_fact.then fun g => ?_
    exact confined_next_push confined_intern hu

theorem confined_newArray (hs : s.EphemeralIf b) (t : TypeDesc) :
    Confined (newArray index t s) (AllEphemeralIf b) := by
  refine (confined_pop hs).bind ?_
  rintro ⟨length, u⟩ hu
  refine confined_fact.then fun f => ?_
  dsimp only
  split
  · exact confined_pure.mpr allEphemeralIf_nil
  · exact confined_next_push confined_intern hu

theorem confined_length (hs : s.EphemeralIf b) (l : Length) :
    Confined (length index l s) (AllEphemeralIf b) := by
  refine (confined_pop hs).bind ?_
  rintro ⟨v, t⟩ ht
  exact confined_next_push confined_intern ht

-- ---------------------------------------------------------------------------
-- Assigning instructions
-- ---------------------------------------------------------------------------

/-- A value keeps its locality, and the state its mark. -/
theorem confined_pure_pair (hs : s.EphemeralIf b) :
    Confined (pure (s, v) : Step (State × ValueId)) fun r => r.1.EphemeralIf b :=
  confined_pure.mpr hs

theorem confined_store (hs : s.EphemeralIf b) (dest source : ValueId) (isInitializer : Bool) :
    Confined (store dest source isInitializer s) fun t => t.EphemeralIf b := by
  refine confined_arena.then fun a => ?_
  refine confined_ite_bind (confined_pure_pair hs) (confined_dropLocality hs) ?_
  rintro ⟨t, source⟩ ht
  dsimp only
  split
  · exact confined_pure.mpr ht
  · refine confined_arena.then fun a => ?_
    refine confined_ite_bind (confined_dropLocality ht) (confined_pure_pair ht) ?_
    rintro ⟨u, source⟩ hu
    exact confined_arena.then fun a => confined_pure.mpr (hu.congr frame_storeInto.isEphemeral)

theorem confined_assign (hs : s.EphemeralIf b) (assigned : Option ValueId) (isInitializer : Bool)
    (array : Option ValueId) :
    Confined (assign index assigned isInitializer array anchor s) (AllEphemeralIf b) := by
  have hPushed : ∀ (t : State) (dest : ValueId), t.EphemeralIf b → Confined (do
      let t ← pushResult anchor dest t
      return [next index (flushElements (← arena) array dest t)]) (AllEphemeralIf b) := by
    intro t dest ht
    refine (confined_pushResult ht).bind fun u hu => confined_arena.then fun a => ?_
    exact confined_pure.mpr (allEphemeralIf_singleton (hu.congr frame_flushElements.isEphemeral))
  refine (confined_pop hs).bind ?_
  rintro ⟨source, t⟩ ht
  refine (confined_pop ht).bind ?_
  rintro ⟨popped, u⟩ hu
  refine confined_arena.then fun a => confined_emit.then fun _ => ?_
  dsimp only
  generalize (if a.isVariable popped = true then popped else assigned.getD popped) = dest
  exact confined_ite_bind (confined_pure.mpr hu) (confined_store hu dest source isInitializer)
    fun t ht => hPushed t dest ht

theorem confined_methodRef (hs : s.EphemeralIf b) (interface : TypeDesc) :
    Confined (methodRef index interface anchor s) (AllEphemeralIf b) := by
  refine (confined_pop hs).bind ?_
  rintro ⟨v, t⟩ ht
  refine (confined_dropLocality ht).bind ?_
  rintro ⟨u, qualifier⟩ hu
  refine (confined_dereference hu _).bind ?_
  rintro ⟨w, after⟩ hAfter
  exact confined_intern.then fun v => confined_next_pushResult hAfter

theorem confined_escape (hs : s.EphemeralIf b) (vs : List ValueId) :
    Confined (escape vs s) fun t => t.EphemeralIf b := by
  induction vs generalizing s with
  | nil => exact confined_pure.mpr hs
  | cons v vs ih =>
    refine (confined_dropLocality hs).bind ?_
    rintro ⟨t, w⟩ ht
    exact ih ht

-- ---------------------------------------------------------------------------
-- Calls
-- ---------------------------------------------------------------------------

variable {c : Call} {info : MethodInfo} {args : CallArgs}

theorem confined_checkMutable (hs : s.EphemeralIf b) (isReceiver : Bool) :
    Confined (checkMutable anchor isReceiver v s) fun t => t.EphemeralIf b := by
  have hReported : ∀ f : Fact, Confined (do
      report (anchor.map (.mutability · isReceiver)) v .alwaysFails s
      return s.setFact (← arena) v (f.withMutability .mutable)) fun t => t.EphemeralIf b :=
    fun f => confined_report.then fun _ => confined_arena.then fun a =>
      confined_pure.mpr (hs.congr frame_setFact.isEphemeral)
  refine confined_fact.then fun f => ?_
  dsimp only
  split
  · exact confined_pure.mpr hs
  · split
    · refine confined_intern.then fun length => confined_fact.then fun g => ?_
      split
      · exact confined_pure.mpr hs
      · exact hReported f
    · exact hReported f

theorem confined_popArg (hs : s.EphemeralIf b) (i : Nat) :
    Confined (popArg index c info i s) fun r => r.2.EphemeralIf b := by
  refine (confined_pop hs).bind ?_
  rintro ⟨v, t⟩ ht
  refine confined_ite_bind (confined_dropLocality ht) (confined_pure_pair ht) ?_
  rintro ⟨u, v⟩ hu
  exact confined_ite_bind (confined_checkMutable hu false) (confined_pure.mpr hu)
    fun t ht => confined_pure.mpr ht

theorem confined_popArgs (hs : s.EphemeralIf b) (k : Nat) (vs : List ValueId) :
    Confined (popArgs index c info k s vs) fun r => r.2.EphemeralIf b := by
  induction k generalizing s vs with
  | zero => exact confined_pure.mpr hs
  | succ k ih =>
    refine (confined_popArg hs k).bind ?_
    rintro ⟨v, t⟩ ht
    exact ih ht (v :: vs)

theorem confined_popQualifier (hs : s.EphemeralIf b) (vs : List ValueId) :
    Confined (popQualifier index c info vs s) fun r => r.2.EphemeralIf b := by
  refine (confined_pop hs).bind ?_
  rintro ⟨v, t⟩ ht
  refine confined_ite_bind (confined_checkMutable ht true) (confined_pure.mpr ht) fun u hu => ?_
  refine confined_arena.then fun a => ?_
  dsimp only
  split
  · exact (confined_dropLocality hu).bind fun r hr => confined_pure.mpr hr
  · exact confined_pure.mpr hu

theorem confined_popCallArgs (hs : s.EphemeralIf b) :
    Confined (popCallArgs index c info s) fun r => r.2.EphemeralIf b := by
  refine (confined_popArgs hs c.argCount []).bind ?_
  rintro ⟨vs, t⟩ ht
  refine (confined_popQualifier ht vs).bind ?_
  rintro ⟨q, u⟩ hu
  exact confined_pure.mpr hu

theorem confined_usualResult : Confined (usualResult ctx c info args s) fun _ => True := by
  refine confined_arena.then fun a => ?_
  split
  · exact confined_pure.mpr trivial
  · exact confined_intern
  · exact confined_intern

/-- Every state that splits off is ephemeral, if `b` holds. -/
def Expansion.AllEphemeralIf (b : Prop) (e : Expansion) : Prop :=
  (∀ r ∈ e.finished, r.1.EphemeralIf b) ∧ ∀ s ∈ e.live, s.EphemeralIf b

theorem confined_splitByConditions (conditions : List ContractCondition) {left : List State}
    (hs : s.EphemeralIf b) (hLeft : ∀ t ∈ left, t.EphemeralIf b) :
    Confined (splitByConditions args conditions s left) fun r =>
      (∀ t ∈ r.1, t.EphemeralIf b) ∧ ∀ t ∈ r.2, t.EphemeralIf b := by
  induction conditions generalizing s left with
  | nil =>
    refine confined_pure.mpr ⟨?_, hLeft⟩
    intro t ht
    cases ht
    exact hs
  | cons condition conditions ih =>
    have hApplied : ∀ (a : Arena) (c : Condition), (s.apply a c).state.EphemeralIf b :=
      fun a c => hs.congr frame_apply.isEphemeral
    have hGrown : ∀ (a : Arena) (c : Condition) (grows : Bool),
        ∀ t ∈ (if grows then left ++ [(s.apply a c).state] else left), t.EphemeralIf b := by
      intro a c grows t ht
      split at ht
      · rcases List.mem_append.mp ht with ht | ht
        · exact hLeft t ht
        · rw [List.mem_singleton.mp ht]
          exact hApplied a c
      · exact hLeft t ht
    have hCondition : Confined (contractCondition args condition) fun _ => True :=
      confined_intern.then fun left => confined_intern.then fun right => confined_condition
    refine hCondition.then fun cond => confined_arena.then fun a => ?_
    dsimp only
    split
    · exact ih (hApplied _ _) (hGrown _ _ _)
    · refine confined_pure.mpr ⟨?_, hGrown _ _ _⟩
      intro t ht
      cases ht

theorem confined_applyContract (contract : Contract) (states : List State) {e : Expansion}
    (hStates : ∀ t ∈ states, t.EphemeralIf b) (he : e.AllEphemeralIf b) :
    Confined (applyContract args contract states e) fun e => e.AllEphemeralIf b := by
  induction states generalizing e with
  | nil => exact confined_pure.mpr he
  | cons t states ih =>
    have hRest : ∀ t ∈ states, t.EphemeralIf b :=
      fun t ht => hStates t (List.mem_cons_of_mem _ ht)
    refine (confined_splitByConditions contract.conditions (hStates t List.mem_cons_self)
      he.2).bind ?_
    rintro ⟨holding, left⟩ ⟨hHolding, hLeft⟩
    cases holding with
    | none =>
      dsimp only
      rw [pure_bind]
      exact ih hRest ⟨he.1, hLeft⟩
    | some u =>
      have hFinish : Confined (finish args contract.result u e.finished) fun finished =>
          ∀ r ∈ finished, r.1.EphemeralIf b := by
        have hResult : Confined (contractResult? args contract.result) fun _ => True :=
          confined_modifyGet (fun _ => rfl) fun _ => trivial
        refine hResult.then fun v? => ?_
        split
        · refine confined_pure.mpr fun r hr => ?_
          rcases List.mem_append.mp hr with hr | hr
          · exact he.1 r hr
          · rw [List.mem_singleton.mp hr]
            exact hHolding u rfl
        · exact confined_pure.mpr he.1
      exact hFinish.bind fun finished hFinished => ih hRest ⟨hFinished, hLeft⟩

theorem confined_applyContracts (limit : Nat) (contracts : List Contract) {e : Expansion}
    (he : e.AllEphemeralIf b) :
    Confined (applyContracts args limit contracts e) fun r => ∀ e ∈ r, e.AllEphemeralIf b := by
  induction contracts generalizing e with
  | nil =>
    refine confined_pure.mpr fun e' he' => ?_
    cases he'
    exact he
  | cons contract contracts ih =>
    have hStart : Expansion.AllEphemeralIf b { e with live := [] } := ⟨he.1, nofun⟩
    refine (confined_applyContract contract e.live he.2 hStart).bind fun e' he' => ?_
    split
    · exact confined_pure.mpr nofun
    · exact ih he'

theorem confined_expand (hs : s.EphemeralIf b) (usual : ValueId) :
    Confined (expand ctx index info args usual s) fun rs => ∀ r ∈ rs, r.1.EphemeralIf b := by
  have hUsual : ∀ r ∈ [(s, usual)], r.1.EphemeralIf b := by
    intro r hr
    rw [List.mem_singleton.mp hr]
    exact hs
  refine confined_arena.then fun a => ?_
  split
  · exact confined_pure.mpr hUsual
  · have hStart : Expansion.AllEphemeralIf b ⟨[], [s]⟩ := by
      refine ⟨nofun, fun t ht => ?_⟩
      rw [List.mem_singleton.mp ht]
      exact hs
    refine (confined_applyContracts _ _ hStart).bind fun e? he => ?_
    split
    · rename_i e
      refine confined_pure.mpr fun r hr => ?_
      rcases List.mem_append.mp (List.mem_eraseDups.mp hr) with hr | hr
      · exact (he e rfl).1 r hr
      · obtain ⟨t, ht, rfl⟩ := List.mem_map.mp hr
        exact (he e rfl).2 t ht
    · exact confined_log.then fun _ => confined_pure.mpr hUsual

theorem confined_mapM_returnFrom (results : List (State × ValueId))
    (hResults : ∀ r ∈ results, r.1.EphemeralIf b) :
    Confined (results.mapM (returnFrom index anchor args)) (AllEphemeralIf b) := by
  induction results with
  | nil => exact confined_pure.mpr allEphemeralIf_nil
  | cons r results ih =>
    have hFirst : Confined (returnFrom index anchor args r) fun it => it.state.EphemeralIf b := by
      have hr : r.1.EphemeralIf b := hResults r List.mem_cons_self
      refine confined_arena.then fun a => ?_
      exact (confined_pushResult (hr.congr frame_flushAfterCall.isEphemeral)).bind fun t ht =>
        confined_pure.mpr ht
    rw [List.mapM_cons]
    refine hFirst.bind fun it hit => ?_
    refine (ih fun r hr => hResults r (List.mem_cons_of_mem _ hr)).bind fun its hits => ?_
    exact confined_pure.mpr ((allEphemeralIf_singleton hit).append hits)

theorem confined_call (hs : s.EphemeralIf b) :
    Confined (call ctx index c s) (AllEphemeralIf b) := by
  refine (confined_popCallArgs hs).bind ?_
  rintro ⟨args, t⟩ ht
  refine confined_usualResult.then fun usual => (confined_expand ht usual).bind ?_
  exact fun results hResults => confined_mapM_returnFrom results hResults

-- ---------------------------------------------------------------------------
-- All instructions
-- ---------------------------------------------------------------------------

/-- Making closures records no outcome. -/
theorem reach_addClosures (ids : List ClosureId) (r : Record) :
    (ids.foldl (·.addClosure · s) r).reach = r.reach := by
  induction ids generalizing r with
  | nil => rfl
  | cons id ids ih =>
    rw [List.foldl_cons, ih, Record.addClosure]
    split <;> rfl

/-- **An ephemeral state leaves no outcome behind**, nor does an instruction that has none,
and all that comes out of an ephemeral state is ephemeral. -/
theorem confined_perform (hHandler : ctx.handler = .usual) {i : Instr}
    (hSilent : s.isEphemeral = true ∨ i.hasOutcome = false) :
    Confined (perform ctx index s i) (AllEphemeralIf (s.isEphemeral = true)) := by
  have hs : s.EphemeralIf (s.isEphemeral = true) := id
  have hNext : ∀ t : State, t.isEphemeral = s.isEphemeral →
      AllEphemeralIf (s.isEphemeral = true) [next index t] := fun t ht =>
    allEphemeralIf_singleton (hs.congr ht)
  -- an instruction that has an outcome is visited by an ephemeral state
  have hMarked : i.hasOutcome = true → s.isEphemeral = true := by
    intro hOutcome
    rcases hSilent with hs | hNone
    · exact hs
    · rw [hNone] at hOutcome
      cases hOutcome
  have hAll : ∀ items, AllEphemeralIf True items →
      AllEphemeralIf (s.isEphemeral = true) items := fun items h it hit _ => h it hit trivial
  rw [perform.eq_def]
  cases i with
  | push v anchor => exact confined_next_pushResult hs
  | pop => exact (confined_pop hs).bind fun r hr => confined_pure.mpr (allEphemeralIf_singleton hr)
  | dup => exact confined_peek.then fun v => confined_pure.mpr (hNext _ rfl)
  | goto target => exact confined_pure.mpr (allEphemeralIf_singleton hs)
  | branch target negated anchor => exact (confined_branch (hMarked rfl) target negated).mono hAll
  | not anchor => exact (confined_not (hMarked rfl)).mono hAll
  | ret => exact confined_pure.mpr allEphemeralIf_nil
  | endOfInitializer isStatic => exact confined_emit.then fun _ => confined_pure.mpr (hNext s rfl)
  | boolean op anchor => exact (confined_boolean (hMarked rfl) op).mono hAll
  | arithmetic op w => exact confined_arithmetic hs op w
  | negate w => exact confined_negate hs w
  | concat => exact confined_concat hs
  | assign assigned isInitializer array anchor =>
    exact confined_assign hs assigned isInitializer array
  | flushVariable v =>
    exact confined_arena.then fun a => confined_pure.mpr (hNext _ frame_flushVariable.isEphemeral)
  | flushFields =>
    exact confined_arena.then fun a => confined_pure.mpr (hNext _ frame_flushFields.isEphemeral)
  | escape vs =>
    exact (confined_escape hs vs).bind fun t ht => confined_pure.mpr (allEphemeralIf_singleton ht)
  | call c => exact confined_call hs
  | methodRef method interface anchor => exact confined_methodRef hs interface
  | closure ids =>
    exact (confined_record (reach_addClosures ids)).then fun _ => confined_pure.mpr (hNext s rfl)
  | transfer t => exact confined_pure.mpr (allEphemeralIf_dispatch hHandler hs t false)
  | newArray t => exact confined_newArray hs t
  | arrayAccess fallback outOfBounds anchor =>
    exact confined_arrayAccess hHandler hs fallback outOfBounds
  | length l => exact confined_length hs l
  | cast t convertible onFail anchor => exact confined_cast hHandler hs t convertible onFail
  | instanceOf isClassObject anchor =>
    exact (confined_instanceOf (hMarked rfl) isClassObject).mono hAll
  | checkNotNull kind onNull anchor => exact confined_checkNotNull hHandler hs kind onNull
  | ensure rel expected onFail makeEphemeral anchor =>
    exact confined_ensure hHandler hs rel expected onFail makeEphemeral

end Step

end Pathwise
