import Pathwise.Proofs.Stacks

/-!
# The ways on from an instruction

Every instruction is performed without a fault by a state that has the values it
takes, and every item that comes out takes an edge of the flow: it is at a
successor with the values left and pushed, or at the target of a transfer with an
empty stack. So the table of pops and pushes tells what the instructions do.

With one exception: `ensure` reads the top of the stack and is not counted as a
user of it. On an empty stack it finds a fault.

## Results

* `yields_checkNotNull`, `yields_call`, … — one law for each kind of instruction.
* `yields_perform`        — every item that comes out takes an edge.
* `perform_ensure_empty`  — the exception.
-/

namespace Pathwise

/-- Whether the instruction is an `ensure`. -/
def Instr.isEnsure : Instr → Bool
  | ensure .. => true
  | _ => false

namespace Step

variable {index n : Nat} {anchor : Option Anchor} {s : State} {σ : Session} {ctx : Context}

-- ---------------------------------------------------------------------------
-- Checking instructions
-- ---------------------------------------------------------------------------

theorem yields_reportNull {problem : Option Problem} {v : ValueId}
    {Q : Unit → Session → Prop} (hQ : ∀ τ, Q () τ) : Yields (reportNull problem v s) σ Q := by
  unfold reportNull
  rw [yields_bind, yields_fact, yields_report]
  exact hQ _

theorem yields_dereference (v : ValueId) (problem : Option Problem) :
    Yields (dereference s v problem) σ fun r _ => r.2.stack = s.stack := by
  unfold dereference
  refine yields_bind.mpr (yields_reportNull fun τ => ?_)
  rw [yields_bind, yields_arena]
  simp only []
  split
  · split
    · exact yields_pure.mpr State.frame_setFact.stack
    · exact yields_pure.mpr State.frame_meetFact.stack
  · split
    · exact yields_pure.mpr rfl
    · exact yields_bind.mpr (yields_intern.mpr (yields_pure.mpr rfl))

/-- A path that goes on after a transfer takes an edge of the transfer. -/
theorem yields_transferIf (hHandler : ctx.handler = .usual) {depth : Nat} {i : Instr}
    {t : Transfer} (hTransfer : i.transfer? = some t) (cs : List Condition) (ephemeral : Bool) :
    Yields (transferIf ctx s cs t ephemeral) σ fun items _ => Leads index depth i items := by
  rw [transferIf, yields_bind, yields_arena]
  split
  · exact yields_pure.mpr (leads_dispatch hHandler hTransfer _ _)
  · refine yields_pure.mpr ?_
    intro it hit
    cases hit

/-- The item at the next instruction takes an edge if its stack is what the
instruction leaves. -/
theorem leads_next {depth : Nat} {i : Instr} {t : State} (hNext : index + 1 ∈ i.successors index)
    (hDepth : depth - i.pops + i.pushes = t.depth) : Leads index depth i [next index t] :=
  (allAt_singleton rfl).leads hNext hDepth

theorem leads_nil {depth : Nat} {i : Instr} : Leads index depth i [] := by
  intro it hit
  cases hit

theorem yields_checkNotNull (hHandler : ctx.handler = .usual) {kind : NullCheck}
    {onNull : Option Transfer} (hDepth : s.depth = n + 1) :
    Yields (checkNotNull ctx index kind onNull anchor s) σ fun items _ =>
      Leads index (n + 1) (.checkNotNull kind onNull anchor) items := by
  cases kind with
  | argument =>
    rw [checkNotNull, yields_bind]
    refine yields_peek hDepth fun v _ => ?_
    refine yields_bind.mpr (yields_reportNull fun τ => yields_pure.mpr ?_)
    exact leads_next (List.mem_singleton_self _) (by rw [hDepth]; rfl)
  | dereference =>
    unfold checkNotNull
    rw [yields_bind]
    refine yields_pop hDepth fun v vs _ hLength => ?_
    rw [yields_bind, yields_arena]
    refine (yields_dereference v _).bind fun r τ hr => ?_
    obtain ⟨w, after⟩ := r
    have hAfter : after.depth = n := by
      rw [State.depth, hr]
      exact hLength
    have hNormal : ∀ ends : Bool, Leads index (n + 1) (.checkNotNull .dereference onNull anchor)
        (if ends then [] else [next index (after.push w)]) := by
      intro ends
      split
      · exact leads_nil
      · exact leads_next (List.mem_singleton_self _) (by rw [State.depth_push, hAfter]; rfl)
    cases onNull with
    | none => exact yields_pure.mpr (hNormal _)
    | some t =>
      simp only [yields_bind, yields_intern, yields_condition]
      exact (yields_transferIf hHandler rfl _ true).mono fun items ρ hItems =>
        yields_pure.mpr ((hNormal _).append hItems)

theorem frame_applyAll {a : Arena} (cs : List Condition) (s : State) :
    s.SameFrame (applyAll a cs s).state := by
  induction cs generalizing s with
  | nil => exact .refl s
  | cons c cs ih =>
    unfold applyAll
    dsimp only
    split
    · exact State.frame_apply.trans (ih _)
    · exact State.frame_apply

theorem yields_applyBounds (array element : ValueId) :
    Yields (applyBounds s array element) σ fun n _ => n.state.stack = s.stack := by
  simp only [applyBounds, yields_bind, yields_intern, yields_condition, yields_arena, yields_pure]
  exact (frame_applyAll _ s).stack

theorem yields_intern? {f : Arena → Option (ValueId × Arena)} {Q : Option ValueId → Session → Prop}
    (hQ : ∀ r τ, Q r τ) : Yields (intern? f) σ Q :=
  yields_modifyGet.mpr (hQ _ _)

theorem yields_elementAt {array : ValueId} {f : Fact} {fallback : Option ValueId}
    {Q : ValueId → Session → Prop} (hQ : ∀ v τ, Q v τ) :
    Yields (elementAt array f fallback) σ Q := by
  unfold elementAt
  exact yields_bind.mpr (yields_intern? fun r τ => yields_pure.mpr (hQ _ τ))

theorem frame_dropElementLocality {a : Arena} {array : ValueId} :
    s.SameFrame (dropElementLocality a array s) :=
  State.frame_foldl (fun _ _ => State.frame_dropLocality) _ s

theorem yields_arrayAccess (hHandler : ctx.handler = .usual) {fallback : Option ValueId}
    {outOfBounds : Option Transfer} (hDepth : s.depth = n + 2) :
    Yields (arrayAccess ctx index fallback outOfBounds anchor s) σ fun items _ =>
      Leads index (n + 2) (.arrayAccess fallback outOfBounds anchor) items := by
  unfold arrayAccess
  rw [yields_bind]
  refine yields_pop hDepth fun element vs _ hElement => ?_
  rw [yields_bind]
  refine yields_pop hElement fun array ws _ hLength => ?_
  refine (yields_applyBounds array element).bind fun m τ hm => ?_
  rw [yields_bind, yields_report]
  simp only []
  split
  · cases outOfBounds with
    | none => exact yields_pure.mpr leads_nil
    | some t => exact yields_pure.mpr (leads_dispatch hHandler rfl _ _)
  · rw [yields_bind, yields_fact, yields_bind]
    refine yields_elementAt fun v ρ => ?_
    rw [yields_bind, yields_arena, yields_bind, yields_pushResult, yields_pure]
    refine leads_next (List.mem_singleton_self _) ?_
    rw [State.depth_push]
    have hStack : ∀ b : Bool, State.depth
        (if b then dropElementLocality ρ.arena array m.state else m.state) = n := by
      intro b
      rw [State.depth]
      split
      · rw [frame_dropElementLocality.stack, hm]
        exact hLength
      · rw [hm]
        exact hLength
    rw [hStack]
    rfl

theorem yields_castTop (f : Fact) (hDepth : s.depth = n + 1) :
    Yields (castTop index f s) σ fun m _ => m.state.depth = n + 1 := by
  unfold castTop
  rw [yields_bind]
  refine yields_peek hDepth fun v _ => ?_
  rw [yields_bind, yields_arena]
  simp only []
  split
  · exact yields_pure.mpr hDepth
  · split
    · exact yields_pure.mpr hDepth
    · have hMet : (s.meetFact σ.arena v ((s.fact σ.arena v).meet f)).state.depth = n + 1 := by
        rw [State.depth_congr State.frame_meetFact.stack, hDepth]
      split
      · exact yields_pure.mpr hMet
      · rw [yields_bind]
        refine yields_pop hMet fun w ws _ hLength => ?_
        simp only [yields_bind, yields_intern, yields_pure]
        rw [State.depth_push, State.depth, hLength]

theorem yields_cast (hHandler : ctx.handler = .usual) {t : TypeDesc} {convertible : Bool}
    {onFail : Option Transfer} (hDepth : s.depth = n + 1) :
    Yields (cast ctx index t convertible onFail anchor s) σ fun items _ =>
      Leads index (n + 1) (.cast t convertible onFail anchor) items := by
  have hNormal : ∀ (m : Narrowing) (passes : Bool), m.state.depth = n + 1 →
      Leads index (n + 1) (.cast t convertible onFail anchor)
        (if passes then [next index m.state] else []) := by
    intro m passes hm
    split
    · exact leads_next (List.mem_singleton_self _) (by rw [hm]; rfl)
    · exact leads_nil
  -- a cast is reported, if at all, before the path goes on
  have hNarrowed : ∀ (rest : Narrowing → Step (List Item)) (Q : List Item → Session → Prop),
      (∀ m τ, m.state.depth = n + 1 → Yields (rest m) τ Q) → Yields (do
        let m ← if convertible then castTop index (.ofType t .unknown) s else pure ⟨true, s⟩
        if anchor.isSome then
          let v ← peek index m.state
          report (anchor.map .classCast) v (if m.feasible then .unsure else .alwaysFails) m.state
        rest m) σ Q := by
    intro rest Q hRest
    have hReported : ∀ (m : Narrowing) (τ : Session), m.state.depth = n + 1 → Yields (do
        if anchor.isSome then
          let v ← peek index m.state
          report (anchor.map .classCast) v (if m.feasible then .unsure else .alwaysFails) m.state
        rest m) τ Q := by
      intro m τ hm
      simp only []
      split
      · rw [yields_bind]
        refine yields_peek hm fun v _ => ?_
        rw [yields_bind, yields_report]
        exact hRest m _ hm
      · exact hRest m τ hm
    simp only []
    split
    · exact (yields_castTop _ hDepth).bind hReported
    · exact yields_bind.mpr (yields_pure.mpr (hReported _ σ hDepth))
  unfold cast
  refine hNarrowed _ _ fun m τ hm => ?_
  cases onFail with
  | none => exact yields_pure.mpr (hNormal m _ hm)
  | some transfer =>
    dsimp only
    rw [yields_bind]
    refine yields_peek hDepth fun v _ => ?_
    simp only [yields_bind, yields_intern, yields_condition]
    exact (yields_transferIf hHandler rfl _ true).mono fun items ρ hItems =>
      yields_pure.mpr ((hNormal m _ hm).append hItems)

/-- What `ensure` does to a stack with a value. -/
theorem yields_ensure (hHandler : ctx.handler = .usual) {rel : Relation} {expected : Fact}
    {onFail : Option Transfer} {makeEphemeral : Bool} (hDepth : s.depth = n + 1) :
    Yields (ensure ctx index rel expected onFail makeEphemeral anchor s) σ fun items _ =>
      Leads index (n + 1) (.ensure rel expected onFail makeEphemeral anchor) items := by
  have hNext : ∀ t : State, t.stack = s.stack →
      Leads index (n + 1) (.ensure rel expected onFail makeEphemeral anchor) [next index t] := by
    intro t ht
    exact leads_next (List.mem_singleton_self _) (by rw [State.depth_congr ht, hDepth]; rfl)
  unfold ensure
  rw [yields_bind]
  refine yields_peek hDepth fun v _ => ?_
  simp only [yields_bind, yields_intern, yields_condition]
  split
  · simp only [yields_bind, yields_report, yields_pure]
    exact hNext s rfl
  · rw [yields_bind, yields_apply]
    have hNormal : ∀ m : Narrowing, m.state.stack = s.stack →
        Leads index (n + 1) (.ensure rel expected onFail makeEphemeral anchor)
          (if m.feasible then [next index m.state] else []) := by
      intro m hm
      split
      · exact hNext _ hm
      · exact leads_nil
    cases onFail with
    | none =>
      simp only [yields_bind, yields_report, yields_pure]
      exact hNormal _ State.frame_apply.stack
    | some t =>
      simp only [yields_bind, yields_report, yields_apply, yields_pure]
      refine (hNormal _ State.frame_apply.stack).append ?_
      split
      · exact leads_dispatch hHandler rfl _ _
      · exact leads_nil

/-- **The exception**: `ensure` is not counted as a user of the stack, and finds a
fault on an empty one. -/
theorem perform_ensure_empty {i : Instr} (hEnsure : i.isEnsure = true) (hEmpty : s.stack = []) :
    perform ctx index s i σ = .error (.stackUnderflow index) σ := by
  have hPeek : peek index s = throw (.stackUnderflow index) := by
    rw [peek, State.peek?, hEmpty]
    rfl
  cases i with
  | ensure rel expected onFail makeEphemeral anchor =>
    rw [perform]
    unfold ensure
    rw [bind_eq, hPeek]
    rfl
  | _ => cases hEnsure

-- ---------------------------------------------------------------------------
-- Computing instructions
-- ---------------------------------------------------------------------------

theorem yields_known {f : Fact} {Q : ValueId → Session → Prop} (hQ : ∀ v τ, Q v τ) :
    Yields (known f) σ Q := by
  rw [known]
  split
  · exact yields_pure.mpr (hQ _ σ)
  · exact yields_intern.mpr (hQ _ _)

/-- The item at the next instruction with one value more. -/
theorem allAt_next_push {t : State} (v : ValueId) (hDepth : t.depth = n) :
    AllAt (index + 1) (n + 1) [next index (t.push v)] :=
  allAt_singleton (by rw [State.depth_push, hDepth])

theorem yields_arithmetic {op : ArithmeticOp} {w : Width} (hDepth : s.depth = n + 2) :
    Yields (arithmetic index op w s) σ fun items _ => AllAt (index + 1) (n + 1) items := by
  unfold arithmetic
  rw [yields_bind]
  refine yields_pop hDepth fun right vs _ hRight => ?_
  rw [yields_bind]
  refine yields_pop hRight fun left ws _ hLength => ?_
  simp only [yields_bind, yields_fact]
  split
  · exact yields_pure.mpr (allAt_nil _ _)
  · exact yields_bind.mpr (yields_known fun v τ => yields_pure.mpr (allAt_next_push v hLength))

theorem yields_negate {w : Width} (hDepth : s.depth = n + 1) :
    Yields (negate index w s) σ fun items _ => AllAt (index + 1) (n + 1) items := by
  unfold negate
  rw [yields_bind]
  refine yields_pop hDepth fun v vs _ hLength => ?_
  simp only [yields_bind, yields_fact]
  exact yields_known fun w τ => yields_pure.mpr (allAt_next_push w hLength)

theorem yields_concat (hDepth : s.depth = n + 2) :
    Yields (concat ctx index s) σ fun items _ => AllAt (index + 1) (n + 1) items := by
  unfold concat
  rw [yields_bind]
  refine yields_pop hDepth fun right vs _ hRight => ?_
  rw [yields_bind]
  refine yields_pop hRight fun left ws _ hLength => ?_
  simp only [yields_bind, yields_fact]
  split
  · simp only [yields_bind, yields_intern, yields_pure]
    exact allAt_next_push _ hLength
  · simp only [yields_bind, yields_intern, yields_fact, yields_pure]
    exact allAt_next_push _ hLength

theorem yields_newArray {t : TypeDesc} (hDepth : s.depth = n + 1) :
    Yields (newArray index t s) σ fun items _ => AllAt (index + 1) (n + 1) items := by
  unfold newArray
  rw [yields_bind]
  refine yields_pop hDepth fun v vs _ hLength => ?_
  simp only [yields_bind, yields_fact]
  split
  · exact yields_pure.mpr (allAt_nil _ _)
  · simp only [yields_bind, yields_intern, yields_pure]
    exact allAt_next_push _ hLength

theorem yields_length {l : Length} (hDepth : s.depth = n + 1) :
    Yields (length index l s) σ fun items _ => AllAt (index + 1) (n + 1) items := by
  unfold length
  rw [yields_bind]
  refine yields_pop hDepth fun v vs _ hLength => ?_
  simp only [yields_bind, yields_intern, yields_pure]
  exact allAt_next_push _ hLength

-- ---------------------------------------------------------------------------
-- Assigning instructions
-- ---------------------------------------------------------------------------

theorem frame_storeInto {a : Arena} {dest source : ValueId} {x : Variable} {isInitializer : Bool} :
    s.SameFrame (storeInto a s dest x source isInitializer) := by
  have hAssigned : s.SameFrame
      (if x.descriptor.isVolatile then s else s.assign a dest source) := by
    split
    · exact .refl s
    · exact State.frame_assign
  unfold storeInto
  dsimp only
  generalize (if x.descriptor.isVolatile = true then s else s.assign a dest source) = t
    at hAssigned ⊢
  split
  · exact hAssigned.trans State.frame_meetFact
  · exact hAssigned

theorem frame_flushElements {a : Arena} {array : Option ValueId} {dest : ValueId} :
    s.SameFrame (flushElements a array dest s) := by
  unfold flushElements
  split
  · exact .refl s
  · split
    · exact .refl s
    · exact State.frame_foldl (fun _ _ => State.frame_flushVariable) _ s

/-- **What is stored is the source as it is after it has escaped**, twice, once or not at all. What
holds of a state and a value, and of every state and value that they become when the value escapes,
holds of the state and the value then. -/
theorem yields_store_of {dest source : ValueId} {isInitializer : Bool}
    {P : Arena → State → ValueId → Prop} (hStart : P σ.arena s source)
    (hDrop : ∀ {b t m}, P b t m →
      P (t.dropLocality b m).2.2 (t.dropLocality b m).1 (t.dropLocality b m).2.1) :
    Yields (store dest source isInitializer s) σ fun r τ => ∃ t m, P τ.arena t m ∧
      r = (σ.arena.varAt? dest).elim t fun x => storeInto τ.arena t dest x m isInitializer := by
  have hEscapes : ∀ {τ : Session} {t m}, P τ.arena t m →
      Yields (dropLocality t m) τ fun p υ => P υ.arena p.1 p.2 := fun h =>
    yields_dropLocality.mpr (hDrop h)
  unfold store
  rw [yields_bind, yields_arena]
  -- an object escapes if it leaves the temporaries, and if it is stored where others find it
  refine yields_ite_bind (P := fun p τ => P τ.arena p.1 p.2) (fun _ => yields_pure.mpr hStart)
    (fun _ => hEscapes hStart) ?_
  intro p τ hMoved
  dsimp only
  cases σ.arena.varAt? dest with
  | none => exact yields_pure.mpr ⟨_, _, hMoved, rfl⟩
  | some x =>
    dsimp only
    rw [yields_bind, yields_arena]
    refine yields_ite_bind (P := fun p τ => P τ.arena p.1 p.2) (fun _ => hEscapes hMoved)
      (fun _ => yields_pure.mpr hMoved) ?_
    intro p τ hStored
    rw [yields_bind, yields_arena]
    exact yields_pure.mpr ⟨_, _, hStored, rfl⟩

theorem yields_store (dest source : ValueId) (isInitializer : Bool) :
    Yields (store dest source isInitializer s) σ fun t _ => t.stack = s.stack := by
  have hFrame : ∀ {b : Arena} {t : State} {m : ValueId}, t.stack = s.stack →
      (t.dropLocality b m).1.stack = s.stack := State.frame_dropLocality.stack.trans
  refine (yields_store_of (P := fun _ t _ => t.stack = s.stack) rfl hFrame).mono ?_
  rintro r τ ⟨t, m, ht, rfl⟩
  cases σ.arena.varAt? dest with
  | none => exact ht
  | some x => exact frame_storeInto.stack.trans ht

theorem yields_assign {assigned array : Option ValueId} {isInitializer : Bool}
    (hDepth : s.depth = n + 2) :
    Yields (assign index assigned isInitializer array anchor s) σ fun items _ =>
      AllAt (index + 1) (n + 1) items := by
  have hPushed : ∀ (t : State) (dest : ValueId) (τ : Session), t.depth = n → Yields (do
        let t ← pushResult anchor dest t
        return [next index (flushElements (← arena) array dest t)]) τ
      fun items _ => AllAt (index + 1) (n + 1) items := by
    intro t dest τ ht
    simp only [yields_bind, yields_pushResult, yields_arena, yields_pure]
    refine allAt_singleton ?_
    rw [State.depth_congr frame_flushElements.stack, State.depth_push, ht]
  unfold assign
  rw [yields_bind]
  refine yields_pop hDepth fun source vs _ hSource => ?_
  rw [yields_bind]
  refine yields_pop hSource fun popped ws _ hLength => ?_
  rw [yields_bind, yields_arena, yields_bind, yields_emit]
  simp only []
  generalize (if σ.arena.isVariable popped = true then popped else assigned.getD popped) = dest
  have hPopped : State.depth { s with stack := ws } = n := hLength
  split
  · exact yields_bind.mpr (yields_pure.mpr (hPushed _ dest _ hPopped))
  · refine (yields_store dest source isInitializer).bind fun t τ ht => hPushed t dest τ ?_
    rw [State.depth_congr ht, hPopped]

theorem yields_methodRef {interface : TypeDesc} (hDepth : s.depth = n + 1) :
    Yields (methodRef index interface anchor s) σ fun items _ =>
      AllAt (index + 1) (n + 1) items := by
  unfold methodRef
  rw [yields_bind]
  refine yields_pop hDepth fun v vs _ hLength => ?_
  rw [yields_bind, yields_dropLocality]
  refine (yields_dereference _ _).bind fun r τ hr => ?_
  simp only [yields_bind, yields_intern, yields_pushResult, yields_pure]
  refine allAt_next_push _ ?_
  rw [State.depth_congr hr, State.depth_congr State.frame_dropLocality.stack]
  exact hLength

theorem yields_escape (vs : List ValueId) :
    Yields (escape vs s) σ fun t _ => t.stack = s.stack := by
  induction vs generalizing s σ with
  | nil => exact yields_pure.mpr rfl
  | cons v vs ih =>
    rw [escape, yields_bind, yields_dropLocality]
    exact ih.mono fun t τ ht => ht.trans State.frame_dropLocality.stack

-- ---------------------------------------------------------------------------
-- Calls
-- ---------------------------------------------------------------------------

section Calls

variable {c : Call} {info : MethodInfo} {args : CallArgs}

theorem yields_checkMutable {isReceiver : Bool} (v : ValueId) :
    Yields (checkMutable anchor isReceiver v s) σ fun t _ => t.stack = s.stack := by
  unfold checkMutable
  simp only [yields_bind, yields_fact]
  split
  · exact yields_pure.mpr rfl
  · split
    · simp only [yields_bind, yields_intern, yields_fact]
      split
      · exact yields_pure.mpr rfl
      · simp only [yields_bind, yields_report, yields_arena, yields_pure]
        exact State.frame_setFact.stack
    · simp only [yields_bind, yields_report, yields_arena, yields_pure]
      exact State.frame_setFact.stack

/-- Whether or not it is checked that a value may be modified, the stack is kept. -/
theorem yields_checkMutable_bind {α : Type} {b isReceiver : Bool} {v : ValueId} {t : State}
    {f : State → Step α} {Q : α → Session → Prop}
    (hf : ∀ u τ, u.stack = t.stack → Yields (f u) τ Q) :
    Yields (if b then checkMutable anchor isReceiver v t >>= f else pure t >>= f) σ Q := by
  split
  · exact (yields_checkMutable v).bind hf
  · exact yields_bind.mpr (yields_pure.mpr (hf t σ rfl))

theorem yields_popArg (i : Nat) (hDepth : s.depth = n + 1) :
    Yields (popArg index c info i s) σ fun r _ => r.2.depth = n := by
  have hChecked : ∀ (v : ValueId) (t : State) (τ : Session), t.depth = n → Yields (do
        let t ←
          if !info.mutation.isUnknown && info.mutation.mutatesArg i then
            checkMutable c.anchor false v t
          else pure t
        return (v, t)) τ fun r _ => r.2.depth = n := by
    intro v t τ ht
    refine yields_checkMutable_bind fun u ρ hu => yields_pure.mpr ?_
    rw [State.depth_congr hu, ht]
  unfold popArg
  rw [yields_bind]
  refine yields_pop hDepth fun v vs _ hLength => ?_
  have hPopped : State.depth { s with stack := vs } = n := hLength
  simp only []
  split
  · rw [yields_bind, yields_dropLocality]
    exact hChecked _ _ _ (by rw [State.depth_congr State.frame_dropLocality.stack, hPopped])
  · exact yields_bind.mpr (yields_pure.mpr (hChecked v _ σ hPopped))

theorem yields_popArgs (k : Nat) (args : List ValueId) (hDepth : s.depth = n + k) :
    Yields (popArgs index c info k s args) σ fun r _ => r.2.depth = n := by
  induction k generalizing s args σ with
  | zero => exact yields_pure.mpr hDepth
  | succ k ih =>
    unfold popArgs
    exact (yields_popArg k hDepth).bind fun r τ hr => ih (r.1 :: args) hr

theorem yields_popQualifier (args : List ValueId) (hDepth : s.depth = n + 1) :
    Yields (popQualifier index c info args s) σ fun r _ => r.2.depth = n := by
  unfold popQualifier
  rw [yields_bind]
  refine yields_pop hDepth fun v vs _ hLength => ?_
  have hPopped : State.depth { s with stack := vs } = n := hLength
  refine yields_checkMutable_bind fun t τ ht => ?_
  have hChecked : t.depth = n := by rw [State.depth_congr ht, hPopped]
  rw [yields_bind, yields_arena]
  simp only []
  split
  · rw [yields_bind, yields_dropLocality]
    refine yields_pure.mpr ?_
    rw [State.depth_congr State.frame_dropLocality.stack, hChecked]
  · exact yields_pure.mpr hChecked

theorem yields_popCallArgs (hDepth : s.depth = n + (c.argCount + 1)) :
    Yields (popCallArgs index c info s) σ fun r _ => r.2.depth = n := by
  have hArgs : s.depth = n + 1 + c.argCount := by omega
  unfold popCallArgs
  refine (yields_popArgs c.argCount [] hArgs).bind fun r τ hr => ?_
  exact (yields_popQualifier r.1 hr).bind fun q ρ hq => yields_pure.mpr hq

theorem yields_usualResult {Q : ValueId → Session → Prop} (hQ : ∀ v τ, Q v τ) :
    Yields (usualResult ctx c info args s) σ Q := by
  unfold usualResult
  rw [yields_bind, yields_arena]
  split
  · exact yields_pure.mpr (hQ _ σ)
  · exact yields_intern.mpr (hQ _ _)
  · exact yields_intern.mpr (hQ _ _)

/-- Every state that splits off has the stack that the call has left. -/
def Expansion.HasDepth (depth : Nat) (e : Expansion) : Prop :=
  (∀ r ∈ e.finished, r.1.depth = depth) ∧ ∀ s ∈ e.live, s.depth = depth

theorem yields_splitByConditions (conditions : List ContractCondition) {left : List State}
    (hDepth : s.depth = n) (hLeft : ∀ t ∈ left, t.depth = n) :
    Yields (splitByConditions args conditions s left) σ fun r _ =>
      (∀ t ∈ r.1, t.depth = n) ∧ ∀ t ∈ r.2, t.depth = n := by
  induction conditions generalizing s left σ with
  | nil =>
    refine yields_pure.mpr ⟨?_, hLeft⟩
    intro t ht
    cases ht
    exact hDepth
  | cons condition conditions ih =>
    have hApplied : ∀ (a : Arena) (c : Condition), (s.apply a c).state.depth = n := by
      intro a c
      rw [State.depth_congr State.frame_apply.stack, hDepth]
    have hGrown : ∀ (a : Arena) (c : Condition) (b : Bool),
        ∀ t ∈ (if b then left ++ [(s.apply a c).state] else left), t.depth = n := by
      intro a c b t ht
      split at ht
      · rcases List.mem_append.mp ht with ht | ht
        · exact hLeft t ht
        · rw [List.mem_singleton] at ht
          rw [ht]
          exact hApplied a c
      · exact hLeft t ht
    unfold splitByConditions contractCondition
    simp only [yields_bind, yields_intern, yields_condition, yields_arena]
    split
    · exact ih (hApplied _ _) (hGrown _ _ _)
    · refine yields_pure.mpr ⟨?_, hGrown _ _ _⟩
      intro t ht
      cases ht

theorem yields_applyContract (contract : Contract) (states : List State) {e : Expansion}
    (hStates : ∀ t ∈ states, t.depth = n) (hExpansion : e.HasDepth n) :
    Yields (applyContract args contract states e) σ fun e _ => e.HasDepth n := by
  induction states generalizing e σ with
  | nil => exact yields_pure.mpr hExpansion
  | cons t states ih =>
    have hRest : ∀ t ∈ states, t.depth = n := fun t ht => hStates t (List.mem_cons_of_mem _ ht)
    unfold applyContract
    refine (yields_splitByConditions contract.conditions (hStates t List.mem_cons_self)
      hExpansion.2).bind fun r τ hr => ?_
    obtain ⟨holding, left⟩ := r
    obtain ⟨hHolding, hLeft⟩ := hr
    cases holding with
    | none =>
      exact yields_bind.mpr (yields_pure.mpr (ih hRest ⟨hExpansion.1, hLeft⟩))
    | some u =>
      simp only [finish, contractResult?, yields_bind, yields_modifyGet]
      split
      · refine yields_pure.mpr (ih hRest ⟨?_, hLeft⟩)
        intro r hr
        rcases List.mem_append.mp hr with hr | hr
        · exact hExpansion.1 r hr
        · rw [List.mem_singleton] at hr
          rw [hr]
          exact hHolding u rfl
      · exact yields_pure.mpr (ih hRest ⟨hExpansion.1, hLeft⟩)

theorem yields_applyContracts (limit : Nat) (contracts : List Contract) {e : Expansion}
    (hExpansion : e.HasDepth n) :
    Yields (applyContracts args limit contracts e) σ fun r _ => ∀ e ∈ r, e.HasDepth n := by
  induction contracts generalizing e σ with
  | nil =>
    refine yields_pure.mpr ?_
    intro e' he
    cases he
    exact hExpansion
  | cons contract contracts ih =>
    unfold applyContracts
    have hStart : Expansion.HasDepth n { e with live := [] } := ⟨hExpansion.1, by simp⟩
    refine (yields_applyContract contract e.live hExpansion.2 hStart).bind fun e' τ he => ?_
    split
    · refine yields_pure.mpr ?_
      intro e'' he
      cases he
    · exact ih he

theorem yields_expand (usual : ValueId) (hDepth : s.depth = n) :
    Yields (expand ctx index info args usual s) σ fun rs _ => ∀ r ∈ rs, r.1.depth = n := by
  have hUsual : ∀ r ∈ [(s, usual)], r.1.depth = n := by
    intro r hr
    rw [List.mem_singleton] at hr
    rw [hr]
    exact hDepth
  unfold expand
  rw [yields_bind, yields_arena]
  split
  · exact yields_pure.mpr hUsual
  · have hStart : Expansion.HasDepth n ⟨[], [s]⟩ := by
      refine ⟨by simp, ?_⟩
      intro t ht
      rw [List.mem_singleton] at ht
      rw [ht]
      exact hDepth
    refine (yields_applyContracts _ _ hStart).bind fun r τ hr => ?_
    split
    · rename_i e
      refine yields_pure.mpr ?_
      intro r hMem
      rcases List.mem_append.mp (List.mem_eraseDups.mp hMem) with hMem | hMem
      · exact (hr e rfl).1 r hMem
      · obtain ⟨t, ht, rfl⟩ := List.mem_map.mp hMem
        exact (hr e rfl).2 t ht
    · exact yields_bind.mpr (yields_log.mpr (yields_pure.mpr hUsual))

theorem yields_mapM_returnFrom (results : List (State × ValueId))
    (hResults : ∀ r ∈ results, r.1.depth = n) :
    Yields (results.mapM (returnFrom index anchor args)) σ fun items _ =>
      AllAt (index + 1) (n + 1) items := by
  refine (yields_mapM_returnFrom_eq results).mono ?_
  rintro items τ ⟨-, rfl⟩ it hit
  obtain ⟨r, hr, rfl⟩ := List.mem_map.mp hit
  refine ⟨rfl, ?_⟩
  show State.depth (State.push _ _) = n + 1
  rw [State.depth_push, State.depth_congr frame_flushAfterCall.stack, hResults r hr]

theorem yields_call (hDepth : s.depth = n + (c.argCount + 1)) :
    Yields (call ctx index c s) σ fun items _ => AllAt (index + 1) (n + 1) items := by
  unfold call
  simp only []
  refine (yields_popCallArgs hDepth).bind fun r τ hr => ?_
  rw [yields_bind]
  refine yields_usualResult fun usual ρ => ?_
  exact (yields_expand usual hr).bind fun results ϕ hResults =>
    yields_mapM_returnFrom results hResults

end Calls

-- ---------------------------------------------------------------------------
-- All instructions
-- ---------------------------------------------------------------------------

/-- **Every item takes an edge**: a state that has the values an instruction takes
performs it without a fault, and goes on where the flow says, with the stack depth that
the flow says. An `ensure` must find a value as well. -/
theorem yields_perform (hHandler : ctx.handler = .usual) {i : Instr} (hPops : i.pops ≤ s.depth)
    (hEnsure : i.isEnsure = true → s.stack ≠ []) :
    Yields (perform ctx index s i) σ fun items _ => Leads index s.depth i items := by
  obtain ⟨n, hDepth⟩ : ∃ n, s.depth = n + i.pops := ⟨s.depth - i.pops, by omega⟩
  -- what pushes one value and goes on to the next instruction
  have hPushed : i.pushes = 1 → index + 1 ∈ i.successors index → ∀ items : List Item,
      AllAt (index + 1) (n + 1) items → Leads index s.depth i items := by
    intro hPushes hNext items hItems
    exact hItems.leads hNext (by omega)
  -- what leaves the stack alone and goes on to the next instruction
  have hKept : i.pops = 0 → i.pushes = 0 → index + 1 ∈ i.successors index → ∀ t : State,
      t.stack = s.stack → Leads index s.depth i [next index t] := by
    intro hPops hPushes hNext t ht
    exact leads_next hNext (by rw [State.depth_congr ht, hPops, hPushes]; rfl)
  have hSelf : ∀ j : Nat, j ∈ [j] := List.mem_singleton_self
  rw [perform.eq_def]
  cases i with
  | push v anchor =>
    rw [yields_bind, yields_pushResult, yields_pure]
    exact hPushed rfl (hSelf _) _ (allAt_next_push v hDepth)
  | pop =>
    rw [yields_bind]
    refine yields_pop hDepth fun v vs _ hLength => yields_pure.mpr ?_
    refine leads_next (hSelf _) ?_
    show s.depth - 1 + 0 = vs.length
    rw [hDepth, hLength]
    rfl
  | dup =>
    rw [yields_bind]
    refine yields_peek hDepth fun v _ => yields_pure.mpr ?_
    refine leads_next (hSelf _) ?_
    show s.depth - 1 + 2 = s.depth + 1
    rw [hDepth]
    rfl
  | goto target =>
    refine yields_pure.mpr ?_
    exact (allAt_singleton rfl).leads (hSelf target) rfl
  | branch target negated anchor => rw [hDepth]; exact yields_branch hDepth
  | not anchor => exact (yields_not hDepth).mono fun items τ => hPushed rfl (hSelf _) items
  | ret => exact yields_pure.mpr leads_nil
  | endOfInitializer isStatic =>
    rw [yields_bind, yields_emit, yields_pure]
    exact hKept rfl rfl (hSelf _) s rfl
  | boolean op anchor =>
    exact (yields_boolean hDepth).mono fun items τ => hPushed rfl (hSelf _) items
  | arithmetic op w =>
    exact (yields_arithmetic hDepth).mono fun items τ => hPushed rfl (hSelf _) items
  | negate w => exact (yields_negate hDepth).mono fun items τ => hPushed rfl (hSelf _) items
  | concat => exact (yields_concat hDepth).mono fun items τ => hPushed rfl (hSelf _) items
  | assign assigned isInitializer array anchor =>
    exact (yields_assign hDepth).mono fun items τ => hPushed rfl (hSelf _) items
  | flushVariable v =>
    rw [yields_bind, yields_arena, yields_pure]
    exact hKept rfl rfl (hSelf _) _ State.frame_flushVariable.stack
  | flushFields =>
    rw [yields_bind, yields_arena, yields_pure]
    exact hKept rfl rfl (hSelf _) _ State.frame_flushFields.stack
  | escape vs =>
    exact (yields_escape vs).bind fun t τ ht => yields_pure.mpr (hKept rfl rfl (hSelf _) t ht)
  | call c => exact (yields_call hDepth).mono fun items τ => hPushed rfl (hSelf _) items
  | methodRef method interface anchor =>
    exact (yields_methodRef hDepth).mono fun items τ => hPushed rfl (hSelf _) items
  | closure ids =>
    rw [yields_bind, yields_record, yields_pure]
    exact hKept rfl rfl (hSelf _) s rfl
  | transfer t => exact yields_pure.mpr (leads_dispatch hHandler rfl s false)
  | newArray t => exact (yields_newArray hDepth).mono fun items τ => hPushed rfl (hSelf _) items
  | arrayAccess fallback outOfBounds anchor => rw [hDepth]; exact yields_arrayAccess hHandler hDepth
  | length l => exact (yields_length hDepth).mono fun items τ => hPushed rfl (hSelf _) items
  | cast t convertible onFail anchor => rw [hDepth]; exact yields_cast hHandler hDepth
  | instanceOf isClassObject anchor =>
    exact (yields_instanceOf hDepth).mono fun items τ => hPushed rfl (hSelf _) items
  | checkNotNull kind onNull anchor => rw [hDepth]; exact yields_checkNotNull hHandler hDepth
  | ensure rel expected onFail makeEphemeral anchor =>
    have hStack : s.stack ≠ [] := hEnsure rfl
    obtain ⟨m, hm⟩ := Nat.exists_eq_succ_of_ne_zero (mt List.length_eq_zero_iff.mp hStack)
    have hValue : s.depth = m + 1 := hm
    rw [hValue]
    exact yields_ensure hHandler hValue

end Step

end Pathwise
