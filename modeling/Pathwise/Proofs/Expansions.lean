import Pathwise.Proofs.Edges
import Pathwise.Proofs.Throughout

/-!
# The expansion of contracts is bounded

A contract may make several states of each one that is left by the contracts before it: one for
each of its conditions, and one that has its result. Those with a result add up. So the number of
states is looked at after each contract, and once it exceeds the limit, the contracts are taken
back altogether: the call goes on with the one state that its arguments were taken from.

What contracts make if there is no limit is said by `applyUnlimited`. The limit either does not
show, or there are too many states after some contract (`Exceeds`).

## Results

* `Fails`                    — steps that find a fault.
* `yields_applyContracts_or` — the limit is exceeded after some contract, or all are applied.
* `yields_expand_exact`      — the states of a call with their results.
* `call_fails`               — calls that find too few values.
* `call_bounded`             — **the number of successors of a call**.
-/

namespace Pathwise.Step

section Sequences

variable {α β : Type} {m : Step α} {f : α → Step β} {σ : Session} {P : α → Session → Prop}
  {e : FlowError}

/-- The step finds the fault from a session. -/
def Fails (m : Step α) (σ : Session) (e : FlowError) : Prop := ∃ τ, m σ = .error e τ

/-- Nothing is done after a fault. -/
theorem Fails.bind (h : Fails m σ e) : Fails (m >>= f) σ e := by
  obtain ⟨τ, hm⟩ := h
  exact ⟨τ, by rw [bind_eq, hm]⟩

theorem Yields.bind_fails (hm : Yields m σ P) (hf : ∀ x τ, P x τ → Fails (f x) τ e) :
    Fails (m >>= f) σ e := by
  obtain ⟨x, τ, hRun, hx⟩ := hm
  obtain ⟨υ, hFault⟩ := hf x τ hx
  refine ⟨υ, ?_⟩
  rw [bind_eq, hRun]
  exact hFault

end Sequences

variable {ctx : Context} {index limit k : Nat} {c : Call} {info : MethodInfo} {args : CallArgs}
  {contract : Contract} {cs : List Contract} {e : Expansion} {usual : ValueId} {s : State}
  {σ : Session}

-- ---------------------------------------------------------------------------
-- Expansion without a limit
-- ---------------------------------------------------------------------------

/-- The number of states of an expansion. -/
def Expansion.size (e : Expansion) : Nat := e.live.length + e.finished.length

/-- The states of a call with their results. No state stands twice with the same result. -/
def Expansion.results (e : Expansion) (usual : ValueId) : List (State × ValueId) :=
  (e.finished ++ e.live.map (·, usual)).eraseDups

theorem length_eraseDups_le {α : Type} [BEq α] :
    (l : List α) → l.eraseDups.length ≤ l.length
  | [] => Nat.le_refl 0
  | x :: l => by
    have hFilter : (l.filter fun y => !y == x).length ≤ l.length := List.length_filter_le ..
    have hRest := length_eraseDups_le (l.filter fun y => !y == x)
    rw [List.eraseDups_cons, List.length_cons, List.length_cons]
    omega
termination_by l => l.length
decreasing_by
  rw [List.length_cons]
  omega

theorem Expansion.length_results : (e.results usual).length ≤ e.size := by
  have hErased := length_eraseDups_le (e.finished ++ e.live.map (·, usual))
  rw [List.length_append, List.length_map] at hErased
  unfold results size
  omega

/-- **Applies contracts one after the other**, however many states they make. -/
def applyUnlimited (args : CallArgs) : List Contract → Expansion → Step Expansion
  | [], e => return e
  | c :: cs, e => do
    let e ← applyContract args c e.live { e with live := [] }
    applyUnlimited args cs e

/-- **There are more states than allowed** after some contract, with and without a result. -/
def Exceeds (args : CallArgs) (limit : Nat) (cs : List Contract) (e : Expansion) (σ : Session) :
    Prop :=
  ∃ before c after, cs = before ++ c :: after ∧
    Yields (applyUnlimited args (before ++ [c]) e) σ fun e' _ => limit < e'.size

theorem not_exceeds_nil : ¬ Exceeds args limit [] e σ := by
  rintro ⟨before, c, after, hSplit, -⟩
  simp at hSplit

/-- The contract after which there are too many states is the first one or a later one. -/
theorem exceeds_cons : Exceeds args limit (contract :: cs) e σ ↔
    Yields (applyContract args contract e.live { e with live := [] }) σ fun e' τ =>
      limit < e'.size ∨ Exceeds args limit cs e' τ := by
  constructor
  · rintro ⟨before, c, after, hSplit, hMany⟩
    cases before with
    | nil =>
      obtain ⟨rfl, rfl⟩ := List.cons.inj hSplit
      refine (yields_bind.mp hMany).mono fun e' τ h => Or.inl ?_
      exact yields_pure.mp h
    | cons b before =>
      obtain ⟨rfl, rfl⟩ := List.cons.inj hSplit
      refine (yields_bind.mp hMany).mono fun e' τ h => Or.inr ?_
      exact ⟨before, c, after, rfl, h⟩
  · rintro ⟨e', τ, hRun, hMany | ⟨before, c, after, rfl, hMany⟩⟩
    · exact ⟨[], contract, cs, rfl, yields_bind.mpr ⟨e', τ, hRun, yields_pure.mpr hMany⟩⟩
    · exact ⟨contract :: before, c, after, rfl, yields_bind.mpr ⟨e', τ, hRun, hMany⟩⟩

/-- Nothing has to hold for a call to do its work. -/
theorem callInvariant_true : CallInvariant (fun _ => True) fun _ _ => True :=
  ⟨fun _ _ _ => trivial, fun _ _ => trivial, fun _ => trivial, fun _ _ _ => trivial,
    fun _ => trivial, fun _ _ _ _ => trivial, fun _ => trivial⟩

/-- No contract finds a fault. -/
theorem yields_applyContract_true (states : List State) :
    Yields (applyContract args contract states e) σ fun _ _ => True :=
  (yields_applyContract_kept callInvariant_true ⟨fun _ _ _ _ => trivial, fun _ _ => trivial⟩ states
    (fun _ _ => trivial) ⟨fun _ _ => trivial, fun _ _ => trivial⟩).mono fun _ _ _ => trivial

/-- **The limit is exceeded** after some contract, or it does not show and is kept in the end,
unless there is no contract. -/
theorem yields_applyContracts_or :
    Yields (applyContracts args limit cs e) σ fun r τ =>
      match r with
      | none => Exceeds args limit cs e σ
      | some e' => ¬ Exceeds args limit cs e σ ∧ applyUnlimited args cs e σ = .ok e' τ ∧
          (cs = [] ∧ e' = e ∨ e'.size ≤ limit) := by
  induction cs generalizing e σ with
  | nil => exact yields_pure.mpr ⟨not_exceeds_nil, rfl, Or.inl ⟨rfl, rfl⟩⟩
  | cons c cs ih =>
    obtain ⟨e', τ, hRun, -⟩ : Yields (applyContract args c e.live { e with live := [] }) σ
        fun _ _ => True := yields_applyContract_true e.live
    have hExceeds : Exceeds args limit (c :: cs) e σ ↔
        limit < e'.size ∨ Exceeds args limit cs e' τ := by
      rw [exceeds_cons]
      exact ⟨fun h => h.of_ok hRun, fun h => ⟨e', τ, hRun, h⟩⟩
    have hAll : applyUnlimited args (c :: cs) e σ = applyUnlimited args cs e' τ := by
      rw [applyUnlimited, bind_eq, hRun]
    unfold applyContracts
    refine yields_bind.mpr ⟨e', τ, hRun, ?_⟩
    dsimp only
    split
    · rename_i hMany
      exact yields_pure.mpr (hExceeds.mpr (Or.inl hMany))
    · rename_i hFew
      refine ih.mono ?_
      intro r υ h
      cases r with
      | none => exact hExceeds.mpr (Or.inr h)
      | some e'' =>
        obtain ⟨hNot, hEnd, hKept⟩ := h
        refine ⟨mt hExceeds.mp (not_or.mpr ⟨hFew, hNot⟩), hAll.trans hEnd, Or.inr ?_⟩
        rcases hKept with ⟨-, rfl⟩ | hKept
        · exact Nat.le_of_not_lt hFew
        · exact hKept

/-- **The states of a call with their results.** -/
theorem yields_expand_exact :
    Yields (expand ctx index info args usual s) σ fun rs τ =>
      rs = [(s, usual)] ∧ ((σ.arena.inherent usual).isConstant = true ∨
        Exceeds args ctx.config.contractLimit info.contracts ⟨[], [s]⟩ σ) ∨
      ¬ Exceeds args ctx.config.contractLimit info.contracts ⟨[], [s]⟩ σ ∧
        ∃ e, applyUnlimited args info.contracts ⟨[], [s]⟩ σ = .ok e τ ∧ rs = e.results usual ∧
          e.size ≤ max 1 ctx.config.contractLimit := by
  unfold expand
  rw [yields_bind, yields_arena]
  split
  · rename_i hConstant
    exact yields_pure.mpr (Or.inl ⟨rfl, Or.inl hConstant⟩)
  · refine yields_applyContracts_or.bind ?_
    intro r τ hr
    cases r with
    | none =>
      exact yields_bind.mpr (yields_log.mpr (yields_pure.mpr (Or.inl ⟨rfl, Or.inr hr⟩)))
    | some e =>
      obtain ⟨hNot, hAll, hKept⟩ := hr
      refine yields_pure.mpr (Or.inr ⟨hNot, e, hAll, rfl, ?_⟩)
      rcases hKept with ⟨-, rfl⟩ | hKept
      · exact Nat.le_max_left 1 _
      · exact Nat.le_trans hKept (Nat.le_max_right 1 _)

-- ---------------------------------------------------------------------------
-- Calls
-- ---------------------------------------------------------------------------

/-- A value is taken from no empty stack. -/
theorem fails_pop (hDepth : s.depth = 0) : Fails (pop index s) σ (.stackUnderflow index) := by
  have hPop : s.pop? = none := by
    rw [State.pop?, List.length_eq_zero_iff.mp hDepth]
  refine ⟨σ, ?_⟩
  rw [pop, hPop]
  rfl

/-- The arguments are taken one by one, until the stack is empty. -/
theorem fails_popArgs (l : List ValueId) (h : s.depth < k) :
    Fails (popArgs index c info k s l) σ (.stackUnderflow index) := by
  induction k generalizing s l σ with
  | zero => omega
  | succ k ih =>
    unfold popArgs
    by_cases hEmpty : s.depth = 0
    · unfold popArg
      exact (fails_pop hEmpty).bind.bind
    · have hDepth : s.depth = (s.depth - 1) + 1 := by omega
      refine (yields_popArg k hDepth).bind_fails ?_
      intro r τ hr
      exact ih (r.1 :: l) (by omega)

/-- **A call fails** that finds less than its arguments and its qualifier. -/
theorem call_fails (h : s.depth ≤ c.argCount) :
    Fails (call ctx index c s) σ (.stackUnderflow index) := by
  unfold call popCallArgs
  refine Fails.bind ?_
  by_cases hArgs : s.depth < c.argCount
  · exact (fails_popArgs [] hArgs).bind
  · refine (yields_popArgs (n := 0) c.argCount [] (by omega)).bind_fails ?_
    intro r τ hr
    unfold popQualifier
    exact (fails_pop hr).bind.bind

/-- **The successors of a call** are the states of its expansion, after each has forgotten what the
call may change. -/
theorem yields_call_results {rest : State} {τ₁ τ₂ : Session}
    (hInfo : (c.method.bind ctx.metadata.info?).getD .unknown = info)
    (hTaken : popCallArgs index c info s σ = .ok (args, rest) τ₁)
    (hUsual : usualResult ctx c info args rest τ₁ = .ok usual τ₂) :
    Yields (call ctx index c s) σ fun items τ => ∃ results : List (State × ValueId),
      items = results.map (fun r => next index ((flushAfterCall τ.arena args r.1).push r.2)) ∧
      results.length ≤ max 1 ctx.config.contractLimit ∧
      (Exceeds args ctx.config.contractLimit info.contracts ⟨[], [rest]⟩ τ₂ →
        results = [(rest, usual)]) := by
  have hExpand : Yields (expand ctx index info args usual rest) τ₂ fun results _ =>
      results.length ≤ max 1 ctx.config.contractLimit ∧
        (Exceeds args ctx.config.contractLimit info.contracts ⟨[], [rest]⟩ τ₂ →
          results = [(rest, usual)]) := by
    refine yields_expand_exact.mono ?_
    intro results τ hResults
    rcases hResults with ⟨rfl, -⟩ | ⟨hNot, e, -, rfl, hKept⟩
    · exact ⟨Nat.le_max_left 1 _, fun _ => rfl⟩
    · exact ⟨Nat.le_trans Expansion.length_results hKept, fun h => absurd h hNot⟩
  unfold call
  rw [hInfo]
  refine yields_bind.mpr ⟨_, τ₁, hTaken, yields_bind.mpr ⟨_, τ₂, hUsual, ?_⟩⟩
  refine hExpand.bind ?_
  intro results τ hResults
  refine (yields_mapM_returnFrom_eq results).mono ?_
  intro items υ hReturned
  obtain ⟨hArena, hItems⟩ := hReturned
  exact ⟨results, by rw [hArena, hItems], hResults⟩

/-- **The number of successors of a call is bounded**, for every state, call and list of contracts,
and for every limit. A call that finds its arguments and its qualifier on the stack returns, with

* at most as many successors as the limit allows, or one, all at the next instruction;
* one if the states exceed the limit after some contract: the state that the arguments were taken
  from has forgotten what the call may change, and has the usual result. -/
theorem call_bounded (ctx : Context) (index : Nat) (c : Call) (s : State) (σ : Session) :
    let info := (c.method.bind ctx.metadata.info?).getD .unknown
    let limit := ctx.config.contractLimit
    if s.depth ≤ c.argCount then Fails (call ctx index c s) σ (.stackUnderflow index)
    else
      ∃ args rest usual items τ₁ τ₂ τ,
        popCallArgs index c info s σ = .ok (args, rest) τ₁ ∧
        usualResult ctx c info args rest τ₁ = .ok usual τ₂ ∧
        call ctx index c s σ = .ok items τ ∧
        items.length ≤ max 1 limit ∧ (∀ it ∈ items, it.index = index + 1) ∧
        (Exceeds args limit info.contracts ⟨[], [rest]⟩ τ₂ →
          items = [⟨index + 1, (flushAfterCall τ.arena args rest).push usual, 0⟩]) := by
  intro info limit
  by_cases hFew : s.depth ≤ c.argCount
  · rw [if_pos hFew]
    exact call_fails hFew
  · rw [if_neg hFew]
    obtain ⟨n, hDepth⟩ : ∃ n, s.depth = n + (c.argCount + 1) :=
      ⟨s.depth - (c.argCount + 1), by omega⟩
    obtain ⟨⟨args, rest⟩, τ₁, hTaken, -⟩ : Yields (popCallArgs index c info s) σ _ :=
      yields_popCallArgs hDepth
    obtain ⟨usual, τ₂, hUsual, -⟩ : Yields (usualResult ctx c info args rest) τ₁
        fun _ _ => True := yields_usualResult fun _ _ => trivial
    obtain ⟨items, τ, hCall, results, hItems, hLength, hOne⟩ :=
      yields_call_results rfl hTaken hUsual
    refine ⟨args, rest, usual, items, τ₁, τ₂, τ, hTaken, hUsual, hCall, ?_, ?_, ?_⟩
    · rw [hItems, List.length_map]
      exact hLength
    · intro it hit
      rw [hItems] at hit
      obtain ⟨r, -, rfl⟩ := List.mem_map.mp hit
      rfl
    · intro hExceeds
      rw [hItems, hOne hExceeds]
      rfl

/-- A method that tells whether its argument is null, by a contract for each answer. -/
def nullCheck : MethodInfo :=
  { MethodInfo.unknown with
    mutation := .pure
    contracts :=
      [⟨[.argIsNull 0], .value (.ofBool false)⟩, ⟨[.argNotNull 0], .value (.ofBool true)⟩] }

/-- The usual configuration with a limit, and with the one method. -/
def nullCheckContext (limit : Nat) : Context :=
  ⟨{ Config.usual with contractLimit := limit }, .ofTables [(0, nullCheck)] [], .usual⟩

/-- A call of the method. -/
def nullCheckCall : Call := ⟨some 0, 1, some (.primitive "boolean"), false, none⟩

/-- A parameter of which nothing is known. -/
def reference : Arena := (Arena.new.var (.parameter "p" 0) none .unknownRef).2

/-- The parameter is the argument. -/
def beforeCheck : State := (State.initial.push 0).push 1

/-- The results on the stack after the call. -/
def checked (limit : Nat) : Option (List (Option ValueId)) :=
  match call (nullCheckContext limit) 0 nullCheckCall beforeCheck (.start reference) with
  | .ok items _ => some (items.map (·.state.peek?))
  | .error _ _ => none

/-- What the call takes from the stack, and its usual result. -/
theorem taken_nullCheck :
    popCallArgs 0 nullCheckCall nullCheck beforeCheck (.start reference) =
        .ok (⟨0, [1], .pure⟩, .initial) (.start reference) ∧
      usualResult (nullCheckContext 1) nullCheckCall nullCheck ⟨0, [1], .pure⟩ .initial
        (.start reference) = .ok 2 (.start (reference.typed (.bool none)).2) := by
  exact ⟨by with_unfolding_all rfl, by with_unfolding_all rfl⟩

/-- The first contract makes two states, one with its result. -/
theorem exceeds_nullCheck :
    Exceeds ⟨0, [1], .pure⟩ 1 nullCheck.contracts ⟨[], [.initial]⟩
      (.start (reference.typed (.bool none)).2) := by
  refine ⟨[], _, _, rfl, ?_⟩
  have hSize : (match applyUnlimited ⟨0, [1], .pure⟩ [⟨[.argIsNull 0], .value (.ofBool false)⟩]
      ⟨[], [.initial]⟩ (.start (reference.typed (.bool none)).2) with
    | .ok e _ => e.size
    | .error _ _ => 0) = 2 := by decide +kernel
  rw [List.nil_append]
  cases hRun : applyUnlimited ⟨0, [1], .pure⟩ [⟨[.argIsNull 0], .value (.ofBool false)⟩]
      ⟨[], [.initial]⟩ (.start (reference.typed (.bool none)).2) with
  | error e τ =>
    rw [hRun] at hSize
    cases hSize
  | ok e τ =>
    rw [hRun] at hSize
    have hTwo : e.size = 2 := hSize
    exact ⟨e, τ, hRun, by omega⟩

/-- With a limit of one the call has its usual result and nothing is known of the argument. With a
limit of two it has both results. -/
theorem call_bounded_nullCheck :
    Exceeds ⟨0, [1], .pure⟩ 1 nullCheck.contracts ⟨[], [.initial]⟩
        (.start (reference.typed (.bool none)).2) ∧
      (∃ τ, call (nullCheckContext 1) 0 nullCheckCall beforeCheck (.start reference) =
        .ok [⟨1, State.initial.push 2, 0⟩] τ) ∧
      checked 2 = some [some 4, some 5] := by
  refine ⟨exceeds_nullCheck, ?_, by decide +kernel⟩
  have hBounded := call_bounded (nullCheckContext 1) 0 nullCheckCall beforeCheck (.start reference)
  have hInfo : (nullCheckCall.method.bind (nullCheckContext 1).metadata.info?).getD .unknown =
      nullCheck := rfl
  dsimp only at hBounded
  rw [hInfo, if_neg (by decide)] at hBounded
  obtain ⟨args, rest, usual, items, τ₁, τ₂, τ, hTaken, hUsual, hCall, -, -, hOne⟩ := hBounded
  rw [taken_nullCheck.1] at hTaken
  cases hTaken
  rw [taken_nullCheck.2] at hUsual
  cases hUsual
  rw [hOne exceeds_nullCheck] at hCall
  exact ⟨τ, hCall⟩

end Pathwise.Step
