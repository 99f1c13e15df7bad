import Pathwise.Proofs.Interning
import Pathwise.Proofs.Recording

/-!
# What is kept throughout a call

A call takes its operands from the stack, asks for values, and narrows states by the conditions
of contracts, any number of them. What each of these operations keeps is kept by all that the
call does before it forgets what it may have changed. Nothing but the stack can stop a call, so
this is said of the calls that return: `Step.Ensures m σ Q` says that what the step `m` returns
from `σ` satisfies `Q`, if it returns.

A value that is given to the call stays what it is if it is a variable. Any other value may be
replaced.

## Results

* `Step.Ensures`      — what a step returns, if it does.
* `CallInvariant`     — a property of arenas and states that a call keeps.
* `ensures_popCallArgs` — what is given to a call.
* `ensures_call`      — where the successors of a call come from.
-/

namespace Pathwise

-- ---------------------------------------------------------------------------
-- What is passed on
-- ---------------------------------------------------------------------------

namespace Arena

variable {a b : Arena} {s : State} {u v w : ValueId}

/-- What stands for a value that is given to a call: the value itself, unless it is no variable. -/
def Passes (a : Arena) (v w : ValueId) : Prop := w = v ∨ v < a.size ∧ a.isVariable v = false

theorem Passes.part (h : a.Passes v w) (hPart : a.Part b) : b.Passes v w := by
  refine h.imp id fun hConstant => ?_
  refine ⟨Nat.lt_of_lt_of_le hConstant.1 hPart.size, ?_⟩
  rw [hPart.isVariable hConstant.1]
  exact hConstant.2

/-- A variable is passed on as it is. -/
theorem Passes.eq (h : a.Passes v w) (hv : a.isVariable v = true) : w = v := by
  rcases h with hSame | ⟨-, hNone⟩
  · exact hSame
  · rw [hNone] at hv
    cases hv

/-- What takes the place of a value that escapes is no variable. -/
theorem grows_dropLocality : a.Grows (s.dropLocality a v).2.2 := by
  unfold State.dropLocality
  split
  · exact .refl a
  · split
    · exact grows_typed
    · exact .refl a
  · split
    · exact grows_intern nofun
    · exact .refl a
  · exact .refl a

/-- A value that escapes is replaced only if it is no variable. -/
theorem passes_dropLocality : (s.dropLocality a v).2.2.Passes v (s.dropLocality a v).2.1 := by
  have hReplaced : ∀ {x}, a.get v = x → x ≠ .unknown → (∀ y, x ≠ .var y) →
      ∀ {b w}, a.Part b → b.Passes v w := by
    intro x hGet hUnknown hVar b w hPart
    refine Passes.part (Or.inr ⟨lt_size_of_get (hGet ▸ hUnknown), ?_⟩) hPart
    refine Bool.eq_false_iff.mpr fun hVariable => ?_
    obtain ⟨y, hy⟩ := isVariable_iff.mp hVariable
    exact hVar y (hGet.symm.trans hy)
  have hPart := (grows_dropLocality (a := a) (s := s) (v := v)).part
  unfold State.dropLocality at hPart ⊢
  cases hGet : a.get v with
  | var x => exact Or.inl rfl
  | typed f =>
    rw [hGet] at hPart
    exact hReplaced hGet (by simp) (by simp) hPart
  | wrapped l i f =>
    rw [hGet] at hPart
    exact hReplaced hGet (by simp) (by simp) hPart
  | unknown => exact Or.inl rfl

end Arena

namespace Step

open State

-- ---------------------------------------------------------------------------
-- Steps that return
-- ---------------------------------------------------------------------------

/-- What the step returns from a session and leaves satisfies `Q`, if it returns. -/
def Ensures {α : Type} (m : Step α) (σ : Session) (Q : α → Session → Prop) : Prop :=
  ∀ x τ, m σ = .ok x τ → Q x τ

section

variable {α β : Type} {m : Step α} {g : α → Step β} {σ : Session} {P : α → Session → Prop}
  {Q : β → Session → Prop} {s : State} {index : Nat}

theorem Yields.ensures (h : Yields m σ P) : Ensures m σ P := fun _ _ => h.of_ok

/-- The second step may rely on what the first has returned. -/
theorem Ensures.bind (hm : Ensures m σ P) (hg : ∀ x τ, P x τ → Ensures (g x) τ Q) :
    Ensures (m >>= g) σ Q := by
  intro y υ h
  rw [bind_eq] at h
  cases hFirst : m σ with
  | ok x τ =>
    rw [hFirst] at h
    exact hg x τ (hm x τ hFirst) y υ h
  | error e τ =>
    rw [hFirst] at h
    cases h

theorem Ensures.mono {P' : α → Session → Prop} (h : Ensures m σ P)
    (hImp : ∀ x τ, P x τ → P' x τ) : Ensures m σ P' :=
  fun x τ hx => hImp x τ (h x τ hx)

theorem ensures_pure {x : α} (h : P x σ) : Ensures (pure x : Step α) σ P :=
  Yields.ensures (yields_pure.mpr h)

/-- A value is taken from a stack that has one. -/
theorem ensures_pop :
    Ensures (pop index s) σ fun r τ => τ = σ ∧ s.stack = r.1 :: r.2.stack ∧
      r.2.facts = s.facts ∧ r.2.links = s.links := by
  intro r τ h
  unfold pop pop? at h
  cases hStack : s.stack with
  | nil =>
    rw [hStack] at h
    cases h
  | cons v vs =>
    rw [hStack] at h
    cases h
    exact ⟨rfl, rfl, rfl, rfl⟩

end

-- ---------------------------------------------------------------------------
-- Invariants
-- ---------------------------------------------------------------------------

/-- **A property of arenas and states that a call keeps** until it has returned, if the facts
that it brings in have the property `F`. -/
structure CallInvariant (F : Fact → Prop) (J : Arena → State → Prop) : Prop where
  congr    : ∀ {a s t}, J a s → t.facts = s.facts → t.links = s.links → J a t
  typed    : ∀ {a s f}, J a s → F f → J (a.typed f).2 s
  lengthOf : ∀ {a s l v}, J a s → J (a.lengthOf l v).2 s
  getter   : ∀ {a s d q f}, J a s → a.isVariable q = true → F f → J (a.var d (some q) f).2 s
  escape   : ∀ {a s v}, J a s → J (s.dropLocality a v).2.2 (s.dropLocality a v).1
  mutate   : ∀ {a b s v}, J a s → a.Part b → J b s → (s.fact a v).mutability = .unmodifiable →
    J b (s.setFact b v ((s.fact a v).withMutability .mutable))
  apply    : ∀ {a s c}, J a s → J a (s.apply a c).state

/-- The facts in a contract. -/
structure ContractFacts (F : Fact → Prop) (k : Contract) : Prop where
  constant : ∀ d ∈ k.conditions, ∀ f, d.left = .constant f ∨ d.right = .constant f → F f
  value    : ∀ f, k.result = .value f → F f

/-- The facts that a call brings in: those of its contracts and on its result. -/
structure BringsIn (F : Fact → Prop) (J : Arena → State → Prop) (ctx : Context) (c : Call)
    (info : MethodInfo) : Prop where
  contracts   : ∀ k ∈ info.contracts, ContractFacts F k
  precomputed : ∀ f, info.precomputed = some f → F f
  rule        : ∀ rule args s a f, c.method.bind ctx.metadata.rule? = some rule → J a s →
    rule args s a = some (.typed f) → F f
  returned    : ∀ t, c.returnType = some t → F (declaredResult c info t)
  getter      : ∀ t, c.returnType = some t → F (.ofType t (info.returnNullness.getD .unknown))
  top         : F .top

/-- An arena that goes on from another one, and so do the states of that one. -/
structure Onward (J : Arena → State → Prop) (a b : Arena) : Prop where
  part   : a.Part b
  lifted : ∀ {s}, J a s → J b s

variable {F : Fact → Prop} {J : Arena → State → Prop} {a b d : Arena} {s t : State} {f : Fact}
  {u v q : ValueId} {σ τ : Session} {ctx : Context} {c : Call} {info : MethodInfo}
  {args : CallArgs} {index : Nat} {anchor : Option Anchor}

theorem Onward.refl : Onward J a a := ⟨⟨Nat.le_refl _, fun _ => rfl⟩, id⟩

theorem Onward.trans (h : Onward J a b) (h' : Onward J b d) : Onward J a d :=
  ⟨h.part.trans h'.part, fun hs => h'.lifted (h.lifted hs)⟩

theorem CallInvariant.onward_typed (h : CallInvariant F J) (hf : F f) :
    Onward J a (a.typed f).2 :=
  ⟨Arena.part_intern, fun hs => h.typed hs hf⟩

theorem CallInvariant.onward_lengthOf (h : CallInvariant F J) {l : Length} :
    Onward J a (a.lengthOf l v).2 :=
  ⟨Arena.part_lengthOf, h.lengthOf⟩

-- ---------------------------------------------------------------------------
-- Taking the operands
-- ---------------------------------------------------------------------------

/-- A modification that is not allowed is reported, and assumed to be allowed. -/
theorem yields_reported_mutable (h : CallInvariant F J) {isReceiver : Bool} (hs : J a s)
    (hOnward : Onward J a σ.arena) (hFixed : ¬ (s.fact a v).mutability.canBeModified = true) :
    Yields (do
      report (anchor.map (.mutability · isReceiver)) v .alwaysFails s
      return s.setFact (← arena) v ((s.fact a v).withMutability .mutable)) σ fun t τ =>
        a.Part τ.arena ∧ t.stack = s.stack ∧ J τ.arena t := by
  have hUnmodifiable : (s.fact a v).mutability = .unmodifiable := by
    simpa [Mutability.canBeModified] using hFixed
  have hNext := h.mutate hs hOnward.part (hOnward.lifted hs) hUnmodifiable
  simp only [yields_bind, yields_report, yields_arena, yields_pure]
  cases anchor <;> exact ⟨hOnward.part, frame_setFact.stack, hNext⟩

theorem yields_checkMutable_kept (h : CallInvariant F J) {isReceiver : Bool} (hs : J σ.arena s) :
    Yields (checkMutable anchor isReceiver v s) σ fun t τ =>
      σ.arena.Part τ.arena ∧ t.stack = s.stack ∧ J τ.arena t := by
  have hSame : σ.arena.Part σ.arena ∧ s.stack = s.stack ∧ J σ.arena s :=
    ⟨(Arena.Grows.refl _).part, rfl, hs⟩
  unfold checkMutable
  refine yields_bind.mpr (yields_fact.mpr ?_)
  split
  · exact yields_pure.mpr hSame
  · rename_i hFixed
    split
    · refine yields_bind.mpr (yields_intern.mpr (yields_bind.mpr (yields_fact.mpr ?_)))
      split
      · exact yields_pure.mpr ⟨Arena.part_lengthOf, rfl, h.lengthOf hs⟩
      · exact yields_reported_mutable h hs h.onward_lengthOf hFixed
    · exact yields_reported_mutable h hs .refl hFixed

/-- A value was taken from the stack, and something is passed on for it. -/
structure Takes (J : Arena → State → Prop) (a : Arena) (s : State) (b : Arena) (v : ValueId)
    (r : ValueId × State) : Prop where
  part   : a.Part b
  stack  : s.stack = v :: r.2.stack
  passes : b.Passes v r.1
  kept   : J b r.2

theorem Takes.escape (h : CallInvariant F J) (hr : Takes J a s b v (u, t)) (hSame : u = v) :
    Takes J a s (t.dropLocality b u).2.2 v ((t.dropLocality b u).2.1, (t.dropLocality b u).1) where
  part   := hr.part.trans Arena.grows_dropLocality.part
  stack  := hr.stack.trans (by rw [frame_dropLocality.stack])
  passes := hSame ▸ Arena.passes_dropLocality
  kept   := h.escape hr.kept

theorem Takes.checked (h : CallInvariant F J) {isReceiver : Bool}
    (hr : Takes J a s σ.arena v (u, t)) :
    Yields (checkMutable anchor isReceiver u t) σ fun t τ => Takes J a s τ.arena v (u, t) := by
  refine (yields_checkMutable_kept h hr.kept).mono fun t τ ht => ?_
  obtain ⟨hPart, hStack, hKept⟩ := ht
  exact ⟨hr.part.trans hPart, hStack ▸ hr.stack, hr.passes.part hPart, hKept⟩

/-- The value that was popped. -/
theorem ensures_pop_takes (h : CallInvariant F J) (hs : J σ.arena s) :
    Ensures (pop index s) σ fun r τ => Takes J σ.arena s τ.arena r.1 r := by
  refine ensures_pop.mono ?_
  rintro r τ ⟨rfl, hStack, hFacts, hLinks⟩
  exact ⟨(Arena.Grows.refl _).part, hStack, Or.inl rfl, h.congr hs hFacts hLinks⟩

theorem ensures_popArg (h : CallInvariant F J) (i : Nat) (hs : J σ.arena s) :
    Ensures (popArg index c info i s) σ fun r τ => ∃ v, Takes J σ.arena s τ.arena v r := by
  refine (ensures_pop_takes h hs).bind ?_
  rintro ⟨v, t⟩ τ hPopped
  refine Yields.ensures (yields_ite_bind (P := fun r υ => Takes J σ.arena s υ.arena v (r.2, r.1))
    (fun _ => yields_dropLocality.mpr (hPopped.escape h rfl)) (fun _ => yields_pure.mpr hPopped) ?_)
  rintro ⟨t, w⟩ τ hEscaped
  exact yields_ite_bind (fun _ => hEscaped.checked h) (fun _ => yields_pure.mpr hEscaped)
    fun t τ ht => yields_pure.mpr ⟨v, ht⟩

/-- What a call has taken from the stack: for each value something is passed on. -/
structure TakesAll (J : Arena → State → Prop) (a : Arena) (s : State) (n : Nat) (b : Arena)
    (ws : List ValueId) (t : State) : Prop where
  part   : a.Part b
  stack  : t.stack = s.stack.drop n
  passes : ∀ v ∈ s.stack.take n, ∃ w ∈ ws, b.Passes v w
  kept   : J b t

/-- One value after the others. -/
theorem TakesAll.cons {n : Nat} {ws : List ValueId} {r : ValueId × State}
    (hr : Takes J a s b v r) (h : TakesAll J b r.2 n d ws t) (hMem : r.1 ∈ ws) :
    TakesAll J a s (n + 1) d ws t where
  part   := hr.part.trans h.part
  stack  := by rw [h.stack, hr.stack, List.drop_succ_cons]
  passes := by
    rw [hr.stack, List.take_succ_cons]
    exact List.forall_mem_cons.mpr ⟨⟨r.1, hMem, hr.passes.part h.part⟩, h.passes⟩
  kept   := h.kept

theorem ensures_popArgs (h : CallInvariant F J) (n : Nat) (ws : List ValueId)
    (hs : J σ.arena s) :
    Ensures (popArgs index c info n s ws) σ fun r τ =>
      TakesAll J σ.arena s n τ.arena r.1 r.2 ∧ ∀ w ∈ ws, w ∈ r.1 := by
  induction n generalizing s ws σ with
  | zero => exact ensures_pure ⟨⟨(Arena.Grows.refl _).part, rfl, nofun, hs⟩, fun _ => id⟩
  | succ n ih =>
    unfold popArgs
    refine (ensures_popArg h n hs).bind ?_
    rintro ⟨w, t⟩ τ ⟨v, hTaken⟩
    refine (ih (w :: ws) hTaken.kept).mono ?_
    rintro r υ ⟨hAll, hOld⟩
    obtain ⟨hw, hws⟩ := List.forall_mem_cons.mp hOld
    exact ⟨hAll.cons hTaken hw, hws⟩

theorem ensures_popQualifier (h : CallInvariant F J) (ws : List ValueId) (hs : J σ.arena s) :
    Ensures (popQualifier index c info ws s) σ fun r τ => ∃ v, Takes J σ.arena s τ.arena v r := by
  refine (ensures_pop_takes h hs).bind ?_
  rintro ⟨v, t⟩ τ hPopped
  refine Yields.ensures (yields_ite_bind (fun _ => hPopped.checked h)
    (fun _ => yields_pure.mpr hPopped) ?_)
  intro t τ hChecked
  rw [yields_bind, yields_arena]
  dsimp only
  split
  · exact yields_bind.mpr (yields_dropLocality.mpr
      (yields_pure.mpr ⟨v, hChecked.escape h rfl⟩))
  · exact yields_pure.mpr ⟨v, hChecked⟩

/-- **What is given to a call**: the values on the stack, unless they are no variables. -/
theorem ensures_popCallArgs (h : CallInvariant F J) (hs : J σ.arena s) :
    Ensures (popCallArgs index c info s) σ fun r τ => r.1.mutation = info.mutation ∧
      TakesAll J σ.arena s (c.argCount + 1) τ.arena (r.1.qualifier :: r.1.args) r.2 := by
  refine (ensures_popArgs h c.argCount [] hs).bind ?_
  rintro ⟨ws, t⟩ τ ⟨hArgs, -⟩
  refine (ensures_popQualifier h ws hArgs.kept).bind ?_
  rintro ⟨q, u⟩ υ ⟨v, hQualifier⟩
  refine ensures_pure ⟨rfl, hArgs.part.trans hQualifier.part, ?_, ?_, hQualifier.kept⟩
  · have hStack := hQualifier.stack
    rw [hArgs.stack] at hStack
    rw [← List.drop_drop, hStack]
    rfl
  · intro m hm
    rw [List.take_add, ← hArgs.stack, hQualifier.stack, List.mem_append] at hm
    rcases hm with hm | hm
    · obtain ⟨w, hw, hPasses⟩ := hArgs.passes m hm
      exact ⟨w, List.mem_cons_of_mem _ hw, hPasses.part hQualifier.part⟩
    · rw [List.mem_singleton.mp hm]
      exact ⟨q, List.mem_cons_self, hQualifier.passes⟩

-- ---------------------------------------------------------------------------
-- The usual result
-- ---------------------------------------------------------------------------

theorem onward_declaredValue (h : CallInvariant F J) (hBrings : BringsIn F J ctx c info) :
    Onward J a (declaredValue a c info q).2 := by
  unfold declaredValue
  split
  · exact .refl
  · rename_i f _ hPrecomputed
    exact h.onward_typed (hBrings.precomputed f hPrecomputed)
  · exact h.onward_lengthOf
  · rename_i r _ _ _ hGetter
    simp only [getterResult?, Option.bind_eq_bind, Option.bind_eq_some_iff] at hGetter
    obtain ⟨d, -, hRest⟩ := hGetter
    split at hRest
    · rename_i hVariable
      cases hRest
      refine ⟨Arena.part_intern, fun hs => h.getter hs hVariable ?_⟩
      split
      · rename_i t hReturn
        exact hBrings.getter t hReturn
      · exact hBrings.top
    · cases hRest
  · rename_i t _ _ _ _ hReturn
    exact h.onward_typed (hBrings.returned t hReturn)
  · exact .refl

theorem yields_usualResult_onward (h : CallInvariant F J) (hBrings : BringsIn F J ctx c info)
    (hs : J σ.arena s) :
    Yields (usualResult ctx c info args s) σ fun _ τ => Onward J σ.arena τ.arena := by
  unfold usualResult
  rw [yields_bind, yields_arena]
  split
  · exact yields_pure.mpr .refl
  · rename_i f hRule
    obtain ⟨rule, hFound, hTyped⟩ := Option.bind_eq_some_iff.mp hRule
    exact yields_intern.mpr (h.onward_typed (hBrings.rule rule args s _ f hFound hs hTyped))
  · exact yields_intern.mpr (onward_declaredValue h hBrings)

-- ---------------------------------------------------------------------------
-- Contracts
-- ---------------------------------------------------------------------------

/-- The invariant holds of every state that splits off. -/
def Expansion.All (J : Arena → State → Prop) (a : Arena) (e : Expansion) : Prop :=
  (∀ r ∈ e.finished, J a r.1) ∧ ∀ s ∈ e.live, J a s

theorem onward_resolve (h : CallInvariant F J) {z : ContractValue}
    (hz : ∀ f, z = .constant f → F f) : Onward J a (z.resolve args a).2 := by
  cases z with
  | constant f => exact h.onward_typed (hz f rfl)
  | _ => exact .refl

theorem yields_contractCondition_onward (h : CallInvariant F J) {d : ContractCondition}
    (hd : ∀ f, d.left = .constant f ∨ d.right = .constant f → F f) :
    Yields (contractCondition args d) σ fun _ τ => Onward J σ.arena τ.arena := by
  simp only [contractCondition, yields_bind, yields_intern, yields_condition]
  exact (onward_resolve h fun f hf => hd f (Or.inl hf)).trans
    (onward_resolve h fun f hf => hd f (Or.inr hf))

theorem yields_splitByConditions_kept (h : CallInvariant F J) (ds : List ContractCondition)
    (hds : ∀ d ∈ ds, ∀ f, d.left = .constant f ∨ d.right = .constant f → F f)
    {left : List State} (hs : J σ.arena s) (hLeft : ∀ t ∈ left, J σ.arena t) :
    Yields (splitByConditions args ds s left) σ fun r τ => Onward J σ.arena τ.arena ∧
      (∀ t, r.1 = some t → J τ.arena t) ∧ ∀ t ∈ r.2, J τ.arena t := by
  induction ds generalizing s left σ with
  | nil =>
    refine yields_pure.mpr ⟨.refl, fun t ht => ?_, hLeft⟩
    cases ht
    exact hs
  | cons d ds ih =>
    obtain ⟨hd, hRest⟩ := List.forall_mem_cons.mp hds
    unfold splitByConditions
    refine (yields_contractCondition_onward h hd).bind fun cond τ hOnward => ?_
    have hNow := hOnward.lifted hs
    have hGrown : ∀ t ∈ (if (s.apply τ.arena cond.negated).feasible &&
          !left.contains (s.apply τ.arena cond.negated).state then
        left ++ [(s.apply τ.arena cond.negated).state] else left), J τ.arena t := by
      intro t ht
      split at ht
      · rcases List.mem_append.mp ht with ht | ht
        · exact hOnward.lifted (hLeft t ht)
        · rw [List.mem_singleton.mp ht]
          exact h.apply hNow
      · exact hOnward.lifted (hLeft t ht)
    rw [yields_bind, yields_arena]
    dsimp only
    split
    · refine (ih hRest (h.apply hNow) hGrown).mono ?_
      rintro r υ ⟨hNext, hStates⟩
      exact ⟨hOnward.trans hNext, hStates⟩
    · exact yields_pure.mpr ⟨hOnward, nofun, hGrown⟩

theorem yields_finish_kept (h : CallInvariant F J) {r : ContractResult}
    (hr : ∀ f, r = .value f → F f) {finished : List (State × ValueId)} (hs : J σ.arena s)
    (hFinished : ∀ p ∈ finished, J σ.arena p.1) :
    Yields (finish args r s finished) σ fun finished τ => Onward J σ.arena τ.arena ∧
      ∀ p ∈ finished, J τ.arena p.1 := by
  have hOnward : Onward J σ.arena (r.resolve? args σ.arena).2 := by
    cases r with
    | value f => exact h.onward_typed (hr f rfl)
    | _ => exact .refl
  simp only [finish, contractResult?, yields_bind, yields_modifyGet]
  split
  · refine yields_pure.mpr ⟨hOnward, fun p hp => ?_⟩
    rcases List.mem_append.mp hp with hp | hp
    · exact hOnward.lifted (hFinished p hp)
    · rw [List.mem_singleton.mp hp]
      exact hOnward.lifted hs
  · exact yields_pure.mpr ⟨hOnward, fun p hp => hOnward.lifted (hFinished p hp)⟩

theorem yields_applyContract_kept (h : CallInvariant F J) {k : Contract}
    (hk : ContractFacts F k) (states : List State) {e : Expansion}
    (hStates : ∀ t ∈ states, J σ.arena t) (he : e.All J σ.arena) :
    Yields (applyContract args k states e) σ fun e τ =>
      Onward J σ.arena τ.arena ∧ e.All J τ.arena := by
  induction states generalizing e σ with
  | nil => exact yields_pure.mpr ⟨.refl, he⟩
  | cons t states ih =>
    obtain ⟨ht, hRest⟩ := List.forall_mem_cons.mp hStates
    unfold applyContract
    refine (yields_splitByConditions_kept h k.conditions hk.constant ht he.2).bind ?_
    rintro ⟨holding, left⟩ τ ⟨hSplit, hHolding, hLeft⟩
    have hOthers : ∀ {υ : Session}, Onward J τ.arena υ.arena → ∀ {finished},
        (∀ p ∈ finished, J υ.arena p.1) → Yields (applyContract args k states ⟨finished, left⟩) υ
          fun e φ => Onward J σ.arena φ.arena ∧ e.All J φ.arena := by
      intro υ hOnward finished hFinished
      have hHere := hSplit.trans hOnward
      refine (ih (fun u hu => hHere.lifted (hRest u hu))
        ⟨hFinished, fun u hu => hOnward.lifted (hLeft u hu)⟩).mono ?_
      rintro e φ ⟨hNext, hAll⟩
      exact ⟨hHere.trans hNext, hAll⟩
    have hBefore : ∀ p ∈ e.finished, J τ.arena p.1 := fun p hp => hSplit.lifted (he.1 p hp)
    cases holding with
    | none => exact yields_bind.mpr (yields_pure.mpr (hOthers .refl hBefore))
    | some u =>
      refine (yields_finish_kept h hk.value (hHolding u rfl) hBefore).bind ?_
      rintro finished υ ⟨hOnward, hFinished⟩
      exact hOthers hOnward hFinished

theorem yields_applyContracts_kept (h : CallInvariant F J) (limit : Nat) (ks : List Contract)
    (hks : ∀ k ∈ ks, ContractFacts F k) {e : Expansion} (he : e.All J σ.arena) :
    Yields (applyContracts args limit ks e) σ fun r τ =>
      Onward J σ.arena τ.arena ∧ ∀ e, r = some e → e.All J τ.arena := by
  induction ks generalizing e σ with
  | nil =>
    refine yields_pure.mpr ⟨.refl, fun e' he' => ?_⟩
    cases he'
    exact he
  | cons k ks ih =>
    obtain ⟨hk, hRest⟩ := List.forall_mem_cons.mp hks
    unfold applyContracts
    have hStart : Expansion.All J σ.arena { e with live := [] } := ⟨he.1, by simp⟩
    refine (yields_applyContract_kept h hk e.live he.2 hStart).bind ?_
    rintro e' τ ⟨hOnward, he'⟩
    split
    · exact yields_pure.mpr ⟨hOnward, nofun⟩
    · refine (ih hRest he').mono ?_
      rintro r υ ⟨hNext, hr⟩
      exact ⟨hOnward.trans hNext, hr⟩

/-- **Contracts split a state** into states of which the invariant holds. -/
theorem yields_expand_kept (h : CallInvariant F J) (hks : ∀ k ∈ info.contracts, ContractFacts F k)
    (usual : ValueId) (hs : J σ.arena s) :
    Yields (expand ctx index info args usual s) σ fun rs τ =>
      Onward J σ.arena τ.arena ∧ ∀ r ∈ rs, J τ.arena r.1 := by
  have hUsual : ∀ {b}, J b s → ∀ r ∈ [(s, usual)], J b r.1 := by
    intro b hb r hr
    rw [List.mem_singleton.mp hr]
    exact hb
  unfold expand
  rw [yields_bind, yields_arena]
  split
  · exact yields_pure.mpr ⟨.refl, hUsual hs⟩
  · have hStart : Expansion.All J σ.arena ⟨[], [s]⟩ := by
      refine ⟨nofun, fun t ht => ?_⟩
      rw [List.mem_singleton.mp ht]
      exact hs
    refine (yields_applyContracts_kept h _ _ hks hStart).bind ?_
    rintro r τ ⟨hOnward, hr⟩
    split
    · rename_i e
      refine yields_pure.mpr ⟨hOnward, fun p hp => ?_⟩
      rcases List.mem_append.mp (List.mem_eraseDups.mp hp) with hp | hp
      · exact (hr e rfl).1 p hp
      · obtain ⟨t, ht, rfl⟩ := List.mem_map.mp hp
        exact (hr e rfl).2 t ht
    · exact yields_bind.mpr (yields_log.mpr (yields_pure.mpr ⟨hOnward, hUsual (hOnward.lifted hs)⟩))

-- ---------------------------------------------------------------------------
-- Calls
-- ---------------------------------------------------------------------------

/-- **A successor of a call**: the call has taken its operands, and after a state in which it
may return has forgotten what it may have changed. -/
structure Follows (J : Arena → State → Prop) (s : State) (c : Call) (info : MethodInfo)
    (index : Nat) (a : Arena) (it : Item) : Prop where
  next     : it.index = index + 1
  returned : ∃ args r v, it.state = (flushAfterCall a args r).push v ∧ J a r ∧
    args.mutation = info.mutation ∧
    ∀ v ∈ s.stack.take (c.argCount + 1), ∃ w ∈ args.qualifier :: args.args, a.Passes v w

theorem yields_mapM_returnFrom_of {P : Arena → Item → Prop} (results : List (State × ValueId))
    (hResults : ∀ r ∈ results, P σ.arena (next index ((flushAfterCall σ.arena args r.1).push r.2))) :
    Yields (results.mapM (returnFrom index anchor args)) σ fun items τ =>
      τ.arena = σ.arena ∧ ∀ it ∈ items, P σ.arena it := by
  refine (yields_mapM_returnFrom_eq results).mono ?_
  rintro items τ ⟨hArena, rfl⟩
  refine ⟨hArena, fun it hit => ?_⟩
  obtain ⟨r, hr, rfl⟩ := List.mem_map.mp hit
  exact hResults r hr

/-- **Where the successors of a call come from.** -/
theorem ensures_call (h : CallInvariant F J)
    (hBrings : BringsIn F J ctx c ((c.method.bind ctx.metadata.info?).getD .unknown))
    (hs : J σ.arena s) :
    Ensures (call ctx index c s) σ fun items τ => ∀ it ∈ items,
      Follows J s c ((c.method.bind ctx.metadata.info?).getD .unknown) index τ.arena it := by
  unfold call
  dsimp only
  generalize (c.method.bind ctx.metadata.info?).getD .unknown = info at hBrings ⊢
  refine (ensures_popCallArgs h hs).bind ?_
  rintro ⟨args, t⟩ τ ⟨hMutation, hTaken⟩
  refine (yields_usualResult_onward h hBrings hTaken.kept).ensures.bind fun usual υ hOnward => ?_
  refine (yields_expand_kept h hBrings.contracts usual (hOnward.lifted hTaken.kept)).ensures.bind ?_
  rintro results φ ⟨hNext, hResults⟩
  have hPart := hOnward.part.trans hNext.part
  refine (yields_mapM_returnFrom_of (P := fun a it => Follows J s c info index a it) results
    fun r hr => ⟨rfl, args, r.1, r.2, rfl, hResults r hr, hMutation, ?_⟩).ensures.mono ?_
  · intro v hv
    obtain ⟨w, hw, hPasses⟩ := hTaken.passes v hv
    exact ⟨w, hw, hPasses.part hPart⟩
  · rintro items ψ ⟨hArena, hItems⟩
    rw [hArena]
    exact hItems

end Step

end Pathwise
