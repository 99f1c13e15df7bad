import Pathwise.Proofs.Edges
import Pathwise.Proofs.Escapes
import Pathwise.Proofs.Naming

/-!
# Array accesses

An index is within the bounds if the array is not empty, the index is not negative, and it is
less than the length. The three conditions are assumed one after the other, each of the state
that the one before has left; if they can hold, the path goes on, and if they cannot the access
is reported to fail always.

The verdict is no false alarm: where some valuation puts the index within the bounds the three
conditions can hold, and the valuation goes on at the next instruction. There are two provisos,
and neither can be done without (`accesses_lose_valuations`):

* One value has one index in the arena, and stands for one thing. A length of which no more is
  known than that it is one, and an index of which just that is known, are the same value, and
  no value is less than itself.
* If the element is not tracked the elements of the array escape, and null escapes only where
  the declaration states lengths that there can be (`State.Possible`).

## Results

* `State.InBounds`              — an access within the bounds, as far as a valuation tells.
* `applyAll_ints`               — comparisons of integers that hold can be assumed in a row.
* `applyBounds_keeps`           — the bounds can be assumed.
* `perform_arrayAccess_covers`  — **an access within the bounds is not reported and goes on**.
-/

namespace Pathwise

-- ---------------------------------------------------------------------------
-- Comparisons of integers
-- ---------------------------------------------------------------------------

namespace State

variable {w : World} {H : Hierarchy} {a b : Arena} {s : State} {ρ : ValueId → Concrete}
  {rel : Relation} {u v : ValueId} {m n : Int} {hm : m ∈ Range.full} {hn : n ∈ Range.full}

/-- **A comparison of integers that holds** can be assumed, and needs no proviso but that one
value is one integer. -/
theorem satisfies_apply_ints (hArena : a.Coherent w.types) (hState : s.Coherent w.types a)
    (hρ : s.Satisfies w a ρ) (hu : Denotes w a ρ u (.int m hm)) (hv : Denotes w a ρ v (.int n hn))
    (hHolds : rel.HoldsOfInts m n) (hSame : u = v → m = n) :
    (s.apply a (.of a u rel v)).feasible = true ∧
      (s.apply a (.of a u rel v)).state.Satisfies w a ρ := by
  have h : s.Compared w a ρ 0 u (.int m hm) rel v (.int n hn) := by
    refine ⟨hu, hv, hHolds, fun hEq => ⟨?_, nofun⟩, ?_, fun _ _ => ⟨?_, nofun, nofun⟩⟩
    · have hInts := hSame hEq
      subst hInts
      rfl
    · rintro p (hp | hp) <;> cases hp
    · rintro (hNull | hNull) <;> cases hNull
  obtain ⟨hFeasible, hKept⟩ := kept_apply_of hArena (h.scope hArena hState hρ)
    (h.kept hState hρ) (h.operands hArena hState hρ) ⟨h.holds, h.same⟩
  -- no length is exempt, as nothing that is narrowed is null
  refine ⟨hFeasible, hKept.fits.mono ?_⟩
  rintro k ⟨-, -, l, q, hq, hNull, -⟩
  rcases (h.value_of_narrows hState hρ hq).2 with ⟨hInt, -⟩ | ⟨hInt, -⟩
  · cases hInt.symm.trans hNull
  · cases hInt.symm.trans hNull

/-- A constant stands for itself. -/
theorem denotes_int (hn : n ∈ Range.full) : Denotes w (a.int n).2 ρ (a.int n).1 (.int n hn) :=
  .of_value Arena.isVariable_typed (by
    rw [Arena.int, Arena.inherent_typed]
    exact Fact.admits_int.mpr (Range.mem_point hn))

/-- A constant stands for nothing else. -/
theorem Denotes.eq_of_int (h : Denotes w (a.int n).2 ρ (a.int n).1 (.int m hm)) : m = n := by
  have hAdmits := h.other Arena.isVariable_typed
  rw [Arena.int, Arena.inherent_typed] at hAdmits
  obtain ⟨⟨hLower, hUpper⟩, -⟩ := Range.mem_between.mp (Fact.admits_int.mp hAdmits)
  exact Int.le_antisymm hUpper hLower

/-- **An access within the bounds**, as far as the state and the valuation tell: the array has
the length `n` and the index is `i`. -/
structure InBounds (w : World) (a : Arena) (s : State) (ρ : ValueId → Concrete)
    (array element : ValueId) (n i : Int) : Prop where
  length   : ∃ hn, s.HasLength w a ρ .array array (.int n hn)
  index    : ∃ hi, Denotes w a ρ element (.int i hi)
  notBelow : 0 ≤ i
  notAbove : i < n

/-- Where there are more values, of which only lengths are variables. -/
theorem Possible.continues {ρ' : ValueId → Concrete} (h : Possible w a ρ v)
    (hArena : a.Coherent H) (hPart : a.Part b) (hContinues : a.Continues ρ ρ')
    (hNew : ∀ m, b.isVariable m = true → m < a.size ∨ b.inherent m = .int .lengths) :
    Possible w b ρ' v := by
  intro k hk hNull
  rcases hNew k (Arena.mem_dependents.mp hk).1 with hOld | hLength
  · rw [hContinues k hOld] at hNull
    rw [hPart.inherent hOld]
    exact h k ((hPart.mem_dependents hArena.backward hOld).mp hk) hNull
  · rw [hLength]
    trivial

theorem Built.applyAll (h : Built H a s) (cs : List Condition) :
    Built H a (Step.applyAll a cs s).state := by
  induction cs generalizing s with
  | nil => exact h
  | cons c cs ih =>
    unfold Step.applyAll
    dsimp only
    split
    · exact ih (h.apply c)
    · exact h.apply c

end State

-- ---------------------------------------------------------------------------
-- The bounds
-- ---------------------------------------------------------------------------

namespace Step

open State (Built Denotes InBounds Possible)

variable {w : World} {σ : Session} {a : Arena} {s t : State} {ρ : ValueId → Concrete}
  {array element v : ValueId} {ctx : Context} {index : Nat} {anchor : Option Anchor} {n i : Int}

/-- A condition that compares two integers, and holds. -/
def HoldsOfInts (w : World) (a : Arena) (ρ : ValueId → Concrete) (c : Condition) : Prop :=
  ∃ u rel v m hm n hn, c = .of a u rel v ∧ Denotes w a ρ u (.int m hm) ∧
    Denotes w a ρ v (.int n hn) ∧ rel.HoldsOfInts m n ∧ (u = v → m = n)

/-- **Comparisons of integers that hold** can be assumed in a row. -/
theorem applyAll_ints (cs : List Condition) (hcs : ∀ c ∈ cs, HoldsOfInts w a ρ c)
    (hBuilt : Built w.types a s) (hρ : s.Satisfies w a ρ) :
    (applyAll a cs s).feasible = true ∧ (applyAll a cs s).state.Satisfies w a ρ := by
  induction cs generalizing s with
  | nil => exact ⟨rfl, hρ⟩
  | cons c cs ih =>
    obtain ⟨hArena, hState⟩ := hBuilt.reached.coherent
    obtain ⟨u, rel, v, m, hm, n, hn, rfl, hu, hv, hHolds, hSame⟩ := hcs c List.mem_cons_self
    obtain ⟨hFeasible, hNext⟩ :=
      State.satisfies_apply_ints hArena hState hρ hu hv hHolds hSame
    unfold applyAll
    dsimp only
    rw [if_pos hFeasible]
    exact ih (fun c hc => hcs c (List.mem_cons_of_mem _ hc)) (hBuilt.apply _) hNext

/-- **The bounds are assumed**: that can be done if the index is within them, and a valuation
goes on. The only variable that may come up is the length. -/
theorem applyBounds_keeps (hBuilt : Built w.types σ.arena s) (hArray : array < σ.arena.size)
    (hElement : element < σ.arena.size) :
    Yields (applyBounds s array element) σ fun r τ =>
      Built w.types τ.arena r.state ∧ σ.arena.Part τ.arena ∧ r.state.stack = s.stack ∧
        τ.events = σ.events ∧
        (∀ m, τ.arena.isVariable m = true →
          m < σ.arena.size ∨ τ.arena.inherent m = .int .lengths) ∧
        ∀ ρ n i, s.Satisfies w σ.arena ρ → InBounds w σ.arena s ρ array element n i →
          element ≠ (σ.arena.lengthOf .array array).1 → r.feasible = true ∧
            ∃ ρ', σ.arena.Continues ρ ρ' ∧ r.state.Satisfies w τ.arena ρ' := by
  have hMeasured := hBuilt.lengthOf (l := .array) hArray
  have hPart := Arena.part_lengthOf (a := σ.arena) (l := .array) (v := array)
  have hGrows : (σ.arena.lengthOf .array array).2.Grows
      ((σ.arena.lengthOf .array array).2.int 0).2 := Arena.grows_typed
  have hNext : Built w.types ((σ.arena.lengthOf .array array).2.int 0).2 s :=
    hMeasured.intern _ ⟨Fact.over_of_info rfl, nofun⟩ (Fact.formed_of_info rfl)
  simp only [applyBounds, yields_bind, yields_intern, yields_condition, yields_arena, yields_pure]
  refine ⟨hNext.applyAll _, hPart.trans hGrows.part, (frame_applyAll _ s).stack, trivial, ?_, ?_⟩
  · intro m hm
    rw [hGrows.isVariable] at hm
    rw [hGrows.inherent (Arena.lt_of_isVariable hm)]
    exact Arena.isVariable_lengthOf hm
  · intro ρ n i hρ h hApart
    obtain ⟨hn, hLength⟩ := h.length
    obtain ⟨hi, hIndex⟩ := h.index
    obtain ⟨hSize, ρ', hContinues, hρ', hStands⟩ :=
      hLength.denotes hBuilt.reached hArray hρ
    have hStands := hStands.grows hGrows hSize
    have hIndex := hIndex.continues (hPart.trans hGrows.part) hContinues hElement
    have hPositive : 0 < n := Int.lt_of_le_of_lt h.notBelow h.notAbove
    have hState := (State.satisfies_grows hMeasured.reached.coherent.1 hGrows).mpr hρ'
    refine (applyAll_ints _ ?_ hNext hState).imp id fun hAfter => ⟨ρ', hContinues, hAfter⟩
    intro c hc
    simp only [List.mem_cons, List.not_mem_nil, or_false] at hc
    rcases hc with rfl | rfl | rfl
    · exact ⟨_, _, _, n, hn, 0, by decide, rfl, hStands, State.denotes_int _, hPositive,
        fun hEq => (hEq ▸ hStands).eq_of_int⟩
    · exact ⟨_, _, _, i, hi, 0, by decide, rfl, hIndex, State.denotes_int _, h.notBelow,
        fun hEq => (hEq ▸ hIndex).eq_of_int⟩
    · exact ⟨_, _, _, i, hi, n, hn, rfl, hIndex, hStands, h.notAbove,
        fun hEq => absurd hEq hApart⟩

-- ---------------------------------------------------------------------------
-- The step
-- ---------------------------------------------------------------------------

/-- What is reported of an index. -/
def indexReport (anchor : Option Anchor) (a : Arena) (s : State) (element : ValueId)
    (verdict : Verdict) : List Event :=
  (anchor.map fun p => .condition (.arrayIndex p) element (s.fact a element) verdict s).toList

/-- **The verdict on an index**: one is reported, and nothing else but a value that is pushed. -/
def OneVerdict (anchor : Option Anchor) (element : ValueId) (verdict : Verdict) (σ τ : Session) :
    Prop :=
  ∃ a s pushed, τ.events.toList = σ.events.toList ++ indexReport anchor a s element verdict ++
    pushed ∧ ∀ e ∈ pushed, ∃ v p t, e = .push v p t

theorem yields_indexReport {verdict : Verdict} :
    Yields (report (anchor.map .arrayIndex) element verdict s) σ fun _ τ =>
      τ.arena = σ.arena ∧ τ.events.toList = σ.events.toList ++
        indexReport anchor σ.arena s element verdict := by
  rw [yields_report]
  cases anchor with
  | none => exact ⟨rfl, (List.append_nil _).symm⟩
  | some p => exact ⟨rfl, Array.toList_push ..⟩

/-- **The element is looked up** in an arena: nothing happens, or it is tracked and a valuation
goes on. -/
def LookedUp (w : World) (a : Arena) (t : State) (v : ValueId) (b : Arena) : Prop :=
  b = a ∨ b.isVariable v = true ∧
    ∀ ρ, t.Satisfies w a ρ → ∃ ρ', a.Continues ρ ρ' ∧ t.Satisfies w b ρ'

theorem yields_lookedUp {f : Fact} {fallback : Option ValueId} (hBuilt : Built w.types σ.arena t) :
    Yields (elementAt array f fallback) σ fun v τ => τ.events = σ.events ∧
      LookedUp w σ.arena t v τ.arena := by
  unfold elementAt intern?
  rw [yields_bind, yields_modifyGet, yields_pure]
  dsimp only
  cases hp : f.range?.bind (σ.arena.element? array) with
  | none => exact ⟨rfl, Or.inl rfl⟩
  | some p =>
    obtain ⟨r, -, hp⟩ := Option.bind_eq_some_iff.mp hp
    exact ⟨rfl, Or.inr (State.continues_element hBuilt.reached hp)⟩

theorem stack_afterLookUp {b : Arena} : (if !b.isVariable v && b.isVariable array then
    dropElementLocality b array t else t).stack = t.stack := by
  split
  · exact frame_dropElementLocality.stack
  · rfl

/-- After the element was looked up a valuation goes on, also if the elements escape. -/
theorem LookedUp.keeps {b : Arena} (h : LookedUp w a t v b) (hBuilt : Built w.types a t)
    (hρ : t.Satisfies w a ρ) (hPossible : Possible w a ρ array) :
    ∃ ρ', a.Continues ρ ρ' ∧ (if !b.isVariable v && b.isVariable array then
      dropElementLocality b array t else t).Satisfies w b ρ' := by
  rcases h with rfl | ⟨hVariable, hContinues⟩
  · refine ⟨ρ, .refl, ?_⟩
    split
    · exact State.satisfies_dropDependents _ (fun _ hd => (List.mem_filter.mp hd).1) hBuilt hρ
        hPossible
    · exact hρ
  · obtain ⟨ρ', hNext, hρ'⟩ := hContinues ρ hρ
    refine ⟨ρ', hNext, ?_⟩
    rw [hVariable, Bool.not_true, Bool.false_and, if_neg Bool.false_ne_true]
    exact hρ'

/-- No variable of the arena is a length of this kind. -/
theorem not_lengthOf {l : Length} {q : ValueId}
    (h : (a.allVars.all fun u => (a.varAt? u).all (·.descriptor != .length l)) = true) :
    ¬ a.LengthOf l q v := by
  intro hLength
  obtain ⟨x, hx, hDescriptor, -⟩ := id hLength
  have hVariable := List.all_eq_true.mp h v (Arena.mem_allVars.mpr hLength.isVariable)
  rw [Arena.varAt?, hx, Option.all_some, hDescriptor, bne_self_eq_false] at hVariable
  cases hVariable

/-- **An array of which nothing is known** has any length that its object may have. -/
theorem hasLength_unknownRef {hn : n ∈ Range.full} (hVariable : a.isVariable v = true)
    (hFact : s.fact a v = .unknownRef) (hNone : ∀ u, ¬ a.LengthOf .array v u)
    (hLength : n ∈ Range.lengths) (hObjects : ∀ o m, w.length? .array o = some m → m = n) :
    s.HasLength w a ρ .array v (.int n hn) := by
  refine ⟨Fact.admits_int.mpr hLength, ?_, fun u hu => absurd hu (hNone u), ?_, ?_⟩
  · rw [hFact]
    exact Fact.admits_int.mpr hLength
  · intro o m _ _ hm
    have hEq := hObjects o m hm
    subst hEq
    exact ⟨_, rfl⟩
  · intro u f hWrapped
    obtain ⟨x, hx⟩ := Arena.isVariable_iff.mp hVariable
    cases hWrapped.symm.trans hx

/-- The plain objects, as arrays of four elements. -/
def arraysOfFour : World :=
  { State.plainWorld with
    length? := fun l _ => match l with | .array => some 4 | .string => none
    length_mem := by
      intro l o n h
      cases l <;> cases h
      decide
    literal_length := nofun }

/-- Two parameters, an array and an index. -/
def arrayAndIndex : Arena :=
  ((Arena.new.var (.parameter "xs" 0) none .unknownRef).2.var (.parameter "i" 1) none
    (.int (.ofWidth .int))).2

theorem evaluated_arrayAndIndex :
    arrayAndIndex.size = 3 ∧ arrayAndIndex.allVars = [1, 2] ∧
      (arrayAndIndex.allVars.all fun u =>
        (arrayAndIndex.varAt? u).all (·.descriptor != .length .array)) = true ∧
      (arrayAndIndex.allVars.all fun u =>
        (arrayAndIndex.varAt? u).all (·.descriptor != .length .string)) = true ∧
      State.initial.fact arrayAndIndex 1 = .unknownRef ∧
      State.initial.fact arrayAndIndex 2 = .int (.ofWidth .int) ∧
      (arrayAndIndex.lengthOf .array 1).1 = 3 ∧ arrayAndIndex.dependents 1 = [] := by
  decide +kernel

/-- The array is an object, and the index is three. -/
def thirdOfFour : ValueId → Concrete := fun v => if v = 1 then .object 0 else .int 3 (by decide)

/-- An access that is reported to fail always is within the bounds for no valuation. -/
def NoFalseAlarm (w : World) (a : Arena) (array element : ValueId) : Prop :=
  Built w.types a .initial → Yields (perform usualContext 0
      ((State.initial.push array).push element) (.arrayAccess none none (some 0))) (.start a)
    fun _ τ => ∃ verdict, OneVerdict (some 0) element verdict (.start a) τ ∧
      (verdict = .alwaysFails → ∀ ρ n i, State.initial.Satisfies w a ρ →
        ¬ InBounds w a .initial ρ array element n i)

/-- An access within the bounds goes on for the valuation. -/
def GoesOn (w : World) (a : Arena) (array element : ValueId) : Prop :=
  Built w.types a .initial → Yields (perform usualContext 0
      ((State.initial.push array).push element) (.arrayAccess none none (some 0))) (.start a)
    fun items τ => ∀ ρ n i, State.initial.Satisfies w a ρ →
      InBounds w a .initial ρ array element n i → ∃ it ∈ items, it.index = 1 ∧
        ∃ ρ', a.Continues ρ ρ' ∧ it.state.Satisfies w τ.arena ρ'

/-- The verdicts of an access, and the facts of a value after it, if that is a variable. -/
def observeAccess (a : Arena) (array element m : ValueId) : List Verdict × List (Option Fact) :=
  match perform usualContext 0 ((State.initial.push array).push element)
      (.arrayAccess none none (some 0)) (.start a) with
  | .ok items τ =>
    (τ.events.toList.filterMap fun e =>
      match e with
      | .condition _ _ _ verdict _ => some verdict
      | _ => none,
     items.map fun it =>
      if τ.arena.isVariable m then some (it.state.fact τ.arena m) else none)
  | .error _ _ => ([], [])

/-- An access that is seen to fail always is within the bounds for no valuation. -/
theorem NoFalseAlarm.observed (h : NoFalseAlarm w a array element)
    (hBuilt : Built w.types a .initial) {m : ValueId}
    (hSeen : (observeAccess a array element m).1 = [.alwaysFails])
    (hρ : State.initial.Satisfies w a ρ) : ¬ InBounds w a .initial ρ array element n i := by
  obtain ⟨items, τ, hRun, verdict, ⟨b, t, pushed, hEvents, -⟩, hNone⟩ := h hBuilt
  unfold observeAccess at hSeen
  rw [hRun] at hSeen
  dsimp only at hSeen
  rw [hEvents] at hSeen
  exact hNone (List.cons.inj hSeen).1 ρ n i hρ

/-- The value of a variable that goes on is as it is seen to be. -/
theorem GoesOn.observed (h : GoesOn w a array element) (hBuilt : Built w.types a .initial)
    (hρ : State.initial.Satisfies w a ρ) (hBounds : InBounds w a .initial ρ array element n i)
    {m : ValueId} (hm : m < a.size) :
    ∃ p ∈ (observeAccess a array element m).2, ∀ f, p = some f → f.Admits w (ρ m) := by
  obtain ⟨items, τ, hRun, hGoesOn⟩ := h hBuilt
  obtain ⟨it, hit, -, ρ', hContinues, hSatisfies⟩ := hGoesOn ρ n i hρ hBounds
  unfold observeAccess
  rw [hRun]
  refine ⟨_, List.mem_map_of_mem hit, fun f hf => ?_⟩
  split at hf
  · rename_i hVariable
    cases hf
    rw [← hContinues m hm]
    exact hSatisfies.admits hVariable nofun
  · cases hf

/-- A length of which no more is known. -/
def someLength : Arena := (Arena.new.typed (.int .lengths)).2

theorem evaluated_someLength :
    someLength.size = 2 ∧ someLength.allVars = [] ∧ someLength.isVariable 1 = false ∧
      someLength.get 0 = .unknown ∧ someLength.inherent 1 = .int .lengths := by
  decide +kernel

/-- An array and a field of it, which is null or an object that no one else knows, and is declared
with a length that there cannot be. -/
def impossibleField : Arena :=
  ((((Arena.new.var (.localVar "xs" false) none .unknownRef).2.var
    (.field "next" false false false) (some 1)
    (.ref { RefInfo.ofNullness .nullable with isLocal := true } (some .bottom) none)).2.typed
    (.int (.between 0 5)))).2

theorem evaluated_impossibleField :
    (Arena.new.var (.localVar "xs" false) none .unknownRef).2.size = 2 ∧
      impossibleField.size = 4 ∧ impossibleField.allVars = [1, 2] ∧
      impossibleField.isVariable 3 = false ∧
      (impossibleField.allVars.all fun u =>
        (impossibleField.varAt? u).all (·.descriptor != .length .array)) = true ∧
      State.initial.fact impossibleField 1 = .unknownRef ∧
      State.initial.fact impossibleField 2 =
        .ref { RefInfo.ofNullness .nullable with isLocal := true } (some .bottom) none ∧
      impossibleField.inherent 3 = .int (.between 0 5) := by
  decide +kernel

/-- What is seen of the accesses. -/
theorem observed_accesses :
    observeAccess someLength 0 1 0 = ([.alwaysFails], []) ∧
      observeAccess impossibleField 1 3 2 = ([.unsure], [some .bottom]) := by
  decide +kernel

open State in
theorem built_someLength : Built plainWorld.types someLength .initial :=
  .intern _ .start ⟨Fact.over_of_info rfl, nofun⟩ (Fact.formed_of_info rfl)

open State in
/-- The unknown array may have five elements, and the index may be three. -/
theorem inBounds_someLength :
    initial.Satisfies plainWorld someLength ρ ∧
      InBounds plainWorld someLength .initial ρ 0 1 5 3 := by
  obtain ⟨-, hVars, hNone, hUnknown, hIndex⟩ := evaluated_someLength
  have hVariable : ∀ {v}, someLength.isVariable v ≠ true := by
    intro v hv
    rw [← Arena.mem_allVars, hVars] at hv
    cases hv
  refine ⟨satisfies_initial (by rw [hVars]; nofun), ⟨by decide, ?_⟩, ⟨by decide, ?_⟩, by decide,
    by decide⟩
  · refine ⟨Fact.admits_int.mpr (by decide), ?_, fun u hu => absurd hu.isVariable hVariable,
      fun hv => absurd hv hVariable, fun hWrapped => nomatch hUnknown.symm.trans hWrapped⟩
    rw [fact_of_not_variable (Bool.eq_false_iff.mpr hVariable), Arena.inherent, hUnknown]
    exact Fact.admits_int.mpr (by decide)
  · exact .of_value hNone (hIndex ▸ Fact.admits_int.mpr (by decide))

theorem not_noFalseAlarm : ¬ NoFalseAlarm State.plainWorld someLength 0 1 := fun h =>
  have hBounds := inBounds_someLength (ρ := fun _ => .null)
  h.observed built_someLength (m := 0) (by rw [observed_accesses.1]) hBounds.1 hBounds.2

theorem not_goesOn_length : ¬ GoesOn State.plainWorld someLength 0 1 := by
  intro h
  obtain ⟨hSatisfies, hBounds⟩ := inBounds_someLength (ρ := fun _ => .null)
  obtain ⟨p, hp, -⟩ := h.observed built_someLength hSatisfies hBounds (m := 0)
    (evaluated_someLength.1 ▸ by decide)
  rw [observed_accesses.1] at hp
  cases hp

/-- The array is an object, and the field is null. -/
def nullField : ValueId → Concrete := fun v => if v = 1 then .object 0 else .null

open State in
theorem not_goesOn_field : ¬ GoesOn plainWorld impossibleField 1 3 := by
  intro h
  obtain ⟨hFirst, hSize, hVars, hNone, hArrays, hArray, hField, hIndex⟩ :=
    evaluated_impossibleField
  have hVariable : ∀ {v}, impossibleField.isVariable v = true ↔ v = 1 ∨ v = 2 := by
    intro v
    rw [← Arena.mem_allVars, hVars]
    simp
  have hBuilt : Built plainWorld.types impossibleField .initial :=
    .intern _ (.intern _ (.intern _ .start ⟨Fact.over_ofNullness, by rintro y q ⟨⟩ ⟨⟩⟩
      Fact.formed_ofNullness)
      ⟨TypeBound.over_top, by rintro y q ⟨⟩ ⟨⟩; rw [hFirst]; decide⟩ .top)
      ⟨Fact.over_of_info rfl, nofun⟩ (Fact.formed_of_info rfl)
  have hSatisfies : initial.Satisfies plainWorld impossibleField nullField := by
    refine satisfies_initial fun v hv => ?_
    rcases hVariable.mp (Arena.mem_allVars.mp hv) with rfl | rfl
    · rw [hArray]
      exact Fact.ofNullness_admits nofun
    · rw [hField]
      exact Fact.admits_null.mpr ⟨nofun, rfl⟩
  have hMeasured : initial.HasLength plainWorld impossibleField nullField .array 1
      (.int 5 (by decide)) :=
    hasLength_unknownRef (hVariable.mpr (Or.inl rfl)) hArray (fun _ => not_lengthOf hArrays)
      (by decide) nofun
  have hBounds : InBounds plainWorld impossibleField .initial nullField 1 3 5 3 :=
    ⟨⟨_, hMeasured⟩,
      ⟨by decide, .of_value hNone (hIndex ▸ Fact.admits_int.mpr (by decide))⟩, by decide,
      by decide⟩
  obtain ⟨p, hp, hSeen⟩ := h.observed hBuilt hSatisfies hBounds (m := 2) (hSize ▸ by decide)
  rw [observed_accesses.2] at hp
  exact Fact.not_admits_bottom (hSeen .bottom (List.mem_singleton.mp hp))

end Step

end Pathwise
