import Mathlib.Tactic.Common
import Pathwise.Step.Visit

/-!
# Reasoning about steps

A step reads and extends the session and may find a fault. `Step.Yields m σ Q` says
that the step `m` finds none when it starts from `σ`, and that what it returns and the
session it leaves satisfy `Q`. Sequences of steps are taken apart by `Yields.bind`, and
each operation on the session has one law, so that a proof about an instruction never
looks at a session from the inside.

## Results

* `yields_bind`, `yields_pure` — the laws of sequences.
* `Yields.mono`                — a step that yields more yields less.
* one law for each operation on the session, and `yields_pop`, `yields_peek` for the
  stack.
-/

namespace Pathwise.Step

/-- The step finds no fault from a session, and what it returns and leaves satisfies `Q`. -/
def Yields {α : Type} (m : Step α) (σ : Session) (Q : α → Session → Prop) : Prop :=
  ∃ a τ, m σ = .ok a τ ∧ Q a τ

section Sequences

variable {α β : Type} {m : Step α} {f : α → Step β} {σ : Session} {P : α → Session → Prop}
  {Q : β → Session → Prop}

theorem bind_eq (m : Step α) (f : α → Step β) (σ : Session) :
    (m >>= f) σ = match m σ with
      | .ok a τ => f a τ
      | .error e τ => .error e τ := by
  show EStateM.bind m f σ = _
  rw [EStateM.bind]
  cases m σ <;> rfl

@[simp] theorem yields_pure {a : α} : Yields (pure a : Step α) σ P ↔ P a σ := by
  constructor
  · rintro ⟨b, τ, hEq, hP⟩
    cases hEq
    exact hP
  · intro hP
    exact ⟨a, σ, rfl, hP⟩

/-- A sequence of two steps yields what the second yields after the first. -/
theorem yields_bind : Yields (m >>= f) σ Q ↔ Yields m σ fun a τ => Yields (f a) τ Q := by
  constructor
  · rintro ⟨b, ρ, hEq, hQ⟩
    rw [bind_eq] at hEq
    cases hm : m σ with
    | ok a τ =>
      rw [hm] at hEq
      exact ⟨a, τ, hm, b, ρ, hEq, hQ⟩
    | error e τ =>
      rw [hm] at hEq
      cases hEq
  · rintro ⟨a, τ, hm, b, ρ, hf, hQ⟩
    refine ⟨b, ρ, ?_, hQ⟩
    rw [bind_eq, hm]
    exact hf

theorem Yields.mono {P' : α → Session → Prop} (h : Yields m σ P) (hImp : ∀ a τ, P a τ → P' a τ) :
    Yields m σ P' := by
  obtain ⟨a, τ, hEq, hP⟩ := h
  exact ⟨a, τ, hEq, hImp a τ hP⟩

@[simp] theorem yields_map {g : α → β} :
    Yields (g <$> m) σ Q ↔ Yields m σ fun a τ => Q (g a) τ := by
  rw [map_eq_pure_bind, yields_bind]
  simp only [yields_pure]

/-- The second step may rely on what the first has yielded. -/
theorem Yields.bind (hm : Yields m σ P) (hf : ∀ a τ, P a τ → Yields (f a) τ Q) :
    Yields (m >>= f) σ Q :=
  yields_bind.mpr (hm.mono hf)

/-- Whichever of two steps is first. -/
theorem yields_ite_bind {p : Prop} [Decidable p] {m' : Step α} (hm : p → Yields m σ P)
    (hm' : ¬ p → Yields m' σ P) (hf : ∀ a τ, P a τ → Yields (f a) τ Q) :
    Yields (if p then m >>= f else m' >>= f) σ Q := by
  split
  · rename_i h
    exact (hm h).bind hf
  · rename_i h
    exact (hm' h).bind hf

end Sequences

section Operations

variable {σ : Session} {s : State} {v : ValueId} {index : Nat}

@[simp] theorem yields_arena {Q : Arena → Session → Prop} : Yields arena σ Q ↔ Q σ.arena σ :=
  yields_pure

@[simp] theorem yields_modify {f : Session → Session} {Q : Unit → Session → Prop} :
    Yields (modify f) σ Q ↔ Q () (f σ) := by
  constructor
  · rintro ⟨a, τ, hEq, hQ⟩
    cases hEq
    exact hQ
  · intro hQ
    exact ⟨(), f σ, rfl, hQ⟩

@[simp] theorem yields_modifyGet {α : Type} {f : Session → α × Session}
    {Q : α → Session → Prop} :
    Yields (modifyGet f : Step α) σ Q ↔ Q (f σ).1 (f σ).2 := by
  constructor
  · rintro ⟨a, τ, hEq, hQ⟩
    cases hEq
    exact hQ
  · intro hQ
    exact ⟨(f σ).1, (f σ).2, rfl, hQ⟩

@[simp] theorem yields_intern {f : Arena → ValueId × Arena} {Q : ValueId → Session → Prop} :
    Yields (intern f) σ Q ↔ Q (f σ.arena).1 { σ with arena := (f σ.arena).2 } :=
  yields_modifyGet

@[simp] theorem yields_emit {e : Event} {Q : Unit → Session → Prop} :
    Yields (emit e) σ Q ↔ Q () { σ with events := σ.events.push e } := yields_modify

@[simp] theorem yields_log {e : LogEntry} {Q : Unit → Session → Prop} :
    Yields (log e) σ Q ↔ Q () { σ with log := σ.log.push e } := yields_modify

@[simp] theorem yields_record {f : Record → Record} {Q : Unit → Session → Prop} :
    Yields (record f) σ Q ↔ Q () { σ with record := f σ.record } := yields_modify

@[simp] theorem yields_fact {Q : Fact → Session → Prop} :
    Yields (fact s v) σ Q ↔ Q (s.fact σ.arena v) σ := yields_pure

@[simp] theorem yields_apply {c : Condition} {Q : Narrowing → Session → Prop} :
    Yields (apply s c) σ Q ↔ Q (s.apply σ.arena c) σ := yields_pure

@[simp] theorem yields_condition {left right : ValueId} {rel : Relation}
    {Q : Condition → Session → Prop} :
    Yields (condition left rel right) σ Q ↔ Q (.of σ.arena left rel right) σ := yields_pure

@[simp] theorem yields_dropLocality {Q : State × ValueId → Session → Prop} :
    Yields (dropLocality s v) σ Q ↔
      Q ((s.dropLocality σ.arena v).1, (s.dropLocality σ.arena v).2.1)
        { σ with arena := (s.dropLocality σ.arena v).2.2 } := yields_modifyGet

@[simp] theorem yields_reach {outcome : Option Bool} {Q : Unit → Session → Prop} :
    Yields (reach index s outcome) σ Q ↔
      Q () (if s.isEphemeral then σ else { σ with record := σ.record.addReach index outcome }) := by
  rw [reach]
  split
  · exact yields_pure
  · exact yields_record

@[simp] theorem yields_pushResult {anchor : Option Anchor} {Q : State → Session → Prop} :
    Yields (pushResult anchor v s) σ Q ↔
      Q (s.push v) (match anchor with
        | none => σ
        | some a => { σ with events := σ.events.push (.push v a s) }) := by
  cases anchor with
  | none => exact yields_pure
  | some a => exact yields_bind.trans (yields_emit.trans yields_pure)

/-- A value that is pushed is reported as such. -/
theorem yields_pushed {anchor : Option Anchor} :
    Yields (pushResult anchor v s) σ fun t τ => t = s.push v ∧ τ.arena = σ.arena ∧
      ∃ pushed, τ.events.toList = σ.events.toList ++ pushed ∧
        ∀ e ∈ pushed, ∃ v p t, e = .push v p t := by
  rw [yields_pushResult]
  cases anchor with
  | none => exact ⟨rfl, rfl, [], (List.append_nil _).symm, nofun⟩
  | some p =>
    refine ⟨rfl, rfl, [.push v p s], Array.toList_push .., fun e he => ⟨v, p, s, ?_⟩⟩
    exact List.mem_singleton.mp he

@[simp] theorem yields_reportJump {anchor : Option Anchor} {taken : Bool}
    {Q : Unit → Session → Prop} :
    Yields (reportJump anchor taken) σ Q ↔
      Q () (match anchor with
        | none => σ
        | some a => { σ with events := σ.events.push (.jump a taken) }) := by
  cases anchor with
  | none => exact yields_pure
  | some a => exact yields_emit

@[simp] theorem yields_report {problem : Option Problem} {verdict : Verdict}
    {Q : Unit → Session → Prop} :
    Yields (report problem v verdict s) σ Q ↔
      Q () (match problem with
        | none => σ
        | some p =>
          { σ with events := σ.events.push (.condition p v (s.fact σ.arena v) verdict s) }) := by
  cases problem with
  | none => exact yields_pure
  | some p => exact yields_bind.trans (yields_fact.trans yields_emit)

/-- Taking a value from a stack that has one. -/
theorem yields_pop {n : Nat} {Q : ValueId × State → Session → Prop} (hDepth : s.depth = n + 1)
    (hQ : ∀ v vs, s.stack = v :: vs → vs.length = n → Q (v, { s with stack := vs }) σ) :
    Yields (pop index s) σ Q := by
  obtain ⟨v, vs, hStack⟩ := List.exists_cons_of_length_eq_add_one hDepth
  have hPop : s.pop? = some (v, { s with stack := vs }) := by rw [State.pop?, hStack]
  rw [pop, hPop]
  refine yields_pure.mpr (hQ v vs hStack ?_)
  rw [State.depth, hStack, List.length_cons] at hDepth
  omega

/-- Reading the top of a stack that has one. -/
theorem yields_peek {n : Nat} {Q : ValueId → Session → Prop} (hDepth : s.depth = n + 1)
    (hQ : ∀ v, s.peek? = some v → Q v σ) : Yields (peek index s) σ Q := by
  obtain ⟨v, vs, hStack⟩ := List.exists_cons_of_length_eq_add_one hDepth
  have hPeek : s.peek? = some v := by rw [State.peek?, hStack, List.head?_cons]
  rw [peek, hPeek]
  exact yields_pure.mpr (hQ v hPeek)

theorem peek_of_stack {rest : List ValueId} (hStack : s.stack = v :: rest) :
    peek index s = pure v := by
  rw [peek, State.peek?, hStack]
  rfl

theorem pop_of_stack {rest : List ValueId} (hStack : s.stack = v :: rest) :
    pop index s = pure (v, { s with stack := rest }) := by
  rw [pop, State.pop?, hStack]

end Operations

/-- The usual configuration, where nothing is known of any method. -/
def usualContext : Context := ⟨.usual, .ofTables [] [], .usual⟩

end Pathwise.Step
