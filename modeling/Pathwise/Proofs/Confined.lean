import Pathwise.Proofs.Stacks

/-!
# Reasoning about what is recorded

`Step.Confined m P` says of a step that it leaves the recorded outcomes of branches as they
are and returns only what satisfies `P`. Unlike `Step.Yields` it says so of steps that find
a fault as well, so nothing is assumed of the stack.

What is followed here is the mark of an *ephemeral* state, one that was reached only because
a failure was assumed: `State.EphemeralIf b` says that the state has the mark if `b` holds,
and operations on facts and relations keep it (`State.SameFrame`).

## Results

* `Confined.bind`, `confined_pure` — the laws of sequences.
* `confined_reach`                 — no outcome of an ephemeral state is recorded.
* `allEphemeralIf_dispatch`        — a transfer keeps the mark.
-/

namespace Pathwise

namespace State

/-- The state is ephemeral, if `b` holds. -/
def EphemeralIf (b : Prop) (s : State) : Prop := b → s.isEphemeral = true

theorem EphemeralIf.congr {b : Prop} {s t : State} (h : s.EphemeralIf b)
    (hSame : t.isEphemeral = s.isEphemeral) : t.EphemeralIf b := fun hb => hSame.trans (h hb)

end State

namespace Step

open State

-- ---------------------------------------------------------------------------
-- Confined steps
-- ---------------------------------------------------------------------------

/-- The step leaves the recorded outcomes as they are, also if it finds a fault, and returns
only what satisfies `P`. -/
def Confined {α : Type} (m : Step α) (P : α → Prop) : Prop :=
  ∀ σ, match m σ with
    | .ok x τ => τ.record.reach = σ.record.reach ∧ P x
    | .error _ τ => τ.record.reach = σ.record.reach

section Sequences

variable {α β : Type} {m : Step α} {g : α → Step β} {P : α → Prop} {Q : β → Prop}

@[simp] theorem confined_pure {x : α} : Confined (pure x : Step α) P ↔ P x :=
  ⟨fun h => (h default).2, fun h _ => ⟨rfl, h⟩⟩

theorem Confined.bind (hm : Confined m P) (hg : ∀ x, P x → Confined (g x) Q) :
    Confined (m >>= g) Q := by
  intro σ
  have hFirst := hm σ
  rw [bind_eq]
  cases hResult : m σ with
  | error e τ =>
    rw [hResult] at hFirst
    exact hFirst
  | ok x τ =>
    rw [hResult] at hFirst
    obtain ⟨hReach, hx⟩ := hFirst
    have hSecond := hg x hx τ
    dsimp only
    cases hNext : g x τ with
    | error e υ =>
      rw [hNext] at hSecond
      exact hSecond.trans hReach
    | ok y υ =>
      rw [hNext] at hSecond
      exact ⟨hSecond.1.trans hReach, hSecond.2⟩

theorem Confined.mono {P' : α → Prop} (h : Confined m P) (hImp : ∀ x, P x → P' x) :
    Confined m P' := by
  intro σ
  have hBoth := h σ
  cases hResult : m σ with
  | error e τ =>
    rw [hResult] at hBoth
    exact hBoth
  | ok x τ =>
    rw [hResult] at hBoth
    exact ⟨hBoth.1, hImp x hBoth.2⟩

theorem Confined.of_ok {σ τ : Session} {x : α} (h : Confined m P) (hOk : m σ = .ok x τ) :
    τ.record.reach = σ.record.reach ∧ P x := by
  have hBoth := h σ
  rw [hOk] at hBoth
  exact hBoth

theorem Confined.of_error {σ τ : Session} {e : FlowError} (h : Confined m P)
    (hError : m σ = .error e τ) : τ.record.reach = σ.record.reach := by
  have hReach := h σ
  rw [hError] at hReach
  exact hReach

/-- A step of which nothing is to be shown but that it is confined. -/
theorem Confined.then (hm : Confined m P) (hg : ∀ x, Confined (g x) Q) : Confined (m >>= g) Q :=
  hm.bind fun x _ => hg x

/-- One of two steps comes first, and the rest is the same. -/
theorem confined_ite_bind {c : Prop} [Decidable c] {m' : Step α} (hm : Confined m P)
    (hm' : Confined m' P) (hg : ∀ x, P x → Confined (g x) Q) :
    Confined (if c then m >>= g else m' >>= g) Q := by
  split
  · exact hm.bind hg
  · exact hm'.bind hg

/-- A function of the session that leaves the recorded outcomes as they are. -/
theorem confined_modifyGet {f : Session → α × Session}
    (hf : ∀ σ, (f σ).2.record.reach = σ.record.reach) (hP : ∀ σ, P (f σ).1) :
    Confined (modifyGet f : Step α) P := fun σ => ⟨hf σ, hP σ⟩

end Sequences

section Operations

variable {b : Prop} {s : State} {v : ValueId} {index : Nat} {anchor : Option Anchor}

theorem confined_arena : Confined arena fun _ => True := fun _ => ⟨rfl, trivial⟩

theorem confined_intern {f : Arena → ValueId × Arena} : Confined (intern f) fun _ => True :=
  confined_modifyGet (fun _ => rfl) fun _ => trivial

theorem confined_intern? {f : Arena → Option (ValueId × Arena)} :
    Confined (intern? f) fun _ => True := by
  refine confined_modifyGet (fun σ => ?_) fun _ => trivial
  split <;> rfl

theorem confined_emit {e : Event} : Confined (emit e) fun _ => True := fun _ => ⟨rfl, trivial⟩

theorem confined_log {e : LogEntry} : Confined (log e) fun _ => True := fun _ => ⟨rfl, trivial⟩

theorem confined_record {f : Record → Record} (hf : ∀ r, (f r).reach = r.reach) :
    Confined (record f) fun _ => True := fun σ => ⟨hf σ.record, trivial⟩

theorem confined_fact : Confined (fact s v) fun _ => True := fun _ => ⟨rfl, trivial⟩

theorem confined_condition {u : ValueId} {rel : Relation} :
    Confined (condition u rel v) fun _ => True := fun _ => ⟨rfl, trivial⟩

theorem confined_apply (hs : s.EphemeralIf b) {c : Condition} :
    Confined (apply s c) fun n => n.state.EphemeralIf b :=
  fun _ => ⟨rfl, hs.congr frame_apply.isEphemeral⟩

theorem confined_dropLocality (hs : s.EphemeralIf b) :
    Confined (dropLocality s v) fun r => r.1.EphemeralIf b :=
  confined_modifyGet (fun _ => rfl) fun _ => hs.congr frame_dropLocality.isEphemeral

/-- **No outcome of an ephemeral state is recorded.** -/
theorem confined_reach (hs : s.isEphemeral = true) {outcome : Option Bool} :
    Confined (reach index s outcome) fun _ => True := by
  rw [reach, if_pos hs]
  exact confined_pure.mpr trivial

theorem confined_pop (hs : s.EphemeralIf b) :
    Confined (pop index s) fun r => r.2.EphemeralIf b := by
  rw [pop, State.pop?]
  split
  · rename_i r hPop
    split at hPop
    · cases hPop
    · cases hPop
      exact confined_pure.mpr hs
  · exact fun _ => rfl

theorem confined_peek : Confined (peek index s) fun _ => True := by
  rw [peek]
  split
  · exact confined_pure.mpr trivial
  · exact fun _ => rfl

theorem confined_pushResult (hs : s.EphemeralIf b) :
    Confined (pushResult anchor v s) fun t => t.EphemeralIf b := by
  cases anchor with
  | none => exact confined_pure.mpr hs
  | some a => exact confined_emit.then fun _ => confined_pure.mpr hs

theorem confined_reportJump {taken : Bool} : Confined (reportJump anchor taken) fun _ => True := by
  cases anchor with
  | none => exact confined_pure.mpr trivial
  | some a => exact confined_emit

theorem confined_report {problem : Option Problem} {verdict : Verdict} :
    Confined (report problem v verdict s) fun _ => True := by
  cases problem with
  | none => exact confined_pure.mpr trivial
  | some p => exact confined_fact.then fun _ => confined_emit

end Operations

-- ---------------------------------------------------------------------------
-- Items that come out
-- ---------------------------------------------------------------------------

/-- All items are ephemeral, if `b` holds. -/
def AllEphemeralIf (b : Prop) (items : List Item) : Prop :=
  ∀ it ∈ items, it.state.EphemeralIf b

section Items

variable {b : Prop} {s : State} {v : ValueId} {index : Nat} {anchor : Option Anchor}
  {ctx : Context} {is js : List Item}

theorem allEphemeralIf_nil : AllEphemeralIf b [] := nofun

theorem allEphemeralIf_singleton {it : Item} (h : it.state.EphemeralIf b) :
    AllEphemeralIf b [it] := by
  intro j hj
  rw [List.mem_singleton.mp hj]
  exact h

theorem AllEphemeralIf.append (hi : AllEphemeralIf b is) (hj : AllEphemeralIf b js) :
    AllEphemeralIf b (is ++ js) := by
  intro it hit
  rcases List.mem_append.mp hit with h | h
  · exact hi it h
  · exact hj it h

/-- Items that come out under a condition. -/
theorem allEphemeralIf_ite {c : Prop} [Decidable c] (hi : AllEphemeralIf b is)
    (hj : AllEphemeralIf b js) : AllEphemeralIf b (if c then is else js) := by
  split
  · exact hi
  · exact hj

/-- Where the state goes on after a transfer it is still ephemeral. -/
theorem allEphemeralIf_dispatch (hHandler : ctx.handler = .usual) (hs : s.EphemeralIf b)
    (t : Transfer) (ephemeral : Bool) : AllEphemeralIf b (dispatch ctx s t ephemeral) := by
  have hMarked : (if ephemeral then s.markEphemeral else s).EphemeralIf b := by
    split
    · exact fun _ => rfl
    · exact hs
  rw [dispatch, hHandler]
  cases t with
  | exit => exact allEphemeralIf_nil
  | goto target => exact allEphemeralIf_singleton hMarked
  | throw e cs =>
    intro it hit
    rw [(mem_caughtAt hit).1]
    exact hMarked

/-- One value is pushed, and the next instruction follows. -/
theorem confined_next_pushResult (hs : s.EphemeralIf b) :
    Confined (do return [next index (← pushResult anchor v s)]) (AllEphemeralIf b) :=
  (confined_pushResult hs).bind fun _ ht => confined_pure.mpr (allEphemeralIf_singleton ht)

end Items

end Step

end Pathwise
