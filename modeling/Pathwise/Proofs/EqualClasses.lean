import Mathlib.Data.List.Nodup
import Mathlib.Data.List.Perm.Subperm
import Mathlib.Logic.Relation
import Mathlib.Tactic.Common
import Pathwise.State.Basic

/-!
# Classes of equal values

A fact on a value is a fact on all that is known to be equal to it. The class of a value is
searched for by a list that grows while it is walked: each value in turn brings in its equals
that are not listed yet, at the end. The recorded equalities may form chains and cycles of any
length, in either orientation, and stand among relations of other kinds.

The search ends as no value is listed twice, and only the value itself and the ends of the
recorded relations are ever listed. When it ends, the list is closed under recorded equalities.

## Results

* `State.Connected`       — chains of recorded equalities.
* `State.Closes`          — the search for a class, without a bound on its rounds.
* `Searching.round`       — the invariant of the search, which a round keeps.
* `closes_equalClassFrom` — the search ends before its rounds do.
* `mem_equalClass`, `nodup_equalClass` — **what a class holds**, each value once.
* `equalClass_induction`  — what all values of a class share.
-/

namespace Pathwise.State

variable {s t : State} {u v m : ValueId} {old es found todo cls cls' : List ValueId}

-- ---------------------------------------------------------------------------
-- Known equalities
-- ---------------------------------------------------------------------------

/-- **Two values are connected**: a chain of recorded equalities, of any length and each in either
orientation, leads from one to the other. -/
def Connected (s : State) : ValueId → ValueId → Prop :=
  Relation.EqvGen fun u v => ⟨u, .eq, v⟩ ∈ s.links

theorem mem_equals : m ∈ s.equals u ↔ ∃ l ∈ s.links, l.rel = .eq ∧
    (l.left = u ∧ l.right = m ∨ l.left ≠ u ∧ l.right = u ∧ l.left = m) := by
  rw [equals, List.mem_filterMap]
  refine exists_congr fun l => and_congr Iff.rfl ?_
  unfold Link.equalTo?
  split
  · simp_all
  · split
    · simp_all
    · split <;> simp_all

/-- Equalities are looked up in both orientations. -/
theorem mem_equals_iff : m ∈ s.equals u ↔ ⟨u, .eq, m⟩ ∈ s.links ∨ ⟨m, .eq, u⟩ ∈ s.links := by
  rw [mem_equals]
  constructor
  · rintro ⟨⟨x, rel, y⟩, hl, rfl, ⟨rfl, rfl⟩ | ⟨-, rfl, rfl⟩⟩
    · exact Or.inl hl
    · exact Or.inr hl
  · intro h
    rcases h with h | h
    · exact ⟨_, h, rfl, Or.inl ⟨rfl, rfl⟩⟩
    · by_cases hSame : m = u
      · exact ⟨_, h, rfl, Or.inl ⟨hSame, hSame.symm⟩⟩
      · exact ⟨_, h, rfl, Or.inr ⟨hSame, rfl, rfl⟩⟩

theorem Connected.of_mem_equals (h : m ∈ s.equals u) : s.Connected u m := by
  rcases mem_equals_iff.mp h with h | h
  · exact .rel _ _ h
  · exact .symm _ _ (.rel _ _ h)

/-- **Values are connected if no set closed under equals holds only one of them.** -/
theorem Connected.mem_iff {P : ValueId → Prop} (hClosed : ∀ u, P u → ∀ m ∈ s.equals u, P m)
    (h : s.Connected u v) : P u ↔ P v := by
  induction h with
  | rel x y hLink =>
    exact ⟨fun hx => hClosed x hx y (mem_equals_iff.mpr (Or.inl hLink)),
      fun hy => hClosed y hy x (mem_equals_iff.mpr (Or.inr hLink))⟩
  | refl x => exact Iff.rfl
  | symm x y _ ih => exact ih.symm
  | trans x y z _ _ ih ih' => exact ih.trans ih'

/-- The value itself and both ends of each recorded relation. -/
def reach (s : State) (v : ValueId) : List ValueId :=
  v :: s.links.toList.flatMap fun l => [l.left, l.right]

theorem length_reach : (s.reach v).length = 2 * s.links.size + 1 := by
  simp [reach, OrdSet.size, List.length_flatMap, List.map_const', Nat.mul_comm]

/-- Nothing else can be connected to the value. -/
theorem Connected.mem_reach (h : s.Connected v m) : m ∈ s.reach v := by
  refine (h.mem_iff (P := fun m => m ∈ s.reach v) ?_).mp (List.mem_cons_self ..)
  intro u _ m hm
  refine List.mem_cons_of_mem _ (List.mem_flatMap.mpr ?_)
  rcases mem_equals_iff.mp hm with h | h
  · exact ⟨_, h, by simp⟩
  · exact ⟨_, h, by simp⟩

-- ---------------------------------------------------------------------------
-- The search
-- ---------------------------------------------------------------------------

/-- The values still to do, with those of `es` at the end that are neither among them nor old. -/
def extend (old : List ValueId) : List ValueId → List ValueId → List ValueId
  | [], todo => todo
  | e :: es, todo =>
    extend old es (if !(old ++ todo).contains e then todo ++ [e] else todo)

theorem extend_eq_foldl : extend old es todo =
    es.foldl (fun todo u => if !(old ++ todo).contains u then todo ++ [u] else todo) todo := by
  induction es generalizing todo with
  | nil => rfl
  | cons e es ih => exact ih

theorem mem_extend : m ∈ extend old es todo ↔ m ∈ todo ∨ m ∈ es ∧ m ∉ old := by
  induction es generalizing todo with
  | nil => simp [extend]
  | cons e es ih =>
    rw [extend, ih]
    by_cases hNew : e ∈ old ++ todo
    · simp only [List.mem_append] at hNew
      by_cases hSame : m = e
      · subst hSame
        simp [hNew]
        tauto
      · simp [hNew, hSame]
    · simp only [List.mem_append, not_or] at hNew
      by_cases hSame : m = e
      · subst hSame
        simp [hNew]
      · simp [hNew, hSame]

theorem nodup_extend (h : (old ++ todo).Nodup) : (old ++ extend old es todo).Nodup := by
  induction es generalizing todo with
  | nil => exact h
  | cons e es ih =>
    rw [extend]
    refine ih ?_
    split
    · rename_i hNew
      rw [← List.append_assoc]
      simp only [Bool.not_eq_true', List.contains_eq_mem, decide_eq_false_iff_not] at hNew
      exact List.nodup_append.mpr ⟨h, List.nodup_singleton e, by
        intro x hx y hy hSame
        rw [List.mem_singleton.mp hy] at hSame
        exact hNew (hSame ▸ hx)⟩
    · exact h

/-- **The search for a class**, round by round: from the values found and those still to do, it
ends with the list `cls`. No bound is set to its rounds. -/
inductive Closes (s : State) : List ValueId → List ValueId → List ValueId → Prop where
  | done {found : List ValueId} : Closes s found [] found
  | round {found todo cls : List ValueId} {u : ValueId} :
      Closes s (found ++ [u]) (extend (found ++ [u]) (s.equals u) todo) cls →
      Closes s found (u :: todo) cls

/-- The search has one outcome at most. -/
theorem Closes.unique (h : s.Closes found todo cls) (h' : s.Closes found todo cls') :
    cls = cls' := by
  induction h with
  | done =>
    cases h'
    rfl
  | round _ ih =>
    cases h' with
    | round hRest => exact ih hRest

theorem equalClassFrom_cons {n : Nat} : s.equalClassFrom (n + 1) found (u :: todo) =
    s.equalClassFrom n (found ++ [u]) (extend (found ++ [u]) (s.equals u) todo) := by
  rw [equalClassFrom, extend_eq_foldl]
  simp

/-- **The invariant of the search.** What is listed is connected to the value that the search is
for, and what is found has brought in its equals. -/
structure Searching (s : State) (v : ValueId) (found todo : List ValueId) : Prop where
  nodup     : (found ++ todo).Nodup
  itself    : v ∈ found ++ todo
  connected : ∀ m ∈ found ++ todo, s.Connected v m
  closed    : ∀ u ∈ found, ∀ m ∈ s.equals u, m ∈ found ++ todo

theorem searching_start : s.Searching v [] [v] where
  nodup := List.nodup_singleton v
  itself := List.mem_singleton.mpr rfl
  connected m hm := by
    rw [List.mem_singleton.mp hm]
    exact .refl v
  closed := nofun

/-- **A round keeps the invariant.** It lists the equals of its value in addition. -/
theorem Searching.round (h : s.Searching v found (u :: todo)) :
    s.Searching v (found ++ [u]) (extend (found ++ [u]) (s.equals u) todo) := by
  have hMem : ∀ m, m ∈ found ++ [u] ++ extend (found ++ [u]) (s.equals u) todo ↔
      m ∈ found ++ u :: todo ∨ m ∈ s.equals u := by
    intro m
    simp only [List.mem_append, List.mem_cons, mem_extend]
    tauto
  have hu : s.Connected v u := h.connected u (by simp)
  refine ⟨nodup_extend (by simpa using h.nodup), (hMem v).mpr (Or.inl h.itself), ?_, ?_⟩
  · intro m hm
    rcases (hMem m).mp hm with hm | hm
    · exact h.connected m hm
    · exact .trans _ _ _ hu (Connected.of_mem_equals hm)
  · intro x hx m hm
    rw [hMem]
    rcases List.mem_append.mp hx with hx | hx
    · exact Or.inl (h.closed x hx m hm)
    · rw [List.mem_singleton.mp hx] at hm
      exact Or.inr hm

/-- The whole search keeps it, by induction on the rounds. -/
theorem Searching.closes (h : s.Searching v found todo) (hEnds : s.Closes found todo cls) :
    s.Searching v cls [] := by
  induction hEnds with
  | done => exact h
  | round _ ih => exact ih h.round

/-- **What is listed in the end** is what is connected to the value. -/
theorem Searching.mem_iff (h : s.Searching v cls []) : m ∈ cls ↔ s.Connected v m := by
  have hItself := h.itself
  have hConnected := h.connected
  have hClosed := h.closed
  simp only [List.append_nil] at hItself hConnected hClosed
  constructor
  · exact hConnected m
  · intro hm
    exact (hm.mem_iff (P := fun m => m ∈ cls) hClosed).mp hItself

/-- There are rounds enough while there are as many as values may still be listed. -/
theorem closes_equalClassFrom {n : Nat} (h : s.Searching v found todo)
    (hRounds : (s.reach v).length ≤ found.length + n) :
    s.Closes found todo (s.equalClassFrom n found todo) := by
  induction n generalizing found todo with
  | zero =>
    -- all that may be listed has been found
    have hListed : (found ++ todo).length ≤ (s.reach v).length :=
      (List.subperm_of_subset h.nodup fun m hm => (h.connected m hm).mem_reach).length_le
    have hNone : todo = [] := by
      rw [List.length_append] at hListed
      exact List.eq_nil_of_length_eq_zero (by omega)
    subst hNone
    exact .done
  | succ n ih =>
    cases todo with
    | nil => exact .done
    | cons u todo =>
      rw [equalClassFrom_cons]
      refine .round (ih h.round ?_)
      rw [List.length_append, List.length_singleton]
      omega

/-- The search for the class of a value ends. -/
theorem closes_equalClass : s.Closes [] [v] (s.equalClass v) :=
  closes_equalClassFrom searching_start (by simp [length_reach])

theorem searching_equalClass : s.Searching v (s.equalClass v) [] :=
  searching_start.closes closes_equalClass

theorem mem_equalClass : m ∈ s.equalClass v ↔ s.Connected v m := searching_equalClass.mem_iff

theorem nodup_equalClass : (s.equalClass v).Nodup := by
  simpa using searching_equalClass (s := s) (v := v).nodup

/-- A value equals itself. -/
theorem mem_equalClass_self : v ∈ s.equalClass v := mem_equalClass.mpr (.refl v)

/-- **What a recorded equality does not change** is the same for all values known to be equal. -/
theorem equalClass_induction {P : ValueId → Prop} (hv : P v)
    (hLinks : ∀ l ∈ s.links, l.rel = .eq → (P l.left ↔ P l.right)) (hm : m ∈ s.equalClass v) :
    P m := by
  have hClosed : ∀ u, P u → ∀ m ∈ s.equals u, P m := by
    intro u hu m hm
    rcases mem_equals_iff.mp hm with hLink | hLink
    · exact (hLinks _ hLink rfl).mp hu
    · exact (hLinks _ hLink rfl).mpr hu
  exact ((mem_equalClass.mp hm).mem_iff hClosed).mp hv

/-- What is known to be equal depends on the recorded relations only. -/
theorem equalClass_congr (hLinks : t.links = s.links) : t.equalClass v = s.equalClass v := by
  have hEquals : ∀ v, t.equals v = s.equals v := fun v => by rw [equals, equals, hLinks]
  have hFrom : ∀ n found todo, t.equalClassFrom n found todo = s.equalClassFrom n found todo := by
    intro n
    induction n with
    | zero =>
      intro found todo
      cases todo <;> rfl
    | succ n ih =>
      intro found todo
      cases todo with
      | nil => rfl
      | cons v todo => rw [equalClassFrom, equalClassFrom, hEquals, ih]
  rw [equalClass, equalClass, hFrom, hLinks]

end Pathwise.State
