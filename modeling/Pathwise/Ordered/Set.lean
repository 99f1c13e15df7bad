/-!
# Ordered finite sets

A finite set over an ordered type is held as the strictly ascending list of its
members. The list is the only one with those members, so equality of sets is
equality of lists (`OrdSet.ext_mem`), and every traversal meets the members in
ascending order.

## Results

* `OrdSet.mem_insert`, `OrdSet.mem_union`, `OrdSet.mem_filter`, `OrdSet.mem_ofList` —
  one membership law per operation.
* `OrdSet.ext_mem` — two sets with the same members are equal.
-/

namespace Pathwise

open Std

/-- A finite set, held as the ascending list of its members. -/
structure OrdSet (α : Type) [Ord α] where
  /-- The members, in ascending order. -/
  toList : List α
  ascending : toList.Pairwise (compare · · = .lt)

namespace OrdSet

variable {α : Type} [Ord α]

theorem toList_inj {s t : OrdSet α} (h : s.toList = t.toList) : s = t := by
  cases s
  cases t
  simp_all

instance [DecidableEq α] : DecidableEq (OrdSet α) := fun s t =>
  decidable_of_iff (s.toList = t.toList) ⟨toList_inj, fun h => h ▸ rfl⟩

instance : Membership α (OrdSet α) := ⟨fun s x => x ∈ s.toList⟩

instance [DecidableEq α] (x : α) (s : OrdSet α) : Decidable (x ∈ s) :=
  inferInstanceAs (Decidable (x ∈ s.toList))

/-- The set without members. -/
def empty : OrdSet α := ⟨[], .nil⟩

instance : EmptyCollection (OrdSet α) := ⟨empty⟩

instance : Inhabited (OrdSet α) := ⟨empty⟩

/-- Whether the set has no members. -/
def isEmpty (s : OrdSet α) : Bool := s.toList.isEmpty

/-- The number of members. -/
def size (s : OrdSet α) : Nat := s.toList.length

/-- The least member. -/
def min? (s : OrdSet α) : Option α := s.toList.head?

/-- The members that pass a test. -/
def filter (p : α → Bool) (s : OrdSet α) : OrdSet α := ⟨s.toList.filter p, s.ascending.filter p⟩

/-- Whether some member passes a test. -/
def any (s : OrdSet α) (p : α → Bool) : Bool := s.toList.any p

/-- Whether every member passes a test. -/
def all (s : OrdSet α) (p : α → Bool) : Bool := s.toList.all p

theorem mem_def {s : OrdSet α} {x : α} : x ∈ s ↔ x ∈ s.toList := Iff.rfl

/-! ## Insertion -/

/-- Puts a value at its place in an ascending list, unless the list has it already. -/
def place (x : α) : List α → List α
  | [] => [x]
  | y :: ys =>
    match compare x y with
    | .lt => x :: y :: ys
    | .eq => y :: ys
    | .gt => y :: place x ys

theorem mem_place [LawfulEqOrd α] {x a : α} {l : List α} : a ∈ place x l ↔ a = x ∨ a ∈ l := by
  induction l with
  | nil => simp [place]
  | cons y ys ih =>
    rw [place]
    split
    · simp
    · rename_i h
      have := LawfulEqOrd.eq_of_compare h
      subst this
      simp
    · simp [ih, or_left_comm]

@[simp] theorem not_mem_empty {x : α} : ¬ x ∈ (empty : OrdSet α) := by simp [mem_def, empty]

@[simp] theorem mem_filter {s : OrdSet α} {p : α → Bool} {a : α} :
    a ∈ s.filter p ↔ a ∈ s ∧ p a = true := by simp [mem_def, filter]

variable [TransOrd α] [LawfulEqOrd α]

theorem ascending_place {x : α} {l : List α} (h : l.Pairwise (compare · · = .lt)) :
    (place x l).Pairwise (compare · · = .lt) := by
  induction l with
  | nil => simp [place]
  | cons y ys ih =>
    obtain ⟨hy, hys⟩ := List.pairwise_cons.mp h
    rw [place]
    split
    · rename_i hxy
      refine List.pairwise_cons.mpr ⟨fun a ha => ?_, h⟩
      rcases List.mem_cons.mp ha with rfl | ha
      · exact hxy
      · exact TransCmp.lt_trans hxy (hy a ha)
    · exact h
    · rename_i hxy
      refine List.pairwise_cons.mpr ⟨fun a ha => ?_, ih hys⟩
      rcases mem_place.mp ha with rfl | ha
      · exact OrientedCmp.lt_of_gt hxy
      · exact hy a ha

/-- The set with one more member. -/
def insert (s : OrdSet α) (x : α) : OrdSet α := ⟨place x s.toList, ascending_place s.ascending⟩

/-- The members of either set. -/
def union (s t : OrdSet α) : OrdSet α := t.toList.foldl insert s

/-- The set of a list's elements. -/
def ofList (l : List α) : OrdSet α := l.foldl insert empty

/-! ## Membership -/

@[simp] theorem mem_insert {s : OrdSet α} {x a : α} : a ∈ s.insert x ↔ a = x ∨ a ∈ s := mem_place

theorem mem_foldl_insert {l : List α} {s : OrdSet α} {a : α} :
    a ∈ l.foldl insert s ↔ a ∈ s ∨ a ∈ l := by
  induction l generalizing s with
  | nil => simp
  | cons x xs ih =>
    rw [List.foldl_cons, ih, mem_insert, List.mem_cons, or_assoc, or_left_comm]

@[simp] theorem mem_union {s t : OrdSet α} {a : α} : a ∈ s.union t ↔ a ∈ s ∨ a ∈ t :=
  mem_foldl_insert

@[simp] theorem mem_ofList {l : List α} {a : α} : a ∈ ofList l ↔ a ∈ l := by
  simp [ofList, mem_foldl_insert]

/-- Ascending lists with the same elements are the same list. -/
theorem eq_of_mem_iff {l m : List α} (hl : l.Pairwise (compare · · = .lt))
    (hm : m.Pairwise (compare · · = .lt)) (h : ∀ a, a ∈ l ↔ a ∈ m) : l = m := by
  induction l generalizing m with
  | nil =>
    cases m with
    | nil => rfl
    | cons b bs => exact absurd ((h b).mpr (List.mem_cons_self ..)) (by simp)
  | cons a as ih =>
    cases m with
    | nil => exact absurd ((h a).mp (List.mem_cons_self ..)) (by simp)
    | cons b bs =>
      obtain ⟨ha, has⟩ := List.pairwise_cons.mp hl
      obtain ⟨hb, hbs⟩ := List.pairwise_cons.mp hm
      have irrefl : ∀ x : α, compare x x ≠ .lt := fun x => by simp [ReflCmp.compare_self]
      have hab : a = b := by
        rcases List.mem_cons.mp ((h a).mp (List.mem_cons_self ..)) with hab | hab
        · exact hab
        rcases List.mem_cons.mp ((h b).mpr (List.mem_cons_self ..)) with hba | hba
        · exact hba.symm
        exact absurd (TransCmp.lt_trans (ha b hba) (hb a hab)) (irrefl a)
      subst hab
      rw [ih has hbs]
      intro c
      constructor
      · intro hc
        rcases List.mem_cons.mp ((h c).mp (List.mem_cons_of_mem _ hc)) with rfl | hc'
        · exact absurd (ha c hc) (irrefl c)
        · exact hc'
      · intro hc
        rcases List.mem_cons.mp ((h c).mpr (List.mem_cons_of_mem _ hc)) with rfl | hc'
        · exact absurd (hb c hc) (irrefl c)
        · exact hc'

/-- Two sets with the same members are equal. -/
theorem ext_mem {s t : OrdSet α} (h : ∀ a, a ∈ s ↔ a ∈ t) : s = t := by
  obtain ⟨l, hl⟩ := s
  obtain ⟨m, hm⟩ := t
  have : l = m := eq_of_mem_iff hl hm h
  subst this
  rfl

end OrdSet

end Pathwise
