import Pathwise.Ordered.Set

/-!
# Ordered finite maps

A finite map is held as the list of its entries in ascending order of their
keys. As for sets, the list is determined by the look-ups, so equality of maps
is extensional (`OrdMap.ext_get?`) and every traversal meets the keys in order.

## Results

* `OrdMap.get?_insert`, `OrdMap.get?_erase` — what each operation does to look-ups.
* `OrdMap.ext_get?` — two maps with the same look-ups are equal.
-/

namespace Pathwise

open Std

/-- A finite map, held as its entries in ascending order of keys. -/
structure OrdMap (κ β : Type) [Ord κ] where
  /-- The entries, in ascending order of keys. -/
  entries : List (κ × β)
  ascending : entries.Pairwise fun e f => compare e.1 f.1 = .lt

namespace OrdMap

variable {κ β : Type} [Ord κ]

instance [DecidableEq κ] [DecidableEq β] : DecidableEq (OrdMap κ β) := fun m n =>
  decidable_of_iff (m.entries = n.entries) ⟨fun h => by cases m; cases n; simp_all, fun h => h ▸ rfl⟩

/-- The map without entries. -/
def empty : OrdMap κ β := ⟨[], .nil⟩

instance : EmptyCollection (OrdMap κ β) := ⟨empty⟩

instance : Inhabited (OrdMap κ β) := ⟨empty⟩

/-- The keys, in ascending order. -/
def keys (m : OrdMap κ β) : List κ := m.entries.map (·.1)

/-- The number of entries. -/
def size (m : OrdMap κ β) : Nat := m.entries.length

/-- Looks a key up in a list of entries. -/
def find [DecidableEq κ] (k : κ) : List (κ × β) → Option β
  | [] => none
  | e :: es => if e.1 = k then some e.2 else find k es

/-- The value at a key. -/
def get? [DecidableEq κ] (m : OrdMap κ β) (k : κ) : Option β := find k m.entries

/-- Whether the map has a key. -/
def contains [DecidableEq κ] (m : OrdMap κ β) (k : κ) : Bool := (m.get? k).isSome

/-- The map without a key. -/
def erase [DecidableEq κ] (m : OrdMap κ β) (k : κ) : OrdMap κ β :=
  ⟨m.entries.filter fun e => decide (e.1 ≠ k), m.ascending.filter _⟩

omit [Ord κ] in
theorem mem_of_find_eq_some [DecidableEq κ] {l : List (κ × β)} {k : κ} {v : β} (h : find k l = some v) :
    (k, v) ∈ l := by
  induction l with
  | nil => simp [find] at h
  | cons e es ih =>
    rw [find] at h
    split at h
    · rename_i hk
      cases h
      subst hk
      exact List.mem_cons_self ..
    · exact List.mem_cons_of_mem _ (ih h)

@[simp] theorem get?_empty [DecidableEq κ] {k : κ} : (empty : OrdMap κ β).get? k = none := rfl

@[simp] theorem get?_erase [DecidableEq κ] {m : OrdMap κ β} {k a : κ} :
    (m.erase k).get? a = if k = a then none else m.get? a := by
  unfold get? erase
  simp only
  induction m.entries with
  | nil => simp [find]
  | cons e es ih =>
    by_cases he : e.1 = k
    · rw [List.filter_cons_of_neg (by simp [he]), ih, find]
      by_cases ha : k = a
      · simp [ha]
      · simp [ha, he]
    · rw [List.filter_cons_of_pos (by simp [he]), find, ih, find]
      by_cases ha : k = a
      · subst ha
        simp [he]
      · simp [ha]

/-! ## Insertion -/

/-- Puts an entry at its place in an ascending list, replacing the entry of its key. -/
def place (k : κ) (v : β) : List (κ × β) → List (κ × β)
  | [] => [(k, v)]
  | e :: es =>
    match compare k e.1 with
    | .lt => (k, v) :: e :: es
    | .eq => (k, v) :: es
    | .gt => e :: place k v es

theorem fst_mem_place [LawfulEqOrd κ] {k : κ} {v : β} {l : List (κ × β)} {e : κ × β}
    (h : e ∈ place k v l) : e.1 = k ∨ e ∈ l := by
  induction l with
  | nil => simp_all [place]
  | cons f fs ih =>
    rw [place] at h
    split at h
    · rcases List.mem_cons.mp h with rfl | h
      · exact .inl rfl
      · exact .inr h
    · rcases List.mem_cons.mp h with rfl | h
      · exact .inl rfl
      · exact .inr (List.mem_cons_of_mem _ h)
    · rcases List.mem_cons.mp h with rfl | h
      · exact .inr (List.mem_cons_self ..)
      · exact (ih h).imp_right (List.mem_cons_of_mem _)

variable [LawfulEqOrd κ]

theorem find_place [DecidableEq κ] {k a : κ} {v : β} {l : List (κ × β)} :
    find a (place k v l) = if k = a then some v else find a l := by
  induction l with
  | nil => simp [place, find]
  | cons e es ih =>
    rw [place]
    split
    · rw [find]
    · rename_i h
      have := LawfulEqOrd.eq_of_compare h
      subst this
      by_cases hk : e.1 = a <;> simp [find, hk]
    · rename_i h
      have hne : k ≠ e.1 := fun he => by simp [he] at h
      rw [find, ih, find]
      by_cases hk : k = a
      · subst hk
        simp [Ne.symm hne]
      · simp [hk]

variable [TransOrd κ]

/-- Ascending entry lists with the same elements are the same list. -/
theorem eq_of_mem_iff {l m : List (κ × β)} (hl : l.Pairwise fun e f => compare e.1 f.1 = .lt)
    (hm : m.Pairwise fun e f => compare e.1 f.1 = .lt) (h : ∀ e, e ∈ l ↔ e ∈ m) : l = m := by
  have irrefl : ∀ x : κ, compare x x ≠ .lt := fun x => by simp [ReflCmp.compare_self]
  induction l generalizing m with
  | nil =>
    cases m with
    | nil => rfl
    | cons b bs => exact absurd ((h b).mpr (List.mem_cons_self ..)) (by simp)
  | cons a as ih =>
    cases m with
    | nil => exact absurd ((h a).mp (List.mem_cons_self ..)) (by simp)
    | cons b bs =>
      obtain ⟨ha, has⟩ := List.pairwise_cons.mp hl
      obtain ⟨hb, hbs⟩ := List.pairwise_cons.mp hm
      have hab : a = b := by
        rcases List.mem_cons.mp ((h a).mp (List.mem_cons_self ..)) with hab | hab
        · exact hab
        rcases List.mem_cons.mp ((h b).mpr (List.mem_cons_self ..)) with hba | hba
        · exact hba.symm
        exact absurd (TransCmp.lt_trans (ha b hba) (hb a hab)) (irrefl a.1)
      subst hab
      rw [ih has hbs]
      intro c
      constructor
      · intro hc
        rcases List.mem_cons.mp ((h c).mp (List.mem_cons_of_mem _ hc)) with rfl | hc'
        · exact absurd (ha c hc) (irrefl c.1)
        · exact hc'
      · intro hc
        rcases List.mem_cons.mp ((h c).mpr (List.mem_cons_of_mem _ hc)) with rfl | hc'
        · exact absurd (hb c hc) (irrefl c.1)
        · exact hc'

theorem ascending_place {k : κ} {v : β} {l : List (κ × β)}
    (h : l.Pairwise fun e f => compare e.1 f.1 = .lt) :
    (place k v l).Pairwise fun e f => compare e.1 f.1 = .lt := by
  induction l with
  | nil => simp [place]
  | cons f fs ih =>
    obtain ⟨hf, hfs⟩ := List.pairwise_cons.mp h
    rw [place]
    split
    · rename_i hkf
      refine List.pairwise_cons.mpr ⟨fun e he => ?_, h⟩
      rcases List.mem_cons.mp he with rfl | he
      · exact hkf
      · exact TransCmp.lt_trans hkf (hf e he)
    · rename_i hkf
      refine List.pairwise_cons.mpr ⟨fun e he => ?_, hfs⟩
      rw [LawfulEqOrd.eq_of_compare hkf]
      exact hf e he
    · rename_i hkf
      refine List.pairwise_cons.mpr ⟨fun e he => ?_, ih hfs⟩
      rcases fst_mem_place he with hk | he
      · rw [hk]
        exact OrientedCmp.lt_of_gt hkf
      · exact hf e he

/-- The map with a value put at a key, in place of any value there. -/
def insert (m : OrdMap κ β) (k : κ) (v : β) : OrdMap κ β :=
  ⟨place k v m.entries, ascending_place m.ascending⟩

/-- The map of a list of entries, later ones in place of earlier ones. -/
def ofList (l : List (κ × β)) : OrdMap κ β := l.foldl (fun m e => m.insert e.1 e.2) empty

/-! ## Look-ups -/

variable [DecidableEq κ]

@[simp] theorem get?_insert {m : OrdMap κ β} {k a : κ} {v : β} :
    (m.insert k v).get? a = if k = a then some v else m.get? a := find_place

omit [TransOrd κ] in
theorem find_eq_some_of_mem {l : List (κ × β)}
    (h : l.Pairwise fun e f => compare e.1 f.1 = .lt) {e : κ × β} (he : e ∈ l) :
    find e.1 l = some e.2 := by
  induction l with
  | nil => simp at he
  | cons f fs ih =>
    obtain ⟨hf, hfs⟩ := List.pairwise_cons.mp h
    rcases List.mem_cons.mp he with rfl | he
    · simp [find]
    · have hne : f.1 ≠ e.1 := fun heq => by
        have := hf e he
        simp [heq] at this
      rw [find, if_neg hne]
      exact ih hfs he

omit [TransOrd κ] in
/-- The entries are exactly the look-ups. -/
theorem mem_entries_iff {m : OrdMap κ β} {k : κ} {v : β} :
    (k, v) ∈ m.entries ↔ m.get? k = some v :=
  ⟨fun h => find_eq_some_of_mem m.ascending h, mem_of_find_eq_some⟩

omit [TransOrd κ] in
/-- The keys are exactly the places where a look-up succeeds. -/
theorem mem_keys_iff {m : OrdMap κ β} {k : κ} : k ∈ m.keys ↔ (m.get? k).isSome = true := by
  rw [keys, List.mem_map, Option.isSome_iff_exists]
  constructor
  · rintro ⟨e, he, rfl⟩
    exact ⟨e.2, mem_entries_iff.mp he⟩
  · rintro ⟨v, hv⟩
    exact ⟨(k, v), mem_entries_iff.mpr hv, rfl⟩

/-- Two maps with the same look-ups are equal. -/
theorem ext_get? {m n : OrdMap κ β} (h : ∀ k, m.get? k = n.get? k) : m = n := by
  have : m.entries = n.entries := eq_of_mem_iff m.ascending n.ascending fun ⟨k, v⟩ => by
    rw [mem_entries_iff, mem_entries_iff, h]
  cases m
  cases n
  simp_all

end OrdMap

end Pathwise
