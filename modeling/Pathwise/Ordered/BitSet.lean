/-!
# Bit sets

A finite set of small numbers is held as a list of words of 64 bits, in which a number `i`
is bit `i % 64` of word `i / 64`. The list grows when a member needs it, and its last word
is never zero. So there is one list of words for each set, and equality of sets is equality
of words (`BitSet.ext_contains`).

## Results

* `BitSet.contains_insert`, `BitSet.insert_isNew` — what an insertion adds, and what it tells.
* `BitSet.isEmpty_iff`, `BitSet.ext_contains`     — a set is determined by its members.
-/

namespace Pathwise

/-- A finite set of small numbers, a bit for each. -/
structure BitSet where
  /-- The words, the one for the least numbers first. -/
  words : List (BitVec 64)
  trimmed : words.getLast? ≠ some 0#64

namespace BitSet

theorem words_inj {s t : BitSet} (h : s.words = t.words) : s = t := by
  cases s
  cases t
  simp_all

instance : DecidableEq BitSet := fun s t =>
  decidable_of_iff (s.words = t.words) ⟨words_inj, fun h => h ▸ rfl⟩

/-- The set without members. -/
def empty : BitSet := ⟨[], by simp⟩

instance : EmptyCollection BitSet := ⟨empty⟩

instance : Inhabited BitSet := ⟨empty⟩

/-- Whether the set has no members. -/
def isEmpty (s : BitSet) : Bool := s.words.isEmpty

/-- The word in which only the bit of a number is set. -/
def mask (i : Nat) : BitVec 64 := .twoPow 64 (i % 64)

/-- Whether a number is a member. -/
def contains (s : BitSet) (i : Nat) : Bool :=
  match s.words[i / 64]? with
  | some w => w &&& mask i != 0#64
  | none => false

variable {s t : BitSet} {w : BitVec 64} {ws : List (BitVec 64)} {i j k n : Nat}

/-! ## Bits -/

theorem getLsbD_mask : (mask i).getLsbD k = decide (i % 64 = k) := by
  have : i % 64 < 64 := Nat.mod_lt _ (by decide)
  simp [mask, this]

/-- A mask tests one bit. -/
theorem and_mask : (w &&& mask i != 0#64) = w.getLsbD (i % 64) := by
  have hMask : mask i ≠ 0#64 := by
    intro h
    have hBit : (mask i).getLsbD (i % 64) = true := by simp [getLsbD_mask]
    simp [h] at hBit
  rw [show w &&& mask i = if w.getLsbD (i % 64) then mask i else 0#64 from BitVec.and_twoPow ..]
  split <;> simp_all

theorem or_mask_ne_zero : w ||| mask i ≠ 0#64 := by
  intro h
  have hBit : (w ||| mask i).getLsbD (i % 64) = true := by simp [getLsbD_mask]
  simp [h] at hBit

/-- A word of the set. Past the last one all words are zero. -/
def word (s : BitSet) (k : Nat) : BitVec 64 := s.words[k]?.getD 0#64

theorem contains_eq : s.contains i = (s.word (i / 64)).getLsbD (i % 64) := by
  unfold contains word
  split
  · rename_i h
    rw [h, and_mask]
    rfl
  · rename_i h
    simp [h]

/-! ## Members -/

/-- Where the words agree, no list of them is longer: its last word would be zero. -/
theorem length_le_of_word (h : ∀ k, s.word k = t.word k) : t.words.length ≤ s.words.length := by
  refine Nat.le_of_not_lt fun hLonger => ?_
  have hLast := h (t.words.length - 1)
  have hPast : s.words[t.words.length - 1]? = none := List.getElem?_eq_none (by omega)
  have hTrimmed := t.trimmed
  rw [List.getLast?_eq_getElem?] at hTrimmed
  rw [word, word, hPast, List.getElem?_eq_getElem (by omega)] at hLast
  rw [List.getElem?_eq_getElem (by omega)] at hTrimmed
  exact hTrimmed (congrArg some hLast.symm)

/-- **Two sets with the same members are equal.** -/
theorem ext_contains (h : ∀ i, s.contains i = t.contains i) : s = t := by
  have hWord : ∀ k, s.word k = t.word k := by
    intro k
    refine BitVec.eq_of_getLsbD_eq fun b hb => ?_
    have hBit := h (64 * k + b)
    rw [contains_eq, contains_eq] at hBit
    have hDiv : (64 * k + b) / 64 = k := by omega
    have hMod : (64 * k + b) % 64 = b := by omega
    rwa [hDiv, hMod] at hBit
  have hLength : s.words.length = t.words.length :=
    Nat.le_antisymm (length_le_of_word fun k => (hWord k).symm) (length_le_of_word hWord)
  refine words_inj (List.ext_getElem hLength fun k hs ht => ?_)
  have hSame := hWord k
  rwa [word, word, List.getElem?_eq_getElem hs, List.getElem?_eq_getElem ht] at hSame

@[simp] theorem contains_empty : empty.contains i = false := by
  simp [contains_eq, word, empty]

theorem isEmpty_iff : s.isEmpty = true ↔ ∀ i, s.contains i = false := by
  constructor
  · intro h i
    simp_all [isEmpty, contains_eq, word]
  · intro h
    have : s = empty := ext_contains fun i => by rw [h, contains_empty]
    simp [this, isEmpty, empty]

/-! ## Insertion -/

/-- The words with zero words put at the end, so that there are at least `n`. -/
def padded (n : Nat) (ws : List (BitVec 64)) : List (BitVec 64) :=
  ws ++ List.replicate (n - ws.length) 0#64

/-- The words with the bit of a number set. -/
def setBit (ws : List (BitVec 64)) (i : Nat) : List (BitVec 64) :=
  let ws := padded (i / 64 + 1) ws
  ws.set (i / 64) (ws[i / 64]?.getD 0#64 ||| mask i)

theorem length_padded : (padded n ws).length = max ws.length n := by
  simp [padded]
  omega

theorem getD_padded : (padded n ws)[k]?.getD 0#64 = ws[k]?.getD 0#64 := by
  rw [padded, List.getElem?_append]
  split
  · rfl
  · rename_i h
    rw [List.getElem?_replicate, List.getElem?_eq_none (by omega)]
    split <;> rfl

theorem getElem?_setBit : (setBit ws i)[k]? =
    if i / 64 = k then some (ws[k]?.getD 0#64 ||| mask i) else (padded (i / 64 + 1) ws)[k]? := by
  have hInside : i / 64 < (padded (i / 64 + 1) ws).length := by
    rw [length_padded]
    omega
  rw [setBit, List.getElem?_set, if_pos hInside, getD_padded]
  split
  · rename_i h
    rw [h]
  · rfl

/-- The word that is last has a bit that was set now, or was last before. -/
theorem trimmed_setBit (h : ws.getLast? ≠ some 0#64) : (setBit ws i).getLast? ≠ some 0#64 := by
  have hLength : (setBit ws i).length = max ws.length (i / 64 + 1) := by
    simp [setBit, length_padded]
  rw [List.getLast?_eq_getElem?, hLength, getElem?_setBit]
  split
  · simpa using or_mask_ne_zero
  · -- the list has not grown
    have hSame : padded (i / 64 + 1) ws = ws := by
      have : i / 64 + 1 - ws.length = 0 := by omega
      simp [padded, this]
    rw [hSame, show max ws.length (i / 64 + 1) - 1 = ws.length - 1 by omega,
      ← List.getLast?_eq_getElem?]
    exact h

/-- The set with one more member, and whether that is new. -/
def insert (s : BitSet) (i : Nat) : BitSet × Bool :=
  (⟨setBit s.words i, trimmed_setBit s.trimmed⟩, s.word (i / 64) &&& mask i == 0#64)

theorem insert_isNew : (s.insert i).2 = !s.contains i := by
  rw [contains_eq, ← and_mask]
  simp [insert, bne]

@[simp] theorem contains_insert : (s.insert i).1.contains j = (decide (j = i) || s.contains j) := by
  have hWord : (s.insert i).1.word (j / 64) =
      if i / 64 = j / 64 then s.word (j / 64) ||| mask i else s.word (j / 64) := by
    simp only [word, insert, getElem?_setBit]
    split
    · rfl
    · exact getD_padded
  rw [contains_eq, contains_eq, hWord]
  by_cases h : i / 64 = j / 64
  · have hBit : i % 64 = j % 64 ↔ j = i := by omega
    simp [h, getLsbD_mask, hBit, Bool.or_comm]
  · have hOther : j ≠ i := fun hSame => h (by rw [hSame])
    simp [h, hOther]

/-- The set of a list's elements. -/
def ofList (l : List Nat) : BitSet := l.foldl (fun s i => (s.insert i).1) empty

theorem contains_foldl_insert {l : List Nat} :
    (l.foldl (fun s i => (s.insert i).1) s).contains j = (decide (j ∈ l) || s.contains j) := by
  induction l generalizing s with
  | nil => simp
  | cons i l ih => simp [ih, Bool.or_left_comm, Bool.or_assoc]

@[simp] theorem contains_ofList {l : List Nat} : (ofList l).contains j = decide (j ∈ l) := by
  simp [ofList, contains_foldl_insert]

end BitSet

end Pathwise
