import Pathwise.Proofs.Accesses
import Pathwise.Proofs.Arithmetic

/-!
# Concatenation

A running program joins strings of 16-bit units, while constants are texts of characters, of which
some have two units. So texts are compared by their units: those of two texts that are joined are
the units of the first followed by those of the second, and their number is the length that the
analysis counts (`Text.length_encoded`).

Two constants are joined to a constant if it is not too long. Of anything else only the length is
known, from the lengths of the operands. These are variables that are asked for, and come with what
is known of them, or are told by the facts on the operands. Their sum may be too great for an `int`,
and then the range of the sum says nothing, but no string is that long. If the sum is zero there is
a constant again, the empty one.

An object of known length is a string of this length only if the length that is there with it is
right, which is not known of it and has to be said (`State.DenotesString`).

## Results

* `Text.encoded`               — a text in 16-bit units, as many as it is long.
* `Fact.AdmitsString`          — a fact that tells the truth of a string.
* `Fact.mem_concatLength`      — the length of two strings that are joined.
* `State.DenotesString.length` — the length of an operand that stands for a string.
* `perform_concat_fact`        — the fact on the value that is pushed.
* `perform_concat_sound`       — **two strings are joined soundly and within the budget**.
-/

namespace Pathwise

-- ---------------------------------------------------------------------------
-- Texts in units
-- ---------------------------------------------------------------------------

namespace Text

variable {s t : String} {c : Char}

/-- The 16-bit units of a character: one, or two that stand for what is beyond 16 bits. -/
def encodedChar (c : Char) : List UInt16 :=
  if c.toNat < 0x10000 then [.ofNat c.toNat]
  else
    [.ofNat (0xD800 + (c.toNat - 0x10000) / 0x400), .ofNat (0xDC00 + (c.toNat - 0x10000) % 0x400)]

/-- **A text in 16-bit units.** -/
def encoded (s : String) : List UInt16 := s.toList.flatMap encodedChar

theorem length_encodedChar : (encodedChar c).length = charUnits c := by
  unfold encodedChar charUnits
  split <;> rfl

/-- The units of a text are counted by its length. -/
theorem length_encoded : (encoded s).length = units s := by
  unfold encoded units
  induction s.toList with
  | nil => rfl
  | cons c l ih =>
    rw [List.flatMap_cons, List.length_append, ih, length_encodedChar, List.foldl_cons,
      foldl_add_charUnits l (0 + charUnits c), Nat.zero_add]

/-- Texts are joined as their units are. -/
theorem encoded_append : encoded (s ++ t) = encoded s ++ encoded t := by
  rw [encoded, String.toList_append, List.flatMap_append]
  rfl

example : encoded (String.ofList ['a', Char.ofNat 0x1F600]) = [0x61, 0xD83D, 0xDE00] := by
  decide +kernel

end Text

-- ---------------------------------------------------------------------------
-- Strings
-- ---------------------------------------------------------------------------

/-- **The object is a string** of these units. -/
structure World.IsString (w : World) (o : Nat) (x : List UInt16) : Prop where
  classOf : w.classOf o = .string
  length  : w.length? .string o = some x.length
  literal : ∀ c, w.literal? o = some (.string c) → Text.encoded c = x

namespace Fact

variable {w : World} {f g : Fact} {r : Range} {c : String} {z : List UInt16} {m n : Int}
  {hm : m ∈ Range.full} {hn : n ∈ Range.full}

/-- **The fact tells the truth of a string**: it is a reference to an object of the very class of
strings, not null, of the length that the string has, and to a constant only if that has the units
of the string. An object that is the string is as described, and the constant if there is one. -/
structure AdmitsString (w : World) (f : Fact) (z : List UInt16) : Prop where
  known    : f.bound.known? = some .string
  notNull  : f.nullness = .notNull
  length   : ∃ hn, (f.lengthFact .string).Admits w (.int z.length hn)
  constant : ∀ l, f.info?.bind (·.literal) = some l → ∃ c, l = .string c ∧ Text.encoded c = z
  object   : ∀ o, w.IsString o z →
    (∀ l, f.info?.bind (·.literal) = some l → w.literal? o = some l) → f.Admits w (.object o)

theorem length_mem_lengths (h : (z.length : Int) ≤ maxInt) : (z.length : Int) ∈ Range.lengths :=
  Range.mem_lengths.mpr ⟨Int.natCast_nonneg _, h⟩

/-- What is known of any string, and of a constant that it is known to be. -/
theorem admitsObject_string {o : Nat} {nullness : Nullness} {literal : Option RefLiteral}
    (hNull : nullness ≠ .null) (hString : w.IsString o z)
    (hLiteral : ∀ l, literal = some l → w.literal? o = some l) :
    (⟨nullness, .exactly .string, false, .unknown, literal⟩ : RefInfo).AdmitsObject w o where
  notNull := hNull
  bound := TypeBound.allows_exactly.mpr hString.classOf
  isLocal := by simp
  mutability := trivial
  literal := hLiteral

/-- A constant tells the truth of the string that has its units. -/
theorem admitsString_ofString (hShort : (z.length : Int) ≤ maxInt) (hz : Text.encoded c = z) :
    (ofString c).AdmitsString w z := by
  have hFull := Range.mem_full (length_mem_lengths hShort)
  refine ⟨rfl, rfl, ⟨hFull, admits_int.mpr ?_⟩, ?_, fun o ho hLiteral => ?_⟩
  · rw [← Text.length_encoded, hz]
    exact Range.mem_point hFull
  · rintro l ⟨⟩
    exact ⟨c, rfl, hz⟩
  · exact admits_object.mpr ⟨admitsObject_string (by decide) ho hLiteral, trivial, trivial⟩

/-- The only string without units is the empty one, and it is a constant. -/
theorem admitsString_ofStringLength (hShort : (z.length : Int) ≤ maxInt)
    (hz : (z.length : Int) ∈ r) : (ofStringLength r).AdmitsString w z := by
  unfold ofStringLength
  split
  · rename_i hSingle
    have hNone := Range.eq_of_single? hSingle hz
    have hEmpty : z = [] := List.eq_nil_of_length_eq_zero (Int.ofNat_inj.mp hNone)
    subst hEmpty
    exact admitsString_ofString hShort rfl
  · have hLengths := length_mem_lengths hShort
    have hLength : (ofRange r).Admits w (.int z.length (Range.mem_full hLengths)) :=
      admits_ofRange.mpr (admits_int.mpr hz)
    refine ⟨rfl, rfl, ⟨Range.mem_full hLengths, ?_⟩, ?_, fun o ho _ => ?_⟩
    · exact (admits_meet_value (by simp) (by simp)).mpr ⟨hLength, admits_int.mpr hLengths⟩
    · rintro l ⟨⟩
    · exact admits_object.mpr ⟨admitsObject_string (by decide) ho (by rintro l ⟨⟩), trivial, _, _,
        ho.length, hLength⟩

/-- Where only the length is known there is no constant but the empty one. -/
theorem units_ofStringLength (h : (ofStringLength r).string? = some c) : Text.units c = 0 := by
  unfold ofStringLength at h
  split at h
  · cases h
    rfl
  · cases h

/-- **The length of two strings that are joined**, unless that is too great. -/
theorem mem_concatLength (hf : f.Admits w (.int m hm)) (hg : g.Admits w (.int n hn))
    (hLengths : m + n ∈ Range.lengths) : m + n ∈ concatLength f g := by
  have hInt : m + n ∈ Range.ofWidth .int := by
    have hBounds := Range.mem_lengths.mp hLengths
    refine Range.mem_between.mpr ?_
    simp only [minInt, maxInt, minLong, maxLong] at hBounds ⊢
    omega
  refine Range.mem_meet.mpr ⟨?_, hLengths⟩
  rcases admits_int_iff.mp hf with rfl | ⟨r, rfl, hr⟩
  · exact hInt
  · rcases admits_int_iff.mp hg with rfl | ⟨s, rfl, hs⟩
    · exact hInt
    · have hSum : Width.int.wrap (m + n) ∈ r.plus .int s :=
        Range.exact_plus.wrapped _ (Set.mem_image2_of_mem hr hs)
      rwa [Range.wrap_of_mem hInt] at hSum

end Fact

-- ---------------------------------------------------------------------------
-- Operands
-- ---------------------------------------------------------------------------

namespace State

variable {w : World} {a b : Arena} {s : State} {ρ ρ' : ValueId → Concrete} {v left right : ValueId}
  {x y : List UInt16} {o : Nat} {c : String}

/-- **An operand stands for a string**: for an object that is one. If the object is known by its
length as well, that is the length of the string. -/
structure DenotesString (w : World) (a : Arena) (ρ : ValueId → Concrete) (v : ValueId)
    (x : List UInt16) : Prop where
  object  : ∃ o, w.IsString o x ∧ Denotes w a ρ v (.object o)
  wrapped : ∀ {u f}, a.get v = .wrapped .string u f →
    u < a.size ∧ ∃ hn, Denotes w a ρ u (.int x.length hn)

theorem DenotesString.continues (h : DenotesString w a ρ v x) (hPart : a.Part b)
    (hContinues : a.Continues ρ ρ') (hv : v < a.size) : DenotesString w b ρ' v x where
  object := by
    obtain ⟨o, ho, hDenotes⟩ := h.object
    exact ⟨o, ho, hDenotes.continues hPart hContinues hv⟩
  wrapped hGet := by
    obtain ⟨hu, hn, hDenotes⟩ := h.wrapped ((hPart.get hv).symm.trans hGet)
    exact ⟨Nat.lt_of_lt_of_le hu hPart.size, hn, hDenotes.continues hPart hContinues hu⟩

/-- The constant that an operand is known to be has the units of the string. -/
theorem DenotesString.constant (h : DenotesString w a ρ v x) (hρ : s.Satisfies w a ρ)
    (hConstant : (s.fact a v).string? = some c) : Text.encoded c = x := by
  obtain ⟨o, ho, hDenotes⟩ := h.object
  have hAdmits := hDenotes.admits hρ
  rcases Fact.admits_object_iff.mp hAdmits with hTop | ⟨r, al, sl, hRef, hr, -⟩
  · rw [hTop] at hConstant
    cases hConstant
  · rw [hRef, Fact.string?] at hConstant
    split at hConstant
    · rename_i d hLiteral
      cases hConstant
      exact ho.literal _ (hr.literal _ hLiteral)
    · cases hConstant

/-- **The length of an operand that stands for a string** is asked for: a valuation goes on, and
the value stands for the number of units. -/
theorem DenotesString.length (h : DenotesString w a ρ v x) (hReached : Reached w.types a s)
    (hv : v < a.size) (hρ : s.Satisfies w a ρ) (hShort : (x.length : Int) ≤ maxInt) :
    (a.lengthOf .string v).1 < (a.lengthOf .string v).2.size ∧
      ∃ ρ', a.Continues ρ ρ' ∧ s.Satisfies w (a.lengthOf .string v).2 ρ' ∧
        ∃ hn, Denotes w (a.lengthOf .string v).2 ρ' (a.lengthOf .string v).1
          (.int x.length hn) := by
  obtain ⟨o, ho, hDenotes⟩ := h.object
  have hLengths := Fact.length_mem_lengths hShort
  have hIsLength : (Fact.int .lengths).Admits w (.int x.length (Range.mem_full hLengths)) :=
    Fact.admits_int.mpr hLengths
  have hAllowed : ((s.fact a v).lengthFact .string).Admits w
      (.int x.length (Range.mem_full hLengths)) := by
    refine Fact.admits_lengthFact (hDenotes.admits hρ) hIsLength fun n hn => ?_
    cases ho.length.symm.trans hn
    exact ⟨_, rfl⟩
  cases hVariable : a.isVariable v with
  | false =>
    obtain ⟨hSize, hNext, hStands⟩ := denotes_lengthOf_value hReached.coherent.1 hVariable hρ
      hIsLength hAllowed fun hGet => (h.wrapped hGet).imp_right Exists.choose_spec
    exact ⟨hSize, ρ, .refl, hNext, _, hStands⟩
  | true =>
    have hObject := hDenotes.own hVariable
    have hHas : s.HasLength w a ρ .string v (.int x.length (Range.mem_full hLengths)) := by
      refine ⟨hIsLength, hAllowed, fun u hu => ?_, ?_, ?_⟩
      · obtain ⟨hn, hu⟩ := hρ.lengths hu hVariable hObject ho.length
        exact hu
      · intro p n _ hp hn
        cases hObject.symm.trans hp
        cases ho.length.symm.trans hn
        exact ⟨_, rfl⟩
      · intro u f hGet
        obtain ⟨y, hy⟩ := Arena.isVariable_iff.mp hVariable
        cases hGet.symm.trans hy
    obtain ⟨hSize, ρ', hContinues, hNext, hStands⟩ := hHas.denotes hReached hv hρ
    exact ⟨hSize, ρ', hContinues, hNext, _, hStands⟩

/-- What is known of the length of two strings that are joined, once their lengths have been asked
for. -/
def joinedLength (a : Arena) (s : State) (left right : ValueId) : Range :=
  let leftLength := a.lengthOf .string left
  let rightLength := leftLength.2.lengthOf .string right
  Fact.concatLength (s.fact rightLength.2 leftLength.1) (s.fact rightLength.2 rightLength.1)

/-- **The length of two strings that are joined** is in the range of what is known. -/
theorem length_mem_joinedLength (hBuilt : Built w.types a s) (hLeft : left < a.size)
    (hRight : right < a.size) (hρ : s.Satisfies w a ρ) (hx : DenotesString w a ρ left x)
    (hy : DenotesString w a ρ right y) (hShort : ((x ++ y).length : Int) ≤ maxInt) :
    ((x ++ y).length : Int) ∈ joinedLength a s left right := by
  rw [List.length_append, Nat.cast_add] at hShort ⊢
  have hPart : a.Part (a.lengthOf .string left).2 := Arena.part_lengthOf
  obtain ⟨hSize, ρ', hContinues, hρ', hm, hLeftStands⟩ :=
    hx.length hBuilt.reached hLeft hρ (by omega)
  obtain ⟨-, ρ'', hContinues', hρ'', hn, hRightStands⟩ :=
    (hy.continues hPart hContinues hRight).length (hBuilt.lengthOf hLeft).reached
      (Nat.lt_of_lt_of_le hRight hPart.size) hρ' (by omega)
  rw [joinedLength]
  exact Fact.mem_concatLength
    ((hLeftStands.continues Arena.part_lengthOf hContinues' hSize).admits hρ'')
    (hRightStands.admits hρ'') (Range.mem_lengths.mpr ⟨by omega, hShort⟩)

end State

-- ---------------------------------------------------------------------------
-- The step
-- ---------------------------------------------------------------------------

namespace Step

open State (Built DenotesString joinedLength)

variable {w : World} {σ : Session} {s : State} {left right : ValueId} {ctx : Context} {index : Nat}
  {f g : Fact} {config : Config} {x : String}

theorem joined?_eq_some (h : joined? config f g = some x) : ∃ c d, f.string? = some c ∧
    g.string? = some d ∧ x = c ++ d ∧ Text.units (c ++ d) ≤ config.maxStringLength := by
  simp only [joined?, Option.bind_eq_bind, Option.bind_eq_some_iff] at h
  obtain ⟨c, hc, d, hd, hRest⟩ := h
  split at hRest
  · rename_i hBudget
    rw [← Text.units_append] at hBudget
    exact ⟨c, d, hc, hd, (Option.some.inj hRest).symm, hBudget⟩
  · cases hRest

/-- **The fact on two strings that are joined** is that on a constant within the budget, or tells
no more than the length. -/
theorem perform_concat_fact :
    Yields (perform ctx index ((s.push left).push right) .concat) σ fun items τ =>
      ∃ v, items = [next index (s.push v)] ∧
        ((∃ c d, (s.fact σ.arena left).string? = some c ∧ (s.fact σ.arena right).string? = some d ∧
            (s.push v).fact τ.arena v = .ofString (c ++ d) ∧
            Text.units (c ++ d) ≤ ctx.config.maxStringLength) ∨
          (s.push v).fact τ.arena v = .ofStringLength (joinedLength σ.arena s left right)) := by
  have hPopRight : pop index ((s.push left).push right) = pure (right, s.push left) := rfl
  have hPopLeft : pop index (s.push left) = pure (left, s) := rfl
  show Yields (concat ctx index _) σ _
  unfold concat
  rw [hPopRight, yields_bind, yields_pure]
  dsimp only
  rw [hPopLeft, yields_bind, yields_pure]
  simp only [yields_bind, yields_fact]
  cases hJoined : joined? ctx.config (s.fact σ.arena left) (s.fact σ.arena right) with
  | some x =>
    obtain ⟨c, d, hc, hd, rfl, hBudget⟩ := joined?_eq_some hJoined
    simp only [yields_bind, yields_intern, yields_pure]
    exact ⟨_, rfl, Or.inl ⟨c, d, hc, hd, State.fact_typed, hBudget⟩⟩
  | none =>
    simp only [yields_bind, yields_intern, yields_fact, yields_pure]
    exact ⟨_, rfl, Or.inr State.fact_typed⟩

/-- **Two strings are joined soundly and within the budget.** The value that is pushed is known to
be a constant only if that is not too long. Where a valuation has strings for the operands, which
together are no longer than a string can be, the fact on the value tells the truth of the string
that they are joined to. -/
theorem perform_concat_sound :
    Yields (perform ctx index ((s.push left).push right) .concat) σ fun items τ =>
      ∃ v, items = [next index (s.push v)] ∧
        (∀ c, ((s.push v).fact τ.arena v).string? = some c →
          Text.units c ≤ ctx.config.maxStringLength) ∧
        ∀ w ρ x y, Built w.types σ.arena s → left < σ.arena.size → right < σ.arena.size →
          s.Satisfies w σ.arena ρ → DenotesString w σ.arena ρ left x →
          DenotesString w σ.arena ρ right y → ((x ++ y).length : Int) ≤ maxInt →
          ((s.push v).fact τ.arena v).AdmitsString w (x ++ y) := by
  refine perform_concat_fact.mono ?_
  rintro items τ ⟨v, hItems, hFact⟩
  refine ⟨v, hItems, ?_, ?_⟩
  · rcases hFact with ⟨c, d, -, -, hFact, hBudget⟩ | hFact
    · rw [hFact]
      rintro x ⟨⟩
      exact hBudget
    · rw [hFact]
      exact fun c hc => Fact.units_ofStringLength hc ▸ Nat.zero_le _
  · intro w ρ x y hBuilt hLeft hRight hρ hx hy hShort
    rcases hFact with ⟨c, d, hc, hd, hFact, -⟩ | hFact
    · rw [hFact]
      refine Fact.admitsString_ofString hShort ?_
      rw [Text.encoded_append, hx.constant hρ hc, hy.constant hρ hd]
    · rw [hFact]
      exact Fact.admitsString_ofStringLength hShort
        (State.length_mem_joinedLength hBuilt hLeft hRight hρ hx hy hShort)

-- ---------------------------------------------------------------------------
-- Two letters
-- ---------------------------------------------------------------------------

/-- Strings of one unit, of which one is a constant. -/
def letters : World :=
  { State.plainWorld with
    classOf := fun _ => .string
    declared := fun _ => by simp [State.plainWorld]
    length? := fun l _ => match l with | .array => none | .string => some 1
    length_mem := by
      intro l o n h
      cases l <;> cases h
      decide
    literal? := fun o => if o = 1 then some (.string "b") else none
    literal_inj := by
      intro o p l ho hp
      split at ho
      · rename_i hLeft
        split at hp
        · rename_i hRight
          exact hLeft.trans hRight.symm
        · cases hp
      · cases ho
    literal_length := by
      intro o s h
      split at h
      · cases h
        rfl
      · cases h }

/-- A parameter that is a string, and a constant. -/
def stringAndLetter : Arena :=
  ((Arena.new.var (.parameter "s" 0) none (.ofExactType .string .unknown)).2.string "b").2

theorem evaluated_stringAndLetter :
    stringAndLetter.size = 3 ∧ stringAndLetter.allVars = [1] ∧
      (stringAndLetter.allVars.all fun u =>
        (stringAndLetter.varAt? u).all (·.descriptor != .length .array)) = true ∧
      (stringAndLetter.allVars.all fun u =>
        (stringAndLetter.varAt? u).all (·.descriptor != .length .string)) = true ∧
      State.initial.fact stringAndLetter 1 = .ofExactType .string .unknown ∧
      stringAndLetter.get 2 = .typed (.ofString "b") := by
  decide +kernel

theorem perform_concat_sound_letters :
    Yields (perform usualContext 0 ((State.initial.push 1).push 2) .concat)
      (.start stringAndLetter) fun items τ => ∃ v, items = [next 0 (State.initial.push v)] ∧
        ((State.initial.push v).fact τ.arena v).AdmitsString letters [0x61, 0x62] := by
  obtain ⟨hSize, hVars, hArrays, hStrings, hFact, hConstant⟩ := evaluated_stringAndLetter
  have hVariable : ∀ {v}, stringAndLetter.isVariable v = true ↔ v = 1 := by
    intro v
    rw [← Arena.mem_allVars, hVars]
    simp
  have hNoLength : ∀ {l q v}, ¬ stringAndLetter.LengthOf l q v := by
    intro l q v
    cases l
    · exact not_lengthOf hArrays
    · exact not_lengthOf hStrings
  have hDeclares : letters.types.Declares .string := letters.declared 0
  have hBuilt : Built letters.types stringAndLetter .initial :=
    .intern _ (.intern _ .start ⟨Fact.over_ofExactType hDeclares, by rintro y q ⟨⟩ ⟨⟩⟩
      Fact.formed_ofExactType) ⟨Fact.over_ofString hDeclares, by rintro y q ⟨⟩⟩
      Fact.formed_ofString
  have hUnknown : letters.IsString 0 [0x61] := ⟨rfl, rfl, by simp [letters]⟩
  have hLetter : letters.IsString 1 [0x62] := by
    refine ⟨rfl, rfl, ?_⟩
    rintro c ⟨⟩
    rfl
  have hSatisfies : State.initial.Satisfies letters stringAndLetter fun _ => .object 0 := by
    refine ⟨?_, fun hLength => absurd hLength hNoLength, fun l hl => absurd hl OrdSet.not_mem_empty⟩
    intro v hv _
    rw [hVariable.mp hv, hFact]
    exact Fact.admits_object.mpr
      ⟨Fact.admitsObject_string (by decide) hUnknown (by rintro l ⟨⟩), trivial, trivial⟩
  have hLeft : DenotesString letters stringAndLetter (fun _ => .object 0) 1 [0x61] := by
    refine ⟨⟨0, hUnknown, .of_variable (hVariable.mpr rfl) rfl⟩, fun hGet => ?_⟩
    obtain ⟨x, hx⟩ := Arena.isVariable_iff.mp (hVariable.mpr rfl)
    cases hGet.symm.trans hx
  have hRight : DenotesString letters stringAndLetter (fun _ => .object 0) 2 [0x62] := by
    refine ⟨⟨1, hLetter, .of_value ?_ ?_⟩, fun hGet => ?_⟩
    · exact Bool.eq_false_iff.mpr fun hv => absurd (hVariable.mp hv) (by decide)
    · rw [Arena.inherent, hConstant]
      refine Fact.admits_object.mpr
        ⟨Fact.admitsObject_string (by decide) hLetter ?_, trivial, trivial⟩
      rintro l ⟨⟩
      rfl
    · cases hConstant.symm.trans hGet
  refine perform_concat_sound.mono ?_
  rintro items τ ⟨v, hItems, -, hSound⟩
  exact ⟨v, hItems, hSound _ _ _ _ hBuilt (hSize ▸ by decide) (hSize ▸ by decide) hSatisfies hLeft
    hRight (by decide)⟩

end Step

end Pathwise
