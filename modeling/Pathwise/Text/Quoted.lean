import Pathwise.Text.Unprintable

/-!
# Quoted text

A text in double quotes on one line: quotes and backslashes are escaped, the
usual controls have letters, and every other unprintable character is written by
its code point in hexadecimal.
-/

namespace Pathwise.Text

/-- The hexadecimal digits of a number, in lower case and without leading zeros. -/
def hex (n : Nat) : String := String.ofList (Nat.toDigits 16 n)

/-- A character as it is written between double quotes. -/
def quotedChar (c : Char) : String :=
  if c = '"' then "\\\""
  else if c = '\\' then "\\\\"
  else if c = '\t' then "\\t"
  else if c = '\n' then "\\n"
  else if c = '\r' then "\\r"
  else if c.toNat = 0 then "\\0"
  else if c.toNat < 127 ∧ 32 ≤ c.toNat then c.toString
  else if isUnprintable c then "\\u\x7b" ++ hex c.toNat ++ "\x7d"
  else c.toString

/-- A text in double quotes. -/
def quoted (s : String) : String := "\"" ++ String.join (s.toList.map quotedChar) ++ "\""

/-- The number of 16-bit units of a character. -/
def charUnits (c : Char) : Nat := if c.toNat < 0x10000 then 1 else 2

/-- The length of a text in 16-bit units. -/
def units (s : String) : Nat := s.toList.foldl (fun n c => n + charUnits c) 0

theorem foldl_add_charUnits (l : List Char) (n : Nat) :
    l.foldl (fun n c => n + charUnits c) n = n + l.foldl (fun n c => n + charUnits c) 0 := by
  induction l generalizing n with
  | nil => rfl
  | cons c l ih =>
    rw [List.foldl_cons, List.foldl_cons, ih, ih (0 + charUnits c)]
    omega

/-- Lengths of texts add up. -/
@[simp] theorem units_append (s t : String) : units (s ++ t) = units s + units t := by
  rw [units, String.toList_append, List.foldl_append, foldl_add_charUnits]
  rfl

/-- A text with every occurrence of a character replaced. -/
def replaceChar (old : Char) (new : String) (s : String) : String :=
  String.join (s.toList.map fun c => if c = old then new else c.toString)

end Pathwise.Text
