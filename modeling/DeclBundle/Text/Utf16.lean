/-!
# Lengths in UTF-16 code units

A character outside the basic plane counts twice.
-/

namespace DeclBundle.Text

/-- The number of UTF-16 code units of one character. -/
def charUnits (c : Char) : Nat :=
  if c.toNat < 0x10000 then 1 else 2

/-- The number of UTF-16 code units of characters. -/
def listUnits : List Char → Nat
  | [] => 0
  | c :: rest => charUnits c + listUnits rest

/-- The number of UTF-16 code units of a text. -/
def units (s : String) : Nat := listUnits s.toList

theorem listUnits_append (cs ds : List Char) :
    listUnits (cs ++ ds) = listUnits cs + listUnits ds := by
  induction cs with
  | nil => simp [listUnits]
  | cons c cs ih =>
    simp only [List.cons_append, listUnits, ih]
    omega

@[simp] theorem units_append (s t : String) : units (s ++ t) = units s + units t := by
  simp [units, listUnits_append]

end DeclBundle.Text
