/-!
# Variable-length quantities in base 64

An integer is doubled, its sign goes into the lowest bit, and the result is written five bits at a
time, lowest first. Every digit but the last has the sixth bit set, so a row of numbers can be read
back without separators.
-/

namespace DeclBundle.Vlq

/-- The 64 digits. -/
def alphabet : List Char :=
  "ABCDEFGHIJKLMNOPQRSTUVWXYZabcdefghijklmnopqrstuvwxyz0123456789+/".toList

/-- The character of a digit. -/
def digitChar (n : Nat) : Char := alphabet.getD n 'A'

/-- The digit of a character. -/
def digitValue? (c : Char) : Option Nat := alphabet.findIdx? (· == c)

/-- The magnitude doubled, plus one for a negative number. -/
def ofInt (v : Int) : Nat :=
  if v < 0 then 2 * v.natAbs + 1 else 2 * v.natAbs

/-- The integer whose sign is the lowest bit. -/
def toInt (n : Nat) : Int :=
  if n % 2 = 1 then -((n / 2 : Nat) : Int) else (n / 2 : Nat)

/-- Five bits at a time, lowest first, with 32 added to all but the last. -/
def sextets (n : Nat) : List Nat :=
  if n < 32 then [n] else (n % 32 + 32) :: sextets (n / 32)
termination_by n
decreasing_by omega

/-- The digits of a signed number. -/
def encode (v : Int) : List Char :=
  (sextets (ofInt v)).map digitChar

/-- Reads digits back into integers; `weight` and `partialSum` belong to the integer begun. -/
def decodeFrom (weight partialSum : Nat) (begun : Bool) : List Char → Option (List Int)
  | [] => if begun then none else some []
  | c :: rest =>
    match digitValue? c with
    | none => none
    | some d =>
      let sum := partialSum + weight * (d % 32)
      if d < 32 then (decodeFrom 1 0 false rest).map (toInt sum :: ·)
      else decodeFrom (32 * weight) sum true rest

/-- The integers that a row of digits stands for. -/
def decode (cs : List Char) : Option (List Int) := decodeFrom 1 0 false cs

end DeclBundle.Vlq
