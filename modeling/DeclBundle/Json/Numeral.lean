/-!
# Number literals

A literal that is kept stands for a number whose size is limited. The size is worked out the way a
double is: the digits make a significand of at most 64 bits and a power of ten, each is rounded to a
double, and their product has to round to a finite one. So of two literals for one number one may be
refused and the other accepted.
-/

namespace DeclBundle.Json

/-- The value of a decimal digit. -/
def digitValue (d : Char) : Nat := d.toNat - 48

/-- The number that decimal digits denote. -/
def ofDigits (ds : List Char) : Nat :=
  ds.foldl (fun n d => 10 * n + digitValue d) 0

/-- The number nearest to `n` that is `bits` binary digits with zeros behind them; of two that are
equally near, the one whose last digit is 0. -/
def roundTo (bits n : Nat) : Nat :=
  let unit := Nat.pow 2 (n.log2 + 1 - bits)
  let below := n / unit
  let excess := 2 * (n % unit)
  if excess < unit ∨ excess = unit ∧ below % 2 = 0 then below * unit else (below + 1) * unit

/-- A number of at most `bits` binary digits is not rounded. -/
theorem roundTo_of_log2_lt {bits n : Nat} (h : n.log2 < bits) : roundTo bits n = n := by
  have hzero : n.log2 + 1 - bits = 0 := Nat.sub_eq_zero_of_le h
  simp [roundTo, hzero, Nat.mod_one]

/-- The binary digits of a double's significand. -/
def doubleBits : Nat := 53

/-- The largest power of ten that is a finite double. -/
def maxTens : Nat := 308

/-- The least magnitude that rounds to no finite double: halfway between the largest double and the
power of two above it. -/
def overflow : Nat := Nat.pow 2 1024 - Nat.pow 2 970

/-- The parts of a number literal. -/
structure Numeral where
  negative : Bool
  whole : List Char
  fraction : Option (List Char)
  /-- Sign and digits of the exponent. -/
  exponent : Option (Bool × List Char)

namespace Numeral

/-- Whether the literal is an integer; `-0` is none. -/
def isInteger (n : Numeral) : Bool :=
  n.fraction.isNone && n.exponent.isNone && !(n.negative && ofDigits n.whole == 0)

/-- The integer without fraction and exponent. -/
def toInt (n : Numeral) : Int :=
  if n.negative then -(ofDigits n.whole : Int) else ofDigits n.whole

/-- Writes digits behind `s` as long as the number fits into 64 bits. Gives the number and the
digits that are left. -/
def fill (s : Nat) : List Char → Nat × List Char
  | [] => (s, [])
  | d :: rest =>
    let t := 10 * s + digitValue d
    if t < Nat.pow 2 64 then fill t rest else (s, d :: rest)

/-- The significand and the power of ten of the magnitude. A whole digit that does not fit is a
place, a digit of the fraction that does not is dropped with all behind it. -/
def scientific (n : Numeral) : Nat × Int :=
  let fraction := n.fraction.getD []
  let (s, places) := fill 0 n.whole
  let (s, dropped) := fill s fraction
  let shift : Int := match n.exponent with
    | none => 0
    | some (true, es) => -(ofDigits es : Int)
    | some (false, es) => ofDigits es
  (s, places.length + dropped.length - fraction.length + shift)

/-- Whether the magnitude is a finite double. A fraction of a significand always is. -/
def isFinite (n : Numeral) : Bool :=
  let (s, e) := n.scientific
  if e < 0 then true
  else if e.toNat ≤ maxTens then
    roundTo doubleBits s * roundTo doubleBits (Nat.pow 10 e.toNat) < overflow
  else s == 0

/-- The text of a numeral in its normal form. -/
def literal (n : Numeral) : String :=
  String.ofList ((if n.negative then ['-'] else []) ++ n.whole
    ++ (match n.fraction with | none => [] | some ds => '.' :: ds)
    ++ (match n.exponent with
      | none => []
      | some (down, ds) => 'e' :: (if down then ['-'] else []) ++ ds))

end Numeral

end DeclBundle.Json
