import DeclBundle.Json.Basic
import DeclBundle.Json.Numeral

/-!
# Reading JSON

A reader takes characters off the front of a text. It fails in one of three ways: the text ends too
early, it is not JSON, or it is JSON of another shape than the reader expects. Blanks are the space,
the tab, the line feed and the carriage return.

`value` reads any value and keeps it, `skip` passes over one. Passing over is laxer: neither the
nesting nor the size of a number is limited, and halves of surrogate pairs may stand alone.
-/

namespace DeclBundle.Json

/-- Why a text was refused. -/
inductive ReadError where
  /-- The text ends before the value does. -/
  | ended
  /-- The text is not JSON. -/
  | malformed
  /-- The text is JSON of another shape. -/
  | mismatch
deriving DecidableEq, Repr

/-- A computation that takes characters off the front of a text. -/
abbrev Reader := StateT (List Char) (Except ReadError)

/-- How many containers may nest in a value that is kept. -/
def maxDepth : Nat := 127

namespace Reader

/-- Whether `c` may stand between tokens. -/
def isBlank (c : Char) : Bool := c == ' ' || c == '\t' || c == '\n' || c == '\r'

/-- The next character, which stays. -/
def peek? : Reader (Option Char) := fun cs => .ok (cs.head?, cs)

/-- Drops the next character. -/
def advance : Reader Unit := fun cs => .ok ((), cs.tail)

/-- The next character after blanks, which stays. -/
def peekToken? : Reader (Option Char) := fun cs =>
  let rest := cs.dropWhile isBlank
  .ok (rest.head?, rest)

/-- Fails because of the next character, or because there is none. -/
def unexpected : Reader α := do
  match ← peek? with
  | none => throw .ended
  | some _ => throw .malformed

/-- Takes the next character, which has to be there. -/
def next : Reader Char := fun
  | [] => .error .ended
  | c :: rest => .ok (c, rest)

/-- Reads the given characters. -/
def word : List Char → Reader Unit
  | [] => pure ()
  | c :: rest => do
    if (← next) = c then word rest else throw .malformed

/-- Takes the token character `c` after blanks. -/
def token (c : Char) : Reader Unit := do
  match ← peekToken? with
  | none => throw .ended
  | some d => if d = c then advance else throw .malformed

/-- Takes digits as long as there are any. -/
def digits : Reader (List Char) := fun cs =>
  .ok (cs.takeWhile Char.isDigit, cs.dropWhile Char.isDigit)

/-! ## Numbers -/

/-- Takes the parts of a number. A digit that is missing is charged by `missing`. -/
def numeral (missing : Reader Unit) : Reader Numeral := do
  let negative := (← peek?) = some '-'
  if negative then advance
  let whole ← digits
  if whole = [] then missing
  if whole.length > 1 && whole.head? = some '0' then throw .malformed
  let fraction ← if (← peek?) = some '.' then do
      advance
      let ds ← digits
      if ds = [] then missing
      pure (some ds)
    else pure none
  let exponent ← if (← peek?) = some 'e' || (← peek?) = some 'E' then do
      advance
      let down := (← peek?) = some '-'
      if down || (← peek?) = some '+' then advance
      let ds ← digits
      if ds = [] then missing
      pure (some (decide down, ds))
    else pure none
  return ⟨negative, whole, fraction, exponent⟩

/-- Reads a number: an integer, or the text of any other, which must be finite. -/
def number : Reader Json := do
  let n ← numeral unexpected
  if !n.isFinite then throw .malformed
  return if n.isInteger then .int n.toInt else .real n.literal

/-! ## Strings -/

/-- The value of a hexadecimal digit, in either case. -/
def hexValue? (c : Char) : Option Nat :=
  if '0' ≤ c ∧ c ≤ '9' then some (c.toNat - 48)
  else if 'a' ≤ c ∧ c ≤ 'f' then some (c.toNat - 87)
  else if 'A' ≤ c ∧ c ≤ 'F' then some (c.toNat - 55)
  else none

/-- Takes four hexadecimal digits. A text with fewer than four bytes left ends too early. -/
def hex4 : Reader Nat := fun cs =>
  if (cs.take 4).foldl (fun n c => n + c.utf8Size) 0 < 4 then .error .ended
  else
    match cs with
    | a :: b :: c :: d :: rest =>
      match hexValue? a, hexValue? b, hexValue? c, hexValue? d with
      | some a, some b, some c, some d => .ok (((a * 16 + b) * 16 + c) * 16 + d, rest)
      | _, _, _, _ => .error .malformed
    | _ => .error .malformed

/-- The character of a one-letter escape. -/
def shortEscape? : Char → Option Char
  | '"' => some '"'
  | '\\' => some '\\'
  | '/' => some '/'
  | 'b' => some '\x08'
  | 'f' => some '\x0c'
  | 'n' => some '\n'
  | 'r' => some '\r'
  | 't' => some '\t'
  | _ => none

/-- Reads an escape after its backslash. Halves of surrogate pairs have to come in pairs. -/
def escape : Reader Char := do
  let c ← next
  if c ≠ 'u' then
    match shortEscape? c with
    | some d => return d
    | none => throw .malformed
  let high ← hex4
  if 0xDC00 ≤ high ∧ high ≤ 0xDFFF then throw .malformed
  if high < 0xD800 ∨ 0xDBFF < high then return Char.ofNat high
  word ['\\', 'u']
  let low ← hex4
  if low < 0xDC00 ∨ 0xDFFF < low then throw .malformed
  return Char.ofNat (0x10000 + (high - 0xD800) * 0x400 + (low - 0xDC00))

/-- Passes over an escape after its backslash. -/
def skipEscape : Reader Unit := do
  let c ← next
  if c = 'u' then discard hex4
  else if (shortEscape? c).isNone then throw .malformed

/-- Reads at most `fuel` characters up to the closing quote, onto `done` in reverse. -/
def stringRest : Nat → List Char → Reader String
  | 0, _ => throw .ended
  | fuel + 1, done => do
    let c ← next
    if c = '"' then return String.ofList done.reverse
    else if c = '\\' then stringRest fuel ((← escape) :: done)
    else if c.toNat < 32 then throw .malformed
    else stringRest fuel (c :: done)

/-- Passes over at most `fuel` characters up to the closing quote. -/
def skipStringRest : Nat → Reader Unit
  | 0 => throw .ended
  | fuel + 1 => do
    let c ← next
    if c = '"' then return
    else if c = '\\' then
      skipEscape
      skipStringRest fuel
    else if c.toNat < 32 then throw .malformed
    else skipStringRest fuel

/-- Reads a string after its opening quote. -/
def string : Reader String := fun cs => stringRest (cs.length + 1) [] cs

/-- Passes over a string after its opening quote. -/
def skipString : Reader Unit := fun cs => skipStringRest (cs.length + 1) cs

/-! ## Values -/

/-- Reads a value that is not a container and starts with `c`. -/
def scalar (c : Char) : Reader Json := do
  if c = '"' then
    advance
    return .str (← string)
  else if c = 'n' then
    word "null".toList
    return .null
  else if c = 't' then
    word "true".toList
    return .bool true
  else if c = 'f' then
    word "false".toList
    return .bool false
  else if c = '-' ∨ c.isDigit then number
  else throw .malformed

/-- Whether another item follows in a container closed by `close`: takes the comma before all but
the first, or the end. -/
def more (close : Char) (first : Bool) : Reader Bool := do
  match ← peekToken? with
  | none => throw .ended
  | some c =>
    if c = close then
      advance
      return false
    else if first then return true
    else if c = ',' then
      advance
      match ← peekToken? with
      | none => throw .ended
      | some d => if d = close then throw .malformed else return true
    else throw .malformed

/-- Reads a key up to its closing quote; the colon stays. -/
def key : Reader String := do
  match ← peekToken? with
  | none => throw .ended
  | some c =>
    if c ≠ '"' then throw .malformed
    advance
    string

mutual
/-- Reads a value within `room` further containers. -/
def valueWithin : Nat → Nat → Reader Json
  | 0, _ => throw .ended
  | fuel + 1, room => do
    match ← peekToken? with
    | none => throw .ended
    | some c =>
      if c = '[' then
        if room = 0 then throw .malformed
        advance
        return .arr (← itemsWithin fuel (room - 1) true)
      else if c = '\x7b' then
        if room = 0 then throw .malformed
        advance
        return .obj (← fieldsWithin fuel (room - 1) true)
      else scalar c
/-- Reads the items of a list after its bracket. -/
def itemsWithin : Nat → Nat → Bool → Reader (List Json)
  | 0, _, _ => throw .ended
  | fuel + 1, room, first => do
    if ← more ']' first then
      let v ← valueWithin fuel room
      return v :: (← itemsWithin fuel room false)
    else return []
/-- Reads the fields of an object after its brace. -/
def fieldsWithin : Nat → Nat → Bool → Reader (List (String × Json))
  | 0, _, _ => throw .ended
  | fuel + 1, room, first => do
    if ← more '\x7d' first then
      let k ← key
      token ':'
      let v ← valueWithin fuel room
      return (k, v) :: (← fieldsWithin fuel room false)
    else return []
end

/-- Reads a value within `room` further containers. -/
def value (room : Nat) : Reader Json := fun cs => valueWithin (2 * cs.length + 2) room cs

/-- Reads the items behind the first of a list, within `room` further containers. -/
def itemsRest (room : Nat) : Reader (List Json) := fun cs =>
  itemsWithin (2 * cs.length + 2) room false cs

/-- Takes the key and colon of a field that is passed over. -/
def skipKey : Reader Unit := do
  token '"'
  skipString
  token ':'

/-- Passes over the rest of a value: a value is due if `due`, and `open` are the closing characters
of the containers around it. -/
def skipRest : Nat → Bool → List Char → Reader Unit
  | 0, _, _ => throw .ended
  | _ + 1, false, [] => return
  | fuel + 1, false, close :: outer => do
    match ← peekToken? with
    | none => throw .ended
    | some c =>
      if c = close then
        advance
        skipRest fuel false outer
      else if c = ',' then
        advance
        if close = '\x7d' then skipKey
        skipRest fuel true (close :: outer)
      else throw .malformed
  | fuel + 1, true, outer => do
    match ← peekToken? with
    | none => throw .ended
    | some c =>
      if c = '[' ∨ c = '\x7b' then
        advance
        let close := if c = '[' then ']' else '\x7d'
        match ← peekToken? with
        | none => throw .ended
        | some d =>
          if d = close then
            advance
            skipRest fuel false outer
          else
            if c = '\x7b' then skipKey
            skipRest fuel true (close :: outer)
      else if c = '"' then
        advance
        skipString
        skipRest fuel false outer
      else if c = '-' ∨ c.isDigit then
        discard (numeral (throw .malformed))
        skipRest fuel false outer
      else
        discard (scalar c)
        skipRest fuel false outer

/-- Skips the value that comes next. -/
def skip : Reader Unit := fun cs => skipRest (2 * cs.length + 2) true [] cs

/-- Runs a reader on a whole text: after it only blanks may follow. -/
def run (r : Reader α) (text : String) : Except ReadError α :=
  match r text.toList with
  | .error e => .error e
  | .ok (a, rest) => if (rest.dropWhile isBlank).isEmpty then .ok a else .error .malformed

end Reader

/-- Reads a text that is one value and nothing else. -/
def read (text : String) : Except ReadError Json :=
  (Reader.value maxDepth).run text

end DeclBundle.Json
