import DeclBundle.Json.Basic

/-!
# Writing JSON

`Json.compact` writes without blanks; `Json.pretty` puts every item and field on a line of its own,
two spaces deeper than its container. Quotes, backslashes and control characters are escaped, all
else is written as it is.
-/

namespace DeclBundle.Json

/-- The lower-case hexadecimal digit of `n < 16`. -/
def hexDigit (n : Nat) : Char :=
  if n < 10 then Char.ofNat (48 + n) else Char.ofNat (87 + n)

/-- One character inside a string: the short escape where there is one, four hexadecimal digits for
the other control characters. -/
def escapeChar (c : Char) : List Char :=
  if c = '"' then ['\\', '"']
  else if c = '\\' then ['\\', '\\']
  else if c = '\x08' then ['\\', 'b']
  else if c = '\t' then ['\\', 't']
  else if c = '\n' then ['\\', 'n']
  else if c = '\x0c' then ['\\', 'f']
  else if c = '\r' then ['\\', 'r']
  else if c.toNat < 32 then
    ['\\', 'u', '0', '0', hexDigit (c.toNat / 16), hexDigit (c.toNat % 16)]
  else [c]

/-- A text between double quotes, escaped. -/
def writeString (s : String) : String :=
  String.ofList ('"' :: s.toList.flatMap escapeChar ++ ['"'])

mutual
/-- The text of a value without blanks. -/
def compact : Json → String
  | .null => "null"
  | .bool true => "true"
  | .bool false => "false"
  | .int n => toString n
  | .real literal => literal
  | .str s => writeString s
  | .arr items => "[" ++ compactItems true items ++ "]"
  | .obj fields => "\x7b" ++ compactFields true fields ++ "\x7d"
/-- The items, a comma before all but the first. -/
def compactItems (first : Bool) : List Json → String
  | [] => ""
  | v :: rest => (if first then "" else ",") ++ v.compact ++ compactItems false rest
/-- The fields, a comma before all but the first. -/
def compactFields (first : Bool) : List (String × Json) → String
  | [] => ""
  | (k, v) :: rest =>
    (if first then "" else ",") ++ writeString k ++ ":" ++ v.compact ++ compactFields false rest
end

/-- A line break and the blanks of `level`. -/
def newline (level : Nat) : String :=
  "\n" ++ String.ofList (List.replicate (2 * level) ' ')

mutual
/-- The value over several lines, inside `level` containers. -/
def prettyAt (level : Nat) : Json → String
  | .null => "null"
  | .bool true => "true"
  | .bool false => "false"
  | .int n => toString n
  | .real literal => literal
  | .str s => writeString s
  | .arr [] => "[]"
  | .arr items => "[" ++ prettyItems (level + 1) true items ++ newline level ++ "]"
  | .obj [] => "\x7b\x7d"
  | .obj fields => "\x7b" ++ prettyFields (level + 1) true fields ++ newline level ++ "\x7d"
/-- The items, each on a line of its own. -/
def prettyItems (level : Nat) (first : Bool) : List Json → String
  | [] => ""
  | v :: rest =>
    (if first then "" else ",") ++ newline level ++ v.prettyAt level ++ prettyItems level false rest
/-- The fields, each on a line of its own. -/
def prettyFields (level : Nat) (first : Bool) : List (String × Json) → String
  | [] => ""
  | (k, v) :: rest =>
    (if first then "" else ",") ++ newline level ++ writeString k ++ ": " ++ v.prettyAt level
      ++ prettyFields level false rest
end

/-- The text of a value over several lines, indented. -/
def pretty (v : Json) : String := v.prettyAt 0

end DeclBundle.Json
