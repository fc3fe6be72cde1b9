/-!
# Double-quoted text

A quoted text stands between double quotes; a quote or a backslash inside it has a backslash in
front, and every other character stands for itself. `unquote` reads such a text back.
-/

namespace DeclBundle.Text

/-- The characters with a backslash before every quote and every backslash. -/
def escapeChars : List Char → List Char
  | [] => []
  | c :: rest =>
    if c = '\\' ∨ c = '"' then '\\' :: c :: escapeChars rest else c :: escapeChars rest

/-- A text between double quotes; only quotes and backslashes are escaped. -/
def quote (s : String) : String :=
  String.ofList ('"' :: escapeChars s.toList ++ ['"'])

/-- Reads escaped characters up to the closing quote, which has to end the text. -/
def unescapeChars : List Char → Option (List Char)
  | [] => none
  | ['"'] => some []
  | '\\' :: c :: rest => (unescapeChars rest).map (c :: ·)
  | c :: rest => if c = '"' ∨ c = '\\' then none else (unescapeChars rest).map (c :: ·)

/-- The text that a double-quoted text stands for. -/
def unquote (s : String) : Option String :=
  match s.toList with
  | '"' :: rest => (unescapeChars rest).map String.ofList
  | _ => none

end DeclBundle.Text
