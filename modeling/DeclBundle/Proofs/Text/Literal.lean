import DeclBundle.Print.Type
import DeclBundle.Text.Template

/-!
# Quoted texts as string literals

A quoted text is what two replacements make of it, one after the other: backslashes are doubled,
then every quote gets a backslash in front (`Text.quote_eq_replaceAll`). Reading it back with its
quotes and backslashes gives the text itself, whatever that is (`Text.unquote_quote`).

`Text.readLiteral` reads as a scanner of declaration files does: up to the first quote without a
backslash in front, and never past the end of a line. So a quoted text is a literal for its text
exactly if that text has no line break, and what comes after the literal is left alone
(`Print.quoted_literal`).
-/

namespace DeclBundle.Text

/-! ## Two replacements -/

/-- Putting a text for one character. -/
theorem replaceChars_singleton (c : Char) (sub : List Char) :
    ∀ cs, replaceChars [c] sub 0 cs = cs.flatMap fun d => if d = c then sub else [d]
  | [] => rfl
  | d :: cs => by
    have ih := replaceChars_singleton c sub cs
    by_cases h : d = c
    · subst h
      simp [replaceChars, List.isPrefixOf, ih]
    · have hne : ¬ c = d := fun he => h he.symm
      simp [replaceChars, List.isPrefixOf, h, hne, ih]

theorem escapeChars_eq_replaceChars (cs : List Char) : escapeChars cs
    = replaceChars ['"'] ['\\', '"'] 0 (replaceChars ['\\'] ['\\', '\\'] 0 cs) := by
  rw [replaceChars_singleton, replaceChars_singleton]
  induction cs with
  | nil => rfl
  | cons c cs ih =>
    rw [escapeChars, ih]
    by_cases hb : c = '\\'
    · simp [hb]
    · by_cases hq : c = '"' <;> simp [hb, hq]

theorem quote_eq_replaceAll (s : String) :
    quote s = "\"" ++ replaceAll "\"" "\\\"" (replaceAll "\\" "\\\\" s) ++ "\"" := by
  rw [← String.toList_inj]
  simp [quote, replaceAll, escapeChars_eq_replaceChars]

/-! ## Reading back -/

theorem unescapeChars_cons {c : Char} (hq : c ≠ '"') (hb : c ≠ '\\') (cs : List Char) :
    unescapeChars (c :: cs) = (unescapeChars cs).map (c :: ·) := by
  rw [unescapeChars]
  · rw [if_neg (not_or.2 ⟨hq, hb⟩)]
  · rintro rfl -
    exact hq rfl
  · rintro d ds rfl -
    exact hb rfl

theorem unescapeChars_escapeChars : ∀ cs, unescapeChars (escapeChars cs ++ ['"']) = some cs
  | [] => rfl
  | c :: cs => by
    have ih := unescapeChars_escapeChars cs
    rw [escapeChars]
    split
    · simp [unescapeChars, ih]
    · rename_i h
      obtain ⟨hb, hq⟩ := not_or.1 h
      rw [List.cons_append, unescapeChars_cons hq hb, ih, Option.map_some]

/-- A quoted text has no quote inside without a backslash in front, its last backslash has
something behind it, and it stands for the text. -/
theorem unquote_quote (s : String) : unquote (quote s) = some s := by
  simp [unquote, quote, unescapeChars_escapeChars]

/-! ## Literals -/

/-- The characters that may not stand in a literal as they are. -/
def lineBreaks : List Char := ['\n', '\r']

/-- What a character stands for behind a backslash, for those that stand for one character. Digits
and the letters `u` and `x` begin longer sequences, and a line break is left out of the value. -/
def escapeValue (c : Char) : Option Char :=
  match c with
  | 'b' => some '\x08'
  | 't' => some '\t'
  | 'n' => some '\n'
  | 'v' => some '\x0b'
  | 'f' => some '\x0c'
  | 'r' => some '\r'
  | 'u' | 'x' | '\n' | '\r' | '\u2028' | '\u2029' => none
  | c => if c.isDigit then none else some c

/-- Reads a literal after its first quote: its value, and what comes after its last quote. -/
def readLiteralRest : List Char → Option (List Char × List Char)
  | [] => none
  | '"' :: rest => some ([], rest)
  | '\\' :: c :: rest =>
    match escapeValue c with
    | none => none
    | some d => (readLiteralRest rest).map fun (value, after) => (d :: value, after)
  | c :: rest =>
    if c = '\\' ∨ c ∈ lineBreaks then none
    else (readLiteralRest rest).map fun (value, after) => (c :: value, after)

/-- Reads a double-quoted literal from the front of a text. -/
def readLiteral : List Char → Option (List Char × List Char)
  | '"' :: rest => readLiteralRest rest
  | _ => none

theorem readLiteralRest_escape {c : Char} (h : c = '\\' ∨ c = '"') (rest : List Char) :
    readLiteralRest ('\\' :: c :: rest)
      = (readLiteralRest rest).map fun (value, after) => (c :: value, after) := by
  rcases h with rfl | rfl <;> rfl

theorem readLiteralRest_cons {c : Char} (hb : c ≠ '\\') (hq : c ≠ '"') (rest : List Char) :
    readLiteralRest (c :: rest) = if c ∈ lineBreaks then none
      else (readLiteralRest rest).map fun (value, after) => (c :: value, after) := by
  rw [readLiteralRest]
  · simp [hb]
  · rintro rfl
    exact hq rfl
  · rintro d ds rfl -
    exact hb rfl

/-- A text without a line break is read back from its escaped form, and one with a line break ends
the line before the literal is at its end. -/
theorem readLiteralRest_escapeChars (rest : List Char) : ∀ cs : List Char,
    readLiteralRest (escapeChars cs ++ '"' :: rest)
      = if cs.any (· ∈ lineBreaks) then none else some (cs, rest)
  | [] => by simp [escapeChars, readLiteralRest]
  | c :: cs => by
    have ih := readLiteralRest_escapeChars rest cs
    rw [escapeChars, List.any_cons]
    split
    · rename_i h
      have hc : c ∉ lineBreaks := by rcases h with rfl | rfl <;> decide
      rw [List.cons_append, List.cons_append, readLiteralRest_escape h, ih, decide_eq_false hc,
        Bool.false_or]
      split <;> rfl
    · rename_i h
      obtain ⟨hb, hq⟩ := not_or.1 h
      rw [List.cons_append, readLiteralRest_cons hb hq, ih]
      by_cases hc : c ∈ lineBreaks
      · rw [if_pos hc, decide_eq_true hc, Bool.true_or, if_pos rfl]
      · rw [if_neg hc, decide_eq_false hc, Bool.false_or]
        split <;> rfl

end DeclBundle.Text

namespace DeclBundle.Print

open Text

theorem render_quoted (s : String) : Piece.render (quoted s) = quote s := by
  simp [Piece.render, quoted, Writer.putAll, Writer.put, Writer.write, Writer.empty]

/-- The text that is written for a string is a pair of quotes around what two replacements make of
it, and taking the backslashes away again gives the string. It is a literal for the string, with
whatever comes after it left alone, exactly if the string has no line break; with one it is none. -/
theorem quoted_literal (s rest : String) :
    Piece.render (quoted s)
        = "\"" ++ replaceAll "\"" "\\\"" (replaceAll "\\" "\\\\" s) ++ "\""
      ∧ unquote (Piece.render (quoted s)) = some s
      ∧ (readLiteral (Piece.render (quoted s) ++ rest).toList = some (s.toList, rest.toList)
        ↔ '\n' ∉ s.toList ∧ '\r' ∉ s.toList)
      ∧ (readLiteral (Piece.render (quoted s) ++ rest).toList = none
        ↔ '\n' ∈ s.toList ∨ '\r' ∈ s.toList) := by
  have hread : readLiteral (quote s ++ rest).toList
      = if s.toList.any (· ∈ lineBreaks) then none else some (s.toList, rest.toList) := by
    rw [← readLiteralRest_escapeChars]
    simp [quote, readLiteral]
  have hbreaks : s.toList.any (· ∈ lineBreaks) = true ↔ '\n' ∈ s.toList ∨ '\r' ∈ s.toList := by
    simp [lineBreaks, and_or_left, exists_or]
  rw [render_quoted, hread, ← not_or, ← hbreaks]
  refine ⟨quote_eq_replaceAll s, unquote_quote s, ?_, ?_⟩ <;> split <;> simp_all

/-- A property whose name goes over two lines: the line ends inside of the quotes. -/
example : readLiteral (Piece.render (propertyName (.stringLiteral "a\nb"))).toList = none := by
  decide

end DeclBundle.Print
