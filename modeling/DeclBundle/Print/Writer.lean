import DeclBundle.SourceMap.Basic
import DeclBundle.Text.Split
import DeclBundle.Text.Utf16
import DeclBundle.Tree.Type

/-!
# The writer

The writer gathers text and counts the line and the column it is at, columns in UTF-16 units. Both
counters have 32 bits and start again from 0 after the last number (`word`). With a map the writer
can also record where the text at the current place came from.

Text is handed over in pieces. A piece of plain text is taken to lie on one line and only moves the
column; a break and text over several lines move the line as well.
-/

namespace DeclBundle

/-- What can be written. -/
inductive Piece where
  /-- Text on one line. -/
  | text (s : String)
  /-- The end of a line. -/
  | newline
  /-- Text over any number of lines. -/
  | lines (s : String)
deriving DecidableEq, Repr

/-- The text of a piece. -/
def Piece.content : Piece → String
  | .text s => s
  | .newline => "\n"
  | .lines s => s

/-- The text so far, the place at its end, and the map if one is kept. -/
structure Writer where
  output : String := ""
  line : Nat := 0
  column : Nat := 0
  map : Option SourceMap := none

namespace Writer

/-- The writer before anything is written. -/
def empty : Writer := {}

/-- Starts a map for the given file. -/
def enableMap (w : Writer) (file : String) : Writer := { w with map := some { file } }

/-- Writes a text that has no line break. The column moves by its units and wraps at a word. -/
def write (w : Writer) (s : String) : Writer :=
  { w with output := w.output ++ s, column := word (w.column + Text.units s) }

/-- Ends the line. -/
def endLine (w : Writer) : Writer :=
  { w with output := w.output ++ "\n", line := word (w.line + 1), column := 0 }

/-- Writes lines, each after the end of the one before. -/
def writeFurther (w : Writer) : List String → Writer
  | [] => w
  | s :: rest => (w.endLine.write s).writeFurther rest

/-- Writes text over any number of lines. -/
def writeText (w : Writer) (s : String) : Writer :=
  match Text.splitAt '\n' s with
  | [] => w
  | first :: rest => (w.write first).writeFurther rest

/-- Records that the text at the current place came from `pos` in `source`. -/
def markOrigin (w : Writer) (source : String) (pos : Position) : Writer :=
  match w.map with
  | none => w
  | some m =>
    let (index, m) := m.register source
    { w with map := some (m.record ⟨w.line, w.column, index, pos.line, pos.column⟩) }

/-- Writes text whose start came from `pos` in `source`. -/
def writeFrom (w : Writer) (s source : String) (pos : Position) : Writer :=
  (w.markOrigin source pos).write s

/-- Writes one piece. -/
def put (w : Writer) : Piece → Writer
  | .text s => w.write s
  | .newline => w.endLine
  | .lines s => w.writeText s

/-- Writes pieces in order. -/
def putAll (w : Writer) (pieces : List Piece) : Writer := pieces.foldl put w

/-- Nothing is on the line yet. -/
def atLineStart (w : Writer) : Bool := w.column = 0

/-- The text of the map, if there is one. -/
def mapText (w : Writer) : Option String := w.map.map SourceMap.render

end Writer

/-- The text of pieces written from the start. -/
def Piece.render (pieces : List Piece) : String := (Writer.empty.putAll pieces).output

end DeclBundle
