import DeclBundle.Json.Writer
import DeclBundle.SourceMap.Vlq

/-!
# Source maps

A map records which place of which source a place in the generated text came from. It is written in
version 3 of the format: a semicolon ends a line, a comma parts two mappings of a line, and a
mapping is four differences from the mapping before it, the column starting from 0 on each line.

Lines, columns and indices of sources are kept in 32 bits: of a larger number `word` is what is left.
-/

namespace DeclBundle

/-- What is left of a number in 32 bits. -/
def word (n : Nat) : Nat := n % UInt32.size

theorem word_of_lt {n : Nat} (h : n < UInt32.size) : word n = n := Nat.mod_eq_of_lt h

@[simp] theorem word_word_add (m n : Nat) : word (word m + n) = word (m + n) := Nat.mod_add_mod m _ n

/-- A place in the generated text and the place that it came from. -/
structure Mapping where
  line : Nat
  column : Nat
  source : Nat
  sourceLine : Nat
  sourceColumn : Nat
deriving DecidableEq, Repr

/-- Whether a mapping comes no later than another in the generated text. -/
def Mapping.le (a b : Mapping) : Bool :=
  a.line < b.line || (a.line == b.line && a.column ≤ b.column)

/-- The mappings of one generated file. -/
structure SourceMap where
  file : String
  sources : List String := []
  mappings : List Mapping := []

namespace SourceMap

/-- The index of a source, in 32 bits; a source that is new is registered. -/
def register (m : SourceMap) (source : String) : Nat × SourceMap :=
  match m.sources.findIdx? (· == source) with
  | some i => (word i, m)
  | none => (word m.sources.length, { m with sources := m.sources ++ [source] })

/-- Puts a mapping at the end. -/
def record (m : SourceMap) (mapping : Mapping) : SourceMap :=
  { m with mappings := m.mappings ++ [mapping] }

/-- The mappings in the order of the generated text; those of one place stay as recorded. -/
def sorted (m : SourceMap) : List Mapping := m.mappings.mergeSort Mapping.le

/-- The mapping written last, from which the next one is counted. -/
structure Cursor where
  line : Nat := 0
  column : Nat := 0
  source : Nat := 0
  sourceLine : Nat := 0
  sourceColumn : Nat := 0
  /-- Nothing is written on the line yet. -/
  atLineStart : Bool := true

/-- The mappings from a cursor on, each relative to the one before. -/
def encodeFrom (prev : Cursor) : List Mapping → List Char
  | [] => []
  | m :: rest =>
    let fresh := prev.line < m.line
    let column := if fresh then 0 else prev.column
    List.replicate (m.line - prev.line) ';'
      ++ (if fresh || prev.atLineStart then [] else [','])
      ++ Vlq.encode (m.column - column)
      ++ Vlq.encode (m.source - prev.source)
      ++ Vlq.encode (m.sourceLine - prev.sourceLine)
      ++ Vlq.encode (m.sourceColumn - prev.sourceColumn)
      ++ encodeFrom
        { line := max prev.line m.line, column := m.column, source := m.source
          sourceLine := m.sourceLine, sourceColumn := m.sourceColumn
          atLineStart := false } rest

/-- The mappings of a map, sorted, as text. -/
def encode (m : SourceMap) : String := String.ofList (encodeFrom {} m.sorted)

/-- The map as a value, in version 3 of the format. -/
def toJson (m : SourceMap) : Json :=
  .obj [("version", .int 3), ("file", .str m.file), ("sourceRoot", .str ""),
    ("sources", .strings m.sources), ("names", .arr []), ("mappings", .str m.encode)]

/-- The text of a map. -/
def render (m : SourceMap) : String := m.toJson.compact

end SourceMap

end DeclBundle
