import DeclBundle.Json.Basic
import DeclBundle.Shake

/-!
# Statistics of a bundle
-/

namespace DeclBundle

/-- Something that a bundle takes from a library: a name, `default`, or `*` for all of it. -/
structure LibraryUse where
  library : String
  symbol : String
deriving DecidableEq, Repr

namespace LibraryUse

/-- By library, then by symbol. -/
def le (a b : LibraryUse) : Bool :=
  a.library < b.library || (a.library == b.library && a.symbol ≤ b.symbol)

/-- The use that a binding from a library is. -/
def ofRef (r : LibraryBinding) : LibraryUse := ⟨r.specifier, r.remote.name⟩

/-- A use as a value. -/
def toJson (r : LibraryUse) : Json :=
  .obj [("library", .str r.library), ("symbol", .str r.symbol)]

end LibraryUse

/-- What is told about a bundle in numbers. -/
structure Stats where
  /-- Sorted, each once. -/
  libraryUses : List LibraryUse
  kept : Nat
  removed : Nat
  renamed : Nat
deriving DecidableEq, Repr

namespace Stats

/-- The numbers of a run, with the uses of libraries sorted and each once. -/
def collect (r : Reach) (counts : ShakeCounts) (renamed : Nat) : Stats where
  libraryUses :=
    (((r.imports ++ r.importTypes).map .ofRef).mergeSort LibraryUse.le).eraseDups
  kept := counts.kept
  removed := counts.removed
  renamed := renamed

/-- The libraries that the bundle takes something from, sorted. -/
def libraries (s : Stats) : List String := (s.libraryUses.map (·.library)).eraseDups

/-- The fields of the statistics in a report. -/
def fields (s : Stats) : List (String × Json) :=
  [("externalReferences", .arr (s.libraryUses.map LibraryUse.toJson)),
    ("keptDeclarations", .nat s.kept), ("removedDeclarations", .nat s.removed),
    ("renamedBindings", .nat s.renamed)]

end Stats

end DeclBundle
