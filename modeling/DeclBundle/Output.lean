import DeclBundle.Tree.Encode

/-!
# Finished bundles

A bundle is one file: imports of libraries, then declarations, then one export clause.
-/

namespace DeclBundle

/-- What is still imported from one library. -/
structure LibraryImport where
  specifier : String
  namespaceName : Option String := none
  named : List ImportSpecifier := []
deriving DecidableEq, Repr

/-- A statement and where it came from; what the bundler added has no origin. -/
structure PlacedStatement where
  origin : Option String := none
  pos : Option Position := none
  statement : Statement

/-- An export under a public name of a name in the bundle. -/
structure ExportEntry where
  binding : String
  exported : String
deriving DecidableEq, Repr

/-- Whether the public name is another one. -/
def ExportEntry.isRenamed (e : ExportEntry) : Bool := e.binding ≠ e.exported

/-- All that a bundle exports. -/
structure ExportClause where
  entries : List ExportEntry := []
  /-- `export = binding;` -/
  assignment : Option String := none
  /-- `export * from "lib";` -/
  externalStars : List String := []
deriving DecidableEq, Repr

namespace ExportClause

/-- The clause exports nothing. -/
def isEmpty (c : ExportClause) : Bool :=
  c.entries.isEmpty && c.assignment.isNone && c.externalStars.isEmpty

/-- The first entry exported under a name. -/
def get? (c : ExportClause) (exported : String) : Option ExportEntry :=
  c.entries.find? (·.exported == exported)

/-- The clause as a value. -/
def toJson (c : ExportClause) : Json :=
  .obj ([("entries", .arr (c.entries.map fun e =>
      .obj [("local", .str e.binding), ("exported", .str e.exported)]))]
    ++ Encode.optional "assignment" .str c.assignment
    ++ Encode.nonempty "externalStars" (c.externalStars.map .str))

end ExportClause

/-- One output file. -/
structure OutputFile where
  fileName : String := ""
  imports : List LibraryImport := []
  statements : List PlacedStatement := []
  exports : ExportClause := {}
  /-- An empty clause is written as `export {};`. -/
  moduleMarker : Bool := false

end DeclBundle
