import DeclBundle.Decode.Record

/-!
# Options of a run
-/

namespace DeclBundle

/-- Which of several star sources keeps a name that they all provide. -/
inductive StarPolicy where
  | preferFirst
  | preferLast
deriving DecidableEq, Repr

/-- The word for a star policy. -/
def StarPolicy.label : StarPolicy → String
  | .preferFirst => "preferFirst"
  | .preferLast => "preferLast"

/-- What a manifest may set for all its bundles. -/
structure Options where
  starPolicy : StarPolicy := .preferFirst
  /-- Write a map next to each bundle. -/
  sourceMap : Bool := false
  /-- Names that no module provides are not given to declarations. -/
  reserveGlobals : Bool := true
  /-- How many hops a chain of re-exports may have. -/
  maxReexportDepth : Nat := 64
  /-- Write `export {};` in a bundle that exports nothing. -/
  emitModuleMarker : Bool := true
deriving DecidableEq, Repr

namespace Options

/-- The words for a star policy. -/
def starPolicies : List (String × StarPolicy) :=
  [("preferFirst", .preferFirst), ("preferLast", .preferLast)]

/-- The fields of options; all may be left out. -/
def fields : Decode.FieldReader Options :=
  let standard : Options := {}
  Options.mk
    <$> Decode.defaulted "starExportConflict" standard.starPolicy (Decode.word false starPolicies)
    <*> Decode.defaulted "sourceMap" standard.sourceMap Decode.bool
    <*> Decode.defaulted "reserveGlobals" standard.reserveGlobals Decode.bool
    <*> Decode.defaulted "maxReexportDepth" standard.maxReexportDepth Decode.nat32
    <*> Decode.defaulted "emitModuleMarker" standard.emitModuleMarker Decode.bool

/-- Options, from a value. -/
def decode : Json → Decoded Options := Decode.record fields

/-- Options as a value. -/
def toJson (o : Options) : Json :=
  .obj [("starExportConflict", .str o.starPolicy.label), ("sourceMap", .bool o.sourceMap),
    ("reserveGlobals", .bool o.reserveGlobals), ("maxReexportDepth", .nat o.maxReexportDepth),
    ("emitModuleMarker", .bool o.emitModuleMarker)]

end Options

end DeclBundle
