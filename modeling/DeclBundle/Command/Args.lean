import DeclBundle.Options
import DeclBundle.Text.Split

/-!
# Command lines

A command line names one manifest and may give settings and switches in any order. A setting takes a
value, either attached to it or as the next word; a switch takes none. After `--` every word is a
value for the manifest.

A value that is a word of its own is looked at only when the next thing on the line is understood,
so an argument that is not known at all is reported before a bad value in front of it.
-/

namespace DeclBundle

/-- Why a command line is not run. -/
inductive UsageError where
  | missingRequired
  | unknownArgument
  /-- A value is missing, empty where a path is due, or not one of the accepted. -/
  | invalidValue
  /-- A setting or switch that may stand once is repeated. -/
  | repeated
  /-- A switch has a value. -/
  | unneededValue
  | help
  | version
deriving DecidableEq, Repr

/-- Whether the user asked for this answer. -/
def UsageError.isRequested : UsageError → Bool
  | .help | .version => true
  | _ => false

/-- A command line that can be run. -/
structure Args where
  manifest : String
  outDir : Option String := none
  /-- The entry modules that are wanted; all if there are none. -/
  entries : List String := []
  starPolicy : Option StarPolicy := none
  pretty : Option Bool := none
  sourceMap : Bool := false
  noReserveGlobals : Bool := false
  noModuleMarker : Bool := false
  stats : Bool := false
  strict : Bool := false
deriving DecidableEq, Repr

/-- The options of a manifest as the command line changes them. -/
def Args.applyTo (a : Args) (o : Options) : Options where
  starPolicy := a.starPolicy.getD o.starPolicy
  sourceMap := a.sourceMap || o.sourceMap
  reserveGlobals := !a.noReserveGlobals && o.reserveGlobals
  maxReexportDepth := o.maxReexportDepth
  emitModuleMarker := !a.noModuleMarker && o.emitModuleMarker

namespace Args

/-- What takes a value. -/
inductive Setting where
  | manifest
  | outDir
  | entry
  | starPolicy
  | pretty
deriving DecidableEq, Repr

/-- What takes none. -/
inductive Switch where
  | sourceMap
  | noReserveGlobals
  | noModuleMarker
  | stats
  | strict
  | help
  | version
deriving DecidableEq, Repr

/-- What a word names. -/
inductive Named where
  | setting (s : Setting)
  | switch (s : Switch)
deriving DecidableEq, Repr

/-- The words after two dashes. -/
def longNames : List (String × Named) :=
  [("outDir", .setting .outDir), ("out-dir", .setting .outDir),
    ("entry", .setting .entry),
    ("sourceMap", .switch .sourceMap), ("source-map", .switch .sourceMap),
    ("starExportConflict", .setting .starPolicy),
    ("star-export-conflict", .setting .starPolicy),
    ("noReserveGlobals", .switch .noReserveGlobals),
    ("no-reserve-globals", .switch .noReserveGlobals),
    ("noModuleMarker", .switch .noModuleMarker), ("no-module-marker", .switch .noModuleMarker),
    ("stats", .switch .stats), ("strict", .switch .strict), ("pretty", .setting .pretty),
    ("help", .switch .help), ("version", .switch .version)]

/-- The letters after one dash. -/
def shortNames : List (Char × Named) :=
  [('o', .setting .outDir), ('e', .setting .entry), ('h', .switch .help), ('V', .switch .version)]

/-- The words for a star policy. -/
def starPolicies : List (String × StarPolicy) :=
  [("first", .preferFirst), ("prefer-first", .preferFirst),
    ("last", .preferLast), ("prefer-last", .preferLast)]

/-- What a command line has given so far. -/
structure Draft where
  manifest : Option String := none
  outDir : Option String := none
  entries : List String := []
  starPolicy : Option StarPolicy := none
  pretty : Option Bool := none
  switches : List Switch := []
  /-- A setting that was named, with its value once that was given, and not looked at yet. -/
  pending : Option (Setting × Option String) := none

/-- A path, which must not be empty. -/
def path (value : String) : Except UsageError String :=
  if value = "" then .error .invalidValue else .ok value

/-- The value that a word of the table stands for. -/
def oneOf (table : List (String × α)) (value : String) : Except UsageError α :=
  match table.lookup value with
  | none => .error .invalidValue
  | some a => .ok a

/-- The value for a slot that may be filled once. -/
def fill (slot : Option α) (value : Except UsageError α) : Except UsageError (Option α) :=
  if slot.isSome then .error .repeated else value.map some

namespace Draft

/-- Gives a setting its value. Entry modules add up; every other setting may be given once. -/
def set (d : Draft) (value : String) : Setting → Except UsageError Draft
  | .manifest => return { d with manifest := ← fill d.manifest (path value) }
  | .outDir => return { d with outDir := ← fill d.outDir (path value) }
  | .entry => return { d with entries := d.entries ++ Text.splitAt ',' value }
  | .starPolicy =>
    return { d with starPolicy := ← fill d.starPolicy (oneOf starPolicies value) }
  | .pretty =>
    return { d with pretty := ← fill d.pretty (oneOf [("true", true), ("false", false)] value) }

/-- Looks at the setting that is pending. -/
def settle (d : Draft) : Except UsageError Draft :=
  match d.pending with
  | none => .ok d
  | some (_, none) => .error .invalidValue
  | some (s, some value) => { d with pending := none }.set value s

/-- Turns a switch on, once. The switches that ask for an answer end the command line. -/
def turn (d : Draft) (s : Switch) : Except UsageError Draft := do
  let d ← d.settle
  match s with
  | .help => throw .help
  | .version => throw .version
  | s => if s ∈ d.switches then throw .repeated else return { d with switches := s :: d.switches }

/-- Takes a setting with a value attached to it, if there is one. -/
def name (d : Draft) (s : Setting) (attached : Option String) : Except UsageError Draft := do
  let d ← d.settle
  match attached with
  | none => return { d with pending := some (s, none) }
  | some value => d.set value s

/-- Takes a word that starts with two dashes, without them. -/
def long (d : Draft) (word : List Char) : Except UsageError Draft :=
  let attached := match word.dropWhile (· ≠ '=') with
    | [] => none
    | _ :: value => some (String.ofList value)
  match longNames.lookup (String.ofList (word.takeWhile (· ≠ '='))) with
  | none => .error .unknownArgument
  | some (.setting s) => d.name s attached
  | some (.switch s) => if attached.isSome then .error .unneededValue else d.turn s

/-- Takes the letters of a word that starts with one dash. What follows the letter of a setting is
its value, without an equals sign in front. -/
def short (d : Draft) : List Char → Except UsageError Draft
  | [] => .ok d
  | c :: rest =>
    match shortNames.lookup c with
    | none => .error .unknownArgument
    | some (.switch s) => do (← d.turn s).short rest
    | some (.setting s) =>
      d.name s (match rest with
        | [] => none
        | '=' :: value => some (String.ofList value)
        | value => some (String.ofList value))

/-- Takes a word as the manifest, if none was given. -/
def positional (d : Draft) (word : String) : Except UsageError Draft :=
  let isTaken := d.manifest.isSome || d.pending.any (·.1 = .manifest)
  if isTaken then .error .unknownArgument
  else return { (← d.settle) with pending := some (.manifest, some word) }

/-- Takes a word that is no argument: the value that a setting waits for, or the manifest. -/
def plain (d : Draft) (word : String) : Except UsageError Draft :=
  match d.pending with
  | some (s, none) => .ok { d with pending := some (s, some word) }
  | _ => d.positional word

/-- Takes one word, by the dashes that it starts with. -/
def word (d : Draft) (text : String) : Except UsageError Draft :=
  match text.toList with
  | '-' :: '-' :: rest => d.long rest
  | '-' :: c :: rest => d.short (c :: rest)
  | _ => d.plain text

/-- Takes words one by one; after two dashes alone all of them are positional. -/
def words (d : Draft) : List String → Except UsageError Draft
  | [] => .ok d
  | "--" :: rest => rest.foldlM positional d
  | text :: rest => do (← d.word text).words rest

/-- The command line that the words make up, which must name a manifest. -/
def finish (d : Draft) : Except UsageError Args := do
  let d ← d.settle
  match d.manifest with
  | none => throw .missingRequired
  | some manifest => return {
      manifest
      outDir := d.outDir
      entries := d.entries
      starPolicy := d.starPolicy
      pretty := d.pretty
      sourceMap := .sourceMap ∈ d.switches
      noReserveGlobals := .noReserveGlobals ∈ d.switches
      noModuleMarker := .noModuleMarker ∈ d.switches
      stats := .stats ∈ d.switches
      strict := .strict ∈ d.switches }

end Draft

/-- The command line that these words are, without the name of the program. -/
def parse (words : List String) : Except UsageError Args := do
  (← ({} : Draft).words words).finish

end Args

end DeclBundle
