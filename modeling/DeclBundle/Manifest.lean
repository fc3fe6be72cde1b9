import DeclBundle.Bundle
import DeclBundle.Json.Expect
import DeclBundle.Tree.Decode

/-!
# Manifests

A manifest holds the trees of all modules, the entries to bundle and the options. `Manifest.parse`
reads its text front to back and stops at the first fault: the manifest itself, its units, its
entries and its options are read value by value, a statement is read whole once its kind is known to
be one.
-/

namespace DeclBundle

/-- The fields of a unit. -/
def DeclUnit.fields : Decode.FieldReader DeclUnit :=
  DeclUnit.mk <$> Decode.required "id" Decode.string
    <*> Decode.defaulted "statements" [] (Decode.list Decode.statement)

/-- A unit, from a value. -/
def DeclUnit.decode : Json → Decoded DeclUnit := Decode.record fields

/-- The fields of an entry. -/
def Entry.fields : Decode.FieldReader Entry :=
  Entry.mk <$> Decode.required "module" Decode.string <*> Decode.required "output" Decode.string
    <*> Decode.optional "exports" (Decode.list Decode.string)

/-- An entry, from a value. -/
def Entry.decode : Json → Decoded Entry := Decode.record fields

/-- Everything that a run is about. -/
structure Manifest where
  modules : List DeclUnit
  entries : List Entry
  options : Options := {}

namespace Manifest

open Json Json.Reader

/-- The containers around a statement: the manifest, its modules, the unit and its statements. -/
def statementDepth : Nat := 4

/-- How many containers may nest in a value of a statement. -/
def statementRoom : Nat := maxDepth - statementDepth - 1

/-- Reads the kind of a statement, which has to be one of the known. -/
def readKind : Reader String := expect Decode.statementKind

/-- Reads at most `fuel` fields of a statement up to its end. Its kind may stand once, and a second
one is refused before its colon. -/
def statementFields : Nat → Bool → Bool → Reader (List (String × Json))
  | 0, _, _ => throw .ended
  | fuel + 1, first, hasKind => do
    if ← more '\x7d' first then
      let k ← key
      if k = "kind" then
        if hasKind then throw .mismatch
        token ':'
        let kind ← readKind
        return (k, .str kind) :: (← statementFields fuel false true)
      else
        token ':'
        let v ← value statementRoom
        return (k, v) :: (← statementFields fuel false hasKind)
    else return []

/-- The statement that a value stands for. -/
def statementOf (v : Json) : Reader Statement :=
  match Decode.statement v with
  | .ok s => return s
  | .error _ => throw .mismatch

/-- Reads a statement: an object, or the list of its kind and its values. -/
def readStatement : Reader Statement := do
  match ← peekToken? with
  | some '\x7b' =>
    advance
    statementOf (.obj (← statementFields ((← get).length + 1) true false))
  | some '[' =>
    advance
    if ← more ']' true then
      let kind ← readKind
      statementOf (.arr (.str kind :: (← itemsRest statementRoom)))
    else throw .mismatch
  | _ => refuse

/-! ## Records

The slots of each record stand in the order in which a list gives their values.
-/

/-- What a text gives of a unit so far. -/
structure GivenUnit where
  path : Option String := none
  statements : Option (List Statement) := none

/-- The fields of a unit as the text gives them. -/
def unitSlots : List (Slot GivenUnit) :=
  [.named "id" (·.path) ({ · with path := · }) (expect Decode.string),
    .named "statements" (·.statements) ({ · with statements := · }) (listOf readStatement)]

theorem unitSlots_keys : unitSlots.map (·.key) = DeclUnit.fields.keys := rfl

/-- Reads a unit; its path must be there. -/
def readUnit : Reader DeclUnit := do
  let given ← record unitSlots {}
  return ⟨← present given.path, given.statements.getD []⟩

/-- What a text gives of an entry so far. -/
structure GivenEntry where
  module : Option String := none
  output : Option String := none
  exports : Option (Option (List String)) := none

/-- The fields of an entry as the text gives them. -/
def entrySlots : List (Slot GivenEntry) :=
  [.named "module" (·.module) ({ · with module := · }) (expect Decode.string),
    .named "output" (·.output) ({ · with output := · }) (expect Decode.string),
    .named "exports" (·.exports) ({ · with exports := · })
      (orNull (listOf (expect Decode.string)))]

theorem entrySlots_keys : entrySlots.map (·.key) = Entry.fields.keys := rfl

/-- Reads an entry; its module and its output must be there. -/
def readEntry : Reader Entry := do
  let given ← record entrySlots {}
  return ⟨← present given.module, ← present given.output, given.exports.join⟩

/-- The options that a text gives so far. -/
structure GivenOptions where
  starPolicy : Option StarPolicy := none
  sourceMap : Option Bool := none
  reserveGlobals : Option Bool := none
  maxReexportDepth : Option Nat := none
  emitModuleMarker : Option Bool := none

/-- The options with those that are not given at their standard values. -/
def GivenOptions.complete (g : GivenOptions) : Options :=
  let standard : Options := {}
  { starPolicy := g.starPolicy.getD standard.starPolicy
    sourceMap := g.sourceMap.getD standard.sourceMap
    reserveGlobals := g.reserveGlobals.getD standard.reserveGlobals
    maxReexportDepth := g.maxReexportDepth.getD standard.maxReexportDepth
    emitModuleMarker := g.emitModuleMarker.getD standard.emitModuleMarker }

/-- The fields of the options as the text gives them. -/
def optionSlots : List (Slot GivenOptions) :=
  [.named "starExportConflict" (·.starPolicy) ({ · with starPolicy := · })
      (wordOf Options.starPolicies),
    .named "sourceMap" (·.sourceMap) ({ · with sourceMap := · }) (expect Decode.bool),
    .named "reserveGlobals" (·.reserveGlobals) ({ · with reserveGlobals := · })
      (expect Decode.bool),
    .named "maxReexportDepth" (·.maxReexportDepth) ({ · with maxReexportDepth := · })
      (expect Decode.nat32),
    .named "emitModuleMarker" (·.emitModuleMarker) ({ · with emitModuleMarker := · })
      (expect Decode.bool)]

theorem optionSlots_keys : optionSlots.map (·.key) = Options.fields.keys := rfl

/-- Reads the options; what is left out has its default. -/
def readOptions : Reader Options :=
  return (← record optionSlots {}).complete

/-- What a text gives of a manifest so far. -/
structure Given where
  modules : Option (List DeclUnit) := none
  entries : Option (List Entry) := none
  options : Option Options := none

/-- The fields of a manifest as the text gives them. -/
def slots : List (Slot Given) :=
  [.named "modules" (·.modules) ({ · with modules := · }) (listOf readUnit),
    .named "entries" (·.entries) ({ · with entries := · }) (listOf readEntry),
    .named "options" (·.options) ({ · with options := · }) readOptions]

/-- Reads a manifest; its modules and its entries must be there. -/
def readManifest : Reader Manifest := do
  let given ← record slots {}
  return ⟨← present given.modules, ← present given.entries, given.options.getD {}⟩

/-- The manifest that a text is. -/
def parse (text : String) : Except ReadError Manifest := readManifest.run text

end Manifest

end DeclBundle
