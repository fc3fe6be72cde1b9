import DeclBundle.Link.Resolve
import DeclBundle.Names.Suffix

/-!
# Export surfaces

All that a module exports: its explicit exports in the order of its table, then what its star
sources provide, source by source. When several sources provide different things under one name, the
policy's choice keeps the name and the others get a free form of it, each with a warning. The walk
does not enter a module that it is already inside of.
-/

namespace DeclBundle

/-- The exports of a module in order, and the libraries whose exports it passes on. -/
structure Surface where
  entries : Table String Resolution := {}
  externalStars : List String := []

/-- What a surface lists under a name. -/
def Surface.get? (s : Surface) (name : String) : Option Resolution := s.entries.get? name

namespace Linker

/-- What star sources provide: libraries, and under each name the different resolutions. -/
structure StarOffers where
  externalStars : List String := []
  candidates : Table String (List Resolution) := {}

/-- Adds an entry of a star source unless it cannot be passed on. -/
def StarOffers.add (explicit : Table String Resolution) (o : StarOffers) :
    String × Resolution → StarOffers
  | (name, r) =>
    if name = "default" ∨ r = .unresolved ∨ explicit.contains name then o
    else
      let provided := pushNew ((o.candidates.get? name).getD []) r
      { o with candidates := o.candidates.insert name provided }

/-- The offers after those of one more star source. -/
def StarOffers.addSurface (explicit : Table String Resolution) (o : StarOffers) (s : Surface) :
    StarOffers :=
  s.entries.rows.foldl (StarOffers.add explicit)
    { o with externalStars := pushAllNew o.externalStars s.externalStars }

/-- Gives a loser of a conflict a free form of its name. -/
def addLoser (path name : String) (reserved : List String) :
    Table String Resolution × List Diagnostic → Resolution →
      Table String Resolution × List Diagnostic
  | (entries, ds), loser =>
    let renamed := unusedName (entries.keys ++ reserved) name
    (entries.insert renamed loser,
      ds ++ [(Cause.ambiguousStarExport name renamed).report path])

/-- Enters what is provided under one name: the winner as it is, the others renamed. -/
def addCandidates (policy : StarPolicy) (path : String) (reserved : List String)
    (acc : Table String Resolution × List Diagnostic) :
    String × List Resolution → Table String Resolution × List Diagnostic
  | (name, provided) =>
    match inPolicyOrder policy provided with
    | [] => acc
    | winner :: losers =>
      losers.foldl (addLoser path name reserved) (acc.1.insert name winner, acc.2)

variable (l : Linker)

/-- Enters an explicit export; one that is unresolved is reported. -/
def addExplicit (scope : ModuleTables) (acc : Table String Resolution × List Diagnostic)
    (name : String) : Table String Resolution × List Diagnostic :=
  let (r, ds) := l.resolveExport scope.module name
  (acc.1.insert name r,
    acc.2 ++ ds ++
      if r = .unresolved then [(Cause.unresolvedExport name).report scope.path] else [])

/-- The own exports of a module in order, resolved. -/
def explicitEntries (scope : ModuleTables) : Table String Resolution × List Diagnostic :=
  scope.exports.keys.foldl (l.addExplicit scope) ({}, [])

/-- Asks one star source, by `surface`, unless the walk is inside of it. -/
def addStar (surface : ModuleId → Surface × List Diagnostic) (stack : List ModuleId)
    (explicit : Table String Resolution) (acc : StarOffers × List Diagnostic) :
    Provider → StarOffers × List Diagnostic
  | .external specifier =>
    ({ acc.1 with externalStars := pushNew acc.1.externalStars specifier }, acc.2)
  | .internal target =>
    if target ∈ stack then acc
    else
      let (s, ds) := surface target
      (acc.1.addSurface explicit s, acc.2 ++ ds)

/-- The surface of a module inside the modules of `stack`, of which it is one. -/
def surfaceWithin : Nat → List ModuleId → ModuleId → Surface × List Diagnostic
  | 0, _, _ => ({}, [])
  | fuel + 1, stack, module =>
    match l.scope? module with
    | none => ({}, [])
    | some scope =>
      let (explicit, ds) := l.explicitEntries scope
      let (offers, ds) := scope.starExports.foldl
        (addStar (fun target => surfaceWithin fuel (target :: stack) target) stack explicit)
        ({}, ds)
      let (entries, ds) := offers.candidates.rows.foldl
        (addCandidates l.starPolicy scope.path offers.candidates.keys) (explicit, ds)
      ({ entries, externalStars := offers.externalStars }, ds)

/-- The surface of a module. The modules on the stack are different, so their number bounds the
walk. -/
def surface (module : ModuleId) : Surface × List Diagnostic :=
  l.surfaceWithin l.size [module] module

end Linker

end DeclBundle
