import DeclBundle.Reach.Closure

/-!
# Shaking

Shaking takes out the declarations that are not reached and keeps everything else in order.
Variables are kept one by one; a variable statement goes when none of its variables is kept.
-/

namespace DeclBundle

/-- The statements of a module that take part in a bundle. -/
structure ModuleTree where
  module : ModuleId
  path : String
  statements : List Statement

/-- How many declarations stayed and how many went. -/
structure ShakeCounts where
  kept : Nat := 0
  removed : Nat := 0
deriving DecidableEq, Repr

namespace Shake

/-- A declaration is kept if it has an identity and is reached. -/
def keeps (r : Reach) (id : Option DeclId) : Bool := id.any r.contains

/-- What is left of a statement: a list of variables loses those not reached, any other declaration
is kept or dropped. -/
def statement? (r : Reach) : Statement → Option Statement
  | .declaration d =>
    match d.kind with
    | .variableList flavor declarators =>
      match declarators.filter (fun v => keeps r v.id) with
      | [] => none
      | kept => some (.declaration { d with kind := .variableList flavor kept })
    | _ => if keeps r d.id then some (.declaration d) else none
  | s => some s

/-- The identities that the declarations among statements bind. -/
def boundIds (statements : List Statement) : List (Option DeclId) :=
  statements.flatMap fun
    | .declaration d => d.boundIds
    | _ => []

/-- What is left of a unit. -/
def unit (r : Reach) (module : ModuleId) (u : DeclUnit) : ModuleTree :=
  ⟨module, u.path, u.statements.filterMap (statement? r)⟩

/-- The units of some modules. -/
def units (store : Store) (modules : List ModuleId) : List (ModuleId × DeclUnit) :=
  modules.filterMap fun m => (store.get? m).map (m, ·)

/-- What is left of some modules. -/
def modules (store : Store) (ms : List ModuleId) (r : Reach) : List ModuleTree :=
  (units store ms).map fun (m, u) => unit r m u

/-- How many declarations of the given modules are kept and how many are not. -/
def counts (store : Store) (ms : List ModuleId) (r : Reach) : ShakeCounts :=
  let ids := (units store ms).flatMap fun (_, u) => boundIds u.statements
  ⟨ids.countP (keeps r), ids.countP (fun id => !keeps r id)⟩

end Shake

end DeclBundle
