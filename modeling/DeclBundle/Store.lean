import DeclBundle.Tree.Allocator
import DeclBundle.Tree.Identity

/-!
# The store

A store holds the trees of all modules of a run in the order in which they were added. A module is
known by its place in the store; adding it numbers the binding positions of its tree from the first
identity that is not given out yet. Places and identities are numbers without a bound here. What the
allocator gives out is kept of them in 32 bits, which tells them apart while there are fewer than
2³² of each.
-/

namespace DeclBundle

/-- The tree of one module, by its path. -/
structure DeclUnit where
  path : String
  statements : List Statement

/-- Why a unit cannot be added. -/
inductive StoreError where
  | emptyModuleId
  | duplicateModule (path : String)
deriving DecidableEq, Repr

/-- The text of an error of the store. -/
def StoreError.message : StoreError → String
  | .emptyModuleId => "module id must not be empty"
  | .duplicateModule path => "module '" ++ path ++ "' was added twice"

/-- The modules of a run in order, and the first identity that is not given out. -/
structure Store where
  units : List DeclUnit := []
  nextId : DeclId := 0

namespace Store

/-- The store before any unit. -/
def empty : Store := {}

/-- The unit of a module. -/
def get? (s : Store) (module : ModuleId) : Option DeclUnit := s.units[module]?

/-- The place of the module with this path; a path that is not in the store names a library. -/
def lookup (s : Store) (path : String) : Option ModuleId :=
  s.units.findIdx? (·.path == path)

/-- How many units there are. -/
def size (s : Store) : Nat := s.units.length

/-- The allocator after the identities of the store were drawn. -/
def allocator (s : Store) : IdAllocator := ⟨UInt32.ofNat s.nextId⟩

/-- Puts a unit into the store at hand, with its binding positions numbered as if one identity after
the other were drawn for them, and gives its place. -/
def insert (unit : DeclUnit) : ExceptT StoreError (StateM Store) ModuleId := do
  let s ← get
  if unit.path = "" then throw .emptyModuleId
  else if (s.lookup unit.path).isSome then throw (.duplicateModule unit.path)
  else
    set { units := s.units
            ++ [{ unit with statements := Statement.assignList s.nextId unit.statements }]
          nextId := s.nextId + (Statement.listSlots unit.statements).length : Store }
    return s.size

/-- The store with a unit put into it. -/
def add (s : Store) (unit : DeclUnit) : Except StoreError Store :=
  match (insert unit).run.run s with
  | (.ok _, s') => .ok s'
  | (.error e, _) => .error e

/-- Adds units in order, up to the first that cannot be added. -/
def addAll (s : Store) : List DeclUnit → Except StoreError Store
  | [] => .ok s
  | u :: us => do (← s.add u).addAll us

/-- The store of some units, added in order. -/
def ofUnits (units : List DeclUnit) : Except StoreError Store := empty.addAll units

end Store

end DeclBundle
