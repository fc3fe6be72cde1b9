import DeclBundle.Tree.Type

/-!
# The allocator of identities

Identities and places of modules are kept in 32 bits, and identities are drawn from an allocator one
after the other. In the trees of this library an identity is the number of draws before its own,
however many there are, and a module has its place in the store; `DeclId.kept` and `ModuleId.kept`
are what is kept of them.
-/

namespace DeclBundle

/-- What a position without an identity holds: the last word. -/
def DeclId.absent : UInt32 := UInt32.ofNat (UInt32.size - 1)

/-- What is kept of the identity of a position in 32 bits. -/
def DeclId.kept : Option DeclId → UInt32
  | none => DeclId.absent
  | some id => UInt32.ofNat id

/-- What is kept of the place of a module in 32 bits. -/
def ModuleId.kept (module : ModuleId) : UInt32 := UInt32.ofNat module

/-- What gives out identities: the one to come, which is 0 again after the last word. -/
structure IdAllocator where
  next : UInt32 := 0
deriving DecidableEq, Repr

namespace IdAllocator

/-- Gives out the next identity. -/
def alloc : StateM IdAllocator UInt32 :=
  modifyGet fun a => (a.next, ⟨a.next + 1⟩)

/-- Gives out identities one after the other. -/
def draw : Nat → StateM IdAllocator (List UInt32)
  | 0 => return []
  | count + 1 => do
    let id ← alloc
    return id :: (← draw count)

end IdAllocator

end DeclBundle
