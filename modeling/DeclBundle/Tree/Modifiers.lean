/-!
# Modifiers

The keywords in front of a declaration, a member or a parameter. Which ones are set is all that
counts: they are written in one fixed order, whatever order they were read in.
-/

namespace DeclBundle

/-- A modifier keyword, listed in the order of writing. -/
inductive Modifier where
  | exported
  | default
  | declare
  | publicAccess
  | privateAccess
  | protectedAccess
  | static
  | override
  | abstract
  | accessor
  | readonly
  | const
deriving DecidableEq, Repr

namespace Modifier

/-- All modifiers in the order of writing. -/
def all : List Modifier :=
  [.exported, .default, .declare, .publicAccess, .privateAccess, .protectedAccess, .static,
    .override, .abstract, .accessor, .readonly, .const]

/-- The word for a modifier. -/
def keyword : Modifier → String
  | .exported => "export"
  | .default => "default"
  | .declare => "declare"
  | .publicAccess => "public"
  | .privateAccess => "private"
  | .protectedAccess => "protected"
  | .static => "static"
  | .override => "override"
  | .abstract => "abstract"
  | .accessor => "accessor"
  | .readonly => "readonly"
  | .const => "const"

/-- The place of a modifier in a set of bits. -/
def bit : Modifier → Nat
  | .exported => 1
  | .default => 2
  | .declare => 4
  | .const => 8
  | .abstract => 16
  | .readonly => 32
  | .static => 64
  | .publicAccess => 128
  | .privateAccess => 256
  | .protectedAccess => 512
  | .override => 1024
  | .accessor => 2048

/-- The modifier that a word stands for. -/
def ofKeyword? (word : String) : Option Modifier := all.find? (·.keyword == word)

theorem mem_all (m : Modifier) : m ∈ all := by cases m <;> decide

end Modifier

/-- A set of modifiers. -/
structure Modifiers where
  exported : Bool := false
  default : Bool := false
  declare : Bool := false
  publicAccess : Bool := false
  privateAccess : Bool := false
  protectedAccess : Bool := false
  static : Bool := false
  override : Bool := false
  abstract : Bool := false
  accessor : Bool := false
  readonly : Bool := false
  const : Bool := false
deriving DecidableEq, Repr, Inhabited

namespace Modifiers

/-- No modifiers. -/
def none : Modifiers := {}

/-- A modifier is set. -/
def has (s : Modifiers) : Modifier → Bool
  | .exported => s.exported
  | .default => s.default
  | .declare => s.declare
  | .publicAccess => s.publicAccess
  | .privateAccess => s.privateAccess
  | .protectedAccess => s.protectedAccess
  | .static => s.static
  | .override => s.override
  | .abstract => s.abstract
  | .accessor => s.accessor
  | .readonly => s.readonly
  | .const => s.const

/-- The set of the modifiers that satisfy `f`. -/
def ofFn (f : Modifier → Bool) : Modifiers where
  exported := f .exported
  default := f .default
  declare := f .declare
  publicAccess := f .publicAccess
  privateAccess := f .privateAccess
  protectedAccess := f .protectedAccess
  static := f .static
  override := f .override
  abstract := f .abstract
  accessor := f .accessor
  readonly := f .readonly
  const := f .const

/-- Sets a modifier. -/
def insert (s : Modifiers) (m : Modifier) : Modifiers := ofFn fun x => x = m || s.has x

/-- Clears a modifier. -/
def erase (s : Modifiers) (m : Modifier) : Modifiers := ofFn fun x => x ≠ m && s.has x

/-- The modifiers of either. -/
def union (s t : Modifiers) : Modifiers := ofFn fun x => s.has x || t.has x

/-- The modifiers that are set, in the order of writing. -/
def toList (s : Modifiers) : List Modifier := Modifier.all.filter s.has

/-- The words for the modifiers that are set, in the order of writing. -/
def keywords (s : Modifiers) : List String := s.toList.map Modifier.keyword

/-- The modifiers as the bits of one number. -/
def bits (s : Modifiers) : Nat := s.toList.foldr (fun m n => m.bit + n) 0

/-- Adds the modifiers that the words stand for; the first unknown word is the error. -/
def insertKeywords (s : Modifiers) : List String → Except String Modifiers
  | [] => .ok s
  | word :: rest =>
    match Modifier.ofKeyword? word with
    | some m => (s.insert m).insertKeywords rest
    | Option.none => .error word

/-- The set of the modifiers that the words stand for; the first unknown word is the error. -/
def ofKeywords (words : List String) : Except String Modifiers :=
  Modifiers.none.insertKeywords words

/-- Both modifiers of a default export are set. -/
def isDefaultExport (s : Modifiers) : Bool := s.exported && s.default

@[simp] theorem has_ofFn (f : Modifier → Bool) (m : Modifier) : (ofFn f).has m = f m := by
  cases m <;> rfl

/-- Two sets with the same members are equal. -/
theorem ext_has {s t : Modifiers} (h : ∀ m, s.has m = t.has m) : s = t := by
  cases s
  cases t
  simp only [Modifiers.mk.injEq]
  exact ⟨h .exported, h .default, h .declare, h .publicAccess, h .privateAccess,
    h .protectedAccess, h .static, h .override, h .abstract, h .accessor, h .readonly, h .const⟩

@[simp] theorem has_insert (s : Modifiers) (m x : Modifier) :
    (s.insert m).has x = (x = m || s.has x) := by simp [insert]

@[simp] theorem has_erase (s : Modifiers) (m x : Modifier) :
    (s.erase m).has x = (x ≠ m && s.has x) := by simp [erase]

theorem mem_toList {s : Modifiers} {m : Modifier} : m ∈ s.toList ↔ s.has m = true := by
  simp [toList, Modifier.mem_all]

end Modifiers

end DeclBundle
