import DeclBundle.Json.Basic

/-!
# Typed values out of JSON

Texts, truth values, numbers, lists and words. `Decode/Record` builds on them for values that are
made of fields.
-/

namespace DeclBundle

/-- Why a value was refused. -/
inductive DecodeError where
  /-- A part is missing or of another shape. -/
  | shape
  /-- A list of modifiers holds another word. -/
  | unknownModifier (word : String)
deriving DecidableEq, Repr

/-- What is said about an error beyond its kind. -/
def DecodeError.message? : DecodeError → Option String
  | .shape => none
  | .unknownModifier word => some ("unknown modifier '" ++ word ++ "'")

/-- A value or the reason why there is none. -/
abbrev Decoded := Except DecodeError

namespace Decode

/-- A value that must be there. -/
def present : Option α → Decoded α
  | none => .error .shape
  | some a => .ok a

/-- A text. -/
def string : Json → Decoded String
  | .str s => .ok s
  | _ => .error .shape

/-- A truth value. -/
def bool : Json → Decoded Bool
  | .bool b => .ok b
  | _ => .error .shape

/-- A whole number that fits in 32 bits without a sign. -/
def nat32 : Json → Decoded Nat
  | .int n => if 0 ≤ n ∧ n < 4294967296 then .ok n.toNat else .error .shape
  | _ => .error .shape

/-- Nothing for `null`, and anything else by `f`. -/
def orNull (f : Json → Decoded α) : Json → Decoded (Option α)
  | .null => .ok none
  | v => some <$> f v

/-- The results of `f` on each item, or the first error. -/
def each (f : α → Decoded β) : List α → Decoded (List β)
  | [] => .ok []
  | a :: rest => do
    let b ← f a
    return b :: (← each f rest)

/-- A list, each item read by the given decoder. -/
def list (f : Json → Decoded α) : Json → Decoded (List α)
  | .arr items => each f items
  | _ => .error .shape

/-- The fields of an object. -/
def object : Json → Decoded (List (String × Json))
  | .obj fields => .ok fields
  | _ => .error .shape

/-- One of the words of a table. -/
def choice (table : List (String × α)) (v : Json) : Decoded α := do
  present (table.lookup (← string v))

/-- One of the words of a table. The word may be the only key of an object, over `null` or, if
`nested` within a node that has a tag, over an empty object. -/
def word (nested : Bool) (table : List (String × α)) : Json → Decoded α
  | .obj [(w, .null)] => choice table (.str w)
  | .obj [(w, .obj [])] => if nested then choice table (.str w) else .error .shape
  | v => choice table v

end Decode

end DeclBundle
