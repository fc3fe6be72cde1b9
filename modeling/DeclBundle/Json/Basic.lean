import DeclBundle.Table

/-!
# JSON values

Objects keep their fields as they were written, in order and with repetitions, since some readers
refuse a repeated key while others take the last. An integer literal is kept apart from every other
number: `1.0`, `1e2` and `-0` are not integers.
-/

namespace DeclBundle

/-- A JSON value. -/
inductive Json where
  | null
  | bool (value : Bool)
  | int (value : Int)
  /-- A number that is not written as an integer, by its literal. -/
  | real (literal : String)
  | str (value : String)
  | arr (items : List Json)
  | obj (fields : List (String × Json))
deriving Inhabited

namespace Json

/-- A natural number as a value. -/
def nat (n : Nat) : Json := .int n

/-- A list of texts as a value. -/
def strings (texts : List String) : Json := .arr (texts.map .str)

/-- A value that may be absent, which is written as `null`. -/
def ofOption (f : α → Json) : Option α → Json
  | none => .null
  | some a => f a

mutual
/-- The number of containers around the innermost value. -/
def depth : Json → Nat
  | .arr items => itemsDepth items + 1
  | .obj fields => fieldsDepth fields + 1
  | _ => 0
/-- The largest depth of the values of a list. -/
def itemsDepth : List Json → Nat
  | [] => 0
  | v :: rest => max v.depth (itemsDepth rest)
/-- The largest depth of the values of an object. -/
def fieldsDepth : List (String × Json) → Nat
  | [] => 0
  | (_, v) :: rest => max v.depth (fieldsDepth rest)
end

/-- The fields with every key once: a later value takes the place of an earlier one. -/
def lastWins (fields : List (String × Json)) : List (String × Json) :=
  fields.foldl (fun done (k, v) => Table.put k v done) []

mutual
/-- The value with every key of every object once, the last value winning. -/
def collapse : Json → Json
  | .arr items => .arr (collapseItems items)
  | .obj fields => .obj (lastWins (collapseFields fields))
  | v => v
/-- Every value of a list, collapsed. -/
def collapseItems : List Json → List Json
  | [] => []
  | v :: rest => v.collapse :: collapseItems rest
/-- Every value of an object, collapsed. -/
def collapseFields : List (String × Json) → List (String × Json)
  | [] => []
  | (k, v) :: rest => (k, v.collapse) :: collapseFields rest
end

end Json

end DeclBundle
