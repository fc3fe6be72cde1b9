import DeclBundle.Decode.Basic

/-!
# Records out of JSON

A record is an object, or the list of its values in the order of its keys. A field of it may be
required, it may be left out or `null`, or it may be left out and then has a value of its own. Keys
without a meaning are passed over; a key with a meaning may stand once.

A reader of fields says which fields there are, in their order, and how each is read. It may find
several faults: the one that stands first in the record is reported, whatever the order in which the
fields are asked for, and a missing field or a surplus value only when nothing else is wrong.

A node with several shapes has a tag that says which. It is an object with the tag as one of its
fields, or the list of its tag and its values. Within a node that has a tag, a tag may also be the
number of its shape.
-/

namespace DeclBundle.Decode

/-- The fields of a record as they stand. -/
structure Row where
  fields : List (String × Json)
  /-- Whether a list goes on behind the last key. -/
  hasSurplus : Bool := false

/-- The row that gives the values of the keys in turn, as far as there are values. -/
def Row.ofValues (keys : List String) (items : List Json) : Row :=
  ⟨keys.zip items, keys.length < items.length⟩

/-- The place of the first field with this key; after all fields if there is none. -/
def Row.place (row : Row) (key : String) : Nat := row.fields.findIdx (·.1 == key)

/-- A fault and where it stands; a field that is missing stands behind all others. -/
structure Fault where
  place : Nat
  error : DecodeError

/-- The fault that comes first in the input; the left one if both are at one place. -/
def Fault.first (a b : Fault) : Fault := if b.place < a.place then b else a

theorem Fault.place_first (a b : Fault) : (a.first b).place = min a.place b.place := by
  unfold first
  split <;> omega

/-- Reads fields of a record. -/
structure FieldReader (α : Type) where
  /-- The keys of the fields in order. -/
  keys : List String
  read : Row → Except Fault α

namespace FieldReader

/-- Asks for both and reports the fault that stands first. -/
def both (r : FieldReader (α → β)) (s : FieldReader α) : FieldReader β where
  keys := r.keys ++ s.keys
  read row :=
    match r.read row, s.read row with
    | .ok f, .ok a => .ok (f a)
    | .ok _, .error e => .error e
    | .error d, .ok _ => .error d
    | .error d, .error e => .error (d.first e)

/-- Readers of fields side by side; the fault that comes first in the input wins. -/
instance : Applicative FieldReader where
  pure a := ⟨[], fun _ => .ok a⟩
  map f r := ⟨r.keys, fun row => f <$> r.read row⟩
  seq r s := r.both (s ())

@[simp] theorem keys_map (f : α → β) (r : FieldReader α) : (f <$> r).keys = r.keys := rfl

@[simp] theorem keys_seq (r : FieldReader (α → β)) (s : FieldReader α) :
    (r <*> s).keys = r.keys ++ s.keys := rfl

theorem read_map_of_ok {f : α → β} {r : FieldReader α} {row : Row} {a : α}
    (hr : r.read row = .ok a) : (f <$> r).read row = .ok (f a) := by
  show f <$> r.read row = _
  rw [hr]
  rfl

theorem read_seq_of_ok {r : FieldReader (α → β)} {s : FieldReader α} {row : Row} {f : α → β} {a : α}
    (hr : r.read row = .ok f) (hs : s.read row = .ok a) : (r <*> s).read row = .ok (f a) := by
  show (r.both s).read row = _
  simp only [both, hr, hs]

/-- The value that a reader finds in a row. -/
def decode (r : FieldReader α) (row : Row) : Decoded α :=
  match r.read row with
  | .ok a => if row.hasSurplus then .error .shape else .ok a
  | .error fault => .error fault.error

end FieldReader

/-- The value under `key` read by `f`, if there is one. -/
def given? (key : String) (f : Json → Decoded α) : FieldReader (Option α) where
  keys := [key]
  read row :=
    match row.fields.filter (·.1 == key) with
    | [] => .ok none
    | [(_, v)] =>
      match f v with
      | .ok a => .ok (some a)
      | .error e => .error ⟨row.place key, e⟩
    | _ => .error ⟨row.place key, .shape⟩

/-- The value under `key` read by `f`, which has to be there. -/
def required (key : String) (f : Json → Decoded α) : FieldReader α where
  keys := [key]
  read row :=
    match (given? key f).read row with
    | .ok (some a) => .ok a
    | .ok none => .error ⟨row.fields.length, .shape⟩
    | .error fault => .error fault

/-- The value under `key` read by `f`, or nothing for no value and for `null`. -/
def optional (key : String) (f : Json → Decoded α) : FieldReader (Option α) :=
  Option.join <$> given? key (orNull f)

/-- The value under `key` read by `f`, or `fallback` for no value. -/
def defaulted (key : String) (fallback : α) (f : Json → Decoded α) : FieldReader α :=
  (·.getD fallback) <$> given? key f

/-- A record, from an object or from the list of its values in order. -/
def record (r : FieldReader α) : Json → Decoded α
  | .obj fields => r.decode ⟨fields, false⟩
  | .arr items => r.decode (.ofValues r.keys items)
  | _ => .error .shape

/-! ## Shapes -/

/-- One of the shapes that a node may have. -/
structure Shape (α : Type) where
  tag : String
  fields : FieldReader α

/-- The shape that a tag stands for: a text or, if `nested` within a node that has a tag, also the
number of the shape. -/
def shape (nested : Bool) (shapes : List (Shape α)) : Json → Decoded (Shape α)
  | .str tag => present (shapes.find? (·.tag == tag))
  | .int i => if nested ∧ 0 ≤ i then present shapes[i.toNat]? else .error .shape
  | _ => .error .shape

/-- A node of one of several shapes, with its tag under `key` or in front of its values. -/
def node (nested : Bool) (key : String) (shapes : List (Shape α)) : Json → Decoded α
  | .obj fields => do
    let s ← (required key (shape nested shapes)).decode ⟨fields, false⟩
    s.fields.decode ⟨fields, false⟩
  | .arr (tag :: items) => do
    let s ← shape nested shapes tag
    s.fields.decode (.ofValues s.fields.keys items)
  | _ => .error .shape

end DeclBundle.Decode
