import DeclBundle.Decode.Basic
import DeclBundle.Json.Reader

/-!
# Reading JSON of a known shape

These readers say what they expect while they read, so a value of another shape is refused where it
starts and what stands behind it is not looked at. A scalar is read before it is refused: a text
that is not JSON is the graver fault.
-/

namespace DeclBundle.Json.Reader

/-- Reads a scalar and decodes it; a list or an object is a mismatch. -/
def expect (f : Json → Decoded α) : Reader α := do
  match ← peekToken? with
  | none => throw .ended
  | some c =>
    if c = '[' ∨ c = '\x7b' then throw .mismatch
    match f (← scalar c) with
    | .ok a => return a
    | .error _ => throw .mismatch

/-- Fails with a mismatch, unless the input has ended. -/
def refuse : Reader α := expect fun _ => .error .shape

/-- Reads a null. -/
def null : Reader Unit := expect fun
  | .null => .ok ()
  | _ => .error .shape

/-- Reads one of the words of a table, which may be the only key of an object over `null`. Anything
else is no word at all. -/
def wordOf (table : List (String × α)) : Reader α := do
  match ← peekToken? with
  | none => throw .ended
  | some '"' => expect (Decode.choice table)
  | some '\x7b' =>
    advance
    let a ← expect (Decode.choice table)
    token ':'
    null
    token '\x7d'
    return a
  | some _ => throw .malformed

/-- Reads `null` as nothing, and anything else by `r`. -/
def orNull (r : Reader α) : Reader (Option α) := do
  if (← peekToken?) = some 'n' then
    discard (scalar 'n')
    return none
  else return some (← r)

/-- Reads at most `fuel` items by `r`, up to the end of a list. -/
def itemsBy (r : Reader α) : Nat → Bool → Reader (List α)
  | 0, _ => throw .ended
  | fuel + 1, first => do
    if ← more ']' first then
      let a ← r
      return a :: (← itemsBy r fuel false)
    else return []

/-- Reads a list item by item. -/
def listOf (r : Reader α) : Reader (List α) := do
  if (← peekToken?) = some '[' then
    advance
    itemsBy r ((← get).length + 1) true
  else refuse

/-! ## Records -/

/-- A slot of a record, which is read into what is known of the record so far. -/
structure Slot (σ : Type) where
  key : String
  isKnown : σ → Bool
  /-- Reads the value. -/
  read : σ → Reader σ

/-- The slot under `key` with the given getter and setter, its value read by `r`. -/
def Slot.named (key : String) (get : σ → Option α) (set : σ → Option α → σ) (r : Reader α) :
    Slot σ where
  key := key
  isKnown known := (get known).isSome
  read known := return set known (some (← r))

/-- Reads at most `fuel` fields up to the end of an object. The key of a slot may stand once, and a
repeated one is refused before its colon. -/
def fieldsBy (slots : List (Slot σ)) : Nat → Bool → σ → Reader σ
  | 0, _, _ => throw .ended
  | fuel + 1, first, known => do
    if ← more '\x7d' first then
      let k ← key
      match slots.find? (·.key == k) with
      | some slot =>
        if slot.isKnown known then throw .mismatch
        token ':'
        fieldsBy slots fuel false (← slot.read known)
      | none =>
        token ':'
        skip
        fieldsBy slots fuel false known
    else return known

/-- Reads the values of the slots in turn up to the end of a list, which may come early. -/
def placesBy : List (Slot σ) → Bool → σ → Reader σ
  | [], _, known => do
    token ']'
    return known
  | slot :: rest, first, known => do
    if ← more ']' first then placesBy rest false (← slot.read known)
    else return known

/-- Reads a record from what is known at the start: an object, or the list of its values. -/
def record (slots : List (Slot σ)) (start : σ) : Reader σ := do
  match ← peekToken? with
  | some '\x7b' =>
    advance
    fieldsBy slots ((← get).length + 1) true start
  | some '[' =>
    advance
    placesBy slots true start
  | _ => refuse

/-- The value of a field that has to be there. -/
def present : Option α → Reader α
  | none => throw .mismatch
  | some a => return a

end DeclBundle.Json.Reader
