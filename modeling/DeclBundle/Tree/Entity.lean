import DeclBundle.Text.Split

/-!
# Dotted names

`a.b.C` names a member reached from the binding `a`. Only the first segment is looked up in a scope.
-/

namespace DeclBundle

/-- A name of one or more segments. -/
structure Entity where
  segments : List String
deriving DecidableEq, Repr, Inhabited

namespace Entity

/-- The name written as `text`, cut at every dot. -/
def ofText (text : String) : Entity := ⟨Text.splitAt '.' text⟩

/-- A dotted name as text. -/
def text (e : Entity) : String := Text.joinWith "." e.segments

/-- The first segment of a dotted name. -/
def root (e : Entity) : String := e.segments.headD ""

/-- A dotted name with another first segment. -/
def setRoot (e : Entity) (name : String) : Entity :=
  match e.segments with
  | [] => ⟨[name]⟩
  | _ :: path => ⟨name :: path⟩

/-- Whether there is more than the first segment. -/
def isQualified (e : Entity) : Bool := 1 < e.segments.length

@[simp] theorem text_ofText (t : String) : (ofText t).text = t := Text.joinWith_splitAt '.' t

@[simp] theorem root_setRoot (e : Entity) (name : String) : (e.setRoot name).root = name := by
  cases e with
  | mk segments => cases segments <;> rfl

/-- Giving a name its own first segment changes nothing. -/
theorem setRoot_root {e : Entity} (h : e.segments ≠ []) : e.setRoot e.root = e := by
  cases e with
  | mk segments =>
    cases segments with
    | nil => exact absurd rfl h
    | cons a path => rfl

end Entity

end DeclBundle
