/-!
# Message templates

A template names its arguments by position, `0` in braces for the first. The arguments are put in
one after the other, each into the text that the one before left.
-/

namespace DeclBundle.Text

/-- `replaceChars pat sub skip cs` leaves out `skip` characters of `cs` and puts `sub` for every
occurrence of `pat` in the rest, from left to right and without overlap. -/
def replaceChars (pat sub : List Char) : Nat → List Char → List Char
  | _, [] => []
  | skip + 1, _ :: rest => replaceChars pat sub skip rest
  | 0, c :: rest =>
    if pat.isPrefixOf (c :: rest) then sub ++ replaceChars pat sub (pat.length - 1) rest
    else c :: replaceChars pat sub 0 rest

/-- `s` with `sub` for every occurrence of the text `pat`, which is not empty. -/
def replaceAll (pat sub s : String) : String :=
  String.ofList (replaceChars pat.toList sub.toList 0 s.toList)

/-- The mark that stands for argument `i` in a template. -/
def placeholder (i : Nat) : String :=
  "\x7b" ++ toString i ++ "\x7d"

/-- Puts the arguments from position `i` on into `template`, one after the other. -/
def fillFrom (i : Nat) (template : String) : List String → String
  | [] => template
  | arg :: args => fillFrom (i + 1) (replaceAll (placeholder i) arg template) args

/-- `template` with its arguments put in. -/
def fill (template : String) (args : List String) : String :=
  fillFrom 0 template args

end DeclBundle.Text
