import DeclBundle.Diagnostic

/-!
# Reports for people

One line per diagnostic and a line that sums up. With colors, each colored part is set off by escape
sequences; where the part itself ends a color, its own color is opened again.
-/

namespace DeclBundle

/-- A way to set off text: the parameters of its escape sequence. -/
abbrev Paint := String

namespace Paint

def red : Paint := "31"
def green : Paint := "32"
def yellow : Paint := "33"
def cyan : Paint := "36"
def brightBlue : Paint := "94"
def boldRed : Paint := "1;31"
def boldYellow : Paint := "1;33"
def boldBlue : Paint := "1;34"
def boldCyan : Paint := "1;36"

/-- The sequence that ends a color. -/
def reset : String := "\x1b[0m"

/-- The sequence that starts a color. -/
def opening (p : Paint) : String := "\x1b[" ++ p ++ "m"

/-- A text in a color, which is taken up again after each reset inside the text. -/
def apply (p : Paint) (text : String) : String :=
  p.opening ++ Text.replaceAll reset (reset ++ p.opening) text ++ reset

end Paint

namespace Report

/-- A text in a color if there are colors. -/
def paint (color : Bool) (p : Paint) (text : String) : String :=
  if color then p.apply text else text

/-- The color of the label of a category. -/
def categoryPaint : Category → Paint
  | .error => .boldRed
  | .warning => .boldYellow
  | .suggestion => .boldBlue
  | .message => .boldCyan

/-- The line of a diagnostic, without its end. -/
def line (color : Bool) (d : Diagnostic) : String :=
  paint color .cyan (if d.file = "" then "<unknown>" else d.file) ++ " - "
    ++ paint color (categoryPaint d.category) d.category.label ++ " "
    ++ paint color .brightBlue d.label ++ ": " ++ d.text

/-- The lines of a list of diagnostics. -/
def render (color : Bool) (ds : List Diagnostic) : String :=
  String.join (ds.map fun d => line color d ++ "\n")

/-- A count and its word, with an s unless it is one. -/
def plural (n : Nat) (word : String) : String :=
  toString n ++ " " ++ word ++ (if n = 1 then "" else "s")

/-- How many errors and warnings there are in how many bundles. -/
def summary (color : Bool) (ds : List Diagnostic) (bundles : Nat) : String :=
  let errors := ds.countP Diagnostic.isError
  let warnings := ds.countP (·.category = .warning)
  paint color (if errors > 0 then .red else if warnings > 0 then .yellow else .green)
    (plural errors "error" ++ ", " ++ plural warnings "warning" ++ " in "
      ++ plural bundles "bundle" ++ ".")

end Report

end DeclBundle
