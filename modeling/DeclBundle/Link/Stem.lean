import DeclBundle.Text.Alphanumeric
import DeclBundle.Text.Case
import DeclBundle.Text.Split

/-!
# Names out of module paths
-/

namespace DeclBundle

/-- The words of the file name up to its first dot, each with a capital letter:
`src/my-lib.d.ts` gives `MyLib`. -/
def capitalizedStem (path : String) : String :=
  let file := (Text.splitWhere (fun c => c == '/' || c == '\\') path).getLastD ""
  let stem := (Text.splitAt '.' file).headD ""
  String.join ((Text.splitWhere (fun c => !Text.isAlphanumeric c) stem).map Text.capitalized)

/-- The name of an anonymous default export of a module. -/
def anonymousName (path : String) : String := "default" ++ capitalizedStem path ++ "Export"

end DeclBundle
