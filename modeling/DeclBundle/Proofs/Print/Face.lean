import DeclBundle.Print.Type
import DeclBundle.Proofs.Text.Outside
import DeclBundle.Proofs.Tree.Parts

/-!
# Faces of types

The face of a type is what its printed text shows outside all brackets: of everything in brackets
only the bracket that opens it, and of a type in parentheses only the parenthesis. It is read off the
type alone and does not depend on the depth that the type is printed at.
-/

namespace DeclBundle

namespace Text

/-- Text without a blank, a bracket, a quote or a character of an operator. -/
def Plain (s : String) : Prop := ∀ c ∈ s.toList, c ∉ delimiters ∧ c ∉ [' ', '|', '&', '?']

/-- Whether a text is plain can be decided. -/
instance (s : String) : Decidable (Plain s) :=
  List.decidableBAll (fun c => c ∉ delimiters ∧ c ∉ [' ', '|', '&', '?']) s.toList

end Text

/-- The text of a token. -/
def Token.content : Token → String
  | .text s => s
  | .identifier name => name

/-- The texts that a printed name shows as they are; a quoted name is not among them. -/
def PropertyName.texts : PropertyName → List String
  | .identifier name => [name]
  | .stringLiteral _ => []
  | .numericLiteral value => [value]
  | .computed expression => expression.segments

namespace Part

/-- The leaf texts of a type that are printed as they are. -/
def typeTexts : TypeExpr → List String
  | .keyword s | .literal s | .predicate _ s _ | .template s _ => [s]
  | .reference name _ | .query name _ => name.segments
  | .importType _ qualifier _ _ => (qualifier.elim [] Entity.segments)
  | .verbatim ts => ts.map Token.content
  | _ => []

/-- The texts in the name of a member that is printed with one. -/
def memberTexts : Member → List String
  | .property name .. | .method name .. | .getter name .. | .setter name .. => name.texts
  | _ => []

/-- The leaf texts of a node of a type that are printed as they are. -/
def texts : Part → List String
  | .type t => typeTexts t
  | .typeParameter p => p.name :: p.keywords
  | .parameter p => [p.name]
  | .element e => e.name.toList
  | .span s => [s.literal]
  | .member m => memberTexts m
  | _ => []

/-- All leaf texts of the node are plain. -/
def Plain (p : Part) : Prop := ∀ s ∈ p.texts, Text.Plain s

end Part

namespace Piece

/-- The characters of pieces. -/
def chars (ps : List Piece) : List Char := ps.flatMap (·.content.toList)

@[simp] theorem chars_nil : chars [] = [] := rfl

@[simp] theorem chars_cons (p : Piece) (ps : List Piece) :
    chars (p :: ps) = p.content.toList ++ chars ps := rfl

@[simp] theorem chars_append (ps ps' : List Piece) : chars (ps ++ ps') = chars ps ++ chars ps' :=
  List.flatMap_append

@[simp] theorem content_text (s : String) : content (.text s) = s := rfl

end Piece

namespace Print

/-- The bracket that opens a group in angle brackets, if there is anything in the group. -/
def angle (groups : List α) : List Piece := if groups.isEmpty then [] else [.text "<"]

/-- In a place that requires `least` only a parenthesis is shown of what binds more loosely. -/
def guarded (least : Precedence) (t : TypeExpr) (face : List Piece) : List Piece :=
  if t.precedence < least then [.text "("] else face

mutual
/-- What is shown of a printed type outside brackets. -/
def face : TypeExpr → List Piece
  | .keyword s | .literal s => [.text s]
  | .reference name arguments => entity name ++ angle arguments
  | .array element => guarded .suffixed element (face element) ++ [.text "["]
  | .tuple _ => [.text "["]
  | .union ts => separated " | " (faces .intersection ts)
  | .intersection ts => separated " & " (faces .unary ts)
  | .function tps _ result => angle tps ++ .text "( => " :: face result
  | .construct isAbstract tps _ result =>
    flag isAbstract "abstract " ++ .text "new " :: angle tps ++ .text "( => " :: face result
  | .object _ | .mapped .. => [.text "\x7b"]
  | .query name arguments => .text "typeof " :: entity name ++ angle arguments
  | .operator op target => .text (op.keyword ++ " ") :: guarded .unary target (face target)
  | .indexed object _ => guarded .suffixed object (face object) ++ [.text "["]
  | .conditional check bound onTrue onFalse =>
    guarded .union check (face check) ++ .text " extends " :: guarded .union bound (face bound)
      ++ .text " ? " :: face onTrue ++ .text " : " :: face onFalse
  | .infer p => .text "infer " :: parameterFace p
  | .importType _ qualifier arguments isTypeOf =>
    flag isTypeOf "typeof " ++ .text "import(" :: qualifier.elim [] (fun q => .text "." :: entity q)
      ++ angle arguments
  | .predicate asserts parameter target =>
    flag asserts "asserts " ++ .text parameter :: optionFace " is " target
  | .parenthesized _ => [.text "("]
  | .template .. => [.text "`"]
  | .verbatim ts => tokens ts

/-- The faces of a list of types, each guarded at the same precedence. -/
def faces (least : Precedence) : List TypeExpr → List (List Piece)
  | [] => []
  | t :: ts => guarded least t (face t) :: faces least ts

/-- The face of a type after a mark, or nothing. -/
def optionFace (mark : String) : Option TypeExpr → List Piece
  | none => []
  | some t => .text mark :: face t

/-- The face of a type parameter. -/
def parameterFace : TypeParameter → List Piece
  | ⟨_, name, constraint, fallback, keywords⟩ =>
    keywords.map (fun k => .text (k ++ " "))
      ++ .text name :: optionFace " extends " constraint ++ optionFace " = " fallback
end

/-- What is shown of a type outside brackets in a place that requires `least`. -/
def faceAt (least : Precedence) (t : TypeExpr) : List Piece := guarded least t (face t)

end Print

end DeclBundle
