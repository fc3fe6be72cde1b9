import DeclBundle.Print.Writer
import DeclBundle.Text.Quoted

/-!
# Printed types

A type is printed on one line, except that the members of a type literal stand on lines of their
own. A type that binds more loosely than its place requires stands in parentheses.
-/

namespace DeclBundle

/-- How tightly a type holds together. -/
inductive Precedence where
  /-- Functions, constructors and conditional types. -/
  | lowest
  | union
  | intersection
  /-- `keyof T`, `infer U` -/
  | unary
  /-- `T[]`, `T[K]` -/
  | suffixed
  | primary
deriving DecidableEq, Repr

/-- The place of a precedence, loosest first. -/
def Precedence.rank : Precedence → Nat
  | .lowest => 0
  | .union => 1
  | .intersection => 2
  | .unary => 3
  | .suffixed => 4
  | .primary => 5

/-- Precedences are compared by their rank. -/
instance : LT Precedence := ⟨fun a b => a.rank < b.rank⟩

/-- The order of precedences can be decided. -/
instance (a b : Precedence) : Decidable (a < b) := inferInstanceAs (Decidable (a.rank < b.rank))

/-- How tightly the text of a type holds together. Verbatim text may hold anything. -/
def TypeExpr.precedence : TypeExpr → Precedence
  | .function .. | .construct .. | .conditional .. | .verbatim _ => .lowest
  | .union (_ :: _ :: _) => .union
  | .intersection (_ :: _ :: _) => .intersection
  | .operator .. | .infer _ | .predicate .. => .unary
  | .array _ | .indexed .. => .suffixed
  | _ => .primary

namespace Print

/-- The blanks before a line of this level. -/
def indentation (level : Nat) : List Piece := List.replicate level (.text "    ")

/-- A text between double quotes. -/
def quoted (s : String) : List Piece := [.text (Text.quote s)]

/-- The segments of a name with dots between them. -/
def entity (e : Entity) : List Piece := [.text (Text.joinWith "." e.segments)]

/-- Verbatim tokens; only their text may hold line breaks. -/
def tokens (ts : List Token) : List Piece :=
  ts.map fun
    | .text s => .lines s
    | .identifier name => .text name

/-- The keywords of modifiers, each with a blank after it. -/
def modifiers (m : Modifiers) : List Piece := m.keywords.map fun k => .text (k ++ " ")

/-- The name of a member. -/
def propertyName : PropertyName → List Piece
  | .identifier name => [.text name]
  | .stringLiteral value => quoted value
  | .numericLiteral value => [.text value]
  | .computed expression => [.text "["] ++ entity expression ++ [.text "]"]

/-- The groups with `sep` between neighbours. -/
def separated (sep : String) : List (List Piece) → List Piece
  | [] => []
  | [g] => g
  | g :: next :: rest => g ++ .text sep :: separated sep (next :: rest)

/-- The mark of the pieces when the flag is set. -/
def flag (on : Bool) (mark : String) : List Piece := if on then [.text mark] else []

/-- The pieces of `t` in a place that requires `least`: in parentheses if `t` binds more loosely. -/
def enclosed (least : Precedence) (t : TypeExpr) (pieces : List Piece) : List Piece :=
  if t.precedence < least then .text "(" :: pieces ++ [.text ")"] else pieces

/-- Groups in angle brackets, or nothing for no group. -/
def angled (groups : List (List Piece)) : List Piece :=
  if groups.isEmpty then [] else .text "<" :: separated ", " groups ++ [.text ">"]

/-- A block in braces with each group on a line of its own, one level deeper than `level`. -/
def block (level : Nat) (groups : List (List Piece)) : List Piece :=
  if groups.isEmpty then [.text "\x7b \x7d"]
  else [.text "\x7b", .newline]
    ++ groups.flatMap (fun g => indentation (level + 1) ++ g ++ [.newline])
    ++ indentation level ++ [.text "\x7d"]

mutual
/-- A type without parentheses around it. -/
def bare (level : Nat) : TypeExpr → List Piece
  | .keyword name => [.text name]
  | .literal text => [.text text]
  | .reference name arguments => entity name ++ angled (types level .lowest arguments)
  | .array element => enclosed .suffixed element (bare level element) ++ [.text "[]"]
  | .tuple elements => .text "[" :: separated ", " (tupleElements level elements) ++ [.text "]"]
  | .union ts => separated " | " (types level .intersection ts)
  | .intersection ts => separated " & " (types level .unary ts)
  | .function tps ps result =>
    angled (typeParameters level tps) ++ .text "(" :: separated ", " (parameters level ps)
      ++ .text ") => " :: bare level result
  | .construct isAbstract tps ps result =>
    flag isAbstract "abstract " ++ .text "new " :: angled (typeParameters level tps)
      ++ .text "(" :: separated ", " (parameters level ps) ++ .text ") => " :: bare level result
  | .object ms => block level (members (level + 1) ms)
  | .query name arguments =>
    .text "typeof " :: entity name ++ angled (types level .lowest arguments)
  | .operator op target =>
    .text (op.keyword ++ " ") :: enclosed .unary target (bare level target)
  | .indexed object index =>
    enclosed .suffixed object (bare level object) ++ .text "[" :: bare level index ++ [.text "]"]
  | .conditional check bound onTrue onFalse =>
    enclosed .union check (bare level check)
      ++ .text " extends " :: enclosed .union bound (bare level bound)
      ++ .text " ? " :: bare level onTrue ++ .text " : " :: bare level onFalse
  | .infer p => .text "infer " :: typeParameter level p
  | .mapped ⟨_, name, constraint, _, _⟩ nameType readonly optionality target =>
    .text "\x7b "
      :: (match readonly with
        | none => []
        | some sign => [.text (sign.text ++ "readonly ")])
      ++ .text ("[" ++ name ++ " in ") :: preceded level "" constraint
      ++ preceded level " as " nameType ++ .text "]"
      :: (match optionality with
        | none => []
        | some sign => [.text (sign.text ++ "?")])
      ++ preceded level ": " target ++ [.text "; \x7d"]
  | .importType argument qualifier arguments isTypeOf =>
    flag isTypeOf "typeof " ++ .text "import(" :: quoted argument ++ .text ")"
      :: (match qualifier with
        | none => []
        | some q => .text "." :: entity q)
      ++ angled (types level .lowest arguments)
  | .predicate asserts parameter target =>
    flag asserts "asserts " ++ .text parameter :: preceded level " is " target
  | .parenthesized inner => .text "(" :: bare level inner ++ [.text ")"]
  | .template head ss => .text ("`" ++ head) :: spans level ss ++ [.text "`"]
  | .verbatim ts => tokens ts

/-- `mark` and a type, or nothing for no type. -/
def preceded (level : Nat) (mark : String) : Option TypeExpr → List Piece
  | none => []
  | some t => .text mark :: bare level t

/-- Types in places that require `least`. -/
def types (level : Nat) (least : Precedence) : List TypeExpr → List (List Piece)
  | [] => []
  | t :: ts => enclosed least t (bare level t) :: types level least ts

/-- A type parameter with its constraint and its default. -/
def typeParameter (level : Nat) : TypeParameter → List Piece
  | ⟨_, name, constraint, fallback, keywords⟩ =>
    keywords.map (fun k => .text (k ++ " "))
      ++ .text name :: preceded level " extends " constraint ++ preceded level " = " fallback

/-- A list of type parameters. -/
def typeParameters (level : Nat) : List TypeParameter → List (List Piece)
  | [] => []
  | p :: ps => typeParameter level p :: typeParameters level ps

/-- A parameter with its modifiers and its type. -/
def parameter (level : Nat) : Parameter → List Piece
  | ⟨name, mods, optionality, rest, ascription⟩ =>
    modifiers mods ++ flag rest "..." ++ .text name :: flag optionality "?"
      ++ preceded level ": " ascription

/-- A list of parameters. -/
def parameters (level : Nat) : List Parameter → List (List Piece)
  | [] => []
  | p :: ps => parameter level p :: parameters level ps

/-- An element of a tuple; the type of an unnamed one stands as before a suffix. -/
def tupleElement (level : Nat) : TupleElement → List Piece
  | ⟨some name, optionality, rest, element⟩ =>
    flag rest "..." ++ .text name :: flag optionality "?" ++ .text ": " :: bare level element
  | ⟨none, optionality, rest, element⟩ =>
    flag rest "..." ++ enclosed .suffixed element (bare level element) ++ flag optionality "?"

/-- The elements of a tuple type. -/
def tupleElements (level : Nat) : List TupleElement → List (List Piece)
  | [] => []
  | e :: es => tupleElement level e :: tupleElements level es

/-- The spans of a template, each a type in its bracket and then text. -/
def spans (level : Nat) : List TemplateSpan → List Piece
  | [] => []
  | ⟨t, literal⟩ :: ss =>
    .text "$\x7b" :: bare level t ++ .text ("\x7d" ++ literal) :: spans level ss

/-- A member with the semicolon after it. -/
def member (level : Nat) : Member → List Piece
  | .property name mods optionality ascription =>
    modifiers mods ++ propertyName name ++ flag optionality "?" ++ preceded level ": " ascription
      ++ [.text ";"]
  | .method name mods optionality tps ps result =>
    modifiers mods ++ propertyName name ++ flag optionality "?"
      ++ angled (typeParameters level tps) ++ .text "(" :: separated ", " (parameters level ps)
      ++ .text ")" :: preceded level ": " result ++ [.text ";"]
  | .call tps ps result =>
    angled (typeParameters level tps) ++ .text "(" :: separated ", " (parameters level ps)
      ++ .text ")" :: preceded level ": " result ++ [.text ";"]
  | .construct tps ps result =>
    .text "new " :: angled (typeParameters level tps)
      ++ .text "(" :: separated ", " (parameters level ps)
      ++ .text ")" :: preceded level ": " result ++ [.text ";"]
  | .index mods ps ascription =>
    modifiers mods ++ .text "[" :: separated ", " (parameters level ps)
      ++ .text "]: " :: bare level ascription ++ [.text ";"]
  | .initializer mods ps =>
    modifiers mods ++ .text "constructor(" :: separated ", " (parameters level ps) ++ [.text ");"]
  | .getter name mods result =>
    modifiers mods ++ .text "get " :: propertyName name ++ .text "()"
      :: preceded level ": " result ++ [.text ";"]
  | .setter name mods ps =>
    modifiers mods ++ .text "set " :: propertyName name ++ .text "("
      :: separated ", " (parameters level ps) ++ [.text ");"]

/-- A list of members. -/
def members (level : Nat) : List Member → List (List Piece)
  | [] => []
  | m :: ms => member level m :: members level ms
end

/-- A type in a place that requires `least`. -/
def typeAt (level : Nat) (least : Precedence) (t : TypeExpr) : List Piece :=
  enclosed least t (bare level t)

/-- A type in a place that requires nothing. -/
def type (level : Nat) (t : TypeExpr) : List Piece := typeAt level .lowest t

/-- A signature: type parameters, parameters and the type of the result. -/
def signature (level : Nat) (tps : List TypeParameter) (ps : List Parameter)
    (result : Option TypeExpr) : List Piece :=
  angled (typeParameters level tps) ++ .text "(" :: separated ", " (parameters level ps)
    ++ .text ")" :: preceded level ": " result

end Print

end DeclBundle
