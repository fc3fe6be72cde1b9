import DeclBundle.Output
import DeclBundle.Print.Type

/-!
# Printed statements and files

Statements stand one to a line, with four blanks for each level of braces. Inside a namespace body
`declare` is understood and left out.
-/

namespace DeclBundle.Print

/-- A name and what it stands for, or the name alone if they agree. -/
def specifier (name other : String) : List Piece :=
  if name = other then [.text name] else [.text name, .text " as ", .text other]

/-- A name in an `extends` or `implements` list. -/
def heritage (level : Nat) (h : Heritage) : List Piece :=
  entity h.expression ++ angled (types level .lowest h.arguments)

/-- `word` and a list of heritage names, or nothing for no name. -/
def heritageList (level : Nat) (word : String) (hs : List Heritage) : List Piece :=
  if hs.isEmpty then [] else .text word :: separated ", " (hs.map (heritage level))

/-- A blank and a name, or nothing for no name. -/
def spacedName : Option String → List Piece
  | none => []
  | some name => [.text " ", .text name]

/-- ` = ` and an initializer, or nothing for none. -/
def initializer : Option String → List Piece
  | none => []
  | some text => [.text " = ", .text text]

/-- A declarator with its type and its initializer. -/
def declarator (level : Nat) (d : Declarator) : List Piece :=
  .text d.name :: preceded level ": " d.ascription ++ initializer d.initializer

/-- An import statement. -/
def importStatement (i : ImportStatement) : List Piece :=
  let named :=
    if i.named.isEmpty then []
    else [.text "\x7b " :: separated ", " (i.named.map fun s => specifier s.remote s.binding)
      ++ [.text " \x7d"]]
  .text "import " :: flag i.typeOnly "type "
    ++ separated ", " (i.default.toList.map (fun d => [.text d])
      ++ i.namespaceName.toList.map (fun n => [.text "* as ", .text n]) ++ named)
    ++ .text " from " :: quoted i.source ++ [.text ";"]

/-- An export list; an empty one keeps its braces. -/
def exportList (e : ExportList) : List Piece :=
  .text "export " :: flag e.typeOnly "type "
    ++ (if e.specifiers.isEmpty then [.text "\x7b\x7d"]
      else .text "\x7b "
        :: separated ", " (e.specifiers.map fun s => specifier s.binding s.exported)
        ++ [.text " \x7d"])
    ++ (match e.source with
      | none => []
      | some source => .text " from " :: quoted source)
    ++ [.text ";"]

mutual
/-- A statement without the line break after it. -/
def statement (level : Nat) (inNamespace : Bool) : Statement → List Piece
  | .declaration d => declaration level inNamespace d
  | .imports i => importStatement i
  | .exports e => exportList e
  | .exportAll source name =>
    .text "export * "
      :: (match name with
        | none => []
        | some name => [.text "as ", .text name, .text " "])
      ++ .text "from " :: quoted source ++ [.text ";"]
  | .exportDefault expression => [.text "export default ", .text expression, .text ";"]
  | .exportAssignment expression => [.text "export = ", .text expression, .text ";"]
  | .verbatim ts _ => tokens ts

/-- The statements of a namespace body, each on its own. -/
def statements (level : Nat) : List Statement → List (List Piece)
  | [] => []
  | s :: ss => statement level true s :: statements level ss

/-- A declaration; in a namespace it is ambient already. -/
def declaration (level : Nat) (inNamespace : Bool) : Declaration → List Piece
  | ⟨_, mods, _, kind⟩ =>
    modifiers (if inNamespace then mods.erase .declare else mods) ++ declarationKind level kind

/-- A declaration without its modifiers. -/
def declarationKind (level : Nat) : DeclarationKind → List Piece
  | .interface name tps bases ms =>
    .text "interface " :: .text name :: angled (typeParameters level tps)
      ++ heritageList level " extends " bases ++ .text " " :: block level (members (level + 1) ms)
  | .classLike name tps base implemented ms =>
    .text "class" :: spacedName name ++ angled (typeParameters level tps)
      ++ heritageList level " extends " base.toList
      ++ heritageList level " implements " implemented
      ++ .text " " :: block level (members (level + 1) ms)
  | .function name tps ps result =>
    .text "function" :: spacedName name ++ signature level tps ps result ++ [.text ";"]
  | .variableList flavor ds =>
    .text (flavor.keyword ++ " ") :: separated ", " (ds.map (declarator level)) ++ [.text ";"]
  | .enumeration name ms =>
    [.text "enum ", .text name, .text " \x7b", .newline]
      ++ ms.flatMap (fun m => indentation (level + 1) ++ .text m.name :: initializer m.initializer
        ++ [.text ",", .newline])
      ++ indentation level ++ [.text "\x7d"]
  | .typeAlias name tps target =>
    .text "type " :: .text name :: angled (typeParameters level tps)
      ++ .text " = " :: type level target ++ [.text ";"]
  | .namespaceBlock name moduleKeyword body =>
    .text (if moduleKeyword then "module " else "namespace ") :: .text name :: .text " "
      :: block level (statements (level + 1) body)
end

/-- The imports of a library: the namespace import cannot share a statement with the others. -/
def libraryImport (i : LibraryImport) : List Piece :=
  (match i.namespaceName with
    | none => []
    | some name =>
      [.text "import * as ", .text name, .text " from "] ++ quoted i.specifier
        ++ [.text ";", .newline])
    ++ (if i.named.isEmpty then []
      else .text "import \x7b "
        :: separated ", " (i.named.map fun s => specifier s.remote s.binding)
        ++ .text " \x7d from " :: quoted i.specifier ++ [.text ";", .newline])

/-- The export clause; `marker` asks for an empty one to be written. -/
def exportClause (marker : Bool) (c : ExportClause) : List Piece :=
  c.externalStars.flatMap (fun s => .text "export * from " :: quoted s ++ [.text ";", .newline])
    ++ (if c.entries.isEmpty then []
      else .text "export \x7b "
        :: separated ", " (c.entries.map fun e => specifier e.binding e.exported)
        ++ [.text " \x7d;", .newline])
    ++ (match c.assignment with
      | none => []
      | some binding => [.text "export = ", .text binding, .text ";", .newline])
    ++ (if c.isEmpty && marker then [.text "export \x7b\x7d;", .newline] else [])

/-- Writes a statement of a file on a line of its own, mapped to where it came from. -/
def placedStatement (w : Writer) (s : PlacedStatement) : Writer :=
  let w := match s.origin, s.pos with
    | some origin, some pos => w.markOrigin origin pos
    | _, _ => w
  (w.putAll (statement 0 false s.statement)).endLine

/-- A whole file: imports, statements, and the export clause with the marker of a module. -/
def file (w : Writer) (f : OutputFile) : Writer :=
  let w := w.putAll (f.imports.flatMap libraryImport)
  let w := f.statements.foldl placedStatement w
  w.putAll (exportClause f.moduleMarker f.exports)

/-- The text of a file and the text of its map. -/
structure Printed where
  code : String
  map : Option String

/-- A file printed, with a map if `withMap`. -/
def run (f : OutputFile) (withMap : Bool) : Printed :=
  let w := if withMap then Writer.empty.enableMap f.fileName else Writer.empty
  let w := file w f
  ⟨w.output, w.mapText⟩

end DeclBundle.Print
