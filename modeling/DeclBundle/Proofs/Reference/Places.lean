import DeclBundle.Reference.Basic

/-!
# The places of a declaration

A place is where a name or an import type stands in a declaration, with all that binds names around
it: the namespace bodies, and inside of them the layers of a type. Which places there are depends on
nothing but the tree. The references of a declaration are those of its places
(`mem_references_declaration`): a place has one unless its name is blank or bound around it.
-/

namespace DeclBundle

/-- What stands at a place. -/
inductive Mention where
  /-- A name, by its first segment. -/
  | name (root : String) (space : Space)
  /-- A computed member name, by its first segment. -/
  | key (root : String)
  | importType (specifier : String) (qualifier : Option String) (isTypeOf : Bool)
deriving DecidableEq, Repr

/-- The space that a name is used in. An import type is used as the name that it becomes. -/
def Mention.space : Mention → Space
  | .name _ space => space
  | .key _ => .value
  | .importType _ _ isTypeOf => if isTypeOf then .value else .type

/-- Whether an import type stands for a value. -/
def Mention.isTypeOf : Mention → Bool
  | .importType _ _ isTypeOf => isTypeOf
  | _ => false

/-- What binds names in a type. -/
inductive Layer where
  /-- Type parameters, or the key of a mapped type. -/
  | types (names : List String)
  /-- The `infer` names in the bound of a conditional type. -/
  | inferred (limit : TypeExpr)
  | parameters (names : List String)

/-- The names that a layer binds as values. -/
def Layer.parameterNames : Layer → List String
  | .parameters names => names
  | _ => []

/-- A place in a type, with the layers around it from the outside in. -/
structure Spot where
  layers : List Layer := []
  mention : Mention

/-- A place in a declaration, with the namespace bodies around it from the outside in. -/
structure NamePlace where
  bodies : List (List Statement) := []
  spot : Spot

namespace Spot

/-- The names of the parameters that a spot stands under. -/
def parameterNames (p : Spot) : List String :=
  p.layers.flatMap Layer.parameterNames

/-- The spot inside one more layer. -/
def under (l : Layer) (p : Spot) : Spot := { p with layers := l :: p.layers }

/-- The places of a signature: `own` are those of its type parameters. -/
def signature (tps : List TypeParameter) (ps : List Parameter) (own body : List Spot) : List Spot :=
  (own ++ body.map (under (.parameters (ps.map (·.name))))).map (under (.types (tps.map (·.name))))

/-- The spot of a dotted name, at its root. -/
def ofEntity (space : Space) (e : Entity) : List Spot := [{ mention := .name e.root space }]

/-- The spot of a computed member name. -/
def ofPropertyName : PropertyName → List Spot
  | .computed e => [{ mention := .key e.root }]
  | _ => []

/-- The spots of the identifiers among tokens. -/
def ofTokens (tokens : List Token) : List Spot :=
  (Token.names tokens).map fun name => { mention := .name name .both }

mutual
/-- The spots in a type. -/
def inType : TypeExpr → List Spot
  | .keyword _ | .literal _ => []
  | .reference name arguments => ofEntity .type name ++ inTypes arguments
  | .query name arguments => ofEntity .value name ++ inTypes arguments
  | .array element => inType element
  | .tuple elements => inElements elements
  | .union types | .intersection types => inTypes types
  | .function tps ps result | .construct _ tps ps result =>
    signature tps ps (inTypeParameters tps) (inParameters ps ++ inType result)
  | .object members => inMembers members
  | .operator _ target => inType target
  | .indexed object index => inType object ++ inType index
  | .conditional check limit onTrue onFalse =>
    inType check ++ (inType limit ++ inType onTrue).map (under (.inferred limit)) ++ inType onFalse
  | .infer p => inTypeParameter p
  | .mapped key nameType _ _ target =>
    inTypeParameter key ++ (inOption nameType ++ inOption target).map (under (.types [key.name]))
  | .importType argument qualifier arguments isTypeOf =>
    { mention := .importType argument (qualifier.map Entity.root) isTypeOf } :: inTypes arguments
  | .predicate _ _ target => inOption target
  | .parenthesized inner => inType inner
  | .template _ spans => inSpans spans
  | .verbatim tokens => ofTokens tokens

/-- The spots in a type that may be missing. -/
def inOption : Option TypeExpr → List Spot
  | none => []
  | some t => inType t

/-- The spots in a list of types. -/
def inTypes : List TypeExpr → List Spot
  | [] => []
  | t :: ts => inType t ++ inTypes ts

/-- The spots in the bounds of a type parameter. -/
def inTypeParameter : TypeParameter → List Spot
  | ⟨_, _, constraint, fallback, _⟩ => inOption constraint ++ inOption fallback

/-- The spots in type parameters. -/
def inTypeParameters : List TypeParameter → List Spot
  | [] => []
  | p :: ps => inTypeParameter p ++ inTypeParameters ps

/-- The spots in the types of parameters. -/
def inParameters : List Parameter → List Spot
  | [] => []
  | ⟨_, _, _, _, ascription⟩ :: ps => inOption ascription ++ inParameters ps

/-- The spots in the elements of a tuple type. -/
def inElements : List TupleElement → List Spot
  | [] => []
  | ⟨_, _, _, element⟩ :: es => inType element ++ inElements es

/-- The spots in a template literal type. -/
def inSpans : List TemplateSpan → List Spot
  | [] => []
  | ⟨type, _⟩ :: ss => inType type ++ inSpans ss

/-- The spots in a list of members. -/
def inMembers : List Member → List Spot
  | [] => []
  | m :: ms => inMember m ++ inMembers ms

/-- The spots in a member. -/
def inMember : Member → List Spot
  | .property name _ _ ascription => ofPropertyName name ++ inOption ascription
  | .method name _ _ tps ps result =>
    ofPropertyName name
      ++ signature tps ps (inTypeParameters tps) (inParameters ps ++ inOption result)
  | .call tps ps result | .construct tps ps result =>
    signature tps ps (inTypeParameters tps) (inParameters ps ++ inOption result)
  | .index _ ps ascription => inParameters ps ++ inType ascription
  | .initializer _ ps => inParameters ps
  | .getter name _ result => ofPropertyName name ++ inOption result
  | .setter name _ ps => ofPropertyName name ++ inParameters ps
end

/-- The spots in a heritage clause. -/
def inHeritage (h : Heritage) : List Spot := ofEntity .type h.expression ++ inTypes h.arguments

/-- The places in what is declared, outside of a namespace body. -/
def inKind : DeclarationKind → List Spot
  | .interface _ tps bases members =>
    (inTypeParameters tps ++ bases.flatMap inHeritage ++ inMembers members).map
      (under (.types (tps.map (·.name))))
  | .classLike _ tps base implemented members =>
    base.toList.flatMap (fun h => ofEntity .value h.expression)
      ++ (inTypeParameters tps ++ base.toList.flatMap (fun h => inTypes h.arguments)
          ++ implemented.flatMap inHeritage ++ inMembers members).map
        (under (.types (tps.map (·.name))))
  | .function _ tps ps result =>
    signature tps ps (inTypeParameters tps) (inParameters ps ++ inOption result)
  | .variableList _ declarators => declarators.flatMap fun d => inOption d.ascription
  | .typeAlias _ tps target =>
    (inTypeParameters tps ++ inType target).map (under (.types (tps.map (·.name))))
  | .enumeration .. | .namespaceBlock .. => []

end Spot

namespace NamePlace

/-- The place inside one more namespace body. -/
def within (body : List Statement) (p : NamePlace) : NamePlace :=
  { p with bodies := body :: p.bodies }

/-- Spots outside any namespace body. -/
def ofSpots (spots : List Spot) : List NamePlace := spots.map fun spot => { spot }

mutual
/-- The places of names in a declaration of any kind. -/
def inKind : DeclarationKind → List NamePlace
  | .namespaceBlock _ _ body => (inBody body).map (within body)
  | kind => ofSpots (Spot.inKind kind)

/-- The places of names in a declaration. -/
def inDeclaration : Declaration → List NamePlace
  | ⟨_, _, _, kind⟩ => inKind kind

/-- The places of names in a namespace body. -/
def inBody : List Statement → List NamePlace
  | [] => []
  | s :: ss => inStatement s ++ inBody ss

/-- The places in a statement of a namespace body. -/
def inStatement : Statement → List NamePlace
  | .declaration d => inDeclaration d
  | .exports ⟨specifiers, none, _⟩ =>
    ofSpots (specifiers.map fun s => { mention := .name s.binding .both })
  | .exportDefault expression | .exportAssignment expression =>
    ofSpots [{ mention := .name expression .both }]
  | .verbatim tokens _ => ofSpots (Spot.ofTokens tokens)
  | .imports _ | .exports _ | .exportAll .. => []
end

end NamePlace

/-! ## The references of places -/

/-- The references among uses, without the verbatim parts. -/
def Occurrence.references (os : List Occurrence) : List Reference :=
  os.filterMap fun
    | .reference r => some r
    | .unsupported => none

namespace Occurrence

@[simp] theorem references_nil : references [] = [] := rfl

@[simp] theorem references_append (os os' : List Occurrence) :
    references (os ++ os') = references os ++ references os' := List.filterMap_append

@[simp] theorem references_reference (r : Reference) (os : List Occurrence) :
    references (.reference r :: os) = r :: references os := rfl

@[simp] theorem references_unsupported (os : List Occurrence) :
    references (.unsupported :: os) = references os := rfl

theorem references_flatMap (f : α → List Occurrence) (xs : List α) :
    references (xs.flatMap f) = xs.flatMap fun x => references (f x) := by
  induction xs with
  | nil => rfl
  | cons x xs ih => rw [List.flatMap_cons, references_append, ih, List.flatMap_cons]

end Occurrence

theorem Analysis.references_ofOccurrences (os : List Occurrence) :
    (Analysis.ofOccurrences os).references = (Occurrence.references os).eraseDups := rfl

namespace Mention

/-- The reference of a name under binders. -/
def reportedName (bound : List Binder) (root : String) (space : Space) : Option Reference :=
  if root = "" || Free.isBound bound root space then none else some (.name root)

/-- The reference that stands at a place under binders. -/
def reported (bound : List Binder) : Mention → Option Reference
  | .name root space => reportedName bound root space
  | .key root => if root = "Symbol" then none else reportedName bound root .value
  | .importType specifier qualifier _ => some (.importType specifier qualifier)

end Mention

/-- What a layer binds. -/
def Layer.binders : Layer → List Binder
  | .types names => names.map (·, .type)
  | .inferred limit => limit.inferredNames.map (·, .type)
  | .parameters names => names.map (·, .value)

theorem Layer.value_mem_binders {name : String} {l : Layer} :
    (name, .value) ∈ l.binders ↔ name ∈ l.parameterNames := by
  cases l <;> simp [binders, parameterNames]

/-- The reference of a place in a type under binders. -/
def Spot.reported (bound : List Binder) (p : Spot) : Option Reference :=
  p.mention.reported (p.layers.foldl (fun bound l => l.binders ++ bound) bound)

/-- The reference of a place in a declaration under binders. -/
def NamePlace.reported (bound : List Binder) (p : NamePlace) : Option Reference :=
  p.spot.reported (p.bodies.foldl (fun bound body => Free.bodyBinders body ++ bound) bound)

namespace Spot

variable (bound : List Binder)

@[simp] theorem reported_comp_under (l : Layer) :
    reported bound ∘ under l = reported (l.binders ++ bound) := rfl

theorem references_useName (space : Space) (name : String) :
    Occurrence.references (Free.useName bound space name)
      = (Mention.reportedName bound name space).toList := by
  simp only [Free.useName, Mention.reportedName]
  split <;> rfl

theorem filterMap_reported_singleton (m : Mention) :
    [({ mention := m } : Spot)].filterMap (reported bound) = (m.reported bound).toList := by
  rw [List.filterMap_cons]
  simp only [reported, List.foldl_nil]
  cases m.reported bound <;> rfl

theorem references_ofEntity (space : Space) (e : Entity) :
    Occurrence.references (Free.useRoot bound space e)
      = (ofEntity space e).filterMap (reported bound) := by
  rw [ofEntity, filterMap_reported_singleton]
  exact references_useName bound space e.root

theorem references_ofPropertyName (name : PropertyName) :
    Occurrence.references (Free.usePropertyName bound name)
      = (ofPropertyName name).filterMap (reported bound) := by
  cases name with
  | computed e =>
    rw [ofPropertyName, filterMap_reported_singleton]
    simp only [Free.usePropertyName, Mention.reported]
    split
    · rfl
    · exact references_useName bound .value e.root
  | _ => rfl

theorem references_ofTokens (tokens : List Token) :
    Occurrence.references (Free.useTokens bound tokens)
      = (ofTokens tokens).filterMap (reported bound) := by
  simp only [Free.useTokens, ofTokens, Occurrence.references_flatMap, references_useName]
  induction Token.names tokens with
  | nil => rfl
  | cons name names ih =>
    rw [List.flatMap_cons, ih, List.map_cons, ← List.singleton_append, List.filterMap_append,
      filterMap_reported_singleton]
    rfl

theorem binders_types (tps : List TypeParameter) :
    (Layer.types (tps.map (·.name))).binders = Free.typeBinders tps := by
  simp [Layer.binders, Free.typeBinders]

theorem binders_parameters (ps : List Parameter) :
    (Layer.parameters (ps.map (·.name))).binders = Free.valueBinders ps := by
  simp [Layer.binders, Free.valueBinders]

@[simp] theorem filterMap_reported_signature (tps : List TypeParameter) (ps : List Parameter)
    (own body : List Spot) : (signature tps ps own body).filterMap (reported bound)
      = own.filterMap (reported (Free.typeBinders tps ++ bound))
        ++ body.filterMap (reported (Free.valueBinders ps ++ Free.typeBinders tps ++ bound)) := by
  simp only [signature, List.filterMap_map, reported_comp_under, List.filterMap_append,
    binders_types, binders_parameters, List.append_assoc]

mutual
theorem references_inType (bound : List Binder) : ∀ t : TypeExpr,
    Occurrence.references (Free.inType bound t) = (inType t).filterMap (reported bound)
  | .keyword _ | .literal _ => rfl
  | .reference _ arguments | .query _ arguments => by
    simp [Free.inType, inType, references_ofEntity, references_inTypes bound arguments]
  | .array element => references_inType bound element
  | .tuple elements => references_inElements bound elements
  | .union types | .intersection types => references_inTypes bound types
  | .function tps ps result | .construct _ tps ps result => by
    simp [Free.inType, inType, references_inTypeParameters _ tps, references_inParameters _ ps,
      references_inType _ result]
  | .object members => references_inMembers bound members
  | .operator _ target => references_inType bound target
  | .indexed object index => by
    simp [Free.inType, inType, references_inType bound object, references_inType bound index]
  | .conditional check limit onTrue onFalse => by
    simp only [Free.inType, inType, references_inType _ check, references_inType _ limit,
      references_inType _ onTrue, references_inType _ onFalse, Occurrence.references_append,
      List.filterMap_append, List.filterMap_map, reported_comp_under, Layer.binders,
      List.append_assoc]
  | .infer p => references_inTypeParameter bound p
  | .mapped key nameType _ _ target => by
    simp only [Free.inType, inType, references_inTypeParameter _ key,
      references_inOption _ nameType, references_inOption _ target, Occurrence.references_append,
      List.filterMap_append, List.filterMap_map, reported_comp_under, Layer.binders,
      List.map_cons, List.map_nil, List.cons_append, List.nil_append, List.append_assoc]
  | .importType argument qualifier arguments isTypeOf => by
    rw [Free.inType, Occurrence.references_reference, references_inTypes bound arguments]
    rfl
  | .predicate _ _ target => references_inOption bound target
  | .parenthesized inner => references_inType bound inner
  | .template _ spans => references_inSpans bound spans
  | .verbatim tokens => by simp [Free.inType, inType, references_ofTokens]

theorem references_inOption (bound : List Binder) : ∀ t : Option TypeExpr,
    Occurrence.references (Free.inOption bound t) = (inOption t).filterMap (reported bound)
  | none => rfl
  | some t => references_inType bound t

theorem references_inTypes (bound : List Binder) : ∀ ts : List TypeExpr,
    Occurrence.references (Free.inTypes bound ts) = (inTypes ts).filterMap (reported bound)
  | [] => rfl
  | t :: ts => by
    simp [Free.inTypes, inTypes, references_inType bound t, references_inTypes bound ts]

theorem references_inTypeParameter (bound : List Binder) : ∀ p : TypeParameter,
    Occurrence.references (Free.inTypeParameter bound p)
      = (inTypeParameter p).filterMap (reported bound)
  | ⟨_, _, constraint, fallback, _⟩ => by
    simp [Free.inTypeParameter, inTypeParameter, references_inOption bound constraint,
      references_inOption bound fallback]

theorem references_inTypeParameters (bound : List Binder) : ∀ ps : List TypeParameter,
    Occurrence.references (Free.inTypeParameters bound ps)
      = (inTypeParameters ps).filterMap (reported bound)
  | [] => rfl
  | p :: ps => by
    simp [Free.inTypeParameters, inTypeParameters, references_inTypeParameter bound p,
      references_inTypeParameters bound ps]

theorem references_inParameters (bound : List Binder) : ∀ ps : List Parameter,
    Occurrence.references (Free.inParameters bound ps)
      = (inParameters ps).filterMap (reported bound)
  | [] => rfl
  | ⟨_, _, _, _, ascription⟩ :: ps => by
    simp [Free.inParameters, inParameters, references_inOption bound ascription,
      references_inParameters bound ps]

theorem references_inElements (bound : List Binder) : ∀ es : List TupleElement,
    Occurrence.references (Free.inElements bound es) = (inElements es).filterMap (reported bound)
  | [] => rfl
  | ⟨_, _, _, element⟩ :: es => by
    simp [Free.inElements, inElements, references_inType bound element,
      references_inElements bound es]

theorem references_inSpans (bound : List Binder) : ∀ ss : List TemplateSpan,
    Occurrence.references (Free.inSpans bound ss) = (inSpans ss).filterMap (reported bound)
  | [] => rfl
  | ⟨type, _⟩ :: ss => by
    simp [Free.inSpans, inSpans, references_inType bound type, references_inSpans bound ss]

theorem references_inMembers (bound : List Binder) : ∀ ms : List Member,
    Occurrence.references (Free.inMembers bound ms) = (inMembers ms).filterMap (reported bound)
  | [] => rfl
  | m :: ms => by
    simp [Free.inMembers, inMembers, references_inMember bound m, references_inMembers bound ms]

theorem references_inMember (bound : List Binder) : ∀ m : Member,
    Occurrence.references (Free.inMember bound m) = (inMember m).filterMap (reported bound)
  | .property name _ _ ascription => by
    simp [Free.inMember, inMember, references_ofPropertyName, references_inOption bound ascription]
  | .method name _ _ tps ps result => by
    simp [Free.inMember, inMember, references_ofPropertyName, references_inTypeParameters _ tps,
      references_inParameters _ ps, references_inOption _ result]
  | .call tps ps result | .construct tps ps result => by
    simp [Free.inMember, inMember, references_inTypeParameters _ tps, references_inParameters _ ps,
      references_inOption _ result]
  | .index _ ps ascription => by
    simp [Free.inMember, inMember, references_inParameters bound ps,
      references_inType bound ascription]
  | .initializer _ ps => references_inParameters bound ps
  | .getter name _ result => by
    simp [Free.inMember, inMember, references_ofPropertyName, references_inOption bound result]
  | .setter name _ ps => by
    simp [Free.inMember, inMember, references_ofPropertyName, references_inParameters bound ps]
end

theorem references_inHeritages : ∀ hs : List Heritage,
    Occurrence.references (hs.flatMap (Free.inHeritage bound))
      = (hs.flatMap inHeritage).filterMap (reported bound)
  | [] => rfl
  | h :: hs => by
    simp only [List.flatMap_cons, Occurrence.references_append, List.filterMap_append,
      references_inHeritages hs, Free.inHeritage, inHeritage, references_ofEntity,
      references_inTypes]

theorem references_inDeclarators : ∀ ds : List Declarator,
    Occurrence.references (ds.flatMap fun d => Free.inOption bound d.ascription)
      = (ds.flatMap fun d => inOption d.ascription).filterMap (reported bound)
  | [] => rfl
  | d :: ds => by
    simp only [List.flatMap_cons, Occurrence.references_append, List.filterMap_append,
      references_inDeclarators ds, references_inOption]

/-- The references of what is declared outside of a namespace body. -/
theorem references_inKind (bound : List Binder) : ∀ kind : DeclarationKind,
    (∀ name keyword body, kind ≠ .namespaceBlock name keyword body) →
      Occurrence.references (Free.inKind bound kind) = (inKind kind).filterMap (reported bound)
  | .interface _ tps bases members, _ => by
    simp only [Free.inKind, inKind, references_inTypeParameters, references_inHeritages,
      references_inMembers, Occurrence.references_append, List.filterMap_append,
      List.filterMap_map, reported_comp_under, binders_types]
  | .classLike _ tps base implemented members, _ => by
    cases base with
    | none =>
      simp only [Free.inKind, inKind, references_inTypeParameters, references_inHeritages,
        references_inMembers, Occurrence.references_append, List.filterMap_append,
        List.filterMap_map, reported_comp_under, binders_types, Option.toList_none,
        List.flatMap_nil, List.nil_append, List.append_nil]
    | some base =>
      simp only [Free.inKind, inKind, references_ofEntity, references_inTypeParameters,
        references_inTypes, references_inHeritages, references_inMembers,
        Occurrence.references_append, List.filterMap_append, List.filterMap_map,
        reported_comp_under, binders_types, Option.toList_some, List.flatMap_cons,
        List.flatMap_nil, List.append_nil, List.append_assoc]
  | .function _ tps ps result, _ => by
    simp only [Free.inKind, inKind, references_inTypeParameters, references_inParameters,
      references_inOption, Occurrence.references_append, filterMap_reported_signature,
      List.filterMap_append, List.append_assoc]
  | .variableList _ ds, _ => references_inDeclarators bound ds
  | .enumeration .., _ => rfl
  | .typeAlias _ tps target, _ => by
    simp only [Free.inKind, inKind, references_inTypeParameters, references_inType,
      Occurrence.references_append, List.filterMap_append, List.filterMap_map,
      reported_comp_under, binders_types]
  | .namespaceBlock name keyword body, h => absurd rfl (h name keyword body)

end Spot

namespace NamePlace

@[simp] theorem reported_comp_within (bound : List Binder) (body : List Statement) :
    reported bound ∘ within body = reported (Free.bodyBinders body ++ bound) := rfl

theorem filterMap_reported_ofSpots (bound : List Binder) (ps : List Spot) :
    (ofSpots ps).filterMap (reported bound) = ps.filterMap (Spot.reported bound) := by
  rw [ofSpots, List.filterMap_map]
  rfl

mutual
theorem references_inKind (bound : List Binder) : ∀ kind : DeclarationKind,
    Occurrence.references (Free.inKind bound kind) = (inKind kind).filterMap (reported bound)
  | .namespaceBlock _ _ body => by
    rw [Free.inKind, inKind, List.filterMap_map, reported_comp_within, references_inBody _ body]
  | .interface .. | .classLike .. | .function .. | .variableList .. | .enumeration ..
  | .typeAlias .. => by
    rw [inKind, filterMap_reported_ofSpots]
    · exact Spot.references_inKind bound _ fun _ _ _ h => nomatch h
    · exact fun _ _ _ h => nomatch h

theorem references_inDeclaration (bound : List Binder) : ∀ d : Declaration,
    Occurrence.references (Free.inDeclaration bound d)
      = (inDeclaration d).filterMap (reported bound)
  | ⟨_, _, _, kind⟩ => references_inKind bound kind

theorem references_inBody (bound : List Binder) : ∀ body : List Statement,
    Occurrence.references (Free.inBody bound body) = (inBody body).filterMap (reported bound)
  | [] => rfl
  | s :: ss => by
    simp [Free.inBody, inBody, references_inStatement bound s, references_inBody bound ss]

theorem references_inStatement (bound : List Binder) : ∀ s : Statement,
    Occurrence.references (Free.inStatement bound s) = (inStatement s).filterMap (reported bound)
  | .declaration d => references_inDeclaration bound d
  | .exports ⟨specifiers, none, _⟩ => by
    rw [inStatement, filterMap_reported_ofSpots]
    simp only [Free.inStatement, Occurrence.references_flatMap, Spot.references_useName]
    induction specifiers with
    | nil => rfl
    | cons x xs ih =>
      rw [List.flatMap_cons, ih, List.map_cons, ← List.singleton_append, List.filterMap_append,
        Spot.filterMap_reported_singleton]
      rfl
  | .exportDefault expression | .exportAssignment expression => by
    rw [inStatement, filterMap_reported_ofSpots, Spot.filterMap_reported_singleton]
    exact Spot.references_useName bound .both expression
  | .verbatim tokens _ => by
    rw [inStatement, filterMap_reported_ofSpots]
    exact Spot.references_ofTokens bound tokens
  | .imports _ | .exports ⟨_, some _, _⟩ | .exportAll .. => rfl
end

end NamePlace

/-- The references of a declaration are those of its places. -/
theorem mem_references_declaration {d : Declaration} {r : Reference} :
    r ∈ (Analysis.declaration d).references
      ↔ ∃ p ∈ NamePlace.inDeclaration d, p.reported [] = some r := by
  rw [Analysis.declaration, Analysis.references_ofOccurrences, List.mem_eraseDups,
    NamePlace.references_inDeclaration, List.mem_filterMap]

end DeclBundle
