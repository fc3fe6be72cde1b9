import DeclBundle.Tree.Type

/-!
# Names bound by `infer`

`infer U` in the bound of a conditional type binds `U` in that bound and in the true branch. The
names are collected from the places that belong to the bound itself: a nested conditional type has
its own, and neither mapped types, predicates nor verbatim text are searched. Of a type literal only
the types of properties count.
-/

namespace DeclBundle.TypeExpr

mutual
/-- The names bound by `infer` in the bound of a conditional type, in order. -/
def inferredNames : TypeExpr → List String
  | .infer ⟨_, name, _, _, _⟩ => [name]
  | .reference _ arguments | .query _ arguments | .importType _ _ arguments _ =>
    inferredInTypes arguments
  | .array element => element.inferredNames
  | .tuple elements => inferredInElements elements
  | .union types | .intersection types => inferredInTypes types
  | .function _ ps result | .construct _ _ ps result =>
    inferredInParameters ps ++ result.inferredNames
  | .operator _ target => target.inferredNames
  | .indexed obj index => obj.inferredNames ++ index.inferredNames
  | .parenthesized inner => inner.inferredNames
  | .template _ spans => inferredInSpans spans
  | .object members => inferredInMembers members
  | .keyword _ | .literal _ | .conditional .. | .mapped .. | .predicate .. | .verbatim _ => []

/-- The `infer` names of a type that may be missing. -/
def inferredInOption : Option TypeExpr → List String
  | none => []
  | some t => t.inferredNames

/-- The `infer` names of a list of types. -/
def inferredInTypes : List TypeExpr → List String
  | [] => []
  | t :: ts => t.inferredNames ++ inferredInTypes ts

/-- The `infer` names of the elements of a tuple type. -/
def inferredInElements : List TupleElement → List String
  | [] => []
  | ⟨_, _, _, element⟩ :: es => element.inferredNames ++ inferredInElements es

/-- The `infer` names of parameters. -/
def inferredInParameters : List Parameter → List String
  | [] => []
  | ⟨_, _, _, _, ascription⟩ :: ps => inferredInOption ascription ++ inferredInParameters ps

/-- The `infer` names of a template literal type. -/
def inferredInSpans : List TemplateSpan → List String
  | [] => []
  | ⟨type, _⟩ :: ss => type.inferredNames ++ inferredInSpans ss

/-- The `infer` names of a list of members. -/
def inferredInMembers : List Member → List String
  | [] => []
  | m :: ms => inferredInMember m ++ inferredInMembers ms

/-- The `infer` names of a member; only a property is looked at. -/
def inferredInMember : Member → List String
  | .property _ _ _ ascription => inferredInOption ascription
  | _ => []
end

end DeclBundle.TypeExpr
