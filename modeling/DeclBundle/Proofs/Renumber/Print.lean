import DeclBundle.Print.Statement
import DeclBundle.Proofs.Renumber.Tree

/-!
# Printed trees under other identities

Identities are not printed, so a file with other identities in it is printed as the same text with
the same map (`Print.run_renumber`).
-/

namespace DeclBundle

open TypeExpr

variable (f : DeclId → DeclId)

/-- A placed statement with its identities renumbered. -/
def PlacedStatement.renumber (s : PlacedStatement) : PlacedStatement :=
  { s with statement := s.statement.renumber f }

theorem TypeExpr.precedence_renumber (t : TypeExpr) : (t.renumber f).precedence = t.precedence := by
  cases t with
  | union ts | intersection ts =>
    match ts with
    | [] | [_] | _ :: _ :: _ => rfl
  | _ => rfl

namespace Print

theorem enclosed_renumber (least : Precedence) (t : TypeExpr) (pieces : List Piece) :
    enclosed least (t.renumber f) pieces = enclosed least t pieces := by
  rw [enclosed, precedence_renumber, enclosed]

mutual
theorem bare_renumber (level : Nat) : ∀ t : TypeExpr, bare level (t.renumber f) = bare level t
  | .keyword _ | .literal _ | .verbatim _ => rfl
  | .reference _ ts | .query _ ts | .importType _ _ ts _ | .union ts | .intersection ts => by
    simp only [renumber, bare, types_renumber level _ ts]
  | .array t | .operator _ t => by
    simp only [renumber, bare, enclosed_renumber, bare_renumber level t]
  | .parenthesized t => by simp only [renumber, bare, bare_renumber level t]
  | .tuple es => by simp only [renumber, bare, tupleElements_renumber level es]
  | .function tps ps t | .construct _ tps ps t => by
    simp only [renumber, bare, typeParameters_renumber level tps, parameters_renumber level ps,
      bare_renumber level t]
  | .object ms => by simp only [renumber, bare, members_renumber (level + 1) ms]
  | .indexed t u => by
    simp only [renumber, bare, enclosed_renumber, bare_renumber level t, bare_renumber level u]
  | .conditional t u v w => by
    simp only [renumber, bare, enclosed_renumber, bare_renumber level t, bare_renumber level u,
      bare_renumber level v, bare_renumber level w]
  | .infer p => by simp only [renumber, bare, typeParameter_renumber level p]
  | .mapped ⟨_, _, t, _, _⟩ v _ _ w => by
    simp only [renumber, renumberOne, bare, preceded_renumber level _ t,
      preceded_renumber level _ v, preceded_renumber level _ w]
  | .predicate _ _ t => by simp only [renumber, bare, preceded_renumber level _ t]
  | .template _ ss => by simp only [renumber, bare, spans_renumber level ss]

theorem preceded_renumber (level : Nat) (mark : String) : ∀ t : Option TypeExpr,
    preceded level mark (renumberOption f t) = preceded level mark t
  | none => rfl
  | some t => by simp only [renumberOption, preceded, bare_renumber level t]

theorem types_renumber (level : Nat) (least : Precedence) : ∀ ts : List TypeExpr,
    types level least (renumberList f ts) = types level least ts
  | [] => rfl
  | t :: ts => by
    simp only [renumberList, types, enclosed_renumber, bare_renumber level t,
      types_renumber level least ts]

theorem typeParameter_renumber (level : Nat) : ∀ p : TypeParameter,
    typeParameter level (renumberOne f p) = typeParameter level p
  | ⟨_, _, t, u, _⟩ => by
    simp only [renumberOne, typeParameter, preceded_renumber level _ t, preceded_renumber level _ u]

theorem typeParameters_renumber (level : Nat) : ∀ ps : List TypeParameter,
    typeParameters level (renumberTypeParameters f ps) = typeParameters level ps
  | [] => rfl
  | p :: ps => by
    simp only [renumberTypeParameters, typeParameters, typeParameter_renumber level p,
      typeParameters_renumber level ps]

theorem parameters_renumber (level : Nat) : ∀ ps : List Parameter,
    parameters level (renumberParameters f ps) = parameters level ps
  | [] => rfl
  | ⟨_, _, _, _, t⟩ :: ps => by
    simp only [renumberParameters, parameters, parameter, preceded_renumber level _ t,
      parameters_renumber level ps]

theorem tupleElements_renumber (level : Nat) : ∀ es : List TupleElement,
    tupleElements level (renumberElements f es) = tupleElements level es
  | [] => rfl
  | ⟨none, _, _, t⟩ :: es | ⟨some _, _, _, t⟩ :: es => by
    simp only [renumberElements, tupleElements, tupleElement, enclosed_renumber,
      bare_renumber level t, tupleElements_renumber level es]

theorem spans_renumber (level : Nat) : ∀ ss : List TemplateSpan,
    spans level (renumberSpans f ss) = spans level ss
  | [] => rfl
  | ⟨t, _⟩ :: ss => by
    simp only [renumberSpans, spans, bare_renumber level t, spans_renumber level ss]

theorem members_renumber (level : Nat) : ∀ ms : List Member,
    members level (renumberMembers f ms) = members level ms
  | [] => rfl
  | m :: ms => by
    simp only [renumberMembers, members, member_renumber level m, members_renumber level ms]

theorem member_renumber (level : Nat) : ∀ m : Member,
    member level (renumberMember f m) = member level m
  | .property _ _ _ t | .getter _ _ t => by
    simp only [renumberMember, member, preceded_renumber level _ t]
  | .method _ _ _ tps ps t | .call tps ps t | .construct tps ps t => by
    simp only [renumberMember, member, typeParameters_renumber level tps,
      parameters_renumber level ps, preceded_renumber level _ t]
  | .index _ ps t => by
    simp only [renumberMember, member, parameters_renumber level ps, bare_renumber level t]
  | .initializer _ ps | .setter _ _ ps => by
    simp only [renumberMember, member, parameters_renumber level ps]
end

theorem heritageList_renumber (level : Nat) (word : String) (xs : List Heritage) :
    heritageList level word (xs.map (Heritage.renumber f)) = heritageList level word xs := by
  have hx : heritage level ∘ Heritage.renumber f = heritage level := by
    funext x
    simp only [Function.comp_apply, heritage, Heritage.renumber, types_renumber]
  simp only [heritageList, List.isEmpty_map, List.map_map, hx]

mutual
theorem statement_renumber (level : Nat) (inNamespace : Bool) : ∀ s : Statement,
    statement level inNamespace (s.renumber f) = statement level inNamespace s
  | .declaration d => declaration_renumber level inNamespace d
  | .imports _ | .exports _ | .exportAll .. | .exportDefault _ | .exportAssignment _
  | .verbatim .. => rfl

theorem statements_renumber (level : Nat) : ∀ ss : List Statement,
    statements level (Statement.renumberList f ss) = statements level ss
  | [] => rfl
  | s :: ss => by
    simp only [Statement.renumberList, statements, statement_renumber level true s,
      statements_renumber level ss]

theorem declaration_renumber (level : Nat) (inNamespace : Bool) : ∀ d : Declaration,
    declaration level inNamespace (d.renumber f) = declaration level inNamespace d
  | ⟨_, _, _, k⟩ => by
    simp only [Declaration.renumber, declaration, declarationKind_renumber level k]

theorem declarationKind_renumber (level : Nat) : ∀ k : DeclarationKind,
    declarationKind level (k.renumber f) = declarationKind level k
  | .interface _ tps bases ms => by
    simp only [DeclarationKind.renumber, declarationKind, typeParameters_renumber,
      heritageList_renumber, members_renumber]
  | .classLike _ tps base implemented ms => by
    simp only [DeclarationKind.renumber, declarationKind, typeParameters_renumber,
      Option.toList_map, heritageList_renumber, members_renumber]
  | .function _ tps ps t => by
    simp only [DeclarationKind.renumber, declarationKind, signature, typeParameters_renumber,
      parameters_renumber, preceded_renumber]
  | .variableList _ ds => by
    have hd : declarator level ∘ Declarator.renumber f = declarator level := by
      funext d
      simp only [Function.comp_apply, declarator, Declarator.renumber, preceded_renumber]
    simp only [DeclarationKind.renumber, declarationKind, List.map_map, hd]
  | .enumeration _ _ => rfl
  | .typeAlias _ tps t => by
    simp only [DeclarationKind.renumber, declarationKind, type, typeAt, typeParameters_renumber,
      enclosed_renumber, bare_renumber]
  | .namespaceBlock _ _ body => by
    simp only [DeclarationKind.renumber, declarationKind, statements_renumber (level + 1) body]
end

/-- A file is printed the same under other identities. -/
theorem run_renumber (file : OutputFile) (withMap : Bool) :
    run { file with statements := file.statements.map (PlacedStatement.renumber f) } withMap
      = run file withMap := by
  have hplaced : ∀ w s, placedStatement w (s.renumber f) = placedStatement w s := fun w s => by
    simp only [placedStatement, PlacedStatement.renumber, statement_renumber]
  simp only [run, Print.file, List.foldl_map, hplaced]

end Print

end DeclBundle
