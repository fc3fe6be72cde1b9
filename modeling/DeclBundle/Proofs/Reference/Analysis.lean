import DeclBundle.Proofs.Reference.Places
import DeclBundle.Proofs.Reference.Scoping

/-!
# What the analysis of a declaration reports

The walk through a declaration finds an occurrence for each use that stands in the tree and that no
node above it binds (`Part.inDeclaration_eq`), in the order of `Part.visits`. The references of the
declaration are therefore its free uses, and what it counts are its types of text.
-/

namespace DeclBundle

/-- The occurrence that a use is under binders, unless it is bound or blank. -/
def Use.occurrence (bound : List Binder) : Use → Option Occurrence
  | .name root space =>
    if root = "" || Free.isBound bound root space then none else some (.reference (.name root))
  | .importType specifier qualifier => some (.reference (.importType specifier qualifier))
  | .text => some .unsupported

namespace Part

/-- The names that the nodes on the way down bind, the nearest first. -/
def boundBy (steps : List Step) : List Binder := steps.reverse.flatMap Step.binders

/-- The uses at a visit that are not bound around it. -/
def Visit.occurrences (bound : List Binder) (v : Visit) : List Occurrence :=
  v.node.uses.filterMap (Use.occurrence (boundBy v.around ++ bound))

/-- The occurrences in a tree under binders. -/
def occurrences (bound : List Binder) (p : Part) : List Occurrence :=
  p.visits.flatMap (Visit.occurrences bound)

theorem occurrences_below (bound : List Binder) (s : Step) :
    Visit.occurrences bound ∘ Visit.below s = Visit.occurrences (s.binders ++ bound) := by
  funext v
  simp [Visit.occurrences, Visit.below, boundBy, List.flatMap_append]

theorem occurrences_eq (bound : List Binder) (p : Part) : p.occurrences bound
    = p.uses.filterMap (Use.occurrence bound)
      ++ p.regions.flatMap fun c => c.2.occurrences (p.binders c.1 ++ bound) := by
  rw [occurrences, visits_eq, List.flatMap_cons, List.flatMap_assoc]
  congr 2
  funext c
  rw [visitsBelow, List.flatMap_map]
  exact congrArg (List.flatMap · _) (occurrences_below bound ⟨p, c.1⟩)

/-! ## The walk through a tree -/

section
variable (bound : List Binder)

theorem filterMap_names (space : Space) (f : α → String) (xs : List α) :
    (xs.map fun x => Use.name (f x) space).filterMap (Use.occurrence bound)
      = xs.flatMap fun x => Free.useName bound space (f x) := by
  induction xs with
  | nil => rfl
  | cons x xs ih =>
    rw [List.map_cons, List.flatMap_cons, ← ih, List.filterMap_cons]
    simp only [Use.occurrence, Free.useName]
    split <;> simp_all

@[simp] theorem filterMap_name (root : String) (space : Space) :
    [Use.name root space].filterMap (Use.occurrence bound) = Free.useName bound space root := by
  simpa using filterMap_names bound space id [root]

@[simp] theorem filterMap_tokens (tokens : List Token) :
    (Token.uses tokens).filterMap (Use.occurrence bound) = Free.useTokens bound tokens :=
  filterMap_names bound .both id (Token.names tokens)

@[simp] theorem filterMap_propertyName (name : PropertyName) :
    name.uses.filterMap (Use.occurrence bound) = Free.usePropertyName bound name := by
  cases name with
  | computed e =>
    simp only [PropertyName.uses, Free.usePropertyName]
    split
    · rfl
    · exact filterMap_name bound e.root .value
  | _ => rfl

/-- What stands below a signature. -/
theorem occurrences_signature (p : Part) (tps : List TypeParameter) (ps : List Parameter)
    (result : Option TypeExpr) :
    (signatureRegions tps ps result).flatMap (fun c => c.2.occurrences (p.binders c.1 ++ bound))
      = (tps.map .typeParameter).flatMap (occurrences (p.binders .inside ++ bound))
        ++ (ps.map .parameter).flatMap (occurrences (p.binders .signature ++ bound))
        ++ (result.toList.map .type).flatMap (occurrences (p.binders .signature ++ bound)) := by
  simp [signatureRegions, List.flatMap_map]

end

mutual
theorem inType_eq (bound : List Binder) : ∀ t : TypeExpr,
    Free.inType bound t = (type t).occurrences bound
  | .keyword _ | .literal _ => by
    rw [occurrences_eq]
    rfl
  | .reference _ ts | .query _ ts => by
    rw [occurrences_eq]
    simp [Free.inType, Free.useRoot, List.flatMap_map, inTypes_eq bound ts]
  | .array t | .operator _ t | .parenthesized t => by
    rw [occurrences_eq]
    simp [Free.inType, inType_eq bound t]
  | .tuple es => by
    rw [occurrences_eq]
    simp [Free.inType, List.flatMap_map, inElements_eq bound es]
  | .union ts | .intersection ts => by
    rw [occurrences_eq]
    simp [Free.inType, List.flatMap_map, inTypes_eq bound ts]
  | .function tps ps t | .construct _ tps ps t => by
    rw [occurrences_eq]
    simp [Free.inType, occurrences_signature, inTypeParameters_eq _ tps, inParameters_eq _ ps,
      inType_eq _ t]
  | .object ms => by
    rw [occurrences_eq]
    simp [Free.inType, List.flatMap_map, inMembers_eq bound ms]
  | .indexed t u => by
    rw [occurrences_eq]
    simp [Free.inType, inType_eq bound t, inType_eq bound u]
  | .conditional t u v w => by
    rw [occurrences_eq]
    simp [Free.inType, inType_eq _ t, inType_eq _ u, inType_eq _ v, inType_eq _ w]
  | .infer p => by
    rw [occurrences_eq]
    simp [Free.inType, inTypeParameter_eq bound p]
  | .mapped p t _ _ u => by
    rw [occurrences_eq]
    simp [Free.inType, List.flatMap_map, inTypeParameter_eq bound p, inOption_eq _ t,
      inOption_eq _ u]
  | .importType _ _ ts _ => by
    rw [occurrences_eq]
    simp [Free.inType, Use.occurrence, List.flatMap_map, inTypes_eq bound ts]
  | .predicate _ _ t => by
    rw [occurrences_eq]
    simp [Free.inType, List.flatMap_map, inOption_eq bound t]
  | .template _ ss => by
    rw [occurrences_eq]
    simp [Free.inType, List.flatMap_map, inSpans_eq bound ss]
  | .verbatim tokens => by
    rw [occurrences_eq]
    simp [Free.inType, Use.occurrence]

theorem inOption_eq (bound : List Binder) : ∀ t : Option TypeExpr,
    Free.inOption bound t = (t.toList.map .type).flatMap (occurrences bound)
  | none => rfl
  | some t => by simp [Free.inOption, inType_eq bound t]

theorem inTypes_eq (bound : List Binder) : ∀ ts : List TypeExpr,
    Free.inTypes bound ts = (ts.map .type).flatMap (occurrences bound)
  | [] => rfl
  | t :: ts => by simp [Free.inTypes, inType_eq bound t, inTypes_eq bound ts]

theorem inTypeParameter_eq (bound : List Binder) : ∀ p : TypeParameter,
    Free.inTypeParameter bound p = (typeParameter p).occurrences bound
  | ⟨_, _, constraint, fallback, _⟩ => by
    rw [occurrences_eq]
    simp [Free.inTypeParameter, List.flatMap_map, inOption_eq bound constraint,
      inOption_eq bound fallback]

theorem inTypeParameters_eq (bound : List Binder) : ∀ ps : List TypeParameter,
    Free.inTypeParameters bound ps = (ps.map .typeParameter).flatMap (occurrences bound)
  | [] => rfl
  | p :: ps => by
    simp [Free.inTypeParameters, inTypeParameter_eq bound p, inTypeParameters_eq bound ps]

theorem inParameters_eq (bound : List Binder) : ∀ ps : List Parameter,
    Free.inParameters bound ps = (ps.map .parameter).flatMap (occurrences bound)
  | [] => rfl
  | ⟨_, _, _, _, t⟩ :: ps => by
    rw [List.map_cons, List.flatMap_cons, occurrences_eq, ← inParameters_eq bound ps]
    simp [Free.inParameters, List.flatMap_map, inOption_eq bound t]

theorem inElements_eq (bound : List Binder) : ∀ es : List TupleElement,
    Free.inElements bound es = (es.map .element).flatMap (occurrences bound)
  | [] => rfl
  | ⟨_, _, _, t⟩ :: es => by
    rw [List.map_cons, List.flatMap_cons, occurrences_eq, ← inElements_eq bound es]
    simp [Free.inElements, inType_eq bound t]

theorem inSpans_eq (bound : List Binder) : ∀ ss : List TemplateSpan,
    Free.inSpans bound ss = (ss.map .span).flatMap (occurrences bound)
  | [] => rfl
  | ⟨t, _⟩ :: ss => by
    rw [List.map_cons, List.flatMap_cons, occurrences_eq, ← inSpans_eq bound ss]
    simp [Free.inSpans, inType_eq bound t]

theorem inMembers_eq (bound : List Binder) : ∀ ms : List Member,
    Free.inMembers bound ms = (ms.map .member).flatMap (occurrences bound)
  | [] => rfl
  | m :: ms => by simp [Free.inMembers, inMember_eq bound m, inMembers_eq bound ms]

theorem inMember_eq (bound : List Binder) : ∀ m : Member,
    Free.inMember bound m = (member m).occurrences bound
  | .property _ _ _ t | .getter _ _ t => by
    rw [occurrences_eq]
    simp [Free.inMember, List.flatMap_map, inOption_eq bound t]
  | .method _ _ _ tps ps t | .call tps ps t | .construct tps ps t => by
    rw [occurrences_eq]
    simp [Free.inMember, occurrences_signature, inTypeParameters_eq _ tps, inParameters_eq _ ps,
      inOption_eq _ t]
  | .index _ ps t => by
    rw [occurrences_eq]
    simp [Free.inMember, List.flatMap_map, inParameters_eq bound ps, inType_eq bound t]
  | .initializer _ ps | .setter _ _ ps => by
    rw [occurrences_eq]
    simp [Free.inMember, List.flatMap_map, inParameters_eq bound ps]
end

theorem inHeritages_eq (bound : List Binder) : ∀ hs : List Heritage,
    hs.flatMap (Free.inHeritage bound) = (hs.map .heritage).flatMap (occurrences bound)
  | [] => rfl
  | h :: hs => by
    rw [List.map_cons, List.flatMap_cons, List.flatMap_cons, occurrences_eq,
      inHeritages_eq bound hs]
    simp [Free.inHeritage, Free.useRoot, List.flatMap_map, inTypes_eq]

theorem inDeclarators_eq (bound : List Binder) : ∀ ds : List Declarator,
    ds.flatMap (fun d => Free.inOption bound d.ascription)
      = (ds.map .declarator).flatMap (occurrences bound)
  | [] => rfl
  | d :: ds => by
    rw [List.map_cons, List.flatMap_cons, List.flatMap_cons, occurrences_eq,
      inDeclarators_eq bound ds]
    simp [List.flatMap_map, inOption_eq]

mutual
/-- The walk finds the occurrences of the tree, in their order. -/
theorem inDeclaration_eq (bound : List Binder) : ∀ d : Declaration,
    Free.inDeclaration bound d = (declaration d).occurrences bound
  | ⟨_, _, _, .interface _ tps bases ms⟩ => by
    rw [occurrences_eq]
    simp [Free.inDeclaration, Free.inKind, List.flatMap_map, inTypeParameters_eq, inHeritages_eq,
      inMembers_eq]
  | ⟨_, _, _, .classLike _ tps none implemented ms⟩ => by
    rw [occurrences_eq]
    simp [Free.inDeclaration, Free.inKind, List.flatMap_map, inTypeParameters_eq, inHeritages_eq,
      inMembers_eq]
  | ⟨_, _, _, .classLike _ tps (some base) implemented ms⟩ => by
    rw [occurrences_eq]
    simp [Free.inDeclaration, Free.inKind, Free.useRoot, List.flatMap_map, inTypeParameters_eq,
      inTypes_eq, inHeritages_eq, inMembers_eq]
  | ⟨_, _, _, .function _ tps ps t⟩ => by
    rw [occurrences_eq]
    simp [Free.inDeclaration, Free.inKind, occurrences_signature, inTypeParameters_eq,
      inParameters_eq, inOption_eq]
  | ⟨_, _, _, .variableList _ ds⟩ => by
    rw [occurrences_eq]
    simp [Free.inDeclaration, Free.inKind, Free.typeBinders, List.flatMap_map, inDeclarators_eq]
  | ⟨_, _, _, .enumeration _ _⟩ => by
    rw [occurrences_eq]
    rfl
  | ⟨_, _, _, .typeAlias _ tps t⟩ => by
    rw [occurrences_eq]
    simp [Free.inDeclaration, Free.inKind, List.flatMap_map, inTypeParameters_eq, inType_eq]
  | ⟨_, _, _, .namespaceBlock _ _ body⟩ => by
    rw [occurrences_eq]
    simp [Free.inDeclaration, Free.inKind, List.flatMap_map, inBody_eq _ body]

theorem inBody_eq (bound : List Binder) : ∀ ss : List Statement,
    Free.inBody bound ss = (ss.map .statement).flatMap (occurrences bound)
  | [] => rfl
  | s :: ss => by simp [Free.inBody, inStatement_eq bound s, inBody_eq bound ss]

theorem inStatement_eq (bound : List Binder) : ∀ s : Statement,
    Free.inStatement bound s = (statement s).occurrences bound
  | .declaration d => by
    rw [occurrences_eq]
    simp [Free.inStatement, inDeclaration_eq bound d]
  | .exports ⟨specifiers, none, _⟩ => by
    rw [occurrences_eq]
    simpa [Free.inStatement] using (filterMap_names bound .both (·.binding) specifiers).symm
  | .exportDefault _ | .exportAssignment _ => by
    rw [occurrences_eq]
    simp [Free.inStatement]
  | .verbatim _ _ => by
    rw [occurrences_eq]
    simp [Free.inStatement]
  | .imports _ | .exports ⟨_, some _, _⟩ | .exportAll .. => by
    rw [occurrences_eq]
    rfl
end

/-! ## What is reported -/

theorem isBound_iff_binds {steps : List Step} {name : String} {space : Space} :
    Free.isBound (boundBy steps) name space ↔ ∃ s ∈ steps, s.Binds name space := by
  simp only [Free.isBound, boundBy, Step.Binds, List.any_eq_true, List.mem_flatMap,
    List.mem_reverse, Bool.and_eq_true, beq_iff_eq]
  constructor
  · rintro ⟨b, ⟨s, hs, hb⟩, h⟩
    exact ⟨s, hs, b, hb, h⟩
  · rintro ⟨s, hs, b, hb, h⟩
    exact ⟨b, ⟨s, hs, hb⟩, h⟩

theorem freeAt_iff_isBound {steps : List Step} {name : String} {space : Space} :
    FreeAt steps name space ↔ name ≠ "" ∧ Free.isBound (boundBy steps) name space = false := by
  rw [freeAt_iff, ← Bool.not_eq_true, isBound_iff_binds]
  simp only [not_exists, not_and]

theorem references_occurrences (v : Visit) :
    Occurrence.references (Visit.occurrences [] v) = v.references := by
  rw [Visit.occurrences, Occurrence.references, List.filterMap_filterMap, Visit.references]
  congr 1
  funext u
  cases u with
  | name root space =>
    simp only [Use.occurrence, referenceAt, freeAt_iff_isBound, List.append_nil]
    by_cases hr : root = "" <;>
      cases Free.isBound (boundBy v.around) root space <;> simp [hr]
  | importType specifier qualifier => rfl
  | text => rfl

theorem references_declaration (d : Declaration) : (Analysis.declaration d).references
    = ((declaration d).visits.flatMap Visit.references).eraseDups := by
  rw [Analysis.declaration, Analysis.references_ofOccurrences, inDeclaration_eq, occurrences,
    Occurrence.references_flatMap]
  simp only [references_occurrences]

theorem referenceAt_eq_name {steps : List Step} {u : Use} {name : String} :
    referenceAt steps u = some (.name name)
      ↔ ∃ space, u = .name name space ∧ FreeAt steps name space := by
  cases u with
  | name root space =>
    simp only [referenceAt, Option.ite_none_right_eq_some, Option.some.injEq, Reference.name.injEq,
      Use.name.injEq]
    constructor
    · rintro ⟨h, rfl⟩
      exact ⟨space, ⟨rfl, rfl⟩, h⟩
    · rintro ⟨_, ⟨rfl, rfl⟩, h⟩
      exact ⟨h, rfl⟩
  | _ => simp [referenceAt]

theorem mem_references {d : Declaration} {r : Reference} :
    r ∈ (Analysis.declaration d).references
      ↔ ∃ around node, (declaration d).Above around node
          ∧ ∃ u ∈ node.uses, referenceAt around u = some r := by
  rw [references_declaration, List.mem_eraseDups, List.mem_flatMap]
  simp only [Visit.references, List.mem_filterMap]
  exact ⟨fun ⟨v, hv, h⟩ => ⟨v.around, v.node, mem_visits.1 hv, h⟩,
    fun ⟨around, node, hv, h⟩ => ⟨⟨around, node⟩, hv.mem_visits, h⟩⟩

/-- A declaration refers to the names that it uses somewhere where no node above binds them. -/
theorem name_mem_references {d : Declaration} {name : String} :
    .name name ∈ (Analysis.declaration d).references
      ↔ ∃ around node space, (declaration d).Above around node
          ∧ .name name space ∈ node.uses ∧ FreeAt around name space := by
  simp only [mem_references, referenceAt_eq_name]
  constructor
  · rintro ⟨around, node, hn, _, hu, space, rfl, hf⟩
    exact ⟨around, node, space, hn, hu, hf⟩
  · rintro ⟨around, node, space, hn, hu, hf⟩
    exact ⟨around, node, hn, _, hu, space, rfl, hf⟩

/-! ## Types that are kept as text -/

end Part

end DeclBundle
