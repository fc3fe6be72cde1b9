import DeclBundle.Proofs.Names.Alike
import DeclBundle.Proofs.Names.Covered
import DeclBundle.Proofs.Names.Finished

/-!
# Renaming changes names only

A renamed tree is like the one that it comes from (`renaming_changes_names_only`). For types and
members this is one case for each shape. In a namespace body the members that have to give way are
renamed after all that stands in it; a declaration of such members comes under other names, because
what a body has captured is taken around it.
-/

namespace DeclBundle

open List (Forall₂)

namespace Rename

variable {roots : String → Option String → Option String}

/-! ## Names -/

theorem alike_setRoot (e : Entity) (name : String) : e.Alike (e.setRoot name) := by
  cases e with
  | mk segments =>
    cases segments with
    | nil => exact ⟨rfl, fun h => absurd rfl h⟩
    | cons a path => exact ⟨rfl, fun _ => rfl⟩

theorem alike_entity (s : Site) (space : Space) (e : Entity) : e.Alike (entity s space e) := by
  unfold entity
  split
  · split
    · exact ⟨rfl, fun _ => rfl⟩
    · exact alike_setRoot e _
  · exact ⟨rfl, fun _ => rfl⟩

theorem alike_propertyName (s : Site) : ∀ name : PropertyName, name.Alike (propertyName s name)
  | .identifier _ | .stringLiteral _ | .numericLiteral _ => .same _
  | .computed e => by
    rw [propertyName]
    split
    · exact .same _
    · rename_i hs
      exact .computed hs (alike_entity s .value e)

theorem alike_tokens (s : Site) : ∀ ts : List Token, Forall₂ Token.Alike ts (tokens s ts)
  | [] => .nil
  | .text text :: ts => .cons (.text text) (alike_tokens s ts)
  | .identifier name :: ts => .cons (.identifier name _) (alike_tokens s ts)

theorem alike_importType {s : Site} (h : s.importRoot = roots) (argument : String)
    (qualifier : Option Entity) {ts ts' : List TypeExpr} (isTypeOf : Bool)
    (hts : Forall₂ (TypeExpr.Alike roots) ts ts') :
    (TypeExpr.importType argument qualifier ts isTypeOf).Alike roots
      (importType s argument qualifier ts' isTypeOf) := by
  have hr : (if qualifier.isNone && !isTypeOf then none
      else s.importRoot argument (qualifier.map Entity.root))
        = inlinedRoot roots argument qualifier isTypeOf := by rw [h, inlinedRoot]
  simp only [importType, hr, List.drop_one]
  split
  · rename_i hn
    exact .importType hn hts
  · rename_i root hs
    cases isTypeOf with
    | false => exact .inlinedReference hs hts
    | true => exact .inlinedQuery hs hts

/-! ## Types and members -/

mutual
theorem alike_type (s : Site) : ∀ t : TypeExpr,
    s.importRoot = roots →
    t.Alike roots (type s t).value
  | .keyword name, _ => .keyword name
  | .literal text, _ => .literal text
  | .reference e ts, h => .reference (alike_entity s .type e) (alike_types _ ts h)
  | .query e ts, h => .query (alike_entity s .value e) (alike_types _ ts h)
  | .array t, h => .array (alike_type _ t h)
  | .tuple es, h => .tuple (alike_elements _ es h)
  | .union ts, h => .union (alike_types _ ts h)
  | .intersection ts, h => .intersection (alike_types _ ts h)
  | .function tps ps t, h =>
    .function (alike_typeParameters _ _ tps h) (alike_parameters _ ps h) (alike_type _ t h)
  | .construct isAbstract tps ps t, h =>
    .construct isAbstract (alike_typeParameters _ _ tps h) (alike_parameters _ ps h)
      (alike_type _ t h)
  | .object ms, h => .object (alike_members _ ms h)
  | .operator op t, h => .operator op (alike_type _ t h)
  | .indexed t i, h => .indexed (alike_type _ t h) (alike_type _ i h)
  | .conditional c b t f, h =>
    .conditional (alike_type _ c h) (alike_type _ b h) (alike_type _ t h) (alike_type _ f h)
  | .infer ⟨id, name, c, f, keywords⟩, h =>
    .infer (.mk id name _ keywords (alike_option _ c h) (alike_option _ f h))
  | .mapped ⟨id, name, c, f, keywords⟩ n readonly optionality t, h =>
    .mapped readonly optionality (.mk id name _ keywords (alike_option _ c h) (alike_option _ f h))
      (alike_option _ n h) (alike_option _ t h)
  | .importType argument qualifier ts isTypeOf, h =>
    alike_importType h argument qualifier isTypeOf (alike_types _ ts h)
  | .predicate asserts parameter t, h => .predicate asserts parameter (alike_option _ t h)
  | .parenthesized t, h => .parenthesized (alike_type _ t h)
  | .template head ss, h => .template head (alike_spans _ ss h)
  | .verbatim ts, _ => .verbatim (alike_tokens s ts)

theorem alike_option (s : Site) : ∀ t : Option TypeExpr,
    s.importRoot = roots →
    Option.Rel (TypeExpr.Alike roots) t (option s t).value
  | none, _ => .none
  | some t, h => .some (alike_type _ t h)

theorem alike_types (s : Site) : ∀ ts : List TypeExpr,
    s.importRoot = roots →
    Forall₂ (TypeExpr.Alike roots) ts (types s ts).value
  | [], _ => .nil
  | t :: ts, h => .cons (alike_type _ t h) (alike_types _ ts h)

theorem alike_typeParameters (s : Site) : ∀ (names : List String)
    (tps : List TypeParameter),
    s.importRoot = roots →
      Forall₂ (TypeParameter.Alike roots) tps (typeParameters s names tps).value
  | _, [], _ => .nil
  | names, ⟨id, name, c, f, keywords⟩ :: tps, h =>
    .cons (.mk id name _ keywords (alike_option _ c h) (alike_option _ f h))
      (alike_typeParameters _ names.tail tps h)

theorem alike_parameters (s : Site) : ∀ ps : List Parameter,
    s.importRoot = roots →
    Forall₂ (Parameter.Alike roots) ps (parameters s ps).value
  | [], _ => .nil
  | ⟨name, modifiers, optionality, rest, t⟩ :: ps, h =>
    .cons (.mk name modifiers optionality rest (alike_option _ t h)) (alike_parameters _ ps h)

theorem alike_elements (s : Site) : ∀ es : List TupleElement,
    s.importRoot = roots →
    Forall₂ (TupleElement.Alike roots) es (elements s es).value
  | [], _ => .nil
  | ⟨name, optionality, rest, t⟩ :: es, h =>
    .cons (.mk name optionality rest (alike_type _ t h)) (alike_elements _ es h)

theorem alike_spans (s : Site) : ∀ ss : List TemplateSpan,
    s.importRoot = roots →
    Forall₂ (TemplateSpan.Alike roots) ss (spans s ss).value
  | [], _ => .nil
  | ⟨t, literal⟩ :: ss, h => .cons (.mk literal (alike_type _ t h)) (alike_spans _ ss h)

theorem alike_members (s : Site) : ∀ ms : List Member,
    s.importRoot = roots →
    Forall₂ (Member.Alike roots) ms (members s ms).value
  | [], _ => .nil
  | m :: ms, h => .cons (alike_member _ m h) (alike_members _ ms h)

theorem alike_member (s : Site) : ∀ m : Member,
    s.importRoot = roots →
    m.Alike roots (member s m).value
  | .property name modifiers optionality t, h =>
    .property modifiers optionality (alike_propertyName s name) (alike_option _ t h)
  | .method name modifiers optionality tps ps t, h =>
    .method modifiers optionality (alike_propertyName s name) (alike_typeParameters _ _ tps h)
      (alike_parameters _ ps h) (alike_option _ t h)
  | .call tps ps t, h =>
    .call (alike_typeParameters _ _ tps h) (alike_parameters _ ps h) (alike_option _ t h)
  | .construct tps ps t, h =>
    .construct (alike_typeParameters _ _ tps h) (alike_parameters _ ps h) (alike_option _ t h)
  | .index modifiers ps t, h => .index modifiers (alike_parameters _ ps h) (alike_type _ t h)
  | .initializer modifiers ps, h => .initializer modifiers (alike_parameters _ ps h)
  | .getter name modifiers t, h =>
    .getter modifiers (alike_propertyName s name) (alike_option _ t h)
  | .setter name modifiers ps, h =>
    .setter modifiers (alike_propertyName s name) (alike_parameters _ ps h)
end

/-! ## Declared names -/

theorem alike_setName {k k' : DeclarationKind} (name : String) (h : k.Alike roots k') :
    k.Alike roots (k'.setName name) := by
  cases h with
  | interface _ _ ht hb hm => exact .interface _ _ ht hb hm
  | classLike _ _ ht hb hi hm => exact .classLike _ _ ht hb hi hm
  | function _ _ ht hp h => exact .function _ _ ht hp h
  | variableList flavor h => exact .variableList flavor h
  | enumeration _ _ ms => exact .enumeration _ _ ms
  | typeAlias _ _ ht h => exact .typeAlias _ _ ht h
  | namespaceBlock _ _ moduleKeyword h => exact .namespaceBlock _ _ moduleKeyword h

variable (r : Table String String)

theorem alike_renameDeclarators {ds ds' : List Declarator}
    (h : Forall₂ (Declarator.Alike roots) ds ds') :
    Forall₂ (Declarator.Alike roots) ds (renameDeclarators r ds').value := by
  induction h with
  | nil => exact .nil
  | cons h hs ih =>
    rw [renameDeclarators, Named.value_bind, Named.value_bind, Named.value_pure]
    refine .cons ?_ ih
    rw [renameDeclarator]
    split
    · exact ⟨h.id, h.initializer, h.ascription⟩
    · exact h

theorem alike_renamedKind {k k' : DeclarationKind} (h : k.Alike roots k') :
    k.Alike roots (renamedKind r k') := by
  have hs := alike_setName (newName r (k'.name?.getD "")) h
  cases h with
  | variableList flavor h => exact .variableList flavor (alike_renameDeclarators r h)
  | _ => exact hs

variable {r}

/-- A statement with a member that is renamed comes under other names: `m` has not kept its own. -/
theorem map_newName_ne (hr : ∀ {m v}, r.get? m = some v → v ≠ m) {st : Statement}
    (h : isRenamed r st = true) : (Free.memberNames st).map (newName r) ≠ Free.memberNames st := by
  obtain ⟨m, hmem, hc⟩ := List.any_eq_true.1 h
  obtain ⟨v, hv⟩ := Table.mem_keys.1 (Table.contains_iff.1 hc)
  refine fun he => hr hv ?_
  have hkept : newName r m = m := List.map_inj_left.1 (he.trans (List.map_id _).symm) m hmem
  rwa [newName, hv, Option.getD_some] at hkept

/-- A declaration with a member that is renamed is not exported by its modifier any more, and comes
under other names. -/
theorem alike_renameMember {d d' : Declaration} (hr : ∀ {m v}, r.get? m = some v → v ≠ m)
    (h : d.Alike roots d')
    (hn : Free.memberNames (.declaration d') = Free.memberNames (.declaration d)) :
    (Statement.declaration d).AlikeInBody roots (renameMember r (.declaration d')).value := by
  by_cases hren : isRenamed r (.declaration d') = true
  · obtain ⟨d'', hd, hm, -⟩ := renameMember_declaration r d'
    rw [value_renameMember r hren] at hd ⊢
    cases hd
    obtain ⟨_, modifiers, pos, hk⟩ := h
    refine .unexported (.mk _ modifiers pos (alike_renamedKind r hk)) ?_
    rw [← hn]
    exact hm ▸ map_newName_ne hr hren
  · simp only [renameMember, hren]
    exact .declaration h hn

theorem mem_zip_map {f : α → β} {xs : List α} {x : α} (h : x ∈ xs) :
    (x, f x) ∈ xs.zip (xs.map f) := by
  have hzip : (xs.map id).zip (xs.map f) = xs.map fun x => (x, f x) := List.zip_map'
  rw [List.map_id] at hzip
  rw [hzip]
  exact List.mem_map_of_mem h

/-- What the list at the end of a body exports. -/
theorem exported_of_mem_lostExports (s : Site) (hr : ∀ {m v}, r.get? m = some v → v ≠ m)
    {body : List Statement} {x : ExportSpecifier} (h : x ∈ lostExports r body) :
    ∃ d d', (Statement.declaration d, Statement.declaration d')
        ∈ body.zip (body.map fun st => (renameMember r (statement s st).value).value)
      ∧ d.modifiers.exported = true
      ∧ Free.memberNames (.declaration d') ≠ Free.memberNames (.declaration d)
      ∧ (x.exported, x.binding)
        ∈ (Free.memberNames (.declaration d)).zip (Free.memberNames (.declaration d')) := by
  obtain ⟨hx, d, hd, hexported, hren, hm⟩ := mem_lostExports r h
  obtain ⟨d', hd', hnames, -⟩ := renameMember_declaration r (declaration s d).value
  have hsame := memberNames_statement s (.declaration d)
  have hnew : Free.memberNames (.declaration d')
      = (Free.memberNames (.declaration d)).map (newName r) := by
    rw [hnames, ← hsame]
    rfl
  refine ⟨d, d', ?_, hexported, hnew ▸ map_newName_ne hr hren, ?_⟩
  · rw [← hd']
    exact mem_zip_map hd
  · rw [hnew, hx]
    exact mem_zip_map hm

/-! ## Declarations -/

theorem alike_heritage (s : Site) (x : Heritage) (h : s.importRoot = roots) :
    x.Alike roots (heritage s x).value :=
  ⟨alike_entity s .type x.expression, alike_types _ x.arguments h⟩

theorem alike_heritages (s : Site) : ∀ xs : List Heritage, s.importRoot = roots →
    Forall₂ (Heritage.Alike roots) xs (heritages s xs).value
  | [], _ => .nil
  | x :: xs, h => .cons (alike_heritage s x h) (alike_heritages s xs h)

theorem alike_declarators (s : Site) : ∀ ds : List Declarator, s.importRoot = roots →
    Forall₂ (Declarator.Alike roots) ds (declarators s ds).value
  | [], _ => .nil
  | d :: ds, h => .cons ⟨rfl, rfl, alike_option _ d.ascription h⟩ (alike_declarators s ds h)

mutual
theorem alike_kind (s : Site) (hc : s.Covered) (h : s.importRoot = roots) : ∀ k : DeclarationKind,
    k.Alike roots (kind s k).value
  | .interface name tps bases ms =>
    .interface name name (alike_typeParameters _ _ tps h) (alike_heritages _ bases h)
      (alike_members _ ms h)
  | .classLike name tps none implemented ms =>
    .classLike name name (alike_typeParameters _ _ tps h) .none (alike_heritages _ implemented h)
      (alike_members _ ms h)
  | .classLike name tps (some base) implemented ms =>
    .classLike name name (alike_typeParameters _ _ tps h)
      (.some ⟨alike_entity s .value base.expression, alike_types _ base.arguments h⟩)
      (alike_heritages _ implemented h) (alike_members _ ms h)
  | .function name tps ps t =>
    .function name name (alike_typeParameters _ _ tps h) (alike_parameters _ ps h)
      (alike_option _ t h)
  | .variableList flavor ds => .variableList flavor (alike_declarators s ds h)
  | .enumeration name ms => .enumeration name name ms
  | .typeAlias name tps t =>
    .typeAlias name name (alike_typeParameters _ _ tps h) (alike_type _ t h)
  | .namespaceBlock name moduleKeyword body => by
    rw [value_kind_namespaceBlock]
    refine .namespaceBlock name name moduleKeyword ?_
    have hbody := alike_statements (s.enterBody (capturedNames s body) (Frame.members body)).2
      (hc.enterBody _ _) h (r := (s.enterBody (capturedNames s body) (Frame.members body)).1)
      hc.newName_ne body
    rw [bodyAt, restored]
    split
    · rw [List.append_nil]
      exact .same hbody
    · rename_i hne
      exact .exporting hbody (by simpa using hne) fun x hx =>
        exported_of_mem_lostExports _ hc.newName_ne hx

theorem alike_declaration (s : Site) (hc : s.Covered) (h : s.importRoot = roots) :
    ∀ d : Declaration, d.Alike roots (declaration s d).value
  | ⟨id, modifiers, pos, k⟩ => .mk id modifiers pos (alike_kind s hc h k)

/-- The statements of a body, once its members have been renamed. -/
theorem alike_statements (s : Site) (hc : s.Covered) (h : s.importRoot = roots)
    {r : Table String String} (hr : ∀ {m v}, r.get? m = some v → v ≠ m) : ∀ body : List Statement,
      Forall₂ (Statement.AlikeInBody roots) body
        (body.map fun st => (renameMember r (statement s st).value).value)
  | [] => .nil
  | st :: body => .cons (alike_statement s hc h hr st) (alike_statements s hc h hr body)

theorem alike_statement (s : Site) (hc : s.Covered) (h : s.importRoot = roots)
    {r : Table String String} (hr : ∀ {m v}, r.get? m = some v → v ≠ m) : ∀ st : Statement,
      st.AlikeInBody roots (renameMember r (statement s st).value).value
  | .declaration d =>
    alike_renameMember hr (alike_declaration s hc h d) (memberNames_statement s (.declaration d))
  | .exports ⟨specifiers, none, typeOnly⟩ => .exports specifiers typeOnly (plainName s)
  | .exports ⟨specifiers, some source, typeOnly⟩ => .exportsFrom specifiers source typeOnly
  | .exportDefault expression => .exportDefault expression _
  | .exportAssignment expression => .exportAssignment expression _
  | .verbatim ts pos => .verbatim pos (alike_tokens s ts)
  | .imports i => .imports i (newName r)
  | .exportAll source name => .exportAll source name
end

end Rename

/-! ## Statements of a module -/

namespace Naming

open Rename

variable {roots : String → Option String → Option String} (n : FinalNames)

theorem alike_renameDeclarator {ds ds' : List Declarator}
    (h : Forall₂ (Declarator.Alike roots) (ds.map (renameDeclarator n)) ds') :
    Forall₂ (Declarator.Alike roots) ds ds' :=
  (List.forall₂_map_left_iff.1 h).imp fun _ _ hd => ⟨hd.id, hd.initializer, hd.ascription⟩

theorem alike_of_setName {k k' : DeclarationKind} {name : String}
    (h : (k.setName name).Alike roots k') : k.Alike roots k' := by
  cases k <;> cases h <;> constructor <;> assumption

/-- What is like a declaration under its final name is like the declaration. -/
theorem alike_of_underFinalName {d d' : Declaration} (h : (underFinalName n d).Alike roots d') :
    d.Alike roots d' := by
  obtain ⟨id, modifiers, pos, k⟩ := d
  cases k with
  | variableList flavor ds =>
    obtain ⟨_, _, _, hk⟩ := h
    cases hk with
    | variableList _ hds => exact .mk _ _ _ (.variableList _ (alike_renameDeclarator n hds))
  | _ =>
    simp only [underFinalName] at h
    split at h
    · obtain ⟨_, _, _, hk⟩ := h
      exact .mk _ _ _ (alike_of_setName hk)
    · exact h

theorem alike_statement {s : Site} (hc : s.Covered) : ∀ st : Statement,
    st.Alike s.importRoot (statement s n st).value
  | .declaration _ => .declaration (alike_of_underFinalName n (alike_declaration s hc rfl _))
  | .verbatim tokens pos => .verbatim pos (alike_tokens s tokens)
  | .imports i => .imports i
  | .exports e => .exports e
  | .exportAll source name => .exportAll source name
  | .exportDefault expression => .exportDefault expression
  | .exportAssignment expression => .exportAssignment expression

end Naming

/-- Putting the final names into the modules of a bundle changes names only: every statement stays
where it is and is like the one that it comes from, with the import types inlined whose root the
bundle has a name for. -/
theorem renaming_changes_names_only (c : NamingContext) (reserved : List String) (firstId : DeclId)
    (trees : List ModuleTree) :
    let named := Naming.run c reserved firstId trees
    Forall₂ (fun t t' => t.Alike (Naming.site c.linker named.names t.module).importRoot t') trees
      named.trees := by
  have hc := FinalNames.covered_choose c reserved firstId trees
  simp only [Naming.run, List.map_map, List.forall₂_map_right_iff, List.forall₂_same]
  intro t _
  refine ⟨rfl, rfl, ?_⟩
  simp only [Function.comp, Naming.tree, List.map_map, List.forall₂_map_right_iff,
    List.forall₂_same]
  exact fun st _ => Naming.alike_statement _ (hc.site c.linker t.module) st

end DeclBundle
