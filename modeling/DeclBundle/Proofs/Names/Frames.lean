import DeclBundle.Proofs.Names.Binders
import DeclBundle.Proofs.Reference.Places

/-!
# Places under final names

What is known around a place while its declaration is renamed: the site, what binds names there in
the declaration, and what binds names there in the renamed one. The references of a renamed type are
those of its places, each under its final name and the new binders (`Spot.found_inType`), and so are
those of a declaration that has no namespace body (`Spot.found_inKind`).
-/

namespace DeclBundle

/-- What is around a place while it is renamed. -/
structure Frame where
  site : Site
  /-- The binders in the declaration. -/
  before : List Binder := []
  /-- The binders in the renamed declaration. -/
  after : List Binder := []
  /-- The final names chosen for `infer` names. -/
  inferred : List String := []

namespace Frame

/-- The frame inside one more layer. -/
def enter (f : Frame) : Layer → Frame
  | .types names =>
    { f with
      site := (f.site.enterTypes names).2
      before := (Layer.types names).binders ++ f.before
      after := (Layer.types (f.site.enterTypes names).1).binders ++ f.after }
  | .inferred limit =>
    { site := (f.site.enterTypes limit.inferredNames).2
      before := (Layer.inferred limit).binders ++ f.before
      after := (Layer.inferred
        (Rename.type (f.site.enterTypes limit.inferredNames).2 limit).value).binders ++ f.after
      inferred := (f.site.enterTypes limit.inferredNames).1 ++ f.inferred }
  | .parameters names =>
    { f with
      site := f.site.enterParameters names
      before := (Layer.parameters names).binders ++ f.before
      after := (Layer.parameters names).binders ++ f.after }

/-- The names that a namespace body declares or imports. -/
def members (body : List Statement) : List String := (Free.bodyBinders body).map Prod.fst

/-- The new names of the members of a body. -/
def renamedMembers (f : Frame) (body : List Statement) : Table String String :=
  (f.site.enterBody (Rename.capturedNames f.site body) (members body)).1

/-- The frame inside a namespace body. -/
def enterBody (f : Frame) (body : List Statement) : Frame :=
  { f with
    site := (f.site.enterBody (Rename.capturedNames f.site body) (members body)).2
    before := Free.bodyBinders body ++ f.before
    after := (members body).map (fun m => (Rename.newName (f.renamedMembers body) m, .both))
      ++ f.after }

end Frame

namespace Mention

/-- The name that an import type becomes the root of, if it becomes a name. -/
def inlineRoot? (s : Site) (specifier : String) (qualifier : Option String) (isTypeOf : Bool) :
    Option String :=
  if qualifier.isNone && !isTypeOf then none else s.importRoot specifier qualifier

/-- What stands at a place after renaming. -/
def renamed (s : Site) : Mention → Mention
  | .name root space => .name ((s.finalName? root space).getD root) space
  | .key root => .key (if root = "Symbol" then root else (s.finalName? root .value).getD root)
  | .importType specifier qualifier isTypeOf =>
    match inlineRoot? s specifier qualifier isTypeOf with
    | none => .importType specifier qualifier isTypeOf
    | some root => .name root (if isTypeOf then .value else .type)

end Mention

/-- The frame at a spot. -/
def Spot.frame (f : Frame) (p : Spot) : Frame := p.layers.foldl Frame.enter f

/-- What is around a place in a declaration. -/
def NamePlace.frame (f : Frame) (p : NamePlace) : Frame :=
  p.spot.frame (p.bodies.foldl Frame.enterBody f)

/-- The reference that is found at a place after renaming. -/
def Spot.found (f : Frame) (p : Spot) : Option Reference :=
  (p.mention.renamed (p.frame f).site).reported (p.frame f).after

/-- The reference that is found at a place after renaming. -/
def NamePlace.found (f : Frame) (p : NamePlace) : Option Reference :=
  p.spot.found (p.bodies.foldl Frame.enterBody f)

/-! ## Binders under final names -/

namespace Rename

theorem root_entity (s : Site) (space : Space) (e : Entity) :
    (entity s space e).root = (s.finalName? e.root space).getD e.root := by
  unfold entity
  split
  · rename_i name hn
    rw [hn, Option.getD_some]
    split
    · rename_i he
      exact he.symm
    · exact e.root_setRoot name
  · rename_i hn
    rw [hn, Option.getD_none]

theorem typeBinders_typeParameters (s : Site) : ∀ (tps : List TypeParameter) (names : List String),
    names.length = tps.length →
      Free.typeBinders (typeParameters s names tps).value = (Layer.types names).binders
  | [], names, h => by
    rw [List.length_eq_zero_iff.1 h]
    rfl
  | ⟨_, _, _, _, _⟩ :: ps, name :: names, h => by
    have ih := typeBinders_typeParameters s ps names (Nat.succ.inj h)
    simp only [Free.typeBinders, Layer.binders] at ih ⊢
    simp only [typeParameters, Named.value_bind, Named.value_pure, List.map_cons, List.tail_cons,
      ih, List.headD_cons]

theorem valueBinders_parameters (s : Site) (ps : List Parameter) :
    Free.valueBinders (parameters s ps).value = Free.valueBinders ps := by
  induction ps with
  | nil => rfl
  | cons p ps ih =>
    obtain ⟨name, modifiers, optional, rest, ascription⟩ := p
    simp only [Free.valueBinders] at ih ⊢
    simp only [parameters, Named.value_bind, Named.value_pure, List.map_cons, ih]

end Rename

namespace Frame

theorem after_types (f : Frame) (s : Site) (tps : List TypeParameter) :
    Free.typeBinders
        (Rename.typeParameters s (f.site.enterTypes (tps.map (·.name))).1 tps).value ++ f.after
      = (f.enter (.types (tps.map (·.name)))).after := by
  rw [Rename.typeBinders_typeParameters]
  · rfl
  · rw [Site.length_enterTypes, List.length_map]

theorem after_parameters (f : Frame) (s : Site) (ps : List Parameter) :
    Free.valueBinders (Rename.parameters s ps).value ++ f.after
      = (f.enter (.parameters (ps.map (·.name)))).after := by
  rw [Rename.valueBinders_parameters, ← Spot.binders_parameters]
  rfl

end Frame

namespace Spot

@[simp] theorem found_comp_under (f : Frame) (l : Layer) :
    found f ∘ under l = found (f.enter l) := rfl

theorem filterMap_found_singleton (f : Frame) (m : Mention) :
    [({ mention := m } : Spot)].filterMap (found f)
      = ((m.renamed f.site).reported f.after).toList := by
  rw [List.filterMap_cons]
  simp only [found, frame, List.foldl_nil]
  cases (m.renamed f.site).reported f.after <;> rfl

@[simp] theorem found_ofEntity (f : Frame) (space : Space) (e : Entity) :
    Occurrence.references (Free.useRoot f.after space (Rename.entity f.site space e))
      = (ofEntity space e).filterMap (found f) := by
  rw [ofEntity, filterMap_found_singleton, Free.useRoot, references_useName, Rename.root_entity]
  rfl

@[simp] theorem found_ofPropertyName (f : Frame) (name : PropertyName) :
    Occurrence.references (Free.usePropertyName f.after (Rename.propertyName f.site name))
      = (ofPropertyName name).filterMap (found f) := by
  cases name with
  | computed e =>
    rw [ofPropertyName, filterMap_found_singleton]
    simp only [Rename.propertyName, Free.usePropertyName, Mention.renamed, Mention.reported]
    by_cases he : e.root = "Symbol"
    · simp [he]
    · simp only [he, if_false, Rename.root_entity]
      split
      · rfl
      · rw [Free.useRoot, references_useName, Rename.root_entity]
  | _ => rfl

@[simp] theorem found_ofTokens (f : Frame) (tokens : List Token) :
    Occurrence.references (Free.useTokens f.after (Rename.tokens f.site tokens))
      = (ofTokens tokens).filterMap (found f) := by
  have hn : Token.names (Rename.tokens f.site tokens)
      = (Token.names tokens).map (Rename.plainName f.site) := by
    induction tokens with
    | nil => rfl
    | cons t ts ih =>
      cases t with
      | text text => exact ih
      | identifier name => simpa [Token.names, Rename.tokens] using ih
  simp only [Free.useTokens, hn, ofTokens, Occurrence.references_flatMap, references_useName]
  induction Token.names tokens with
  | nil => rfl
  | cons name names ih =>
    rw [List.map_cons, List.flatMap_cons, ih, List.map_cons, ← List.singleton_append,
      List.filterMap_append, filterMap_found_singleton]
    rfl

theorem references_importType (f : Frame) (argument : String) (qualifier : Option Entity)
    (arguments : List TypeExpr) (isTypeOf : Bool) :
    Occurrence.references
        (Free.inType f.after (Rename.importType f.site argument qualifier arguments isTypeOf))
      = ((Mention.renamed f.site
            (.importType argument (qualifier.map Entity.root) isTypeOf)).reported f.after).toList
        ++ Occurrence.references (Free.inTypes f.after arguments) := by
  have hr : (if qualifier.isNone && !isTypeOf then none
        else f.site.importRoot argument (qualifier.map Entity.root))
      = Mention.inlineRoot? f.site argument (qualifier.map Entity.root) isTypeOf := by
    rw [Mention.inlineRoot?, Option.isNone_map]
  simp only [Rename.importType, hr, Mention.renamed]
  cases Mention.inlineRoot? f.site argument (qualifier.map Entity.root) isTypeOf with
  | none => rfl
  | some root =>
    cases isTypeOf <;>
      simp only [Bool.false_eq_true, if_false, if_true, Free.inType, Free.useRoot,
        Occurrence.references_append, references_useName] <;> rfl

@[simp] theorem filterMap_found_signature (f : Frame) (tps : List TypeParameter)
    (ps : List Parameter) (own body : List Spot) :
    (signature tps ps own body).filterMap (found f)
      = own.filterMap (found (f.enter (.types (tps.map (·.name)))))
        ++ body.filterMap (found ((f.enter (.types (tps.map (·.name)))).enter
            (.parameters (ps.map (·.name))))) := by
  simp only [signature, List.filterMap_map, found_comp_under, List.filterMap_append]

mutual
theorem found_inType (f : Frame) : ∀ t : TypeExpr,
    Occurrence.references (Free.inType f.after (Rename.type f.site t).value)
      = (inType t).filterMap (found f)
  | .keyword _ | .literal _ => rfl
  | .reference _ arguments | .query _ arguments => by
    simp [Rename.type, Free.inType, inType, found_inTypes f arguments]
  | .array element => found_inType f element
  | .tuple elements => found_inElements f elements
  | .union types | .intersection types => found_inTypes f types
  | .function tps ps result | .construct _ tps ps result => by
    simp only [Rename.type, Named.value_bind, Named.value_pure, Free.inType, inType,
      Occurrence.references_append, filterMap_found_signature, List.filterMap_append,
      Frame.after_types, Frame.after_parameters, List.append_assoc]
    rw [← found_inTypeParameters _ (f.site.enterTypes _).1 tps, ← found_inParameters _ ps,
      ← found_inType _ result]
    rfl
  | .object members => found_inMembers f members
  | .operator _ target => found_inType f target
  | .indexed object index => by
    simp [Rename.type, Free.inType, inType, found_inType f object, found_inType f index]
  | .conditional check limit onTrue onFalse => by
    simp only [Rename.type, Named.value_bind, Named.value_pure, Free.inType, inType,
      Occurrence.references_append, List.filterMap_append, List.filterMap_map, found_comp_under]
    rw [← found_inType _ check, ← found_inType _ limit, ← found_inType _ onTrue,
      ← found_inType _ onFalse]
    simp only [List.append_assoc]
    rfl
  | .infer ⟨_, _, constraint, fallback, _⟩ => by
    simp [Rename.type, Free.inType, Free.inTypeParameter, inType, inTypeParameter,
      found_inOption f constraint, found_inOption f fallback]
  | .mapped ⟨_, key, constraint, fallback, _⟩ nameType _ _ target => by
    simp only [Rename.type, Named.value_bind, Named.value_pure, Free.inType, Free.inTypeParameter,
      inType, inTypeParameter, Occurrence.references_append, List.filterMap_append,
      List.filterMap_map, found_comp_under]
    rw [← found_inOption _ constraint, ← found_inOption _ fallback, ← found_inOption _ nameType,
      ← found_inOption _ target]
    simp only [List.append_assoc]
    rfl
  | .importType argument qualifier arguments isTypeOf => by
    simp only [Rename.type, Named.value_bind, Named.value_pure, inType]
    rw [← List.singleton_append, List.filterMap_append, filterMap_found_singleton,
      ← found_inTypes f arguments]
    exact references_importType f argument qualifier _ isTypeOf
  | .predicate _ _ target => found_inOption f target
  | .parenthesized inner => found_inType f inner
  | .template _ spans => found_inSpans f spans
  | .verbatim tokens => by simp [Rename.type, Free.inType, inType]

theorem found_inOption (f : Frame) : ∀ t : Option TypeExpr,
    Occurrence.references (Free.inOption f.after (Rename.option f.site t).value)
      = (inOption t).filterMap (found f)
  | none => rfl
  | some t => found_inType f t

theorem found_inTypes (f : Frame) : ∀ ts : List TypeExpr,
    Occurrence.references (Free.inTypes f.after (Rename.types f.site ts).value)
      = (inTypes ts).filterMap (found f)
  | [] => rfl
  | t :: ts => by
    simp [Rename.types, Free.inTypes, inTypes, found_inType f t, found_inTypes f ts]

theorem found_inTypeParameters (f : Frame) (names : List String) : ∀ ps : List TypeParameter,
    Occurrence.references
        (Free.inTypeParameters f.after (Rename.typeParameters f.site names ps).value)
      = (inTypeParameters ps).filterMap (found f)
  | [] => rfl
  | ⟨_, _, constraint, fallback, _⟩ :: ps => by
    simp [Rename.typeParameters, Free.inTypeParameters, Free.inTypeParameter, inTypeParameters,
      inTypeParameter, found_inOption f constraint, found_inOption f fallback,
      found_inTypeParameters f names.tail ps]

theorem found_inParameters (f : Frame) : ∀ ps : List Parameter,
    Occurrence.references (Free.inParameters f.after (Rename.parameters f.site ps).value)
      = (inParameters ps).filterMap (found f)
  | [] => rfl
  | ⟨_, _, _, _, ascription⟩ :: ps => by
    simp [Rename.parameters, Free.inParameters, inParameters, found_inOption f ascription,
      found_inParameters f ps]

theorem found_inElements (f : Frame) : ∀ es : List TupleElement,
    Occurrence.references (Free.inElements f.after (Rename.elements f.site es).value)
      = (inElements es).filterMap (found f)
  | [] => rfl
  | ⟨_, _, _, element⟩ :: es => by
    simp [Rename.elements, Free.inElements, inElements, found_inType f element,
      found_inElements f es]

theorem found_inSpans (f : Frame) : ∀ ss : List TemplateSpan,
    Occurrence.references (Free.inSpans f.after (Rename.spans f.site ss).value)
      = (inSpans ss).filterMap (found f)
  | [] => rfl
  | ⟨type, _⟩ :: ss => by
    simp [Rename.spans, Free.inSpans, inSpans, found_inType f type, found_inSpans f ss]

theorem found_inMembers (f : Frame) : ∀ ms : List Member,
    Occurrence.references (Free.inMembers f.after (Rename.members f.site ms).value)
      = (inMembers ms).filterMap (found f)
  | [] => rfl
  | m :: ms => by
    simp [Rename.members, Free.inMembers, inMembers, found_inMember f m, found_inMembers f ms]

theorem found_inMember (f : Frame) : ∀ m : Member,
    Occurrence.references (Free.inMember f.after (Rename.member f.site m).value)
      = (inMember m).filterMap (found f)
  | .property name _ _ ascription => by
    simp [Rename.member, Free.inMember, inMember, found_inOption f ascription]
  | .method name _ _ tps ps result => by
    simp only [Rename.member, Named.value_bind, Named.value_pure, Free.inMember, inMember,
      Occurrence.references_append, filterMap_found_signature, List.filterMap_append,
      Frame.after_types, Frame.after_parameters, List.append_assoc, found_ofPropertyName]
    rw [← found_inTypeParameters _ (f.site.enterTypes _).1 tps, ← found_inParameters _ ps,
      ← found_inOption _ result]
    rfl
  | .call tps ps result | .construct tps ps result => by
    simp only [Rename.member, Named.value_bind, Named.value_pure, Free.inMember, inMember,
      Occurrence.references_append, filterMap_found_signature, List.filterMap_append,
      Frame.after_types, Frame.after_parameters, List.append_assoc]
    rw [← found_inTypeParameters _ (f.site.enterTypes _).1 tps, ← found_inParameters _ ps,
      ← found_inOption _ result]
    rfl
  | .index _ ps ascription => by
    simp [Rename.member, Free.inMember, inMember, found_inParameters f ps,
      found_inType f ascription]
  | .initializer _ ps => found_inParameters f ps
  | .getter name _ result => by
    simp [Rename.member, Free.inMember, inMember, found_inOption f result]
  | .setter name _ ps => by
    simp [Rename.member, Free.inMember, inMember, found_inParameters f ps]
end

theorem found_inHeritages (f : Frame) : ∀ hs : List Heritage,
    Occurrence.references ((Rename.heritages f.site hs).value.flatMap (Free.inHeritage f.after))
      = (hs.flatMap inHeritage).filterMap (found f)
  | [] => rfl
  | h :: hs => by
    have ih := found_inHeritages f hs
    simp only [Rename.heritages, Rename.heritage, Named.value_bind, Named.value_pure,
      List.flatMap_cons, Occurrence.references_append, List.filterMap_append, ih, Free.inHeritage,
      inHeritage, found_ofEntity, found_inTypes]

theorem found_inDeclarators (f : Frame) : ∀ ds : List Declarator,
    Occurrence.references ((Rename.declarators f.site ds).value.flatMap
        fun d => Free.inOption f.after d.ascription)
      = (ds.flatMap fun d => inOption d.ascription).filterMap (found f)
  | [] => rfl
  | d :: ds => by
    have ih := found_inDeclarators f ds
    simp only [Rename.declarators, Named.value_bind, Named.value_pure, List.flatMap_cons,
      Occurrence.references_append, List.filterMap_append, ih, found_inOption]

/-- What is found in a declaration, outside of a namespace body. -/
theorem found_inKind (f : Frame) : ∀ kind : DeclarationKind,
    (∀ name keyword body, kind ≠ .namespaceBlock name keyword body) →
      Occurrence.references (Free.inKind f.after (Rename.kind f.site kind).value)
        = (inKind kind).filterMap (found f)
  | .interface _ tps bases members, _ => by
    simp only [Rename.kind, Named.value_bind, Named.value_pure, Free.inKind, inKind,
      Occurrence.references_append, List.filterMap_append, List.filterMap_map, found_comp_under,
      Frame.after_types]
    rw [← found_inTypeParameters _ (f.site.enterTypes _).1 tps, ← found_inHeritages _ bases,
      ← found_inMembers _ members]
    rfl
  | .classLike _ tps base implemented members, _ => by
    cases base with
    | none =>
      simp only [Rename.kind, Named.value_bind, Named.value_pure, Free.inKind, inKind,
        Occurrence.references_append, List.filterMap_append, List.filterMap_map, found_comp_under,
        Frame.after_types, Option.toList_none, List.flatMap_nil, List.nil_append, List.append_nil]
      rw [← found_inTypeParameters _ (f.site.enterTypes _).1 tps, ← found_inHeritages _ implemented,
        ← found_inMembers _ members]
      rfl
    | some base =>
      simp only [Rename.kind, Named.value_bind, Named.value_pure, Free.inKind, inKind,
        Occurrence.references_append, List.filterMap_append, List.filterMap_map, found_comp_under,
        Frame.after_types, Option.toList_some, List.flatMap_cons, List.flatMap_nil,
        List.append_nil, found_ofEntity]
      rw [← found_inTypeParameters _ (f.site.enterTypes _).1 tps, ← found_inTypes _ base.arguments,
        ← found_inHeritages _ implemented, ← found_inMembers _ members]
      simp only [List.append_assoc]
      rfl
  | .function _ tps ps result, _ => by
    simp only [Rename.kind, Named.value_bind, Named.value_pure, Free.inKind, inKind,
      Occurrence.references_append, filterMap_found_signature, List.filterMap_append,
      Frame.after_types, Frame.after_parameters, List.append_assoc]
    rw [← found_inTypeParameters _ (f.site.enterTypes _).1 tps, ← found_inParameters _ ps,
      ← found_inOption _ result]
    rfl
  | .variableList _ ds, _ => found_inDeclarators f ds
  | .enumeration .., _ => rfl
  | .typeAlias _ tps target, _ => by
    simp only [Rename.kind, Named.value_bind, Named.value_pure, Free.inKind, inKind,
      Occurrence.references_append, List.filterMap_append, List.filterMap_map, found_comp_under,
      Frame.after_types]
    rw [← found_inTypeParameters _ (f.site.enterTypes _).1 tps, ← found_inType _ target]
    rfl
  | .namespaceBlock name keyword body, h => absurd rfl (h name keyword body)

end Spot

end DeclBundle
