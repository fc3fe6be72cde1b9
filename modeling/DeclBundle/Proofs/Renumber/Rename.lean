import DeclBundle.Proofs.Names.Binders
import DeclBundle.Proofs.Reference.Places
import DeclBundle.Proofs.Renumber.Names

/-!
# Final names under other numbers

What a tree becomes under its final names does not depend on the identities in it, nor on the
numbers of the modules that took the names around it (`Rename.declaration_renumber`). Of the import
types only those count that stand in the tree, so two sites may differ in what becomes of others.
-/

namespace DeclBundle

/-- Two sites that differ in the numbers of modules, and in the import types of modules outside of
`K`. -/
structure Site.Like (ρ : Renumbering) (K : String → Prop) (s s' : Site) : Prop where
  outer : s'.outer = s.outer
  importRoot : ∀ {specifier}, K specifier →
    s'.importRoot specifier = s.importRoot specifier
  scopes : s'.scopes = s.scopes.renumber ρ
  locals : s'.locals = s.locals

/-- The import types at places name modules in `K`. -/
def Spot.ImportsIn (K : String → Prop) (ps : List Spot) : Prop :=
  ∀ p ∈ ps, ∀ specifier qualifier isTypeOf,
    p.mention = .importType specifier qualifier isTypeOf → K specifier

namespace Spot

variable {K : String → Prop}

theorem importsIn_append {ps qs : List Spot} :
    ImportsIn K (ps ++ qs) ↔ ImportsIn K ps ∧ ImportsIn K qs := List.forall_mem_append

theorem importsIn_map_under {l : Layer} {ps : List Spot} :
    ImportsIn K (ps.map (under l)) ↔ ImportsIn K ps := List.forall_mem_map

theorem importsIn_signature {tps : List TypeParameter} {ps : List Parameter}
    {own body : List Spot} :
    ImportsIn K (signature tps ps own body) ↔ ImportsIn K own ∧ ImportsIn K body := by
  rw [signature, importsIn_map_under, importsIn_append, importsIn_map_under]

end Spot

/-! ## Sites -/

namespace Site

variable {ρ : Renumbering} {K : String → Prop} {s s' : Site}

theorem bindAll_renumber : ∀ (names : List String) (scopes : Scopes),
    bindAll (scopes.renumber ρ) names = Prod.map id (Scopes.renumber ρ) (bindAll scopes names)
  | [], _ => rfl
  | given :: names, scopes => by
    have hb : (scopes.renumber ρ).bind given none
        = Prod.map id (Scopes.renumber ρ) (scopes.bind given none) :=
      scopes.bind_renumber ρ given none
    simp only [bindAll, hb, Prod.map_fst, Prod.map_snd, bindAll_renumber names, id_eq,
      Prod.map_apply]

theorem bindMember_renumber (captured : List String) (state : Table String String × Scopes)
    (given : String) : bindMember captured (Prod.map id (Scopes.renumber ρ) state) given
      = Prod.map id (Scopes.renumber ρ) (bindMember captured state given) := by
  have hb : (state.2.renumber ρ).bind given none
      = Prod.map id (Scopes.renumber ρ) (state.2.bind given none) :=
    state.2.bind_renumber ρ given none
  simp only [bindMember, Prod.map_fst, Prod.map_snd, id_eq, hb]
  split <;> rfl

theorem bindCaptured_renumber (captured : List String) (scopes : Scopes) (members : List String) :
    bindCaptured captured (scopes.renumber ρ) members
      = Prod.map id (Scopes.renumber ρ) (bindCaptured captured scopes members) := by
  show members.foldl (bindMember captured) (Prod.map id (Scopes.renumber ρ) ({}, scopes))
    = Prod.map id (Scopes.renumber ρ) (members.foldl (bindMember captured) ({}, scopes))
  exact List.foldl_hom _ (bindMember_renumber captured)

theorem reserveAll_renumber (names : List String) (scopes : Scopes) :
    names.foldl Scopes.reserveInScope (scopes.renumber ρ)
      = (names.foldl Scopes.reserveInScope scopes).renumber ρ :=
  List.foldl_hom (Scopes.renumber ρ) fun scopes name => scopes.reserveInScope_renumber ρ name

namespace Like

variable (h : s.Like ρ K s')
include h

theorem finalName? : s'.finalName? = s.finalName? := by
  funext name space
  rw [Site.finalName?, Site.local?, h.locals, h.outer, Site.finalName?, Site.local?]

theorem reference? {r : Reference} (hr : ∀ specifier qualifier,
    r = .importType specifier qualifier → K specifier) : s'.reference? r = s.reference? r := by
  cases r with
  | name name => rw [Site.reference?, h.finalName?, Site.reference?]
  | importType specifier qualifier =>
    rw [Site.reference?, h.importRoot (hr specifier qualifier rfl), Site.reference?]

theorem addLocals (space : Space) (bindings : List (String × String)) :
    (s.addLocals space bindings).Like ρ K (s'.addLocals space bindings) :=
  { h with locals := congrArg (_ ++ ·) h.locals }

theorem withScopes {scopes scopes' : Scopes} (hs : scopes' = scopes.renumber ρ) :
    Like ρ K { s with scopes } { s' with scopes := scopes' } :=
  { h with scopes := hs }

theorem bindAll_enterTypes (names : List String) : bindAll s'.scopes.push names
    = Prod.map id (Scopes.renumber ρ) (bindAll s.scopes.push names) := by
  rw [h.scopes]
  exact bindAll_renumber names s.scopes.push

theorem names_enterTypes (names : List String) :
    (s'.enterTypes names).1 = (s.enterTypes names).1 := by
  simp only [Site.enterTypes, h.bindAll_enterTypes, Prod.map_fst, id_eq]

theorem enterTypes (names : List String) :
    (s.enterTypes names).2.Like ρ K (s'.enterTypes names).2 := by
  simp only [Site.enterTypes, h.bindAll_enterTypes, Prod.map_fst, Prod.map_snd, id_eq]
  exact (h.withScopes rfl).addLocals .type _

theorem enterParameters (names : List String) :
    (s.enterParameters names).Like ρ K (s'.enterParameters names) :=
  h.addLocals .value _

theorem bindCaptured_enterBody (captured members : List String) :
    bindCaptured captured
        ((members.filter (· ∉ captured)).foldl Scopes.reserveInScope s'.scopes.push) members
      = Prod.map id (Scopes.renumber ρ) (bindCaptured captured
          ((members.filter (· ∉ captured)).foldl Scopes.reserveInScope s.scopes.push) members) := by
  have hr : (members.filter (· ∉ captured)).foldl Scopes.reserveInScope s'.scopes.push
      = ((members.filter (· ∉ captured)).foldl Scopes.reserveInScope s.scopes.push).renumber ρ := by
    rw [h.scopes]
    exact reserveAll_renumber _ s.scopes.push
  rw [hr, bindCaptured_renumber]

theorem renamed_enterBody (captured members : List String) :
    (s'.enterBody captured members).1 = (s.enterBody captured members).1 := by
  simp only [Site.enterBody, h.bindCaptured_enterBody, Prod.map_fst, id_eq]

theorem enterBody (captured members : List String) :
    (s.enterBody captured members).2.Like ρ K (s'.enterBody captured members).2 := by
  simp only [Site.enterBody, h.bindCaptured_enterBody, Prod.map_fst, Prod.map_snd, id_eq]
  exact (h.withScopes rfl).addLocals .both _

end Like

end Site

namespace Rename

open TypeExpr

variable (f : DeclId → DeclId) {ρ : Renumbering} {K : String → Prop} {s s' : Site}

/-! ## Types -/

section
variable (h : s.Like ρ K s')
include h

theorem entity_congr (space : Space) (e : Entity) : entity s' space e = entity s space e := by
  rw [entity, h.finalName?, entity]

theorem plainName_congr : plainName s' = plainName s := by
  funext name
  rw [plainName, h.finalName?, plainName]

theorem tokens_congr (ts : List Token) : tokens s' ts = tokens s ts := by
  rw [tokens, plainName_congr h, tokens]

theorem propertyName_congr (name : PropertyName) : propertyName s' name = propertyName s name := by
  cases name with
  | computed e => rw [propertyName, entity_congr h, propertyName]
  | _ => rfl

theorem importType_renumber {argument : String} (hK : K argument) (qualifier : Option Entity)
    (ts : List TypeExpr) (isTypeOf : Bool) :
    importType s' argument qualifier (renumberList f ts) isTypeOf
      = (importType s argument qualifier ts isTypeOf).renumber f := by
  simp only [importType, h.importRoot hK]
  generalize (if qualifier.isNone && !isTypeOf then none
    else s.importRoot argument (qualifier.map Entity.root)) = root
  cases root with
  | none => rfl
  | some name => cases isTypeOf <;> rfl

end

mutual
theorem type_renumber : ∀ (t : TypeExpr) {s s' : Site}, s.Like ρ K s' →
    Spot.ImportsIn K (Spot.inType t) → (type s' (t.renumber f)).value = (type s t).value.renumber f
  | .keyword _, _, _, _, _ | .literal _, _, _, _, _ => rfl
  | .verbatim ts, _, _, h, _ => by
    simp only [type, TypeExpr.renumber, Named.value_pure, tokens_congr h]
  | .reference _ ts, _, _, h, hi | .query _ ts, _, _, h, hi => by
    simp only [Spot.inType, Spot.importsIn_append] at hi
    simp only [type, TypeExpr.renumber, Named.value_bind, Named.value_pure, entity_congr h,
      types_renumber ts h hi.2]
  | .importType _ _ ts _, _, _, h, hi => by
    have hts : Spot.ImportsIn K (Spot.inTypes ts) := (List.forall_mem_cons.1 hi).2
    simp only [type, TypeExpr.renumber, Named.value_bind, Named.value_pure,
      types_renumber ts h hts]
    exact importType_renumber f h ((List.forall_mem_cons.1 hi).1 _ _ _ rfl) _ _ _
  | .array t, _, _, h, hi | .operator _ t, _, _, h, hi | .parenthesized t, _, _, h, hi => by
    simp only [type, TypeExpr.renumber, Named.value_bind, Named.value_pure, type_renumber t h hi]
  | .tuple es, _, _, h, hi => by
    simp only [type, TypeExpr.renumber, Named.value_bind, Named.value_pure,
      elements_renumber es h hi]
  | .union ts, _, _, h, hi | .intersection ts, _, _, h, hi => by
    simp only [type, TypeExpr.renumber, Named.value_bind, Named.value_pure, types_renumber ts h hi]
  | .function tps ps t, _, _, h, hi | .construct _ tps ps t, _, _, h, hi => by
    simp only [Spot.inType, Spot.importsIn_signature, Spot.importsIn_append] at hi
    have hin := h.enterTypes (tps.map (·.name))
    have hbody := hin.enterParameters (ps.map (·.name))
    simp only [type, TypeExpr.renumber, Named.value_bind, Named.value_pure,
      names_renumberTypeParameters, names_renumberParameters, h.names_enterTypes,
      typeParameters_renumber tps _ hin hi.1, parameters_renumber ps hbody hi.2.1,
      type_renumber t hbody hi.2.2]
  | .object ms, _, _, h, hi => by
    simp only [type, TypeExpr.renumber, Named.value_bind, Named.value_pure,
      members_renumber ms h hi]
  | .indexed t u, _, _, h, hi => by
    simp only [Spot.inType, Spot.importsIn_append] at hi
    simp only [type, TypeExpr.renumber, Named.value_bind, Named.value_pure,
      type_renumber t h hi.1, type_renumber u h hi.2]
  | .conditional t u v w, _, _, h, hi => by
    simp only [Spot.inType, Spot.importsIn_append, Spot.importsIn_map_under] at hi
    have hin := h.enterTypes u.inferredNames
    simp only [type, TypeExpr.renumber, Named.value_bind, Named.value_pure, inferredNames_renumber,
      type_renumber t h hi.1.1, type_renumber u hin hi.1.2.1, type_renumber v hin hi.1.2.2,
      type_renumber w h hi.2]
  | .infer ⟨_, _, t, u, _⟩, _, _, h, hi => by
    simp only [Spot.inType, Spot.inTypeParameter, Spot.importsIn_append] at hi
    simp only [type, TypeExpr.renumber, renumberOne, Named.value_bind, Named.value_pure,
      h.finalName?, option_renumber t h hi.1, option_renumber u h hi.2]
  | .mapped ⟨_, name, t, u, _⟩ v _ _ w, _, _, h, hi => by
    simp only [Spot.inType, Spot.inTypeParameter, Spot.importsIn_append,
      Spot.importsIn_map_under] at hi
    have hin := h.enterTypes [name]
    simp only [type, TypeExpr.renumber, renumberOne, Named.value_bind, Named.value_pure,
      h.names_enterTypes, option_renumber t h hi.1.1, option_renumber u h hi.1.2,
      option_renumber v hin hi.2.1, option_renumber w hin hi.2.2]
  | .predicate _ _ t, _, _, h, hi => by
    simp only [type, TypeExpr.renumber, Named.value_bind, Named.value_pure, option_renumber t h hi]
  | .template _ ss, _, _, h, hi => by
    simp only [type, TypeExpr.renumber, Named.value_bind, Named.value_pure, spans_renumber ss h hi]

theorem option_renumber : ∀ (t : Option TypeExpr) {s s' : Site}, s.Like ρ K s' →
    Spot.ImportsIn K (Spot.inOption t) →
      (option s' (renumberOption f t)).value = renumberOption f (option s t).value
  | none, _, _, _, _ => rfl
  | some t, _, _, h, hi => congrArg some (type_renumber t h hi)

theorem types_renumber : ∀ (ts : List TypeExpr) {s s' : Site}, s.Like ρ K s' →
    Spot.ImportsIn K (Spot.inTypes ts) →
      (types s' (renumberList f ts)).value = renumberList f (types s ts).value
  | [], _, _, _, _ => rfl
  | t :: ts, _, _, h, hi => by
    simp only [Spot.inTypes, Spot.importsIn_append] at hi
    simp only [types, renumberList, Named.value_bind, Named.value_pure, type_renumber t h hi.1,
      types_renumber ts h hi.2]

theorem typeParameters_renumber : ∀ (ps : List TypeParameter) (names : List String) {s s' : Site},
    s.Like ρ K s' → Spot.ImportsIn K (Spot.inTypeParameters ps) →
      (typeParameters s' names (renumberTypeParameters f ps)).value
        = renumberTypeParameters f (typeParameters s names ps).value
  | [], _, _, _, _, _ => rfl
  | ⟨_, _, t, u, _⟩ :: ps, names, _, _, h, hi => by
    simp only [Spot.inTypeParameters, Spot.inTypeParameter, Spot.importsIn_append] at hi
    simp only [typeParameters, renumberTypeParameters, renumberOne, Named.value_bind,
      Named.value_pure, option_renumber t h hi.1.1, option_renumber u h hi.1.2,
      typeParameters_renumber ps names.tail h hi.2]

theorem parameters_renumber : ∀ (ps : List Parameter) {s s' : Site}, s.Like ρ K s' →
    Spot.ImportsIn K (Spot.inParameters ps) →
      (parameters s' (renumberParameters f ps)).value = renumberParameters f (parameters s ps).value
  | [], _, _, _, _ => rfl
  | ⟨_, _, _, _, t⟩ :: ps, _, _, h, hi => by
    simp only [Spot.inParameters, Spot.importsIn_append] at hi
    simp only [parameters, renumberParameters, Named.value_bind, Named.value_pure,
      option_renumber t h hi.1, parameters_renumber ps h hi.2]

theorem elements_renumber : ∀ (es : List TupleElement) {s s' : Site}, s.Like ρ K s' →
    Spot.ImportsIn K (Spot.inElements es) →
      (elements s' (renumberElements f es)).value = renumberElements f (elements s es).value
  | [], _, _, _, _ => rfl
  | ⟨_, _, _, t⟩ :: es, _, _, h, hi => by
    simp only [Spot.inElements, Spot.importsIn_append] at hi
    simp only [elements, renumberElements, Named.value_bind, Named.value_pure,
      type_renumber t h hi.1, elements_renumber es h hi.2]

theorem spans_renumber : ∀ (ss : List TemplateSpan) {s s' : Site}, s.Like ρ K s' →
    Spot.ImportsIn K (Spot.inSpans ss) →
      (spans s' (renumberSpans f ss)).value = renumberSpans f (spans s ss).value
  | [], _, _, _, _ => rfl
  | ⟨t, _⟩ :: ss, _, _, h, hi => by
    simp only [Spot.inSpans, Spot.importsIn_append] at hi
    simp only [spans, renumberSpans, Named.value_bind, Named.value_pure, type_renumber t h hi.1,
      spans_renumber ss h hi.2]

theorem members_renumber : ∀ (ms : List Member) {s s' : Site}, s.Like ρ K s' →
    Spot.ImportsIn K (Spot.inMembers ms) →
      (members s' (renumberMembers f ms)).value = renumberMembers f (members s ms).value
  | [], _, _, _, _ => rfl
  | m :: ms, _, _, h, hi => by
    simp only [Spot.inMembers, Spot.importsIn_append] at hi
    simp only [members, renumberMembers, Named.value_bind, Named.value_pure,
      member_renumber m h hi.1, members_renumber ms h hi.2]

theorem member_renumber : ∀ (m : Member) {s s' : Site}, s.Like ρ K s' →
    Spot.ImportsIn K (Spot.inMember m) →
      (member s' (renumberMember f m)).value = renumberMember f (member s m).value
  | .property _ _ _ t, _, _, h, hi | .getter _ _ t, _, _, h, hi => by
    simp only [Spot.inMember, Spot.importsIn_append] at hi
    simp only [member, renumberMember, Named.value_bind, Named.value_pure, propertyName_congr h,
      option_renumber t h hi.2]
  | .method _ _ _ tps ps t, _, _, h, hi => by
    simp only [Spot.inMember, Spot.importsIn_signature, Spot.importsIn_append] at hi
    have hin := h.enterTypes (tps.map (·.name))
    have hbody := hin.enterParameters (ps.map (·.name))
    simp only [member, renumberMember, Named.value_bind, Named.value_pure, propertyName_congr h,
      names_renumberTypeParameters, names_renumberParameters, h.names_enterTypes,
      typeParameters_renumber tps _ hin hi.2.1, parameters_renumber ps hbody hi.2.2.1,
      option_renumber t hbody hi.2.2.2]
  | .call tps ps t, _, _, h, hi | .construct tps ps t, _, _, h, hi => by
    simp only [Spot.inMember, Spot.importsIn_signature, Spot.importsIn_append] at hi
    have hin := h.enterTypes (tps.map (·.name))
    have hbody := hin.enterParameters (ps.map (·.name))
    simp only [member, renumberMember, Named.value_bind, Named.value_pure,
      names_renumberTypeParameters, names_renumberParameters, h.names_enterTypes,
      typeParameters_renumber tps _ hin hi.1, parameters_renumber ps hbody hi.2.1,
      option_renumber t hbody hi.2.2]
  | .index _ ps t, _, _, h, hi => by
    simp only [Spot.inMember, Spot.importsIn_append] at hi
    simp only [member, renumberMember, Named.value_bind, Named.value_pure,
      parameters_renumber ps h hi.1, type_renumber t h hi.2]
  | .initializer _ ps, _, _, h, hi => by
    simp only [member, renumberMember, Named.value_bind, Named.value_pure,
      parameters_renumber ps h hi]
  | .setter _ _ ps, _, _, h, hi => by
    simp only [Spot.inMember, Spot.importsIn_append] at hi
    simp only [member, renumberMember, Named.value_bind, Named.value_pure, propertyName_congr h,
      parameters_renumber ps h hi.2]
end

end Rename

end DeclBundle
