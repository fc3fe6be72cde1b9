import DeclBundle.Proofs.Names.Around
import DeclBundle.Proofs.Names.Asking
import DeclBundle.Proofs.Names.Naming
import DeclBundle.Proofs.Tree.Parts

/-!
# What renaming asks for

Two walks decide which names of a declaration lie outside of it: the one that lists its references
under binders, and renaming, which carries local bindings and renames them as it goes. They agree
(`Naming.asked_iff_reported`): renaming asks for every reference and, besides, at most for the blank
name and for the names of `infer` nodes. So a declaration becomes the same wherever its references
become the same (`Rename.declaration_congr`).

A namespace asks for the references of its body once before its members are renamed, which adds
nothing: what the body refers to on its own and no local binding has, it refers to where it stands
(`Inquire.reported_of_captured`).
-/

namespace DeclBundle

namespace Part

/-- The name of an `infer` node. -/
def infers : Part → List String
  | .type (.infer key) => [key.name]
  | _ => []

/-- The names of the `infer` nodes in a node. -/
def inferNames (p : Part) : List String := p.parts.flatMap infers

theorem inferNames_eq (p : Part) : p.inferNames = p.infers ++ p.children.flatMap inferNames := by
  rw [inferNames, parts_eq, List.flatMap_cons, List.flatMap_assoc]
  rfl

end Part

/-- What is asked and what is reported: all that is reported is asked, and what is asked besides is
blank or one of the names. -/
structure Agrees (names : List String) (asked reported : List Reference) : Prop where
  asks : ∀ r ∈ reported, r ∈ asked
  reports : ∀ r ∈ asked, r ∈ reported ∨ ∃ name ∈ "" :: names, r = .name name

namespace Agrees

variable {names names' : List String} {asked asked' reported reported' : List Reference}

theorem nil : Agrees [] [] [] := ⟨fun _ h => h, fun _ h => .inl h⟩

theorem one (r : Reference) : Agrees [] [r] [r] := ⟨fun _ h => h, fun _ h => .inl h⟩

theorem excused {name : String} (h : name ∈ "" :: names) : Agrees names [.name name] [] where
  asks _ hr := nomatch hr
  reports _ hr := .inr ⟨name, h, List.mem_singleton.1 hr⟩

theorem exchange (h : Agrees names (asked ++ asked') reported) :
    Agrees names (asked' ++ asked) reported where
  asks r hr := List.mem_append.2 (List.mem_append.1 (h.asks r hr)).symm
  reports r hr := h.reports r (List.mem_append.2 (List.mem_append.1 hr).symm)

theorem append (h : Agrees names asked reported) (h' : Agrees names' asked' reported') :
    Agrees (names ++ names') (asked ++ asked') (reported ++ reported') where
  asks r hr := List.mem_append.2 ((List.mem_append.1 hr).imp (h.asks r) (h'.asks r))
  reports r hr := by
    rcases List.mem_append.1 hr with hr | hr
    · refine (h.reports r hr).imp (List.mem_append_left _) ?_
      rintro ⟨name, hn, rfl⟩
      exact ⟨name, by grind, rfl⟩
    · refine (h'.reports r hr).imp (List.mem_append_right _) ?_
      rintro ⟨name, hn, rfl⟩
      exact ⟨name, by grind, rfl⟩

/-- Asking also for what is reported changes nothing. -/
theorem again (h : Agrees names asked reported) (h' : ∀ r ∈ asked', r ∈ reported) :
    Agrees names (asked' ++ asked) reported where
  asks r hr := List.mem_append_right _ (h.asks r hr)
  reports r hr := (List.mem_append.1 hr).elim (fun hr => .inl (h' r hr)) (h.reports r)

end Agrees

namespace Inquire

variable {o : Site}

@[simp] theorem blind_enterTypes (s : Site) (names : List String) :
    s.blind.enterTypes names = ((s.enterTypes names).1, (s.enterTypes names).2.blind) := rfl

@[simp] theorem blind_enterParameters (s : Site) (names : List String) :
    s.blind.enterParameters names = (s.enterParameters names).blind := rfl

@[simp] theorem blind_enterBody (s : Site) (captured members : List String) :
    s.blind.enterBody captured members
      = ((s.enterBody captured members).1, (s.enterBody captured members).2.blind) := rfl

theorem answering_answer {f : Frame} (h : Frame.Follows o f) :
    f.site.blind.answering o.answer = f.site := by
  rw [Site.blind, Site.answering, Site.answering]
  exact congrArg₂ (fun outer importRoot => { f.site with outer, importRoot })
    h.outer.symm h.importRoot.symm

theorem agrees_use {f : Frame} (h : Frame.Follows o f) (space : Space) (name : String) :
    Agrees [] ((finalName? f.site.blind name space).asked o.answer)
      (Occurrence.references (Free.useName f.before space name)) := by
  rw [Spot.references_useName]
  cases hb : Free.isBound f.before name space with
  | true =>
    obtain ⟨l, hl⟩ := h.local?_of_bound hb
    have hl' : f.site.blind.local? name space = some l := hl
    simp only [finalName?, hl', Asking.asked_pure, Mention.reportedName, hb, Bool.or_true, if_true]
    exact .nil
  | false =>
    have hl : f.site.blind.local? name space = none := h.local?_of_not_bound hb
    simp only [finalName?, hl, Asking.asked_question, Mention.reportedName, hb, Bool.or_false,
      decide_eq_true_eq]
    split
    · exact .excused (by simp [*])
    · exact .one _

theorem agrees_entity {f : Frame} (h : Frame.Follows o f) (space : Space) (e : Entity) :
    Agrees [] ((entity f.site.blind space e).asked o.answer)
      (Occurrence.references (Free.useRoot f.before space e)) := by
  rw [entity, Asking.asked_bind]
  split <;>
  · rw [Asking.asked_pure, List.append_nil]
    exact agrees_use h space e.root

theorem agrees_plainName {f : Frame} (h : Frame.Follows o f) (name : String) :
    Agrees [] ((plainName f.site.blind name).asked o.answer)
      (Occurrence.references (Free.useName f.before .both name)) := by
  simpa [plainName] using agrees_use h .both name

theorem agrees_propertyName {f : Frame} (h : Frame.Follows o f) (name : PropertyName) :
    Agrees [] ((propertyName f.site.blind name).asked o.answer)
      (Occurrence.references (Free.usePropertyName f.before name)) := by
  cases name with
  | computed e =>
    simp only [propertyName, Free.usePropertyName]
    split
    · exact .nil
    · simpa using agrees_entity h .value e
  | _ => exact .nil

theorem asked_importType (argument : String) (qualifier : Option Entity)
    (arguments : List TypeExpr) (isTypeOf : Bool) (a : Reference → Option String) :
    (importType argument qualifier arguments isTypeOf).asked a
      = [.importType argument (qualifier.map Entity.root)] := by
  rw [importType, Asking.asked_bind]
  split <;> rfl

theorem agrees_tokens {f : Frame} (h : Frame.Follows o f) : ∀ ts : List Token,
    Agrees [] ((tokens f.site.blind ts).asked o.answer)
      (Occurrence.references (Free.useTokens f.before ts))
  | [] => .nil
  | .text _ :: ts => by
    simpa [tokens, Free.useTokens, Token.names] using agrees_tokens h ts
  | .identifier name :: ts => by
    simpa [tokens, Free.useTokens, Token.names] using
      (agrees_plainName h name).append (agrees_tokens h ts)

mutual
theorem agrees_type {f : Frame} (h : Frame.Follows o f) : ∀ t : TypeExpr,
    Agrees (Part.type t).inferNames ((type f.site.blind t).asked o.answer)
      (Occurrence.references (Free.inType f.before t))
  | .keyword _ | .literal _ => by
    rw [Part.inferNames_eq]
    exact .nil
  | .reference name arguments => by
    rw [Part.inferNames_eq]
    simpa [Part.infers, type, Free.inType] using
      (agrees_entity h .type name).append (agrees_types h arguments)
  | .query name arguments => by
    rw [Part.inferNames_eq]
    simpa [Part.infers, type, Free.inType] using
      (agrees_entity h .value name).append (agrees_types h arguments)
  | .array t | .operator _ t | .parenthesized t => by
    rw [Part.inferNames_eq]
    simpa [Part.infers, type, Free.inType] using agrees_type h t
  | .tuple es => by
    rw [Part.inferNames_eq]
    simpa [Part.infers, type, Free.inType] using agrees_elements h es
  | .union ts | .intersection ts => by
    rw [Part.inferNames_eq]
    simpa [Part.infers, type, Free.inType] using agrees_types h ts
  | .function tps ps result | .construct _ tps ps result => by
    rw [Part.inferNames_eq]
    have ht := h.enter (.types (tps.map (·.name)))
    have hp := ht.enter (.parameters (ps.map (·.name)))
    simpa [Part.infers, type, Free.inType, Frame.enter, Spot.binders_types,
      Spot.binders_parameters] using
      (agrees_typeParameters ht (f.site.enterTypes _).1 tps).append
        ((agrees_parameters hp ps).append (agrees_type hp result))
  | .object ms => by
    rw [Part.inferNames_eq]
    simpa [Part.infers, type, Free.inType] using agrees_members h ms
  | .indexed object index => by
    rw [Part.inferNames_eq]
    simpa [Part.infers, type, Free.inType] using (agrees_type h object).append (agrees_type h index)
  | .conditional check limit onTrue onFalse => by
    rw [Part.inferNames_eq]
    have hi := h.enter (.inferred limit)
    simpa [Part.infers, type, Free.inType, Frame.enter, Layer.binders] using
      (agrees_type h check).append ((agrees_type hi limit).append
        ((agrees_type hi onTrue).append (agrees_type h onFalse)))
  | .infer ⟨_, name, constraint, fallback, _⟩ => by
    rw [Part.inferNames_eq]
    have hn : Agrees [name] ((finalName? f.site.blind name .type).asked o.answer) [] := by
      rw [finalName?]
      split
      · exact ⟨fun _ hr => hr, fun _ hr => .inl hr⟩
      · exact .excused (by simp)
    have hc := (agrees_option h constraint).append (agrees_option h fallback)
    simpa [Part.infers, type, Free.inType, Free.inTypeParameter, Part.inferNames_eq
      (.typeParameter _)] using hn.append hc
  | .mapped ⟨_, key, constraint, fallback, _⟩ nameType _ _ target => by
    rw [Part.inferNames_eq]
    have hk := h.enter (.types [key])
    simpa [Part.infers, type, Free.inType, Free.inTypeParameter, Frame.enter, Layer.binders,
      Part.inferNames_eq (.typeParameter _)] using
      (agrees_option h constraint).append ((agrees_option h fallback).append
        ((agrees_option hk nameType).append (agrees_option hk target)))
  | .importType argument qualifier arguments isTypeOf => by
    rw [Part.inferNames_eq]
    simpa [Part.infers, type, Free.inType, asked_importType] using
      ((Agrees.one (.importType argument (qualifier.map Entity.root))).append
        (agrees_types h arguments)).exchange
  | .predicate _ _ target => by
    rw [Part.inferNames_eq]
    simpa [Part.infers, type, Free.inType] using agrees_option h target
  | .template _ ss => by
    rw [Part.inferNames_eq]
    simpa [Part.infers, type, Free.inType] using agrees_spans h ss
  | .verbatim ts => by
    rw [Part.inferNames_eq]
    simpa [Part.infers, type, Free.inType] using agrees_tokens h ts

theorem agrees_option {f : Frame} (h : Frame.Follows o f) : ∀ t : Option TypeExpr,
    Agrees ((t.toList.map .type).flatMap Part.inferNames)
      ((option f.site.blind t).asked o.answer) (Occurrence.references (Free.inOption f.before t))
  | none => .nil
  | some t => by simpa [option, Free.inOption] using agrees_type h t

theorem agrees_types {f : Frame} (h : Frame.Follows o f) : ∀ ts : List TypeExpr,
    Agrees ((ts.map .type).flatMap Part.inferNames) ((types f.site.blind ts).asked o.answer)
      (Occurrence.references (Free.inTypes f.before ts))
  | [] => .nil
  | t :: ts => by
    simpa [types, Free.inTypes] using (agrees_type h t).append (agrees_types h ts)

theorem agrees_typeParameters {f : Frame} (h : Frame.Follows o f) (names : List String) :
    ∀ ps : List TypeParameter,
      Agrees ((ps.map .typeParameter).flatMap Part.inferNames)
        ((typeParameters f.site.blind names ps).asked o.answer)
        (Occurrence.references (Free.inTypeParameters f.before ps))
  | [] => .nil
  | ⟨_, _, constraint, fallback, _⟩ :: ps => by
    simpa [typeParameters, Free.inTypeParameters, Free.inTypeParameter,
      Part.inferNames_eq (.typeParameter ⟨_, _, constraint, fallback, _⟩), Part.infers] using
      (agrees_option h constraint).append ((agrees_option h fallback).append
        (agrees_typeParameters h names.tail ps))

theorem agrees_parameters {f : Frame} (h : Frame.Follows o f) : ∀ ps : List Parameter,
    Agrees ((ps.map .parameter).flatMap Part.inferNames)
      ((parameters f.site.blind ps).asked o.answer)
      (Occurrence.references (Free.inParameters f.before ps))
  | [] => .nil
  | ⟨_, _, _, _, ascription⟩ :: ps => by
    simpa [parameters, Free.inParameters, Part.inferNames_eq (.parameter ⟨_, _, _, _, ascription⟩),
      Part.infers] using (agrees_option h ascription).append (agrees_parameters h ps)

theorem agrees_elements {f : Frame} (h : Frame.Follows o f) : ∀ es : List TupleElement,
    Agrees ((es.map .element).flatMap Part.inferNames) ((elements f.site.blind es).asked o.answer)
      (Occurrence.references (Free.inElements f.before es))
  | [] => .nil
  | ⟨_, _, _, element⟩ :: es => by
    simpa [elements, Free.inElements, Part.inferNames_eq (.element ⟨_, _, _, element⟩),
      Part.infers] using (agrees_type h element).append (agrees_elements h es)

theorem agrees_spans {f : Frame} (h : Frame.Follows o f) : ∀ ss : List TemplateSpan,
    Agrees ((ss.map .span).flatMap Part.inferNames) ((spans f.site.blind ss).asked o.answer)
      (Occurrence.references (Free.inSpans f.before ss))
  | [] => .nil
  | ⟨t, _⟩ :: ss => by
    simpa [spans, Free.inSpans, Part.inferNames_eq (.span ⟨t, _⟩), Part.infers] using
      (agrees_type h t).append (agrees_spans h ss)

theorem agrees_members {f : Frame} (h : Frame.Follows o f) : ∀ ms : List Member,
    Agrees ((ms.map .member).flatMap Part.inferNames) ((members f.site.blind ms).asked o.answer)
      (Occurrence.references (Free.inMembers f.before ms))
  | [] => .nil
  | m :: ms => by
    simpa [members, Free.inMembers] using (agrees_member h m).append (agrees_members h ms)

theorem agrees_member {f : Frame} (h : Frame.Follows o f) : ∀ m : Member,
    Agrees (Part.member m).inferNames ((member f.site.blind m).asked o.answer)
      (Occurrence.references (Free.inMember f.before m))
  | .property name _ _ ascription => by
    rw [Part.inferNames_eq]
    simpa [Part.infers, member, Free.inMember] using
      (agrees_propertyName h name).append (agrees_option h ascription)
  | .method name _ _ tps ps result => by
    rw [Part.inferNames_eq]
    have ht := h.enter (.types (tps.map (·.name)))
    have hp := ht.enter (.parameters (ps.map (·.name)))
    simpa [Part.infers, member, Free.inMember, Frame.enter, Spot.binders_types,
      Spot.binders_parameters] using
      (agrees_propertyName h name).append
        ((agrees_typeParameters ht (f.site.enterTypes _).1 tps).append
          ((agrees_parameters hp ps).append (agrees_option hp result)))
  | .call tps ps result | .construct tps ps result => by
    rw [Part.inferNames_eq]
    have ht := h.enter (.types (tps.map (·.name)))
    have hp := ht.enter (.parameters (ps.map (·.name)))
    simpa [Part.infers, member, Free.inMember, Frame.enter, Spot.binders_types,
      Spot.binders_parameters] using
      (agrees_typeParameters ht (f.site.enterTypes _).1 tps).append
        ((agrees_parameters hp ps).append (agrees_option hp result))
  | .index _ ps ascription => by
    rw [Part.inferNames_eq]
    simpa [Part.infers, member, Free.inMember] using
      (agrees_parameters h ps).append (agrees_type h ascription)
  | .initializer _ ps => by
    rw [Part.inferNames_eq]
    simpa [Part.infers, member, Free.inMember] using agrees_parameters h ps
  | .getter name _ result => by
    rw [Part.inferNames_eq]
    simpa [Part.infers, member, Free.inMember] using
      (agrees_propertyName h name).append (agrees_option h result)
  | .setter name _ ps => by
    rw [Part.inferNames_eq]
    simpa [Part.infers, member, Free.inMember] using
      (agrees_propertyName h name).append (agrees_parameters h ps)
end

theorem agrees_heritages {f : Frame} (h : Frame.Follows o f) : ∀ hs : List Heritage,
    Agrees ((hs.map .heritage).flatMap Part.inferNames) ((heritages f.site.blind hs).asked o.answer)
      (Occurrence.references (hs.flatMap (Free.inHeritage f.before)))
  | [] => .nil
  | ⟨expression, arguments⟩ :: hs => by
    simpa [heritages, heritage, Free.inHeritage, Part.infers,
      Part.inferNames_eq (.heritage ⟨expression, arguments⟩)] using
      (agrees_entity h .type expression).append
        ((agrees_types h arguments).append (agrees_heritages h hs))

theorem agrees_declarators {f : Frame} (h : Frame.Follows o f) : ∀ ds : List Declarator,
    Agrees ((ds.map .declarator).flatMap Part.inferNames)
      ((declarators f.site.blind ds).asked o.answer)
      (Occurrence.references (ds.flatMap fun d => Free.inOption f.before d.ascription))
  | [] => .nil
  | d :: ds => by
    simpa [declarators, Part.infers, Part.inferNames_eq (.declarator d)] using
      (agrees_option h d.ascription).append (agrees_declarators h ds)

theorem agrees_specifiers {f : Frame} (h : Frame.Follows o f) : ∀ xs : List ExportSpecifier,
    Agrees [] ((specifiers f.site.blind xs).asked o.answer)
      (Occurrence.references (xs.flatMap fun x => Free.useName f.before .both x.binding))
  | [] => .nil
  | x :: xs => by
    simpa [specifiers] using (agrees_plainName h x.binding).append (agrees_specifiers h xs)

/-! ## Namespace bodies -/

theorem asked_reference? {s : Site} {a : Reference → Option String} {r r' : Reference}
    (h : r' ∈ (reference? s r).asked a) :
    r' = r ∧ ∀ name, r = .name name → s.local? name .both = none := by
  cases r with
  | name name =>
    rw [reference?, finalName?] at h
    split at h
    · cases h
    · rename_i hl
      refine ⟨List.mem_singleton.1 h, fun name hn => ?_⟩
      cases hn
      exact hl
  | importType specifier qualifier =>
    refine ⟨List.mem_singleton.1 h, fun name hn => ?_⟩
    cases hn

theorem mem_asked_finalNames {s : Site} {a : Reference → Option String} {r : Reference}
    {rs : List Reference} (h : r ∈ (finalNames s rs).asked a) :
    r ∈ rs ∧ ∀ name, r = .name name → s.local? name .both = none := by
  induction rs with
  | nil => cases h
  | cons r' rs ih =>
    simp only [finalNames, Asking.asked_bind, Asking.asked_pure, List.append_nil,
      List.mem_append] at h
    rcases h with h | h
    · obtain ⟨rfl, hl⟩ := asked_reference? h
      exact ⟨List.mem_cons_self, hl⟩
    · exact (ih h).imp_left (List.mem_cons_of_mem _)

/-- What a body refers to on its own and no local binding has, it refers to where it stands. -/
theorem reported_of_captured {f : Frame} (h : Frame.Follows o f) {body : List Statement}
    {r : Reference} (hr : r ∈ (capturedNames f.site.blind body).asked o.answer) :
    r ∈ Occurrence.references (Free.inBody (Free.bodyBinders body ++ f.before) body) := by
  obtain ⟨hmem, hl⟩ := mem_asked_finalNames hr
  rw [Analysis.references_ofOccurrences, List.mem_eraseDups, NamePlace.references_inBody] at hmem
  rw [NamePlace.references_inBody]
  obtain ⟨q, hq, hr⟩ := List.mem_filterMap.1 hmem
  refine List.mem_filterMap.2 ⟨q, hq, q.reported_mono (fun b hb hn => ?_) hr⟩
  refine (List.mem_append.1 hb).resolve_right fun hb => ?_
  have hbound : Free.isBound f.before b.1 .both = true :=
    List.any_eq_true.2 ⟨b, hb, by simp [Space.covers]⟩
  obtain ⟨l, hl'⟩ := h.local?_of_bound hbound
  cases (hl b.1 hn).symm.trans hl'

mutual
theorem agrees_kind {f : Frame} (h : Frame.Follows o f) : ∀ k : DeclarationKind,
    Agrees ((Part.ofKind k).flatMap Part.inferNames) ((kind f.site.blind k).asked o.answer)
      (Occurrence.references (Free.inKind f.before k))
  | .interface _ tps bases ms => by
    have ht := h.enter (.types (tps.map (·.name)))
    simpa [kind, Free.inKind, Frame.enter, Spot.binders_types] using
      (agrees_typeParameters ht (f.site.enterTypes _).1 tps).append
        ((agrees_heritages ht bases).append (agrees_members ht ms))
  | .classLike _ tps none implemented ms => by
    have ht := h.enter (.types (tps.map (·.name)))
    simpa [kind, Free.inKind, Frame.enter, Spot.binders_types] using
      (agrees_typeParameters ht (f.site.enterTypes _).1 tps).append
        ((agrees_heritages ht implemented).append (agrees_members ht ms))
  | .classLike _ tps (some base) implemented ms => by
    have ht := h.enter (.types (tps.map (·.name)))
    simpa [kind, Free.inKind, Frame.enter, Spot.binders_types, Part.infers,
      Part.inferNames_eq (.heritage base)] using
      (agrees_entity h .value base.expression).append
        ((agrees_typeParameters ht (f.site.enterTypes _).1 tps).append
          ((agrees_types ht base.arguments).append
            ((agrees_heritages ht implemented).append (agrees_members ht ms))))
  | .function _ tps ps result => by
    have ht := h.enter (.types (tps.map (·.name)))
    have hp := ht.enter (.parameters (ps.map (·.name)))
    simpa [kind, Free.inKind, Frame.enter, Spot.binders_types, Spot.binders_parameters] using
      (agrees_typeParameters ht (f.site.enterTypes _).1 tps).append
        ((agrees_parameters hp ps).append (agrees_option hp result))
  | .variableList _ ds => by
    simpa [kind, Free.inKind] using agrees_declarators h ds
  | .enumeration .. => .nil
  | .typeAlias _ tps target => by
    have ht := h.enter (.types (tps.map (·.name)))
    simpa [kind, Free.inKind, Frame.enter, Spot.binders_types] using
      (agrees_typeParameters ht (f.site.enterTypes _).1 tps).append (agrees_type ht target)
  | .namespaceBlock _ _ body => by
    have hb := (agrees_statements (h.enterBody body) body).again fun r => reported_of_captured h
    simpa [kind, Free.inKind, Frame.enterBody, Frame.members, answering_answer h] using hb

theorem agrees_declaration {f : Frame} (h : Frame.Follows o f) : ∀ d : Declaration,
    Agrees (Part.declaration d).inferNames ((declaration f.site.blind d).asked o.answer)
      (Occurrence.references (Free.inDeclaration f.before d))
  | ⟨_, _, _, k⟩ => by
    rw [Part.inferNames_eq]
    simpa [declaration, Free.inDeclaration, Part.infers] using agrees_kind h k

theorem agrees_statements {f : Frame} (h : Frame.Follows o f) : ∀ xs : List Statement,
    Agrees ((xs.map .statement).flatMap Part.inferNames)
      ((statements f.site.blind xs).asked o.answer)
      (Occurrence.references (Free.inBody f.before xs))
  | [] => .nil
  | x :: xs => by
    simpa [statements, Free.inBody] using (agrees_statement h x).append (agrees_statements h xs)

theorem agrees_statement {f : Frame} (h : Frame.Follows o f) : ∀ x : Statement,
    Agrees (Part.statement x).inferNames ((statement f.site.blind x).asked o.answer)
      (Occurrence.references (Free.inStatement f.before x))
  | .declaration d => by
    rw [Part.inferNames_eq]
    simpa [statement, Free.inStatement, Part.infers] using agrees_declaration h d
  | .exports ⟨xs, none, _⟩ => by
    rw [Part.inferNames_eq]
    simpa [statement, Free.inStatement, Part.infers] using agrees_specifiers h xs
  | .exportDefault expression | .exportAssignment expression => by
    rw [Part.inferNames_eq]
    simpa [statement, Free.inStatement, Part.infers] using agrees_plainName h expression
  | .verbatim ts _ => by
    rw [Part.inferNames_eq]
    simpa [statement, Free.inStatement, Part.infers] using agrees_tokens h ts
  | .imports _ | .exports ⟨_, some _, _⟩ | .exportAll .. => by
    rw [Part.inferNames_eq]
    exact .nil
end

/-- The two walks through a declaration. -/
theorem agrees_references (s : Site) (hs : s.locals = []) (d : Declaration) :
    Agrees (Part.declaration d).inferNames ((declaration s.blind d).asked s.answer)
      (Analysis.declaration d).references where
  asks r hr := by
    rw [Analysis.declaration, Analysis.references_ofOccurrences, List.mem_eraseDups] at hr
    exact (agrees_declaration (Frame.Follows.start s hs) d).asks r hr
  reports r hr := by
    rw [Analysis.declaration, Analysis.references_ofOccurrences, List.mem_eraseDups]
    exact (agrees_declaration (Frame.Follows.start s hs) d).reports r hr

end Inquire

/-- What a declaration becomes depends only on what its references become, besides the blank name
and its `infer` names. -/
theorem Rename.declaration_congr {s : Site} (hs : s.locals = []) (d : Declaration)
    {a : Reference → Option String}
    (h : ∀ r ∈ (Analysis.declaration d).references, a r = s.answer r)
    (hn : ∀ name ∈ "" :: (Part.declaration d).inferNames, a (.name name) = s.outer name) :
    declaration (s.answering a) d = declaration s d := by
  have hrun : (Inquire.declaration s.blind d).run s.answer
      = (Inquire.declaration s.blind d).run a := by
    refine Asking.run_congr fun r hr => ?_
    rcases (Inquire.agrees_references s hs d).reports r hr with hr | ⟨name, hname, rfl⟩
    · exact (h r hr).symm
    · exact (hn name hname).symm
  rw [Inquire.run_declaration, Inquire.run_declaration] at hrun
  exact hrun.symm

namespace Naming

theorem references_underFinalName (n : FinalNames) (d : Declaration) {r : Reference} :
    r ∈ (Analysis.declaration (underFinalName n d)).references
      ↔ r ∈ (Analysis.declaration d).references := by
  rw [mem_references_declaration, mem_references_declaration,
    NamePlace.inDeclaration_underFinalName]

theorem inferNames_underFinalName (n : FinalNames) (d : Declaration) :
    (Part.declaration (underFinalName n d)).inferNames = (Part.declaration d).inferNames := by
  obtain ⟨id, modifiers, pos, kind⟩ := d
  rw [Part.inferNames_eq, Part.inferNames_eq (.declaration _)]
  cases kind with
  | variableList flavor ds =>
    have hd (d : Declarator) : (Part.declarator (renameDeclarator n d)).inferNames
        = (Part.declarator d).inferNames := by
      rw [Part.inferNames_eq, Part.inferNames_eq (.declarator d)]
      rfl
    simp [Part.infers, underFinalName, List.flatMap_map, hd]
  | _ =>
    simp only [underFinalName]
    split <;> rfl

/-- Renaming a declaration asks the linker for what the declaration refers to. What it asks for
besides is blank or the name of an `infer` node. Asking is all that it knows of outside: under any
answers it gives what renaming gives under them. -/
theorem asked_iff_reported (l : Linker) (n : FinalNames) (module : ModuleId) (d : Declaration) :
    let s := site l n module
    let walk := Inquire.declaration s.blind (underFinalName n d)
    let asked := walk.asked s.answer
    let reported := (Analysis.declaration d).references
    (∀ answers, walk.run answers = Rename.declaration (s.answering answers) (underFinalName n d))
      ∧ (∀ name, .name name ∈ reported → .name name ∈ asked)
      ∧ (∀ name, .name name ∈ asked →
          .name name ∈ reported ∨ name = "" ∨ name ∈ (Part.declaration d).inferNames)
      ∧ ∀ specifier qualifier,
          .importType specifier qualifier ∈ asked ↔ .importType specifier qualifier ∈ reported := by
  intro s walk asked reported
  have h := Inquire.agrees_references s rfl (underFinalName n d)
  have hr {r : Reference} : r ∈ (Analysis.declaration (underFinalName n d)).references
      ↔ r ∈ reported := references_underFinalName n d
  rw [inferNames_underFinalName] at h
  refine ⟨fun answers => Inquire.run_declaration answers s.blind _,
    fun name hn => h.asks _ (hr.2 hn), fun name hn => ?_, fun specifier qualifier => ⟨fun hi => ?_,
      fun hi => h.asks _ (hr.2 hi)⟩⟩
  · rcases h.reports _ hn with hn | ⟨name', hname, he⟩
    · exact .inl (hr.1 hn)
    · cases he
      exact .inr (List.mem_cons.1 hname)
  · rcases h.reports _ hi with hi | ⟨name, -, he⟩
    · exact hr.1 hi
    · cases he

/-- An `infer` outside of a conditional type is asked for, though it is no reference. -/
example :
    let s : Site := ⟨fun _ => none, fun _ _ => none, {}, []⟩
    let d : Declaration :=
      ⟨none, {}, none, .typeAlias "A" [] (.infer ⟨none, "U", none, none, []⟩)⟩
    (Inquire.declaration s d).asked s.answer = [.name "U"]
      ∧ (Analysis.declaration d).references = [] := by
  decide

end Naming

end DeclBundle
