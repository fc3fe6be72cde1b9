import DeclBundle.Proofs.Decode.Reading
import DeclBundle.Proofs.Tree.Parts
import DeclBundle.Tree.Decode

/-!
# Trees that are read back

A statement that is written as a value is read back as the same statement if no binding position in
it has an identity, its dotted names can be told from their texts, and its positions fit in 32 bits
(`Decode.statement_encode`). A reader goes down one level of the value at a time, so what is read
back at some depth (`Decode.ReadsBack`) is read back one level deeper.
-/

namespace DeclBundle

namespace Text

theorem splitChars_joinWith {sep : Char} : ∀ {pieces : List String}, pieces ≠ [] →
    (∀ piece ∈ pieces, sep ∉ piece.toList) →
      splitChars (· == sep) (joinWith (String.singleton sep) pieces).toList
        = pieces.map String.toList
  | [], h, _ => absurd rfl h
  | [piece], _, h => by
    have hp : ∀ c ∈ piece.toList, (c == sep) = false := by
      intro c hc
      rw [beq_eq_false_iff_ne]
      rintro rfl
      exact h piece List.mem_cons_self hc
    rw [joinWith, splitChars_of_no_cut hp]
    rfl
  | piece :: next :: rest, _, h => by
    have hp : ∀ c ∈ piece.toList, (c == sep) = false := by
      intro c hc
      rw [beq_eq_false_iff_ne]
      rintro rfl
      exact h piece List.mem_cons_self hc
    have ih := splitChars_joinWith (List.cons_ne_nil next rest)
      fun q hq => h q (List.mem_cons_of_mem _ hq)
    rw [joinWith, String.toList_append, String.toList_append, String.toList_singleton,
      List.append_assoc, List.singleton_append,
      splitChars_append_cons (by simp) _ hp, ih]
    rfl

theorem splitAt_joinWith {sep : Char} {pieces : List String} (hne : pieces ≠ [])
    (h : ∀ piece ∈ pieces, sep ∉ piece.toList) :
    splitAt sep (joinWith (String.singleton sep) pieces) = pieces := by
  rw [splitAt, splitWhere, splitChars_joinWith hne h, List.map_map]
  simp [Function.comp_def]

theorem not_mem_of_mem_splitAt {sep : Char} {text piece : String} (h : piece ∈ splitAt sep text) :
    sep ∉ piece.toList := by
  obtain ⟨cs, hcs, rfl⟩ := List.mem_map.1 h
  intro hm
  have := cut_eq_false_of_mem_splitChars hcs sep (by simpa using hm)
  simp at this

end Text

/-- A name that is read back from its text: it has a segment, and none of them has a dot. -/
def Entity.Dotted (e : Entity) : Prop := e.segments ≠ [] ∧ ∀ s ∈ e.segments, '.' ∉ s.toList

theorem Entity.ofText_text {e : Entity} (h : e.Dotted) : ofText e.text = e := by
  have hs : Text.splitAt '.' (Text.joinWith "." e.segments) = e.segments :=
    Text.splitAt_joinWith h.1 h.2
  rw [ofText, text, hs]

theorem Entity.dotted_ofText (text : String) : (ofText text).Dotted := by
  refine ⟨?_, fun s hs => Text.not_mem_of_mem_splitAt hs⟩
  simpa [ofText, Text.splitAt, Text.splitWhere] using Text.splitChars_ne_nil (· == '.') text.toList

/-- A position whose numbers fit in 32 bits. -/
def Position.Fits (p : Position) : Prop := p.line < 4294967296 ∧ p.column < 4294967296

/-- The dotted names in the name of a member. -/
def PropertyName.entities : PropertyName → List Entity
  | .computed expression => [expression]
  | _ => []

namespace Part

/-- The dotted names in a node itself. -/
def entities : Part → List Entity
  | .heritage h => [h.expression]
  | .type (.reference name _) | .type (.query name _) => [name]
  | .type (.importType _ qualifier _ _) => qualifier.toList
  | .member (.property name _ _ _) | .member (.method name _ _ _ _ _)
  | .member (.getter name _ _) | .member (.setter name _ _) => name.entities
  | _ => []

/-- The position in a node itself. -/
def position? : Part → Option Position
  | .declaration d => d.pos
  | .statement (.verbatim _ pos) => pos
  | _ => none

/-- A node that can be read back from how it is written, as far as its parts can. -/
structure Writable (p : Part) : Prop where
  unnumbered : ∀ i ∈ p.binds, i = none
  dotted : ∀ e ∈ p.entities, e.Dotted
  fits : ∀ pos ∈ p.position?, pos.Fits

theorem writable_iff {p : Part} : p.Writable
    ↔ (∀ i ∈ p.binds, i = none) ∧ (∀ e ∈ p.entities, e.Dotted) ∧ ∀ pos ∈ p.position?, pos.Fits :=
  ⟨fun h => ⟨h.unnumbered, h.dotted, h.fits⟩, fun h => ⟨h.1, h.2.1, h.2.2⟩⟩

theorem throughout_writable_iff {p : Part} : p.Throughout Writable
    ↔ ((∀ i ∈ p.binds, i = none) ∧ (∀ e ∈ p.entities, e.Dotted) ∧ ∀ pos ∈ p.position?, pos.Fits)
      ∧ ∀ c ∈ p.children, c.Throughout Writable := by
  rw [throughout_iff, writable_iff]

end Part

namespace Modifiers

theorem ofKeyword?_keyword (m : Modifier) : Modifier.ofKeyword? m.keyword = some m := by
  cases m <;> rfl

theorem insertKeywords_map (ms : List Modifier) (s : Modifiers) :
    s.insertKeywords (ms.map Modifier.keyword) = .ok (ms.foldl insert s) := by
  induction ms generalizing s with
  | nil => rfl
  | cons m ms ih =>
    simp only [List.map_cons, insertKeywords, ofKeyword?_keyword, ih, List.foldl_cons]

theorem has_foldl_insert (ms : List Modifier) (s : Modifiers) (x : Modifier) :
    (ms.foldl insert s).has x = (decide (x ∈ ms) || s.has x) := by
  induction ms generalizing s with
  | nil => simp
  | cons m ms ih =>
    simp only [List.foldl_cons, ih, has_insert, List.mem_cons, Bool.decide_or, Bool.or_assoc]
    exact Bool.or_left_comm _ _ _

theorem ofKeywords_keywords (s : Modifiers) : ofKeywords s.keywords = .ok s := by
  rw [ofKeywords, keywords, insertKeywords_map]
  refine congrArg _ (ext_has fun m => ?_)
  have hnone : Modifiers.none.has m = false := by cases m <;> rfl
  simp [has_foldl_insert, mem_toList, hnone]

end Modifiers

namespace Decode

open FieldReader

theorem modifiers_encode (s : Modifiers) : modifiers (Encode.modifiers s) = .ok s := by
  have hw : list string (Encode.modifiers s) = .ok s.keywords :=
    list_each fun _ _ => rfl
  simp only [modifiers, hw, bind, Except.bind, Modifiers.ofKeywords_keywords]
  rfl

theorem entity_encode {e : Entity} (h : e.Dotted) : entity (Encode.entity e) = .ok e :=
  congrArg Except.ok (Entity.ofText_text h)

theorem position_encode {p : Position} (h : p.Fits) : position (Encode.position p) = .ok p :=
  record_obj (.seq (.map (required_of_under (by simp) (nat32_nat h.1)))
    (required_of_under (by simp) (nat32_nat h.2)))

theorem token_encode : ∀ t : Token, token (Encode.token t) = .ok t
  | .text text => node_obj "text" (by simp) rfl
      (.map (required_of_under (by simp) (string_str text)))
  | .identifier name => node_obj "identifier" (by simp) rfl
      (.map (required_of_under (by simp) (string_str name)))

theorem propertyName_encode {name : PropertyName} (h : ∀ e ∈ name.entities, e.Dotted) :
    propertyName (Encode.propertyName name) = .ok name := by
  cases name with
  | identifier name =>
    exact node_obj "identifier" (by simp) rfl
      (.map (required_of_under (by simp) (string_str name)))
  | stringLiteral value =>
    exact node_obj "stringLiteral" (by simp) rfl
      (.map (required_of_under (by simp) (string_str value)))
  | numericLiteral value =>
    exact node_obj "numericLiteral" (by simp) rfl
      (.map (required_of_under (by simp) (string_str value)))
  | computed e =>
    exact node_obj "computed" (by simp) rfl
      (.map (required_of_under (by simp) (entity_encode (h e List.mem_cons_self))))

theorem operator_keyword (op : TypeOperator) :
    word true operators (.str op.keyword) = .ok op := by cases op <;> rfl

@[simp] theorem entity_ne_null (e : Entity) : Encode.entity e ≠ .null := nofun

@[simp] theorem mappedSign_ne_null (sign : MappedSign) : Encode.mappedSign sign ≠ .null := by
  cases sign <;> nofun

theorem mappedSign_encode (sign : MappedSign) :
    word true mappedSigns (Encode.mappedSign sign) = .ok sign := by cases sign <;> rfl

theorem flavor_encode (f : Flavor) : word true flavors (Encode.flavor f) = .ok f := by
  cases f <;> rfl

/-! ## Types -/

section
@[simp] theorem types_eq (ts : List TypeExpr) : Encode.types ts = ts.map Encode.type := by
  induction ts with
  | nil => rfl
  | cons t ts ih => rw [Encode.types, ih, List.map_cons]

@[simp] theorem typeParameters_eq (ps : List TypeParameter) :
    Encode.typeParameters ps = ps.map Encode.typeParameter := by
  induction ps with
  | nil => rfl
  | cons p ps ih => rw [Encode.typeParameters, ih, List.map_cons]

@[simp] theorem parameters_eq (ps : List Parameter) :
    Encode.parameters ps = ps.map Encode.parameter := by
  induction ps with
  | nil => rfl
  | cons p ps ih => rw [Encode.parameters, ih, List.map_cons]

@[simp] theorem tupleElements_eq (es : List TupleElement) :
    Encode.tupleElements es = es.map Encode.tupleElement := by
  induction es with
  | nil => rfl
  | cons e es ih => rw [Encode.tupleElements, ih, List.map_cons]

@[simp] theorem templateSpans_eq (ss : List TemplateSpan) :
    Encode.templateSpans ss = ss.map Encode.templateSpan := by
  induction ss with
  | nil => rfl
  | cons s ss ih => rw [Encode.templateSpans, ih, List.map_cons]

@[simp] theorem members_eq (ms : List Member) : Encode.members ms = ms.map Encode.member := by
  induction ms with
  | nil => rfl
  | cons m ms ih => rw [Encode.members, ih, List.map_cons]

@[simp] theorem typeField_eq (key : String) (o : Option TypeExpr) :
    Encode.typeField key o = Encode.optional key Encode.type o := by
  cases o <;> rfl

theorem type_ne_null (t : TypeExpr) : Encode.type t ≠ .null := by
  cases t <;> simp [Encode.type]
end

/-- What is written of types and their parts is read back with a bound of `n` for its depth. -/
structure ReadsBack (n : Nat) : Prop where
  type : ∀ {t : TypeExpr} (nested : Bool), (Part.type t).Throughout Part.Writable →
    (Encode.type t).depth ≤ n → typeWithin n nested (Encode.type t) = .ok t
  typeParameter : ∀ {p : TypeParameter} (nested : Bool),
    (Part.typeParameter p).Throughout Part.Writable → (Encode.typeParameter p).depth ≤ n →
      typeParameterWithin n nested (Encode.typeParameter p) = .ok p
  parameter : ∀ {p : Parameter}, (Part.parameter p).Throughout Part.Writable →
    (Encode.parameter p).depth ≤ n → parameterWithin n (Encode.parameter p) = .ok p
  element : ∀ {e : TupleElement}, (Part.element e).Throughout Part.Writable →
    (Encode.tupleElement e).depth ≤ n → tupleElementWithin n (Encode.tupleElement e) = .ok e
  span : ∀ {s : TemplateSpan}, (Part.span s).Throughout Part.Writable →
    (Encode.templateSpan s).depth ≤ n → spanWithin n (Encode.templateSpan s) = .ok s
  member : ∀ {m : Member} (nested : Bool), (Part.member m).Throughout Part.Writable →
    (Encode.member m).depth ≤ n → memberWithin n nested (Encode.member m) = .ok m

open DeclBundle.Part

theorem fieldsDepth_of_obj {fields : List (String × Json)} {n : Nat}
    (h : (Json.obj fields).depth ≤ n + 1) : Json.fieldsDepth fields ≤ n := by
  rw [Json.depth] at h
  exact Nat.le_of_succ_le_succ h

namespace ReadsBack

variable {n : Nat} (h : ReadsBack n) {fields : List (String × Json)} {key : String}

include h

/-! The fields that many nodes have. -/

theorem required_type {t : TypeExpr} (hd : Json.fieldsDepth fields ≤ n)
    (hu : under key fields = [Encode.type t]) (ht : (Part.type t).Throughout Writable) :
    (required key (typeWithin n true)).Finds fields t :=
  required_within hd hu (h.type true ht)

theorem optional_type {o : Option TypeExpr} (nested : Bool) (hd : Json.fieldsDepth fields ≤ n)
    (hu : under key fields = o.toList.map Encode.type)
    (ho : ∀ t, o = some t → (Part.type t).Throughout Writable) :
    (optional key (typeWithin n nested)).Finds fields o :=
  optional_within hd hu type_ne_null fun t ht => h.type nested (ho t ht)

theorem required_types {ts : List TypeExpr} (hd : Json.fieldsDepth fields ≤ n)
    (hu : under key fields = [.arr (ts.map Encode.type)])
    (hts : ∀ t ∈ ts, (Part.type t).Throughout Writable) :
    (required key (list (typeWithin n true))).Finds fields ts :=
  required_within hd hu (list_within fun t ht => h.type true (hts t ht))

theorem typeArguments {ts : List TypeExpr} (hd : Json.fieldsDepth fields ≤ n)
    (hu : under key fields = if ts ≠ [] then [.arr (ts.map Encode.type)] else [])
    (hts : ∀ t ∈ ts, (Part.type t).Throughout Writable) :
    (defaulted key [] (list (typeWithin n true))).Finds fields ts :=
  nonempty_within hd hu fun t ht => h.type true (hts t ht)

theorem typeParameters {ps : List TypeParameter} (hd : Json.fieldsDepth fields ≤ n)
    (hu : under key fields = if ps ≠ [] then [.arr (ps.map Encode.typeParameter)] else [])
    (hps : ∀ p ∈ ps, (Part.typeParameter p).Throughout Writable) :
    (defaulted key [] (list (typeParameterWithin n true))).Finds fields ps :=
  nonempty_within hd hu fun p hp => h.typeParameter true (hps p hp)

theorem parameters {ps : List Parameter} (hd : Json.fieldsDepth fields ≤ n)
    (hu : under key fields = [.arr (ps.map Encode.parameter)])
    (hps : ∀ p ∈ ps, (Part.parameter p).Throughout Writable) :
    (defaulted key [] (list (parameterWithin n))).Finds fields ps :=
  defaulted_within hd hu (list_within fun p hp => h.parameter (hps p hp))

theorem type_succ {t : TypeExpr} (nested : Bool) (hw : (Part.type t).Throughout Writable)
    (hd : (Encode.type t).depth ≤ n + 1) : typeWithin (n + 1) nested (Encode.type t) = .ok t := by
  rw [throughout_writable_iff] at hw
  cases t
  all_goals
    simp [binds, entities, position?, or_imp, forall_and] at hw
    rw [Encode.type] at hd ⊢
    rw [typeWithin]
    replace hd := fieldsDepth_of_obj hd
  case keyword name =>
    exact node_obj "keyword" (by simp) rfl (.map (required_of_under (by simp) (string_str name)))
  case reference name ts =>
    exact node_obj "reference" (by simp) rfl
      (.seq (.map (required_of_under (by simp) (entity_encode hw.1)))
        (h.typeArguments hd (by simp) hw.2))
  case literal text =>
    exact node_obj "literal" (by simp) rfl (.map (required_of_under (by simp) (string_str text)))
  case array t =>
    exact node_obj "array" (by simp) rfl (.map (h.required_type hd (by simp) hw))
  case tuple es =>
    exact node_obj "tuple" (by simp) rfl
      (.map (required_within hd (by simp) (list_within fun e he => h.element (hw e he))))
  case union ts =>
    exact node_obj "union" (by simp) rfl (.map (h.required_types hd (by simp) hw))
  case intersection ts =>
    exact node_obj "intersection" (by simp) rfl (.map (h.required_types hd (by simp) hw))
  case function tps ps t =>
    exact node_obj "function" (by simp) rfl
      (.seq (.seq (.map (h.typeParameters hd (by simp) hw.1)) (h.parameters hd (by simp) hw.2.1))
        (h.required_type hd (by simp) hw.2.2))
  case construct isAbstract tps ps t =>
    exact node_obj "constructor" (by simp) rfl
      (.seq (.seq (.seq (.map (defaulted_of_under (by simp) (bool_bool isAbstract)))
        (h.typeParameters hd (by simp) hw.1)) (h.parameters hd (by simp) hw.2.1))
        (h.required_type hd (by simp) hw.2.2))
  case object ms =>
    exact node_obj "typeLiteral" (by simp) rfl
      (.map (required_within hd (by simp) (list_within fun m hm => h.member true (hw m hm))))
  case query name ts =>
    exact node_obj "typeQuery" (by simp) rfl
      (.seq (.map (required_of_under (by simp) (entity_encode hw.1)))
        (h.typeArguments hd (by simp) hw.2))
  case operator op t =>
    exact node_obj "typeOperator" (by simp) rfl
      (.seq (.map (required_of_under (by simp) (operator_keyword op)))
        (h.required_type hd (by simp) hw))
  case indexed t u =>
    exact node_obj "indexedAccess" (by simp) rfl
      (.seq (.map (h.required_type hd (by simp) hw.1)) (h.required_type hd (by simp) hw.2))
  case conditional t u v w =>
    exact node_obj "conditional" (by simp) rfl
      (.seq (.seq (.seq (.map (h.required_type hd (by simp) hw.1))
        (h.required_type hd (by simp) hw.2.1)) (h.required_type hd (by simp) hw.2.2.1))
        (h.required_type hd (by simp) hw.2.2.2))
  case infer p =>
    exact node_obj "infer" (by simp) rfl
      (.map (required_within hd (by simp) (h.typeParameter true hw)))
  case mapped p t readonly optionality u =>
    exact node_obj "mapped" (by simp) rfl
      (.seq (.seq (.seq (.seq (.map (required_within hd (by simp) (h.typeParameter true hw.1)))
        (h.optional_type true hd (by simp) hw.2.1))
        (optional_of_under (by simp) (by simp) fun sign _ => mappedSign_encode sign))
        (optional_of_under (by simp) (by simp) fun sign _ => mappedSign_encode sign))
        (h.optional_type true hd (by simp) hw.2.2))
  case importType argument qualifier ts isTypeOf =>
    exact node_obj "import" (by simp) rfl
      (.seq (.seq (.seq (.map (required_of_under (by simp) (string_str argument)))
        (optional_of_under (by simp) (by simp) fun e he => entity_encode (hw.1 e he)))
        (h.typeArguments hd (by simp) hw.2))
        (defaulted_of_under (by simp) (bool_bool isTypeOf)))
  case predicate asserts parameter t =>
    exact node_obj "predicate" (by simp) rfl
      (.seq (.seq (.map (defaulted_of_under (by simp) (bool_bool asserts)))
        (required_of_under (by simp) (string_str parameter)))
        (h.optional_type true hd (by simp) hw))
  case parenthesized t =>
    exact node_obj "parenthesized" (by simp) rfl (.map (h.required_type hd (by simp) hw))
  case template head ss =>
    exact node_obj "templateLiteral" (by simp) rfl
      (.seq (.map (required_of_under (by simp) (string_str head)))
        (required_within hd (by simp) (list_within fun s hs => h.span (hw s hs))))
  case verbatim tokens =>
    exact node_obj "opaque" (by simp) rfl
      (.map (required_of_under (by simp) (list_each fun t _ => token_encode t)))

theorem typeParameter_succ {p : TypeParameter} (nested : Bool)
    (hw : (Part.typeParameter p).Throughout Writable)
    (hd : (Encode.typeParameter p).depth ≤ n + 1) :
    typeParameterWithin (n + 1) nested (Encode.typeParameter p) = .ok p := by
  obtain ⟨id, name, constraint, fallback, keywords⟩ := p
  obtain ⟨rfl, hc, hf⟩ : id = none
      ∧ (∀ t, constraint = some t → (Part.type t).Throughout Writable)
      ∧ ∀ t, fallback = some t → (Part.type t).Throughout Writable := by
    simpa [binds, entities, position?, or_imp, forall_and] using throughout_writable_iff.1 hw
  rw [Encode.typeParameter] at hd ⊢
  rw [typeParameterWithin]
  replace hd := fieldsDepth_of_obj hd
  exact record_obj
    (.seq (.seq (.seq (.map (required_of_under (by simp) (string_str name)))
      (h.optional_type nested hd (by simp) hc)) (h.optional_type nested hd (by simp) hf))
      (nonempty_of_under (by simp) fun word _ => string_str word))

theorem parameter_succ {p : Parameter} (hw : (Part.parameter p).Throughout Writable)
    (hd : (Encode.parameter p).depth ≤ n + 1) :
    parameterWithin (n + 1) (Encode.parameter p) = .ok p := by
  obtain ⟨name, mods, optionality, rest, ascription⟩ := p
  have ht : ∀ t, ascription = some t → (Part.type t).Throughout Writable := by
    simpa [binds, entities, position?] using throughout_writable_iff.1 hw
  rw [Encode.parameter] at hd ⊢
  rw [parameterWithin]
  replace hd := fieldsDepth_of_obj hd
  exact record_obj
    (.seq (.seq (.seq (.seq (.map (required_of_under (by simp) (string_str name)))
      (defaulted_of_under (by simp) (modifiers_encode mods)))
      (defaulted_of_under (by simp) (bool_bool optionality)))
      (defaulted_of_under (by simp) (bool_bool rest)))
      (h.optional_type true hd (by simp) ht))

theorem element_succ {e : TupleElement} (hw : (Part.element e).Throughout Writable)
    (hd : (Encode.tupleElement e).depth ≤ n + 1) :
    tupleElementWithin (n + 1) (Encode.tupleElement e) = .ok e := by
  obtain ⟨name, optionality, rest, t⟩ := e
  have ht : (Part.type t).Throughout Writable :=
    (throughout_writable_iff.1 hw).2 _ List.mem_cons_self
  rw [Encode.tupleElement] at hd ⊢
  rw [tupleElementWithin]
  replace hd := fieldsDepth_of_obj hd
  exact record_obj
    (.seq (.seq (.seq (.map (optional_of_under (by simp) (by simp) fun s _ => string_str s))
      (defaulted_of_under (by simp) (bool_bool optionality)))
      (defaulted_of_under (by simp) (bool_bool rest)))
      (h.required_type hd (by simp) ht))

theorem span_succ {s : TemplateSpan} (hw : (Part.span s).Throughout Writable)
    (hd : (Encode.templateSpan s).depth ≤ n + 1) :
    spanWithin (n + 1) (Encode.templateSpan s) = .ok s := by
  obtain ⟨t, literal⟩ := s
  have ht : (Part.type t).Throughout Writable :=
    (throughout_writable_iff.1 hw).2 _ List.mem_cons_self
  rw [Encode.templateSpan] at hd ⊢
  rw [spanWithin]
  replace hd := fieldsDepth_of_obj hd
  exact record_obj
    (.seq (.map (h.required_type hd (by simp) ht))
      (required_of_under (by simp) (string_str literal)))

theorem member_succ {m : Member} (nested : Bool) (hw : (Part.member m).Throughout Writable)
    (hd : (Encode.member m).depth ≤ n + 1) :
    memberWithin (n + 1) nested (Encode.member m) = .ok m := by
  rw [throughout_writable_iff] at hw
  cases m
  all_goals
    simp [binds, entities, position?, or_imp, forall_and] at hw
    rw [Encode.member] at hd ⊢
    rw [memberWithin]
    replace hd := fieldsDepth_of_obj hd
  case property name mods optionality t =>
    exact node_obj "property" (by simp) rfl
      (.seq (.seq (.seq (.map (required_of_under (by simp) (propertyName_encode hw.1)))
        (defaulted_of_under (by simp) (modifiers_encode mods)))
        (defaulted_of_under (by simp) (bool_bool optionality)))
        (h.optional_type true hd (by simp) hw.2))
  case method name mods optionality tps ps t =>
    exact node_obj "method" (by simp) rfl
      (.seq (.seq (.seq (.seq (.seq
        (.map (required_of_under (by simp) (propertyName_encode hw.1)))
        (defaulted_of_under (by simp) (modifiers_encode mods)))
        (defaulted_of_under (by simp) (bool_bool optionality)))
        (h.typeParameters hd (by simp) hw.2.1)) (h.parameters hd (by simp) hw.2.2.1))
        (h.optional_type true hd (by simp) hw.2.2.2))
  case call tps ps t =>
    exact node_obj "callSignature" (by simp) rfl
      (.seq (.seq (.map (h.typeParameters hd (by simp) hw.1)) (h.parameters hd (by simp) hw.2.1))
        (h.optional_type true hd (by simp) hw.2.2))
  case construct tps ps t =>
    exact node_obj "constructSignature" (by simp) rfl
      (.seq (.seq (.map (h.typeParameters hd (by simp) hw.1)) (h.parameters hd (by simp) hw.2.1))
        (h.optional_type true hd (by simp) hw.2.2))
  case index mods ps t =>
    exact node_obj "indexSignature" (by simp) rfl
      (.seq (.seq (.map (defaulted_of_under (by simp) (modifiers_encode mods)))
        (required_within hd (by simp) (list_within fun p hp => h.parameter (hw.1 p hp))))
        (h.required_type hd (by simp) hw.2))
  case initializer mods ps =>
    exact node_obj "constructor" (by simp) rfl
      (.seq (.map (defaulted_of_under (by simp) (modifiers_encode mods)))
        (h.parameters hd (by simp) hw))
  case getter name mods t =>
    exact node_obj "getAccessor" (by simp) rfl
      (.seq (.seq (.map (required_of_under (by simp) (propertyName_encode hw.1)))
        (defaulted_of_under (by simp) (modifiers_encode mods)))
        (h.optional_type true hd (by simp) hw.2))
  case setter name mods ps =>
    exact node_obj "setAccessor" (by simp) rfl
      (.seq (.seq (.map (required_of_under (by simp) (propertyName_encode hw.1)))
        (defaulted_of_under (by simp) (modifiers_encode mods)))
        (h.parameters hd (by simp) hw.2))

theorem succ : ReadsBack (n + 1) where
  type := h.type_succ
  typeParameter := h.typeParameter_succ
  parameter := h.parameter_succ
  element := h.element_succ
  span := h.span_succ
  member := h.member_succ

end ReadsBack

theorem not_depth_le_zero {fields : List (String × Json)} : ¬ (Json.obj fields).depth ≤ 0 :=
  Nat.not_succ_le_zero _

/-- What is written of a type is read back with any bound that it keeps to. -/
theorem readsBack : ∀ n, ReadsBack n
  | n + 1 => (readsBack n).succ
  | 0 => {
    type := fun {t} _ _ hd => by cases t <;> exact absurd hd not_depth_le_zero
    typeParameter := fun {p} _ _ hd => by cases p; exact absurd hd not_depth_le_zero
    parameter := fun {p} _ hd => by cases p; exact absurd hd not_depth_le_zero
    element := fun {e} _ hd => by cases e; exact absurd hd not_depth_le_zero
    span := fun {s} _ hd => by cases s; exact absurd hd not_depth_le_zero
    member := fun {m} _ _ hd => by cases m <;> exact absurd hd not_depth_le_zero }

/-! ## Statements -/

section
variable {fields : List (String × Json)} {key : String}

theorem nestedType_encode {t : TypeExpr} (h : (Part.type t).Throughout Writable) :
    nestedType (Encode.type t) = .ok t := (readsBack _).type true h (Nat.le_refl _)

theorem optional_nestedType {o : Option TypeExpr}
    (hu : under key fields = o.toList.map Encode.type)
    (ho : ∀ t, o = some t → (Part.type t).Throughout Writable) :
    (optional key nestedType).Finds fields o :=
  optional_of_under hu type_ne_null fun t ht => nestedType_encode (ho t ht)

theorem nested_typeParameters {ps : List TypeParameter}
    (hu : under key fields = if ps ≠ [] then [.arr (ps.map Encode.typeParameter)] else [])
    (hps : ∀ p ∈ ps, (Part.typeParameter p).Throughout Writable) :
    (defaulted key [] (list nestedTypeParameter)).Finds fields ps :=
  nonempty_of_under hu fun p hp => (readsBack _).typeParameter true (hps p hp) (Nat.le_refl _)

theorem nested_members {ms : List Member}
    (hu : under key fields = [.arr (ms.map Encode.member)])
    (hms : ∀ m ∈ ms, (Part.member m).Throughout Writable) :
    (defaulted key [] (list nestedMember)).Finds fields ms :=
  defaulted_of_under hu
    (list_each fun m hm => (readsBack _).member true (hms m hm) (Nat.le_refl _))

theorem nested_parameters {ps : List Parameter}
    (hu : under key fields = [.arr (ps.map Encode.parameter)])
    (hps : ∀ p ∈ ps, (Part.parameter p).Throughout Writable) :
    (defaulted key [] (list parameter)).Finds fields ps :=
  defaulted_of_under hu (list_each fun p hp => (readsBack _).parameter (hps p hp) (Nat.le_refl _))

end

theorem heritage_encode {x : Heritage} (hw : (Part.heritage x).Throughout Writable) :
    heritage (Encode.heritage x) = .ok x := by
  obtain ⟨hexpression, hc⟩ := throughout_writable_iff.1 hw
  exact record_obj
    (.seq (.map (required_of_under (by simp) (entity_encode (hexpression.2.1 _ List.mem_cons_self))))
      (nonempty_of_under (by simp) fun t ht => nestedType_encode (hc _ (List.mem_map_of_mem ht))))

theorem declarator_encode {d : Declarator} (hw : (Part.declarator d).Throughout Writable) :
    declarator (Encode.declarator d) = .ok d := by
  obtain ⟨id, name, ascription, initializer⟩ := d
  obtain ⟨rfl, ht⟩ : id = none ∧ ∀ t, ascription = some t → (Part.type t).Throughout Writable := by
    simpa [binds, entities, position?] using throughout_writable_iff.1 hw
  exact record_obj
    (.seq (.seq (.map (required_of_under (by simp) (string_str name)))
      (optional_nestedType (by simp) ht))
      (optional_of_under (by simp) (by simp) fun s _ => string_str s))

theorem enumMember_encode (m : EnumMember) : enumMember (Encode.enumMember m) = .ok m :=
  record_obj (.seq (.map (required_of_under (by simp) (string_str m.name)))
    (optional_of_under (by simp) (by simp) fun s _ => string_str s))

theorem importSpecifier_encode (s : ImportSpecifier) :
    importSpecifier (Encode.importSpecifier s) = .ok s :=
  record_obj (.seq (.map (required_of_under (by simp) (string_str s.remote)))
    (required_of_under (by simp) (string_str s.binding)))

theorem exportSpecifier_encode (s : ExportSpecifier) :
    exportSpecifier (Encode.exportSpecifier s) = .ok s :=
  record_obj (.seq (.map (required_of_under (by simp) (string_str s.binding)))
    (required_of_under (by simp) (string_str s.exported)))

@[simp] theorem statements_eq (ss : List Statement) :
    Encode.statements ss = ss.map Encode.statement := by
  induction ss with
  | nil => rfl
  | cons s ss ih => rw [Encode.statements, ih, List.map_cons]

theorem position_ne_null (p : Position) : Encode.position p ≠ .null := nofun

theorem heritage_ne_null (x : Heritage) : Encode.heritage x ≠ .null := nofun

/-- A declaration is found if its modifiers and its position are, and what it declares under the
shape of its tag. -/
theorem declaration_finds {inner : Json → Decoded Statement} {fields : List (String × Json)}
    {mods : Modifiers} {pos : Option Position} {kind : DeclarationKind} (tag : String)
    {s : Shape DeclarationKind} (hmods : under "modifiers" fields = [Encode.modifiers mods])
    (hpos : under "pos" fields = pos.toList.map Encode.position) (hfits : ∀ p ∈ pos, p.Fits)
    (htag : under "declaration" fields = [.str tag])
    (hs : (kindShapes inner).find? (·.tag == tag) = some s) (hk : s.fields.Finds fields kind) :
    (declaration inner).Finds fields ⟨none, mods, pos, kind⟩ := by
  have hhead : (Declaration.mk none <$> defaulted "modifiers" .none modifiers
      <*> optional "pos" position).Finds fields (Declaration.mk none mods pos) :=
    .seq (.map (defaulted_of_under hmods (modifiers_encode mods)))
      (optional_of_under hpos position_ne_null fun p hp => position_encode (hfits p hp))
  have hshape : (required "declaration" (shape true (kindShapes inner))).Finds fields s :=
    required_of_under htag (by simp only [shape, hs, present])
  unfold Finds at hhead hshape hk ⊢
  simp only [declaration, hhead, hshape]
  show s.fields.read ⟨fields, false⟩ >>= _ = _
  rw [hk]
  rfl

theorem under_kind_declaration (d : Declaration) : under "kind" (Encode.declaration d) = [] := by
  obtain ⟨id, mods, pos, kind⟩ := d
  cases kind <;> simp [Encode.declaration, Encode.declarationKind]

/-- What is written of statements is read back with a bound of `n` for its depth. -/
def StatementsReadBack (n : Nat) : Prop :=
  ∀ (s : Statement) (nested : Bool), (Part.statement s).Throughout Writable →
    (Encode.statement s).depth ≤ n → statementWithin n nested (Encode.statement s) = .ok s

theorem StatementsReadBack.declaration_succ {n : Nat} (h : StatementsReadBack n) {d : Declaration}
    (hw : (Part.declaration d).Throughout Writable)
    (hd : Json.fieldsDepth (("kind", .str "declaration") :: Encode.declaration d) ≤ n) :
    (declaration (statementWithin n true)).Finds
      (("kind", .str "declaration") :: Encode.declaration d) d := by
  obtain ⟨id, mods, pos, kind⟩ := d
  rw [throughout_writable_iff] at hw
  simp only [binds, entities, position?, children] at hw
  obtain ⟨⟨hid, -, hpos⟩, hw⟩ := hw
  obtain rfl := hid _ List.mem_cons_self
  rw [Encode.declaration] at hd ⊢
  cases kind
  all_goals
    simp [or_imp, forall_and] at hw
    rw [Encode.declarationKind] at hd ⊢
  case interface name tps bases ms =>
    exact declaration_finds "interface" (by simp) (by simp) hpos (by simp) rfl
      (.seq (.seq (.seq (.map (required_of_under (by simp) (string_str name)))
        (nested_typeParameters (by simp) hw.1))
        (nonempty_of_under (by simp) fun x hx => heritage_encode (hw.2.1 x hx)))
        (nested_members (by simp) hw.2.2))
  case classLike name tps base implemented ms =>
    exact declaration_finds "class" (by simp) (by simp) hpos (by simp) rfl
      (.seq (.seq (.seq (.seq
        (.map (optional_of_under (by simp) (by simp) fun s _ => string_str s))
        (nested_typeParameters (by simp) hw.1))
        (optional_of_under (by simp) heritage_ne_null fun x hx => heritage_encode (hw.2.1 x hx)))
        (nonempty_of_under (by simp) fun x hx => heritage_encode (hw.2.2.1 x hx)))
        (nested_members (by simp) hw.2.2.2))
  case function name tps ps t =>
    exact declaration_finds "function" (by simp) (by simp) hpos (by simp) rfl
      (.seq (.seq (.seq (.map (optional_of_under (by simp) (by simp) fun s _ => string_str s))
        (nested_typeParameters (by simp) hw.1)) (nested_parameters (by simp) hw.2.1))
        (optional_nestedType (by simp) hw.2.2))
  case variableList flavor ds =>
    exact declaration_finds "variable" (by simp) (by simp) hpos (by simp) rfl
      (.seq (.map (defaulted_of_under (by simp) (flavor_encode flavor)))
        (required_of_under (by simp) (list_each fun d hd => declarator_encode (hw d hd))))
  case enumeration name ms =>
    exact declaration_finds "enum" (by simp) (by simp) hpos (by simp) rfl
      (.seq (.map (required_of_under (by simp) (string_str name)))
        (defaulted_of_under (by simp) (list_each fun m _ => enumMember_encode m)))
  case typeAlias name tps t =>
    exact declaration_finds "typeAlias" (by simp) (by simp) hpos (by simp) rfl
      (.seq (.seq (.map (required_of_under (by simp) (string_str name)))
        (nested_typeParameters (by simp) hw.1))
        (required_of_under (by simp) (nestedType_encode hw.2)))
  case namespaceBlock name moduleKeyword body =>
    exact declaration_finds "namespace" (by simp) (by simp) hpos (by simp) rfl
      (.seq (.seq (.map (required_of_under (by simp) (string_str name)))
        (defaulted_of_under (by simp) (bool_bool moduleKeyword)))
        (defaulted_within hd (by simp) (list_within fun s hs => h s true (hw s hs))))

theorem StatementsReadBack.succ {n : Nat} (h : StatementsReadBack n) :
    StatementsReadBack (n + 1) := by
  intro s nested hw hd
  rw [throughout_writable_iff] at hw
  cases s
  all_goals
    simp [binds, entities, position?] at hw
    rw [Encode.statement] at hd ⊢
    rw [statementWithin]
    replace hd := fieldsDepth_of_obj hd
  case declaration d =>
    exact node_obj "declaration" (by simp [under_kind_declaration]) rfl
      (.map (h.declaration_succ hw hd))
  case imports i =>
    exact node_obj "import" (by simp) rfl
      (.map (.seq (.seq (.seq (.seq
        (.map (required_of_under (by simp) (string_str i.source)))
        (optional_of_under (by simp) (by simp) fun s _ => string_str s))
        (optional_of_under (by simp) (by simp) fun s _ => string_str s))
        (nonempty_of_under (by simp) fun s _ => importSpecifier_encode s))
        (defaulted_of_under (by simp) (bool_bool i.typeOnly))))
  case exports e =>
    exact node_obj "export" (by simp) rfl
      (.map (.seq (.seq
        (.map (required_of_under (by simp) (list_each fun s _ => exportSpecifier_encode s)))
        (optional_of_under (by simp) (by simp) fun s _ => string_str s))
        (defaulted_of_under (by simp) (bool_bool e.typeOnly))))
  case exportAll source name =>
    exact node_obj "exportAll" (by simp) rfl
      (.seq (.map (required_of_under (by simp) (string_str source)))
        (optional_of_under (by simp) (by simp) fun s _ => string_str s))
  case exportDefault expression =>
    exact node_obj "exportDefault" (by simp) rfl
      (.map (required_of_under (by simp) (string_str expression)))
  case exportAssignment expression =>
    exact node_obj "exportAssignment" (by simp) rfl
      (.map (required_of_under (by simp) (string_str expression)))
  case verbatim tokens pos =>
    exact node_obj "opaque" (by simp) rfl
      (.seq (.map (required_of_under (by simp) (list_each fun t _ => token_encode t)))
        (optional_of_under (by simp) position_ne_null fun p hp => position_encode (hw p hp)))

theorem statementsReadBack : ∀ n, StatementsReadBack n
  | 0 => fun s _ _ hd => by cases s <;> exact absurd hd not_depth_le_zero
  | n + 1 => (statementsReadBack n).succ

/-- A statement is read back from how it is written. -/
theorem statement_encode {s : Statement} (h : (Part.statement s).Throughout Writable) :
    statement (Encode.statement s) = .ok s :=
  statementsReadBack _ s false h (Nat.le_refl _)

end Decode

end DeclBundle
