import DeclBundle.Proofs.Tree.RoundTrip

/-!
# The tree format keeps trees

Whatever a value leaves out or repeats, the tree that it is read as has no identities, its dotted
names were cut at every dot, and its positions fit (`Decode.statement_writable`). So it is read back
from how it is written (`Decode.statement_roundTrip`).
-/

namespace DeclBundle.Decode

/-- All that a reader of values gives has a property. -/
def Gives (f : Json → Decoded α) (P : α → Prop) : Prop := ∀ v a, f v = .ok a → P a

/-- All that a reader of fields finds has a property. -/
def FieldReader.Yields (r : FieldReader α) (P : α → Prop) : Prop :=
  ∀ row a, r.read row = .ok a → P a

theorem ok_of_bind {ε : Type} {x : Except ε α} {g : α → Except ε β} {b : β}
    (h : x >>= g = .ok b) : ∃ a, x = .ok a ∧ g a = .ok b := by
  cases x with
  | error e => cases h
  | ok a => exact ⟨a, rfl, h⟩

theorem ok_of_map {ε : Type} {x : Except ε α} {g : α → β} {b : β} (h : g <$> x = .ok b) :
    ∃ a, x = .ok a ∧ g a = b := by
  cases x with
  | error e => cases h
  | ok a => exact ⟨a, rfl, Except.ok.inj h⟩

open FieldReader

section
variable {f : Json → Decoded α} {P : α → Prop} {Q : β → Prop} {key : String}

theorem Gives.any : Gives f fun _ => True := fun _ _ _ => trivial

theorem Gives.each (h : Gives f P) : ∀ {vs : List Json} {as : List α}, each f vs = .ok as →
    ∀ a ∈ as, P a
  | [], as, he => by
    cases he
    simp
  | v :: vs, as, he => by
    obtain ⟨b, hb, he⟩ := ok_of_bind he
    obtain ⟨bs, hbs, he⟩ := ok_of_bind he
    cases he
    exact List.forall_mem_cons.2 ⟨h v b hb, Gives.each h hbs⟩

theorem Gives.list (h : Gives f P) : Gives (list f) fun as => ∀ a ∈ as, P a := by
  intro v as he
  cases v with
  | arr items => exact h.each he
  | _ => cases he

namespace FieldReader.Yields

theorem any {r : FieldReader α} : r.Yields fun _ => True := fun _ _ _ => trivial

theorem map {r : FieldReader α} (h : r.Yields P) {g : α → β} (hg : ∀ a, P a → Q (g a)) :
    (g <$> r).Yields Q := by
  intro row b hb
  obtain ⟨a, ha, rfl⟩ := ok_of_map (show g <$> r.read row = .ok b from hb)
  exact hg a (h row a ha)

theorem seq {r : FieldReader (α → β)} {s : FieldReader α}
    (hr : r.Yields fun g => ∀ a, P a → Q (g a)) (hs : s.Yields P) : (r <*> s).Yields Q := by
  intro row b hb
  change (r.both s).read row = .ok b at hb
  simp only [both] at hb
  split at hb
  · rename_i g a hg ha
    cases hb
    exact hr row g hg a (hs row a ha)
  all_goals cases hb

theorem given? (h : Gives f P) : (given? key f).Yields fun o => ∀ a, o = some a → P a := by
  intro row o ho a ha
  subst ha
  simp only [Decode.given?] at ho
  split at ho
  · cases ho
  · rename_i v hv
    split at ho
    · rename_i b hb
      cases ho
      exact h v _ hb
    · cases ho
  · cases ho

theorem required (h : Gives f P) : (required key f).Yields P := by
  intro row a ha
  simp only [Decode.required] at ha
  split at ha
  · rename_i b hb
    cases ha
    exact given? h row _ hb _ rfl
  · cases ha
  · cases ha

theorem optional (h : Gives f P) : (optional key f).Yields fun o => ∀ a, o = some a → P a := by
  have hnull : Gives (orNull f) fun o => ∀ a, o = some a → P a := by
    intro v o ho a ha
    subst ha
    unfold orNull at ho
    split at ho
    · cases ho
    · obtain ⟨b, hb, he⟩ := ok_of_map ho
      cases he
      exact h v _ hb
  refine (given? hnull).map fun o ho a ha => ?_
  cases o with
  | none => cases ha
  | some o' => exact ho o' rfl a ha

theorem defaulted {fallback : α} (h : Gives f P) (hf : P fallback) :
    (defaulted key fallback f).Yields P := by
  refine (given? h).map fun o ho => ?_
  cases o with
  | none => exact hf
  | some a => exact ho a rfl

/-- A list that is empty when it is left out. -/
theorem list (h : Gives f P) :
    (Decode.defaulted key [] (Decode.list f)).Yields fun as => ∀ a ∈ as, P a :=
  defaulted h.list (by simp)

theorem decode {r : FieldReader α} (h : r.Yields P) {row : Row} {a : α}
    (ha : r.decode row = .ok a) : P a := by
  unfold FieldReader.decode at ha
  split at ha
  · rename_i b hb
    split at ha
    · cases ha
    · cases ha
      exact h row _ hb
  · cases ha

end FieldReader.Yields

theorem Gives.record {r : FieldReader α} (h : r.Yields P) : Gives (record r) P := by
  intro v a ha
  unfold Decode.record at ha
  split at ha
  · exact h.decode ha
  · exact h.decode ha
  · cases ha

theorem Gives.shape {nested : Bool} {shapes : List (Shape α)} :
    Gives (shape nested shapes) fun s => s ∈ shapes := by
  intro v s hs
  unfold Decode.shape at hs
  have hpresent : ∀ {o : Option (Shape α)}, present o = .ok s → o = some s := by
    intro o ho
    cases o with
    | none => cases ho
    | some s' =>
      cases ho
      rfl
  split at hs
  · exact List.mem_of_find?_eq_some (hpresent hs)
  · split at hs
    · exact List.mem_of_getElem? (hpresent hs)
    · cases hs
  · cases hs

theorem Gives.node {nested : Bool} {shapes : List (Shape α)} (h : ∀ s ∈ shapes, s.fields.Yields P) :
    Gives (node nested key shapes) P := by
  intro v a ha
  unfold Decode.node at ha
  split at ha
  · obtain ⟨s, hs, ha⟩ := ok_of_bind ha
    exact (h s (Yields.decode (.required .shape) hs)).decode ha
  · obtain ⟨s, hs, ha⟩ := ok_of_bind ha
    exact (h s (Gives.shape _ s hs)).decode ha
  · cases ha

end

/-! ## Leaves -/

theorem entity_dotted : Gives entity Entity.Dotted := by
  intro v e he
  obtain ⟨text, -, he⟩ := ok_of_bind he
  cases he
  exact Entity.dotted_ofText text

theorem nat32_lt : Gives nat32 fun n => n < 4294967296 := by
  intro v n hn
  unfold nat32 at hn
  split at hn
  · split at hn
    · cases hn
      omega
    · cases hn
  · cases hn

theorem position_fits : Gives position Position.Fits :=
  .record (.seq (.map (.required nat32_lt) fun _ hl _ hc => ⟨hl, hc⟩) (.required nat32_lt))

theorem propertyName_dotted : Gives propertyName fun name => ∀ e ∈ name.entities, e.Dotted := by
  refine .node ?_
  simp only [List.forall_mem_cons]
  refine ⟨.map .any ?_, .map .any ?_, .map .any ?_, .map (.required entity_dotted) ?_,
    List.forall_mem_nil _⟩
  all_goals simp [PropertyName.entities]

/-! ## Types -/

open DeclBundle.Part

/-- All that is read of types and their parts with a bound of `n` can be written. -/
structure ReadsWritable (n : Nat) : Prop where
  type : ∀ nested, Gives (typeWithin n nested) fun t => (Part.type t).Throughout Writable
  typeParameter : ∀ nested, Gives (typeParameterWithin n nested)
    fun p => (Part.typeParameter p).Throughout Writable
  parameter : Gives (parameterWithin n) fun p => (Part.parameter p).Throughout Writable
  element : Gives (tupleElementWithin n) fun e => (Part.element e).Throughout Writable
  span : Gives (spanWithin n) fun s => (Part.span s).Throughout Writable
  member : ∀ nested, Gives (memberWithin n nested) fun m => (Part.member m).Throughout Writable

namespace ReadsWritable

variable {n : Nat} (h : ReadsWritable n)

include h

theorem type_succ (nested : Bool) :
    Gives (typeWithin (n + 1) nested) fun t => (Part.type t).Throughout Writable := by
  have htype := h.type true
  have htps := h.typeParameter true
  intro v t ht
  rw [typeWithin] at ht
  refine Gives.node (P := fun t => (Part.type t).Throughout Writable) ?_ v t ht
  simp only [List.forall_mem_cons]
  refine ⟨.map .any ?_, .seq (.map (.required entity_dotted) ?_) (.list htype), .map .any ?_,
    .map (.required htype) ?_, .map (.required h.element.list) ?_,
    .map (.required htype.list) ?_, .map (.required htype.list) ?_,
    .seq (.seq (.map (.list htps) ?_) (.list h.parameter)) (.required htype),
    .seq (.seq (.seq (.map .any ?_) (.list htps)) (.list h.parameter)) (.required htype),
    .map (.required (h.member true).list) ?_,
    .seq (.map (.required entity_dotted) ?_) (.list htype),
    .seq (.map .any ?_) (.required htype), .seq (.map (.required htype) ?_) (.required htype),
    .seq (.seq (.seq (.map (.required htype) ?_) (.required htype)) (.required htype))
      (.required htype),
    .map (.required htps) ?_,
    .seq (.seq (.seq (.seq (.map (.required htps) ?_) (.optional htype)) .any) .any)
      (.optional htype),
    .seq (.seq (.seq (.map .any ?_) (.optional entity_dotted)) (.list htype)) .any,
    .seq (.seq (.map .any ?_) .any) (.optional htype), .map (.required htype) ?_,
    .seq (.map .any ?_) (.required h.span.list), .map .any ?_, List.forall_mem_nil _⟩
  all_goals
    intros
    rw [throughout_writable_iff]
    simp_all [binds, entities, position?, or_imp, forall_and]

theorem typeParameter_succ (nested : Bool) :
    Gives (typeParameterWithin (n + 1) nested) fun p => (Part.typeParameter p).Throughout Writable
    := by
  intro v p hp
  rw [typeParameterWithin] at hp
  refine Gives.record (P := fun p => (Part.typeParameter p).Throughout Writable)
    (.seq (.seq (.seq (.map .any ?_) (.optional (h.type nested))) (.optional (h.type nested))) .any)
    v p hp
  intros
  rw [throughout_writable_iff]
  simp_all [binds, entities, position?, or_imp, forall_and]

theorem parameter_succ :
    Gives (parameterWithin (n + 1)) fun p => (Part.parameter p).Throughout Writable := by
  intro v p hp
  rw [parameterWithin] at hp
  refine Gives.record (P := fun p => (Part.parameter p).Throughout Writable)
    (.seq (.seq (.seq (.seq (.map .any ?_) .any) .any) .any) (.optional (h.type true))) v p hp
  intros
  rw [throughout_writable_iff]
  simp_all [binds, entities, position?]

theorem element_succ :
    Gives (tupleElementWithin (n + 1)) fun e => (Part.element e).Throughout Writable := by
  intro v e he
  rw [tupleElementWithin] at he
  refine Gives.record (P := fun e => (Part.element e).Throughout Writable)
    (.seq (.seq (.seq (.map .any ?_) .any) .any) (.required (h.type true))) v e he
  intros
  rw [throughout_writable_iff]
  simp_all [binds, entities, position?]

theorem span_succ : Gives (spanWithin (n + 1)) fun s => (Part.span s).Throughout Writable := by
  intro v s hs
  rw [spanWithin] at hs
  refine Gives.record (P := fun s => (Part.span s).Throughout Writable)
    (.seq (.map (.required (h.type true)) ?_) .any) v s hs
  intros
  rw [throughout_writable_iff]
  simp_all [binds, entities, position?]

theorem member_succ (nested : Bool) :
    Gives (memberWithin (n + 1) nested) fun m => (Part.member m).Throughout Writable := by
  have htps := h.typeParameter true
  have hresult := h.type true
  have hname : ∀ {key}, (Decode.required key propertyName).Yields
      fun name => ∀ e ∈ name.entities, e.Dotted := .required propertyName_dotted
  intro v m hm
  rw [memberWithin] at hm
  refine Gives.node (P := fun m => (Part.member m).Throughout Writable) ?_ v m hm
  simp only [List.forall_mem_cons]
  refine ⟨.seq (.seq (.seq (.map hname ?_) .any) .any) (.optional hresult),
    .seq (.seq (.seq (.seq (.seq (.map hname ?_) .any) .any) (.list htps)) (.list h.parameter))
      (.optional hresult),
    .seq (.seq (.map (.list htps) ?_) (.list h.parameter)) (.optional hresult),
    .seq (.seq (.map (.list htps) ?_) (.list h.parameter)) (.optional hresult),
    .seq (.seq (.map .any ?_) (.required h.parameter.list)) (.required hresult),
    .seq (.map .any ?_) (.list h.parameter),
    .seq (.seq (.map hname ?_) .any) (.optional hresult),
    .seq (.seq (.map hname ?_) .any) (.list h.parameter), List.forall_mem_nil _⟩
  all_goals
    intros
    rw [throughout_writable_iff]
    simp_all [binds, entities, position?, or_imp, forall_and]

theorem succ : ReadsWritable (n + 1) where
  type := h.type_succ
  typeParameter := h.typeParameter_succ
  parameter := h.parameter_succ
  element := h.element_succ
  span := h.span_succ
  member := h.member_succ

end ReadsWritable

theorem readsWritable : ∀ n, ReadsWritable n
  | n + 1 => (readsWritable n).succ
  | 0 => {
    type := fun _ _ _ ht => by cases ht
    typeParameter := fun _ _ _ hp => by cases hp
    parameter := fun _ _ hp => by cases hp
    element := fun _ _ he => by cases he
    span := fun _ _ hs => by cases hs
    member := fun _ _ _ hm => by cases hm }

/-! ## Statements -/

theorem nestedType_writable : Gives nestedType fun t => (Part.type t).Throughout Writable :=
  fun v => (readsWritable v.depth).type true v

theorem nestedTypeParameter_writable :
    Gives nestedTypeParameter fun p => (Part.typeParameter p).Throughout Writable :=
  fun v => (readsWritable v.depth).typeParameter true v

theorem nestedMember_writable :
    Gives nestedMember fun m => (Part.member m).Throughout Writable :=
  fun v => (readsWritable v.depth).member true v

theorem parameter_writable : Gives parameter fun p => (Part.parameter p).Throughout Writable :=
  fun v => (readsWritable v.depth).parameter v

theorem heritage_writable : Gives heritage fun x => (Part.heritage x).Throughout Writable := by
  refine .record (.seq (.map (.required entity_dotted) ?_) (.list nestedType_writable))
  intros
  rw [throughout_writable_iff]
  simp_all [binds, entities, position?]

theorem declarator_writable : Gives declarator fun d => (Part.declarator d).Throughout Writable := by
  refine .record (.seq (.seq (.map .any ?_) (.optional nestedType_writable)) .any)
  intros
  rw [throughout_writable_iff]
  simp_all [binds, entities, position?]

theorem kindShapes_writable {inner : Json → Decoded Statement}
    (h : Gives inner fun s => (Part.statement s).Throughout Writable) :
    ∀ s ∈ kindShapes inner, s.fields.Yields fun kind => ∀ c ∈ ofKind kind, c.Throughout Writable
    := by
  have htps : ∀ {key}, (Decode.defaulted key [] (list nestedTypeParameter)).Yields
      fun ps => ∀ p ∈ ps, (Part.typeParameter p).Throughout Writable :=
    .list nestedTypeParameter_writable
  have hmembers : ∀ {key}, (Decode.defaulted key [] (list nestedMember)).Yields
      fun ms => ∀ m ∈ ms, (Part.member m).Throughout Writable := .list nestedMember_writable
  simp only [kindShapes, List.forall_mem_cons]
  refine ⟨.seq (.seq (.seq (.map .any ?_) htps) (.list heritage_writable)) hmembers,
    .seq (.seq (.seq (.seq (.map .any ?_) htps) (.optional heritage_writable))
      (.list heritage_writable)) hmembers,
    .seq (.seq (.seq (.map .any ?_) htps) (.list parameter_writable))
      (.optional nestedType_writable),
    .seq (.map .any ?_) (.required declarator_writable.list),
    .seq (.map .any ?_) .any,
    .seq (.seq (.map .any ?_) htps) (.required nestedType_writable),
    .seq (.seq (.map .any ?_) .any) (.list h), List.forall_mem_nil _⟩
  all_goals simp +contextual [or_imp, forall_and]

theorem declaration_writable {inner : Json → Decoded Statement}
    (h : Gives inner fun s => (Part.statement s).Throughout Writable) :
    (declaration inner).Yields fun d => (Part.declaration d).Throughout Writable := by
  intro row d hd
  obtain ⟨head, hhead, hd⟩ := ok_of_bind hd
  obtain ⟨s, hs, hd⟩ := ok_of_bind hd
  obtain ⟨kind, hk, he⟩ := ok_of_bind hd
  cases he
  have hs' := Yields.required Gives.shape row s hs
  have hk' := kindShapes_writable h s hs' row kind hk
  have hhead' : ∀ kind, ∃ mods pos, head kind = ⟨none, mods, pos, kind⟩
      ∧ ∀ p, pos = some p → p.Fits := by
    have hy : (Declaration.mk none <$> Decode.defaulted "modifiers" .none modifiers
        <*> Decode.optional "pos" position).Yields fun head => ∀ kind, ∃ mods pos,
          head kind = ⟨none, mods, pos, kind⟩ ∧ ∀ p, pos = some p → p.Fits :=
      .seq (.map .any fun mods _ pos hpos kind => ⟨mods, pos, rfl, hpos⟩) (.optional position_fits)
    exact hy row head hhead
  obtain ⟨mods, pos, he, hfits⟩ := hhead' kind
  rw [he, throughout_writable_iff]
  simp_all [binds, entities, position?]

theorem statementWithin_writable : ∀ n nested,
    Gives (statementWithin n nested) fun s => (Part.statement s).Throughout Writable
  | 0, _ => fun _ _ hs => by cases hs
  | n + 1, nested => by
    have ih := statementWithin_writable n true
    refine .node ?_
    simp only [statementShapes, List.forall_mem_cons]
    refine ⟨.map (declaration_writable ih) ?_, .map .any ?_, .map .any ?_,
      .seq (.map .any ?_) .any, .map .any ?_, .map .any ?_,
      .seq (.map .any ?_) (.optional position_fits), List.forall_mem_nil _⟩
    all_goals
      intros
      rw [throughout_writable_iff]
      simp_all [binds, entities, position?]

/-- All that is read as a statement can be written. -/
theorem statement_writable : Gives statement fun s => (Part.statement s).Throughout Writable :=
  fun v => statementWithin_writable v.depth false v

/-- A statement without identities whose dotted names have segments, none with a dot, and whose
positions fit is read back from how it is written; and so is every statement that was read, whatever
the value that it was read from left out, repeated or had besides. -/
theorem statement_roundTrip :
    (∀ s, (Part.statement s).Throughout Writable → statement (Encode.statement s) = .ok s)
      ∧ ∀ v s, statement v = .ok s → statement (Encode.statement s) = .ok s :=
  ⟨fun _ => statement_encode, fun v s hs => statement_encode (statement_writable v s hs)⟩

/-- A type alias in an unusual order, with a `null`, a repeated modifier, an unknown key and without
the fields that have a default. -/
def looseAlias : Json := .obj [
  ("type", .obj [("target", .null), ("parameter", .str "x"), ("kind", .str "predicate")]),
  ("modifiers", .strings ["declare", "export", "declare"]), ("pos", .null), ("spare", .arr []),
  ("declaration", .str "typeAlias"), ("name", .str "T"), ("kind", .str "declaration")]

/-- A namespace with a class whose parts have most of the fields that may be left out. -/
def fullNamespace : Statement :=
  .declaration ⟨none, { exported := true }, some ⟨3, 0⟩, .namespaceBlock "N" true [
    .declaration ⟨none, { abstract := true }, none, .classLike none
      [⟨none, "T", some (.infer ⟨none, "U", none, some (.query ⟨["a", "b"]⟩ []), ["in", "out"]⟩),
        none, ["const"]⟩] (some ⟨⟨["Base"]⟩, [.template "x" [⟨.verbatim [.text "t"], "y"⟩]]⟩) []
      [.method (.computed ⟨["Symbol", "iterator"]⟩) { static := true } true [] [] none,
        .index { readonly := true } [⟨"k", .none, false, false, some (.keyword "string")⟩]
          (.mapped ⟨none, "K", none, none, []⟩ none (some .minus) none none)]⟩]⟩

theorem statement_roundTrip_fullNamespace :
    statement (Encode.statement fullNamespace) = .ok fullNamespace
      ∧ ∃ s, statement looseAlias = .ok s ∧ s = .declaration ⟨none,
          { declare := true, exported := true }, none,
          .typeAlias "T" [] (.predicate false "x" none)⟩
        ∧ statement (Encode.statement s) = .ok s := by
  refine ⟨statement_roundTrip.1 _ ?_, _, rfl, rfl, statement_roundTrip.2 looseAlias _ rfl⟩
  simp [fullNamespace, Throughout, parts_eq, writable_iff, binds, entities, position?,
    PropertyName.entities, Entity.Dotted, Position.Fits]

end DeclBundle.Decode
