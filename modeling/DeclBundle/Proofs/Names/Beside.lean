import DeclBundle.Proofs.Names.Finished
import DeclBundle.Proofs.Reference.Scoping
import Mathlib.Data.List.Forall2

/-!
# A tree beside its renamed form

`Part.Beside` goes down a tree and another one at once, by the same steps. In a tree and its renamed
form both nodes belong together: the one is what the other becomes at the site that the steps lead
to (`Part.Becomes`, `Part.Beside.becomes`). Going down this way comes to every node of the renamed
tree, except for the export lists at the end of namespace bodies, which are of their own
(`Part.Becomes.exists_beside`).
-/

namespace DeclBundle

open List (Forall₂)

namespace Part

/-- A step down from a node and from another one beside it. -/
structure TwinStep where
  before : Part
  after : Part
  region : Region

/-- The step in the first tree. -/
def TwinStep.origin (t : TwinStep) : Step := ⟨t.before, t.region⟩

/-- The step in the second tree. -/
def TwinStep.step (t : TwinStep) : Step := ⟨t.after, t.region⟩

/-- Two nodes stand above two others, and the same steps lead down to them. -/
inductive Beside : Part → Part → List TwinStep → Part → Part → Prop
  | here (p p' : Part) : Beside p p' [] p p'
  | down {p p' c c' q q' : Part} {r : Region} {steps : List TwinStep}
      (hc : ((r, c), (r, c')) ∈ p.regions.zip p'.regions) (h : Beside c c' steps q q') :
    Beside p p' (⟨p, p', r⟩ :: steps) q q'

end Part

/-! ## What a node becomes -/

/-- What a kind of declaration becomes at a site, up to the names that it declares. -/
inductive DeclarationKind.Becomes (s : Site) : DeclarationKind → DeclarationKind → Prop
  | same (k : DeclarationKind) : Becomes s k (Rename.kind s k).value
  | setName (k : DeclarationKind) (name : String) :
    Becomes s k ((Rename.kind s k).value.setName name)
  | declarators (flavor : Flavor) {ds ds' : List Declarator}
      (h : Forall₂ (fun d d' => ∃ name,
        d' = { d with name, ascription := (Rename.option s d.ascription).value }) ds ds') :
    Becomes s (.variableList flavor ds) (.variableList flavor ds')

/-- The site in a region below a node. -/
def Site.below (s : Site) (p : Part) : Part.Region → Site
  | .outside => s
  | .inside =>
    match p with
    | .type (.conditional _ limit _ _) => (s.enterTypes limit.inferredNames).2
    | .type (.mapped key ..) => (s.enterTypes [key.name]).2
    | .declaration ⟨_, _, _, .variableList ..⟩ => s
    | .declaration ⟨_, _, _, .namespaceBlock _ _ body⟩ =>
      (s.enterBody (Rename.capturedNames s body) (Frame.members body)).2
    | p => (s.enterTypes (p.typeParameters.map (·.name))).2
  | .signature =>
    (s.enterTypes (p.typeParameters.map (·.name))).2.enterParameters (p.parameters.map (·.name))

namespace Part

/-- What a node becomes at a site, up to the names that it declares itself. -/
inductive Becomes (s : Site) : Part → Part → Prop
  | type (t : TypeExpr) : Becomes s (.type t) (.type (Rename.type s t).value)
  | typeParameter (id : Option DeclId) (name name' : String) (c f : Option TypeExpr)
      (keywords : List String) :
    Becomes s (.typeParameter ⟨id, name, c, f, keywords⟩)
      (.typeParameter ⟨id, name', (Rename.option s c).value, (Rename.option s f).value, keywords⟩)
  | parameter (p : Parameter) :
    Becomes s (.parameter p)
      (.parameter { p with ascription := (Rename.option s p.ascription).value })
  | element (e : TupleElement) :
    Becomes s (.element e) (.element { e with element := (Rename.type s e.element).value })
  | span (x : TemplateSpan) :
    Becomes s (.span x) (.span { x with type := (Rename.type s x.type).value })
  | member (m : Member) : Becomes s (.member m) (.member (Rename.member s m).value)
  | heritage (h : Heritage) : Becomes s (.heritage h) (.heritage (Rename.heritage s h).value)
  | declarator (d : Declarator) (name : String) :
    Becomes s (.declarator d)
      (.declarator { d with name, ascription := (Rename.option s d.ascription).value })
  | declaration {d d' : Declaration} (h : d.kind.Becomes s d'.kind) :
    Becomes s (.declaration d) (.declaration d')
  | statement {d d' : Declaration} (h : d.kind.Becomes s d'.kind) :
    Becomes s (.statement (.declaration d)) (.statement (.declaration d'))
  | other {st st' : Statement} (h : (statement st).children = [])
      (h' : (statement st').children = []) : Becomes s (.statement st) (.statement st')

variable (s : Site)

/-! ## Lists of nodes -/

theorem becomes_types (ts : List TypeExpr) :
    Forall₂ (Becomes s) (ts.map .type) ((Rename.types s ts).value.map .type) := by
  induction ts with
  | nil => exact .nil
  | cons t ts ih => exact .cons (.type t) ih

theorem becomes_option (t : Option TypeExpr) :
    Forall₂ (Becomes s) (t.toList.map .type) ((Rename.option s t).value.toList.map .type) := by
  cases t with
  | none => exact .nil
  | some t => exact .cons (.type t) .nil

theorem becomes_typeParameters : ∀ (names : List String) (tps : List TypeParameter),
    Forall₂ (Becomes s) (tps.map .typeParameter)
      ((Rename.typeParameters s names tps).value.map .typeParameter)
  | _, [] => .nil
  | names, ⟨id, name, c, f, keywords⟩ :: tps =>
    .cons (.typeParameter id name _ c f keywords) (becomes_typeParameters names.tail tps)

theorem becomes_parameters (ps : List Parameter) :
    Forall₂ (Becomes s) (ps.map .parameter) ((Rename.parameters s ps).value.map .parameter) := by
  induction ps with
  | nil => exact .nil
  | cons p ps ih =>
    obtain ⟨_, _, _, _, _⟩ := p
    exact .cons (.parameter _) ih

theorem becomes_elements (es : List TupleElement) :
    Forall₂ (Becomes s) (es.map .element) ((Rename.elements s es).value.map .element) := by
  induction es with
  | nil => exact .nil
  | cons e es ih =>
    obtain ⟨_, _, _, _⟩ := e
    exact .cons (.element _) ih

theorem becomes_spans (xs : List TemplateSpan) :
    Forall₂ (Becomes s) (xs.map .span) ((Rename.spans s xs).value.map .span) := by
  induction xs with
  | nil => exact .nil
  | cons x xs ih =>
    obtain ⟨_, _⟩ := x
    exact .cons (.span _) ih

theorem becomes_members (ms : List Member) :
    Forall₂ (Becomes s) (ms.map .member) ((Rename.members s ms).value.map .member) := by
  induction ms with
  | nil => exact .nil
  | cons m ms ih => exact .cons (.member m) ih

theorem becomes_heritages (hs : List Heritage) :
    Forall₂ (Becomes s) (hs.map .heritage) ((Rename.heritages s hs).value.map .heritage) := by
  induction hs with
  | nil => exact .nil
  | cons h hs ih => exact .cons (.heritage h) ih

theorem becomes_declarators (ds : List Declarator) : Forall₂ (Becomes s) (ds.map .declarator)
    ((Rename.declarators s ds).value.map .declarator) := by
  induction ds with
  | nil => exact .nil
  | cons d ds ih => exact .cons (.declarator d d.name) ih

/-! ## Nodes below a node -/

/-- The nodes in the regions of a node beside those that they become. -/
def Shared (site : Region → Site) (cs cs' : List (Region × Part)) : Prop :=
  Forall₂ (fun c c' => c'.1 = c.1 ∧ Becomes (site c.1) c.2 c'.2) cs cs'

variable {s} {site : Region → Site}

theorem shared_map (r : Region) {cs cs' : List Part} (h : Forall₂ (Becomes (site r)) cs cs') :
    Shared site (cs.map (r, ·)) (cs'.map (r, ·)) := by
  rw [Shared, List.forall₂_map_left_iff, List.forall₂_map_right_iff]
  exact h.imp fun _ _ hc => ⟨rfl, hc⟩

theorem Shared.append {cs cs' ds ds' : List (Region × Part)} (hc : Shared site cs cs')
    (hd : Shared site ds ds') : Shared site (cs ++ ds) (cs' ++ ds') :=
  List.rel_append hc hd

theorem signatureRegions_eq (tps : List TypeParameter) (ps : List Parameter)
    (result : Option TypeExpr) :
    signatureRegions tps ps result = (tps.map .typeParameter).map (.inside, ·)
      ++ (ps.map .parameter).map (.signature, ·)
      ++ (result.toList.map .type).map (.signature, ·) := by
  simp [signatureRegions, Function.comp_def]

theorem shared_signature (names : List String) (tps : List TypeParameter) (ps : List Parameter)
    (result : Option TypeExpr) :
    Shared site (signatureRegions tps ps result)
      (signatureRegions (Rename.typeParameters (site .inside) names tps).value
        (Rename.parameters (site .signature) ps).value
        (Rename.option (site .signature) result).value) := by
  rw [signatureRegions_eq, signatureRegions_eq]
  exact ((shared_map .inside (becomes_typeParameters _ names tps)).append
    (shared_map .signature (becomes_parameters _ ps))).append
      (shared_map .signature (becomes_option _ result))

theorem shared_type (s : Site) : ∀ t : TypeExpr,
    Shared (s.below (.type t)) (type t).regions (type (Rename.type s t).value).regions
  | .keyword _ | .literal _ | .verbatim _ => .nil
  | .reference _ ts | .query _ ts | .union ts | .intersection ts =>
    shared_map .outside (becomes_types s ts)
  | .array t | .operator _ t | .parenthesized t => shared_map .outside (.cons (.type t) .nil)
  | .tuple es => shared_map .outside (becomes_elements s es)
  | .function tps ps t | .construct _ tps ps t => shared_signature _ tps ps (some t)
  | .object ms => shared_map .outside (becomes_members s ms)
  | .indexed t i => shared_map .outside (.cons (.type t) (.cons (.type i) .nil))
  | .conditional c b t f =>
    .cons ⟨rfl, .type c⟩ (.cons ⟨rfl, .type b⟩ (.cons ⟨rfl, .type t⟩ (.cons ⟨rfl, .type f⟩ .nil)))
  | .infer ⟨id, name, c, f, keywords⟩ =>
    shared_map .outside (.cons (.typeParameter id name _ c f keywords) .nil)
  | .mapped ⟨id, name, c, f, keywords⟩ n readonly optionality t => by
    have hr : ∀ (key : TypeParameter) (n t : Option TypeExpr),
        (type (.mapped key n readonly optionality t)).regions
          = [typeParameter key].map (.outside, ·)
            ++ (n.toList.map type ++ t.toList.map type).map (.inside, ·) := by
      simp [Function.comp_def]
    simp only [Rename.type, Named.value_bind, Named.value_pure, hr]
    exact (shared_map .outside (.cons (.typeParameter id name _ c f keywords) .nil)).append
      (shared_map .inside (List.rel_append (becomes_option _ n) (becomes_option _ t)))
  | .importType argument qualifier ts isTypeOf => by
    have hr : (type (Rename.importType s argument qualifier (Rename.types s ts).value
        isTypeOf)).regions = ((Rename.types s ts).value.map .type).map (.outside, ·) := by
      simp only [Rename.importType]
      split
      · rfl
      · cases isTypeOf <;> rfl
    simp only [Rename.type, Named.value_bind, Named.value_pure, hr]
    exact shared_map .outside (becomes_types s ts)
  | .predicate _ _ t => shared_map .outside (becomes_option s t)
  | .template _ xs => shared_map .outside (becomes_spans s xs)

theorem shared_member (s : Site) (m : Member) :
    Shared (s.below (.member m)) (member m).regions (member (Rename.member s m).value).regions := by
  cases m with
  | property _ _ _ t | getter _ _ t => exact shared_map .outside (becomes_option s t)
  | method _ _ _ tps ps t | call tps ps t | construct tps ps t =>
    exact shared_signature _ tps ps t
  | index _ ps t =>
    exact shared_map .outside (List.rel_append (becomes_parameters s ps) (.cons (.type t) .nil))
  | initializer _ ps | setter _ _ ps => exact shared_map .outside (becomes_parameters s ps)

/-! ## Declarations and bodies -/

theorem becomes_renameDeclarators (s : Site) (r : Table String String) : ∀ ds : List Declarator,
    Forall₂ (fun d d' => ∃ name,
      d' = { d with name, ascription := (Rename.option s d.ascription).value }) ds
        (Rename.renameDeclarators r (Rename.declarators s ds).value).value
  | [] => .nil
  | d :: ds => by
    refine .cons ?_ (becomes_renameDeclarators s r ds)
    simp only [Rename.renameDeclarator]
    split
    · exact ⟨_, rfl⟩
    · exact ⟨d.name, rfl⟩

theorem becomes_renamedKind (s : Site) (r : Table String String) (k : DeclarationKind) :
    k.Becomes s (Rename.renamedKind r (Rename.kind s k).value) := by
  cases k with
  | variableList flavor ds => exact .declarators flavor (becomes_renameDeclarators s r ds)
  | classLike name tps base implemented ms => cases base <;> exact .setName _ _
  | _ => exact .setName _ _

/-- A statement of a body and what it becomes there. -/
theorem becomes_renameMember (s : Site) (r : Table String String) : ∀ st : Statement,
    Becomes s (.statement st)
      (.statement (Rename.renameMember r (Rename.statement s st).value).value)
  | .declaration ⟨id, modifiers, pos, k⟩ => by
    by_cases hr :
        Rename.isRenamed r (Rename.statement s (.declaration ⟨id, modifiers, pos, k⟩)).value
    · rw [show (Rename.statement s (.declaration ⟨id, modifiers, pos, k⟩)).value
        = .declaration ⟨id, modifiers, pos, (Rename.kind s k).value⟩ from rfl] at hr ⊢
      rw [Rename.value_renameMember r hr]
      exact .statement (becomes_renamedKind s r k)
    · rw [show (Rename.statement s (.declaration ⟨id, modifiers, pos, k⟩)).value
        = .declaration ⟨id, modifiers, pos, (Rename.kind s k).value⟩ from rfl] at hr ⊢
      simp only [Rename.renameMember, hr]
      exact .statement (.same k)
  | .exports ⟨_, none, _⟩ | .exports ⟨_, some _, _⟩ | .exportDefault _ | .exportAssignment _
  | .verbatim _ _ | .imports _ | .exportAll _ _ => .other rfl rfl

/-- The nodes that a renamed tree has and the tree has not. -/
def Appended (cs : List (Region × Part)) : Prop :=
  ∀ c ∈ cs, ∃ e, c.2 = .statement (.exports e)

theorem appended_nil : Appended [] := fun _ h => absurd h List.not_mem_nil

theorem appended_restored (r : Table String String) (body : List Statement) :
    Appended (((Rename.restored r body).map statement).map (.inside, ·)) := by
  unfold Rename.restored
  split
  · exact appended_nil
  · exact fun c hc => ⟨_, congrArg Prod.snd (List.mem_singleton.1 hc)⟩

theorem shared_body (s : Site) (r : Table String String) (body : List Statement) :
    Forall₂ (Becomes s) (body.map .statement)
      ((body.map fun st => (Rename.renameMember r (Rename.statement s st).value).value).map
        .statement) := by
  rw [List.map_map, List.forall₂_map_left_iff, List.forall₂_map_right_iff, List.forall₂_same]
  exact fun st _ => becomes_renameMember s r st

/-- The nodes below a kind of declaration beside those that they become. -/
theorem shared_kind (s : Site) (k : DeclarationKind) (id id' : Option DeclId)
    (modifiers modifiers' : Modifiers) (pos pos' : Option Position) : ∃ shared extra,
      (declaration ⟨id', modifiers', pos', (Rename.kind s k).value⟩).regions = shared ++ extra
        ∧ Shared (s.below (.declaration ⟨id, modifiers, pos, k⟩))
          (declaration ⟨id, modifiers, pos, k⟩).regions shared
        ∧ Appended extra := by
  cases k with
  | interface name tps bases ms =>
    refine ⟨_, [], (List.append_nil _).symm, ?_, appended_nil⟩
    exact shared_map .inside (List.rel_append (List.rel_append (becomes_typeParameters _ _ tps)
      (becomes_heritages _ bases)) (becomes_members _ ms))
  | classLike name tps base implemented ms =>
    cases base with
    | none =>
      refine ⟨_, [], (List.append_nil _).symm, ?_, appended_nil⟩
      exact shared_map .inside (List.rel_append (List.rel_append (List.rel_append
        (becomes_typeParameters _ _ tps) .nil) (becomes_heritages _ implemented))
        (becomes_members _ ms))
    | some base =>
      refine ⟨_, [], (List.append_nil _).symm, ?_, appended_nil⟩
      have harguments (inner : Site) : Forall₂ (Becomes inner) ((base.arguments ++ []).map .type)
          (((Rename.types inner base.arguments).value ++ []).map .type) := by
        rw [List.append_nil, List.append_nil]
        exact becomes_types inner base.arguments
      exact shared_map .inside (List.rel_append (List.rel_append (List.rel_append
        (becomes_typeParameters _ _ tps) (harguments _))
        (becomes_heritages _ implemented)) (becomes_members _ ms))
  | function name tps ps t =>
    exact ⟨_, [], (List.append_nil _).symm, shared_signature _ tps ps t, appended_nil⟩
  | variableList flavor ds =>
    exact ⟨_, [], (List.append_nil _).symm, shared_map .inside (becomes_declarators s ds),
      appended_nil⟩
  | enumeration name ms => exact ⟨[], [], rfl, .nil, appended_nil⟩
  | typeAlias name tps t =>
    refine ⟨_, [], (List.append_nil _).symm, ?_, appended_nil⟩
    exact shared_map .inside (List.rel_append (becomes_typeParameters _ _ tps)
      (.cons (.type t) .nil))
  | namespaceBlock name moduleKeyword body =>
    rw [Rename.value_kind_namespaceBlock, Rename.bodyAt]
    have hbody := shared_body (s.enterBody (Rename.capturedNames s body) (Frame.members body)).2
      (s.enterBody (Rename.capturedNames s body) (Frame.members body)).1 body
    have hextra := appended_restored
      (s.enterBody (Rename.capturedNames s body) (Frame.members body)).1 body
    refine ⟨_, _, ?_, shared_map .inside hbody, hextra⟩
    simp only [regions, ofKind, List.map_append]

theorem regions_setName (k : DeclarationKind) (name : String) (id : Option DeclId)
    (modifiers : Modifiers) (pos : Option Position) :
    (declaration ⟨id, modifiers, pos, k.setName name⟩).regions
      = (declaration ⟨id, modifiers, pos, k⟩).regions := by
  cases k <;> rfl

theorem shared_declaration (s : Site) {d d' : Declaration} (h : d.kind.Becomes s d'.kind) :
    ∃ shared extra, (declaration d').regions = shared ++ extra
      ∧ Shared (s.below (.declaration d)) (declaration d).regions shared ∧ Appended extra := by
  obtain ⟨id, modifiers, pos, k⟩ := d
  obtain ⟨id', modifiers', pos', k'⟩ := d'
  change k.Becomes s k' at h
  cases h with
  | same => exact shared_kind s k id id' modifiers modifiers' pos pos'
  | setName _ name =>
    rw [regions_setName]
    exact shared_kind s k id id' modifiers modifiers' pos pos'
  | declarators flavor h =>
    refine ⟨_, [], (List.append_nil _).symm, shared_map .inside ?_, appended_nil⟩
    simp only [ofKind, List.forall₂_map_left_iff, List.forall₂_map_right_iff]
    refine h.imp fun v v' hv => ?_
    obtain ⟨name, rfl⟩ := hv
    exact .declarator v name

/-- What a node becomes has the nodes that those below it become, and possibly an export list. -/
theorem Becomes.shared {p p' : Part} (h : Becomes s p p') : ∃ shared extra,
    p'.regions = shared ++ extra ∧ Shared (s.below p) p.regions shared ∧ Appended extra := by
  cases h with
  | type t => exact ⟨_, [], (List.append_nil _).symm, shared_type s t, appended_nil⟩
  | typeParameter id name name' c f keywords =>
    exact ⟨_, [], (List.append_nil _).symm, shared_map .outside
      (List.rel_append (becomes_option s c) (becomes_option s f)), appended_nil⟩
  | parameter p =>
    exact ⟨_, [], (List.append_nil _).symm, shared_map .outside (becomes_option s p.ascription),
      appended_nil⟩
  | element e =>
    exact ⟨_, [], (List.append_nil _).symm, shared_map .outside (.cons (.type e.element) .nil),
      appended_nil⟩
  | span x =>
    exact ⟨_, [], (List.append_nil _).symm, shared_map .outside (.cons (.type x.type) .nil),
      appended_nil⟩
  | member m => exact ⟨_, [], (List.append_nil _).symm, shared_member s m, appended_nil⟩
  | heritage h =>
    exact ⟨_, [], (List.append_nil _).symm, shared_map .outside (becomes_types s h.arguments),
      appended_nil⟩
  | declarator d name =>
    exact ⟨_, [], (List.append_nil _).symm, shared_map .outside (becomes_option s d.ascription),
      appended_nil⟩
  | declaration h => exact shared_declaration s h
  | statement h =>
    exact ⟨_, [], (List.append_nil _).symm, shared_map .outside (.cons (.declaration h) .nil),
      appended_nil⟩
  | @other st st' h h' =>
    have hr : ∀ st, (Part.statement st).children = [] → (Part.statement st).regions = [] :=
      fun st hst => congrArg (List.map (Region.outside, ·)) hst
    rw [hr st h, hr st' h']
    exact ⟨[], [], rfl, .nil, appended_nil⟩

/-! ## Going down both trees -/

/-- The site that steps lead to. -/
def siteBelow (s : Site) (steps : List TwinStep) : Site :=
  steps.foldl (fun s t => s.below t.before t.region) s

/-- What stands beside a node below is what it becomes there. -/
theorem Becomes.of_mem_zip {p p' c c' : Part} {r r' : Region} (h : Becomes s p p')
    (hc : ((r, c), (r', c')) ∈ p.regions.zip p'.regions) : r' = r ∧ Becomes (s.below p r) c c' := by
  obtain ⟨shared, extra, he, hs, -⟩ := h.shared
  obtain ⟨hlen, hmem⟩ := List.forall₂_iff_zip.1 hs
  rw [he, ← List.append_nil p.regions, List.zip_append hlen] at hc
  exact hmem (by simpa using hc)

theorem Beside.becomes {p p' q q' : Part} {steps : List TwinStep} (h : Beside p p' steps q q') :
    ∀ {s : Site}, Becomes s p p' → Becomes (siteBelow s steps) q q' := by
  induction h with
  | here => exact id
  | down hc _ ih => exact fun hp => ih (hp.of_mem_zip hc).2

/-- Beside every node below a node stands one below what the node becomes. -/
theorem Becomes.exists_beside_of_above {p q : Part} {steps₀ : List Step} (ha : p.Above steps₀ q) :
    ∀ {s : Site} {p' : Part}, Becomes s p p' →
      ∃ steps q', Beside p p' steps q q' ∧ steps.map TwinStep.origin = steps₀ := by
  induction ha with
  | here p => exact fun {_ p'} _ => ⟨[], p', .here p p', rfl⟩
  | @down p c q r steps₀ hc _ ih =>
    intro s p' hp
    obtain ⟨shared, extra, he, hs, -⟩ := hp.shared
    obtain ⟨hlen, hmem⟩ := List.forall₂_iff_zip.1 hs
    rw [← List.map_fst_zip (Nat.le_of_eq hlen)] at hc
    obtain ⟨⟨x, r', c'⟩, hz, hx⟩ := List.mem_map.1 hc
    obtain rfl : x = (r, c) := hx
    obtain ⟨rfl, hb⟩ := hmem hz
    obtain ⟨steps, q', hq, hsteps⟩ := ih hb
    refine ⟨⟨p, p', _⟩ :: steps, q', .down ?_ hq, congrArg (_ :: ·) hsteps⟩
    rw [he, ← List.append_nil p.regions, List.zip_append hlen]
    exact List.mem_append_left _ hz

/-- Every node of what a node becomes stands beside one below it, unless it is an export list at the
end of a body. -/
theorem Becomes.exists_beside {p' q' : Part} {steps' : List Step} (ha : p'.Above steps' q') :
    ∀ {s : Site} {p : Part}, Becomes s p p' → (∃ e, q' = .statement (.exports e))
      ∨ ∃ steps q, Beside p p' steps q q' ∧ steps.map TwinStep.step = steps' := by
  induction ha with
  | here p' => exact fun {_ p} _ => .inr ⟨[], p, .here p p', rfl⟩
  | @down p' c' q' r steps' hc ha ih =>
    intro s p hp
    obtain ⟨shared, extra, he, hs, hx⟩ := hp.shared
    rw [he] at hc
    rcases List.mem_append.1 hc with hc | hc
    · obtain ⟨hlen, hmem⟩ := List.forall₂_iff_zip.1 hs
      rw [← List.map_snd_zip (Nat.le_of_eq hlen.symm)] at hc
      obtain ⟨⟨⟨r₀, c⟩, x⟩, hz, rfl⟩ := List.mem_map.1 hc
      obtain ⟨rfl, hb⟩ := hmem hz
      refine (ih hb).imp_right fun ⟨steps, q, hq, hsteps⟩ => ?_
      refine ⟨⟨p, p', r⟩ :: steps, q, .down ?_ hq, congrArg (_ :: ·) hsteps⟩
      rw [he, ← List.append_nil p.regions, List.zip_append hlen]
      exact List.mem_append_left _ hz
    · obtain ⟨e, rfl⟩ := hx _ hc
      cases ha with
      | here => exact .inl ⟨e, rfl⟩
      | down hc' => exact absurd hc' List.not_mem_nil

end Part

/-! ## Top-level statements -/

namespace Naming

variable (n : FinalNames)

theorem kind_setName (s : Site) (k : DeclarationKind) (name : String) :
    (Rename.kind s (k.setName name)).value = (Rename.kind s k).value.setName name := by
  cases k with
  | classLike _ tps base implemented ms => cases base <;> rfl
  | _ => rfl

theorem becomes_renameDeclarator (s : Site) : ∀ ds : List Declarator,
    Forall₂ (fun d d' => ∃ name,
      d' = { d with name, ascription := (Rename.option s d.ascription).value }) ds
        (Rename.declarators s (ds.map (renameDeclarator n))).value
  | [] => .nil
  | _ :: ds => .cons ⟨_, rfl⟩ (becomes_renameDeclarator s ds)

theorem becomes_underFinalName (s : Site) (d : Declaration) :
    d.kind.Becomes s (Rename.kind s (underFinalName n d).kind).value := by
  obtain ⟨id, modifiers, pos, k⟩ := d
  cases k with
  | variableList flavor ds => exact .declarators flavor (becomes_renameDeclarator n s ds)
  | _ =>
    simp only [underFinalName]
    split
    · rw [Declaration.setName, kind_setName]
      exact .setName _ _
    · exact .same _

theorem kind_declaration (s : Site) (d : Declaration) :
    (Rename.declaration s d).value.kind = (Rename.kind s d.kind).value := by
  cases d
  rfl

/-- A top-level statement and what it becomes. -/
theorem becomes_statement (s : Site) : ∀ st : Statement,
    Part.Becomes s (.statement st) (.statement (statement s n st).value)
  | .declaration d => .statement (by
      rw [kind_declaration]
      exact becomes_underFinalName n s d)
  | .verbatim _ _ | .imports _ | .exports _ | .exportAll _ _ | .exportDefault _
  | .exportAssignment _ => .other rfl rfl

end Naming

end DeclBundle
