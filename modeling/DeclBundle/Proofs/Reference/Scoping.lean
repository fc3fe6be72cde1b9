import DeclBundle.Proofs.Tree.Parts
import DeclBundle.Reference.Basic

/-!
# Scoping

What a node of a tree uses, and what it binds for the nodes below it. Both are read off the node
(`Part.uses`, `Part.regions`, `Part.binders`): no walk with a stack of scopes is in the definitions.
Whether a use is free depends on the steps that lead down to it and on nothing else
(`Part.FreeAt`). The places of a tree are its nodes with these steps, a node before what stands
below it (`Part.visits`).
-/

namespace DeclBundle

/-- Something that a node uses. -/
inductive Use where
  /-- A name, by its first segment. -/
  | name (root : String) (space : Space)
  | importType (specifier : String) (qualifier : Option String)
  /-- A type that is kept as text. -/
  | text
deriving DecidableEq, Repr

/-- The use in a computed member name; the well-known symbols are none. -/
def PropertyName.uses : PropertyName → List Use
  | .computed e => if e.root = "Symbol" then [] else [.name e.root .value]
  | _ => []

/-- The uses of the identifiers among tokens. -/
def Token.uses (tokens : List Token) : List Use := (Token.names tokens).map (.name · .both)

namespace Part

/-- Where a node stands below another with regard to the names that are bound there. -/
inductive Region where
  /-- Under none of them. -/
  | outside
  /-- Under the type parameters, the `infer` names or the key, or under the members of a body. -/
  | inside
  /-- Under the type parameters and the parameters. -/
  | signature
deriving DecidableEq, Repr

/-- The name of a part that is a member with one. -/
@[simp] def propertyName? : Part → Option PropertyName
  | .member (.property name ..) | .member (.method name ..) | .member (.getter name ..)
  | .member (.setter name ..) => some name
  | _ => none

/-- What a node uses itself. The base of a class is an expression that the class uses. -/
@[simp] def uses : Part → List Use
  | .type (.reference e _) => [.name e.root .type]
  | .type (.query e _) => [.name e.root .value]
  | .type (.importType argument qualifier _ _) =>
    [.importType argument (qualifier.map Entity.root)]
  | .type (.verbatim tokens) => .text :: Token.uses tokens
  | .heritage h => [.name h.expression.root .type]
  | .declaration ⟨_, _, _, .classLike _ _ (some base) _ _⟩ => [.name base.expression.root .value]
  | .statement (.exports ⟨specifiers, none, _⟩) => specifiers.map (.name ·.binding .both)
  | .statement (.exportDefault expression) | .statement (.exportAssignment expression) =>
    [.name expression .both]
  | .statement (.verbatim tokens _) => Token.uses tokens
  | p => p.propertyName?.toList.flatMap PropertyName.uses

/-- The type parameters of a part. -/
@[simp] def typeParameters : Part → List TypeParameter
  | .type (.function tps ..) | .type (.construct _ tps ..) | .member (.method _ _ _ tps ..)
  | .member (.call tps ..) | .member (.construct tps ..)
  | .declaration ⟨_, _, _, .interface _ tps ..⟩ | .declaration ⟨_, _, _, .classLike _ tps ..⟩
  | .declaration ⟨_, _, _, .function _ tps ..⟩ | .declaration ⟨_, _, _, .typeAlias _ tps _⟩ => tps
  | _ => []

/-- The parameter list of a node. -/
@[simp] def parameters : Part → List Parameter
  | .type (.function _ ps _) | .type (.construct _ _ ps _) | .member (.method _ _ _ _ ps _)
  | .member (.call _ ps _) | .member (.construct _ ps _) | .member (.index _ ps _)
  | .member (.initializer _ ps) | .member (.setter _ _ ps)
  | .declaration ⟨_, _, _, .function _ _ ps _⟩ => ps
  | _ => []

/-- What a part binds around its inner region. -/
@[simp] def innerBinders : Part → List Binder
  | .type (.conditional _ limit _ _) => limit.inferredNames.map (·, .type)
  | .type (.mapped key ..) => [(key.name, .type)]
  | .declaration ⟨_, _, _, .namespaceBlock _ _ body⟩ => Free.bodyBinders body
  | p => Free.typeBinders p.typeParameters

/-- The names that a node binds in a region below it. -/
def binders (p : Part) : Region → List Binder
  | .outside => []
  | .inside => p.innerBinders
  | .signature => Free.valueBinders p.parameters ++ Free.typeBinders p.typeParameters

@[simp] theorem binders_outside (p : Part) : p.binders .outside = [] := rfl

@[simp] theorem binders_inside (p : Part) : p.binders .inside = p.innerBinders := rfl

@[simp] theorem binders_signature (p : Part) :
    p.binders .signature = Free.valueBinders p.parameters ++ Free.typeBinders p.typeParameters :=
  rfl

/-- The parts of a signature: type parameters inside, parameters and result in the region of the
signature. -/
def signatureRegions (tps : List TypeParameter) (ps : List Parameter) (result : Option TypeExpr) :
    List (Region × Part) :=
  tps.map (.inside, .typeParameter ·) ++ ps.map (.signature, .parameter ·)
    ++ result.toList.map (.signature, .type ·)

/-- The nodes below a class. Of its base only the type arguments are among them. -/
@[simp] def classParts (tps : List TypeParameter) (base : Option Heritage)
    (implemented : List Heritage) (members : List Member) : List Part :=
  tps.map .typeParameter ++ (base.toList.flatMap (·.arguments)).map .type
    ++ implemented.map .heritage ++ members.map .member

/-- The nodes right below a node, each with the region in which it stands. -/
@[simp] def regions : Part → List (Region × Part)
  | .type (.function tps ps result) | .type (.construct _ tps ps result) =>
    signatureRegions tps ps (some result)
  | .type (.conditional check limit onTrue onFalse) =>
    [(.outside, .type check), (.inside, .type limit), (.inside, .type onTrue),
      (.outside, .type onFalse)]
  | .type (.mapped key nameType _ _ target) =>
    (.outside, .typeParameter key) :: (nameType.toList ++ target.toList).map (.inside, .type ·)
  | .member (.method _ _ _ tps ps result) | .member (.call tps ps result)
  | .member (.construct tps ps result) | .declaration ⟨_, _, _, .function _ tps ps result⟩ =>
    signatureRegions tps ps result
  | .declaration ⟨_, _, _, .classLike _ tps base implemented members⟩ =>
    (classParts tps base implemented members).map (.inside, ·)
  | .declaration ⟨_, _, _, kind⟩ => (ofKind kind).map (.inside, ·)
  | p => p.children.map (.outside, ·)

/-! ## Places -/

/-- A step down from a node into one of its regions. -/
structure Step where
  node : Part
  region : Region

/-- What a step down the tree binds around the part that it goes to. -/
def Step.binders (s : Step) : List Binder := s.node.binders s.region

/-- A node stands above another, and the steps lead down to it. -/
inductive Above : Part → List Step → Part → Prop
  | here (p : Part) : Above p [] p
  | down {p c q : Part} {r : Region} {steps : List Step} (hc : (r, c) ∈ p.regions)
    (h : Above c steps q) : Above p (⟨p, r⟩ :: steps) q

/-- A step leads below a binder of the name that covers the space. -/
def Step.Binds (s : Step) (name : String) (space : Space) : Prop :=
  ∃ b ∈ s.binders, b.1 = name ∧ b.2.covers space

/-- Whether a step binds a name can be decided. -/
instance (s : Step) (name : String) (space : Space) : Decidable (s.Binds name space) :=
  inferInstanceAs (Decidable (∃ b ∈ s.binders, _))

/-- A name that is used in a space under the steps, and that no node on the way binds there. -/
structure FreeAt (steps : List Step) (name : String) (space : Space) : Prop where
  nonblank : name ≠ ""
  unbound : ∀ s ∈ steps, ¬ s.Binds name space

theorem freeAt_iff {steps : List Step} {name : String} {space : Space} :
    FreeAt steps name space ↔ name ≠ "" ∧ ∀ s ∈ steps, ¬ s.Binds name space :=
  ⟨fun h => ⟨h.nonblank, h.unbound⟩, fun h => ⟨h.1, h.2⟩⟩

/-- Whether a name is free below some steps can be decided. -/
instance (steps : List Step) (name : String) (space : Space) :
    Decidable (FreeAt steps name space) :=
  decidable_of_iff' _ freeAt_iff

/-- One more step on the way matters only by what it binds. -/
theorem freeAt_insert {before rest : List Step} {s : Step} {name : String} {space : Space} :
    FreeAt (before ++ s :: rest) name space
      ↔ ¬ s.Binds name space ∧ FreeAt (before ++ rest) name space := by
  simp only [freeAt_iff, List.forall_mem_append, List.forall_mem_cons]
  exact ⟨fun ⟨hn, hb, hs, hr⟩ => ⟨hs, hn, hb, hr⟩, fun ⟨hs, hn, hb, hr⟩ => ⟨hn, hb, hs, hr⟩⟩

/-- The reference that a use under the steps is, unless it is blank or bound. -/
def referenceAt (steps : List Step) : Use → Option Reference
  | .name root space => if FreeAt steps root space then some (.name root) else none
  | .importType specifier qualifier => some (.importType specifier qualifier)
  | .text => none

/-- A node with the steps that lead down to it. -/
structure Visit where
  around : List Step := []
  node : Part

/-- The references of a node, where it stands. -/
def Visit.references (v : Visit) : List Reference := v.node.uses.filterMap (referenceAt v.around)

/-- The visit from one step further up. -/
def Visit.below (s : Step) (v : Visit) : Visit := { v with around := s :: v.around }

/-- The class declarations with a base. -/
def HasBase (p : Part) : Prop :=
  ∃ id modifiers pos name tps base implemented members,
    p = .declaration ⟨id, modifiers, pos, .classLike name tps (some base) implemented members⟩

/-- In the regions of a node stand its children, unless it is a class with a base. -/
theorem map_snd_regions {p : Part} (h : ¬ p.HasBase) : p.regions.map (·.2) = p.children := by
  fun_cases regions p
  case case9 id modifiers pos name tps base implemented members =>
    cases base with
    | none => simp [classParts, Function.comp_def]
    | some base => exact absurd ⟨id, modifiers, pos, name, tps, base, implemented, members, rfl⟩ h
  all_goals simp_all [signatureRegions, Function.comp_def]

theorem above_iff {p q : Part} {steps : List Step} : p.Above steps q
    ↔ steps = [] ∧ p = q
      ∨ ∃ c ∈ p.regions, ∃ rest, steps = ⟨p, c.1⟩ :: rest ∧ c.2.Above rest q := by
  constructor
  · intro h
    cases h with
    | here => exact .inl ⟨rfl, rfl⟩
    | down hc h => exact .inr ⟨_, hc, _, rfl, h⟩
  · rintro (⟨rfl, rfl⟩ | ⟨c, hc, rest, rfl, h⟩)
    · exact .here p
    · exact .down hc h

theorem Above.append {p q t : Part} {before rest : List Step} (h : p.Above before q)
    (hq : q.Above rest t) : p.Above (before ++ rest) t := by
  induction h with
  | here p => exact hq
  | down hc _ ih => exact .down hc (ih hq)

theorem sizeOf_lt_of_mem_regions {p : Part} {c : Region × Part} (h : c ∈ p.regions) :
    sizeOf c.2 < sizeOf p := by
  by_cases hp : p.HasBase
  · obtain ⟨id, modifiers, pos, name, tps, base, implemented, members, rfl⟩ := hp
    have hbase : sizeOf (heritage base) < sizeOf (declaration
        ⟨id, modifiers, pos, .classLike name tps (some base) implemented members⟩) :=
      sizeOf_lt_of_mem_children (by simp)
    obtain ⟨c', hc, rfl⟩ := List.mem_map.1 h
    simp only [classParts, Option.toList_some, List.flatMap_cons, List.flatMap_nil,
      List.append_nil, List.mem_append] at hc
    rcases hc with ((hc | hc) | hc) | hc
    · exact sizeOf_lt_of_mem_children (by simp [hc])
    · exact Nat.lt_trans (sizeOf_lt_of_mem_children (p := heritage base) hc) hbase
    all_goals exact sizeOf_lt_of_mem_children (by simp_all)
  · refine sizeOf_lt_of_mem_children ?_
    rw [← map_snd_regions hp]
    exact List.mem_map_of_mem h

/-- The nodes of a tree, a node before what stands below it, from front to back. -/
def visits (p : Part) : List Visit :=
  ⟨[], p⟩ :: p.regions.attach.flatMap fun c => c.1.2.visits.map (.below ⟨p, c.1.1⟩)
termination_by sizeOf p
decreasing_by exact sizeOf_lt_of_mem_regions c.2

/-- The visits below a node that stands in a region of another. -/
def visitsBelow (p : Part) (c : Region × Part) : List Visit := c.2.visits.map (.below ⟨p, c.1⟩)

theorem visits_eq (p : Part) : p.visits = ⟨[], p⟩ :: p.regions.flatMap p.visitsBelow := by
  rw [visits, List.flatMap_subtype (g := p.visitsBelow) fun _ _ => rfl, List.unattach_attach]

theorem above_of_mem_visits {p : Part} {v : Visit} (h : v ∈ p.visits) :
    p.Above v.around v.node := by
  rw [visits_eq] at h
  rcases List.mem_cons.1 h with rfl | h
  · exact .here p
  · obtain ⟨⟨r, c⟩, hc, h⟩ := List.mem_flatMap.1 h
    obtain ⟨v, hv, rfl⟩ := List.mem_map.1 h
    exact .down hc (above_of_mem_visits hv)
termination_by sizeOf p
decreasing_by exact sizeOf_lt_of_mem_regions hc

theorem Above.mem_visits {p q : Part} {steps : List Step} (h : p.Above steps q) :
    ⟨steps, q⟩ ∈ p.visits := by
  induction h with
  | here p =>
    rw [visits_eq]
    exact List.mem_cons_self
  | down hc _ ih =>
    rw [visits_eq]
    exact List.mem_cons_of_mem _ (List.mem_flatMap.2 ⟨_, hc, List.mem_map.2 ⟨_, ih, rfl⟩⟩)

/-- The visits of a tree are the nodes below it with the steps that lead to them. -/
theorem mem_visits {p : Part} {v : Visit} : v ∈ p.visits ↔ p.Above v.around v.node :=
  ⟨above_of_mem_visits, Above.mem_visits⟩

end Part

end DeclBundle
