import DeclBundle.Proofs.Names.Beside
import DeclBundle.Proofs.Names.Covered
import DeclBundle.Proofs.Names.Greedy

/-!
# Type parameters under names of their own

The names around a place of a renamed tree are those of the top level and those that the steps to
the place bind, read off the renamed tree (`Part.namesAround`). A renamed type parameter or key has
none of them, nor the name of one before it in its list, and it keeps its own name where that is
possible (`Apart`, `Naming.type_parameters_apart`). The scopes at a place hold just the names around
it (`Part.Becomes.mem_taken_below`), and from there it is one step of `Site.bindAll` after the
other.
-/

namespace DeclBundle

open List (Forall₂)

/-! ## Names that keep apart -/

/-- Names for binders where some are taken, one after the other: each its own or a free form of
it. -/
def namesApart (taken : List String) : List String → List String
  | [] => []
  | given :: rest =>
    let name := if given ∈ taken then unusedName taken given else given
    name :: namesApart (taken ++ [name]) rest

/-- The names are not taken and differ from each other, and each is the given one unless that is
taken or the name of one before it. -/
def Apart (taken : List String) : List String → List String → Prop
  | [], [] => True
  | given :: givens, name :: names =>
    name ∉ taken ∧ (given ∉ taken → name = given) ∧ Apart (taken ++ [name]) givens names
  | _, _ => False

theorem apart_namesApart : ∀ (givens taken : List String),
    Apart taken givens (namesApart taken givens)
  | [], _ => trivial
  | given :: givens, taken => by
    refine ⟨?_, fun h => if_neg h, apart_namesApart givens _⟩
    split
    · exact unusedName_not_mem taken given
    · assumption

theorem FirstFree.unique {taken : String → Prop} {base a b : String} (ha : FirstFree taken base a)
    (hb : FirstFree taken base b) : a = b := by
  obtain ⟨m, rfl, hm, hmin⟩ := ha
  obtain ⟨n, rfl, hn, hmin'⟩ := hb
  rcases Nat.lt_trichotomy m n with h | rfl | h
  · exact absurd (hmin' m h) hm
  · rfl
  · exact absurd (hmin n h) hn

theorem unusedName_congr {taken taken' : List String} (h : ∀ x, x ∈ taken ↔ x ∈ taken')
    (base : String) : unusedName taken base = unusedName taken' base :=
  ((firstFree_unusedName taken base).congr h).unique (firstFree_unusedName taken' base)

namespace Site

theorem bindAll_eq_namesApart : ∀ (givens : List String) {scopes : Scopes} {taken : List String},
    (∀ x, x ∈ scopes.taken ↔ x ∈ taken) → (bindAll scopes givens).1 = namesApart taken givens
  | [], _, _, _ => rfl
  | given :: givens, scopes, taken, h => by
    have hname : (scopes.bind given none).1
        = if given ∈ taken then unusedName taken given else given := by
      simp only [Scopes.bind_fst, Scopes.choose, Scopes.isFree, Scopes.generate, decide_eq_true_eq,
        h, unusedName_congr h, ite_not]
    simp only [bindAll, namesApart, hname]
    rw [bindAll_eq_namesApart givens fun x => ?_]
    rw [Scopes.mem_taken_bind, hname, h, List.mem_append, List.mem_singleton]

theorem enterTypes_eq_namesApart {s : Site} {taken : List String}
    (h : ∀ x, x ∈ s.scopes.taken ↔ x ∈ taken) (givens : List String) :
    (s.enterTypes givens).1 = namesApart taken givens :=
  bindAll_eq_namesApart givens fun x => Scopes.mem_taken_push.trans (h x)

end Site

/-! ## The names of type parameters -/

namespace Part

/-- The names of the type parameters or of the key that a node binds. -/
def typeNames : Part → List String
  | .type (.mapped key ..) => [key.name]
  | p => p.typeParameters.map (·.name)

theorem names_typeParameters (s : Site) : ∀ (tps : List TypeParameter) {names : List String},
    names.length = tps.length → (Rename.typeParameters s names tps).value.map (·.name) = names
  | [], _, h => (List.length_eq_zero_iff.1 h).symm
  | ⟨_, _, _, _, _⟩ :: tps, name :: _, h =>
    congrArg (name :: ·) (names_typeParameters s tps (Nat.succ.inj h))

theorem names_renamed (s inner : Site) (tps : List TypeParameter) :
    (Rename.typeParameters inner (s.enterTypes (tps.map (·.name))).1 tps).value.map (·.name)
      = (s.enterTypes (tps.map (·.name))).1 :=
  names_typeParameters inner tps (by rw [Site.length_enterTypes, List.length_map])

theorem typeParameters_type (s : Site) (t : TypeExpr) :
    (type (Rename.type s t).value).typeParameters.map (·.name)
      = (s.enterTypes ((type t).typeParameters.map (·.name))).1 := by
  cases t with
  | function tps ps t => exact names_renamed s _ tps
  | construct isAbstract tps ps t => exact names_renamed s _ tps
  | importType argument qualifier ts isTypeOf =>
    simp only [Rename.type, Named.value_bind, Named.value_pure, Rename.importType]
    split
    · rfl
    · cases isTypeOf <;> rfl
  | infer p | mapped p => cases p; rfl
  | _ => rfl

theorem typeParameters_member (s : Site) (m : Member) :
    (member (Rename.member s m).value).typeParameters.map (·.name)
      = (s.enterTypes ((member m).typeParameters.map (·.name))).1 := by
  cases m with
  | method _ _ _ tps => exact names_renamed s _ tps
  | call tps | construct tps => exact names_renamed s _ tps
  | _ => rfl

theorem typeParameters_declaration {s : Site} {d d' : Declaration} (h : d.kind.Becomes s d'.kind) :
    (declaration d').typeParameters.map (·.name)
      = (s.enterTypes ((declaration d).typeParameters.map (·.name))).1 := by
  obtain ⟨id, modifiers, pos, k⟩ := d
  obtain ⟨id', modifiers', pos', k'⟩ := d'
  change k.Becomes s k' at h
  cases h with
  | same | setName =>
    cases k with
    | interface _ tps | function _ tps | typeAlias _ tps => exact names_renamed s _ tps
    | classLike _ tps base => cases base <;> exact names_renamed s _ tps
    | _ => rfl
  | declarators => rfl

variable {s : Site} {p p' : Part}

/-- The type parameters of a node have the names that the site gives them. -/
theorem Becomes.typeParameters (h : Becomes s p p') :
    p'.typeParameters.map (·.name) = (s.enterTypes (p.typeParameters.map (·.name))).1 := by
  cases h with
  | type t => exact typeParameters_type s t
  | member m => exact typeParameters_member s m
  | declaration h => exact typeParameters_declaration h
  | _ => rfl

/-- A node with a key of its own. -/
def IsMapped (p : Part) : Prop := ∃ key n readonly optionality t,
  p = .type (.mapped key n readonly optionality t)

theorem typeNames_of_not_mapped {p : Part} (h : ¬ p.IsMapped) :
    p.typeNames = p.typeParameters.map (·.name) := by
  unfold typeNames
  split
  · exact absurd ⟨_, _, _, _, _, rfl⟩ h
  · rfl

theorem Becomes.isMapped (h : Becomes s p p') (hm : p'.IsMapped) : p.IsMapped := by
  obtain ⟨key, n, readonly, optionality, t, rfl⟩ := hm
  generalize hp : Part.type (.mapped key n readonly optionality t) = p' at h
  cases h with
  | type t =>
    cases t with
    | mapped => exact ⟨_, _, _, _, _, rfl⟩
    | importType argument qualifier ts isTypeOf =>
      simp only [Rename.type, Named.value_bind, Named.value_pure, Rename.importType] at hp
      split at hp
      · cases hp
      · cases isTypeOf <;> cases hp
    | infer p =>
      cases p
      cases hp
    | _ => cases hp
  | _ => cases hp

/-- The type names of a node are those that the site gives them. -/
theorem Becomes.typeNames (h : Becomes s p p') : p'.typeNames = (s.enterTypes p.typeNames).1 := by
  by_cases hm : p.IsMapped
  · obtain ⟨⟨_, _, _, _, _⟩, n, readonly, optionality, t, rfl⟩ := hm
    cases h
    rfl
  · rw [typeNames_of_not_mapped hm, typeNames_of_not_mapped fun hm' => hm (h.isMapped hm'),
      h.typeParameters]

/-! ## Names around a place -/

/-- The names that a step binds where some are taken: those of the type parameters or the key, the
members of a body, or what is given to the `infer` names of a conditional type. -/
def TwinStep.names (taken : List String) (t : TwinStep) : List String :=
  match t.region with
  | .outside => []
  | .inside =>
    match t.before with
    | .type (.conditional _ limit _ _) => namesApart taken limit.inferredNames
    | _ => t.after.innerBinders.map Prod.fst
  | .signature => t.after.typeParameters.map (·.name)

/-- The names taken at a place that steps lead to. -/
def namesAround (taken : List String) (steps : List TwinStep) : List String :=
  steps.foldl (fun taken t => taken ++ t.names taken) taken

variable {taken : List String} {x : String}

theorem mem_taken_enterTypes (ht : ∀ x, x ∈ s.scopes.taken ↔ x ∈ taken) (givens : List String) :
    x ∈ (s.enterTypes givens).2.scopes.taken ↔ x ∈ taken ++ (s.enterTypes givens).1 := by
  rw [Site.mem_taken_enterTypes_iff, ht, List.mem_append]

theorem mem_taken_body (ht : ∀ x, x ∈ s.scopes.taken ↔ x ∈ taken) (body : List Statement) :
    x ∈ (s.enterBody (Rename.capturedNames s body) (Frame.members body)).2.scopes.taken
      ↔ x ∈ taken ++ Frame.members (Rename.bodyAt s body) := by
  rw [Site.mem_taken_enterBody_iff, ht, Rename.members_bodyAt, List.mem_append, List.mem_map]

theorem Becomes.mem_taken_inside (h : Becomes s p p') (ht : ∀ x, x ∈ s.scopes.taken ↔ x ∈ taken)
    (hb : p'.innerBinders = Free.typeBinders p'.typeParameters) :
    x ∈ (s.enterTypes (p.typeParameters.map (·.name))).2.scopes.taken
      ↔ x ∈ taken ++ p'.innerBinders.map Prod.fst := by
  have hnames : (Free.typeBinders p'.typeParameters).map Prod.fst
      = p'.typeParameters.map (·.name) := by
    rw [Free.typeBinders, List.map_map]
    rfl
  rw [hb, hnames, h.typeParameters]
  exact mem_taken_enterTypes ht _

theorem innerBinders_setName (k : DeclarationKind) (name : String) (id : Option DeclId)
    (modifiers : Modifiers) (pos : Option Position) :
    (declaration ⟨id, modifiers, pos, k.setName name⟩).innerBinders
      = (declaration ⟨id, modifiers, pos, k⟩).innerBinders := by
  cases k <;> rfl

/-- The same for declarations. The step into a namespace binds the members of its body. -/
theorem mem_taken_inside_declaration {d d' : Declaration} (h : d.kind.Becomes s d'.kind)
    (ht : ∀ x, x ∈ s.scopes.taken ↔ x ∈ taken) :
    x ∈ (s.below (.declaration d) .inside).scopes.taken
      ↔ x ∈ taken ++ (declaration d').innerBinders.map Prod.fst := by
  obtain ⟨id, modifiers, pos, k⟩ := d
  obtain ⟨id', modifiers', pos', k'⟩ := d'
  have hd : Becomes s (.declaration ⟨id, modifiers, pos, k⟩)
    (.declaration ⟨id', modifiers', pos', (Rename.kind s k).value⟩) := .declaration (.same k)
  have hsame : x ∈ (s.below (.declaration ⟨id, modifiers, pos, k⟩) .inside).scopes.taken
      ↔ x ∈ taken ++ (declaration ⟨id', modifiers', pos', (Rename.kind s k).value⟩).innerBinders.map
        Prod.fst := by
    cases k with
    | namespaceBlock name moduleKeyword body =>
      rw [Rename.value_kind_namespaceBlock]
      exact mem_taken_body ht body
    | variableList flavor ds =>
      rw [← List.append_nil taken] at ht
      exact ht x
    | classLike name tps base => cases base <;> exact hd.mem_taken_inside ht rfl
    | _ => exact hd.mem_taken_inside ht rfl
  change k.Becomes s k' at h
  cases h with
  | same => exact hsame
  | setName _ name =>
    rw [innerBinders_setName]
    exact hsame
  | declarators => exact hsame

/-- Below a node the names around it are taken and those that the step binds. -/
theorem Becomes.mem_taken_below (h : Becomes s p p') (ht : ∀ x, x ∈ s.scopes.taken ↔ x ∈ taken)
    (r : Region) (x : String) : x ∈ (s.below p r).scopes.taken
      ↔ x ∈ taken ++ TwinStep.names taken ⟨p, p', r⟩ := by
  cases r with
  | outside => rw [TwinStep.names, List.append_nil, ← ht]; rfl
  | signature =>
    rw [TwinStep.names, h.typeParameters]
    exact mem_taken_enterTypes ht _
  | inside =>
    cases h with
    | type t =>
      have hp := Becomes.type (s := s) t
      cases t with
      | conditional c b t f =>
        simp only [TwinStep.names, ← Site.enterTypes_eq_namesApart ht]
        exact mem_taken_enterTypes ht _
      | mapped key =>
        cases key
        exact mem_taken_enterTypes ht _
      | importType argument qualifier ts isTypeOf =>
        refine hp.mem_taken_inside ht ?_
        simp only [Rename.type, Named.value_bind, Named.value_pure, Rename.importType]
        split
        · rfl
        · cases isTypeOf <;> rfl
      | infer p =>
        cases p
        exact hp.mem_taken_inside ht rfl
      | _ => exact hp.mem_taken_inside ht rfl
    | declaration h => exact mem_taken_inside_declaration h ht
    | member m =>
      refine (Becomes.member m).mem_taken_inside ht ?_
      cases m <;> rfl
    | _ => exact Becomes.mem_taken_inside (by constructor <;> assumption) ht rfl

theorem mem_taken_siteBelow {p p' q q' : Part} {steps : List TwinStep}
    (h : Beside p p' steps q q') : ∀ {s : Site} {taken : List String}, Becomes s p p' →
      (∀ x, x ∈ s.scopes.taken ↔ x ∈ taken) →
        ∀ x, x ∈ (siteBelow s steps).scopes.taken ↔ x ∈ namesAround taken steps := by
  induction h with
  | here => exact fun _ ht => ht
  | down hc _ ih =>
    exact fun hp ht => ih (hp.of_mem_zip hc).2 fun x => hp.mem_taken_below ht _ x

/-- Under the steps that lead to it, a node has type names that keep apart from those around. -/
theorem Beside.apart {p p' q q' : Part} {steps : List TwinStep} (h : Beside p p' steps q q')
    (hp : Becomes s p p') (ht : ∀ x, x ∈ s.scopes.taken ↔ x ∈ taken) :
    Apart (namesAround taken steps) q.typeNames q'.typeNames := by
  rw [(h.becomes hp).typeNames, Site.enterTypes_eq_namesApart (mem_taken_siteBelow h hp ht)]
  exact apart_namesApart _ _

theorem Above.apart {p p' q' : Part} {steps' : List Step} (h : p'.Above steps' q')
    (hp : Becomes s p p') (ht : ∀ x, x ∈ s.scopes.taken ↔ x ∈ taken) (hq : q'.typeNames ≠ []) :
    ∃ steps q, Beside p p' steps q q' ∧ steps.map TwinStep.step = steps'
      ∧ Apart (namesAround taken steps) q.typeNames q'.typeNames := by
  rcases Becomes.exists_beside h hp with ⟨e, rfl⟩ | ⟨steps, q, hb, hsteps⟩
  · exact absurd rfl hq
  · exact ⟨steps, q, hb, hsteps, hb.apart hp ht⟩

end Part

/-! ## The names of the top level -/

namespace FinalNames

theorem mem_taken_iff {c : NamingContext} {reserved : List String} {firstId : DeclId}
    {trees : List ModuleTree}
    (h : ∀ t ∈ trees, ∀ b ∈ topBindings t.module t.path t.statements, b.id < firstId) (x : String) :
    x ∈ (choose c reserved firstId trees).scopes.taken
      ↔ x ∈ reserved ++ (choose c reserved firstId trees).topNames := by
  refine ⟨fun hx => ?_, (covered_choose c reserved firstId trees).mem_taken⟩
  rw [topNames, List.mem_append, List.mem_append, List.mem_map]
  refine ((chosen_choose h).taken hx).imp_right fun hname => ?_
  obtain ⟨o, ho⟩ := hname
  cases o with
  | symbol => exact .inl (Table.mem_values_of_get? ho)
  | _ =>
    obtain ⟨id, -, hid⟩ := Option.bind_eq_some_iff.1 ho
    obtain ⟨b, hb, rfl⟩ := Option.map_eq_some_iff.1 hid
    exact .inr ⟨b, Table.mem_values_of_get? hb, rfl⟩

end FinalNames

namespace Naming

/-- In the modules of a bundle under their final names every type parameter and every mapped key has
a name of its own: not a reserved name, not the final name of a top-level binding, no name that a
step down to it binds in the renamed tree, and not the name of a type parameter before it in the
same list. It is the name that stood there before, unless that is one of these. -/
theorem type_parameters_apart (c : NamingContext) (reserved : List String) (firstId : DeclId)
    (trees : List ModuleTree)
    (h : ∀ t ∈ trees, ∀ b ∈ topBindings t.module t.path t.statements, b.id < firstId) :
    let named := run c reserved firstId trees
    Forall₂ (fun t t' => Forall₂ (fun st st' => ∀ steps' q',
        (Part.statement st').Above steps' q' → q'.typeNames ≠ [] →
          ∃ steps q, (Part.statement st).Beside (.statement st') steps q q'
            ∧ steps.map Part.TwinStep.step = steps'
            ∧ Apart (Part.namesAround (reserved ++ named.names.topNames) steps) q.typeNames
                q'.typeNames) t.statements t'.statements) trees named.trees := by
  intro named
  simp only [named, run, List.map_map, List.forall₂_map_right_iff, List.forall₂_same]
  intro t _
  simp only [Function.comp, tree, List.map_map, List.forall₂_map_right_iff, List.forall₂_same]
  exact fun st _ steps' q' ha hq =>
    ha.apart (becomes_statement _ _ st) (FinalNames.mem_taken_iff h) hq

/-- A module that declares `T`, and a type with two parameters `T` that maps over a key `T`. -/
def shadowingTrees : List ModuleTree :=
  [⟨0, "a.ts", [.declaration ⟨some 0, .none, none, .interface "T" [] [] []⟩,
    .declaration ⟨some 1, .none, none, .typeAlias "M"
      [⟨none, "T", none, none, []⟩, ⟨none, "T", none, none, []⟩]
      (.mapped ⟨none, "T", some (.reference ⟨["T"]⟩ []), none, []⟩ none none none
        (some (.reference ⟨["T"]⟩ [])))⟩]⟩]

/-- The naming of `numberedStore` in which both declarations are reached. -/
def shadowingContext : NamingContext where
  linker := numberedStore.linker {}
  reach := { decls := [0, 1] }
  entry := 0

/-- The two parameters and the key get three names. -/
theorem type_parameters_apart_shadowing :
    let named := run shadowingContext ["W"] 2 shadowingTrees
    (∀ t ∈ shadowingTrees, ∀ b ∈ topBindings t.module t.path t.statements, b.id < 2)
      ∧ ∃ t' ∈ named.trees, ∃ st' ∈ t'.statements, ∃ steps' q',
        (Part.statement st').Above steps' q' ∧ q'.typeNames = ["T_$2"]
          ∧ ∃ st steps q, (Part.statement st).Beside (.statement st') steps q q'
            ∧ steps.map Part.TwinStep.step = steps'
            ∧ Apart (Part.namesAround (["W"] ++ named.names.topNames) steps) q.typeNames
                ["T_$2"] := by
  intro named
  have hids : ∀ t ∈ shadowingTrees, ∀ b ∈ topBindings t.module t.path t.statements, b.id < 2 := by
    decide +kernel
  obtain ⟨-, htrees⟩ := List.forall₂_iff_get.1
    (type_parameters_apart shadowingContext ["W"] 2 shadowingTrees hids)
  obtain ⟨-, hstatements⟩ := List.forall₂_iff_get.1 (htrees 0 (by decide) (by decide +kernel))
  have hkey : ∃ steps' q', (Part.statement (named.trees[0].statements[1])).Above steps' q'
      ∧ q'.typeNames = ["T_$2"] := by
    refine ⟨_, _, .down (List.mem_singleton.2 rfl) (.down (List.mem_map.2
      ⟨_, List.mem_append_right _ (List.mem_singleton.2 rfl), rfl⟩) (.here _)), ?_⟩
    decide +kernel
  obtain ⟨steps', q', ha, hq⟩ := hkey
  obtain ⟨steps, q, hb, hsteps, hapart⟩ :=
    hstatements 1 (by decide) (by decide +kernel) steps' q' ha (by simp [hq])
  exact ⟨hids, _, List.getElem_mem _, _, List.getElem_mem _, steps', q', ha, hq, _, steps, q, hb,
    hsteps, hq ▸ hapart⟩

end Naming

end DeclBundle
