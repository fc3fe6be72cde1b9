import DeclBundle.Ambient
import Mathlib.Data.List.Forall2

/-!
# Top-level declarations become ambient

The pass that adds `declare` and the pass that takes `export` and `default` away look at different
modifiers, so their order does not matter. What they leave of a statement is what it was but for
these three modifiers (`Statement.MadeAmbient`), and what a declaration exported is noted once for
each identity that it binds (`InlineExport.Notes`).
-/

namespace DeclBundle

/-! ## What the passes leave -/

/-- The modifiers that the passes decide. -/
def Modifier.decided : List Modifier := [.exported, .default, .declare]

/-- The kinds that are ambient only with `declare`. -/
def DeclarationTag.declarable : List DeclarationTag :=
  [.function, .classLike, .variableList, .enumeration, .namespaceBlock]

theorem DeclarationTag.requiresDeclare_iff (tag : DeclarationTag) :
    tag.requiresDeclare = true ↔ tag ∈ declarable := by
  cases tag <;> decide

/-- The declaration `d'` is `d` made ambient: it exports nothing, it has `declare` if `d` has or its
kind asks for it, and all else is as in `d`. -/
structure Declaration.MadeAmbient (d d' : Declaration) : Prop where
  id : d'.id = d.id
  pos : d'.pos = d.pos
  kind : d'.kind = d.kind
  exported : d'.modifiers.has .exported = false
  default : d'.modifiers.has .default = false
  declare : d'.modifiers.has .declare = true
    ↔ d.modifiers.has .declare = true ∨ d.tag ∈ DeclarationTag.declarable
  others : ∀ m, m ∉ Modifier.decided → d'.modifiers.has m = d.modifiers.has m

/-- The statement `s'` is `s` made ambient; only declarations change. -/
inductive Statement.MadeAmbient : Statement → Statement → Prop
  | declaration {d d' : Declaration} (h : d.MadeAmbient d') :
    Statement.MadeAmbient (.declaration d) (.declaration d')
  | other {s : Statement} (h : s.declaration? = none) : Statement.MadeAmbient s s

/-- The statements of a module made ambient one by one. -/
structure ModuleTree.MadeAmbient (t t' : ModuleTree) : Prop where
  module : t'.module = t.module
  path : t'.path = t.path
  statements : List.Forall₂ Statement.MadeAmbient t.statements t'.statements

/-! ## What is noted -/

/-- Whether a declaration is exported by its own modifiers. -/
def Declaration.isMarked (d : Declaration) : Bool :=
  d.modifiers.has .exported || d.modifiers.has .default

/-- An identity that a top-level declaration with `export` or `default` binds. -/
structure MarkedBinder where
  module : ModuleId
  declaration : Declaration
  id : DeclId

/-- The binders of a declaration that its modifiers mark as exported or default. -/
def Declaration.markedBinders (module : ModuleId) (d : Declaration) : List MarkedBinder :=
  if d.isMarked then (d.boundIds.filterMap fun i => i).map fun i => ⟨module, d, i⟩ else []

/-- The declarations at the top of a module. -/
def ModuleTree.declarations (t : ModuleTree) : List Declaration :=
  t.statements.filterMap Statement.declaration?

/-- The marked binders of modules in the order of their statements. -/
def markedBinders (trees : List ModuleTree) : List MarkedBinder :=
  trees.flatMap fun t => t.declarations.flatMap (Declaration.markedBinders t.module)

/-- The note `i` says what the declaration of `x` exported under its identity. -/
structure InlineExport.Notes (n : FinalNames) (x : MarkedBinder) (i : InlineExport) : Prop where
  module : i.module = x.module
  decl : i.decl = x.id
  names : ∃ bound, n.topLevel.get? x.id = some bound ∧ i.binding = bound.name
    ∧ i.exportedName = if x.declaration.modifiers.has .default then "default" else bound.given

namespace Ambient

/-! ## One declaration -/

theorem has_stripped (d : Declaration) (m : Modifier) :
    (stripped d).modifiers.has m = (m ≠ .exported && m ≠ .default && d.modifiers.has m) := by
  cases m <;> simp [stripped]

theorem has_declared (d : Declaration) (m : Modifier) : (declared d).modifiers.has m
    = (d.modifiers.has m || (m = .declare && d.tag.requiresDeclare)) := by
  unfold declared
  split <;> cases m <;> simp_all

/-- Adding `declare` changes nothing but modifiers. -/
theorem frame_declared (d : Declaration) :
    (declared d).id = d.id ∧ (declared d).pos = d.pos ∧ (declared d).kind = d.kind := by
  unfold declared
  split <;> exact ⟨rfl, rfl, rfl⟩

theorem tag_declared (d : Declaration) : (declared d).tag = d.tag :=
  congrArg DeclarationKind.tag (frame_declared d).2.2

/-- A declaration that differs from `d` in its modifiers at most is told by them. -/
theorem eq_of_has {d d' : Declaration} (h : d'.id = d.id ∧ d'.pos = d.pos ∧ d'.kind = d.kind)
    (hm : ∀ m, d'.modifiers.has m = d.modifiers.has m) : d' = d := by
  obtain ⟨hid, hpos, hkind⟩ := h
  have hmods : d'.modifiers = d.modifiers := Modifiers.ext_has hm
  cases d
  cases d'
  simp_all

theorem declared_stripped (d : Declaration) : declared (stripped d) = stripped (declared d) := by
  obtain ⟨hid, hpos, hkind⟩ := frame_declared d
  obtain ⟨hid', hpos', hkind'⟩ := frame_declared (stripped d)
  refine eq_of_has ⟨hid'.trans hid.symm, hpos'.trans hpos.symm, hkind'.trans hkind.symm⟩
    fun m => ?_
  have htag : (stripped d).tag = d.tag := rfl
  rw [has_declared, has_stripped, has_stripped, has_declared, htag]
  cases m <;> simp

theorem declared_declared (d : Declaration) : declared (declared d) = declared d := by
  refine eq_of_has (frame_declared (declared d)) fun m => ?_
  rw [has_declared (declared d), tag_declared, has_declared, Bool.or_assoc, Bool.or_self]

theorem stripped_stripped (d : Declaration) : stripped (stripped d) = stripped d := by
  refine eq_of_has ⟨rfl, rfl, rfl⟩ fun m => ?_
  simp only [has_stripped]
  cases m <;> simp

/-- After both passes a declaration is what it was, made ambient. -/
theorem ambient_stripped_declared (d : Declaration) : d.MadeAmbient (stripped (declared d)) where
  id := (frame_declared d).1
  pos := (frame_declared d).2.1
  kind := (frame_declared d).2.2
  exported := by simp [has_stripped]
  default := by simp [has_stripped]
  declare := by simp [has_stripped, has_declared, DeclarationTag.requiresDeclare_iff]
  others m hm := by
    simp only [Modifier.decided, List.mem_cons, List.not_mem_nil, or_false, not_or] at hm
    simp [has_stripped, has_declared, hm]

/-! ## All modules -/

/-- A pass after another, as one pass. -/
theorem mapDeclarations_mapDeclarations (f g : Declaration → Declaration)
    (trees : List ModuleTree) :
    mapDeclarations f (mapDeclarations g trees) = mapDeclarations (fun d => f (g d)) trees := by
  simp only [mapDeclarations, List.map_map]
  refine List.map_congr_left fun t _ => ?_
  simp only [Function.comp, List.map_map, ModuleTree.mk.injEq, true_and]
  refine List.map_congr_left fun s _ => ?_
  cases s <;> rfl

/-- A pass changes the top-level declarations one by one, and nothing else. -/
theorem forall₂_mapDeclarations {f : Declaration → Declaration}
    (hf : ∀ d : Declaration, d.MadeAmbient (f d)) (trees : List ModuleTree) :
    List.Forall₂ ModuleTree.MadeAmbient trees (mapDeclarations f trees) := by
  rw [mapDeclarations, List.forall₂_map_right_iff, List.forall₂_same]
  refine fun t _ => ⟨rfl, rfl, ?_⟩
  rw [List.forall₂_map_right_iff, List.forall₂_same]
  intro s _
  cases s with
  | declaration d => exact .declaration (hf d)
  | _ => exact .other rfl

theorem addDeclare_dropExports (trees : List ModuleTree) :
    addDeclare (dropExports trees) = dropExports (addDeclare trees) := by
  simp only [addDeclare, dropExports, mapDeclarations_mapDeclarations, declared_stripped]

theorem addDeclare_addDeclare (trees : List ModuleTree) :
    addDeclare (addDeclare trees) = addDeclare trees := by
  simp only [addDeclare, mapDeclarations_mapDeclarations, declared_declared]

theorem dropExports_dropExports (trees : List ModuleTree) :
    dropExports (dropExports trees) = dropExports trees := by
  simp only [dropExports, mapDeclarations_mapDeclarations, stripped_stripped]

/-! ## Notes -/

variable (n : FinalNames)

theorem inlineExports_eq (trees : List ModuleTree) : inlineExports n trees
    = trees.flatMap fun t => t.declarations.flatMap (declarationInlineExports n t.module) := by
  refine List.flatMap_congr fun t _ => ?_
  rw [ModuleTree.declarations]
  induction t.statements with
  | nil => rfl
  | cons s ss ih => cases s <;> simp [List.filterMap_cons, Statement.declaration?, ih]

theorem declarations_mapDeclarations (f : Declaration → Declaration) (trees : List ModuleTree) :
    (mapDeclarations f trees).map (fun t => (t.module, t.declarations))
      = trees.map fun t => (t.module, t.declarations.map f) := by
  simp only [mapDeclarations, List.map_map]
  refine List.map_congr_left fun t _ => ?_
  simp only [Function.comp, ModuleTree.declarations, Prod.mk.injEq, true_and]
  induction t.statements with
  | nil => rfl
  | cons s ss ih => cases s <;> simp [List.filterMap_cons, Statement.declaration?, ih]

/-- What is noted after a pass is what is noted of the changed declarations. -/
theorem inlineExports_mapDeclarations (f : Declaration → Declaration) (trees : List ModuleTree) :
    inlineExports n (mapDeclarations f trees) = trees.flatMap fun t =>
      t.declarations.flatMap fun d => declarationInlineExports n t.module (f d) := by
  have h := congrArg (List.flatMap fun x : ModuleId × List Declaration =>
    x.2.flatMap (declarationInlineExports n x.1)) (declarations_mapDeclarations f trees)
  simpa only [inlineExports_eq, List.flatMap_map] using h

theorem boundIds_declared (d : Declaration) : (declared d).boundIds = d.boundIds := by
  obtain ⟨hid, -, hkind⟩ := frame_declared d
  rw [Declaration.boundIds, hid, hkind, Declaration.boundIds]

theorem inlineExports_addDeclare (trees : List ModuleTree) :
    inlineExports n (addDeclare trees) = inlineExports n trees := by
  rw [addDeclare, inlineExports_mapDeclarations, inlineExports_eq]
  refine List.flatMap_congr fun t _ => List.flatMap_congr fun d _ => ?_
  have hexported := has_declared d .exported
  have hdefault := has_declared d .default
  simp only [Modifiers.has, reduceCtorEq, decide_false, Bool.false_and, Bool.or_false]
    at hexported hdefault
  rw [declarationInlineExports, hexported, hdefault, boundIds_declared, declarationInlineExports]

theorem declarationInlineExports_of_not_marked {d : Declaration} (h : d.isMarked = false)
    (module : ModuleId) : declarationInlineExports n module d = [] :=
  if_neg (ne_true_of_eq_false h)

theorem inlineExports_dropExports (trees : List ModuleTree) :
    inlineExports n (dropExports trees) = [] := by
  rw [dropExports, inlineExports_mapDeclarations, List.flatMap_eq_nil_iff]
  refine fun t _ => List.flatMap_eq_nil_iff.2 fun d _ => ?_
  refine declarationInlineExports_of_not_marked n ?_ t.module
  simp [Declaration.isMarked, has_stripped]

/-- One declaration notes each of its marked binders that has a final name, in order. -/
theorem notes_declaration (module : ModuleId) (d : Declaration) :
    List.Forall₂ (InlineExport.Notes n)
      ((d.markedBinders module).filter fun x => n.topLevel.contains x.id)
      (declarationInlineExports n module d) := by
  rw [Declaration.markedBinders]
  cases hm : d.isMarked with
  | false =>
    rw [declarationInlineExports_of_not_marked n hm]
    exact .nil
  | true =>
    have hnoted : declarationInlineExports n module d = d.boundIds.filterMap _ := if_pos hm
    rw [if_pos rfl, hnoted]
    induction d.boundIds with
    | nil => exact .nil
    | cons i is ih =>
      cases i with
      | none => exact ih
      | some id =>
        cases hb : n.topLevel.get? id with
        | none => simpa [Table.contains, hb] using ih
        | some bound =>
          have hnotes : InlineExport.Notes n ⟨module, d, id⟩
              ⟨id, module, bound.name, if d.modifiers.default then "default" else bound.given⟩ :=
            ⟨rfl, rfl, bound, hb, rfl, rfl⟩
          simpa [Table.contains, hb, hnotes] using ih

theorem notes_inlineExports (trees : List ModuleTree) :
    List.Forall₂ (InlineExport.Notes n)
      ((markedBinders trees).filter fun x => n.topLevel.contains x.id) (inlineExports n trees) := by
  rw [inlineExports_eq, markedBinders, List.filter_flatMap]
  refine List.rel_flatMap (R := Eq) (List.forall₂_eq_eq_eq ▸ rfl) fun t _ ht => ?_
  subst ht
  rw [List.filter_flatMap]
  refine List.rel_flatMap (R := Eq) (List.forall₂_eq_eq_eq ▸ rfl) fun d _ hd => ?_
  exact hd ▸ notes_declaration n t.module d

/-- The passes over the modules of a bundle can be run in either order: the modules are the same
and so is what is noted. Running either again changes nothing and notes nothing more. Each top-level
declaration is made ambient and all else stays, and each binder of a declaration with `export` or
`default` that has a final name is noted once, in the order of the statements. -/
theorem passes_commute (trees : List ModuleTree) :
    addDeclare (dropExports trees) = dropExports (addDeclare trees)
      ∧ inlineExports n (addDeclare trees) = inlineExports n trees
      ∧ addDeclare (addDeclare trees) = addDeclare trees
      ∧ dropExports (dropExports trees) = dropExports trees
      ∧ inlineExports n (dropExports trees) = []
      ∧ List.Forall₂ ModuleTree.MadeAmbient trees (dropExports (addDeclare trees))
      ∧ List.Forall₂ (InlineExport.Notes n)
        ((markedBinders trees).filter fun x => n.topLevel.contains x.id)
        (inlineExports n trees) := by
  refine ⟨addDeclare_dropExports trees, inlineExports_addDeclare n trees,
    addDeclare_addDeclare trees, dropExports_dropExports trees, inlineExports_dropExports n trees,
    ?_, notes_inlineExports n trees⟩
  rw [dropExports, addDeclare, mapDeclarations_mapDeclarations]
  exact forall₂_mapDeclarations ambient_stripped_declared trees

end Ambient

end DeclBundle
