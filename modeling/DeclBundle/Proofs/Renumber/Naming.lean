import DeclBundle.Bundle
import DeclBundle.Proofs.Names.Naming
import DeclBundle.Proofs.Renumber.Bodies
import DeclBundle.Proofs.Renumber.Print

/-!
# Named modules under other numbers

When the same names are chosen, what is left of a module becomes the same under them
(`Store.Embeds.named`), for a unit names all modules that its import types come from. Making the
declarations ambient keeps this, and so do the notes of what they exported.
-/

namespace DeclBundle

/-- The note of an inline export with its identities renumbered. -/
def InlineExport.renumber (ρ : Renumbering) (i : InlineExport) : InlineExport :=
  { i with decl := ρ.decl i.decl, module := ρ.module i.module }

/-! ## Declarations under their final names -/

namespace Declaration

variable (f : DeclId → DeclId) (d : Declaration)

theorem id_renumber : (d.renumber f).id = d.id.map f := by
  cases d
  rfl

theorem setName_renumber (name : String) :
    (d.renumber f).setName name = (d.setName name).renumber f := by
  obtain ⟨id, modifiers, pos, kind⟩ := d
  cases kind <;> rfl

end Declaration

namespace Naming

variable (ρ : Renumbering) (n : FinalNames)

theorem bind_get?_renumber (i : Option DeclId) :
    (i.map ρ.decl).bind (n.renumber ρ).get? = i.bind n.get? := by
  cases i with
  | none => rfl
  | some id => exact n.get?_renumber ρ id

theorem underFinalName_renumber (d : Declaration) :
    underFinalName (n.renumber ρ) (d.renumber ρ.decl) = (underFinalName n d).renumber ρ.decl := by
  have hname := bind_get?_renumber ρ n d.id
  rw [← d.id_renumber ρ.decl] at hname
  have hset := d.setName_renumber ρ.decl
  obtain ⟨id, modifiers, pos, kind⟩ := d
  cases kind with
  | variableList flavor ds =>
    have hds : (ds.map (Declarator.renumber ρ.decl)).map (renameDeclarator (n.renumber ρ))
        = (ds.map (renameDeclarator n)).map (Declarator.renumber ρ.decl) := by
      rw [List.map_map, List.map_map]
      refine List.map_congr_left fun v _ => ?_
      simp only [Function.comp_apply, renameDeclarator, Declarator.renumber,
        bind_get?_renumber ρ n]
    simp only [underFinalName, Declaration.renumber, DeclarationKind.renumber, hds]
  | _ =>
    simp only [Declaration.renumber, DeclarationKind.renumber] at hname hset
    simp only [underFinalName, Declaration.renumber, DeclarationKind.renumber, hname]
    split
    · exact hset _
    · rfl

end Naming

/-! ## Modules under their final names -/

/-- The import types in what is left of a module are among what its unit names. -/
theorem Shake.importsIn_modules {s : Store} {ms : List ModuleId} {r : Reach} {t : ModuleTree}
    (ht : t ∈ modules s ms r) {u : DeclUnit} (hu : s.get? t.module = some u) {d : Declaration}
    (hd : .declaration d ∈ t.statements) :
    NamePlace.ImportsIn (· ∈ u.specifiers) (NamePlace.inDeclaration d) := by
  obtain ⟨-, u', hu', -, st, hst, hkept⟩ := mem_statements_modules ht hd
  cases Option.some.inj (hu.symm.trans hu')
  obtain ⟨d₀, rfl, hsub⟩ := analyses_statement? hkept
  intro spot hspot specifier qualifier isTypeOf hm
  obtain ⟨p, hp, rfl⟩ := List.mem_map.1 hspot
  have hr : p.reported [] = some (.importType specifier qualifier) := by
    rw [NamePlace.reported, Spot.reported, hm, Mention.reported]
  obtain ⟨b, hb, hr⟩ := NamePlace.exists_analysis hp hr
  exact DeclUnit.mem_specifiers hst (List.mem_map.2 ⟨b, hsub b hb, rfl⟩) hr

namespace Store.Embeds

variable {ρ : Renumbering} {s s' : Store} {S : ModuleId → Prop} (h : s.Embeds ρ s' S)
  (options : Options) (n : FinalNames)
include h

/-- A module that sees the same gives the same names to what its unit refers to. -/
theorem like_site {m : ModuleId} {u : DeclUnit} (hm : S m) (hu : s.get? m = some u) :
    (Naming.site (s.linker options) n m).Like ρ (· ∈ u.specifiers)
      (Naming.site (s'.linker options) (n.renumber ρ) (ρ.module m)) where
  outer := by
    funext name
    have hw := Linker.within_resolveLocal (h.linker_closed options) hm name
    simp only [Naming.site, h.resolveLocal options hm, Prod.map_fst, h.resolved? options n hw]
  importRoot {x} hx := by
    funext qualifier
    simp only [Naming.site, Store.lookup_linker, h.lookup hm hu hx]
    cases hl : s.lookup x with
    | none => simp only [Option.map_none, Option.bind_eq_bind, Option.bind_none]
    | some target =>
      have ht := h.closed hm hu hx hl
      cases qualifier with
      | none => exact h.resolved? options n (r := .namespaceOf target) ht
      | some name =>
        have hw := Linker.within_resolveExport (h.linker_closed options) ht name
        simp only [Option.map_some, Option.bind_eq_bind, Option.bind_some,
          h.resolveExport options ht, Prod.map_fst, h.resolved? options n hw]
  scopes := rfl
  locals := rfl

/-- What is left of a module is the same under the same final names. -/
theorem named {ms : List ModuleId} {r : Reach} {t : ModuleTree} (ht : t ∈ Shake.modules s ms r)
    (hm : S t.module) :
    (Naming.tree (s'.linker options) (n.renumber ρ) (t.renumber ρ)).value
      = (Naming.tree (s.linker options) n t).value.renumber ρ := by
  obtain ⟨-, u, hu, -⟩ := Shake.mem_modules.1 ht
  have hlike := h.like_site options n hm hu
  simp only [Naming.tree, ModuleTree.renumber, Statement.renumberList_eq, List.map_map]
  congr 1
  refine List.map_congr_left fun st hst => ?_
  cases st with
  | declaration d =>
    have hi := Shake.importsIn_modules ht hu hst
    rw [← NamePlace.inDeclaration_underFinalName n d] at hi
    simp only [Function.comp_apply, Statement.renumber, Naming.statement,
      Naming.underFinalName_renumber, Named.value_bind, Named.value_pure,
      Rename.declaration_renumber ρ.decl _ hlike hi]
  | verbatim tokens pos =>
    simp only [Function.comp_apply, Statement.renumber, Naming.statement, Named.value_pure,
      Rename.tokens_congr hlike]
  | _ => rfl

end Store.Embeds

/-! ## Ambient declarations -/

namespace Ambient

theorem mapDeclarations_renumber {ρ : Renumbering} {g : Declaration → Declaration}
    (hg : ∀ d, g (d.renumber ρ.decl) = (g d).renumber ρ.decl) (trees : List ModuleTree) :
    mapDeclarations g (trees.map (ModuleTree.renumber ρ))
      = (mapDeclarations g trees).map (ModuleTree.renumber ρ) := by
  simp only [mapDeclarations, List.map_map]
  refine List.map_congr_left fun t _ => ?_
  simp only [Function.comp_apply, ModuleTree.renumber, Statement.renumberList_eq, List.map_map]
  congr 1
  refine List.map_congr_left fun st _ => ?_
  cases st with
  | declaration d => simp only [Function.comp_apply, Statement.renumber, hg]
  | _ => rfl

theorem declared_renumber (f : DeclId → DeclId) (d : Declaration) :
    declared (d.renumber f) = (declared d).renumber f := by
  have ht := d.tag_renumber f
  rw [declared, ht, declared]
  cases d
  split <;> rfl

theorem stripped_renumber (f : DeclId → DeclId) (d : Declaration) :
    stripped (d.renumber f) = (stripped d).renumber f := by
  cases d
  rfl

variable (ρ : Renumbering) (trees : List ModuleTree)

theorem addDeclare_renumber : addDeclare (trees.map (ModuleTree.renumber ρ))
    = (addDeclare trees).map (ModuleTree.renumber ρ) :=
  mapDeclarations_renumber (declared_renumber ρ.decl) trees

theorem dropExports_renumber : dropExports (trees.map (ModuleTree.renumber ρ))
    = (dropExports trees).map (ModuleTree.renumber ρ) :=
  mapDeclarations_renumber (stripped_renumber ρ.decl) trees

theorem declarationInlineExports_renumber (n : FinalNames) (m : ModuleId) (d : Declaration) :
    declarationInlineExports (n.renumber ρ) (ρ.module m) (d.renumber ρ.decl)
      = (declarationInlineExports n m d).map (InlineExport.renumber ρ) := by
  simp only [declarationInlineExports, d.modifiers_renumber, d.boundIds_renumber]
  split
  · rw [List.filterMap_map, List.map_filterMap]
    refine List.filterMap_congr fun i _ => ?_
    cases i with
    | none => rfl
    | some id =>
      have hget : (n.renumber ρ).topLevel.get? (ρ.decl id)
          = (n.topLevel.get? id).map (FinalName.renumber ρ) :=
        Table.get?_map ρ.decl_injective _ n.topLevel id
      simp only [Function.comp_apply, Option.map_some, Option.bind_eq_bind, Option.bind_some, hget]
      cases n.topLevel.get? id <;> rfl
  · rfl

theorem inlineExports_renumber (n : FinalNames) :
    inlineExports (n.renumber ρ) (trees.map (ModuleTree.renumber ρ))
      = (inlineExports n trees).map (InlineExport.renumber ρ) := by
  simp only [inlineExports, List.flatMap_map, List.map_flatMap, ModuleTree.renumber,
    Statement.renumberList_eq]
  refine List.flatMap_congr fun t _ => List.flatMap_congr fun st _ => ?_
  cases st with
  | declaration d => exact declarationInlineExports_renumber ρ n t.module d
  | _ => rfl

end Ambient

/-! ## What is written -/

namespace Bundler

variable (ρ : Renumbering)

theorem placedStatements_renumber (trees : List ModuleTree) :
    placedStatements (trees.map (ModuleTree.renumber ρ))
      = (placedStatements trees).map (PlacedStatement.renumber ρ.decl) := by
  simp only [placedStatements, List.flatMap_map, List.map_flatMap, ModuleTree.renumber,
    Statement.renumberList_eq, List.filterMap_map, List.map_filterMap]
  refine List.flatMap_congr fun t _ => List.filterMap_congr fun st _ => ?_
  cases st with
  | declaration d =>
    cases d
    rfl
  | _ => rfl

theorem libraryImports_renumber (n : FinalNames) :
    libraryImports (n.renumber ρ) = libraryImports n := by
  have hstep : ∀ t row, addLibraryBinding (n.renumber ρ) t (Prod.map id ρ.decl row)
      = addLibraryBinding n t row := by
    intro t (ref, id)
    simp only [Prod.map_apply, addLibraryBinding, n.get?_renumber ρ, id_eq]
  have hrows : (n.renumber ρ).externals.rows = n.externals.rows.map (Prod.map id ρ.decl) := rfl
  simp only [libraryImports, hrows, List.foldl_map, hstep]

end Bundler

end DeclBundle
