import DeclBundle.Proofs.Bundle.Closed
import DeclBundle.Proofs.Names.Capture

/-!
# The references of what is written

Every declaration of a bundle refers under its final names to the images of what it referred to,
unless a reference is captured or a name freed on the way. When exactly that changes the references
is `references_rewritten_iff`: final names keep away from type parameters, mapped keys and members
of namespaces, but a parameter keeps its name and captures what gets the same one.
-/

namespace DeclBundle

theorem FinalNames.Sound.taken_of_resolved {c : NamingContext} {reserved : List String}
    {firstId : DeclId} {rs : List Request} {n : FinalNames} (h : n.Sound c reserved firstId rs)
    {l : Linker} {x : String} : ∀ {r : Resolution}, n.resolved? l r = some x → x ∈ n.scopes.taken
  | .declaration id, hr => by
    obtain ⟨info, -, hs⟩ := Option.bind_eq_some_iff.1 hr
    exact h.name_taken (o := .symbol info.module info.name) hs
  | .namespaceOf module, hr => h.name_taken (o := .namespaceOf module) hr
  | .external ref, hr => h.name_taken (o := .library ref) hr

theorem Site.Top.underFinalName {o : Site} {reserve : Bool} {d : Declaration}
    (h : o.Top reserve d) (n : FinalNames) : o.Top reserve (Naming.underFinalName n d) :=
  { h with
    global_taken := by
      rw [NamePlace.inDeclaration_underFinalName]
      exact h.global_taken }

/-- A top-level declaration under final names. -/
def Naming.rewritten (n : FinalNames) (s : Site) (d : Declaration) : Declaration :=
  (Rename.declaration s (underFinalName n d)).value

namespace Bundler

variable {store : Store} (hb : store.Built) (options : Options) (entry : Entry)
  (entryId : ModuleId)

/-- The site of the top-level statements of a module. -/
def site (b : Bundler) (entry : Entry) (entryId module : ModuleId) : Site :=
  Naming.site b.linker (b.names entry entryId) module

include hb in
theorem top_site {t : ModuleTree} (ht : t ∈ (ofStore store options).shaken entry entryId)
    {d : Declaration} (hd : .declaration d ∈ t.statements) :
    ((ofStore store options).site entry entryId t.module).Top options.reserveGlobals d where
  locals_eq := rfl
  outer_taken name x hx := (sound_names hb options entry entryId).taken_of_resolved hx
  importRoot_taken specifier qualifier x hx := by
    obtain ⟨target, -, hx⟩ := Option.bind_eq_some_iff.1 hx
    exact (sound_names hb options entry entryId).taken_of_resolved hx
  global_taken hres p hp name hr hn := by
    obtain ⟨⟨i, a⟩, hi, ha⟩ := NamePlace.exists_analysis hp hr
    have hu : (ofStore store options).Uses entry entryId t.module (.name name) :=
      .declaration ht rfl hd hi ha
    have hun : (store.linker options).resolveReference t.module (.name name) = .unresolved := by
      by_contra hne
      obtain ⟨x, hx, -⟩ := introduces_of_uses hb options entry entryId hu hne
      exact absurd (hn.symm.trans hx) (by simp)
    refine (sound_names hb options entry entryId).reserved_taken ?_
    rw [reserved]
    exact (if_pos hres).symm ▸ hu.mem_globals hb options entry entryId hun

theorem rewritten_mem_trees {t : ModuleTree}
    (ht : t ∈ (ofStore store options).shaken entry entryId) {d : Declaration}
    (hd : .declaration d ∈ t.statements) :
    ∃ t' ∈ (ofStore store options).renamed entry entryId, t'.module = t.module
      ∧ .declaration (Naming.rewritten ((ofStore store options).names entry entryId)
          ((ofStore store options).site entry entryId t.module) d) ∈ t'.statements := by
  refine ⟨_, List.mem_map.2 ⟨t, ht, rfl⟩, rfl, ?_⟩
  simp only [Naming.tree, List.map_map]
  exact List.mem_map.2 ⟨_, hd, rfl⟩

/-- A declaration that survives refers under its final names to the images of what it referred to,
exactly if the image of all that is captured is referred to at another place and all that is freed
is the image of another place. At each place the image is found unless it is captured or the place
is freed. -/
theorem references_rewritten_iff {store : Store} (hb : store.Built) (options : Options)
    (entry : Entry) {bundle : Bundle} (h : (ofStore store options).bundle entry = .ok bundle) :
    ∃ entryId, store.lookup entry.module = some entryId ∧
      ∀ t ∈ (ofStore store options).shaken entry entryId, ∀ d, .declaration d ∈ t.statements →
        let s := Naming.site (store.linker options) bundle.naming.names t.module
        let d' := Naming.rewritten bundle.naming.names s d
        (∃ t' ∈ bundle.naming.trees, t'.module = t.module ∧ .declaration d' ∈ t'.statements)
        ∧ (∀ r, r ∈ (Analysis.declaration d).references
            ↔ ∃ p ∈ NamePlace.inDeclaration d, p.reported [] = some r)
        ∧ ((∀ r, r ∈ (Analysis.declaration d').references
              ↔ ∃ p ∈ NamePlace.inDeclaration d, p.image s = some r)
            ↔ (∀ p ∈ NamePlace.inDeclaration d, p.Captured s options.reserveGlobals →
                ∀ r, p.image s = some r → r ∈ (Analysis.declaration d').references)
              ∧ ∀ p ∈ NamePlace.inDeclaration d, p.Freed s →
                ∀ r, p.found { site := s } = some r →
                  ∃ q ∈ NamePlace.inDeclaration d, q.image s = some r)
        ∧ ∀ p ∈ NamePlace.inDeclaration d, p.found { site := s } = p.image s
            ↔ ¬ p.Captured s options.reserveGlobals ∧ ¬ p.Freed s := by
  obtain ⟨entryId, hid, rfl⟩ := bundle_ok _ entry h
  refine ⟨entryId, hid, fun t ht d hd => ?_⟩
  have htop := top_site hb options entry entryId ht hd
  refine ⟨?_, fun r => mem_references_declaration, ?_, fun p hp => ?_⟩
  · rw [trees_bundleModule]
    exact rewritten_mem_trees options entry entryId ht hd
  · have hiff := NamePlace.references_iff
      (htop.underFinalName ((ofStore store options).names entry entryId))
    rw [NamePlace.inDeclaration_underFinalName] at hiff
    exact hiff
  · exact NamePlace.found_eq_image_iff htop hp

/-! ## A parameter that captures -/

/-- A function with a parameter and the type of a value from another module, both of which have the
name `x` in a bundle. -/
def shadowingFunction : Declaration :=
  ⟨some 0, { exported := true }, none,
    .function (some "f") [] [⟨"x", .none, false, false, some (.query (.ofText "y") [])⟩] none⟩

/-- Module `a.ts` imports `x` of `b.ts` as `y` and has the function `shadowingFunction`. -/
def shadowingUnits : List DeclUnit :=
  [⟨"a.ts", [.imports ⟨"b.ts", none, none, [⟨"x", "y"⟩], false⟩, .declaration shadowingFunction]⟩,
    ⟨"b.ts", [.declaration ⟨none, { exported := true }, none,
      .variableList .constant [⟨none, "x", some (.keyword "string"), none⟩]⟩]⟩]

/-- The store of `shadowingUnits`. -/
def shadowingStore : Store := ((Store.ofUnits shadowingUnits).toOption).getD {}

theorem sources_shadowing : (ofStore shadowingStore {}).sources 0 = [0, 1] :=
  List.mergeSort_of_pairwise (l := [0, 1]) (by decide)

/-- The reference to the value is lost: in the bundle the parameter has its name. -/
theorem references_rewritten_shadowing :
    ∃ bundle t, Store.ofUnits shadowingUnits = .ok shadowingStore
      ∧ (ofStore shadowingStore {}).bundle ⟨"a.ts", "a.d.ts", none⟩ = .ok bundle
      ∧ t ∈ (ofStore shadowingStore {}).shaken ⟨"a.ts", "a.d.ts", none⟩ 0
      ∧ .declaration shadowingFunction ∈ t.statements
      ∧ let s := Naming.site (shadowingStore.linker {}) bundle.naming.names t.module
        let d' := Naming.rewritten bundle.naming.names s shadowingFunction
        ¬ ∀ r, r ∈ (Analysis.declaration d').references
          ↔ ∃ p ∈ NamePlace.inDeclaration shadowingFunction, p.image s = some r := by
  have hu : Store.ofUnits shadowingUnits = .ok shadowingStore := rfl
  have ht : ∃ t ∈ (ofStore shadowingStore {}).shaken ⟨"a.ts", "a.d.ts", none⟩ 0,
      t.module = 0 ∧ .declaration shadowingFunction ∈ t.statements := by
    simp only [shaken, reached, sources_shadowing]
    exact ⟨_, List.mem_cons_self, rfl, List.mem_cons_of_mem _ List.mem_cons_self⟩
  obtain ⟨t, ht, hm, hd⟩ := ht
  refine ⟨_, t, hu, rfl, ht, hd, fun heq => ?_⟩
  obtain ⟨entryId, hid, hall⟩ :=
    references_rewritten_iff (Store.built_ofUnits hu) {} ⟨"a.ts", "a.d.ts", none⟩ rfl
  cases (Option.some.inj hid : 0 = entryId)
  obtain ⟨-, -, hiff, -⟩ := hall t ht _ hd
  rw [names_bundleModule, hm] at heq hiff
  have himage : (⟨[], ⟨[.types [], .parameters ["x"]], .name "y" .value⟩⟩ : NamePlace).image
      ((ofStore shadowingStore {}).site ⟨"a.ts", "a.d.ts", none⟩ 0 0) = some (.name "x") := by
    simp only [site, names, context, reserved, shaken, reached, sources_shadowing]
    decide +kernel
  have hlost := (hiff.1 heq).1 _ List.mem_cons_self
    (.parameter himage (by decide) (by decide)) _ himage
  revert hlost
  simp only [Naming.rewritten, names, context, reserved, shaken, reached, sources_shadowing]
  decide +kernel

end Bundler

end DeclBundle
