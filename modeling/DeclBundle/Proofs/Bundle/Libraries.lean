import DeclBundle.Proofs.Bundle.Identities
import DeclBundle.Proofs.Bundle.Imports

/-!
# What is reached is bound once

The library bindings and namespaces that are reached are those that are given an identity, each one
of its own (`Bundler.keys_names`). The import list has one item per library, in the order in which
libraries are first bound, with the bindings of the library in the order in which they are bound
(`Bundler.libraryImports_eq`).
-/

namespace DeclBundle

namespace FinalNames

/-- The item of a library that imports those of `refs` that are its own, under their final names:
its namespace, and the others in order. -/
def libraryItem (n : FinalNames) (refs : List LibraryBinding) (specifier : String) :
    LibraryImport where
  specifier
  namespaceName :=
    if ⟨specifier, .all⟩ ∈ refs then n.nameOf? (.library ⟨specifier, .all⟩) else none
  named := (refs.filter fun ref => ref.specifier = specifier ∧ ref.remote ≠ .all).filterMap
    fun ref => (n.nameOf? (.library ref)).map (⟨ref.remote.name, ·⟩)

variable {n : FinalNames} {refs : List LibraryBinding} {specifier : String}

theorem libraryItem_of_new (h : specifier ∉ refs.map (·.specifier)) :
    n.libraryItem refs specifier = { specifier } := by
  have hne : ∀ ref ∈ refs, ref.specifier ≠ specifier := fun ref hr he =>
    h (List.mem_map.2 ⟨ref, hr, he⟩)
  have hall : (⟨specifier, .all⟩ : LibraryBinding) ∉ refs := fun hr => hne _ hr rfl
  have hnone : (refs.filter fun ref => ref.specifier = specifier ∧ ref.remote ≠ .all) = [] :=
    List.filter_eq_nil_iff.2 fun ref hr => by simp [hne ref hr]
  rw [libraryItem, if_neg hall, hnone]
  rfl

/-- Another library's binding adds nothing to an item. -/
theorem libraryItem_concat_of_ne {ref : LibraryBinding} (h : ref.specifier ≠ specifier) :
    n.libraryItem (refs ++ [ref]) specifier = n.libraryItem refs specifier := by
  have hall : (⟨specifier, .all⟩ : LibraryBinding) ≠ ref := by
    rintro rfl
    exact h rfl
  simp [libraryItem, h, hall]

/-- The library's own namespace is added as that. -/
theorem libraryItem_concat_all {name : String}
    (hn : n.nameOf? (.library ⟨specifier, .all⟩) = some name) :
    n.libraryItem (refs ++ [⟨specifier, .all⟩]) specifier
      = { n.libraryItem refs specifier with namespaceName := some name } := by
  simp [libraryItem, hn]

/-- Another binding of the library is added as the last one. -/
theorem libraryItem_concat_named {ref : LibraryBinding} {name : String} (hr : ref.remote ≠ .all)
    (hn : n.nameOf? (.library ref) = some name) :
    n.libraryItem (refs ++ [ref]) ref.specifier
      = { n.libraryItem refs ref.specifier with
          named := (n.libraryItem refs ref.specifier).named ++ [⟨ref.remote.name, name⟩] } := by
  have hall : (⟨ref.specifier, .all⟩ : LibraryBinding) ≠ ref := fun he => hr (by rw [← he])
  simp [libraryItem, hn, hr, hall]

end FinalNames

namespace Bundler

/-! ## The items of the libraries -/

/-- The items of the libraries after the bindings `refs`. -/
structure Itemized (n : FinalNames) (refs : List LibraryBinding) (t : Table String LibraryImport) :
    Prop where
  keys : t.keys = pushAllNew [] (refs.map (·.specifier))
  item : ∀ s, (t.get? s).getD { specifier := s } = n.libraryItem refs s

variable {n : FinalNames} {refs : List LibraryBinding} {t : Table String LibraryImport}

/-- One more named binding keeps the items in the order of their libraries: a library that has an
item keeps its place, and a new one comes last. -/
theorem Itemized.addLibraryBinding (h : Itemized n refs t) {ref : LibraryBinding} {id : DeclId}
    {name : String} (hid : n.get? id = some name) (hn : n.nameOf? (.library ref) = some name) :
    Itemized n (refs ++ [ref]) (addLibraryBinding n t (ref, id)) := by
  obtain ⟨specifier, remote⟩ := ref
  constructor
  · simp only [Bundler.addLibraryBinding, hid, Table.keys_insert, h.keys, pushAllNew,
      List.map_append, List.foldl_append]
    rfl
  · intro s
    simp only [Bundler.addLibraryBinding, hid, Table.get?_insert]
    by_cases hs : specifier = s
    · subst hs
      simp only [if_true, Option.getD_some, h.item]
      cases remote with
      | all => exact (FinalNames.libraryItem_concat_all hn).symm
      | _ => exact (FinalNames.libraryItem_concat_named (by simp) hn).symm
    · simp only [if_neg hs, h.item]
      exact (FinalNames.libraryItem_concat_of_ne hs).symm

theorem Itemized.foldl : ∀ {rows : List (LibraryBinding × DeclId)} {refs : List LibraryBinding}
    {t : Table String LibraryImport},
      (∀ row ∈ rows, ∃ name, n.get? row.2 = some name ∧ n.nameOf? (.library row.1) = some name) →
        Itemized n refs t →
          Itemized n (refs ++ rows.map Prod.fst) (rows.foldl (Bundler.addLibraryBinding n) t)
  | [], refs, t, _, h => by simpa using h
  | (ref, id) :: rows, refs, t, hnamed, h => by
    obtain ⟨name, hid, hn⟩ := hnamed (ref, id) List.mem_cons_self
    have hrest := (h.addLibraryBinding hid hn).foldl fun row hrow =>
      hnamed row (List.mem_cons_of_mem _ hrow)
    simpa using hrest

/-- Where all library bindings have names, the import list has one item per library in the order of
first binding, which imports the bindings of the library. -/
theorem libraryImports_eq (hnodup : n.externals.keys.Nodup)
    (hnamed : ∀ row ∈ n.externals.rows, ∃ name, n.get? row.2 = some name) :
    libraryImports n = (pushAllNew [] (n.externals.keys.map (·.specifier))).map
      (n.libraryItem n.externals.keys) := by
  have hempty : Itemized n [] {} := by
    refine ⟨rfl, fun s => ?_⟩
    rw [FinalNames.libraryItem_of_new (by simp)]
    rfl
  have hnames : ∀ row ∈ n.externals.rows,
      ∃ name, n.get? row.2 = some name ∧ n.nameOf? (.library row.1) = some name := by
    intro row hrow
    obtain ⟨name, hname⟩ := hnamed row hrow
    have hget : n.idOf? (.library row.1) = some row.2 := Table.get?_of_mem_rows hnodup hrow
    exact ⟨name, hname, (FinalNames.nameOf?_of_idOf? hget).trans hname⟩
  have h : Itemized n n.externals.keys (n.externals.rows.foldl (Bundler.addLibraryBinding n) {}) :=
    hempty.foldl hnames
  have hkeys := h.keys
  rw [libraryImports, ← hkeys]
  refine Table.values_eq_map_keys ?_ fun {s i} hi => ?_
  · rw [hkeys]
    exact nodup_pushAllNew _ List.nodup_nil
  · have hitem := h.item s
    rw [hi] at hitem
    exact hitem.symm

/-! ## What is reached -/

section Bundle

variable {store : Store} (hb : store.Built) (options : Options) (entry : Entry)
  (entryId : ModuleId)

include hb in
/-- What is given an identity is what is reached. -/
theorem keys_names : ((ofStore store options).names entry entryId).externals.keys.Perm
      ((ofStore store options).reached entry entryId).imports
    ∧ ((ofStore store options).names entry entryId).namespaces.keys.Perm
      ((ofStore store options).reached entry entryId).namespaces := by
  have hs := sound_names hb options entry entryId
  constructor
  · refine (List.perm_ext_iff_of_nodup hs.externals_nodup
      (DependencyGraph.nodup_imports_closure _ _ _).1).2 fun ref => ?_
    exact ⟨FinalNames.reached_of_external, fun hr => Table.mem_keys.2 (hs.exists_external hr)⟩
  · refine (List.perm_ext_iff_of_nodup hs.namespaces_nodup
      (DependencyGraph.nodup_namespaces_closure _ _ _)).2 fun m => ?_
    exact ⟨FinalNames.reached_of_namespace, fun hr => Table.mem_keys.2 (hs.exists_namespace hr)⟩

include hb in
/-- Together the items import what is reached, each binding once. -/
theorem locals_imports : ((libraryImports ((ofStore store options).names entry entryId)).flatMap
      LibraryImport.locals).Perm
    (((ofStore store options).reached entry entryId).imports.filterMap fun ref =>
      (((ofStore store options).names entry entryId).nameOf? (.library ref)).map
        (ref.specifier, ref.remote.name, ·)) := by
  have hs := sound_names hb options entry entryId
  refine (locals_libraryImports hs.externals_nodup).trans ?_
  have hrows : ((ofStore store options).names entry entryId).externals.rows.filterMap
        (importRow? ((ofStore store options).names entry entryId))
      = ((ofStore store options).names entry entryId).externals.keys.filterMap fun ref =>
          (((ofStore store options).names entry entryId).nameOf? (.library ref)).map
            (ref.specifier, ref.remote.name, ·) := by
    rw [Table.keys, List.filterMap_map]
    refine List.filterMap_congr fun row hrow => ?_
    have hname := FinalNames.nameOf?_of_idOf? (o := .library row.1)
      (Table.get?_of_mem_rows hs.externals_nodup hrow)
    simp only [Function.comp_apply, importRow?, hname]
  rw [hrows]
  exact (keys_names hb options entry entryId).1.filterMap _

end Bundle

/-- Whatever is bundled, the library bindings and namespaces that are given an identity are those
that are reached, each once. All these identities and those of the aliases are different and new,
and each has a row with its final name. The imports have one item per library, in the order in which
libraries are first bound, with its bindings in that order; together they import what is reached,
each binding once and under its final name. -/
theorem materialized_once {store : Store} (hb : store.Built) (options : Options) (entry : Entry)
    {bundle : Bundle} (h : (ofStore store options).bundle entry = .ok bundle) :
    ∃ entryId, store.lookup entry.module = some entryId ∧
      let reach := (ofStore store options).reached entry entryId
      let names := bundle.naming.names
      let ids := names.externals.values ++ names.namespaces.values
        ++ names.aliases.values.map (·.id)
      (names.externals.keys.Perm reach.imports ∧ names.externals.keys.Nodup)
        ∧ (names.namespaces.keys.Perm reach.namespaces ∧ names.namespaces.keys.Nodup)
        ∧ ids.Nodup
        ∧ (∀ id ∈ ids, store.nextId ≤ id ∧ ∃ b, names.topLevel.get? id = some b)
        ∧ bundle.file.imports = (pushAllNew [] (names.externals.keys.map (·.specifier))).map
            (names.libraryItem names.externals.keys)
        ∧ (∀ ref ∈ reach.imports, ∃ name, names.nameOf? (.library ref) = some name)
        ∧ (bundle.file.imports.flatMap LibraryImport.locals).Perm
            (reach.imports.filterMap fun ref =>
              (names.nameOf? (.library ref)).map (ref.specifier, ref.remote.name, ·)) := by
  obtain ⟨entryId, hid, rfl⟩ := bundle_ok _ entry h
  have hs := sound_names hb options entry entryId
  have hkeys := keys_names hb options entry entryId
  refine ⟨entryId, hid, ?_⟩
  rw [names_bundleModule, imports_bundleModule]
  intro reach names ids
  have hids : ids = names.givenOut.map Prod.snd := by
    simp [ids, FinalNames.givenOut, Table.values, Function.comp_def]
  refine ⟨⟨hkeys.1, hs.externals_nodup⟩, ⟨hkeys.2, hs.namespaces_nodup⟩, ?_, fun id hm => ?_,
    libraryImports_eq hs.externals_nodup fun row hrow => ?_, fun ref hr => ?_,
    locals_imports hb options entry entryId⟩
  · exact hids ▸ hs.nodup_givenOut
  · rw [hids] at hm
    obtain ⟨⟨o, id⟩, ho, rfl⟩ := List.mem_map.1 hm
    have hget := hs.idOf?_of_givenOut ho
    exact ⟨hs.id_ge hget, Table.mem_keys.1 (hs.id_key hget)⟩
  · exact hs.exists_name (o := .library row.1) (Table.get?_of_mem_rows hs.externals_nodup hrow)
  · obtain ⟨id, hget⟩ := hs.exists_external hr
    obtain ⟨name, hname⟩ := hs.exists_name (o := .library ref) hget
    exact ⟨name, (FinalNames.nameOf?_of_idOf? (o := .library ref) hget).trans hname⟩

/-- A module that imports from two libraries, from one of them in two statements, and exports all of
it. The other module takes from the same library and is used as a namespace. -/
def libraryUnits : List DeclUnit :=
  [⟨"a.ts", [.imports ⟨"lib", some "L", none, [⟨"Widget", "W"⟩], false⟩,
      .imports ⟨"other", none, none, [⟨"X", "X"⟩], false⟩,
      .imports ⟨"lib", none, some "all", [], false⟩,
      .imports ⟨"b.ts", some "D", some "b", [], false⟩,
      .exports ⟨[⟨"L", "L"⟩, ⟨"X", "X"⟩, ⟨"all", "all"⟩, ⟨"D", "D"⟩, ⟨"b", "b"⟩], none, false⟩]⟩,
    ⟨"b.ts", [.exports ⟨[⟨"Widget", "Gadget"⟩], some "lib", false⟩,
      .declaration ⟨none, { exported := true, default := true }, none, .interface "C" [] [] []⟩]⟩]

/-- The store of `libraryUnits`. -/
def libraryStore : Store := ((Store.ofUnits libraryUnits).toOption).getD {}

theorem sources_library : (ofStore libraryStore {}).sources 0 = [0, 1] :=
  List.mergeSort_of_pairwise (l := [0, 1]) (by decide)

/-- `Widget` is reached through the second module alone, and bound where the first one imports it. -/
theorem materialized_once_library : ∃ bundle, Store.ofUnits libraryUnits = .ok libraryStore
    ∧ (ofStore libraryStore {}).bundle ⟨"a.ts", "a.d.ts", none⟩ = .ok bundle
    ∧ bundle.naming.names.externals.keys
        = [⟨"lib", .default⟩, ⟨"lib", .named "Widget"⟩, ⟨"other", .named "X"⟩, ⟨"lib", .all⟩]
    ∧ bundle.naming.names.externals.keys.Perm
        ((ofStore libraryStore {}).reached ⟨"a.ts", "a.d.ts", none⟩ 0).imports
    ∧ (bundle.naming.names.externals.values ++ bundle.naming.names.namespaces.values
        ++ bundle.naming.names.aliases.values.map (·.id)) = [1, 2, 3, 4, 6, 5]
    ∧ bundle.file.imports
        = [⟨"lib", some "all", [⟨"default", "L"⟩, ⟨"Widget", "W"⟩]⟩, ⟨"other", none, [⟨"X", "X"⟩]⟩]
    := by
  have hu : Store.ofUnits libraryUnits = .ok libraryStore := rfl
  obtain ⟨entryId, hid, ⟨hperm, -⟩, -, -, -, himports, -⟩ :=
    materialized_once (Store.built_ofUnits hu) {} ⟨"a.ts", "a.d.ts", none⟩ rfl
  cases (Option.some.inj hid : 0 = entryId)
  refine ⟨_, hu, rfl, ?_, hperm, ?_, himports.trans ?_⟩ <;>
    simp only [names_bundleModule, names, context, reserved, shaken, reached, sources_library] <;>
    decide +kernel

end Bundler

end DeclBundle
