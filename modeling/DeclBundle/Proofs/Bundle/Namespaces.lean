import DeclBundle.Proofs.Bundle.Libraries
import DeclBundle.Proofs.Bundle.Within

/-!
# Namespaces are complete

A merge adds one block for every namespace that has been bound, and no other
(`MergeInput.blocks_merge`). Reachability has gone through the same surface that the block is
written from, so all of the surface that resolves has a final name (`Bundler.introduces_of_surface`)
and nothing is missing from the block (`Bundler.specifiers_of_reached`). Both look at one namespace
at a time, so it does not matter what namespaces hold each other.
-/

namespace DeclBundle

/-- The name of a namespace block and what its body exports. -/
def Statement.namespaceBlock? : Statement → Option (String × List ExportSpecifier)
  | .declaration ⟨_, _, _, .namespaceBlock name _ body⟩ =>
    some (name, body.flatMap fun
      | .exports ⟨specifiers, none, _⟩ => specifiers
      | _ => [])
  | _ => none

namespace MergeInput

variable (m : MergeInput)

/-! ## The blocks of a merge -/

theorem namespaceBlock?_namespaceStatement (module : ModuleId) (name : String) (id : DeclId) :
    (m.namespaceStatement module name id).namespaceBlock?
      = some (name, m.namespaceSpecifiers module) := by
  simp only [namespaceStatement, Statement.namespaceBlock?]
  cases m.namespaceSpecifiers module <;> simp

theorem blocks_aliasStatements (a : ImportAlias) (nextId : DeclId) :
    (m.aliasStatements a nextId).1.filterMap Statement.namespaceBlock? = [] := by
  rw [aliasStatements_eq]
  cases m.aliasNames? a with
  | none => rfl
  | some p =>
    simp only [valuePart, typePart, List.filterMap_append, List.append_eq_nil_iff]
    constructor <;> split <;> rfl

theorem blocks_foldl_addAlias : ∀ (as : List ImportAlias) (acc : List Statement × DeclId),
    (as.foldl m.addAlias acc).1.filterMap Statement.namespaceBlock?
      = acc.1.filterMap Statement.namespaceBlock?
  | [], acc => rfl
  | a :: as, acc => by
    rw [List.foldl_cons, blocks_foldl_addAlias as, addAlias, List.filterMap_append,
      blocks_aliasStatements, List.append_nil]

/-- The block of a namespace that has been bound, after its module. -/
def blockRow? (row : ModuleId × DeclId) : Option (ModuleId × String × List ExportSpecifier) :=
  (m.names.get? row.2).map (row.1, ·, m.namespaceSpecifiers row.1)

theorem blocks_foldl_addNamespace :
    ∀ (rows : List (ModuleId × DeclId)) (acc : List Statement × DeclId),
      (rows.foldl m.addNamespace acc).1.filterMap Statement.namespaceBlock?
        = acc.1.filterMap Statement.namespaceBlock? ++ (rows.filterMap m.blockRow?).map Prod.snd
  | [], acc => by simp
  | (module, id) :: rows, acc => by
    rw [List.foldl_cons, blocks_foldl_addNamespace rows, List.filterMap_cons]
    cases hn : m.names.get? id with
    | none => simp [addNamespace, blockRow?, hn]
    | some name =>
      simp [addNamespace, blockRow?, hn, namespaceBlock?_namespaceStatement]

/-- A merge adds the blocks of the namespaces that have been bound, in order. -/
theorem blocks_merge : m.merge.statements.filterMap Statement.namespaceBlock?
    = (m.names.namespaces.rows.filterMap m.blockRow?).map Prod.snd := by
  have h := m.blocks_foldl_addNamespace m.names.namespaces.rows
    (m.names.aliases.values.foldl m.addAlias ([], m.names.nextId))
  rw [blocks_foldl_addAlias] at h
  exact h

end MergeInput

namespace Bundler

/-! ## What a namespace holds -/

section

variable {store : Store} (hb : store.Built) (options : Options) (entry : Entry)
  (entryId : ModuleId) {module : ModuleId}
  (hm : module ∈ ((ofStore store options).reached entry entryId).namespaces)
include hb hm

/-- What the module of a namespace that is reached exports has a final name that the bundle
introduces. A namespace leads to all that its surface leads to, so the walk has reached this export
too. -/
theorem introduces_of_surface {row : String × Resolution}
    (hrow : row ∈ ((store.linker options).surface module).1.entries.rows)
    (hr : row.2 ≠ .unresolved) :
    ∃ x, ((ofStore store options).names entry entryId).resolved? (store.linker options) row.2
        = some x
      ∧ ((ofStore store options).bundleModule entry entryId).file.Introduces
          ((ofStore store options).mergeInput entry entryId) x row.2 := by
  have ht : .namespaceOf module ∈ (ofStore store options).reached entry entryId := hm
  have hvalue : row.2 ∈ ((store.linker options).surface module).1.entries.values :=
    List.mem_map.2 ⟨row, hrow, rfl⟩
  have hwithin := (hb.selfContained_sourceModules options entryId).within_surface options
    (hb.in_sources options entry ht) hvalue
  exact introduces_of_within hb options entry entryId hr hwithin fun t hs =>
    of_successor_reached _ entry entryId ht (List.mem_flatMap.2 ⟨row.2, hvalue, hs⟩)

/-- The block of a namespace that is reached exports all of the surface that resolves. -/
theorem specifiers_of_reached :
    (((ofStore store options).mergeInput entry entryId).namespaceSpecifiers module).map
        (fun s => (s.exported, some s.binding))
      = (((store.linker options).surface module).1.entries.rows.filter (·.2 ≠ .unresolved)).map
          fun row => (row.1, ((ofStore store options).names entry entryId).resolved?
            (store.linker options) row.2) := by
  rw [MergeInput.namespaceSpecifiers, List.map_filterMap, ← List.filterMap_eq_map,
    List.filterMap_filter]
  refine List.filterMap_congr fun row hrow => ?_
  obtain ⟨name, r⟩ := row
  by_cases hr : r = .unresolved
  · subst hr
    rfl
  · obtain ⟨x, hx, -⟩ := introduces_of_surface hb options entry entryId hm hrow hr
    have hname : ((ofStore store options).mergeInput entry entryId).nameOf r = some x := hx
    simp [hname, hx, hr]

end

theorem blocks_bundleModule (b : Bundler) (entry : Entry) (entryId : ModuleId) :
    ((b.bundleModule entry entryId).file.statements.filter (·.origin.isNone)).filterMap
        (·.statement.namespaceBlock?)
      = ((b.names entry entryId).namespaces.rows.filterMap
          (b.mergeInput entry entryId).blockRow?).map Prod.snd := by
  have h := (b.mergeInput entry entryId).blocks_merge
  rw [← filter_added_statements, List.filterMap_map] at h
  exact h

/-- The statements that a bundle adds hold one block for every namespace that is reached, and no
other. It goes by the final name of the namespace and exports, in the order of the surface of its
module, all that resolves there, under the name in the surface and from its final name, which the
bundle introduces. -/
theorem namespaces_complete {store : Store} (hb : store.Built) (options : Options) (entry : Entry)
    {bundle : Bundle} (h : (ofStore store options).bundle entry = .ok bundle) :
    ∃ entryId, store.lookup entry.module = some entryId
      ∧ ∃ blocks : List (ModuleId × String × List ExportSpecifier),
        (bundle.file.statements.filter (·.origin.isNone)).filterMap (·.statement.namespaceBlock?)
            = blocks.map Prod.snd
          ∧ (blocks.map Prod.fst).Perm ((ofStore store options).reached entry entryId).namespaces
          ∧ (blocks.map Prod.fst).Nodup
          ∧ ∀ module name specifiers, (module, name, specifiers) ∈ blocks →
              let rows := ((store.linker options).surface module).1.entries.rows
              let finalName := bundle.naming.names.resolved? (store.linker options)
              finalName (.namespaceOf module) = some name
                ∧ specifiers.map (fun s => (s.exported, some s.binding))
                    = (rows.filter (·.2 ≠ .unresolved)).map (fun row => (row.1, finalName row.2))
                ∧ ∀ row ∈ rows, row.2 ≠ .unresolved → ∃ x, finalName row.2 = some x
                    ∧ bundle.file.Introduces ((ofStore store options).mergeInput entry entryId) x
                        row.2 := by
  obtain ⟨entryId, hid, rfl⟩ := bundle_ok _ entry h
  have hs := sound_names hb options entry entryId
  have hperm := (keys_names hb options entry entryId).2
  have hmap : (((ofStore store options).names entry entryId).namespaces.rows.filterMap
        ((ofStore store options).mergeInput entry entryId).blockRow?).map Prod.fst
      = ((ofStore store options).names entry entryId).namespaces.keys := by
    rw [List.map_filterMap, Table.keys, ← List.filterMap_eq_map]
    refine List.filterMap_congr fun row hrow => ?_
    obtain ⟨module, id⟩ := row
    obtain ⟨name, hname⟩ := hs.exists_name (o := .namespaceOf module)
      (Table.get?_of_mem_rows hs.namespaces_nodup hrow)
    have hget : ((ofStore store options).mergeInput entry entryId).names.get? id = some name :=
      hname
    simp [MergeInput.blockRow?, hget]
  refine ⟨entryId, hid, _, blocks_bundleModule _ entry entryId, hmap ▸ hperm,
    hmap ▸ hs.namespaces_nodup, fun _ _ _ hblock => ?_⟩
  obtain ⟨⟨module, id⟩, hrow, he⟩ := List.mem_filterMap.1 hblock
  obtain ⟨name, hname, he⟩ := Option.map_eq_some_iff.1 he
  cases he
  have hget : ((ofStore store options).names entry entryId).namespaces.get? module = some id :=
    Table.get?_of_mem_rows hs.namespaces_nodup hrow
  have hm : module ∈ ((ofStore store options).reached entry entryId).namespaces :=
    hperm.mem_iff.1 (Table.mem_keys_of_get? hget)
  exact ⟨(FinalNames.nameOf?_of_idOf? (o := .namespaceOf module) hget).trans hname,
    specifiers_of_reached hb options entry entryId hm,
    fun row hr hne => introduces_of_surface hb options entry entryId hm hr hne⟩

/-- Two modules that export each other as namespaces. The second also exports itself, and a name
that the first does not have. -/
def circularUnits : List DeclUnit :=
  [⟨"a.ts", [.exportAll "b.ts" (some "b"),
      .declaration ⟨none, { exported := true }, none, .interface "A" [] [] []⟩]⟩,
    ⟨"b.ts", [.exportAll "a.ts" (some "a"), .exportAll "b.ts" (some "self"),
      .exports ⟨[⟨"Missing", "Missing"⟩], some "a.ts", false⟩,
      .declaration ⟨none, { exported := true }, none, .interface "B" [] [] []⟩]⟩]

/-- The store of `circularUnits`. -/
def circularStore : Store := ((Store.ofUnits circularUnits).toOption).getD {}

theorem sources_circular : (ofStore circularStore {}).sources 0 = [0, 1] :=
  List.mergeSort_of_pairwise (l := [0, 1]) (by decide)

/-- Each module has its block; what the second names and the first does not have is left out. -/
theorem namespaces_complete_circular : ∃ bundle, Store.ofUnits circularUnits = .ok circularStore
    ∧ (ofStore circularStore {}).bundle ⟨"a.ts", "a.d.ts", none⟩ = .ok bundle
    ∧ ((ofStore circularStore {}).reached ⟨"a.ts", "a.d.ts", none⟩ 0).namespaces = [1, 0]
    ∧ (bundle.file.statements.filter (·.origin.isNone)).filterMap (·.statement.namespaceBlock?)
        = [("b", [⟨"a", "a"⟩, ⟨"b", "self"⟩, ⟨"B", "B"⟩]), ("a", [⟨"b", "b"⟩, ⟨"A", "A"⟩])]
    ∧ ∃ blocks : List (ModuleId × String × List ExportSpecifier),
        (bundle.file.statements.filter (·.origin.isNone)).filterMap (·.statement.namespaceBlock?)
            = blocks.map Prod.snd
          ∧ (blocks.map Prod.fst).Perm [1, 0] := by
  have hu : Store.ofUnits circularUnits = .ok circularStore := rfl
  have hreached : ((ofStore circularStore {}).reached ⟨"a.ts", "a.d.ts", none⟩ 0).namespaces
      = [1, 0] := by
    simp only [reached, sources_circular]
    decide +kernel
  obtain ⟨entryId, hid, blocks, hblocks, hperm, -, -⟩ :=
    namespaces_complete (Store.built_ofUnits hu) {} ⟨"a.ts", "a.d.ts", none⟩ rfl
  cases (Option.some.inj hid : 0 = entryId)
  refine ⟨_, hu, rfl, hreached, ?_, blocks, hblocks, hreached ▸ hperm⟩
  rw [blocks_bundleModule]
  simp only [mergeInput, written, renamed, names, context, reserved, shaken, reached,
    sources_circular]
  decide +kernel

end Bundler

end DeclBundle
