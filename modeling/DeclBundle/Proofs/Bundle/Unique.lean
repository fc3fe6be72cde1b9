import DeclBundle.Proofs.Bundle.Imports
import DeclBundle.Proofs.Bundle.Stages

/-!
# The top-level names of a bundle

The names that a bundle introduces are those of its introducers (`introduced_perm`), each of which
belongs to an owner of a final name. Different owners have different names, and one owner introduces
its name twice only where declarations of one symbol share it, or where an alias is both a constant
and a type (`unique_names`).
-/

namespace DeclBundle

/-- What introduces a name at the top level of a bundle. -/
inductive Introducer where
  /-- A declaration or a variable, by the module and the name that it was given there. -/
  | declaration (id : DeclId) (module : ModuleId) (given : String)
  | library (ref : LibraryBinding)
  | aliasForm (module : ModuleId) (binding : String) (form : AliasForm)
  | namespaceOf (module : ModuleId)
deriving DecidableEq, Repr

namespace Introducer

/-- What the name of an introducer belongs to. -/
def owner : Introducer → Owner
  | .declaration _ module given => .symbol module given
  | .library ref => .library ref
  | .aliasForm module binding _ => .importAlias module binding
  | .namespaceOf module => .namespaceOf module

/-- Whether two introducers may have one name: declarations of one symbol, and the two forms of one
alias. -/
def Shares : Introducer → Introducer → Prop
  | .declaration _ module given, .declaration _ module' given' => module = module' ∧ given = given'
  | .aliasForm module binding form, .aliasForm module' binding' form' =>
    module = module' ∧ binding = binding' ∧ form ≠ form'
  | _, _ => False

end Introducer

/-- The names that a file introduces at its top level. -/
def OutputFile.introduced (f : OutputFile) : List String :=
  (f.imports.flatMap LibraryImport.locals).map (·.2.2)
    ++ introducedNames (f.statements.map (·.statement))

namespace FinalNames

variable (n : FinalNames)

/-- The introducers among library bindings. -/
def libraryIntroducers : List (Introducer × String) :=
  n.externals.rows.filterMap fun (ref, id) => (n.get? id).map (.library ref, ·)

/-- The introducers that are declarations of the sources, with their final names. -/
def bindingIntroducers (cs : List TopBinding) : List (Introducer × String) :=
  cs.filterMap fun c => (n.get? c.id).map (.declaration c.id c.module c.name, ·)

/-- The introducers that are namespace blocks, with their final names. -/
def namespaceIntroducers : List (Introducer × String) :=
  n.namespaces.rows.filterMap fun (module, id) => (n.get? id).map (.namespaceOf module, ·)

theorem names_libraryIntroducers : n.libraryIntroducers.map Prod.snd
    = (n.externals.rows.filterMap (Bundler.importRow? n)).map (·.2.2) := by
  simp only [libraryIntroducers, List.map_filterMap, Bundler.importRow?, Option.map_map]
  rfl

theorem names_bindingIntroducers (cs : List TopBinding) :
    (n.bindingIntroducers cs).map Prod.snd = cs.filterMap fun c => n.get? c.id := by
  simp [bindingIntroducers, List.map_filterMap, Function.comp_def]

theorem names_namespaceIntroducers : n.namespaceIntroducers.map Prod.snd
    = n.namespaces.rows.filterMap fun row => n.get? row.2 := by
  simp [namespaceIntroducers, List.map_filterMap, Function.comp_def]

end FinalNames

/-- The introducers that are the forms of import aliases, with the names that they are written
under. -/
def MergeInput.aliasIntroducers (m : MergeInput) : List (Introducer × String) :=
  m.names.aliases.rows.flatMap fun (key, a) =>
    (m.aliasForms a).map fun (form, name) => (.aliasForm key.1 key.2 form, name)

theorem MergeInput.names_aliasIntroducers (m : MergeInput) : m.aliasIntroducers.map Prod.snd
    = m.names.aliases.values.flatMap fun a => (m.aliasForms a).map Prod.snd := by
  simp [aliasIntroducers, Table.values, List.map_flatMap, List.flatMap_map, Function.comp_def]

namespace Bundler

/-- All that introduces a name in a bundle, with the name. -/
def introducers (b : Bundler) (entry : Entry) (entryId : ModuleId) : List (Introducer × String) :=
  (b.names entry entryId).libraryIntroducers
    ++ (b.names entry entryId).bindingIntroducers (b.survivors entry entryId)
    ++ (b.mergeInput entry entryId).aliasIntroducers
    ++ (b.names entry entryId).namespaceIntroducers

variable {store : Store} (hb : store.Built) (options : Options) (entry : Entry)
  (entryId : ModuleId)

include hb in
/-- The names that a bundle introduces are those of its introducers. -/
theorem introduced_perm :
    ((ofStore store options).bundleModule entry entryId).file.introduced.Perm
      (((ofStore store options).introducers entry entryId).map Prod.snd) := by
  have hs := sound_names hb options entry entryId
  have hlib := (locals_libraryImports hs.externals_nodup).map (·.2.2)
  rw [← FinalNames.names_libraryIntroducers] at hlib
  have hplaced : introducedNames ((placedStatements
        ((ofStore store options).written entry entryId)).map (·.statement))
      = (((ofStore store options).names entry entryId).bindingIntroducers
          ((ofStore store options).survivors entry entryId)).map Prod.snd := by
    have h := congrArg (List.filterMap Prod.snd) (introduced_placed hb options entry entryId)
    rw [List.filterMap_map, List.filterMap_map] at h
    rw [FinalNames.names_bindingIntroducers, introducedNames, List.flatMap_map, ← List.map_flatMap,
      ← List.filterMap_eq_map]
    exact h
  have hmerge := ((ofStore store options).mergeInput entry entryId).introduced_merge
  rw [← MergeInput.names_aliasIntroducers] at hmerge
  rw [OutputFile.introduced, imports_bundleModule, statements_bundleModule, List.map_append,
    introducedNames_append, hplaced, List.map_map]
  have hid : (PlacedStatement.statement ∘ fun s => ({ statement := s } : PlacedStatement)) = id :=
    rfl
  rw [hid, List.map_id, hmerge]
  simp only [introducers, List.map_append, FinalNames.names_namespaceIntroducers, List.append_assoc]
  exact hlib.append_right _

include hb in
/-- The name of an introducer is that of its owner. -/
theorem nameOf?_of_introducer {i : Introducer} {name : String}
    (h : (i, name) ∈ (ofStore store options).introducers entry entryId) :
    ((ofStore store options).names entry entryId).nameOf? i.owner = some name := by
  have hs := sound_names hb options entry entryId
  simp only [introducers, List.mem_append] at h
  rcases h with ((h | h) | h) | h
  · obtain ⟨⟨ref, id⟩, hr, hi⟩ := List.mem_filterMap.1 h
    obtain ⟨x, hx, he⟩ := Option.map_eq_some_iff.1 hi
    cases he
    have hid := Table.get?_of_mem_rows hs.externals_nodup hr
    simp [Introducer.owner, FinalNames.nameOf?, FinalNames.idOf?, hid, hx]
  · obtain ⟨c, hc, hi⟩ := List.mem_filterMap.1 h
    obtain ⟨x, hx, he⟩ := Option.map_eq_some_iff.1 hi
    cases he
    rw [get?_of_survivor hb options entry entryId hc] at hx
    exact hx
  · obtain ⟨⟨⟨m, binding⟩, a⟩, hr, hi⟩ := List.mem_flatMap.1 h
    obtain ⟨⟨form, x⟩, hx, he⟩ := List.mem_map.1 hi
    cases he
    have hid := Table.get?_of_mem_rows hs.aliases_nodup hr
    have hn : ((ofStore store options).names entry entryId).get? a.id = some name :=
      MergeInput.get?_of_mem_aliasForms _ hx
    simpa [Introducer.owner, FinalNames.nameOf?, FinalNames.idOf?, hid] using hn
  · obtain ⟨⟨m, id⟩, hr, hi⟩ := List.mem_filterMap.1 h
    obtain ⟨x, hx, he⟩ := Option.map_eq_some_iff.1 hi
    cases he
    have hid := Table.get?_of_mem_rows hs.namespaces_nodup hr
    simp [Introducer.owner, FinalNames.nameOf?, FinalNames.idOf?, hid, hx]

/-- Two introducers have one owner only where they may share its name. -/
def OwnerShared (p q : Introducer × String) : Prop := p.1.owner = q.1.owner → p.1.Shares q.1

theorem pairwise_libraryIntroducers {n : FinalNames} (h : n.externals.keys.Nodup) :
    n.libraryIntroducers.Pairwise OwnerShared := by
  refine List.pairwise_filterMap.2 ((List.pairwise_map.1 h).imp ?_)
  rintro ⟨ref, id⟩ ⟨ref', id'⟩ hne p hp q hq ho
  obtain ⟨x, -, rfl⟩ := Option.map_eq_some_iff.1 hp
  obtain ⟨y, -, rfl⟩ := Option.map_eq_some_iff.1 hq
  simp only [Introducer.owner, Owner.library.injEq] at ho
  exact absurd ho hne

theorem pairwise_bindingIntroducers (n : FinalNames) (cs : List TopBinding) :
    (n.bindingIntroducers cs).Pairwise OwnerShared := by
  refine List.pairwise_filterMap.2 (List.pairwise_of_forall fun c c' p hp q hq ho => ?_)
  obtain ⟨x, -, rfl⟩ := Option.map_eq_some_iff.1 hp
  obtain ⟨y, -, rfl⟩ := Option.map_eq_some_iff.1 hq
  simp only [Introducer.owner, Owner.symbol.injEq] at ho
  exact ho

theorem pairwise_aliasIntroducers {m : MergeInput} (h : m.names.aliases.keys.Nodup) :
    m.aliasIntroducers.Pairwise OwnerShared := by
  refine List.pairwise_flatMap.2 ⟨?_, (List.pairwise_map.1 h).imp ?_⟩
  · rintro ⟨⟨module, binding⟩, a⟩ -
    refine List.pairwise_map.2 ((m.pairwise_aliasForms a).imp ?_)
    rintro ⟨form, x⟩ ⟨form', y⟩ ⟨rfl, rfl⟩ -
    exact ⟨rfl, rfl, by decide⟩
  · rintro ⟨⟨module, binding⟩, a⟩ ⟨⟨module', binding'⟩, a'⟩ hne p hp q hq ho
    obtain ⟨⟨form, x⟩, -, rfl⟩ := List.mem_map.1 hp
    obtain ⟨⟨form', y⟩, -, rfl⟩ := List.mem_map.1 hq
    simp only [Introducer.owner, Owner.importAlias.injEq] at ho
    exact absurd (Prod.ext ho.1 ho.2) hne

theorem pairwise_namespaceIntroducers {n : FinalNames} (h : n.namespaces.keys.Nodup) :
    n.namespaceIntroducers.Pairwise OwnerShared := by
  refine List.pairwise_filterMap.2 ((List.pairwise_map.1 h).imp ?_)
  rintro ⟨m, id⟩ ⟨m', id'⟩ hne p hp q hq ho
  obtain ⟨x, -, rfl⟩ := Option.map_eq_some_iff.1 hp
  obtain ⟨y, -, rfl⟩ := Option.map_eq_some_iff.1 hq
  simp only [Introducer.owner, Owner.namespaceOf.injEq] at ho
  exact absurd ho hne

/-- A number for the kind of owner, which tells apart introducers of different kinds. -/
def ownerKind (p : Introducer × String) : Nat :=
  match p.1.owner with
  | .symbol .. => 0
  | .library _ => 1
  | .importAlias .. => 2
  | .namespaceOf _ => 3

theorem ownerShared_of_kind {p q : Introducer × String} (h : ownerKind p ≠ ownerKind q) :
    OwnerShared p q := by
  intro ho
  refine absurd ?_ h
  rw [ownerKind, ownerKind, ho]

include hb in
theorem pairwise_introducers :
    ((ofStore store options).introducers entry entryId).Pairwise OwnerShared := by
  have hs := sound_names hb options entry entryId
  have h1 : ∀ p ∈ ((ofStore store options).names entry entryId).libraryIntroducers,
      ownerKind p = 1 := by
    intro p hp
    obtain ⟨⟨ref, id⟩, -, hp⟩ := List.mem_filterMap.1 hp
    obtain ⟨x, -, rfl⟩ := Option.map_eq_some_iff.1 hp
    rfl
  have h0 : ∀ p ∈ ((ofStore store options).names entry entryId).bindingIntroducers
      ((ofStore store options).survivors entry entryId), ownerKind p = 0 := by
    intro p hp
    obtain ⟨c, -, hp⟩ := List.mem_filterMap.1 hp
    obtain ⟨x, -, rfl⟩ := Option.map_eq_some_iff.1 hp
    rfl
  have h2 : ∀ p ∈ ((ofStore store options).mergeInput entry entryId).aliasIntroducers,
      ownerKind p = 2 := by
    intro p hp
    obtain ⟨⟨⟨m, binding⟩, a⟩, -, hp⟩ := List.mem_flatMap.1 hp
    obtain ⟨⟨form, x⟩, -, rfl⟩ := List.mem_map.1 hp
    rfl
  have h3 : ∀ p ∈ ((ofStore store options).names entry entryId).namespaceIntroducers,
      ownerKind p = 3 := by
    intro p hp
    obtain ⟨⟨m, id⟩, -, hp⟩ := List.mem_filterMap.1 hp
    obtain ⟨x, -, rfl⟩ := Option.map_eq_some_iff.1 hp
    rfl
  simp only [introducers, List.pairwise_append, List.mem_append]
  refine ⟨⟨⟨pairwise_libraryIntroducers hs.externals_nodup, pairwise_bindingIntroducers _ _, ?_⟩,
    pairwise_aliasIntroducers hs.aliases_nodup, ?_⟩,
    pairwise_namespaceIntroducers hs.namespaces_nodup, ?_⟩
  · exact fun p hp q hq => ownerShared_of_kind (by simp [h1 p hp, h0 q hq])
  · rintro p (hp | hp) q hq
    · exact ownerShared_of_kind (by simp [h1 p hp, h2 q hq])
    · exact ownerShared_of_kind (by simp [h0 p hp, h2 q hq])
  · rintro p ((hp | hp) | hp) q hq
    · exact ownerShared_of_kind (by simp [h1 p hp, h3 q hq])
    · exact ownerShared_of_kind (by simp [h0 p hp, h3 q hq])
    · exact ownerShared_of_kind (by simp [h2 p hp, h3 q hq])

/-! ## Identities -/

include hb in
/-- The identities with a final name are those of the bindings that survive, and those given out for
aliases, library bindings and namespaces. -/
theorem mem_keys_names {id : DeclId} :
    id ∈ ((ofStore store options).names entry entryId).topLevel.keys
      ↔ (∃ c ∈ (ofStore store options).survivors entry entryId, c.id = id)
        ∨ (∃ a ∈ ((ofStore store options).names entry entryId).aliases.values, a.id = id)
        ∨ id ∈ ((ofStore store options).names entry entryId).externals.values
        ∨ id ∈ ((ofStore store options).names entry entryId).namespaces.values := by
  have hs := sound_names hb options entry entryId
  constructor
  · intro hk
    obtain ⟨v, hv⟩ := Table.mem_keys.1 hk
    rcases hs.row hv with ⟨m, hm, -⟩ | ⟨o, ho⟩
    · obtain ⟨t, ht, c, hc, -, hid, -⟩ := (FinalNames.symbol_mem_all _).1 hm
      exact .inl ⟨c, List.mem_flatMap.2 ⟨t, ht, hc⟩, hid⟩
    · cases o with
      | symbol m given => cases ho
      | importAlias m binding =>
        obtain ⟨a, ha, rfl⟩ := Option.map_eq_some_iff.1 ho
        exact .inr (.inl ⟨a, Table.mem_values_of_get? ha, rfl⟩)
      | library ref => exact .inr (.inr (.inl (Table.mem_values_of_get? ho)))
      | namespaceOf m => exact .inr (.inr (.inr (Table.mem_values_of_get? ho)))
  · rintro (⟨c, hc, rfl⟩ | ⟨a, ha, rfl⟩ | hid | hid)
    · obtain ⟨name, h1, -⟩ := topLevel_of_survivor hb options entry entryId hc
      exact Table.mem_keys_of_get? h1
    · obtain ⟨⟨⟨m, binding⟩, a⟩, hr, rfl⟩ := List.mem_map.1 ha
      refine hs.id_key (o := .importAlias m binding) ?_
      simp [FinalNames.idOf?, Table.get?_of_mem_rows hs.aliases_nodup hr]
    · obtain ⟨⟨ref, id⟩, hr, rfl⟩ := List.mem_map.1 hid
      exact hs.id_key (o := .library ref) (Table.get?_of_mem_rows hs.externals_nodup hr)
    · obtain ⟨⟨m, id⟩, hr, rfl⟩ := List.mem_map.1 hid
      exact hs.id_key (o := .namespaceOf m) (Table.get?_of_mem_rows hs.namespaces_nodup hr)

/-- The statements that come from modules. -/
theorem filter_origin_statements :
    ((ofStore store options).bundleModule entry entryId).file.statements.filter (·.origin.isSome)
      = placedStatements ((ofStore store options).written entry entryId) := by
  rw [statements_bundleModule, List.filter_append]
  have h1 : ∀ p ∈ placedStatements ((ofStore store options).written entry entryId),
      p.origin.isSome = true := fun p hp => Option.isSome_iff_ne_none.2 (origin_placedStatements hp)
  rw [List.filter_eq_self.2 h1, List.filter_map]
  simp [Function.comp_def]

/-- The top-level names of a bundle are different, up to declarations of one symbol and two forms
of one alias; a binding that survives carries the name of its identity; the identities with a name
are those of such bindings, of aliases, of library bindings and of namespaces; and no name that
nothing provides is introduced, if such names are reserved. -/
theorem unique_names {store : Store} (hb : store.Built) (options : Options) (entry : Entry)
    {bundle : Bundle} (h : (ofStore store options).bundle entry = .ok bundle) :
    ∃ entryId, store.lookup entry.module = some entryId
      ∧ bundle.file.introduced.Perm
          (((ofStore store options).introducers entry entryId).map Prod.snd)
      ∧ ((ofStore store options).introducers entry entryId).Pairwise
          (fun p q => p.2 = q.2 → p.1.Shares q.1)
      ∧ ((bundle.file.statements.filter (·.origin.isSome)).flatMap
            fun p => p.statement.introduced).map (Prod.map id some)
          = ((ofStore store options).survivors entry entryId).map
              (fun c => (some c.id, bundle.naming.names.get? c.id))
      ∧ (∀ c ∈ (ofStore store options).survivors entry entryId, ∃ name,
          bundle.naming.names.topLevel.get? c.id = some ⟨some c.module, c.name, name⟩)
      ∧ (∀ id, id ∈ bundle.naming.names.topLevel.keys
          ↔ (∃ c ∈ (ofStore store options).survivors entry entryId, c.id = id)
            ∨ (∃ a ∈ bundle.naming.names.aliases.values, a.id = id)
            ∨ id ∈ bundle.naming.names.externals.values
            ∨ id ∈ bundle.naming.names.namespaces.values)
      ∧ (options.reserveGlobals = true → ∀ x ∈ bundle.file.introduced,
          x ∉ ((ofStore store options).reached entry entryId).globals) := by
  obtain ⟨entryId, hid, rfl⟩ := bundle_ok _ entry h
  have hs := sound_names hb options entry entryId
  have hperm := introduced_perm hb options entry entryId
  refine ⟨entryId, hid, hperm, ?_, ?_, fun c hc => ?_,
    fun id => mem_keys_names hb options entry entryId, fun hg x hx => ?_⟩
  · refine (pairwise_introducers hb options entry entryId).imp_of_mem fun {p q} hp hq ho he => ?_
    have hp' := nameOf?_of_introducer hb options entry entryId hp
    have hq' := nameOf?_of_introducer hb options entry entryId hq
    rw [he] at hp'
    exact ho (hs.name_inj hp' hq')
  · rw [filter_origin_statements]
    exact introduced_placed hb options entry entryId
  · obtain ⟨name, h1, -⟩ := topLevel_of_survivor hb options entry entryId hc
    exact ⟨name, h1⟩
  · rw [hperm.mem_iff, List.mem_map] at hx
    obtain ⟨⟨i, y⟩, hi, rfl⟩ := hx
    have hres := hs.name_not_reserved (nameOf?_of_introducer hb options entry entryId hi)
    have hopt : (ofStore store options).options.reserveGlobals = true := hg
    rwa [reserved, if_pos hopt] at hres

/-- Two modules that declare one name, of which one refers to the other's. -/
def twoOfOneName : List DeclUnit :=
  [⟨"a.ts", [.imports ⟨"b.ts", none, none, [⟨"T", "U"⟩], false⟩,
      .declaration ⟨none, { exported := true }, none,
        .typeAlias "T" [] (.reference (.ofText "U") [])⟩]⟩,
    ⟨"b.ts", [.declaration ⟨none, { exported := true }, none, .interface "T" [] [] []⟩]⟩]

theorem unique_names_twoOfOneName : ∃ store bundle, Store.ofUnits twoOfOneName = .ok store
    ∧ (ofStore store {}).bundle ⟨"a.ts", "a.d.ts", none⟩ = .ok bundle
    ∧ bundle.file.introduced.Perm
        (((ofStore store {}).introducers ⟨"a.ts", "a.d.ts", none⟩ 0).map Prod.snd)
    ∧ ((ofStore store {}).introducers ⟨"a.ts", "a.d.ts", none⟩ 0).Pairwise
        (fun p q => p.2 = q.2 → p.1.Shares q.1) := by
  have hb := @Store.built_ofUnits twoOfOneName _ rfl
  refine ⟨_, _, rfl, rfl, ?_⟩
  obtain ⟨entryId, hid, hperm, hpair, -⟩ := unique_names hb {} ⟨"a.ts", "a.d.ts", none⟩ rfl
  cases (Option.some.inj hid : 0 = entryId)
  exact ⟨hperm, hpair⟩

end Bundler

end DeclBundle
