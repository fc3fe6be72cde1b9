import DeclBundle.Bundle
import DeclBundle.Proofs.Merge
import DeclBundle.Proofs.Names.Choice
import DeclBundle.Proofs.Reach.Closure
import DeclBundle.Proofs.Reach.Edges
import DeclBundle.Proofs.Reach.Modules
import DeclBundle.Proofs.Shake

/-!
# The stages of a bundle

What is reached holds all that its declarations and the text of its modules refer to
(`successors_reached`, `verbatim_reached`), the bindings that survive are those that are reached in
the modules of the bundle (`mem_survivors`), each of them is written under its final name
(`introduced_placed`), and the final names are as the choice of names leaves them (`sound_names`).
-/

namespace DeclBundle

namespace Bundler

variable (b : Bundler) (entry : Entry) (entryId : ModuleId)

/-- The modules that the bundle draws from. -/
def sources : List ModuleId := b.references.sourceModules b.linker entryId

/-- The rows that an entry asks for. -/
def asked : List (String × Resolution) :=
  (required entry.module (b.linker.surface entryId).1 entry.exports).1

/-- All that is reached from what is asked for and from the verbatim text of the sources. -/
def reached : Reach := (b.reach entryId (b.sources entryId) (b.asked entry entryId)).1

/-- What shaking leaves of the sources. -/
def shaken : List ModuleTree :=
  Shake.modules b.store (b.sources entryId) (b.reached entry entryId)

/-- The top-level bindings that survive shaking. -/
def survivors : List TopBinding :=
  (b.shaken entry entryId).flatMap fun t => topBindings t.module t.path t.statements

/-- The names that no declaration may be given. -/
def reserved : List String :=
  if b.options.reserveGlobals then (b.reached entry entryId).globals else []

/-- What names are chosen from. -/
def context : NamingContext := ⟨b.linker, b.reached entry entryId, entryId⟩

/-- The final names of the bundle. -/
def names : FinalNames :=
  FinalNames.choose (b.context entry entryId) (b.reserved entry entryId) b.store.nextId
    (b.shaken entry entryId)

/-- The shaken modules under final names. -/
def renamed : List ModuleTree :=
  (b.shaken entry entryId).map fun t => (Naming.tree b.linker (b.names entry entryId) t).value

/-- The modules as they are merged: ambient, and without modifiers that export. -/
def written : List ModuleTree := Ambient.dropExports (Ambient.addDeclare (b.renamed entry entryId))

/-- What the merge of the bundle depends on. -/
def mergeInput : MergeInput where
  linker := b.linker
  entry := entryId
  surface := b.asked entry entryId
  externalStars := (b.linker.surface entryId).1.externalStars
  trees := b.written entry entryId
  names := b.names entry entryId
  inlineExports :=
    Ambient.inlineExports (b.names entry entryId) (Ambient.addDeclare (b.renamed entry entryId))

theorem names_bundleModule : (b.bundleModule entry entryId).naming.names = b.names entry entryId :=
  rfl

theorem trees_bundleModule :
    (b.bundleModule entry entryId).naming.trees = b.renamed entry entryId := by
  simp only [bundleModule, Naming.run, renamed, List.map_map]
  rfl

theorem imports_bundleModule :
    (b.bundleModule entry entryId).file.imports = libraryImports (b.names entry entryId) := rfl

theorem statements_bundleModule : (b.bundleModule entry entryId).file.statements
    = placedStatements (b.written entry entryId)
      ++ (b.mergeInput entry entryId).merge.statements.map fun s => { statement := s } := by
  simp only [written, mergeInput, ← trees_bundleModule]
  rfl

/-- An entry that is in the store has a bundle. -/
theorem bundle_of_lookup {entryId : ModuleId} (h : b.store.lookup entry.module = some entryId) :
    b.bundle entry = .ok (b.bundleModule entry entryId) := by
  rw [bundle, h]

theorem bundle_ok {bundle : Bundle} (h : b.bundle entry = .ok bundle) :
    ∃ entryId, b.store.lookup entry.module = some entryId
      ∧ b.bundleModule entry entryId = bundle := by
  unfold Bundler.bundle at h
  split at h
  · cases h
  · rename_i entryId hid
    exact ⟨entryId, hid, Except.ok.inj h⟩

/-! ## What is reached -/

theorem mem_reached {t : Target} : t ∈ b.reached entry entryId
    ↔ t ∈ b.references.closure b.linker
        (b.roots entryId (b.sources entryId) (b.asked entry entryId)).1 := by
  cases t <;> rfl

/-- What a target that is reached leads to is reached. -/
theorem of_successor_reached {t t' : Target} (ht : t ∈ b.reached entry entryId)
    (hs : t' ∈ b.references.successors b.linker t) : t' ∈ b.reached entry entryId := by
  rw [mem_reached, DependencyGraph.mem_closure] at ht ⊢
  exact .step ht hs

/-- What a declaration that is reached refers to is reached. -/
theorem successors_reached {id : DeclId} (hid : id ∈ (b.reached entry entryId).decls) {t : Target}
    (ht : t ∈ (b.references.edgesOf id).targets) : t ∈ b.reached entry entryId :=
  b.of_successor_reached entry entryId (t := .declaration id) hid ht

theorem verbatim_reached {m : ModuleId} (hm : m ∈ b.sources entryId) {t : Target}
    (ht : t ∈ (b.references.verbatimEdges m).targets) : t ∈ b.reached entry entryId := by
  rw [mem_reached, DependencyGraph.mem_closure]
  exact .root (List.mem_append_right _ (List.mem_flatMap.2 ⟨m, hm, ht⟩))

theorem mem_globals_reached {x : String} : x ∈ (b.reached entry entryId).globals
    ↔ (∃ id ∈ (b.reached entry entryId).decls, x ∈ (b.references.edgesOf id).globals)
      ∨ ∃ m ∈ b.sources entryId, x ∈ (b.references.verbatimEdges m).globals := by
  have hg : (b.reached entry entryId).globals = pushAllNew (b.references.closure b.linker
      (b.roots entryId (b.sources entryId) (b.asked entry entryId)).1).globals
        (((b.sources entryId).map b.references.verbatimEdges).flatMap (·.globals)) := rfl
  rw [hg, mem_pushAllNew, DependencyGraph.mem_globals_closure, List.flatMap_map, List.mem_flatMap]
  rfl

end Bundler

/-! ## The bundler of a store -/

namespace Bundler

theorem store_ofStore (store : Store) (options : Options) : (ofStore store options).store = store :=
  rfl

variable {store : Store} (hb : store.Built) (options : Options) (entry : Entry)
  (entryId : ModuleId)

theorem mem_survivors {c : TopBinding} : c ∈ (ofStore store options).survivors entry entryId
    ↔ c ∈ store.bindings ∧ c.module ∈ (ofStore store options).sources entryId
      ∧ c.id ∈ ((ofStore store options).reached entry entryId).decls := by
  rw [survivors, List.mem_flatMap]
  exact Shake.mem_topBindings_modules

include hb in
theorem sound_names : FinalNames.Sound ((ofStore store options).context entry entryId)
    ((ofStore store options).reserved entry entryId) store.nextId
    (FinalNames.Request.all ((ofStore store options).context entry entryId)
      ((ofStore store options).shaken entry entryId))
    ((ofStore store options).names entry entryId) := by
  refine FinalNames.sound_choose fun t ht c hc => hb.id_lt ?_
  have hs : c ∈ (ofStore store options).survivors entry entryId :=
    List.mem_flatMap.2 ⟨t, ht, hc⟩
  exact ((mem_survivors options entry entryId).1 hs).1

include hb in
/-- A binding that survives has a final name, which is that of its symbol. No other binding has
asked for a name under its identity. -/
theorem topLevel_of_survivor {c : TopBinding}
    (hc : c ∈ (ofStore store options).survivors entry entryId) :
    ∃ name, ((ofStore store options).names entry entryId).topLevel.get? c.id
        = some ⟨some c.module, c.name, name⟩
      ∧ ((ofStore store options).names entry entryId).symbol? c.module c.name = some name := by
  have hs := sound_names hb options entry entryId
  obtain ⟨t, ht, hct⟩ := List.mem_flatMap.1 hc
  have hreq := (FinalNames.symbol_mem_all ((ofStore store options).context entry entryId)).2
    ⟨t, ht, c, hct, rfl, rfl, rfl⟩
  obtain ⟨v, hv⟩ := Table.mem_keys.1 (hs.served hreq).1
  have hstore := ((mem_survivors options entry entryId).1 hc).1
  rcases hs.row hv with ⟨m, hm, hmod, hsym⟩ | ⟨o, ho⟩
  · obtain ⟨t', ht', c', hc', rfl, hid, hname⟩ := (FinalNames.symbol_mem_all _).1 hm
    have hs' : c' ∈ (ofStore store options).survivors entry entryId :=
      List.mem_flatMap.2 ⟨t', ht', hc'⟩
    have he := hb.eq_of_id ((mem_survivors options entry entryId).1 hs').1 hstore hid
    subst he
    obtain ⟨vm, vg, vn⟩ := v
    simp only at hmod hname hsym
    subst hmod hname
    exact ⟨vn, hv, hsym⟩
  · exact absurd (hs.id_ge ho) (Nat.not_le_of_gt (hb.id_lt hstore))

include hb in
theorem get?_of_survivor {c : TopBinding}
    (hc : c ∈ (ofStore store options).survivors entry entryId) :
    ((ofStore store options).names entry entryId).get? c.id
      = ((ofStore store options).names entry entryId).symbol? c.module c.name := by
  obtain ⟨name, h1, h2⟩ := topLevel_of_survivor hb options entry entryId hc
  simp [FinalNames.get?, h1, h2]

/-! ## What is written -/

include hb in
/-- What is analysed in a declaration that survives is a binding that survives. -/
theorem survivor_of_analyses {t : ModuleTree}
    (ht : t ∈ (ofStore store options).shaken entry entryId) {d : Declaration}
    (hd : .declaration d ∈ t.statements) {i : Option DeclId} {a : Analysis}
    (hi : (i, a) ∈ d.analyses) : ∃ c ∈ (ofStore store options).survivors entry entryId,
      i = some c.id ∧ c.analysis = a ∧ c.module = t.module := by
  obtain ⟨-, u, hu, -, s₀, hs₀, hs⟩ := Shake.mem_statements_modules ht hd
  obtain ⟨d₀, rfl, hsub⟩ := Shake.boundIds_statement? hs
  have hbound : i ∈ d.boundIds := by
    rw [d.boundIds_eq]
    exact List.mem_map.2 ⟨_, hi, rfl⟩
  obtain ⟨id, rfl⟩ := hb.exists_id hu hs₀ (hsub i hbound)
  obtain ⟨c, hc, rfl, ha⟩ := Declaration.exists_topBinding t.module t.path hi
  exact ⟨c, List.mem_flatMap.2 ⟨t, ht, List.mem_flatMap.2 ⟨_, hd, hc⟩⟩, rfl, ha,
    (Statement.module_of_mem_topBindings hc).1⟩

end Bundler

namespace Bundler

variable (b : Bundler) (entry : Entry) (entryId : ModuleId)

theorem written_eq : b.written entry entryId
    = (b.shaken entry entryId).map (Naming.writtenTree b.linker (b.names entry entryId)) := by
  simp only [written, renamed, Ambient.dropExports, Ambient.addDeclare, Ambient.mapDeclarations,
    List.map_map]
  refine List.map_congr_left fun t _ => ?_
  simp only [Function.comp_apply, Naming.tree, Naming.writtenTree, List.map_map]
  congr 1
  refine List.map_congr_left fun s _ => ?_
  simp only [Function.comp_apply, Naming.written]
  cases (Naming.statement _ _ s).value <;> rfl

theorem introduced_placedStatements (trees : List ModuleTree) :
    (placedStatements trees).flatMap (fun p => p.statement.introduced)
      = trees.flatMap fun t => t.statements.flatMap Statement.introduced := by
  simp only [placedStatements, List.flatMap_assoc]
  congr 1
  funext t
  induction t.statements with
  | nil => rfl
  | cons s ss ih =>
    rw [List.filterMap_cons, List.flatMap_cons, ← ih]
    cases s <;> simp [Statement.introduced]

theorem origin_placedStatements {trees : List ModuleTree} {p : PlacedStatement}
    (hp : p ∈ placedStatements trees) : p.origin ≠ none := by
  obtain ⟨t, -, hp⟩ := List.mem_flatMap.1 hp
  obtain ⟨s, -, hp⟩ := List.mem_filterMap.1 hp
  split at hp <;> cases hp <;> simp

end Bundler

namespace Bundler

variable {store : Store} (hb : store.Built) (options : Options) (entry : Entry)
  (entryId : ModuleId)

include hb in
/-- The bindings that survive are written under their final names, in order. -/
theorem introduced_placed :
    ((placedStatements ((ofStore store options).written entry entryId)).flatMap
        (fun p => p.statement.introduced)).map (Prod.map id some)
      = ((ofStore store options).survivors entry entryId).map
          (Naming.finalEntry ((ofStore store options).names entry entryId)) := by
  rw [introduced_placedStatements, written_eq, survivors, List.map_flatMap, List.map_flatMap,
    List.flatMap_map]
  refine List.flatMap_congr fun t ht => ?_
  simp only [topBindings, Naming.writtenTree, List.map_flatMap, List.flatMap_map]
  refine List.flatMap_congr fun s hs => ?_
  refine Naming.introduced_written _ _ fun d hd i hi => ?_
  subst hd
  rw [d.boundIds_eq, List.mem_map] at hi
  obtain ⟨⟨i, a⟩, hi, rfl⟩ := hi
  obtain ⟨c, hc, rfl, -⟩ := survivor_of_analyses hb options entry entryId ht hs hi
  obtain ⟨name, h1, -⟩ := topLevel_of_survivor hb options entry entryId hc
  exact ⟨c.id, name, rfl, by simp [FinalNames.get?, h1]⟩

include hb in
/-- A binding that survives is introduced by a statement of the bundle, under the final name of its
symbol. -/
theorem introduced_of_survivor {c : TopBinding}
    (hc : c ∈ (ofStore store options).survivors entry entryId) {name : String}
    (hn : ((ofStore store options).names entry entryId).symbol? c.module c.name = some name) :
    ∃ p ∈ ((ofStore store options).bundleModule entry entryId).file.statements, p.origin ≠ none
      ∧ (some c.id, name) ∈ p.statement.introduced := by
  have hentry : (some c.id, some name) ∈ ((ofStore store options).survivors entry entryId).map
      (Naming.finalEntry ((ofStore store options).names entry entryId)) :=
    List.mem_map.2 ⟨c, hc, by
      rw [Naming.finalEntry, get?_of_survivor hb options entry entryId hc, hn]⟩
  rw [← introduced_placed hb, List.mem_map] at hentry
  obtain ⟨⟨i, x⟩, hix, he⟩ := hentry
  cases he
  obtain ⟨p, hp, hpi⟩ := List.mem_flatMap.1 hix
  refine ⟨p, ?_, origin_placedStatements hp, hpi⟩
  rw [statements_bundleModule]
  exact List.mem_append_left _ hp

end Bundler

end DeclBundle
