import DeclBundle.Names.Choice
import DeclBundle.Proofs.Store

/-!
# Naming as a list of requests

The choice of names asks for one name after the other: which names are asked for, and in which
order, depends on the modules and on what is reached, but not on the names given so far
(`choose_eq`). So whatever each request keeps, the whole choice keeps.
-/

namespace DeclBundle

namespace FinalNames

/-- A request for a name. -/
inductive Request where
  | symbol (module : ModuleId) (id : DeclId) (given : String)
  | library (module : Option ModuleId) (ref : LibraryBinding) (preferred : String)
  | namespaceOf (module : Option ModuleId) (target : ModuleId) (preferred : String)
  | importAlias (module : ModuleId) (binding : String) (terminal : DeclId)
deriving DecidableEq, Repr

/-- The names after one more request. -/
def serve (c : NamingContext) (n : FinalNames) : Request → FinalNames
  | .symbol module id given => n.nameSymbol module id given
  | .library module ref preferred => n.nameLibraryBinding c module ref preferred
  | .namespaceOf module target preferred => n.nameNamespace c module target preferred
  | .importAlias module binding terminal => n.nameAlias module binding terminal

namespace Request

/-- What a statement asks for when it introduces a resolution under a name. -/
def ofResolution (module : ModuleId) (preferred : String) : Resolution → List Request
  | .external ref => [.library (some module) ref preferred]
  | .namespaceOf target => [.namespaceOf (some module) target preferred]
  | .declaration _ | .unresolved => []

variable (c : NamingContext)

/-- What an import binding asks for: an alias, or the name of what it leads to. -/
def ofImport (module : ModuleId) (binding remote : String) : List Request :=
  match (c.linker.resolveLocal module binding).1 with
  | .declaration terminal =>
    if needsAlias c module binding remote terminal then [.importAlias module binding terminal]
    else []
  | r => ofResolution module binding r

/-- What one name of a list of re-exports asks for. -/
def ofReexport (module : ModuleId) (s : ExportSpecifier) : List Request :=
  ofResolution module
    (match Remote.ofName s.binding with
      | .named name => name
      | _ => s.exported)
    (c.linker.resolveExport module s.exported).1

/-- What a statement of a module asks for. -/
def ofStatement (tree : ModuleTree) : Statement → List Request
  | .declaration d => (d.bindings tree.path).filterMap fun (id, name) =>
      id.map (.symbol tree.module · name)
  | .imports i => i.bindings.flatMap fun (binding, remote) => ofImport c tree.module binding remote
  | .exports e =>
    if e.source.isSome then e.specifiers.flatMap (ofReexport c tree.module) else []
  | .exportAll _ (some name) =>
    ofResolution tree.module name (c.linker.resolveExport tree.module name).1
  | _ => []

/-- What is asked for at the end, for all that is reached. -/
def rest : List Request :=
  c.reach.imports.map (fun ref => .library none ref (fallbackName ref))
    ++ c.reach.namespaces.map fun module => .namespaceOf (some module) module
      (Text.decapitalized (capitalizedStem (c.linker.modulePath module)))

/-- The requests of a bundle in order: those of the statements, then those of the rest. -/
def all (trees : List ModuleTree) : List Request :=
  trees.flatMap (fun t => t.statements.flatMap (ofStatement c t)) ++ rest c

end Request

open Request

variable (c : NamingContext)

theorem nameResolution_eq (n : FinalNames) (module : ModuleId) (preferred : String)
    (r : Resolution) :
    n.nameResolution c module preferred r
      = (ofResolution module preferred r).foldl (serve c) n := by
  cases r <;> rfl

theorem nameImport_eq (n : FinalNames) (module : ModuleId) (binding remote : String) :
    n.nameImport c module binding remote
      = (ofImport c module binding remote).foldl (serve c) n := by
  unfold nameImport ofImport
  cases (c.linker.resolveLocal module binding).1 with
  | declaration terminal =>
    simp only []
    split <;> rfl
  | _ => rfl

theorem nameStatement_eq (tree : ModuleTree) (n : FinalNames) (s : Statement) :
    nameStatement c tree n s = (ofStatement c tree s).foldl (serve c) n := by
  cases s with
  | declaration d =>
    simp only [nameStatement, ofStatement, List.foldl_filterMap]
    congr 1
    funext n b
    obtain ⟨_ | id, name⟩ := b <;> rfl
  | imports i =>
    simp only [nameStatement, ofStatement, List.foldl_flatMap, nameImport_eq]
  | exports e =>
    simp only [nameStatement, ofStatement]
    split
    · simp only [List.foldl_flatMap]
      congr 1
      funext n x
      exact nameResolution_eq c n tree.module _ _
    · rfl
  | exportAll source name =>
    cases name with
    | none => rfl
    | some name => exact nameResolution_eq c n tree.module name _
  | _ => rfl

theorem nameRest_eq (n : FinalNames) : nameRest c n = (rest c).foldl (serve c) n := by
  simp only [nameRest, rest, List.foldl_append, List.foldl_map]
  rfl

/-- The choice of names serves one request after the other. -/
theorem choose_eq (reserved : List String) (firstId : DeclId) (trees : List ModuleTree) :
    choose c reserved firstId trees
      = (Request.all c trees).foldl (serve c) (reserve { nextId := firstId } reserved) := by
  have hm : ∀ (n : FinalNames) (t : ModuleTree), nameModule c n t
      = (t.statements.flatMap (ofStatement c t)).foldl (serve c) n := by
    intro n t
    rw [nameModule, List.foldl_flatMap]
    congr 1
    funext n s
    exact nameStatement_eq c t n s
  rw [choose, nameRest_eq, Request.all, List.foldl_append, List.foldl_flatMap]
  congr 2
  funext n t
  exact hm n t

/-- What holds after requests held before them, or one of them has brought it about. -/
theorem of_foldl_serve {P : FinalNames → Prop} {Q : Request → Prop}
    (hserve : ∀ {n r}, P (n.serve c r) → P n ∨ Q r) : ∀ {rs : List Request} {n : FinalNames},
      P (rs.foldl (serve c) n) → P n ∨ ∃ r ∈ rs, Q r
  | [], _, h => .inl h
  | r :: rs, _, h => by
    rw [List.foldl_cons] at h
    rcases of_foldl_serve hserve h with h | ⟨r', hr, hq⟩
    · exact (hserve h).imp_right fun hq => ⟨r, List.mem_cons_self, hq⟩
    · exact .inr ⟨r', List.mem_cons_of_mem _ hr, hq⟩

/-! ## Requests for symbols -/

theorem symbol_mem_ofStatement {t : ModuleTree} {s : Statement} {m : ModuleId} {id : DeclId}
    {given : String} : .symbol m id given ∈ ofStatement c t s
      ↔ ∃ b ∈ s.topBindings t.module t.path, b.module = m ∧ b.id = id ∧ b.name = given := by
  have hr : ∀ (module : ModuleId) (preferred : String) (r : Resolution),
      .symbol m id given ∉ ofResolution module preferred r := by
    intro module preferred r
    cases r <;> simp [ofResolution]
  cases s with
  | declaration d =>
    obtain ⟨did, modifiers, pos, kind⟩ := d
    cases kind with
    | variableList flavor ds =>
      simp only [ofStatement, Declaration.bindings, List.filterMap_map, List.mem_filterMap,
        Statement.topBindings, Function.comp_apply, Option.map_eq_some_iff]
      constructor
      · rintro ⟨v, hv, i, hi, he⟩
        cases he
        exact ⟨_, ⟨v, hv, _, hi, rfl⟩, rfl, rfl, rfl⟩
      · rintro ⟨b, ⟨v, hv, i, hi, rfl⟩, rfl, rfl, rfl⟩
        exact ⟨v, hv, i, hi, rfl⟩
    | _ =>
      cases did with
      | none => simp [ofStatement, Declaration.bindings, Statement.topBindings]
      | some i =>
        simp only [ofStatement, Declaration.bindings, Statement.topBindings, List.filterMap_cons,
          List.filterMap_nil, Option.map_some, Option.toList_some, List.mem_singleton,
          exists_eq_left, symbol.injEq]
        constructor
        · rintro ⟨rfl, rfl, rfl⟩
          exact ⟨rfl, rfl, rfl⟩
        · rintro ⟨rfl, rfl, rfl⟩
          exact ⟨rfl, rfl, rfl⟩
  | imports i =>
    simp only [ofStatement, Statement.topBindings, List.mem_flatMap]
    constructor
    · rintro ⟨b, -, hb⟩
      simp only [ofImport] at hb
      split at hb
      · split at hb <;> simp at hb
      · exact absurd hb (hr _ _ _)
    · rintro ⟨b, hb, -⟩
      simp at hb
  | exports e =>
    simp only [ofStatement, Statement.topBindings]
    constructor
    · intro h
      split at h
      · obtain ⟨x, -, hx⟩ := List.mem_flatMap.1 h
        exact absurd hx (hr _ _ _)
      · simp at h
    · rintro ⟨b, hb, -⟩
      simp at hb
  | exportAll source name =>
    cases name with
    | none => simp [ofStatement, Statement.topBindings]
    | some name => simp [ofStatement, Statement.topBindings, hr]
  | _ => simp [ofStatement, Statement.topBindings]

/-- The symbols that are asked for are those of the top-level bindings of the modules. -/
theorem symbol_mem_all {trees : List ModuleTree} {m : ModuleId} {id : DeclId} {given : String} :
    .symbol m id given ∈ Request.all c trees
      ↔ ∃ t ∈ trees, ∃ b ∈ topBindings t.module t.path t.statements,
          b.module = m ∧ b.id = id ∧ b.name = given := by
  simp only [Request.all, rest, topBindings, List.mem_append, List.mem_flatMap, List.mem_map,
    symbol_mem_ofStatement, reduceCtorEq, and_false, exists_false, or_false]
  constructor
  · rintro ⟨t, ht, s, hs, b, hb, h⟩
    exact ⟨t, ht, b, ⟨s, hs, hb⟩, h⟩
  · rintro ⟨t, ht, b, ⟨s, hs, hb⟩, h⟩
    exact ⟨t, ht, s, hs, b, hb, h⟩

theorem symbols_serve {n : FinalNames} {r : Request} {k : ModuleId × String}
    (h : k ∈ (n.serve c r).symbols.keys) : k ∈ n.symbols.keys ∨ ∃ id, r = .symbol k.1 id k.2 := by
  cases r with
  | symbol module id given =>
    simp only [serve, nameSymbol] at h
    split at h
    · exact .inl h
    · simp only [Table.keys_insertNew, mem_pushNew] at h
      rcases h with h | rfl
      · exact .inl h
      · exact .inr ⟨id, rfl⟩
  | library module ref preferred =>
    simp only [serve, nameLibraryBinding] at h
    split at h <;> exact .inl h
  | namespaceOf module target preferred =>
    simp only [serve, nameNamespace] at h
    split at h <;> exact .inl h
  | importAlias module binding terminal =>
    simp only [serve, nameAlias] at h
    split at h <;> exact .inl h

/-- A symbol that has a name was asked for. -/
theorem requested_of_symbol {trees : List ModuleTree} {reserved : List String} {firstId : DeclId}
    {m : ModuleId} {given x : String}
    (h : (choose c reserved firstId trees).symbol? m given = some x) :
    ∃ id, .symbol m id given ∈ Request.all c trees := by
  have hk := Table.mem_keys_of_get? h
  rw [choose_eq] at hk
  have hstart : (m, given) ∉ (reserve { nextId := firstId } reserved).symbols.keys := by
    simp [reserve, Table.keys]
  obtain ⟨r, hr, id, rfl⟩ := (of_foldl_serve c
    (P := fun n => (m, given) ∈ n.symbols.keys) (symbols_serve c) hk).resolve_left hstart
  exact ⟨id, hr⟩

/-! ## Requests for aliases -/

/-- A statement asks for an alias if it imports something under a name that needs one. -/
theorem importAlias_mem_ofStatement {t : ModuleTree} {s : Statement} {m : ModuleId}
    {binding : String} {terminal : DeclId} : .importAlias m binding terminal ∈ ofStatement c t s
      ↔ t.module = m ∧ ∃ i, s = .imports i ∧ ∃ remote, (binding, remote) ∈ i.bindings
        ∧ (c.linker.resolveLocal m binding).1 = .declaration terminal
        ∧ needsAlias c m binding remote terminal = true := by
  have hr : ∀ (module : ModuleId) (preferred : String) (r : Resolution),
      .importAlias m binding terminal ∉ ofResolution module preferred r := by
    intro module preferred r
    cases r <;> simp [ofResolution]
  cases s with
  | imports i =>
    simp only [ofStatement, List.mem_flatMap, ofImport]
    constructor
    · rintro ⟨⟨x, remote⟩, hx, h⟩
      split at h
      · rename_i terminal' hres
        split at h
        · rename_i hneeds
          cases List.mem_singleton.1 h
          exact ⟨rfl, i, rfl, remote, hx, hres, hneeds⟩
        · simp at h
      · exact absurd h (hr _ _ _)
    · rintro ⟨rfl, j, he, remote, hx, hres, hneeds⟩
      cases he
      exact ⟨(binding, remote), hx, by simp [hres, hneeds]⟩
  | declaration d => simp [ofStatement]
  | exports e =>
    simp only [ofStatement, reduceCtorEq, false_and, exists_false, and_false, iff_false]
    split
    · simp only [List.mem_flatMap, not_exists, not_and]
      exact fun x _ => hr _ _ _
    · simp
  | exportAll source name =>
    cases name with
    | none => simp [ofStatement]
    | some name => simpa [ofStatement] using hr _ _ _
  | _ => simp [ofStatement]

/-- The aliases that are asked for are those of the imports in the modules that need one. -/
theorem importAlias_mem_all {trees : List ModuleTree} {m : ModuleId} {binding : String}
    {terminal : DeclId} : .importAlias m binding terminal ∈ Request.all c trees
      ↔ ∃ t ∈ trees, t.module = m ∧ ∃ i, .imports i ∈ t.statements
        ∧ ∃ remote, (binding, remote) ∈ i.bindings
          ∧ (c.linker.resolveLocal m binding).1 = .declaration terminal
          ∧ needsAlias c m binding remote terminal = true := by
  simp only [Request.all, rest, List.mem_append, List.mem_flatMap, List.mem_map, reduceCtorEq,
    and_false, exists_false, or_false, importAlias_mem_ofStatement]
  constructor
  · rintro ⟨t, ht, s, hs, hm, i, rfl, hi⟩
    exact ⟨t, ht, hm, i, hs, hi⟩
  · rintro ⟨t, ht, hm, i, hs, hi⟩
    exact ⟨t, ht, _, hs, hm, i, rfl, hi⟩

/-- An alias is asked for under a name that leads to a declaration, which is reached. -/
theorem reached_of_importAlias {trees : List ModuleTree} {m : ModuleId} {binding : String}
    {terminal : DeclId} (h : .importAlias m binding terminal ∈ Request.all c trees) :
    (c.linker.resolveLocal m binding).1 = .declaration terminal
      ∧ c.reach.contains terminal = true := by
  obtain ⟨t, -, -, i, -, remote, -, hres, hneeds⟩ := (importAlias_mem_all c).1 h
  simp only [needsAlias, Bool.and_eq_true] at hneeds
  exact ⟨hres, hneeds.1.2⟩

theorem aliases_serve {n : FinalNames} {r : Request} {k : ModuleId × String} {a : ImportAlias}
    (h : (n.serve c r).aliases.get? k = some a) :
    n.aliases.get? k = some a ∨ r = .importAlias k.1 k.2 a.terminal := by
  cases r with
  | symbol module id given =>
    simp only [serve, nameSymbol] at h
    split at h <;> exact .inl h
  | library module ref preferred =>
    simp only [serve, nameLibraryBinding] at h
    split at h <;> exact .inl h
  | namespaceOf module target preferred =>
    simp only [serve, nameNamespace] at h
    split at h <;> exact .inl h
  | importAlias module binding terminal =>
    simp only [serve, nameAlias] at h
    split at h
    · exact .inl h
    · simp only [nameFresh, Table.get?_insert] at h
      split at h
      · rename_i hk
        cases h
        cases hk
        exact .inr rfl
      · exact .inl h

/-- An alias that has been bound was asked for. -/
theorem requested_of_alias {trees : List ModuleTree} {reserved : List String} {firstId : DeclId}
    {k : ModuleId × String} {a : ImportAlias}
    (h : (choose c reserved firstId trees).aliases.get? k = some a) :
    .importAlias k.1 k.2 a.terminal ∈ Request.all c trees := by
  rw [choose_eq] at h
  have hstart : (reserve { nextId := firstId } reserved).aliases.get? k ≠ some a := by
    simp [reserve, Table.get?, Table.find?]
  obtain ⟨r, hr, rfl⟩ := (of_foldl_serve c
    (P := fun n => n.aliases.get? k = some a) (aliases_serve c) h).resolve_left hstart
  exact hr

end FinalNames

end DeclBundle
