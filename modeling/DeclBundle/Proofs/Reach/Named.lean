import DeclBundle.Proofs.Reach.Modules

/-!
# The modules that a unit names

A unit names modules by the sources of its imports and exports and by the import types in it. A
module draws from another exactly if its unit names the other's path (`Store.mem_neighbours`).
-/

namespace DeclBundle

/-- The specifier after `from`, if there is one. -/
def Statement.sources : Statement → List String
  | .imports i => [i.source]
  | .exports e => e.source.toList
  | .exportAll source _ => [source]
  | .declaration _ | .exportDefault _ | .exportAssignment _ | .verbatim .. => []

/-- The specifier of an import type. -/
def Reference.specifier? : Reference → Option String
  | .importType specifier _ => some specifier
  | .name _ => none

/-- The specifiers of the import types in what a statement declares or holds as text. -/
def Statement.importTypes (s : Statement) : List String :=
  s.analyses.flatMap fun a => a.references.filterMap Reference.specifier?

/-- The sources of the imports and exports of a unit and the arguments of its import types. -/
def DeclUnit.specifiers (u : DeclUnit) : List String :=
  u.statements.flatMap fun s => s.sources ++ s.importTypes

theorem Statement.mem_importTypes {s : Statement} {x : String} :
    x ∈ s.importTypes ↔ ∃ a ∈ s.analyses, ∃ q, .importType x q ∈ a.references := by
  simp only [importTypes, List.mem_flatMap, List.mem_filterMap]
  constructor
  · rintro ⟨a, ha, r, hr, hx⟩
    cases r with
    | name name => cases hx
    | importType specifier q =>
      cases hx
      exact ⟨a, ha, q, hr⟩
  · rintro ⟨a, ha, q, hr⟩
    exact ⟨a, ha, _, hr, rfl⟩

namespace ModuleTables

variable {t : ModuleTables} {d : ModuleId}

theorem mem_enterDependency {source : Provider} :
    d ∈ (t.enterDependency source).dependencies ↔ d ∈ t.dependencies ∨ source = .internal d := by
  cases source with
  | internal m => simp [enterDependency, eq_comm]
  | external specifier => simp [enterDependency]

theorem dependencies_enterBinding (decl : Declaration) (b : Option DeclId × String) :
    (t.enterBinding decl b).dependencies = t.dependencies :=
  enterBinding_induction (·.dependencies = t.dependencies) decl b rfl (fun _ _ => rfl)
    fun _ _ _ h => h

theorem dependencies_foldl {step : ModuleTables → β → ModuleTables} : ∀ (xs : List β)
    (t : ModuleTables), (∀ t x, (step t x).dependencies = t.dependencies) →
      (xs.foldl step t).dependencies = t.dependencies
  | [], _, _ => rfl
  | x :: xs, t, h => by rw [List.foldl_cons, dependencies_foldl xs _ h, h]

/-- A statement adds the modules that it imports from or re-exports. -/
theorem mem_dependencies_enterStatement (classify : String → Provider) (st : Statement) :
    d ∈ (t.enterStatement classify st).dependencies
      ↔ d ∈ t.dependencies ∨ ∃ x ∈ st.sources, classify x = .internal d := by
  cases st with
  | declaration decl =>
    rw [enterStatement, dependencies_foldl]
    · simp [Statement.sources]
    · exact fun t b => dependencies_enterBinding decl b
  | imports i =>
    rw [enterStatement, dependencies_foldl, mem_enterDependency]
    · simp [Statement.sources]
    · exact fun _ _ => rfl
  | exports e =>
    obtain ⟨specifiers, source, typeOnly⟩ := e
    cases source with
    | none =>
      simp only [enterStatement, Option.map_none]
      rw [dependencies_foldl]
      · simp [Statement.sources]
      · exact fun _ _ => rfl
    | some source =>
      simp only [enterStatement, Option.map_some]
      rw [dependencies_foldl, mem_enterDependency]
      · simp [Statement.sources]
      · exact fun _ _ => rfl
  | exportAll source name =>
    cases name with
    | none => simp [enterStatement, mem_enterDependency, Statement.sources]
    | some name => simp [enterStatement, enterExport, mem_enterDependency, Statement.sources]
  | exportDefault expression => simp [enterStatement, enterExport, Statement.sources]
  | exportAssignment expression => simp [enterStatement, Statement.sources]
  | verbatim tokens pos => simp [enterStatement, Statement.sources]

theorem mem_dependencies_foldl (classify : String → Provider) : ∀ (ss : List Statement)
    (t : ModuleTables), d ∈ (ss.foldl (enterStatement classify) t).dependencies
      ↔ d ∈ t.dependencies ∨ ∃ s ∈ ss, ∃ x ∈ s.sources, classify x = .internal d
  | [], t => by simp
  | s :: ss, t => by
    rw [List.foldl_cons, mem_dependencies_foldl classify ss, mem_dependencies_enterStatement]
    simp only [List.mem_cons, exists_eq_or_imp, or_assoc]

end ModuleTables

namespace Store

variable {s : Store} {options : Options}

/-- What a specifier points to: a module of the store, or else a library. -/
def provider (s : Store) (specifier : String) : Provider :=
  match s.lookup specifier with
  | some m => .internal m
  | none => .external specifier

theorem provider_eq_internal {x : String} {d : ModuleId} :
    s.provider x = .internal d ↔ s.lookup x = some d := by
  unfold provider
  cases s.lookup x <;> simp

theorem tablesOf_eq (s : Store) (m : ModuleId) (u : DeclUnit) : Linker.tablesOf s m u
    = u.statements.foldl (ModuleTables.enterStatement s.provider)
        { module := m, path := u.path } := rfl

theorem lookup_linker (path : String) : (s.linker options).lookup path = s.lookup path := by
  have hpath : (fun p : DeclUnit × Nat => (Linker.tablesOf s p.2 p.1).path == path)
      = (·.path == path) ∘ Prod.fst := by
    funext p
    exact congrArg (· == path) (tablesOf_spec p.2 p.1).2.2.1
  rw [Linker.lookup, linker, Linker.build, List.findIdx?_map, Function.comp_def, hpath,
    ← List.findIdx?_map, List.zipIdx_map_fst, Store.lookup]

theorem mem_dependencies_linker {m d : ModuleId} : d ∈ (s.linker options).dependencies m
    ↔ ∃ u, s.get? m = some u ∧ ∃ st ∈ u.statements, ∃ x ∈ st.sources, s.lookup x = some d := by
  rw [Linker.dependencies, scope?_linker]
  cases hu : s.get? m with
  | none => simp
  | some u =>
    simp only [Option.map_some, Option.getD_some, tablesOf_eq, ModuleTables.mem_dependencies_foldl,
      provider_eq_internal]
    simp

theorem mem_importTypeModules {l : Linker} {rs : List Reference} {d : ModuleId} :
    d ∈ l.importTypeModules rs ↔ ∃ x q, .importType x q ∈ rs ∧ l.lookup x = some d := by
  rw [Linker.importTypeModules, List.mem_filterMap]
  constructor
  · rintro ⟨r, hr, hd⟩
    cases r with
    | name name => cases hd
    | importType x q => exact ⟨x, q, hr, hd⟩
  · rintro ⟨x, q, hr, hd⟩
    exact ⟨_, hr, hd⟩

theorem mem_unitImportTypeModules {u : DeclUnit} {d : ModuleId} :
    d ∈ DependencyGraph.unitImportTypeModules (s.linker options) u
      ↔ ∃ st ∈ u.statements, ∃ x ∈ st.importTypes, s.lookup x = some d := by
  have hst : ∀ st : Statement, (∃ x ∈ st.importTypes, s.lookup x = some d)
      ↔ ∃ a ∈ st.analyses, d ∈ (s.linker options).importTypeModules a.references := by
    intro st
    simp only [Statement.mem_importTypes, mem_importTypeModules, lookup_linker]
    constructor
    · rintro ⟨x, ⟨a, ha, q, hr⟩, hd⟩
      exact ⟨a, ha, x, q, hr, hd⟩
    · rintro ⟨a, ha, x, q, hr, hd⟩
      exact ⟨x, ⟨a, ha, q, hr⟩, hd⟩
  simp only [DependencyGraph.unitImportTypeModules, List.mem_eraseDups, List.mem_flatMap, hst]
  refine exists_congr fun st => and_congr_right fun _ => ?_
  cases st with
  | declaration decl =>
    simp only [Statement.analyses, List.mem_flatMap, List.mem_map, Prod.exists,
      exists_eq_right]
    constructor
    · rintro ⟨i, a, ha, hd⟩
      exact ⟨a, ⟨i, ha⟩, hd⟩
    · rintro ⟨a, ⟨i, ha⟩, hd⟩
      exact ⟨i, a, ha, hd⟩
  | verbatim tokens pos => simp [Statement.analyses]
  | _ => simp [Statement.analyses]

theorem getD_importTypeModules (m : ModuleId) : (s.graph options).importTypeModules.getD m []
    = ((s.get? m).map (DependencyGraph.unitImportTypeModules (s.linker options))).getD [] := by
  simp [graph, DependencyGraph.build, Store.get?, List.getD_eq_getElem?_getD]

/-- A module draws from those whose paths its unit names. -/
theorem mem_neighbours {m d : ModuleId} :
    d ∈ (s.graph options).neighbours (s.linker options) m
      ↔ ∃ u, s.get? m = some u ∧ ∃ x ∈ u.specifiers, s.lookup x = some d := by
  rw [DependencyGraph.neighbours, List.mem_append, mem_dependencies_linker, getD_importTypeModules]
  cases hu : s.get? m with
  | none => simp
  | some u =>
    simp only [Option.map_some, Option.getD_some, mem_unitImportTypeModules, DeclUnit.specifiers,
      List.mem_flatMap, List.mem_append, Option.some.injEq, exists_eq_left']
    constructor
    · rintro (⟨st, hst, x, hx, hd⟩ | ⟨st, hst, x, hx, hd⟩)
      · exact ⟨x, ⟨st, hst, .inl hx⟩, hd⟩
      · exact ⟨x, ⟨st, hst, .inr hx⟩, hd⟩
    · rintro ⟨x, ⟨st, hst, hx | hx⟩, hd⟩
      · exact .inl ⟨st, hst, x, hx, hd⟩
      · exact .inr ⟨st, hst, x, hx, hd⟩

end Store

end DeclBundle
