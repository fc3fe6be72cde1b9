import DeclBundle.Proofs.Store

/-!
# The tables of a module

Whatever the tables of a module point to inside the store is one of its dependencies
(`ModuleTables.Linked`), and the symbol of a name is the list of the top-level bindings of that name
in the order of the module (`Store.symbols_scope`).
-/

namespace DeclBundle

namespace ModuleTables

/-- The declarations of the symbol of a name. -/
def symbolIds (s : ModuleTables) (name : String) : List DeclId := (s.symbols.get? name).getD []

/-- All that the tables point to inside the store is noted as a dependency. -/
structure Linked (s : ModuleTables) : Prop where
  imports : ∀ {name row m}, s.imports.get? name = some row → row.source = .internal m →
    m ∈ s.dependencies
  exports : ∀ {name m remote}, s.exports.get? name = some (.reexport (.internal m) remote) →
    m ∈ s.dependencies
  stars : ∀ {m}, .internal m ∈ s.starExports → m ∈ s.dependencies

/-- The symbols of the tables have declarations. -/
def NonemptySymbols (s : ModuleTables) : Prop := ∀ {name}, s.symbols.get? name ≠ some []

variable {s : ModuleTables} {name : String}

/-! ## One row -/

theorem enterExport_linked (h : s.Linked) {row : ExportRow}
    (hr : ∀ m remote, row = .reexport (.internal m) remote → m ∈ s.dependencies) :
    (s.enterExport name row).Linked where
  imports := h.imports
  exports := by
    intro name' m remote hg
    simp only [enterExport, Table.get?_insertNew] at hg
    split at hg
    · exact hr m remote (Option.some.inj hg)
    · exact h.exports hg
  stars := h.stars

theorem enterDependency_linked (h : s.Linked) (source : Provider) :
    (s.enterDependency source).Linked := by
  cases source with
  | external specifier => exact h
  | internal m =>
    refine ⟨fun hg hs => ?_, fun hg => ?_, fun hs => ?_⟩
    · exact mem_pushNew.2 (.inl (h.imports hg hs))
    · exact mem_pushNew.2 (.inl (h.exports hg))
    · exact mem_pushNew.2 (.inl (h.stars hs))

theorem mem_dependencies_enterDependency {m : ModuleId} :
    m ∈ (s.enterDependency (.internal m)).dependencies := mem_pushNew.2 (.inr rfl)

/-- Entering a binding keeps what entering a symbol and a row of an own name keep. -/
theorem enterBinding_induction (P : ModuleTables → Prop) (d : Declaration)
    (b : Option DeclId × String) (h : P s) (hs : ∀ given id, P (s.enterSymbol given id))
    (he : ∀ t name binding, P t → P (t.enterExport name (.own binding))) :
    P (s.enterBinding d b) := by
  obtain ⟨_ | id, name⟩ := b
  · unfold enterBinding
    simp only []
    split
    · exact he _ _ _ h
    · split
      · exact he _ _ _ h
      · exact h
  · unfold enterBinding
    simp only []
    split
    · exact he _ _ _ (hs name id)
    · split
      · exact he _ _ _ (hs name id)
      · exact hs name id

theorem enterBinding_linked (d : Declaration) (h : s.Linked) (b : Option DeclId × String) :
    (s.enterBinding d b).Linked :=
  enterBinding_induction Linked d b h (fun _ _ => ⟨h.imports, h.exports, h.stars⟩)
    fun _ _ _ ht => enterExport_linked ht fun m remote hr => by cases hr

/-- Every statement keeps the tables linked: its dependency is noted first, and no binding takes it
away again. -/
theorem enterStatement_linked (classify : String → Provider) (h : s.Linked) (st : Statement) :
    (s.enterStatement classify st).Linked := by
  cases st with
  | declaration d =>
    exact List.foldlRecOn _ _ h fun s hs b _ => enterBinding_linked d hs b
  | imports i =>
    simp only [enterStatement]
    have key : ∀ (bs : List (String × String)) (s : ModuleTables), s.Linked →
        (∀ m, classify i.source = .internal m → m ∈ s.dependencies) →
        (bs.foldl (fun s (b : String × String) => { s with
          imports := s.imports.insert b.1 ⟨classify i.source, .ofName b.2⟩ }) s).Linked := by
      intro bs
      induction bs with
      | nil => exact fun s hs _ => hs
      | cons b bs ih =>
        intro s hs hd
        refine ih _ ⟨?_, hs.exports, hs.stars⟩ hd
        intro name row m hg hrow
        simp only [Table.get?_insert] at hg
        split at hg
        · cases hg
          exact hd m hrow
        · exact hs.imports hg hrow
    refine key _ _ (enterDependency_linked h _) fun m hm => ?_
    rw [hm]
    exact mem_dependencies_enterDependency
  | exports e =>
    simp only [enterStatement]
    have key : ∀ (xs : List ExportSpecifier) (row : ExportSpecifier → ExportRow)
        (s : ModuleTables), s.Linked →
        (∀ x m remote, row x = .reexport (.internal m) remote → m ∈ s.dependencies) →
        (xs.foldl (fun s x => s.enterExport x.exported (row x)) s).Linked := by
      intro xs row
      induction xs with
      | nil => exact fun s hs _ => hs
      | cons x xs ih =>
        exact fun s hs hd => ih _ (enterExport_linked hs (hd x)) hd
    split
    · exact key e.specifiers (fun x => .own x.binding) s h fun x m remote he => by cases he
    · rename_i source _
      refine key e.specifiers (fun x => .reexport source (.ofName x.binding)) _
        (enterDependency_linked h _) fun x m remote he => ?_
      cases he
      exact mem_dependencies_enterDependency
  | exportAll source name =>
    have hd := enterDependency_linked h (classify source)
    simp only [enterStatement]
    split
    · refine enterExport_linked hd fun m remote he => ?_
      simp only [ExportRow.reexport.injEq] at he
      rw [he.1]
      exact mem_dependencies_enterDependency
    · refine ⟨hd.imports, hd.exports, fun {m} hm => ?_⟩
      simp only [List.mem_append, List.mem_singleton] at hm
      rcases hm with hm | hm
      · exact hd.stars hm
      · rw [← hm]
        exact mem_dependencies_enterDependency
  | exportDefault expression =>
    exact enterExport_linked h fun m remote he => by cases he
  | exportAssignment expression => exact ⟨h.imports, h.exports, h.stars⟩
  | verbatim tokens pos => exact h

/-! ## Symbols -/

theorem enterSymbol_symbolIds (s : ModuleTables) (given name : String) (id : DeclId) :
    (s.enterSymbol given id).symbolIds name
      = s.symbolIds name ++ if given = name then [id] else [] := by
  simp only [symbolIds, enterSymbol, Table.get?_insert]
  split
  · rename_i h
    simp [h]
  · simp

theorem enterSymbol_nonempty (h : s.NonemptySymbols) (given : String) (id : DeclId) :
    (s.enterSymbol given id).NonemptySymbols := by
  intro name
  simp only [enterSymbol, Table.get?_insert]
  split
  · simp
  · exact h

/-- What one binding adds to the symbol of a name. -/
def addedTo (name : String) (b : Option DeclId × String) : List DeclId :=
  if b.2 = name then b.1.toList else []

theorem enterBinding_symbols (d : Declaration) (s : ModuleTables) (b : Option DeclId × String) :
    (s.enterBinding d b).symbols = (match b.1 with
      | some id => s.enterSymbol b.2 id
      | none => s).symbols := by
  obtain ⟨id, name⟩ := b
  unfold enterBinding
  simp only []
  split
  · rfl
  · split <;> rfl

theorem enterBinding_symbolIds (d : Declaration) (s : ModuleTables) (b : Option DeclId × String)
    (name : String) :
    (s.enterBinding d b).symbolIds name = s.symbolIds name ++ addedTo name b := by
  have hs : (s.enterBinding d b).symbolIds name = (match b.1 with
      | some id => s.enterSymbol b.2 id
      | none => s).symbolIds name := by
    unfold symbolIds
    rw [enterBinding_symbols]
  rw [hs]
  obtain ⟨id, given⟩ := b
  cases id with
  | none => simp [addedTo]
  | some id => simpa [addedTo] using enterSymbol_symbolIds s given name id

theorem enterBinding_nonempty (d : Declaration) (h : s.NonemptySymbols)
    (b : Option DeclId × String) : (s.enterBinding d b).NonemptySymbols :=
  enterBinding_induction NonemptySymbols d b h (enterSymbol_nonempty h) fun _ _ _ ht => ht

theorem foldl_enterBinding_symbolIds (d : Declaration) (name : String) :
    ∀ (bs : List (Option DeclId × String)) (s : ModuleTables),
      (bs.foldl (enterBinding d) s).symbolIds name
        = s.symbolIds name ++ bs.flatMap (addedTo name)
  | [], s => by simp
  | b :: bs, s => by
    rw [List.foldl_cons, foldl_enterBinding_symbolIds d name bs, enterBinding_symbolIds,
      List.flatMap_cons, List.append_assoc]

theorem flatMap_addedTo_bindings (d : Declaration) (module : ModuleId) (path name : String) :
    (d.bindings path).flatMap (addedTo name)
      = (((Statement.declaration d).topBindings module path).filter (·.name == name)).map
          (·.id) := by
  obtain ⟨id, modifiers, pos, kind⟩ := d
  cases kind with
  | variableList flavor ds =>
    simp only [Declaration.bindings, Statement.topBindings, List.flatMap_map]
    induction ds with
    | nil => rfl
    | cons v vs ih =>
      obtain ⟨vid, vname, ascription, initializer⟩ := v
      cases vid with
      | none => simpa [addedTo] using ih
      | some i => by_cases h : vname = name <;> simpa [addedTo, h] using ih
  | _ =>
    cases id with
    | none => simp [Declaration.bindings, Statement.topBindings, addedTo]
    | some i =>
      simp only [Declaration.bindings, Statement.topBindings, addedTo, List.flatMap_cons,
        List.flatMap_nil, List.append_nil, Option.map_some, Option.toList_some, List.filter_cons,
        List.filter_nil, beq_iff_eq]
      split <;> rfl

/-! ## Exports and dependencies -/

/-- No name is exported twice, and every dependency meets `P`. -/
structure Regular (P : ModuleId → Prop) (s : ModuleTables) : Prop where
  exports : s.exports.keys.Nodup
  dependencies : ∀ {d}, d ∈ s.dependencies → P d

variable {P : ModuleId → Prop}

theorem enterExport_regular (h : s.Regular P) (name : String) (row : ExportRow) :
    (s.enterExport name row).Regular P where
  exports := by
    simp only [enterExport, Table.keys_insertNew]
    exact nodup_pushNew h.exports
  dependencies := h.dependencies

theorem enterDependency_regular (h : s.Regular P) {source : Provider}
    (hp : ∀ m, source = .internal m → P m) : (s.enterDependency source).Regular P := by
  cases source with
  | external specifier => exact h
  | internal m =>
    refine ⟨h.exports, fun hd => ?_⟩
    rcases mem_pushNew.1 hd with hd | rfl
    · exact h.dependencies hd
    · exact hp _ rfl

theorem enterBinding_regular (d : Declaration) (h : s.Regular P) (b : Option DeclId × String) :
    (s.enterBinding d b).Regular P :=
  enterBinding_induction (Regular P) d b h (fun _ _ => ⟨h.exports, h.dependencies⟩)
    fun _ _ _ ht => enterExport_regular ht _ _

theorem enterStatement_regular {classify : String → Provider}
    (hp : ∀ x m, classify x = .internal m → P m) (h : s.Regular P) (st : Statement) :
    (s.enterStatement classify st).Regular P := by
  cases st with
  | declaration d => exact List.foldlRecOn _ _ h fun s hs b _ => enterBinding_regular d hs b
  | imports i =>
    exact List.foldlRecOn i.bindings _ (enterDependency_regular h (hp i.source))
      fun s hs b _ => ⟨hs.exports, hs.dependencies⟩
  | exports e =>
    simp only [enterStatement]
    split
    · exact List.foldlRecOn e.specifiers _ h fun s hs x _ => enterExport_regular hs _ _
    · rename_i source hsource
      obtain ⟨x, -, rfl⟩ := Option.map_eq_some_iff.1 hsource
      exact List.foldlRecOn e.specifiers _ (enterDependency_regular h (hp x))
        fun s hs x _ => enterExport_regular hs _ _
  | exportAll source name =>
    have hd := enterDependency_regular h (hp source)
    cases name with
    | none => exact ⟨hd.exports, hd.dependencies⟩
    | some name => exact enterExport_regular hd _ _
  | exportDefault expression => exact enterExport_regular h _ _
  | exportAssignment expression => exact ⟨h.exports, h.dependencies⟩
  | verbatim tokens pos => exact h

/-! ## Statements -/

theorem enterBinding_frame (d : Declaration) (s : ModuleTables) (b : Option DeclId × String) :
    (s.enterBinding d b).path = s.path ∧ (s.enterBinding d b).module = s.module := by
  refine enterBinding_induction (fun t => t.path = s.path ∧ t.module = s.module) d b ?_ ?_ ?_
  · exact ⟨rfl, rfl⟩
  · exact fun _ _ => ⟨rfl, rfl⟩
  · exact fun _ _ _ ht => ht

/-- Only declarations change the symbols, and no statement changes the path or the place of its
module. -/
theorem enterStatement_frame (classify : String → Provider) (s : ModuleTables) (st : Statement) :
    (s.enterStatement classify st).path = s.path
      ∧ (s.enterStatement classify st).module = s.module
      ∧ (st.declaration? = none → (s.enterStatement classify st).symbols = s.symbols) := by
  have hd : ∀ source : Provider, (s.enterDependency source).path = s.path
      ∧ (s.enterDependency source).module = s.module
      ∧ (s.enterDependency source).symbols = s.symbols := by
    intro source
    cases source <;> exact ⟨rfl, rfl, rfl⟩
  cases st with
  | declaration d =>
    have key : ∀ (bs : List (Option DeclId × String)) (s : ModuleTables),
        (bs.foldl (enterBinding d) s).path = s.path
          ∧ (bs.foldl (enterBinding d) s).module = s.module := by
      intro bs
      induction bs with
      | nil => exact fun s => ⟨rfl, rfl⟩
      | cons b bs ih =>
        intro s
        rw [List.foldl_cons, (ih _).1, (ih _).2]
        exact enterBinding_frame d s b
    refine ⟨(key _ s).1, (key _ s).2, fun h => ?_⟩
    simp [Statement.declaration?] at h
  | imports i =>
    have key : ∀ (bs : List (String × String)) (s : ModuleTables) (source : Provider),
        let s' := bs.foldl (fun s (b : String × String) => { s with
          imports := s.imports.insert b.1 ⟨source, .ofName b.2⟩ }) s
        s'.path = s.path ∧ s'.module = s.module ∧ s'.symbols = s.symbols := by
      intro bs
      induction bs with
      | nil => exact fun s _ => ⟨rfl, rfl, rfl⟩
      | cons b bs ih => exact fun s source => ih _ source
    obtain ⟨h1, h2, h3⟩ :=
      key i.bindings (s.enterDependency (classify i.source)) (classify i.source)
    obtain ⟨g1, g2, g3⟩ := hd (classify i.source)
    exact ⟨h1.trans g1, h2.trans g2, fun _ => h3.trans g3⟩
  | exports e =>
    have key : ∀ (xs : List ExportSpecifier) (row : ExportSpecifier → ExportRow)
        (s : ModuleTables),
        let s' := xs.foldl (fun s x => s.enterExport x.exported (row x)) s
        s'.path = s.path ∧ s'.module = s.module ∧ s'.symbols = s.symbols := by
      intro xs row
      induction xs with
      | nil => exact fun s => ⟨rfl, rfl, rfl⟩
      | cons x xs ih => exact fun s => ih _
    simp only [enterStatement]
    split
    · obtain ⟨h1, h2, h3⟩ := key e.specifiers (fun x => .own x.binding) s
      exact ⟨h1, h2, fun _ => h3⟩
    · rename_i source _
      obtain ⟨h1, h2, h3⟩ := key e.specifiers (fun x => .reexport source (.ofName x.binding))
        (s.enterDependency source)
      obtain ⟨g1, g2, g3⟩ := hd source
      exact ⟨h1.trans g1, h2.trans g2, fun _ => h3.trans g3⟩
  | exportAll source name =>
    obtain ⟨g1, g2, g3⟩ := hd (classify source)
    cases name <;> exact ⟨g1, g2, fun _ => g3⟩
  | exportDefault expression => exact ⟨rfl, rfl, fun _ => rfl⟩
  | exportAssignment expression => exact ⟨rfl, rfl, fun _ => rfl⟩
  | verbatim tokens pos => exact ⟨rfl, rfl, fun _ => rfl⟩

theorem enterStatement_symbolIds (classify : String → Provider) (s : ModuleTables)
    (st : Statement) (name : String) :
    (s.enterStatement classify st).symbolIds name
      = s.symbolIds name
        ++ ((st.topBindings s.module s.path).filter (·.name == name)).map (·.id) := by
  cases hst : st.declaration? with
  | some d =>
    cases st with
    | declaration d' =>
      rw [← flatMap_addedTo_bindings]
      exact foldl_enterBinding_symbolIds d' name _ s
    | _ => simp [Statement.declaration?] at hst
  | none =>
    have ht : st.topBindings s.module s.path = [] := by
      cases st with
      | declaration d => simp [Statement.declaration?] at hst
      | _ => rfl
    unfold symbolIds
    rw [(enterStatement_frame classify s st).2.2 hst, ht]
    simp

theorem enterStatement_nonempty (classify : String → Provider) (h : s.NonemptySymbols)
    (st : Statement) : (s.enterStatement classify st).NonemptySymbols := by
  cases hst : st.declaration? with
  | some d =>
    cases st with
    | declaration d' =>
      exact List.foldlRecOn (motive := fun s : ModuleTables => s.NonemptySymbols) _ _ h
        fun s hs b _ => enterBinding_nonempty d' hs b
    | _ => simp [Statement.declaration?] at hst
  | none =>
    intro name
    rw [(enterStatement_frame classify s st).2.2 hst]
    exact h

/-! ## All statements of a module -/

/-- What the tables are after some statements of a module. -/
theorem foldl_enterStatement (classify : String → Provider) :
    ∀ (ss : List Statement) (s : ModuleTables), s.Linked → s.NonemptySymbols →
      let s' := ss.foldl (enterStatement classify) s
      s'.Linked ∧ s'.NonemptySymbols ∧ s'.path = s.path ∧ s'.module = s.module
        ∧ ∀ name, s'.symbolIds name = s.symbolIds name
            ++ ((topBindings s.module s.path ss).filter (·.name == name)).map (·.id)
  | [], s, hl, hn => ⟨hl, hn, rfl, rfl, fun name => by simp [topBindings]⟩
  | st :: ss, s, hl, hn => by
    obtain ⟨h1, h2, h3, h4, h5⟩ := foldl_enterStatement classify ss
      (s.enterStatement classify st) (enterStatement_linked classify hl st)
      (enterStatement_nonempty classify hn st)
    obtain ⟨hp, hm, -⟩ := enterStatement_frame classify s st
    refine ⟨h1, h2, h3.trans hp, h4.trans hm, fun name => ?_⟩
    rw [List.foldl_cons, h5, enterStatement_symbolIds, hp, hm]
    simp [topBindings]

end ModuleTables

/-! ## The linked store -/

namespace Store

variable {s : Store} (options : Options)

theorem scope?_linker (m : ModuleId) :
    (s.linker options).scope? m = (s.get? m).map (Linker.tablesOf s m) := by
  simp only [linker, Linker.build, Linker.scope?, Store.get?, List.getElem?_map,
    List.getElem?_zipIdx]
  cases s.units[m]? <;> simp

theorem exists_tablesOf (m : ModuleId) (u : DeclUnit) : ∃ classify, Linker.tablesOf s m u
    = u.statements.foldl (ModuleTables.enterStatement classify) { module := m, path := u.path } :=
  ⟨_, rfl⟩

theorem tablesOf_spec (m : ModuleId) (u : DeclUnit) :
    (Linker.tablesOf s m u).Linked ∧ (Linker.tablesOf s m u).NonemptySymbols
      ∧ (Linker.tablesOf s m u).path = u.path ∧ (Linker.tablesOf s m u).module = m
      ∧ ∀ name, (Linker.tablesOf s m u).symbolIds name
          = ((topBindings m u.path u.statements).filter (·.name == name)).map (·.id) := by
  obtain ⟨classify, heq⟩ := exists_tablesOf (s := s) m u
  have h := ModuleTables.foldl_enterStatement classify u.statements { module := m, path := u.path }
    ⟨fun h => by simp [Table.get?, Table.find?] at h,
      fun h => by simp [Table.get?, Table.find?] at h,
      fun h => by simp at h⟩
    (fun {name} => by simp [Table.get?, Table.find?])
  rw [← heq] at h
  obtain ⟨h1, h2, h3, h4, h5⟩ := h
  refine ⟨h1, h2, h3, h4, fun name => ?_⟩
  exact (h5 name).trans (List.nil_append _)

theorem lookup_lt {path : String} {m : ModuleId} (h : s.lookup path = some m) : m < s.size :=
  (List.findIdx?_eq_some_iff_findIdx_eq.1 h).1

/-- No name is exported twice by a module, and its dependencies are modules of the store. -/
theorem regular_scope {m : ModuleId} {scope : ModuleTables}
    (h : (s.linker options).scope? m = some scope) : scope.Regular (· < s.size) := by
  rw [scope?_linker, Option.map_eq_some_iff] at h
  obtain ⟨u, -, rfl⟩ := h
  refine List.foldlRecOn u.statements _ ⟨List.nodup_nil, fun hd => by simp at hd⟩
    fun t ht st _ => ModuleTables.enterStatement_regular (fun x d hd => ?_) ht st
  split at hd
  · rename_i d' hl
    cases hd
    exact lookup_lt hl
  · cases hd

theorem module_scope {m : ModuleId} {scope : ModuleTables}
    (h : (s.linker options).scope? m = some scope) : scope.module = m := by
  rw [scope?_linker, Option.map_eq_some_iff] at h
  obtain ⟨u, -, rfl⟩ := h
  exact (tablesOf_spec m u).2.2.2.1

/-- The symbol of a name is the list of the bindings of that name. -/
theorem symbols_scope {m : ModuleId} {scope : ModuleTables}
    (h : (s.linker options).scope? m = some scope) (name : String) :
    (∀ ids, scope.symbols.get? name = some ids → ids ≠ [])
      ∧ ∀ id, id ∈ scope.symbolIds name
          ↔ ∃ b ∈ s.bindings, b.id = id ∧ b.module = m ∧ b.name = name := by
  rw [scope?_linker, Option.map_eq_some_iff] at h
  obtain ⟨u, hu, rfl⟩ := h
  obtain ⟨-, hn, -, -, hs⟩ := tablesOf_spec (s := s) m u
  refine ⟨fun ids hg he => hn (he ▸ hg), fun id => ?_⟩
  rw [hs]
  simp only [List.mem_map, List.mem_filter, beq_iff_eq]
  constructor
  · rintro ⟨b, ⟨hb, rfl⟩, rfl⟩
    obtain ⟨rfl, -⟩ := module_of_mem_topBindings hb
    exact ⟨b, mem_bindings.2 ⟨u, hu, hb⟩, rfl, rfl, rfl⟩
  · rintro ⟨b, hb, rfl, rfl, rfl⟩
    obtain ⟨u', hu', hb'⟩ := mem_bindings.1 hb
    rw [hu] at hu'
    cases hu'
    exact ⟨b, ⟨hb', rfl⟩, rfl⟩

/-- The declarations under the name of a binding are the bindings of its module and name. -/
theorem Built.mem_symbolDecls (h : s.Built) {b : TopBinding} (hb : b ∈ s.bindings) {id : DeclId} :
    id ∈ (s.linker options).symbolDecls b.id
      ↔ ∃ c ∈ s.bindings, c.id = id ∧ c.module = b.module ∧ c.name = b.name := by
  obtain ⟨u, hu, -⟩ := mem_bindings.1 hb
  have hscope : (s.linker options).scope? b.module = some (Linker.tablesOf s b.module u) := by
    rw [scope?_linker, hu, Option.map_some]
  have hd := h.decl?_of_mem options hb
  rw [← (symbols_scope options hscope b.name).2]
  simp only [Linker.symbolDecls, hd, ModuleTables.symbolIds, Option.bind_eq_bind, Option.bind_some,
    TopBinding.summary, hscope]

theorem mem_symbolDecls_self (h : s.Built) {b : TopBinding} (hb : b ∈ s.bindings) :
    b.id ∈ (s.linker options).symbolDecls b.id :=
  (h.mem_symbolDecls options hb).2 ⟨b, hb, rfl, rfl, rfl⟩

end Store

end DeclBundle
