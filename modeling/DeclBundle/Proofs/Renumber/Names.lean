import DeclBundle.Proofs.Names.Requests
import DeclBundle.Proofs.Renumber.Reach
import DeclBundle.Proofs.Shake

/-!
# Shaken modules and requests for names under other numbers

When the same declarations are reached, the same is left of the modules of a bundle
(`Store.Embeds.shaken`), and the same names are asked for, in the same order
(`Store.Embeds.requests`).
-/

namespace DeclBundle

/-- A module with all its identities renumbered. -/
def ModuleTree.renumber (ρ : Renumbering) (t : ModuleTree) : ModuleTree :=
  ⟨ρ.module t.module, t.path, Statement.renumberList ρ.decl t.statements⟩

namespace Shake

variable {f : DeclId → DeclId} {r r' : Reach} (hr : ∀ id, r'.contains (f id) = r.contains id)
include hr

theorem keeps_map (id : Option DeclId) : keeps r' (id.map f) = keeps r id := by
  cases id with
  | none => rfl
  | some id => exact hr id

theorem statement?_renumber (st : Statement) :
    statement? r' (st.renumber f) = (statement? r st).map (Statement.renumber f) := by
  cases st with
  | declaration d =>
    obtain ⟨id, modifiers, pos, kind⟩ := d
    cases kind with
    | variableList flavor ds =>
      have hfilter : (ds.map (Declarator.renumber f)).filter (fun v => keeps r' v.id)
          = (ds.filter fun v => keeps r v.id).map (Declarator.renumber f) := by
        rw [List.filter_map]
        congr 1
        exact List.filter_congr fun v _ => keeps_map hr v.id
      simp only [Statement.renumber, Declaration.renumber, DeclarationKind.renumber, statement?,
        hfilter]
      cases ds.filter fun v => keeps r v.id <;> rfl
    | _ =>
      simp only [Statement.renumber, Declaration.renumber, DeclarationKind.renumber, statement?,
        keeps_map hr]
      split <;> rfl
  | _ => rfl

theorem unit_renumber (ρ : Renumbering) (hf : ρ.decl = f) (m : ModuleId) (u : DeclUnit) :
    unit r' (ρ.module m) (u.renumber f) = (unit r m u).renumber ρ := by
  have hst : (Statement.renumberList f u.statements).filterMap (statement? r')
      = Statement.renumberList f (u.statements.filterMap (statement? r)) := by
    rw [Statement.renumberList_eq, Statement.renumberList_eq, List.filterMap_map, List.map_filterMap]
    exact List.filterMap_congr fun st _ => statement?_renumber hr st
  simp only [unit, DeclUnit.renumber, hst, ModuleTree.renumber, hf]

end Shake

theorem Shake.boundIds_renumber (f : DeclId → DeclId) (ss : List Statement) :
    boundIds (Statement.renumberList f ss) = (boundIds ss).map (Option.map f) := by
  rw [boundIds, Statement.renumberList_eq, List.flatMap_map, boundIds, List.map_flatMap]
  refine List.flatMap_congr fun st _ => ?_
  cases st with
  | declaration d => exact Declaration.boundIds_renumber f d
  | _ => rfl

namespace Store.Embeds

variable {ρ : Renumbering} {s s' : Store} {S : ModuleId → Prop} (h : s.Embeds ρ s' S)
include h

theorem units_shake (ms : List ModuleId) : Shake.units s' (ms.map ρ.module)
    = (Shake.units s ms).map fun p => (ρ.module p.1, p.2.renumber ρ.decl) := by
  rw [Shake.units, Shake.units, List.filterMap_map, List.map_filterMap]
  refine List.filterMap_congr fun m _ => ?_
  rw [Function.comp_apply, h.unit]
  cases s.get? m <;> rfl

variable {r r' : Reach} (hr : ∀ id, r'.contains (ρ.decl id) = r.contains id)
include hr

/-- The same is left of modules when the same is reached. -/
theorem shaken (ms : List ModuleId) : Shake.modules s' (ms.map ρ.module) r'
    = (Shake.modules s ms r).map (ModuleTree.renumber ρ) := by
  simp only [Shake.modules, h.units_shake, List.map_map]
  exact List.map_congr_left fun p _ => Shake.unit_renumber hr ρ rfl p.1 p.2

theorem counts (ms : List ModuleId) :
    Shake.counts s' (ms.map ρ.module) r' = Shake.counts s ms r := by
  have hids : (Shake.units s' (ms.map ρ.module)).flatMap (fun p => Shake.boundIds p.2.statements)
      = ((Shake.units s ms).flatMap fun p => Shake.boundIds p.2.statements).map
          (Option.map ρ.decl) := by
    rw [h.units_shake, List.flatMap_map, List.map_flatMap]
    exact List.flatMap_congr fun p _ => Shake.boundIds_renumber ρ.decl p.2.statements
  simp only [Shake.counts, hids, List.countP_map]
  congr 1 <;> exact List.countP_congr fun id _ => by simp [Shake.keeps_map hr]

end Store.Embeds

/-! ## Requests -/

/-- A request with its modules and declarations renumbered. -/
def FinalNames.Request.renumber (ρ : Renumbering) : Request → Request
  | .symbol module id given => .symbol (ρ.module module) (ρ.decl id) given
  | .library module ref preferred => .library (module.map ρ.module) ref preferred
  | .namespaceOf module target preferred =>
    .namespaceOf (module.map ρ.module) (ρ.module target) preferred
  | .importAlias module binding terminal => .importAlias (ρ.module module) binding (ρ.decl terminal)

namespace FinalNames.Request

theorem ofResolution_renumber (ρ : Renumbering) (m : ModuleId) (preferred : String)
    (r : Resolution) : ofResolution (ρ.module m) preferred (r.renumber ρ)
      = (ofResolution m preferred r).map (renumber ρ) := by
  cases r <;> rfl

end FinalNames.Request

namespace Store.Embeds

open FinalNames FinalNames.Request

variable {ρ : Renumbering} {s s' : Store} {S : ModuleId → Prop} (h : s.Embeds ρ s' S)
  (options : Options)
include h

theorem decl?_of_within {id : DeclId}
    (hw : (Resolution.declaration id).Within (s.linker options) S) :
    (s'.linker options).decl? (ρ.decl id)
      = ((s.linker options).decl? id).map (DeclSummary.renumber ρ) := by
  obtain ⟨b, hb, rfl, -⟩ := Store.binding_of_within hw
  rw [h.decl? hb, h.built.decl?_of_mem options hb]
  rfl

theorem entryExports {entry : ModuleId} (he : S entry) (r r' : Reach) (binding : String) :
    FinalNames.entryExports ⟨s'.linker options, r', ρ.module entry⟩ binding
      = FinalNames.entryExports ⟨s.linker options, r, entry⟩ binding := by
  simp only [FinalNames.entryExports, h.scope? he, Option.any_map]
  congr 1
  funext scope
  have hown : ∀ row : ExportRow, (decide (row.renumber ρ = .own binding))
      = decide (row = .own binding) := by
    intro row
    cases row <;> simp [ExportRow.renumber]
  simp only [ModuleTables.renumber, Table.values_map, List.any_map]
  congr 1
  funext row
  exact hown row

variable {r r' : Reach} (hr : ∀ id, r'.contains (ρ.decl id) = r.contains id) {entry : ModuleId}
  (he : S entry)
include hr he

theorem needsAlias {m : ModuleId} (binding remote : String) {terminal : DeclId}
    (hw : (Resolution.declaration terminal).Within (s.linker options) S) :
    FinalNames.needsAlias ⟨s'.linker options, r', ρ.module entry⟩ (ρ.module m) binding remote
        (ρ.decl terminal)
      = FinalNames.needsAlias ⟨s.linker options, r, entry⟩ m binding remote terminal := by
  simp only [FinalNames.needsAlias, h.decl?_of_within options hw, Option.all_map, hr,
    h.entryExports options he r r', ρ.module_injective.eq_iff]
  rfl

theorem ofImport {m : ModuleId} (hm : S m) (binding remote : String) :
    Request.ofImport ⟨s'.linker options, r', ρ.module entry⟩ (ρ.module m) binding remote
      = (Request.ofImport ⟨s.linker options, r, entry⟩ m binding remote).map
          (Request.renumber ρ) := by
  have hw := Linker.within_resolveLocal (h.linker_closed options) hm binding
  simp only [Request.ofImport, h.resolveLocal options hm, Prod.map_fst]
  cases hres : ((s.linker options).resolveLocal m binding).1 with
  | declaration terminal =>
    rw [hres] at hw
    simp only [Resolution.renumber, h.needsAlias options hr he binding remote hw]
    split <;> rfl
  | _ => exact ofResolution_renumber ρ m binding _

theorem ofStatement {t : ModuleTree} (hm : S t.module) (st : Statement) :
    Request.ofStatement ⟨s'.linker options, r', ρ.module entry⟩ (t.renumber ρ)
        (st.renumber ρ.decl)
      = (Request.ofStatement ⟨s.linker options, r, entry⟩ t st).map (Request.renumber ρ) := by
  cases st with
  | declaration d =>
    simp only [Statement.renumber, Request.ofStatement, Declaration.bindings_renumber,
      ModuleTree.renumber, List.filterMap_map, List.map_filterMap]
    refine List.filterMap_congr fun b _ => ?_
    obtain ⟨id, name⟩ := b
    cases id <;> rfl
  | imports i =>
    simp only [Statement.renumber, Request.ofStatement, List.map_flatMap]
    exact List.flatMap_congr fun b _ => h.ofImport options hr he hm b.1 b.2
  | exports e =>
    simp only [Statement.renumber, Request.ofStatement]
    split
    · rw [List.map_flatMap]
      refine List.flatMap_congr fun x _ => ?_
      simp only [ofReexport, ModuleTree.renumber, h.resolveExport options hm, Prod.map_fst]
      exact ofResolution_renumber ρ t.module _ _
    · rfl
  | exportAll source name =>
    cases name with
    | none => rfl
    | some name =>
      simp only [Statement.renumber, Request.ofStatement, ModuleTree.renumber,
        h.resolveExport options hm, Prod.map_fst]
      exact ofResolution_renumber ρ t.module _ _
  | _ => rfl

/-- What modules ask for is the same. -/
theorem ofTrees {trees : List ModuleTree} (ht : ∀ t ∈ trees, S t.module) :
    (trees.map (ModuleTree.renumber ρ)).flatMap (fun t => t.statements.flatMap
        (Request.ofStatement ⟨s'.linker options, r', ρ.module entry⟩ t))
      = (trees.flatMap fun t => t.statements.flatMap
          (Request.ofStatement ⟨s.linker options, r, entry⟩ t)).map (Request.renumber ρ) := by
  rw [List.flatMap_map, List.map_flatMap]
  refine List.flatMap_congr fun t htm => ?_
  have hss : (t.renumber ρ).statements = t.statements.map (Statement.renumber ρ.decl) :=
    Statement.renumberList_eq _ _
  rw [hss, List.flatMap_map, List.map_flatMap]
  exact List.flatMap_congr fun st _ => h.ofStatement options hr he (ht t htm) st

end Store.Embeds

/-! ## Final names -/

/-- The scopes with other numbers for the modules that took their names. -/
def Scopes.renumber (ρ : Renumbering) (s : Scopes) : Scopes :=
  { s with root := s.root.map id (Option.map ρ.module) }

namespace Scopes

variable (ρ : Renumbering) (s : Scopes)

theorem taken_renumber : (s.renumber ρ).taken = s.taken := by
  simp [taken, renumber, Table.keys_map]

theorem reserve_renumber (name : String) :
    (s.renumber ρ).reserve name = (s.reserve name).renumber ρ :=
  congrArg (fun root => { s with root })
    (Table.insertNew_map Function.injective_id (Option.map ρ.module) s.root name none)

theorem reserveInScope_renumber (name : String) :
    (s.renumber ρ).reserveInScope name = (s.reserveInScope name).renumber ρ := by
  obtain ⟨root, inner⟩ := s
  cases inner with
  | nil => exact reserve_renumber ρ ⟨root, []⟩ name
  | cons scope outer => rfl

theorem bind_renumber (preferred : String) (owner : Option ModuleId) :
    (s.renumber ρ).bind preferred (owner.map ρ.module)
      = Prod.map id (renumber ρ) (s.bind preferred owner) := by
  have hname : (s.renumber ρ).choose preferred = s.choose preferred := by
    simp [choose, isFree, generate, taken_renumber]
  obtain ⟨root, inner⟩ := s
  cases inner with
  | nil =>
    have hroot := Table.insert_map Function.injective_id (Option.map ρ.module) root
      ((⟨root, []⟩ : Scopes).choose preferred) owner
    simp only [bind, hname, Prod.map_apply, id_eq]
    exact Prod.ext rfl (congrArg (fun root => (⟨root, []⟩ : Scopes)) hroot)
  | cons scope outer =>
    simp only [bind, hname]
    rfl

end Scopes

/-- A final name with its module renumbered. -/
def FinalName.renumber (ρ : Renumbering) (b : FinalName) : FinalName :=
  { b with module := b.module.map ρ.module }

/-- An import alias with both its identities renumbered. -/
def ImportAlias.renumber (ρ : Renumbering) (a : ImportAlias) : ImportAlias :=
  ⟨ρ.decl a.id, ρ.decl a.terminal⟩

/-- Final names with all modules and declarations renumbered; the names themselves stay. -/
def FinalNames.renumber (ρ : Renumbering) (n : FinalNames) : FinalNames where
  topLevel := n.topLevel.map ρ.decl (FinalName.renumber ρ)
  symbols := n.symbols.map (Prod.map ρ.module id) id
  externals := n.externals.map id ρ.decl
  namespaces := n.namespaces.map ρ.module ρ.decl
  aliases := n.aliases.map (Prod.map ρ.module id) (ImportAlias.renumber ρ)
  scopes := n.scopes.renumber ρ
  nextId := ρ.decl n.nextId

namespace FinalNames

variable (ρ : Renumbering) (n : FinalNames)

theorem injective_symbol : Function.Injective (Prod.map ρ.module (id : String → String)) :=
  ρ.module_injective.prodMap Function.injective_id

theorem get?_renumber (id : DeclId) : (n.renumber ρ).get? (ρ.decl id) = n.get? id := by
  have h : (n.renumber ρ).topLevel.get? (ρ.decl id)
      = (n.topLevel.get? id).map (FinalName.renumber ρ) :=
    Table.get?_map ρ.decl_injective _ n.topLevel id
  rw [get?, h, get?]
  cases n.topLevel.get? id <;> rfl

theorem symbol?_renumber (m : ModuleId) (given : String) :
    (n.renumber ρ).symbol? (ρ.module m) given = n.symbol? m given := by
  have h : (n.renumber ρ).symbols.get? (ρ.module m, given)
      = (n.symbols.get? (m, given)).map id :=
    Table.get?_map (injective_symbol ρ) _ n.symbols (m, given)
  rw [symbol?, h, Option.map_id, symbol?]
  rfl

theorem nameSymbol_renumber (m : ModuleId) (i : DeclId) (given : String) :
    (n.renumber ρ).nameSymbol (ρ.module m) (ρ.decl i) given
      = (n.nameSymbol m i given).renumber ρ := by
  have htop : ∀ name, (n.renumber ρ).topLevel.insertNew (ρ.decl i) ⟨some (ρ.module m), given, name⟩
      = (n.topLevel.insertNew i ⟨some m, given, name⟩).map ρ.decl (FinalName.renumber ρ) :=
    fun name => Table.insertNew_map ρ.decl_injective (FinalName.renumber ρ) n.topLevel i
      ⟨some m, given, name⟩
  simp only [nameSymbol, symbol?_renumber]
  cases n.symbol? m given with
  | some name => exact congrArg (fun topLevel => { n.renumber ρ with topLevel }) (htop name)
  | none =>
    have hbind : (n.renumber ρ).scopes.bind given (some (ρ.module m)) = _ :=
      n.scopes.bind_renumber ρ given (some m)
    have hsym := Table.insertNew_map (injective_symbol ρ) id n.symbols (m, given)
      (n.scopes.bind given (some m)).1
    simp only [hbind, Prod.map_fst, id_eq]
    exact congrArg₂ (fun topLevel symbols => { n.renumber ρ with
      topLevel, symbols, scopes := (n.scopes.bind given (some m)).2.renumber ρ }) (htop _) hsym

/-- The identity that is given out after the next one is the next one's neighbour. -/
def Follows : Prop := ρ.decl (n.nextId + 1) = ρ.decl n.nextId + 1

variable {ρ n}

theorem nameFresh_renumber (hn : n.Follows ρ) (m : Option ModuleId) (preferred : String) :
    (n.renumber ρ).nameFresh (m.map ρ.module) preferred
      = Prod.map ρ.decl (renumber ρ) (n.nameFresh m preferred) := by
  have hbind : ∀ name, (n.renumber ρ).scopes.bind name (m.map ρ.module) = _ :=
    fun name => n.scopes.bind_renumber ρ name m
  have htop : ∀ given name, (n.renumber ρ).topLevel.insertNew (ρ.decl n.nextId)
        ⟨m.map ρ.module, given, name⟩
      = (n.topLevel.insertNew n.nextId ⟨m, given, name⟩).map ρ.decl (FinalName.renumber ρ) :=
    fun given name => Table.insertNew_map ρ.decl_injective (FinalName.renumber ρ) n.topLevel
      n.nextId ⟨m, given, name⟩
  simp only [nameFresh, hbind, Prod.map_fst, Prod.map_snd, id_eq]
  generalize (if preferred = "" then "ns" else preferred) = given
  refine Prod.ext rfl ?_
  exact congrArg₂ (fun topLevel nextId => { n.renumber ρ with
    topLevel, nextId, scopes := (n.scopes.bind given m).2.renumber ρ }) (htop _ _) hn.symm

section
variable {c c' : NamingContext}

theorem nameLibraryBinding_renumber (hc : c'.reach.imports = c.reach.imports) (hn : n.Follows ρ)
    (m : Option ModuleId) (ref : LibraryBinding) (preferred : String) :
    (n.renumber ρ).nameLibraryBinding c' (m.map ρ.module) ref preferred
      = (n.nameLibraryBinding c m ref preferred).renumber ρ := by
  have hcontains : (n.renumber ρ).externals.contains ref = n.externals.contains ref :=
    Table.contains_map Function.injective_id ρ.decl n.externals ref
  simp only [nameLibraryBinding, hc, hcontains, nameFresh_renumber hn]
  split
  · exact congrArg (fun externals => { (n.nameFresh m preferred).2.renumber ρ with externals })
      (Table.insert_map Function.injective_id ρ.decl (n.nameFresh m preferred).2.externals ref _)
  · rfl

theorem nameNamespace_renumber (hc : c'.reach.namespaces = c.reach.namespaces.map ρ.module)
    (hn : n.Follows ρ) (m : Option ModuleId) (target : ModuleId) (preferred : String) :
    (n.renumber ρ).nameNamespace c' (m.map ρ.module) (ρ.module target) preferred
      = (n.nameNamespace c m target preferred).renumber ρ := by
  have hmem : ρ.module target ∈ c.reach.namespaces.map ρ.module ↔ target ∈ c.reach.namespaces :=
    List.mem_map_of_injective ρ.module_injective
  have hcontains : (n.renumber ρ).namespaces.contains (ρ.module target)
      = n.namespaces.contains target :=
    Table.contains_map ρ.module_injective ρ.decl n.namespaces target
  simp only [nameNamespace, hc, hmem, hcontains, nameFresh_renumber hn]
  split
  · exact congrArg (fun namespaces => { (n.nameFresh m preferred).2.renumber ρ with namespaces })
      (Table.insert_map ρ.module_injective ρ.decl (n.nameFresh m preferred).2.namespaces target _)
  · rfl

theorem nameAlias_renumber (hn : n.Follows ρ) (m : ModuleId) (binding : String) (terminal : DeclId) :
    (n.renumber ρ).nameAlias (ρ.module m) binding (ρ.decl terminal)
      = (n.nameAlias m binding terminal).renumber ρ := by
  have hcontains : (n.renumber ρ).aliases.contains (ρ.module m, binding)
      = n.aliases.contains (m, binding) :=
    Table.contains_map (injective_symbol ρ) (ImportAlias.renumber ρ) n.aliases (m, binding)
  have hfresh := nameFresh_renumber hn (some m) binding
  rw [Option.map_some] at hfresh
  simp only [nameAlias, hcontains, hfresh]
  split
  · rfl
  · exact congrArg (fun aliases => { (n.nameFresh (some m) binding).2.renumber ρ with aliases })
      (Table.insert_map (injective_symbol ρ) (ImportAlias.renumber ρ)
        (n.nameFresh (some m) binding).2.aliases (m, binding)
        ⟨(n.nameFresh (some m) binding).1, terminal⟩)

/-- Serving a request commutes with other numbers. -/
theorem serve_renumber (hi : c'.reach.imports = c.reach.imports)
    (hns : c'.reach.namespaces = c.reach.namespaces.map ρ.module) (hn : n.Follows ρ) (q : Request) :
    (n.renumber ρ).serve c' (q.renumber ρ) = (n.serve c q).renumber ρ := by
  cases q with
  | symbol m id given => exact nameSymbol_renumber ρ n m id given
  | library m ref preferred => exact nameLibraryBinding_renumber hi hn m ref preferred
  | namespaceOf m target preferred => exact nameNamespace_renumber hns hn m target preferred
  | importAlias m binding terminal => exact nameAlias_renumber hn m binding terminal

end

theorem nextId_le_serve (c : NamingContext) (q : Request) : n.nextId ≤ (n.serve c q).nextId := by
  cases q with
  | symbol m id given =>
    simp only [serve, nameSymbol]
    split <;> exact Nat.le_refl _
  | library m ref preferred =>
    simp only [serve, nameLibraryBinding]
    split
    · exact Nat.le_succ _
    · exact Nat.le_refl _
  | namespaceOf m target preferred =>
    simp only [serve, nameNamespace]
    split
    · exact Nat.le_succ _
    · exact Nat.le_refl _
  | importAlias m binding terminal =>
    simp only [serve, nameAlias]
    split
    · exact Nat.le_refl _
    · exact Nat.le_succ _

theorem foldl_serve_renumber {c c' : NamingContext} (hi : c'.reach.imports = c.reach.imports)
    (hns : c'.reach.namespaces = c.reach.namespaces.map ρ.module) : ∀ (qs : List Request)
      {n : FinalNames}, (∀ id, n.nextId ≤ id → ρ.decl (id + 1) = ρ.decl id + 1) →
        (qs.map (Request.renumber ρ)).foldl (serve c') (n.renumber ρ)
          = (qs.foldl (serve c) n).renumber ρ
  | [], _, _ => rfl
  | q :: qs, n, hn => by
    rw [List.map_cons, List.foldl_cons, List.foldl_cons,
      serve_renumber hi hns (hn n.nextId (Nat.le_refl _))]
    exact foldl_serve_renumber hi hns qs fun id hid =>
      hn id (Nat.le_trans (nextId_le_serve c q) hid)

theorem reserve_renumber (n : FinalNames) (names : List String) :
    (n.renumber ρ).reserve names = (n.reserve names).renumber ρ :=
  congrArg (fun scopes => { n.renumber ρ with scopes })
    (List.foldl_hom (Scopes.renumber ρ) fun scopes name => scopes.reserve_renumber ρ name)

end FinalNames

namespace Store.Embeds

variable {ρ : Renumbering} {s s' : Store} {S : ModuleId → Prop} (h : s.Embeds ρ s' S)
  (options : Options)
include h

/-- What lies in modules that see the same goes by the same final name. -/
theorem resolved? (n : FinalNames) {r : Resolution} (hw : r.Within (s.linker options) S) :
    (n.renumber ρ).resolved? (s'.linker options) (r.renumber ρ)
      = n.resolved? (s.linker options) r := by
  cases r with
  | declaration id =>
    simp only [Resolution.renumber, FinalNames.resolved?, h.decl?_of_within options hw]
    cases (s.linker options).decl? id with
    | none => rfl
    | some info => exact n.symbol?_renumber ρ info.module info.name
  | namespaceOf m =>
    have hget : (n.renumber ρ).namespaces.get? (ρ.module m) = (n.namespaces.get? m).map ρ.decl :=
      Table.get?_map ρ.module_injective ρ.decl n.namespaces m
    simp only [Resolution.renumber, FinalNames.resolved?, hget]
    cases n.namespaces.get? m with
    | none => rfl
    | some id => exact n.get?_renumber ρ id
  | external ref =>
    have hget : (n.renumber ρ).externals.get? ref = (n.externals.get? ref).map ρ.decl :=
      Table.get?_map Function.injective_id ρ.decl n.externals ref
    simp only [Resolution.renumber, FinalNames.resolved?, hget]
    cases n.externals.get? ref with
    | none => rfl
    | some id => exact n.get?_renumber ρ id
  | unresolved => rfl

variable {r : Reach} {entry : ModuleId} {trees : List ModuleTree} (he : S entry)
  (hr : ∀ m ∈ r.namespaces, S m) (ht : ∀ t ∈ trees, S t.module)
include he hr ht

theorem requests : FinalNames.Request.all ⟨s'.linker options, r.renumber ρ, ρ.module entry⟩
      (trees.map (ModuleTree.renumber ρ))
    = (FinalNames.Request.all ⟨s.linker options, r, entry⟩ trees).map
        (FinalNames.Request.renumber ρ) := by
  have hcontains : ∀ id, (r.renumber ρ).contains (ρ.decl id) = r.contains id := fun id =>
    decide_eq_decide.2 (List.mem_map_of_injective ρ.decl_injective)
  have htrees := h.ofTrees options hcontains he ht
  have hnamespaces : (r.namespaces.map ρ.module).map (fun m =>
        FinalNames.Request.namespaceOf (some m) m
          (Text.decapitalized (capitalizedStem ((s'.linker options).modulePath m))))
      = (r.namespaces.map fun m => FinalNames.Request.namespaceOf (some m) m
          (Text.decapitalized (capitalizedStem ((s.linker options).modulePath m)))).map
            (FinalNames.Request.renumber ρ) := by
    rw [List.map_map, List.map_map]
    refine List.map_congr_left fun m hm => ?_
    simp only [Function.comp_apply, h.modulePath (hr m hm)]
    rfl
  have himports : r.imports.map (fun ref =>
        FinalNames.Request.library none ref (FinalNames.fallbackName ref))
      = (r.imports.map fun ref => FinalNames.Request.library none ref
          (FinalNames.fallbackName ref)).map (FinalNames.Request.renumber ρ) := by
    rw [List.map_map]
    rfl
  rw [FinalNames.Request.all, FinalNames.Request.all, FinalNames.Request.rest,
    FinalNames.Request.rest, htrees, List.map_append, List.map_append]
  exact congrArg (_ ++ ·) (congrArg₂ (· ++ ·) himports hnamespaces)

/-- The same names are chosen, when new identities follow each other in both stores. -/
theorem choose {firstId : DeclId} (hf : ∀ id, firstId ≤ id → ρ.decl (id + 1) = ρ.decl id + 1)
    (reserved : List String) :
    FinalNames.choose ⟨s'.linker options, r.renumber ρ, ρ.module entry⟩ reserved (ρ.decl firstId)
        (trees.map (ModuleTree.renumber ρ))
      = (FinalNames.choose ⟨s.linker options, r, entry⟩ reserved firstId trees).renumber ρ := by
  have hstart : FinalNames.reserve { nextId := ρ.decl firstId } reserved
      = (FinalNames.reserve { nextId := firstId } reserved).renumber ρ :=
    FinalNames.reserve_renumber { nextId := firstId } reserved
  rw [FinalNames.choose_eq, FinalNames.choose_eq, h.requests options he hr ht, hstart]
  exact @FinalNames.foldl_serve_renumber ρ ⟨s.linker options, r, entry⟩
    ⟨s'.linker options, r.renumber ρ, ρ.module entry⟩ rfl rfl _ _ hf

end Store.Embeds

end DeclBundle
