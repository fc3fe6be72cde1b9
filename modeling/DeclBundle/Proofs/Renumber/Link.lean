import DeclBundle.Proofs.Link.Surface
import DeclBundle.Proofs.Renumber.Units
import Mathlib.Data.Prod.Basic

/-!
# Look-ups and surfaces under other numbers

What a module that sees the same has in its tables, finds under a name and exports is the same under
other numbers, with the same reports.
-/

namespace DeclBundle

open Linker

/-! ## Tables -/

namespace ModuleTables

variable (ρ : Renumbering) (t : ModuleTables)

theorem enterSymbol_renumber (name : String) (id : DeclId) :
    (t.renumber ρ).enterSymbol name (ρ.decl id) = (t.enterSymbol name id).renumber ρ := by
  have hg : (t.renumber ρ).symbols.get? name = (t.symbols.get? name).map (List.map ρ.decl) :=
    Table.get?_map Function.injective_id _ t.symbols name
  have hids : ((t.renumber ρ).symbols.get? name).getD [] ++ [ρ.decl id]
      = ((t.symbols.get? name).getD [] ++ [id]).map ρ.decl := by
    rw [hg]
    cases t.symbols.get? name <;> simp
  rw [enterSymbol, hids, enterSymbol]
  exact congrArg (fun symbols => { t.renumber ρ with symbols })
    (Table.insert_map Function.injective_id _ t.symbols name _)

theorem enterExport_renumber (name : String) (row : ExportRow) :
    (t.renumber ρ).enterExport name (row.renumber ρ) = (t.enterExport name row).renumber ρ :=
  congrArg (fun exports => { t.renumber ρ with exports })
    (Table.insertNew_map Function.injective_id _ t.exports name row)

theorem enterImport_renumber (name : String) (row : ImportRow) :
    { t.renumber ρ with imports := (t.renumber ρ).imports.insert name (row.renumber ρ) }
      = { t with imports := t.imports.insert name row }.renumber ρ :=
  congrArg (fun imports => { t.renumber ρ with imports })
    (Table.insert_map Function.injective_id _ t.imports name row)

theorem enterDependency_renumber (source : Provider) :
    (t.renumber ρ).enterDependency (source.renumber ρ) = (t.enterDependency source).renumber ρ := by
  cases source with
  | external specifier => rfl
  | internal m =>
    exact congrArg (fun dependencies => { t.renumber ρ with dependencies })
      (pushNew_map ρ.module_injective t.dependencies m)

theorem enterBinding_renumber (d : Declaration) (b : Option DeclId × String) :
    (t.renumber ρ).enterBinding (d.renumber ρ.decl) (b.1.map ρ.decl, b.2)
      = (t.enterBinding d b).renumber ρ := by
  obtain ⟨id, name⟩ := b
  have hown : ∀ (t : ModuleTables) (exported : String),
      (t.renumber ρ).enterExport exported (.own name)
        = (t.enterExport exported (.own name)).renumber ρ :=
    fun t exported => enterExport_renumber ρ t exported (.own name)
  cases id with
  | none =>
    simp only [enterBinding, Option.map_none, Declaration.tag_renumber,
      Declaration.modifiers_renumber, hown]
    split
    · rfl
    · split <;> rfl
  | some id =>
    simp only [enterBinding, Option.map_some, Declaration.tag_renumber,
      Declaration.modifiers_renumber, enterSymbol_renumber, hown]
    split
    · rfl
    · split <;> rfl

theorem enterStatement_renumber {classify classify' : String → Provider} (st : Statement)
    (hc : ∀ x ∈ st.sources, classify' x = (classify x).renumber ρ) :
    (t.renumber ρ).enterStatement classify' (st.renumber ρ.decl)
      = (t.enterStatement classify st).renumber ρ := by
  cases st with
  | declaration d =>
    simp only [Statement.renumber, enterStatement, Declaration.bindings_renumber]
    exact foldl_map_hom fun t b _ => enterBinding_renumber ρ t d b
  | imports i =>
    have hi := hc i.source List.mem_cons_self
    simp only [Statement.renumber, enterStatement, hi, enterDependency_renumber]
    rw [← List.map_id i.bindings]
    refine (foldl_map_hom fun t b _ => ?_).trans (by rw [List.map_id])
    exact enterImport_renumber ρ t b.1 ⟨classify i.source, .ofName b.2⟩
  | exports e =>
    obtain ⟨specifiers, source, typeOnly⟩ := e
    simp only [Statement.renumber, enterStatement]
    have hfold : ∀ (row : ExportSpecifier → ExportRow) (t : ModuleTables),
        specifiers.foldl (fun t x => t.enterExport x.exported ((row x).renumber ρ)) (t.renumber ρ)
          = (specifiers.foldl (fun t x => t.enterExport x.exported (row x)) t).renumber ρ :=
      fun row t => List.foldl_hom _ fun t x => enterExport_renumber ρ t x.exported (row x)
    cases source with
    | none => exact hfold (fun x => .own x.binding) t
    | some source =>
      have hs := hc source (by simp [Statement.sources])
      simp only [Option.map_some, hs, enterDependency_renumber]
      exact hfold (fun x => .reexport (classify source) (.ofName x.binding)) _
  | exportAll source name =>
    have hs := hc source List.mem_cons_self
    simp only [Statement.renumber, enterStatement, hs, enterDependency_renumber]
    cases name with
    | none => simp [renumber]
    | some name => exact enterExport_renumber ρ _ name (.reexport (classify source) .all)
  | exportDefault expression => exact enterExport_renumber ρ t "default" (.own expression)
  | exportAssignment expression => rfl
  | verbatim tokens pos => rfl

end ModuleTables

namespace Store.Embeds

variable {ρ : Renumbering} {s s' : Store} {S : ModuleId → Prop} (h : s.Embeds ρ s' S)
  {options : Options} {m : ModuleId} {u : DeclUnit}
include h

theorem tablesOf (hm : S m) (hu : s.get? m = some u) :
    Linker.tablesOf s' (ρ.module m) (u.renumber ρ.decl) = (Linker.tablesOf s m u).renumber ρ := by
  rw [Store.tablesOf_eq, Store.tablesOf_eq, DeclUnit.renumber, Statement.renumberList_eq]
  have hstart : ({ module := ρ.module m, path := u.path } : ModuleTables)
      = ModuleTables.renumber ρ { module := m, path := u.path } := rfl
  rw [hstart]
  refine foldl_map_hom fun t st hst => ModuleTables.enterStatement_renumber ρ t st fun x hx => ?_
  exact h.provider hm hu (List.mem_flatMap.2 ⟨st, hst, List.mem_append_left _ hx⟩)

theorem scope? (hm : S m) : (s'.linker options).scope? (ρ.module m)
    = ((s.linker options).scope? m).map (ModuleTables.renumber ρ) := by
  rw [Store.scope?_linker, Store.scope?_linker, h.unit]
  cases hu : s.get? m with
  | none => rfl
  | some u => exact congrArg some (h.tablesOf hm hu)

theorem modulePath (hm : S m) :
    (s'.linker options).modulePath (ρ.module m) = (s.linker options).modulePath m := by
  rw [Linker.modulePath, h.scope? hm, Linker.modulePath]
  cases (s.linker options).scope? m <;> rfl

end Store.Embeds

/-! ## Look-ups -/

section
variable (ρ : Renumbering) {S : ModuleId → Prop} {next next' : ModuleId → String → Lookup}

theorem follow_renumber
    (hn : ∀ m name, S m → next' (ρ.module m) name = (next m name).renumber ρ) {source : Provider}
    (hs : ∀ m, source = .internal m → S m) (remote : Remote) :
    follow next' (source.renumber ρ) remote = (follow next source remote).renumber ρ := by
  cases source with
  | external specifier => rfl
  | internal m =>
    cases remote with
    | all => rfl
    | default => exact hn m "default" (hs m rfl)
    | named name => exact hn m name (hs m rfl)

theorem chaseLocal_renumber
    (hn : ∀ m name, S m → next' (ρ.module m) name = (next m name).renumber ρ) {scope : ModuleTables}
    (hs : ∀ {name row m}, scope.imports.get? name = some row → row.source = .internal m → S m)
    (name : String) :
    chaseLocal next' (scope.renumber ρ) name = (chaseLocal next scope name).renumber ρ := by
  have hsymbol : (scope.renumber ρ).symbols.get? name
      = (scope.symbols.get? name).map (List.map ρ.decl) :=
    Table.get?_map Function.injective_id _ scope.symbols name
  have himport : (scope.renumber ρ).imports.get? name
      = (scope.imports.get? name).map (ImportRow.renumber ρ) :=
    Table.get?_map Function.injective_id _ scope.imports name
  rw [chaseLocal, hsymbol, himport, chaseLocal]
  cases hi : scope.imports.get? name with
  | none =>
    cases scope.symbols.get? name with
    | none => rfl
    | some ids => cases ids <;> rfl
  | some row =>
    have hrow := follow_renumber ρ hn (fun m hm => hs hi hm) row.remote
    cases scope.symbols.get? name with
    | none => exact hrow
    | some ids =>
      cases ids with
      | nil => exact hrow
      | cons id ids => rfl

theorem chaseStars_renumber {next next' : ModuleId → Lookup} : ∀ {sources : List Provider},
    (∀ m, .internal m ∈ sources → next' (ρ.module m) = (next m).renumber ρ) →
      chaseStars next' (sources.map (Provider.renumber ρ)) = (chaseStars next sources).renumber ρ
  | [], _ => rfl
  | .external _ :: sources, hn => by
    have ih := chaseStars_renumber fun m hm => hn m (List.mem_cons_of_mem _ hm)
    exact ih
  | .internal m :: sources, hn => by
    have ih := chaseStars_renumber fun m hm => hn m (List.mem_cons_of_mem _ hm)
    simp only [List.map_cons, Provider.renumber, chaseStars, hn m List.mem_cons_self]
    cases next m with
    | found r => rfl
    | notFound => exact ih
    | cycle => exact ih

theorem inPolicyOrder_map (policy : StarPolicy) (f : α → β) (xs : List α) :
    inPolicyOrder policy (xs.map f) = (inPolicyOrder policy xs).map f := by
  cases policy with
  | preferFirst => rfl
  | preferLast => exact List.map_reverse.symm

end

namespace Store.Embeds

variable {ρ : Renumbering} {s s' : Store} {S : ModuleId → Prop} (h : s.Embeds ρ s' S)
  (options : Options) {m : ModuleId}
include h

theorem chaseExport : ∀ (budget : Nat) (path : List (ModuleId × String)) (m : ModuleId)
    (name : String), S m →
      (s'.linker options).chaseExport budget (path.map (Prod.map ρ.module id)) (ρ.module m) name
        = ((s.linker options).chaseExport budget path m name).renumber ρ
  | 0, _, _, _, _ => rfl
  | budget + 1, path, m, name, hm => by
    have hinj : Function.Injective (Prod.map ρ.module (id : String → String)) :=
      ρ.module_injective.prodMap Function.injective_id
    have hpath : (ρ.module m, name) ∈ path.map (Prod.map ρ.module id) ↔ (m, name) ∈ path :=
      List.mem_map_of_injective hinj (a := (m, name))
    have hnext : ∀ t x, S t →
        (s'.linker options).chaseExport budget
            ((ρ.module m, name) :: path.map (Prod.map ρ.module id)) (ρ.module t) x
          = ((s.linker options).chaseExport budget ((m, name) :: path) t x).renumber ρ :=
      fun t x ht => chaseExport budget ((m, name) :: path) t x ht
    simp only [Linker.chaseExport, hpath, h.scope? hm]
    split
    · rfl
    · cases hs : (s.linker options).scope? m with
      | none => rfl
      | some scope =>
        have hclosed := h.linker_closed options
        have hlinked := hclosed.linked hs
        have hdep : ∀ {d}, d ∈ scope.dependencies → S d := hclosed.dependency_scope hm hs
        have hexport : (scope.renumber ρ).exports.get? name
            = (scope.exports.get? name).map (ExportRow.renumber ρ) :=
          Table.get?_map Function.injective_id _ scope.exports name
        simp only [Option.map_some, hexport]
        cases he : scope.exports.get? name with
        | none =>
          simp only [Option.map_none]
          split
          · rfl
          · have hstars : inPolicyOrder (s'.linker options).starPolicy (scope.renumber ρ).starExports
                = (inPolicyOrder (s.linker options).starPolicy scope.starExports).map
                    (Provider.renumber ρ) := inPolicyOrder_map _ _ _
            rw [hstars]
            refine chaseStars_renumber ρ fun t ht => hnext t name (hdep ?_)
            exact hlinked.stars (mem_inPolicyOrder.1 ht)
        | some row =>
          cases row with
          | own binding =>
            exact chaseLocal_renumber ρ hnext (fun hi hr => hdep (hlinked.imports hi hr)) binding
          | reexport source remote =>
            refine follow_renumber ρ hnext (fun t ht => hdep ?_) remote
            exact hlinked.exports (ht ▸ he)

theorem findExport (hm : S m) (name : String) :
    (s'.linker options).findExport (ρ.module m) name
      = ((s.linker options).findExport m name).renumber ρ :=
  h.chaseExport options _ [] m name hm

theorem findLocal (hm : S m) (name : String) :
    (s'.linker options).findLocal (ρ.module m) name
      = ((s.linker options).findLocal m name).renumber ρ := by
  rw [Linker.findLocal, h.scope? hm, Linker.findLocal]
  cases hs : (s.linker options).scope? m with
  | none => rfl
  | some scope =>
    have hclosed := h.linker_closed options
    exact chaseLocal_renumber ρ (fun t x ht => h.findExport options ht x)
      (fun hi hr => hclosed.dependency_scope hm hs ((hclosed.linked hs).imports hi hr)) name

theorem cycleReport (hm : S m) (name : String) :
    (s'.linker options).cycleReport (ρ.module m) name
      = (s.linker options).cycleReport m name := by
  rw [Linker.cycleReport, h.modulePath hm, Linker.cycleReport]

theorem resolveExport (hm : S m) (name : String) :
    (s'.linker options).resolveExport (ρ.module m) name
      = Prod.map (Resolution.renumber ρ) id ((s.linker options).resolveExport m name) := by
  rw [Linker.resolveExport, h.findExport options hm, Linker.resolveExport, h.cycleReport options hm]
  cases (s.linker options).findExport m name <;> rfl

theorem resolveLocal (hm : S m) (name : String) :
    (s'.linker options).resolveLocal (ρ.module m) name
      = Prod.map (Resolution.renumber ρ) id ((s.linker options).resolveLocal m name) := by
  have himport : ((s'.linker options).scope? (ρ.module m)).bind (·.imports.get? name)
      = (((s.linker options).scope? m).bind (·.imports.get? name)).map (ImportRow.renumber ρ) := by
    rw [h.scope? hm]
    cases (s.linker options).scope? m with
    | none => rfl
    | some scope => exact Table.get?_map Function.injective_id _ scope.imports name
  rw [Linker.resolveLocal, h.findLocal options hm, Linker.resolveLocal, h.cycleReport options hm,
    himport, h.modulePath hm]
  cases (s.linker options).findLocal m name with
  | found r => rfl
  | cycle => rfl
  | notFound =>
    cases hrow : ((s.linker options).scope? m).bind (·.imports.get? name) with
    | none => rfl
    | some row =>
      have hname : (s'.linker options).refName (row.source.renumber ρ)
          = (s.linker options).refName row.source := by
        cases hr : row.source with
        | external specifier => rfl
        | internal t =>
          obtain ⟨scope, hs, hi⟩ := Option.bind_eq_some_iff.1 hrow
          have hclosed := h.linker_closed options
          exact h.modulePath (hclosed.dependency_scope hm hs ((hclosed.linked hs).imports hi hr))
      simp only [Lookup.renumber, Option.map_some, ImportRow.renumber, hname]
      rfl

end Store.Embeds

/-! ## Surfaces -/

namespace Linker

section
variable (ρ : Renumbering)

/-- Offers of star sources with their candidates renumbered. -/
def StarOffers.renumber (o : StarOffers) : StarOffers :=
  { o with candidates := o.candidates.map id (List.map (Resolution.renumber ρ)) }

/-- The entries with the reports of what was entered. -/
abbrev renumberEntries :
    Table String Resolution × List Diagnostic → Table String Resolution × List Diagnostic :=
  Prod.map (Table.map id (Resolution.renumber ρ)) id

theorem StarOffers.add_renumber (explicit : Table String Resolution) (o : StarOffers)
    (e : String × Resolution) :
    add (explicit.map id (Resolution.renumber ρ)) (o.renumber ρ)
        (Prod.map id (Resolution.renumber ρ) e) = (add explicit o e).renumber ρ := by
  obtain ⟨name, r⟩ := e
  have hcontains := Table.contains_map Function.injective_id (Resolution.renumber ρ) explicit name
  have hget : (o.renumber ρ).candidates.get? name
      = (o.candidates.get? name).map (List.map (Resolution.renumber ρ)) :=
    Table.get?_map Function.injective_id _ o.candidates name
  have hpush : pushNew (((o.renumber ρ).candidates.get? name).getD []) (r.renumber ρ)
      = (pushNew ((o.candidates.get? name).getD []) r).map (Resolution.renumber ρ) := by
    rw [← pushNew_map (Resolution.renumber_injective ρ), hget]
    cases o.candidates.get? name <;> rfl
  simp only [id_eq] at hcontains
  simp only [add, Prod.map_apply, id_eq, Resolution.renumber_eq_unresolved, hcontains, hpush]
  split
  · rfl
  · exact congrArg (fun candidates => { o.renumber ρ with candidates })
      (Table.insert_map Function.injective_id _ o.candidates name _)

theorem StarOffers.addSurface_renumber (explicit : Table String Resolution) (o : StarOffers)
    (s : Surface) :
    (o.renumber ρ).addSurface (explicit.map id (Resolution.renumber ρ)) (s.renumber ρ)
      = (o.addSurface explicit s).renumber ρ := by
  unfold addSurface
  exact foldl_map_hom (a := { o with externalStars := pushAllNew o.externalStars s.externalStars })
    fun o e _ => add_renumber ρ explicit o e

theorem keys_renumber (t : Table String Resolution) :
    (t.map id (Resolution.renumber ρ)).keys = t.keys := by
  rw [Table.keys_map, List.map_id]

theorem insert_renumber (t : Table String Resolution) (name : String) (r : Resolution) :
    (t.map id (Resolution.renumber ρ)).insert name (r.renumber ρ)
      = (t.insert name r).map id (Resolution.renumber ρ) :=
  Table.insert_map Function.injective_id _ t name r

theorem addLoser_renumber (path name : String) (reserved : List String)
    (acc : Table String Resolution × List Diagnostic) (loser : Resolution) :
    addLoser path name reserved (renumberEntries ρ acc) (loser.renumber ρ)
      = renumberEntries ρ (addLoser path name reserved acc loser) := by
  obtain ⟨entries, ds⟩ := acc
  simp only [addLoser, renumberEntries, Prod.map_apply, keys_renumber, insert_renumber, id_eq]

theorem addCandidates_renumber (policy : StarPolicy) (path : String) (reserved : List String)
    (acc : Table String Resolution × List Diagnostic) (c : String × List Resolution) :
    addCandidates policy path reserved (renumberEntries ρ acc)
        (Prod.map id (List.map (Resolution.renumber ρ)) c)
      = renumberEntries ρ (addCandidates policy path reserved acc c) := by
  obtain ⟨name, provided⟩ := c
  simp only [addCandidates, Prod.map_apply, inPolicyOrder_map, id_eq]
  cases inPolicyOrder policy provided with
  | nil => rfl
  | cons winner losers =>
    have hacc :
        ((renumberEntries ρ acc).1.insert name (winner.renumber ρ), (renumberEntries ρ acc).2)
        = renumberEntries ρ (acc.1.insert name winner, acc.2) :=
      Prod.ext (insert_renumber ρ acc.1 name winner) rfl
    rw [List.map_cons]
    simp only [hacc]
    exact foldl_map_hom fun acc loser _ => addLoser_renumber ρ path name reserved acc loser

theorem foldl_addCandidates_renumber (policy : StarPolicy) (path : String) (offers : StarOffers)
    (acc : Table String Resolution × List Diagnostic) :
    (offers.renumber ρ).candidates.rows.foldl
        (addCandidates policy path (offers.renumber ρ).candidates.keys) (renumberEntries ρ acc)
      = renumberEntries ρ (offers.candidates.rows.foldl
          (addCandidates policy path offers.candidates.keys) acc) := by
  have hkeys : (offers.renumber ρ).candidates.keys = offers.candidates.keys := by
    rw [StarOffers.renumber, Table.keys_map, List.map_id]
  rw [hkeys]
  exact foldl_map_hom fun acc c _ => addCandidates_renumber ρ policy path _ acc c

/-- What star sources offer with the reports of their surfaces. -/
abbrev renumberOffers : StarOffers × List Diagnostic → StarOffers × List Diagnostic :=
  Prod.map (StarOffers.renumber ρ) id

theorem foldl_addStar_renumber (surface surface' : ModuleId → Surface × List Diagnostic)
    (stack : List ModuleId) (explicit : Table String Resolution) (acc : StarOffers × List Diagnostic)
    {ps : List Provider} (hs : ∀ t, .internal t ∈ ps →
      surface' (ρ.module t) = Prod.map (Surface.renumber ρ) id (surface t)) :
    (ps.map (Provider.renumber ρ)).foldl (addStar surface' (stack.map ρ.module)
        (explicit.map id (Resolution.renumber ρ))) (renumberOffers ρ acc)
      = renumberOffers ρ (ps.foldl (addStar surface stack explicit) acc) := by
  refine foldl_map_hom fun acc p hp => ?_
  cases p with
  | external specifier => rfl
  | internal t =>
    simp only [Provider.renumber, addStar, List.mem_map_of_injective ρ.module_injective, hs t hp]
    split
    · rfl
    · exact Prod.ext (StarOffers.addSurface_renumber ρ explicit acc.1 (surface t).1) rfl

end

end Linker

namespace Store.Embeds

variable {ρ : Renumbering} {s s' : Store} {S : ModuleId → Prop} (h : s.Embeds ρ s' S)
  (options : Options) {m : ModuleId}
include h

theorem explicitEntries {scope : ModuleTables} (hm : S m)
    (hs : (s.linker options).scope? m = some scope) :
    (s'.linker options).explicitEntries (scope.renumber ρ)
      = renumberEntries ρ ((s.linker options).explicitEntries scope) := by
  have hmodule : scope.module = m := Store.module_scope options hs
  have hstep : ∀ acc name, (s'.linker options).addExplicit (scope.renumber ρ)
        (renumberEntries ρ acc) name
      = renumberEntries ρ ((s.linker options).addExplicit scope acc name) := by
    intro acc name
    have hr := h.resolveExport options (hmodule ▸ hm : S scope.module) name
    have hr' : (s'.linker options).resolveExport (scope.renumber ρ).module name = _ := hr
    simp only [Linker.addExplicit, hr', Prod.map_fst, Prod.map_snd, insert_renumber, id_eq,
      Resolution.renumber_eq_unresolved, Prod.map_apply]
    rfl
  have hkeys : (scope.renumber ρ).exports.keys = scope.exports.keys := by
    rw [ModuleTables.renumber, Table.keys_map, List.map_id]
  have hempty : (({}, []) : Table String Resolution × List Diagnostic)
      = renumberEntries ρ ({}, []) := rfl
  rw [Linker.explicitEntries, hkeys, hempty]
  exact List.foldl_hom (renumberEntries ρ) hstep

theorem surfaceWithin : ∀ (fuel : Nat) (stack : List ModuleId) (m : ModuleId), S m →
    (s'.linker options).surfaceWithin fuel (stack.map ρ.module) (ρ.module m)
      = Prod.map (Surface.renumber ρ) id ((s.linker options).surfaceWithin fuel stack m)
  | 0, _, _, _ => rfl
  | fuel + 1, stack, m, hm => by
    simp only [Linker.surfaceWithin, h.scope? hm]
    cases hs : (s.linker options).scope? m with
    | none => rfl
    | some scope =>
      have hclosed := h.linker_closed options
      have hstars := foldl_addStar_renumber ρ
        (fun t => (s.linker options).surfaceWithin fuel (t :: stack) t)
        (fun t => (s'.linker options).surfaceWithin fuel (t :: stack.map ρ.module) t) stack
        ((s.linker options).explicitEntries scope).1
        ({}, ((s.linker options).explicitEntries scope).2) fun t ht =>
          surfaceWithin fuel (t :: stack) t
            (hclosed.dependency_scope hm hs ((hclosed.linked hs).stars ht))
      simp only [Option.map_some, h.explicitEntries options hm hs]
      generalize (s.linker options).explicitEntries scope = explicit at hstars ⊢
      obtain ⟨explicit, ds⟩ := explicit
      have hstars' : (scope.renumber ρ).starExports.foldl (addStar
            (fun t => (s'.linker options).surfaceWithin fuel (t :: stack.map ρ.module) t)
            (stack.map ρ.module) (explicit.map id (Resolution.renumber ρ))) ({}, ds)
          = renumberOffers ρ (scope.starExports.foldl (addStar
              (fun t => (s.linker options).surfaceWithin fuel (t :: stack) t) stack explicit)
                ({}, ds)) := hstars
      simp only [Prod.map_apply, id_eq, hstars']
      generalize scope.starExports.foldl (addStar
        (fun t => (s.linker options).surfaceWithin fuel (t :: stack) t) stack explicit) ({}, ds)
          = offers
      have hentries := foldl_addCandidates_renumber ρ options.starPolicy scope.path offers.1
        (explicit, offers.2)
      have hreports := congrArg Prod.snd hentries
      exact Prod.ext (congrArg (fun e => (⟨e.1, offers.1.externalStars⟩ : Surface)) hentries)
        hreports

/-- The surface of a renumbered module is its surface renumbered: a walk of a common length is the
whole walk in both stores. -/
theorem surface (hm : S m) : (s'.linker options).surface (ρ.module m)
    = Prod.map (Surface.renumber ρ) id ((s.linker options).surface m) := by
  let steps := (s.linker options).size + (s'.linker options).size
  have hl : (s.linker options).surfaceWithin (s.linker options).size [m] m
      = (s.linker options).surfaceWithin steps [m] m :=
    surfaceWithin_eq .start (by simp) (by simp only [List.length_singleton, steps]; omega)
  have hl' : (s'.linker options).surfaceWithin (s'.linker options).size [ρ.module m] (ρ.module m)
      = (s'.linker options).surfaceWithin steps [ρ.module m] (ρ.module m) :=
    surfaceWithin_eq .start (by simp) (by simp only [List.length_singleton, steps]; omega)
  rw [Linker.surface, hl', Linker.surface, hl]
  exact h.surfaceWithin options _ [m] m hm

end Store.Embeds

end DeclBundle
