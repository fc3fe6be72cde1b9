import DeclBundle.Proofs.Merge
import DeclBundle.Proofs.Renumber.Naming

/-!
# The export clause and added declarations under other numbers

A merge whose parts lie in modules that see the same gives the same export clause and the same
declarations under other numbers (`Store.Embeds.merge`).
-/

namespace DeclBundle

/-- A merge of which all parts lie in the modules `S` of a store. -/
structure MergeInput.In (m : MergeInput) (s : Store) (options : Options) (S : ModuleId → Prop) :
    Prop where
  linker : m.linker = s.linker options
  entry : S m.entry
  surface : ∀ row ∈ m.surface, row.2.Within (s.linker options) S
  aliases : ∀ a ∈ m.names.aliases.values, (Target.declaration a.terminal).In s S
  namespaces : ∀ k ∈ m.names.namespaces.keys, S k

/-- The merge with other numbers, in a store that is linked as `l`. -/
def MergeInput.renumber (ρ : Renumbering) (l : Linker) (m : MergeInput) : MergeInput where
  linker := l
  entry := ρ.module m.entry
  surface := m.surface.map (Prod.map id (Resolution.renumber ρ))
  externalStars := m.externalStars
  trees := m.trees.map (ModuleTree.renumber ρ)
  names := m.names.renumber ρ
  inlineExports := m.inlineExports.map (InlineExport.renumber ρ)

/-- From `n` on, identities that follow each other go to identities that follow each other. -/
def Renumbering.SteadyFrom (ρ : Renumbering) (n : DeclId) : Prop :=
  ∀ i, ρ.decl (n + i) = ρ.decl n + i

theorem Renumbering.SteadyFrom.mono {ρ : Renumbering} {n n' : DeclId} (h : ρ.SteadyFrom n)
    (hn : n ≤ n') : ρ.SteadyFrom n' := fun i => by
  obtain ⟨k, rfl⟩ := Nat.exists_eq_add_of_le hn
  rw [Nat.add_assoc, h, h, Nat.add_assoc]

/-! ## Added declarations -/

namespace MergeInput

/-- The type parameters of a declaration that belongs to a symbol. -/
def parametersIn (ids : List DeclId) (st : Statement) : Option (List TypeParameter) := do
  let d ← st.declaration?
  if d.id.any (· ∈ ids) then some (typeParametersOf d.kind) else none

theorem symbolTypeParameters_eq (m : MergeInput) (id : DeclId) : m.symbolTypeParameters id
    = ((m.trees.flatMap fun t => t.statements.filterMap
        (parametersIn (m.linker.symbolDecls id))).find? (!·.isEmpty)).getD [] := rfl

theorem parametersIn_renumber (ρ : Renumbering) (ids : List DeclId) (st : Statement) :
    parametersIn (ids.map ρ.decl) (st.renumber ρ.decl)
      = (parametersIn ids st).map (List.map (TypeExpr.renumberOne ρ.decl)) := by
  cases st with
  | declaration d =>
    obtain ⟨id, modifiers, pos, kind⟩ := d
    have hid : (id.map ρ.decl).any (· ∈ ids.map ρ.decl) = id.any (· ∈ ids) := by
      rw [Option.any_map]
      congr 1
      funext i
      exact decide_eq_decide.2 (List.mem_map_of_injective ρ.decl_injective)
    have hps : typeParametersOf (kind.renumber ρ.decl)
        = (typeParametersOf kind).map (TypeExpr.renumberOne ρ.decl) := by
      cases kind <;> simp only [DeclarationKind.renumber, typeParametersOf, List.map_nil,
        TypeExpr.renumberTypeParameters_eq]
    simp only [parametersIn, Statement.renumber, Declaration.renumber, Statement.declaration?,
      Option.bind_eq_bind, Option.bind_some, hid, hps]
    split <;> rfl
  | _ => rfl

/-- Type parameters numbered from `n` on go to those numbered from where `n` goes. -/
theorem numberParameters_renumber {ρ : Renumbering} {n : DeclId} (hn : ρ.SteadyFrom n)
    (tps : List TypeParameter) :
    numberParameters (ρ.decl n) (tps.map (TypeExpr.renumberOne ρ.decl))
      = (numberParameters n tps).map (TypeExpr.renumberOne ρ.decl) := by
  simp only [numberParameters, List.zipIdx_map, List.map_map]
  refine List.map_congr_left fun (p, i) _ => ?_
  obtain ⟨id, name, constraint, fallback, keywords⟩ := p
  simp only [Function.comp_apply, Prod.map_apply, id_eq, TypeExpr.renumberOne, Option.map_some,
    hn i]

theorem typeAlias_renumber (f : DeclId → DeclId) (name target : String) (tps : List TypeParameter)
    (id : DeclId) : typeAlias name target (tps.map (TypeExpr.renumberOne f)) (f id)
      = (typeAlias name target tps id).renumber f := by
  have hnames : (tps.map (TypeExpr.renumberOne f)).map
        (fun p => TypeExpr.reference (.ofText p.name) [])
      = TypeExpr.renumberList f (tps.map fun p => TypeExpr.reference (.ofText p.name) []) := by
    induction tps with
    | nil => rfl
    | cons p ps ih =>
      simp only [List.map_cons, TypeExpr.renumberList, TypeExpr.renumber, ih,
        TypeExpr.name_renumberOne]
  simp only [typeAlias, Statement.renumber, Declaration.renumber, DeclarationKind.renumber,
    TypeExpr.renumber, TypeExpr.renumberTypeParameters_eq, hnames, Option.map_some]

section
variable (m : MergeInput) (a : ImportAlias) (name target : String) (n : DeclId)

/-- The declaration of an alias as a constant, and the identity after it. -/
def valuePart : List Statement × DeclId :=
  if (m.symbolTags a.terminal).any isValueLike then ([valueAlias a name target n], n + 1)
  else ([], n)

/-- The declaration of an alias as a type, and the identity after it. -/
def typePart : List Statement × DeclId :=
  if (m.symbolTags a.terminal).any isTypeLike then
    let tps := numberParameters n (m.symbolTypeParameters a.terminal)
    ([typeAlias name target tps (n + tps.length)], n + tps.length + 1)
  else ([], n)

theorem aliasStatements_eq : m.aliasStatements a n = match m.aliasNames? a with
    | none => ([], n)
    | some (name, target) =>
      let values := m.valuePart a name target n
      let types := m.typePart a name target values.2
      (values.1 ++ types.1, types.2) := rfl

theorem le_valuePart : n ≤ (m.valuePart a name target n).2 := by
  unfold valuePart
  split
  · exact Nat.le_succ n
  · exact Nat.le_refl n

theorem le_typePart : n ≤ (m.typePart a name target n).2 := by
  unfold typePart
  split
  · exact Nat.le_succ_of_le (Nat.le_add_right n _)
  · exact Nat.le_refl n

theorem le_aliasStatements : n ≤ (m.aliasStatements a n).2 := by
  rw [aliasStatements_eq]
  cases m.aliasNames? a with
  | none => exact Nat.le_refl n
  | some p =>
    exact Nat.le_trans (m.le_valuePart a p.1 p.2 n) (m.le_typePart a p.1 p.2 _)

end

theorem le_addAlias (m : MergeInput) (acc : List Statement × DeclId) (a : ImportAlias) :
    acc.2 ≤ (m.addAlias acc a).2 := m.le_aliasStatements a acc.2

theorem le_addNamespace (m : MergeInput) (acc : List Statement × DeclId)
    (row : ModuleId × DeclId) : acc.2 ≤ (m.addNamespace acc row).2 := by
  obtain ⟨module, id⟩ := row
  simp only [addNamespace]
  cases m.names.get? id with
  | some name => exact Nat.le_succ acc.2
  | none => exact Nat.le_refl acc.2

/-- Added statements and the identity after them under other numbers. -/
def renumberAdded (ρ : Renumbering) : List Statement × DeclId → List Statement × DeclId :=
  Prod.map (List.map (Statement.renumber ρ.decl)) ρ.decl

/-- Steps that commute with other numbers from some identity on, and go forward, do so one after the
other. -/
theorem foldl_added {ρ : Renumbering} {g : α → α'}
    {step : List Statement × DeclId → α → List Statement × DeclId}
    {step' : List Statement × DeclId → α' → List Statement × DeclId} :
    ∀ {xs : List α}, (∀ acc, ∀ x ∈ xs, ρ.SteadyFrom acc.2 →
        step' (renumberAdded ρ acc) (g x) = renumberAdded ρ (step acc x)) →
      (∀ acc x, acc.2 ≤ (step acc x).2) → ∀ acc, ρ.SteadyFrom acc.2 →
        (xs.map g).foldl step' (renumberAdded ρ acc) = renumberAdded ρ (xs.foldl step acc)
  | [], _, _, _, _ => rfl
  | x :: xs, hstep, hle, acc, hacc => by
    rw [List.map_cons, List.foldl_cons, List.foldl_cons, hstep acc x List.mem_cons_self hacc]
    exact foldl_added (fun acc y hy => hstep acc y (List.mem_cons_of_mem _ hy)) hle _
      (hacc.mono (hle acc x))

theorem le_foldl_added {step : List Statement × DeclId → α → List Statement × DeclId}
    (hle : ∀ acc x, acc.2 ≤ (step acc x).2) : ∀ {xs : List α} (acc : List Statement × DeclId),
      acc.2 ≤ (xs.foldl step acc).2
  | [], acc => Nat.le_refl acc.2
  | x :: _, acc => Nat.le_trans (hle acc x) (le_foldl_added hle (step acc x))

theorem inlineExportOf_renumber (m : MergeInput) (ρ : Renumbering) (l : Linker) (id : DeclId) :
    (m.renumber ρ l).inlineExportOf (ρ.decl id)
      = (m.inlineExportOf id).map (InlineExport.renumber ρ) := by
  have hid : ((·.decl == ρ.decl id) ∘ InlineExport.renumber ρ) = (·.decl == id) := by
    funext i
    simp only [Function.comp_apply, InlineExport.renumber, Bool.beq_eq_decide_eq,
      ρ.decl_injective.eq_iff]
  rw [inlineExportOf, renumber, ← List.map_reverse, List.find?_map, hid, inlineExportOf]

end MergeInput

namespace Store.Embeds

open MergeInput

variable {ρ : Renumbering} {s s' : Store} {S : ModuleId → Prop} (h : s.Embeds ρ s' S)
  {options : Options} {m : MergeInput} (hm : m.In s options S)
include h hm

theorem nameOf {r : Resolution} (hr : r.Within (s.linker options) S) :
    (m.renumber ρ (s'.linker options)).nameOf (r.renumber ρ) = m.nameOf r := by
  have hn := h.resolved? options m.names hr
  rwa [← hm.linker] at hn

/-! ## The export clause -/

theorem aliasOf (name : String) : (m.renumber ρ (s'.linker options)).aliasOf name
    = (m.aliasOf name).map (ImportAlias.renumber ρ) := by
  have hscope : (s'.linker options).scope? (ρ.module m.entry)
      = (m.linker.scope? m.entry).map (ModuleTables.renumber ρ) := by
    rw [hm.linker]
    exact h.scope? hm.entry
  simp only [MergeInput.aliasOf, MergeInput.renumber, hscope]
  cases m.linker.scope? m.entry with
  | none => rfl
  | some scope =>
    have hrow : (scope.renumber ρ).exports.get? name
        = (scope.exports.get? name).map (ExportRow.renumber ρ) :=
      Table.get?_map Function.injective_id _ scope.exports name
    simp only [Option.map_some, Option.bind_eq_bind, Option.bind_some, hrow]
    cases scope.exports.get? name with
    | none => rfl
    | some row =>
      cases row with
      | own binding =>
        exact Table.get?_map (FinalNames.injective_symbol ρ) _ m.names.aliases (m.entry, binding)
      | reexport source remote => rfl

theorem clauseBinding (name : String) {r : Resolution} (hr : r.Within (s.linker options) S) :
    (m.renumber ρ (s'.linker options)).clauseBinding name (r.renumber ρ)
      = m.clauseBinding name r := by
  have hn := h.nameOf hm hr
  unfold MergeInput.clauseBinding
  rw [h.aliasOf hm]
  cases m.aliasOf name with
  | some a => exact m.names.get?_renumber ρ a.id
  | none =>
    cases r with
    | declaration id =>
      have hi := m.inlineExportOf_renumber ρ (s'.linker options) id
      simp only [Option.map_none, Resolution.renumber, hi]
      cases m.inlineExportOf id with
      | some i => rfl
      | none => exact hn
    | _ => exact hn

theorem assignment_merge : (m.renumber ρ (s'.linker options)).assignment = m.assignment := by
  have hscope : (s'.linker options).scope? (ρ.module m.entry)
      = (m.linker.scope? m.entry).map (ModuleTables.renumber ρ) := by
    rw [hm.linker]
    exact h.scope? hm.entry
  simp only [MergeInput.assignment, MergeInput.renumber, hscope]
  cases m.linker.scope? m.entry with
  | none => rfl
  | some scope =>
    simp only [Option.map_some, Option.bind_eq_bind, Option.bind_some, ModuleTables.renumber]
    cases scope.exportAssignment with
    | none => rfl
    | some expression =>
      have hr := Linker.within_resolveLocal (h.linker_closed options) hm.entry expression
      have hn := h.nameOf hm hr
      rw [Option.bind_some, Option.bind_some, h.resolveLocal options hm.entry, hm.linker]
      exact hn

theorem clause : (m.renumber ρ (s'.linker options)).clause = m.clause := by
  have hentries : (m.renumber ρ (s'.linker options)).clause.entries = m.clause.entries := by
    simp only [MergeInput.clause, MergeInput.renumber, List.filterMap_map]
    refine List.filterMap_congr fun row hrow => ?_
    exact congrArg (Option.map _) (h.clauseBinding hm row.1 (hm.surface row hrow))
  exact congrArg₂ (fun entries assignment => ExportClause.mk entries assignment m.externalStars)
    hentries (h.assignment_merge hm)

/-! ## Declarations of aliases and namespaces -/

section
variable {id : DeclId} (hid : (Target.declaration id).In s S)
include hid

theorem symbolDecls_merge : (s'.linker options).symbolDecls (ρ.decl id)
    = (m.linker.symbolDecls id).map ρ.decl := by
  obtain ⟨b, hb, rfl, hS⟩ := hid
  rw [hm.linker]
  exact h.symbolDecls options hb hS

theorem symbolTypeParameters :
    (m.renumber ρ (s'.linker options)).symbolTypeParameters (ρ.decl id)
      = (m.symbolTypeParameters id).map (TypeExpr.renumberOne ρ.decl) := by
  have hlists : (m.trees.map (ModuleTree.renumber ρ)).flatMap (fun t => t.statements.filterMap
        (parametersIn ((m.linker.symbolDecls id).map ρ.decl)))
      = (m.trees.flatMap fun t => t.statements.filterMap
          (parametersIn (m.linker.symbolDecls id))).map
            (List.map (TypeExpr.renumberOne ρ.decl)) := by
    simp only [List.flatMap_map, List.map_flatMap, ModuleTree.renumber, Statement.renumberList_eq,
      List.filterMap_map, List.map_filterMap]
    exact List.flatMap_congr fun t _ => List.filterMap_congr fun st _ =>
      parametersIn_renumber ρ _ st
  have hempty : (fun tps : List TypeParameter => !tps.isEmpty)
      ∘ List.map (TypeExpr.renumberOne ρ.decl) = fun tps => !tps.isEmpty := by
    funext tps
    rw [Function.comp_apply, List.isEmpty_map]
  rw [symbolTypeParameters_eq, symbolTypeParameters_eq]
  simp only [MergeInput.renumber, h.symbolDecls_merge hm hid, hlists, List.find?_map, hempty]
  cases List.find? _ _ <;> rfl

theorem symbolTags : (m.renumber ρ (s'.linker options)).symbolTags (ρ.decl id)
    = m.symbolTags id := by
  simp only [MergeInput.symbolTags, MergeInput.renumber, h.symbolDecls_merge hm hid,
    List.filterMap_map]
  refine List.filterMap_congr fun d hd => ?_
  obtain ⟨b, hb, rfl, hS⟩ := hid
  rw [hm.linker, h.built.mem_symbolDecls options hb] at hd
  obtain ⟨c, hc, rfl, -⟩ := hd
  rw [Function.comp_apply, h.decl? hc, hm.linker, h.built.decl?_of_mem options hc]
  rfl

end

section
variable {a : ImportAlias} (ha : a ∈ m.names.aliases.values)
include ha

theorem aliasNames? : (m.renumber ρ (s'.linker options)).aliasNames? (a.renumber ρ)
    = m.aliasNames? a := by
  obtain ⟨b, hb, hid, -⟩ := hm.aliases a ha
  have hname : (m.names.renumber ρ).get? (ρ.decl a.id) = m.names.get? a.id :=
    m.names.get?_renumber ρ a.id
  have hd : (s'.linker options).decl? _ = _ := h.decl? hb
  have hd' := h.built.decl?_of_mem options hb
  rw [hid] at hd hd'
  simp only [MergeInput.aliasNames?, MergeInput.renumber, ImportAlias.renumber, hname, hd,
    hm.linker, hd', Option.bind_eq_bind, Option.bind_some, DeclSummary.renumber,
    m.names.symbol?_renumber ρ]

section
variable {n : DeclId} (hn : ρ.SteadyFrom n) (name target : String)
include hn

theorem valuePart :
    (m.renumber ρ (s'.linker options)).valuePart (a.renumber ρ) name target (ρ.decl n)
      = renumberAdded ρ (m.valuePart a name target n) := by
  have htags := h.symbolTags hm (hm.aliases a ha)
  simp only [MergeInput.valuePart, ImportAlias.renumber, htags]
  split
  · exact Prod.ext rfl (hn 1).symm
  · rfl

theorem typePart :
    (m.renumber ρ (s'.linker options)).typePart (a.renumber ρ) name target (ρ.decl n)
      = renumberAdded ρ (m.typePart a name target n) := by
  have htags := h.symbolTags hm (hm.aliases a ha)
  have htps := h.symbolTypeParameters hm (hm.aliases a ha)
  simp only [MergeInput.typePart, ImportAlias.renumber, htags, htps, numberParameters_renumber hn,
    List.length_map]
  split
  · rw [← hn, typeAlias_renumber]
    exact Prod.ext rfl (hn.mono (Nat.le_add_right n _) 1).symm
  · rfl

end

/-- The declarations of an alias, numbered from `n` on, go to those numbered from where `n` goes. -/
theorem aliasStatements {n : DeclId} (hn : ρ.SteadyFrom n) :
    (m.renumber ρ (s'.linker options)).aliasStatements (a.renumber ρ) (ρ.decl n)
      = renumberAdded ρ (m.aliasStatements a n) := by
  rw [aliasStatements_eq, aliasStatements_eq, h.aliasNames? hm ha]
  cases m.aliasNames? a with
  | none => rfl
  | some p =>
    have hv := h.valuePart hm ha hn p.1 p.2
    have ht := h.typePart hm ha (hn.mono (m.le_valuePart a p.1 p.2 n)) p.1 p.2
    simp only [hv, renumberAdded, Prod.map_fst, Prod.map_snd, Prod.map_apply, List.map_append]
    simp only [ht, renumberAdded, Prod.map_fst, Prod.map_snd]

end

theorem namespaceStatement {k : ModuleId} (hk : S k) (name : String) (id : DeclId) :
    (m.renumber ρ (s'.linker options)).namespaceStatement (ρ.module k) name (ρ.decl id)
      = (m.namespaceStatement k name id).renumber ρ.decl := by
  have hspecifiers : (m.renumber ρ (s'.linker options)).namespaceSpecifiers (ρ.module k)
      = m.namespaceSpecifiers k := by
    have hsurface : (s'.linker options).surface (ρ.module k) = _ := h.surface options hk
    simp only [MergeInput.namespaceSpecifiers, MergeInput.renumber, hsurface, hm.linker,
      Prod.map_fst, Surface.renumber, Table.map, List.filterMap_map]
    refine List.filterMap_congr fun row hrow => ?_
    have hw := h.within_surface options hk (List.mem_map.2 ⟨row, hrow, rfl⟩)
    exact congrArg (Option.map _) (h.nameOf hm hw)
  rw [MergeInput.namespaceStatement, hspecifiers, MergeInput.namespaceStatement]
  cases m.namespaceSpecifiers k <;> rfl

section
variable {acc : List Statement × DeclId} (hacc : ρ.SteadyFrom acc.2)
include hacc

theorem addAlias {a : ImportAlias} (ha : a ∈ m.names.aliases.values) :
    (m.renumber ρ (s'.linker options)).addAlias (renumberAdded ρ acc) (a.renumber ρ)
      = renumberAdded ρ (m.addAlias acc a) := by
  have hstatements := h.aliasStatements hm ha hacc
  simp only [MergeInput.addAlias, renumberAdded, Prod.map_fst, Prod.map_snd, hstatements,
    Prod.map_apply, List.map_append]

theorem addNamespace {row : ModuleId × DeclId} (hrow : S row.1) :
    (m.renumber ρ (s'.linker options)).addNamespace (renumberAdded ρ acc)
        (row.map ρ.module ρ.decl)
      = renumberAdded ρ (m.addNamespace acc row) := by
  obtain ⟨k, id⟩ := row
  have hget : (m.renumber ρ (s'.linker options)).names.get? (ρ.decl id) = m.names.get? id :=
    m.names.get?_renumber ρ id
  simp only [Prod.map_apply, MergeInput.addNamespace, hget]
  cases m.names.get? id with
  | none => rfl
  | some name =>
    simp only [renumberAdded, Prod.map_fst, Prod.map_snd, h.namespaceStatement hm hrow,
      Prod.map_apply, List.map_append, List.map_cons, List.map_nil, hacc 1]

end

/-- A merge exports the same and adds the same declarations. -/
theorem merge (hn : ρ.SteadyFrom m.names.nextId) :
    (m.renumber ρ (s'.linker options)).merge.statements
        = m.merge.statements.map (Statement.renumber ρ.decl)
      ∧ (m.renumber ρ (s'.linker options)).merge.exports = m.merge.exports := by
  have hvalues : (m.names.renumber ρ).aliases.values
      = m.names.aliases.values.map (ImportAlias.renumber ρ) := Table.values_map _ _ _
  have haliases : (m.names.renumber ρ).aliases.values.foldl
        (m.renumber ρ (s'.linker options)).addAlias ([], (m.names.renumber ρ).nextId)
      = renumberAdded ρ (m.names.aliases.values.foldl m.addAlias ([], m.names.nextId)) := by
    rw [hvalues]
    exact foldl_added (fun acc a ha hacc => h.addAlias hm hacc ha) m.le_addAlias
      ([], m.names.nextId) hn
  have hnext : ρ.SteadyFrom (m.names.aliases.values.foldl m.addAlias ([], m.names.nextId)).2 :=
    hn.mono (le_foldl_added m.le_addAlias ([], m.names.nextId))
  have hrows : ∀ row ∈ m.names.namespaces.rows, S row.1 := fun row hrow =>
    hm.namespaces row.1 (List.mem_map.2 ⟨row, hrow, rfl⟩)
  have hnamespaces := foldl_added
    (fun acc row hrow hacc => h.addNamespace hm hacc (hrows row hrow)) m.le_addNamespace _ hnext
  rw [← haliases] at hnamespaces
  exact ⟨congrArg Prod.fst hnamespaces, h.clause hm⟩

end Store.Embeds

end DeclBundle
