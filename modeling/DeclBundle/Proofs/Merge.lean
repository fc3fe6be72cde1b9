import DeclBundle.Merge
import DeclBundle.Proofs.Names.Naming

/-!
# What no module wrote

The declarations that come with a merge introduce the names of the aliases, each as a constant, as a
type or as both, and then those of the namespaces (`introduced_merge`).
-/

namespace DeclBundle

/-- The forms in which an alias is declared. -/
inductive AliasForm where
  | value
  | type
deriving DecidableEq, Repr

/-- The names that statements introduce, in order. -/
def introducedNames (ss : List Statement) : List String :=
  ss.flatMap fun s => s.introduced.map Prod.snd

@[simp] theorem introducedNames_append (ss ss' : List Statement) :
    introducedNames (ss ++ ss') = introducedNames ss ++ introducedNames ss' := List.flatMap_append

namespace MergeInput

variable (m : MergeInput)

/-- The final names of an alias and of what it stands for. -/
def aliasNames? (a : ImportAlias) : Option (String × String) := do
  let name ← m.names.get? a.id
  let info ← m.linker.decl? a.terminal
  let target ← m.names.symbol? info.module info.name
  return (name, target)

/-- The forms in which an alias is declared, under its final name. -/
def aliasForms (a : ImportAlias) : List (AliasForm × String) :=
  match m.aliasNames? a with
  | none => []
  | some (name, _) =>
    (if (m.symbolTags a.terminal).any isValueLike then [(.value, name)] else [])
      ++ if (m.symbolTags a.terminal).any isTypeLike then [(.type, name)] else []

theorem introduced_aliasStatements (a : ImportAlias) (nextId : DeclId) :
    introducedNames (m.aliasStatements a nextId).1 = (m.aliasForms a).map Prod.snd := by
  unfold aliasStatements aliasForms
  rw [show (do
    let name ← m.names.get? a.id
    let info ← m.linker.decl? a.terminal
    let target ← m.names.symbol? info.module info.name
    return (name, target)) = m.aliasNames? a from rfl]
  cases m.aliasNames? a with
  | none => rfl
  | some p =>
    obtain ⟨name, target⟩ := p
    by_cases hv : (m.symbolTags a.terminal).any isValueLike <;>
      by_cases ht : (m.symbolTags a.terminal).any isTypeLike <;>
        simp [hv, ht, introducedNames, Statement.introduced, Declaration.introduced, valueAlias,
          typeAlias, Declaration.name?, DeclarationKind.name?]

theorem get?_of_mem_aliasForms {a : ImportAlias} {form : AliasForm} {name : String}
    (h : (form, name) ∈ m.aliasForms a) : m.names.get? a.id = some name := by
  unfold aliasForms at h
  split at h
  · simp at h
  · rename_i x target hn
    have hx : name = x := by
      rcases List.mem_append.1 h with h | h <;> split at h <;> simp_all
    simp only [aliasNames?, Option.bind_eq_bind, Option.bind_eq_some_iff, Option.pure_def,
      Option.some.injEq, Prod.mk.injEq] at hn
    obtain ⟨y, hy, -, -, -, -, rfl, -⟩ := hn
    rw [hx, hy]

/-- An alias is declared at most once in each form, as a constant first. -/
theorem pairwise_aliasForms (a : ImportAlias) :
    (m.aliasForms a).Pairwise fun p q => p.1 = .value ∧ q.1 = .type := by
  unfold aliasForms
  split
  · exact .nil
  · split <;> split <;> simp

theorem introduced_foldl_addAlias : ∀ (as : List ImportAlias) (acc : List Statement × DeclId),
    introducedNames (as.foldl m.addAlias acc).1
      = introducedNames acc.1 ++ as.flatMap fun a => (m.aliasForms a).map Prod.snd
  | [], acc => by simp
  | a :: as, acc => by
    rw [List.foldl_cons, introduced_foldl_addAlias as, addAlias, introducedNames_append,
      introduced_aliasStatements, List.flatMap_cons, List.append_assoc]

theorem introduced_foldl_addNamespace :
    ∀ (rows : List (ModuleId × DeclId)) (acc : List Statement × DeclId),
      introducedNames (rows.foldl m.addNamespace acc).1
        = introducedNames acc.1 ++ rows.filterMap fun row => m.names.get? row.2
  | [], acc => by simp
  | (module, id) :: rows, acc => by
    rw [List.foldl_cons, introduced_foldl_addNamespace rows, List.filterMap_cons]
    cases hn : m.names.get? id with
    | none => simp [addNamespace, hn]
    | some name =>
      have hs : ∀ i, introducedNames [m.namespaceStatement module name i] = [name] := fun i => rfl
      simp [addNamespace, hn, hs]

/-- The names that a merge introduces: those of the aliases, then those of the namespaces. -/
theorem introduced_merge : introducedNames m.merge.statements
    = (m.names.aliases.values.flatMap fun a => (m.aliasForms a).map Prod.snd)
      ++ m.names.namespaces.rows.filterMap fun row => m.names.get? row.2 := by
  have h := m.introduced_foldl_addNamespace m.names.namespaces.rows
    (m.names.aliases.values.foldl m.addAlias ([], m.names.nextId))
  rw [introduced_foldl_addAlias] at h
  exact h

theorem mem_foldl_addNamespace {s : Statement} :
    ∀ {rows : List (ModuleId × DeclId)} {acc : List Statement × DeclId}, s ∈ acc.1 →
      s ∈ (rows.foldl m.addNamespace acc).1
  | [], _, h => h
  | (module, id) :: rows, acc, h => by
    rw [List.foldl_cons]
    refine mem_foldl_addNamespace ?_
    simp only [addNamespace]
    split
    · exact List.mem_append_left _ h
    · exact h

/-- How statements declare an alias under its name: a value as a constant of the type of its target,
a type as a type that stands for it. -/
structure DeclaresAlias (a : ImportAlias) (name target : String) (ss : List Statement) : Prop where
  value : (m.symbolTags a.terminal).any isValueLike = true →
    ∃ id, valueAlias a name target id ∈ ss
  type : (m.symbolTags a.terminal).any isTypeLike = true →
    ∃ k id, typeAlias name target (numberParameters k (m.symbolTypeParameters a.terminal)) id ∈ ss
  somehow : (m.symbolTags a.terminal).any isValueLike = true
    ∨ (m.symbolTags a.terminal).any isTypeLike = true

theorem DeclaresAlias.mono {m : MergeInput} {a : ImportAlias} {name target : String}
    {ss ss' : List Statement} (h : m.DeclaresAlias a name target ss) (hs : ss ⊆ ss') :
    m.DeclaresAlias a name target ss' where
  value hv := (h.value hv).imp fun _ hm => hs hm
  type ht := (h.type ht).imp fun _ ⟨id, hm⟩ => ⟨id, hs hm⟩
  somehow := h.somehow

/-- Every kind of declaration can be an alias. -/
theorem valueLike_or_typeLike (tag : DeclarationTag) :
    isValueLike tag = true ∨ isTypeLike tag = true := by
  cases tag <;> decide

theorem declaresAlias_aliasStatements {a : ImportAlias} {name target : String}
    (hn : m.aliasNames? a = some (name, target)) (ht : m.symbolTags a.terminal ≠ [])
    (nextId : DeclId) : m.DeclaresAlias a name target (m.aliasStatements a nextId).1 := by
  have hfound : (do
    let name ← m.names.get? a.id
    let info ← m.linker.decl? a.terminal
    let target ← m.names.symbol? info.module info.name
    return (name, target)) = some (name, target) := hn
  constructor
  · intro hv
    refine ⟨nextId, ?_⟩
    simp only [aliasStatements, hfound, hv, if_true]
    exact List.mem_append_left _ List.mem_cons_self
  · intro hty
    simp only [aliasStatements, hfound, hty, if_true]
    exact ⟨_, _, List.mem_append_right _ List.mem_cons_self⟩
  · obtain ⟨tag, htag⟩ := List.exists_mem_of_ne_nil _ ht
    exact (valueLike_or_typeLike tag).imp (fun h => List.any_eq_true.2 ⟨tag, htag, h⟩)
      fun h => List.any_eq_true.2 ⟨tag, htag, h⟩

theorem foldl_addAlias_subset : ∀ (as : List ImportAlias) (acc : List Statement × DeclId),
    acc.1 ⊆ (as.foldl m.addAlias acc).1
  | [], _ => List.Subset.refl _
  | a :: as, acc => by
    have hstep : acc.1 ⊆ (m.addAlias acc a).1 := List.subset_append_left _ _
    exact List.Subset.trans hstep (foldl_addAlias_subset as _)

theorem aliasStatements_subset {a : ImportAlias} : ∀ {as : List ImportAlias}
    (acc : List Statement × DeclId), a ∈ as →
      ∃ nextId, (m.aliasStatements a nextId).1 ⊆ (as.foldl m.addAlias acc).1
  | a' :: as, acc, h => by
    rw [List.foldl_cons]
    rcases List.mem_cons.1 h with rfl | h
    · refine ⟨acc.2, List.Subset.trans ?_ (m.foldl_addAlias_subset as _)⟩
      exact List.subset_append_right _ _
    · exact aliasStatements_subset _ h

/-- An alias with a final name and a target is declared. -/
theorem declaresAlias_merge {a : ImportAlias} {name target : String}
    (ha : a ∈ m.names.aliases.values) (hn : m.aliasNames? a = some (name, target))
    (ht : m.symbolTags a.terminal ≠ []) : m.DeclaresAlias a name target m.merge.statements := by
  obtain ⟨nextId, hsub⟩ := m.aliasStatements_subset ([], m.names.nextId) ha
  exact (m.declaresAlias_aliasStatements hn ht nextId).mono fun s hs =>
    m.mem_foldl_addNamespace (hsub hs)

/-- A namespace with a final name has its block. -/
theorem namespace_mem_merge {module : ModuleId} {id : DeclId} {name : String}
    (hr : (module, id) ∈ m.names.namespaces.rows) (hn : m.names.get? id = some name) :
    ∃ blockId, m.namespaceStatement module name blockId ∈ m.merge.statements := by
  have key : ∀ (rows : List (ModuleId × DeclId)) (acc : List Statement × DeclId),
      (module, id) ∈ rows →
        ∃ blockId,
          m.namespaceStatement module name blockId ∈ (rows.foldl m.addNamespace acc).1 := by
    intro rows
    induction rows with
    | nil => simp
    | cons row rows ih =>
      intro acc hm
      rw [List.foldl_cons]
      rcases List.mem_cons.1 hm with rfl | hm
      · refine ⟨acc.2, m.mem_foldl_addNamespace ?_⟩
        simp [addNamespace, hn]
      · exact ih _ hm
  exact key _ _ hr

end MergeInput

end DeclBundle
