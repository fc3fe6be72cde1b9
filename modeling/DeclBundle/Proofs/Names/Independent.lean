import DeclBundle.Proofs.Names.Noted
import DeclBundle.Proofs.Names.Settings

/-!
# Statements are renamed independently

Naming treats every statement on its own. One walk that shares its scopes, its local bindings and
its table of final names between all statements does the same in whatever order it comes to them
(`Naming.statements_independent`): it leaves everything as it found it but for the nested names that
it notes, and these it does not look at, since what it looks for has a row at the top level.

The table of nested names is the same in every order because no identity is noted twice. That needs
the identities of the binding positions to differ, as they do in the modules of a bundle
(`Bundler.distinct_shaken`).
-/

namespace DeclBundle

/-! ## Tables of nested names -/

theorem Table.find?_perm [DecidableEq κ] {rows rows' : List (κ × ν)} (h : rows.Perm rows')
    (hn : (rows.map Prod.fst).Nodup) (k : κ) : find? k rows = find? k rows' := by
  cases hk : find? k rows' with
  | none => exact find?_eq_none.2 fun hm => find?_eq_none.1 hk ((h.map _).subset hm)
  | some v => exact find?_of_mem hn (h.mem_iff.2 (mem_of_find? hk))

namespace Walk

theorem get?_noteAll (id : DeclId) : ∀ (names : List (DeclId × String)) (t : Table DeclId String),
    (noteAll t names).get? id = (t.get? id).or (Table.find? id names)
  | [], t => by simp [noteAll, Table.find?]
  | (i, name) :: names, t => by
    change (noteAll (t.insertNew i name) names).get? id = _
    rw [get?_noteAll id names, Table.get?_insertNew, Table.find?]
    by_cases hi : i = id
    · subst hi
      cases t.get? i <;> simp
    · simp [hi]

/-! ## Statements of modules -/

section

variable {σ : Setting}

/-- Where a declaration has rows for what it binds, nested names are not looked at. -/
theorem underFinalName_eq {d : Declaration}
    (hd : ∀ id, some id ∈ d.boundIds → id ∈ σ.names.topLevel.keys) (nested : Table DeclId String) :
    State.underFinalName ⟨σ, nested⟩ d = Naming.underFinalName σ.names d := by
  have hget : ∀ i ∈ d.boundIds, i.bind (State.get? ⟨σ, nested⟩) = i.bind σ.names.get? := by
    rintro (_ | id) hid
    · rfl
    · obtain ⟨b, hb⟩ := Table.mem_keys.1 (hd id hid)
      simp [State.get?, FinalNames.get?, hb]
  obtain ⟨id, modifiers, pos, k⟩ := d
  cases k with
  | variableList flavor ds =>
    have hds : ds.map (State.renameDeclarator ⟨σ, nested⟩)
        = ds.map (Naming.renameDeclarator σ.names) := by
      refine List.map_congr_left fun d hm => ?_
      rw [State.renameDeclarator, Naming.renameDeclarator, hget _ (List.mem_map_of_mem hm)]
    simp only [State.underFinalName, Naming.underFinalName, hds]
  | _ =>
    simp only [State.underFinalName, Naming.underFinalName]
    exact hget id List.mem_cons_self ▸ rfl

variable (hσ : σ.names.Rooted) (l : Linker)
include hσ

theorem leads_topStatement (module : ModuleId) {st : Statement}
    (h : ∀ d, st = .declaration d → ∀ id, some id ∈ d.boundIds → id ∈ σ.names.topLevel.keys) :
    Leads σ (topStatement l module st) (Naming.statement (σ.site l module) σ.names st) σ := by
  cases st with
  | declaration d =>
    exact .step (.look (underFinalName_eq (h d rfl)))
      (.bind (leads_declaration l module hσ _) (.pure _))
  | verbatim ts pos => exact .step (.tokens hσ l module ts) (.pure _)
  | _ => exact .pure _

/-- What the walk gives for a statement depends on the module and the setting alone. -/
theorem leads_topStatements : ∀ {jobs : List (ModuleId × Statement)},
    (∀ j ∈ jobs, ∀ d, j.2 = .declaration d → ∀ id, some id ∈ d.boundIds →
      id ∈ σ.names.topLevel.keys) →
    Leads σ (topStatements l jobs)
      ⟨jobs.map fun j => (Naming.statement (σ.site l j.1) σ.names j.2).value,
        jobs.flatMap fun j => (Naming.statement (σ.site l j.1) σ.names j.2).nested⟩ σ
  | [], _ => .pure _
  | (module, st) :: jobs, h => by
    obtain ⟨hst, hjobs⟩ := List.forall_mem_cons.1 h
    exact Leads.bind (g := fun x => ⟨x :: _, _⟩) (leads_topStatement hσ l module hst)
      (.last (leads_topStatements hjobs) (.pure _))

end

/-! ## What a walk leaves -/

/-- A walk leaves the names, the open scopes and the local bindings as it finds them. -/
def Keeps (w : Walk α) : Prop := ∀ s : State, s.names.Rooted → (w s).2.toSetting = s.toSetting

theorem Keeps.of_leads {w : Walk α} {x : Setting → Named α}
    (h : ∀ {σ : Setting}, σ.names.Rooted → Leads σ w (x σ) σ) : w.Keeps := fun ⟨_, nested⟩ hs =>
  let ⟨_, _, hr⟩ := h hs nested
  congrArg (fun r : α × State => r.2.toSetting) hr

theorem keeps_topStatement (l : Linker) (module : ModuleId) (st : Statement) :
    (topStatement l module st).Keeps := by
  cases st with
  | declaration d =>
    intro s hs
    have hd : ∀ {σ : Setting}, σ.names.Rooted → Leads σ
        (do return Statement.declaration (← declaration l module (s.underFinalName d)))
        (do return .declaration (← Rename.declaration (σ.site l module) (s.underFinalName d))) σ :=
      fun hσ => .bind (leads_declaration l module hσ _) (.pure _)
    exact Keeps.of_leads hd s hs
  | verbatim ts pos =>
    exact .of_leads fun hσ => .step (.tokens hσ l module ts) (.pure _)
  | _ => exact .of_leads fun _ => .pure _

end Walk

/-! ## In any order -/

namespace Naming

/-- The statements of modules, each with its module. -/
def tasks (trees : List ModuleTree) : List (ModuleId × Statement) :=
  trees.flatMap fun t => t.statements.map (t.module, ·)

/-- What naming makes of a statement of a module. -/
def outcome (l : Linker) (n : FinalNames) (task : ModuleId × Statement) : Named Statement :=
  statement (site l n task.1) n task.2

/-- No two binding positions of the modules have the same identity. -/
def Distinct (trees : List ModuleTree) : Prop :=
  ((trees.flatMap fun t => (t.statements.map Part.statement).flatMap Part.identities).filterMap
    id).Nodup

/-- Trees can be checked for distinct identities. -/
instance (trees : List ModuleTree) : Decidable (Distinct trees) :=
  inferInstanceAs (Decidable (List.Nodup _))

/-- Where no two binding positions have the same identity, none is noted twice. -/
theorem Distinct.nodup_noted {trees : List ModuleTree} (h : Distinct trees) (l : Linker)
    (n : FinalNames) :
    (((tasks trees).flatMap fun task => (outcome l n task).nested).map Prod.fst).Nodup := by
  have hslots : (trees.flatMap fun t => (t.statements.map Part.statement).flatMap Part.identities)
      = (tasks trees).flatMap fun task => task.2.slots := by
    simp only [tasks, List.flatMap_assoc, List.flatMap_map, Part.identities_statement]
  have hle : ∀ (i : DeclId) (ts : List (ModuleId × Statement)),
      ((ts.flatMap fun task => (outcome l n task).nested).map Prod.fst).count i
        ≤ (ts.flatMap fun task => task.2.slots).count (some i) := by
    intro i ts
    induction ts with
    | nil => exact Nat.le_refl 0
    | cons task ts ih =>
      simp only [List.flatMap_cons, List.map_append, List.count_append]
      exact Nat.add_le_add (noted_statement_le _ n i task.2) ih
  rw [List.nodup_iff_count_le_one]
  intro i
  refine Nat.le_trans (hle i _) ?_
  have hi := List.nodup_iff_count_le_one.1 h i
  rw [hslots, List.count_filterMap] at hi
  exact hi

theorem tree_eq (l : Linker) (n : FinalNames) (t : ModuleTree) : tree l n t
    = ⟨{ t with statements := t.statements.map fun st => (outcome l n (t.module, st)).value },
      t.statements.flatMap fun st => (outcome l n (t.module, st)).nested⟩ := by
  simp only [tree, List.map_map, List.flatMap_map]
  rfl

theorem nested_run (c : NamingContext) (reserved : List String) (firstId : DeclId)
    (trees : List ModuleTree) :
    let named := run c reserved firstId trees
    named.nested = Walk.noteAll {}
      ((tasks trees).flatMap fun task => (outcome c.linker named.names task).nested) := by
  intro named
  simp only [named, run, Walk.noteAll, tasks, List.flatMap_assoc, List.flatMap_map, tree_eq]

/-- What a walk over the statements of all modules gives and leaves, in any order. -/
theorem topStatements_perm (c : NamingContext) (reserved : List String) (firstId : DeclId)
    {trees : List ModuleTree} {order : List (ModuleId × Statement)}
    (hp : order.Perm (tasks trees)) :
    let n := FinalNames.choose c reserved firstId trees
    ∃ noted, noted.Perm ((tasks trees).flatMap fun task => (outcome c.linker n task).nested)
      ∧ Walk.topStatements c.linker order ⟨⟨n, []⟩, {}⟩
        = (order.map fun task => (outcome c.linker n task).value,
          ⟨⟨n, []⟩, Walk.noteAll {} noted⟩) := by
  intro n
  have hkeys : ∀ task ∈ order, ∀ d, task.2 = .declaration d → ∀ id, some id ∈ d.boundIds →
      id ∈ n.topLevel.keys := by
    intro task htask d hd id hid
    obtain ⟨t, ht, hm⟩ := List.mem_flatMap.1 (hp.subset htask)
    obtain ⟨st, hst, rfl⟩ := List.mem_map.1 hm
    change st = _ at hd
    exact FinalNames.mem_keys_choose c reserved firstId ht (hd ▸ hst) hid
  have hrooted : n.Rooted := FinalNames.rooted_choose c reserved firstId trees
  obtain ⟨noted, hnoted, hrun⟩ :=
    @Walk.leads_topStatements ⟨n, []⟩ hrooted c.linker order hkeys {}
  exact ⟨noted, hnoted.trans (hp.flatMap_right _), hrun⟩

/-- The order in which nested names are noted does not matter where none is noted twice. -/
theorem Distinct.get?_noteAll {trees : List ModuleTree} (h : Distinct trees) (c : NamingContext)
    (reserved : List String) (firstId : DeclId) {noted : List (DeclId × String)}
    (hp : noted.Perm ((tasks trees).flatMap fun task =>
      (outcome c.linker (FinalNames.choose c reserved firstId trees) task).nested))
    (id : DeclId) : (Walk.noteAll {} noted).get? id
      = (run c reserved firstId trees).nested.get? id := by
  have hnodup := (hp.map _).nodup_iff.2 (h.nodup_noted c.linker _)
  rw [nested_run, Walk.get?_noteAll, Walk.get?_noteAll]
  exact congrArg (Option.or _) (Table.find?_perm hp hnodup id)

/-- A walk over the statements of all modules in any order gives each statement what the names of
the top level, its module and the statement itself make of it, as in the modules that naming gives.
It leaves the names of the top level as they are, with the same scopes and local bindings open, and
so does every walk over a type, a member or a statement. The nested names are the same in every
order where no two binding positions have one identity, as it is in every bundle
(`Bundler.distinct_shaken`, `Bundler.nested_any_order`). -/
theorem statements_independent (c : NamingContext) (reserved : List String) (firstId : DeclId)
    (trees : List ModuleTree) :
    let named := run c reserved firstId trees
    let result := fun task => (outcome c.linker named.names task).value
    (∀ order : List (ModuleId × Statement), order.Perm (tasks trees) →
        let walked := Walk.topStatements c.linker order ⟨⟨named.names, []⟩, {}⟩
        walked.1 = order.map result
          ∧ walked.2.names = named.names ∧ walked.2.locals = []
          ∧ (Distinct trees → ∀ id, walked.2.nested.get? id = named.nested.get? id))
      ∧ named.names.Rooted
      ∧ named.trees = trees.map (fun t => { t with
          statements := t.statements.map fun st => result (t.module, st) })
      ∧ ∀ module, (∀ t, (Walk.type c.linker module t).Keeps)
        ∧ (∀ m, (Walk.member c.linker module m).Keeps)
        ∧ (∀ st, (Walk.statement c.linker module st).Keeps)
        ∧ ∀ st, (Walk.topStatement c.linker module st).Keeps := by
  intro named result
  refine ⟨fun order hp => ?_, FinalNames.rooted_choose c reserved firstId trees, ?_,
    fun module => ⟨fun t => ?_, fun m => ?_, fun st => ?_, fun st => ?_⟩⟩
  · obtain ⟨noted, hnoted, hrun⟩ := topStatements_perm c reserved firstId hp
    intro walked
    have hwalked : walked = _ := hrun
    rw [hwalked]
    exact ⟨rfl, rfl, rfl, fun hd id => hd.get?_noteAll c reserved firstId hnoted id⟩
  · simp only [named, result, run, List.map_map, Function.comp_def, tree_eq]
  · exact .of_leads fun hσ => Walk.leads_type c.linker module hσ t
  · exact .of_leads fun hσ => Walk.leads_member c.linker module hσ m
  · exact .of_leads fun hσ => Walk.leads_statement c.linker module hσ st
  · exact Walk.keeps_topStatement c.linker module st

/-- A type `T`, and types of two modules whose parameters and key are called `T` as well. -/
def crossedTrees : List ModuleTree :=
  [⟨0, "a.ts", [.declaration ⟨some 0, .none, none, .interface "T" [] [] []⟩,
    .declaration ⟨some 1, .none, none, .typeAlias "M" [⟨some 2, "T", none, none, []⟩]
      (.mapped ⟨some 3, "T", some (.reference ⟨["T"]⟩ []), none, []⟩ none none none
        (some (.reference ⟨["T"]⟩ [])))⟩]⟩,
    ⟨1, "b.ts", [.declaration ⟨some 4, .none, none, .typeAlias "N" [⟨some 5, "T", none, none, []⟩]
      (.reference ⟨["T"]⟩ [])⟩]⟩]

/-- A naming without modules in which the declarations 0, 1 and 4 are reached. -/
def crossedContext : NamingContext where
  linker := Store.empty.linker {}
  reach := { decls := [0, 1, 4] }
  entry := 0

/-- From back to front the parameters and the key get the names that they get in order. -/
theorem statements_independent_backwards :
    let named := run crossedContext [] 6 crossedTrees
    let order := (tasks crossedTrees).reverse
    let walked := Walk.topStatements crossedContext.linker order ⟨⟨named.names, []⟩, {}⟩
    order.Perm (tasks crossedTrees) ∧ Distinct crossedTrees
      ∧ walked.1 = order.map (fun task => (outcome crossedContext.linker named.names task).value)
      ∧ [2, 3, 5].map walked.2.nested.get? = [some "T_$0", some "T_$1", some "T_$0"] := by
  intro named order walked
  have hperm : order.Perm (tasks crossedTrees) := List.reverse_perm _
  have hdistinct : Distinct crossedTrees := by decide +kernel
  obtain ⟨hwalk, -⟩ := statements_independent crossedContext [] 6 crossedTrees
  obtain ⟨hvalues, -, -, hnested⟩ := hwalk order hperm
  refine ⟨hperm, hdistinct, hvalues, ?_⟩
  rw [funext (hnested hdistinct)]
  decide +kernel

end Naming

end DeclBundle
