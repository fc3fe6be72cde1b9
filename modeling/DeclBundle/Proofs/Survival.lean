import DeclBundle.Proofs.Shake
import Mathlib.Data.List.Nodup

/-!
# What shaking keeps

Of each module shaking keeps the statements that survive, in order: those that declare nothing, and
those that declare something that is reached, where a variable statement loses the variables that
are not (`Shake.statements_eq`). So the identities that are left are those that are reached, each
identity is counted once (`Shake.kept_add_removed`), and shaking again changes nothing
(`Shake.modules_shake`).
-/

namespace DeclBundle

/-- Whether a statement stays: it declares nothing, or something that is reached. -/
def Statement.survives (r : Reach) : Statement → Bool
  | .declaration d => d.boundIds.any (Shake.keeps r)
  | _ => true

/-- A variable statement with those of its variables that are reached; any other statement as it
is. -/
def Statement.trimmed (r : Reach) : Statement → Statement
  | .declaration ⟨id, modifiers, pos, .variableList flavor declarators⟩ =>
    .declaration ⟨id, modifiers, pos,
      .variableList flavor (declarators.filter fun v => Shake.keeps r v.id)⟩
  | s => s

/-- The store with what shaking keeps of each unit. -/
def Store.shake (s : Store) (r : Reach) : Store :=
  { s with units := s.units.map fun u =>
      { u with statements := u.statements.filterMap (Shake.statement? r) } }

namespace Shake

section
variable (r : Reach)

/-! ## Statements -/

theorem statement?_eq (s : Statement) :
    statement? r s = if s.survives r then some (s.trimmed r) else none := by
  cases s with
  | declaration d =>
    obtain ⟨id, modifiers, pos, kind⟩ := d
    cases kind with
    | variableList flavor ds =>
      have hany : (ds.map (·.id)).any (keeps r)
          = !(ds.filter fun v => keeps r v.id).isEmpty := by
        induction ds with
        | nil => rfl
        | cons v vs ih => by_cases hv : keeps r v.id <;> simp_all
      simp only [statement?, Statement.survives, Declaration.boundIds, hany, Statement.trimmed]
      cases ds.filter (fun v => keeps r v.id) <;> rfl
    | _ => simp [statement?, Statement.survives, Declaration.boundIds, Statement.trimmed]
  | _ => rfl

/-- Shaking keeps the statements that survive, in order. -/
theorem statements_eq (ss : List Statement) :
    ss.filterMap (statement? r) = (ss.filter (Statement.survives r)).map (Statement.trimmed r) := by
  induction ss with
  | nil => rfl
  | cons s ss ih =>
    rw [List.filterMap_cons, statement?_eq, List.filter_cons, ih]
    by_cases hs : s.survives r <;> simp [hs]

theorem boundIds_statement?_toList (s : Statement) :
    boundIds (statement? r s).toList = (boundIds [s]).filter (keeps r) := by
  cases s with
  | declaration d =>
    obtain ⟨id, modifiers, pos, kind⟩ := d
    cases kind with
    | variableList flavor ds =>
      have hmap : (ds.map (·.id)).filter (keeps r)
          = (ds.filter fun v => keeps r v.id).map (·.id) := by
        rw [List.filter_map]
        rfl
      simp only [statement?, boundIds, List.flatMap_singleton, Declaration.boundIds, hmap]
      cases ds.filter (fun v => keeps r v.id) <;> simp
    | _ => by_cases hk : keeps r id <;> simp [statement?, boundIds, Declaration.boundIds, hk]
  | _ => rfl

/-- The identities that are left are those that are reached, in order. -/
theorem boundIds_shaken (ss : List Statement) :
    boundIds (ss.filterMap (statement? r)) = (boundIds ss).filter (keeps r) := by
  induction ss with
  | nil => rfl
  | cons s ss ih =>
    have hs := boundIds_statement?_toList r s
    simp only [boundIds, List.flatMap_cons, List.flatMap_nil, List.append_nil,
      List.filter_append] at ih hs ⊢
    rw [← ih, ← hs, List.filterMap_cons]
    cases statement? r s <;> simp

variable {r} in
theorem statement?_statement? {s s' : Statement} (h : statement? r s = some s') :
    statement? r s' = some s' := by
  cases s with
  | declaration d =>
    obtain ⟨id, modifiers, pos, kind⟩ := d
    cases kind with
    | variableList flavor ds =>
      simp only [statement?] at h
      split at h
      · cases h
      · cases h
        simp only [statement?, List.filter_filter, Bool.and_self]
    | _ =>
      simp only [statement?] at h
      split at h
      · rename_i hk
        cases h
        exact if_pos hk
      · cases h
  | _ =>
    cases h
    rfl

theorem filterMap_filterMap_statement? (ss : List Statement) :
    (ss.filterMap (statement? r)).filterMap (statement? r) = ss.filterMap (statement? r) := by
  rw [List.filterMap_filterMap]
  refine List.filterMap_congr fun s _ => ?_
  cases hs : statement? r s with
  | none => rfl
  | some s' => exact statement?_statement? hs

/-! ## Modules -/

variable (store : Store) (ms : List ModuleId)

/-- The identities that modules declare at their top level, in order. -/
def identities : List (Option DeclId) :=
  (units store ms).flatMap fun (_, u) => boundIds u.statements

theorem boundIds_modules : (modules store ms r).flatMap (fun t => boundIds t.statements)
    = (identities store ms).filter (keeps r) := by
  simp only [modules, identities, List.flatMap_map, List.filter_flatMap]
  exact List.flatMap_congr fun p _ => boundIds_shaken r p.2.statements

theorem kept_counts :
    (counts store ms r).kept = ((identities store ms).filter (keeps r)).length :=
  List.countP_eq_length_filter

/-- What stays and what goes are counted apart. -/
theorem kept_add_removed :
    (counts store ms r).kept + (counts store ms r).removed = (identities store ms).length := by
  rw [List.length_eq_countP_add_countP (keeps r)]
  simp [counts, identities]

theorem units_shake : units (store.shake r) ms = (units store ms).map (Prod.map id fun u =>
    { u with statements := u.statements.filterMap (statement? r) }) := by
  simp only [units, List.map_filterMap]
  refine List.filterMap_congr fun m _ => ?_
  simp [Store.get?, Store.shake, Function.comp_def]

/-- Shaking what is left leaves all of it. -/
theorem modules_shake : modules (store.shake r) ms r = modules store ms r := by
  rw [modules, units_shake, List.map_map, modules]
  refine List.map_congr_left fun p _ => ?_
  simp only [Function.comp_apply, unit, Prod.map_fst, Prod.map_snd, id_eq,
    filterMap_filterMap_statement?]

theorem identities_shake :
    identities (store.shake r) ms = (identities store ms).filter (keeps r) := by
  simp only [identities, units_shake, List.flatMap_map, List.filter_flatMap]
  exact List.flatMap_congr fun p _ => boundIds_shaken r p.2.statements

theorem counts_shake : counts (store.shake r) ms r = ⟨(counts store ms r).kept, 0⟩ := by
  have hkept : (counts (store.shake r) ms r).kept = (counts store ms r).kept := by
    rw [kept_counts, identities_shake, List.filter_filter, kept_counts]
    simp
  have hall := kept_add_removed r (store.shake r) ms
  rw [hkept, identities_shake, ← kept_counts] at hall
  have hremoved : (counts (store.shake r) ms r).removed = 0 := Nat.add_eq_left.1 hall
  rw [← hkept, ← hremoved]

end

/-! ## The identities of a built store -/

/-- Bound positions that all have an identity are those of the top-level bindings. -/
theorem boundIds_eq_topBindings (m : ModuleId) (path : String) (ss : List Statement)
    (h : ∀ i ∈ boundIds ss, ∃ id, i = some id) :
    boundIds ss = (topBindings m path ss).map fun b => some b.id := by
  rw [boundIds, topBindings, List.map_flatMap]
  refine List.flatMap_congr fun s hs => ?_
  cases s with
  | declaration d =>
    have hd : ∀ i ∈ d.boundIds, ∃ id, i = some id :=
      fun i hi => h i (List.mem_flatMap.2 ⟨_, hs, hi⟩)
    obtain ⟨id, modifiers, pos, kind⟩ := d
    cases kind with
    | variableList flavor ds =>
      simp only [Declaration.boundIds, Statement.topBindings, List.map_filterMap, Option.map_map]
      simp only [Declaration.boundIds, List.forall_mem_map] at hd
      rw [← List.filterMap_eq_map]
      refine List.filterMap_congr fun v hv => ?_
      obtain ⟨i, hi⟩ := hd v hv
      simp [hi]
    | _ =>
      obtain ⟨i, rfl⟩ := hd _ List.mem_cons_self
      rfl
  | _ => rfl

/-- The top-level bindings of modules, in order. -/
def bindingsOf (store : Store) (ms : List ModuleId) : List TopBinding :=
  (units store ms).flatMap fun (m, u) => topBindings m u.path u.statements

variable {store : Store} {ms : List ModuleId}

theorem mem_units {m : ModuleId} {u : DeclUnit} :
    (m, u) ∈ units store ms ↔ m ∈ ms ∧ store.get? m = some u := by
  simp only [units, List.mem_filterMap, Option.map_eq_some_iff, Prod.mk.injEq]
  constructor
  · rintro ⟨m', hm, u', hu, rfl, rfl⟩
    exact ⟨hm, hu⟩
  · rintro ⟨hm, hu⟩
    exact ⟨m, hm, u, hu, rfl, rfl⟩

theorem mem_bindingsOf {c : TopBinding} :
    c ∈ bindingsOf store ms ↔ c ∈ store.bindings ∧ c.module ∈ ms := by
  rw [bindingsOf, List.mem_flatMap, Store.mem_bindings]
  constructor
  · rintro ⟨⟨m, u⟩, hmu, hc⟩
    obtain ⟨hm, hu⟩ := mem_units.1 hmu
    obtain ⟨rfl, -⟩ := module_of_mem_topBindings hc
    exact ⟨⟨u, hu, hc⟩, hm⟩
  · rintro ⟨⟨u, hu, hc⟩, hm⟩
    exact ⟨(c.module, u), mem_units.2 ⟨hm, hu⟩, hc⟩

variable (hb : store.Built)
include hb

theorem identities_eq :
    identities store ms = (bindingsOf store ms).map fun b => some b.id := by
  rw [identities, bindingsOf, List.map_flatMap]
  refine List.flatMap_congr fun (m, u) hmu => boundIds_eq_topBindings _ _ _ fun i hi => ?_
  obtain ⟨s, hs, hi⟩ := List.mem_flatMap.1 hi
  cases s with
  | declaration d => exact hb.exists_id (mem_units.1 hmu).2 hs hi
  | _ => cases hi

/-- The identities of modules are those of the top-level bindings in them. -/
theorem mem_identities {i : Option DeclId} :
    i ∈ identities store ms ↔ ∃ c ∈ store.bindings, i = some c.id ∧ c.module ∈ ms := by
  simp only [identities_eq hb, List.mem_map, mem_bindingsOf, and_assoc, eq_comm (a := i)]
  exact exists_congr fun c => and_congr_right fun _ => and_comm

theorem nodup_topBindings {m : ModuleId} {u : DeclUnit} (hu : store.get? m = some u) :
    (topBindings m u.path u.statements).Nodup := by
  have hn := hb.nodup_ids.of_map
  rw [Store.bindings, List.nodup_flatMap] at hn
  exact hn.1 (u, m) (List.mem_zipIdx_iff_getElem?.2 hu)

theorem nodup_bindingsOf (hn : ms.Nodup) : (bindingsOf store ms).Nodup := by
  refine List.nodup_flatMap.2 ⟨fun (m, u) hmu => nodup_topBindings hb (mem_units.1 hmu).2, ?_⟩
  refine List.pairwise_filterMap.2 (hn.imp fun {m m'} hne p hp q hq c hc hc' => hne ?_)
  obtain ⟨u, -, rfl⟩ := Option.map_eq_some_iff.1 hp
  obtain ⟨u', -, rfl⟩ := Option.map_eq_some_iff.1 hq
  exact (module_of_mem_topBindings hc).1.symm.trans (module_of_mem_topBindings hc').1

/-- No identity is declared twice. -/
theorem nodup_identities (hn : ms.Nodup) : (identities store ms).Nodup := by
  rw [identities_eq hb]
  refine (nodup_bindingsOf hb hn).map_on fun b hb' c hc he => ?_
  exact hb.eq_of_id (mem_bindingsOf.1 hb').1 (mem_bindingsOf.1 hc).1 (Option.some.inj he)

end Shake

end DeclBundle
