import DeclBundle.Proofs.Table
import DeclBundle.Proofs.Tree.Identity
import DeclBundle.Reach.Edges
import Mathlib.Data.List.Nodup

/-!
# Stores and their top-level bindings

A store is built by adding units to the empty one (`Store.Built`). Its binding positions are then
numbered without a gap, so the identities of its top-level bindings are different and are all below
the next one that it gives out (`Built.nodup_ids`, `Built.id_lt`).

`Store.bindings` lists the top-level bindings of all modules. The tables of declarations and of
edges are read off that list.
-/

namespace DeclBundle

/-- A top-level binding of a module: a declaration, or one variable of a variable statement. -/
structure TopBinding where
  id : DeclId
  module : ModuleId
  path : String
  name : String
  tag : DeclarationTag
  analysis : Analysis

/-- What a statement of the module at `path` binds at the top level. -/
def Statement.topBindings (module : ModuleId) (path : String) : Statement → List TopBinding
  | .declaration d =>
    match d.kind with
    | .variableList _ declarators => declarators.filterMap fun v =>
        v.id.map fun id => ⟨id, module, path, v.name, .variableList, .declarator v⟩
    | _ => (d.id.map fun id =>
        ⟨id, module, path, d.name?.getD (anonymousName path), d.tag, .declaration d⟩).toList
  | _ => []

/-- What statements of the module at `path` bind at the top level. -/
def topBindings (module : ModuleId) (path : String) (ss : List Statement) : List TopBinding :=
  ss.flatMap (Statement.topBindings module path)

namespace TopBinding

/-- The summary of a binding in the linker. -/
def summary (b : TopBinding) : DeclSummary := ⟨b.module, b.name, b.tag⟩

/-- The edges of a binding in the graph. -/
def edges (l : Linker) (b : TopBinding) : Edges := Edges.ofAnalysis l b.module b.path b.analysis

end TopBinding

theorem Statement.module_of_mem_topBindings {module : ModuleId} {path : String} {s : Statement}
    {b : TopBinding} (h : b ∈ s.topBindings module path) : b.module = module ∧ b.path = path := by
  unfold Statement.topBindings at h
  split at h
  · split at h
    · simp only [List.mem_filterMap, Option.map_eq_some_iff] at h
      obtain ⟨v, -, id, -, rfl⟩ := h
      exact ⟨rfl, rfl⟩
    · simp only [Option.mem_toList, Option.map_eq_some_iff] at h
      obtain ⟨id, -, rfl⟩ := h
      exact ⟨rfl, rfl⟩
  · simp at h

theorem module_of_mem_topBindings {module : ModuleId} {path : String} {ss : List Statement}
    {b : TopBinding} (h : b ∈ topBindings module path ss) : b.module = module ∧ b.path = path := by
  obtain ⟨s, -, hb⟩ := List.mem_flatMap.1 h
  exact Statement.module_of_mem_topBindings hb

/-- The top-level identities are some of those of the binding positions. -/
theorem Declaration.boundIds_sublist (d : Declaration) : d.boundIds.Sublist d.slots := by
  have hv : ∀ ds : List Declarator, (ds.map (·.id)).Sublist (Declarator.listSlots ds) := by
    intro ds
    induction ds with
    | nil => exact List.Sublist.refl []
    | cons v vs ih =>
      rw [Declarator.listSlots_cons, List.map_cons]
      exact (ih.trans (List.sublist_append_right _ _)).cons_cons _
  obtain ⟨id, modifiers, pos, kind⟩ := d
  cases kind with
  | variableList flavor ds => exact (hv ds).cons _
  | _ => exact (List.nil_sublist _).cons_cons _

theorem Declaration.boundIds_eq (d : Declaration) : d.boundIds = d.analyses.map Prod.fst := by
  obtain ⟨id, modifiers, pos, kind⟩ := d
  cases kind <;> simp [Declaration.boundIds, Declaration.analyses]

/-- What is analysed under an identity is one of the bindings. -/
theorem Declaration.exists_topBinding (module : ModuleId) (path : String) {d : Declaration}
    {id : DeclId} {a : Analysis} (h : (some id, a) ∈ d.analyses) :
    ∃ b ∈ (Statement.declaration d).topBindings module path, b.id = id ∧ b.analysis = a := by
  obtain ⟨did, modifiers, pos, kind⟩ := d
  cases kind with
  | variableList flavor ds =>
    simp only [Declaration.analyses, List.mem_map, Prod.mk.injEq] at h
    obtain ⟨v, hv, hid, rfl⟩ := h
    exact ⟨_, List.mem_filterMap.2 ⟨v, hv, by rw [hid]; rfl⟩, rfl, rfl⟩
  | _ =>
    simp only [Declaration.analyses, List.mem_singleton, Prod.mk.injEq] at h
    obtain ⟨rfl, rfl⟩ := h
    exact ⟨_, List.mem_singleton.2 rfl, rfl, rfl⟩

theorem ids_statement_topBindings (module : ModuleId) (path : String) (s : Statement) :
    ((s.topBindings module path).map fun b => some b.id).Sublist s.slots := by
  cases s with
  | declaration d =>
    refine List.Sublist.trans ?_ d.boundIds_sublist
    obtain ⟨id, modifiers, pos, kind⟩ := d
    cases kind with
    | variableList flavor ds =>
      simp only [Statement.topBindings, Declaration.boundIds]
      induction ds with
      | nil => simp
      | cons v vs ih =>
        obtain ⟨vid, name, ascription, initializer⟩ := v
        cases vid with
        | none => simpa using ih.cons none
        | some i => simpa using ih.cons_cons (some i)
    | _ => cases id <;> simp [Statement.topBindings, Declaration.boundIds]
  | _ => simp [Statement.topBindings]

theorem ids_topBindings (module : ModuleId) (path : String) (ss : List Statement) :
    ((topBindings module path ss).map fun b => some b.id).Sublist (Statement.listSlots ss) := by
  induction ss with
  | nil => simp [topBindings, Statement.listSlots]
  | cons s ss ih =>
    simp only [topBindings, List.flatMap_cons, List.map_append, Statement.listSlots]
    exact (ids_statement_topBindings module path s).append ih

namespace Store

/-- The stores that additions lead to. -/
inductive Built : Store → Prop
  | empty : Built .empty
  | add {s s' : Store} {u : DeclUnit} (h : Built s) (hu : s.add u = .ok s') : Built s'

/-- The top-level bindings of all modules in order. -/
def bindings (s : Store) : List TopBinding :=
  s.units.zipIdx.flatMap fun (u, m) => topBindings m u.path u.statements

theorem mem_bindings {s : Store} {b : TopBinding} :
    b ∈ s.bindings ↔ ∃ u, s.get? b.module = some u ∧ b ∈ topBindings b.module u.path u.statements
    := by
  simp only [bindings, List.mem_flatMap, Prod.exists, List.mem_zipIdx_iff_getElem?]
  constructor
  · rintro ⟨u, m, hu, hb⟩
    obtain ⟨rfl, -⟩ := module_of_mem_topBindings hb
    exact ⟨u, hu, hb⟩
  · rintro ⟨u, hu, hb⟩
    exact ⟨u, b.module, hu, hb⟩

/-- What putting a unit into a store leads to: it is refused and the store stays as it is, or it is
the last unit and its binding positions are numbered from the first free identity on. -/
theorem run_insert (s : Store) (u : DeclUnit) : (insert u).run.run s =
    if u.path = "" then (.error .emptyModuleId, s)
    else if (s.lookup u.path).isSome then (.error (.duplicateModule u.path), s)
    else (.ok s.size, {
      units := s.units ++ [{ u with statements := Statement.assignList s.nextId u.statements }]
      nextId := s.nextId + (Statement.listSlots u.statements).length }) := by
  have hget : ∀ f : Store → ExceptT StoreError (StateM Store) ModuleId,
      (get >>= f).run.run s = (f s).run.run s := fun _ => rfl
  rw [insert, hget]
  split
  · rfl
  · split <;> rfl

theorem add_eq (s : Store) (u : DeclUnit) : s.add u =
    if u.path = "" then .error .emptyModuleId
    else if (s.lookup u.path).isSome then .error (.duplicateModule u.path)
    else .ok {
      units := s.units ++ [{ u with statements := Statement.assignList s.nextId u.statements }]
      nextId := s.nextId + (Statement.listSlots u.statements).length } := by
  rw [add, run_insert]
  by_cases h : u.path = ""
  · simp only [if_pos h]
  · by_cases hl : (s.lookup u.path).isSome
    · simp only [if_neg h, if_pos hl]
    · simp only [if_neg h, if_neg hl]

theorem add_ok {s s' : Store} {u : DeclUnit} (h : s.add u = .ok s') :
    s' = {
      units := s.units ++ [{ u with statements := Statement.assignList s.nextId u.statements }]
      nextId := s.nextId + (Statement.listSlots u.statements).length } := by
  rw [add_eq] at h
  split at h
  · cases h
  · split at h
    · cases h
    · exact (Except.ok.inj h).symm

theorem Built.addAll : ∀ {us : List DeclUnit} {s s' : Store}, s.Built → s.addAll us = .ok s' →
    s'.Built
  | [], _, _, h, hs => Except.ok.inj hs ▸ h
  | u :: us, s, s', h, hs => by
    simp only [Store.addAll] at hs
    cases ha : s.add u with
    | error e =>
      rw [ha] at hs
      cases hs
    | ok s₁ =>
      rw [ha] at hs
      exact (h.add ha).addAll hs

theorem built_ofUnits {us : List DeclUnit} {s : Store} (h : ofUnits us = .ok s) : s.Built :=
  Built.empty.addAll h

namespace Built

variable {s : Store}

/-- The binding positions of a store are numbered without a gap. -/
theorem slots_units (h : s.Built) :
    s.units.flatMap (fun u => Statement.listSlots u.statements) = consecutive 0 s.nextId := by
  induction h with
  | empty => rfl
  | add _ hu ih =>
    rw [add_ok hu]
    simp only [List.flatMap_append, List.flatMap_cons, List.flatMap_nil, List.append_nil, ih,
      Statement.listSlots_assignList, consecutive_add, Nat.zero_add]

/-- All that the units of a store declare at their top level has an identity. -/
theorem exists_id (h : s.Built) {m : ModuleId} {u : DeclUnit} (hu : s.get? m = some u)
    {d : Declaration} (hd : .declaration d ∈ u.statements) {i : Option DeclId}
    (hi : i ∈ d.boundIds) : ∃ id, i = some id := by
  have hs : i ∈ Statement.listSlots u.statements := by
    have key : ∀ ss : List Statement, .declaration d ∈ ss → i ∈ Statement.listSlots ss := by
      intro ss
      induction ss with
      | nil => simp
      | cons st ss ih =>
        intro hm
        rw [Statement.listSlots, List.mem_append]
        rcases List.mem_cons.1 hm with rfl | hm
        · exact .inl (d.boundIds_sublist.subset hi)
        · exact .inr (ih hm)
    exact key _ hd
  have hc : i ∈ consecutive 0 s.nextId := by
    rw [← h.slots_units]
    exact List.mem_flatMap.2 ⟨u, List.mem_of_getElem? hu, hs⟩
  obtain ⟨id, rfl, -⟩ := mem_consecutive.1 hc
  exact ⟨id, rfl⟩

theorem ids_sublist (h : s.Built) :
    (s.bindings.map fun b => some b.id).Sublist (consecutive 0 s.nextId) := by
  rw [← h.slots_units]
  have key : ∀ (us : List DeclUnit) (k : Nat),
      (((us.zipIdx k).flatMap fun (u, m) => topBindings m u.path u.statements).map
        fun b => some b.id).Sublist (us.flatMap fun u => Statement.listSlots u.statements) := by
    intro us
    induction us with
    | nil => intro k; simp
    | cons u us ih =>
      intro k
      simp only [List.zipIdx_cons, List.flatMap_cons, List.map_append]
      exact (ids_topBindings k u.path u.statements).append (ih (k + 1))
  exact key s.units 0

/-- No two top-level bindings have the same identity. -/
theorem nodup_ids (h : s.Built) : (s.bindings.map (·.id)).Nodup := by
  have hn := (nodup_consecutive 0 s.nextId).sublist h.ids_sublist
  have hm : (s.bindings.map fun b => some b.id) = (s.bindings.map (·.id)).map some :=
    List.map_map.symm
  rw [hm] at hn
  exact hn.of_map some

theorem id_lt (h : s.Built) {b : TopBinding} (hb : b ∈ s.bindings) : b.id < s.nextId := by
  have hm : some b.id ∈ consecutive 0 s.nextId :=
    h.ids_sublist.subset (List.mem_map.2 ⟨b, hb, rfl⟩)
  obtain ⟨i, hi, -, hlt⟩ := mem_consecutive.1 hm
  cases hi
  simpa using hlt

/-- A top-level binding is known by its identity. -/
theorem eq_of_id (h : s.Built) {b c : TopBinding} (hb : b ∈ s.bindings) (hc : c ∈ s.bindings)
    (he : b.id = c.id) : b = c :=
  List.inj_on_of_nodup_map h.nodup_ids hb hc he

end Built

end Store

/-! ## The tables that are read off the list -/

theorem declarationsOf_eq (module : ModuleId) (u : DeclUnit) :
    Linker.declarationsOf module u
      = (topBindings module u.path u.statements).map fun b => (b.id, b.summary) := by
  unfold Linker.declarationsOf topBindings
  rw [List.map_flatMap]
  congr 1
  funext s
  cases s with
  | declaration d =>
    obtain ⟨id, modifiers, pos, kind⟩ := d
    cases kind with
    | variableList flavor ds =>
      simp only [Declaration.bindings, Statement.topBindings, List.filterMap_map,
        List.map_filterMap]
      refine List.filterMap_congr fun v _ => ?_
      obtain ⟨vid, name, ascription, initializer⟩ := v
      cases vid <;> rfl
    | _ => cases id <;> rfl
  | _ => rfl

theorem unitEdges_eq (l : Linker) (module : ModuleId) (u : DeclUnit) :
    DependencyGraph.unitEdges l module u
      = (topBindings module u.path u.statements).map fun b => (b.id, b.edges l) := by
  unfold DependencyGraph.unitEdges topBindings
  rw [List.map_flatMap]
  congr 1
  funext s
  cases s with
  | declaration d =>
    obtain ⟨id, modifiers, pos, kind⟩ := d
    cases kind with
    | variableList flavor ds =>
      simp only [Declaration.analyses, Statement.topBindings, List.filterMap_map,
        List.map_filterMap]
      refine List.filterMap_congr fun v _ => ?_
      obtain ⟨vid, name, ascription, initializer⟩ := v
      cases vid <;> rfl
    | _ => cases id <;> rfl
  | _ => rfl

namespace Store

variable {s : Store} (options : Options)

/-- The linker of a store under some options. -/
abbrev linker (s : Store) (options : Options) : Linker := Linker.build s options

theorem decls_linker :
    (s.linker options).decls.rows = s.bindings.map fun b => (b.id, b.summary) := by
  unfold linker Linker.build bindings
  rw [List.map_flatMap]
  simp only [declarationsOf_eq]

theorem edges_build (l : Linker) :
    (DependencyGraph.build s l).edges.rows = s.bindings.map fun b => (b.id, b.edges l) := by
  unfold DependencyGraph.build bindings
  rw [List.map_flatMap]
  simp only [unitEdges_eq]

namespace Built

theorem decl?_of_mem (h : s.Built) {b : TopBinding} (hb : b ∈ s.bindings) :
    (s.linker options).decl? b.id = some b.summary := by
  refine Table.get?_of_mem_rows ?_ ?_
  · simp only [Table.keys, decls_linker, List.map_map]
    exact h.nodup_ids
  · rw [decls_linker]
    exact List.mem_map.2 ⟨b, hb, rfl⟩

theorem edgesOf_of_mem (h : s.Built) (l : Linker) {b : TopBinding} (hb : b ∈ s.bindings) :
    (DependencyGraph.build s l).edges? b.id = some (b.edges l) := by
  refine Table.get?_of_mem_rows ?_ ?_
  · simp only [Table.keys, edges_build, List.map_map]
    exact h.nodup_ids
  · rw [edges_build]
    exact List.mem_map.2 ⟨b, hb, rfl⟩

end Built

end Store

end DeclBundle
