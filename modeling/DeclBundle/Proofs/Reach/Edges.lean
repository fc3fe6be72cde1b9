import DeclBundle.Proofs.Link.Resolve
import DeclBundle.Reach.Edges

/-!
# What edges hold

The edges of an analysis hold the targets of all its references, and the names among them that
nothing provides.
-/

namespace DeclBundle

/-- What a reference in a module resolves to. An import type of a library resolves to nothing in the
store. -/
def Linker.resolveReference (l : Linker) (module : ModuleId) : Reference → Resolution
  | .name name => (l.resolveLocal module name).1
  | .importType specifier qualifier =>
    match l.lookup specifier, qualifier with
    | none, _ => .unresolved
    | some target, some name => (l.resolveExport target name).1
    | some target, none => .namespaceOf target

namespace Edges

theorem targets_foldl : ∀ (es : List Edges) (e : Edges),
    (es.foldl append e).targets = e.targets ++ es.flatMap (·.targets)
  | [], e => by simp
  | a :: es, e => by simp [targets_foldl es, append]

theorem globals_foldl : ∀ (es : List Edges) (e : Edges),
    (es.foldl append e).globals = e.globals ++ es.flatMap (·.globals)
  | [], e => by simp
  | a :: es, e => by simp [globals_foldl es, append]

theorem diagnostics_foldl : ∀ (es : List Edges) (e : Edges),
    (es.foldl append e).diagnostics = e.diagnostics ++ es.flatMap (·.diagnostics)
  | [], e => by simp
  | a :: es, e => by simp [diagnostics_foldl es, append]

variable {l : Linker} {m : ModuleId} {path : String} {a : Analysis} {r : Reference}

/-- A reference that resolves leads to the targets of its resolution. -/
theorem targets_ofReference (h : l.resolveReference m r ≠ .unresolved) :
    (ofReference l m path r).targets = l.targets (l.resolveReference m r) := by
  cases r with
  | name name => rfl
  | importType specifier qualifier =>
    simp only [Linker.resolveReference, ofReference, ofImportType] at h ⊢
    cases hl : l.lookup specifier with
    | none => simp [hl] at h
    | some target => cases qualifier <;> simp

theorem mem_targets_ofAnalysis (hr : r ∈ a.references)
    (h : l.resolveReference m r ≠ .unresolved) {t : Target}
    (ht : t ∈ l.targets (l.resolveReference m r)) : t ∈ (ofAnalysis l m path a).targets := by
  rw [ofAnalysis, targets_foldl, List.flatMap_map]
  rw [← targets_ofReference h] at ht
  exact List.mem_append_right _ (List.mem_flatMap.2 ⟨r, hr, ht⟩)

/-- A name that nothing provides is one of the globals. -/
theorem mem_globals_ofAnalysis {name : String} (hr : .name name ∈ a.references)
    (h : (l.resolveLocal m name).1 = .unresolved) : name ∈ (ofAnalysis l m path a).globals := by
  rw [ofAnalysis, globals_foldl, List.flatMap_map]
  refine List.mem_append_right _ (List.mem_flatMap.2 ⟨.name name, hr, ?_⟩)
  simp [ofReference, ofName, h]

/-- The reports of a reference are among those of the analysis it belongs to. -/
theorem mem_diagnostics_ofAnalysis (hr : r ∈ a.references) {d : Diagnostic}
    (hd : d ∈ (ofReference l m path r).diagnostics) : d ∈ (ofAnalysis l m path a).diagnostics := by
  rw [ofAnalysis, diagnostics_foldl, List.flatMap_map]
  exact List.mem_append_right _ (List.mem_flatMap.2 ⟨r, hr, hd⟩)

end Edges

/-- The targets of a declaration are those of its symbol, itself among them. -/
theorem Store.Built.targets_of_mem {s : Store} (h : s.Built) (options : Options) {b c : TopBinding}
    (hb : b ∈ s.bindings) (hc : c ∈ s.bindings) (hm : c.module = b.module) (hn : c.name = b.name) :
    Target.declaration c.id ∈ (s.linker options).targets (.declaration b.id) := by
  have hmem := (h.mem_symbolDecls options hb).2 ⟨c, hc, rfl, hm, hn⟩
  simp only [Linker.targets]
  split
  · rename_i he
    rw [he] at hmem
    simp at hmem
  · exact List.mem_map.2 ⟨c.id, hmem, rfl⟩

end DeclBundle
