import DeclBundle.Link.Surface
import DeclBundle.Proofs.Table
import DeclBundle.Reach.Closure
import Mathlib.Data.List.Basic

/-!
# Other numbers for modules and identities

The modules of a store are numbered by their places in it and the identities by what stands before
them, so both change when units come before them or are put in another order. A `Renumbering` gives
modules and identities other numbers, all different, and everything that is linked is carried along.
Tables and sets in order of insertion commute with it, for what is different stays different.
-/

namespace DeclBundle

/-- Other numbers for modules and identities. -/
structure Renumbering where
  module : ModuleId → ModuleId
  decl : DeclId → DeclId
  module_injective : Function.Injective module
  decl_injective : Function.Injective decl

/-- A fold over changed items from a changed start, where each step commutes with the change. -/
theorem foldl_map_hom {f : α → α'} {g : β → β'} {step : α → β → α} {step' : α' → β' → α'} :
    ∀ {xs : List β} {a : α}, (∀ a, ∀ x ∈ xs, step' (f a) (g x) = f (step a x)) →
      (xs.map g).foldl step' (f a) = f (xs.foldl step a)
  | [], _, _ => rfl
  | x :: xs, a, h => by
    rw [List.map_cons, List.foldl_cons, List.foldl_cons, h a x List.mem_cons_self]
    exact foldl_map_hom fun a y hy => h a y (List.mem_cons_of_mem _ hy)

/-! ## Sets and tables -/

section
variable {α : Type u} {β : Type v} [DecidableEq α] [DecidableEq β] {f : α → β}
  (hf : Function.Injective f)
include hf

theorem pushNew_map (xs : List α) (x : α) : pushNew (xs.map f) (f x) = (pushNew xs x).map f := by
  simp only [pushNew, List.mem_map_of_injective hf]
  split
  · rfl
  · simp

end

namespace Table

variable {κ κ' : Type u} {ν ν' : Type v}

/-- The table with other keys and values. -/
def map (f : κ → κ') (g : ν → ν') (t : Table κ ν) : Table κ' ν' := ⟨t.rows.map (Prod.map f g)⟩

theorem keys_map (f : κ → κ') (g : ν → ν') (t : Table κ ν) : (t.map f g).keys = t.keys.map f := by
  simp [keys, map, Function.comp_def]

theorem values_map (f : κ → κ') (g : ν → ν') (t : Table κ ν) :
    (t.map f g).values = t.values.map g := by
  simp [values, map, Function.comp_def]

variable [DecidableEq κ] [DecidableEq κ'] {f : κ → κ'} (hf : Function.Injective f) (g : ν → ν')
include hf

theorem find?_map (k : κ) : ∀ rows : List (κ × ν),
    find? (f k) (rows.map (Prod.map f g)) = (find? k rows).map g
  | [] => rfl
  | (k', v) :: rows => by
    simp only [List.map_cons, Prod.map_apply, find?, hf.eq_iff, find?_map k rows]
    split <;> rfl

theorem get?_map (t : Table κ ν) (k : κ) : (t.map f g).get? (f k) = (t.get? k).map g :=
  find?_map hf g k t.rows

theorem contains_map (t : Table κ ν) (k : κ) : (t.map f g).contains (f k) = t.contains k := by
  rw [contains, get?_map hf, Option.isSome_map, contains]

theorem put_map (k : κ) (v : ν) : ∀ rows : List (κ × ν),
    put (f k) (g v) (rows.map (Prod.map f g)) = (put k v rows).map (Prod.map f g)
  | [] => rfl
  | (k', v') :: rows => by
    simp only [List.map_cons, Prod.map_apply, put, hf.eq_iff, put_map k v rows]
    split <;> rfl

theorem insert_map (t : Table κ ν) (k : κ) (v : ν) :
    (t.map f g).insert (f k) (g v) = (t.insert k v).map f g :=
  congrArg Table.mk (put_map hf g k v t.rows)

theorem insertNew_map (t : Table κ ν) (k : κ) (v : ν) :
    (t.map f g).insertNew (f k) (g v) = (t.insertNew k v).map f g := by
  unfold insertNew
  rw [contains_map hf]
  split
  · rfl
  · simp [map]

end Table

/-! ## What is linked -/

section
variable (ρ : Renumbering)

/-- A provider with its module renumbered. -/
def Provider.renumber : Provider → Provider
  | .internal module => .internal (ρ.module module)
  | .external specifier => .external specifier

/-- An import with its provider renumbered. -/
def ImportRow.renumber (row : ImportRow) : ImportRow := { row with source := row.source.renumber ρ }

/-- An export with its provider renumbered. -/
def ExportRow.renumber : ExportRow → ExportRow
  | .own binding => .own binding
  | .reexport source remote => .reexport (source.renumber ρ) remote

/-- A summary with its module renumbered. -/
def DeclSummary.renumber (d : DeclSummary) : DeclSummary := { d with module := ρ.module d.module }

/-- A resolution with its declaration or module renumbered. -/
def Resolution.renumber : Resolution → Resolution
  | .declaration id => .declaration (ρ.decl id)
  | .namespaceOf module => .namespaceOf (ρ.module module)
  | .external ref => .external ref
  | .unresolved => .unresolved

/-- The tables of a module with all modules and declarations renumbered. -/
def ModuleTables.renumber (s : ModuleTables) : ModuleTables where
  module := ρ.module s.module
  path := s.path
  symbols := s.symbols.map id (List.map ρ.decl)
  imports := s.imports.map id (ImportRow.renumber ρ)
  exports := s.exports.map id (ExportRow.renumber ρ)
  starExports := s.starExports.map (Provider.renumber ρ)
  exportAssignment := s.exportAssignment
  dependencies := s.dependencies.map ρ.module

/-- A lookup with its result renumbered. -/
def Linker.Lookup.renumber : Linker.Lookup → Linker.Lookup
  | .found r => .found (r.renumber ρ)
  | .notFound => .notFound
  | .cycle => .cycle

/-- A surface with its rows renumbered; the names stay. -/
def Surface.renumber (s : Surface) : Surface :=
  { s with entries := s.entries.map id (Resolution.renumber ρ) }

/-- A target with its declaration or module renumbered. -/
def Target.renumber : Target → Target
  | .declaration id => .declaration (ρ.decl id)
  | .namespaceOf module => .namespaceOf (ρ.module module)
  | .import_ ref => .import_ ref
  | .importType ref => .importType ref

/-- Edges with their targets renumbered; the names and the reports stay. -/
def Edges.renumber (e : Edges) : Edges := { e with targets := e.targets.map (Target.renumber ρ) }

theorem Resolution.renumber_injective : Function.Injective (Resolution.renumber ρ) := by
  intro r r' h
  cases r <;> cases r' <;> simp only [Resolution.renumber, reduceCtorEq, declaration.injEq,
    namespaceOf.injEq, external.injEq] at h
  · rw [ρ.decl_injective h]
  · rw [ρ.module_injective h]
  · rw [h]
  · rfl

theorem Resolution.renumber_eq_unresolved {r : Resolution} :
    r.renumber ρ = .unresolved ↔ r = .unresolved := by
  cases r <;> simp [Resolution.renumber]

end

end DeclBundle
