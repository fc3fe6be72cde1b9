import DeclBundle.Proofs.Names.Choice
import DeclBundle.Proofs.Names.Entering

/-!
# The names of a module are taken

Every name that the choice of names gives to a binding or a symbol is taken at the top level from
then on (`FinalNames.covered_choose`), whatever the identities in the modules are. So what a module
refers to outside of its statements is taken around them (`FinalNames.Covered.site`).
-/

namespace DeclBundle

namespace FinalNames

/-- The reserved names are taken at the top level, outside of all scopes, and so is every name that
has been given. -/
structure Covered (reserved : List String) (n : FinalNames) : Prop where
  outside : n.scopes.inner = []
  reserved : ∀ x ∈ reserved, x ∈ n.scopes.taken
  topLevel : ∀ b ∈ n.topLevel.values, b.name ∈ n.scopes.taken
  symbols : ∀ x ∈ n.symbols.values, x ∈ n.scopes.taken

variable {reserved : List String} {n : FinalNames}

theorem Covered.addRow (h : n.Covered reserved) (id : DeclId) {b : FinalName}
    (hb : b.name ∈ n.scopes.taken) : (n.addRow id b).Covered reserved where
  outside := h.outside
  reserved := h.reserved
  topLevel r hr := by
    rcases Table.mem_values_insertNew hr with hr | rfl
    · exact h.topLevel r hr
    · exact hb
  symbols := h.symbols

theorem Covered.addSymbol (h : n.Covered reserved) (m : ModuleId) (given : String) :
    (n.addSymbol m given).Covered reserved where
  outside := (Scopes.bind_root h.outside given (some m)).1
  reserved x hx := Scopes.mem_taken_bind.2 (.inl (h.reserved x hx))
  topLevel b hb := Scopes.mem_taken_bind.2 (.inl (h.topLevel b hb))
  symbols x hx :=
    Scopes.mem_taken_bind.2 ((Table.mem_values_insertNew hx).imp_left (h.symbols x))

theorem Covered.nameFresh (h : n.Covered reserved) (module : Option ModuleId) (name : String) :
    (n.nameFresh module name).2.Covered reserved where
  outside := (Scopes.bind_root h.outside _ module).1
  reserved x hx := Scopes.mem_taken_bind.2 (.inl (h.reserved x hx))
  topLevel b hb := by
    refine Scopes.mem_taken_bind.2 ((Table.mem_values_insertNew hb).imp (h.topLevel b) ?_)
    rintro rfl
    rfl
  symbols x hx := Scopes.mem_taken_bind.2 (.inl (h.symbols x hx))

theorem Covered.record (h : n.Covered reserved) (id terminal : DeclId) (o : Owner) :
    (n.record id terminal o).Covered reserved := by
  obtain ⟨ht, hs, hsc, -⟩ := record_frame terminal n id o
  refine ⟨?_, ?_, ?_, ?_⟩
  · rw [hsc]
    exact h.outside
  · rw [hsc]
    exact h.reserved
  · rw [hsc, ht]
    exact h.topLevel
  · rw [hsc, hs]
    exact h.symbols

theorem Covered.serve (h : n.Covered reserved) (c : NamingContext) (r : Request) :
    (n.serve c r).Covered reserved := by
  have hstep := serve_step c n r
  generalize n.serve c r = n' at hstep ⊢
  cases hstep with
  | known hn => exact h.addRow _ (h.symbols _ (Table.mem_values_of_get? hn))
  | symbol hn => exact (h.addSymbol _ _).addRow _ (Scopes.mem_taken_bind.2 (.inr rfl))
  | fresh module name terminal ho hw hn hp => exact (h.nameFresh module name).record _ _ _
  | idle ho hs => exact h

theorem Covered.foldl_serve (c : NamingContext) : ∀ (rs : List Request) {n : FinalNames},
    n.Covered reserved → (rs.foldl (FinalNames.serve c) n).Covered reserved
  | [], _, h => h
  | r :: rs, _, h => Covered.foldl_serve c rs (h.serve c r)

theorem covered_choose (c : NamingContext) (reserved : List String) (firstId : DeclId)
    (trees : List ModuleTree) : (choose c reserved firstId trees).Covered reserved := by
  rw [choose_eq]
  obtain ⟨houtside, htaken⟩ := Scopes.taken_foldl_reserve reserved (s := {}) rfl
  exact Covered.foldl_serve c _ ⟨houtside, fun x hx => (htaken x).2 (.inr hx),
    fun _ hb => absurd hb List.not_mem_nil, fun _ hx => absurd hx List.not_mem_nil⟩

/-- The final names of symbols and of all other top-level bindings. -/
def topNames (n : FinalNames) : List String :=
  n.symbols.values ++ n.topLevel.values.map (·.name)

theorem Covered.mem_taken (h : n.Covered reserved) {x : String} (hx : x ∈ reserved ++ n.topNames) :
    x ∈ n.scopes.taken := by
  rw [topNames, List.mem_append, List.mem_append, List.mem_map] at hx
  rcases hx with hx | hx | ⟨b, hb, rfl⟩
  · exact h.reserved x hx
  · exact h.symbols x hx
  · exact h.topLevel b hb

theorem Covered.get? (h : n.Covered reserved) {id : DeclId} {x : String} (hx : n.get? id = some x) :
    x ∈ n.scopes.taken := by
  obtain ⟨b, hb, rfl⟩ := Option.map_eq_some_iff.1 hx
  exact h.topLevel b (Table.mem_values_of_get? hb)

theorem Covered.resolved? (h : n.Covered reserved) {l : Linker} {r : Resolution} {x : String}
    (hx : n.resolved? l r = some x) : x ∈ n.scopes.taken := by
  cases r with
  | declaration id =>
    obtain ⟨info, -, hs⟩ := Option.bind_eq_some_iff.1 hx
    exact h.symbols x (Table.mem_values_of_get? hs)
  | namespaceOf m =>
    obtain ⟨id, -, hid⟩ := Option.bind_eq_some_iff.1 hx
    exact h.get? hid
  | external ref =>
    obtain ⟨id, -, hid⟩ := Option.bind_eq_some_iff.1 hx
    exact h.get? hid
  | unresolved => cases hx

/-- Around the statements of a module all that they refer to is taken. -/
theorem Covered.site (h : n.Covered reserved) (l : Linker) (module : ModuleId) :
    (Naming.site l n module).Covered where
  mem_locals _ hl := absurd hl List.not_mem_nil
  outer := h.resolved?
  importRoot hx := by
    obtain ⟨target, -, hr⟩ := Option.bind_eq_some_iff.1 hx
    exact h.resolved? hr

end FinalNames

end DeclBundle
