import DeclBundle.Proofs.Names.Choice

/-!
# Every binding has its row

Naming gives a top-level row to every identity that it gives out and to every identity that a
declaration at the top level binds, whatever the identities in the modules are. So no final name of
a top-level binding is looked for among the nested ones.
-/

namespace DeclBundle

namespace FinalNames

/-- Every binding without a declaration has a row under its identity. -/
def Rooted (n : FinalNames) : Prop := ∀ o id, n.idOf? o = some id → id ∈ n.topLevel.keys

variable {c : NamingContext} {n : FinalNames}

theorem Rooted.withScopes (h : n.Rooted) (scopes : Scopes) : { n with scopes }.Rooted :=
  fun o id ho => h o id (by cases o <;> exact ho)

theorem Rooted.addSymbol (h : n.Rooted) (m : ModuleId) (given : String) :
    (n.addSymbol m given).Rooted :=
  fun o id ho => h o id (by cases o <;> exact ho)

theorem Rooted.addRow (h : n.Rooted) (id : DeclId) (b : FinalName) : (n.addRow id b).Rooted :=
  fun o i ho => (addRow_extends n id b).topLevel (h o i (idOf?_addRow n id b o ▸ ho))

theorem Rooted.addFresh (h : n.Rooted) (module : Option ModuleId) (name : String)
    (terminal : DeclId) {o : Owner} (ho : ∀ m given, o ≠ .symbol m given) :
    (n.addFresh module name terminal o).Rooted := by
  intro o' i hi
  have ht : (n.addFresh module name terminal o).topLevel.keys
      = pushNew n.topLevel.keys n.nextId := by
    rw [FinalNames.addFresh, (record_frame terminal _ n.nextId o).1, nameFresh,
      Table.keys_insertNew]
  rw [ht, mem_pushNew]
  rw [idOf?_addFresh module name terminal ho] at hi
  split at hi
  · exact .inr (Option.some.inj hi).symm
  · exact .inl (h o' i hi)

theorem Rooted.serve (h : n.Rooted) (r : Request) : (n.serve c r).Rooted := by
  have hstep := serve_step c n r
  generalize n.serve c r = n' at hstep ⊢
  cases hstep with
  | known hn => exact h.addRow _ _
  | @symbol m id given hn => exact (h.addSymbol m given).addRow id _
  | fresh module name terminal ho hw hn hp => exact h.addFresh module name terminal ho
  | idle ho hs => exact h

/-- Naming gives every identity that it gives out a row. -/
theorem rooted_choose (c : NamingContext) (reserved : List String) (firstId : DeclId)
    (trees : List ModuleTree) : (choose c reserved firstId trees).Rooted := by
  rw [choose_eq]
  refine List.foldlRecOn (motive := Rooted) _ _ ?_ fun n h r _ => h.serve r
  intro o id ho
  cases o <;> cases ho

theorem mem_keys_serve {id : DeclId} (h : id ∈ n.topLevel.keys) (r : Request) :
    id ∈ (n.serve c r).topLevel.keys := by
  have hstep := serve_step c n r
  generalize n.serve c r = n' at hstep ⊢
  cases hstep with
  | known hn => exact (addRow_extends _ _ _).topLevel h
  | @symbol m id given hn => exact (addRow_extends (n.addSymbol m given) _ _).topLevel h
  | fresh module name terminal ho hw hn hp => exact (addFresh_extends _ _ _ _ _).topLevel h
  | idle ho hs => exact h

theorem mem_keys_serve_symbol (n : FinalNames) (m : ModuleId) (id : DeclId) (given : String) :
    id ∈ (n.serve c (.symbol m id given)).topLevel.keys := by
  rw [FinalNames.serve, nameSymbol, Table.keys_insertNew, mem_pushNew]
  exact .inr rfl

theorem mem_keys_foldl_serve {m : ModuleId} {id : DeclId} {given : String} :
    ∀ {rs : List Request} {n : FinalNames}, .symbol m id given ∈ rs →
      id ∈ (rs.foldl (FinalNames.serve c) n).topLevel.keys
  | r :: rs, n, h => by
    rw [List.foldl_cons]
    rcases List.mem_cons.1 h with rfl | h
    · exact List.foldlRecOn (motive := fun n : FinalNames => id ∈ n.topLevel.keys) rs _
        (mem_keys_serve_symbol n m id given) fun n h r _ => mem_keys_serve h r
    · exact mem_keys_foldl_serve h

/-- Naming gives every identity that a top-level declaration binds a row. -/
theorem mem_keys_choose (c : NamingContext) (reserved : List String) (firstId : DeclId)
    {trees : List ModuleTree} {t : ModuleTree} (ht : t ∈ trees) {d : Declaration}
    (hd : .declaration d ∈ t.statements) {id : DeclId} (hid : some id ∈ d.boundIds) :
    id ∈ (choose c reserved firstId trees).topLevel.keys := by
  rw [d.boundIds_eq] at hid
  obtain ⟨⟨_, a⟩, ha, rfl⟩ := List.mem_map.1 hid
  obtain ⟨b, hb, rfl, -⟩ := d.exists_topBinding t.module t.path ha
  rw [choose_eq]
  exact mem_keys_foldl_serve ((symbol_mem_all c).2
    ⟨t, ht, b, List.mem_flatMap.2 ⟨_, hd, hb⟩, rfl, rfl, rfl⟩)

end FinalNames

end DeclBundle
