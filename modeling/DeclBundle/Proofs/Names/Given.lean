import DeclBundle.Proofs.Names.Choice

/-!
# Where final names come from

A name gets a number only where it is taken, and only reserved and final names are taken
(`Chosen`, `chosen_choose`). So a name without a number is the final name of something exactly if
something was given that name and it is not reserved (`Chosen.exists_name_iff`).
-/

namespace DeclBundle

theorem Scopes.mem_taken_of_isFree {s : Scopes} {name : String} (h : ¬ s.isFree name) :
    name ∈ s.taken := by
  simpa [isFree] using h

namespace FinalNames

/-- A final name is the given one, or a numbered form of it where the given one is taken. -/
def ComesFrom (n : FinalNames) (given name : String) : Prop :=
  name = given ∨ given ∈ n.scopes.taken ∧ ∃ k, name = suffixed given k

/-- What has been chosen: only reserved and final names are taken, and final names come from given
ones. -/
structure Chosen (reserved : List String) (n : FinalNames) : Prop where
  taken : ∀ {x}, x ∈ n.scopes.taken → x ∈ reserved ∨ ∃ o, n.nameOf? o = some x
  symbol : ∀ {m given x}, n.symbol? m given = some x → n.ComesFrom given x
  row : ∀ {id b}, n.topLevel.get? id = some b → n.ComesFrom b.given b.name

variable {c : NamingContext} {reserved : List String} {firstId : DeclId} {rs : List Request}
  {n n' : FinalNames}

theorem ComesFrom.mono (ht : ∀ {x}, x ∈ n.scopes.taken → x ∈ n'.scopes.taken)
    {given name : String} (h : n.ComesFrom given name) : n'.ComesFrom given name :=
  h.imp_right fun h => ⟨ht h.1, h.2⟩

theorem comesFrom_bind (s : Scopes) (given : String) (owner : Option ModuleId) :
    (s.bind given owner).1 = given
      ∨ given ∈ s.taken ∧ ∃ k, (s.bind given owner).1 = suffixed given k := by
  rw [Scopes.bind_fst, Scopes.choose]
  split
  · exact .inl rfl
  · rename_i hfree
    obtain ⟨k, hk, -⟩ := firstFree_unusedName s.taken given
    exact .inr ⟨Scopes.mem_taken_of_isFree hfree, k, hk⟩

/-! ## One owner more -/

/-- What is chosen when an owner gains its first name. -/
theorem Chosen.of_gains (h : n.Chosen reserved) {o : Owner} {x : String} (hg : Gains n n' o x)
    (ho : n.nameOf? o = none)
    (hs : ∀ {m given y}, n'.symbol? m given = some y →
      n.symbol? m given = some y ∨ n'.ComesFrom given y)
    (hr : ∀ {id b}, n'.topLevel.get? id = some b →
      n.topLevel.get? id = some b ∨ n'.ComesFrom b.given b.name) : n'.Chosen reserved where
  taken {y} hy := by
    rcases hg.taken.1 hy with hy | rfl
    · refine (h.taken hy).imp_right fun ⟨o', ho'⟩ => ⟨o', ?_⟩
      have hne : o' ≠ o := by
        rintro rfl
        rw [ho] at ho'
        cases ho'
      rw [hg.name, if_neg hne, ho']
    · exact .inr ⟨o, by rw [hg.name, if_pos rfl]⟩
  symbol hy := (hs hy).elim (fun hy => (h.symbol hy).mono fun ht => hg.taken.2 (.inl ht)) id
  row hb := (hr hb).elim (fun hb => (h.row hb).mono fun ht => hg.taken.2 (.inl ht)) id

theorem Chosen.addRow (hn : Sound c reserved firstId rs n) (h : n.Chosen reserved) {m : ModuleId}
    {id : DeclId} {given name : String} (hs : n.symbol? m given = some name) :
    (n.addRow id ⟨some m, given, name⟩).Chosen reserved where
  taken hx := by
    exact (h.taken hx).imp_right fun ⟨o, ho⟩ => ⟨o, (hn.nameOf?_addRow _ _ o).trans ho⟩
  symbol := h.symbol
  row hb := by
    simp only [FinalNames.addRow, Table.get?_insertNew] at hb
    split at hb
    · cases hb
      exact h.symbol hs
    · exact h.row hb

theorem Chosen.addSymbol (hn : Sound c reserved firstId rs n) (h : n.Chosen reserved)
    {m : ModuleId} {given : String} (hs : n.symbol? m given = none) :
    (n.addSymbol m given).Chosen reserved := by
  have hg := addSymbol_gains hn hs
  refine h.of_gains hg hs (fun {m' given' y} hy => ?_) fun hb => .inl hb
  simp only [symbol?, FinalNames.addSymbol, Table.get?_insertNew] at hy
  split at hy
  · rename_i he
    cases hy
    cases he.1
    exact .inr ((comesFrom_bind n.scopes given (some m)).imp_right
      (And.imp_left fun ht => hg.taken.2 (.inl ht)))
  · exact .inl hy

theorem Chosen.addFresh (hn : Sound c reserved firstId rs n) (h : n.Chosen reserved) {o : Owner}
    (module : Option ModuleId) (preferred : String) (terminal : DeclId)
    (ho : ∀ m given, o ≠ .symbol m given) (hi : n.idOf? o = none) :
    (n.addFresh module preferred terminal o).Chosen reserved := by
  have hg := addFresh_gains module preferred terminal hn ho
  refine h.of_gains hg (by rw [nameOf?_eq_bind ho, hi]; rfl) (fun hy => .inl ?_)
    fun {id b} hb => ?_
  · simp only [symbol?, FinalNames.addFresh, (record_frame _ _ _ _).2.1] at hy
    exact hy
  · rw [topLevel_addFresh module preferred terminal hn] at hb
    split at hb
    · cases hb
      exact .inr ((comesFrom_bind n.scopes _ module).imp_right
        (And.imp_left fun ht => hg.taken.2 (.inl ht)))
    · exact .inl hb

/-! ## All requests -/

theorem Chosen.serve (hn : Sound c reserved firstId rs n) (h : n.Chosen reserved) (r : Request) :
    (n.serve c r).Chosen reserved := by
  have hstep := serve_step c n r
  generalize n.serve c r = n' at hstep ⊢
  cases hstep with
  | known hs => exact h.addRow hn hs
  | symbol hs => exact (h.addSymbol hn hs).addRow (hn.addSymbol hs) (hn.symbol?_addSymbol hs)
  | fresh module name terminal ho _ hi _ => exact h.addFresh hn module name terminal ho hi
  | idle => exact h

theorem Chosen.foldl_serve : ∀ {rs' rs : List Request} {n : FinalNames},
    Sound c reserved firstId rs n → n.Chosen reserved →
      (∀ m id given, .symbol m id given ∈ rs' → id < firstId) →
        (rs'.foldl (FinalNames.serve c) n).Chosen reserved
  | [], _, _, _, h, _ => h
  | r :: rs', rs, n, hn, h, hr => by
    have hserved := hn.serve r fun m id given he => hr m id given (he ▸ List.mem_cons_self)
    rw [List.foldl_cons]
    exact Chosen.foldl_serve hserved (h.serve hn r) fun m id given hm =>
      hr m id given (List.mem_cons_of_mem _ hm)

theorem chosen_reserve (reserved : List String) (firstId : DeclId) :
    (reserve { nextId := firstId } reserved).Chosen reserved where
  taken {x} hx := by
    have hx := ((Scopes.taken_foldl_reserve reserved (s := {}) rfl).2 x).1 hx
    exact .inl (hx.resolve_left (by simp [Scopes.taken, Table.keys]))
  symbol hx := by simp [symbol?, reserve, Table.get?, Table.find?] at hx
  row hb := by simp [reserve, Table.get?, Table.find?] at hb

/-- The names that are chosen for modules whose identities are below `firstId`. -/
theorem chosen_choose {trees : List ModuleTree} (h : ∀ t ∈ trees,
      ∀ b ∈ topBindings t.module t.path t.statements, b.id < firstId) :
    (choose c reserved firstId trees).Chosen reserved := by
  rw [choose_eq]
  refine Chosen.foldl_serve (sound_reserve c reserved firstId) (chosen_reserve reserved firstId)
    fun m id given hm => ?_
  obtain ⟨t, ht, b, hb, -, rfl, -⟩ := (symbol_mem_all c).1 hm
  exact h t ht b hb

/-- The final name of an identity belongs to an owner. -/
theorem Sound.exists_owner (h : Sound c reserved firstId rs n) {id : DeclId} {x : String}
    (hx : n.get? id = some x) : ∃ o, n.nameOf? o = some x := by
  obtain ⟨b, hb, rfl⟩ := Option.map_eq_some_iff.1 hx
  rcases h.row hb with ⟨m, -, -, hs⟩ | ⟨o, ho⟩
  · exact ⟨.symbol m b.given, hs⟩
  · exact ⟨o, (nameOf?_of_idOf? ho).trans hx⟩

/-- A name without a number is the final name of something exactly if something was given that name
and it is not reserved. -/
theorem Chosen.exists_name_iff (hn : Sound c reserved firstId rs n) (h : n.Chosen reserved)
    (hrow : ∀ {m given x}, n.symbol? m given = some x → ∃ id, n.get? id = some x) {x : String}
    (hx : ∀ base k, x ≠ suffixed base k) : (∃ id, n.get? id = some x)
      ↔ x ∉ reserved ∧ ∃ id b, n.topLevel.get? id = some b ∧ b.given = x := by
  constructor
  · rintro ⟨id, hid⟩
    obtain ⟨b, hb, rfl⟩ := Option.map_eq_some_iff.1 hid
    obtain ⟨o, ho⟩ := hn.exists_owner hid
    exact ⟨hn.name_not_reserved ho, id, b, hb,
      ((h.row hb).resolve_right fun ⟨_, k, hk⟩ => hx _ k hk).symm⟩
  · rintro ⟨hr, id, b, hb, rfl⟩
    rcases h.row hb with he | ⟨ht, -⟩
    · exact ⟨id, by rw [get?, hb, Option.map_some, he]⟩
    · obtain ⟨o, ho⟩ := (h.taken ht).resolve_left hr
      cases o with
      | symbol m given => exact hrow ho
      | _ =>
        obtain ⟨id', -, hid⟩ := Option.bind_eq_some_iff.1 ho
        exact ⟨id', hid⟩

end FinalNames

end DeclBundle
