import DeclBundle.Proofs.Names.Requests
import DeclBundle.Proofs.Names.Scopes

/-!
# Final names are different

A final name belongs to an owner: a symbol, a library binding, the namespace of a module or the
alias of an import. Every request gives at most one owner a name, which was free (`Gains`), and the
identities given out on the way are new. So after all requests different owners have different
names, none of them reserved, and every request has been served (`sound_choose`).
-/

namespace DeclBundle

/-- What a final name belongs to. -/
inductive Owner where
  | symbol (module : ModuleId) (given : String)
  | library (ref : LibraryBinding)
  | namespaceOf (module : ModuleId)
  | importAlias (module : ModuleId) (binding : String)
deriving DecidableEq, Repr

namespace FinalNames

/-- The identity given out for an owner that no declaration stands for. -/
def idOf? (n : FinalNames) : Owner → Option DeclId
  | .symbol .. => none
  | .library ref => n.externals.get? ref
  | .namespaceOf module => n.namespaces.get? module
  | .importAlias module binding => (n.aliases.get? (module, binding)).map (·.id)

/-- The name that an owner has been given. -/
def nameOf? (n : FinalNames) : Owner → Option String
  | .symbol module given => n.symbol? module given
  | o => (n.idOf? o).bind n.get?

namespace Request

/-- What the name that a request asks for belongs to. -/
def owner : Request → Owner
  | .symbol module _ given => .symbol module given
  | .library _ ref _ => .library ref
  | .namespaceOf _ target _ => .namespaceOf target
  | .importAlias module binding _ => .importAlias module binding

/-- Whether what a request asks for is to have a name: a library binding and a namespace are if
they are reached. -/
def wanted (c : NamingContext) : Request → Bool
  | .library _ ref _ => ref ∈ c.reach.imports
  | .namespaceOf _ target _ => target ∈ c.reach.namespaces
  | .symbol .. | .importAlias .. => true

/-- The name that a request asks for; `ns` stands in for an empty one where there is no
declaration. -/
def preferred : Request → String
  | .symbol _ _ given => given
  | .library _ _ name | .namespaceOf _ _ name | .importAlias _ name _ =>
    if name = "" then "ns" else name

end Request

/-- Whether a request has been served: what it asks for has a row, if it is reached. -/
def Served (c : NamingContext) (n : FinalNames) : Request → Prop
  | .symbol module id given => id ∈ n.topLevel.keys ∧ (module, given) ∈ n.symbols.keys
  | .library _ ref _ => ref ∈ c.reach.imports → ref ∈ n.externals.keys
  | .namespaceOf _ target _ => target ∈ c.reach.namespaces → target ∈ n.namespaces.keys
  | .importAlias module binding _ => (module, binding) ∈ n.aliases.keys

/-- What the final names are like after the requests `rs`, with identities given out from `firstId`
on. -/
structure Sound (c : NamingContext) (reserved : List String) (firstId : DeclId)
    (rs : List Request) (n : FinalNames) : Prop where
  outside : n.scopes.inner = []
  reserved_taken : ∀ {x}, x ∈ reserved → x ∈ n.scopes.taken
  name_taken : ∀ {o x}, n.nameOf? o = some x → x ∈ n.scopes.taken
  name_not_reserved : ∀ {o x}, n.nameOf? o = some x → x ∉ reserved
  name_inj : ∀ {o o' x}, n.nameOf? o = some x → n.nameOf? o' = some x → o = o'
  first_le : firstId ≤ n.nextId
  key_lt : ∀ {id}, id ∈ n.topLevel.keys → id < n.nextId
  id_ge : ∀ {o id}, n.idOf? o = some id → firstId ≤ id
  id_key : ∀ {o id}, n.idOf? o = some id → id ∈ n.topLevel.keys
  id_inj : ∀ {o o' id}, n.idOf? o = some id → n.idOf? o' = some id → o = o'
  row : ∀ {id b}, n.topLevel.get? id = some b →
    (∃ m, .symbol m id b.given ∈ rs ∧ b.module = some m ∧ n.symbol? m b.given = some b.name)
      ∨ ∃ o, n.idOf? o = some id
  served : ∀ {r}, r ∈ rs → n.Served c r
  externals_nodup : n.externals.keys.Nodup
  namespaces_nodup : n.namespaces.keys.Nodup
  aliases_nodup : n.aliases.keys.Nodup

/-- One owner more has a name, which was free. -/
structure Gains (n n' : FinalNames) (o : Owner) (x : String) : Prop where
  outside : n'.scopes.inner = []
  free : x ∉ n.scopes.taken
  taken : ∀ {y}, y ∈ n'.scopes.taken ↔ y ∈ n.scopes.taken ∨ y = x
  name : ∀ o', n'.nameOf? o' = if o' = o then some x else n.nameOf? o'

/-- The rows of `n` are still there in `n'`. -/
structure Extends (n n' : FinalNames) : Prop where
  topLevel : ∀ {id}, id ∈ n.topLevel.keys → id ∈ n'.topLevel.keys
  symbols : ∀ {k}, k ∈ n.symbols.keys → k ∈ n'.symbols.keys
  externals : ∀ {ref}, ref ∈ n.externals.keys → ref ∈ n'.externals.keys
  namespaces : ∀ {m}, m ∈ n.namespaces.keys → m ∈ n'.namespaces.keys
  aliases : ∀ {k}, k ∈ n.aliases.keys → k ∈ n'.aliases.keys

variable {c : NamingContext} {reserved : List String} {firstId : DeclId} {rs : List Request}
  {n n' : FinalNames}

theorem Extends.refl (n : FinalNames) : Extends n n := ⟨id, id, id, id, id⟩

theorem Served.mono (h : Extends n n') : ∀ {r : Request}, n.Served c r → n'.Served c r
  | .symbol .., hr => ⟨h.topLevel hr.1, h.symbols hr.2⟩
  | .library .., hr => fun hm => h.externals (hr hm)
  | .namespaceOf .., hr => fun hm => h.namespaces (hr hm)
  | .importAlias .., hr => h.aliases hr

/-! ## Names -/

/-- What `Sound` says of names alone is kept when one owner gains a free name. -/
theorem Sound.names_of_gains (h : Sound c reserved firstId rs n) {o : Owner} {x : String}
    (hg : Gains n n' o x) :
    (∀ {y}, y ∈ reserved → y ∈ n'.scopes.taken)
      ∧ (∀ {o' y}, n'.nameOf? o' = some y → y ∈ n'.scopes.taken)
      ∧ (∀ {o' y}, n'.nameOf? o' = some y → y ∉ reserved)
      ∧ ∀ {o₁ o₂ y}, n'.nameOf? o₁ = some y → n'.nameOf? o₂ = some y → o₁ = o₂ := by
  have hx : ∀ {o'}, n.nameOf? o' ≠ some x := fun h' => hg.free (h.name_taken h')
  refine ⟨fun hy => hg.taken.2 (.inl (h.reserved_taken hy)), fun {o' y} hy => ?_,
    fun {o' y} hy => ?_, fun {o₁ o₂ y} h₁ h₂ => ?_⟩
  · rw [hg.name] at hy
    split at hy
    · exact hg.taken.2 (.inr (Option.some.inj hy).symm)
    · exact hg.taken.2 (.inl (h.name_taken hy))
  · rw [hg.name] at hy
    split at hy
    · rw [← Option.some.inj hy]
      exact fun hr => hg.free (h.reserved_taken hr)
    · exact h.name_not_reserved hy
  · rw [hg.name] at h₁ h₂
    split at h₁
    · rename_i ho₁
      rw [← Option.some.inj h₁] at h₂
      split at h₂
      · rename_i ho₂
        rw [ho₁, ho₂]
      · exact absurd h₂ hx
    · split at h₂
      · rw [← Option.some.inj h₂] at h₁
        exact absurd h₁ hx
      · exact h.name_inj h₁ h₂

theorem nameOf?_eq_bind {o : Owner} (ho : ∀ m given, o ≠ .symbol m given) :
    n.nameOf? o = (n.idOf? o).bind n.get? := by
  cases o with
  | symbol m given => exact absurd rfl (ho m given)
  | _ => rfl

theorem nameOf?_of_idOf? {o : Owner} {id : DeclId} (h : n.idOf? o = some id) :
    n.nameOf? o = n.get? id := by
  have ho : ∀ m given, o ≠ .symbol m given := by
    rintro m given rfl
    cases h
  rw [nameOf?_eq_bind ho, h, Option.bind_some]

/-- The name of an owner is that of its symbol or of its identity. -/
theorem nameOf?_congr {o : Owner} (hs : ∀ m given, o = .symbol m given →
      n'.symbol? m given = n.symbol? m given) (hi : n'.idOf? o = n.idOf? o)
    (hg : ∀ k, n.idOf? o = some k → n'.get? k = n.get? k) : n'.nameOf? o = n.nameOf? o := by
  by_cases ho : ∃ m given, o = .symbol m given
  · obtain ⟨m, given, rfl⟩ := ho
    exact hs m given rfl
  · have ho' : ∀ m given, o ≠ .symbol m given := fun m given he => ho ⟨m, given, he⟩
    rw [nameOf?_eq_bind ho', nameOf?_eq_bind ho', hi]
    cases hk : n.idOf? o with
    | none => rfl
    | some k => exact hg k hk

/-! ## Symbols -/

/-- The final names with one more row for a declaration. -/
def addRow (n : FinalNames) (id : DeclId) (b : FinalName) : FinalNames :=
  { n with topLevel := n.topLevel.insertNew id b }

/-- The final names with a name for a symbol that has none. -/
def addSymbol (n : FinalNames) (module : ModuleId) (given : String) : FinalNames :=
  { n with
    scopes := (n.scopes.bind given (some module)).2
    symbols := n.symbols.insertNew (module, given) (n.scopes.bind given (some module)).1 }

theorem get?_addRow_of_mem {id k : DeclId} {b : FinalName} (hk : k ∈ n.topLevel.keys) :
    (n.addRow id b).topLevel.get? k = n.topLevel.get? k := by
  simp only [addRow, Table.get?_insertNew]
  split
  · rename_i h
    rw [h.1, Table.get?_eq_none] at h
    exact absurd hk h.2
  · rfl

theorem addRow_extends (n : FinalNames) (id : DeclId) (b : FinalName) :
    Extends n (n.addRow id b) := by
  refine ⟨fun hk => ?_, fun hk => hk, fun hk => hk, fun hk => hk, fun hk => hk⟩
  simp only [addRow, Table.keys_insertNew, mem_pushNew]
  exact .inl hk

theorem addSymbol_extends (n : FinalNames) (module : ModuleId) (given : String) :
    Extends n (n.addSymbol module given) := by
  refine ⟨fun hk => hk, fun hk => ?_, fun hk => hk, fun hk => hk, fun hk => hk⟩
  simp only [addSymbol, Table.keys_insertNew, mem_pushNew]
  exact .inl hk

theorem idOf?_addRow (n : FinalNames) (id : DeclId) (b : FinalName) (o : Owner) :
    (n.addRow id b).idOf? o = n.idOf? o := by
  cases o <;> rfl

/-- A row for a declaration changes no name. -/
theorem Sound.nameOf?_addRow (h : Sound c reserved firstId rs n) (id : DeclId) (b : FinalName)
    (o : Owner) : (n.addRow id b).nameOf? o = n.nameOf? o := by
  refine nameOf?_congr (fun _ _ _ => rfl) (n.idOf?_addRow id b o) fun k hk => ?_
  simp only [get?, get?_addRow_of_mem (h.id_key hk)]

/-- A row for a declaration of a symbol that has its name. -/
theorem Sound.addRow (h : Sound c reserved firstId rs n) {m : ModuleId} {id : DeclId}
    {given name : String} (hn : n.symbol? m given = some name) (hid : id < firstId) :
    Sound c reserved firstId (rs ++ [.symbol m id given])
      (n.addRow id ⟨some m, given, name⟩) := by
  have he := n.addRow_extends id ⟨some m, given, name⟩
  have hi := n.idOf?_addRow id ⟨some m, given, name⟩
  have hname := h.nameOf?_addRow id ⟨some m, given, name⟩
  have hkeys : ∀ {k}, k ∈ (n.addRow id ⟨some m, given, name⟩).topLevel.keys
      ↔ k ∈ n.topLevel.keys ∨ k = id := by
    simp [FinalNames.addRow, Table.keys_insertNew]
  constructor
  · exact h.outside
  · exact h.reserved_taken
  · exact fun hx => h.name_taken (hname _ ▸ hx)
  · exact fun hx => h.name_not_reserved (hname _ ▸ hx)
  · exact fun hx hx' => h.name_inj (hname _ ▸ hx) (hname _ ▸ hx')
  · exact h.first_le
  · intro k hk
    rcases hkeys.1 hk with hk | rfl
    · exact h.key_lt hk
    · exact Nat.lt_of_lt_of_le hid h.first_le
  · exact fun ho => h.id_ge (hi _ ▸ ho)
  · exact fun ho => he.topLevel (h.id_key (hi _ ▸ ho))
  · exact fun ho ho' => h.id_inj (hi _ ▸ ho) (hi _ ▸ ho')
  · intro k b hb
    simp only [FinalNames.addRow, Table.get?_insertNew] at hb
    split at hb
    · rename_i hk
      cases hb
      exact .inl ⟨m, by simp [hk.1], rfl, hn⟩
    · rcases h.row hb with ⟨m', hr, hm, hs⟩ | ⟨o, ho⟩
      · exact .inl ⟨m', List.mem_append_left _ hr, hm, hs⟩
      · exact .inr ⟨o, (hi o).trans ho⟩
  · intro r hr
    rcases List.mem_append.1 hr with hr | hr
    · exact (h.served hr).mono he
    · rw [List.mem_singleton.1 hr]
      exact ⟨hkeys.2 (.inr rfl), Table.mem_keys_of_get? hn⟩
  · exact h.externals_nodup
  · exact h.namespaces_nodup
  · exact h.aliases_nodup

theorem addSymbol_gains (h : Sound c reserved firstId rs n) {m : ModuleId} {given : String}
    (hn : n.symbol? m given = none) :
    Gains n (n.addSymbol m given) (.symbol m given) (n.scopes.bind given (some m)).1 where
  outside := (Scopes.bind_root h.outside given (some m)).1
  free := n.scopes.bind_not_mem given (some m)
  taken := Scopes.mem_taken_bind
  name := by
    intro o
    cases o with
    | symbol m' given' =>
      have hg : n.symbols.get? (m, given) = none := hn
      simp only [nameOf?, symbol?, addSymbol, Table.get?_insertNew, hg, and_true,
        Owner.symbol.injEq, Prod.mk.injEq]
      by_cases he : m = m' ∧ given = given'
      · simp [he.1, he.2]
      · rw [if_neg he, if_neg fun h => he ⟨h.1.symm, h.2.symm⟩]
    | _ => rfl

theorem Sound.addSymbol (h : Sound c reserved firstId rs n) {m : ModuleId} {given : String}
    (hn : n.symbol? m given = none) : Sound c reserved firstId rs (n.addSymbol m given) := by
  have hg := addSymbol_gains h hn
  obtain ⟨h1, h2, h3, h4⟩ := h.names_of_gains hg
  have hi : ∀ o, (n.addSymbol m given).idOf? o = n.idOf? o := by
    intro o
    cases o <;> rfl
  constructor
  · exact hg.outside
  · exact h1
  · exact h2
  · exact h3
  · exact h4
  · exact h.first_le
  · exact h.key_lt
  · exact fun ho => h.id_ge (hi _ ▸ ho)
  · exact fun ho => h.id_key (hi _ ▸ ho)
  · exact fun ho ho' => h.id_inj (hi _ ▸ ho) (hi _ ▸ ho')
  · intro k b hb
    rcases h.row hb with ⟨m', hr, hm, hs⟩ | ⟨o, ho⟩
    · refine .inl ⟨m', hr, hm, ?_⟩
      have hne : Owner.symbol m' b.given ≠ .symbol m given := by
        intro he
        cases he
        rw [hn] at hs
        cases hs
      have := hg.name (.symbol m' b.given)
      rw [if_neg hne] at this
      exact this.trans hs
    · exact .inr ⟨o, (hi o).trans ho⟩
  · exact fun hr => (h.served hr).mono (n.addSymbol_extends m given)
  · exact h.externals_nodup
  · exact h.namespaces_nodup
  · exact h.aliases_nodup

/-! ## Owners that no declaration stands for -/

/-- The final names with an identity for an owner; `terminal` is where an alias ends. -/
def record (n : FinalNames) (id terminal : DeclId) : Owner → FinalNames
  | .symbol .. => n
  | .library ref => { n with externals := n.externals.insert ref id }
  | .namespaceOf module => { n with namespaces := n.namespaces.insert module id }
  | .importAlias module binding =>
    { n with aliases := n.aliases.insert (module, binding) ⟨id, terminal⟩ }

/-- The final names with a name and an identity for an owner that has none. -/
def addFresh (n : FinalNames) (module : Option ModuleId) (preferred : String) (terminal : DeclId)
    (o : Owner) : FinalNames :=
  (n.nameFresh module preferred).2.record n.nextId terminal o

variable {o : Owner} (module : Option ModuleId) (preferred : String) (terminal : DeclId)

theorem idOf?_record {id : DeclId} (ho : ∀ m given, o ≠ .symbol m given) (o' : Owner) :
    (n.record id terminal o).idOf? o' = if o' = o then some id else n.idOf? o' := by
  cases o with
  | symbol m given => exact absurd rfl (ho m given)
  | library ref =>
    cases o' <;> simp [record, idOf?, Table.get?_insert, eq_comm]
  | namespaceOf m =>
    cases o' <;> simp [record, idOf?, Table.get?_insert, eq_comm]
  | importAlias m b =>
    cases o' with
    | importAlias m' b' =>
      simp only [record, idOf?, Table.get?_insert, Owner.importAlias.injEq, Prod.mk.injEq]
      by_cases he : m = m' ∧ b = b'
      · simp [he.1, he.2]
      · rw [if_neg he, if_neg fun h => he ⟨h.1.symm, h.2.symm⟩]
    | _ => simp [record, idOf?]

/-- Recording an identity touches nothing but the table of its owner. -/
theorem record_frame (n : FinalNames) (id : DeclId) (o : Owner) :
    (n.record id terminal o).topLevel = n.topLevel
      ∧ (n.record id terminal o).symbols = n.symbols
      ∧ (n.record id terminal o).scopes = n.scopes
      ∧ (n.record id terminal o).nextId = n.nextId := by
  cases o <;> exact ⟨rfl, rfl, rfl, rfl⟩

theorem record_extends (n : FinalNames) (id : DeclId) (o : Owner) :
    Extends n (n.record id terminal o) := by
  cases o with
  | symbol m given => exact .refl n
  | library ref =>
    refine ⟨fun hk => hk, fun hk => hk, fun hk => ?_, fun hk => hk, fun hk => hk⟩
    simp only [record, Table.keys_insert, mem_pushNew]
    exact .inl hk
  | namespaceOf m =>
    refine ⟨fun hk => hk, fun hk => hk, fun hk => hk, fun hk => ?_, fun hk => hk⟩
    simp only [record, Table.keys_insert, mem_pushNew]
    exact .inl hk
  | importAlias m b =>
    refine ⟨fun hk => hk, fun hk => hk, fun hk => hk, fun hk => hk, fun hk => ?_⟩
    simp only [record, Table.keys_insert, mem_pushNew]
    exact .inl hk

theorem nodup_record (id : DeclId) (h1 : n.externals.keys.Nodup) (h2 : n.namespaces.keys.Nodup)
    (h3 : n.aliases.keys.Nodup) (o : Owner) :
    (n.record id terminal o).externals.keys.Nodup ∧ (n.record id terminal o).namespaces.keys.Nodup
      ∧ (n.record id terminal o).aliases.keys.Nodup := by
  cases o with
  | symbol m given => exact ⟨h1, h2, h3⟩
  | library ref => exact ⟨Table.nodup_keys_insert h1 ref id, h2, h3⟩
  | namespaceOf m => exact ⟨h1, Table.nodup_keys_insert h2 m id, h3⟩
  | importAlias m b => exact ⟨h1, h2, Table.nodup_keys_insert h3 (m, b) ⟨id, terminal⟩⟩

/-- The name that a module gets for a preferred one, or for `ns` where nothing is preferred. -/
def freshName (n : FinalNames) (module : Option ModuleId) (preferred : String) : String :=
  (n.scopes.bind (if preferred = "" then "ns" else preferred) module).1

theorem topLevel_addFresh (h : Sound c reserved firstId rs n) (k : DeclId) :
    (n.addFresh module preferred terminal o).topLevel.get? k
      = if n.nextId = k
        then some ⟨module, if preferred = "" then "ns" else preferred, n.freshName module preferred⟩
        else n.topLevel.get? k := by
  have hnew : n.topLevel.get? n.nextId = none :=
    Table.get?_eq_none.2 fun hk => Nat.lt_irrefl _ (h.key_lt hk)
  rw [addFresh, (record_frame _ _ _ _).1]
  simp only [nameFresh, Table.get?_insertNew, hnew, and_true]
  rfl

theorem idOf?_addFresh (ho : ∀ m given, o ≠ .symbol m given) (o' : Owner) :
    (n.addFresh module preferred terminal o).idOf? o'
      = if o' = o then some n.nextId else n.idOf? o' := by
  rw [addFresh, idOf?_record terminal ho]
  split
  · rfl
  · cases o' <;> rfl

theorem addFresh_gains (h : Sound c reserved firstId rs n) (ho : ∀ m given, o ≠ .symbol m given) :
    Gains n (n.addFresh module preferred terminal o) o (n.freshName module preferred) := by
  have hsc : (n.addFresh module preferred terminal o).scopes
      = (n.scopes.bind (if preferred = "" then "ns" else preferred) module).2 :=
    (record_frame _ _ _ _).2.2.1
  refine ⟨?_, n.scopes.bind_not_mem _ module, fun {y} => ?_, fun o' => ?_⟩
  · rw [hsc]
    exact (Scopes.bind_root h.outside _ module).1
  · rw [hsc]
    exact Scopes.mem_taken_bind
  · split
    · rename_i he
      rw [he, nameOf?_eq_bind ho, idOf?_addFresh module preferred terminal ho, if_pos rfl]
      simp only [Option.bind_some, get?, topLevel_addFresh module preferred terminal h, if_pos,
        Option.map_some]
    · rename_i he
      have hi : (n.addFresh module preferred terminal o).idOf? o' = _ :=
        idOf?_addFresh module preferred terminal ho o'
      rw [if_neg he] at hi
      refine nameOf?_congr (fun m given _ => ?_) hi fun k hk => ?_
      · simp only [symbol?, addFresh, (record_frame _ _ _ _).2.1]
        rfl
      · have hlt := h.key_lt (h.id_key hk)
        simp only [get?, topLevel_addFresh module preferred terminal h, if_neg (Nat.ne_of_gt hlt)]

theorem addFresh_extends (n : FinalNames) (o : Owner) :
    Extends n (n.addFresh module preferred terminal o) := by
  have h := record_extends terminal (n.nameFresh module preferred).2 n.nextId o
  refine ⟨fun hk => h.topLevel ?_, h.symbols, h.externals, h.namespaces, h.aliases⟩
  simp only [nameFresh, Table.keys_insertNew, mem_pushNew]
  exact .inl hk

/-- A name and an identity for an owner that has none. -/
theorem Sound.addFresh (h : Sound c reserved firstId rs n) (ho : ∀ m given, o ≠ .symbol m given)
    (hn : n.idOf? o = none) :
    Sound c reserved firstId rs (n.addFresh module preferred terminal o) := by
  have hg := addFresh_gains module preferred terminal h ho
  have he := addFresh_extends module preferred terminal n o
  obtain ⟨h1, h2, h3, h4⟩ := h.names_of_gains hg
  have hi := idOf?_addFresh (n := n) module preferred terminal ho
  have hnext : (n.addFresh module preferred terminal o).nextId = n.nextId + 1 :=
    (record_frame _ _ _ _).2.2.2
  have hold : ∀ {o' k}, n.idOf? o' = some k → k ≠ n.nextId := fun hk =>
    Nat.ne_of_lt (h.key_lt (h.id_key hk))
  have hkey : ∀ {k}, k ∈ (n.addFresh module preferred terminal o).topLevel.keys
      ↔ k ∈ n.topLevel.keys ∨ k = n.nextId := by
    intro k
    rw [Table.mem_keys, Table.mem_keys, topLevel_addFresh module preferred terminal h]
    by_cases hk : n.nextId = k
    · simp [hk]
    · simp [hk, Ne.symm hk]
  have hnodup := nodup_record (n := (n.nameFresh module preferred).2) terminal n.nextId
    h.externals_nodup h.namespaces_nodup h.aliases_nodup o
  constructor
  · exact hg.outside
  · exact h1
  · exact h2
  · exact h3
  · exact h4
  · rw [hnext]
    exact Nat.le_succ_of_le h.first_le
  · intro k hk
    rw [hnext]
    rcases hkey.1 hk with hk | rfl
    · exact Nat.lt_succ_of_lt (h.key_lt hk)
    · exact Nat.lt_succ_self _
  · intro o' k hk
    rw [hi] at hk
    split at hk
    · rw [← Option.some.inj hk]
      exact h.first_le
    · exact h.id_ge hk
  · intro o' k hk
    rw [hi] at hk
    split at hk
    · exact hkey.2 (.inr (Option.some.inj hk).symm)
    · exact hkey.2 (.inl (h.id_key hk))
  · intro o₁ o₂ k hk₁ hk₂
    rw [hi] at hk₁ hk₂
    split at hk₁
    · rename_i ho₁
      split at hk₂
      · rename_i ho₂
        rw [ho₁, ho₂]
      · exact absurd (Option.some.inj hk₁).symm (hold hk₂)
    · split at hk₂
      · exact absurd (Option.some.inj hk₂).symm (hold hk₁)
      · exact h.id_inj hk₁ hk₂
  · intro k b hb
    rw [topLevel_addFresh module preferred terminal h] at hb
    split at hb
    · rename_i hk
      exact .inr ⟨o, by rw [hi, if_pos rfl, hk]⟩
    · rcases h.row hb with ⟨m, hr, hm, hs⟩ | ⟨o', ho'⟩
      · refine .inl ⟨m, hr, hm, ?_⟩
        simp only [symbol?, FinalNames.addFresh, (record_frame _ _ _ _).2.1]
        exact hs
      · have hne : o' ≠ o := by
          rintro rfl
          rw [hn] at ho'
          cases ho'
        exact .inr ⟨o', by rw [hi, if_neg hne, ho']⟩
  · exact fun hr => (h.served hr).mono he
  · exact hnodup.1
  · exact hnodup.2.1
  · exact hnodup.2.2

/-- A request that is served already, or that asks for nothing. -/
theorem Sound.append (h : Sound c reserved firstId rs n) {r : Request} (hr : n.Served c r) :
    Sound c reserved firstId (rs ++ [r]) n := by
  refine { h with row := fun hb => ?_, served := fun hr' => ?_ }
  · rcases h.row hb with ⟨m, hm, h'⟩ | h'
    · exact .inl ⟨m, List.mem_append_left _ hm, h'⟩
    · exact .inr h'
  · rcases List.mem_append.1 hr' with hr' | hr'
    · exact h.served hr'
    · exact List.mem_singleton.1 hr' ▸ hr

/-! ## One request -/

/-- What serving a request does. -/
inductive Step (c : NamingContext) (n : FinalNames) : Request → FinalNames → Prop where
  /-- A declaration of a symbol that has a name comes under that name. -/
  | known {m : ModuleId} {id : DeclId} {given name : String} (hn : n.symbol? m given = some name) :
    Step c n (.symbol m id given) (n.addRow id ⟨some m, given, name⟩)
  /-- The first declaration of a symbol gives it its name. -/
  | symbol {m : ModuleId} {id : DeclId} {given : String} (hn : n.symbol? m given = none) :
    Step c n (.symbol m id given)
      ((n.addSymbol m given).addRow id ⟨some m, given, (n.scopes.bind given (some m)).1⟩)
  /-- What has no declaration is named when it is wanted and has no identity. -/
  | fresh {r : Request} (module : Option ModuleId) (name : String) (terminal : DeclId)
      (ho : ∀ m given, r.owner ≠ .symbol m given) (hw : r.wanted c = true)
      (hn : n.idOf? r.owner = none) (hp : r.preferred = if name = "" then "ns" else name) :
    Step c n r (n.addFresh module name terminal r.owner)
  | idle {r : Request} (ho : ∀ m given, r.owner ≠ .symbol m given)
      (hs : r.wanted c = true → ∃ id, n.idOf? r.owner = some id) : Step c n r n

theorem serve_step (c : NamingContext) (n : FinalNames) (r : Request) : Step c n r (n.serve c r) := by
  cases r with
  | symbol m id given =>
    cases hn : n.symbol? m given with
    | some name =>
      have he : n.nameSymbol m id given = n.addRow id ⟨some m, given, name⟩ := by
        simp only [FinalNames.nameSymbol, hn]
        rfl
      rw [FinalNames.serve, he]
      exact .known hn
    | none =>
      have he : n.nameSymbol m id given = (n.addSymbol m given).addRow id
          ⟨some m, given, (n.scopes.bind given (some m)).1⟩ := by
        simp only [FinalNames.nameSymbol, hn]
        rfl
      rw [FinalNames.serve, he]
      exact .symbol hn
  | library module ref name =>
    simp only [FinalNames.serve, nameLibraryBinding]
    split
    · rename_i hc
      exact .fresh (r := .library module ref name) module name 0 (by simp [Request.owner])
        (by simpa [Request.wanted] using hc.1)
        (Table.get?_eq_none.2 fun hk => hc.2 (Table.contains_iff.2 hk)) rfl
    · rename_i hc
      refine .idle (by simp [Request.owner]) fun hw => ?_
      by_cases hk : n.externals.contains ref
      · exact Table.mem_keys.1 (Table.contains_iff.1 hk)
      · exact absurd ⟨by simpa [Request.wanted] using hw, hk⟩ hc
  | namespaceOf module target name =>
    simp only [FinalNames.serve, nameNamespace]
    split
    · rename_i hc
      exact .fresh (r := .namespaceOf module target name) module name 0 (by simp [Request.owner])
        (by simpa [Request.wanted] using hc.1)
        (Table.get?_eq_none.2 fun hk => hc.2 (Table.contains_iff.2 hk)) rfl
    · rename_i hc
      refine .idle (by simp [Request.owner]) fun hw => ?_
      by_cases hk : n.namespaces.contains target
      · exact Table.mem_keys.1 (Table.contains_iff.1 hk)
      · exact absurd ⟨by simpa [Request.wanted] using hw, hk⟩ hc
  | importAlias module binding terminal =>
    simp only [FinalNames.serve, nameAlias]
    split
    · rename_i hc
      obtain ⟨a, ha⟩ := Table.mem_keys.1 (Table.contains_iff.1 hc)
      exact .idle (by simp [Request.owner]) fun _ => ⟨a.id, by simp [Request.owner, idOf?, ha]⟩
    · rename_i hc
      have hnone : n.aliases.get? (module, binding) = none :=
        Table.get?_eq_none.2 fun hk => hc (Table.contains_iff.2 hk)
      exact .fresh (r := .importAlias module binding terminal) (some module) binding terminal
        (by simp [Request.owner]) rfl (by simp [Request.owner, idOf?, hnone]) rfl

theorem served_iff {r : Request} (ho : ∀ m given, r.owner ≠ .symbol m given) :
    n.Served c r ↔ (r.wanted c = true → ∃ id, n.idOf? r.owner = some id) := by
  cases r with
  | symbol m id given => exact absurd rfl (ho m given)
  | importAlias m binding terminal =>
    simp [Served, Request.wanted, Request.owner, idOf?, Table.mem_keys]
  | _ => simp [Served, Request.wanted, Request.owner, idOf?, Table.mem_keys]

/-- A symbol that has just been named has its name. -/
theorem Sound.symbol?_addSymbol (h : Sound c reserved firstId rs n) {m : ModuleId} {given : String}
    (hn : n.symbol? m given = none) :
    (n.addSymbol m given).symbol? m given = some (n.scopes.bind given (some m)).1 := by
  have hname := (addSymbol_gains h hn).name (.symbol m given)
  rwa [if_pos rfl] at hname

/-- An identity is given out for what a request wants to have a name. -/
theorem idOf?_serve {r : Request} {o : Owner} {id : DeclId}
    (h : (n.serve c r).idOf? o = some id) :
    n.idOf? o = some id ∨ r.owner = o ∧ r.wanted c = true := by
  have hstep := serve_step c n r
  generalize n.serve c r = n' at hstep h
  cases hstep with
  | known => exact .inl ((n.idOf?_addRow _ _ o).symm.trans h)
  | symbol =>
    refine .inl ?_
    rw [idOf?_addRow] at h
    cases o <;> exact h
  | fresh module name terminal ho hw =>
    rw [idOf?_addFresh module name terminal ho] at h
    split at h
    · rename_i he
      exact .inr ⟨he.symm, hw⟩
    · exact .inl h
  | idle => exact .inl h

/-- Every identity from `firstId` on up to the next one was given out to an owner. -/
def Dense (firstId : DeclId) (n : FinalNames) : Prop :=
  ∀ id, firstId ≤ id → id < n.nextId → ∃ o, n.idOf? o = some id

theorem Dense.congr {n' : FinalNames} (h : Dense firstId n) (hnext : n'.nextId = n.nextId)
    (hi : ∀ o, n'.idOf? o = n.idOf? o) : Dense firstId n' := by
  intro id hge hlt
  obtain ⟨o, ho⟩ := h id hge (hnext ▸ hlt)
  exact ⟨o, (hi o).trans ho⟩

theorem Dense.serve (h : Dense firstId n) (r : Request) : Dense firstId (n.serve c r) := by
  have hstep := serve_step c n r
  generalize n.serve c r = n' at hstep ⊢
  cases hstep with
  | known => exact h.congr rfl (n.idOf?_addRow _ _)
  | symbol =>
    refine h.congr rfl fun o => ?_
    rw [idOf?_addRow]
    cases o <;> rfl
  | fresh module name terminal ho _ hn _ =>
    intro id hge hlt
    have hnext : (n.addFresh module name terminal r.owner).nextId = n.nextId + 1 :=
      (record_frame _ _ _ _).2.2.2
    have hi := idOf?_addFresh (n := n) module name terminal ho
    rw [hnext] at hlt
    rcases Nat.lt_succ_iff_lt_or_eq.1 hlt with hlt | rfl
    · obtain ⟨o, ho'⟩ := h id hge hlt
      have hne : o ≠ r.owner := by
        rintro rfl
        rw [hn] at ho'
        cases ho'
      exact ⟨o, by rw [hi, if_neg hne, ho']⟩
    · exact ⟨r.owner, by rw [hi, if_pos rfl]⟩
  | idle => exact h

theorem dense_choose (reserved : List String) (trees : List ModuleTree) :
    Dense firstId (choose c reserved firstId trees) := by
  have hfold : ∀ (rs : List Request) {n : FinalNames}, Dense firstId n →
      Dense firstId (rs.foldl (FinalNames.serve c) n) := by
    intro rs
    induction rs with
    | nil => exact id
    | cons r rs ih => exact fun h => ih (h.serve r)
  rw [choose_eq]
  exact hfold _ fun id hge hlt => absurd hlt (Nat.not_lt.2 hge)

/-! ## All requests -/

theorem Sound.serve (h : Sound c reserved firstId rs n) (r : Request)
    (hr : ∀ m id given, r = .symbol m id given → id < firstId) :
    Sound c reserved firstId (rs ++ [r]) (n.serve c r) := by
  have hstep := serve_step c n r
  generalize n.serve c r = n' at hstep ⊢
  cases hstep with
  | known hn => exact h.addRow hn (hr _ _ _ rfl)
  | symbol hn => exact (h.addSymbol hn).addRow (h.symbol?_addSymbol hn) (hr _ _ _ rfl)
  | fresh module name terminal ho _ hn _ =>
    refine (h.addFresh module name terminal ho hn).append ((served_iff ho).2 fun _ => ?_)
    exact ⟨n.nextId, by rw [idOf?_addFresh module name terminal ho, if_pos rfl]⟩
  | idle ho hs => exact h.append ((served_iff ho).2 hs)

theorem Sound.foldl_serve : ∀ {rs' rs : List Request} {n : FinalNames},
    Sound c reserved firstId rs n →
      (∀ m id given, .symbol m id given ∈ rs' → id < firstId) →
        Sound c reserved firstId (rs ++ rs') (rs'.foldl (FinalNames.serve c) n)
  | [], rs, n, h, _ => by simpa using h
  | r :: rs', rs, n, h, hr => by
    have hs := h.serve r fun m id given he => hr m id given (he ▸ List.mem_cons_self)
    have := hs.foldl_serve fun m id given hm => hr m id given (List.mem_cons_of_mem _ hm)
    simpa using this

theorem sound_reserve (c : NamingContext) (reserved : List String) (firstId : DeclId) :
    Sound c reserved firstId [] (reserve { nextId := firstId } reserved) := by
  obtain ⟨h1, h2⟩ := Scopes.taken_foldl_reserve reserved (s := {}) rfl
  have hname : ∀ o, (reserve { nextId := firstId } reserved).nameOf? o = none := by
    intro o
    cases o <;> rfl
  have hid : ∀ o, (reserve { nextId := firstId } reserved).idOf? o = none := by
    intro o
    cases o <;> rfl
  constructor
  · exact h1
  · exact fun hx => (h2 _).2 (.inr hx)
  · exact fun {o x} hx => by simp [hname] at hx
  · exact fun {o x} hx => by simp [hname] at hx
  · exact fun {o o' x} hx => by simp [hname] at hx
  · exact Nat.le_refl firstId
  · exact fun {id} hk => by simp [reserve, Table.keys] at hk
  · exact fun {o id} hk => by simp [hid] at hk
  · exact fun {o id} hk => by simp [hid] at hk
  · exact fun {o o' id} hk => by simp [hid] at hk
  · exact fun {id b} hb => by simp [reserve, Table.get?, Table.find?] at hb
  · exact fun {r} hr => by simp at hr
  · simp [reserve, Table.keys]
  · simp [reserve, Table.keys]
  · simp [reserve, Table.keys]

/-- The names that are chosen for modules whose identities are below `firstId`. -/
theorem sound_choose {trees : List ModuleTree} (h : ∀ t ∈ trees,
      ∀ b ∈ topBindings t.module t.path t.statements, b.id < firstId) :
    Sound c reserved firstId (Request.all c trees) (choose c reserved firstId trees) := by
  rw [choose_eq]
  refine (sound_reserve c reserved firstId).foldl_serve fun m id given hm => ?_
  obtain ⟨t, ht, b, hb, -, rfl, -⟩ := (symbol_mem_all c).1 hm
  exact h t ht b hb

/-- What has been given an identity was asked for and is to have a name. -/
theorem requested_of_idOf? {trees : List ModuleTree} {o : Owner} {id : DeclId}
    (h : (choose c reserved firstId trees).idOf? o = some id) :
    ∃ r ∈ Request.all c trees, r.owner = o ∧ r.wanted c = true := by
  rw [choose_eq] at h
  have hstart : (reserve { nextId := firstId } reserved).idOf? o ≠ some id := by
    cases o <;> simp [idOf?, reserve, Table.get?, Table.find?]
  exact (of_foldl_serve c (P := fun n => n.idOf? o = some id) idOf?_serve h).resolve_left hstart

/-- The library bindings that have been given an identity are reached. -/
theorem reached_of_external {trees : List ModuleTree} {ref : LibraryBinding}
    (h : ref ∈ (choose c reserved firstId trees).externals.keys) : ref ∈ c.reach.imports := by
  obtain ⟨id, hid⟩ := Table.mem_keys.1 h
  obtain ⟨r, -, ho, hw⟩ := requested_of_idOf? (o := .library ref) hid
  cases r with
  | library module ref' name =>
    cases ho
    simpa [Request.wanted] using hw
  | _ => cases ho

/-- The namespaces that have been given an identity are reached. -/
theorem reached_of_namespace {trees : List ModuleTree} {m : ModuleId}
    (h : m ∈ (choose c reserved firstId trees).namespaces.keys) : m ∈ c.reach.namespaces := by
  obtain ⟨id, hid⟩ := Table.mem_keys.1 h
  obtain ⟨r, -, ho, hw⟩ := requested_of_idOf? (o := .namespaceOf m) hid
  cases r with
  | namespaceOf module m' name =>
    cases ho
    simpa [Request.wanted] using hw
  | _ => cases ho

/-- An identity that is given out has a name. -/
theorem Sound.exists_name (h : Sound c reserved firstId rs n) {o : Owner} {id : DeclId}
    (ho : n.idOf? o = some id) : ∃ name, n.get? id = some name := by
  obtain ⟨b, hb⟩ := Table.mem_keys.1 (h.id_key ho)
  exact ⟨b.name, by rw [get?, hb, Option.map_some]⟩

variable {trees : List ModuleTree}

/-- A library binding that is reached has an identity. -/
theorem Sound.exists_external (h : Sound c reserved firstId (Request.all c trees) n)
    {ref : LibraryBinding} (hr : ref ∈ c.reach.imports) : ∃ id, n.externals.get? ref = some id := by
  have hm : .library none ref (fallbackName ref) ∈ Request.all c trees :=
    List.mem_append_right _ (List.mem_append_left _ (List.mem_map.2 ⟨ref, hr, rfl⟩))
  exact Table.mem_keys.1 (h.served hm hr)

/-- A namespace that is reached has an identity. -/
theorem Sound.exists_namespace (h : Sound c reserved firstId (Request.all c trees) n)
    {m : ModuleId} (hr : m ∈ c.reach.namespaces) : ∃ id, n.namespaces.get? m = some id := by
  have hm : .namespaceOf (some m) m (Text.decapitalized (capitalizedStem (c.linker.modulePath m)))
      ∈ Request.all c trees :=
    List.mem_append_right _ (List.mem_append_right _ (List.mem_map.2 ⟨m, hr, rfl⟩))
  exact Table.mem_keys.1 (h.served hm hr)

end FinalNames

end DeclBundle
