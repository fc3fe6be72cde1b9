import DeclBundle.Names.Rename
import DeclBundle.Proofs.Names.Scopes

/-!
# The new names of binders

What is taken outside of a scope stays taken in it, and the names that the scope gives to type
parameters (`Site.enterTypes_not_mem`), to `infer` names (`Rename.inferredNames_type`) and to
members that give way (`Site.newName_enterBody`) are none of them.
-/

namespace DeclBundle

namespace Scopes

variable {s : Scopes} {x : String}

@[simp] theorem mem_taken_push : x ∈ s.push.taken ↔ x ∈ s.taken := by
  simp [push, mem_taken]

theorem mem_taken_reserveInScope (name : String) (h : x ∈ s.taken) :
    x ∈ (s.reserveInScope name).taken := by
  obtain ⟨root, inner⟩ := s
  rw [mem_taken] at h
  cases inner with
  | nil =>
    simp only [reserveInScope, reserve, mem_taken, Table.keys_insertNew, mem_pushNew]
    exact h.imp_left .inl
  | cons scope outer =>
    simp only [reserveInScope, mem_taken, List.flatten_cons, List.mem_append, mem_pushNew] at h ⊢
    rcases h with h | h | h
    · exact .inl h
    · exact .inr (.inl (.inl h))
    · exact .inr (.inr h)

theorem mem_taken_reserveAll : ∀ {s : Scopes} (names : List String), x ∈ s.taken →
    x ∈ (names.foldl reserveInScope s).taken
  | _, [], h => h
  | _, name :: names, h => mem_taken_reserveAll names (mem_taken_reserveInScope name h)

end Scopes

namespace Site

/-! ## Type binders -/

variable {x : String}

theorem mem_taken_bindAll : ∀ (names : List String) {scopes : Scopes}, x ∈ scopes.taken →
    x ∈ (bindAll scopes names).2.taken
  | [], _, h => h
  | _ :: names, _, h => mem_taken_bindAll names (Scopes.mem_taken_bind.2 (.inl h))

theorem bindAll_not_mem : ∀ (names : List String) {scopes : Scopes},
    x ∈ (bindAll scopes names).1 → x ∉ scopes.taken
  | [], _, h => absurd h List.not_mem_nil
  | given :: names, scopes, h => by
    simp only [bindAll, List.mem_cons] at h
    rcases h with rfl | h
    · exact scopes.bind_not_mem given none
    · exact fun ht => bindAll_not_mem names h (Scopes.mem_taken_bind.2 (.inl ht))

variable (s : Site) (names : List String)

theorem mem_taken_enterTypes (h : x ∈ s.scopes.taken) :
    x ∈ (s.enterTypes names).2.scopes.taken :=
  mem_taken_bindAll names (Scopes.mem_taken_push.2 h)

theorem enterTypes_not_mem (h : x ∈ (s.enterTypes names).1) : x ∉ s.scopes.taken :=
  fun ht => bindAll_not_mem names h (Scopes.mem_taken_push.2 ht)

theorem length_bindAll : ∀ (names : List String) (scopes : Scopes),
    (bindAll scopes names).1.length = names.length
  | [], _ => rfl
  | _ :: names, scopes => by
    simp only [bindAll, List.length_cons]
    rw [length_bindAll names]

theorem length_enterTypes : (s.enterTypes names).1.length = names.length :=
  length_bindAll names _

theorem locals_enterTypes : (s.enterTypes names).2.locals
    = ((names.zip (s.enterTypes names).1).map fun b => ⟨b.1, b.2, .type⟩).reverse ++ s.locals := rfl

theorem exists_mem_zip_enterTypes {given : String} (h : given ∈ names) :
    ∃ b ∈ names.zip (s.enterTypes names).1, b.1 = given := by
  rw [← List.map_fst_zip (Nat.le_of_eq (s.length_enterTypes names).symm)] at h
  exact List.mem_map.1 h

/-! ## `infer` names -/

/-- The name of a type is that of a local binding, and none of `taken`. -/
def Shields (taken : List String) (name : String) : Prop :=
  ∃ l, s.local? name .type = some l ∧ l.name ∉ taken

variable {s} {taken : List String} {name : String}

/-- A type name bound by the scope that is entered, or shielded outside it, is shielded inside: the
innermost binding is one of the new scope, or the new scope has none. -/
theorem shields_enterTypes (ht : ∀ x ∈ taken, x ∈ s.scopes.taken)
    (h : name ∈ names ∨ s.Shields taken name) : (s.enterTypes names).2.Shields taken name := by
  unfold Shields local?
  rw [locals_enterTypes, List.find?_append]
  cases hf : List.find? (fun l : LocalName => l.given == name && l.space.covers .type)
      ((names.zip (s.enterTypes names).1).map fun b => ⟨b.1, b.2, .type⟩).reverse with
  | some l =>
    refine ⟨l, rfl, fun hk => ?_⟩
    obtain ⟨b, hb, rfl⟩ := List.mem_map.1 (List.mem_reverse.1 (List.mem_of_find?_eq_some hf))
    exact s.enterTypes_not_mem names (List.of_mem_zip (a := b.1) (b := b.2) hb).2 (ht _ hk)
  | none =>
    rcases h with h | h
    · obtain ⟨b, hb, rfl⟩ := s.exists_mem_zip_enterTypes names h
      have hl := List.find?_eq_none.1 hf ⟨b.1, b.2, .type⟩
        (List.mem_reverse.2 (List.mem_map.2 ⟨b, hb, rfl⟩))
      simp [Space.covers] at hl
    · exact h

theorem shields_enterParameters (h : s.Shields taken name) :
    (s.enterParameters names).Shields taken name := by
  have hnone : (((names.map fun n => (n, n)).map
      fun b => (⟨b.1, b.2, .value⟩ : LocalName)).reverse.find?
        fun l => l.given == name && l.space.covers .type) = none := by
    simp [List.find?_eq_none, Space.covers]
  unfold Shields local? at h ⊢
  simp only [enterParameters, addLocals, List.find?_append] at hnone ⊢
  rw [hnone]
  exact h

end Site

namespace Rename

variable {taken : List String}

mutual
/-- The `infer` names of a renamed type are not taken, if the type stands in the scope that binds
them. -/
theorem inferredNames_type {s : Site} (ht : ∀ x ∈ taken, x ∈ s.scopes.taken) :
    ∀ t : TypeExpr, (∀ n ∈ t.inferredNames, s.Shields taken n) →
      ∀ n ∈ (type s t).value.inferredNames, n ∉ taken
  | .keyword _, _ | .literal _, _ | .conditional .., _ | .mapped ⟨_, _, _, _, _⟩ .., _
  | .predicate .., _ | .verbatim _, _ => fun _ hn => absurd hn List.not_mem_nil
  | .infer ⟨_, name, _, _, _⟩, h => by
    obtain ⟨l, hl, hn⟩ := h name (by simp [TypeExpr.inferredNames])
    simpa [type, TypeExpr.inferredNames, Site.finalName?, hl] using hn
  | .reference _ arguments, h | .query _ arguments, h => inferredInTypes_types ht arguments h
  | .importType argument qualifier arguments isTypeOf, h => by
    have hi : (importType s argument qualifier (types s arguments).value isTypeOf).inferredNames
        = TypeExpr.inferredInTypes (types s arguments).value := by
      simp only [importType]
      split
      · rfl
      · cases isTypeOf <;> rfl
    simp only [type, Named.value_bind, Named.value_pure, hi]
    exact inferredInTypes_types ht arguments h
  | .array element, h => inferredNames_type ht element h
  | .tuple es, h => inferredInElements_elements ht es h
  | .union ts, h | .intersection ts, h => inferredInTypes_types ht ts h
  | .function tps ps result, h | .construct _ tps ps result, h => by
    have ht' : ∀ x ∈ taken, x ∈ ((s.enterTypes (tps.map (·.name))).2.enterParameters
        (ps.map (·.name))).scopes.taken := fun x hx => s.mem_taken_enterTypes _ (ht x hx)
    have hs : ∀ n, s.Shields taken n → ((s.enterTypes (tps.map (·.name))).2.enterParameters
        (ps.map (·.name))).Shields taken n := fun n hn =>
      Site.shields_enterParameters _ (Site.shields_enterTypes _ ht (.inr hn))
    obtain ⟨h₁, h₂⟩ := List.forall_mem_append.1 fun n hn => hs n (h n hn)
    exact List.forall_mem_append.2
      ⟨inferredInParameters_parameters ht' ps h₁, inferredNames_type ht' result h₂⟩
  | .object ms, h => inferredInMembers_members ht ms h
  | .operator _ target, h => inferredNames_type ht target h
  | .indexed object index, h => by
    obtain ⟨h₁, h₂⟩ := List.forall_mem_append.1 h
    exact List.forall_mem_append.2 ⟨inferredNames_type ht object h₁, inferredNames_type ht index h₂⟩
  | .parenthesized inner, h => inferredNames_type ht inner h
  | .template _ ss, h => inferredInSpans_spans ht ss h

theorem inferredInOption_option {s : Site} (ht : ∀ x ∈ taken, x ∈ s.scopes.taken) :
    ∀ t : Option TypeExpr, (∀ n ∈ TypeExpr.inferredInOption t, s.Shields taken n) →
      ∀ n ∈ TypeExpr.inferredInOption (option s t).value, n ∉ taken
  | none, _ => fun _ hn => absurd hn List.not_mem_nil
  | some t, h => inferredNames_type ht t h

theorem inferredInTypes_types {s : Site} (ht : ∀ x ∈ taken, x ∈ s.scopes.taken) :
    ∀ ts : List TypeExpr, (∀ n ∈ TypeExpr.inferredInTypes ts, s.Shields taken n) →
      ∀ n ∈ TypeExpr.inferredInTypes (types s ts).value, n ∉ taken
  | [], _ => fun _ hn => absurd hn List.not_mem_nil
  | t :: ts, h => by
    obtain ⟨h₁, h₂⟩ := List.forall_mem_append.1 h
    exact List.forall_mem_append.2 ⟨inferredNames_type ht t h₁, inferredInTypes_types ht ts h₂⟩

theorem inferredInElements_elements {s : Site} (ht : ∀ x ∈ taken, x ∈ s.scopes.taken) :
    ∀ es : List TupleElement, (∀ n ∈ TypeExpr.inferredInElements es, s.Shields taken n) →
      ∀ n ∈ TypeExpr.inferredInElements (elements s es).value, n ∉ taken
  | [], _ => fun _ hn => absurd hn List.not_mem_nil
  | ⟨_, _, _, element⟩ :: es, h => by
    obtain ⟨h₁, h₂⟩ := List.forall_mem_append.1 h
    exact List.forall_mem_append.2
      ⟨inferredNames_type ht element h₁, inferredInElements_elements ht es h₂⟩

theorem inferredInParameters_parameters {s : Site} (ht : ∀ x ∈ taken, x ∈ s.scopes.taken) :
    ∀ ps : List Parameter, (∀ n ∈ TypeExpr.inferredInParameters ps, s.Shields taken n) →
      ∀ n ∈ TypeExpr.inferredInParameters (parameters s ps).value, n ∉ taken
  | [], _ => fun _ hn => absurd hn List.not_mem_nil
  | ⟨_, _, _, _, ascription⟩ :: ps, h => by
    obtain ⟨h₁, h₂⟩ := List.forall_mem_append.1 h
    exact List.forall_mem_append.2
      ⟨inferredInOption_option ht ascription h₁, inferredInParameters_parameters ht ps h₂⟩

theorem inferredInSpans_spans {s : Site} (ht : ∀ x ∈ taken, x ∈ s.scopes.taken) :
    ∀ ss : List TemplateSpan, (∀ n ∈ TypeExpr.inferredInSpans ss, s.Shields taken n) →
      ∀ n ∈ TypeExpr.inferredInSpans (spans s ss).value, n ∉ taken
  | [], _ => fun _ hn => absurd hn List.not_mem_nil
  | ⟨t, _⟩ :: ss, h => by
    obtain ⟨h₁, h₂⟩ := List.forall_mem_append.1 h
    exact List.forall_mem_append.2 ⟨inferredNames_type ht t h₁, inferredInSpans_spans ht ss h₂⟩

theorem inferredInMembers_members {s : Site} (ht : ∀ x ∈ taken, x ∈ s.scopes.taken) :
    ∀ ms : List Member, (∀ n ∈ TypeExpr.inferredInMembers ms, s.Shields taken n) →
      ∀ n ∈ TypeExpr.inferredInMembers (members s ms).value, n ∉ taken
  | [], _ => fun _ hn => absurd hn List.not_mem_nil
  | m :: ms, h => by
    obtain ⟨h₁, h₂⟩ := List.forall_mem_append.1 h
    exact List.forall_mem_append.2
      ⟨inferredInMember_member ht m h₁, inferredInMembers_members ht ms h₂⟩

theorem inferredInMember_member {s : Site} (ht : ∀ x ∈ taken, x ∈ s.scopes.taken) :
    ∀ m : Member, (∀ n ∈ TypeExpr.inferredInMember m, s.Shields taken n) →
      ∀ n ∈ TypeExpr.inferredInMember (member s m).value, n ∉ taken
  | .property _ _ _ ascription, h => inferredInOption_option ht ascription h
  | .method .., _ | .call .., _ | .construct .., _ | .index .., _ | .initializer .., _
  | .getter .., _ | .setter .., _ => fun _ hn => absurd hn List.not_mem_nil
end

end Rename

/-! ## Members -/

namespace Site

variable {taken captured : List String}

/-- What holds while the members of a body are named: `taken` stays taken, and only captured members
get another name, which is none of `taken`. -/
structure Renames (taken captured : List String) (state : Table String String × Scopes) : Prop where
  mem_taken : ∀ x ∈ taken, x ∈ state.2.taken
  apart : ∀ m v, state.1.get? m = some v → m ∈ captured ∧ v ∉ taken

/-- Names one member, a step of `bindCaptured`. -/
def bindMember (captured : List String) (state : Table String String × Scopes) (given : String) :
    Table String String × Scopes :=
  if given ∈ captured ∧ ¬ state.1.contains given then
    (state.1.insert given (state.2.bind given none).1, (state.2.bind given none).2)
  else state

theorem Renames.bindMember {state : Table String String × Scopes}
    (h : Renames taken captured state) (given : String) :
    Renames taken captured (bindMember captured state given) := by
  unfold Site.bindMember
  split
  · rename_i hg
    refine ⟨fun x hx => Scopes.mem_taken_bind.2 (.inl (h.mem_taken x hx)), fun m v hv => ?_⟩
    rw [Table.get?_insert] at hv
    split at hv
    · rename_i he
      cases he
      cases hv
      exact ⟨hg.1, fun hv => state.2.bind_not_mem given none (h.mem_taken _ hv)⟩
    · exact h.apart m v hv
  · exact h

theorem mem_keys_bindMember {m : String} (state : Table String String × Scopes) (given : String)
    (h : m ∈ state.1.keys ∨ m = given ∧ m ∈ captured) :
    m ∈ (bindMember captured state given).1.keys := by
  unfold bindMember
  split
  · rw [Table.keys_insert, mem_pushNew]
    exact h.imp_right And.left
  · rename_i hg
    rcases h with h | ⟨rfl, h⟩
    · exact h
    · exact Table.contains_iff.1 (by simpa [h] using hg)

theorem mem_keys_bindMembers {m : String} : ∀ (members : List String)
    {state : Table String String × Scopes}, m ∈ state.1.keys ∨ m ∈ members ∧ m ∈ captured →
      m ∈ (members.foldl (bindMember captured) state).1.keys
  | [], _, h => h.resolve_right fun h => absurd h.1 List.not_mem_nil
  | given :: members, state, h => by
    refine mem_keys_bindMembers members ?_
    rcases h with h | ⟨h, hc⟩
    · exact .inl (mem_keys_bindMember state given (.inl h))
    · rcases List.mem_cons.1 h with rfl | h
      · exact .inl (mem_keys_bindMember state _ (.inr ⟨rfl, hc⟩))
      · exact .inr ⟨h, hc⟩

theorem Renames.bindMembers : ∀ (members : List String) {state : Table String String × Scopes},
    Renames taken captured state →
      Renames taken captured (members.foldl (Site.bindMember captured) state)
  | [], _, h => h
  | m :: members, _, h => Renames.bindMembers members (h.bindMember m)

theorem renames_enterBody (s : Site) (captured members : List String) :
    Renames s.scopes.taken captured
      ((s.enterBody captured members).1, (s.enterBody captured members).2.scopes) := by
  refine Renames.bindMembers members ⟨fun x hx => ?_, fun m v hv => nomatch hv⟩
  exact Scopes.mem_taken_reserveAll _ (Scopes.mem_taken_push.2 hx)

/-- A member whose name in the body is taken outside of it has kept its name, which is not
captured. -/
theorem newName_enterBody (s : Site) {captured members : List String} {m : String}
    (hm : m ∈ members)
    (h : Rename.newName (s.enterBody captured members).1 m ∈ s.scopes.taken) :
    Rename.newName (s.enterBody captured members).1 m = m ∧ m ∉ captured := by
  unfold Rename.newName at h ⊢
  cases hg : (s.enterBody captured members).1.get? m with
  | some v =>
    rw [hg] at h
    exact absurd h ((renames_enterBody s captured members).apart m v hg).2
  | none =>
    refine ⟨rfl, fun hc => Table.get?_eq_none.1 hg ?_⟩
    exact mem_keys_bindMembers members (.inr ⟨hm, hc⟩)

end Site

end DeclBundle
