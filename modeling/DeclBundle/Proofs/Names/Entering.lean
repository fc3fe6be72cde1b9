import DeclBundle.Proofs.Names.Bodies

/-!
# What is taken in a scope

Going into a scope takes the names that it gives, and nothing else: those of its type binders
(`Site.mem_taken_enterTypes_iff`), or those that the members of a body have in it
(`Site.mem_taken_enterBody_iff`). Different members have different names in it
(`Site.newName_enterBody_inj`).

As long as every name that a site gives is taken there (`Site.Covered`), a captured member gets a
name that differs from its own (`Site.Covered.newName_ne`).
-/

namespace DeclBundle

namespace Scopes

variable {s : Scopes} {x : String}

theorem mem_taken_reserveInScope_iff {name : String} :
    x ∈ (s.reserveInScope name).taken ↔ x ∈ s.taken ∨ x = name := by
  obtain ⟨root, inner⟩ := s
  cases inner with
  | nil => simp [reserveInScope, reserve, mem_taken, mem_pushNew]
  | cons scope outer =>
    simp only [reserveInScope, mem_taken, List.flatten_cons, List.mem_append, mem_pushNew]
    tauto

theorem mem_taken_reserveAll_iff : ∀ {s : Scopes} (names : List String),
    x ∈ (names.foldl reserveInScope s).taken ↔ x ∈ s.taken ∨ x ∈ names
  | _, [] => by simp
  | s, name :: names => by
    rw [List.foldl_cons, mem_taken_reserveAll_iff names, mem_taken_reserveInScope_iff, or_assoc,
      List.mem_cons]

end Scopes

namespace Site

variable (s : Site) {x : String}

theorem mem_taken_bindAll_iff : ∀ (names : List String) {scopes : Scopes},
    x ∈ (bindAll scopes names).2.taken ↔ x ∈ scopes.taken ∨ x ∈ (bindAll scopes names).1
  | [], _ => by simp [bindAll]
  | given :: names, scopes => by
    simp only [bindAll, List.mem_cons]
    rw [mem_taken_bindAll_iff names, Scopes.mem_taken_bind, or_assoc]

theorem mem_taken_enterTypes_iff (names : List String) :
    x ∈ (s.enterTypes names).2.scopes.taken ↔ x ∈ s.scopes.taken ∨ x ∈ (s.enterTypes names).1 :=
  (mem_taken_bindAll_iff names).trans (or_congr_left Scopes.mem_taken_push)

/-! ## Members of a body -/

variable {captured members : List String}

/-- What holds while captured members get their names where `base` is taken: each gets one of its
own, and these are taken as well. -/
structure Given (base : String → Prop) (state : Table String String × Scopes) : Prop where
  mem_taken : ∀ x, x ∈ state.2.taken ↔ base x ∨ ∃ m, state.1.get? m = some x
  fresh : ∀ {m v}, state.1.get? m = some v → ¬ base v
  inj : ∀ {m m' v}, state.1.get? m = some v → state.1.get? m' = some v → m = m'

theorem Given.bindMember {base : String → Prop} {state : Table String String × Scopes}
    (h : Given base state) (given : String) : Given base (bindMember captured state given) := by
  unfold Site.bindMember
  split
  · rename_i hg
    have hnone : state.1.get? given = none := by simpa [Table.contains] using hg.2
    have hnew := state.2.bind_not_mem given none
    have hfree : ∀ {m}, state.1.get? m ≠ some (state.2.bind given none).1 := fun hm =>
      hnew ((h.mem_taken _).2 (.inr ⟨_, hm⟩))
    refine ⟨fun x => ?_, fun {m v} hm => ?_, fun {m m' v} hm hm' => ?_⟩
    · rw [Scopes.mem_taken_bind, h.mem_taken, or_assoc]
      refine or_congr_right ⟨?_, ?_⟩
      · rintro (⟨m, hm⟩ | rfl)
        · refine ⟨m, ?_⟩
          rw [Table.get?_insert, if_neg, hm]
          rintro rfl
          rw [hnone] at hm
          cases hm
        · exact ⟨given, by rw [Table.get?_insert, if_pos rfl]⟩
      · rintro ⟨m, hm⟩
        rw [Table.get?_insert] at hm
        split at hm
        · cases hm
          exact .inr rfl
        · exact .inl ⟨m, hm⟩
    · rw [Table.get?_insert] at hm
      split at hm
      · cases hm
        exact fun hb => hnew ((h.mem_taken _).2 (.inl hb))
      · exact h.fresh hm
    · rw [Table.get?_insert] at hm hm'
      split at hm <;> split at hm'
      · rename_i he he'
        exact he.symm.trans he'
      · cases hm
        exact absurd hm' hfree
      · cases hm'
        exact absurd hm hfree
      · exact h.inj hm hm'
  · exact h

theorem Given.bindMembers {base : String → Prop} : ∀ (members : List String)
    {state : Table String String × Scopes}, Given base state →
      Given base (members.foldl (Site.bindMember captured) state)
  | [], _, h => h
  | m :: members, _, h => Given.bindMembers members (h.bindMember m)

/-- The names that are taken before any captured member of a body gets its name. -/
def Kept (captured members : List String) (x : String) : Prop :=
  x ∈ s.scopes.taken ∨ x ∈ members ∧ x ∉ captured

theorem given_enterBody (captured members : List String) : Given (s.Kept captured members)
    ((s.enterBody captured members).1, (s.enterBody captured members).2.scopes) := by
  have hnone : ∀ m, Table.get? ({} : Table String String) m = none := fun _ => rfl
  refine Given.bindMembers members ⟨fun x => ?_, fun {m v} hm => ?_, fun {m m' v} hm _ => ?_⟩
  · simp [hnone, Scopes.mem_taken_reserveAll_iff, Kept]
  · rw [hnone] at hm
    cases hm
  · rw [hnone] at hm
    cases hm

variable {s} {m m' : String}

theorem mem_captured_of_get? {v : String} (h : (s.enterBody captured members).1.get? m = some v) :
    m ∈ captured :=
  ((renames_enterBody s captured members).apart m v h).1

/-- A member has its new name or is not captured. -/
theorem newName_cases (s : Site) (captured : List String) (hm : m ∈ members) :
    (s.enterBody captured members).1.get? m
        = some (Rename.newName (s.enterBody captured members).1 m)
      ∨ m ∉ captured ∧ Rename.newName (s.enterBody captured members).1 m = m := by
  unfold Rename.newName
  cases hg : (s.enterBody captured members).1.get? m with
  | some v => exact .inl rfl
  | none =>
    exact .inr ⟨fun hc => Table.get?_eq_none.1 hg (mem_keys_bindMembers members (.inr ⟨hm, hc⟩)),
      rfl⟩

/-- Every key of the renamed members is a member. -/
theorem mem_members_of_mem_keys_bindMembers : ∀ (members : List String)
    {state : Table String String × Scopes},
      m ∈ (members.foldl (bindMember captured) state).1.keys → m ∈ state.1.keys ∨ m ∈ members
  | [], _, h => .inl h
  | given :: members, state, h => by
    rcases mem_members_of_mem_keys_bindMembers members h with h | h
    · unfold bindMember at h
      split at h
      · rw [Table.keys_insert, mem_pushNew] at h
        exact h.imp_right fun he => List.mem_cons.2 (.inl he)
      · exact .inl h
    · exact .inr (List.mem_cons_of_mem _ h)

theorem mem_members_of_get? {v : String} (h : (s.enterBody captured members).1.get? m = some v) :
    m ∈ members :=
  (mem_members_of_mem_keys_bindMembers members (Table.mem_keys_of_get? h)).resolve_left
    List.not_mem_nil

/-- In a body its members are taken under the names that they have there. -/
theorem mem_taken_enterBody_iff : x ∈ (s.enterBody captured members).2.scopes.taken
    ↔ x ∈ s.scopes.taken
      ∨ ∃ m ∈ members, Rename.newName (s.enterBody captured members).1 m = x := by
  rw [(given_enterBody s captured members).mem_taken, Kept, or_assoc]
  refine or_congr_right ⟨?_, ?_⟩
  · rintro (⟨hx, hc⟩ | ⟨m, hm⟩)
    · rcases newName_cases s captured hx with hg | ⟨-, he⟩
      · exact absurd (mem_captured_of_get? hg) hc
      · exact ⟨x, hx, he⟩
    · exact ⟨m, mem_members_of_get? hm, by rw [Rename.newName, hm, Option.getD_some]⟩
  · rintro ⟨m, hm, rfl⟩
    rcases newName_cases s captured hm with hg | ⟨hc, he⟩
    · exact .inr ⟨m, hg⟩
    · rw [he]
      exact .inl ⟨hm, hc⟩

/-- Two members with one name in a body are the same. -/
theorem newName_enterBody_inj (hm : m ∈ members) (hm' : m' ∈ members)
    (h : Rename.newName (s.enterBody captured members).1 m
      = Rename.newName (s.enterBody captured members).1 m') : m = m' := by
  have hgiven := given_enterBody s captured members
  rcases newName_cases s captured hm with hg | ⟨hc, he⟩ <;>
    rcases newName_cases s captured hm' with hg' | ⟨hc', he'⟩
  · exact hgiven.inj hg (h ▸ hg')
  · rw [he'] at h
    rw [h] at hg
    exact absurd (.inr ⟨hm', hc'⟩) (hgiven.fresh hg)
  · rw [he] at h
    rw [← h] at hg'
    exact absurd (.inr ⟨hm, hc⟩) (hgiven.fresh hg')
  · exact he.symm.trans (h.trans he')

/-! ## Sites that give taken names only -/

/-- Whatever a site gives a reference is taken there. -/
structure Covered (s : Site) : Prop where
  mem_locals : ∀ l ∈ s.locals, l.name ∈ s.scopes.taken
  outer : ∀ {name x}, s.outer name = some x → x ∈ s.scopes.taken
  importRoot : ∀ {specifier qualifier x}, s.importRoot specifier qualifier = some x →
    x ∈ s.scopes.taken

namespace Covered

theorem finalName? (h : s.Covered) {name : String} {space : Space}
    (hx : s.finalName? name space = some x) : x ∈ s.scopes.taken := by
  unfold Site.finalName? at hx
  split at hx
  · rename_i l hl
    cases hx
    exact h.mem_locals l (List.mem_of_find?_eq_some hl)
  · exact h.outer hx

theorem reference? (h : s.Covered) : ∀ {r : Reference}, s.reference? r = some x →
    x ∈ s.scopes.taken
  | .name _, hx => h.finalName? hx
  | .importType .., hx => h.importRoot hx

theorem capturedNames (h : s.Covered) {body : List Statement}
    (hx : x ∈ Rename.capturedNames s body) : x ∈ s.scopes.taken := by
  obtain ⟨r, -, hr⟩ := List.mem_filterMap.1 hx
  exact h.reference? hr

theorem enterBody (h : s.Covered) (captured members : List String) :
    (s.enterBody captured members).2.Covered where
  mem_locals l hl := by
    refine mem_taken_enterBody_iff.2 ?_
    rcases List.mem_append.1 hl with hl | hl
    · obtain ⟨b, hb, rfl⟩ := List.mem_map.1 (List.mem_reverse.1 hl)
      obtain ⟨m, hm, rfl⟩ := List.mem_map.1 hb
      exact .inr ⟨m, hm, rfl⟩
    · exact .inl (h.mem_locals l hl)
  outer hx := mem_taken_enterBody_iff.2 (.inl (h.outer hx))
  importRoot hx := mem_taken_enterBody_iff.2 (.inl (h.importRoot hx))

/-- Where all captured names are taken, a member that is renamed changes its name. -/
theorem newName_ne (h : s.Covered) {body : List Statement} {v : String}
    (hv : (s.enterBody (Rename.capturedNames s body) members).1.get? m = some v) : v ≠ m := by
  rintro rfl
  obtain ⟨hc, hfree⟩ :=
    (renames_enterBody s (Rename.capturedNames s body) members).apart _ _ hv
  exact hfree (h.capturedNames hc)

end Covered

end Site

end DeclBundle
