import DeclBundle.Table

/-!
# Keys and rows of tables

The keys of a table grow as a set does that is kept in order of insertion. A row that is found is a
row of the table, and where no key stands twice every row is found.
-/

namespace DeclBundle

theorem nodup_pushAllNew [DecidableEq α] {xs : List α} (ys : List α) (h : xs.Nodup) :
    (pushAllNew xs ys).Nodup :=
  List.foldlRecOn ys pushNew h fun _ hn _ _ => nodup_pushNew hn

namespace Table

variable {κ : Type u} {ν : Type v} [DecidableEq κ]

theorem mem_of_find? {k : κ} {v : ν} : ∀ {rows : List (κ × ν)}, find? k rows = some v →
    (k, v) ∈ rows
  | (k', v') :: rest, h => by
    simp only [find?] at h
    split at h
    · rename_i hk
      rw [hk, Option.some.inj h]
      exact List.mem_cons_self
    · exact List.mem_cons_of_mem _ (mem_of_find? h)

theorem find?_eq_none {k : κ} : ∀ {rows : List (κ × ν)},
    find? k rows = none ↔ k ∉ rows.map Prod.fst
  | [] => by simp [find?]
  | (k', v') :: rest => by
    simp only [find?, List.map_cons, List.mem_cons, not_or]
    split
    · rename_i hk
      simp [hk]
    · rename_i hk
      rw [find?_eq_none]
      exact ⟨fun h => ⟨fun he => hk he.symm, h⟩, fun h => h.2⟩

theorem find?_of_mem {k : κ} {v : ν} : ∀ {rows : List (κ × ν)}, (rows.map Prod.fst).Nodup →
    (k, v) ∈ rows → find? k rows = some v
  | (k', v') :: rest, hn, h => by
    rw [List.map_cons, List.nodup_cons] at hn
    simp only [find?]
    rcases List.mem_cons.1 h with h | h
    · cases h
      simp
    · have hk : k' ≠ k := by
        rintro rfl
        exact hn.1 (List.mem_map.2 ⟨(k', v), h, rfl⟩)
      rw [if_neg hk]
      exact find?_of_mem hn.2 h

/-- Where no key stands twice, the rows of a key are the one that is found. -/
theorem filter_eq_find? {k : κ} : ∀ {rows : List (κ × ν)}, (rows.map Prod.fst).Nodup →
    (rows.filter (·.1 = k)).map Prod.snd = (find? k rows).toList
  | [], _ => rfl
  | (k', v') :: rest, hn => by
    rw [List.map_cons, List.nodup_cons] at hn
    by_cases hk : k' = k
    · subst hk
      have hnone : find? k' rest = none := find?_eq_none.2 hn.1
      simp [find?, filter_eq_find? hn.2, hnone]
    · simp [find?, hk, filter_eq_find? hn.2]

variable {t : Table κ ν} {k k' : κ} {v w : ν}

theorem mem_rows_of_get? (h : t.get? k = some v) : (k, v) ∈ t.rows := mem_of_find? h

theorem get?_of_mem_rows (hn : t.keys.Nodup) (h : (k, v) ∈ t.rows) : t.get? k = some v :=
  find?_of_mem hn h

theorem get?_eq_none : t.get? k = none ↔ k ∉ t.keys := find?_eq_none

theorem mem_keys : k ∈ t.keys ↔ ∃ v, t.get? k = some v := by
  rw [← Decidable.not_not (p := k ∈ t.keys), ← get?_eq_none]
  cases t.get? k <;> simp

theorem contains_iff : t.contains k = true ↔ k ∈ t.keys := by
  rw [mem_keys, contains, Option.isSome_iff_exists]

theorem mem_keys_of_get? (h : t.get? k = some v) : k ∈ t.keys := mem_keys.2 ⟨v, h⟩

theorem mem_values_of_get? (h : t.get? k = some v) : v ∈ t.values :=
  List.mem_map.2 ⟨(k, v), mem_rows_of_get? h, rfl⟩

theorem keys_put (k : κ) (v : ν) : ∀ rows : List (κ × ν),
    (put k v rows).map Prod.fst = pushNew (rows.map Prod.fst) k
  | [] => by simp [put, pushNew]
  | (k', v') :: rest => by
    have ih := keys_put k v rest
    simp only [pushNew] at ih ⊢
    simp only [put, List.map_cons, List.mem_cons]
    by_cases hk : k' = k
    · simp [hk]
    · have hk' : ¬ k = k' := fun h => hk h.symm
      simp only [hk, hk', if_false, false_or, List.map_cons, ih]
      split <;> simp

@[simp] theorem keys_insert (t : Table κ ν) (k : κ) (v : ν) :
    (t.insert k v).keys = pushNew t.keys k := keys_put k v t.rows

@[simp] theorem keys_insertNew (t : Table κ ν) (k : κ) (v : ν) :
    (t.insertNew k v).keys = pushNew t.keys k := by
  unfold insertNew pushNew
  split
  · rename_i h
    rw [if_pos (contains_iff.1 h)]
  · rename_i h
    rw [if_neg (fun hk => h (contains_iff.2 hk))]
    simp [keys]

theorem mem_values_insertNew (h : w ∈ (t.insertNew k v).values) : w ∈ t.values ∨ w = v := by
  simp only [values, insertNew] at h
  split at h
  · exact .inl h
  · rwa [List.map_append, List.mem_append, List.map_singleton, List.mem_singleton] at h

/-- Where no key stands twice, the values are those of the keys. -/
theorem values_eq_map_keys (hn : t.keys.Nodup) {f : κ → ν}
    (hf : ∀ {k v}, t.get? k = some v → f k = v) : t.values = t.keys.map f := by
  rw [values, keys, List.map_map]
  exact List.map_congr_left fun row hr => (hf (get?_of_mem_rows hn (v := row.2) hr)).symm

theorem put_of_not_mem (v : ν) : ∀ {rows : List (κ × ν)}, k ∉ rows.map Prod.fst →
    put k v rows = rows ++ [(k, v)]
  | [], _ => rfl
  | (k', v') :: rest, h => by
    simp only [List.map_cons, List.mem_cons, not_or] at h
    rw [put, if_neg (Ne.symm h.1), put_of_not_mem v h.2]
    rfl

/-- A new key comes with a row at the end. -/
theorem insert_of_not_mem (h : k ∉ t.keys) (v : ν) : t.insert k v = ⟨t.rows ++ [(k, v)]⟩ :=
  congrArg Table.mk (put_of_not_mem v h)

theorem nodup_keys_insert (hn : t.keys.Nodup) (k : κ) (v : ν) : (t.insert k v).keys.Nodup := by
  rw [keys_insert]
  exact nodup_pushNew hn

/-- What the values hold after one of them has gained `xs`, or has come with it. -/
theorem flatMap_values_insert {f : ν → List α} {xs : List α}
    (h : (f v).Perm (((t.get? k).map f).getD [] ++ xs)) :
    ((t.insert k v).values.flatMap f).Perm (t.values.flatMap f ++ xs) := by
  have key : ∀ rows : List (κ × ν), (f v).Perm (((find? k rows).map f).getD [] ++ xs) →
      (((put k v rows).map Prod.snd).flatMap f).Perm ((rows.map Prod.snd).flatMap f ++ xs) := by
    intro rows
    induction rows with
    | nil => simp [put, find?]
    | cons r rest ih =>
      intro hv
      obtain ⟨k', w⟩ := r
      by_cases hk : k' = k
      · simp only [find?, hk, if_true, Option.map_some, Option.getD_some] at hv
        simp only [put, hk, if_true, List.map_cons, List.flatMap_cons, List.append_assoc]
        refine (hv.append_right _).trans ?_
        rw [List.append_assoc]
        exact List.perm_append_comm.append_left _
      · simp only [find?, hk, if_false] at hv
        simp only [put, hk, if_false, List.map_cons, List.flatMap_cons, List.append_assoc]
        exact (ih hv).append_left _
  exact key t.rows h

end Table

end DeclBundle
