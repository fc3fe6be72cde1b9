import DeclBundle.Bundle
import DeclBundle.Proofs.Table

/-!
# The imports of a bundle

The import statements of a bundle introduce just the names of the library bindings, each once
(`locals_libraryImports`): a library has one item, and of its namespace there is one name.
-/

namespace DeclBundle

/-- The names that the import of a library introduces, each after the library and the name of what
it imports. -/
def LibraryImport.locals (i : LibraryImport) : List (String × String × String) :=
  i.namespaceName.toList.map (i.specifier, "*", ·)
    ++ i.named.map fun s => (i.specifier, s.remote, s.binding)

namespace Bundler

variable (n : FinalNames)

/-- What a library binding with a final name is imported as. -/
def importRow? : LibraryBinding × DeclId → Option (String × String × String)
  | (ref, id) => (n.get? id).map (ref.specifier, ref.remote.name, ·)

/-- The items of the libraries after the bindings of `rows`. -/
structure Collected (rows : List (LibraryBinding × DeclId)) (t : Table String LibraryImport) :
    Prop where
  specifier : ∀ {k i}, t.get? k = some i → i.specifier = k
  /-- A library whose namespace has a name has come with its namespace. -/
  star : ∀ {k i}, t.get? k = some i → i.namespaceName ≠ none → ⟨k, .all⟩ ∈ rows.map Prod.fst
  locals : (t.values.flatMap LibraryImport.locals).Perm (rows.filterMap (importRow? n))

variable {n} {rows : List (LibraryBinding × DeclId)} {t : Table String LibraryImport}

theorem Collected.skip (h : Collected n rows t) {row : LibraryBinding × DeclId}
    (hn : n.get? row.2 = none) : Collected n (rows ++ [row]) t where
  specifier := h.specifier
  star hk hi := by
    rw [List.map_append]
    exact List.mem_append_left _ (h.star hk hi)
  locals := by simpa [importRow?, hn] using h.locals

/-- A binding that none of the rows has goes to the item of its library, which is a new one when no
row of that library came before. -/
theorem Collected.addLibraryBinding (h : Collected n rows t) {ref : LibraryBinding} {id : DeclId}
    (hr : ref ∉ rows.map Prod.fst) :
    Collected n (rows ++ [(ref, id)]) (addLibraryBinding n t (ref, id)) := by
  cases hn : n.get? id with
  | none =>
    simp only [Bundler.addLibraryBinding, hn]
    exact h.skip hn
  | some name =>
    have hrow : (rows ++ [(ref, id)]).filterMap (importRow? n)
        = rows.filterMap (importRow? n) ++ [(ref.specifier, ref.remote.name, name)] := by
      simp [importRow?, hn]
    obtain ⟨i, hi, hspec, hold, hlocals⟩ : ∃ i : LibraryImport,
        (t.get? ref.specifier).getD { specifier := ref.specifier } = i ∧ i.specifier = ref.specifier
          ∧ (i.namespaceName ≠ none → ⟨ref.specifier, .all⟩ ∈ rows.map Prod.fst)
          ∧ ((t.get? ref.specifier).map LibraryImport.locals).getD [] = i.locals := by
      cases ht : t.get? ref.specifier with
      | none => exact ⟨_, rfl, rfl, fun hne => absurd rfl hne, rfl⟩
      | some i => exact ⟨i, rfl, h.specifier ht, h.star ht, rfl⟩
    have hstar : ref.remote = .all → i.namespaceName = none := by
      intro hall
      by_cases hne : i.namespaceName = none
      · exact hne
      · have hm := hold hne
        rw [← hall] at hm
        exact absurd hm hr
    simp only [Bundler.addLibraryBinding, hn, hi]
    refine ⟨fun {k j} hk => ?_, fun {k j} hk hj => ?_, ?_⟩
    · rw [Table.get?_insert] at hk
      split at hk
      · rename_i he
        rw [← Option.some.inj hk, ← he]
        split <;> exact hspec
      · exact h.specifier hk
    · rw [List.map_append, List.mem_append]
      rw [Table.get?_insert] at hk
      split at hk
      · rename_i he
        rw [← Option.some.inj hk] at hj
        subst he
        cases hrem : ref.remote with
        | all =>
          refine .inr ?_
          rw [← hrem]
          simp
        | _ =>
          rw [hrem] at hj
          exact .inl (hold hj)
      · exact .inl (h.star hk hj)
    · rw [hrow]
      refine (Table.flatMap_values_insert ?_).trans (h.locals.append_right _)
      rw [hlocals]
      cases hrem : ref.remote with
      | all =>
        have hnone := hstar hrem
        simp only [LibraryImport.locals, hnone, hspec, Remote.name, Option.toList_none,
          Option.toList_some, List.map_nil, List.map_cons, List.nil_append]
        exact List.perm_append_comm
      | _ =>
        simp [LibraryImport.locals, hspec]

theorem Collected.foldl : ∀ {rows' rows : List (LibraryBinding × DeclId)}
    {t : Table String LibraryImport}, ((rows ++ rows').map Prod.fst).Nodup → Collected n rows t →
      Collected n (rows ++ rows') (rows'.foldl (Bundler.addLibraryBinding n) t)
  | [], rows, t, _, h => by simpa using h
  | (ref, id) :: rows', rows, t, hn, h => by
    have hr : ref ∉ rows.map Prod.fst := by
      rw [List.map_append, List.nodup_append] at hn
      exact fun hm => hn.2.2 ref hm ref (by simp) rfl
    have hn' : ((rows ++ [(ref, id)] ++ rows').map Prod.fst).Nodup := by simpa using hn
    simpa using (h.addLibraryBinding hr).foldl hn'

/-- The imports introduce the final names of the library bindings and nothing else. -/
theorem locals_libraryImports (h : n.externals.keys.Nodup) :
    ((libraryImports n).flatMap LibraryImport.locals).Perm
      (n.externals.rows.filterMap (importRow? n)) := by
  have h0 : Collected n [] {} := by
    refine ⟨fun hk => ?_, fun hk => ?_, List.Perm.refl _⟩ <;>
      simp [Table.get?, Table.find?] at hk
  have h1 : (([] ++ n.externals.rows).map Prod.fst).Nodup := h
  exact (h0.foldl h1).locals

end Bundler

end DeclBundle
