import DeclBundle.Proofs.Bundle.Clause
import DeclBundle.Proofs.Renumber.Merge
import DeclBundle.Proofs.Renumber.Moves
import DeclBundle.Proofs.Tree.Allocator
import DeclBundle.Proofs.Tree.Erase
import DeclBundle.Proofs.Tree.Parts

/-!
# Identities are given out once

However units are put into a store, one after the other and some of them refused, the binding
positions of its trees have the identities `0`, `1`, … up to the next one that it gives out, each
once (`Store.Built.identities_eq`). A bundle gives out the identities from there on, without a gap:
to library bindings, namespaces and aliases when it names them, and to the declarations that it adds
(`Bundler.perm_allocated`). In 32 bits these are what the allocator gives out, one draw for each, so
just while there are fewer than 2³² of them no identity is given out twice, and none that stands for
no identity (`Bundler.identities_fresh`).
-/

namespace DeclBundle

/-- The unit as it is without identities. -/
def DeclUnit.erase (u : DeclUnit) : DeclUnit :=
  { u with statements := Statement.eraseList u.statements }

namespace Store

/-- The identities of all binding positions in the trees of a store. -/
def identities (s : Store) : List (Option DeclId) :=
  s.units.flatMap fun u => (u.statements.map Part.statement).flatMap Part.identities

/-- What is kept of the identities in the trees of a store. -/
def kept (s : Store) : List UInt32 := s.identities.map DeclId.kept

theorem Built.identities_eq {s : Store} (h : s.Built) : s.identities = consecutive 0 s.nextId := by
  rw [← h.slots_units, identities]
  congr 1
  funext u
  exact Part.identities_statements u.statements

theorem Built.length_identities {s : Store} (h : s.Built) : s.identities.length = s.nextId := by
  simp [h.identities_eq, consecutive]

/-- The identities in the trees of a store are those that were drawn, one for each position. -/
theorem Built.run_draw {s : Store} (h : s.Built) :
    (IdAllocator.draw s.identities.length).run {} = (s.kept, s.allocator) := by
  have hrun := IdAllocator.run_draw 0 s.nextId
  rw [Nat.zero_add] at hrun
  rw [h.length_identities, kept, h.identities_eq]
  exact hrun

/-- What is kept of the places of modules finds the modules, while it tells them apart. -/
theorem Built.lookup_kept {s : Store} (h : s.Built) (hs : s.size ≤ UInt32.size) {path : String}
    {w : UInt32} : (s.lookup path).map ModuleId.kept = some w
      ↔ ∃ u, s.get? w.toNat = some u ∧ u.path = path := by
  have hlt : ∀ {m u}, s.get? m = some u → m < UInt32.size := fun hu =>
    Nat.lt_of_lt_of_le (List.getElem?_eq_some_iff.1 hu).1 hs
  rw [Option.map_eq_some_iff]
  constructor
  · rintro ⟨m, hm, rfl⟩
    obtain ⟨u, hu, hp⟩ := h.lookup_eq_some.1 hm
    refine ⟨u, ?_, hp⟩
    rwa [ModuleId.kept, UInt32.toNat_ofNat_of_lt' (hlt hu)]
  · rintro ⟨u, hu, hp⟩
    exact ⟨w.toNat, h.lookup_eq_some.2 ⟨u, hu, hp⟩, UInt32.ofNat_toNat⟩

/-! ## Units put in one after the other -/

/-- Puts units into the store at hand, one after the other, and gives what became of each. -/
def insertEach (units : List DeclUnit) : StateM Store (List (Except StoreError ModuleId)) :=
  units.mapM fun u => (insert u).run

/-- The units that were not refused, each with its place. -/
def accepted (units : List DeclUnit) (outcomes : List (Except StoreError ModuleId)) :
    List (DeclUnit × ModuleId) :=
  (units.zip outcomes).filterMap fun (u, r) => r.toOption.map (u, ·)

theorem run_insertEach_cons (s : Store) (u : DeclUnit) (us : List DeclUnit) :
    (insertEach (u :: us)).run s =
      (((insert u).run.run s).1 :: ((insertEach us).run ((insert u).run.run s).2).1,
        ((insertEach us).run ((insert u).run.run s).2).2) := by
  rw [insertEach, List.mapM_cons]
  rfl

/-- A unit that is refused leaves the store as it is; else it is there under the next place, with
its tree as it was given apart from identities. -/
theorem insert_cases (s : Store) (u : DeclUnit) :
    (∃ e, (insert u).run.run s = (.error e, s))
      ∨ ∃ v s', (insert u).run.run s = (.ok s.size, s') ∧ s.add u = .ok s'
        ∧ s'.units = s.units ++ [v] ∧ v.erase = u.erase := by
  rw [add_eq, run_insert]
  by_cases hp : u.path = ""
  · exact .inl ⟨_, by rw [if_pos hp]⟩
  by_cases hl : (s.lookup u.path).isSome
  · exact .inl ⟨_, by rw [if_neg hp, if_pos hl]⟩
  · refine .inr ⟨_, _, by rw [if_neg hp, if_neg hl], by rw [if_neg hp, if_neg hl], rfl, ?_⟩
    simp [DeclUnit.erase, Statement.eraseList_assignList]

/-- A unit that is not refused has drawn an identity for each of its positions. -/
theorem run_draw_insert {s s' : Store} {u : DeclUnit} {m : ModuleId}
    (h : (insert u).run.run s = (.ok m, s')) : ∃ v, s'.units = s.units ++ [v]
      ∧ (IdAllocator.draw (Statement.listSlots u.statements).length).run s.allocator
        = ((Statement.listSlots v.statements).map DeclId.kept, s'.allocator) := by
  rw [run_insert] at h
  split at h
  · cases h
  · split at h
    · cases h
    · cases h
      refine ⟨_, rfl, ?_⟩
      rw [Statement.listSlots_assignList]
      exact IdAllocator.run_draw s.nextId _

/-- A unit is refused for its path alone. -/
theorem insert_error {s s' : Store} {u : DeclUnit} {e : StoreError}
    (h : (insert u).run.run s = (.error e, s')) : s' = s
      ∧ (e = .emptyModuleId ∧ u.path = ""
        ∨ e = .duplicateModule u.path ∧ ∃ m, s.lookup u.path = some m) := by
  rw [run_insert] at h
  split at h
  · rename_i hp
    cases h
    exact ⟨rfl, .inl ⟨rfl, hp⟩⟩
  · split at h
    · rename_i hl
      cases h
      exact ⟨rfl, .inr ⟨rfl, Option.isSome_iff_exists.1 hl⟩⟩
    · cases h

theorem Built.insertEach : ∀ {us : List DeclUnit} {s : Store}, s.Built →
    ((insertEach us).run s).2.Built
  | [], _, h => h
  | u :: us, s, h => by
    rw [run_insertEach_cons]
    rcases s.insert_cases u with ⟨e, he⟩ | ⟨v, s', hs, ha, -⟩
    · rw [he]
      exact Built.insertEach h
    · rw [hs]
      exact Built.insertEach (h.add ha)

/-- The units of the store are those that were there and those that were not refused, in order. -/
theorem units_insertEach : ∀ (us : List DeclUnit) (s : Store),
    ((insertEach us).run s).2.units.zipIdx.map (Prod.map DeclUnit.erase id)
      = s.units.zipIdx.map (Prod.map DeclUnit.erase id)
        ++ (accepted us ((insertEach us).run s).1).map (Prod.map DeclUnit.erase id)
  | [], s => by simp [insertEach, accepted]; rfl
  | u :: us, s => by
    rw [run_insertEach_cons]
    rcases s.insert_cases u with ⟨e, he⟩ | ⟨v, s', hs, -, hu, hv⟩
    · rw [he]
      exact units_insertEach us s
    · rw [hs, units_insertEach us s', hu]
      simp [accepted, List.zipIdx_append, Except.toOption, hv, size]

end Store

/-! ## What a bundle gives out -/

/-- The identities that are given out when a declaration is added: those of its own type parameters,
then its own. -/
def Statement.ownIds : Statement → List (Option DeclId)
  | .declaration d => (MergeInput.typeParametersOf d.kind).map (·.id) ++ [d.id]
  | _ => []

namespace FinalNames

/-- What an identity was given out for, with the identity. -/
def givenOut (n : FinalNames) : List (Owner × DeclId) :=
  n.externals.rows.map (Prod.map .library id) ++ n.namespaces.rows.map (Prod.map .namespaceOf id)
    ++ n.aliases.rows.map fun (key, a) => (.importAlias key.1 key.2, a.id)

variable {c : NamingContext} {reserved : List String} {firstId : DeclId} {rs : List Request}
  {n : FinalNames}

theorem Sound.idOf?_of_givenOut (h : Sound c reserved firstId rs n) {o : Owner} {i : DeclId}
    (hi : (o, i) ∈ n.givenOut) : n.idOf? o = some i := by
  simp only [givenOut, List.mem_append, List.mem_map] at hi
  rcases hi with (⟨⟨k, v⟩, hr, he⟩ | ⟨⟨k, v⟩, hr, he⟩) | ⟨⟨k, a⟩, hr, he⟩
  · cases he
    exact Table.get?_of_mem_rows h.externals_nodup hr
  · cases he
    exact Table.get?_of_mem_rows h.namespaces_nodup hr
  · cases he
    simp only [idOf?, Table.get?_of_mem_rows h.aliases_nodup hr, Option.map_some]

theorem mem_givenOut_of_idOf? {o : Owner} {i : DeclId} (h : n.idOf? o = some i) :
    (o, i) ∈ n.givenOut := by
  simp only [givenOut, List.mem_append, List.mem_map]
  cases o with
  | symbol m given => cases h
  | library ref => exact .inl (.inl ⟨_, Table.mem_rows_of_get? h, rfl⟩)
  | namespaceOf m => exact .inl (.inr ⟨_, Table.mem_rows_of_get? h, rfl⟩)
  | importAlias m b =>
    obtain ⟨a, ha, rfl⟩ := Option.map_eq_some_iff.1 h
    exact .inr ⟨_, Table.mem_rows_of_get? ha, rfl⟩

theorem Sound.nodup_owners (h : Sound c reserved firstId rs n) :
    (n.givenOut.map Prod.fst).Nodup := by
  have hl : (n.externals.keys.map Owner.library).Nodup :=
    h.externals_nodup.map fun _ _ he => Owner.library.inj he
  have hn : (n.namespaces.keys.map Owner.namespaceOf).Nodup :=
    h.namespaces_nodup.map fun _ _ he => Owner.namespaceOf.inj he
  have ha : (n.aliases.keys.map fun k => Owner.importAlias k.1 k.2).Nodup :=
    h.aliases_nodup.map fun _ _ he => Prod.ext (Owner.importAlias.inj he).1
      (Owner.importAlias.inj he).2
  have hmap : n.givenOut.map Prod.fst = n.externals.keys.map Owner.library
      ++ n.namespaces.keys.map Owner.namespaceOf
      ++ n.aliases.keys.map fun k => Owner.importAlias k.1 k.2 := by
    simp [givenOut, Table.keys, Function.comp_def]
  rw [hmap]
  refine (hl.append hn ?_).append ha ?_
  · simp [List.disjoint_left]
  · simp only [List.disjoint_left, List.mem_append, List.mem_map]
    rintro _ (⟨_, -, rfl⟩ | ⟨_, -, rfl⟩) ⟨_, -, he⟩ <;> cases he

/-- Naming gives every identity out once, all of them new. -/
theorem Sound.nodup_givenOut (h : Sound c reserved firstId rs n) :
    (n.givenOut.map Prod.snd).Nodup := by
  refine (List.Nodup.of_map _ h.nodup_owners).map_on ?_
  rintro ⟨o, i⟩ ho ⟨o', i'⟩ ho' rfl
  rw [h.id_inj (h.idOf?_of_givenOut ho) (h.idOf?_of_givenOut ho')]

theorem Sound.mem_givenOut (h : Sound c reserved firstId rs n) {i : DeclId}
    (hi : i ∈ n.givenOut.map Prod.snd) : firstId ≤ i ∧ i < n.nextId := by
  obtain ⟨⟨o, i⟩, ho, rfl⟩ := List.mem_map.1 hi
  have hid := h.idOf?_of_givenOut ho
  exact ⟨h.id_ge hid, h.key_lt (h.id_key hid)⟩

/-- Naming gives out the identities from `firstId` on, without a gap. -/
theorem Sound.perm_givenOut (h : Sound c reserved firstId rs n) (hd : Dense firstId n) :
    ((n.givenOut.map Prod.snd).map some).Perm (consecutive firstId (n.nextId - firstId)) := by
  have hnodup : ((n.givenOut.map Prod.snd).map some).Nodup :=
    h.nodup_givenOut.map fun _ _ => Option.some.inj
  refine (List.perm_ext_iff_of_nodup hnodup (nodup_consecutive _ _)).2 fun i => ?_
  rw [mem_consecutive, Nat.add_sub_cancel' h.first_le, List.mem_map]
  constructor
  · rintro ⟨id, hid, rfl⟩
    exact ⟨id, rfl, h.mem_givenOut hid⟩
  · rintro ⟨id, rfl, hge, hlt⟩
    obtain ⟨o, ho⟩ := hd id hge hlt
    exact ⟨id, List.mem_map.2 ⟨(o, id), mem_givenOut_of_idOf? ho, rfl⟩, rfl⟩

end FinalNames

namespace MergeInput

/-- Statements that were given the identities from `n` on, up to the next one. -/
def Numbers (n : DeclId) (acc : List Statement × DeclId) : Prop :=
  ∃ k, acc.2 = n + k ∧ acc.1.flatMap Statement.ownIds = consecutive n k

theorem Numbers.append {n : DeclId} {acc step : List Statement × DeclId} (h : Numbers n acc)
    (hs : Numbers acc.2 step) : Numbers n (acc.1 ++ step.1, step.2) := by
  obtain ⟨j, hj, ha⟩ := h
  obtain ⟨k, hk, hb⟩ := hs
  refine ⟨j + k, by simp only [hk, hj, Nat.add_assoc], ?_⟩
  rw [List.flatMap_append, ha, hb, hj, consecutive_add]

theorem ids_numberParameters (n : DeclId) (tps : List TypeParameter) :
    (numberParameters n tps).map (·.id) = consecutive n tps.length := by
  have hrange : List.range' n tps.length = (tps.zipIdx.map Prod.snd).map (n + ·) := by
    rw [List.zipIdx_map_snd, List.map_add_range', Nat.add_zero]
  rw [consecutive, hrange, numberParameters, List.map_map, List.map_map, List.map_map]
  rfl

variable (m : MergeInput)

theorem numbers_aliasStatements (a : ImportAlias) (n : DeclId) :
    Numbers n (m.aliasStatements a n) := by
  rw [aliasStatements_eq]
  cases m.aliasNames? a with
  | none => exact ⟨0, rfl, rfl⟩
  | some p =>
    obtain ⟨name, target⟩ := p
    have hv : Numbers n (m.valuePart a name target n) := by
      unfold valuePart
      split
      · exact ⟨1, rfl, rfl⟩
      · exact ⟨0, rfl, rfl⟩
    have ht : ∀ n, Numbers n (m.typePart a name target n) := by
      intro n
      unfold typePart
      split
      · refine ⟨(m.symbolTypeParameters a.terminal).length + 1, ?_, ?_⟩
        · simp [numberParameters, Nat.add_assoc]
        · rw [consecutive_add]
          simp [Statement.ownIds, typeAlias, typeParametersOf, ids_numberParameters]
          simp [numberParameters]
      · exact ⟨0, rfl, rfl⟩
    exact hv.append (ht _)

theorem numbers_addNamespace {n : DeclId} {acc : List Statement × DeclId} (h : Numbers n acc)
    (row : ModuleId × DeclId) : Numbers n (m.addNamespace acc row) := by
  obtain ⟨module, id⟩ := row
  simp only [addNamespace]
  split
  · rename_i name _
    have hs : Numbers acc.2 ([m.namespaceStatement module name acc.2], acc.2 + 1) := ⟨1, rfl, rfl⟩
    exact h.append hs
  · exact h

/-- What a merge adds is numbered from where naming stopped. -/
theorem numbers_merge : ∃ k, m.merge.statements.flatMap Statement.ownIds
    = consecutive m.names.nextId k := by
  have halias : ∀ (as : List ImportAlias) {acc : List Statement × DeclId},
      Numbers m.names.nextId acc → Numbers m.names.nextId (as.foldl m.addAlias acc) := by
    intro as
    induction as with
    | nil => exact id
    | cons a as ih => exact fun h => ih (h.append (m.numbers_aliasStatements a _))
  have hspace : ∀ (rows : List (ModuleId × DeclId)) {acc : List Statement × DeclId},
      Numbers m.names.nextId acc → Numbers m.names.nextId (rows.foldl m.addNamespace acc) := by
    intro rows
    induction rows with
    | nil => exact id
    | cons row rows ih => exact fun h => ih (m.numbers_addNamespace h row)
  have hnone : Numbers m.names.nextId ([], m.names.nextId) := ⟨0, rfl, rfl⟩
  obtain ⟨k, -, hk⟩ := hspace m.names.namespaces.rows (halias m.names.aliases.values hnone)
  exact ⟨k, hk⟩

end MergeInput

/-- The identities that a bundle gave out: to what it named without a declaration, and to the
declarations that it added. -/
def Bundle.allocated (b : Bundle) : List (Option DeclId) :=
  (b.naming.names.givenOut.map Prod.snd).map some
    ++ (b.file.statements.filter (·.origin.isNone)).flatMap fun p => p.statement.ownIds

/-- What is kept of the identities that a bundle gave out. -/
def Bundle.kept (b : Bundle) : List UInt32 := b.allocated.map DeclId.kept

namespace Bundler

theorem allocated_bundleModule (b : Bundler) (entry : Entry) (entryId : ModuleId) :
    (b.bundleModule entry entryId).allocated
      = ((b.names entry entryId).givenOut.map Prod.snd).map some
        ++ (b.mergeInput entry entryId).merge.statements.flatMap Statement.ownIds := by
  rw [Bundle.allocated, names_bundleModule, ← filter_added_statements, List.flatMap_map]

/-- A bundle gives out the identities that come next in its store, without a gap. -/
theorem perm_allocated {store : Store} (hb : store.Built) (options : Options) (entry : Entry)
    {bundle : Bundle} (h : (ofStore store options).bundle entry = .ok bundle) :
    bundle.allocated.Perm (consecutive store.nextId bundle.allocated.length) := by
  obtain ⟨entryId, -, rfl⟩ := bundle_ok _ entry h
  have hs := sound_names hb options entry entryId
  obtain ⟨k, hk⟩ := ((ofStore store options).mergeInput entry entryId).numbers_merge
  have hnext : ((ofStore store options).mergeInput entry entryId).names.nextId
      = store.nextId + (((ofStore store options).names entry entryId).nextId - store.nextId) :=
    (Nat.add_sub_cancel' hs.first_le).symm
  have hperm := (hs.perm_givenOut (FinalNames.dense_choose _ _)).append_right
    (consecutive ((ofStore store options).mergeInput entry entryId).names.nextId k)
  rw [← hk, ← allocated_bundleModule, hk, hnext, ← consecutive_add] at hperm
  have hlength := hperm.length_eq
  rw [consecutive, List.length_map, List.length_range'] at hlength
  rwa [← hlength] at hperm

/-- The identities of a store and of a bundle of it are the numbers from 0 on, each once. -/
theorem perm_identities {store : Store} (hb : store.Built) (options : Options) (entry : Entry)
    {bundle : Bundle} (h : (ofStore store options).bundle entry = .ok bundle) :
    (store.kept ++ bundle.kept).Perm
      ((consecutive 0 (store.nextId + bundle.allocated.length)).map DeclId.kept) := by
  have hadd := consecutive_add 0 store.nextId bundle.allocated.length
  rw [Nat.zero_add] at hadd
  rw [hadd, List.map_append, Store.kept, Bundle.kept, hb.identities_eq]
  exact ((perm_allocated hb options entry h).map _).append_left _

/-- After any units were put into a store one after the other, what is kept of the identities in its
trees was drawn from the allocator, once for each position; while there are fewer than 2³² positions
these are the words below the next one, each once. Its units are those that were not refused, in
order, with their trees as they were given apart from identities, and are found by their paths
alone, also by what is kept of their places while there are fewer than 2³² of them. A further unit
that is refused leaves the store as it is. What a bundle of the store gives out is drawn on from its
allocator; just while there are fewer than 2³² positions in all, it is new, and nothing is given out
that stands for no identity. -/
theorem identities_fresh (units : List DeclUnit) :
    let run := (Store.insertEach units).run .empty
    let s := run.2
    (IdAllocator.draw s.identities.length).run {} = (s.kept, s.allocator)
      ∧ (s.identities.length < UInt32.size →
          s.kept.Nodup ∧ ∀ w, w ∈ s.kept ↔ w < s.allocator.next)
      ∧ s.units.zipIdx.map (Prod.map DeclUnit.erase id)
          = (Store.accepted units run.1).map (Prod.map DeclUnit.erase id)
      ∧ (∀ path m, s.lookup path = some m ↔ ∃ u, s.get? m = some u ∧ u.path = path)
      ∧ (s.size < UInt32.size → ∀ path w, (s.lookup path).map ModuleId.kept = some w
          ↔ ∃ u, s.get? w.toNat = some u ∧ u.path = path)
      ∧ (∀ u e s', (Store.insert u).run.run s = (.error e, s') → s' = s
          ∧ (e = .emptyModuleId ∧ u.path = ""
            ∨ e = .duplicateModule u.path ∧ ∃ m, s.lookup u.path = some m))
      ∧ ∀ options entry bundle, (ofStore s options).bundle entry = .ok bundle →
          bundle.kept.Perm ((IdAllocator.draw bundle.kept.length).run s.allocator).1
            ∧ (s.kept.length + bundle.kept.length < UInt32.size ↔
                (s.kept ++ bundle.kept).Nodup ∧ DeclId.absent ∉ s.kept ++ bundle.kept) := by
  intro run s
  have hb : s.Built := Store.Built.empty.insertEach
  have hkept : s.kept = (consecutive 0 s.nextId).map DeclId.kept := by
    rw [Store.kept, hb.identities_eq]
  refine ⟨hb.run_draw, fun hlt => ?_, Store.units_insertEach units .empty,
    fun _ _ => hb.lookup_eq_some, fun hs _ _ => hb.lookup_kept (Nat.le_of_lt hs),
    fun u e s' h => Store.insert_error h, fun options entry bundle h => ⟨?_, fun hlt => ?_, fun ⟨hn, ha⟩ => ?_⟩⟩
  · rw [hb.length_identities] at hlt
    rw [hkept]
    exact ⟨nodup_kept_consecutive (by omega), fun w => mem_kept_consecutive hlt⟩
  · have hlength : bundle.kept.length = bundle.allocated.length := List.length_map _
    rw [hlength, Store.allocator, IdAllocator.run_draw]
    exact (perm_allocated hb options entry h).map _
  · have hperm := perm_identities hb options entry h
    rw [Store.kept, Bundle.kept, List.length_map, List.length_map, hb.length_identities] at hlt
    refine ⟨hperm.nodup_iff.2 (nodup_kept_consecutive (by omega)), fun hm => ?_⟩
    exact absent_not_mem_kept (by omega) (hperm.mem_iff.1 hm)
  · rw [← List.length_append]
    exact length_lt_of_nodup hn ha

/-- A module that is given twice and one without a path, after one that imports a default. -/
def refusedBetween : List DeclUnit :=
  [⟨"a.ts", [.imports ⟨"b.ts", some "D", none, [], false⟩, .exports ⟨[⟨"D", "D"⟩], none, false⟩,
      .declaration ⟨none, { exported := true }, none, .variableList .constant [⟨none, "v",
        some (.function [⟨none, "T", some (.infer ⟨none, "U", none, none, []⟩), none, []⟩] []
          (.mapped ⟨none, "K", some (.keyword "string"), none, []⟩ none none none none)),
        none⟩]⟩]⟩,
    ⟨"a.ts", [.declaration ⟨none, .none, none, .interface "Lost" [] [] []⟩]⟩,
    ⟨"", [.declaration ⟨none, .none, none, .interface "Lost" [] [] []⟩]⟩,
    ⟨"b.ts", [.declaration ⟨none, { exported := true, default := true }, none,
      .classLike (some "C") [⟨none, "T", none, none, []⟩] none [] []⟩]⟩]

/-- What is left of them when they are put into a store one after the other. -/
def betweenStore : Store := ((Store.insertEach refusedBetween).run .empty).2

theorem sources_between : (ofStore betweenStore {}).sources 0 = [0, 1] :=
  List.mergeSort_of_pairwise (l := [0, 1]) (by decide)

/-- Two of its units are kept, with seven binding positions; its bundle adds an alias of `C`, as a
constant and as a type with one type parameter. -/
theorem identities_fresh_refusedBetween :
    ((Store.insertEach refusedBetween).run .empty).1
        = [.ok 0, .error (.duplicateModule "a.ts"), .error .emptyModuleId, .ok 1]
      ∧ betweenStore.kept = [0, 1, 2, 3, 4, 5, 6] ∧ betweenStore.kept.Nodup
      ∧ (betweenStore.lookup "b.ts").map ModuleId.kept = some 1
      ∧ ∃ bundle, (ofStore betweenStore {}).bundle ⟨"a.ts", "a.d.ts", none⟩ = .ok bundle
        ∧ bundle.kept = [7, 8, 9, 10]
        ∧ (betweenStore.kept ++ bundle.kept).Nodup := by
  obtain ⟨-, hpositions, -, -, -, -, hbundle⟩ := identities_fresh refusedBetween
  obtain ⟨-, hnew⟩ := hbundle {} ⟨"a.ts", "a.d.ts", none⟩ _ rfl
  have hstore : betweenStore.kept = [0, 1, 2, 3, 4, 5, 6] := by
    have hb : betweenStore.Built := Store.Built.empty.insertEach
    rw [Store.kept, hb.identities_eq]
    rfl
  have hadded : ((ofStore betweenStore {}).bundleModule ⟨"a.ts", "a.d.ts", none⟩ 0).kept
      = [7, 8, 9, 10] := by
    rw [Bundle.kept, allocated_bundleModule]
    simp only [mergeInput, written, renamed, names, context, reserved, shaken, reached,
      sources_between]
    decide +kernel
  have hlength : betweenStore.identities.length < UInt32.size := by
    rw [← List.length_map DeclId.kept, ← Store.kept, hstore]
    decide
  have hin : betweenStore.kept.length
      + ((ofStore betweenStore {}).bundleModule ⟨"a.ts", "a.d.ts", none⟩ 0).kept.length
      < UInt32.size := by
    rw [hstore, hadded]
    decide
  exact ⟨rfl, hstore, (hpositions hlength).1, rfl, _, rfl, hadded, (hnew.1 hin).1⟩

end Bundler

end DeclBundle
