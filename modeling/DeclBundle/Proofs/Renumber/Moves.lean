import DeclBundle.Proofs.Renumber.Units
import Mathlib.Order.Monotone.Basic

/-!
# Stores with a unit more, and with two units exchanged

A list of units with different paths that are not empty makes a store (`Distinct.ofUnits`). When a
unit comes between the others, all after it get the next place and later identities; when two
neighbours change places, so do their blocks of identities. In both cases the old store embeds into
the new one (`Store.embeds_insertion`, `Store.embeds_exchange`): for a unit more as long as no module
of the old store that matters names it.
-/

namespace DeclBundle

namespace Store

/-! ## Units with identities -/

/-- The number of identities that units take. -/
def slotCount : List DeclUnit → Nat
  | [] => 0
  | u :: us => (Statement.listSlots u.statements).length + slotCount us

/-- The units with their binding positions numbered from `n` on. -/
def numbered (n : DeclId) : List DeclUnit → List DeclUnit
  | [] => []
  | u :: us => { u with statements := Statement.assignList n u.statements }
      :: numbered (n + (Statement.listSlots u.statements).length) us

theorem slotCount_append (us vs : List DeclUnit) :
    slotCount (us ++ vs) = slotCount us + slotCount vs := by
  induction us with
  | nil => simp [slotCount]
  | cons u us ih => simp [slotCount, ih, Nat.add_assoc]

theorem numbered_append (n : DeclId) (us vs : List DeclUnit) :
    numbered n (us ++ vs) = numbered n us ++ numbered (n + slotCount us) vs := by
  induction us generalizing n with
  | nil => simp [numbered, slotCount]
  | cons u us ih => simp [numbered, slotCount, ih, Nat.add_assoc]

theorem length_numbered (n : DeclId) (us : List DeclUnit) : (numbered n us).length = us.length := by
  induction us generalizing n with
  | nil => rfl
  | cons u us ih => simp [numbered, ih]

theorem paths_numbered (n : DeclId) (us : List DeclUnit) :
    (numbered n us).map (·.path) = us.map (·.path) := by
  induction us generalizing n with
  | nil => rfl
  | cons u us ih => simp [numbered, ih]

theorem map_numbered {f : DeclId → DeclId} {n n' : DeclId} {us : List DeclUnit}
    (h : Shifts f n n' (slotCount us)) :
    (numbered n us).map (DeclUnit.renumber f) = numbered n' us := by
  induction us generalizing n n' with
  | nil => rfl
  | cons u us ih =>
    simp only [numbered, List.map_cons, DeclUnit.renumber,
      Statement.renumberList_assignList u.statements h.left, ih h.right]

/-! ## Stores from lists of units -/

/-- Units that make a store: their paths are different and not empty. -/
structure Distinct (us : List DeclUnit) : Prop where
  nonempty : ∀ u ∈ us, u.path ≠ ""
  nodup : (us.map (·.path)).Nodup

/-- The store of units with different paths. -/
def storeOf (us : List DeclUnit) : Store := ⟨numbered 0 us, slotCount us⟩

theorem lookup_eq_none {s : Store} {path : String} (h : path ∉ s.units.map (·.path)) :
    s.lookup path = none := by
  rw [lookup, List.findIdx?_eq_none_iff]
  intro u hu
  simpa using fun he => h (List.mem_map.2 ⟨u, hu, he⟩)

theorem addAll_eq : ∀ {us : List DeclUnit} {s : Store}, (∀ u ∈ us, u.path ≠ "") →
    (s.units.map (·.path) ++ us.map (·.path)).Nodup →
      s.addAll us = .ok ⟨s.units ++ numbered s.nextId us, s.nextId + slotCount us⟩
  | [], s, _, _ => by simp [addAll, numbered, slotCount]
  | u :: us, s, hne, hnd => by
    simp only [List.forall_mem_cons] at hne
    have hu : u.path ∉ s.units.map (·.path) := fun hm =>
      List.disjoint_of_nodup_append hnd hm List.mem_cons_self
    have hadd : s.add u = .ok {
        units := s.units ++ [{ u with statements := Statement.assignList s.nextId u.statements }]
        nextId := s.nextId + (Statement.listSlots u.statements).length } := by
      rw [add_eq, if_neg hne.1, lookup_eq_none hu]
      rfl
    simp only [addAll, hadd]
    refine (addAll_eq hne.2 ?_).trans ?_
    · simpa using hnd
    · simp [numbered, slotCount, Nat.add_assoc]

theorem Distinct.ofUnits {us : List DeclUnit} (h : Distinct us) :
    ofUnits us = .ok (storeOf us) := by
  have hs := addAll_eq (s := empty) h.nonempty (by simpa [empty] using h.nodup)
  simpa [Store.ofUnits, empty, storeOf] using hs

theorem Distinct.built {us : List DeclUnit} (h : Distinct us) : (storeOf us).Built :=
  built_ofUnits h.ofUnits

theorem Distinct.perm {us us' : List DeclUnit} (h : Distinct us) (hp : us.Perm us') :
    Distinct us' :=
  ⟨fun u hu => h.nonempty u (hp.mem_iff.2 hu), (hp.map _).nodup_iff.1 h.nodup⟩

theorem Distinct.sublist {us us' : List DeclUnit} (h : Distinct us') (hs : us.Sublist us') :
    Distinct us :=
  ⟨fun u hu => h.nonempty u (hs.subset hu), h.nodup.sublist (hs.map _)⟩

/-- A unit is not among those that come later. -/
theorem Distinct.not_mem {a us : List DeclUnit} {u : DeclUnit} (h : Distinct (a ++ u :: us)) :
    u ∉ us := fun hu => by
  have hnd := (h.sublist (List.sublist_append_right a (u :: us))).nodup
  exact (List.nodup_cons.1 hnd).1 (List.mem_map.2 ⟨u, hu, rfl⟩)

theorem exists_lookup {us : List DeclUnit} {path : String} (h : path ∈ us.map (·.path)) :
    ∃ m, (storeOf us).lookup path = some m := by
  rw [← paths_numbered 0] at h
  obtain ⟨u, hu, hp⟩ := List.mem_map.1 h
  refine Option.isSome_iff_exists.1 ?_
  rw [lookup, List.findIdx?_isSome, List.any_eq_true]
  exact ⟨u, hu, by simpa using hp⟩

theorem Built.nodup_paths {s : Store} (h : s.Built) : (s.units.map (·.path)).Nodup := by
  induction h with
  | empty => exact List.nodup_nil
  | @add s s' u h hu ih =>
    have hn : u.path ∉ s.units.map (·.path) := by
      intro hm
      obtain ⟨v, hv, hp⟩ := List.mem_map.1 hm
      have hl : (s.lookup u.path).isSome := by
        rw [lookup, List.findIdx?_isSome, List.any_eq_true]
        exact ⟨v, hv, by simpa using hp⟩
      simp only [add_eq, hl, if_true] at hu
      split at hu <;> cases hu
    rw [add_ok hu]
    simpa [List.nodup_append] using ⟨ih, fun v hv => fun he => hn (List.mem_map.2 ⟨v, hv, he⟩)⟩

/-- The places of a store and the paths of its units determine each other. -/
theorem Built.lookup_eq_some {s : Store} (h : s.Built) {path : String} {m : ModuleId} :
    s.lookup path = some m ↔ ∃ u, s.get? m = some u ∧ u.path = path := by
  simp only [lookup, List.findIdx?_eq_some_iff_getElem, beq_iff_eq, get?, List.getElem?_eq_some_iff]
  constructor
  · rintro ⟨hm, hp, -⟩
    exact ⟨s.units[m], ⟨hm, rfl⟩, hp⟩
  · rintro ⟨u, ⟨hm, rfl⟩, rfl⟩
    refine ⟨hm, rfl, fun j hj he => ?_⟩
    have hj' : j < s.units.length := Nat.lt_trans hj hm
    have hne := List.pairwise_iff_getElem.1 (List.pairwise_map.1 h.nodup_paths) j m hj' hm hj
    exact hne he

/-! ## Embeddings from places -/

/-- A store embeds into one that has its units in other places, if what it has besides has none of
the paths that the modules of `S` name. -/
theorem Embeds.of_units {ρ : Renumbering} {s s' : Store} {S : ModuleId → Prop} (h : s.Built)
    (h' : s'.Built) (hu : ∀ m, s'.get? (ρ.module m) = (s.get? m).map (DeclUnit.renumber ρ.decl))
    (hnew : ∀ m' u', s'.get? m' = some u' → (∀ m, ρ.module m ≠ m') →
      ∀ m u, S m → s.get? m = some u → u'.path ∉ u.specifiers)
    (hS : ∀ {m u x t}, S m → s.get? m = some u → x ∈ u.specifiers → s.lookup x = some t → S t) :
    s.Embeds ρ s' S where
  built := h
  built' := h'
  unit := hu
  closed := hS
  lookup {m u x} hm hmu hx := by
    refine Option.ext fun m' => ?_
    rw [h'.lookup_eq_some, Option.map_eq_some_iff]
    constructor
    · rintro ⟨u', hu', rfl⟩
      by_cases hi : ∃ k, ρ.module k = m'
      · obtain ⟨k, rfl⟩ := hi
        rw [hu, Option.map_eq_some_iff] at hu'
        obtain ⟨v, hv, rfl⟩ := hu'
        exact ⟨k, h.lookup_eq_some.2 ⟨v, hv, rfl⟩, rfl⟩
      · exact absurd hx (hnew m' u' hu' (fun k hk => hi ⟨k, hk⟩) m u hm hmu)
    · rintro ⟨k, hk, rfl⟩
      obtain ⟨v, hv, rfl⟩ := h.lookup_eq_some.1 hk
      exact ⟨v.renumber ρ.decl, by rw [hu, hv]; rfl, rfl⟩

/-- A path stays with its unit. -/
theorem Embeds.lookup_unit {ρ : Renumbering} {s s' : Store} {S : ModuleId → Prop}
    (h : s.Embeds ρ s' S) {path : String} {m : ModuleId} (hm : s.lookup path = some m) :
    s'.lookup path = some (ρ.module m) := by
  obtain ⟨u, hu, hpath⟩ := h.built.lookup_eq_some.1 hm
  exact h.built'.lookup_eq_some.2 ⟨_, (h.unit m).trans (congrArg _ hu), hpath⟩

/-! ## A unit more -/

/-- The numbers after `k` of them come in from `n` on. -/
def shiftFrom (n k i : Nat) : Nat := if i < n then i else i + k

/-- The numbers after a block of `p` of them, from `n` on, changes places with the next `q`. -/
def swapBlocks (n p q i : Nat) : Nat :=
  if i < n then i else if i < n + p then i + q else if i < n + p + q then i - p else i

theorem shiftFrom_strictMono (n k : Nat) : StrictMono (shiftFrom n k) := by
  intro i j h
  unfold shiftFrom
  split <;> split <;> omega

theorem shiftFrom_before {n k i : Nat} (h : i < n) : shiftFrom n k i = i := if_pos h

theorem shiftFrom_after (n k i : Nat) : shiftFrom n k (n + i) = n + k + i := by
  rw [shiftFrom, if_neg (by omega), Nat.add_right_comm]

theorem swapBlocks_before {n p q i : Nat} (h : i < n) : swapBlocks n p q i = i := if_pos h

theorem swapBlocks_first {n p q i : Nat} (h : i < p) : swapBlocks n p q (n + i) = n + q + i := by
  rw [swapBlocks, if_neg (by omega), if_pos (by omega), Nat.add_right_comm]

theorem swapBlocks_second {n p q i : Nat} (h : i < q) : swapBlocks n p q (n + p + i) = n + i := by
  rw [swapBlocks, if_neg (by omega), if_neg (by omega), if_pos (by omega)]
  omega

theorem swapBlocks_after (n p q i : Nat) : swapBlocks n p q (n + p + q + i) = n + q + p + i := by
  rw [swapBlocks, if_neg (by omega), if_neg (by omega), if_neg (by omega)]
  omega

theorem swapBlocks_swapBlocks (n p q i : Nat) : swapBlocks n q p (swapBlocks n p q i) = i := by
  unfold swapBlocks
  repeat' split
  all_goals omega

theorem swapBlocks_injective (n p q : Nat) : Function.Injective (swapBlocks n p q) :=
  Function.LeftInverse.injective (swapBlocks_swapBlocks n p q)

theorem getElem?_shiftFrom {xs : List α} {n : Nat} (hn : xs.length = n) (ys : List α) (x : α)
    (m : Nat) : (xs ++ x :: ys)[shiftFrom n 1 m]? = (xs ++ ys)[m]? := by
  subst hn
  unfold shiftFrom
  split
  · rename_i h
    rw [List.getElem?_append_left h, List.getElem?_append_left h]
  · rename_i h
    obtain ⟨k, rfl⟩ := Nat.exists_eq_add_of_le (Nat.le_of_not_lt h)
    simp [List.getElem?_append_right, Nat.add_assoc]

theorem getElem?_swapBlocks {xs : List α} {n : Nat} (hn : xs.length = n) (ys : List α) (x y : α)
    (m : Nat) : (xs ++ y :: x :: ys)[swapBlocks n 1 1 m]? = (xs ++ x :: y :: ys)[m]? := by
  subst hn
  unfold swapBlocks
  split
  · rename_i h
    rw [List.getElem?_append_left h, List.getElem?_append_left h]
  · rename_i h
    obtain ⟨k, rfl⟩ := Nat.exists_eq_add_of_le (Nat.le_of_not_lt h)
    match k with
    | 0 => simp
    | 1 => simp
    | k + 2 =>
      have h1 : ¬ xs.length + (k + 2) < xs.length + 1 := by omega
      have h2 : ¬ xs.length + (k + 2) < xs.length + 1 + 1 := by omega
      simp [h1, h2, List.getElem?_append_right]

section Insert
variable (a b : List DeclUnit) (u : DeclUnit)

/-- The numbers after `u` comes in behind the units `a`. -/
def insertion : Renumbering where
  module := shiftFrom a.length 1
  decl := shiftFrom (slotCount a) (Statement.listSlots u.statements).length
  module_injective := (shiftFrom_strictMono _ _).injective
  decl_injective := (shiftFrom_strictMono _ _).injective

theorem unit_insertion (m : ModuleId) : (storeOf (a ++ u :: b)).get? ((insertion a u).module m)
    = ((storeOf (a ++ b)).get? m).map (DeclUnit.renumber (insertion a u).decl) := by
  have ha : Shifts (insertion a u).decl 0 0 (slotCount a) := by
    intro i hi
    rw [Nat.zero_add]
    exact shiftFrom_before hi
  have hb : Shifts (insertion a u).decl (slotCount a)
      (slotCount a + (Statement.listSlots u.statements).length) (slotCount b) :=
    fun i _ => shiftFrom_after _ _ i
  simp only [storeOf, get?, numbered_append, numbered, Nat.zero_add, ← List.getElem?_map,
    List.map_append, map_numbered ha, map_numbered hb]
  exact getElem?_shiftFrom (length_numbered 0 a) _ _ m

variable {a b u} {S : ModuleId → Prop}

/-- A unit more changes nothing for modules that do not name it. Every place but that of the new
unit is the place of an old one. -/
theorem embeds_insertion (h : Distinct (a ++ u :: b))
    (hS : ∀ {m v x t}, S m → (storeOf (a ++ b)).get? m = some v → x ∈ v.specifiers →
      (storeOf (a ++ b)).lookup x = some t → S t)
    (hu : ∀ m v, S m → (storeOf (a ++ b)).get? m = some v → u.path ∉ v.specifiers) :
    (storeOf (a ++ b)).Embeds (insertion a u) (storeOf (a ++ u :: b)) S := by
  have hab : Distinct (a ++ b) := h.sublist ((List.sublist_cons_self u b).append_left a)
  refine .of_units hab.built h.built (unit_insertion a b u) (fun m' u' hm' hnew => ?_) hS
  have hplace : m' = a.length := by
    rcases Nat.lt_trichotomy m' a.length with hlt | heq | hlt
    · exact absurd (shiftFrom_before hlt) (hnew m')
    · exact heq
    · obtain ⟨i, rfl⟩ := Nat.exists_eq_add_of_le hlt
      exact absurd (shiftFrom_after _ 1 i) (hnew (a.length + i))
  have hpath : u'.path = u.path := by
    simp only [hplace, storeOf, get?, numbered_append, numbered] at hm'
    rw [← length_numbered 0 a, List.getElem?_append_right (Nat.le_refl _), Nat.sub_self] at hm'
    cases hm'
    rfl
  rw [hpath]
  exact hu

end Insert

section Swap
variable (a b : List DeclUnit) (u v : DeclUnit)

/-- The numbers after the units `u` and `v` behind `a` change places. -/
def exchange : Renumbering where
  module := swapBlocks a.length 1 1
  decl := swapBlocks (slotCount a) (Statement.listSlots u.statements).length
    (Statement.listSlots v.statements).length
  module_injective := swapBlocks_injective _ _ _
  decl_injective := swapBlocks_injective _ _ _

theorem unit_exchange (m : ModuleId) :
    (storeOf (a ++ v :: u :: b)).get? ((exchange a u v).module m)
      = ((storeOf (a ++ u :: v :: b)).get? m).map (DeclUnit.renumber (exchange a u v).decl) := by
  have ha : Shifts (exchange a u v).decl 0 0 (slotCount a) := by
    intro i hi
    rw [Nat.zero_add]
    exact swapBlocks_before hi
  have hu : Shifts (exchange a u v).decl (slotCount a)
      (slotCount a + (Statement.listSlots v.statements).length)
      (Statement.listSlots u.statements).length := fun i hi => swapBlocks_first hi
  have hv : Shifts (exchange a u v).decl
      (slotCount a + (Statement.listSlots u.statements).length) (slotCount a)
      (Statement.listSlots v.statements).length := fun i hi => swapBlocks_second hi
  have hb : Shifts (exchange a u v).decl
      (slotCount a + (Statement.listSlots u.statements).length
        + (Statement.listSlots v.statements).length)
      (slotCount a + (Statement.listSlots v.statements).length
        + (Statement.listSlots u.statements).length) (slotCount b) :=
    fun i _ => swapBlocks_after _ _ _ i
  simp only [storeOf, get?, numbered_append, numbered, Nat.zero_add, ← List.getElem?_map,
    List.map_append, List.map_cons, DeclUnit.renumber, map_numbered ha, map_numbered hb,
    Statement.renumberList_assignList u.statements hu,
    Statement.renumberList_assignList v.statements hv]
  exact getElem?_swapBlocks (length_numbered 0 a) _ _ _ m

variable {a b u v}

/-- Two neighbours that change places change nothing for any module. The exchange is its own inverse
on places. -/
theorem embeds_exchange (h : Distinct (a ++ u :: v :: b)) :
    (storeOf (a ++ u :: v :: b)).Embeds (exchange a u v) (storeOf (a ++ v :: u :: b))
      fun _ => True := by
  have h' : Distinct (a ++ v :: u :: b) := h.perm ((List.Perm.swap v u b).append_left a)
  refine .of_units h.built h'.built (unit_exchange a b u v) (fun m' u' _ hnew => ?_)
    fun _ _ _ _ => trivial
  exact absurd (swapBlocks_swapBlocks _ 1 1 m') (hnew (swapBlocks a.length 1 1 m'))

end Swap

end Store

end DeclBundle
