import DeclBundle.Names.Naming
import DeclBundle.Proofs.Names.Given

/-!
# Names are given greedily

Of all requests for names, those count that are wanted and are the first for their owner
(`Request.walk`). One after the other they get the name that they ask for, or its first numbered
form, that is neither reserved nor the final name of one before (`Naming.names_greedy`). Later
requests change nothing about it (`Greedy.gains`), so the names can be read off at the end.
-/

namespace DeclBundle

/-- `name` is `preferred` if that is not taken, else its first numbered form that is not. -/
def FreeForm (taken : String → Prop) (preferred name : String) : Prop :=
  ¬ taken preferred ∧ name = preferred ∨ taken preferred ∧ FirstFree taken preferred name

theorem FreeForm.congr {taken taken' : String → Prop} (h : ∀ x, taken x ↔ taken' x)
    {preferred name : String} (hf : FreeForm taken preferred name) :
    FreeForm taken' preferred name := by
  rcases hf with ⟨ht, rfl⟩ | ⟨ht, hf⟩
  · exact .inl ⟨fun ht' => ht ((h _).2 ht'), rfl⟩
  · exact .inr ⟨(h _).1 ht, hf.congr h⟩

/-- The name that is given out is the free form of the one that is asked for. -/
theorem Scopes.freeForm_choose (s : Scopes) (preferred : String) :
    FreeForm (· ∈ s.taken) preferred (s.choose preferred) := by
  unfold choose
  split
  · rename_i hfree
    exact .inl ⟨by simpa [isFree] using hfree, rfl⟩
  · rename_i hfree
    exact .inr ⟨mem_taken_of_isFree hfree, firstFree_unusedName s.taken preferred⟩

namespace FinalNames

namespace Request

/-- The requests so far that count, and one more if it is wanted and the first for its owner. -/
def pushFirst (c : NamingContext) (walk : List Request) (r : Request) : List Request :=
  if r.wanted c ∧ r.owner ∉ walk.map owner then walk ++ [r] else walk

/-- The requests that count, in the order in which names are given. -/
def walk (c : NamingContext) (trees : List ModuleTree) : List Request :=
  (all c trees).foldl (pushFirst c) []

/-- Requests for one symbol ask for one name. -/
theorem preferred_of_symbol {r : Request} {m : ModuleId} {given : String}
    (h : r.owner = .symbol m given) : r.preferred = given := by
  cases r with
  | symbol m' id given' =>
    cases h
    rfl
  | _ => cases h

end Request

open Request

/-- The final names after the requests of `walk`, one for each owner. -/
structure Greedy (reserved : List String) (walk : List Request) (n : FinalNames) : Prop where
  taken : ∀ x, x ∈ n.scopes.taken ↔ x ∈ reserved ∨ ∃ r ∈ walk, n.nameOf? r.owner = some x
  nodup : (walk.map owner).Nodup
  named : ∀ o, (∃ x, n.nameOf? o = some x) ↔ o ∈ walk.map owner
  free : ∀ before r after, walk = before ++ r :: after → ∃ x, n.nameOf? r.owner = some x
    ∧ FreeForm (fun y => y ∈ reserved ∨ ∃ r' ∈ before, n.nameOf? r'.owner = some y) r.preferred x
  row : ∀ b ∈ n.topLevel.values,
    ∃ r ∈ walk, b.given = r.preferred ∧ n.nameOf? r.owner = some b.name

variable {c : NamingContext} {reserved : List String} {firstId : DeclId} {rs : List Request}
  {walk : List Request} {n n' : FinalNames}

/-- A row for a declaration whose owner has its name leaves the names as they are. -/
theorem Greedy.addRow (hn : Sound c reserved firstId rs n) (h : Greedy reserved walk n)
    {r : Request} (hr : r ∈ walk) {id : DeclId} {b : FinalName} (hb : b.given = r.preferred)
    (hname : n.nameOf? r.owner = some b.name) : Greedy reserved walk (n.addRow id b) := by
  have heq : (n.addRow id b).nameOf? = n.nameOf? := funext (hn.nameOf?_addRow id b)
  refine ⟨?_, h.nodup, ?_, ?_, fun b' hb' => ?_⟩ <;> rw [heq]
  · exact h.taken
  · exact h.named
  · exact h.free
  · rcases Table.mem_values_insertNew hb' with hb' | rfl
    · exact h.row b' hb'
    · exact ⟨r, hr, hb, hname⟩

theorem Greedy.not_mem_of_unnamed (h : Greedy reserved walk n) {o : Owner}
    (ho : n.nameOf? o = none) : o ∉ walk.map owner := by
  intro hm
  obtain ⟨x, hx⟩ := (h.named o).2 hm
  rw [ho] at hx
  cases hx

/-- The requests before keep their names when an owner gains its first one. -/
theorem Greedy.nameOf?_kept (h : Greedy reserved walk n) {o : Owner} {x : String}
    (hg : Gains n n' o x) (ho : n.nameOf? o = none) {r : Request} (hr : r ∈ walk) :
    n'.nameOf? r.owner = n.nameOf? r.owner := by
  have hne : r.owner ≠ o := fun he =>
    h.not_mem_of_unnamed ho (he ▸ List.mem_map_of_mem hr)
  rw [hg.name, if_neg hne]

/-- The first request for an owner is given the free form of what it asks for; what was given before
stays. -/
theorem Greedy.gains (h : Greedy reserved walk n) {r : Request} {x : String}
    (hg : Gains n n' r.owner x) (ho : n.nameOf? r.owner = none)
    (hx : FreeForm (· ∈ n.scopes.taken) r.preferred x)
    (hrow : ∀ b ∈ n'.topLevel.values,
      b ∈ n.topLevel.values ∨ b.given = r.preferred ∧ b.name = x) :
    Greedy reserved (walk ++ [r]) n' := by
  have hself : n'.nameOf? r.owner = some x := by rw [hg.name, if_pos rfl]
  have hold : ∀ r' ∈ walk, n'.nameOf? r'.owner = n.nameOf? r'.owner := fun r' hr' =>
    h.nameOf?_kept hg ho hr'
  have hsome : ∀ {rs' : List Request}, rs' ⊆ walk → ∀ y,
      (∃ r' ∈ rs', n.nameOf? r'.owner = some y) ↔ ∃ r' ∈ rs', n'.nameOf? r'.owner = some y := by
    intro rs' hsub y
    constructor
    · rintro ⟨r', hr', hy⟩
      exact ⟨r', hr', (hold r' (hsub hr')).trans hy⟩
    · rintro ⟨r', hr', hy⟩
      exact ⟨r', hr', (hold r' (hsub hr')).symm.trans hy⟩
  constructor
  · intro y
    rw [hg.taken, h.taken, hsome (List.Subset.refl walk)]
    simp only [List.mem_append, List.mem_singleton, or_and_right, exists_or, exists_eq_left, hself,
      Option.some.injEq, or_assoc]
    simp only [eq_comm]
  · rw [List.map_append]
    refine h.nodup.append (List.nodup_singleton _) ?_
    simpa [List.disjoint_singleton] using h.not_mem_of_unnamed ho
  · intro o
    rw [hg.name, List.map_append, List.mem_append, ← h.named o]
    by_cases he : o = r.owner <;> simp [he]
  · intro before r' after hsplit
    rcases List.eq_nil_or_concat after with rfl | ⟨after, last, rfl⟩
    · obtain ⟨rfl, hlast⟩ := List.append_inj' hsplit rfl
      cases hlast
      refine ⟨x, hself, hx.congr fun y => ?_⟩
      rw [h.taken, hsome (List.Subset.refl walk)]
    · have hsplit' : walk ++ [r] = (before ++ r' :: after) ++ [last] := by
        simpa using hsplit
      obtain ⟨rfl, -⟩ := List.append_inj' hsplit' rfl
      obtain ⟨y, hy, hfree⟩ := h.free before r' after rfl
      refine ⟨y, (hold r' (by simp)).trans hy, hfree.congr fun z => ?_⟩
      rw [hsome (List.subset_append_left before (r' :: after))]
  · intro b hb
    rcases hrow b hb with hb | ⟨hgiven, rfl⟩
    · obtain ⟨r', hr', hp, hname⟩ := h.row b hb
      exact ⟨r', List.mem_append_left _ hr', hp, (hold r' hr').trans hname⟩
    · exact ⟨r, by simp, hgiven, hself⟩

/-! ## One request, all requests -/

theorem values_addFresh (n : FinalNames) (module : Option ModuleId) (name : String)
    (terminal : DeclId) (o : Owner) {b : FinalName}
    (hb : b ∈ (n.addFresh module name terminal o).topLevel.values) : b ∈ n.topLevel.values
      ∨ b.given = (if name = "" then "ns" else name) ∧ b.name = n.freshName module name := by
  rw [addFresh, (record_frame _ _ _ _).1] at hb
  refine (Table.mem_values_insertNew hb).imp_right ?_
  rintro rfl
  exact ⟨rfl, rfl⟩

theorem pushFirst_of_named (h : Greedy reserved walk n) {r : Request} {x : String}
    (hr : n.nameOf? r.owner = some x) : pushFirst c walk r = walk :=
  if_neg fun hp => hp.2 ((h.named r.owner).1 ⟨x, hr⟩)

theorem pushFirst_of_new (h : Greedy reserved walk n) {r : Request} (hw : r.wanted c = true)
    (hr : n.nameOf? r.owner = none) : pushFirst c walk r = walk ++ [r] :=
  if_pos ⟨hw, h.not_mem_of_unnamed hr⟩

/-- Serving a request keeps the assignment greedy along the requests served so far. The first request
for a symbol need not be the one that is served, but it asked for the same name. -/
theorem Greedy.serve (hn : Sound c reserved firstId rs n) (h : Greedy reserved walk n)
    (r : Request) : Greedy reserved (pushFirst c walk r) (n.serve c r) := by
  have hstep := serve_step c n r
  generalize n.serve c r = n' at hstep ⊢
  cases hstep with
  | @known m id given name hs =>
    have hs' : n.nameOf? (owner (.symbol m id given)) = some name := hs
    rw [pushFirst_of_named h hs']
    obtain ⟨r', hr', ho⟩ := List.mem_map.1 ((h.named _).1 ⟨name, hs'⟩)
    exact h.addRow hn hr' (preferred_of_symbol ho).symm (ho ▸ hs')
  | @symbol m id given hs =>
    have hs' : n.nameOf? (owner (.symbol m id given)) = none := hs
    rw [pushFirst_of_new h rfl hs']
    have hfirst := h.gains (r := .symbol m id given) (addSymbol_gains hn hs) hs'
      (by rw [Scopes.bind_fst]; exact n.scopes.freeForm_choose given) fun b hb => .inl hb
    exact hfirst.addRow (r := .symbol m id given) (hn.addSymbol hs) (by simp) rfl
      (hn.symbol?_addSymbol hs)
  | fresh module name terminal ho hw hi hp =>
    have hnone : n.nameOf? r.owner = none := by
      rw [nameOf?_eq_bind ho, hi]
      rfl
    rw [pushFirst_of_new h hw hnone]
    refine h.gains (addFresh_gains module name terminal hn ho) hnone ?_ fun b hb => ?_
    · rw [freshName, Scopes.bind_fst, hp]
      exact n.scopes.freeForm_choose _
    · rw [hp]
      exact n.values_addFresh module name terminal r.owner hb
  | idle ho hs =>
    by_cases hw : r.wanted c = true
    · obtain ⟨id, hid⟩ := hs hw
      obtain ⟨x, hx⟩ := hn.exists_name hid
      rwa [pushFirst_of_named h ((nameOf?_of_idOf? hid).trans hx)]
    · rwa [pushFirst, if_neg fun hp => hw hp.1]

theorem Greedy.foldl_serve : ∀ {rs' rs walk : List Request} {n : FinalNames},
    Sound c reserved firstId rs n → Greedy reserved walk n →
      (∀ m id given, .symbol m id given ∈ rs' → id < firstId) →
        Greedy reserved (rs'.foldl (pushFirst c) walk) (rs'.foldl (FinalNames.serve c) n)
  | [], _, _, _, _, h, _ => h
  | r :: rs', rs, walk, n, hn, h, hr => by
    have hserved := hn.serve r fun m id given he => hr m id given (he ▸ List.mem_cons_self)
    rw [List.foldl_cons, List.foldl_cons]
    exact Greedy.foldl_serve hserved (h.serve hn r) fun m id given hm =>
      hr m id given (List.mem_cons_of_mem _ hm)

theorem greedy_reserve (reserved : List String) (firstId : DeclId) :
    Greedy reserved [] (reserve { nextId := firstId } reserved) := by
  refine ⟨fun x => ?_, List.nodup_nil, fun o => ?_, fun before r after hsplit => ?_, fun b hb => ?_⟩
  · have ht := (Scopes.taken_foldl_reserve reserved (s := {}) rfl).2 x
    simpa [reserve, Scopes.taken, Table.keys] using ht
  · have hnone : (reserve { nextId := firstId } reserved).nameOf? o = none := by
      cases o <;> rfl
    simp [hnone]
  · simp at hsplit
  · simp [reserve, Table.values] at hb

/-- The names that are chosen for modules whose identities are below `firstId`. -/
theorem greedy_choose {trees : List ModuleTree} (h : ∀ t ∈ trees,
      ∀ b ∈ topBindings t.module t.path t.statements, b.id < firstId) :
    Greedy reserved (Request.walk c trees) (choose c reserved firstId trees) := by
  rw [choose_eq]
  refine Greedy.foldl_serve (sound_reserve c reserved firstId) (greedy_reserve reserved firstId)
    fun m id given hm => ?_
  obtain ⟨t, ht, b, hb, -, rfl, -⟩ := (symbol_mem_all c).1 hm
  exact h t ht b hb

/-- Where all ask for different names and none of them is reserved, all get what they ask for. The
induction is on how many requests come before. -/
theorem Greedy.names_of_nodup (h : Greedy reserved walk n)
    (hnodup : (walk.map preferred).Nodup) (hfree : ∀ r ∈ walk, r.preferred ∉ reserved) :
    ∀ r ∈ walk, n.nameOf? r.owner = some r.preferred := by
  have key : ∀ k before r after, before.length = k → walk = before ++ r :: after →
      n.nameOf? r.owner = some r.preferred := by
    intro k
    induction k using Nat.strongRecOn with
    | ind k ih =>
      rintro before r after rfl hsplit
      obtain ⟨x, hx, hform⟩ := h.free before r after hsplit
      rcases hform with ⟨-, rfl⟩ | ⟨ht, -⟩
      · exact hx
      · rcases ht with ht | ⟨r', hr', ht⟩
        · exact absurd ht (hfree r (by simp [hsplit]))
        · obtain ⟨before', after', rfl⟩ := List.append_of_mem hr'
          have hname := ih before'.length (by simp) before' r' (after' ++ r :: after) rfl
            (by simp [hsplit])
          have he : r'.preferred = r.preferred := Option.some.inj (hname.symm.trans ht)
          rw [hsplit, List.map_append, List.nodup_append] at hnodup
          exact absurd he (hnodup.2.2 r'.preferred (by simp) r.preferred (by simp))
  intro r hr
  obtain ⟨before, after, hsplit⟩ := List.append_of_mem hr
  exact key before.length before r after rfl hsplit

theorem Greedy.renamedCount_eq_zero (h : Greedy reserved walk n)
    (hnames : ∀ r ∈ walk, n.nameOf? r.owner = some r.preferred) : n.renamedCount = 0 := by
  refine List.countP_eq_zero.2 fun b hb => ?_
  obtain ⟨r, hr, hgiven, hname⟩ := h.row b hb
  have he : b.given = b.name := by
    rw [hgiven]
    exact Option.some.inj ((hnames r hr).symm.trans hname)
  simp [FinalName.isRenamed, he]

end FinalNames

namespace Naming

open FinalNames

/-- Whatever is reached and reserved, naming modules names the owners of the requests of
`Request.walk`, each once and no others. Every request in turn gets the name that it asks for if
that is neither reserved nor the final name of a request before it, and else its first numbered form
that is neither. All top-level bindings have these names; so where the names that are asked for are
different and not reserved, nothing is renamed. The identities of the modules are to be below the
first one that is given out, as they are when both come from one store. -/
theorem names_greedy (c : NamingContext) (reserved : List String) (firstId : DeclId)
    (trees : List ModuleTree)
    (h : ∀ t ∈ trees, ∀ b ∈ topBindings t.module t.path t.statements, b.id < firstId) :
    let names := (run c reserved firstId trees).names
    let walk := Request.walk c trees
    (walk.map Request.owner).Nodup
      ∧ (∀ o, (∃ x, names.nameOf? o = some x) ↔ ∃ r ∈ walk, r.owner = o)
      ∧ (∀ before r after, walk = before ++ r :: after →
          ∃ x, names.nameOf? r.owner = some x
            ∧ FreeForm (fun y => y ∈ reserved ∨ ∃ r' ∈ before, names.nameOf? r'.owner = some y)
              r.preferred x)
      ∧ (∀ b ∈ names.topLevel.values,
          ∃ r ∈ walk, b.given = r.preferred ∧ names.nameOf? r.owner = some b.name)
      ∧ ((walk.map Request.preferred).Nodup → (∀ r ∈ walk, r.preferred ∉ reserved) →
          (∀ r ∈ walk, names.nameOf? r.owner = some r.preferred) ∧ names.renamedCount = 0) := by
  intro names walk
  have hg : Greedy reserved walk names := greedy_choose h
  refine ⟨hg.nodup, fun o => ?_, hg.free, hg.row, fun hnodup hfree => ?_⟩
  · rw [hg.named, List.mem_map]
  · have hnames := hg.names_of_nodup hnodup hfree
    exact ⟨hnames, hg.renamedCount_eq_zero hnames⟩

/-- Two modules that both declare `T`, the second also `T_$0`. The first imports the default, the
namespace and a library that the second imports too. -/
def numberedUnits : List DeclUnit :=
  [⟨"a.ts", [.imports ⟨"lib", none, none, [⟨"Widget", "W"⟩], false⟩,
      .imports ⟨"b.ts", some "D", some "all", [], false⟩, .exports ⟨[⟨"D", "D"⟩], none, false⟩,
      .declaration ⟨none, .none, none, .interface "T" [] [] []⟩]⟩,
    ⟨"b.ts", [.imports ⟨"lib", none, none, [⟨"Widget", "V"⟩], false⟩,
      .declaration ⟨none, { exported := true, default := true }, none, .interface "C" [] [] []⟩,
      .declaration ⟨none, .none, none, .interface "T" [] [] []⟩,
      .declaration ⟨none, .none, none, .interface "T_$0" [] [] []⟩]⟩]

/-- The store of `numberedUnits`. -/
def numberedStore : Store := ((Store.ofUnits numberedUnits).toOption).getD {}

/-- All that the two modules declare is reached, and what they import. -/
def numberedContext : NamingContext where
  linker := numberedStore.linker {}
  reach := { decls := [0, 1, 2, 3], namespaces := [1], imports := [⟨"lib", .named "Widget"⟩] }
  entry := 0

/-- Both modules of `numberedStore`, shaken. -/
def numberedTrees : List ModuleTree := Shake.modules numberedStore [0, 1] numberedContext.reach

/-- The number that the second `T` gets makes the declared `T_$0` get another one. On its own and
with nothing reserved, the first module keeps its names. -/
theorem names_greedy_numbered :
    let walk := Request.walk numberedContext numberedTrees
    let names := (run numberedContext ["W"] 4 numberedTrees).names
    (∀ t ∈ numberedTrees, ∀ b ∈ topBindings t.module t.path t.statements, b.id < 4)
      ∧ walk.map (fun r => (r.preferred, names.nameOf? r.owner))
          = [("W", some "W_$0"), ("D", some "D"), ("all", some "all"), ("T", some "T"),
            ("C", some "C"), ("T", some "T_$0"), ("T_$0", some "T_$0_$0")]
      ∧ (walk.map Request.owner).Nodup
      ∧ (∃ x, names.nameOf? (.symbol 1 "T_$0") = some x
          ∧ FreeForm (fun y => y ∈ ["W"] ∨ ∃ r ∈ walk.take 6, names.nameOf? r.owner = some y)
            "T_$0" x)
      ∧ (run numberedContext [] 4 (numberedTrees.take 1)).names.renamedCount = 0 := by
  intro walk names
  have hids : ∀ t ∈ numberedTrees, ∀ b ∈ topBindings t.module t.path t.statements, b.id < 4 := by
    decide +kernel
  have hsplit : walk = walk.take 6 ++ .symbol 1 3 "T_$0" :: [] := by decide +kernel
  obtain ⟨hnodup, -, hfree, -, -⟩ := names_greedy numberedContext ["W"] 4 numberedTrees hids
  obtain ⟨-, -, -, -, hplain⟩ := names_greedy numberedContext [] 4 (numberedTrees.take 1)
    fun t ht => hids t (List.mem_of_mem_take ht)
  exact ⟨hids, by decide +kernel, hnodup, hfree _ _ _ hsplit,
    (hplain (by decide +kernel) fun _ _ => List.not_mem_nil).2⟩

end Naming

end DeclBundle
