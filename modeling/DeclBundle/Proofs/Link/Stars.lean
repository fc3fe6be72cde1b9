import DeclBundle.Link.Surface
import DeclBundle.Proofs.Link.Resolve
import DeclBundle.Proofs.Names.Scopes

/-!
# What star sources add to a surface

The entries that star sources provide are gathered by name (`Linker.foldl_addStar`), each different
resolution once (`Linker.snd_of_mem_foldl_offer`). Then every name is entered with one of its
resolutions, and the others follow under numbered forms of it (`Linker.foldl_addCandidates`). All
these names were free when they were entered (`Linker.placed_starEntries`), so no entry takes the
place of another.
-/

namespace DeclBundle

/-- An entry that star sources add: the name they provide it under and the name it is listed
under. -/
structure StarEntry where
  origin : String
  name : String
  resolution : Resolution
deriving DecidableEq, Repr

namespace StarEntry

/-- The row of the surface that a star entry becomes. -/
def row (e : StarEntry) : String × Resolution := (e.name, e.resolution)

/-- The row of a star entry under the name that its source gave it. -/
def offer (e : StarEntry) : String × Resolution := (e.origin, e.resolution)

/-- The entry did not keep the name that it came under. -/
def isRenamed (e : StarEntry) : Bool := e.name ≠ e.origin

/-- The report that an entry is listed under another name. -/
def warning (path : String) (e : StarEntry) : Diagnostic :=
  (Cause.ambiguousStarExport e.origin e.name).report path

end StarEntry

namespace Linker

/-! ## Entries under free names -/

/-- The losers of a conflict, each under the first form of the name that is free by then. -/
def losers (reserved : List String) (name : String) :
    List String → List Resolution → List StarEntry
  | _, [] => []
  | taken, r :: rs =>
    let renamed := unusedName (taken ++ reserved) name
    ⟨name, renamed, r⟩ :: losers reserved name (taken ++ [renamed]) rs

/-- What is entered for one name: the policy's choice as it is, then the others. -/
def entriesUnder (policy : StarPolicy) (reserved taken : List String)
    (c : String × List Resolution) : List StarEntry :=
  match inPolicyOrder policy c.2 with
  | [] => []
  | winner :: rest => ⟨c.1, c.1, winner⟩ :: losers reserved c.1 (taken ++ [c.1]) rest

/-- What is entered for all names, beside the names that are taken. -/
def starEntries (policy : StarPolicy) (reserved : List String) :
    List String → List (String × List Resolution) → List StarEntry
  | _, [] => []
  | taken, c :: cs =>
    let es := entriesUnder policy reserved taken c
    es ++ starEntries policy reserved (taken ++ es.map (·.name)) cs

/-- Each entry has a name that was free by then, and the first free form if it is renamed. -/
def Placed (reserved : List String) : List String → List StarEntry → Prop
  | _, [] => True
  | taken, e :: es =>
    e.name ∉ taken ∧ (e.name ≠ e.origin → FirstFree (· ∈ taken ++ reserved) e.origin e.name)
      ∧ Placed reserved (taken ++ [e.name]) es

variable {policy : StarPolicy} {reserved taken : List String} {es es' : List StarEntry}

theorem placed_append : ∀ {es taken}, Placed reserved taken (es ++ es')
    ↔ Placed reserved taken es ∧ Placed reserved (taken ++ es.map (·.name)) es'
  | [], taken => by simp [Placed]
  | e :: es, taken => by
    simp [Placed, placed_append, and_assoc]

theorem Placed.nodup : ∀ {es taken}, Placed reserved taken es → taken.Nodup →
    (taken ++ es.map (·.name)).Nodup
  | [], taken, _, hn => by simpa using hn
  | e :: es, taken, h, hn => by
    have ht : (taken ++ [e.name]).Nodup := by
      rw [← List.concat_eq_append]
      exact hn.concat h.1
    simpa using h.2.2.nodup ht

/-- A renamed entry has the first form of its name that neither an entry before it nor a reserved
name takes. -/
theorem Placed.firstFree {before after : List StarEntry} {e : StarEntry}
    (h : Placed reserved taken (before ++ e :: after)) (he : e.name ≠ e.origin) :
    FirstFree (· ∈ taken ++ before.map (·.name) ++ reserved) e.origin e.name :=
  (placed_append.1 h).2.2.1 he

theorem placed_losers (name : String) : ∀ (rs : List Resolution) (taken : List String),
    Placed reserved taken (losers reserved name taken rs)
  | [], _ => trivial
  | r :: rs, taken => by
    have hfree := firstFree_unusedName (taken ++ reserved) name
    have hnot := unusedName_not_mem (taken ++ reserved) name
    rw [List.mem_append, not_or] at hnot
    exact ⟨hnot.1, fun _ => hfree, placed_losers name rs _⟩

theorem name_of_mem_losers {name : String} {e : StarEntry} : ∀ {rs : List Resolution}
    {taken : List String}, e ∈ losers reserved name taken rs →
      e.origin = name ∧ e.name ∉ reserved ∧ ∃ n, e.name = suffixed name n
  | r :: rs, taken, h => by
    rcases List.mem_cons.1 h with rfl | h
    · obtain ⟨n, hn, hfree, -⟩ := firstFree_unusedName (taken ++ reserved) name
      exact ⟨rfl, fun hm => hfree (List.mem_append_right _ hm), n, hn⟩
    · exact name_of_mem_losers h

theorem isRenamed_of_mem_losers {name : String} {e : StarEntry} {rs : List Resolution}
    (h : e ∈ losers reserved name taken rs) : e.isRenamed = true := by
  obtain ⟨rfl, -, n, hn⟩ := name_of_mem_losers h
  simp only [StarEntry.isRenamed, hn, decide_eq_true_eq]
  exact suffixed_ne _ n

theorem placed_entriesUnder {c : String × List Resolution} (h : c.1 ∉ taken) :
    Placed reserved taken (entriesUnder policy reserved taken c) := by
  unfold entriesUnder
  split
  · trivial
  · exact ⟨h, fun hne => absurd rfl hne, placed_losers _ _ _⟩

theorem name_of_mem_entriesUnder {c : String × List Resolution} {e : StarEntry}
    (h : e ∈ entriesUnder policy reserved taken c) :
    e.origin = c.1 ∧ (e.name = c.1 ∨ e.name ∉ reserved ∧ ∃ n, e.name = suffixed c.1 n) := by
  unfold entriesUnder at h
  split at h
  · simp at h
  · rcases List.mem_cons.1 h with rfl | h
    · exact ⟨rfl, .inl rfl⟩
    · exact ⟨(name_of_mem_losers h).1, .inr (name_of_mem_losers h).2⟩

/-- The names of what is provided are reserved, so no loser takes the name of what is to come. -/
theorem not_mem_taken_of_entriesUnder {c : String × List Resolution}
    {cs : List (String × List Resolution)} (hr : ∀ d ∈ cs, d.1 ∈ reserved)
    (hn : ((c :: cs).map Prod.fst).Nodup) (ht : ∀ d ∈ cs, d.1 ∉ taken) :
    ∀ d ∈ cs, d.1 ∉ taken ++ (entriesUnder policy reserved taken c).map (·.name) := by
  intro d hd hm
  rcases List.mem_append.1 hm with hm | hm
  · exact ht d hd hm
  · obtain ⟨e, he, hname⟩ := List.mem_map.1 hm
    rcases (name_of_mem_entriesUnder he).2 with h | ⟨h, -⟩
    · refine (List.nodup_cons.1 hn).1 ?_
      rw [← h, hname]
      exact List.mem_map.2 ⟨d, hd, rfl⟩
    · exact h (hname ▸ hr d hd)

theorem placed_starEntries : ∀ {cs : List (String × List Resolution)} {taken : List String},
    (∀ c ∈ cs, c.1 ∈ reserved) → (cs.map Prod.fst).Nodup → (∀ c ∈ cs, c.1 ∉ taken) →
      Placed reserved taken (starEntries policy reserved taken cs)
  | [], _, _, _, _ => trivial
  | c :: cs, taken, hr, hn, ht => by
    simp only [List.forall_mem_cons] at hr ht
    refine placed_append.2 ⟨placed_entriesUnder ht.1, ?_⟩
    exact placed_starEntries hr.2 (List.nodup_cons.1 hn).2
      (not_mem_taken_of_entriesUnder hr.2 hn ht.2)

theorem offers_losers (name : String) : ∀ (rs : List Resolution) (taken : List String),
    (losers reserved name taken rs).map StarEntry.offer = rs.map (name, ·)
  | [], _ => rfl
  | r :: rs, taken => by simp [losers, StarEntry.offer, offers_losers name rs]

/-- Every resolution that is provided is entered once. -/
theorem offers_starEntries : ∀ (cs : List (String × List Resolution)) (taken : List String),
    (starEntries policy reserved taken cs).map StarEntry.offer
      = cs.flatMap fun c => (inPolicyOrder policy c.2).map (c.1, ·)
  | [], _ => rfl
  | c :: cs, taken => by
    have hc : (entriesUnder policy reserved taken c).map StarEntry.offer
        = (inPolicyOrder policy c.2).map (c.1, ·) := by
      unfold entriesUnder
      split
      · rename_i h
        simp [h]
      · rename_i h
        simp [h, offers_losers, StarEntry.offer]
    simp only [starEntries, List.map_append, List.flatMap_cons, hc, offers_starEntries cs]

/-- The policy's choice is entered under the name itself. -/
theorem winner_mem_starEntries {c : String × List Resolution} {winner : Resolution}
    (hw : (inPolicyOrder policy c.2).head? = some winner) :
    ∀ {cs : List (String × List Resolution)} {taken : List String}, c ∈ cs →
      ⟨c.1, c.1, winner⟩ ∈ starEntries policy reserved taken cs
  | c' :: cs, taken, h => by
    simp only [starEntries, List.mem_append]
    rcases List.mem_cons.1 h with rfl | h
    · left
      unfold entriesUnder
      cases hp : inPolicyOrder policy c.2 with
      | nil => simp [hp] at hw
      | cons x xs =>
        simp only [hp, List.head?_cons, Option.some.injEq] at hw
        simp [hw]
    · exact .inr (winner_mem_starEntries hw h)

/-! ## Entering them -/

variable {path : String}

theorem foldl_addLoser (name : String) : ∀ (rs : List Resolution)
    (entries : Table String Resolution) (ds : List Diagnostic),
    rs.foldl (addLoser path name reserved) (entries, ds)
      = (⟨entries.rows ++ (losers reserved name entries.keys rs).map StarEntry.row⟩,
          ds ++ (losers reserved name entries.keys rs).map (StarEntry.warning path))
  | [], entries, ds => by simp [losers]
  | r :: rs, entries, ds => by
    have hnot := unusedName_not_mem (entries.keys ++ reserved) name
    rw [List.mem_append, not_or] at hnot
    rw [List.foldl_cons, addLoser, Table.insert_of_not_mem hnot.1, foldl_addLoser name rs]
    simp [losers, Table.keys, StarEntry.row, StarEntry.warning]

theorem addCandidates_eq {entries : Table String Resolution} {c : String × List Resolution}
    (hk : c.1 ∉ entries.keys) (ds : List Diagnostic) :
    addCandidates policy path reserved (entries, ds) c
      = (⟨entries.rows ++ (entriesUnder policy reserved entries.keys c).map StarEntry.row⟩,
          ds ++ ((entriesUnder policy reserved entries.keys c).filter StarEntry.isRenamed).map
            (StarEntry.warning path)) := by
  obtain ⟨name, provided⟩ := c
  cases hp : inPolicyOrder policy provided with
  | nil => simp [addCandidates, entriesUnder, hp]
  | cons winner rest =>
    have hl : (losers reserved name (entries.keys ++ [name]) rest).filter StarEntry.isRenamed
        = losers reserved name (entries.keys ++ [name]) rest :=
      List.filter_eq_self.2 fun e he => isRenamed_of_mem_losers he
    have hw : StarEntry.isRenamed ⟨name, name, winner⟩ = false := by simp [StarEntry.isRenamed]
    have hkeys : (⟨entries.rows ++ [(name, winner)]⟩ : Table String Resolution).keys
        = entries.keys ++ [name] := by simp [Table.keys]
    simp only [addCandidates, entriesUnder, hp, Table.insert_of_not_mem hk, foldl_addLoser, hkeys,
      List.filter_cons, hw, hl]
    simp [StarEntry.row]

/-- What is provided is entered beside the entries that are there, with a report for every entry
that is renamed. -/
theorem foldl_addCandidates : ∀ {cs : List (String × List Resolution)}
    {entries : Table String Resolution} (ds : List Diagnostic), (∀ c ∈ cs, c.1 ∈ reserved) →
      (cs.map Prod.fst).Nodup → (∀ c ∈ cs, c.1 ∉ entries.keys) →
        cs.foldl (addCandidates policy path reserved) (entries, ds)
          = (⟨entries.rows ++ (starEntries policy reserved entries.keys cs).map StarEntry.row⟩,
              ds ++ ((starEntries policy reserved entries.keys cs).filter StarEntry.isRenamed).map
                (StarEntry.warning path))
  | [], entries, ds, _, _, _ => by simp [starEntries]
  | c :: cs, entries, ds, hr, hn, hk => by
    simp only [List.forall_mem_cons] at hr hk
    have hkeys : (⟨entries.rows ++ (entriesUnder policy reserved entries.keys c).map
          StarEntry.row⟩ : Table String Resolution).keys
        = entries.keys ++ (entriesUnder policy reserved entries.keys c).map (·.name) := by
      simp [Table.keys, StarEntry.row, Function.comp_def]
    have hrest : ∀ d ∈ cs, d.1 ∉ (⟨entries.rows ++ (entriesUnder policy reserved entries.keys
        c).map StarEntry.row⟩ : Table String Resolution).keys := by
      rw [hkeys]
      exact not_mem_taken_of_entriesUnder hr.2 hn hk.2
    rw [List.foldl_cons, addCandidates_eq hk.1,
      foldl_addCandidates _ hr.2 (List.nodup_cons.1 hn).2 hrest, hkeys]
    simp [starEntries]

/-! ## Gathering what is provided -/

/-- Whether an entry of a star source is passed on beside the explicit names. -/
def passes (explicit : List String) (e : String × Resolution) : Bool :=
  e.1 ≠ "default" ∧ e.2 ≠ .unresolved ∧ e.1 ∉ explicit

/-- Adds a resolution to those under a name. -/
def offer (t : Table String (List Resolution)) (e : String × Resolution) :
    Table String (List Resolution) :=
  t.insert e.1 (pushNew ((t.get? e.1).getD []) e.2)

/-- The different resolutions that rows have under a name, in order. -/
def resolutionsUnder (rows : List (String × Resolution)) (name : String) : List Resolution :=
  pushAllNew [] ((rows.filter (·.1 = name)).map Prod.snd)

theorem mem_resolutionsUnder {rows : List (String × Resolution)} {name : String} {r : Resolution} :
    r ∈ resolutionsUnder rows name ↔ (name, r) ∈ rows := by
  simp [resolutionsUnder]

theorem nodup_resolutionsUnder (rows : List (String × Resolution)) (name : String) :
    (resolutionsUnder rows name).Nodup := nodup_pushAllNew _ List.nodup_nil

theorem get?_foldl_offer (name : String) : ∀ (rows : List (String × Resolution))
    (t : Table String (List Resolution)), ((rows.foldl offer t).get? name).getD []
      = pushAllNew ((t.get? name).getD []) ((rows.filter (·.1 = name)).map Prod.snd)
  | [], t => by simp [pushAllNew]
  | (x, r) :: rows, t => by
    rw [List.foldl_cons, get?_foldl_offer name rows, offer, Table.get?_insert]
    by_cases hx : x = name
    · simp [hx, pushAllNew]
    · simp [hx]

theorem keys_foldl_offer : ∀ (rows : List (String × Resolution))
    (t : Table String (List Resolution)), (rows.foldl offer t).keys
      = pushAllNew t.keys (rows.map Prod.fst)
  | [], t => by simp [pushAllNew]
  | e :: rows, t => by
    rw [List.foldl_cons, keys_foldl_offer rows, offer, Table.keys_insert]
    simp [pushAllNew]

variable {rows : List (String × Resolution)}

theorem nodup_keys_foldl_offer : (rows.foldl offer {}).keys.Nodup := by
  rw [keys_foldl_offer]
  exact nodup_pushAllNew _ List.nodup_nil

theorem mem_keys_foldl_offer {name : String} :
    name ∈ (rows.foldl offer {}).keys ↔ ∃ r, (name, r) ∈ rows := by
  rw [keys_foldl_offer]
  simp [Table.keys]

/-- What is gathered under a name are the different resolutions under it. -/
theorem snd_of_mem_foldl_offer {c : String × List Resolution}
    (h : c ∈ (rows.foldl offer {}).rows) : c.2 = resolutionsUnder rows c.1 := by
  have hg := get?_foldl_offer c.1 rows {}
  rw [Table.get?_of_mem_rows nodup_keys_foldl_offer h] at hg
  exact hg

theorem mem_foldl_offer {name : String} {r : Resolution} (h : (name, r) ∈ rows) :
    (name, resolutionsUnder rows name) ∈ (rows.foldl offer {}).rows := by
  obtain ⟨rs, hg⟩ := Table.mem_keys.1 (mem_keys_foldl_offer.2 ⟨r, h⟩)
  have hm := Table.mem_rows_of_get? hg
  obtain rfl : rs = resolutionsUnder rows name := snd_of_mem_foldl_offer hm
  exact hm

/-- The star sources that a walk with this stack goes into. -/
def followed (stack : List ModuleId) (sources : List Provider) : List ModuleId :=
  sources.filterMap fun
    | .external _ => none
    | .internal t => if t ∈ stack then none else some t

theorem mem_followed {stack : List ModuleId} {sources : List Provider} {t : ModuleId} :
    t ∈ followed stack sources ↔ .internal t ∈ sources ∧ t ∉ stack := by
  simp only [followed, List.mem_filterMap]
  constructor
  · rintro ⟨p, hp, h⟩
    split at h
    · cases h
    · split at h
      · cases h
      · cases h
        exact ⟨hp, by assumption⟩
  · rintro ⟨hp, ht⟩
    exact ⟨_, hp, by simp [ht]⟩

theorem candidates_foldl_add (explicit : Table String Resolution) :
    ∀ (rows : List (String × Resolution)) (o : StarOffers),
      (rows.foldl (StarOffers.add explicit) o).candidates
        = (rows.filter (passes explicit.keys)).foldl offer o.candidates
  | [], _ => rfl
  | (x, r) :: rows, o => by
    rw [List.foldl_cons, candidates_foldl_add explicit rows, StarOffers.add, List.filter_cons]
    by_cases h : x = "default" ∨ r = .unresolved ∨ explicit.contains x = true
    · have hp : passes explicit.keys (x, r) = false := by
        rw [Table.contains_iff] at h
        simp only [passes, decide_eq_false_iff_not]
        tauto
      simp [h, hp]
    · have hp : passes explicit.keys (x, r) = true := by
        rw [Table.contains_iff] at h
        simp only [passes, decide_eq_true_eq]
        tauto
      simp only [if_neg h, hp, if_true, List.foldl_cons]
      rfl

/-- What star sources provide is gathered from the surfaces that the walk goes into. -/
theorem foldl_addStar (surface : ModuleId → Surface × List Diagnostic) (stack : List ModuleId)
    (explicit : Table String Resolution) : ∀ (sources : List Provider)
    (acc : StarOffers × List Diagnostic),
      (sources.foldl (addStar surface stack explicit) acc).1.candidates
          = (((followed stack sources).flatMap fun t => (surface t).1.entries.rows).filter
              (passes explicit.keys)).foldl offer acc.1.candidates
        ∧ (sources.foldl (addStar surface stack explicit) acc).2
          = acc.2 ++ (followed stack sources).flatMap fun t => (surface t).2
  | [], acc => by simp [followed]
  | .external specifier :: sources, acc => by
    have ih := foldl_addStar surface stack explicit sources
      ({ acc.1 with externalStars := pushNew acc.1.externalStars specifier }, acc.2)
    exact ih
  | .internal t :: sources, acc => by
    rw [List.foldl_cons, addStar]
    by_cases ht : t ∈ stack
    · have ih := foldl_addStar surface stack explicit sources acc
      simpa [ht, followed] using ih
    · have hf : followed stack (.internal t :: sources) = t :: followed stack sources := by
        simp [followed, ht]
      rw [if_neg ht, hf]
      have ih := foldl_addStar surface stack explicit sources
        (acc.1.addSurface explicit (surface t).1, acc.2 ++ (surface t).2)
      refine ⟨ih.1.trans ?_, ih.2.trans ?_⟩
      · simp only [StarOffers.addSurface, candidates_foldl_add, List.flatMap_cons,
          List.filter_append, List.foldl_append]
      · simp

end Linker

end DeclBundle
