import DeclBundle.Proofs.Link.Acyclic

/-!
# Imports and surfaces

Importing a name from a module looks it up; re-exporting it takes the entry of the module's surface.
Where no module depends on itself and the budget is large enough, the surface lists every name that
can be looked up. Its entry is what the look-up finds if the name has a row of its own. If star
sources provide it, the surface takes the policy's choice among the different resolutions that they
list, and the look-up the policy's choice among the sources; the two are the same exactly if the
resolution keeps the name (`Linker.Keeps`). They part only in two ways: a source has made up the
name for the loser of a conflict (`Linker.MakesUp`), or the last source is preferred and what it
lists has been listed before something else (`ComesBack`). All this is `Linker.surface_agrees`.
-/

namespace DeclBundle

/-- Something comes again after something else. -/
def ComesBack (xs : List α) : Prop := ∃ x y, x ≠ y ∧ [x, y, x].Sublist xs

/-- After `r` is new, nothing else is. -/
def NewLast (xs : List α) (r : α) : Prop :=
  ∃ before after, xs = before ++ r :: after ∧ r ∉ before ∧ ∀ x ∈ after, x = r ∨ x ∈ before

/-- What is found in a module of the store; nothing is found in a library. -/
def Provider.inStore? (f : ModuleId → Option α) : Provider → Option α
  | .internal module => f module
  | .external _ => none

namespace Linker

/-- `r` keeps a name under which star sources list `offers` in order: it is the first of all, or the
one that is new last. -/
def Keeps : StarPolicy → List Resolution → Resolution → Prop
  | .preferFirst, offers, r => offers.head? = some r
  | .preferLast, offers, r => NewLast offers r

variable (l : Linker)

/-- What a module lists under a name, if it resolves to something. -/
def listed? (module : ModuleId) (name : String) : Option Resolution :=
  ((l.surface module).1.get? name).filter (· ≠ .unresolved)

/-- What the star sources of a module list under a name, in order. -/
def starOffers (module : ModuleId) (name : String) : List Resolution :=
  (((l.scope? module).map (·.starExports)).getD []).filterMap
    (Provider.inStore? fun t => l.listed? t name)

/-- A module lists a name that cannot be looked up there. -/
def MakesUp (module : ModuleId) (name : String) : Prop :=
  (l.resolveExport module name).1 = .unresolved ∧ l.listed? module name ≠ none

/-- A module passes on a name of another through star exports, or is that module. -/
def PassesOn (name : String) : ModuleId → ModuleId → Prop :=
  Relation.ReflTransGen fun m t =>
    ∃ scope, l.scope? m = some scope ∧ name ∉ scope.exports.keys ∧ .internal t ∈ scope.starExports

/-- What a search has found. -/
def Lookup.found? : Lookup → Option Resolution
  | .found r => some r
  | .notFound | .cycle => none

variable {l} {policy : StarPolicy} {offers : List Resolution} {r : Resolution} {m : ModuleId}
  {name : String} {scope : ModuleTables}

/-! ## The policy's choice -/

theorem head?_pushAllNew [DecidableEq α] : ∀ (ys xs : List α),
    (pushAllNew xs ys).head? = xs.head?.or ys.head?
  | [], xs => by simp [pushAllNew]
  | y :: ys, xs => by
    have ih := head?_pushAllNew ys (pushNew xs y)
    simp only [pushAllNew, List.foldl_cons] at ih ⊢
    rw [ih]
    cases xs with
    | nil => simp [pushNew]
    | cons x xs =>
      unfold pushNew
      split <;> simp

theorem newLast_concat [DecidableEq α] {xs : List α} {a r : α} :
    NewLast (xs ++ [a]) r ↔ if a ∈ xs then NewLast xs r else r = a := by
  constructor
  · rintro ⟨before, after, hxs, hr, hafter⟩
    rcases List.eq_nil_or_concat after with rfl | ⟨after, b, rfl⟩
    · obtain ⟨rfl, he⟩ := List.append_inj' hxs rfl
      cases he
      rw [if_neg hr]
    · have hxs' : xs ++ [a] = (before ++ r :: after) ++ [b] := by simpa using hxs
      obtain ⟨rfl, he⟩ := List.append_inj' hxs' rfl
      cases he
      have ha : a ∈ before ++ r :: after := by
        rcases hafter a (by simp) with rfl | ha
        · simp
        · exact List.mem_append_left _ ha
      rw [if_pos ha]
      exact ⟨before, after, rfl, hr, fun x hx => hafter x (by simp [hx])⟩
  · split
    · rename_i ha
      rintro ⟨before, after, rfl, hr, hafter⟩
      refine ⟨before, after ++ [a], by simp, hr, fun x hx => ?_⟩
      rcases List.mem_append.1 hx with hx | hx
      · exact hafter x hx
      · rw [List.mem_singleton.1 hx]
        rcases List.mem_append.1 ha with ha | ha
        · exact .inr ha
        · exact (List.mem_cons.1 ha).elim .inl (hafter a)
    · rename_i ha
      rintro rfl
      exact ⟨xs, [], rfl, ha, by simp⟩

theorem getLast?_pushAllNew [DecidableEq α] {r : α} {xs : List α} :
    (pushAllNew [] xs).getLast? = some r ↔ NewLast xs r := by
  induction xs using List.reverseRecOn with
  | nil => simp [pushAllNew, NewLast]
  | append_singleton xs a ih =>
    have hstep : pushAllNew [] (xs ++ [a]) = pushNew (pushAllNew [] xs) a := by simp [pushAllNew]
    rw [hstep, pushNew, newLast_concat]
    by_cases ha : a ∈ xs
    · rw [if_pos (by simpa using ha), if_pos ha, ih]
    · rw [if_neg (by simpa using ha), if_neg ha, List.getLast?_concat, Option.some.injEq, eq_comm]

theorem head?_inPolicyOrder :
    (inPolicyOrder policy (pushAllNew [] offers)).head? = some r ↔ Keeps policy offers r := by
  cases policy with
  | preferFirst => simp [inPolicyOrder, head?_pushAllNew, Keeps]
  | preferLast => rw [inPolicyOrder, List.head?_reverse, getLast?_pushAllNew, Keeps]

theorem exists_keeps (policy : StarPolicy) (h : offers ≠ []) : ∃ r, Keeps policy offers r := by
  have hne : inPolicyOrder policy (pushAllNew [] offers) ≠ [] := by
    obtain ⟨x, hx⟩ := List.exists_mem_of_ne_nil _ h
    exact List.ne_nil_of_mem (mem_inPolicyOrder.2 (mem_pushAllNew.2 (.inr hx)))
  exact ⟨_, head?_inPolicyOrder.1 (List.head?_eq_some_head hne)⟩

theorem Keeps.mem (h : Keeps policy offers r) : r ∈ offers := by
  have hm := List.mem_of_head? (head?_inPolicyOrder.2 h)
  simpa using mem_inPolicyOrder.1 hm

theorem Keeps.unique {r' : Resolution} (h : Keeps policy offers r) (h' : Keeps policy offers r') :
    r = r' :=
  Option.some.inj ((head?_inPolicyOrder.2 h).symm.trans (head?_inPolicyOrder.2 h'))

/-- Where nothing comes back, the policy's choice among all that is listed keeps the name. What the
policy takes is listed before any other and, as the last of all, after it. -/
theorem keeps_of_head? (h : (inPolicyOrder policy offers).head? = some r)
    (hb : policy = .preferFirst ∨ ¬ ComesBack offers) : Keeps policy offers r := by
  cases policy with
  | preferFirst => exact h
  | preferLast =>
    have hb := hb.resolve_left (by simp)
    rw [inPolicyOrder, List.head?_reverse] at h
    obtain ⟨before, after, rfl, hr⟩ := List.eq_append_cons_of_mem (List.mem_of_getLast? h)
    refine ⟨before, after, rfl, hr, fun x hx => ?_⟩
    by_contra hne
    rw [not_or] at hne
    rcases List.eq_nil_or_concat after with rfl | ⟨after, b, rfl⟩
    · simp at hx
    · obtain rfl : b = r := by simpa [List.getLast?_append, List.getLast?_cons] using h
      have hx' : x ∈ after := by simpa [hne.1] using hx
      refine hb ⟨b, x, Ne.symm hne.1, ?_⟩
      refine List.Sublist.trans (List.Sublist.cons_cons b ?_) (List.sublist_append_right before _)
      rw [List.concat_eq_append]
      exact (List.singleton_sublist.2 hx').append (List.Sublist.refl [b])

/-! ## What star sources list -/

theorem listed?_eq_some : l.listed? m name = some r
    ↔ (l.surface m).1.get? name = some r ∧ r ≠ .unresolved := by
  simp [listed?, Option.filter_eq_some_iff]

theorem starOffers_of_scope (hs : l.scope? m = some scope) : l.starOffers m name
    = scope.starExports.filterMap (Provider.inStore? fun t => l.listed? t name) := by
  simp [starOffers, hs]

theorem rows_under {t : Table String Resolution} (hk : t.keys.Nodup) {explicit : List String}
    (hn : name ≠ "default") (he : name ∉ explicit) :
    ((t.rows.filter (passes explicit)).filter (·.1 = name)).map Prod.snd
      = ((t.get? name).filter (· ≠ .unresolved)).toList := by
  have hrows : (t.rows.filter (passes explicit)).filter (·.1 = name)
      = (t.rows.filter (·.1 = name)).filter (·.2 ≠ .unresolved) := by
    rw [List.filter_filter, List.filter_filter]
    refine List.filter_congr fun e _ => ?_
    by_cases hx : e.1 = name
    · simp [passes, hx, hn, he]
    · simp [hx]
  have hfind : (t.rows.filter (·.1 = name)).map Prod.snd = (t.get? name).toList :=
    Table.filter_eq_find? hk
  rw [hrows, Option.toList_filter, ← hfind, List.filter_map]
  rfl

theorem followed_of_not_mem {sources : List Provider} (h : .internal m ∉ sources) :
    followed [m] sources = sources.filterMap (Provider.inStore? some) := by
  refine List.filterMap_congr fun p hp => ?_
  cases p with
  | external specifier => rfl
  | internal t =>
    have ht : t ≠ m := by
      rintro rfl
      exact h hp
    simp [Provider.inStore?, ht]

theorem filterMap_inStore? (f : ModuleId → Option α) (sources : List Provider) :
    (sources.filterMap (Provider.inStore? some)).filterMap f
      = sources.filterMap (Provider.inStore? f) := by
  rw [List.filterMap_filterMap]
  refine List.filterMap_congr fun p _ => ?_
  cases p <;> rfl

variable {store : Store} {options : Options}

/-- What star sources pass on under a name that has no row. -/
theorem offersFrom_under (ha : (store.linker options).Acyclic)
    (hs : (store.linker options).scope? m = some scope) (hn : name ≠ "default")
    (he : name ∉ scope.exports.keys) :
    ((offersFrom (store.linker options).surface [m] scope).filter (·.1 = name)).map Prod.snd
      = (store.linker options).starOffers m name := by
  have hself : .internal m ∉ scope.starExports := fun hm =>
    ha m (.single ((mem_dependencies hs).2 ((Store.linked_scope hs).stars hm)))
  have hrows : ∀ t, ((((store.linker options).surface t).1.entries.rows.filter
        (passes scope.exports.keys)).filter (·.1 = name)).map Prod.snd
      = ((store.linker options).listed? t name).toList :=
    fun t => rows_under (nodup_keys_surface store options t) hn he
  rw [starOffers_of_scope hs, offersFrom, followed_of_not_mem hself]
  simp only [List.filter_flatMap, List.map_flatMap, hrows]
  rw [← List.filterMap_eq_flatMap_toList, filterMap_inStore?]

/-! ## Entries of a surface -/

theorem get?_surface_of_row (ha : (store.linker options).Acyclic)
    (hs : (store.linker options).scope? m = some scope) (he : name ∈ scope.exports.keys) :
    ((store.linker options).surface m).1.get? name
      = some ((store.linker options).resolveExport m name).1 := by
  refine Table.get?_of_mem_rows (nodup_keys_surface store options m) ?_
  rw [surface_of_scope ha hs]
  exact List.mem_append_left _ (List.mem_map.2 ⟨name, he, rfl⟩)

theorem get?_surface_of_keeps (ha : (store.linker options).Acyclic)
    (hs : (store.linker options).scope? m = some scope) (hn : name ≠ "default")
    (he : name ∉ scope.exports.keys)
    (hk : Keeps options.starPolicy ((store.linker options).starOffers m name) r) :
    ((store.linker options).surface m).1.get? name = some r := by
  refine Table.get?_of_mem_rows (nodup_keys_surface store options m) ?_
  rw [surface_of_scope ha hs]
  rw [← offersFrom_under ha hs hn he] at hk
  have hw := winner_mem_starsFrom (head?_inPolicyOrder.2 hk)
  exact List.mem_append_right _ (List.mem_map.2 ⟨_, hw, rfl⟩)

theorem exists_keeps_of_listed
    (hs : (store.linker options).scope? m = some scope) {t : ModuleId}
    (ht : .internal t ∈ scope.starExports)
    (hl : (store.linker options).listed? t name = some r) :
    ∃ r', Keeps options.starPolicy ((store.linker options).starOffers m name) r'
      ∧ r' ≠ .unresolved := by
  have hm : r ∈ (store.linker options).starOffers m name := by
    rw [starOffers_of_scope hs]
    exact List.mem_filterMap.2 ⟨_, ht, hl⟩
  obtain ⟨r', hk⟩ := exists_keeps options.starPolicy (List.ne_nil_of_mem hm)
  refine ⟨r', hk, ?_⟩
  have hm' := hk.mem
  rw [starOffers_of_scope hs, List.mem_filterMap] at hm'
  obtain ⟨p, -, hp⟩ := hm'
  cases p with
  | external specifier => cases hp
  | internal t' => exact (listed?_eq_some.1 hp).2

/-! ## Look-ups in star sources -/

theorem filterMap_inPolicyOrder (f : α → Option β) (xs : List α) :
    (inPolicyOrder policy xs).filterMap f = inPolicyOrder policy (xs.filterMap f) := by
  cases policy with
  | preferFirst => rfl
  | preferLast => simp only [inPolicyOrder, List.filterMap_reverse]

theorem found?_chaseStars (next : ModuleId → Lookup) : ∀ sources : List Provider,
    (chaseStars next sources).found?
      = (sources.filterMap (Provider.inStore? fun t => (next t).found?)).head?
  | [] => rfl
  | .external _ :: rest => found?_chaseStars next rest
  | .internal t :: rest => by
    have ih := found?_chaseStars next rest
    simp only [chaseStars, List.filterMap_cons, Provider.inStore?]
    cases next t with
    | found r => rfl
    | notFound => exact ih
    | cycle => exact ih

theorem found?_eq_some {o : Lookup} : o.found? = some r ↔ o = .found r := by
  cases o <;> simp [Lookup.found?]

theorem ne_unresolved_of_found (h : l.findExport m name = .found r) : r ≠ .unresolved := by
  obtain ⟨hops, -, d⟩ := derives_of_found h
  exact d.ne_unresolved

theorem mem_keys_of_forwards {source : Provider} {remote : Remote}
    (h : scope.Forwards name source remote) : name ∈ scope.exports.keys := by
  cases h with
  | reexport he => exact Table.mem_keys_of_get? he
  | imported he _ _ => exact Table.mem_keys_of_get? he

/-- What can be derived has a row, unless it comes from a star source. -/
theorem Derives.row_or_star {hops : List (ModuleId × String)} (d : l.Derives m name hops r) :
    ∃ scope, l.scope? m = some scope
      ∧ (name ∈ scope.exports.keys ∨ name ∉ scope.exports.keys ∧ name ≠ "default") := by
  cases d with
  | ends h =>
    cases h with
    | declaration hs he _ => exact ⟨_, hs, .inl (Table.mem_keys_of_get? he)⟩
    | external hs hf => exact ⟨_, hs, .inl (mem_keys_of_forwards hf)⟩
    | namespaceOf hs hf => exact ⟨_, hs, .inl (mem_keys_of_forwards hf)⟩
  | hop h _ =>
    cases h with
    | default hs hf => exact ⟨_, hs, .inl (mem_keys_of_forwards hf)⟩
    | named hs hf => exact ⟨_, hs, .inl (mem_keys_of_forwards hf)⟩
    | star hs he hn _ => exact ⟨_, hs, .inr ⟨Table.get?_eq_none.1 he, hn⟩⟩

/-- What is found under a name without a row is the policy's choice among what is found in the star
sources. -/
theorem findExport_cases (ha : (store.linker options).Acyclic)
    (hdepth : (store.linker options).size ≤ options.maxReexportDepth)
    (h : (store.linker options).findExport m name = .found r) :
    ∃ scope, (store.linker options).scope? m = some scope
      ∧ (name ∈ scope.exports.keys ∨ name ∉ scope.exports.keys ∧ name ≠ "default"
        ∧ (inPolicyOrder options.starPolicy (scope.starExports.filterMap (Provider.inStore?
            fun t => ((store.linker options).findExport t name).found?))).head? = some r) := by
  obtain ⟨hops, -, d⟩ := derives_of_found h
  obtain ⟨scope, hs, he | ⟨he, hn⟩⟩ := d.row_or_star
  · exact ⟨scope, hs, .inl he⟩
  · refine ⟨scope, hs, .inr ⟨he, hn, ?_⟩⟩
    rw [findExport_of_star ha hdepth hs (Table.get?_eq_none.2 he) hn] at h
    rw [← filterMap_inPolicyOrder, ← found?_chaseStars, h]
    rfl

theorem source_of_head? {find : ModuleId → Lookup} {sources : List Provider}
    (h : (inPolicyOrder policy (sources.filterMap (Provider.inStore?
      fun t => (find t).found?))).head? = some r) :
    ∃ t, .internal t ∈ sources ∧ find t = .found r := by
  obtain ⟨p, hp, hf⟩ := List.mem_filterMap.1 (mem_inPolicyOrder.1 (List.mem_of_head? h))
  cases p with
  | external specifier => cases hf
  | internal t => exact ⟨t, hp, found?_eq_some.1 hf⟩

/-! ## Look-ups and surfaces -/

/-- What can be looked up is listed. The source that provides it lists something, so the policy has
something to choose from. -/
theorem listed_of_found (ha : (store.linker options).Acyclic)
    (hdepth : (store.linker options).size ≤ options.maxReexportDepth) (m : ModuleId) :
    ∀ {r}, (store.linker options).findExport m name = .found r →
      ∃ r', (store.linker options).listed? m name = some r' := by
  induction m using ha.star_induction with
  | h m ih =>
    intro r h
    obtain ⟨scope, hs, he | ⟨he, hn, hhead⟩⟩ := findExport_cases ha hdepth h
    · have hg := get?_surface_of_row ha hs he
      rw [resolveExport_of_found h] at hg
      exact ⟨r, listed?_eq_some.2 ⟨hg, ne_unresolved_of_found h⟩⟩
    · obtain ⟨t, ht, hf⟩ := source_of_head? hhead
      obtain ⟨r', hl⟩ := ih scope t hs ht hf
      obtain ⟨w, hk, hw⟩ := exists_keeps_of_listed hs ht hl
      exact ⟨w, listed?_eq_some.2 ⟨get?_surface_of_keeps ha hs hn he hk, hw⟩⟩

/-- Where no name is made up and nothing comes back, what is looked up is what is listed. Each star
source lists what is found in it. -/
theorem get?_surface_of_found (ha : (store.linker options).Acyclic)
    (hdepth : (store.linker options).size ≤ options.maxReexportDepth) (m : ModuleId) :
    ∀ {r}, (∀ s, (store.linker options).PassesOn name m s →
        ¬ (store.linker options).MakesUp s name) →
      (options.starPolicy = .preferFirst ∨ ∀ s, (store.linker options).PassesOn name m s →
        ¬ ComesBack ((store.linker options).starOffers s name)) →
      (store.linker options).findExport m name = .found r →
        ((store.linker options).surface m).1.get? name = some r := by
  induction m using ha.star_induction with
  | h m ih =>
    intro r hmade hback h
    obtain ⟨scope, hs, he | ⟨he, hn, hhead⟩⟩ := findExport_cases ha hdepth h
    · rw [get?_surface_of_row ha hs he, resolveExport_of_found h]
    · refine get?_surface_of_keeps ha hs hn he (keeps_of_head? ?_ ?_)
      · have hsource : ∀ p ∈ scope.starExports,
            Provider.inStore? (fun t => ((store.linker options).findExport t name).found?) p
              = Provider.inStore? (fun t => (store.linker options).listed? t name) p := by
          intro p hp
          cases p with
          | external specifier => rfl
          | internal t =>
            have hpass : ∀ s, (store.linker options).PassesOn name t s →
                (store.linker options).PassesOn name m s :=
              fun s => .head ⟨scope, hs, he, hp⟩
            simp only [Provider.inStore?]
            cases ho : ((store.linker options).findExport t name).found? with
            | some r' =>
              have hf := found?_eq_some.1 ho
              have hg := ih scope t hs hp (fun s h => hmade s (hpass s h))
                (hback.imp_right fun hb s h => hb s (hpass s h)) hf
              exact (listed?_eq_some.2 ⟨hg, ne_unresolved_of_found hf⟩).symm
            | none =>
              by_contra hne
              refine hmade t (hpass t .refl) ⟨?_, fun hl => hne hl.symm⟩
              by_contra hr
              rw [found_of_resolveExport rfl hr] at ho
              cases ho
        rwa [starOffers_of_scope hs, ← List.filterMap_congr hsource]
      · exact hback.imp_right fun hb => hb m .refl

/-- What can be looked up is in the surface. The entry is the same exactly if the name has a row or
the resolution keeps it among what star sources list; so it is if no module that the name is passed
on from makes it up, and the last is not preferred or nothing comes back. -/
theorem surface_agrees (store : Store) (options : Options)
    (ha : (store.linker options).Acyclic)
    (hdepth : (store.linker options).size ≤ options.maxReexportDepth) {r : Resolution}
    (h : ((store.linker options).resolveExport m name).1 = r) (hr : r ≠ .unresolved) :
    (∃ r', r' ≠ .unresolved ∧ ((store.linker options).surface m).1.get? name = some r')
      ∧ (((store.linker options).surface m).1.get? name = some r ↔
        (∃ scope, (store.linker options).scope? m = some scope ∧ name ∈ scope.exports.keys)
          ∨ Keeps options.starPolicy ((store.linker options).starOffers m name) r)
      ∧ ((∀ s, (store.linker options).PassesOn name m s →
            ¬ (store.linker options).MakesUp s name) →
          (options.starPolicy = .preferFirst ∨ ∀ s, (store.linker options).PassesOn name m s →
            ¬ ComesBack ((store.linker options).starOffers s name)) →
          ((store.linker options).surface m).1.get? name = some r) := by
  have hfound := found_of_resolveExport h hr
  obtain ⟨r', hl⟩ := listed_of_found ha hdepth m hfound
  obtain ⟨hg, hr'⟩ := listed?_eq_some.1 hl
  refine ⟨⟨r', hr', hg⟩, ?_, fun hmade hback =>
    get?_surface_of_found ha hdepth m hmade hback hfound⟩
  obtain ⟨scope, hs, he | ⟨he, hn, hhead⟩⟩ := findExport_cases ha hdepth hfound
  · rw [get?_surface_of_row ha hs he, h]
    exact iff_of_true rfl (.inl ⟨scope, hs, he⟩)
  · obtain ⟨t, ht, hf⟩ := source_of_head? hhead
    obtain ⟨r'', hl⟩ := listed_of_found ha hdepth t hf
    obtain ⟨w, hk, -⟩ := exists_keeps_of_listed hs ht hl
    rw [get?_surface_of_keeps ha hs hn he hk, Option.some.injEq]
    constructor
    · rintro rfl
      exact .inr hk
    · rintro (⟨scope', hs', he'⟩ | hk')
      · rw [hs, Option.some.injEq] at hs'
        exact absurd (hs' ▸ he') he
      · exact hk.unique hk'

/-- A module that passes on all of three others, of which the first and the last pass on the same
interface and the second declares another one of that name. -/
def starDiamond : List DeclUnit :=
  [⟨"index.ts", [.exportAll "a.ts" none, .exportAll "b.ts" none, .exportAll "c.ts" none]⟩,
    ⟨"a.ts", [.exportAll "d.ts" none]⟩,
    ⟨"b.ts", [.declaration ⟨none, { exported := true }, none, .interface "x" [] [] []⟩]⟩,
    ⟨"c.ts", [.exportAll "d.ts" none]⟩,
    ⟨"d.ts", [.declaration ⟨none, { exported := true }, none, .interface "x" [] [] []⟩]⟩]

theorem surface_agrees_starDiamond : ∃ store, Store.ofUnits starDiamond = .ok store
    ∧ ((store.linker {}).resolveExport 0 "x").1 = .declaration 1
    ∧ ((store.linker {}).surface 0).1.get? "x" = some (.declaration 1)
    ∧ ((store.linker { starPolicy := .preferLast }).resolveExport 0 "x").1 = .declaration 1
    ∧ ((store.linker { starPolicy := .preferLast }).surface 0).1.get? "x" = some (.declaration 0)
    ∧ ¬ Keeps .preferLast ((store.linker { starPolicy := .preferLast }).starOffers 0 "x")
        (.declaration 1) := by
  obtain ⟨store, hstore, hlt, hsize, hfirst, hoffers, hlt', hsize', hlast, hlisted⟩ : ∃ store,
      Store.ofUnits starDiamond = .ok store
        ∧ (∀ m < (store.linker {}).size, ∀ d ∈ (store.linker {}).dependencies m, m < d)
        ∧ (store.linker {}).size ≤ ({} : Options).maxReexportDepth
        ∧ ((store.linker {}).resolveExport 0 "x").1 = .declaration 1
        ∧ ((store.linker {}).starOffers 0 "x").head? = some (.declaration 1)
        ∧ (∀ m < (store.linker { starPolicy := .preferLast }).size,
            ∀ d ∈ (store.linker { starPolicy := .preferLast }).dependencies m, m < d)
        ∧ (store.linker { starPolicy := .preferLast }).size
            ≤ ({ starPolicy := .preferLast } : Options).maxReexportDepth
        ∧ ((store.linker { starPolicy := .preferLast }).resolveExport 0 "x").1 = .declaration 1
        ∧ ((store.linker { starPolicy := .preferLast }).surface 0).1.get? "x"
            = some (.declaration 0) :=
    ⟨_, rfl, by decide, by decide, by decide, by decide, by decide, by decide, by decide, by decide⟩
  have hagree := surface_agrees store {} (acyclic_of_lt hlt) hsize hfirst (by decide)
  have hpart := surface_agrees store { starPolicy := .preferLast } (acyclic_of_lt hlt') hsize'
    hlast (by decide)
  refine ⟨store, hstore, hfirst, hagree.2.1.2 (.inr hoffers), hlast, hlisted, fun hk => ?_⟩
  have hsame := hpart.2.1.2 (.inr hk)
  rw [hlisted] at hsame
  exact absurd hsame (by decide)

end Linker

end DeclBundle
