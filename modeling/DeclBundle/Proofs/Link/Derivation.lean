import DeclBundle.Proofs.Link.Resolve

/-!
# Look-ups and derivations

What a module exports can be derived from the tables alone, hop by hop, without a policy, a path or
a budget (`Linker.Derives`). A look-up that finds something has followed a derivation of no more
hops than its budget (`Linker.derives_of_found`). It also finds something whenever there is such a
derivation (`Linker.found_of_derives`): a derivation that visits a module and name twice can be cut
short there, and one that visits none twice is never taken for a cycle.
-/

namespace DeclBundle

/-- What a module exports under `name` without declaring it: a re-export, or an import binding under
the name that is exported. -/
inductive ModuleTables.Forwards (s : ModuleTables) (name : String) : Provider → Remote → Prop
  | reexport {source : Provider} {remote : Remote}
    (he : s.exports.get? name = some (.reexport source remote)) : s.Forwards name source remote
  | imported {binding : String} {row : ImportRow}
    (he : s.exports.get? name = some (.own binding)) (hs : s.symbolIds binding = [])
    (hi : s.imports.get? binding = some row) : s.Forwards name row.source row.remote

namespace Linker

/-- The export `name` of a module is a declaration of its own, belongs to a library, or is a whole
module. -/
inductive Ends (l : Linker) (module : ModuleId) (name : String) : Resolution → Prop
  | declaration {scope : ModuleTables} {binding : String} {id : DeclId} {ids : List DeclId}
    (hs : l.scope? module = some scope) (he : scope.exports.get? name = some (.own binding))
    (hd : scope.symbolIds binding = id :: ids) : l.Ends module name (.declaration id)
  | external {scope : ModuleTables} {specifier : String} {remote : Remote}
    (hs : l.scope? module = some scope) (hf : scope.Forwards name (.external specifier) remote) :
    l.Ends module name (.external ⟨specifier, remote⟩)
  | namespaceOf {scope : ModuleTables} {target : ModuleId}
    (hs : l.scope? module = some scope) (hf : scope.Forwards name (.internal target) .all) :
    l.Ends module name (.namespaceOf target)

/-- The export `name` of a module is an export of another module. A star source may be any of the
module's. -/
inductive GoesOn (l : Linker) (module : ModuleId) (name : String) : ModuleId → String → Prop
  | default {scope : ModuleTables} {target : ModuleId}
    (hs : l.scope? module = some scope) (hf : scope.Forwards name (.internal target) .default) :
    l.GoesOn module name target "default"
  | named {scope : ModuleTables} {target : ModuleId} {remote : String}
    (hs : l.scope? module = some scope)
    (hf : scope.Forwards name (.internal target) (.named remote)) :
    l.GoesOn module name target remote
  | star {scope : ModuleTables} {target : ModuleId}
    (hs : l.scope? module = some scope) (he : scope.exports.get? name = none)
    (hn : name ≠ "default") (ht : .internal target ∈ scope.starExports) :
    l.GoesOn module name target name

/-- `r` can be derived as the export `name` of a module; the modules and names on the way are its
hops. -/
inductive Derives (l : Linker) :
    ModuleId → String → List (ModuleId × String) → Resolution → Prop
  | ends {module : ModuleId} {name : String} {r : Resolution} (h : l.Ends module name r) :
    l.Derives module name [(module, name)] r
  | hop {module target : ModuleId} {name remote : String} {hops : List (ModuleId × String)}
    {r : Resolution} (h : l.GoesOn module name target remote)
    (d : l.Derives target remote hops r) : l.Derives module name ((module, name) :: hops) r

variable {l : Linker} {m m' : ModuleId} {name name' : String} {r : Resolution}
  {hops path : List (ModuleId × String)} {budget : Nat}

/-! ## Derivations -/

theorem Derives.ne_unresolved (d : l.Derives m name hops r) : r ≠ .unresolved := by
  induction d with
  | ends h => cases h <;> simp
  | hop _ _ ih => exact ih

/-- A derivation can be entered at each of its hops. -/
theorem Derives.suffix (d : l.Derives m name hops r) (h : (m', name') ∈ hops) :
    ∃ hops', hops' <:+ hops ∧ l.Derives m' name' hops' r := by
  induction d with
  | ends he =>
    cases List.mem_singleton.1 h
    exact ⟨_, List.suffix_refl _, .ends he⟩
  | hop hg d ih =>
    rcases List.mem_cons.1 h with h | h
    · cases h
      exact ⟨_, List.suffix_refl _, .hop hg d⟩
    · obtain ⟨hops', hs, d'⟩ := ih h
      exact ⟨hops', hs.trans (List.suffix_cons _ _), d'⟩

/-- What can be derived can be derived without visiting a module and name twice. Where the rest
comes back to where it started it can be entered there at once. -/
theorem Derives.exists_nodup (d : l.Derives m name hops r) :
    ∃ hops', hops'.Nodup ∧ hops'.length ≤ hops.length ∧ l.Derives m name hops' r := by
  induction d with
  | ends h => exact ⟨_, List.nodup_singleton _, Nat.le_refl _, .ends h⟩
  | @hop m target name remote hops r hg d ih =>
    obtain ⟨hops', hn, hlen, d'⟩ := ih
    by_cases hm : (m, name) ∈ hops'
    · obtain ⟨rest, hs, dr⟩ := d'.suffix hm
      refine ⟨rest, hn.sublist hs.sublist, ?_, dr⟩
      have := hs.length_le
      simp only [List.length_cons]
      omega
    · refine ⟨(m, name) :: hops', List.nodup_cons.2 ⟨hm, hn⟩, ?_, .hop hg d'⟩
      simpa using hlen

/-! ## One step of a look-up -/

variable {next : ModuleId → String → Lookup} {scope : ModuleTables}

theorem chaseLocal_of_symbol {binding : String} {id : DeclId} {ids : List DeclId}
    (h : scope.symbolIds binding = id :: ids) :
    chaseLocal next scope binding = .found (.declaration id) := by
  unfold ModuleTables.symbolIds at h
  unfold chaseLocal
  rcases hg : scope.symbols.get? binding with _ | _ | ⟨id', ids'⟩
  · simp [hg] at h
  · simp [hg] at h
  · simp only [hg, Option.getD_some, List.cons.injEq] at h
    rw [h.1]

theorem chaseLocal_of_no_symbol {binding : String} (h : scope.symbolIds binding = []) :
    chaseLocal next scope binding = match scope.imports.get? binding with
      | some row => follow next row.source row.remote
      | none => .notFound := by
  unfold ModuleTables.symbolIds at h
  unfold chaseLocal
  rcases hg : scope.symbols.get? binding with _ | _ | ⟨id, ids⟩
  · rfl
  · rfl
  · simp [hg] at h

/-- A look-up that is neither out of budget nor back at a hop asks the tables of the module. -/
theorem chaseExport_of_scope (hp : (m, name) ∉ path) (hs : l.scope? m = some scope) :
    l.chaseExport (budget + 1) path m name
      = match scope.exports.get? name with
        | some (.own binding) =>
          chaseLocal (l.chaseExport budget ((m, name) :: path)) scope binding
        | some (.reexport source remote) =>
          follow (l.chaseExport budget ((m, name) :: path)) source remote
        | none =>
          if name = "default" then .notFound
          else chaseStars (fun t => l.chaseExport budget ((m, name) :: path) t name)
            (inPolicyOrder l.starPolicy scope.starExports) := by
  rewrite [chaseExport, if_neg hp, hs]
  rfl

theorem chaseExport_of_forwards (hp : (m, name) ∉ path) (hs : l.scope? m = some scope)
    {source : Provider} {remote : Remote} (hf : scope.Forwards name source remote) :
    l.chaseExport (budget + 1) path m name
      = follow (l.chaseExport budget ((m, name) :: path)) source remote := by
  rw [chaseExport_of_scope hp hs]
  cases hf with
  | reexport he => rw [he]
  | imported he hsym hi =>
    rw [he]
    simp only []
    rw [chaseLocal_of_no_symbol hsym, hi]

theorem found_of_chaseStars {next : ModuleId → Lookup} : ∀ {sources : List Provider},
    chaseStars next sources = .found r → ∃ t, .internal t ∈ sources ∧ next t = .found r
  | .external _ :: rest, h => by
    simp only [chaseStars] at h
    obtain ⟨t, ht, hn⟩ := found_of_chaseStars h
    exact ⟨t, List.mem_cons_of_mem _ ht, hn⟩
  | .internal t :: rest, h => by
    simp only [chaseStars] at h
    split at h
    · rename_i r' hr
      exact ⟨t, List.mem_cons_self, hr.trans h⟩
    · obtain ⟨t', ht, hn⟩ := found_of_chaseStars h
      exact ⟨t', List.mem_cons_of_mem _ ht, hn⟩

/-- One star source that provides a name is enough, whatever the others do. -/
theorem chaseStars_of_found {next : ModuleId → Lookup} {t : ModuleId} (hn : next t = .found r) :
    ∀ {sources : List Provider}, .internal t ∈ sources →
      ∃ r', chaseStars next sources = .found r'
  | .external _ :: rest, h => by
    simp only [chaseStars]
    exact chaseStars_of_found hn (by simpa using h)
  | .internal t' :: rest, h => by
    simp only [chaseStars]
    split
    · exact ⟨_, rfl⟩
    · rename_i hne
      rcases List.mem_cons.1 h with h | h
      · cases h
        exact absurd hn (hne r)
      · exact chaseStars_of_found hn h

theorem follow_found {source : Provider} {remote : Remote}
    (h : follow next source remote = .found r) :
    (∃ specifier, source = .external specifier ∧ r = .external ⟨specifier, remote⟩)
      ∨ (∃ t, source = .internal t ∧ remote = .all ∧ r = .namespaceOf t)
      ∨ (∃ t, source = .internal t ∧ remote = .default ∧ next t "default" = .found r)
      ∨ ∃ t x, source = .internal t ∧ remote = .named x ∧ next t x = .found r := by
  cases source with
  | external specifier =>
    cases h
    exact .inl ⟨specifier, rfl, rfl⟩
  | internal t =>
    cases remote with
    | all =>
      cases h
      exact .inr (.inl ⟨t, rfl, rfl, rfl⟩)
    | default => exact .inr (.inr (.inl ⟨t, rfl, rfl, h⟩))
    | named x => exact .inr (.inr (.inr ⟨t, x, rfl, rfl, h⟩))

theorem found_of_forwards (hs : l.scope? m = some scope) {source : Provider} {remote : Remote}
    (hf : scope.Forwards name source remote) (h : follow next source remote = .found r) :
    l.Ends m name r ∨ ∃ t x, l.GoesOn m name t x ∧ next t x = .found r := by
  rcases follow_found h with ⟨specifier, rfl, rfl⟩ | ⟨t, rfl, rfl, rfl⟩ | ⟨t, rfl, rfl, hn⟩
    | ⟨t, x, rfl, rfl, hn⟩
  · exact .inl (.external hs hf)
  · exact .inl (.namespaceOf hs hf)
  · exact .inr ⟨t, "default", .default hs hf, hn⟩
  · exact .inr ⟨t, x, .named hs hf, hn⟩

/-- Where a look-up finds something, the tables end there, or lead to a look-up with one hop less
that finds it. -/
theorem chaseExport_found (h : l.chaseExport (budget + 1) path m name = .found r) :
    l.Ends m name r ∨ ∃ t x, l.GoesOn m name t x
      ∧ l.chaseExport budget ((m, name) :: path) t x = .found r := by
  have hp : (m, name) ∉ path := by
    intro hp
    simp [chaseExport, hp] at h
  rcases hs : l.scope? m with _ | scope
  · simp [chaseExport, hp, hs] at h
  · rw [chaseExport_of_scope hp hs] at h
    split at h
    · rename_i binding he
      rcases hd : scope.symbolIds binding with _ | ⟨id, ids⟩
      · rw [chaseLocal_of_no_symbol hd] at h
        split at h
        · rename_i row hi
          exact found_of_forwards hs (.imported he hd hi) h
        · cases h
      · rw [chaseLocal_of_symbol hd] at h
        cases h
        exact .inl (.declaration hs he hd)
    · rename_i source remote he
      exact found_of_forwards hs (.reexport he) h
    · rename_i he
      split at h
      · cases h
      · rename_i hn
        obtain ⟨t, ht, hf⟩ := found_of_chaseStars h
        exact .inr ⟨t, name, .star hs he hn (mem_inPolicyOrder.1 ht), hf⟩

theorem chaseExport_of_ends (h : l.Ends m name r) (hp : (m, name) ∉ path) :
    l.chaseExport (budget + 1) path m name = .found r := by
  cases h with
  | declaration hs he hd =>
    rw [chaseExport_of_scope hp hs, he]
    exact chaseLocal_of_symbol hd
  | external hs hf => rw [chaseExport_of_forwards hp hs hf, follow]
  | namespaceOf hs hf => rw [chaseExport_of_forwards hp hs hf, follow]

theorem chaseExport_of_goesOn (h : l.GoesOn m name m' name') (hp : (m, name) ∉ path)
    (hf : l.chaseExport budget ((m, name) :: path) m' name' = .found r) :
    ∃ r', l.chaseExport (budget + 1) path m name = .found r' := by
  cases h with
  | default hs hfw => exact ⟨r, by rw [chaseExport_of_forwards hp hs hfw, follow, hf]⟩
  | named hs hfw => exact ⟨r, by rw [chaseExport_of_forwards hp hs hfw, follow, hf]⟩
  | star hs he hn ht =>
    rw [chaseExport_of_scope hp hs, he]
    simp only [if_neg hn]
    refine chaseStars_of_found (r := r) ?_ (mem_inPolicyOrder.2 ht)
    exact hf

/-! ## Whole look-ups -/

/-- What a look-up finds can be derived within its budget. -/
theorem derives_of_found : ∀ {budget : Nat} {path : List (ModuleId × String)} {m : ModuleId}
    {name : String}, l.chaseExport budget path m name = .found r →
      ∃ hops, hops.length ≤ budget ∧ l.Derives m name hops r
  | 0, _, _, _, h => by simp [chaseExport] at h
  | budget + 1, path, m, name, h => by
    rcases chaseExport_found h with he | ⟨t, x, hg, hf⟩
    · exact ⟨_, by simp, .ends he⟩
    · obtain ⟨hops, hlen, d⟩ := derives_of_found hf
      exact ⟨_, by simpa using hlen, .hop hg d⟩

/-- A derivation that visits nothing twice and keeps off the path is found within its length, or
something else is found first. The path grows by hops that the rest of the derivation does not
visit. -/
theorem found_of_derives (d : l.Derives m name hops r) (hn : hops.Nodup)
    (hp : ∀ h ∈ hops, h ∉ path) (hlen : hops.length ≤ budget) :
    ∃ r', l.chaseExport budget path m name = .found r' := by
  induction d generalizing path budget with
  | @ends m name r h =>
    obtain ⟨k, rfl⟩ := Nat.exists_eq_add_of_le' hlen
    exact ⟨r, chaseExport_of_ends h (hp _ List.mem_cons_self)⟩
  | @hop m target name remote hops r hg d ih =>
    obtain ⟨hm, hn⟩ := List.nodup_cons.1 hn
    obtain ⟨k, rfl⟩ : ∃ k, budget = k + 1 := by
      cases budget with
      | zero => simp at hlen
      | succ k => exact ⟨k, rfl⟩
    have hp' : ∀ h ∈ hops, h ∉ (m, name) :: path := by
      intro h hh hc
      rcases List.mem_cons.1 hc with rfl | hc
      · exact hm hh
      · exact hp h (List.mem_cons_of_mem _ hh) hc
    obtain ⟨r', hf⟩ := ih hn hp' (by simpa using hlen)
    exact chaseExport_of_goesOn hg (hp _ List.mem_cons_self) hf

theorem resolveExport_of_found (h : l.findExport m name = .found r) :
    (l.resolveExport m name).1 = r := by
  simp [resolveExport, h]

theorem found_of_resolveExport (h : (l.resolveExport m name).1 = r) (hr : r ≠ .unresolved) :
    l.findExport m name = .found r := by
  unfold resolveExport at h
  split at h
  · rename_i r' hf
    rw [hf, ← h]
  · exact absurd h.symm hr
  · exact absurd h.symm hr

/-- An export resolves exactly if it can be derived within the budget, and then to something that
can be. -/
theorem resolveExport_derivation (store : Store) (options : Options) (module : ModuleId)
    (name : String) :
    (((store.linker options).resolveExport module name).1 = .unresolved
        ↔ ¬ ∃ hops r, hops.length ≤ options.maxReexportDepth
            ∧ (store.linker options).Derives module name hops r)
      ∧ (((store.linker options).resolveExport module name).1 = .unresolved
        ∨ ∃ hops, hops.length ≤ options.maxReexportDepth
            ∧ (store.linker options).Derives module name hops
                ((store.linker options).resolveExport module name).1) := by
  have hsound : ((store.linker options).resolveExport module name).1 = .unresolved
      ∨ ∃ hops, hops.length ≤ options.maxReexportDepth
          ∧ (store.linker options).Derives module name hops
              ((store.linker options).resolveExport module name).1 := by
    by_cases hr : ((store.linker options).resolveExport module name).1 = .unresolved
    · exact .inl hr
    · exact .inr (derives_of_found (found_of_resolveExport rfl hr))
  refine ⟨⟨?_, fun hno => ?_⟩, hsound⟩
  · rintro h ⟨hops, r, hlen, d⟩
    obtain ⟨hops', hn, hle, d'⟩ := d.exists_nodup
    obtain ⟨r', hf⟩ : ∃ r', (store.linker options).findExport module name = .found r' :=
      found_of_derives d' hn (by simp) (Nat.le_trans hle hlen)
    obtain ⟨hops'', -, d''⟩ := derives_of_found hf
    exact d''.ne_unresolved ((resolveExport_of_found hf).symm.trans h)
  · rcases hsound with h | ⟨hops, hlen, d⟩
    · exact h
    · exact absurd ⟨hops, _, hlen, d⟩ hno

end Linker

end DeclBundle
