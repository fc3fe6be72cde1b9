import DeclBundle.Command.Run
import DeclBundle.Proofs.Bundle.Stages
import DeclBundle.Proofs.Print.Positions
import DeclBundle.Proofs.Renumber.Moves
import Mathlib.Data.List.Duplicate
import Mathlib.Data.List.Forall2

/-!
# What a run writes, and when it writes nothing

Everything that can be wrong with a manifest or with the entries that are asked for is found before
the first file is written: a run with a reason to refuse (`Refuses`) leaves the files as they are,
however many of its entries could have been bundled. Without such a reason there is a plan for all
selected entries in the order of the manifest (`Plan.Follows`), and what the run then does is to
perform it (`run_refuses_or_performs`).
-/

namespace DeclBundle

/-! ## Computations that can fail -/

section

variable {ε α β : Type} {x : Except ε α} {f : α → Except ε β}

theorem bind_eq_ok {b : β} : x >>= f = .ok b ↔ ∃ a, x = .ok a ∧ f a = .ok b := by
  cases x <;> simp [bind, Except.bind]

theorem bind_eq_error {e : ε} :
    x >>= f = .error e ↔ x = .error e ∨ ∃ a, x = .ok a ∧ f a = .error e := by
  cases x <;> simp [bind, Except.bind]

end

/-! ## Refusals and plans -/

/-- The entries of a manifest that a command line selects. -/
def Manifest.selected (m : Manifest) (args : Args) : List Entry :=
  m.entries.filter fun e => args.entries = [] ∨ e.module ∈ args.entries

/-- The file of the manifest holds `m`. -/
def Args.Finds (args : Args) (t : FileTree) (m : Manifest) : Prop :=
  ∃ text, t.read? args.manifest = some text ∧ Manifest.parse text = .ok m

/-- The reasons to write nothing, each with the error that tells it. -/
inductive Refuses (args : Args) (t : FileTree) : RunError → Prop
  | unreadable (h : t.read? args.manifest = none) : Refuses args t (.unreadable args.manifest)
  | unparsable {text : String} {e : Json.ReadError} (h : t.read? args.manifest = some text)
      (he : Manifest.parse text = .error e) : Refuses args t (.unparsable args.manifest)
  | emptyId {m : Manifest} {u : DeclUnit} (hm : args.Finds t m) (hu : u ∈ m.modules)
      (he : u.path = "") : Refuses args t (.store .emptyModuleId)
  | repeatedId {m : Manifest} {path : String} (hm : args.Finds t m)
      (h : List.Duplicate path (m.modules.map (·.path))) :
      Refuses args t (.store (.duplicateModule path))
  | noEntry {m : Manifest} {name : String} (hm : args.Finds t m) (hn : name ∈ args.entries)
      (h : ∀ e ∈ m.entries, e.module ≠ name) : Refuses args t (.noEntry name)
  | notStored {m : Manifest} {e : Entry} (hm : args.Finds t m) (he : e ∈ m.selected args)
      (h : ∀ u ∈ m.modules, u.path ≠ e.module) : Refuses args t (.bundle (.unknownEntry e.module))

/-- The bundler of a manifest under the options of a command line. -/
def Manifest.bundler (m : Manifest) (args : Args) : Bundler :=
  Bundler.ofStore (Store.storeOf m.modules) (args.applyTo m.options)

/-- The files that are written for an entry: its map if there is to be one, then its bundle. -/
def Entry.outputs (args : Args) (o : Options) (e : Entry) : List String :=
  let path := Path.join (Plan.outDir args) e.output
  (if (args.applyTo o).sourceMap then [Path.ofMap path] else []) ++ [path]

/-- A plan for all selected entries of a manifest that has nothing to refuse. -/
structure Plan.Follows (p : Plan) (args : Args) (m : Manifest) : Prop where
  units : Store.Distinct m.modules
  named : ∀ name ∈ args.entries, ∃ e ∈ m.entries, e.module = name
  stored : ∀ e ∈ m.selected args, ∃ u ∈ m.modules, u.path = e.module
  bundles : List.Forall₂ (fun e bundle => (m.bundler args).bundle e = .ok bundle)
    (m.selected args) p.bundles
  written : p.written = (m.selected args).flatMap (Entry.outputs args m.options)
    ++ if args.stats then [Path.join (Plan.outDir args) "stats.json"] else []

/-! ## Stores -/

namespace Store

theorem addAll_error : ∀ {us : List DeclUnit} {s : Store} {e : StoreError},
    s.addAll us = .error e → (e = .emptyModuleId ∧ ∃ u ∈ us, u.path = "")
      ∨ ∃ path, e = .duplicateModule path
        ∧ List.Duplicate path (s.units.map (·.path) ++ us.map (·.path))
  | [], _, _, h => by cases h
  | u :: us, s, e, h => by
    rw [addAll, bind_eq_error] at h
    rcases h with hu | ⟨s', hu, h⟩
    · rw [add_eq] at hu
      split at hu
      · rename_i he
        exact .inl ⟨(Except.error.inj hu).symm, u, List.mem_cons_self, he⟩
      · split at hu
        · rename_i hl
          refine .inr ⟨u.path, (Except.error.inj hu).symm, List.duplicate_iff_sublist.2 ?_⟩
          have hin : u.path ∈ s.units.map (·.path) := by
            by_contra hno
            rw [lookup_eq_none hno] at hl
            cases hl
          exact (List.singleton_sublist.2 hin).append (List.singleton_sublist.2 List.mem_cons_self)
        · cases hu
    · rcases addAll_error h with ⟨he, v, hv, hp⟩ | ⟨path, he, hp⟩
      · exact .inl ⟨he, v, List.mem_cons_of_mem u hv, hp⟩
      · exact .inr ⟨path, he, by simpa [add_ok hu] using hp⟩

theorem addAll_paths : ∀ {us : List DeclUnit} {s s' : Store}, s.addAll us = .ok s' →
    s'.units.map (·.path) = s.units.map (·.path) ++ us.map (·.path) ∧ ∀ u ∈ us, u.path ≠ ""
  | [], _, _, h => by
    cases h
    simp
  | u :: us, s, s', h => by
    rw [addAll, bind_eq_ok] at h
    obtain ⟨s₁, hu, h⟩ := h
    obtain ⟨hpaths, hne⟩ := addAll_paths h
    refine ⟨by simp [hpaths, add_ok hu], List.forall_mem_cons.2 ⟨fun he => ?_, hne⟩⟩
    rw [add_eq, if_pos he] at hu
    cases hu

/-- Units make a store only if their paths are different and not empty. -/
theorem distinct_of_ofUnits {us : List DeclUnit} {s : Store} (h : ofUnits us = .ok s) :
    Distinct us := by
  obtain ⟨hpaths, hne⟩ := addAll_paths h
  have hnodup := (built_ofUnits h).nodup_paths
  rw [hpaths] at hnodup
  exact ⟨hne, by simpa [empty] using hnodup⟩

theorem lookup_storeOf_eq_none {us : List DeclUnit} {path : String} :
    (storeOf us).lookup path = none ↔ ∀ u ∈ us, u.path ≠ path := by
  constructor
  · intro h u hu he
    obtain ⟨m, hm⟩ := exists_lookup (List.mem_map.2 ⟨u, hu, he⟩)
    rw [hm] at h
    cases h
  · intro h
    refine lookup_eq_none fun hm => ?_
    rw [storeOf, paths_numbered] at hm
    obtain ⟨u, hu, he⟩ := List.mem_map.1 hm
    exact h u hu he

end Store

/-! ## Selection -/

theorem wantedEntries_error {entries : List Entry} {wanted : List String} {e : RunError}
    (h : wantedEntries entries wanted = .error e) :
    ∃ name ∈ wanted, e = .noEntry name ∧ ∀ x ∈ entries, x.module ≠ name := by
  unfold wantedEntries at h
  split at h
  · rename_i name hname
    refine ⟨name, List.mem_of_find?_eq_some hname, (Except.error.inj h).symm, ?_⟩
    simpa using List.find?_some hname
  · cases h

theorem wantedEntries_ok {entries selected : List Entry} {wanted : List String}
    (h : wantedEntries entries wanted = .ok selected) :
    (∀ name ∈ wanted, ∃ x ∈ entries, x.module = name)
      ∧ selected = entries.filter fun e => wanted = [] ∨ e.module ∈ wanted := by
  unfold wantedEntries at h
  split at h
  · cases h
  · rename_i hnone
    refine ⟨fun name hn => by simpa using List.find?_eq_none.1 hnone name hn, ?_⟩
    rw [← Except.ok.inj h]
    cases wanted <;> simp

/-! ## Bundles -/

namespace Bundler

variable {b : Bundler}

theorem bundle_error {x : Entry} {e : BundleError} (h : b.bundle x = .error e) :
    e = .unknownEntry x.module ∧ b.store.lookup x.module = none := by
  unfold bundle at h
  split at h
  · rename_i hl
    exact ⟨(Except.error.inj h).symm, hl⟩
  · cases h

theorem bundleEach_error : ∀ {es : List Entry} {e : BundleError}, b.bundleEach es = .error e →
    ∃ x ∈ es, e = .unknownEntry x.module ∧ b.store.lookup x.module = none
  | [], _, h => by cases h
  | x :: es, e, h => by
    rw [bundleEach, bind_eq_error] at h
    rcases h with hx | ⟨bundle, -, h⟩
    · exact ⟨x, List.mem_cons_self, bundle_error hx⟩
    · rw [bind_eq_error] at h
      rcases h with hes | ⟨bundles, -, h⟩
      · obtain ⟨y, hy, he⟩ := bundleEach_error hes
        exact ⟨y, List.mem_cons_of_mem x hy, he⟩
      · cases h

theorem bundleEach_ok : ∀ {es : List Entry} {bundles : List Bundle},
    b.bundleEach es = .ok bundles →
      List.Forall₂ (fun e bundle => b.bundle e = .ok bundle) es bundles
  | [], _, h => by
    cases h
    exact .nil
  | x :: es, bundles, h => by
    rw [bundleEach, bind_eq_ok] at h
    obtain ⟨bundle, hx, h⟩ := h
    rw [bind_eq_ok] at h
    obtain ⟨rest, hes, h⟩ := h
    cases h
    exact .cons hx (bundleEach_ok hes)

theorem exists_bundle {es : List Entry} {bundles : List Bundle}
    (h : List.Forall₂ (fun e bundle => b.bundle e = .ok bundle) es bundles) :
    ∀ e ∈ es, ∃ bundle, b.bundle e = .ok bundle := by
  induction h with
  | nil => simp
  | cons hb _ ih => exact List.forall_mem_cons.2 ⟨⟨_, hb⟩, ih⟩

/-- A bundle goes to the output of its entry and has a map if the options say so. -/
theorem outputs_bundle {e : Entry} {bundle : Bundle} (h : b.bundle e = .ok bundle) :
    bundle.file.fileName = e.output ∧ bundle.printed.map.isSome = b.options.sourceMap := by
  obtain ⟨entryId, -, rfl⟩ := bundle_ok b e h
  exact ⟨rfl, Print.isSome_map_run _ _⟩

end Bundler

/-! ## The plan -/

theorem Bundle.targets_steps (dir : String) (b : Bundle) :
    (b.steps dir).filterMap Step.target?
      = (if b.printed.map.isSome then [Path.ofMap (Path.join dir b.file.fileName)] else [])
        ++ [Path.join dir b.file.fileName] := by
  have hdirs : ((Path.parent? (Path.join dir b.file.fileName)).map
      Step.makeDirs).toList.filterMap Step.target? = [] := by
    cases Path.parent? (Path.join dir b.file.fileName) <;> rfl
  unfold Bundle.steps
  split <;> rename_i hmap <;> simp [hdirs, hmap, Step.target?]

namespace Plan

variable {args : Args} {t : FileTree} {m : Manifest}

/-- The files of a plan are those of its entries, one after the other. -/
theorem targets_bundles {b : Bundler} {dir : String} {es : List Entry} {bundles : List Bundle}
    (h : List.Forall₂ (fun e bundle => b.bundle e = .ok bundle) es bundles) :
    (bundles.flatMap (Bundle.steps dir)).filterMap Step.target? = es.flatMap fun e =>
      (if b.options.sourceMap then [Path.ofMap (Path.join dir e.output)] else [])
        ++ [Path.join dir e.output] := by
  induction h with
  | nil => rfl
  | cons hb _ ih =>
    obtain ⟨hfile, hmap⟩ := Bundler.outputs_bundle hb
    rw [List.flatMap_cons, List.filterMap_append, ih, Bundle.targets_steps, hfile, hmap,
      List.flatMap_cons]

/-- The plan for units that make a store and entries that are all in the manifest. -/
theorem ofManifest_eq {selected : List Entry} (hu : Store.Distinct m.modules)
    (hw : wantedEntries m.entries args.entries = .ok selected) : ofManifest args m = (do
      let bundles ← ((m.bundler args).bundleEach selected).mapError .bundle
      return ⟨bundles, bundles.flatMap (Bundle.steps (outDir args)) ++ if args.stats
        then [.write (Path.join (outDir args) "stats.json") (statsReport bundles)] else []⟩) := by
  rw [ofManifest, hu.ofUnits, hw]
  rfl

/-- Going from the manifest to a plan either finds something to refuse or succeeds. -/
theorem ofManifest_spec (hm : args.Finds t m) :
    (∃ e, ofManifest args m = .error e ∧ Refuses args t e)
      ∨ ∃ plan, ofManifest args m = .ok plan ∧ plan.Follows args m := by
  cases hs : Store.ofUnits m.modules with
  | error e =>
    refine .inl ⟨.store e, by rw [ofManifest, hs]; rfl, ?_⟩
    rcases Store.addAll_error hs with ⟨rfl, u, hu, he⟩ | ⟨path, rfl, hp⟩
    · exact .emptyId hm hu he
    · exact .repeatedId hm (by simpa [Store.empty] using hp)
  | ok store =>
    have hunits := Store.distinct_of_ofUnits hs
    cases hw : wantedEntries m.entries args.entries with
    | error e =>
      obtain ⟨name, hn, rfl, hne⟩ := wantedEntries_error hw
      exact .inl ⟨_, by rw [ofManifest, hs, hw]; rfl, .noEntry hm hn hne⟩
    | ok selected =>
      obtain ⟨hnamed, hsel⟩ := wantedEntries_ok hw
      obtain rfl : selected = m.selected args := hsel
      rw [ofManifest_eq hunits hw]
      cases hb : (m.bundler args).bundleEach (m.selected args) with
      | error e =>
        obtain ⟨x, hx, rfl, hl⟩ := Bundler.bundleEach_error hb
        exact .inl ⟨_, rfl, .notStored hm hx (Store.lookup_storeOf_eq_none.1 hl)⟩
      | ok bundles =>
        have hall := Bundler.bundleEach_ok hb
        refine .inr ⟨_, rfl, hunits, hnamed, fun e he => ?_, hall, ?_⟩
        · obtain ⟨bundle, hbundle⟩ := Bundler.exists_bundle hall e he
          obtain ⟨entryId, hl, -⟩ := Bundler.bundle_ok _ e hbundle
          by_contra hno
          have hnone : (m.bundler args).store.lookup e.module = none :=
            Store.lookup_storeOf_eq_none.2 fun u hu he => hno ⟨u, hu, he⟩
          rw [hnone] at hl
          cases hl
        · rw [written, List.filterMap_append, targets_bundles hall]
          cases args.stats <;> rfl

theorem finds_unique {m' : Manifest} (h : args.Finds t m) (h' : args.Finds t m') : m = m' := by
  obtain ⟨text, htext, hm⟩ := h
  obtain ⟨text', htext', hm'⟩ := h'
  rw [htext] at htext'
  cases htext'
  rw [hm] at hm'
  exact Except.ok.inj hm'

/-- A plan for a manifest leaves nothing to refuse. -/
theorem Follows.not_refuses {plan : Plan} (h : plan.Follows args m) (hm : args.Finds t m)
    (e : RunError) : ¬ Refuses args t e := by
  have hm' := hm
  obtain ⟨text, htext, hparse⟩ := hm'
  intro hr
  cases hr with
  | unreadable hn => simp [htext] at hn
  | unparsable ht he =>
    rw [htext] at ht
    cases ht
    simp [hparse] at he
  | emptyId hm' hu he =>
    cases finds_unique hm hm'
    exact h.units.nonempty _ hu he
  | repeatedId hm' hp =>
    cases finds_unique hm hm'
    exact List.nodup_iff_forall_not_duplicate.1 h.units.nodup _ hp
  | noEntry hm' hn hno =>
    cases finds_unique hm hm'
    obtain ⟨x, hx, he⟩ := h.named _ hn
    exact hno x hx he
  | notStored hm' hs hno =>
    cases finds_unique hm hm'
    obtain ⟨u, hu, he⟩ := h.stored _ hs
    exact hno u hu he

/-- A run finds something to refuse or has a plan. -/
theorem ofText_spec (args : Args) (t : FileTree) :
    (∃ e, ofText args (t.read? args.manifest) = .error e ∧ Refuses args t e)
      ∨ ∃ m plan, ofText args (t.read? args.manifest) = .ok plan ∧ args.Finds t m
        ∧ plan.Follows args m := by
  cases htext : t.read? args.manifest with
  | none => exact .inl ⟨_, rfl, .unreadable htext⟩
  | some text =>
    rw [ofText]
    cases hm : Manifest.parse text with
    | error e => exact .inl ⟨_, rfl, .unparsable htext hm⟩
    | ok m =>
      have hfinds : args.Finds t m := ⟨text, htext, hm⟩
      rcases ofManifest_spec hfinds with h | ⟨plan, hplan, hf⟩
      · exact .inl h
      · exact .inr ⟨m, plan, hplan, hfinds, hf⟩

/-! ## The run -/

/-- Performing steps comes to its end exactly if each of them can be done after those before. -/
theorem perform_eq_ok {steps : List Step} {t t' : FileTree} :
    perform t steps = (t', .ok ()) ↔ steps.foldlM Step.after? t = some t' := by
  induction steps generalizing t with
  | nil => simp [perform]
  | cons step rest ih =>
    rw [perform, List.foldlM_cons]
    cases step.after? t with
    | none => simp
    | some t₁ => exact ih

end Plan

/-- A run that has something to refuse leaves the files as they are and tells such a reason. A run
that has not performs a plan for the selected entries; and when a run comes to its end, its plan is
one for the selected entries and all its steps were done, one after the other. -/
theorem run_refuses_or_performs (args : Args) (t : FileTree) :
    ((∃ e, Refuses args t e) → ∃ e, Refuses args t e ∧ run args t = (t, .error e))
      ∧ ((¬ ∃ e, Refuses args t e) → ∃ m plan, args.Finds t m ∧ plan.Follows args m
        ∧ run args t = ((Plan.perform t plan.steps).1,
          (Plan.perform t plan.steps).2.map fun _ => plan))
      ∧ ∀ plan, (run args t).2 = .ok plan → ∃ m, args.Finds t m ∧ plan.Follows args m
        ∧ plan.steps.foldlM Step.after? t = some (run args t).1 := by
  rcases Plan.ofText_spec args t with ⟨e, htext, he⟩ | ⟨m, plan, htext, hm, hf⟩
  · have hrun : run args t = (t, .error e) := by rw [run, htext]
    refine ⟨fun _ => ⟨e, he, hrun⟩, fun hno => absurd ⟨e, he⟩ hno, fun plan hplan => ?_⟩
    rw [hrun] at hplan
    cases hplan
  · have hrun : run args t = ((Plan.perform t plan.steps).1,
        (Plan.perform t plan.steps).2.map fun _ => plan) := by rw [run, htext]
    refine ⟨fun ⟨e, he⟩ => absurd he (hf.not_refuses hm e),
      fun _ => ⟨m, plan, hm, hf, hrun⟩, fun plan' hplan => ?_⟩
    rw [hrun] at hplan ⊢
    cases hp : (Plan.perform t plan.steps).2 with
    | error e =>
      rw [hp] at hplan
      cases hplan
    | ok u =>
      rw [hp] at hplan
      cases hplan
      exact ⟨m, hm, hf, Plan.perform_eq_ok.1 (Prod.ext rfl hp)⟩

/-- A manifest with an entry that can be bundled and one whose module is missing. -/
def halfStoredText : String :=
  "\x7b\"modules\":[\x7b\"id\":\"a.ts\"\x7d],"
    ++ "\"entries\":[\x7b\"module\":\"a.ts\",\"output\":\"a.d.ts\"\x7d,"
    ++ "\x7b\"module\":\"b.ts\",\"output\":\"b.d.ts\"\x7d]\x7d"

/-- A directory with the manifest `halfStoredText` alone. -/
def halfStored : FileTree where
  files := ⟨[(["m.json"], .text halfStoredText)]⟩

/-- The command line that asks for every entry of `m.json`. -/
def bothEntries : Args where
  manifest := "m.json"

/-- The command line that asks for the entry `a.ts` alone, with all that can be written. -/
def storedEntry : Args where
  manifest := "m.json"
  entries := ["a.ts"]
  sourceMap := true
  stats := true

theorem parse_halfStored : ∃ m, Manifest.parse halfStoredText = .ok m
    ∧ m.modules.map (·.path) = ["a.ts"]
    ∧ m.entries = [⟨"a.ts", "a.d.ts", none⟩, ⟨"b.ts", "b.d.ts", none⟩] := by
  have h : (Manifest.parse halfStoredText).toOption.any (fun m => m.modules.map (·.path) = ["a.ts"]
      ∧ m.entries = [⟨"a.ts", "a.d.ts", none⟩, ⟨"b.ts", "b.d.ts", none⟩]) = true := by
    decide +kernel
  cases hp : Manifest.parse halfStoredText with
  | error e => simp [hp, Except.toOption] at h
  | ok m => exact ⟨m, rfl, by simpa [hp, Except.toOption] using h⟩

/-- A run for both entries writes nothing, and one for the entry that can be bundled writes all. -/
theorem run_refuses_or_performs_halfStored :
    (∃ e, Refuses bothEntries halfStored e
        ∧ run bothEntries halfStored = (halfStored, .error e))
      ∧ ∃ plan, (run storedEntry halfStored).2 = .ok plan
        ∧ plan.written = ["a.d.ts.map", "a.d.ts", "stats.json"] := by
  obtain ⟨m, hm, hmodules, hentries⟩ := parse_halfStored
  have hread : halfStored.read? "m.json" = some halfStoredText := rfl
  constructor
  · have hmissing : ∀ u ∈ m.modules, u.path ≠ "b.ts" := fun u hu he => by
      have hmem : u.path ∈ m.modules.map (·.path) := List.mem_map.2 ⟨u, hu, rfl⟩
      rw [hmodules, he] at hmem
      exact absurd hmem (by decide)
    have hselected : ⟨"b.ts", "b.d.ts", none⟩ ∈ m.selected bothEntries := by
      simp [Manifest.selected, hentries, bothEntries]
    exact (run_refuses_or_performs bothEntries halfStored).1
      ⟨_, .notStored ⟨halfStoredText, hread, hm⟩ hselected hmissing⟩
  · have hok : (run storedEntry halfStored).2.toOption.isSome = true := by decide +kernel
    cases hrun : (run storedEntry halfStored).2 with
    | error e => simp [hrun, Except.toOption] at hok
    | ok plan =>
      obtain ⟨m', hm', hf, -⟩ := (run_refuses_or_performs storedEntry halfStored).2.2 plan hrun
      have hfinds : storedEntry.Finds halfStored m := ⟨halfStoredText, hread, hm⟩
      cases Plan.finds_unique hfinds hm'
      refine ⟨plan, rfl, hf.written.trans ?_⟩
      rw [Manifest.selected, hentries]
      rfl

end DeclBundle
