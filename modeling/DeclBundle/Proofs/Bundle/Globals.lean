import DeclBundle.Proofs.Bundle.References
import DeclBundle.Proofs.Names.Given

/-!
# Globals of a bundle

A name that nothing provides means a global, and where these are reserved no top-level binding gets
such a name: every use of it is reported before names are chosen. The exception is a computed member
name that starts with `Symbol`. It is passed over as a well-known symbol, so the global is not
reserved for it, and a binding that was given the name keeps it (`global_captured_iff`).
-/

namespace DeclBundle

/-- The first segment of the name that stands at a place. -/
def Mention.root? : Mention → Option String
  | .name root _ | .key root => some root
  | .importType .. => none

namespace NamePlace

/-- What is bound around a place. -/
def binders (p : NamePlace) : List Binder :=
  p.spot.layers.foldl (fun bound l => l.binders ++ bound)
    (p.bodies.foldl (fun bound body => Free.bodyBinders body ++ bound) [])

/-- The name at a place, unless it is bound around the place. -/
def free? (p : NamePlace) : Option String :=
  p.spot.mention.root?.filter fun root => !Free.isBound p.binders root p.spot.mention.space

/-- A free name is reported, unless it is blank or passed over as a well-known symbol. -/
theorem reported_of_free? {p : NamePlace} {x : String} (h : p.free? = some x) :
    p.reported [] = some (.name x) ∨ x = "" ∨ p.spot.mention = .key "Symbol" := by
  have hr : p.reported [] = p.spot.mention.reported p.binders := rfl
  rw [hr]
  rw [free?, Option.filter_eq_some_iff, Bool.not_eq_true'] at h
  obtain ⟨hroot, hbound⟩ := h
  generalize p.spot.mention = m at hroot hbound ⊢
  by_cases hx : x = ""
  · exact .inr (.inl hx)
  · cases m with
    | name root space =>
      cases hroot
      exact .inl (Mention.reportedName_eq_some.2 ⟨hx, hbound, rfl⟩)
    | key root =>
      cases hroot
      by_cases hs : x = "Symbol"
      · exact .inr (.inr (congrArg Mention.key hs))
      · refine .inl ?_
        rw [Mention.reported, if_neg hs]
        exact Mention.reportedName_eq_some.2 ⟨hx, hbound, rfl⟩
    | importType specifier qualifier isTypeOf => cases hroot

theorem eq_root_of_free? {p : NamePlace} {x root : String} (h : p.free? = some x)
    (hm : p.spot.mention.root? = some root) : x = root := by
  rw [free?, Option.filter_eq_some_iff] at h
  exact Option.some.inj (h.1.symm.trans hm)

end NamePlace

namespace Bundler

/-- The places of a bundle that may use a name from outside: those of the declarations that survive
and those of the text in its modules. -/
inductive Place (b : Bundler) (entry : Entry) (entryId module : ModuleId) (p : NamePlace) : Prop
  | declaration {t : ModuleTree} {d : Declaration} (ht : t ∈ b.shaken entry entryId)
    (hm : t.module = module) (hd : .declaration d ∈ t.statements)
    (hp : p ∈ NamePlace.inDeclaration d)
  | verbatim {u : DeclUnit} {tokens : List Token} {pos : Option Position}
    (hm : module ∈ b.sources entryId) (hu : b.store.get? module = some u)
    (hs : .verbatim tokens pos ∈ u.statements) (hp : p ∈ NamePlace.ofSpots (Spot.ofTokens tokens))

/-- What is reported at a place is a reference of the bundle. -/
theorem Place.uses {b : Bundler} {entry : Entry} {entryId module : ModuleId} {p : NamePlace}
    (h : b.Place entry entryId module p) {r : Reference} (hr : p.reported [] = some r) :
    b.Uses entry entryId module r := by
  cases h with
  | declaration ht hm hd hp =>
    obtain ⟨⟨i, a⟩, hi, ha⟩ := NamePlace.exists_analysis hp hr
    exact .declaration ht hm hd hi ha
  | verbatim hm hu hs hp =>
    refine .verbatim hm hu hs ?_
    obtain ⟨spot, hspot, rfl⟩ := List.mem_map.1 hp
    rw [Analysis.verbatim, Analysis.references_ofOccurrences, List.mem_eraseDups,
      Spot.references_ofTokens]
    exact List.mem_filterMap.2 ⟨spot, hspot, hr⟩

theorem suffixed_ne_of_dollar {x : String} (hx : '$' ∉ x.toList) (base : String) (k : Nat) :
    x ≠ suffixed base k := fun h => hx (h ▸ dollar_mem_suffixed base k)

variable {store : Store} (hb : store.Built) (options : Options) (entry : Entry)
  (entryId : ModuleId)

include hb in
theorem chosen_names : ((ofStore store options).names entry entryId).Chosen
    ((ofStore store options).reserved entry entryId) := by
  refine FinalNames.chosen_choose fun t ht c hc => hb.id_lt ?_
  have hs : c ∈ (ofStore store options).survivors entry entryId := List.mem_flatMap.2 ⟨t, ht, hc⟩
  exact ((mem_survivors options entry entryId).1 hs).1

include hb in
/-- The name of a symbol is that of a binding that survives. -/
theorem exists_id_of_symbol {m : ModuleId} {given x : String}
    (h : ((ofStore store options).names entry entryId).symbol? m given = some x) :
    ∃ id, ((ofStore store options).names entry entryId).get? id = some x := by
  obtain ⟨id, hr⟩ := FinalNames.requested_of_symbol _ h
  obtain ⟨t, ht, c, hc, rfl, rfl, rfl⟩ := (FinalNames.symbol_mem_all _).1 hr
  exact ⟨c.id, (get?_of_survivor hb options entry entryId
    (List.mem_flatMap.2 ⟨t, ht, hc⟩)).trans h⟩

/-- A name that is used in a bundle, bound nowhere around and provided by nothing is the final name
of a top-level binding just in one case, where globals are reserved: nothing reports the global,
because each of its uses is blank or a computed member name that starts with `Symbol`, and a
top-level binding was given that name. Neither of the two names has a number, so only what was given
the name can have got it. -/
theorem global_captured_iff {store : Store} (hb : store.Built) (options : Options)
    (hg : options.reserveGlobals = true) (entry : Entry) {bundle : Bundle}
    (h : (ofStore store options).bundle entry = .ok bundle) :
    ∃ entryId, store.lookup entry.module = some entryId ∧
      ∀ module p x, (ofStore store options).Place entry entryId module p → p.free? = some x →
        ((store.linker options).resolveLocal module x).1 = .unresolved →
          ((∃ id, bundle.naming.names.get? id = some x)
            ↔ (x = "" ∨ p.spot.mention = .key "Symbol")
              ∧ x ∉ ((ofStore store options).reached entry entryId).globals
              ∧ ∃ id b, bundle.naming.names.topLevel.get? id = some b ∧ b.given = x) := by
  obtain ⟨entryId, hid, rfl⟩ := bundle_ok _ entry h
  refine ⟨entryId, hid, fun module p x hp hx hr => ?_⟩
  have hreserved : (ofStore store options).reserved entry entryId
      = ((ofStore store options).reached entry entryId).globals := if_pos hg
  have hn := sound_names hb options entry entryId
  have hrow := @exists_id_of_symbol _ hb options entry entryId
  have hc := chosen_names hb options entry entryId
  rw [hreserved] at hn hc
  rw [names_bundleModule]
  have hexcept : x ∉ ((ofStore store options).reached entry entryId).globals →
      x = "" ∨ p.spot.mention = .key "Symbol" := fun hx' =>
    (NamePlace.reported_of_free? hx).resolve_left fun hrep =>
      hx' ((hp.uses hrep).mem_globals hb options entry entryId hr)
  have hplain : x = "" ∨ p.spot.mention = .key "Symbol" → ∀ base k, x ≠ suffixed base k := by
    rintro (rfl | hm)
    · exact suffixed_ne_of_dollar (by decide)
    · cases NamePlace.eq_root_of_free? hx (congrArg Mention.root? hm)
      exact suffixed_ne_of_dollar (by decide)
  constructor
  · rintro ⟨id, hid⟩
    obtain ⟨o, ho⟩ := hn.exists_owner hid
    have he := hexcept (hn.name_not_reserved ho)
    exact ⟨he, (hc.exists_name_iff hn hrow (hplain he)).1 ⟨id, hid⟩⟩
  · rintro ⟨he, hgiven⟩
    exact (hc.exists_name_iff hn hrow (hplain he)).2 hgiven

/-! ## A well-known symbol -/

/-- A computed member name that means the global `Symbol`, and another module that declares a
constant of that name. -/
def symbolUnits : List DeclUnit :=
  [⟨"a.ts", [.imports ⟨"b.ts", none, none, [⟨"Symbol", "S"⟩], false⟩,
      .declaration ⟨none, { exported := true }, none, .interface "I" [] []
        [.property (.computed ⟨["Symbol", "iterator"]⟩) {} false (some (.query ⟨["S"]⟩ []))]⟩]⟩,
    ⟨"b.ts", [.declaration ⟨none, { exported := true }, none,
      .variableList .constant [⟨none, "Symbol", some (.keyword "string"), none⟩]⟩]⟩]

/-- The store of `symbolUnits`. -/
def symbolStore : Store := ((Store.ofUnits symbolUnits).toOption).getD {}

theorem sources_symbol : (ofStore symbolStore {}).sources 0 = [0, 1] :=
  List.mergeSort_of_pairwise (l := [0, 1]) (by decide)

/-- The constant keeps its name, so the computed name means the constant in the bundle. -/
theorem global_captured_symbol : ∃ bundle, Store.ofUnits symbolUnits = .ok symbolStore
    ∧ (ofStore symbolStore {}).bundle ⟨"a.ts", "a.d.ts", none⟩ = .ok bundle
    ∧ (ofStore symbolStore {}).Place ⟨"a.ts", "a.d.ts", none⟩ 0 0
        ⟨[], ⟨[.types []], .key "Symbol"⟩⟩
    ∧ ((symbolStore.linker {}).resolveLocal 0 "Symbol").1 = .unresolved
    ∧ ∃ id, bundle.naming.names.get? id = some "Symbol" := by
  have hu : Store.ofUnits symbolUnits = .ok symbolStore := rfl
  have hplace : (ofStore symbolStore {}).Place ⟨"a.ts", "a.d.ts", none⟩ 0 0
      ⟨[], ⟨[.types []], .key "Symbol"⟩⟩ := by
    have ht : ∃ t ∈ (ofStore symbolStore {}).shaken ⟨"a.ts", "a.d.ts", none⟩ 0, t.module = 0
        ∧ ∃ d, .declaration d ∈ t.statements
          ∧ ⟨[], ⟨[.types []], .key "Symbol"⟩⟩ ∈ NamePlace.inDeclaration d := by
      simp only [shaken, reached, sources_symbol]
      exact ⟨_, List.mem_cons_self, rfl, _, List.mem_cons_of_mem _ List.mem_cons_self,
        List.mem_cons_self⟩
    obtain ⟨t, ht, hm, d, hd, hp⟩ := ht
    exact .declaration ht hm hd hp
  have hr : ((symbolStore.linker {}).resolveLocal 0 "Symbol").1 = .unresolved := by decide +kernel
  have hgiven : "Symbol" ∉ ((ofStore symbolStore {}).reached ⟨"a.ts", "a.d.ts", none⟩ 0).globals
      ∧ (((ofStore symbolStore {}).names ⟨"a.ts", "a.d.ts", none⟩ 0).topLevel.get? 2).map (·.given)
        = some "Symbol" := by
    simp only [names, context, reserved, shaken, reached, sources_symbol]
    decide +kernel
  refine ⟨_, hu, rfl, hplace, hr, ?_⟩
  obtain ⟨entryId, hid, hiff⟩ :=
    global_captured_iff (Store.built_ofUnits hu) {} rfl ⟨"a.ts", "a.d.ts", none⟩ rfl
  cases (Option.some.inj hid : 0 = entryId)
  obtain ⟨v, hv, he⟩ := Option.map_eq_some_iff.1 hgiven.2
  exact (hiff 0 _ "Symbol" hplace rfl hr).2 ⟨.inr rfl, hgiven.1, 2, v, hv, he⟩

end Bundler

end DeclBundle
