import DeclBundle.Proofs.Bundle.Stages
import DeclBundle.Proofs.Names.Around
import DeclBundle.Proofs.Names.Exported
import DeclBundle.Proofs.Reference.Analysis

/-!
# Namespaces keep their exports

What a name of a namespace body becomes can be read off the trees: a member becomes what stands at
its place in the renamed body, and any other name what it becomes around the body
(`Part.knownAt`). With that a renamed body exports the same names as the body, each for what its
local name becomes; its members stay apart, and none of them has the final name of what the body
refers to outside (`KeepsExports`, `Naming.namespaces_keep_exports`).

A list may also export a name that nothing in the bundle provides. Such a name stays as it is, and
only if it is reserved no renamed member can get it.
-/

namespace DeclBundle

open List (Forall₂)

/-! ## Names in a renamed body -/

/-- The final name that a name has in a body, if it has one: that of the member at its place, or
else the one around the body. -/
def knownIn (known : String → Option String) (body body' : List Statement) (name : String) :
    Option String :=
  (((Frame.members body).zip (Frame.members body')).lookup name).or (known name)

/-- What a name becomes in a body. -/
def finalIn (known : String → Option String) (body body' : List Statement) (name : String) :
    String :=
  (knownIn known body body' name).getD name

/-- What the analysis reports for a namespace with this body. -/
def bodyReferences (body : List Statement) : List Reference :=
  (Analysis.ofOccurrences (Free.inBody (Free.bodyBinders body) body)).references

/-- What the analysis reports for a statement. -/
def Statement.references (st : Statement) : List Reference :=
  (Analysis.ofOccurrences (Free.inStatement [] st)).references

/-- The final name of a reference, if it has one. -/
def finalReference (known : String → Option String)
    (roots : String → Option String → Option String) : Reference → Option String
  | .name name => known name
  | .importType specifier qualifier => roots specifier qualifier

/-- A renamed body keeps the exports of a body, where `known` and `roots` give the final names
around it, the names in `taken` are taken and `reported` is what the whole statement refers to. -/
structure KeepsExports (known : String → Option String)
    (roots : String → Option String → Option String) (taken : List String)
    (reported : List Reference) (body body' : List Statement) : Prop where
  /-- The members stand where they stood, under their new names. -/
  members : Frame.members body' = (Frame.members body).map (finalIn known body body')
  apart : ∀ m ∈ Frame.members body, ∀ m' ∈ Frame.members body,
    finalIn known body body' m = finalIn known body body' m' → m = m'
  names : ∀ e, (∃ x, (e, x) ∈ exportPairs body') ↔ ∃ l, (e, l) ∈ exportPairs body
  /-- An exported name stands for what its local name becomes. -/
  exports : ∀ e x, (e, x) ∈ exportPairs body'
    ↔ ∃ l, (e, l) ∈ exportPairs body ∧ finalIn known body body' l = x
  /-- No member has the final name of what the body refers to outside. -/
  outer : ∀ r ∈ bodyReferences body, ∀ x, finalReference known roots r = some x →
    x ∉ Frame.members body'
  /-- Nor that of a name which has no final name but is taken. -/
  reserved : ∀ x, .name x ∈ bodyReferences body → x ∈ taken → x ∉ Frame.members body'
  /-- An exported name stands for just the members that it stood for. The exception is a list with a
  name that is blank, or that the statement refers to while nothing provides or has taken it. -/
  stands : ∀ e, ∀ m ∈ Frame.members body, (e, finalIn known body body' m) ∈ exportPairs body' →
    (e, m) ∈ exportPairs body ∨ ∃ l, l ∉ Frame.members body ∧ (e, l) ∈ exportPairs body
      ∧ (l = "" ∨ .name l ∈ reported ∧ known l = none ∧ l ∉ taken
        ∧ finalIn known body body' m = l)

theorem lookup_zip_map (f : String → String) (name : String) : ∀ xs : List String,
    (xs.zip (xs.map f)).lookup name = if name ∈ xs then some (f name) else none
  | [] => rfl
  | x :: xs => by
    rw [List.map_cons, List.zip_cons_cons, List.lookup_cons, lookup_zip_map f name xs]
    by_cases h : name = x
    · simp [h]
    · simp [h, beq_eq_false_iff_ne.2 h]

/-! ## What a body refers to -/

theorem Free.mem_inBody {bound : List Binder} {o : Occurrence} {st : Statement} : ∀ {body},
    st ∈ body → o ∈ inStatement bound st → o ∈ inBody bound body
  | st' :: body, h, ho => by
    rw [inBody, List.mem_append]
    rcases List.mem_cons.1 h with rfl | h
    · exact .inl ho
    · exact .inr (mem_inBody h ho)

theorem mem_members_iff {body : List Statement} {name : String} :
    name ∈ Frame.members body ↔ (name, .both) ∈ Free.bodyBinders body := by
  rw [Rename.bodyBinders_eq_members]
  exact ⟨fun h => List.mem_map.2 ⟨name, h, rfl⟩, fun h => by
    obtain ⟨m, hm, he⟩ := List.mem_map.1 h
    cases he
    exact hm⟩

/-- What is reported for a body is none of its members. -/
theorem not_mem_members {body : List Statement} {name : String}
    (h : .name name ∈ bodyReferences body) : name ∉ Frame.members body := by
  rw [bodyReferences, Analysis.references_ofOccurrences, List.mem_eraseDups,
    NamePlace.references_inBody] at h
  obtain ⟨q, -, hq⟩ := List.mem_filterMap.1 h
  exact fun hm => NamePlace.not_mem_of_reported hq (mem_members_iff.1 hm)

/-- A name that a body exports is a member of it, blank, or reported. -/
theorem reported_of_exported {body : List Statement} {e l : String} (h : (e, l) ∈ exportPairs body)
    (hm : l ∉ Frame.members body) (hl : l ≠ "") : .name l ∈ bodyReferences body := by
  obtain ⟨st, hst, hp⟩ := List.mem_flatMap.1 h
  cases st with
  | declaration d =>
    obtain ⟨-, he, rfl⟩ := Rename.mem_exportPairs_declaration.1 hp
    exact absurd (Rename.mem_members body hst he) hm
  | exports x =>
    obtain ⟨specifiers, source, typeOnly⟩ := x
    cases source with
    | some source => exact absurd hp List.not_mem_nil
    | none =>
      obtain ⟨x, hx, he⟩ := List.mem_map.1 hp
      cases he
      have hb : Free.isBound (Free.bodyBinders body) x.binding .both = false := by
        refine Bool.eq_false_iff.2 fun hb => hm ?_
        obtain ⟨b, hbm, hc⟩ := List.any_eq_true.1 hb
        simp only [Bool.and_eq_true, beq_iff_eq] at hc
        exact List.mem_map.2 ⟨b, hbm, hc.1⟩
      rw [bodyReferences, Analysis.references_ofOccurrences, List.mem_eraseDups]
      refine List.mem_filterMap.2 ⟨.reference (.name x.binding), Free.mem_inBody hst ?_, rfl⟩
      exact List.mem_flatMap.2 ⟨x, hx, by simp [Free.useName, hl, hb]⟩
  | _ => exact absurd hp List.not_mem_nil

/-! ## At the site of a namespace -/

/-- What is known where a namespace stands: the final names there, and some of the names taken. -/
structure Site.Knows (s : Site) (known : String → Option String)
    (roots : String → Option String → Option String) (taken : List String) : Prop where
  covered : s.Covered
  finalName? : ∀ name, s.finalName? name .both = known name
  importRoot : s.importRoot = roots
  mem_taken : ∀ x ∈ taken, x ∈ s.scopes.taken

/-- A member with a name that is taken around the body has kept it, and is not captured. -/
theorem Rename.of_mem_members_bodyAt {s : Site} {body : List Statement} {x : String}
    (hx : x ∈ Frame.members (Rename.bodyAt s body)) (ht : x ∈ s.scopes.taken) :
    x ∈ Frame.members body ∧ x ∉ Rename.capturedNames s body := by
  rw [Rename.members_bodyAt] at hx
  obtain ⟨m, hm, rfl⟩ := List.mem_map.1 hx
  obtain ⟨hkept, hc⟩ := s.newName_enterBody hm ht
  rw [hkept]
  exact ⟨hm, hc⟩

namespace Site.Knows

variable {s : Site} {known : String → Option String}
  {roots : String → Option String → Option String} {taken : List String}

theorem knownIn_eq (h : s.Knows known roots taken) (body : List Statement) (name : String) :
    let inside := s.enterBody (Rename.capturedNames s body) (Frame.members body)
    knownIn known body (Rename.bodyAt s body) name = inside.2.finalName? name .both := by
  intro inside
  rw [knownIn, Rename.members_bodyAt, lookup_zip_map, Site.finalName?_enterBody, h.finalName?]
  split <;> rfl

theorem enterBody (h : s.Knows known roots taken) (body : List Statement) :
    (s.enterBody (Rename.capturedNames s body) (Frame.members body)).2.Knows
      (knownIn known body (Rename.bodyAt s body)) roots taken where
  covered := h.covered.enterBody _ _
  finalName? name := (h.knownIn_eq body name).symm
  importRoot := h.importRoot
  mem_taken x hx := Site.mem_taken_enterBody_iff.2 (.inl (h.mem_taken x hx))

theorem finalIn_eq (h : s.Knows known roots taken) (body : List Statement) (name : String) :
    let inside := s.enterBody (Rename.capturedNames s body) (Frame.members body)
    finalIn known body (Rename.bodyAt s body) name = Rename.plainName inside.2 name := by
  intro inside
  rw [finalIn, h.knownIn_eq, Rename.plainName]

theorem not_mem_members_of_knownIn (h : s.Knows known roots taken) {body : List Statement}
    {name : String} (hn : knownIn known body (Rename.bodyAt s body) name = none) :
    name ∉ Frame.members body := by
  intro hm
  rw [h.knownIn_eq, Site.finalName?_enterBody, if_pos hm] at hn
  cases hn

theorem finalIn_of_mem (h : s.Knows known roots taken) {body : List Statement} {m : String}
    (hm : m ∈ Frame.members body) : finalIn known body (Rename.bodyAt s body) m
      = Rename.newName (s.enterBody (Rename.capturedNames s body) (Frame.members body)).1 m := by
  rw [h.finalIn_eq, Rename.plainName_enterBody, if_pos hm]

theorem finalIn_of_not_mem (h : s.Knows known roots taken) {body : List Statement} {name : String}
    (hm : name ∉ Frame.members body) :
    finalIn known body (Rename.bodyAt s body) name = (known name).getD name := by
  rw [h.finalIn_eq, Rename.plainName_enterBody, if_neg hm, Rename.plainName, h.finalName?]

theorem reference?_eq (h : s.Knows known roots taken) :
    ∀ r : Reference, s.reference? r = finalReference known roots r
  | .name name => h.finalName? name
  | .importType specifier qualifier => congrFun (congrFun h.importRoot specifier) qualifier

/-- A member under its new name stands where it stood. -/
theorem members_bodyAt (h : s.Knows known roots taken) (body : List Statement) :
    Frame.members (Rename.bodyAt s body)
      = (Frame.members body).map (finalIn known body (Rename.bodyAt s body)) := by
  rw [Rename.members_bodyAt]
  exact List.map_congr_left fun m hm => (h.finalIn_of_mem hm).symm

theorem finalIn_inj (h : s.Knows known roots taken) {body : List Statement} {m m' : String}
    (hm : m ∈ Frame.members body) (hm' : m' ∈ Frame.members body)
    (he : finalIn known body (Rename.bodyAt s body) m
      = finalIn known body (Rename.bodyAt s body) m') : m = m' := by
  rw [h.finalIn_of_mem hm, h.finalIn_of_mem hm'] at he
  exact Site.newName_enterBody_inj hm hm' he

theorem mem_exportPairs (h : s.Knows known roots taken) (body : List Statement) (e x : String) :
    (e, x) ∈ exportPairs (Rename.bodyAt s body)
      ↔ ∃ l, (e, l) ∈ exportPairs body ∧ finalIn known body (Rename.bodyAt s body) l = x := by
  rw [Rename.mem_exportPairs_bodyAt]
  simp only [h.finalIn_eq]

theorem outer_not_mem (h : s.Knows known roots taken) {body : List Statement} {r : Reference}
    (hr : r ∈ bodyReferences body) {x : String} (hx : finalReference known roots r = some x) :
    x ∉ Frame.members (Rename.bodyAt s body) := by
  intro hm
  rw [← h.reference?_eq] at hx
  have hc := Rename.of_mem_members_bodyAt hm (h.covered.reference? hx)
  exact hc.2 (List.mem_filterMap.2 ⟨r, hr, hx⟩)

theorem reserved_not_mem (h : s.Knows known roots taken) {body : List Statement} {x : String}
    (hx : .name x ∈ bodyReferences body) (ht : x ∈ taken) :
    x ∉ Frame.members (Rename.bodyAt s body) := fun hm =>
  not_mem_members hx (Rename.of_mem_members_bodyAt hm (h.mem_taken x ht)).1

/-- What a body refers to becomes the name of a member only if it has no final name and is not
taken. -/
theorem free_of_finalIn_mem (h : s.Knows known roots taken) {body : List Statement} {l : String}
    (hl : .name l ∈ bodyReferences body)
    (hm : finalIn known body (Rename.bodyAt s body) l ∈ Frame.members (Rename.bodyAt s body)) :
    known l = none ∧ l ∉ taken ∧ finalIn known body (Rename.bodyAt s body) l = l := by
  rw [h.finalIn_of_not_mem (not_mem_members hl)] at hm ⊢
  cases hk : known l with
  | some x =>
    rw [hk] at hm
    exact absurd hm (h.outer_not_mem hl hk)
  | none =>
    rw [hk] at hm
    exact ⟨rfl, fun ht => h.reserved_not_mem hl ht hm, rfl⟩

theorem keepsExports (h : s.Knows known roots taken) {reported : List Reference}
    (body : List Statement) (hreported : ∀ name, .name name ∈ bodyReferences body →
      known name = none → .name name ∈ reported) :
    KeepsExports known roots taken reported body (Rename.bodyAt s body) where
  members := h.members_bodyAt body
  apart _ hm _ hm' he := h.finalIn_inj hm hm' he
  names e := by
    constructor
    · rintro ⟨x, hx⟩
      obtain ⟨l, hl, -⟩ := (h.mem_exportPairs body e x).1 hx
      exact ⟨l, hl⟩
    · rintro ⟨l, hl⟩
      exact ⟨_, (h.mem_exportPairs body e _).2 ⟨l, hl, rfl⟩⟩
  exports := h.mem_exportPairs body
  outer _ hr _ hx := h.outer_not_mem hr hx
  reserved _ hx ht := h.reserved_not_mem hx ht
  stands e m hm he := by
    obtain ⟨l, hl, hlm⟩ := (h.mem_exportPairs body e _).1 he
    by_cases hmem : l ∈ Frame.members body
    · exact .inl (h.finalIn_inj hmem hm hlm ▸ hl)
    · refine .inr ⟨l, hmem, hl, ?_⟩
      by_cases hblank : l = ""
      · exact .inl hblank
      · have href := reported_of_exported hl hmem hblank
        have hm' : finalIn known body (Rename.bodyAt s body) l
            ∈ Frame.members (Rename.bodyAt s body) := by
          rw [hlm, h.members_bodyAt]
          exact List.mem_map_of_mem hm
        obtain ⟨hk, ht, hkept⟩ := h.free_of_finalIn_mem href hm'
        exact .inr ⟨hreported l href hk, hk, ht, hlm ▸ hkept⟩

end Site.Knows

/-! ## Down to a namespace -/

namespace Part

/-- The body of a namespace. -/
def body? : Part → Option (List Statement)
  | .declaration ⟨_, _, _, .namespaceBlock _ _ body⟩ => some body
  | _ => none

/-- What is known below a step: in a namespace its members are. -/
def TwinStep.knows (known : String → Option String) (t : TwinStep) : String → Option String :=
  match t.before.body?, t.after.body? with
  | some body, some body' => knownIn known body body'
  | _, _ => known

/-- The final names that are known where steps lead to, where `known` are those around them. -/
def knownAt (known : String → Option String) (steps : List TwinStep) : String → Option String :=
  steps.foldl TwinStep.knows known

/-- Statements and declarations, among which the namespaces are. -/
def IsBlock : Part → Prop
  | .statement _ | .declaration _ => True
  | _ => False

theorem isBlock_of_body? {p : Part} {body : List Statement} (h : p.body? = some body) :
    p.IsBlock := by
  unfold body? at h
  split at h
  · trivial
  · cases h

/-- Below a node that is none there are no statements and declarations. -/
theorem not_isBlock_of_mem {p : Part} (hp : ¬ p.IsBlock) : ∀ c ∈ p.regions, ¬ c.2.IsBlock := by
  cases p with
  | statement | declaration => exact absurd trivial hp
  | type t => cases t <;> simp [signatureRegions, IsBlock, or_imp, forall_and]
  | member m => cases m <;> simp [signatureRegions, IsBlock, or_imp, forall_and]
  | _ => simp [IsBlock, or_imp, forall_and]

theorem not_isBlock_of_mem_declaration {id : Option DeclId} {modifiers : Modifiers}
    {pos : Option Position} {k : DeclarationKind}
    (hk : ∀ name moduleKeyword body, k ≠ .namespaceBlock name moduleKeyword body) :
    ∀ c ∈ (declaration ⟨id, modifiers, pos, k⟩).regions, ¬ c.2.IsBlock := by
  cases k with
  | namespaceBlock name moduleKeyword body => exact absurd rfl (hk name moduleKeyword body)
  | classLike name tps base implemented ms =>
    cases base <;> simp [IsBlock, or_imp, forall_and]
  | _ => simp [signatureRegions, IsBlock, or_imp, forall_and]

/-- Statements and declarations stand below declarations and namespaces. -/
theorem isBlock_below {p c : Part} {r : Region} (hc : (r, c) ∈ p.regions) (hb : c.IsBlock) :
    p.IsBlock ∧ (p.body? = none ∧ r = .outside ∨ (∃ body, p.body? = some body) ∧ r = .inside) := by
  by_cases hp : p.IsBlock
  · refine ⟨hp, ?_⟩
    cases p with
    | statement st =>
      cases st with
      | declaration d =>
        cases List.mem_singleton.1 hc
        exact .inl ⟨rfl, rfl⟩
      | _ => exact absurd hc List.not_mem_nil
    | declaration d =>
      obtain ⟨id, modifiers, pos, k⟩ := d
      cases k with
      | namespaceBlock name moduleKeyword body =>
        obtain ⟨_, -, he⟩ := List.mem_map.1 hc
        cases he
        exact .inr ⟨⟨body, rfl⟩, rfl⟩
      | _ => exact absurd hb (not_isBlock_of_mem_declaration (by simp) _ hc)
    | _ => exact hp.elim
  · exact absurd hb (not_isBlock_of_mem hp _ hc)

/-- What a namespace becomes has the body that its own becomes. -/
theorem Becomes.body? {s : Site} {p p' : Part} (h : Becomes s p p') {body : List Statement}
    (hb : p.body? = some body) : p'.body? = some (Rename.bodyAt s body)
      ∧ s.below p .inside = (s.enterBody (Rename.capturedNames s body) (Frame.members body)).2 := by
  unfold Part.body? at hb
  split at hb
  · rename_i id modifiers pos name moduleKeyword b
    cases hb
    cases h with
    | @declaration _ d' h =>
      obtain ⟨id', modifiers', pos', k'⟩ := d'
      change DeclarationKind.Becomes s (.namespaceBlock name moduleKeyword body) k' at h
      cases h with
      | same =>
        rw [Rename.value_kind_namespaceBlock]
        exact ⟨rfl, rfl⟩
      | setName _ name =>
        rw [Rename.value_kind_namespaceBlock]
        exact ⟨rfl, rfl⟩
  · cases hb

variable {known : String → Option String} {roots : String → Option String → Option String}
  {taken : List String}

theorem Beside.isBlock {p p' q q' : Part} {steps : List TwinStep} (h : Beside p p' steps q q')
    (hq : q.IsBlock) : p.IsBlock := by
  induction h with
  | here => exact hq
  | down hc _ ih => exact (isBlock_below (List.of_mem_zip hc).1 (ih hq)).1

theorem binders_of_body? {p : Part} {body : List Statement} (h : p.body? = some body) :
    p.binders .inside = Free.bodyBinders body := by
  unfold body? at h
  split at h <;> cases h
  rfl

/-- One step down to a statement or a declaration: what is known there, and that nothing but what is
known is bound. -/
theorem Becomes.knows_below {s : Site} {p p' c : Part} {r : Region} (hp : Becomes s p p')
    (hk : s.Knows known roots taken) (hc : (r, c) ∈ p.regions) (hcb : c.IsBlock) :
    let knows := TwinStep.knows known ⟨p, p', r⟩
    (s.below p r).Knows knows roots taken
      ∧ ∀ name, knows name = none → known name = none
        ∧ ∀ space, ¬ (Step.mk p r).Binds name space := by
  intro knows
  obtain ⟨-, ⟨hnone, rfl⟩ | ⟨⟨body, hbody⟩, rfl⟩⟩ := isBlock_below hc hcb
  · have he : knows = known := by simp only [knows, TwinStep.knows, hnone]
    rw [he]
    refine ⟨hk, fun name hn => ⟨hn, fun space ⟨b, hb, _⟩ => List.not_mem_nil hb⟩⟩
  · obtain ⟨hbody', hsite⟩ := hp.body? hbody
    have he : knows = knownIn known body (Rename.bodyAt s body) := by
      simp only [knows, TwinStep.knows, hbody, hbody']
    rw [he, hsite]
    refine ⟨hk.enterBody body, fun name hn => ⟨(Option.or_eq_none_iff.1 hn).2, ?_⟩⟩
    rintro space ⟨b, hb, rfl, -⟩
    have hm : b ∈ Free.bodyBinders body := binders_of_body? hbody ▸ hb
    exact hk.not_mem_members_of_knownIn hn (List.mem_map_of_mem hm)

/-- At the statements and declarations below, what is known is known from the steps. -/
theorem Beside.knows {p p' q q' : Part} {steps : List TwinStep} (h : Beside p p' steps q q')
    (hq : q.IsBlock) : ∀ {s : Site} {known : String → Option String}, Becomes s p p' →
      s.Knows known roots taken → (siteBelow s steps).Knows (knownAt known steps) roots taken := by
  induction h with
  | here => exact fun _ hk => hk
  | down hc hcq ih =>
    intro s known hp hk
    have hstep := hp.knows_below hk (List.of_mem_zip hc).1 (hcq.isBlock hq)
    exact ih hq (hp.of_mem_zip hc).2 hstep.1

/-- On the way down nothing binds a name that is not known at the end. -/
theorem Beside.unbound {p p' q q' : Part} {steps : List TwinStep} (h : Beside p p' steps q q')
    (hq : q.IsBlock) {name : String} : ∀ {s : Site} {known : String → Option String},
      Becomes s p p' → s.Knows known roots taken → knownAt known steps name = none →
        known name = none ∧ ∀ t ∈ steps.map TwinStep.origin, ∀ space, ¬ t.Binds name space := by
  induction h with
  | here => exact fun _ _ hn => ⟨hn, fun _ ht => absurd ht List.not_mem_nil⟩
  | down hc hcq ih =>
    intro s known hp hk hn
    have hstep := hp.knows_below hk (List.of_mem_zip hc).1 (hcq.isBlock hq)
    obtain ⟨hnext, hrest⟩ := ih hq (hp.of_mem_zip hc).2 hstep.1 hn
    obtain ⟨hknown, hbinds⟩ := hstep.2 name hnext
    exact ⟨hknown, List.forall_mem_cons.2 ⟨hbinds, hrest⟩⟩

/-- A statement refers to the names that it uses somewhere where no node above binds them. -/
theorem name_mem_statement {st : Statement} {name : String} : .name name ∈ st.references
    ↔ ∃ around node space, (statement st).Above around node ∧ .name name space ∈ node.uses
        ∧ FreeAt around name space := by
  have hrefs : st.references = ((statement st).visits.flatMap Visit.references).eraseDups := by
    rw [Statement.references, Analysis.references_ofOccurrences, inStatement_eq, occurrences,
      Occurrence.references_flatMap]
    simp only [references_occurrences]
  rw [hrefs, List.mem_eraseDups, List.mem_flatMap]
  simp only [Visit.references, List.mem_filterMap, referenceAt_eq_name]
  constructor
  · rintro ⟨v, hv, _, hu, space, rfl, hf⟩
    exact ⟨v.around, v.node, space, mem_visits.1 hv, hu, hf⟩
  · rintro ⟨around, node, space, ha, hu, hf⟩
    exact ⟨⟨around, node⟩, ha.mem_visits, _, hu, space, rfl, hf⟩

/-- The whole statement refers to what a namespace refers to unless a node around it binds that. -/
theorem name_mem_of_bodyReferences {st : Statement} {steps : List Step} {q : Part}
    {body : List Statement} {name : String} (ha : (statement st).Above steps q)
    (hbody : q.body? = some body) (hname : .name name ∈ bodyReferences body)
    (hfree : ∀ t ∈ steps, ∀ space, ¬ t.Binds name space) : .name name ∈ st.references := by
  unfold body? at hbody
  split at hbody
  · rename_i id modifiers pos given moduleKeyword b
    cases hbody
    have hd : .name name ∈ (Analysis.declaration ⟨id, modifiers, pos,
        .namespaceBlock given moduleKeyword body⟩).references := by
      rw [Analysis.declaration, Free.inDeclaration, Free.inKind, List.append_nil]
      exact hname
    obtain ⟨around, node, space, hn, hu, hf⟩ := name_mem_references.1 hd
    refine name_mem_statement.2 ⟨steps ++ around, node, space, ha.append hn, hu, hf.nonblank, ?_⟩
    exact List.forall_mem_append.2 ⟨fun t ht => hfree t ht space, hf.unbound⟩
  · cases hbody

end Part

/-! ## Whole bundles -/

namespace FinalNames

theorem Covered.knows {n : FinalNames} {reserved : List String} (h : n.Covered reserved)
    (l : Linker) (module : ModuleId) : (Naming.site l n module).Knows (Naming.site l n module).outer
      (Naming.site l n module).importRoot (reserved ++ n.topNames) where
  covered := h.site l module
  finalName? _ := rfl
  importRoot := rfl
  mem_taken _ hx := h.mem_taken hx

end FinalNames

namespace Naming

/-- Putting the final names into the modules of a bundle keeps what every namespace exports, however
deep it stands. -/
theorem namespaces_keep_exports (c : NamingContext) (reserved : List String) (firstId : DeclId)
    (trees : List ModuleTree) :
    let named := run c reserved firstId trees
    Forall₂ (fun t t' => Forall₂ (fun st st' => ∀ steps₀ q body,
        (Part.statement st).Above steps₀ q → q.body? = some body → ∃ steps q' body',
          (Part.statement st).Beside (.statement st') steps q q'
            ∧ steps.map Part.TwinStep.origin = steps₀ ∧ q'.body? = some body'
            ∧ KeepsExports (Part.knownAt (site c.linker named.names t.module).outer steps)
              (site c.linker named.names t.module).importRoot (reserved ++ named.names.topNames)
              st.references body body') t.statements t'.statements) trees named.trees := by
  intro named
  have hcov := FinalNames.covered_choose c reserved firstId trees
  simp only [named, run, List.map_map, List.forall₂_map_right_iff, List.forall₂_same]
  intro t _
  simp only [Function.comp, tree, List.map_map, List.forall₂_map_right_iff, List.forall₂_same]
  intro st _ steps₀ q body ha hbody
  have hst := becomes_statement (FinalNames.choose c reserved firstId trees)
    (site c.linker (FinalNames.choose c reserved firstId trees) t.module) st
  obtain ⟨steps, q', hb, hsteps⟩ := Part.Becomes.exists_beside_of_above ha hst
  have hq := Part.isBlock_of_body? hbody
  have hknows := hcov.knows c.linker t.module
  refine ⟨steps, q', _, hb, hsteps, ((hb.becomes hst).body? hbody).1, ?_⟩
  refine (hb.knows hq hst hknows).keepsExports body fun name hname hn => ?_
  have hfree := (hb.unbound hq hst hknows hn).2
  exact Part.name_mem_of_bodyReferences ha hbody hname (hsteps ▸ hfree)

end Naming

/-! ## Exports that are captured -/

namespace Bundler

/-- A namespace that exports `A_$0`, which nothing declares, next to a member `A` with the final
name of what it refers to outside. -/
def unprovidedUnits : List DeclUnit :=
  [⟨"a.ts", [.imports ⟨"b.ts", none, none, [⟨"A", "B"⟩], false⟩,
      .declaration ⟨none, { exported := true }, none, .namespaceBlock "N" false
        [.exports ⟨[⟨"A_$0", "E"⟩], none, false⟩,
          .declaration ⟨none, .none, none, .interface "A" [] [] []⟩,
          .declaration ⟨none, .none, none, .typeAlias "T" [] (.reference ⟨["B"]⟩ [])⟩]⟩]⟩,
    ⟨"b.ts", [.declaration ⟨none, { exported := true }, none, .interface "A" [] [] []⟩]⟩]

/-- The store of `unprovidedUnits`. -/
def unprovidedStore : Store := ((Store.ofUnits unprovidedUnits).toOption).getD {}

/-- A namespace that exports an interface without a name next to a member `_$0`, and a module that
has such an interface as well. -/
def blankUnits : List DeclUnit :=
  [⟨"a.ts", [.imports ⟨"b.ts", none, none, [⟨"N", "N"⟩, ⟨"", "B"⟩], false⟩,
      .declaration ⟨none, { exported := true }, none, .interface "" [] [] []⟩,
      .declaration ⟨none, { exported := true }, none, .typeAlias "T" []
        (.union [.reference ⟨["N"]⟩ [], .reference ⟨["B"]⟩ []])⟩]⟩,
    ⟨"b.ts", [.declaration ⟨none, { exported := true }, none, .interface "" [] [] []⟩,
      .declaration ⟨none, { exported := true }, none, .namespaceBlock "N" false
        [.exports ⟨[⟨"", "E"⟩], none, false⟩,
          .declaration ⟨none, .none, none, .interface "_$0" [] [] []⟩]⟩]⟩]

/-- The store of `blankUnits`. -/
def blankStore : Store := ((Store.ofUnits blankUnits).toOption).getD {}

/-- The members of the namespaces that modules declare, and what they export. -/
def namespaceNames (trees : List ModuleTree) : List (List String × List (String × String)) :=
  trees.flatMap fun t => t.statements.filterMap fun s =>
    (s.declaration?.bind fun d => (Part.declaration d).body?).map fun body =>
      (Frame.members body, exportPairs body)

theorem sources_unprovided :
    (ofStore unprovidedStore { reserveGlobals := false }).sources 0 = [0, 1] :=
  List.mergeSort_of_pairwise (l := [0, 1]) (by decide)

theorem sources_blank : (ofStore blankStore {}).sources 0 = [0, 1] :=
  List.mergeSort_of_pairwise (l := [0, 1]) (by decide)

/-- Where such names are not reserved, the member `A` gets the name `A_$0`, and `E`, which stood for
no member, stands for it. A name that is blank is not reported, so the member `_$0` stays beside the
final name of the interface, and `E` stands for it as well. -/
theorem namespace_export_captured :
    (∃ bundle, Store.ofUnits unprovidedUnits = .ok unprovidedStore
      ∧ (ofStore unprovidedStore { reserveGlobals := false }).bundle ⟨"a.ts", "a.d.ts", none⟩
        = .ok bundle
      ∧ namespaceNames
          ((ofStore unprovidedStore { reserveGlobals := false }).shaken ⟨"a.ts", "a.d.ts", none⟩ 0)
        = [(["A", "T"], [("E", "A_$0")])]
      ∧ "A_$0" ∉ bundle.naming.names.topNames
      ∧ namespaceNames bundle.naming.trees = [(["A_$0", "T"], [("E", "A_$0")])])
    ∧ ∃ bundle, Store.ofUnits blankUnits = .ok blankStore
      ∧ (ofStore blankStore {}).bundle ⟨"a.ts", "a.d.ts", none⟩ = .ok bundle
      ∧ namespaceNames ((ofStore blankStore {}).shaken ⟨"a.ts", "a.d.ts", none⟩ 0)
        = [(["_$0"], [("E", "")])]
      ∧ (Naming.site (blankStore.linker {}) bundle.naming.names 1).outer "" = some "_$0"
      ∧ namespaceNames bundle.naming.trees = [(["_$0"], [("E", "_$0")])] := by
  constructor
  · refine ⟨_, rfl, rfl, ?_, ?_, ?_⟩
    · simp only [shaken, reached, sources_unprovided]
      decide +kernel
    · rw [names_bundleModule]
      simp only [names, context, reserved, shaken, reached, sources_unprovided]
      decide +kernel
    · rw [trees_bundleModule]
      simp only [renamed, names, context, reserved, shaken, reached, sources_unprovided]
      decide +kernel
  · refine ⟨_, rfl, rfl, ?_, ?_, ?_⟩
    · simp only [shaken, reached, sources_blank]
      decide +kernel
    · rw [names_bundleModule]
      simp only [names, context, reserved, shaken, reached, sources_blank]
      decide +kernel
    · rw [trees_bundleModule]
      simp only [renamed, names, context, reserved, shaken, reached, sources_blank]
      decide +kernel

end Bundler

end DeclBundle
