import DeclBundle.Proofs.Names.Around

/-!
# What renaming captures and frees

The image of a place is the reference at it under its final name. Renaming loses it where it is
captured (`NamePlace.Captured`), which a parameter of that name does in the space of values, and it
brings up a new reference where one is freed (`NamePlace.Freed`), which happens to `infer` names
that the bound of their conditional type no longer binds. Everywhere else the image is what is found
(`NamePlace.found_of_image`, `NamePlace.freed_iff`), and so a renamed declaration refers to the
images exactly if what is captured is referred to elsewhere and what is freed is an image elsewhere
(`NamePlace.references_iff`).
-/

namespace DeclBundle

/-- The site of a top-level declaration: its final names are taken, and so are the names that
nothing provides if they are reserved. -/
structure Site.Top (o : Site) (reserve : Bool) (d : Declaration) : Prop where
  locals_eq : o.locals = []
  outer_taken : ∀ name x, o.outer name = some x → x ∈ o.scopes.taken
  importRoot_taken : ∀ specifier qualifier x, o.importRoot specifier qualifier = some x →
    x ∈ o.scopes.taken
  global_taken : reserve = true → ∀ p ∈ NamePlace.inDeclaration d, ∀ name,
    p.reported [] = some (.name name) → o.outer name = none → name ∈ o.scopes.taken

namespace NamePlace

/-- What the reference of a place should become: a name gets the final name of what it stands for,
an import type becomes a name or stays. -/
def image (o : Site) (p : NamePlace) : Option Reference :=
  (p.reported []).map fun
    | .name name => .name ((o.outer name).getD name)
    | .importType specifier qualifier =>
      match Mention.inlineRoot? o specifier qualifier p.spot.mention.isTypeOf with
      | some root => .name root
      | none => .importType specifier qualifier

/-- The reference of a place is none of the renamed declaration. -/
inductive Captured (o : Site) (reserve : Bool) (p : NamePlace) : Prop where
  /-- A parameter around the place has its final name. -/
  | parameter {name : String} (image : p.image o = some (.name name))
    (space : p.spot.mention.space ≠ .type) (bound : name ∈ p.spot.parameterNames)
  /-- Nothing provides the name and nothing reserves it, and a binder around the place is renamed to
  it. -/
  | global {name : String} (reported : p.reported [] = some (.name name))
    (outer : o.outer name = none) (reserve_eq : reserve = false)
    (bound : Free.isBound (p.frame { site := o }).after name p.spot.mention.space = true)
  /-- The final name is blank. -/
  | blank (image : p.image o = some (.name ""))
  /-- A computed member name ends up like a well-known symbol. -/
  | symbol {root : String} (mention : p.spot.mention = .key root)
    (image : p.image o = some (.name "Symbol"))

/-- The name at a place is bound or blank, and a reference of the renamed declaration. -/
inductive Freed (o : Site) (p : NamePlace) : Prop where
  /-- The name means an `infer` name, and no binder around the place has its final name. -/
  | infer {root : String} {space : Space} {l : LocalName}
    (mention : p.spot.mention = .name root space)
    (means : (p.frame { site := o }).site.local? root space = some l) (type : l.space = .type)
    (inferred : l.name ∈ (p.frame { site := o }).inferred) (name : l.name ≠ "")
    (bound : Free.isBound (p.frame { site := o }).after l.name space = false)
  /-- The name is blank, and its final name is not. -/
  | blank {r : Reference}
    (mention : p.spot.mention = .key "" ∨ ∃ space, p.spot.mention = .name "" space)
    (found : p.found { site := o } = some r)

end NamePlace

namespace Mention

/-- What stands at a place when the name at it becomes `x`. -/
def withRoot (x : String) : Mention → Mention
  | .name _ space => .name x space
  | .key _ => .key x
  | .importType _ _ isTypeOf => .name x (if isTypeOf then .value else .type)

theorem reported_withRoot_eq_some {bound : List Binder} {x : String} {r : Reference} {m : Mention} :
    (m.withRoot x).reported bound = some r
      ↔ x ≠ "" ∧ Free.isBound bound x m.space = false ∧ (∀ root, m = .key root → x ≠ "Symbol")
        ∧ .name x = r := by
  cases m with
  | name root sp =>
    rw [withRoot, reported, reportedName_eq_some]
    simp [Mention.space]
  | key root =>
    simp only [withRoot, reported, Mention.space]
    split
    · rename_i hs
      exact iff_of_false (by simp) fun h => h.2.2.1 root rfl hs
    · rename_i hs
      rw [reportedName_eq_some]
      simp [hs]
  | importType specifier qualifier isTypeOf =>
    rw [withRoot, reported, reportedName_eq_some]
    simp [Mention.space]

end Mention

namespace NamePlace

variable {o : Site} {reserve : Bool} {d : Declaration} {p : NamePlace}

theorem mem_parameterNames {name : String} :
    (name, .value) ∈ (p.frame { site := o }).before ↔ name ∈ p.spot.parameterNames := by
  rw [mem_before_frame, Spot.parameterNames, List.mem_flatMap]
  constructor
  · rintro (h | ⟨body, -, h⟩ | ⟨l, hl, h⟩)
    · exact absurd h List.not_mem_nil
    · exact nomatch Rename.both_of_mem_bodyBinders h
    · exact ⟨l, hl, Layer.value_mem_binders.1 h⟩
  · rintro ⟨l, hl, h⟩
    exact .inr (.inr ⟨l, hl, Layer.value_mem_binders.2 h⟩)

theorem renamed_of_image (ho : o.locals = []) {x : String} (h : p.image o = some (.name x)) :
    p.spot.mention.renamed (p.frame { site := o }).site = p.spot.mention.withRoot x := by
  have hf := (Frame.Follows.start o ho).frame p
  obtain ⟨r, hr, hx⟩ := Option.map_eq_some_iff.1 h
  rw [p.reported_eq { site := o }] at hr
  have hfinal : ∀ {root space}, Mention.reportedName (p.frame { site := o }).before root space
      = some r → ((p.frame { site := o }).site.finalName? root space).getD root = x := by
    intro root space hr
    obtain ⟨-, hb, rfl⟩ := Mention.reportedName_eq_some.1 hr
    rw [Site.finalName?, hf.local?_of_not_bound hb, hf.outer]
    exact Reference.name.inj hx
  generalize p.spot.mention = m at hr hx ⊢
  cases m with
  | name root space => rw [Mention.renamed, hfinal hr, Mention.withRoot]
  | key root =>
    simp only [Mention.reported] at hr
    split at hr
    · cases hr
    · rename_i hs
      rw [Mention.renamed, if_neg hs, hfinal hr, Mention.withRoot]
  | importType specifier qualifier isTypeOf =>
    cases hr
    simp only [Mention.isTypeOf] at hx
    simp only [Mention.renamed, Mention.inlineRoot?, hf.importRoot] at hx ⊢
    split at hx
    · rename_i hroot
      cases hx
      rw [hroot]
      rfl
    · cases hx

theorem found_of_image_name (ho : o.locals = []) {x : String} (h : p.image o = some (.name x)) :
    p.found { site := o }
      = (p.spot.mention.withRoot x).reported (p.frame { site := o }).after := by
  rw [← renamed_of_image ho h]
  rfl

theorem found_of_image_importType (ho : o.locals = []) {specifier : String}
    {qualifier : Option String} (h : p.image o = some (.importType specifier qualifier)) :
    p.found { site := o } = some (.importType specifier qualifier) := by
  have hf := (Frame.Follows.start o ho).frame p
  obtain ⟨r, hr, hx⟩ := Option.map_eq_some_iff.1 h
  rw [p.reported_eq { site := o }] at hr
  have hfound : p.found { site := o } = (p.spot.mention.renamed
    (p.frame { site := o }).site).reported (p.frame { site := o }).after := rfl
  rw [hfound]
  cases r with
  | name name => cases hx
  | importType specifier' qualifier' =>
    generalize p.spot.mention = m at hr hx ⊢
    cases m with
    | name root space => exact nomatch (Mention.reportedName_eq_some.1 hr).2.2
    | key root =>
      simp only [Mention.reported] at hr
      split at hr
      · cases hr
      · exact nomatch (Mention.reportedName_eq_some.1 hr).2.2
    | importType _ _ isTypeOf =>
      cases hr
      simp only [Mention.isTypeOf] at hx
      simp only [Mention.renamed, Mention.inlineRoot?, hf.importRoot] at hx ⊢
      split at hx
      · cases hx
      · rename_i hroot
        rw [hroot]
        exact congrArg some hx

theorem outside?_of_image {x : String} (h : p.image o = some (.name x)) :
    ∃ r, p.reported [] = some r ∧ o.outside? r = some x := by
  obtain ⟨r, hr, hx⟩ := Option.map_eq_some_iff.1 h
  refine ⟨r, hr, ?_⟩
  cases r with
  | name name => exact congrArg some (Reference.name.inj hx)
  | importType specifier qualifier =>
    simp only [Mention.inlineRoot?] at hx
    split at hx
    · rename_i hroot
      cases hx
      split at hroot
      · cases hroot
      · exact hroot
    · cases hx

/-- The image of a place is a taken name, unless nothing provides it and nothing reserves it. -/
theorem taken_of_image (ht : o.Top reserve d) (hp : p ∈ inDeclaration d) {x : String}
    (h : p.image o = some (.name x)) : x ∈ o.scopes.taken
      ∨ p.reported [] = some (.name x) ∧ o.outer x = none ∧ reserve = false := by
  obtain ⟨r, hr, hx⟩ := outside?_of_image h
  cases r with
  | importType specifier qualifier => exact .inl (ht.importRoot_taken _ _ _ hx)
  | name name =>
    simp only [Site.outside?, Option.some.injEq] at hx
    cases hn : o.outer name with
    | some y =>
      rw [hn, Option.getD_some] at hx
      exact .inl (hx ▸ ht.outer_taken _ _ hn)
    | none =>
      rw [hn, Option.getD_none] at hx
      subst hx
      cases hres : reserve with
      | true =>
        exact .inl (ht.global_taken hres p hp _ hr hn)
      | false => exact .inr ⟨hr, hn, rfl⟩

/-- A final name that is bound in the renamed declaration is captured. -/
theorem captured_of_bound (ht : o.Top reserve d) (hp : p ∈ inDeclaration d) {x : String}
    (h : p.image o = some (.name x))
    (hb : Free.isBound (p.frame { site := o }).after x p.spot.mention.space = true) :
    p.Captured o reserve := by
  rcases taken_of_image ht hp h with htaken | ⟨hr, hn, hres⟩
  · obtain ⟨r, hr, hx⟩ := outside?_of_image h
    obtain ⟨hs, hv⟩ := Frame.value_of_isBound_after ht.locals_eq (nested_inDeclaration hp) hr hx
      htaken hb
    exact .parameter h hs (mem_parameterNames.1 hv)
  · exact .global hr hn hres hb

/-- Where nothing is captured the image is found. -/
theorem found_of_image (ht : o.Top reserve d) (hp : p ∈ inDeclaration d) {r : Reference}
    (h : p.image o = some r) (hc : ¬ p.Captured o reserve) : p.found { site := o } = some r := by
  cases r with
  | importType specifier qualifier => exact found_of_image_importType ht.locals_eq h
  | name x =>
    rw [found_of_image_name ht.locals_eq h, Mention.reported_withRoot_eq_some]
    refine ⟨?_, Bool.eq_false_iff.2 fun hb => hc (captured_of_bound ht hp h hb), ?_, rfl⟩
    · rintro rfl
      exact hc (.blank h)
    · rintro root hm rfl
      exact hc (.symbol hm h)

/-- Nothing is found where something is captured, although there is an image. Whatever captures the
image stands against one of the conditions on what is found. -/
theorem captured_found (ho : o.locals = []) (hc : p.Captured o reserve) :
    p.found { site := o } = none ∧ ∃ x, p.image o = some (.name x) := by
  have key : ∀ {x}, p.image o = some (.name x) →
      ¬ (x ≠ "" ∧ Free.isBound (p.frame { site := o }).after x p.spot.mention.space = false
        ∧ ∀ root, p.spot.mention = .key root → x ≠ "Symbol") →
      p.found { site := o } = none ∧ ∃ x, p.image o = some (.name x) := by
    intro x h hn
    refine ⟨?_, x, h⟩
    rw [found_of_image_name ho h, Option.eq_none_iff_forall_ne_some]
    intro r hr
    obtain ⟨h₁, h₂, h₃, -⟩ := Mention.reported_withRoot_eq_some.1 hr
    exact hn ⟨h₁, h₂, h₃⟩
  cases hc with
  | @parameter x h hs hb =>
    have hv := (((Frame.Follows.start o ho).frame p).value x).2 (mem_parameterNames.2 hb)
    have hcovers : Space.covers .value p.spot.mention.space = true := by
      cases hsp : p.spot.mention.space with
      | type => exact absurd hsp hs
      | _ => rfl
    refine key h fun hn => Bool.eq_false_iff.1 hn.2.1 (List.any_eq_true.2 ⟨_, hv, ?_⟩)
    rw [beq_self_eq_true, Bool.true_and]
    exact hcovers
  | global hr hn hres hb =>
    refine key ?_ fun h => Bool.eq_false_iff.1 h.2.1 hb
    simp [image, hr, hn]
  | blank h => exact key h fun hn => hn.1 rfl
  | symbol hm h => exact key h fun hn => hn.2.2 _ hm rfl

theorem freed_of_found (ho : o.locals = []) {r : Reference} (h : p.image o = none)
    (hr : p.found { site := o } = some r) : p.Freed o := by
  have hf := (Frame.Follows.start o ho).frame p
  have hrep : p.spot.mention.reported (p.frame { site := o }).before = none := by
    rw [← p.reported_eq { site := o }]
    exact Option.map_eq_none_iff.1 h
  have hfound : (p.spot.mention.renamed (p.frame { site := o }).site).reported
    (p.frame { site := o }).after = some r := hr
  cases hm : p.spot.mention with
  | name root space =>
    rw [hm] at hrep hfound
    by_cases hroot : root = ""
    · exact .blank (.inr ⟨space, hroot ▸ hm⟩) hr
    · obtain ⟨l, hl⟩ := hf.local?_of_bound (Mention.isBound_of_reportedName hroot hrep)
      rw [Mention.renamed, Site.finalName?, hl] at hfound
      obtain ⟨hname, hb, -⟩ := Mention.reportedName_eq_some.1 hfound
      rcases (hf.of_local? hl).2.2 with hb' | ⟨hs, hi⟩
      · exact absurd hb' (Bool.eq_false_iff.1 hb)
      · exact .infer hm hl hs hi hname hb
  | key root =>
    rw [hm] at hrep hfound
    by_cases hs : root = "Symbol"
    · simp [Mention.renamed, Mention.reported, hs] at hfound
    · simp only [Mention.reported, if_neg hs] at hrep
      by_cases hroot : root = ""
      · exact .blank (.inl (hroot ▸ hm)) hr
      · obtain ⟨l, hl⟩ := hf.local?_of_bound (Mention.isBound_of_reportedName hroot hrep)
        rw [Mention.renamed, if_neg hs, Site.finalName?, hl] at hfound
        obtain ⟨-, hc, hkept⟩ := hf.of_local? hl
        rcases hkept with hb | ⟨ht, -⟩
        · simp [Mention.reported, Mention.reportedName, hb] at hfound
        · simp [ht, Space.covers] at hc
  | importType specifier qualifier isTypeOf =>
    rw [hm] at hrep
    cases hrep

theorem image_of_freed (ho : o.locals = []) (h : p.Freed o) : p.image o = none := by
  have hf := (Frame.Follows.start o ho).frame p
  refine Option.map_eq_none_iff.2 ?_
  rw [p.reported_eq { site := o }]
  cases h with
  | infer hm hl _ _ _ _ =>
    simp [hm, Mention.reported, Mention.reportedName, (hf.of_local? hl).1]
  | blank hm _ =>
    rcases hm with hm | ⟨space, hm⟩ <;> simp [hm, Mention.reported, Mention.reportedName]

/-- The places without an image where something is found are those where something is freed. -/
theorem freed_iff (ho : o.locals = []) :
    p.Freed o ↔ p.image o = none ∧ ∃ r, p.found { site := o } = some r := by
  refine ⟨fun h => ⟨image_of_freed ho h, ?_⟩, fun ⟨hi, r, hr⟩ => freed_of_found ho hi hr⟩
  cases h with
  | @infer root space l hm hl _ _ hname hb =>
    refine ⟨.name l.name, ?_⟩
    have hfound : p.found { site := o } = (p.spot.mention.renamed
      (p.frame { site := o }).site).reported (p.frame { site := o }).after := rfl
    rw [hfound, hm, Mention.renamed, Site.finalName?, hl]
    exact Mention.reportedName_eq_some.2 ⟨hname, hb, rfl⟩
  | blank _ hr => exact ⟨_, hr⟩

/-- At each place the image is found, unless it is captured or something is freed. -/
theorem found_eq_image_iff (ht : o.Top reserve d) (hp : p ∈ inDeclaration d) :
    p.found { site := o } = p.image o ↔ ¬ p.Captured o reserve ∧ ¬ p.Freed o := by
  constructor
  · intro h
    refine ⟨fun hc => ?_, fun hf => ?_⟩
    · obtain ⟨hnone, x, hx⟩ := captured_found ht.locals_eq hc
      rw [hnone, hx] at h
      cases h
    · obtain ⟨hnone, r, hr⟩ := (freed_iff ht.locals_eq).1 hf
      rw [hnone, hr] at h
      cases h
  · rintro ⟨hc, hf⟩
    cases hi : p.image o with
    | some r => exact found_of_image ht hp hi hc
    | none =>
      rw [Option.eq_none_iff_forall_ne_some]
      exact fun r hr => hf ((freed_iff ht.locals_eq).2 ⟨hi, r, hr⟩)

end NamePlace

/-- A renamed declaration refers to the images of what it referred to, exactly if what is captured
is referred to elsewhere in it and what is freed is an image elsewhere. -/
theorem NamePlace.references_iff {o : Site} {reserve : Bool} {d : Declaration}
    (ht : o.Top reserve d) :
    (∀ r, r ∈ (Analysis.declaration (Rename.declaration o d).value).references
        ↔ ∃ p ∈ inDeclaration d, p.image o = some r)
      ↔ (∀ p ∈ inDeclaration d, p.Captured o reserve → ∀ r, p.image o = some r →
          r ∈ (Analysis.declaration (Rename.declaration o d).value).references)
        ∧ ∀ p ∈ inDeclaration d, p.Freed o → ∀ r, p.found { site := o } = some r →
          ∃ q ∈ inDeclaration d, q.image o = some r := by
  constructor
  · intro h
    refine ⟨fun p hp _ r hr => (h r).2 ⟨p, hp, hr⟩, fun p hp _ r hr => (h r).1 ?_⟩
    exact mem_references_rename.2 ⟨p, hp, hr⟩
  · rintro ⟨hcaptured, hfreed⟩ r
    constructor
    · intro hr
      obtain ⟨p, hp, hfound⟩ := mem_references_rename.1 hr
      cases hi : p.image o with
      | none => exact hfreed p hp ((freed_iff ht.locals_eq).2 ⟨hi, r, hfound⟩) r hfound
      | some r' =>
        have hc : ¬ p.Captured o reserve := fun hc => by
          rw [(captured_found ht.locals_eq hc).1] at hfound
          cases hfound
        rw [found_of_image ht hp hi hc] at hfound
        exact ⟨p, hp, hi.trans hfound⟩
    · rintro ⟨p, hp, hi⟩
      by_cases hc : p.Captured o reserve
      · exact hcaptured p hp hc r hi
      · exact mem_references_rename.2 ⟨p, hp, found_of_image ht hp hi hc⟩

end DeclBundle
