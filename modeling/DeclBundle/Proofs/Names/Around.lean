import DeclBundle.Proofs.Names.Bodies

/-!
# What is around a place while it is renamed

A frame that goes in from the top level keeps binders and local bindings in step
(`Frame.Follows.frame`). The new binders keep away from the final names of what a place refers to
outside of its declaration; only parameters, which are never renamed, can meet them
(`Frame.value_of_isBound_after`).
-/

namespace DeclBundle

namespace Frame

/-- What a frame keeps on the way in from the site `o` of a declaration. -/
structure Follows (o : Site) (f : Frame) : Prop where
  outer : f.site.outer = o.outer
  importRoot : f.site.importRoot = o.importRoot
  mem_taken : ∀ x ∈ o.scopes.taken, x ∈ f.site.scopes.taken
  /-- What is bound in the declaration is a local binding. -/
  mem_before : ∀ name space, (name, space) ∈ f.before
    ↔ ∃ l ∈ f.site.locals, l.given = name ∧ l.space = space
  /-- A local binding is bound in the renamed declaration, or by an `infer` name. -/
  kept : ∀ l ∈ f.site.locals, (l.name, l.space) ∈ f.after ∨ l.space = .type ∧ l.name ∈ f.inferred
  fresh : ∀ x, (x, .type) ∈ f.after → x ∉ o.scopes.taken
  /-- Parameters keep their names. -/
  value : ∀ x, (x, .value) ∈ f.after ↔ (x, .value) ∈ f.before

namespace Follows

variable {o : Site} {f : Frame}

theorem start (o : Site) (h : o.locals = []) : Follows o { site := o } where
  outer := rfl
  importRoot := rfl
  mem_taken _ hx := hx
  mem_before _ _ := by simp [h]
  kept l hl := by simp [h] at hl
  fresh _ hx := nomatch hx
  value _ := Iff.rfl

/-- Going into a scope with local bindings, which are bound as `bound` or by `inferred`. -/
theorem addLocals (h : Follows o f) {scopes : Scopes} (space : Space)
    (bindings : List (String × String)) {given bound : List Binder} {inferred : List String}
    (ht : ∀ x ∈ o.scopes.taken, x ∈ scopes.taken)
    (hg : given = bindings.map fun b => (b.1, space))
    (hk : ∀ b ∈ bindings, (b.2, space) ∈ bound ∨ space = .type ∧ b.2 ∈ inferred)
    (hf : ∀ x, (x, .type) ∈ bound → x ∉ o.scopes.taken)
    (hv : ∀ x, (x, .value) ∈ bound ↔ (x, .value) ∈ given) :
    Follows o
      { site := { f.site with scopes }.addLocals space bindings
        before := given ++ f.before
        after := bound ++ f.after
        inferred := inferred ++ f.inferred } where
  outer := h.outer
  importRoot := h.importRoot
  mem_taken := ht
  mem_before name sp := by
    simp only [Site.addLocals, List.mem_append, List.mem_reverse, h.mem_before, hg, List.mem_map,
      Prod.mk.injEq]
    constructor
    · rintro (⟨b, hb, rfl, rfl⟩ | ⟨l, hl, hn⟩)
      · exact ⟨⟨b.1, b.2, space⟩, .inl ⟨b, hb, rfl⟩, rfl, rfl⟩
      · exact ⟨l, .inr hl, hn⟩
    · rintro ⟨l, ⟨b, hb, rfl⟩ | hl, rfl, rfl⟩
      · exact .inl ⟨b, hb, rfl, rfl⟩
      · exact .inr ⟨l, hl, rfl, rfl⟩
  kept l hl := by
    simp only [Site.addLocals, List.mem_append, List.mem_reverse, List.mem_map] at hl ⊢
    rcases hl with ⟨b, hb, rfl⟩ | hl
    · exact (hk b hb).imp .inl fun hi => ⟨hi.1, .inl hi.2⟩
    · exact (h.kept l hl).imp .inr fun hi => ⟨hi.1, .inr hi.2⟩
  fresh x hx := (List.mem_append.1 hx).elim (hf x) (h.fresh x)
  value x := by rw [List.mem_append, List.mem_append, hv, h.value]

theorem not_mem_binders_types {names : List String} {x : String} {space : Space}
    (hs : space ≠ .type) : (x, space) ∉ (Layer.types names).binders := by
  intro hx
  obtain ⟨y, -, he⟩ := List.mem_map.1 hx
  exact hs (congrArg Prod.snd he).symm

/-- Going into a scope of types, which are bound under the names `bound` or by `inferred`. -/
theorem enterTypes (h : Follows o f) (names : List String) {bound inferred : List String}
    (hb : ∀ x ∈ bound, x ∉ o.scopes.taken)
    (hk : ∀ x ∈ (f.site.enterTypes names).1, x ∈ bound ∨ x ∈ inferred) :
    Follows o
      { site := (f.site.enterTypes names).2
        before := (Layer.types names).binders ++ f.before
        after := (Layer.types bound).binders ++ f.after
        inferred := inferred ++ f.inferred } := by
  refine h.addLocals .type (names.zip (f.site.enterTypes names).1) ?_ ?_ ?_ ?_ ?_
  · exact fun x hx => f.site.mem_taken_enterTypes names (h.mem_taken x hx)
  · conv_lhs => rw [← List.map_fst_zip (Nat.le_of_eq (f.site.length_enterTypes names).symm)]
    exact List.map_map ..
  · intro b hb
    have hz := (List.of_mem_zip (a := b.1) (b := b.2) hb).2
    refine (hk b.2 hz).imp (fun hn => ?_) fun hi => ⟨rfl, hi⟩
    exact List.mem_map.2 ⟨_, hn, rfl⟩
  · intro x hx
    obtain ⟨y, hy, he⟩ := List.mem_map.1 hx
    cases he
    exact hb _ hy
  · intro x
    exact iff_of_false (not_mem_binders_types (by decide)) (not_mem_binders_types (by decide))

theorem enter (h : Follows o f) : ∀ l : Layer, Follows o (f.enter l)
  | .types names => by
    refine @enterTypes o f h names _ [] ?_ fun _ hx => .inl hx
    exact fun _ hx ht => f.site.enterTypes_not_mem names hx (h.mem_taken _ ht)
  | .inferred limit => by
    refine h.enterTypes limit.inferredNames ?_ fun _ hx => .inr hx
    refine Rename.inferredNames_type
      (fun x hx => f.site.mem_taken_enterTypes _ (h.mem_taken x hx)) limit fun n hn => ?_
    exact Site.shields_enterTypes _ h.mem_taken (.inl hn)
  | .parameters names => by
    refine @addLocals o f h _ .value (names.map fun n => (n, n)) _ _ [] h.mem_taken ?_ ?_ ?_ ?_
    · simp [Layer.binders]
    · intro b hb
      obtain ⟨n, hn, rfl⟩ := List.mem_map.1 hb
      exact .inl (List.mem_map.2 ⟨n, hn, rfl⟩)
    · intro x hx
      obtain ⟨n, -, he⟩ := List.mem_map.1 hx
      cases he
    · exact fun x => Iff.rfl

theorem enterBody (h : Follows o f) (body : List Statement) : Follows o (f.enterBody body) := by
  refine @addLocals o f h _ .both
    ((members body).map fun m => (m, Rename.newName (f.renamedMembers body) m)) _ _ []
    ?_ ?_ ?_ ?_ ?_
  · exact fun x hx => (f.site.renames_enterBody _ _).mem_taken x (h.mem_taken x hx)
  · rw [Rename.bodyBinders_eq_members, List.map_map]
    rfl
  · intro b hb
    obtain ⟨m, hm, rfl⟩ := List.mem_map.1 hb
    exact .inl (List.mem_map.2 ⟨m, hm, rfl⟩)
  · intro x hx
    obtain ⟨n, -, he⟩ := List.mem_map.1 hx
    cases he
  · rw [Rename.bodyBinders_eq_members]
    simp

theorem enterLayers : ∀ (layers : List Layer) {f : Frame}, Follows o f →
    Follows o (layers.foldl Frame.enter f)
  | [], _, h => h
  | l :: layers, _, h => enterLayers layers (h.enter l)

theorem enterBodies : ∀ (bodies : List (List Statement)) {f : Frame}, Follows o f →
    Follows o (bodies.foldl Frame.enterBody f)
  | [], _, h => h
  | body :: bodies, _, h => enterBodies bodies (h.enterBody body)

theorem frame (h : Follows o f) (p : NamePlace) : Follows o (p.frame f) :=
  enterLayers p.spot.layers (enterBodies p.bodies h)

theorem local?_of_not_bound (h : Follows o f) {name : String} {space : Space}
    (hb : Free.isBound f.before name space = false) : f.site.local? name space = none := by
  refine List.find?_eq_none.2 fun l hl hc => ?_
  have hm : (l.given, l.space) ∈ f.before := (h.mem_before _ _).2 ⟨l, hl, rfl, rfl⟩
  exact Bool.eq_false_iff.1 hb (List.any_eq_true.2 ⟨_, hm, hc⟩)

theorem local?_of_bound (h : Follows o f) {name : String} {space : Space}
    (hb : Free.isBound f.before name space = true) : ∃ l, f.site.local? name space = some l := by
  obtain ⟨⟨n, sp⟩, hm, hc⟩ := List.any_eq_true.1 hb
  obtain ⟨l, hl, rfl, rfl⟩ := (h.mem_before _ _).1 hm
  exact Option.isSome_iff_exists.1 (List.find?_isSome.2 ⟨l, hl, hc⟩)

/-- A local binding that a use means covers it, and is bound in the renamed declaration or by an
`infer` name. -/
theorem of_local? (h : Follows o f) {name : String} {space : Space} {l : LocalName}
    (hl : f.site.local? name space = some l) :
    Free.isBound f.before name space = true ∧ l.space.covers space = true
      ∧ (Free.isBound f.after l.name space = true ∨ l.space = .type ∧ l.name ∈ f.inferred) := by
  have hm := List.mem_of_find?_eq_some hl
  have hc := List.find?_some hl
  simp only [Bool.and_eq_true, beq_iff_eq] at hc
  obtain ⟨rfl, hc⟩ := hc
  refine ⟨List.any_eq_true.2 ⟨(l.given, l.space), ?_, by simp [hc]⟩, hc, ?_⟩
  · exact (h.mem_before _ _).2 ⟨l, hm, rfl, rfl⟩
  · exact (h.kept l hm).imp_left fun ha => List.any_eq_true.2 ⟨_, ha, by simp [hc]⟩

end Follows

end Frame

/-! ## The binders around a place -/

theorem Spot.before_frame : ∀ (layers : List Layer) (f : Frame),
    (layers.foldl Frame.enter f).before
      = layers.foldl (fun bound l => l.binders ++ bound) f.before
  | [], _ => rfl
  | l :: layers, f => by
    have hl : (f.enter l).before = l.binders ++ f.before := by cases l <;> rfl
    rw [List.foldl_cons, before_frame layers, hl, List.foldl_cons]

namespace NamePlace

theorem before_enterBodies : ∀ (bodies : List (List Statement)) (f : Frame),
    (bodies.foldl Frame.enterBody f).before
      = bodies.foldl (fun bound body => Free.bodyBinders body ++ bound) f.before
  | [], _ => rfl
  | _ :: bodies, _ => before_enterBodies bodies _

theorem reported_eq (p : NamePlace) (f : Frame) :
    p.reported f.before = p.spot.mention.reported (p.frame f).before := by
  rw [NamePlace.reported, Spot.reported, ← before_enterBodies, ← Spot.before_frame]
  rfl

end NamePlace

theorem Free.mem_foldl_binders {α : Type} (g : α → List Binder) {b : Binder} : ∀ (xs : List α)
    {bound : List Binder}, b ∈ xs.foldl (fun bound x => g x ++ bound) bound
      ↔ b ∈ bound ∨ ∃ x ∈ xs, b ∈ g x
  | [], _ => by simp
  | x :: xs, bound => by
    simp only [List.foldl_cons, mem_foldl_binders g xs, List.mem_append, List.exists_mem_cons_iff]
    rw [or_comm (a := b ∈ g x), or_assoc]

theorem NamePlace.mem_before_frame {p : NamePlace} {f : Frame} {b : Binder} :
    b ∈ (p.frame f).before ↔ b ∈ f.before ∨ (∃ body ∈ p.bodies, b ∈ Free.bodyBinders body)
      ∨ ∃ l ∈ p.spot.layers, b ∈ l.binders := by
  rw [NamePlace.frame, Spot.frame, Spot.before_frame, Free.mem_foldl_binders,
    before_enterBodies, Free.mem_foldl_binders, or_assoc]

namespace Mention

variable {bound : List Binder} {root : String} {space : Space} {r : Reference}

theorem reportedName_eq_some : reportedName bound root space = some r
    ↔ root ≠ "" ∧ Free.isBound bound root space = false ∧ .name root = r := by
  unfold reportedName
  split
  · rename_i h
    simp only [Bool.or_eq_true, decide_eq_true_eq] at h
    refine iff_of_false (by simp) fun hn => ?_
    rcases h with h | h
    · exact hn.1 h
    · exact Bool.eq_false_iff.1 hn.2.1 h
  · rename_i h
    simp only [Bool.or_eq_true, decide_eq_true_eq, not_or] at h
    simp [h]

theorem isBound_of_reportedName (hroot : root ≠ "") (h : reportedName bound root space = none) :
    Free.isBound bound root space = true := by
  simpa [reportedName, hroot] using h

theorem reportedName_mono {bound' : List Binder} (h : ∀ b ∈ bound, r = .name b.1 → b ∈ bound')
    (hr : reportedName bound' root space = some r) : reportedName bound root space = some r := by
  obtain ⟨hroot, hb, rfl⟩ := reportedName_eq_some.1 hr
  refine reportedName_eq_some.2 ⟨hroot, Bool.eq_false_iff.2 fun hb' => ?_, rfl⟩
  obtain ⟨b, hm, hc⟩ := List.any_eq_true.1 hb'
  refine Bool.eq_false_iff.1 hb (List.any_eq_true.2 ⟨b, h b hm ?_, hc⟩)
  simp only [Bool.and_eq_true, beq_iff_eq] at hc
  rw [hc.1]

/-- Only binders of its name can take the reference of a place away. -/
theorem reported_mono {bound' : List Binder} (h : ∀ b ∈ bound, r = .name b.1 → b ∈ bound') :
    ∀ m : Mention, m.reported bound' = some r → m.reported bound = some r
  | .name .., hr => reportedName_mono h hr
  | .key root, hr => by
    simp only [reported] at hr ⊢
    split at hr
    · cases hr
    · rename_i hs
      rw [if_neg hs]
      exact reportedName_mono h hr
  | .importType .., hr => hr

theorem reported_eq_name {name : String} : ∀ {m : Mention},
    m.reported bound = some (.name name) → name ≠ "" ∧ Free.isBound bound name m.space = false
  | .name root space, hr => by
    obtain ⟨hroot, hb, he⟩ := reportedName_eq_some.1 hr
    cases he
    exact ⟨hroot, hb⟩
  | .key root, hr => by
    simp only [reported] at hr
    split at hr
    · cases hr
    · obtain ⟨hroot, hb, he⟩ := reportedName_eq_some.1 hr
      cases he
      exact ⟨hroot, hb⟩
  | .importType .., hr => nomatch hr

end Mention

theorem NamePlace.reported_mono {r : Reference} (p : NamePlace) {bound bound' : List Binder}
    (h : ∀ b ∈ bound, r = .name b.1 → b ∈ bound') (hr : p.reported bound' = some r) :
    p.reported bound = some r := by
  refine Mention.reported_mono (fun b hb hn => ?_) _ hr
  rw [Free.mem_foldl_binders, Free.mem_foldl_binders] at hb ⊢
  exact hb.imp_left (Or.imp_left fun hb => h b hb hn)

/-- A name that is bound in both spaces around a place is not reported at it. -/
theorem NamePlace.not_mem_of_reported {p : NamePlace} {bound : List Binder} {name : String}
    (hr : p.reported bound = some (.name name)) : (name, .both) ∉ bound := by
  intro hm
  refine Bool.eq_false_iff.1 (Mention.reported_eq_name hr).2 (List.any_eq_true.2
    ⟨(name, .both), ?_, ?_⟩)
  · rw [Free.mem_foldl_binders, Free.mem_foldl_binders]
    exact .inl (.inl hm)
  · simp [Space.covers]

/-! ## Members -/

namespace NamePlace

/-- A place is in no namespace body, or it is one of the places of a body. -/
def Nested (p : NamePlace) : Prop :=
  p.bodies = [] ∨ ∃ body, ∃ q ∈ inBody body, p = within body q

theorem nested_ofSpots {ps : List Spot} {p : NamePlace} (h : p ∈ ofSpots ps) : p.Nested := by
  obtain ⟨spot, -, rfl⟩ := List.mem_map.1 h
  exact .inl rfl

theorem nested_inDeclaration {d : Declaration} {p : NamePlace} (h : p ∈ inDeclaration d) :
    p.Nested := by
  obtain ⟨id, modifiers, pos, kind⟩ := d
  cases kind with
  | namespaceBlock name keyword body =>
    obtain ⟨q, hq, rfl⟩ := List.mem_map.1 h
    exact .inr ⟨body, q, hq, rfl⟩
  | _ => exact nested_ofSpots h

theorem nested_inBody : ∀ {body : List Statement} {p : NamePlace}, p ∈ inBody body → p.Nested
  | s :: _, _, h => by
    rcases List.mem_append.1 h with h | h
    · cases s with
      | declaration d => exact nested_inDeclaration h
      | exports e =>
        obtain ⟨specifiers, source, typeOnly⟩ := e
        cases source with
        | none => exact nested_ofSpots h
        | some source => exact absurd h List.not_mem_nil
      | imports i => exact absurd h List.not_mem_nil
      | exportAll source name => exact absurd h List.not_mem_nil
      | _ => exact nested_ofSpots h
    · exact nested_inBody h

end NamePlace

/-- The final name of a reference that no local binding has. -/
def Site.outside? (o : Site) : Reference → Option String
  | .name name => some ((o.outer name).getD name)
  | .importType specifier qualifier => o.importRoot specifier qualifier

namespace Frame

variable {o : Site} {f : Frame}

/-- What a body refers to outside of all namespaces is captured or keeps its name. -/
theorem mem_capturedNames (h : Follows o f) (hl : ∀ l ∈ f.site.locals, l.space = .both)
    {body : List Statement} {q : NamePlace} (hq : q ∈ NamePlace.inBody body) {r : Reference}
    (hr : q.reported (Free.bodyBinders body ++ f.before) = some r) {x : String}
    (hx : o.outside? r = some x) :
    x ∈ Rename.capturedNames f.site body ∨ r = .name x := by
  have hmem : r ∈ (Analysis.ofOccurrences
      (Free.inBody (Free.bodyBinders body) body)).references := by
    rw [Analysis.references_ofOccurrences, List.mem_eraseDups, NamePlace.references_inBody]
    exact List.mem_filterMap.2 ⟨q, hq, q.reported_mono (fun _ hb _ => List.mem_append_left _ hb) hr⟩
  cases r with
  | name name =>
    cases ho : o.outer name with
    | none =>
      rw [Site.outside?, ho, Option.getD_none, Option.some.injEq] at hx
      exact .inr (congrArg _ hx)
    | some y =>
      rw [Site.outside?, ho, Option.getD_some] at hx
      refine .inl (List.mem_filterMap.2 ⟨_, hmem, ?_⟩)
      have hb : Free.isBound f.before name .both = false := by
        refine Bool.eq_false_iff.2 fun hb => ?_
        obtain ⟨⟨n, space⟩, hm, hc⟩ := List.any_eq_true.1 hb
        obtain ⟨l, hmem, hg, rfl⟩ := (h.mem_before _ _).1 hm
        rw [hl l hmem] at hm
        simp only [Bool.and_eq_true, beq_iff_eq] at hc
        rw [hc.1] at hm
        exact NamePlace.not_mem_of_reported hr (List.mem_append_right _ hm)
      rw [Site.reference?, Site.finalName?, h.local?_of_not_bound hb, h.outer, ho, hx]
  | importType specifier qualifier =>
    refine .inl (List.mem_filterMap.2 ⟨_, hmem, ?_⟩)
    rw [Site.reference?, h.importRoot]
    exact hx

theorem both_enterBody (hl : ∀ l ∈ f.site.locals, l.space = .both) (body : List Statement) :
    ∀ l ∈ (f.enterBody body).site.locals, l.space = .both := by
  intro l hm
  rcases List.mem_append.1 hm with hm | hm
  · obtain ⟨b, -, rfl⟩ := List.mem_map.1 (List.mem_reverse.1 hm)
    rfl
  · exact hl l hm

/-- A member of a body has not the final name of what a place in the body refers to outside of all
namespaces. -/
theorem not_mem_after_enterBody (h : Follows o f) (hl : ∀ l ∈ f.site.locals, l.space = .both)
    {body : List Statement} {q : NamePlace} (hq : q ∈ NamePlace.inBody body) {r : Reference}
    (hr : q.reported (Free.bodyBinders body ++ f.before) = some r) {x : String}
    (hx : o.outside? r = some x) (ht : x ∈ o.scopes.taken) (hf : (x, .both) ∉ f.after) :
    (x, .both) ∉ (f.enterBody body).after := by
  intro hm
  rcases List.mem_append.1 hm with hm | hm
  · obtain ⟨m, hmem, he⟩ := List.mem_map.1 hm
    obtain rfl : Rename.newName (f.renamedMembers body) m = x := congrArg Prod.fst he
    obtain ⟨hkept, hc⟩ := f.site.newName_enterBody hmem (h.mem_taken _ ht)
    rcases mem_capturedNames h hl hq hr hx with hcap | rfl
    · exact hc (hkept ▸ hcap)
    · refine NamePlace.not_mem_of_reported hr (List.mem_append_left _ ?_)
      rw [Rename.bodyBinders_eq_members]
      exact List.mem_map.2 ⟨m, hmem, congrArg (·, Space.both) hkept.symm⟩
  · exact hf hm

/-- The same for all bodies around a place. -/
theorem not_mem_after_enterBodies {r : Reference} {x : String} (hx : o.outside? r = some x)
    (ht : x ∈ o.scopes.taken) : ∀ {f : Frame} {p : NamePlace}, Follows o f →
      (∀ l ∈ f.site.locals, l.space = .both) → p.Nested → p.reported f.before = some r →
        (x, .both) ∉ f.after → (x, .both) ∉ (p.bodies.foldl Frame.enterBody f).after
  | _, ⟨[], _⟩, _, _, _, _, hf => hf
  | f, ⟨body :: bodies, spot⟩, h, hl, hp, hr, hf => by
    rcases hp with hp | ⟨body', q, hq, he⟩
    · cases hp
    · cases he
      exact not_mem_after_enterBodies hx ht (p := q) (h.enterBody body) (both_enterBody hl body)
        (NamePlace.nested_inBody hq) hr (not_mem_after_enterBody h hl hq hr hx ht hf)
termination_by _ p => p.bodies.length

theorem both_mem_after_enter {x : String} : ∀ (l : Layer), (x, .both) ∈ (f.enter l).after →
    (x, .both) ∈ f.after := by
  intro l hm
  cases l <;>
  · refine (List.mem_append.1 hm).resolve_left fun hm => ?_
    obtain ⟨y, -, he⟩ := List.mem_map.1 hm
    cases he

theorem both_mem_after_enterLayers {x : String} : ∀ (layers : List Layer) {f : Frame},
    (x, .both) ∈ (layers.foldl Frame.enter f).after → (x, .both) ∈ f.after
  | [], _, h => h
  | l :: layers, _, h => both_mem_after_enter l (both_mem_after_enterLayers layers h)

/-- What binds the final name of a reference in the renamed declaration is a parameter, if the name
is taken at the top level. -/
theorem value_of_isBound_after (ho : o.locals = []) {p : NamePlace} (hp : p.Nested)
    {r : Reference} (hr : p.reported [] = some r) {x : String} (hx : o.outside? r = some x)
    (ht : x ∈ o.scopes.taken) {space : Space}
    (hb : Free.isBound (p.frame { site := o }).after x space = true) :
    space ≠ .type ∧ (x, .value) ∈ (p.frame { site := o }).before := by
  have hstart := Follows.start o ho
  have h := hstart.frame p
  obtain ⟨⟨y, sp⟩, hm, hc⟩ := List.any_eq_true.1 hb
  simp only [Bool.and_eq_true, beq_iff_eq] at hc
  obtain ⟨rfl, hc⟩ := hc
  cases sp with
  | type => exact absurd ht (h.fresh _ hm)
  | value => exact ⟨fun hs => by simp [hs, Space.covers] at hc, (h.value _).1 hm⟩
  | both =>
    have hbody := both_mem_after_enterLayers p.spot.layers hm
    refine absurd hbody (not_mem_after_enterBodies hx ht hstart ?_ hp hr List.not_mem_nil)
    intro l hl
    rw [ho] at hl
    exact absurd hl List.not_mem_nil

end Frame

end DeclBundle
