import DeclBundle.Proofs.Names.Beside
import DeclBundle.Proofs.Names.Covered

/-!
# What a namespace exports

A namespace body exports its members by their modifier and whatever its own export lists name. Under
final names it exports the same names (`Rename.mem_exportPairs_bodyAt`): a member that is renamed
comes back in the list at the end of the body, and the lists follow what they name.
-/

namespace DeclBundle

open List (Forall₂)

/-- The names that a statement of a body exports, each with the local name that it stands for. -/
def Statement.exportPairs : Statement → List (String × String)
  | .declaration d =>
    if d.modifiers.exported then (Free.memberNames (.declaration d)).map fun m => (m, m) else []
  | .exports ⟨specifiers, none, _⟩ => specifiers.map fun x => (x.exported, x.binding)
  | _ => []

/-- The names that a body exports, each with the local name that it stands for. -/
def exportPairs (body : List Statement) : List (String × String) :=
  body.flatMap Statement.exportPairs

/-! ## Names in a body -/

namespace Site

theorem locals_enterBody (s : Site) (captured members : List String) :
    (s.enterBody captured members).2.locals
      = (members.map fun m => (⟨m, Rename.newName (s.enterBody captured members).1 m, .both⟩ :
          LocalName)).reverse ++ s.locals := by
  simp only [enterBody, addLocals, List.map_map]
  rfl

/-- In a body its members mean themselves, and other names what they mean around it. -/
theorem finalName?_enterBody (s : Site) (captured members : List String) (name : String) :
    (s.enterBody captured members).2.finalName? name .both
      = if name ∈ members then some (Rename.newName (s.enterBody captured members).1 name)
        else s.finalName? name .both := by
  unfold finalName? local?
  rw [locals_enterBody, List.find?_append]
  cases hf : List.find? (fun l : LocalName => l.given == name && l.space.covers .both)
      (members.map fun m => (⟨m, Rename.newName (s.enterBody captured members).1 m, .both⟩ :
        LocalName)).reverse with
  | some l =>
    obtain ⟨m, hm, rfl⟩ := List.mem_map.1 (List.mem_reverse.1 (List.mem_of_find?_eq_some hf))
    have hc := List.find?_some hf
    simp only [Bool.and_eq_true, beq_iff_eq] at hc
    obtain rfl := hc.1
    rw [if_pos hm]
    rfl
  | none =>
    have hm : name ∉ members := by
      intro hm
      have hl := List.find?_eq_none.1 hf _ (List.mem_reverse.2 (List.mem_map.2 ⟨name, hm, rfl⟩))
      simp [Space.covers] at hl
    rw [if_neg hm]
    rfl

end Site

namespace Rename

variable (s : Site) (body : List Statement)

/-- What a name becomes in a body. -/
theorem plainName_enterBody (captured : List String) (name : String) :
    plainName (s.enterBody captured (Frame.members body)).2 name
      = if name ∈ Frame.members body
        then newName (s.enterBody captured (Frame.members body)).1 name else plainName s name := by
  rw [plainName, Site.finalName?_enterBody]
  split <;> rfl

/-! ## Statements -/

theorem mem_members {st : Statement} (hst : st ∈ body) {m : String}
    (hm : m ∈ Free.memberNames st) : m ∈ Frame.members body := by
  refine List.mem_map.2 ⟨(m, .both), List.mem_flatMap.2 ⟨st, hst, ?_⟩, rfl⟩
  cases st with
  | declaration d => exact List.mem_map.2 ⟨m, hm, rfl⟩
  | _ => exact absurd hm List.not_mem_nil

variable (r : Table String String)

/-- A declaration exports its members by its modifier unless one of them is renamed. -/
theorem exportPairs_renameMember (d : Declaration) :
    (renameMember r (statement s (.declaration d)).value).value.exportPairs
      = if isRenamed r (.declaration d) then [] else (Statement.declaration d).exportPairs := by
  have hn := memberNames_statement s (.declaration d)
  have hr := isRenamed_statement r s (.declaration d)
  obtain ⟨id, modifiers, pos, k⟩ := d
  change (renameMember r (.declaration ⟨id, modifiers, pos, (kind s k).value⟩)).value.exportPairs
    = _
  change Free.memberNames (.declaration ⟨id, modifiers, pos, (kind s k).value⟩) = _ at hn
  change isRenamed r (.declaration ⟨id, modifiers, pos, (kind s k).value⟩) = _ at hr
  rw [← hr]
  split
  · rename_i h
    rw [value_renameMember r h]
    rfl
  · rename_i h
    simp only [renameMember, h]
    change (if modifiers.exported then (Free.memberNames _).map _ else []) = _
    rw [hn]
    rfl

/-- An export list names what its names become. -/
theorem exportPairs_exports (specifiers : List ExportSpecifier) (typeOnly : Bool) :
    (renameMember r (statement s (.exports ⟨specifiers, none, typeOnly⟩)).value).value.exportPairs
      = (Statement.exports ⟨specifiers, none, typeOnly⟩).exportPairs.map
        fun p => (p.1, plainName s p.2) := by
  simp [statement, renameMember, Statement.exportPairs, Function.comp_def]

/-- The list at the end of a body gives the renamed members their exported names back. -/
theorem mem_exportPairs_restored {e x : String} : (e, x) ∈ exportPairs (restored r body)
    ↔ (∃ st ∈ body, e ∈ lostNames r st) ∧ newName r e = x := by
  have hlist : exportPairs (restored r body)
      = (lostExports r body).map fun y => (y.exported, y.binding) := by
    rw [restored]
    split
    · rename_i h
      rw [List.isEmpty_iff.1 h]
      rfl
    · exact List.append_nil _
  rw [hlist, lostExports_eq]
  simp only [List.map_map, List.mem_map, List.mem_eraseDups, List.mem_flatMap, Function.comp,
    Prod.mk.injEq]
  constructor
  · rintro ⟨name, hname, rfl, rfl⟩
    exact ⟨hname, rfl⟩
  · rintro ⟨hname, rfl⟩
    exact ⟨e, hname, rfl, rfl⟩

theorem mem_exportPairs_declaration {d : Declaration} {e l : String} :
    (e, l) ∈ (Statement.declaration d).exportPairs
      ↔ d.modifiers.exported = true ∧ e ∈ Free.memberNames (.declaration d) ∧ e = l := by
  rw [Statement.exportPairs]
  split
  · rename_i h
    simp only [List.mem_map, Prod.mk.injEq, h, true_and]
    exact ⟨fun ⟨m, hm, he, hl⟩ => ⟨he ▸ hm, he.symm.trans hl⟩, fun ⟨hm, he⟩ => ⟨e, hm, rfl, he⟩⟩
  · rename_i h
    exact iff_of_false List.not_mem_nil fun hn => h hn.1

theorem mem_lostNames_declaration {d : Declaration} {e : String} :
    e ∈ lostNames r (.declaration d) ↔ isRenamed r (.declaration d) = true
      ∧ d.modifiers.exported = true ∧ e ∈ Free.memberNames (.declaration d) := by
  rw [lostNames]
  split
  · rename_i h
    simp only [Bool.and_eq_true] at h
    exact ⟨fun he => ⟨h.2, h.1, he⟩, fun he => he.2.2⟩
  · rename_i h
    simp only [Bool.and_eq_true] at h
    exact iff_of_false List.not_mem_nil fun hn => h ⟨hn.2.1, hn.1⟩

/-- What a statement of a body exports, it exports under final names or loses it to the list at the
end of the body. -/
theorem mem_exportPairs_statement {e x : String} : ∀ {st : Statement},
    (∀ m ∈ Free.memberNames st, plainName s m = newName r m) →
      ((e, x) ∈ (renameMember r (statement s st).value).value.exportPairs
          ∨ e ∈ lostNames r st ∧ newName r e = x
        ↔ ∃ l, (e, l) ∈ st.exportPairs ∧ plainName s l = x)
  | .declaration d, h => by
    rw [exportPairs_renameMember, mem_lostNames_declaration]
    simp only [mem_exportPairs_declaration]
    by_cases hr : isRenamed r (.declaration d) = true
    · rw [if_pos hr]
      constructor
      · rintro (hn | ⟨⟨-, hx, he⟩, rfl⟩)
        · exact absurd hn List.not_mem_nil
        · exact ⟨e, ⟨hx, he, rfl⟩, h e he⟩
      · rintro ⟨l, ⟨hx, he, rfl⟩, rfl⟩
        exact .inr ⟨⟨hr, hx, he⟩, (h e he).symm⟩
    · have hkept : ∀ m ∈ Free.memberNames (.declaration d), newName r m = m := fun m hm =>
        newName_of_not_mem r fun hk => hr (List.any_eq_true.2 ⟨m, hm, Table.contains_iff.2 hk⟩)
      rw [if_neg hr, mem_exportPairs_declaration]
      constructor
      · rintro (⟨hx, he, rfl⟩ | ⟨⟨hn, -⟩, -⟩)
        · exact ⟨e, ⟨hx, he, rfl⟩, (h e he).trans (hkept e he)⟩
        · exact absurd hn hr
      · rintro ⟨l, ⟨hx, he, rfl⟩, rfl⟩
        exact .inl ⟨hx, he, ((h e he).trans (hkept e he)).symm⟩
  | .exports ⟨specifiers, none, typeOnly⟩, _ => by
    rw [exportPairs_exports, List.mem_map]
    constructor
    · rintro (⟨⟨e', l⟩, hl, he⟩ | ⟨hn, -⟩)
      · cases he
        exact ⟨l, hl, rfl⟩
      · exact absurd hn List.not_mem_nil
    · rintro ⟨l, hl, rfl⟩
      exact .inl ⟨(e, l), hl, rfl⟩
  | .exports ⟨_, some _, _⟩, _ | .imports _, _ | .exportAll _ _, _ | .exportDefault _, _
  | .exportAssignment _, _ | .verbatim _ _, _ =>
    iff_of_false (fun h => h.elim List.not_mem_nil fun h => List.not_mem_nil h.1)
      fun ⟨_, h, _⟩ => List.not_mem_nil h

/-! ## Bodies -/

/-- A renamed body exports the names that the body exports, each for what its local name becomes in
the body. -/
theorem mem_exportPairs_bodyAt {e x : String} : (e, x) ∈ exportPairs (bodyAt s body)
    ↔ ∃ l, (e, l) ∈ exportPairs body
      ∧ plainName (s.enterBody (capturedNames s body) (Frame.members body)).2 l = x := by
  have hplain : ∀ st ∈ body, ∀ m ∈ Free.memberNames st,
      plainName (s.enterBody (capturedNames s body) (Frame.members body)).2 m
        = newName (s.enterBody (capturedNames s body) (Frame.members body)).1 m := by
    intro st hst m hm
    rw [plainName_enterBody, if_pos (mem_members body hst hm)]
  rw [bodyAt, exportPairs, List.flatMap_append, List.mem_append, ← exportPairs, ← exportPairs,
    mem_exportPairs_restored, exportPairs, List.flatMap_map, List.mem_flatMap]
  constructor
  · rintro (⟨st, hst, h⟩ | ⟨⟨st, hst, h⟩, hx⟩)
    · obtain ⟨l, hl, hx⟩ := (mem_exportPairs_statement _ _ (hplain st hst)).1 (.inl h)
      exact ⟨l, List.mem_flatMap.2 ⟨st, hst, hl⟩, hx⟩
    · obtain ⟨l, hl, hx⟩ := (mem_exportPairs_statement _ _ (hplain st hst)).1 (.inr ⟨h, hx⟩)
      exact ⟨l, List.mem_flatMap.2 ⟨st, hst, hl⟩, hx⟩
  · rintro ⟨l, hl, hx⟩
    obtain ⟨st, hst, hl⟩ := List.mem_flatMap.1 hl
    rcases (mem_exportPairs_statement _ _ (hplain st hst)).2 ⟨l, hl, hx⟩ with h | ⟨h, hx⟩
    · exact .inl ⟨st, hst, h⟩
    · exact .inr ⟨⟨st, hst, h⟩, hx⟩

end Rename

end DeclBundle
