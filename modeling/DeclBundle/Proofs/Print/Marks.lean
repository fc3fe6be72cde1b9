import DeclBundle.Proofs.Print.Operators
import DeclBundle.Proofs.Print.Shown

/-!
# Marks in the face of a type

The other way round, an operator that the face of a type shows is its own or that of a type that is
exposed in it. An operator between its operands is told by one character, its mark, and none of the
plain leaf texts has it (`Print.mem_or_exposed_of_marks`). An operator that leads is told by the
beginning of the face (`Print.mem_or_exposed_of_starts`).
-/

namespace DeclBundle

namespace Print

open Piece TypeExpr

variable {t u : TypeExpr} {first : Bool} {least : Precedence} {op : Operator}

/-! ## Where a mark comes from -/

/-- The character of the operator stands among the pieces. -/
def Marks (op : Operator) (ps : List Piece) : Prop := op.mark ∈ chars ps

theorem marks_append {ps ps' : List Piece} : Marks op (ps ++ ps') ↔ Marks op ps ∨ Marks op ps' := by
  simp [Marks]

theorem marks_cons {s : String} {ps : List Piece} :
    Marks op (.text s :: ps) ↔ op.mark ∈ s.toList ∨ Marks op ps := by
  simp [Marks]

theorem not_marks_nil : ¬ Marks op [] := by simp [Marks]

theorem mark_not_mem_of_plain {s : String} (h : Text.Plain s) : op.mark ∉ s.toList := fun hc => by
  have := h _ hc
  cases op <;> simp [Operator.mark, Text.delimiters] at this

theorem not_marks_plain {s : String} (h : Text.Plain s) : ¬ Marks op [.text s] := by
  simpa [Marks] using mark_not_mem_of_plain h

theorem not_marks_angle {groups : List α} : ¬ Marks op (angle groups) := by
  unfold angle
  cases op <;> split <;> simp [Marks, Operator.mark]

theorem bareIn_of_marks (f : Bool) (h : Marks op (guarded least t (face t))) :
    (t, f) ∈ bareIn least f t ∧ Marks op (face t) := by
  unfold guarded at h
  split at h
  · cases op <;> simp [Marks, Operator.mark] at h
  · rename_i hle
    exact ⟨mem_bareIn.2 ⟨hle, rfl, rfl⟩, h⟩

theorem bareIn_of_marks_separated {sep : String} : ∀ {ts : List TypeExpr},
    Marks op (separated sep (faces least ts)) → (op.mark ∈ sep.toList ∧ 2 ≤ ts.length)
      ∨ ∃ u ∈ ts, (∀ f, (u, f) ∈ bareIn least f u) ∧ Marks op (face u)
  | [], h => absurd h not_marks_nil
  | [t], h => .inr ⟨t, List.mem_singleton_self t, fun f => (bareIn_of_marks f h).1,
    (bareIn_of_marks true h).2⟩
  | t :: next :: rest, h => by
    simp only [faces, separated, marks_append, marks_cons] at h
    rcases h with h | h | h
    · exact .inr ⟨t, List.mem_cons_self, fun f => (bareIn_of_marks f h).1,
        (bareIn_of_marks true h).2⟩
    · exact .inl ⟨h, by simp⟩
    · have h : Marks op (separated sep (faces least (next :: rest))) := h
      rcases bareIn_of_marks_separated h with ⟨hs, -⟩ | ⟨u, hu, hb⟩
      · exact .inl ⟨hs, by simp⟩
      · exact .inr ⟨u, List.mem_cons_of_mem t hu, hb⟩

/-- Text without any of the marks. -/
def Unmarked (s : String) : Prop := ∀ c ∈ s.toList, c ∉ ['>', '?', '|', '&']

/-- Whether a text has a mark can be decided. -/
instance (s : String) : Decidable (Unmarked s) :=
  List.decidableBAll (fun c => c ∉ ['>', '?', '|', '&']) s.toList

theorem Unmarked.not_mem {s : String} (h : Unmarked s) (hop : op.leads = false) :
    op.mark ∉ s.toList := fun hc => by
  have := h _ hc
  cases op <;> simp [Operator.mark] at this <;> cases hop

theorem not_marks_unmarked {s : String} (h : Unmarked s) (hop : op.leads = false) :
    ¬ Marks op [.text s] := by
  simpa [Marks] using h.not_mem hop

theorem not_marks_flag {s : String} {on : Bool} (h : Unmarked s) (hop : op.leads = false) :
    ¬ Marks op (flag on s) := by
  cases on with
  | true => simpa [flag, Marks] using h.not_mem hop
  | false => exact not_marks_nil

/-- A text with one mark in it tells the operator. -/
theorem eq_of_mark {s : String} {op' : Operator} (hop : op.leads = false) (h : op.mark ∈ s.toList)
    (hs : s.toList.filter (· ∈ ['>', '?', '|', '&']) = [op'.mark]) : op = op' := by
  have hmark : op.mark ∈ s.toList.filter (· ∈ ['>', '?', '|', '&']) :=
    List.mem_filter.2 ⟨h, by cases op <;> first | rfl | cases hop⟩
  rw [hs, List.mem_singleton] at hmark
  cases op <;> cases op' <;> simp_all [Operator.mark, Operator.leads]

theorem exists_of_marks_option {s : String} {o : Option TypeExpr} (h : Unmarked s)
    (hop : op.leads = false) (hm : Marks op (optionFace s o)) :
    ∃ u ∈ o.toList, Marks op (face u) := by
  cases o with
  | none => exact absurd hm not_marks_nil
  | some u => exact ⟨u, List.mem_singleton_self u, (marks_cons.1 hm).resolve_left (h.not_mem hop)⟩

theorem not_marks_keywords {ks : List String} (hop : op.leads = false)
    (h : ∀ k ∈ ks, Text.Plain k) : ¬ Marks op (ks.map fun k => .text (k ++ " ")) := by
  intro hm
  obtain ⟨p, hp, hc⟩ := List.mem_flatMap.1 hm
  obtain ⟨k, hk, rfl⟩ := List.mem_map.1 hp
  rcases List.mem_append.1 (String.toList_append ▸ hc) with hc | hc
  · exact mark_not_mem_of_plain (h k hk) hc
  · exact Unmarked.not_mem (s := " ") (by decide) hop hc

theorem exists_of_marks_parameterFace {p : TypeParameter} (hp : (Part.typeParameter p).Plain)
    (hop : op.leads = false) (h : Marks op (parameterFace p)) :
    ∃ u ∈ p.constraint.toList ++ p.fallback.toList, Marks op (face u) := by
  obtain ⟨id, name, constraint, fallback, keywords⟩ := p
  simp only [parameterFace, marks_append, marks_cons] at h
  rcases h with (h | h | h) | h
  · exact absurd h (not_marks_keywords hop fun k hk => hp k (List.mem_cons_of_mem name hk))
  · exact absurd h (mark_not_mem_of_plain (hp name List.mem_cons_self))
  · obtain ⟨u, hu, hm⟩ := exists_of_marks_option (by decide) hop h
    exact ⟨u, List.mem_append_left _ hu, hm⟩
  · obtain ⟨u, hu, hm⟩ := exists_of_marks_option (by decide) hop h
    exact ⟨u, List.mem_append_right _ hu, hm⟩

theorem mem_bareIn_of_mem {ts : List TypeExpr} (hu : u ∈ t :: ts)
    (h : ∀ f, (u, f) ∈ bareIn least f u) :
    ∃ first, (u, first) ∈ bareIn least true t ++ ts.flatMap (bareIn least false) := by
  rcases List.mem_cons.1 hu with rfl | hu
  · exact ⟨true, List.mem_append_left _ (h true)⟩
  · exact ⟨false, List.mem_append_right _ (List.mem_flatMap.2 ⟨u, hu, h false⟩)⟩

/-- A mark in the face of a type is that of its own operator, or stands in the face of a type that
is exposed in it. -/
theorem mem_or_exposed_of_marks (h : (Part.type t).Throughout Part.Plain) (hop : op.leads = false)
    (hm : Marks op (face t)) :
    op ∈ t.operators ∨ ∃ u first, (u, first) ∈ t.exposed ∧ Marks op (face u) := by
  obtain ⟨hp, hc⟩ := Part.throughout_iff.1 h
  cases t with
  | keyword s | literal s =>
    exact absurd hm (not_marks_plain (hp s List.mem_cons_self))
  | reference name arguments =>
    rcases marks_append.1 hm with hm | hm
    · exact absurd hm (not_marks_plain (Text.plain_joinWith hp))
    · exact absurd hm not_marks_angle
  | query name arguments =>
    rcases marks_append.1 hm with hm | hm
    · rcases marks_cons.1 hm with hm | hm
      · exact absurd hm (Unmarked.not_mem (by decide) hop)
      · exact absurd hm (not_marks_plain (Text.plain_joinWith hp))
    · exact absurd hm not_marks_angle
  | array e =>
    rcases marks_append.1 hm with hm | hm
    · exact .inr ⟨e, true, bareIn_of_marks true hm⟩
    · exact absurd hm (not_marks_unmarked (by decide) hop)
  | indexed e index =>
    rcases marks_append.1 hm with hm | hm
    · exact .inr ⟨e, true, bareIn_of_marks true hm⟩
    · exact absurd hm (not_marks_unmarked (by decide) hop)
  | tuple es | object ms | mapped key nameType readonly optionality target | parenthesized t
  | template head ss => exact absurd hm (not_marks_unmarked (by decide) hop)
  | union ts =>
    rcases bareIn_of_marks_separated hm with ⟨hsep, htwo⟩ | ⟨u, hu, hb, hmu⟩
    · obtain rfl : op = .bar := eq_of_mark hop hsep rfl
      match ts, htwo with
      | _ :: _ :: _, _ => exact .inl List.mem_cons_self
    · cases ts with
      | nil => cases hu
      | cons t ts =>
        obtain ⟨first, hfirst⟩ := mem_bareIn_of_mem hu hb
        exact .inr ⟨u, first, hfirst, hmu⟩
  | intersection ts =>
    rcases bareIn_of_marks_separated hm with ⟨hsep, htwo⟩ | ⟨u, hu, hb, hmu⟩
    · obtain rfl : op = .ampersand := eq_of_mark hop hsep rfl
      match ts, htwo with
      | _ :: _ :: _, _ => exact .inl List.mem_cons_self
    · cases ts with
      | nil => cases hu
      | cons t ts =>
        obtain ⟨first, hfirst⟩ := mem_bareIn_of_mem hu hb
        exact .inr ⟨u, first, hfirst, hmu⟩
  | function tps ps result =>
    simp only [face, marks_append, marks_cons] at hm
    rcases hm with hm | hm | hm
    · exact absurd hm not_marks_angle
    · exact .inl (List.mem_singleton.2 (eq_of_mark hop hm rfl))
    · exact .inr ⟨result, false, List.mem_singleton_self _, hm⟩
  | construct isAbstract tps ps result =>
    simp only [face, marks_append, marks_cons] at hm
    rcases hm with (hm | hm | hm) | hm | hm
    · exact absurd hm (not_marks_flag (by decide) hop)
    · exact absurd hm (Unmarked.not_mem (by decide) hop)
    · exact absurd hm not_marks_angle
    · exact .inl (List.mem_singleton.2 (eq_of_mark hop hm rfl))
    · exact .inr ⟨result, false, List.mem_singleton_self _, hm⟩
  | operator word target =>
    rcases marks_cons.1 hm with hm | hm
    · have hword : Unmarked (word.keyword ++ " ") := by cases word <;> decide
      exact absurd hm (hword.not_mem hop)
    · exact .inr ⟨target, false, bareIn_of_marks false hm⟩
  | conditional check bound onTrue onFalse =>
    simp only [face, marks_append, marks_cons] at hm
    rcases hm with ((hm | hm | hm) | hm | hm) | hm | hm
    · exact .inr ⟨check, true, by simp [exposed, bareIn_of_marks true hm],
        (bareIn_of_marks true hm).2⟩
    · exact absurd hm (Unmarked.not_mem (by decide) hop)
    · exact .inr ⟨bound, false, by simp [exposed, bareIn_of_marks false hm],
        (bareIn_of_marks false hm).2⟩
    · exact .inl (List.mem_singleton.2 (eq_of_mark hop hm rfl))
    · exact .inr ⟨onTrue, false, by simp [exposed], hm⟩
    · exact absurd hm (Unmarked.not_mem (by decide) hop)
    · exact .inr ⟨onFalse, false, by simp [exposed], hm⟩
  | infer p =>
    have hplain : (Part.typeParameter p).Plain :=
      (Part.throughout_iff.1 (hc _ List.mem_cons_self)).1
    rcases marks_cons.1 hm with hm | hm
    · exact absurd hm (Unmarked.not_mem (by decide) hop)
    · obtain ⟨u, hu, hm⟩ := exists_of_marks_parameterFace hplain hop hm
      exact .inr ⟨u, false, List.mem_map.2 ⟨u, hu, rfl⟩, hm⟩
  | importType argument qualifier arguments isTypeOf =>
    simp only [face, marks_append, marks_cons] at hm
    rcases hm with (hm | hm | hm) | hm
    · exact absurd hm (not_marks_flag (by decide) hop)
    · exact absurd hm (Unmarked.not_mem (by decide) hop)
    · cases qualifier with
      | none => exact absurd hm not_marks_nil
      | some q =>
        rcases marks_cons.1 hm with hm | hm
        · exact absurd hm (Unmarked.not_mem (by decide) hop)
        · exact absurd hm (not_marks_plain (Text.plain_joinWith hp))
    · exact absurd hm not_marks_angle
  | predicate asserts parameter target =>
    simp only [face, marks_append, marks_cons] at hm
    rcases hm with hm | hm | hm
    · exact absurd hm (not_marks_flag (by decide) hop)
    · exact absurd hm (mark_not_mem_of_plain (hp parameter List.mem_cons_self))
    · obtain ⟨u, hu, hm⟩ := exists_of_marks_option (by decide) hop hm
      exact .inr ⟨u, false, List.mem_map.2 ⟨u, hu, rfl⟩, hm⟩
  | verbatim ts =>
    obtain ⟨p, hpieces, hc⟩ := List.mem_flatMap.1 hm
    obtain ⟨t, ht, rfl⟩ := List.mem_map.1 hpieces
    have hmark : op.mark ∉ t.content.toList :=
      mark_not_mem_of_plain (hp t.content (List.mem_map_of_mem ht))
    cases t <;> exact absurd hc hmark

/-! ## What a face begins with -/

/-- The pieces begin with the operator. -/
def Starts (op : Operator) (ps : List Piece) : Prop := op.text.toList <+: chars ps

theorem mem_leading (hop : op.leads) : op ∈ Operator.leading := by
  cases op with
  | word op => cases op <;> decide
  | infer => decide
  | _ => cases hop

/-- Two operators that lead begin no common text. -/
theorem eq_of_starts (op' : Operator) {ps : List Piece} (hop : op.leads) (hop' : op'.leads)
    (h : Starts op (.text op'.text :: ps)) : op = op' := by
  have hall : ∀ o ∈ Operator.leading, ∀ o' ∈ Operator.leading,
      o.text.toList <+: o'.text.toList ∨ o'.text.toList <+: o.text.toList → o = o' := by decide
  exact hall op (mem_leading hop) op' (mem_leading hop')
    (List.prefix_or_prefix_of_prefix h (List.prefix_append _ _))

/-- The text begins with no operator and is not the beginning of one. -/
def Other (s : String) : Prop :=
  ∀ op ∈ Operator.leading, ¬ op.text.toList <+: s.toList ∧ ¬ s.toList <+: op.text.toList

/-- Whether a text is apart from every operator can be decided. -/
instance (s : String) : Decidable (Other s) := by
  unfold Other
  infer_instance

theorem Other.not_starts {s : String} {ps : List Piece} (h : Other s) (hop : op.leads) :
    ¬ Starts op (.text s :: ps) := fun hs => by
  have := h op (mem_leading hop)
  exact (List.prefix_or_prefix_of_prefix hs (List.prefix_append _ _)).elim this.1 this.2

theorem blank_mem (hop : op.leads) : ' ' ∈ op.text.toList := by
  have hall : ∀ op ∈ Operator.leading, ' ' ∈ op.text.toList := by decide
  exact hall op (mem_leading hop)

theorem not_starts_of_not_mem {ps : List Piece} (hop : op.leads) (h : ' ' ∉ chars ps) :
    ¬ Starts op ps := fun hs => h (hs.subset (blank_mem hop))

theorem blank_not_mem_of_plain {s : String} (h : Text.Plain s) : ' ' ∉ s.toList := fun hc => by
  simpa using (h _ hc).2

/-- What an operator that leads begins, it begins without a bracket at the end. -/
theorem starts_of_concat {ps : List Piece} (hop : op.leads) (h : Starts op (ps ++ [.text "["])) :
    Starts op ps := by
  have hall : ∀ op ∈ Operator.leading, '[' ∉ op.text.toList := by decide
  rw [Starts, chars_append] at h
  rcases List.prefix_concat_iff.1 h with h | h
  · exact absurd (h ▸ List.mem_append_right _ List.mem_cons_self) (hall op (mem_leading hop))
  · exact h

theorem bareIn_of_starts (hop : op.leads) (h : Starts op (guarded least t (face t))) :
    (t, true) ∈ bareIn least true t ∧ Starts op (face t) := by
  unfold guarded at h
  split at h
  · exact absurd h (Other.not_starts (by decide) hop)
  · rename_i hle
    exact ⟨mem_bareIn.2 ⟨hle, rfl, rfl⟩, h⟩

/-- An operator that leads is a word and a blank. -/
theorem text_eq_concat (hop : op.leads) :
    op.text.toList = op.text.toList.dropLast ++ [' '] ∧ ' ' ∉ op.text.toList.dropLast := by
  have hall : ∀ op ∈ Operator.leading,
      op.text.toList = op.text.toList.dropLast ++ [' '] ∧ ' ' ∉ op.text.toList.dropLast := by decide
  exact hall op (mem_leading hop)

/-- The first blank tells where a word ends. -/
theorem eq_of_concat_isPrefix {x : α} : ∀ {a b c : List α}, x ∉ a → x ∉ b →
    a ++ [x] <+: b ++ x :: c → a = b
  | [], [], _, _, _, _ => rfl
  | [], y :: b, c, _, hb, h => by
    obtain ⟨rfl, -⟩ := List.cons_prefix_cons.1 h
    exact absurd List.mem_cons_self hb
  | y :: a, [], c, ha, _, h => by
    obtain ⟨rfl, -⟩ := List.cons_prefix_cons.1 h
    exact absurd List.mem_cons_self ha
  | y :: a, z :: b, c, ha, hb, h => by
    obtain ⟨rfl, hrest⟩ := List.cons_prefix_cons.1 h
    have ih := eq_of_concat_isPrefix (fun hx => ha (List.mem_cons_of_mem y hx))
      (fun hx => hb (List.mem_cons_of_mem y hx)) hrest
    rw [ih]

/-- A face that begins with an operator is that of a type with this operator or with one between its
operands, or a type with such a face is exposed at its beginning. -/
theorem mem_or_exposed_of_starts (h : (Part.type t).Throughout Part.Plain) (hop : op.leads)
    (hs : Starts op (face t)) : op ∈ t.operators ∨ (∃ op' ∈ t.operators, op'.leads = false)
      ∨ ∃ u, (u, true) ∈ t.exposed ∧ Starts op (face u) := by
  have hp : (Part.type t).Plain := (Part.throughout_iff.1 h).1
  cases t with
  | keyword s | literal s =>
    have := blank_not_mem_of_plain (hp s List.mem_cons_self)
    exact absurd hs (not_starts_of_not_mem hop (by simpa [face] using this))
  | reference name arguments =>
    have : ' ' ∉ (Text.joinWith "." name.segments).toList :=
      blank_not_mem_of_plain (Text.plain_joinWith hp)
    refine absurd hs (not_starts_of_not_mem hop ?_)
    unfold face angle entity
    split <;> simpa using this
  | query name arguments =>
    exact absurd hs (Other.not_starts (s := "typeof ") (by decide) hop)
  | array e =>
    exact .inr (.inr ⟨e, bareIn_of_starts hop (starts_of_concat hop hs)⟩)
  | indexed e index =>
    exact .inr (.inr ⟨e, bareIn_of_starts hop (starts_of_concat hop hs)⟩)
  | tuple es | object ms | mapped key nameType readonly optionality target | parenthesized t
  | template head ss => exact absurd hs (Other.not_starts (by decide) hop)
  | union ts | intersection ts =>
    rcases ts with _ | ⟨t, _ | ⟨next, rest⟩⟩
    · exact absurd hs (not_starts_of_not_mem hop (by simp [face, faces, separated]))
    · exact .inr (.inr ⟨t, by simpa [exposed] using bareIn_of_starts hop hs⟩)
    · exact .inr (.inl ⟨_, List.mem_cons_self, rfl⟩)
  | function tps ps result | construct isAbstract tps ps result =>
    exact .inr (.inl ⟨.arrow, List.mem_cons_self, rfl⟩)
  | conditional check bound onTrue onFalse =>
    exact .inr (.inl ⟨.question, List.mem_cons_self, rfl⟩)
  | operator word target =>
    exact .inl (List.mem_singleton.2 (eq_of_starts (.word word) hop rfl hs))
  | infer p => exact .inl (List.mem_singleton.2 (eq_of_starts .infer hop rfl hs))
  | importType argument qualifier arguments isTypeOf =>
    cases isTypeOf with
    | true => exact absurd hs (Other.not_starts (s := "typeof ") (by decide) hop)
    | false => exact absurd hs (Other.not_starts (s := "import(") (by decide) hop)
  | predicate asserts parameter target =>
    have hblank := blank_not_mem_of_plain (hp parameter List.mem_cons_self)
    cases asserts with
    | true => exact absurd hs (Other.not_starts (s := "asserts ") (by decide) hop)
    | false =>
      cases target with
      | none =>
        exact absurd hs
          (not_starts_of_not_mem hop (by simpa [face, flag, optionFace] using hblank))
      | some u =>
        refine .inl (List.mem_filter.2 ⟨mem_leading hop, decide_eq_true ?_⟩)
        obtain ⟨htext, hword⟩ := text_eq_concat hop
        have hs : op.text.toList.dropLast ++ [' '] <+: parameter.toList ++ ' ' ::
            ("is ".toList ++ chars (face u)) := by
          rw [← htext]
          simpa [Starts, face, flag, optionFace] using hs
        rw [← String.toList_inj, htext, eq_of_concat_isPrefix hword hblank hs,
          String.toList_append]
        rfl
  | verbatim ts =>
    refine absurd hs (not_starts_of_not_mem hop fun hb => ?_)
    obtain ⟨p, hpieces, hc⟩ := List.mem_flatMap.1 hb
    obtain ⟨t, ht, rfl⟩ := List.mem_map.1 hpieces
    refine absurd ?_ (blank_not_mem_of_plain (hp t.content (List.mem_map_of_mem ht)))
    cases t <;> exact hc

end Print

end DeclBundle
