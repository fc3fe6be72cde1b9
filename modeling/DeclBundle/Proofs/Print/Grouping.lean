import DeclBundle.Proofs.Print.Marks
import DeclBundle.Proofs.Print.Positions

/-!
# Grouping of printed types

Parentheses are put by the outermost node of a type alone. The text of a type then stands in its
place as one operand exactly if nothing that is exposed in it binds more loosely than the place
requires (`Print.typeAt_holdsTogether`). Three shapes are printed with more outside brackets than
their precedence says: a union or an intersection of one type, an `infer` with a constraint or a
default, and a predicate with a target. Types without them always hold together.
-/

namespace DeclBundle

namespace Print

open Piece TypeExpr

variable {t u : TypeExpr} {first : Bool} {least : Precedence} {op : Operator}

/-- The text can stand where `least` is required: outside its brackets it shows no operator that
binds more loosely. -/
def HoldsTogether (least : Precedence) (s : String) : Prop :=
  ∀ op : Operator, op.precedence < least → ¬ op.ShownIn (Text.outer s)

/-! ## Everything that is shown is exposed -/

theorem mem_of_bareIn_append {ts : List TypeExpr}
    (h : (u, first) ∈ bareIn least true t ++ ts.flatMap (bareIn least false)) :
    u ∈ t :: ts ∧ ¬ u.precedence < least := by
  rcases List.mem_append.1 h with h | h
  · obtain ⟨hle, rfl, -⟩ := mem_bareIn.1 h
    exact ⟨List.mem_cons_self, hle⟩
  · obtain ⟨v, hv, h⟩ := List.mem_flatMap.1 h
    obtain ⟨hle, rfl, -⟩ := mem_bareIn.1 h
    exact ⟨List.mem_cons_of_mem t hv, hle⟩

/-- An exposed type is right below the type, or right below its type parameter. -/
theorem mem_children_of_mem_exposed (h : (u, first) ∈ t.exposed) :
    ∃ p, (p = .type t ∨ p ∈ (Part.type t).children) ∧ Part.type u ∈ p.children := by
  cases t with
  | infer p =>
    obtain ⟨v, hv, he⟩ := List.mem_map.1 h
    cases he
    refine ⟨.typeParameter p, .inr List.mem_cons_self, ?_⟩
    rw [Part.children, ← List.map_append]
    exact List.mem_map_of_mem hv
  | union ts | intersection ts =>
    cases ts with
    | nil => cases h
    | cons t ts => exact ⟨_, .inl rfl, List.mem_map_of_mem (mem_of_bareIn_append h).1⟩
  | array e | indexed e index | operator op e =>
    refine ⟨_, .inl rfl, ?_⟩
    simp [(mem_bareIn.1 h).2.1]
  | function tps ps result | construct isAbstract tps ps result =>
    refine ⟨_, .inl rfl, ?_⟩
    obtain ⟨rfl, -⟩ : u = result ∧ first = false := by simpa [exposed] using h
    simp
  | conditional check bound onTrue onFalse =>
    refine ⟨_, .inl rfl, ?_⟩
    simp only [exposed, List.mem_append, mem_bareIn] at h
    rcases h with (⟨-, rfl, -⟩ | ⟨-, rfl, -⟩) | h
    · simp
    · simp
    · rcases List.mem_pair.1 h with h | h <;> cases h <;> simp
  | predicate asserts parameter target =>
    obtain ⟨v, hv, he⟩ := List.mem_map.1 h
    cases he
    exact ⟨_, .inl rfl, List.mem_map_of_mem hv⟩
  | _ => cases h

theorem below_of_mem_exposed (h : (u, first) ∈ t.exposed) : sizeOf u < sizeOf t
    ∧ ∀ {P : Part → Prop}, (Part.type t).Throughout P → (Part.type u).Throughout P := by
  obtain ⟨p, hp, hu⟩ := mem_children_of_mem_exposed h
  have hlt : sizeOf (Part.type u) < sizeOf p := Part.sizeOf_lt_of_mem_children hu
  rcases hp with rfl | hp
  · refine ⟨by simpa using hlt, fun ht => (Part.throughout_iff.1 ht).2 _ hu⟩
  · have hle := Nat.lt_trans hlt (Part.sizeOf_lt_of_mem_children hp)
    refine ⟨by simpa using hle, fun ht => ?_⟩
    exact (Part.throughout_iff.1 ((Part.throughout_iff.1 ht).2 p hp)).2 _ hu

theorem exposes_of_marks (hop : op.leads = false) (t : TypeExpr)
    (h : (Part.type t).Throughout Part.Plain) (hm : Marks op (face t)) : t.Exposes op := by
  rcases mem_or_exposed_of_marks h hop hm with ho | ⟨u, first, hu, hm⟩
  · exact .own ho
  · obtain ⟨hsize, hplain⟩ := below_of_mem_exposed hu
    exact .inside hu (exposes_of_marks hop u (hplain h) hm) (by simp [hop])
termination_by sizeOf t

theorem exposes_of_starts (hop : op.leads) (t : TypeExpr)
    (h : (Part.type t).Throughout Part.Plain) (hs : Starts op (face t)) :
    t.Exposes op ∨ ∃ op' : Operator, op'.leads = false ∧ t.Exposes op' := by
  rcases mem_or_exposed_of_starts h hop hs with ho | ⟨op', ho, hop'⟩ | ⟨u, hu, hs⟩
  · exact .inl (.own ho)
  · exact .inr ⟨op', hop', .own ho⟩
  · obtain ⟨hsize, hplain⟩ := below_of_mem_exposed hu
    rcases exposes_of_starts hop u (hplain h) hs with he | ⟨op', hop', he⟩
    · exact .inl (.inside hu he fun _ => rfl)
    · exact .inr ⟨op', hop', .inside hu he fun _ => rfl⟩
termination_by sizeOf t

theorem lt_of_leads {op' : Operator} (hop : op.leads) (hop' : op'.leads = false)
    (h : op.precedence < least) : op'.precedence < least := by
  have hunary : op.precedence = .unary := by
    cases op <;> first | rfl | cases hop
  have hlt : op'.precedence < .unary := by
    cases op' <;> first | decide | cases hop'
  exact Nat.lt_trans hlt (hunary ▸ h)

/-- The face of a type can stand where `least` is required exactly if the type exposes no operator
that binds more loosely. -/
theorem face_holdsTogether_iff (h : (Part.type t).Throughout Part.Plain) :
    (∀ op : Operator, op.precedence < least → ¬ op.ShownIn (chars (face t)))
      ↔ ∀ op, t.Exposes op → ¬ op.precedence < least := by
  refine ⟨fun hall op he hlt => hall op hlt (shown_of_exposes he), fun hall op hlt hs => ?_⟩
  unfold Operator.ShownIn at hs
  split at hs
  · rename_i hop
    rcases exposes_of_starts hop t h hs with he | ⟨op', hop', he⟩
    · exact hall op he hlt
    · exact hall op' he (lt_of_leads hop hop' hlt)
  · rename_i hop
    have hop : op.leads = false := by simpa using hop
    have hmark : op.mark ∈ op.text.toList := by cases op <;> first | decide | cases hop
    exact hall op (exposes_of_marks hop t h (hs.subset hmark)) hlt

/-! ## Types that bind as their outermost node says -/

/-- No union or intersection of one type, no `infer` with a constraint or a default and no predicate
with a target: what the type is printed with outside brackets is what its precedence says. -/
def Regular : Part → Prop
  | .type (.union [_]) | .type (.intersection [_]) | .type (.predicate _ _ (some _)) => False
  | .type (.infer p) => p.constraint = none ∧ p.fallback = none
  | _ => True

theorem le_of_mem_exposed (h : Regular (.type t)) (hu : (u, first) ∈ t.exposed) :
    t.precedence.rank ≤ u.precedence.rank := by
  cases t with
  | function tps ps result | construct isAbstract tps ps result
  | conditional check bound onTrue onFalse => exact Nat.zero_le _
  | array e | indexed e index | operator op e =>
    obtain ⟨hle, rfl, -⟩ := mem_bareIn.1 hu
    exact Nat.le_of_not_lt hle
  | union ts | intersection ts =>
    rcases ts with _ | ⟨t, _ | ⟨next, rest⟩⟩
    · cases hu
    · exact h.elim
    · exact Nat.le_of_succ_le (Nat.le_of_not_lt (mem_of_bareIn_append hu).2)
  | infer p =>
    obtain ⟨hconstraint, hfallback⟩ := h
    simp [exposed, hconstraint, hfallback] at hu
  | predicate asserts parameter target =>
    cases target with
    | none => cases hu
    | some u => exact h.elim
  | _ => cases hu

theorem precedence_of_mem_operators (h : Regular (.type t)) (ho : op ∈ t.operators) :
    op.precedence = t.precedence := by
  cases t with
  | function tps ps result | construct isAbstract tps ps result
  | conditional check bound onTrue onFalse | operator word target | infer p =>
    obtain rfl := List.mem_singleton.1 ho
    rfl
  | union ts | intersection ts =>
    rcases ts with _ | ⟨t, _ | ⟨next, rest⟩⟩
    · cases ho
    · cases ho
    · obtain rfl := List.mem_singleton.1 ho
      rfl
  | predicate asserts parameter target =>
    cases target with
    | none => cases asserts <;> cases ho
    | some u => exact h.elim
  | _ => cases ho

/-- A regular type exposes no operator that binds more loosely than the type. -/
theorem le_of_exposes (h : t.Exposes op) (hr : (Part.type t).Throughout Regular) :
    t.precedence.rank ≤ op.precedence.rank := by
  induction h with
  | own ho =>
    have heq := precedence_of_mem_operators (Part.throughout_iff.1 hr).1 ho
    exact Nat.le_of_eq (congrArg Precedence.rank heq.symm)
  | inside hu _ _ ih =>
    exact Nat.le_trans (le_of_mem_exposed (Part.throughout_iff.1 hr).1 hu)
      (ih ((below_of_mem_exposed hu).2 hr))

/-! ## Types in their places -/

theorem outer_typeAt (level : Nat) (least : Precedence) (h : (Part.type t).Throughout Part.Plain) :
    Text.outer (Piece.render (typeAt level least t)) = chars (faceAt least t) := by
  have hrender : (Piece.render (typeAt level least t)).toList = chars (typeAt level least t) := by
    have hempty : Writer.empty.Counts [] := ⟨rfl, rfl⟩
    have := (hempty.putAll (typeAt level least t)).output
    rw [Piece.render, this]
    simp [Piece.contents, chars, List.flatMap_def, Function.comp_def]
  have hshows : Shows (typeAt level least t) (faceAt least t) :=
    shows_enclosed least t (reads_of_plain _ h level)
  rw [Text.outer, hrender]
  exact hshows.outside_eq

/-- The text of a type with plain leaf texts can stand in the place that it is printed for exactly
if it is in parentheses or exposes no operator that binds more loosely than the place requires. In
particular it can if the type is regular throughout. -/
theorem typeAt_holdsTogether (level : Nat) (least : Precedence) (t : TypeExpr)
    (h : (Part.type t).Throughout Part.Plain) :
    (HoldsTogether least (Piece.render (typeAt level least t))
      ↔ t.precedence < least ∨ ∀ op, t.Exposes op → ¬ op.precedence < least)
    ∧ ((Part.type t).Throughout Regular →
      HoldsTogether least (Piece.render (typeAt level least t))) := by
  have hiff : HoldsTogether least (Piece.render (typeAt level least t))
      ↔ t.precedence < least ∨ ∀ op, t.Exposes op → ¬ op.precedence < least := by
    rw [HoldsTogether, outer_typeAt level least h, faceAt, guarded]
    split
    · rename_i hlt
      have hparen : ∀ op : Operator, ¬ op.ShownIn (chars [.text "("]) := by
        intro op
        cases op with
        | word word => cases word <;> decide
        | _ => decide
      exact iff_of_true (fun op _ => hparen op) (.inl hlt)
    · rename_i hle
      simp only [hle, false_or]
      exact face_holdsTogether_iff h
  refine ⟨hiff, fun hr => hiff.2 ?_⟩
  by_cases hlt : t.precedence < least
  · exact .inl hlt
  · exact .inr fun op he hop => hlt (Nat.lt_of_le_of_lt (le_of_exposes he hr) hop)

/-- The intersection of two names. -/
def pair : TypeExpr := .intersection [.reference ⟨["A"]⟩ [], .reference ⟨["B"]⟩ []]

/-- In front of a suffix an intersection is put in parentheses, but not if it is the one type of a
union. -/
theorem typeAt_holdsTogether_lone :
    HoldsTogether .suffixed (Piece.render (typeAt 0 .suffixed pair))
      ∧ ¬ HoldsTogether .suffixed (Piece.render (typeAt 0 .suffixed (.union [pair]))) := by
  have hplain : (Part.type (.union [pair])).Throughout Part.Plain := by
    have hnames : Text.Plain "A" ∧ Text.Plain "B" := by decide
    simp [pair, Part.Throughout, Part.parts_eq, Part.Plain, Part.texts, Part.typeTexts, hnames]
  have hpair : (Part.type pair).Throughout Part.Plain :=
    (Part.throughout_iff.1 hplain).2 _ List.mem_cons_self
  have hregular : (Part.type pair).Throughout Regular := by
    simp [pair, Part.Throughout, Part.parts_eq, Regular]
  refine ⟨(typeAt_holdsTogether 0 .suffixed pair hpair).2 hregular, fun hold => ?_⟩
  have hpairs : (pair, true) ∈ (TypeExpr.union [pair]).exposed := List.mem_cons_self
  have hampersand : (TypeExpr.union [pair]).Exposes .ampersand :=
    .inside hpairs (.own List.mem_cons_self) fun hl => absurd hl (by decide)
  rcases (typeAt_holdsTogether 0 .suffixed (.union [pair]) hplain).1.1 hold with hlt | hall
  · exact absurd hlt (by decide)
  · exact hall .ampersand hampersand (by decide)

/-- The suffix then belongs to the last operand. -/
example : Piece.render (type 0 (.array (.union [pair]))) = "A & B[]" := by decide

end Print

end DeclBundle
