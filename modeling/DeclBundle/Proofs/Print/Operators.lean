import DeclBundle.Proofs.Print.Face
import Mathlib.Data.List.Infix

/-!
# Operators of types

A reader of a printed type goes by the operators that stand outside brackets: those that the type
itself is written with (`TypeExpr.operators`), and those of the types that stand in it without
parentheses (`TypeExpr.exposed`). What a type exposes is shown by its face
(`Print.shown_of_exposes`).
-/

namespace DeclBundle

namespace Print

/-- The operators that a reader of a printed type goes by. -/
inductive Operator where
  /-- The arrow of functions and constructors. -/
  | arrow
  /-- The question mark of conditional types. -/
  | question
  | bar
  | ampersand
  /-- `keyof`, `unique`, `readonly` -/
  | word (op : TypeOperator)
  | infer
deriving DecidableEq, Repr

namespace Operator

/-- The text by which an operator is printed. -/
def text : Operator → String
  | .arrow => "=>"
  | .question => " ? "
  | .bar => " | "
  | .ampersand => " & "
  | .word op => op.keyword ++ " "
  | .infer => "infer "

/-- The precedence of what an operator makes. -/
def precedence : Operator → Precedence
  | .arrow | .question => .lowest
  | .bar => .union
  | .ampersand => .intersection
  | .word _ | .infer => .unary

/-- Whether the operator counts at the beginning of a text only. -/
def leads : Operator → Bool
  | .word _ | .infer => true
  | _ => false

/-- The text `s` shows the operator. -/
def ShownIn (s : List Char) (op : Operator) : Prop :=
  if op.leads then op.text.toList <+: s else op.text.toList <:+: s

/-- Whether an operator is shown in a text can be decided. -/
instance (s : List Char) (op : Operator) : Decidable (op.ShownIn s) := by
  unfold ShownIn
  infer_instance

/-- The operators that lead. -/
def leading : List Operator := [.word .keyof, .word .unique, .word .readonly, .infer]

/-- The character that tells an operator that stands between its operands. -/
def mark : Operator → Char
  | .arrow => '>'
  | .question => '?'
  | .bar => '|'
  | .ampersand => '&'
  | .word _ | .infer => ' '

end Operator

end Print

namespace TypeExpr

open Print (Operator)

/-- The operators that the type itself is written with outside brackets. A predicate on a parameter
that is called like an operator begins like one. -/
def operators : TypeExpr → List Operator
  | .function .. | .construct .. => [.arrow]
  | .conditional .. => [.question]
  | .union (_ :: _ :: _) => [.bar]
  | .intersection (_ :: _ :: _) => [.ampersand]
  | .operator op _ => [.word op]
  | .infer _ => [.infer]
  | .predicate false parameter (some _) =>
    Operator.leading.filter fun op => op.text = parameter ++ " "
  | _ => []

/-- `t` if it stands without parentheses in a place that requires `least`, and whether that place is
at the beginning. -/
def bareIn (least : Precedence) (first : Bool) (t : TypeExpr) : List (TypeExpr × Bool) :=
  if t.precedence < least then [] else [(t, first)]

/-- The types that are printed within a type outside brackets and without parentheses, and whether
they stand at the beginning. -/
def exposed : TypeExpr → List (TypeExpr × Bool)
  | .array t | .indexed t _ => bareIn .suffixed true t
  | .union (t :: ts) => bareIn .intersection true t ++ ts.flatMap (bareIn .intersection false)
  | .intersection (t :: ts) => bareIn .unary true t ++ ts.flatMap (bareIn .unary false)
  | .function _ _ result | .construct _ _ _ result => [(result, false)]
  | .operator _ target => bareIn .unary false target
  | .conditional check bound onTrue onFalse =>
    bareIn .union true check ++ bareIn .union false bound ++ [(onTrue, false), (onFalse, false)]
  | .infer p => (p.constraint.toList ++ p.fallback.toList).map (·, false)
  | .predicate _ _ target => target.toList.map (·, false)
  | _ => []

/-- The text of the type shows the operator outside brackets: its own, or one of a type that is
exposed in it. -/
inductive Exposes : TypeExpr → Operator → Prop
  | own {t : TypeExpr} {op : Operator} (h : op ∈ t.operators) : t.Exposes op
  | inside {t u : TypeExpr} {first : Bool} {op : Operator} (hu : (u, first) ∈ t.exposed)
    (h : u.Exposes op) (hfirst : op.leads → first) : t.Exposes op

theorem mem_bareIn {least : Precedence} {f first : Bool} {t u : TypeExpr} :
    (u, first) ∈ bareIn least f t ↔ ¬ t.precedence < least ∧ u = t ∧ first = f := by
  unfold bareIn
  split <;> simp_all

end TypeExpr

namespace Print

open Piece TypeExpr

/-! ## What is shown of an exposed type -/

/-- `a` stands in `b`, and at its beginning if `first` is set. -/
def Sits (first : Bool) (a b : List Char) : Prop := a <:+: b ∧ (first → a <+: b)

variable {first : Bool} {a b c : List Char} {t u : TypeExpr} {least : Precedence} {op : Operator}

theorem Sits.append (h : Sits first a b) (c : List Char) : Sits first a (b ++ c) :=
  ⟨h.1.trans (List.prefix_append b c).isInfix, fun hf => (h.2 hf).trans (List.prefix_append b c)⟩

theorem Sits.after (h : a <:+: b) (c : List Char) : Sits false a (c ++ b) :=
  ⟨h.trans (List.suffix_append c b).isInfix, nofun⟩

theorem chars_guarded_of_bareIn {f : Bool} (h : (u, first) ∈ bareIn least f t) :
    Sits f (chars (face u)) (chars (guarded least t (face t))) ∧ first = f := by
  obtain ⟨hle, rfl, rfl⟩ := mem_bareIn.1 h
  rw [guarded, if_neg hle]
  exact ⟨⟨List.infix_refl _, fun _ => List.prefix_refl _⟩, rfl⟩

theorem infix_separated (sep : String) : ∀ {ts : List TypeExpr},
    (u, first) ∈ ts.flatMap (bareIn least false) →
      chars (face u) <:+: chars (separated sep (faces least ts))
  | [t], h => by
    rw [List.flatMap_singleton] at h
    exact (chars_guarded_of_bareIn h).1.1
  | t :: next :: rest, h => by
    rw [List.flatMap_cons, List.mem_append] at h
    simp only [faces, separated, chars_append, chars_cons]
    rcases h with h | h
    · exact ((chars_guarded_of_bareIn h).1.append _).1
    · have ih := infix_separated sep h
      exact (Sits.after (Sits.after ih _).1 _).1

theorem sits_separated {sep : String} {ts : List TypeExpr}
    (h : (u, first) ∈ bareIn least true t ++ ts.flatMap (bareIn least false)) :
    Sits first (chars (face u)) (chars (separated sep (faces least (t :: ts)))) := by
  rcases List.mem_append.1 h with h | h
  · obtain ⟨hs, rfl⟩ := chars_guarded_of_bareIn h
    cases ts with
    | nil => exact hs
    | cons next rest =>
      simp only [faces, separated, chars_append]
      exact hs.append _
  · obtain ⟨v, -, hv⟩ := List.mem_flatMap.1 h
    obtain ⟨-, rfl⟩ := chars_guarded_of_bareIn hv
    cases ts with
    | nil => cases h
    | cons next rest =>
      have := Sits.after (infix_separated sep h)
        (chars (guarded least t (face t)) ++ sep.toList)
      simpa [faces, separated] using this

theorem sits_option (mark : String) {o : Option TypeExpr} (h : u ∈ o.toList) :
    Sits false (chars (face u)) (chars (optionFace mark o)) := by
  obtain rfl := Option.mem_toList.1 h
  exact .after (List.infix_refl _) mark.toList

theorem sits_of_mem_exposed (h : (u, first) ∈ t.exposed) :
    Sits first (chars (face u)) (chars (face t)) := by
  cases t with
  | array e =>
    obtain ⟨hs, rfl⟩ := chars_guarded_of_bareIn h
    simpa [face] using hs.append ['[']
  | indexed e index =>
    obtain ⟨hs, rfl⟩ := chars_guarded_of_bareIn h
    simpa [face] using hs.append ['[']
  | union ts =>
    cases ts with
    | nil => cases h
    | cons t ts => exact sits_separated h
  | intersection ts =>
    cases ts with
    | nil => cases h
    | cons t ts => exact sits_separated h
  | function tps ps result =>
    obtain ⟨rfl, rfl⟩ : u = result ∧ first = false := by simpa [exposed] using h
    have := Sits.after (List.infix_refl (chars (face u))) (chars (angle tps) ++ "( => ".toList)
    simpa [face] using this
  | construct isAbstract tps ps result =>
    obtain ⟨rfl, rfl⟩ : u = result ∧ first = false := by simpa [exposed] using h
    have := Sits.after (List.infix_refl (chars (face u)))
      (chars (flag isAbstract "abstract ") ++ "new ".toList ++ chars (angle tps) ++ "( => ".toList)
    simpa [face] using this
  | operator op target =>
    obtain ⟨hs, rfl⟩ := chars_guarded_of_bareIn h
    simpa [face] using Sits.after hs.1 (op.keyword ++ " ").toList
  | conditional check bound onTrue onFalse =>
    rcases List.mem_append.1 h with h | h
    · rcases List.mem_append.1 h with h | h
      · obtain ⟨hs, rfl⟩ := chars_guarded_of_bareIn h
        simpa [face] using hs.append _
      · obtain ⟨hs, rfl⟩ := chars_guarded_of_bareIn h
        have := Sits.after hs.1 (chars (guarded .union check (face check)) ++ " extends ".toList)
        simpa [face] using
          this.append (chars (.text " ? " :: face onTrue ++ .text " : " :: face onFalse))
    · have hchoice : (u = onTrue ∨ u = onFalse) ∧ first = false := by
        rcases List.mem_pair.1 h with h | h <;> cases h <;> simp
      have hpath : chars (face u) <:+: chars (face onTrue ++ .text " : " :: face onFalse) := by
        rcases hchoice.1 with rfl | rfl
        · simpa using (List.prefix_append (chars (face u)) _).isInfix
        · simpa using (List.suffix_append (chars (face onTrue) ++ " : ".toList) _).isInfix
      rw [hchoice.2]
      have := Sits.after hpath (chars (guarded .union check (face check) ++ .text " extends "
        :: guarded .union bound (face bound) ++ [.text " ? "]))
      simpa [face] using this
  | infer p =>
    obtain ⟨id, name, constraint, fallback, keywords⟩ := p
    obtain ⟨v, hv, he⟩ := List.mem_map.1 h
    cases he
    have hoption : chars (face u) <:+: chars (optionFace " extends " constraint
        ++ optionFace " = " fallback) := by
      rw [chars_append]
      rcases List.mem_append.1 hv with hv | hv
      · exact ((sits_option " extends " hv).append _).1
      · exact (Sits.after (sits_option " = " hv).1 _).1
    have := Sits.after hoption ("infer ".toList ++ chars (keywords.map fun k => .text (k ++ " "))
      ++ name.toList)
    simpa [face, parameterFace] using this
  | predicate asserts parameter target =>
    obtain ⟨v, hv, he⟩ := List.mem_map.1 h
    cases he
    have := Sits.after (sits_option " is " hv).1
      (chars (flag asserts "asserts ") ++ parameter.toList)
    simpa [face] using this
  | _ => cases h

/-- What is shown of an operator of the type itself. -/
theorem shown_of_mem_operators (h : op ∈ t.operators) : op.ShownIn (chars (face t)) := by
  cases t with
  | function tps ps result =>
    obtain rfl := List.mem_singleton.1 h
    exact ⟨chars (angle tps) ++ "( ".toList, ' ' :: chars (face result), by
      simp [face, Operator.text]⟩
  | construct isAbstract tps ps result =>
    obtain rfl := List.mem_singleton.1 h
    exact ⟨chars (flag isAbstract "abstract ") ++ "new ".toList ++ chars (angle tps) ++ "( ".toList,
      ' ' :: chars (face result), by simp [face, Operator.text]⟩
  | conditional check bound onTrue onFalse =>
    obtain rfl := List.mem_singleton.1 h
    exact ⟨chars (guarded .union check (face check) ++ .text " extends "
      :: guarded .union bound (face bound)), chars (face onTrue ++ .text " : " :: face onFalse), by
      simp [face, Operator.text]⟩
  | union ts =>
    match ts, h with
    | t :: next :: rest, h =>
      obtain rfl := List.mem_singleton.1 h
      exact ⟨chars (guarded .intersection t (face t)),
        chars (separated " | " (faces .intersection (next :: rest))), by
        simp [face, faces, separated, Operator.text]⟩
  | intersection ts =>
    match ts, h with
    | t :: next :: rest, h =>
      obtain rfl := List.mem_singleton.1 h
      exact ⟨chars (guarded .unary t (face t)),
        chars (separated " & " (faces .unary (next :: rest))), by
        simp [face, faces, separated, Operator.text]⟩
  | operator word target =>
    obtain rfl := List.mem_singleton.1 h
    exact ⟨chars (guarded .unary target (face target)), by simp [face, Operator.text]⟩
  | infer p =>
    obtain rfl := List.mem_singleton.1 h
    exact ⟨chars (parameterFace p), by simp [face, Operator.text]⟩
  | predicate asserts parameter target =>
    match asserts, target, h with
    | false, some u, h =>
      obtain ⟨hop, htext⟩ := List.mem_filter.1 h
      have hleads : op.leads := by
        have : ∀ op ∈ Operator.leading, op.leads := by decide
        exact this op hop
      rw [Operator.ShownIn, if_pos hleads, of_decide_eq_true htext]
      exact ⟨"is ".toList ++ chars (face u), by simp [face, optionFace, flag]⟩
  | _ => cases h

/-- What a type exposes is shown outside brackets. -/
theorem shown_of_exposes (h : t.Exposes op) : op.ShownIn (chars (face t)) := by
  induction h with
  | own h => exact shown_of_mem_operators h
  | @inside t u first op hu _ hfirst ih =>
    have hs := sits_of_mem_exposed hu
    unfold Operator.ShownIn at ih ⊢
    split
    · rename_i hop
      rw [if_pos hop] at ih
      exact ih.trans (hs.2 (hfirst hop))
    · rename_i hop
      rw [if_neg hop] at ih
      exact ih.trans hs.1

end Print

end DeclBundle
