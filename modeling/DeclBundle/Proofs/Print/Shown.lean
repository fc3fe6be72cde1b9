import DeclBundle.Proofs.Print.Face
import DeclBundle.Proofs.Text.Outside

/-!
# Printed types close what they open

The printed text of a type whose leaf texts are plain closes all it opens, wherever it stands, and
what it shows outside brackets is the face of the type (`Print.reads_of_plain`). Quoted texts, the
arguments of import types and quoted property names, may be anything.
-/

namespace DeclBundle

/-! ## Pieces that are read on their own -/

namespace Text

/-- Text that opens and closes nothing. -/
def Neutral (s : String) : Prop := ∀ c ∈ s.toList, c ∉ delimiters

/-- Whether a text opens or closes anything can be decided. -/
instance (s : String) : Decidable (Neutral s) :=
  List.decidableBAll (fun c => c ∉ delimiters) s.toList

variable {s t : String}

theorem Plain.neutral (h : Plain s) : Neutral s := fun c hc => (h c hc).1

theorem Neutral.append (h : Neutral s) (h' : Neutral t) : Neutral (s ++ t) := fun c hc =>
  (List.mem_append.1 (String.toList_append ▸ hc)).elim (h c) (h' c)

theorem Plain.append (h : Plain s) (h' : Plain t) : Plain (s ++ t) := fun c hc =>
  (List.mem_append.1 (String.toList_append ▸ hc)).elim (h c) (h' c)

theorem plain_joinWith : ∀ {ss : List String}, (∀ s ∈ ss, Plain s) → Plain (joinWith "." ss)
  | [], _ => by decide
  | [s], h => h s List.mem_cons_self
  | s :: next :: rest, h => by
    have ih := plain_joinWith fun x hx => h x (List.mem_cons_of_mem s hx)
    exact ((h s List.mem_cons_self).append (by decide)).append ih

end Text

namespace Piece

open Text

/-- The pieces `ps` close all they open and show `face` outside. -/
def Shows (ps face : List Piece) : Prop := ReadsAs (chars ps) (chars face)

/-- The pieces close all they open and nothing else. -/
def Closed (ps : List Piece) : Prop := ∃ face, Shows ps face

variable {ps ps' face face' : List Piece} {s : String}

theorem Shows.nil : Shows [] [] := ReadsAs.nil

theorem Shows.append (h : Shows ps face) (h' : Shows ps' face') :
    Shows (ps ++ ps') (face ++ face') := by
  simpa [Shows] using ReadsAs.append h h'

/-- Pieces none of which opens or closes anything. -/
theorem Shows.neutral (h : ∀ p ∈ ps, Neutral p.content) : Shows ps ps :=
  ReadsAs.of_no_delimiter fun c hc =>
    have ⟨p, hp, hc⟩ := List.mem_flatMap.1 hc
    h p hp c hc

theorem Shows.text (h : Neutral s) : Shows [.text s] [.text s] :=
  .neutral fun _ hp => List.mem_singleton.1 hp ▸ h

theorem Shows.cons (h : Neutral s) (h' : Shows ps face) : Shows (.text s :: ps) (.text s :: face) :=
  (Shows.text h).append h'

theorem Shows.arrow : Shows [.text " => "] [.text " => "] := by
  have hblank : ReadsAs [' '] [' '] := .of_no_delimiter (by simp [delimiters])
  exact (hblank.append .arrow).append hblank

theorem Shows.equals : Shows [.text " = "] [.text " = "] := by
  have hblank : ReadsAs [' '] [' '] := .of_no_delimiter (by simp [delimiters])
  exact hblank.append .equals

theorem Closed.nil : Closed [] := ⟨_, .nil⟩

theorem Closed.append (h : Closed ps) (h' : Closed ps') : Closed (ps ++ ps') :=
  have ⟨_, hs⟩ := h
  have ⟨_, hs'⟩ := h'
  ⟨_, hs.append hs'⟩

theorem Closed.text (h : Neutral s) : Closed [.text s] := ⟨_, .text h⟩

theorem Closed.cons (h : Neutral s) (h' : Closed ps) : Closed (.text s :: ps) :=
  (Closed.text h).append h'

theorem Closed.flatMap {f : α → List Piece} : ∀ {xs : List α}, (∀ x ∈ xs, Closed (f x)) →
    Closed (xs.flatMap f)
  | [], _ => .nil
  | x :: _, h =>
    (h x List.mem_cons_self).append (.flatMap fun y hy => h y (List.mem_cons_of_mem x hy))

theorem Closed.parens (h : Closed ps) : Shows (.text "(" :: ps ++ [.text ")"]) [.text "("] := by
  obtain ⟨_, hs⟩ := h
  simpa [Shows] using hs.nest (o := '(') (c := ')') (by decide)

theorem Closed.brackets (h : Closed ps) : Shows (.text "[" :: ps ++ [.text "]"]) [.text "["] := by
  obtain ⟨_, hs⟩ := h
  simpa [Shows] using hs.nest (o := '[') (c := ']') (by decide)

theorem Closed.braces (h : Closed ps) :
    Shows (.text "\x7b" :: ps ++ [.text "\x7d"]) [.text "\x7b"] := by
  obtain ⟨_, hs⟩ := h
  simpa [Shows] using hs.nest (o := '\x7b') (c := '\x7d') (by decide)

theorem Closed.angles (h : Closed ps) : Shows (.text "<" :: ps ++ [.text ">"]) [.text "<"] := by
  obtain ⟨_, hs⟩ := h
  simpa [Shows] using hs.nest (o := '<') (c := '>') (by decide)

/-- Only the characters count, not how they are cut into pieces. -/
theorem Shows.of_chars (h : Shows ps face) (hps : chars ps' = chars ps)
    (hface : chars face' = chars face) : Shows ps' face' := by
  rw [Shows, hps, hface]
  exact h

end Piece

namespace Print

open Text Piece

variable {ps shown : List Piece}

theorem shows_flag (on : Bool) {mark : String} (h : Neutral mark) :
    Shows (flag on mark) (flag on mark) := by
  cases on with
  | true => exact .text h
  | false => exact .nil

theorem closed_flag (on : Bool) (mark : String) (h : Neutral mark) : Closed (flag on mark) :=
  ⟨_, shows_flag on h⟩

theorem closed_separated {sep : String} (hsep : Neutral sep) : ∀ {gs : List (List Piece)},
    (∀ g ∈ gs, Closed g) → Closed (separated sep gs)
  | [], _ => .nil
  | [g], h => h g List.mem_cons_self
  | g :: _ :: _, h =>
    (h g List.mem_cons_self).append
      (.cons hsep (closed_separated hsep fun x hx => h x (List.mem_cons_of_mem g hx)))

theorem shows_angled {gs : List (List Piece)} (h : ∀ g ∈ gs, Closed g) :
    Shows (angled gs) (angle gs) := by
  cases gs with
  | nil => exact .nil
  | cons g gs => exact (closed_separated (by decide) h).angles

theorem shows_enclosed (least : Precedence) (t : TypeExpr) (h : Shows ps shown) :
    Shows (enclosed least t ps) (guarded least t shown) := by
  unfold enclosed guarded
  split
  · exact Closed.parens ⟨shown, h⟩
  · exact h

theorem shows_entity {name : Entity} (h : ∀ s ∈ name.segments, Plain s) :
    Shows (entity name) (entity name) :=
  .text (plain_joinWith h).neutral

theorem shows_tokens {ts : List Token} (h : ∀ s ∈ ts.map Token.content, Plain s) :
    Shows (tokens ts) (tokens ts) := by
  refine .neutral fun p hp => ?_
  obtain ⟨t, ht, rfl⟩ := List.mem_map.1 hp
  have := (h t.content (List.mem_map_of_mem ht)).neutral
  cases t <;> exact this

theorem closed_modifiers (m : Modifiers) : Closed (modifiers m) := by
  refine ⟨_, .neutral fun p hp => ?_⟩
  obtain ⟨k, hk, rfl⟩ := List.mem_map.1 hp
  obtain ⟨x, -, rfl⟩ := List.mem_map.1 hk
  cases x <;> decide

theorem closed_quoted (s : String) : Closed (quoted s) :=
  ⟨[.text "\""], by simpa [Shows, quoted] using ReadsAs.quote s⟩

theorem closed_propertyName {name : PropertyName} (h : ∀ s ∈ name.texts, Plain s) :
    Closed (propertyName name) := by
  cases name with
  | identifier s => exact .text (h s List.mem_cons_self).neutral
  | stringLiteral s => exact closed_quoted s
  | numericLiteral s => exact .text (h s List.mem_cons_self).neutral
  | computed e => exact ⟨_, Closed.brackets ⟨_, shows_entity h⟩⟩

theorem shows_block (level : Nat) {gs : List (List Piece)} (h : ∀ g ∈ gs, Closed g) :
    Shows (block level gs) [.text "\x7b"] := by
  have hindent : ∀ n, Closed (indentation n) := fun n =>
    ⟨_, .neutral fun p hp => List.eq_of_mem_replicate hp ▸ by decide⟩
  have hbreak : Closed [.newline] := ⟨_, .neutral (by decide)⟩
  unfold block
  split
  · exact (Closed.text (s := " ") (by decide)).braces
  · have hlines : Closed (gs.flatMap fun g => indentation (level + 1) ++ g ++ [.newline]) :=
      .flatMap fun g hg => ((hindent _).append (h g hg)).append hbreak
    exact ((hbreak.append hlines).append (hindent level)).braces.of_chars (by simp) rfl

/-! ## Lists of parts -/

theorem types_eq (level : Nat) (least : Precedence) (ts : List TypeExpr) :
    types level least ts = ts.map (typeAt level least) := by
  induction ts with
  | nil => rfl
  | cons t ts ih => exact congrArg (_ :: ·) ih

theorem typeParameters_eq (level : Nat) (ps : List TypeParameter) :
    typeParameters level ps = ps.map (typeParameter level) := by
  induction ps with
  | nil => rfl
  | cons p ps ih => exact congrArg (_ :: ·) ih

theorem parameters_eq (level : Nat) (ps : List Parameter) :
    parameters level ps = ps.map (parameter level) := by
  induction ps with
  | nil => rfl
  | cons p ps ih => exact congrArg (_ :: ·) ih

theorem tupleElements_eq (level : Nat) (es : List TupleElement) :
    tupleElements level es = es.map (tupleElement level) := by
  induction es with
  | nil => rfl
  | cons e es ih => exact congrArg (_ :: ·) ih

theorem members_eq (level : Nat) (ms : List Member) :
    members level ms = ms.map (member level) := by
  induction ms with
  | nil => rfl
  | cons m ms ih => exact congrArg (_ :: ·) ih

/-! ## Trees -/

/-- The printed node closes all it opens; a type and a type parameter show their faces. The key of a
mapped type is printed by its name and its constraint alone. -/
def Reads : Part → Prop
  | .type t => ∀ level, Shows (bare level t) (face t)
  | .typeParameter p => Neutral p.name ∧ ∀ level,
    Shows (typeParameter level p) (parameterFace p) ∧ Closed (preceded level "" p.constraint)
  | .parameter p => ∀ level, Closed (parameter level p)
  | .element e => ∀ level, Closed (tupleElement level e)
  | .span s => Neutral s.literal ∧ ∀ level, Closed (bare level s.type)
  | .member m => ∀ level, Closed (member level m)
  | _ => True

open TypeExpr

theorem Reads.closed {t : TypeExpr} (h : Reads (.type t)) (level : Nat) : Closed (bare level t) :=
  ⟨_, h level⟩

section

variable (level : Nat) (mark : String) {t : Option TypeExpr} {tps : List TypeParameter}
  {ps : List Parameter} {ts : List TypeExpr}

theorem shows_preceded (hm : Shows [.text mark] [.text mark])
    (h : ∀ u ∈ t, Reads (.type u)) : Shows (preceded level mark t) (optionFace mark t) := by
  cases t with
  | none => exact .nil
  | some u => exact hm.append (h u rfl level)

theorem closed_preceded (hm : Neutral mark) (h : ∀ u ∈ t, Reads (.type u)) :
    Closed (preceded level mark t) :=
  ⟨_, shows_preceded level mark (.text hm) h⟩

theorem closed_parameters (h : ∀ p ∈ ps, Reads (.parameter p)) :
    Closed (separated ", " (parameters level ps)) := by
  refine closed_separated (by decide) ?_
  rw [parameters_eq]
  simpa using fun p hp => h p hp level

theorem shows_typeParameters (h : ∀ p ∈ tps, Reads (.typeParameter p)) :
    Shows (angled (typeParameters level tps)) (angle tps) := by
  have hall : ∀ g ∈ typeParameters level tps, Closed g := by
    rw [typeParameters_eq]
    simpa using fun p hp => ⟨_, ((h p hp).2 level).1⟩
  have := shows_angled hall
  rwa [typeParameters_eq, angle, List.isEmpty_map, ← angle, ← typeParameters_eq] at this

theorem shows_arguments (h : ∀ t ∈ ts, Reads (.type t)) :
    Shows (angled (types level .lowest ts)) (angle ts) := by
  have hall : ∀ g ∈ types level .lowest ts, Closed g := by
    rw [types_eq]
    simpa using fun t ht => ⟨_, shows_enclosed .lowest t (h t ht level)⟩
  have := shows_angled hall
  rwa [types_eq, angle, List.isEmpty_map, ← angle, ← types_eq] at this

theorem shows_separated {sep : String} (hsep : Neutral sep) (least : Precedence) :
    ∀ {ts : List TypeExpr}, (∀ t ∈ ts, Reads (.type t)) →
      Shows (separated sep (types level least ts)) (separated sep (faces least ts))
  | [], _ => .nil
  | [t], h => shows_enclosed least t (h t List.mem_cons_self level)
  | t :: _ :: _, h =>
    (shows_enclosed least t (h t List.mem_cons_self level)).append
      (.cons hsep (shows_separated hsep least fun u hu => h u (List.mem_cons_of_mem t hu)))

/-- The spans of a template are read in its backticks. -/
theorem shows_spans {opened : List Char} (ho : opened.head? ≠ some '"') :
    ∀ {ss : List TemplateSpan}, (∀ s ∈ ss, Reads (.span s)) →
      ∃ s, ReadsIn opened (chars (spans level ss)) s
  | [], _ => ⟨[], .nil⟩
  | s :: ss, h => by
    obtain ⟨t, literal⟩ := s
    obtain ⟨hn, ht⟩ := h _ List.mem_cons_self
    obtain ⟨_, hs⟩ := shows_spans ho fun x hx => h x (List.mem_cons_of_mem _ hx)
    obtain ⟨_, hb⟩ := ht level
    have hdollar : ReadsIn opened ['$'] ['$'] := .of_no_delimiter ho (by simp [delimiters])
    have hspan := hdollar.append (ReadsIn.nest (o := '\x7b') (c := '\x7d') (by decide) ho hb)
    have := (hspan.append (.of_no_delimiter ho hn)).append hs
    exact ⟨_, by simpa [spans] using this⟩

theorem closed_signature {result : Option TypeExpr}
    (h : ∀ c ∈ Part.ofSignature tps ps result, Reads c) :
    Closed (signature level tps ps result) := by
  have htps : ∀ p ∈ tps, Reads (.typeParameter p) := fun p hp => h _ (by simp [hp])
  have hps : ∀ p ∈ ps, Reads (.parameter p) := fun p hp => h _ (by simp [hp])
  have hresult : ∀ t ∈ result, Reads (.type t) := fun t ht => h _ (by simp_all)
  exact ⟨_, (((shows_typeParameters level htps).append (closed_parameters level hps).parens).append
    (shows_preceded level ": " (.text (by decide)) hresult)).of_chars (by simp [signature]) rfl⟩

end

theorem reads_typeParameter {p : TypeParameter} (hp : (Part.typeParameter p).Plain)
    (hc : ∀ c ∈ (Part.typeParameter p).children, Reads c) : Reads (.typeParameter p) := by
  obtain ⟨id, name, constraint, fallback, keywords⟩ := p
  have hname : Neutral name := (hp name List.mem_cons_self).neutral
  have hkeywords : ∀ q ∈ keywords.map fun k => Piece.text (k ++ " "), Neutral q.content := by
    intro q hq
    obtain ⟨k, hk, rfl⟩ := List.mem_map.1 hq
    exact (hp k (List.mem_cons_of_mem name hk)).neutral.append (by decide)
  have hconstraint : ∀ u ∈ constraint, Reads (.type u) := fun u hu => hc _ (by simp_all)
  have hfallback : ∀ u ∈ fallback, Reads (.type u) := fun u hu => hc _ (by simp_all)
  refine ⟨hname, fun level => ⟨?_, closed_preceded level "" (by decide) hconstraint⟩⟩
  exact ((Shows.neutral hkeywords).append (.cons hname (shows_preceded level " extends "
    (.text (by decide)) hconstraint))).append (shows_preceded level " = " .equals hfallback)

theorem reads_parameter {p : Parameter} (hp : (Part.parameter p).Plain)
    (hc : ∀ c ∈ (Part.parameter p).children, Reads c) : Reads (.parameter p) := by
  intro level
  obtain ⟨name, mods, optionality, rest, t⟩ := p
  have hname : Neutral name := (hp name List.mem_cons_self).neutral
  have ht := closed_preceded level ": " (t := t) (by decide) fun u hu => hc _ (by simp_all)
  obtain ⟨_, h⟩ := (((closed_modifiers mods).append (closed_flag rest "..."
    (by decide))).append (.cons hname (closed_flag optionality "?" (by decide)))).append ht
  exact ⟨_, h.of_chars (by simp [parameter]) rfl⟩

theorem reads_element {e : TupleElement} (he : (Part.element e).Plain)
    (hc : ∀ c ∈ (Part.element e).children, Reads c) : Reads (.element e) := by
  intro level
  obtain ⟨name, optionality, rest, t⟩ := e
  have ht : Reads (.type t) := hc _ List.mem_cons_self
  cases name with
  | none =>
    have hplace : Closed (enclosed .suffixed t (bare level t)) := ⟨_, shows_enclosed _ t (ht level)⟩
    exact ((closed_flag rest "..." (by decide)).append hplace).append
      (closed_flag optionality "?" (by decide))
  | some name =>
    have hname : Neutral name := (he name List.mem_cons_self).neutral
    exact ((closed_flag rest "..." (by decide)).append
      (.cons hname (closed_flag optionality "?" (by decide)))).append
      (.cons (by decide) (ht.closed level))

theorem reads_member {m : Member} (hm : (Part.member m).Plain)
    (hc : ∀ c ∈ (Part.member m).children, Reads c) : Reads (.member m) := by
  intro level
  have hend : Closed [.text ";"] := .text (by decide)
  cases m with
  | property name mods optionality t =>
    have ht := closed_preceded level ": " (t := t) (by decide) fun u hu => hc _ (by simp_all)
    exact ((((closed_modifiers mods).append (closed_propertyName hm)).append
      (closed_flag optionality "?" (by decide))).append ht).append hend
  | method name mods optionality tps ps result =>
    obtain ⟨_, h⟩ := ((((closed_modifiers mods).append (closed_propertyName hm)).append
      (closed_flag optionality "?" (by decide))).append (closed_signature level hc)).append hend
    exact ⟨_, h.of_chars (by simp [member, signature]) rfl⟩
  | call tps ps result =>
    obtain ⟨_, h⟩ := (closed_signature level hc).append hend
    exact ⟨_, h.of_chars (by simp [member, signature]) rfl⟩
  | construct tps ps result =>
    have hnew : Closed [.text "new "] := .text (by decide)
    obtain ⟨_, h⟩ := (hnew.append (closed_signature level hc)).append hend
    exact ⟨_, h.of_chars (by simp [member, signature]) rfl⟩
  | index mods ps t =>
    have hps : ∀ p ∈ ps, Reads (.parameter p) := fun p hp => hc _ (by simp [hp])
    have hps := (closed_parameters level hps).brackets
    have ht : Reads (.type t) := hc _ (by simp)
    obtain ⟨_, h⟩ := (((closed_modifiers mods).append ⟨_, hps⟩).append
      (.cons (s := ": ") (by decide) (ht.closed level))).append hend
    exact ⟨_, h.of_chars (by simp [member]) rfl⟩
  | initializer mods ps =>
    have hps : ∀ p ∈ ps, Reads (.parameter p) := fun p hp => hc _ (by simp [hp])
    have hps := (closed_parameters level hps).parens
    obtain ⟨_, h⟩ := ((closed_modifiers mods).append
      (.cons (s := "constructor") (by decide) ⟨_, hps⟩)).append hend
    exact ⟨_, h.of_chars (by simp [member]) rfl⟩
  | getter name mods t =>
    have ht := closed_preceded level ": " (t := t) (by decide) fun u hu => hc _ (by simp_all)
    obtain ⟨_, h⟩ := ((((closed_modifiers mods).append (.cons (s := "get ") (by decide)
      (closed_propertyName hm))).append ⟨_, Closed.nil.parens⟩).append ht).append hend
    exact ⟨_, h.of_chars (by simp [member]) rfl⟩
  | setter name mods ps =>
    have hps : ∀ p ∈ ps, Reads (.parameter p) := fun p hp => hc _ (by simp [hp])
    have hps := (closed_parameters level hps).parens
    obtain ⟨_, h⟩ := (((closed_modifiers mods).append (.cons (s := "set ") (by decide)
      (closed_propertyName hm))).append ⟨_, hps⟩).append hend
    exact ⟨_, h.of_chars (by simp [member]) rfl⟩

section Types

variable {tps : List TypeParameter} {ps : List Parameter} {result : TypeExpr}

theorem reads_function (htps : ∀ p ∈ tps, Reads (.typeParameter p))
    (hps : ∀ p ∈ ps, Reads (.parameter p)) (hresult : Reads (.type result)) :
    Reads (.type (.function tps ps result)) := fun level =>
  (((shows_typeParameters level htps).append (closed_parameters level hps).parens).append
    (Shows.arrow.append (hresult level))).of_chars (by simp [bare]) (by simp [face])

theorem reads_construct {isAbstract : Bool} (htps : ∀ p ∈ tps, Reads (.typeParameter p))
    (hps : ∀ p ∈ ps, Reads (.parameter p)) (hresult : Reads (.type result)) :
    Reads (.type (.construct isAbstract tps ps result)) := fun level => by
  have hnew : Shows (flag isAbstract "abstract " ++ [.text "new "])
      (flag isAbstract "abstract " ++ [.text "new "]) :=
    (shows_flag isAbstract (by decide)).append (.text (by decide))
  exact (hnew.append (((shows_typeParameters level htps).append
    (closed_parameters level hps).parens).append (Shows.arrow.append (hresult level)))).of_chars
    (by simp [bare]) (by simp [face])

theorem reads_importType {argument : String} {qualifier : Option Entity} {isTypeOf : Bool}
    {arguments : List TypeExpr} (hqualifier : ∀ s ∈ qualifier.elim [] Entity.segments, Plain s)
    (harguments : ∀ t ∈ arguments, Reads (.type t)) :
    Reads (.type (.importType argument qualifier arguments isTypeOf)) := fun level => by
  have hword : Shows (flag isTypeOf "typeof " ++ [.text "import"])
      (flag isTypeOf "typeof " ++ [.text "import"]) :=
    (shows_flag isTypeOf (by decide)).append (.text (by decide))
  cases qualifier with
  | none =>
    exact ((hword.append (closed_quoted argument).parens).append
      (shows_arguments level harguments)).of_chars (by simp [bare]) (by simp [face])
  | some q =>
    have hpath := Shows.cons (s := ".") (by decide) (shows_entity hqualifier)
    exact (((hword.append (closed_quoted argument).parens).append hpath).append
      (shows_arguments level harguments)).of_chars (by simp [bare]) (by simp [face])

theorem closed_sign (sign : Option MappedSign) (word : String) (h : Neutral word) :
    Closed (sign.elim [] fun s => [.text (s.text ++ word)]) := by
  cases sign with
  | none => exact .nil
  | some s =>
    have hs : Neutral s.text := by cases s <;> decide
    exact .text (hs.append h)

theorem reads_mapped {key : TypeParameter} {nameType target : Option TypeExpr}
    {readonly optionality : Option MappedSign} (hkey : Reads (.typeParameter key))
    (hname : ∀ t ∈ nameType, Reads (.type t)) (htarget : ∀ t ∈ target, Reads (.type t)) :
    Reads (.type (.mapped key nameType readonly optionality target)) := fun level => by
  obtain ⟨id, name, constraint, fallback, keywords⟩ := key
  obtain ⟨hn, hkey⟩ := hkey
  have hkeys : Closed (.text (name ++ " in ") :: preceded level "" constraint
      ++ preceded level " as " nameType) :=
    .append (.cons (hn.append (by decide)) (hkey level).2)
      (closed_preceded level " as " (by decide) hname)
  have hinner := ((((Closed.text (s := " ") (by decide)).append
    (closed_sign readonly "readonly " (by decide))).append ⟨_, hkeys.brackets⟩).append
    ((closed_sign optionality "?" (by decide)).append
      (closed_preceded level ": " (by decide) htarget))).append (.text (s := "; ") (by decide))
  exact hinner.braces.of_chars (by cases readonly <;> cases optionality <;> simp [bare]) rfl

theorem reads_template {head : String} {ss : List TemplateSpan} (hhead : Neutral head)
    (hspans : ∀ s ∈ ss, Reads (.span s)) : Reads (.type (.template head ss)) := fun level => by
  have hbody : ∀ opened,
      ∃ s, ReadsIn ('\x60' :: opened) (head.toList ++ chars (spans level ss)) s := by
    intro opened
    have ho : ('\x60' :: opened).head? ≠ some '"' := by simp
    obtain ⟨_, hs⟩ := shows_spans level ho hspans
    exact ⟨_, (ReadsIn.of_no_delimiter ho hhead).append hs⟩
  simpa [Shows, bare, face] using ReadsAs.backticks hbody

theorem reads_type {t : TypeExpr} (hp : (Part.type t).Plain)
    (hc : ∀ c ∈ (Part.type t).children, Reads c) : Reads (.type t) := by
  cases t with
  | function tps ps result =>
    exact reads_function (fun p hp => hc _ (by simp [hp])) (fun p hp => hc _ (by simp [hp]))
      (hc _ (by simp))
  | construct isAbstract tps ps result =>
    exact reads_construct (fun p hp => hc _ (by simp [hp])) (fun p hp => hc _ (by simp [hp]))
      (hc _ (by simp))
  | mapped key nameType readonly optionality target =>
    exact reads_mapped (hc _ List.mem_cons_self) (fun t ht => hc _ (by simp_all))
      fun t ht => hc _ (by simp_all)
  | importType argument qualifier arguments isTypeOf =>
    exact reads_importType hp fun t ht => hc _ (List.mem_map_of_mem ht)
  | template head ss =>
    exact reads_template (hp head List.mem_cons_self).neutral fun s hs =>
      hc _ (List.mem_map_of_mem hs)
  | keyword s | literal s => exact fun level => .text (hp s List.mem_cons_self).neutral
  | reference name arguments =>
    exact fun level => (shows_entity hp).append
      (shows_arguments level fun t ht => hc _ (List.mem_map_of_mem ht))
  | query name arguments =>
    exact fun level => (Shows.cons (by decide) (shows_entity hp)).append
      (shows_arguments level fun t ht => hc _ (List.mem_map_of_mem ht))
  | array e =>
    exact fun level => ((shows_enclosed .suffixed e (hc _ List.mem_cons_self level)).append
      Closed.nil.brackets).of_chars (by simp [bare]) (by simp [face])
  | indexed t index =>
    exact fun level => ((shows_enclosed .suffixed t (hc _ List.mem_cons_self level)).append
      (Reads.closed (hc (.type index) (by simp)) level).brackets).of_chars (by simp [bare])
      (by simp [face])
  | tuple es =>
    intro level
    have hes : ∀ g ∈ tupleElements level es, Closed g := by
      rw [tupleElements_eq]
      simpa using fun e he => hc (.element e) (List.mem_map_of_mem he) level
    exact (closed_separated (by decide) hes).brackets
  | union ts =>
    exact fun level => shows_separated level (by decide) _ fun t ht => hc _ (List.mem_map_of_mem ht)
  | intersection ts =>
    exact fun level => shows_separated level (by decide) _ fun t ht => hc _ (List.mem_map_of_mem ht)
  | object ms =>
    refine fun level => shows_block level ?_
    rw [members_eq]
    simpa using fun m hm => hc (.member m) (List.mem_map_of_mem hm) (level + 1)
  | operator op t =>
    have hop : Neutral (op.keyword ++ " ") := by cases op <;> decide
    exact fun level => .cons hop (shows_enclosed .unary t (hc _ List.mem_cons_self level))
  | conditional check bound onTrue onFalse =>
    have hcheck : Reads (.type check) := hc _ (by simp)
    have hbound : Reads (.type bound) := hc _ (by simp)
    have hTrue : Reads (.type onTrue) := hc _ (by simp)
    have hFalse : Reads (.type onFalse) := hc _ (by simp)
    exact fun level => (((shows_enclosed .union check (hcheck level)).append
      (.cons (s := " extends ") (by decide) (shows_enclosed .union bound (hbound level)))).append
      ((Shows.cons (s := " ? ") (by decide) (hTrue level)).append
        (.cons (s := " : ") (by decide) (hFalse level)))).of_chars (by simp [bare]) (by simp [face])
  | infer p =>
    exact fun level => .cons (by decide) ((hc (.typeParameter p) List.mem_cons_self).2 level).1
  | predicate asserts parameter target =>
    have hparameter : Neutral parameter := (hp parameter List.mem_cons_self).neutral
    exact fun level => (shows_flag asserts (by decide)).append (.cons hparameter
      (shows_preceded level " is " (.text (by decide)) fun t ht => hc _ (by simp_all)))
  | parenthesized t => exact fun level => (Reads.closed (hc _ List.mem_cons_self) level).parens
  | verbatim ts => exact fun level => shows_tokens hp

theorem reads_span {s : TemplateSpan} (hs : (Part.span s).Plain)
    (hc : ∀ c ∈ (Part.span s).children, Reads c) : Reads (.span s) :=
  ⟨(hs s.literal List.mem_cons_self).neutral, Reads.closed (hc _ List.mem_cons_self)⟩

end Types

/-- A node with plain leaf texts closes all it opens, and a type shows its face outside brackets. -/
theorem reads_of_plain (p : Part) (h : p.Throughout Part.Plain) : Reads p :=
  Part.Throughout.induction (fun p hp hc => by
    cases p with
    | type t => exact reads_type hp hc
    | typeParameter p => exact reads_typeParameter hp hc
    | parameter p => exact reads_parameter hp hc
    | element e => exact reads_element hp hc
    | span s => exact reads_span hp hc
    | member m => exact reads_member hp hc
    | _ => trivial) p h

end Print

end DeclBundle
