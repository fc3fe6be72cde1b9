import DeclBundle.Text.Quoted

/-!
# Text outside brackets

`Text.outside` reads a text from the left with a stack of the pairs that are open and keeps the
characters outside every pair of parentheses, brackets, braces, angle brackets, backticks and double
quotes; of an outermost pair it keeps the character that opens it. The second character of `=>`
closes nothing, and neither does a quote with a backslash in front inside double quotes.

A text that closes all it opens and nothing else (`Text.ReadsAs`) is read on its own wherever it
stands, so what a text shows outside is put together from what its parts show.
-/

namespace DeclBundle.Text

/-- The character that closes what `c` opens. -/
def closing : Char → Option Char
  | '(' => some ')'
  | '[' => some ']'
  | '\x7b' => some '\x7d'
  | '<' => some '>'
  | '\x60' => some '\x60'
  | '"' => some '"'
  | _ => none

/-- Text that is kept outside all pairs only. -/
def keep (opened s : List Char) : List Char := if opened.isEmpty then s else []

/-- The characters outside brackets, read with the pairs `opened`, innermost first. `marked` is set
after a character that can take the next one its meaning: the first of `=>`, or a backslash in
double quotes. -/
def outside (opened : List Char) (marked : Bool) : List Char → List Char
  | [] => []
  | c :: cs =>
    if opened.head? = some '"' then
      if marked then outside opened false cs
      else if c = '"' then outside opened.tail false cs
      else outside opened (c = '\\') cs
    else if opened.head?.bind closing = some c ∧ ¬ (marked ∧ c = '>') then
      outside opened.tail false cs
    else
      keep opened [c]
        ++ outside (if (closing c).isSome then c :: opened else opened) (c = '=') cs

/-- The characters of a text outside all its brackets. -/
def outer (s : String) : List Char := outside [] false s.toList

example : outer "Map<string, () => A>[] | \x7b a: A | B \x7d" = "Map<[ | \x7b".toList := by decide

theorem keep_append (opened s t : List Char) :
    keep opened (s ++ t) = keep opened s ++ keep opened t := by
  unfold keep
  split <;> simp

@[simp] theorem keep_cons (o : Char) (opened s : List Char) : keep (o :: opened) s = [] := rfl

/-! ## Texts that are read on their own -/

/-- With the pairs `opened`, the text `cs` is read as `s`, whatever comes after it. -/
def ReadsIn (opened cs s : List Char) : Prop :=
  ∀ rest, outside opened false (cs ++ rest) = keep opened s ++ outside opened false rest

/-- Neither in double quotes nor in backticks, where nothing or not everything opens a pair. -/
def Nests (opened : List Char) : Prop :=
  opened.head? ≠ some '"' ∧ opened.head? ≠ some '\x60'

/-- The text `cs` closes all it opens and shows `s` outside. -/
def ReadsAs (cs s : List Char) : Prop := ∀ opened, Nests opened → ReadsIn opened cs s

section

variable {opened cs cs' s s' : List Char}

theorem ReadsIn.append (h : ReadsIn opened cs s) (h' : ReadsIn opened cs' s') :
    ReadsIn opened (cs ++ cs') (s ++ s') := fun rest => by
  rw [List.append_assoc, h, h', keep_append, List.append_assoc]

theorem ReadsIn.nil : ReadsIn opened [] [] := fun rest => by
  simp [keep]

theorem ReadsAs.nil : ReadsAs [] [] := fun _ _ => .nil

theorem ReadsAs.append (h : ReadsAs cs s) (h' : ReadsAs cs' s') : ReadsAs (cs ++ cs') (s ++ s') :=
  fun opened ho => (h opened ho).append (h' opened ho)

theorem ReadsAs.outside_eq (h : ReadsAs cs s) : outside [] false cs = s := by
  have := h [] (by simp [Nests]) []
  simpa [outside, keep] using this

/-- The characters that open or close a pair, and the first one of an arrow. -/
def delimiters : List Char :=
  ['(', ')', '[', ']', '\x7b', '\x7d', '<', '>', '\x60', '"', '=']

theorem closing_eq_none {c : Char} (hc : c ∉ delimiters) : closing c = none := by
  unfold closing
  split <;> simp_all [delimiters]

/-- The characters that close a pair. -/
theorem mem_of_bind_closing {c : Char} (h : opened.head?.bind closing = some c) :
    c ∈ [')', ']', '\x7d', '>', '\x60', '"'] := by
  obtain ⟨o, -, h⟩ := Option.bind_eq_some_iff.1 h
  unfold closing at h
  split at h <;> cases h <;> decide

/-- One character that closes nothing. -/
theorem outside_cons {c : Char} {marked : Bool} (ho : opened.head? ≠ some '"')
    (hc : opened.head?.bind closing ≠ some c) : outside opened marked (c :: cs)
      = keep opened [c]
        ++ outside (if (closing c).isSome then c :: opened else opened) (c = '=') cs := by
  rw [outside, if_neg ho, if_neg fun h => hc h.1]

theorem ReadsIn.of_no_delimiter (ho : opened.head? ≠ some '"') :
    ∀ {cs : List Char}, (∀ c ∈ cs, c ∉ delimiters) → ReadsIn opened cs cs
  | [], _ => .nil
  | c :: cs, h => by
    have hc := h c List.mem_cons_self
    have hclose : opened.head?.bind closing ≠ some c := fun hb => by
      have := mem_of_bind_closing hb
      simp_all [delimiters]
    have heq : c ≠ '=' := by
      rintro rfl
      simp [delimiters] at hc
    have hone : ReadsIn opened [c] [c] := fun rest => by
      rw [List.singleton_append, outside_cons ho hclose, closing_eq_none hc]
      simp [heq]
    exact hone.append (of_no_delimiter ho fun d hd => h d (List.mem_cons_of_mem _ hd))

theorem ReadsAs.of_no_delimiter (h : ∀ c ∈ cs, c ∉ delimiters) : ReadsAs cs cs :=
  fun _ ho => .of_no_delimiter ho.1 h

/-- The second character of an arrow closes no angle bracket. -/
theorem ReadsAs.arrow : ReadsAs ['=', '>'] ['=', '>'] := by
  rintro opened ⟨ho, -⟩ rest
  have heq : opened.head?.bind closing ≠ some '=' := fun h => by
    simpa using mem_of_bind_closing h
  have hsecond : outside opened true ('>' :: rest)
      = keep opened ['>'] ++ outside opened false rest := by
    simp [outside, ho, closing]
  rw [List.cons_append, outside_cons ho heq]
  refine (congrArg (keep opened ['='] ++ ·) hsecond).trans ?_
  rw [← List.append_assoc, ← keep_append]
  rfl

theorem ReadsAs.equals : ReadsAs ['=', ' '] ['=', ' '] := by
  rintro opened ⟨ho, -⟩ rest
  have hclose : ∀ c, c = ' ' ∨ c = '=' → opened.head?.bind closing ≠ some c := by
    rintro _ (rfl | rfl) h <;> simpa using mem_of_bind_closing h
  rw [List.cons_append, List.cons_append, outside_cons ho (hclose _ (.inr rfl)), if_neg (by decide),
    outside_cons ho (hclose _ (.inl rfl)), if_neg (by decide), ← List.append_assoc, ← keep_append]
  rfl

/-- Nothing is kept of what stands in a pair. -/
theorem ReadsIn.pair {o c : Char} (ho : opened.head? ≠ some '"') (hc : closing o = some c)
    (hq : o ≠ '"') (hopen : opened.head?.bind closing ≠ some o) (h : ReadsIn (o :: opened) cs s) :
    ReadsIn opened (o :: cs ++ [c]) [o] := fun rest => by
  have heq : o ≠ '=' := by
    rintro rfl
    simp [closing] at hc
  have hinner : outside (o :: opened) false (c :: rest) = outside opened false rest := by
    simp [outside, hq, hc]
  rw [List.append_assoc, List.cons_append, outside_cons ho hopen, hc, Option.isSome_some,
    if_pos rfl, decide_eq_false heq, h, keep_cons, List.nil_append, List.singleton_append, hinner]

/-- The pairs in which everything opens pairs of its own. -/
def nestings : List (Char × Char) := [('(', ')'), ('[', ']'), ('\x7b', '\x7d'), ('<', '>')]

theorem ReadsIn.nest {o c : Char} (hp : (o, c) ∈ nestings) (ho : opened.head? ≠ some '"')
    (h : ReadsAs cs s) : ReadsIn opened (o :: cs ++ [c]) [o] := by
  have hall : ∀ p ∈ nestings, closing p.1 = some p.2 ∧ p.1 ≠ '"' ∧ p.1 ≠ '\x60'
      ∧ p.1 ∉ [')', ']', '\x7d', '>', '\x60', '"'] := by decide
  obtain ⟨hc, hq, ht, hn⟩ := hall _ hp
  exact .pair ho hc hq (fun hb => hn (mem_of_bind_closing hb)) (h _ ⟨by simpa, by simpa⟩)

theorem ReadsAs.nest {o c : Char} (hp : (o, c) ∈ nestings) (h : ReadsAs cs s) :
    ReadsAs (o :: cs ++ [c]) [o] := fun _ ho => .nest hp ho.1 h

/-- In backticks, what is read between their own is read with them open. -/
theorem ReadsAs.backticks (h : ∀ opened, ∃ s, ReadsIn ('\x60' :: opened) cs s) :
    ReadsAs ('\x60' :: cs ++ ['\x60']) ['\x60'] := by
  intro opened ho
  obtain ⟨_, hs⟩ := h opened
  refine .pair ho.1 rfl (by decide) (fun hb => ?_) hs
  obtain ⟨o, hs, hb⟩ := Option.bind_eq_some_iff.1 hb
  unfold closing at hb
  split at hb <;> cases hb
  exact ho.2 hs

theorem outside_escapeChars (rest : List Char) : ∀ cs : List Char,
    outside ('"' :: opened) false (escapeChars cs ++ '"' :: rest) = outside opened false rest
  | [] => by simp [escapeChars, outside]
  | c :: cs => by
    have ih := outside_escapeChars rest cs
    rw [escapeChars]
    split
    · simpa [outside] using ih
    · rename_i h
      obtain ⟨hb, hq⟩ := not_or.1 h
      simpa [outside, hb, hq] using ih

/-- Double-quoted text ends where it was meant to, whatever it quotes. -/
theorem ReadsAs.quote (t : String) : ReadsAs (quote t).toList ['"'] := by
  intro opened ho rest
  have hopen : opened.head?.bind closing ≠ some '"' := fun hb => by
    obtain ⟨o, hs, hb⟩ := Option.bind_eq_some_iff.1 hb
    unfold closing at hb
    split at hb <;> cases hb
    exact ho.1 hs
  rw [Text.quote, String.toList_ofList, List.append_assoc, List.cons_append,
    outside_cons ho.1 hopen]
  exact congrArg (keep opened ['"'] ++ ·) (outside_escapeChars rest t.toList)

end

end DeclBundle.Text
