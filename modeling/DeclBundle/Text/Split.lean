/-!
# Cutting text at a character

`splitAt` cuts a text at every occurrence of one character and `joinWith` puts the pieces back. The
work is done on lists of characters, where both are one recursion.
-/

namespace DeclBundle.Text

/-- The pieces between the characters that satisfy `cut`; there is always one more piece than
there are cuts. -/
def splitChars (cut : Char → Bool) : List Char → List (List Char)
  | [] => [[]]
  | c :: rest =>
    if cut c then [] :: splitChars cut rest
    else
      match splitChars cut rest with
      | [] => [[c]]
      | piece :: pieces => (c :: piece) :: pieces

/-- The pieces of `s` between the characters that satisfy `cut`. -/
def splitWhere (cut : Char → Bool) (s : String) : List String :=
  (splitChars cut s.toList).map String.ofList

/-- The pieces of `s` between the occurrences of `sep`. -/
def splitAt (sep : Char) (s : String) : List String :=
  splitWhere (· == sep) s

/-- The pieces with `sep` between neighbours. -/
def joinWith (sep : String) : List String → String
  | [] => ""
  | [piece] => piece
  | piece :: next :: rest => piece ++ sep ++ joinWith sep (next :: rest)

theorem splitChars_ne_nil (cut : Char → Bool) (cs : List Char) : splitChars cut cs ≠ [] := by
  cases cs with
  | nil => simp [splitChars]
  | cons c rest =>
    simp only [splitChars]
    split
    · simp
    · split <;> simp

theorem cut_eq_false_of_mem_splitChars {cut : Char → Bool} :
    ∀ {cs piece : List Char}, piece ∈ splitChars cut cs → ∀ c ∈ piece, cut c = false
  | [], piece, h, c, hc => by
    simp only [splitChars, List.mem_singleton] at h
    simp [h] at hc
  | d :: rest, piece, h, c, hc => by
    have ih := @cut_eq_false_of_mem_splitChars cut rest
    simp only [splitChars] at h
    split at h
    · rcases List.mem_cons.1 h with rfl | h
      · simp at hc
      · exact ih h c hc
    · rename_i hd
      split at h
      · simp only [List.mem_singleton] at h
        subst h
        simp only [List.mem_singleton] at hc
        simpa [hc] using hd
      · rename_i p ps hp
        rcases List.mem_cons.1 h with rfl | h
        · rcases List.mem_cons.1 hc with rfl | hc
          · simpa using hd
          · exact ih (by rw [hp]; exact List.mem_cons_self) c hc
        · exact ih (by rw [hp]; exact List.mem_cons_of_mem _ h) c hc

theorem splitChars_of_no_cut {cut : Char → Bool} :
    ∀ {cs : List Char}, (∀ c ∈ cs, cut c = false) → splitChars cut cs = [cs]
  | [], _ => rfl
  | c :: rest, h => by
    have hc := h c List.mem_cons_self
    have ih := splitChars_of_no_cut fun d hd => h d (List.mem_cons_of_mem _ hd)
    simp [splitChars, hc, ih]

/-- A piece, a cut and a text: the piece comes first, then the pieces of the text. -/
theorem splitChars_append_cons {cut : Char → Bool} {sep : Char} (hs : cut sep = true)
    (rest : List Char) :
    ∀ {piece : List Char}, (∀ c ∈ piece, cut c = false) →
      splitChars cut (piece ++ sep :: rest) = piece :: splitChars cut rest
  | [], _ => by simp [splitChars, hs]
  | c :: piece, h => by
    have hc := h c List.mem_cons_self
    have ih := splitChars_append_cons hs rest fun d hd => h d (List.mem_cons_of_mem _ hd)
    simp [splitChars, hc, ih]

/-- Text without a cut in front goes to the first piece. -/
theorem splitChars_append {cut : Char → Bool} {cs p : List Char} {ps : List (List Char)}
    (h : splitChars cut cs = p :: ps) : ∀ {s : List Char}, (∀ c ∈ s, cut c = false) →
      splitChars cut (s ++ cs) = (s ++ p) :: ps
  | [], _ => h
  | c :: s, hs => by
    have hc := hs c List.mem_cons_self
    have ih := splitChars_append h fun d hd => hs d (List.mem_cons_of_mem _ hd)
    simp [splitChars, hc, ih]

theorem joinWith_cons {sep piece : String} {pieces : List String} (h : pieces ≠ []) :
    joinWith sep (piece :: pieces) = piece ++ sep ++ joinWith sep pieces := by
  cases pieces with
  | nil => exact absurd rfl h
  | cons next rest => rfl

/-- The pieces between the occurrences of a character, put together again. -/
theorem joinWith_splitChars (sep : Char) (cs : List Char) :
    joinWith (String.singleton sep) ((splitChars (· == sep) cs).map String.ofList)
      = String.ofList cs := by
  induction cs with
  | nil => simp [splitChars, joinWith]
  | cons c rest ih =>
    have hne := splitChars_ne_nil (· == sep) rest
    by_cases hc : c = sep
    · subst hc
      have hne' : (splitChars (· == c) rest).map String.ofList ≠ [] := by simpa using hne
      simp only [splitChars, beq_self_eq_true, if_true, List.map_cons, joinWith_cons hne', ih]
      simp
    · have hb : (c == sep) = false := by simpa using hc
      cases hs : splitChars (· == sep) rest with
      | nil => exact absurd hs hne
      | cons piece pieces =>
        rw [hs] at ih
        simp only [splitChars, hb, Bool.false_eq_true, if_false, hs, List.map_cons]
        cases pieces with
        | nil => simp_all [joinWith, ← String.toList_inj]
        | cons next more => simp_all [joinWith, ← String.toList_inj]

/-- A text cut at a character and put together again is the same. -/
theorem joinWith_splitAt (sep : Char) (s : String) :
    joinWith (String.singleton sep) (splitAt sep s) = s := by
  rw [splitAt, splitWhere, joinWith_splitChars, String.ofList_toList]

end DeclBundle.Text
