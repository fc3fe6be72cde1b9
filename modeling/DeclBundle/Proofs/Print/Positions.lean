import DeclBundle.Print.Statement
import DeclBundle.Proofs.SourceMap.Mappings
import DeclBundle.Tree.Build
import Mathlib.Data.List.Forall2

/-!
# Places in a printed file

The place at the end of a text is counted character by character (`Text.endPlace`). The writer counts
along with what it writes, in 32 bits, but not the line breaks that it is handed as plain text
(`Writer.Counts.putAll`). A file gives every statement a line of its own, so its map has one mapping
for each statement with an origin and a position, in order. While the file has fewer than 2³² lines,
the mapping is at the place of the statement exactly if no break came as plain text before
(`Print.run_mappings`).
-/

namespace DeclBundle

namespace Text

/-- The place after one more character. -/
def advance (p : Position) (c : Char) : Position :=
  if c = '\n' then ⟨p.line + 1, 0⟩ else ⟨p.line, p.column + charUnits c⟩

/-- The place at the end of a text, columns in UTF-16 units. -/
def endPlace (s : String) : Position := s.toList.foldl advance ⟨0, 0⟩

/-- How many lines end in a text. -/
def breaks (s : String) : Nat := s.toList.count '\n'

theorem line_foldl_advance : ∀ (cs : List Char) (p : Position),
    (cs.foldl advance p).line = p.line + cs.count '\n'
  | [], p => by simp
  | c :: cs, p => by
    rw [List.foldl_cons, line_foldl_advance cs, List.count_cons, advance]
    by_cases hc : c = '\n'
    · simp only [hc, if_true, beq_self_eq_true]
      omega
    · simp [hc]

theorem line_endPlace (s : String) : (endPlace s).line = breaks s := by
  rw [endPlace, line_foldl_advance, Nat.zero_add]
  rfl

theorem breaks_append (s t : String) : breaks (s ++ t) = breaks s + breaks t := by
  simp [breaks]

theorem endPlace_append_newline (s : String) :
    endPlace (s ++ "\n") = ⟨(endPlace s).line + 1, 0⟩ := by
  rw [endPlace, String.toList_append, List.foldl_append]
  rfl

end Text

namespace Piece

/-- The characters of a piece that is taken to lie on one line. -/
def plain : Piece → List Char
  | .text s => s.toList
  | .newline | .lines _ => []

/-- The line breaks among pieces that come as plain text. -/
def hiddenBreaks (ps : List Piece) : Nat := (ps.flatMap plain).count '\n'

/-- The characters of a piece that may end lines. -/
def broken : Piece → List Char
  | .text _ => []
  | .newline => ['\n']
  | .lines s => s.toList

/-- The line breaks among pieces that the writer counts. -/
def countedBreaks (ps : List Piece) : Nat := (ps.flatMap broken).count '\n'

/-- What pieces are one after the other. -/
def contents (ps : List Piece) : String := String.join (ps.map content)

@[simp] theorem hiddenBreaks_append (ps ps' : List Piece) :
    hiddenBreaks (ps ++ ps') = hiddenBreaks ps + hiddenBreaks ps' := by
  simp [hiddenBreaks]

@[simp] theorem countedBreaks_append (ps ps' : List Piece) :
    countedBreaks (ps ++ ps') = countedBreaks ps + countedBreaks ps' := by
  simp [countedBreaks]

/-- A line break is counted, or it came as plain text. -/
theorem breaks_contents (ps : List Piece) :
    Text.breaks (contents ps) = countedBreaks ps + hiddenBreaks ps := by
  induction ps with
  | nil => rfl
  | cons p ps ih =>
    have hp : Text.breaks p.content = p.broken.count '\n' + p.plain.count '\n' := by
      cases p with
      | text s => exact (Nat.zero_add _).symm
      | newline => rfl
      | lines s => rfl
    have hcons : contents (p :: ps) = p.content ++ contents ps := by simp [contents]
    rw [hcons, Text.breaks_append, hp, ih]
    simp only [countedBreaks, hiddenBreaks, List.flatMap_cons, List.count_append]
    omega

theorem hiddenBreaks_eq_zero {ps : List Piece} :
    hiddenBreaks ps = 0 ↔ ∀ s, .text s ∈ ps → '\n' ∉ s.toList := by
  rw [hiddenBreaks, List.count_eq_zero, List.mem_flatMap]
  constructor
  · exact fun h s hs hn => h ⟨_, hs, hn⟩
  · rintro h ⟨p, hp, hn⟩
    cases p with
    | text s => exact h s hp hn
    | newline => cases hn
    | lines s => cases hn

/-- The pieces leave the writer at the start of a line if it was there. -/
def EndsLine (ps : List Piece) : Prop := ps = [] ∨ ∃ ps', ps = ps' ++ [.newline]

theorem EndsLine.append {ps ps' : List Piece} (h : EndsLine ps) (h' : EndsLine ps') :
    EndsLine (ps ++ ps') := by
  rcases h' with rfl | ⟨ps', rfl⟩
  · rwa [List.append_nil]
  · exact .inr ⟨ps ++ ps', by rw [List.append_assoc]⟩

theorem EndsLine.flatMap {f : α → List Piece} : ∀ {xs : List α}, (∀ x ∈ xs, EndsLine (f x)) →
    EndsLine (xs.flatMap f)
  | [], _ => .inl rfl
  | x :: xs, h => by
    rw [List.flatMap_cons]
    exact (h x List.mem_cons_self).append (.flatMap fun y hy => h y (List.mem_cons_of_mem _ hy))

end Piece

namespace Writer

variable {w : Writer} {before : List Piece}

/-! ## Text over several lines -/

/-- Writes one character, which may end the line. -/
def writeChar (w : Writer) (c : Char) : Writer :=
  if c = '\n' then w.endLine else w.write (String.singleton c)

theorem write_append (w : Writer) (s t : String) : w.write (s ++ t) = (w.write s).write t := by
  simp [write, String.append_assoc, Nat.add_assoc]

/-- Writing nothing only takes the column back to 32 bits, where it is once anything is written. -/
theorem write_empty_writeChar (w : Writer) (c : Char) :
    (w.writeChar c).write "" = w.writeChar c := by
  unfold writeChar
  split
  · simp [write, endLine, Text.units, Text.listUnits, word]
  · rw [← write_append, String.append_empty]

/-- Writes the first of some lines, and then the others. -/
def writeLines (w : Writer) : List String → Writer
  | [] => w
  | first :: rest => (w.write first).writeFurther rest

theorem writeLines_splitChars : ∀ (cs : List Char) (w : Writer),
    w.writeLines ((Text.splitChars (· == '\n') cs).map String.ofList)
      = cs.foldl writeChar (w.write "")
  | [], w => by simp [Text.splitChars, writeLines, writeFurther]
  | c :: cs, w => by
    obtain ⟨p, ps, hp⟩ := List.exists_cons_of_ne_nil (Text.splitChars_ne_nil (· == '\n') cs)
    have ih := writeLines_splitChars cs ((w.write "").writeChar c)
    rw [hp, write_empty_writeChar] at ih
    rw [List.foldl_cons, ← ih]
    by_cases hc : c = '\n'
    · simp [Text.splitChars, hc, hp, writeLines, writeFurther, writeChar]
    · have hcons : String.ofList (c :: p) = String.singleton c ++ String.ofList p := by
        simp
      simp [Text.splitChars, hc, hp, writeLines, writeChar, hcons, ← write_append]

theorem writeText_eq (w : Writer) (s : String) :
    w.writeText s = s.toList.foldl writeChar (w.write "") :=
  writeLines_splitChars s.toList w

theorem foldl_writeChar : ∀ (cs : List Char) (w : Writer),
    (cs.foldl writeChar w).output = w.output ++ String.ofList cs
      ∧ (cs.foldl writeChar w).map = w.map
  | [], w => by simp
  | c :: cs, w => by
    obtain ⟨ho, hm⟩ := foldl_writeChar cs (w.writeChar c)
    rw [List.foldl_cons, ho, hm]
    by_cases hc : c = '\n'
    · simp [hc, writeChar, endLine, ← String.toList_inj]
    · simp [writeChar, write, hc, ← String.toList_inj]

theorem line_foldl_writeChar : ∀ (cs : List Char) {w : Writer} {k : Nat}, w.line = word k →
    (cs.foldl writeChar w).line = word (k + cs.count '\n')
  | [], _, _, h => h
  | c :: cs, w, k, h => by
    by_cases hc : c = '\n'
    · have hnext : (w.writeChar c).line = word (k + 1) := by
        rw [writeChar, if_pos hc, endLine, h, word_word_add]
      rw [List.foldl_cons, line_foldl_writeChar cs hnext, hc, List.count_cons_self, Nat.add_assoc,
        Nat.add_comm 1]
    · have hnext : (w.writeChar c).line = word k := by rw [writeChar, if_neg hc, write, h]
      rw [List.foldl_cons, line_foldl_writeChar cs hnext, List.count_cons_of_ne hc]

/-! ## Counting along -/

/-- The writer has written the pieces and has counted the breaks among them that did not come as
plain text. -/
structure Counts (w : Writer) (before : List Piece) : Prop where
  output : w.output = Piece.contents before
  line : w.line = word (Piece.countedBreaks before)

theorem Counts.put (h : w.Counts before) (p : Piece) : (w.put p).Counts (before ++ [p]) := by
  have hcontents : Piece.contents (before ++ [p]) = w.output ++ p.content := by
    simp [h.output, Piece.contents]
  have hbreaks : Piece.countedBreaks (before ++ [p])
      = Piece.countedBreaks before + p.broken.count '\n' := by
    simp [Piece.countedBreaks]
  refine ⟨?_, ?_⟩
  · rw [hcontents]
    cases p with
    | text s => rfl
    | newline => rfl
    | lines s =>
      rw [Writer.put, writeText_eq, (foldl_writeChar _ _).1, String.ofList_toList, write,
        String.append_empty]
      rfl
  · rw [hbreaks]
    cases p with
    | text s => exact h.line
    | newline =>
      rw [Writer.put, endLine, h.line, word_word_add]
      rfl
    | lines s =>
      have hstart : (w.write "").line = word (Piece.countedBreaks before) := h.line
      rw [Writer.put, writeText_eq, line_foldl_writeChar _ hstart]
      rfl

theorem Counts.putAll : ∀ (ps : List Piece) {before : List Piece} {w : Writer}, w.Counts before →
    (w.putAll ps).Counts (before ++ ps)
  | [], before, _, h => by simpa [Writer.putAll] using h
  | p :: ps, before, _, h => by
    have ih := putAll ps (h.put p)
    rwa [List.append_assoc, List.singleton_append] at ih

theorem map_putAll : ∀ (ps : List Piece) (w : Writer), (w.putAll ps).map = w.map
  | [], _ => rfl
  | p :: ps, w => by
    rw [putAll, List.foldl_cons, ← putAll, map_putAll ps]
    cases p with
    | text s => rfl
    | newline => rfl
    | lines s =>
      rw [put, writeText_eq, (foldl_writeChar _ _).2]
      rfl

/-- The writer has written the pieces and is at the start of a line. -/
structure AtLine (w : Writer) (before : List Piece) : Prop extends w.Counts before where
  column : w.column = 0
  start : (Text.endPlace w.output).column = 0

theorem atLine_endLine (h : w.Counts before) : w.endLine.AtLine (before ++ [.newline]) where
  toCounts := h.put .newline
  column := rfl
  start := by rw [endLine, Text.endPlace_append_newline]

theorem AtLine.putAll {ps : List Piece} (h : w.AtLine before) (he : Piece.EndsLine ps) :
    (w.putAll ps).AtLine (before ++ ps) := by
  rcases he with rfl | ⟨ps, rfl⟩
  · rwa [List.append_nil]
  · have hend := atLine_endLine (h.toCounts.putAll ps)
    rw [List.append_assoc] at hend
    simpa [Writer.putAll, Writer.put] using hend

theorem AtLine.markOrigin (h : w.AtLine before) (source : String) (pos : Position) :
    (w.markOrigin source pos).AtLine before := by
  unfold Writer.markOrigin
  split
  · exact h
  · exact ⟨⟨h.output, h.line⟩, h.column, h.start⟩

end Writer

namespace Print

/-- The pieces of a statement of a file and the end of its line. -/
def placed (s : PlacedStatement) : List Piece := statement 0 false s.statement ++ [.newline]

/-- A statement with an origin and a position, and all that its file writes before it. -/
structure MappedStatement where
  before : List Piece
  origin : String
  pos : Position
  statement : Statement

/-- Where a statement came from, if its origin and its position are known. -/
def source? (s : PlacedStatement) : Option (String × Position) := do return (← s.origin, ← s.pos)

/-- The statements that are mapped when they are written after some pieces. -/
def mappedFrom (before : List Piece) : List PlacedStatement → List MappedStatement
  | [] => []
  | s :: ss =>
    match source? s with
    | some (origin, pos) =>
      ⟨before, origin, pos, s.statement⟩ :: mappedFrom (before ++ placed s) ss
    | none => mappedFrom (before ++ placed s) ss

/-- The statements of a file that are mapped. -/
def mapped (f : OutputFile) : List MappedStatement :=
  mappedFrom (f.imports.flatMap libraryImport) f.statements

/-- A mapping that was recorded for a statement, with numbers of 32 bits. -/
structure Recorded (sources : List String) (mp : Mapping) (s : MappedStatement) : Prop where
  source : SourceMap.Names sources mp.source s.origin
  sourcePlace : (⟨mp.sourceLine, mp.sourceColumn⟩ : Position) = s.pos
  /-- The breaks that the writer has counted before. -/
  line : mp.line = word (Piece.countedBreaks s.before)
  column : mp.column = (Text.endPlace (Piece.contents s.before)).column

theorem Recorded.mono {sources sources' : List String} {mp : Mapping} {s : MappedStatement}
    (h : Recorded sources mp s) (hs : sources <+: sources') : Recorded sources' mp s :=
  ⟨h.source.mono hs, h.sourcePlace, h.line, h.column⟩

/-- A mapping of a statement, by the sources of its map. -/
structure Records (sources : List String) (mp : Mapping) (s : MappedStatement) : Prop where
  source : sources[mp.source]? = some s.origin
  sourcePlace : (⟨mp.sourceLine, mp.sourceColumn⟩ : Position) = s.pos
  /-- Breaks that came as plain text are missing in the line. -/
  line : mp.line + Piece.hiddenBreaks s.before = (Text.endPlace (Piece.contents s.before)).line
  column : mp.column = (Text.endPlace (Piece.contents s.before)).column

/-- What was recorded is as it should be where 32 bits are enough. -/
theorem Recorded.records {sources : List String} {mp : Mapping} {s : MappedStatement}
    (h : Recorded sources mp s) (hs : sources.length ≤ UInt32.size)
    (hl : Piece.countedBreaks s.before < UInt32.size) : Records sources mp s where
  source := h.source.getElem? hs
  sourcePlace := h.sourcePlace
  line := by rw [h.line, word_of_lt hl, Text.line_endPlace, Piece.breaks_contents]
  column := h.column

/-- What a stretch of mapped statements does to the map. -/
structure Extends (m m' : SourceMap) (mps : List Mapping) : Prop where
  sources : m.sources <+: m'.sources
  length_sources : m'.sources.length ≤ m.sources.length + mps.length
  mappings : m'.mappings = m.mappings ++ mps

theorem Extends.append {m m' m'' : SourceMap} {mps mps' : List Mapping} (h : Extends m m' mps)
    (h' : Extends m' m'' mps') : Extends m m'' (mps ++ mps') where
  sources := h.sources.trans h'.sources
  length_sources := by
    have hl := h.length_sources
    have hl' := h'.length_sources
    rw [List.length_append]
    omega
  mappings := by rw [h'.mappings, h.mappings, List.append_assoc]

/-- The writer with the current place marked as where a statement came from. -/
def marked (w : Writer) (s : PlacedStatement) : Writer :=
  match source? s with
  | some (origin, pos) => w.markOrigin origin pos
  | none => w

theorem placedStatement_eq (w : Writer) (s : PlacedStatement) :
    placedStatement w s = ((marked w s).putAll (statement 0 false s.statement)).endLine := by
  unfold placedStatement marked source?
  cases s.origin with
  | none => rfl
  | some origin => cases s.pos <;> rfl

variable {w : Writer} {before : List Piece} {m : SourceMap} (s : PlacedStatement)

theorem atLine_placedStatement (h : w.AtLine before) :
    (placedStatement w s).AtLine (before ++ placed s) := by
  have hm : (marked w s).AtLine before := by
    unfold marked
    split
    · exact h.markOrigin _ _
    · exact h
  have hend := Writer.atLine_endLine (hm.toCounts.putAll (statement 0 false s.statement))
  rwa [List.append_assoc, ← placedStatement_eq] at hend

theorem map_placedStatement (w : Writer) : (placedStatement w s).map = (marked w s).map := by
  rw [placedStatement_eq]
  exact Writer.map_putAll _ _

theorem isSome_map_marked (w : Writer) : (marked w s).map.isSome = w.map.isSome := by
  unfold marked
  split
  · cases hm : w.map <;> simp [Writer.markOrigin, hm]
  · rfl

/-- A statement that is mapped takes one mapping. -/
theorem map_marked {origin : String} {pos : Position} (h : w.AtLine before) (hm : w.map = some m)
    (hs : source? s = some (origin, pos)) :
    ∃ m' mp, (marked w s).map = some m' ∧ Extends m m' [mp]
      ∧ Recorded m'.sources mp ⟨before, origin, pos, s.statement⟩ := by
  obtain ⟨hindex, hsources, hmappings⟩ := m.register_spec origin
  let mp : Mapping := ⟨w.line, w.column, (m.register origin).1, pos.line, pos.column⟩
  refine ⟨(m.register origin).2.record mp, mp, ?_, ⟨hsources, m.length_register origin, ?_⟩,
    hindex, rfl, h.line, ?_⟩
  · simp [marked, hs, Writer.markOrigin, hm, mp]
  · rw [SourceMap.record, hmappings]
  · rw [← h.output, h.start]
    exact h.column

theorem foldl_placedStatement : ∀ (ss : List PlacedStatement) {w : Writer} {before : List Piece}
    {m : SourceMap}, w.AtLine before → w.map = some m →
      (ss.foldl placedStatement w).AtLine (before ++ ss.flatMap placed)
        ∧ ∃ m' mps, (ss.foldl placedStatement w).map = some m' ∧ Extends m m' mps
          ∧ List.Forall₂ (Recorded m'.sources) mps (mappedFrom before ss)
  | [], w, before, m, h, hm =>
    ⟨by simpa using h, m, [], hm, ⟨List.prefix_refl _, Nat.le_refl _, by simp⟩, List.Forall₂.nil⟩
  | s :: ss, w, before, m, h, hm => by
    have hnext := atLine_placedStatement s h
    have hmap := map_placedStatement s w
    rw [List.foldl_cons, List.flatMap_cons, ← List.append_assoc, mappedFrom]
    cases hs : source? s with
    | none =>
      rw [marked, hs] at hmap
      exact foldl_placedStatement ss hnext (hmap.trans hm)
    | some source =>
      obtain ⟨m₁, mp, hm₁, he₁, hrec⟩ := map_marked s h hm hs
      obtain ⟨hat, m', mps, hm', he, hf⟩ := foldl_placedStatement ss hnext (hmap.trans hm₁)
      exact ⟨hat, m', mp :: mps, hm', he₁.append he, .cons (hrec.mono he.sources) hf⟩

/-! ## Statements one after the other -/

theorem countedBreaks_placed_pos (s : PlacedStatement) : 0 < Piece.countedBreaks (placed s) := by
  rw [placed, Piece.countedBreaks_append]
  exact Nat.lt_of_lt_of_le Nat.zero_lt_one (Nat.le_add_left _ _)

/-- Every mapped statement ends a line. -/
theorem length_mappedFrom_le : ∀ (ss : List PlacedStatement) (before : List Piece),
    (mappedFrom before ss).length ≤ Piece.countedBreaks (ss.flatMap placed)
  | [], _ => Nat.le_refl _
  | s :: ss, before => by
    have ih := length_mappedFrom_le ss (before ++ placed s)
    have hs := countedBreaks_placed_pos s
    rw [mappedFrom, List.flatMap_cons, Piece.countedBreaks_append]
    cases source? s with
    | none => exact Nat.le_trans ih (Nat.le_add_left _ _)
    | some source =>
      rw [List.length_cons]
      omega

/-- A mapped statement is one of the file, and all before it is written before. -/
theorem split_of_mem_mappedFrom {x : MappedStatement} : ∀ {ss : List PlacedStatement}
    {before : List Piece}, x ∈ mappedFrom before ss → ∃ ss₁ s ss₂, ss = ss₁ ++ s :: ss₂
      ∧ s.statement = x.statement ∧ x.before = before ++ ss₁.flatMap placed
  | [], _, h => by cases h
  | s :: ss, before, h => by
    have hrest : x ∈ mappedFrom (before ++ placed s) ss → ∃ ss₁ s' ss₂, s :: ss = ss₁ ++ s' :: ss₂
        ∧ s'.statement = x.statement ∧ x.before = before ++ ss₁.flatMap placed := fun h => by
      obtain ⟨ss₁, s', ss₂, rfl, hs, hb⟩ := split_of_mem_mappedFrom h
      exact ⟨s :: ss₁, s', ss₂, rfl, hs, by rw [hb, List.flatMap_cons, List.append_assoc]⟩
    rw [mappedFrom] at h
    cases hs : source? s with
    | none =>
      rw [hs] at h
      exact hrest h
    | some source =>
      rw [hs] at h
      rcases List.mem_cons.1 h with rfl | h
      · exact ⟨[], s, ss, rfl, rfl, (List.append_nil _).symm⟩
      · exact hrest h

theorem countedBreaks_le_of_mem {ss : List PlacedStatement} {before : List Piece}
    {x : MappedStatement} (h : x ∈ mappedFrom before ss) :
    Piece.countedBreaks before ≤ Piece.countedBreaks x.before := by
  obtain ⟨ss₁, s, ss₂, -, -, hb⟩ := split_of_mem_mappedFrom h
  rw [hb, Piece.countedBreaks_append]
  exact Nat.le_add_right _ _

/-- Where a mapped statement stands in the pieces of its file. -/
theorem pieces_of_mem_mappedFrom {x : MappedStatement} {ss : List PlacedStatement}
    {before : List Piece} (h : x ∈ mappedFrom before ss) :
    ∃ rest, before ++ ss.flatMap placed
      = x.before ++ statement 0 false x.statement ++ [.newline] ++ rest := by
  obtain ⟨ss₁, s, ss₂, rfl, hs, hb⟩ := split_of_mem_mappedFrom h
  exact ⟨ss₂.flatMap placed, by simp [hb, ← hs, placed]⟩

/-- A mapped statement stands on a later line than the one before it. -/
theorem pairwise_mappedFrom : ∀ (ss : List PlacedStatement) (before : List Piece),
    (mappedFrom before ss).Pairwise
      fun x y => Piece.countedBreaks x.before < Piece.countedBreaks y.before
  | [], _ => List.Pairwise.nil
  | s :: ss, before => by
    have ih := pairwise_mappedFrom ss (before ++ placed s)
    rw [mappedFrom]
    cases source? s with
    | none => exact ih
    | some source =>
      refine List.pairwise_cons.2 ⟨fun x hx => ?_, ih⟩
      have hle := countedBreaks_le_of_mem hx
      have hs := countedBreaks_placed_pos s
      rw [Piece.countedBreaks_append] at hle
      exact Nat.lt_of_lt_of_le (Nat.lt_add_of_pos_right hs) hle

/-! ## Whole files -/

theorem endsLine_libraryImport (i : LibraryImport) : Piece.EndsLine (libraryImport i) := by
  refine Piece.EndsLine.append ?_ ?_
  · cases i.namespaceName with
    | none => exact .inl rfl
    | some name =>
      exact .inr ⟨[.text "import * as ", .text name, .text " from "] ++ quoted i.specifier
        ++ [.text ";"], by simp⟩
  · by_cases hn : i.named.isEmpty = true
    · rw [if_pos hn]
      exact .inl rfl
    · rw [if_neg hn]
      exact .inr ⟨.text "import \x7b " :: separated ", "
        (i.named.map fun s => specifier s.remote s.binding)
        ++ .text " \x7d from " :: quoted i.specifier ++ [.text ";"], by simp⟩

/-- A mapping of a statement of a file with this text. -/
structure Points (m : SourceMap) (code : String) (mp : Mapping) (s : MappedStatement) : Prop
    extends Records m.sources mp s where
  text : ∃ rest, code = Piece.contents s.before ++ Piece.contents (statement 0 false s.statement)
    ++ "\n" ++ rest
  /-- The mapping is at the place where the text of the statement begins. -/
  place : (⟨mp.line, mp.column⟩ : Position) = Text.endPlace (Piece.contents s.before)
    ↔ ∀ t, .text t ∈ s.before → '\n' ∉ t.toList

theorem points_of_records {m : SourceMap} {code : String} {mp : Mapping} {x : MappedStatement}
    (h : Records m.sources mp x) (ht : ∃ rest, code = Piece.contents (x.before
      ++ statement 0 false x.statement ++ [.newline] ++ rest)) : Points m code mp x where
  toRecords := h
  text := by
    obtain ⟨rest, rfl⟩ := ht
    exact ⟨Piece.contents rest, by simp [Piece.contents, Piece.content, String.append_assoc]⟩
  place := by
    rw [← Piece.hiddenBreaks_eq_zero]
    constructor
    · intro he
      have hline := h.line
      rw [← he] at hline
      simpa using hline
    · intro hz
      have hline := h.line
      rw [hz, Nat.add_zero] at hline
      rw [hline, h.column]

/-- A file has a map exactly if one is asked for. -/
theorem isSome_map_run (f : OutputFile) (withMap : Bool) :
    (run f withMap).map.isSome = withMap := by
  have hfold (ss : List PlacedStatement) (w : Writer) :
      (ss.foldl placedStatement w).map.isSome = w.map.isSome := by
    induction ss generalizing w with
    | nil => rfl
    | cons s ss ih => rw [List.foldl_cons, ih, map_placedStatement, isSome_map_marked]
  rw [run, Writer.mapText, Option.isSome_map, file, Writer.map_putAll, hfold, Writer.map_putAll]
  cases withMap <;> rfl

/-- The pieces of a file, in order. -/
def filePieces (f : OutputFile) : List Piece :=
  f.imports.flatMap libraryImport ++ f.statements.flatMap placed
    ++ exportClause f.moduleMarker f.exports

theorem pieces_of_mem_mapped {f : OutputFile} {x : MappedStatement} (h : x ∈ mapped f) :
    ∃ rest, filePieces f = x.before ++ statement 0 false x.statement ++ [.newline] ++ rest := by
  obtain ⟨rest, hrest⟩ := pieces_of_mem_mappedFrom h
  exact ⟨rest ++ exportClause f.moduleMarker f.exports, by
    rw [filePieces, hrest, List.append_assoc _ rest]⟩

/-- What a file leaves: its pieces as text, and a mapping recorded for each mapped statement. -/
theorem run_recorded (f : OutputFile) : (run f true).code = Piece.contents (filePieces f)
    ∧ ∃ m : SourceMap, (run f true).map = some m.render ∧ m.sources.length ≤ m.mappings.length
      ∧ List.Forall₂ (Recorded m.sources) m.mappings (mapped f) := by
  have hempty : (Writer.empty.enableMap f.fileName).AtLine [] := ⟨⟨rfl, rfl⟩, rfl, rfl⟩
  have hstart := hempty.putAll (.flatMap fun i (_ : i ∈ f.imports) => endsLine_libraryImport i)
  have hmap := Writer.map_putAll (f.imports.flatMap libraryImport)
    (Writer.empty.enableMap f.fileName)
  obtain ⟨hat, m, mps, hm, he, hf⟩ := foldl_placedStatement f.statements hstart hmap
  obtain rfl : m.mappings = mps := he.mappings
  have hlength : m.sources.length ≤ 0 + m.mappings.length := he.length_sources
  refine ⟨(hat.toCounts.putAll (exportClause f.moduleMarker f.exports)).output, m, ?_, ?_, hf⟩
  · exact congrArg (Option.map SourceMap.render) ((Writer.map_putAll _ _).trans hm)
  · rwa [Nat.zero_add] at hlength

/-- In a file of fewer lines than 32 bits tell apart, a mapping that was recorded is as it should
be, on the line that the writer has counted. -/
theorem records_of_recorded {f : OutputFile} {m : SourceMap} {mp : Mapping} {x : MappedStatement}
    (h : Piece.countedBreaks (filePieces f) < UInt32.size)
    (hs : m.sources.length ≤ Piece.countedBreaks (filePieces f)) (hx : x ∈ mapped f)
    (hr : Recorded m.sources mp x) :
    Records m.sources mp x ∧ mp.line = Piece.countedBreaks x.before := by
  obtain ⟨rest, hrest⟩ := pieces_of_mem_mapped hx
  have hlt : Piece.countedBreaks x.before < UInt32.size := by
    refine Nat.lt_of_le_of_lt ?_ h
    simp only [hrest, Piece.countedBreaks_append]
    omega
  exact ⟨hr.records (Nat.le_of_lt (Nat.lt_of_le_of_lt hs h)) hlt, by rw [hr.line, word_of_lt hlt]⟩

/-- A file printed with a map has one mapping for each statement with an origin and a position, in
order and no two on a line. It names the origin and the position of the statement; its line is
short of the line where the statement begins by the breaks that came as plain text before, so it is
at the place of the statement exactly if there are none. Lines are counted in 32 bits, so this is
about files with fewer lines than those tell apart. -/
theorem run_mappings (f : OutputFile) (h : Text.breaks (run f true).code < UInt32.size) :
    ∃ m, (run f true).map = some m.render
      ∧ m.sorted = m.mappings ∧ m.mappings.Pairwise (·.line < ·.line)
      ∧ List.Forall₂ (Points m (run f true).code) m.mappings (mapped f) := by
  obtain ⟨hcode, m, hrun, hsources, hf⟩ := run_recorded f
  obtain ⟨hlength, hzip⟩ := List.forall₂_iff_zip.1 hf
  rw [hcode, Piece.breaks_contents] at h
  have hfew : m.mappings.length ≤ Piece.countedBreaks (filePieces f) := by
    have hle := length_mappedFrom_le f.statements (f.imports.flatMap libraryImport)
    rw [hlength, mapped]
    simp only [filePieces, Piece.countedBreaks_append]
    omega
  have hrecords {mp x} (hz : (mp, x) ∈ m.mappings.zip (mapped f)) :=
    records_of_recorded (Nat.lt_of_le_of_lt (Nat.le_add_right _ _) h) (Nat.le_trans hsources hfew)
      (List.of_mem_zip hz).2 (hzip hz)
  have hlines : m.mappings.map (·.line) = (mapped f).map (Piece.countedBreaks ·.before) := by
    rw [← List.forall₂_eq_eq_eq, List.forall₂_map_left_iff, List.forall₂_map_right_iff]
    exact List.forall₂_iff_zip.2 ⟨hlength, fun hz => (hrecords hz).2⟩
  have hincreasing : m.mappings.Pairwise (·.line < ·.line) := by
    rw [← List.pairwise_map, hlines, List.pairwise_map]
    exact pairwise_mappedFrom f.statements _
  refine ⟨m, hrun, ?_, hincreasing, ?_⟩
  · refine List.mergeSort_of_pairwise (hincreasing.imp fun h => ?_)
    simp [Mapping.le, h]
  · refine List.forall₂_iff_zip.2 ⟨hlength, fun {mp x} hz => ?_⟩
    obtain ⟨rest, hrest⟩ := pieces_of_mem_mapped (List.of_mem_zip hz).2
    exact points_of_records (hrecords hz).1 ⟨rest, hrest ▸ hcode⟩

/-- A template over two lines, and a statement after it. -/
def brokenTemplate : OutputFile where
  fileName := "out.d.ts"
  statements := [
    ⟨some "a.ts", some ⟨0, 0⟩, Build.typeAlias "T" [] (.template "a\nb" [])⟩,
    ⟨some "a.ts", some ⟨2, 0⟩, Build.interface "I" []⟩]

/-- The second statement begins in the third line and is mapped to the second. -/
theorem run_mappings_brokenTemplate : Text.breaks (run brokenTemplate true).code = 3
    ∧ (∃ m, (run brokenTemplate true).map = some m.render
      ∧ List.Forall₂ (Points m (run brokenTemplate true).code) m.mappings (mapped brokenTemplate))
    ∧ (mapped brokenTemplate).map (fun x => Text.endPlace (Piece.contents x.before))
        = [⟨0, 0⟩, ⟨2, 0⟩]
    ∧ ((file (Writer.empty.enableMap "out.d.ts") brokenTemplate).map.map (·.mappings))
        = some [⟨0, 0, 0, 0, 0⟩, ⟨1, 0, 0, 2, 0⟩] := by
  have hbreaks : Text.breaks (run brokenTemplate true).code = 3 := by decide +kernel
  have h : Text.breaks (run brokenTemplate true).code < UInt32.size := hbreaks ▸ by decide
  obtain ⟨m, hm, -, -, hpoints⟩ := run_mappings brokenTemplate h
  exact ⟨hbreaks, ⟨m, hm, hpoints⟩, by decide +kernel, by decide +kernel⟩

end Print

end DeclBundle
