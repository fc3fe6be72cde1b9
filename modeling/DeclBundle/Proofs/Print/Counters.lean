import DeclBundle.Proofs.Print.Positions
import Mathlib.Data.List.DropRight

/-!
# The counters of the writer

Line and column of a writer are told by its text: by the line breaks in it and what comes after the
last one (`Text.endPlace_eq`), as far as 32 bits go. Text without a line break, a break, and text
over several lines all amount to characters that are written one by one (`Writer.put_eq`), and one
character keeps the writer at the place where its text ends (`Writer.Follows.writeChar`). So all
calls do that hand over no break as plain text, and a mapping has the place where the text ended
when it was asked for (`Writer.Maps.performAll`). Text that is written from an origin is handed over
as plain text too.

What is kept of a number is a parameter: `word` for what the writer keeps, and `id` where every place
of the text fits in 32 bits (`Text.Fits`).
-/

namespace DeclBundle

namespace Text

/-- The characters after the last line break. -/
def lastLine (s : String) : List Char := s.toList.rtakeWhile (· != '\n')

theorem endPlace_concat (s : String) (c : Char) :
    endPlace (s ++ String.singleton c) = advance (endPlace s) c := by
  simp [endPlace, List.foldl_append]

theorem column_foldl_advance (cs : List Char) :
    (cs.foldl advance ⟨0, 0⟩).column = listUnits (cs.rtakeWhile (· != '\n')) := by
  induction cs using List.reverseRecOn with
  | nil => rfl
  | append_singleton cs c ih =>
    rw [List.foldl_append, List.foldl_cons, List.foldl_nil, advance]
    by_cases hc : c = '\n'
    · rw [if_pos hc, List.rtakeWhile_concat_neg _ _ _ (by simp [hc])]
      rfl
    · rw [if_neg hc, List.rtakeWhile_concat_pos _ _ _ (by simp [hc]), listUnits_append, ← ih]
      rfl

/-- Where a text ends: after its line breaks, and after its last line. -/
theorem endPlace_eq (s : String) : endPlace s = ⟨breaks s, listUnits (lastLine s)⟩ := by
  have hcolumn : (endPlace s).column = listUnits (lastLine s) := column_foldl_advance s.toList
  rw [← line_endPlace, ← hcolumn]

/-- At every place of a text, line and column fit in 32 bits. -/
def Fits (s : String) : Prop :=
  ∀ t u, s = t ++ u → breaks t < UInt32.size ∧ listUnits (lastLine t) < UInt32.size

theorem count_le_listUnits (cs : List Char) : cs.count '\n' ≤ listUnits cs := by
  induction cs with
  | nil => exact Nat.le_refl _
  | cons c cs ih =>
    have hc : (if c == '\n' then 1 else 0) ≤ charUnits c := by
      unfold charUnits
      split <;> split <;> omega
    rw [List.count_cons, listUnits]
    omega

theorem listUnits_lastLine_le (s : String) : listUnits (lastLine s) ≤ units s := by
  obtain ⟨earlier, h⟩ := List.rtakeWhile_suffix (· != '\n') s.toList
  rw [units, ← h, listUnits_append]
  exact Nat.le_add_left _ _

/-- A text of fewer than 2³² units fits. -/
theorem fits_of_units_lt {s : String} (h : units s < UInt32.size) : Fits s := by
  rintro t u rfl
  have ht : units t < UInt32.size := by
    rw [units_append] at h
    exact Nat.lt_of_le_of_lt (Nat.le_add_right _ _) h
  exact ⟨Nat.lt_of_le_of_lt (count_le_listUnits t.toList) ht,
    Nat.lt_of_le_of_lt (listUnits_lastLine_le t) ht⟩

end Text

namespace Writer

/-! ## Calls -/

/-- What can be asked of a writer. -/
inductive Call where
  | put (piece : Piece)
  | writeFrom (s source : String) (pos : Position)
  | markOrigin (source : String) (pos : Position)
  | enableMap (file : String)
deriving DecidableEq, Repr

/-- The writer after one call. -/
def perform (w : Writer) : Call → Writer
  | .put piece => w.put piece
  | .writeFrom s source pos => w.writeFrom s source pos
  | .markOrigin source pos => w.markOrigin source pos
  | .enableMap file => w.enableMap file

/-- The writer after some calls, one after the other. -/
def performAll (w : Writer) (calls : List Call) : Writer := calls.foldl perform w

theorem performAll_cons (w : Writer) (call : Call) (calls : List Call) :
    w.performAll (call :: calls) = (w.perform call).performAll calls := rfl

namespace Call

/-- What a call writes. -/
def pieces : Call → List Piece
  | .put piece => [piece]
  | .writeFrom s _ _ => [.text s]
  | .markOrigin _ _ | .enableMap _ => []

/-- The origin that a call wants a mapping to. -/
def origin? : Call → Option (String × Position)
  | .writeFrom _ source pos | .markOrigin source pos => some (source, pos)
  | .put _ | .enableMap _ => none

/-- The call starts a map. -/
def enablesMap : Call → Bool
  | .enableMap _ => true
  | _ => false

end Call

/-- The pieces that some calls write, in order. -/
def written (calls : List Call) : List Piece := calls.flatMap Call.pieces

variable {w : Writer} {before : List Piece}

theorem perform_eq (w : Writer) {call : Call} (h : call.enablesMap = false) : w.perform call
    = (match call.origin? with
      | some (source, pos) => w.markOrigin source pos
      | none => w).putAll call.pieces := by
  cases call with
  | enableMap file => cases h
  | _ => rfl

/-! ## Line and column -/

/-- The writer is at the place where its text ends, as far as 32 bits go. -/
structure Follows (w : Writer) : Prop where
  line : w.line = word (Text.endPlace w.output).line
  column : w.column = word (Text.endPlace w.output).column

theorem Follows.writeChar (h : w.Follows) (c : Char) : (w.writeChar c).Follows := by
  unfold Writer.writeChar
  split
  · have hplace := Text.endPlace_append_newline w.output
    refine ⟨?_, ?_⟩
    · rw [endLine, hplace, h.line, word_word_add]
    · rw [endLine, hplace]
      rfl
  · rename_i hc
    have hunits : Text.units (String.singleton c) = Text.charUnits c := by
      simp [Text.units, Text.listUnits]
    have hplace := Text.endPlace_concat w.output c
    rw [Text.advance, if_neg hc] at hplace
    refine ⟨?_, ?_⟩
    · rw [write, hplace, h.line]
    · rw [write, hplace, h.column, word_word_add, hunits]

theorem Follows.write_empty (h : w.Follows) : (w.write "").Follows := by
  refine ⟨?_, ?_⟩
  · rw [write, String.append_empty, h.line]
  · rw [write, String.append_empty, h.column, word_word_add]
    rfl

theorem foldl_writeChar_of_no_break : ∀ {cs : List Char} (w : Writer), '\n' ∉ cs →
    cs.foldl writeChar (w.write "") = w.write (String.ofList cs)
  | [], _, _ => rfl
  | c :: cs, w, h => by
    obtain ⟨hc, hcs⟩ := not_or.1 (mt List.mem_cons.2 h)
    have hcons : String.ofList (c :: cs) = String.singleton c ++ String.ofList cs := by simp
    have hnext : (w.write "").writeChar c = (w.write (String.singleton c)).write "" := by
      rw [writeChar, if_neg (Ne.symm hc), ← write_append, ← write_append, String.append_empty,
        String.empty_append]
    rw [List.foldl_cons, hnext, foldl_writeChar_of_no_break _ hcs, hcons, write_append]

/-- A piece is written character by character, if it hands over no break as plain text. -/
theorem put_eq (w : Writer) {p : Piece} (h : '\n' ∉ p.plain) :
    w.put p = p.content.toList.foldl writeChar (w.write "") := by
  cases p with
  | text s =>
    have hs : '\n' ∉ s.toList := h
    rw [Piece.content, foldl_writeChar_of_no_break w hs, String.ofList_toList]
    rfl
  | newline => simp [Writer.put, Piece.content, writeChar, endLine, write]
  | lines s => exact writeText_eq w s

theorem Follows.putAll : ∀ {ps : List Piece} {w : Writer}, w.Follows →
    (∀ p ∈ ps, '\n' ∉ p.plain) → (w.putAll ps).Follows
  | [], _, h, _ => h
  | p :: ps, w, h, hp => by
    have hput : (w.put p).Follows := by
      rw [put_eq w (hp p List.mem_cons_self)]
      exact List.foldlRecOn p.content.toList _ h.write_empty fun _ hw c _ => Follows.writeChar hw c
    exact hput.putAll fun q hq => hp q (List.mem_cons_of_mem p hq)

theorem Follows.markOrigin (h : w.Follows) (source : String) (pos : Position) :
    (w.markOrigin source pos).Follows := by
  unfold Writer.markOrigin
  split
  · exact h
  · exact ⟨h.line, h.column⟩

theorem Follows.perform (h : w.Follows) {call : Call} (hp : ∀ p ∈ call.pieces, '\n' ∉ p.plain) :
    (w.perform call).Follows := by
  cases call with
  | put p => exact h.putAll hp
  | writeFrom s source pos => exact (h.markOrigin source pos).putAll hp
  | markOrigin source pos => exact h.markOrigin source pos
  | enableMap file => exact ⟨h.line, h.column⟩

theorem Follows.place (h : w.Follows) : w.line = word (Text.breaks w.output)
    ∧ w.column = word (Text.listUnits (Text.lastLine w.output)) := by
  obtain ⟨hline, hcolumn⟩ := h
  rw [Text.endPlace_eq] at hline hcolumn
  exact ⟨hline, hcolumn⟩

theorem Counts.markOrigin (h : w.Counts before) (source : String) (pos : Position) :
    (w.markOrigin source pos).Counts before := by
  unfold Writer.markOrigin
  split
  · exact h
  · exact ⟨h.output, h.line⟩

theorem Counts.perform (h : w.Counts before) (call : Call) :
    (w.perform call).Counts (before ++ call.pieces) := by
  cases call with
  | put p => exact h.put p
  | writeFrom s source pos => exact (h.markOrigin source pos).put (.text s)
  | markOrigin source pos =>
    rw [Call.pieces, List.append_nil]
    exact h.markOrigin source pos
  | enableMap file =>
    rw [Call.pieces, List.append_nil]
    exact ⟨h.output, h.line⟩

/-- The writer has written the pieces and is at the place where they end. -/
structure Tracks (w : Writer) (before : List Piece) : Prop extends w.Counts before where
  follows : w.Follows

theorem tracks_empty : empty.Tracks [] := ⟨⟨rfl, rfl⟩, rfl, rfl⟩

theorem Tracks.perform (h : w.Tracks before) {call : Call}
    (hp : ∀ p ∈ call.pieces, '\n' ∉ p.plain) :
    (w.perform call).Tracks (before ++ call.pieces) :=
  ⟨h.toCounts.perform call, h.follows.perform hp⟩

theorem Counts.performAll : ∀ (calls : List Call) {before : List Piece} {w : Writer},
    w.Counts before → (w.performAll calls).Counts (before ++ written calls)
  | [], before, _, h => by rwa [written, List.flatMap_nil, List.append_nil]
  | call :: calls, before, _, h => by
    have ih := performAll calls (h.perform call)
    rwa [List.append_assoc] at ih

theorem Follows.performAll : ∀ {calls : List Call} {w : Writer}, w.Follows →
    (∀ p ∈ written calls, '\n' ∉ p.plain) → (w.performAll calls).Follows
  | [], _, h, _ => h
  | call :: calls, w, h, hp => by
    simp only [written, List.flatMap_cons, List.mem_append] at hp
    have hstep := h.perform fun p hm => hp p (.inl hm)
    exact hstep.performAll fun p hm => hp p (.inr hm)

theorem Tracks.performAll {calls : List Call} (h : w.Tracks before)
    (hp : ∀ p ∈ written calls, '\n' ∉ p.plain) :
    (w.performAll calls).Tracks (before ++ written calls) :=
  ⟨h.toCounts.performAll calls, h.follows.performAll hp⟩

/-- Whatever is written, the line of the writer is that of its text exactly if no plain text has a
line break, while there are fewer breaks than 32 bits tell apart. -/
theorem line_eq_breaks_iff (calls : List Call)
    (h : Text.breaks (empty.performAll calls).output < UInt32.size) :
    (empty.performAll calls).line = Text.breaks (empty.performAll calls).output
      ↔ ∀ s, .text s ∈ written calls → '\n' ∉ s.toList := by
  obtain ⟨houtput, hline⟩ := Counts.performAll calls tracks_empty.toCounts
  rw [List.nil_append] at houtput hline
  rw [houtput, Piece.breaks_contents] at h ⊢
  rw [← Piece.hiddenBreaks_eq_zero, hline, word_of_lt (Nat.lt_of_le_of_lt (Nat.le_add_right _ _) h)]
  omega

/-! ## Mappings -/

/-- A mapping that is asked for, and what is written before it. -/
structure Mark where
  before : List Piece
  source : String
  pos : Position

/-- The mappings that a call asks for. -/
def Call.marks (before : List Piece) (call : Call) : List Mark :=
  (call.origin?.map fun (source, pos) => ⟨before, source, pos⟩).toList

/-- The mappings that some calls ask for after some pieces. -/
def marksFrom (before : List Piece) : List Call → List Mark
  | [] => []
  | call :: calls => call.marks before ++ marksFrom (before ++ call.pieces) calls

/-- A mapping is at the place where the text ended when it was asked for, as far as `kept` goes. -/
structure Marks (kept : Nat → Nat) (sources : List String) (mp : Mapping) (mark : Mark) :
    Prop where
  source : SourceMap.Names sources mp.source mark.source
  sourcePlace : (⟨mp.sourceLine, mp.sourceColumn⟩ : Position) = mark.pos
  line : mp.line = kept (Text.breaks (Piece.contents mark.before))
  column : mp.column = kept (Text.listUnits (Text.lastLine (Piece.contents mark.before)))

theorem Marks.mono {kept : Nat → Nat} {sources sources' : List String} {mp : Mapping} {mark : Mark}
    (h : Marks kept sources mp mark) (hs : sources <+: sources') : Marks kept sources' mp mark :=
  ⟨h.source.mono hs, h.sourcePlace, h.line, h.column⟩

/-- The writer keeps a map for the file, with just these mappings. -/
def Maps (w : Writer) (kept : Nat → Nat) (file : String) (marks : List Mark) : Prop :=
  ∃ m, w.map = some m ∧ m.file = file ∧ List.Forall₂ (Marks kept m.sources) m.mappings marks

theorem Tracks.marks (h : w.Tracks before) (sources : List String) {source : String}
    {pos : Position} {i : Nat} (hi : SourceMap.Names sources i source) :
    Marks word sources ⟨w.line, w.column, i, pos.line, pos.column⟩ ⟨before, source, pos⟩ :=
  ⟨hi, rfl, h.output ▸ h.follows.place.1, h.output ▸ h.follows.place.2⟩

variable {file : String} {marks : List Mark}

theorem Maps.markOrigin (h : w.Maps word file marks) (hw : w.Tracks before) (source : String)
    (pos : Position) :
    (w.markOrigin source pos).Maps word file (marks ++ [⟨before, source, pos⟩]) := by
  obtain ⟨m, hm, rfl, hall⟩ := h
  obtain ⟨hindex, hsources, hmappings⟩ := m.register_spec source
  have hfile : (m.register source).2.file = m.file := by
    unfold SourceMap.register
    split <;> rfl
  let mp : Mapping := ⟨w.line, w.column, (m.register source).1, pos.line, pos.column⟩
  refine ⟨(m.register source).2.record mp, ?_, hfile, ?_⟩
  · simp [Writer.markOrigin, hm, mp]
  · have hold := hall.imp fun _ _ h => h.mono hsources
    rw [SourceMap.record, hmappings]
    exact List.rel_append hold (.cons (hw.marks _ hindex) .nil)

theorem Maps.perform (h : w.Maps word file marks) (hw : w.Tracks before) {call : Call}
    (hc : call.enablesMap = false) :
    (w.perform call).Maps word file (marks ++ call.marks before) := by
  rw [perform_eq w hc]
  unfold Maps
  rw [map_putAll, Call.marks]
  cases call.origin? with
  | none => rwa [Option.map_none, Option.toList_none, List.append_nil]
  | some origin => exact h.markOrigin hw origin.1 origin.2

theorem Maps.performAll : ∀ {calls : List Call} {before : List Piece} {w : Writer}
    {marks : List Mark}, w.Maps word file marks → w.Tracks before →
      (∀ p ∈ written calls, '\n' ∉ p.plain) → (∀ call ∈ calls, call.enablesMap = false) →
        (w.performAll calls).Maps word file (marks ++ marksFrom before calls)
  | [], _, _, _, h, _, _, _ => by rwa [marksFrom, List.append_nil]
  | call :: calls, before, w, marks, h, hw, hp, hc => by
    simp only [written, List.flatMap_cons, List.mem_append] at hp
    have hstep := h.perform hw (hc call List.mem_cons_self)
    have hnext := hw.perform fun p hm => hp p (.inl hm)
    have hlater : ∀ p ∈ written calls, '\n' ∉ p.plain := fun p hm => hp p (.inr hm)
    have hrest := hstep.performAll hnext hlater
      fun c hm => hc c (List.mem_cons_of_mem call hm)
    rwa [List.append_assoc] at hrest

theorem map_performAll_of_none : ∀ {calls : List Call} {w : Writer}, w.map = none →
    (∀ call ∈ calls, call.enablesMap = false) → (w.performAll calls).map = none
  | [], _, h, _ => h
  | call :: calls, w, h, hc => by
    have hstep : (w.perform call).map = none := by
      rw [perform_eq w (hc call List.mem_cons_self), map_putAll]
      cases call.origin? with
      | none => exact h
      | some origin => simp only [Writer.markOrigin, h]
    rw [performAll_cons]
    exact map_performAll_of_none hstep fun c hm => hc c (List.mem_cons_of_mem call hm)

/-- A map that is enabled after some calls records what the calls after it ask for. -/
theorem maps_performAll {earlier later : List Call} (file : String)
    (hp : ∀ p ∈ written (earlier ++ .enableMap file :: later), '\n' ∉ p.plain)
    (hc : ∀ call ∈ later, call.enablesMap = false) :
    (empty.performAll (earlier ++ .enableMap file :: later)).Maps word file
      (marksFrom (written earlier) later) := by
  have hrun : empty.performAll (earlier ++ .enableMap file :: later)
      = ((empty.performAll earlier).enableMap file).performAll later := List.foldl_append
  simp only [written, List.flatMap_append, List.flatMap_cons, List.mem_append] at hp
  have hw : (empty.performAll earlier).Tracks (written earlier) :=
    tracks_empty.performAll fun p hm => hp p (.inl hm)
  have hw' : ((empty.performAll earlier).enableMap file).Tracks (written earlier) :=
    ⟨⟨hw.output, hw.line⟩, hw.follows.line, hw.follows.column⟩
  have hstart : ((empty.performAll earlier).enableMap file).Maps word file [] :=
    ⟨_, rfl, rfl, .nil⟩
  rw [hrun]
  exact hstart.performAll hw' (fun p hm => hp p (.inr (.inr hm))) hc

/-! ## Where 32 bits are enough -/

/-- What was written when a mapping was asked for is the start of all that is written. -/
theorem exists_written_of_mem_marksFrom {mark : Mark} : ∀ {calls : List Call}
    {before : List Piece}, mark ∈ marksFrom before calls →
      ∃ rest, before ++ written calls = mark.before ++ rest
  | [], _, h => by cases h
  | call :: calls, before, h => by
    have hwritten : written (call :: calls) = call.pieces ++ written calls := List.flatMap_cons
    rcases List.mem_append.1 h with h | h
    · obtain ⟨origin, -, rfl⟩ := Option.map_eq_some_iff.1 (Option.mem_toList.1 h)
      exact ⟨written (call :: calls), rfl⟩
    · obtain ⟨rest, hrest⟩ := exists_written_of_mem_marksFrom h
      exact ⟨rest, by rw [hwritten, ← List.append_assoc, hrest]⟩

theorem fits_before {mark : Mark} {calls : List Call} {before : List Piece}
    (hm : mark ∈ marksFrom before calls)
    (h : Text.Fits (Piece.contents (before ++ written calls))) :
    Text.breaks (Piece.contents mark.before) < UInt32.size
      ∧ Text.listUnits (Text.lastLine (Piece.contents mark.before)) < UInt32.size := by
  obtain ⟨rest, hrest⟩ := exists_written_of_mem_marksFrom hm
  refine h _ (Piece.contents rest) ?_
  rw [hrest]
  simp [Piece.contents]

theorem Maps.exact (h : w.Maps word file marks) (hm : ∀ mark ∈ marks,
    Text.breaks (Piece.contents mark.before) < UInt32.size
      ∧ Text.listUnits (Text.lastLine (Piece.contents mark.before)) < UInt32.size) :
    w.Maps id file marks := by
  obtain ⟨m, hmap, hfile, hall⟩ := h
  obtain ⟨hlength, hzip⟩ := List.forall₂_iff_zip.1 hall
  refine ⟨m, hmap, hfile, List.forall₂_iff_zip.2 ⟨hlength, fun {mp mark} hz => ?_⟩⟩
  obtain ⟨hline, hcolumn⟩ := hm mark (List.of_mem_zip hz).2
  obtain ⟨hsource, hplace, hl, hc⟩ := hzip hz
  exact ⟨hsource, hplace, hl.trans (word_of_lt hline), hc.trans (word_of_lt hcolumn)⟩

/-! ## Whole runs -/

theorem written_filter : ∀ calls : List Call,
    written (calls.filter (!·.enablesMap)) = written calls
  | [] => rfl
  | call :: calls => by
    have ih := written_filter calls
    cases call <;> simp_all [written, Call.enablesMap, Call.pieces]

theorem eq_of_tracks {w w' : Writer} (h : w.Tracks before) (h' : w'.Tracks before) :
    w' = { w with map := w'.map } := by
  have ho : w'.output = w.output := h'.output.trans h.output.symm
  have hl : w'.line = w.line := by rw [h'.follows.place.1, h.follows.place.1, ho]
  have hc : w'.column = w.column := by rw [h'.follows.place.2, h.follows.place.2, ho]
  rw [← ho, ← hl, ← hc]

/-- What a writer shows of the calls that it has performed, with the counts of its text as far as
`kept` goes. -/
structure Shows (kept : Nat → Nat) (calls : List Call) (w : Writer) : Prop where
  /-- The text is what is written, one piece after the other. -/
  output : w.output = Piece.contents (written calls)
  line : w.line = kept (Text.breaks w.output)
  column : w.column = kept (Text.listUnits (Text.lastLine w.output))
  /-- There is one mapping for each one that is asked for since a map was last enabled. -/
  maps : ∀ earlier file later, calls = earlier ++ .enableMap file :: later →
    (∀ call ∈ later, call.enablesMap = false) →
      w.Maps kept file (marksFrom (written earlier) later)
  noMap : (∀ call ∈ calls, call.enablesMap = false) → w.map = none
  /-- Without enabling a map, text and counters are the same. -/
  unmapped : ∃ map, w = { empty.performAll (calls.filter (!·.enablesMap)) with map }

/-- Where every place of the text fits in 32 bits, the counters are the counts themselves. -/
theorem Shows.exact {calls : List Call} (h : Shows word calls w) (hfits : Text.Fits w.output) :
    Shows id calls w where
  output := h.output
  line := by
    obtain ⟨hline, -⟩ := hfits w.output "" String.append_empty.symm
    exact h.line.trans (word_of_lt hline)
  column := by
    obtain ⟨-, hcolumn⟩ := hfits w.output "" String.append_empty.symm
    exact h.column.trans (word_of_lt hcolumn)
  maps earlier file later hcalls hc := by
    have hwritten : written calls = written earlier ++ written later := by
      rw [hcalls, written, List.flatMap_append]
      rfl
    rw [h.output, hwritten] at hfits
    exact (h.maps earlier file later hcalls hc).exact fun mark hm => fits_before hm hfits
  noMap := h.noMap
  unmapped := h.unmapped

/-- Where no plain text has a line break, the counters of the writer are those of its text in 32
bits, and so they are in all mappings; and they are those of its text where these fit in 32 bits. -/
theorem counters_follow_text (calls : List Call)
    (h : ∀ s, .text s ∈ written calls → '\n' ∉ s.toList) :
    Shows word calls (empty.performAll calls)
      ∧ (Text.Fits (empty.performAll calls).output → Shows id calls (empty.performAll calls)) := by
  have hplain : ∀ p ∈ written calls, '\n' ∉ p.plain := by
    intro p hp
    cases p with
    | text s => exact h s hp
    | newline => exact List.not_mem_nil
    | lines s => exact List.not_mem_nil
  have hw : (empty.performAll calls).Tracks (written calls) := tracks_empty.performAll hplain
  have hw' : (empty.performAll (calls.filter (!·.enablesMap))).Tracks (written calls) := by
    rw [← written_filter calls] at hplain ⊢
    exact tracks_empty.performAll hplain
  have hshows : Shows word calls (empty.performAll calls) := by
    refine ⟨hw.output, hw.follows.place.1, hw.follows.place.2, ?_, map_performAll_of_none rfl,
      _, eq_of_tracks hw' hw⟩
    rintro earlier file later rfl hc
    exact maps_performAll file hplain hc
  exact ⟨hshows, hshows.exact⟩

/-- Text outside the basic plane, empty lines, and places marked between pieces. -/
def tour : List Call := [
  .put (.text "😀"), .markOrigin "a.ts" ⟨1, 1⟩, .enableMap "out.d.ts", .put (.lines "a\n\nb😀"),
  .markOrigin "a.ts" ⟨7, 1⟩, .put (.lines "\n"), .put .newline, .writeFrom "é😀" "b.ts" ⟨0, 2⟩]

theorem counters_follow_text_tour : (∀ s, .text s ∈ written tour → '\n' ∉ s.toList)
    ∧ Text.Fits (empty.performAll tour).output ∧ Shows id tour (empty.performAll tour)
    ∧ (empty.performAll tour).line = 4 ∧ (empty.performAll tour).column = 3
    ∧ (empty.performAll tour).map.map (·.mappings) = some [⟨2, 3, 0, 7, 1⟩, ⟨4, 0, 1, 0, 2⟩] := by
  have h : ∀ s, .text s ∈ written tour → '\n' ∉ s.toList := by
    intro s hs
    have hs' : s = "😀" ∨ s = "é😀" := by
      simpa [tour, written, Call.pieces] using hs
    rcases hs' with rfl | rfl <;> decide
  have hfits : Text.Fits (empty.performAll tour).output :=
    Text.fits_of_units_lt (by decide +kernel)
  exact ⟨h, hfits, (counters_follow_text tour h).2 hfits, by decide +kernel, by decide +kernel,
    by decide +kernel⟩

end Writer

end DeclBundle
