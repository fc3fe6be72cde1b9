import DeclBundle.Proofs.SourceMap.Vlq
import DeclBundle.SourceMap.Basic
import DeclBundle.Text.Split
import Mathlib.Data.List.Nodup

/-!
# Reading a source map back

`SourceMap.decode` reads the mappings of a map as any consumer of the format does: lines between
semicolons, segments between commas, four differences in a segment, of which the first counts from 0
on each line and the others from the segment before. What is written after a segment starts with a
separator or is empty (`Continues`), so a segment is read back whatever mappings follow it, and by
induction on the mappings they are all read back (`readLines_encodeFrom`).

A map that comes from any calls is read back as the mappings recorded by them, sorted by their places
in the generated text and otherwise in the order of the calls; and a source keeps the index that it
was given (`encode_decodes`).
-/

namespace DeclBundle.SourceMap

/-! ## The reader -/

/-- What the differences of a segment are added to. -/
structure Counters where
  column : Int := 0
  source : Int := 0
  sourceLine : Int := 0
  sourceColumn : Int := 0

/-- Reads one segment: four differences. -/
def readSegment (line : Nat) (r : Counters) (segment : List Char) : Option (Mapping × Counters) :=
  match Vlq.decode segment with
  | some [column, source, sourceLine, sourceColumn] => do
    let r : Counters :=
      ⟨r.column + column, r.source + source, r.sourceLine + sourceLine,
        r.sourceColumn + sourceColumn⟩
    return (⟨line, ← r.column.toNat?, ← r.source.toNat?, ← r.sourceLine.toNat?,
      ← r.sourceColumn.toNat?⟩, r)
  | _ => none

/-- The mappings of the segments of one line, and the counters after them. -/
def readSegments (line : Nat) (r : Counters) :
    List (List Char) → Option (List Mapping × Counters)
  | [] => some ([], r)
  | segment :: rest => do
    let (m, r) ← readSegment line r segment
    let (ms, r) ← readSegments line r rest
    return (m :: ms, r)

/-- Reads the lines from number `line` on; nothing is on an empty line. -/
def readLines (line : Nat) (r : Counters) : List (List Char) → Option (List Mapping)
  | [] => some []
  | [] :: rest => readLines (line + 1) r rest
  | (c :: cs) :: rest => do
    let (ms, r) ← readSegments line { r with column := 0 } (Text.splitChars (· == ',') (c :: cs))
    return ms ++ (← readLines (line + 1) r rest)

/-- The mappings that a text stands for. -/
def decode (text : String) : Option (List Mapping) :=
  readLines 0 {} (Text.splitChars (· == ';') text.toList)

/-! ## Segments -/

/-- The counters after a mapping. -/
def counters (m : Mapping) : Counters := ⟨m.column, m.source, m.sourceLine, m.sourceColumn⟩

/-- The digits of one mapping after the given counters. -/
def segment (r : Counters) (m : Mapping) : List Char :=
  [m.column - r.column, m.source - r.source, m.sourceLine - r.sourceLine,
    m.sourceColumn - r.sourceColumn].flatMap Vlq.encode

theorem readSegment_segment (r : Counters) (m : Mapping) :
    readSegment m.line r (segment r m) = some (m, counters m) := by
  have hadd : ∀ a b : Int, a + (b - a) = b := fun a b => by omega
  have hnat : ∀ n : Nat, (n : Int).toNat? = some n := fun n => rfl
  simp only [readSegment, segment, Vlq.decode_flatMap_encode, hadd, hnat]
  rfl

theorem segment_ne_nil (r : Counters) (m : Mapping) : segment r m ≠ [] := by
  intro h
  have hread := readSegment_segment r m
  rw [h] at hread
  cases hread

theorem separator_not_mem_segment {r : Counters} {m : Mapping} {sep : Char}
    (hsep : sep ∉ Vlq.alphabet) : ∀ c ∈ segment r m, (c == sep) = false := by
  intro c hc
  obtain ⟨v, -, hv⟩ := List.mem_flatMap.1 hc
  refine beq_eq_false_iff_ne.2 fun he => hsep ?_
  rw [← he]
  exact Vlq.mem_alphabet_of_mem_encode hv

theorem comma_not_mem (r : Counters) (m : Mapping) : ∀ c ∈ segment r m, (c == ',') = false :=
  separator_not_mem_segment (by decide)

theorem semicolon_not_mem (r : Counters) (m : Mapping) : ∀ c ∈ segment r m, (c == ';') = false :=
  separator_not_mem_segment (by decide)

/-- The text goes on behind a segment: it is empty or starts with a separator. -/
inductive Continues : List Char → Prop
  | done : Continues []
  | comma (cs : List Char) : Continues (',' :: cs)
  | semicolon (cs : List Char) : Continues (';' :: cs)

/-- What is left of a line behind a segment starts with a comma, if anything is left. -/
theorem exists_splitChars {cs : List Char} (h : Continues cs) :
    ∃ p ps gs, Text.splitChars (· == ';') cs = p :: ps
      ∧ Text.splitChars (· == ',') p = [] :: gs := by
  cases h with
  | done => exact ⟨[], [], [], rfl, rfl⟩
  | semicolon cs => exact ⟨[], Text.splitChars (· == ';') cs, [], rfl, rfl⟩
  | comma cs =>
    obtain ⟨p, ps, hp⟩ := List.exists_cons_of_ne_nil (Text.splitChars_ne_nil (· == ';') cs)
    exact ⟨',' :: p, ps, Text.splitChars (· == ',') p, by simp [Text.splitChars, hp], rfl⟩

theorem readSegments_segment (r : Counters) (m : Mapping) {p : List Char} {gs : List (List Char)}
    (h : Text.splitChars (· == ',') p = [] :: gs) :
    readSegments m.line r (Text.splitChars (· == ',') (segment r m ++ p))
      = (readSegments m.line (counters m) gs).map (Prod.map (m :: ·) id) := by
  rw [Text.splitChars_append h (comma_not_mem r m), List.append_nil, readSegments,
    readSegment_segment]
  show (do
    let (ms, r) ← readSegments m.line (counters m) gs
    return (m :: ms, r)) = _
  cases readSegments m.line (counters m) gs <;> rfl

/-! ## What follows a segment -/

/-- Reads what follows a segment on the same line, and the lines after it. -/
def readOn (line : Nat) (r : Counters) (cs : List Char) : Option (List Mapping) :=
  match Text.splitChars (· == ';') cs with
  | [] => none
  | p :: ps => do
    let (ms, r) ← readSegments line r (Text.splitChars (· == ',') p).tail
    return ms ++ (← readLines (line + 1) r ps)

theorem readOn_semicolon (line : Nat) (r : Counters) (cs : List Char) :
    readOn line r (';' :: cs) = readLines (line + 1) r (Text.splitChars (· == ';') cs) := by
  show (do return [] ++ (← readLines (line + 1) r (Text.splitChars (· == ';') cs))) = _
  cases readLines (line + 1) r (Text.splitChars (· == ';') cs) <;> rfl

/-- A segment behind a comma counts from the one before. -/
theorem readOn_comma (r : Counters) (m : Mapping) {cs : List Char} (h : Continues cs) :
    readOn m.line r (',' :: (segment r m ++ cs))
      = (readOn m.line (counters m) cs).map (m :: ·) := by
  obtain ⟨p, ps, gs, hp, hg⟩ := exists_splitChars h
  have hsplit := Text.splitChars_append hp (semicolon_not_mem r m)
  have hcomma : Text.splitChars (· == ';') (',' :: (segment r m ++ cs))
      = (',' :: (segment r m ++ p)) :: ps := by
    simp [Text.splitChars, hsplit]
  have htail : (Text.splitChars (· == ',') (',' :: (segment r m ++ p))).tail
      = Text.splitChars (· == ',') (segment r m ++ p) := rfl
  simp only [readOn, hcomma, htail, hp, hg, List.tail_cons, readSegments_segment r m hg]
  cases readSegments m.line (counters m) gs with
  | none => rfl
  | some read =>
    obtain ⟨ms, r'⟩ := read
    cases hl : readLines (m.line + 1) r' ps <;> simp [hl]

/-- The first segment of a line counts its column from 0. -/
theorem readLines_segment (r : Counters) (m : Mapping) {cs : List Char} (h : Continues cs) :
    readLines m.line r
        (Text.splitChars (· == ';') (segment { r with column := 0 } m ++ cs))
      = (readOn m.line (counters m) cs).map (m :: ·) := by
  obtain ⟨p, ps, gs, hp, hg⟩ := exists_splitChars h
  have hsplit := Text.splitChars_append hp (semicolon_not_mem { r with column := 0 } m)
  have hread := readSegments_segment { r with column := 0 } m hg
  obtain ⟨c, s, hs⟩ := List.exists_cons_of_ne_nil (segment_ne_nil { r with column := 0 } m)
  rw [hsplit]
  rw [hs, List.cons_append] at hread ⊢
  simp only [readLines, hread, readOn, hp, hg, List.tail_cons]
  cases readSegments m.line (counters m) gs with
  | none => rfl
  | some read =>
    obtain ⟨ms, r'⟩ := read
    cases hl : readLines (m.line + 1) r' ps <;> simp [hl]

theorem readLines_replicate (r : Counters) (cs : List Char) : ∀ (k line : Nat),
    readLines line r (Text.splitChars (· == ';') (List.replicate k ';' ++ cs))
      = readLines (line + k) r (Text.splitChars (· == ';') cs)
  | 0, line => rfl
  | k + 1, line => by
    have ih := readLines_replicate r cs k (line + 1)
    rw [Nat.add_assoc, Nat.add_comm 1 k] at ih
    exact ih

/-! ## Mappings in order -/

/-- The counters at a cursor. -/
def Cursor.counters (c : Cursor) : Counters := ⟨c.column, c.source, c.sourceLine, c.sourceColumn⟩

/-- The cursor after a mapping. -/
def Cursor.after (m : Mapping) : Cursor :=
  ⟨m.line, m.column, m.source, m.sourceLine, m.sourceColumn, false⟩

theorem encodeFrom_same_line {prev : Cursor} {m : Mapping} (hl : prev.line = m.line)
    (hs : prev.atLineStart = false) (rest : List Mapping) :
    encodeFrom prev (m :: rest)
      = ',' :: (segment prev.counters m ++ encodeFrom (.after m) rest) := by
  simp [encodeFrom, hl, hs, segment, Cursor.counters, Cursor.after]

theorem encodeFrom_next_line {prev : Cursor} {m : Mapping}
    (hl : prev.line < m.line ∨ prev.line = m.line ∧ prev.atLineStart = true ∧ prev.column = 0)
    (rest : List Mapping) :
    encodeFrom prev (m :: rest) = List.replicate (m.line - prev.line) ';'
      ++ (segment { prev.counters with column := 0 } m ++ encodeFrom (.after m) rest) := by
  rcases hl with hl | ⟨hl, hs, hc⟩
  · simp [encodeFrom, hl, Nat.max_eq_right (Nat.le_of_lt hl), segment, Cursor.counters,
      Cursor.after]
  · simp [encodeFrom, hl, hs, hc, segment, Cursor.counters, Cursor.after]

theorem continues_encodeFrom (m : Mapping) : ∀ rest : List Mapping,
    Continues (encodeFrom (.after m) rest)
  | [] => .done
  | m' :: rest => by
    by_cases hl : m.line < m'.line
    · rw [encodeFrom_next_line (.inl hl)]
      obtain ⟨k, hk⟩ : ∃ k, m'.line - m.line = k + 1 := ⟨m'.line - m.line - 1, by omega⟩
      rw [show (Cursor.after m).line = m.line from rfl, hk, List.replicate_succ, List.cons_append]
      exact .semicolon _
    · have hz : m'.line - m.line = 0 := by omega
      simp only [encodeFrom, Cursor.after, hl, hz, List.replicate_zero, List.nil_append,
        decide_false, Bool.or_self, Bool.false_eq_true, if_false, List.cons_append]
      exact .comma _

/-- What is written after a mapping is read back, if it is in order. -/
theorem readOn_encodeFrom : ∀ (ms : List Mapping) (m : Mapping),
    (m :: ms).Pairwise (·.line ≤ ·.line) →
      readOn m.line (counters m) (encodeFrom (.after m) ms) = some ms
  | [], m, _ => rfl
  | m' :: ms, m, h => by
    obtain ⟨hm, hms⟩ := List.pairwise_cons.1 h
    have ih := readOn_encodeFrom ms m' hms
    have hle : m.line ≤ m'.line := hm m' List.mem_cons_self
    have hc := continues_encodeFrom m' ms
    rcases Nat.eq_or_lt_of_le hle with hl | hl
    · rw [encodeFrom_same_line hl rfl, hl]
      exact (readOn_comma (counters m) m' hc).trans (congrArg (Option.map (m' :: ·)) ih)
    · obtain ⟨k, hk⟩ : ∃ k, m'.line = m.line + 1 + k := ⟨m'.line - m.line - 1, by omega⟩
      have hrep : m'.line - (Cursor.after m).line = k + 1 := by
        show m'.line - m.line = k + 1
        omega
      rw [encodeFrom_next_line (.inl hl), hrep, List.replicate_succ, List.cons_append,
        readOn_semicolon, readLines_replicate, ← hk]
      exact (readLines_segment (counters m) m' hc).trans (congrArg (Option.map (m' :: ·)) ih)

/-- Mappings in order are read back. -/
theorem readLines_encodeFrom {ms : List Mapping} (h : ms.Pairwise (·.line ≤ ·.line)) :
    readLines 0 {} (Text.splitChars (· == ';') (encodeFrom {} ms)) = some ms := by
  cases ms with
  | nil => rfl
  | cons m ms =>
    have hl : ({} : Cursor).line < m.line ∨ ({} : Cursor).line = m.line
        ∧ ({} : Cursor).atLineStart = true ∧ ({} : Cursor).column = 0 := by
      rcases Nat.eq_zero_or_pos m.line with hz | hp
      · exact .inr ⟨hz.symm, rfl, rfl⟩
      · exact .inl hp
    rw [encodeFrom_next_line hl, readLines_replicate, Nat.zero_add]
    exact (readLines_segment _ m (continues_encodeFrom m ms)).trans
      (congrArg (Option.map (m :: ·)) (readOn_encodeFrom ms m h))

/-! ## The order of the mappings -/

/-- The mappings that were recorded, by their places in the generated text; those of one place are
in the order in which they were recorded. -/
structure StablySorted (sorted recorded : List Mapping) : Prop where
  perm : sorted.Perm recorded
  ordered : sorted.Pairwise fun a b => a.line < b.line ∨ a.line = b.line ∧ a.column ≤ b.column
  stable : ∀ line column, sorted.filter (fun m => m.line = line ∧ m.column = column)
    = recorded.filter fun m => m.line = line ∧ m.column = column

theorem le_eq_true {a b : Mapping} :
    a.le b = true ↔ a.line < b.line ∨ a.line = b.line ∧ a.column ≤ b.column := by
  simp [Mapping.le]

theorem trans_le (a b c : Mapping) (hab : a.le b = true) (hbc : b.le c = true) :
    a.le c = true := by
  rw [le_eq_true] at *
  omega

theorem total_le (a b : Mapping) : (a.le b || b.le a) = true := by
  rw [Bool.or_eq_true, le_eq_true, le_eq_true]
  omega

theorem stablySorted_sorted (m : SourceMap) : StablySorted m.sorted m.mappings where
  perm := List.mergeSort_perm _ _
  ordered := (List.pairwise_mergeSort trans_le total_le m.mappings).imp le_eq_true.1
  stable line column := by
    have hperm : (m.sorted.filter fun mp => mp.line = line ∧ mp.column = column).Perm
        (m.mappings.filter fun mp => mp.line = line ∧ mp.column = column) :=
      (List.mergeSort_perm _ _).filter _
    have hle : (m.mappings.filter fun mp => mp.line = line ∧ mp.column = column).Pairwise
        (Mapping.le · ·) := by
      refine List.pairwise_of_forall_mem_list fun a ha b hb => ?_
      have ha' := of_decide_eq_true (List.mem_filter.1 ha).2
      have hb' := of_decide_eq_true (List.mem_filter.1 hb).2
      rw [le_eq_true]
      omega
    have hsub := (List.sublist_mergeSort trans_le total_le hle
      List.filter_sublist).filter fun mp => mp.line = line ∧ mp.column = column
    rw [List.filter_filter, List.filter_congr fun _ _ => Bool.and_self _] at hsub
    exact (hsub.eq_of_length hperm.length_eq.symm).symm

/-! ## Sources -/

/-- A number is the index of a source, in 32 bits. -/
def Names (sources : List String) (index : Nat) (source : String) : Prop :=
  ∃ i, sources[i]? = some source ∧ index = word i

theorem Names.mono {sources sources' : List String} {index : Nat} {source : String}
    (h : Names sources index source) (hs : sources <+: sources') :
    Names sources' index source := by
  obtain ⟨i, hi, rfl⟩ := h
  obtain ⟨more, rfl⟩ := hs
  refine ⟨i, ?_, rfl⟩
  rw [List.getElem?_append_left (List.getElem?_eq_some_iff.1 hi).1, hi]

/-- While there are no more sources than 32 bits can tell apart, the source is at its index. -/
theorem Names.getElem? {sources : List String} {index : Nat} {source : String}
    (h : Names sources index source) (hs : sources.length ≤ UInt32.size) :
    sources[index]? = some source := by
  obtain ⟨i, hi, rfl⟩ := h
  have hlt := (List.getElem?_eq_some_iff.1 hi).1
  rwa [word_of_lt (Nat.lt_of_lt_of_le hlt hs)]

/-- A source has its index after it is registered, and no other source loses its own. -/
theorem register_spec (m : SourceMap) (source : String) :
    Names (m.register source).2.sources (m.register source).1 source
      ∧ m.sources <+: (m.register source).2.sources
      ∧ (m.register source).2.mappings = m.mappings := by
  unfold register
  split
  · rename_i i hi
    obtain ⟨hlt, hbeq, -⟩ := List.findIdx?_eq_some_iff_getElem.1 hi
    refine ⟨⟨i, ?_, rfl⟩, List.prefix_refl _, rfl⟩
    rw [List.getElem?_eq_getElem hlt, eq_of_beq hbeq]
  · exact ⟨⟨_, List.getElem?_concat_length, rfl⟩, List.prefix_append _ _, rfl⟩

theorem length_register (m : SourceMap) (source : String) :
    (m.register source).2.sources.length ≤ m.sources.length + 1 := by
  unfold register
  split
  · exact Nat.le_succ _
  · exact Nat.le_of_eq List.length_append

theorem nodup_register {m : SourceMap} (h : m.sources.Nodup) (source : String) :
    (m.register source).2.sources.Nodup := by
  unfold register
  split
  · exact h
  · rename_i hnone
    have hnew : source ∉ m.sources := fun hm => by
      simpa using List.findIdx?_eq_none_iff.1 hnone source hm
    refine List.nodup_append.2 ⟨h, List.nodup_singleton source, fun a ha b hb he => hnew ?_⟩
    rwa [← List.mem_singleton.1 hb, ← he]

/-- A source that has an index is given that index. -/
theorem register_eq_of_names {m : SourceMap} (h : m.sources.Nodup) {source : String} {index : Nat}
    (hi : Names m.sources index source) : (m.register source).1 = index := by
  obtain ⟨hsource, hprefix, -⟩ := m.register_spec source
  obtain ⟨i, hi', rfl⟩ := hi.mono hprefix
  obtain ⟨j, hj, heq⟩ := hsource
  obtain ⟨hlt, he⟩ := List.getElem?_eq_some_iff.1 hi'
  obtain ⟨hlt', he'⟩ := List.getElem?_eq_some_iff.1 hj
  have hij : j = i := (nodup_register h source).getElem_inj_iff.1 (he'.trans he.symm)
  rw [heq, hij]

/-! ## Calls -/

/-- What can be asked of a map while it grows. -/
inductive Call where
  | source (path : String)
  | mapping (m : Mapping)
deriving DecidableEq, Repr

/-- The mapping that a call records. -/
def Call.mapping? : Call → Option Mapping
  | .source _ => none
  | .mapping m => some m

/-- The map after one call. -/
def call (m : SourceMap) : Call → SourceMap
  | .source path => (m.register path).2
  | .mapping mp => m.record mp

/-- The map of a file after some calls. -/
def ofCalls (file : String) (calls : List Call) : SourceMap := calls.foldl call { file }

theorem mappings_foldl_call : ∀ (calls : List Call) (m : SourceMap),
    (calls.foldl call m).mappings = m.mappings ++ calls.filterMap Call.mapping?
  | [], m => by simp
  | c :: calls, m => by
    rw [List.foldl_cons, mappings_foldl_call calls]
    cases c with
    | source path => exact congrArg (· ++ _) (m.register_spec path).2.2
    | mapping mp => simp [call, record, Call.mapping?]

theorem sources_foldl_call : ∀ (calls : List Call) {m : SourceMap}, m.sources.Nodup →
    (calls.foldl call m).sources.Nodup ∧ m.sources <+: (calls.foldl call m).sources
  | [], m, h => ⟨h, List.prefix_refl _⟩
  | .source path :: calls, m, h => by
    obtain ⟨hn, hp⟩ := sources_foldl_call calls (nodup_register h path)
    exact ⟨hn, (m.register_spec path).2.1.trans hp⟩
  | .mapping mp :: calls, m, h => sources_foldl_call calls (m := m.record mp) h

/-- What is written of a map is read back as the mappings that were recorded, stably sorted by their
places in the generated text. Sources are listed once, and the index given out for a source is given
out for it again and, while 32 bits tell the sources apart, stays its place in the list. -/
theorem encode_decodes (file : String) (calls : List Call) :
    (∃ ms, decode (ofCalls file calls).encode = some ms
        ∧ StablySorted ms (calls.filterMap Call.mapping?))
      ∧ (ofCalls file calls).sources.Nodup
      ∧ ∀ (path : String) (more : List Call),
          let index := ((ofCalls file calls).register path).1
          let later := ofCalls file (calls ++ .source path :: more)
          (later.sources.length ≤ UInt32.size → later.sources[index]? = some path)
            ∧ (later.register path).1 = index := by
  have hnodup : (ofCalls file calls).sources.Nodup :=
    (sources_foldl_call calls (m := { file }) List.nodup_nil).1
  refine ⟨⟨(ofCalls file calls).sorted, ?_, ?_⟩, hnodup, fun path more => ?_⟩
  · rw [decode, encode, String.toList_ofList]
    refine readLines_encodeFrom ((stablySorted_sorted _).ordered.imp fun h => ?_)
    omega
  · have hsorted := stablySorted_sorted (ofCalls file calls)
    rwa [ofCalls, mappings_foldl_call, List.nil_append, ← ofCalls] at hsorted
  · have hlater : ofCalls file (calls ++ .source path :: more)
        = more.foldl call ((ofCalls file calls).register path).2 := by
      rw [ofCalls, List.foldl_append]
      rfl
    obtain ⟨hn, hp⟩ := sources_foldl_call more (nodup_register hnodup path)
    have hnames := ((ofCalls file calls).register_spec path).1.mono hp
    rw [← hlater] at hn hnames
    exact ⟨hnames.getElem?, register_eq_of_names hn hnames⟩

end DeclBundle.SourceMap
