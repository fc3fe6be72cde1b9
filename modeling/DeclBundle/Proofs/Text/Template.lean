import DeclBundle.Diagnostic
import Mathlib.Algebra.GroupWithZero.Nat
import Mathlib.Data.List.Infix

/-!
# Arguments put in one by one and at once

`Text.fillAtOnce` puts all arguments into a template at once, so that no text of an argument is
looked at. `Text.fill` puts one after the other into the text that it has so far.

The marks of a template are braces with no brace between them. Two of them never overlap, so a text
can be cut before every opening and after every closing brace (`replaceEach_append_mark`), and
putting in one more argument is what it is at once as long as its mark stands nowhere but where the
template has it (`replaceEach_concat_iff`).
-/

namespace DeclBundle.Text

/-! ## Occurrences and replacements -/

/-- How often `pat` stands in a text. -/
def occurrences (pat : List Char) : List Char → Nat
  | [] => 0
  | c :: cs => (if pat.isPrefixOf (c :: cs) then 1 else 0) + occurrences pat cs

/-- `replaceEach subs skip cs` leaves out `skip` characters of `cs` and puts, from left to right and
without overlap, the second text of the first pair of `subs` whose first text stands there. -/
def replaceEach (subs : List (List Char × List Char)) : Nat → List Char → List Char
  | _, [] => []
  | skip + 1, _ :: rest => replaceEach subs skip rest
  | 0, c :: rest =>
    match subs.find? fun s => s.1.isPrefixOf (c :: rest) with
    | some s => s.2 ++ replaceEach subs (s.1.length - 1) rest
    | none => c :: replaceEach subs 0 rest

/-- The marks of a template with the arguments that they stand for. -/
def substitutions (args : List String) : List (List Char × List Char) :=
  args.zipIdx.map fun (arg, i) => ((placeholder i).toList, arg.toList)

/-- `template` with all arguments put in at once. -/
def fillAtOnce (template : String) (args : List String) : String :=
  String.ofList (replaceEach (substitutions args) 0 template.toList)

/-- How often the mark of argument `i` stands in a text. -/
def countMark (i : Nat) (s : String) : Nat := occurrences (placeholder i).toList s.toList

theorem replaceChars_eq (pat sub : List Char) : ∀ (skip : Nat) (cs : List Char),
    replaceChars pat sub skip cs = replaceEach [(pat, sub)] skip cs
  | _, [] => by simp [replaceChars, replaceEach]
  | skip + 1, _ :: cs => by
    rw [replaceChars, replaceEach, replaceChars_eq pat sub skip cs]
  | 0, c :: cs => by
    rw [replaceChars, replaceEach, List.find?_singleton]
    split <;> rw [replaceChars_eq pat sub _ cs]

theorem replaceEach_skip (subs : List (List Char × List Char)) : ∀ (skip : Nat) (cs : List Char),
    replaceEach subs skip cs = replaceEach subs 0 (cs.drop skip)
  | 0, _ => rfl
  | skip + 1, [] => by simp [replaceEach]
  | skip + 1, _ :: cs => by rw [replaceEach, List.drop_succ_cons, replaceEach_skip subs skip cs]

/-! ## Cuts -/

/-- Nowhere does `pat` reach from `xs` into what comes after it. -/
def Cuts (pat xs ys : List Char) : Prop :=
  ∀ c z, c :: z <:+ xs → pat.isPrefixOf (c :: z ++ ys) = pat.isPrefixOf (c :: z)

section

variable {pat xs ys : List Char} {subs : List (List Char × List Char)} {c : Char}

theorem Cuts.tail (h : Cuts pat (c :: xs) ys) : Cuts pat xs ys :=
  fun d z hz => h d z (hz.trans (List.suffix_cons c xs))

theorem isPrefixOf_append_cons (h : c ∉ pat) (xs ys : List Char) :
    pat.isPrefixOf (xs ++ c :: ys) = pat.isPrefixOf xs := by
  induction pat generalizing xs with
  | nil => simp
  | cons d pat ih =>
    obtain ⟨hd, hpat⟩ := not_or.1 (mt List.mem_cons.2 h)
    cases xs with
    | nil => simp [List.isPrefixOf, Ne.symm hd]
    | cons x xs => simp [List.isPrefixOf, ih hpat xs]

/-- A character that is not in `pat` cuts. -/
theorem Cuts.of_not_mem (h : c ∉ pat) : Cuts pat xs (c :: ys) :=
  fun d z _ => isPrefixOf_append_cons h (d :: z) ys

theorem occurrences_append (h : Cuts pat xs ys) :
    occurrences pat (xs ++ ys) = occurrences pat xs + occurrences pat ys := by
  induction xs with
  | nil => simp [occurrences]
  | cons c xs ih =>
    have hc := h c xs List.suffix_rfl
    rw [List.cons_append] at hc
    rw [List.cons_append, occurrences, occurrences, hc, ih h.tail, Nat.add_assoc]

theorem find?_cut (h : ∀ s ∈ subs, Cuts s.1 (c :: xs) ys) :
    (subs.find? fun s => s.1.isPrefixOf (c :: (xs ++ ys)))
      = subs.find? fun s => s.1.isPrefixOf (c :: xs) := by
  induction subs with
  | nil => rfl
  | cons s subs ih =>
    have hc := h s List.mem_cons_self c xs List.suffix_rfl
    rw [List.cons_append] at hc
    rw [List.find?_cons, List.find?_cons, hc, ih fun t ht => h t (List.mem_cons_of_mem s ht)]

/-- A text that is cut can be treated in two parts. -/
theorem replaceEach_append : ∀ {skip : Nat} {xs : List Char}, (∀ s ∈ subs, Cuts s.1 xs ys) →
    skip ≤ xs.length →
      replaceEach subs skip (xs ++ ys) = replaceEach subs skip xs ++ replaceEach subs 0 ys
  | 0, [], _, _ => by simp [replaceEach]
  | skip + 1, c :: xs, h, hlen => by
    rw [List.cons_append, replaceEach, replaceEach]
    exact replaceEach_append (fun s hs => (h s hs).tail) (Nat.le_of_succ_le_succ hlen)
  | 0, c :: xs, h, _ => by
    have htail : ∀ s ∈ subs, Cuts s.1 xs ys := fun s hs => (h s hs).tail
    rw [List.cons_append, replaceEach, replaceEach, find?_cut h]
    cases hf : subs.find? fun s => s.1.isPrefixOf (c :: xs) with
    | none => simp only [replaceEach_append htail (Nat.zero_le _), List.cons_append]
    | some s =>
      have hprefix := List.find?_some hf
      have hlen : s.1.length ≤ (c :: xs).length := (List.isPrefixOf_iff_prefix.1 hprefix).length_le
      rw [List.length_cons] at hlen
      simp only [replaceEach_append htail (Nat.sub_le_of_le_add hlen), List.append_assoc]

end

/-! ## Marks -/

/-- A pair of braces with no brace between them. -/
def IsMark (m : List Char) : Prop :=
  ∃ body, m = '\x7b' :: (body ++ ['\x7d']) ∧ '\x7b' ∉ body ∧ '\x7d' ∉ body

theorem isMark_placeholder (i : Nat) : IsMark (placeholder i).toList := by
  have hdigit : ∀ c ∈ (toString i).toList, c.isDigit = true := fun c hc =>
    Nat.isDigit_of_mem_toDigits (b := 10) (by decide) (by decide) (by simpa using hc)
  refine ⟨(toString i).toList, by simp [placeholder], fun h => ?_, fun h => ?_⟩
  · exact absurd (hdigit _ h) (by decide)
  · exact absurd (hdigit _ h) (by decide)

theorem placeholder_inj {i j : Nat} (h : placeholder i = placeholder j) : i = j := by
  have hd : Nat.toDigits 10 i = Nat.toDigits 10 j := by
    simpa [placeholder, ← String.toList_inj] using h
  simpa [Nat.ofDigitChars_ten_toDigits] using congrArg (Nat.ofDigitChars 10 · 0) hd

section

variable {m m' a xs ys : List Char} {subs : List (List Char × List Char)}

/-- An opening brace cuts: it stands in a mark only at the front. -/
theorem IsMark.cuts_open (hm : IsMark m) : Cuts m xs ('\x7b' :: ys) := by
  obtain ⟨body, rfl, hopen, -⟩ := hm
  intro c z _
  have hrest : '\x7b' ∉ body ++ ['\x7d'] := by simp [hopen]
  rw [List.cons_append, List.isPrefixOf_cons_cons, List.isPrefixOf_cons_cons,
    isPrefixOf_append_cons hrest]

/-- Text that starts with a closing brace at the end of what is looked for. -/
theorem isPrefixOf_append_close {body : List Char} (hclose : '\x7d' ∉ body) (xs ys : List Char) :
    (body ++ ['\x7d']).isPrefixOf (xs ++ '\x7d' :: ys)
      = (body ++ ['\x7d']).isPrefixOf (xs ++ ['\x7d']) := by
  induction body generalizing xs with
  | nil => cases xs <;> simp [List.isPrefixOf]
  | cons b body ih =>
    obtain ⟨hb, hbody⟩ := not_or.1 (mt List.mem_cons.2 hclose)
    cases xs with
    | nil => simp [List.isPrefixOf, Ne.symm hb]
    | cons x xs => simp [List.isPrefixOf, ih hbody xs]

/-- A closing brace cuts: it stands in a mark only at the end. -/
theorem IsMark.cuts_close (hm : IsMark m) : Cuts m (xs ++ ['\x7d']) ys := by
  obtain ⟨body, rfl, -, hclose⟩ := hm
  intro c z hz
  have hmark : '\x7d' ∉ '\x7b' :: body := by simp [hclose]
  have hlast : (c :: z).getLast (List.cons_ne_nil c z) = '\x7d' := by
    rw [hz.getLast]
    simp
  rw [← List.dropLast_append_getLast (List.cons_ne_nil c z), hlast, List.append_assoc]
  exact isPrefixOf_append_close hmark (c :: z).dropLast ys

theorem occurrences_eq_zero (hm : IsMark m) : ∀ {cs : List Char}, '\x7b' ∉ cs →
    occurrences m cs = 0
  | [], _ => rfl
  | c :: cs, h => by
    obtain ⟨hc, hcs⟩ := not_or.1 (mt List.mem_cons.2 h)
    have ih := occurrences_eq_zero hm hcs
    obtain ⟨body, rfl, -, -⟩ := hm
    simp [occurrences, ih, List.isPrefixOf, hc]

theorem occurrences_self (hm : IsMark m) : occurrences m m = 1 := by
  have hm' := hm
  obtain ⟨body, rfl, hopen, -⟩ := hm'
  have hrest : occurrences ('\x7b' :: (body ++ ['\x7d'])) (body ++ ['\x7d']) = 0 :=
    occurrences_eq_zero hm (by simp [hopen])
  rw [occurrences, hrest, if_pos (List.isPrefixOf_iff_prefix.2 (List.prefix_refl _))]

/-- A text around a mark falls into three parts. -/
theorem occurrences_append_mark (hm : IsMark m) (hm' : IsMark m') (xs ys : List Char) :
    occurrences m (xs ++ m' ++ ys) = occurrences m xs + occurrences m m' + occurrences m ys := by
  obtain ⟨body, rfl, -, -⟩ := hm'
  rw [List.append_assoc, List.cons_append, occurrences_append hm.cuts_open, ← List.cons_append,
    ← List.cons_append, occurrences_append hm.cuts_close, Nat.add_assoc]

theorem replaceEach_append_mark (hs : ∀ s ∈ subs, IsMark s.1) (hm : IsMark m)
    (xs ys : List Char) : replaceEach subs 0 (xs ++ m ++ ys)
      = replaceEach subs 0 xs ++ replaceEach subs 0 m ++ replaceEach subs 0 ys := by
  obtain ⟨body, rfl, -, -⟩ := hm
  rw [List.append_assoc, List.cons_append,
    replaceEach_append (fun s h => (hs s h).cuts_open) (Nat.zero_le _), ← List.cons_append,
    ← List.cons_append, replaceEach_append (fun s h => (hs s h).cuts_close) (Nat.zero_le _),
    List.append_assoc]

/-! ## Cutting a text at one mark -/

theorem exists_of_occurrences : ∀ {cs : List Char}, occurrences m cs ≠ 0 →
    ∃ xs ys, cs = xs ++ m ++ ys ∧ occurrences m xs = 0
  | [], h => absurd rfl h
  | c :: cs, h => by
    by_cases hc : m.isPrefixOf (c :: cs) = true
    · obtain ⟨ys, hys⟩ := List.isPrefixOf_iff_prefix.1 hc
      exact ⟨[], ys, hys.symm, rfl⟩
    · rw [occurrences, if_neg hc, Nat.zero_add] at h
      obtain ⟨xs, ys, rfl, hxs⟩ := exists_of_occurrences h
      refine ⟨c :: xs, ys, rfl, ?_⟩
      rw [occurrences, hxs, if_neg]
      intro hp
      refine hc (List.isPrefixOf_iff_prefix.2 ((List.isPrefixOf_iff_prefix.1 hp).trans ?_))
      exact ⟨m ++ ys, by simp⟩

/-- A text has no mark `m`, or one after a text that has none. -/
theorem mark_induction {P : List Char → Prop} (hm : IsMark m)
    (none : ∀ cs, occurrences m cs = 0 → P cs)
    (mark : ∀ xs ys, occurrences m xs = 0 → P ys → P (xs ++ m ++ ys)) (cs : List Char) : P cs := by
  by_cases h : occurrences m cs = 0
  · exact none cs h
  · obtain ⟨xs, ys, rfl, hxs⟩ := exists_of_occurrences h
    have hless : ys.length < (xs ++ m ++ ys).length := by
      obtain ⟨body, rfl, -⟩ := hm
      simp only [List.length_append, List.length_cons]
      omega
    exact mark xs ys hxs (mark_induction hm none mark ys)
termination_by cs.length

/-! ## One more argument -/

theorem replaceEach_of_not_mem (hs : ∀ s ∈ subs, IsMark s.1) : ∀ {cs : List Char},
    '\x7b' ∉ cs → replaceEach subs 0 cs = cs
  | [], _ => by simp [replaceEach]
  | c :: cs, h => by
    obtain ⟨hc, hcs⟩ := not_or.1 (mt List.mem_cons.2 h)
    have hnone : (subs.find? fun s => s.1.isPrefixOf (c :: cs)) = none := by
      refine List.find?_eq_none.2 fun s hmem => ?_
      obtain ⟨body, hbody, -⟩ := hs s hmem
      simp [hbody, List.isPrefixOf, hc]
    rw [replaceEach, hnone]
    simp only [replaceEach_of_not_mem hs hcs]

/-- No mark is the beginning of another. -/
theorem IsMark.eq_of_isPrefixOf (hm : IsMark m) (hm' : IsMark m') (h : m'.isPrefixOf m = true) :
    m' = m := by
  obtain ⟨body, rfl, -, hclose⟩ := hm
  obtain ⟨body', rfl, -, -⟩ := hm'
  rcases List.prefix_concat_iff.1 (List.cons_prefix_cons.1 (List.isPrefixOf_iff_prefix.1 h)).2
    with he | hp
  · exact congrArg _ he
  · exact absurd (hp.subset (by simp)) hclose

theorem find?_other (hs : ∀ s ∈ subs, IsMark s.1) (hm : IsMark m) (hne : ∀ s ∈ subs, s.1 ≠ m) :
    (subs.find? fun s => s.1.isPrefixOf m) = none :=
  List.find?_eq_none.2 fun s h hp => hne s h (hm.eq_of_isPrefixOf (hs s h) hp)

/-- A mark that stands for nothing stays. -/
theorem replaceEach_other (hs : ∀ s ∈ subs, IsMark s.1) (hm : IsMark m)
    (hne : ∀ s ∈ subs, s.1 ≠ m) : replaceEach subs 0 m = m := by
  have hnone := find?_other hs hm hne
  obtain ⟨body, rfl, hopen, -⟩ := hm
  have hrest : '\x7b' ∉ body ++ ['\x7d'] := by simp [hopen]
  rw [replaceEach, hnone]
  simp only [replaceEach_of_not_mem hs hrest]

/-- The mark of a new pair is replaced by its text. -/
theorem replaceEach_concat_self (hs : ∀ s ∈ subs, IsMark s.1) (hm : IsMark m)
    (hne : ∀ s ∈ subs, s.1 ≠ m) : replaceEach (subs ++ [(m, a)]) 0 m = a := by
  have hfind : ((subs ++ [(m, a)]).find? fun s => s.1.isPrefixOf m) = some (m, a) := by
    rw [List.find?_append, find?_other hs hm hne]
    simp
  obtain ⟨body, rfl, -, -⟩ := hm
  have hrest (subs) : replaceEach subs (body ++ ['\x7d']).length (body ++ ['\x7d']) = [] := by
    rw [replaceEach_skip, List.drop_length, replaceEach]
  rw [replaceEach, hfind]
  simp only [List.length_cons, Nat.add_sub_cancel, hrest, List.append_nil]

/-- A new pair changes nothing in a text without its mark. -/
theorem replaceEach_concat_of_none : ∀ {cs : List Char} (skip : Nat), occurrences m cs = 0 →
    replaceEach (subs ++ [(m, a)]) skip cs = replaceEach subs skip cs
  | [], _, _ => by simp [replaceEach]
  | c :: cs, skip + 1, h => by
    rw [replaceEach, replaceEach]
    exact replaceEach_concat_of_none skip (Nat.add_eq_zero_iff.1 h).2
  | c :: cs, 0, h => by
    obtain ⟨hc, hcs⟩ := Nat.add_eq_zero_iff.1 h
    have hfind : ((subs ++ [(m, a)]).find? fun s => s.1.isPrefixOf (c :: cs))
        = subs.find? fun s => s.1.isPrefixOf (c :: cs) := by
      rw [List.find?_append, List.find?_singleton, if_neg (by simpa using hc), Option.or_none]
    rw [replaceEach, replaceEach, hfind]
    simp only [replaceEach_concat_of_none _ hcs]

/-- A text with the pieces of `us` behind `u`, each after `sep`. -/
def pieced (sep u : List Char) (us : List (List Char)) : List Char :=
  u ++ us.flatMap fun v => sep ++ v

theorem pieced_cons (sep u v : List Char) (us : List (List Char)) :
    pieced sep u (v :: us) = u ++ sep ++ pieced sep v us := by
  simp [pieced]

/-- With and without a new pair, a text becomes the same pieces: around its marks, and around what
stands for them. -/
theorem exists_pieces (hs : ∀ s ∈ subs, IsMark s.1) (hm : IsMark m) (hne : ∀ s ∈ subs, s.1 ≠ m)
    (a cs : List Char) : ∃ u us, replaceEach subs 0 cs = pieced m u us
      ∧ replaceEach (subs ++ [(m, a)]) 0 cs = pieced a u us ∧ us.length = occurrences m cs := by
  have hs' : ∀ s ∈ subs ++ [(m, a)], IsMark s.1 :=
    List.forall_mem_append.2 ⟨hs, List.forall_mem_singleton.2 hm⟩
  induction cs using mark_induction hm with
  | none cs h =>
    exact ⟨replaceEach subs 0 cs, [], by simp [pieced],
      by simp [pieced, replaceEach_concat_of_none 0 h], by simp [h]⟩
  | mark xs ys hxs ih =>
    obtain ⟨u, us, hold, hnew, hlen⟩ := ih
    refine ⟨replaceEach subs 0 xs, u :: us, ?_, ?_, ?_⟩
    · rw [replaceEach_append_mark hs hm, replaceEach_other hs hm hne, hold, pieced_cons]
    · rw [replaceEach_append_mark hs' hm, replaceEach_concat_self hs hm hne, hnew, pieced_cons,
        replaceEach_concat_of_none 0 hxs]
    · rw [occurrences_append_mark hm hm, occurrences_self hm, hxs, List.length_cons, hlen]
      omega

/-! ## Arguments after one another -/

theorem replaceChars_append_mark (hm : IsMark m) (a xs ys : List Char) :
    replaceChars m a 0 (xs ++ m ++ ys) = replaceChars m a 0 xs ++ a ++ replaceChars m a 0 ys := by
  have hself : replaceEach [(m, a)] 0 m = a := by
    rw [← List.nil_append [(m, a)], replaceEach_concat_self (by simp) hm (by simp)]
  simp only [replaceChars_eq]
  rw [replaceEach_append_mark (by simpa using hm) hm, hself]

theorem replaceEach_nil : ∀ cs : List Char, replaceEach [] 0 cs = cs
  | [] => by simp [replaceEach]
  | c :: cs => by simp [replaceEach, replaceEach_nil cs]

theorem replaceChars_of_none (h : occurrences m xs = 0) (a : List Char) :
    replaceChars m a 0 xs = xs := by
  rw [replaceChars_eq, ← List.nil_append [(m, a)], replaceEach_concat_of_none 0 h, replaceEach_nil]

theorem replaceChars_pieced (hm : IsMark m) (a : List Char) (us : List (List Char)) :
    ∀ u, replaceChars m a 0 (pieced m u us)
      = pieced a (replaceChars m a 0 u) (us.map (replaceChars m a 0)) := by
  induction us with
  | nil => simp [pieced]
  | cons v us ih =>
    intro u
    rw [pieced_cons, replaceChars_append_mark hm, ih v, List.map_cons, pieced_cons]

theorem occurrences_pieced (hm : IsMark m) (us : List (List Char)) : ∀ u,
    occurrences m (pieced m u us) = ((u :: us).map (occurrences m)).sum + us.length := by
  induction us with
  | nil => simp [pieced]
  | cons v us ih =>
    intro u
    rw [pieced_cons, occurrences_append_mark hm hm, occurrences_self hm, ih v]
    simp only [List.map_cons, List.sum_cons, List.length_cons]
    omega

theorem length_pieced (sep : List Char) (us : List (List Char)) : ∀ u,
    (pieced sep u us).length = ((u :: us).map List.length).sum + us.length * sep.length := by
  induction us with
  | nil => simp [pieced]
  | cons v us ih =>
    intro u
    rw [pieced_cons, List.length_append, List.length_append, ih v]
    simp only [List.map_cons, List.sum_cons, List.length_cons, Nat.add_mul, Nat.one_mul]
    omega

theorem length_replaceChars (hm : IsMark m) (a cs : List Char) :
    (replaceChars m a 0 cs).length + occurrences m cs * m.length
      = cs.length + occurrences m cs * a.length := by
  induction cs using mark_induction hm with
  | none cs h => rw [replaceChars_of_none h, h, Nat.zero_mul, Nat.zero_mul]
  | mark xs ys hxs ih =>
    rw [replaceChars_append_mark hm, replaceChars_of_none hxs, occurrences_append_mark hm hm,
      occurrences_self hm, hxs]
    simp only [List.length_append, Nat.add_mul, Nat.zero_mul, Nat.one_mul]
    omega

theorem sum_length_replaceChars (hm : IsMark m) (a : List Char) (vs : List (List Char)) :
    ((vs.map (replaceChars m a 0)).map List.length).sum
        + (vs.map (occurrences m)).sum * m.length
      = (vs.map List.length).sum + (vs.map (occurrences m)).sum * a.length := by
  induction vs with
  | nil => simp
  | cons v vs ih =>
    have hv := length_replaceChars hm a v
    simp only [List.map_cons, List.sum_cons, Nat.add_mul]
    omega

/-- Replacing a mark that occurs changes nothing only if the mark is put for itself. -/
theorem eq_of_replaceChars_eq (hm : IsMark m) {cs : List Char} (hcs : occurrences m cs ≠ 0)
    (h : replaceChars m a 0 cs = cs) : a = m := by
  have hlen := length_replaceChars hm a cs
  rw [h, Nat.add_left_cancel_iff] at hlen
  have hsame : m.length = a.length := Nat.eq_of_mul_eq_mul_left (Nat.pos_of_ne_zero hcs) hlen
  obtain ⟨xs, ys, rfl, hxs⟩ := exists_of_occurrences hcs
  rw [replaceChars_append_mark hm, replaceChars_of_none hxs, List.append_assoc, List.append_assoc]
    at h
  exact (List.append_inj (List.append_cancel_left h) hsame.symm).1

theorem replaceChars_self (hm : IsMark m) (cs : List Char) : replaceChars m m 0 cs = cs := by
  induction cs using mark_induction hm with
  | none cs h => exact replaceChars_of_none h m
  | mark xs ys hxs ih => rw [replaceChars_append_mark hm, replaceChars_of_none hxs, ih]

/-- Texts in pieces of the same lengths are equal piece by piece. -/
theorem pieced_map_inj {f : List Char → List Char} {sep : List Char}
    (hf : ∀ v, (f v).length = v.length) (us : List (List Char)) : ∀ u,
    pieced sep (f u) (us.map f) = pieced sep u us → ∀ v ∈ u :: us, f v = v := by
  induction us with
  | nil =>
    intro u h
    simpa [pieced] using h
  | cons w us ih =>
    intro u h
    rw [List.map_cons, pieced_cons, pieced_cons, List.append_assoc, List.append_assoc] at h
    obtain ⟨hu, h⟩ := List.append_inj h (hf u)
    exact List.forall_mem_cons.2 ⟨hu, ih w (List.append_cancel_left h)⟩

/-- Putting in one more argument after the others is putting it in with them exactly if its mark
stands where the template has it and nowhere else, or is put for itself. Marks that are there for
another reason are replaced by text of the same length. -/
theorem replaceEach_concat_iff (hs : ∀ s ∈ subs, IsMark s.1) (hm : IsMark m)
    (hne : ∀ s ∈ subs, s.1 ≠ m) (a cs : List Char) :
    replaceChars m a 0 (replaceEach subs 0 cs) = replaceEach (subs ++ [(m, a)]) 0 cs
      ↔ occurrences m (replaceEach subs 0 cs) = occurrences m cs ∨ a = m := by
  obtain ⟨u, us, hold, hnew, hlen⟩ := exists_pieces hs hm hne a cs
  rw [hold, hnew, ← hlen, replaceChars_pieced hm, occurrences_pieced hm, Nat.add_eq_right]
  constructor
  · intro h
    by_cases hsum : ((u :: us).map (occurrences m)).sum = 0
    · exact .inl hsum
    · have hsame : m.length = a.length := by
        have hlen := congrArg List.length h
        have htotal := sum_length_replaceChars hm a (u :: us)
        rw [length_pieced, length_pieced, List.length_map, Nat.add_right_cancel_iff] at hlen
        rw [List.map_cons, hlen, Nat.add_left_cancel_iff] at htotal
        exact Nat.eq_of_mul_eq_mul_left (Nat.pos_of_ne_zero hsum) htotal
      have hfixed := pieced_map_inj (fun v => by
        have hv := length_replaceChars hm a v
        rwa [hsame, Nat.add_right_cancel_iff] at hv) us u h
      obtain ⟨v, hv, hocc⟩ : ∃ v ∈ u :: us, occurrences m v ≠ 0 := by
        by_contra hno
        refine hsum (List.sum_eq_zero_iff_forall_eq_nat.2 (List.forall_mem_map.2 fun v hv => ?_))
        by_contra hocc
        exact hno ⟨v, hv, hocc⟩
      exact .inr (eq_of_replaceChars_eq hm hocc (hfixed v hv))
  · rintro (hsum | rfl)
    · have hfixed : ∀ v ∈ u :: us, replaceChars m a 0 v = v := fun v hv =>
        replaceChars_of_none
          (List.sum_eq_zero_iff_forall_eq_nat.1 hsum _ (List.mem_map_of_mem hv)) a
      obtain ⟨hu, hus⟩ := List.forall_mem_cons.1 hfixed
      rw [hu, List.map_congr_left hus, List.map_id']
    · rw [replaceChars_self hm, List.map_congr_left fun v _ => replaceChars_self hm v, List.map_id']

end

/-! ## Templates -/

theorem isMark_substitutions (args : List String) : ∀ s ∈ substitutions args, IsMark s.1 := by
  simp only [substitutions, List.mem_map]
  rintro s ⟨⟨arg, i⟩, -, rfl⟩
  exact isMark_placeholder i

/-- The marks of arguments that stand before position `j` are not that of `j`. -/
theorem ne_of_mem_substitutions {args : List String} {j : Nat} (hj : args.length ≤ j) :
    ∀ s ∈ substitutions args, s.1 ≠ (placeholder j).toList := by
  simp only [substitutions, List.mem_map]
  rintro s ⟨⟨arg, i⟩, hmem, rfl⟩ he
  have hi : i < args.length := by simpa using (List.mem_zipIdx hmem).2.1
  have := placeholder_inj (String.toList_inj.1 he)
  omega

theorem substitutions_concat (args : List String) (arg : String) : substitutions (args ++ [arg])
    = substitutions args ++ [((placeholder args.length).toList, arg.toList)] := by
  simp [substitutions, List.zipIdx_append]

theorem fillFrom_concat (arg : String) : ∀ (args : List String) (i : Nat) (template : String),
    fillFrom i template (args ++ [arg])
      = replaceAll (placeholder (i + args.length)) arg (fillFrom i template args)
  | [], _, _ => rfl
  | a :: args, i, template => by
    rw [List.cons_append, fillFrom, fillFrom, fillFrom_concat arg args (i + 1), List.length_cons,
      Nat.add_assoc, Nat.add_comm 1]

/-- The step from the arguments before `arg` to all. -/
theorem fill_concat_iff {template : String} {args : List String} (arg : String)
    (h : fill template args = fillAtOnce template args) :
    fill template (args ++ [arg]) = fillAtOnce template (args ++ [arg])
      ↔ countMark args.length (fillAtOnce template args) = countMark args.length template
        ∨ arg = placeholder args.length := by
  have hstep := replaceEach_concat_iff (isMark_substitutions args) (isMark_placeholder args.length)
    (ne_of_mem_substitutions (Nat.le_refl _)) arg.toList template.toList
  have hfill : fill template (args ++ [arg])
      = replaceAll (placeholder args.length) arg (fill template args) := by
    rw [fill, fillFrom_concat, Nat.zero_add, fill]
  rw [hfill, h, replaceAll, fillAtOnce, fillAtOnce, countMark, countMark, String.toList_ofList,
    substitutions_concat, String.ofList_inj, hstep, String.toList_inj]

theorem fillAtOnce_nil (template : String) : fillAtOnce template [] = template := by
  simp [fillAtOnce, substitutions, replaceEach_nil]

/-- With the arguments before it put in at once, the mark of each argument stands as often as in the
template, or it is put for itself. -/
def Undisturbed (template : String) (args : List String) : Prop :=
  ∀ j (h : j < args.length),
    countMark j (fillAtOnce template (args.take j)) = countMark j template
      ∨ args[j] = placeholder j

theorem undisturbed_concat {template : String} {args : List String} {arg : String} :
    Undisturbed template (args ++ [arg]) ↔ Undisturbed template args
      ∧ (countMark args.length (fillAtOnce template args) = countMark args.length template
        ∨ arg = placeholder args.length) := by
  constructor
  · intro h
    refine ⟨fun j hj => ?_, ?_⟩
    · have hj' := h j (by simp; omega)
      rwa [List.take_append_of_le_length (Nat.le_of_lt hj), List.getElem_append_left hj] at hj'
    · simpa using h args.length (by simp)
  · rintro ⟨h, harg⟩ j hj
    by_cases hlt : j < args.length
    · rw [List.take_append_of_le_length (Nat.le_of_lt hlt), List.getElem_append_left hlt]
      exact h j hlt
    · obtain rfl : j = args.length := by
        simp only [List.length_append, List.length_singleton] at hj
        omega
      simpa using harg

/-- Every stage of putting the arguments in shows the text with those arguments put in at once
exactly if no mark is disturbed. -/
theorem stages_iff (template : String) (args : List String) :
    (∀ k ≤ args.length, fill template (args.take k) = fillAtOnce template (args.take k))
      ↔ Undisturbed template args := by
  induction args using List.reverseRecOn with
  | nil => simp [Undisturbed, fill, fillFrom, fillAtOnce_nil]
  | append_singleton args arg ih =>
    rw [undisturbed_concat, ← ih]
    constructor
    · intro h
      have hbefore : ∀ k ≤ args.length,
          fill template (args.take k) = fillAtOnce template (args.take k) := fun k hk => by
        have hk' := h k (by simp; omega)
        rwa [List.take_append_of_le_length hk] at hk'
      have hall := hbefore args.length (Nat.le_refl _)
      have hlast := h (args ++ [arg]).length (Nat.le_refl _)
      rw [List.take_length] at hall hlast
      exact ⟨hbefore, (fill_concat_iff arg hall).1 hlast⟩
    · rintro ⟨h, harg⟩ k hk
      by_cases hle : k ≤ args.length
      · rw [List.take_append_of_le_length hle]
        exact h k hle
      · have hall := h args.length (Nat.le_refl _)
        rw [List.take_length] at hall
        rw [List.take_of_length_le (by simp; omega)]
        exact (fill_concat_iff arg hall).2 harg

/-- The first argument meets the template as it was written. -/
theorem undisturbed_of_length_le_one {args : List String} (h : args.length ≤ 1)
    (template : String) : Undisturbed template args := by
  intro j hj
  obtain rfl : j = 0 := by omega
  exact .inl (by rw [List.take_zero, fillAtOnce_nil])

theorem fill_of_undisturbed {template : String} {args : List String}
    (h : Undisturbed template args) : fill template args = fillAtOnce template args := by
  simpa using (stages_iff template args).2 h args.length (Nat.le_refl _)

theorem fill_iff_of_length_le_two {args : List String} (h : args.length ≤ 2) (template : String) :
    fill template args = fillAtOnce template args ↔ Undisturbed template args := by
  rcases List.eq_nil_or_concat' args with rfl | ⟨before, arg, rfl⟩
  · exact ⟨fun _ => undisturbed_of_length_le_one (by simp) template, fill_of_undisturbed⟩
  · have hbefore : Undisturbed template before :=
      undisturbed_of_length_le_one (by simpa using h) template
    rw [fill_concat_iff arg (fill_of_undisturbed hbefore), undisturbed_concat]
    exact (and_iff_right hbefore).symm

/-- Putting the arguments in one by one shows at every stage what putting them in at once shows,
with no text of an argument changed, exactly if no argument is disturbed by those before it. With at
most two arguments the last stage tells. -/
theorem arguments_verbatim_iff (template : String) (args : List String) :
    ((∀ k ≤ args.length, fill template (args.take k) = fillAtOnce template (args.take k))
        ↔ Undisturbed template args)
      ∧ (args.length ≤ 2 →
        (fill template args = fillAtOnce template args ↔ Undisturbed template args)) :=
  ⟨stages_iff template args, fun h => fill_iff_of_length_le_two h template⟩

/-- The first name is the mark of the second, which is put for it as well. -/
theorem arguments_not_verbatim :
    fill "'\x7b0\x7d' from '\x7b1\x7d'" ["\x7b1\x7d", "b.ts"] = "'b.ts' from 'b.ts'"
      ∧ fillAtOnce "'\x7b0\x7d' from '\x7b1\x7d'" ["\x7b1\x7d", "b.ts"] = "'\x7b1\x7d' from 'b.ts'"
      ∧ ¬ Undisturbed "'\x7b0\x7d' from '\x7b1\x7d'" ["\x7b1\x7d", "b.ts"] := by
  have hiff := (arguments_verbatim_iff "'\x7b0\x7d' from '\x7b1\x7d'" ["\x7b1\x7d", "b.ts"]).2
    (by decide)
  exact ⟨by decide, by decide, fun h => absurd (hiff.2 h) (by decide)⟩

end DeclBundle.Text

/-! ## Reports -/

namespace DeclBundle.Cause

open Text

/-- A quote is in no mark, so the marks in front of it and behind it are counted apart. -/
theorem countMark_quoted (before s after : String) :
    countMark 1 (before ++ "'" ++ s ++ "'" ++ after)
      = countMark 1 before + countMark 1 s + countMark 1 after := by
  have hquote (xs ys : List Char) : occurrences (placeholder 1).toList (xs ++ '\'' :: ys)
      = occurrences (placeholder 1).toList xs + occurrences (placeholder 1).toList ys := by
    rw [occurrences_append (Cuts.of_not_mem (by decide)), occurrences,
      if_neg (by simp [placeholder, List.isPrefixOf]), Nat.zero_add]
  simp [countMark, hquote, Nat.add_assoc]

theorem fill_quoted {before after : String} (hbefore : countMark 0 (before ++ "'") = 0)
    (hafter : countMark 0 ("'" ++ after) = 0) (first : String) :
    fill (before ++ "'" ++ placeholder 0 ++ "'" ++ after) [first]
      = before ++ "'" ++ first ++ "'" ++ after := by
  have hmark := replaceChars_append_mark (isMark_placeholder 0) first.toList
    (before ++ "'").toList ("'" ++ after).toList
  rw [replaceChars_of_none hbefore, replaceChars_of_none hafter] at hmark
  have htext : (before ++ "'" ++ placeholder 0 ++ "'" ++ after).toList
      = (before ++ "'").toList ++ (placeholder 0).toList ++ ("'" ++ after).toList := by
    simp only [String.toList_append, List.append_assoc]
  rw [fill, fillFrom, fillFrom, replaceAll, htext, hmark, ← String.toList_inj]
  simp only [String.toList_ofList, String.toList_append, List.append_assoc]

/-- The mark of a second argument in a text with a quoted first argument. -/
theorem undisturbed_quoted (before after : String) (hbefore : countMark 0 (before ++ "'") = 0)
    (hafter : countMark 0 ("'" ++ after) = 0) (first second : String) :
    Undisturbed (before ++ "'" ++ placeholder 0 ++ "'" ++ after) [first, second]
      ↔ countMark 1 first = 0 ∨ second = placeholder 1 := by
  have hone : Undisturbed (before ++ "'" ++ placeholder 0 ++ "'" ++ after) [first] :=
    undisturbed_of_length_le_one (by simp) _
  have hzero : countMark 1 (placeholder 0) = 0 := by decide
  have hfill := (fill_of_undisturbed hone).symm.trans (fill_quoted hbefore hafter first)
  have hpair : [first, second] = [first] ++ [second] := rfl
  rw [hpair, undisturbed_concat, and_iff_right hone, List.length_singleton,
    hfill, countMark_quoted, countMark_quoted, hzero]
  refine or_congr_left ?_
  omega

/-- A report with two arguments shows them as they are unless the first has the mark of the second
in it. -/
theorem report_verbatim_iff {c : Cause} {first second : String} (h : c.args = [first, second])
    (file : String) : (c.report file).text = fillAtOnce c.template c.args
      ↔ countMark 1 first = 0 ∨ second = placeholder 1 := by
  rw [report, fill_iff_of_length_le_two (by simp [h]), h]
  cases c with
  | unresolvedImport =>
    exact undisturbed_quoted "Import " " from '\x7b1\x7d' does not resolve to any declaration."
      (by decide) (by decide) first second
  | ambiguousStarExport =>
    exact undisturbed_quoted "" (" is provided by more than one 'export *' source; "
      ++ "the losing one is exported as '\x7b1\x7d'.") (by decide) (by decide) first second
  | unresolvedExport | reexportCycle | unsupportedNode | unknownEntryExport => simp [args] at h

/-- A report with one argument always shows it as it is. -/
theorem report_verbatim {c : Cause} (h : c.args.length ≤ 1) (file : String) :
    (c.report file).text = fillAtOnce c.template c.args :=
  fill_of_undisturbed (undisturbed_of_length_le_one h c.template)

end DeclBundle.Cause
