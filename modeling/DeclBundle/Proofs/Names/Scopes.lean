import DeclBundle.Names.Scopes
import DeclBundle.Proofs.Table

/-!
# Names that are chosen are free

Different numbers give different names, so among one more of them than there are taken names one is
free (`unusedName_not_mem`), and the search ends on the first that is (`firstFree_unusedName`). The
name that a scope gives out is therefore taken nowhere in its chain
(`Scopes.bind_not_mem`), and from then on it is (`Scopes.mem_taken_bind`).
-/

namespace DeclBundle

theorem suffixed_inj {base : String} {m n : Nat} (h : suffixed base m = suffixed base n) :
    m = n := by
  have hd : Nat.toDigits 10 m = Nat.toDigits 10 n := by
    simpa [suffixed, ← String.toList_inj] using h
  calc
    m = Nat.ofDigitChars 10 (Nat.toDigits 10 m) 0 := Nat.ofDigitChars_ten_toDigits.symm
    _ = Nat.ofDigitChars 10 (Nat.toDigits 10 n) 0 := congrArg (Nat.ofDigitChars 10 · 0) hd
    _ = n := Nat.ofDigitChars_ten_toDigits

/-- `rest` holds the taken names that the search has not come upon before number `n`. -/
theorem firstSuffixed_not_mem {taken : List String} {base : String} :
    ∀ {steps n : Nat} {rest : List String}, rest.length ≤ steps →
      (∀ x ∈ taken, x ∈ rest ∨ ∃ k < n, x = suffixed base k) →
        firstSuffixed taken base steps n ∉ taken
  | 0, n, rest, hlen, hrest => by
    intro hm
    rcases hrest _ hm with h | ⟨k, hk, h⟩
    · rw [List.eq_nil_of_length_eq_zero (Nat.le_zero.1 hlen)] at h
      simp at h
    · exact absurd (suffixed_inj h) (Nat.ne_of_gt hk)
  | steps + 1, n, rest, hlen, hrest => by
    simp only [firstSuffixed]
    split
    · rename_i hm
      have hn : suffixed base n ∈ rest := by
        rcases hrest _ hm with h | ⟨k, hk, h⟩
        · exact h
        · exact absurd (suffixed_inj h) (Nat.ne_of_gt hk)
      have hpos := List.length_pos_of_mem hn
      have hlen' : (rest.erase (suffixed base n)).length ≤ steps := by
        rw [List.length_erase_of_mem hn]
        omega
      refine firstSuffixed_not_mem hlen' fun x hx => ?_
      rcases hrest x hx with h | ⟨k, hk, h⟩
      · by_cases he : x = suffixed base n
        · exact .inr ⟨n, Nat.lt_succ_self n, he⟩
        · exact .inl ((List.mem_erase_of_ne he).2 h)
      · exact .inr ⟨k, Nat.lt_succ_of_lt hk, h⟩
    · assumption

/-- The search for a number ends on a name that is not taken. -/
theorem unusedName_not_mem (taken : List String) (base : String) : unusedName taken base ∉ taken :=
  firstSuffixed_not_mem (Nat.le_refl _) fun _ hx => .inl hx

/-- `name` is the first numbered form of `base` that is not taken. -/
def FirstFree (taken : String → Prop) (base name : String) : Prop :=
  ∃ n, name = suffixed base n ∧ ¬ taken name ∧ ∀ k < n, taken (suffixed base k)

theorem FirstFree.congr {taken taken' : String → Prop} (h : ∀ x, taken x ↔ taken' x)
    {base name : String} (hf : FirstFree taken base name) : FirstFree taken' base name := by
  obtain ⟨n, hn, hfree, hmin⟩ := hf
  exact ⟨n, hn, fun ht => hfree ((h _).2 ht), fun k hk => (h _).1 (hmin k hk)⟩

theorem dollar_mem_suffixed (base : String) (n : Nat) : '$' ∈ (suffixed base n).toList := by
  simp [suffixed]

theorem suffixed_ne (base : String) (n : Nat) : suffixed base n ≠ base := by
  intro h
  have hl := congrArg String.length h
  have hs : "_$".length = 2 := rfl
  simp only [suffixed, String.length_append] at hl
  omega

theorem firstSuffixed_min (taken : List String) (base : String) : ∀ steps n : Nat,
    ∃ m, firstSuffixed taken base steps n = suffixed base m
      ∧ ∀ k, n ≤ k → k < m → suffixed base k ∈ taken
  | 0, n => ⟨n, rfl, fun k hk hkn => absurd hkn (Nat.not_lt_of_le hk)⟩
  | steps + 1, n => by
    simp only [firstSuffixed]
    split
    · rename_i hm
      obtain ⟨m, he, hmin⟩ := firstSuffixed_min taken base steps (n + 1)
      refine ⟨m, he, fun k hk hkm => ?_⟩
      rcases Nat.eq_or_lt_of_le hk with rfl | hk
      · exact hm
      · exact hmin k hk hkm
    · exact ⟨n, rfl, fun k hk hkn => absurd hkn (Nat.not_lt_of_le hk)⟩

theorem firstFree_unusedName (taken : List String) (base : String) :
    FirstFree (· ∈ taken) base (unusedName taken base) := by
  obtain ⟨n, he, hmin⟩ := firstSuffixed_min taken base taken.length 0
  exact ⟨n, he, unusedName_not_mem taken base, fun k hk => hmin k (Nat.zero_le k) hk⟩

namespace Scopes

variable {s : Scopes}

theorem mem_taken {name : String} : name ∈ s.taken ↔ name ∈ s.root.keys ∨ name ∈ s.inner.flatten :=
  List.mem_append

theorem choose_not_mem (s : Scopes) (preferred : String) : s.choose preferred ∉ s.taken := by
  unfold choose
  split
  · rename_i h
    simpa [isFree] using h
  · exact unusedName_not_mem _ _

theorem bind_fst (s : Scopes) (preferred : String) (owner : Option ModuleId) :
    (s.bind preferred owner).1 = s.choose preferred := by
  unfold bind
  split <;> rfl

/-- A name that is given out is a free one. -/
theorem bind_not_mem (s : Scopes) (preferred : String) (owner : Option ModuleId) :
    (s.bind preferred owner).1 ∉ s.taken := by
  rw [bind_fst]
  exact s.choose_not_mem preferred

/-- A name that is given out is taken from then on, and the others stay taken. -/
theorem mem_taken_bind {preferred name : String} {owner : Option ModuleId} :
    name ∈ (s.bind preferred owner).2.taken
      ↔ name ∈ s.taken ∨ name = (s.bind preferred owner).1 := by
  obtain ⟨root, inner⟩ := s
  cases inner with
  | nil => simp [bind, mem_taken, Table.keys_insert, mem_pushNew]
  | cons scope outer =>
    simp only [bind, mem_taken, List.flatten_cons, List.mem_append, mem_pushNew]
    constructor
    · rintro (h | (h | h) | h)
      · exact .inl (.inl h)
      · exact .inl (.inr (.inl h))
      · exact .inr h
      · exact .inl (.inr (.inr h))
    · rintro ((h | h | h) | h)
      · exact .inl h
      · exact .inr (.inl (.inl h))
      · exact .inr (.inr h)
      · exact .inr (.inl (.inr h))

/-- Outside of all scopes a name is taken at the top level. -/
theorem bind_root (h : s.inner = []) (preferred : String) (owner : Option ModuleId) :
    (s.bind preferred owner).2.inner = []
      ∧ (s.bind preferred owner).2.root = s.root.insert (s.bind preferred owner).1 owner := by
  simp [bind, h]

/-- Outside of all scopes, names that are reserved are taken at the top level. -/
theorem taken_foldl_reserve : ∀ (xs : List String) {s : Scopes}, s.inner = [] →
    (xs.foldl reserve s).inner = [] ∧ ∀ x, x ∈ (xs.foldl reserve s).taken ↔ x ∈ s.taken ∨ x ∈ xs
  | [], _, h => ⟨h, fun x => by simp⟩
  | y :: ys, s, h => by
    obtain ⟨h1, h2⟩ := taken_foldl_reserve ys (s := s.reserve y) h
    refine ⟨h1, fun x => ?_⟩
    rw [List.foldl_cons, h2, mem_taken, mem_taken]
    simp [reserve, h, or_assoc]

end Scopes

end DeclBundle
