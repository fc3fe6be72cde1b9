import DeclBundle.Proofs.Names.Scopes
import Mathlib.Data.Finset.Card
import Mathlib.Data.Finset.Dedup
import Mathlib.Data.Finset.Range
import Mathlib.Order.Bounds.Basic

/-!
# The search for a number

The search tries one number after the other, and a number that is rejected is one of a taken name
(`Searches`). It can only end on the first number that is free (`searches_iff`), and the rejected
names are different taken ones, so there are no more of them than of those (`le_card_of_rejected`).
So the steps that `unusedName` allows are always enough.
-/

namespace DeclBundle

/-- From number `n` on the search rejects some names that are taken and ends with `name`. -/
inductive Searches (taken : String → Prop) (base : String) : (n rejected : Nat) → String → Prop
  | found {n : Nat} (h : ¬ taken (suffixed base n)) : Searches taken base n 0 (suffixed base n)
  | next {n rejected : Nat} {name : String} (h : taken (suffixed base n))
      (rest : Searches taken base (n + 1) rejected name) : Searches taken base n (rejected + 1) name

variable {taken : String → Prop} {base name : String} {n rejected : Nat}

/-- The search ends on the first number that is free. -/
theorem searches_iff : ∀ {rejected n : Nat}, Searches taken base n rejected name
    ↔ name = suffixed base (n + rejected) ∧ ¬ taken name
      ∧ ∀ k, n ≤ k → k < n + rejected → taken (suffixed base k)
  | 0, n => by
    constructor
    · rintro ⟨h⟩
      exact ⟨rfl, h, fun k hk hlt => absurd hlt (Nat.not_lt_of_le hk)⟩
    · rintro ⟨rfl, hfree, -⟩
      exact .found hfree
  | rejected + 1, n => by
    rw [← Nat.add_assoc, Nat.add_right_comm]
    constructor
    · rintro (_ | ⟨h, rest⟩)
      obtain ⟨hname, hfree, hbelow⟩ := searches_iff.1 rest
      refine ⟨hname, hfree, fun k hk hlt => ?_⟩
      rcases Nat.eq_or_lt_of_le hk with rfl | hk
      · exact h
      · exact hbelow k hk hlt
    · rintro ⟨hname, hfree, hbelow⟩
      refine .next (hbelow n (Nat.le_refl n) (by omega)) (searches_iff.2 ⟨hname, hfree, ?_⟩)
      exact fun k hk => hbelow k (Nat.le_of_succ_le hk)

theorem Searches.unique {rejected' : Nat} {name' : String} (h : Searches taken base n rejected name)
    (h' : Searches taken base n rejected' name') : rejected' = rejected ∧ name' = name := by
  induction h generalizing rejected' with
  | found hfree =>
    cases h' with
    | found => exact ⟨rfl, rfl⟩
    | next htaken => exact absurd htaken hfree
  | next htaken rest ih =>
    cases h' with
    | found hfree => exact absurd htaken hfree
    | next _ rest' =>
      obtain ⟨rfl, rfl⟩ := ih rest'
      exact ⟨rfl, rfl⟩

/-- Different numbers give different names, so no more are rejected than are taken. -/
theorem le_card_of_rejected {taken : List String} (h : ∀ k < n, suffixed base k ∈ taken) :
    n ≤ taken.toFinset.card := by
  rw [← Finset.card_range n]
  refine Finset.card_le_card_of_injOn (suffixed base) ?_ fun _ _ _ _ => suffixed_inj
  intro k hk
  simpa using h k (by simpa using hk)

theorem toList_suffixed (base : String) (n : Nat) :
    (suffixed base n).toList = base.toList ++ '_' :: '$' :: Nat.toDigits 10 n := by
  simp [suffixed]

/-- The search from number 0 ends, in just one way: after no more rejections than there are taken
names, on the first number whose name is free. The number is written in decimal. -/
theorem first_free_number (taken : List String) (base : String) : ∃ n,
    (∀ rejected name, Searches (· ∈ taken) base 0 rejected name
      ↔ rejected = n ∧ name = unusedName taken base)
    ∧ n ≤ taken.toFinset.card
    ∧ IsLeast {k | suffixed base k ∉ taken} n
    ∧ unusedName taken base = suffixed base n
    ∧ (unusedName taken base).toList = base.toList ++ '_' :: '$' :: Nat.toDigits 10 n := by
  obtain ⟨n, hname, hfree, hbelow⟩ := firstFree_unusedName taken base
  have hends : Searches (· ∈ taken) base 0 n (unusedName taken base) :=
    searches_iff.2 ⟨by rw [Nat.zero_add, hname], hfree, fun k _ hk => hbelow k (by omega)⟩
  refine ⟨n, fun rejected name => ⟨fun h => hends.unique h, ?_⟩, le_card_of_rejected hbelow,
    ⟨?_, fun k hk => ?_⟩, hname, hname ▸ toList_suffixed base n⟩
  · rintro ⟨rfl, rfl⟩
    exact hends
  · show suffixed base n ∉ taken
    rwa [← hname]
  · exact Nat.le_of_not_lt fun hlt => hk (hbelow k hlt)

/-- The base may end in a number already. -/
example : unusedName ["T_$0", "T_$0_$0", "T_$0_$2"] "T_$0" = "T_$0_$1" := by decide +kernel

end DeclBundle
