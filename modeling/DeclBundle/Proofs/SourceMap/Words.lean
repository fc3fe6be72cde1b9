import DeclBundle.Proofs.SourceMap.Vlq
import Mathlib.Algebra.Group.Int.Defs
import Mathlib.Algebra.Group.Nat.Defs

/-!
# Digits of words

On signed words of 64 bits the digits come from shifts and masks (`Vlq.wordDigits`). Up to the
magnitude where doubling overflows, these are the digits of the integer in the word
(`Vlq.wordDigits_doubled`), and no more than 13 of them; beyond it the shifts never come to zero
(`Vlq.wordDigits_of_neg`). What is written is read back without separators, so no written number is
the beginning of another one (`Vlq.eq_of_isPrefix_encode`).
-/

namespace DeclBundle.Vlq

/-- The magnitude of a word moved up by a bit, with the sign in the lowest one. -/
def doubled (v : Int64) : Int64 :=
  if v < 0 then ((-v) <<< 1) ||| 1 else v <<< 1

/-- The digit for the lowest five bits of a word, with the sixth bit set if a positive rest is
left. -/
def wordDigit (w : Int64) : Char :=
  let low := w &&& 31
  digitChar (if (0 : Int64) < w >>> 5 then low ||| 32 else low).toNatClampNeg

/-- The digits that are written until no rest is left, if that takes at most so many rounds. -/
def wordDigits : (rounds : Nat) → Int64 → Option (List Char)
  | 0, _ => none
  | rounds + 1, w =>
    if w >>> 5 = 0 then some [wordDigit w]
    else (wordDigits rounds (w >>> 5)).map (wordDigit w :: ·)

/-! ## Shifts and masks -/

variable {w : Int64} {n : Nat}

theorem toInt_shiftRight_five (w : Int64) : (w >>> 5).toInt = w.toInt / 32 := by
  have hfive : ((5 : Int64).toBitVec.smod 64).toNat = 5 := by decide
  rw [← Int64.toInt_toBitVec, Int64.toBitVec_shiftRight, BitVec.toInt_sshiftRight', hfive,
    Int64.toInt_toBitVec, Int.shiftRight_eq_div_pow]
  rfl

theorem shiftRight_eq_zero (h : w.toInt = n) : w >>> 5 = 0 ↔ n < 32 := by
  rw [← Int64.toInt_inj, toInt_shiftRight_five, h, Int64.toInt_zero]
  omega

theorem shiftRight_pos (h : w.toInt = n) : (0 : Int64) < w >>> 5 ↔ ¬ n < 32 := by
  rw [Int64.lt_iff_toInt_lt, toInt_shiftRight_five, h, Int64.toInt_zero]
  omega

theorem eq_ofNat (h : w.toInt = n) : w = Int64.ofNat n := by
  have hlt := w.toInt_lt
  rw [← Int64.toInt_inj, Int64.toInt_ofNat_of_lt (by omega), h]

theorem and_eq_ofNat (h : w.toInt = n) : w &&& 31 = Int64.ofNat (n % 32) := by
  have hlt := w.toInt_lt
  have hmask : (31 : Int64).toBitVec.toNat = 2 ^ 5 - 1 := rfl
  rw [eq_ofNat h, ← Int64.toBitVec_inj, ← BitVec.toNat_inj, Int64.toBitVec_and, BitVec.toNat_and,
    hmask, Nat.and_two_pow_sub_one_eq_mod, Int64.toBitVec_ofNat', Int64.toBitVec_ofNat',
    BitVec.toNat_ofNat, BitVec.toNat_ofNat]
  omega

theorem toNatClampNeg_or {k : Nat} (h : k < 32) :
    (Int64.ofNat k ||| 32).toNatClampNeg = k + 32 := by
  have key : ∀ i : Fin 32, (Int64.ofNat i ||| 32).toNatClampNeg = i + 32 := by decide +kernel
  exact key ⟨k, h⟩

theorem wordDigit_eq (h : w.toInt = n) :
    wordDigit w = digitChar (if n < 32 then n else n % 32 + 32) := by
  have hlow : n % 32 < 32 := Nat.mod_lt n (by decide)
  by_cases hn : n < 32
  · rw [wordDigit, if_neg fun hp => (shiftRight_pos h).1 hp hn, if_pos hn, and_eq_ofNat h,
      Nat.mod_eq_of_lt hn, Int64.toNatClampNeg_ofNat_of_lt (by omega)]
  · rw [wordDigit, if_pos ((shiftRight_pos h).2 hn), if_neg hn, and_eq_ofNat h,
      toNatClampNeg_or hlow]

/-- The digits of a word that is not negative are those of its number. -/
theorem wordDigits_eq : ∀ {rounds n : Nat} {w : Int64}, w.toInt = n → n < 32 ^ (rounds + 1) →
    wordDigits (rounds + 1) w = some ((sextets n).map digitChar)
  | rounds, n, w, h, hn => by
    rw [wordDigits, wordDigit_eq h, sextets]
    by_cases hsmall : n < 32
    · simp only [(shiftRight_eq_zero h).2 hsmall, hsmall, if_true, List.map_singleton]
    · have hrest : (w >>> 5).toInt = (n / 32 : Nat) := by
        rw [toInt_shiftRight_five, h]
        rfl
      rw [if_neg fun hz => hsmall ((shiftRight_eq_zero h).1 hz), if_neg hsmall, if_neg hsmall]
      cases rounds with
      | zero => exact absurd hn hsmall
      | succ rounds =>
        have hlt : n / 32 < 32 ^ (rounds + 1) := by
          rw [Nat.pow_succ] at hn
          exact Nat.div_lt_of_lt_mul (by omega)
        rw [wordDigits_eq hrest hlt, Option.map_some, List.map_cons]

theorem shiftLeft_one (n : Nat) : Int64.ofNat n <<< 1 = Int64.ofNat (2 * n) := by
  have hone : ((1 : Int64).toBitVec.smod 64).toNat = 1 := by decide
  rw [← Int64.toBitVec_inj, ← BitVec.toNat_inj, Int64.toBitVec_shiftLeft, BitVec.shiftLeft_eq',
    hone, BitVec.toNat_shiftLeft, Int64.toBitVec_ofNat', Int64.toBitVec_ofNat',
    BitVec.toNat_ofNat, BitVec.toNat_ofNat, Nat.shiftLeft_eq]
  omega

theorem or_one (h : n < 2 ^ 63) :
    Int64.ofNat (2 * n) ||| 1 = Int64.ofNat (2 * n + 1) := by
  have hone : (1 : Int64).toBitVec.toNat = 1 := rfl
  rw [← Int64.toBitVec_inj, ← BitVec.toNat_inj, Int64.toBitVec_or, BitVec.toNat_or, hone,
    Int64.toBitVec_ofNat', Int64.toBitVec_ofNat', BitVec.toNat_ofNat, BitVec.toNat_ofNat,
    Nat.mod_eq_of_lt (by omega), Nat.mod_eq_of_lt (by omega)]
  exact (Nat.two_pow_add_eq_or_of_lt (i := 1) (by decide) n).symm

theorem doubled_ofInt {v : Int} (h : v.natAbs < 2 ^ 63) :
    doubled (Int64.ofInt v) = Int64.ofNat (ofInt v) := by
  have hv : (Int64.ofInt v).toInt = v := Int64.toInt_ofInt_of_le (by omega) (by omega)
  have hsign : Int64.ofInt v < 0 ↔ v < 0 := by
    rw [Int64.lt_iff_toInt_lt, hv, Int64.toInt_zero]
  unfold doubled ofInt
  by_cases hneg : v < 0
  · have hword : -Int64.ofInt v = Int64.ofNat v.natAbs := by
      rw [← Int64.ofInt_neg, ← Int.ofNat_natAbs_of_nonpos (Int.le_of_lt hneg)]
      rfl
    rw [if_pos (hsign.2 hneg), if_pos hneg, hword, shiftLeft_one, or_one h]
  · have hword : Int64.ofInt v = Int64.ofNat v.natAbs := by
      rw [← Int64.ofInt_eq_ofNat, Int.natAbs_of_nonneg (Int.not_lt.1 hneg)]
    rw [if_neg fun hlt => hneg (hsign.1 hlt), if_neg hneg, hword, shiftLeft_one]

theorem ofInt_lt_iff (v : Int) {k : Nat} : ofInt v < 2 * k ↔ v.natAbs < k := by
  unfold ofInt
  split <;> omega

/-- Below the limit, what is written are the digits of the integer, and no more than 13. -/
theorem wordDigits_doubled {v : Int} (h : v.natAbs < 2 ^ 62) {rounds : Nat} (hr : 13 ≤ rounds) :
    wordDigits rounds (doubled (Int64.ofInt v)) = some (encode v) := by
  obtain ⟨rounds, rfl⟩ := Nat.exists_eq_add_of_le' (Nat.lt_of_lt_of_le (by decide : 0 < 13) hr)
  have hlt : ofInt v < 2 ^ 63 := (ofInt_lt_iff v).2 h
  have hpow : (32 : Nat) ^ 13 ≤ 32 ^ (rounds + 1) := Nat.pow_le_pow_right (by decide) hr
  rw [doubled_ofInt (by omega)]
  exact wordDigits_eq (Int64.toInt_ofNat_of_lt hlt) (by omega)

/-- From a negative word on there is always a rest. -/
theorem wordDigits_of_neg : ∀ (rounds : Nat) {w : Int64}, w.toInt < 0 → wordDigits rounds w = none
  | 0, _, _ => rfl
  | rounds + 1, w, h => by
    have hrest : (w >>> 5).toInt < 0 := by
      rw [toInt_shiftRight_five]
      omega
    have hne : w >>> 5 ≠ 0 := fun hz => by
      rw [hz] at hrest
      exact absurd hrest (by decide)
    rw [wordDigits, if_neg hne, wordDigits_of_neg rounds hrest, Option.map_none]

/-- Writing the integer of a word comes to an end exactly if doubling does not make it negative. -/
theorem exists_wordDigits_iff {v : Int} (h : v.natAbs < 2 ^ 63) :
    (∃ rounds cs, wordDigits rounds (doubled (Int64.ofInt v)) = some cs) ↔ v.natAbs < 2 ^ 62 := by
  constructor
  · rintro ⟨rounds, cs, hcs⟩
    refine Nat.lt_of_not_le fun hge => ?_
    have hlt : ofInt v < 2 ^ 64 := (ofInt_lt_iff v).2 h
    have hle : ¬ ofInt v < 2 ^ 63 := fun hlt => Nat.not_lt_of_le hge ((ofInt_lt_iff v).1 hlt)
    have hneg : (doubled (Int64.ofInt v)).toInt < 0 := by
      rw [doubled_ofInt h, Int64.toInt_ofNat', Int.bmod]
      have hsize : Int64.size = 2 ^ 64 := rfl
      rw [hsize]
      split <;> omega
    rw [wordDigits_of_neg rounds hneg] at hcs
    cases hcs
  · exact fun hlt => ⟨13, _, wordDigits_doubled hlt (Nat.le_refl 13)⟩

/-! ## Reading back -/

/-- An encoded number is not the beginning of another one. -/
theorem eq_of_isPrefix_encode {u v : Int} (h : encode u <+: encode v) : u = v := by
  obtain ⟨rest, hrest⟩ := h
  have hv : decode (encode v) = some [v] := by
    rw [← List.append_nil (encode v), decode_encode_append]
    rfl
  rw [← hrest, decode_encode_append] at hv
  obtain ⟨vs, -, hvs⟩ := Option.map_eq_some_iff.1 hv
  exact (List.cons.inj hvs).1

theorem nodup_alphabet : alphabet.Nodup := by decide +kernel

/-- Integers below the limit are written in at most 13 rounds each. What is written, one after the
other, is read back as just these integers; its characters are from the alphabet, which has 64
different ones; and no integer is written as the beginning of another one. -/
theorem self_delimiting (vs : List Int) (h : ∀ v ∈ vs, v.natAbs < 2 ^ 62) :
    (∀ v ∈ vs, ∀ rounds ≥ 13, wordDigits rounds (doubled (Int64.ofInt v)) = some (encode v))
    ∧ decode (vs.flatMap encode) = some vs
    ∧ (∀ v ∈ vs, ∀ c ∈ encode v, c ∈ alphabet) ∧ alphabet.Nodup ∧ alphabet.length = 64
    ∧ ∀ u ∈ vs, ∀ v ∈ vs, encode u <+: encode v → u = v :=
  ⟨fun v hv _ hr => wordDigits_doubled (h v hv) hr, decode_flatMap_encode vs,
    fun _ _ _ hc => mem_alphabet_of_mem_encode hc, nodup_alphabet, by decide,
    fun _ _ _ _ => eq_of_isPrefix_encode⟩

/-- Both ends of the range take 12 digits and the last one. -/
theorem self_delimiting_limits : let vs : List Int := [2 ^ 62 - 1, 0, -(2 ^ 62 - 1), 16]
    (∀ v ∈ vs, v.natAbs < 2 ^ 62)
    ∧ encode (2 ^ 62 - 1) = "+///////////H".toList
    ∧ encode (-(2 ^ 62 - 1)) = "////////////H".toList
    ∧ decode (vs.flatMap encode) = some vs := by
  intro vs
  have h : ∀ v ∈ vs, v.natAbs < 2 ^ 62 := by decide
  obtain ⟨hwritten, hread, -⟩ := self_delimiting vs h
  have hfirst := hwritten (2 ^ 62 - 1) (by decide) 13 (by decide)
  have hlast := hwritten (-(2 ^ 62 - 1)) (by decide) 13 (by decide)
  exact ⟨h, Option.some.inj (hfirst.symm.trans (by decide +kernel)),
    Option.some.inj (hlast.symm.trans (by decide +kernel)), hread⟩

end DeclBundle.Vlq
