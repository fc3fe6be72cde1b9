import DeclBundle.SourceMap.Vlq

/-!
# Reading numbers back

A number ends at its first digit without the sixth bit, so it is read back whatever follows it
(`Vlq.decode_encode_append`), and a row of numbers is read back without separators
(`Vlq.decode_flatMap_encode`). All digits are from the alphabet.
-/

namespace DeclBundle.Vlq

theorem digitValue?_digitChar {n : Nat} (h : n < 64) : digitValue? (digitChar n) = some n := by
  have key : ∀ i : Fin 64, digitValue? (digitChar i) = some i.val := by decide +kernel
  exact key ⟨n, h⟩

theorem digitChar_mem {n : Nat} (h : n < 64) : digitChar n ∈ alphabet := by
  have key : ∀ i : Fin 64, digitChar i ∈ alphabet := by decide +kernel
  exact key ⟨n, h⟩

theorem toInt_ofInt (v : Int) : toInt (ofInt v) = v := by
  unfold toInt ofInt
  by_cases hv : v < 0
  · simp only [hv, if_true]
    split <;> omega
  · simp only [hv, if_false]
    split <;> omega

theorem sextets_lt (n : Nat) : ∀ d ∈ sextets n, d < 64 := by
  fun_induction sextets n with
  | case1 n h =>
    intro d hd
    rw [List.mem_singleton.1 hd]
    omega
  | case2 n h ih =>
    intro d hd
    rcases List.mem_cons.1 hd with rfl | hd
    · omega
    · exact ih d hd

theorem mem_alphabet_of_mem_encode {v : Int} {c : Char} (h : c ∈ encode v) : c ∈ alphabet := by
  obtain ⟨d, hd, rfl⟩ := List.mem_map.1 h
  exact digitChar_mem (sextets_lt _ d hd)

/-- The digits of a number are added to what has been read of it, and the number ends there. -/
theorem decodeFrom_sextets (n : Nat) (cs : List Char) : ∀ (weight partialSum : Nat) (begun : Bool),
    decodeFrom weight partialSum begun ((sextets n).map digitChar ++ cs)
      = (decode cs).map (toInt (partialSum + weight * n) :: ·) := by
  fun_induction sextets n with
  | case1 n h =>
    intro weight partialSum begun
    have hd := digitValue?_digitChar (n := n) (by omega)
    simp only [List.map_cons, List.map_nil, List.cons_append, List.nil_append, decodeFrom, hd, h,
      if_true, Nat.mod_eq_of_lt h, decode]
  | case2 n h ih =>
    intro weight partialSum begun
    have hd := digitValue?_digitChar (n := n % 32 + 32) (by omega)
    have hmore : ¬ n % 32 + 32 < 32 := by omega
    have hdigit : (n % 32 + 32) % 32 = n % 32 := by omega
    have hsum : partialSum + weight * (n % 32) + 32 * weight * (n / 32)
        = partialSum + weight * n := by
      have hn := congrArg (weight * ·) (Nat.div_add_mod n 32)
      simp only [Nat.mul_add] at hn
      rw [Nat.mul_comm 32 weight, Nat.mul_assoc]
      omega
    simp only [List.map_cons, List.cons_append, decodeFrom, hd, hmore, if_false, hdigit, ih, hsum]

/-- An encoded number is read back, and then what follows it. -/
theorem decode_encode_append (v : Int) (cs : List Char) :
    decode (encode v ++ cs) = (decode cs).map (v :: ·) := by
  rw [decode, encode, decodeFrom_sextets, Nat.zero_add, Nat.one_mul, toInt_ofInt]

theorem decode_flatMap_encode : ∀ vs : List Int, decode (vs.flatMap encode) = some vs
  | [] => rfl
  | v :: vs => by
    rw [List.flatMap_cons, decode_encode_append, decode_flatMap_encode vs, Option.map_some]

end DeclBundle.Vlq
