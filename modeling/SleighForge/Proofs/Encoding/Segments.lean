import SleighForge.Proofs.Encoding.LiteralBits

/-!
# Words, segment by segment

The bits of a word above the rest of an encoding belong to its first segment. A word agrees with an
encoding if its bits there are the literal bits, or are free, and the bits below agree with the rest
(`agrees_cons_bits`, `agrees_cons_field`), and likewise for the words that an encoding accepts
(`accepts_cons_bits`, `accepts_cons_field`).
-/

namespace SleighForge

/-! ## Slices of numbers -/

theorem bitSlice_natCast (n lo width : Nat) : bitSlice n lo width = n / 2 ^ lo % 2 ^ width := by
  unfold bitSlice
  norm_cast

/-- The bits from a position up are not in a slice below it. -/
theorem bitSlice_mod {n lo width total : Nat} (h : lo + width ≤ total) :
    bitSlice (n % 2 ^ total : Nat) lo width = bitSlice n lo width := by
  apply Nat.eq_of_testBit_eq
  intro i
  rw [testBit_bitSlice, testBit_bitSlice, Nat.testBit_mod_two_pow]
  by_cases hi : i < width
  · have htotal : lo + i < total := by omega
    simp [htotal]
  · simp [hi]

/-- A slice is its upper part followed by its lower part. -/
theorem bitSlice_eq_mul_add (n lo low high : Nat) :
    bitSlice n lo (high + low) = 2 ^ low * bitSlice n (lo + low) high + bitSlice n lo low := by
  have hshift : n / 2 ^ (lo + low) = n / 2 ^ lo / 2 ^ low := by
    rw [Nat.pow_add, Nat.div_div_eq_div_mul]
  rw [bitSlice_natCast, bitSlice_natCast, bitSlice_natCast, hshift, Nat.add_comm high low,
    Nat.pow_add, Nat.mod_mul]
  omega

namespace Encoding

/-! ## Agreement -/

theorem literalBit?_cons_lt {s : Segment} {rest : Encoding} {i : Nat} (h : i < width rest) :
    literalBit? (s :: rest) i = literalBit? rest i :=
  if_pos h

theorem literalBit?_cons_add (s : Segment) (rest : Encoding) (i : Nat) :
    literalBit? (s :: rest) (width rest + i) = s.literalBit? i := by
  have hge : ¬ width rest + i < width rest := by omega
  rw [literalBit?, if_neg hge, Nat.add_sub_cancel_left]

/-- A word agrees if its upper bits agree with the first segment and the others with the rest. -/
theorem agrees_cons_iff (s : Segment) (rest : Encoding) (n : Nat) :
    agrees (s :: rest) n = true ↔
      (∀ i b, s.literalBit? i = some b → n.testBit (width rest + i) = b) ∧
        agrees rest n = true := by
  rw [agrees_natCast_iff, agrees_natCast_iff]
  constructor
  · intro h
    constructor
    · intro i b hb
      exact h _ b (by rwa [literalBit?_cons_add])
    · intro i b hb
      -- A literal bit of the rest stands below the head, where the two encodings agree.
      have hi : i < width rest := by
        apply Nat.lt_of_not_le
        intro hle
        rw [literalBit?_eq_none hle] at hb
        cases hb
      exact h i b (by rwa [literalBit?_cons_lt hi])
  · rintro ⟨hhead, hrest⟩ i b hb
    by_cases hi : i < width rest
    · exact hrest i b (by rwa [literalBit?_cons_lt hi] at hb)
    · have hsum : width rest + (i - width rest) = i := by omega
      rw [← hsum] at hb ⊢
      exact hhead _ b (by rwa [literalBit?_cons_add] at hb)

/-- Upper bits agree with a run of literal bits if they are its value. -/
theorem agrees_cons_bits (r : BitRun) (rest : Encoding) (n : Nat) :
    agrees (.bits r :: rest) n = true ↔
      bitSlice n (width rest) r.width = r.value ∧ agrees rest n = true := by
  rw [agrees_cons_iff]
  refine and_congr_left fun _ => ?_
  constructor
  · intro h
    apply Nat.eq_of_testBit_eq
    intro i
    rw [testBit_bitSlice]
    by_cases hi : i < r.width
    · rw [h i _ (if_pos hi)]
      simp [hi]
    · -- Neither the slice nor the run has bits that high.
      have hpow : 2 ^ r.width ≤ 2 ^ i := Nat.pow_le_pow_right (by decide) (Nat.le_of_not_lt hi)
      have hzero : r.value.testBit i = false :=
        Nat.testBit_lt_two_pow (Nat.lt_of_lt_of_le r.value_lt hpow)
      simp [hi, hzero]
  · intro h i b hb
    rw [Segment.literalBit?] at hb
    split at hb
    · next hi =>
      have hbit := testBit_bitSlice n (width rest) r.width i
      rw [h, Option.some.inj hb] at hbit
      simpa [hi] using hbit.symm
    · cases hb

/-- All upper bits agree with a field. -/
theorem agrees_cons_field (f : BitField) (rest : Encoding) (n : Nat) :
    agrees (.field f :: rest) n = true ↔ agrees rest n = true := by
  rw [agrees_cons_iff]
  refine and_iff_right ?_
  intro i b hb
  cases hb

/-! ## Accepted words -/

theorem accepts_natCast (e : Encoding) (n : Nat) :
    accepts e n = true ↔ n < 2 ^ width e ∧ agrees e n = true := by
  have hlt : (n : Int) < 2 ^ width e ↔ n < 2 ^ width e := by norm_cast
  rw [accepts_iff, hlt]
  simp only [Int.natCast_nonneg, true_and]

/-- A word that an encoding accepts is a natural number below the range of its width. -/
theorem exists_nat_of_accepts {e : Encoding} {word : Int} (h : accepts e word = true) :
    ∃ n : Nat, word = n ∧ n < 2 ^ width e := by
  rcases Int.eq_ofNat_of_zero_le ((accepts_iff e word).1 h).1 with ⟨n, rfl⟩
  exact ⟨n, rfl, ((accepts_natCast e n).1 h).1⟩

/-- Whether the lowest bits of a number are accepted depends on their agreement only. -/
theorem accepts_mod_width (e : Encoding) (n : Nat) :
    accepts e (n % 2 ^ width e : Nat) = true ↔ agrees e n = true := by
  have hlt : n % 2 ^ width e < 2 ^ width e := Nat.mod_lt _ (Nat.two_pow_pos _)
  have hagrees : agrees e (n % 2 ^ width e : Nat) = agrees e n := by
    rw [agrees, agrees, bitSlice_mod (by omega)]
  rw [accepts_natCast, hagrees, and_iff_right hlt]

/-- A word fits in the width if what is above the rest fits in the first segment. -/
theorem lt_two_pow_width_cons_iff (s : Segment) (rest : Encoding) (n : Nat) :
    n < 2 ^ width (s :: rest) ↔ n / 2 ^ width rest < 2 ^ s.width := by
  rw [Nat.div_lt_iff_lt_mul (Nat.two_pow_pos _), ← Nat.pow_add]
  rfl

/-- Words below a run of literal bits, cut in two. -/
theorem accepts_cons_bits (r : BitRun) (rest : Encoding) (n : Nat) :
    accepts (.bits r :: rest) n = true ↔
      n / 2 ^ width rest = r.value ∧ accepts rest (n % 2 ^ width rest : Nat) = true := by
  rw [accepts_natCast, lt_two_pow_width_cons_iff, agrees_cons_bits, accepts_mod_width,
    bitSlice_natCast, ← and_assoc]
  refine and_congr_left fun _ => ?_
  constructor
  · rintro ⟨hlt, hvalue⟩
    have hlt : n / 2 ^ width rest < 2 ^ r.width := hlt
    rwa [Nat.mod_eq_of_lt hlt] at hvalue
  · intro hvalue
    have hlt : n / 2 ^ width rest < 2 ^ r.width := hvalue ▸ r.value_lt
    exact ⟨hlt, by rwa [Nat.mod_eq_of_lt hlt]⟩

/-- Words below a field, cut in two. -/
theorem accepts_cons_field (f : BitField) (rest : Encoding) (n : Nat) :
    accepts (.field f :: rest) n = true ↔
      n / 2 ^ width rest < 2 ^ f.width ∧ accepts rest (n % 2 ^ width rest : Nat) = true := by
  rw [accepts_natCast, lt_two_pow_width_cons_iff, agrees_cons_field, accepts_mod_width]
  rfl

end Encoding

end SleighForge
