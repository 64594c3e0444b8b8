import SleighForge.Encoding.Opening
import SleighForge.Encoding.Word

/-!
# Literal bits, one by one

An encoding fixes some bits of its words and leaves the others to its fields. `literalBit?` tells
for each position to what bit it is fixed, if it is. The main statements read the rest of an
encoding off it:

* `testBit_literalMask`, `testBit_literalValue`: mask and value, bit by bit;
* `isSome_literalBit?_iff`: the fixed positions are those that no field covers;
* `agrees_iff`: a word agrees with an encoding where it has all fixed bits;
* `bitSlice_of_accepts`: a slice without fields holds the literal bits in every accepted word.
-/

namespace SleighForge

/-- A slice has the bits of the word from its lowest one on. -/
theorem testBit_bitSlice (n lo width i : Nat) :
    (bitSlice n lo width).testBit i = (decide (i < width) && n.testBit (lo + i)) := by
  have hcast : bitSlice n lo width = n / 2 ^ lo % 2 ^ width := by
    unfold bitSlice
    norm_cast
  rw [hcast, Nat.testBit_mod_two_pow, Nat.testBit_div_two_pow, Nat.add_comm lo i]

/-- A slice is cut out by dividing and taking the remainder. -/
theorem natCast_bitSlice (word : Int) (lo width : Nat) :
    (bitSlice word lo width : Int) = word / 2 ^ lo % 2 ^ width :=
  Int.toNat_of_nonneg (Int.emod_nonneg _ (Int.ne_of_gt (Int.pow_pos (by decide))))

/-- The bit of a segment at a position, if it is a literal bit. -/
def Segment.literalBit? : Segment → Nat → Option Bool
  | bits r, i => if i < r.width then some (r.value.testBit i) else none
  | field _, _ => none

theorem Segment.literalBit?_eq_none {s : Segment} {i : Nat} (h : s.width ≤ i) :
    s.literalBit? i = none := by
  cases s with
  | bits r => exact if_neg (Nat.not_lt_of_le h)
  | field f => rfl

namespace Encoding

/-- The bit to which a position is fixed, if it is. -/
def literalBit? : Encoding → Nat → Option Bool
  | [], _ => none
  | s :: rest, i => if i < width rest then literalBit? rest i else s.literalBit? (i - width rest)

/-- There are no literal bits beyond the width. -/
theorem literalBit?_eq_none {e : Encoding} {i : Nat} (h : width e ≤ i) :
    literalBit? e i = none := by
  cases e with
  | nil => rfl
  | cons s rest =>
    simp only [width] at h
    rw [literalBit?, if_neg (by omega), Segment.literalBit?_eq_none (by omega)]

/-! ## Mask and value -/

theorem literalMask_lt (e : Encoding) : literalMask e < 2 ^ width e := by
  induction e with
  | nil => simp [literalMask, width]
  | cons s rest ih =>
    cases s with
    | bits r =>
      -- The ones of the run, put on top of a mask below `2 ^ width rest`.
      have hpos := Nat.two_pow_pos r.width
      have hsum : 2 ^ width rest * (2 ^ r.width - 1) + 2 ^ width rest
          = 2 ^ (r.width + width rest) := by
        rw [← Nat.mul_succ, Nat.succ_eq_add_one, Nat.sub_add_cancel hpos, Nat.pow_add,
          Nat.mul_comm]
      simp only [literalMask, width, Segment.width]
      omega
    | field f =>
      calc literalMask rest < 2 ^ width rest := ih
        _ ≤ 2 ^ (f.width + width rest) := Nat.pow_le_pow_right (by decide) (by omega)

theorem literalValue_lt (e : Encoding) : literalValue e < 2 ^ width e := by
  induction e with
  | nil => simp [literalValue, width]
  | cons s rest ih =>
    cases s with
    | bits r =>
      have hmul : 2 ^ width rest * (r.value + 1) ≤ 2 ^ width rest * 2 ^ r.width :=
        Nat.mul_le_mul_left _ r.value_lt
      simp only [literalValue, width, Segment.width, Nat.pow_add]
      rw [Nat.mul_comm (2 ^ r.width)]
      rw [Nat.mul_succ] at hmul
      omega
    | field f =>
      calc literalValue rest < 2 ^ width rest := ih
        _ ≤ 2 ^ (f.width + width rest) := Nat.pow_le_pow_right (by decide) (by omega)

/-- The mask has a one at each literal bit. -/
theorem testBit_literalMask (e : Encoding) (i : Nat) :
    (literalMask e).testBit i = (literalBit? e i).isSome := by
  induction e with
  | nil => simp [literalMask, literalBit?]
  | cons s rest ih =>
    cases s with
    | bits r =>
      rw [literalMask, Nat.testBit_two_pow_mul_add _ (literalMask_lt rest), literalBit?]
      -- The mask of the rest stays below the run, so a bit comes from one of the two.
      split
      · exact ih
      · next hi =>
        rw [Nat.testBit_two_pow_sub_one, Segment.literalBit?]
        by_cases htop : i - width rest < r.width
        · simp [htop]
        · simp [htop]
    | field f =>
      rw [literalMask, literalBit?, ih, Segment.literalBit?]
      split
      · rfl
      · next hi => rw [literalBit?_eq_none (Nat.le_of_not_lt hi)]

/-- The literal value has the literal bits, and zeros elsewhere. -/
theorem testBit_literalValue (e : Encoding) (i : Nat) :
    (literalValue e).testBit i = (literalBit? e i).getD false := by
  induction e with
  | nil => simp [literalValue, literalBit?]
  | cons s rest ih =>
    cases s with
    | bits r =>
      rw [literalValue, Nat.testBit_two_pow_mul_add _ (literalValue_lt rest), literalBit?]
      split
      · exact ih
      · next hi =>
        rw [Segment.literalBit?]
        by_cases htop : i - width rest < r.width
        · simp [htop]
        · -- Past the run nothing is literal, and its value is too small to have the bit.
          have hlow : r.value < 2 ^ (i - width rest) :=
            Nat.lt_of_lt_of_le r.value_lt (Nat.pow_le_pow_right (by decide) (by omega))
          simp [htop, Nat.testBit_lt_two_pow hlow]
    | field f =>
      rw [literalValue, literalBit?, ih, Segment.literalBit?]
      split
      · rfl
      · next hi => rw [literalBit?_eq_none (Nat.le_of_not_lt hi)]

/-! ## Fixed positions -/

theorem fields_cons_bits (r : BitRun) (rest : Encoding) : fields (.bits r :: rest) = fields rest :=
  rfl

theorem fields_cons_field (f : BitField) (rest : Encoding) :
    fields (.field f :: rest) = f :: fields rest :=
  rfl

/-- A field that is not misplaced lies within the width. -/
theorem hi_le_width {e : Encoding} (hp : Placed e) {f : BitField} (hf : f ∈ fields e) :
    f.hi ≤ width e := by
  induction e with
  | nil => simp [fields] at hf
  | cons s rest ih =>
    cases s with
    | bits r =>
      have := ih hp.2 hf
      simp only [width]
      omega
    | field g =>
      rw [fields_cons_field, List.mem_cons] at hf
      rcases hf with rfl | hf
      · have hlo : f.lo = width rest := lo_eq_width hp
        have := f.lo_lt_hi
        simp only [width, Segment.width, BitField.width]
        omega
      · have := ih hp.2 hf
        simp only [width]
        omega

/-- Each field lies above those that follow it. -/
theorem pairwise_fields {e : Encoding} (hp : Placed e) :
    (fields e).Pairwise fun f g => g.hi ≤ f.lo := by
  induction e with
  | nil => exact .nil
  | cons s rest ih =>
    cases s with
    | bits r => exact ih hp.2
    | field f =>
      have hlo : f.lo = width rest := lo_eq_width hp
      rw [fields_cons_field, List.pairwise_cons]
      refine ⟨?_, ih hp.2⟩
      intro g hg
      rw [hlo]
      exact hi_le_width hp.2 hg

/-- A position is fixed if it is in the word and no field covers it. -/
theorem isSome_literalBit?_iff {e : Encoding} (hp : Placed e) (i : Nat) :
    (literalBit? e i).isSome ↔ i < width e ∧ ∀ f ∈ fields e, i < f.lo ∨ f.hi ≤ i := by
  induction e with
  | nil => simp [literalBit?, width]
  | cons s rest ih =>
    by_cases hi : i < width rest
    · -- The position is below the first segment, which therefore covers it in no case.
      have hbelow : i < width (s :: rest) := by
        simp only [width]
        omega
      have hstep : literalBit? (s :: rest) i = literalBit? rest i := by simp [literalBit?, hi]
      rw [hstep, ih hp.2]
      cases s with
      | bits r => simp [fields_cons_bits, hi, hbelow]
      | field f =>
        have hlo : f.lo = width rest := lo_eq_width hp
        have hout : i < f.lo ∨ f.hi ≤ i := .inl (by omega)
        simp [fields_cons_field, hi, hbelow, hout]
    · -- The position is in the first segment or above it, where no field of the rest reaches.
      cases s with
      | bits r =>
        have hclear : ∀ f ∈ fields rest, i < f.lo ∨ f.hi ≤ i := fun f hf =>
          .inr (Nat.le_trans (hi_le_width hp.2 hf) (Nat.le_of_not_lt hi))
        have hwidth : width (.bits r :: rest) = width rest + r.width := Nat.add_comm _ _
        have htop : i < width rest + r.width ↔ i - width rest < r.width := by omega
        rw [hwidth, fields_cons_bits, literalBit?, if_neg hi, Segment.literalBit?, htop]
        by_cases hin : i - width rest < r.width
        · simpa [hin] using hclear
        · simp [hin]
      | field f =>
        have hlo : f.lo = width rest := lo_eq_width hp
        have := f.lo_lt_hi
        rw [literalBit?, if_neg hi, Segment.literalBit?]
        simp only [Option.isSome_none, Bool.false_eq_true, false_iff, not_and, fields_cons_field]
        intro hlt hclear
        have hf := hclear f (List.mem_cons_self ..)
        simp only [width, Segment.width, BitField.width] at hlt
        omega

/-- Every bit of a literal slice is literal. -/
theorem IsLiteral.isSome {e : Encoding} {lo hi i : Nat} (hp : Placed e) (h : IsLiteral e lo hi)
    (hlo : lo ≤ i) (hhi : i < hi) : (literalBit? e i).isSome := by
  rw [isSome_literalBit?_iff hp]
  have := h.1
  refine ⟨by omega, ?_⟩
  intro f hf
  have := h.2 f hf
  omega

/-- Encodings of one width with the same fields fix the same positions. -/
theorem isSome_literalBit?_congr {e e' : Encoding} (hp : Placed e) (hp' : Placed e')
    (hw : width e = width e') (hf : fields e = fields e') (i : Nat) :
    (literalBit? e i).isSome = (literalBit? e' i).isSome := by
  rw [Bool.eq_iff_iff, isSome_literalBit?_iff hp, isSome_literalBit?_iff hp', hw, hf]

/-- Which slices are literal depends on the width and the fields only. -/
theorem isLiteral_congr {e e' : Encoding} (hw : width e = width e') (hf : fields e = fields e')
    (lo hi : Nat) : IsLiteral e lo hi ↔ IsLiteral e' lo hi := by
  simp only [IsLiteral, ClearOf, hw, hf]

/-- A slice is literal if the mask has all its bits. -/
theorem isLiteral_iff_testBit {e : Encoding} (hp : Placed e) {lo hi : Nat} (hlt : lo < hi) :
    IsLiteral e lo hi ↔ ∀ i, lo ≤ i → i < hi → (literalMask e).testBit i = true := by
  simp only [testBit_literalMask, isSome_literalBit?_iff hp]
  constructor
  · intro h i hlo hhi
    exact (isSome_literalBit?_iff hp i).1 (h.isSome hp hlo hhi)
  · intro h
    have htop := (h (hi - 1) (by omega) (by omega)).1
    refine ⟨by omega, ?_⟩
    intro f hf
    -- The lowest bit that the slice and the field would share is one that the mask has not.
    have hshared := fun hlo hhi => (h (max lo f.lo) hlo hhi).2 f hf
    have := f.lo_lt_hi
    omega

/-! ## Agreement -/

/-- A word agrees with an encoding if it has all literal bits. -/
theorem agrees_iff (e : Encoding) (word : Int) :
    agrees e word = true ↔
      ∀ i b, literalBit? e i = some b → (bitSlice word 0 (width e)).testBit i = b := by
  have hbits : agrees e word = true ↔ ∀ i,
      ((bitSlice word 0 (width e)).testBit i && (literalBit? e i).isSome)
        = (literalBit? e i).getD false := by
    simp only [agrees, beq_iff_eq, ← testBit_literalMask, ← testBit_literalValue,
      ← Nat.testBit_and]
    exact ⟨fun h i => by rw [h], Nat.eq_of_testBit_eq⟩
  rw [hbits]
  apply forall_congr'
  intro i
  cases literalBit? e i <;> simp

theorem accepts_iff (e : Encoding) (word : Int) :
    accepts e word = true ↔ 0 ≤ word ∧ word < 2 ^ width e ∧ agrees e word = true := by
  simp [accepts, and_assoc]

/-- A number agrees with an encoding where it has all fixed bits. -/
theorem agrees_natCast_iff (e : Encoding) (n : Nat) :
    agrees e n = true ↔ ∀ i b, literalBit? e i = some b → n.testBit i = b := by
  rw [agrees_iff]
  refine forall_congr' fun i => forall_congr' fun b => imp_congr_right ?_
  intro hb
  -- Only positions in the word are fixed, so cutting the word to its width changes no bit.
  have hi : i < width e := by
    apply Nat.lt_of_not_le
    intro hle
    rw [literalBit?_eq_none hle] at hb
    cases hb
  rw [testBit_bitSlice, Nat.zero_add]
  simp [hi]

/-- A word as a natural number, for a word that an encoding accepts. -/
theorem accepts_natCast_iff (e : Encoding) (n : Nat) :
    accepts e n = true ↔
      n < 2 ^ width e ∧ ∀ i b, literalBit? e i = some b → n.testBit i = b := by
  have hlt : (n : Int) < 2 ^ width e ↔ n < 2 ^ width e := by norm_cast
  rw [accepts_iff, hlt, agrees_natCast_iff]
  simp only [Int.natCast_nonneg, true_and]

/-- A run of literal bits accepts one word. -/
theorem accepts_bits_iff (r : BitRun) (n : Nat) : accepts [.bits r] n = true ↔ n = r.value := by
  have hbit : ∀ i, literalBit? [.bits r] i =
      if i < r.width then some (r.value.testBit i) else none := fun i => rfl
  have hwidth : width [.bits r] = r.width := by simp [width, Segment.width]
  rw [accepts_natCast_iff, hwidth]
  constructor
  · rintro ⟨hlt, hall⟩
    apply Nat.eq_of_testBit_eq
    intro i
    by_cases hi : i < r.width
    · exact hall i _ ((hbit i).trans (if_pos hi))
    · -- Above the run both numbers have zeros.
      have hpow : 2 ^ r.width ≤ 2 ^ i := Nat.pow_le_pow_right (by decide) (Nat.le_of_not_lt hi)
      rw [Nat.testBit_lt_two_pow (Nat.lt_of_lt_of_le hlt hpow),
        Nat.testBit_lt_two_pow (Nat.lt_of_lt_of_le r.value_lt hpow)]
  · rintro rfl
    refine ⟨r.value_lt, ?_⟩
    intro i b hb
    rw [hbit] at hb
    split at hb
    · exact Option.some.inj hb
    · cases hb

/-- In a word that an encoding accepts, a literal slice holds the literal bits. -/
theorem bitSlice_of_accepts {e : Encoding} (hp : Placed e) {word : Int} {lo width : Nat}
    (h : accepts e word = true) (hl : IsLiteral e lo (lo + width)) :
    bitSlice word lo width = bitSlice (literalValue e) lo width := by
  rcases Int.eq_ofNat_of_zero_le ((accepts_iff e word).1 h).1 with ⟨n, rfl⟩
  have hbits := ((accepts_natCast_iff e n).1 h).2
  apply Nat.eq_of_testBit_eq
  intro i
  rw [testBit_bitSlice, testBit_bitSlice]
  by_cases hi : i < width
  · obtain ⟨b, hb⟩ := Option.isSome_iff_exists.1 (hl.isSome hp (Nat.le_add_right lo i) (by omega))
    rw [testBit_literalValue, hbits _ b hb, hb]
    rfl
  · simp [hi]

end Encoding

theorem byte_width_pos : 0 < 8 := by decide

/-- The last byte of a number as a word, for examples. -/
def byteWord (value : Nat) : BitRun :=
  ⟨value % 2 ^ 8, 8, byte_width_pos, Nat.mod_lt _ (Nat.two_pow_pos 8)⟩

end SleighForge
