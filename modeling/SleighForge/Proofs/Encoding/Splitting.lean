import Mathlib.Data.Nat.Bitwise
import SleighForge.Proofs.Encoding.Opened
import SleighForge.Proofs.Encoding.RoundTrip

/-!
# Splitting an encoding at a field

A field can be opened exactly where its slice is inside the word and has literal bits only
(`open?_eq_error_iff`). What comes of it is an encoding again, of the same width. The field stands
among the others by its place, and mask and value of the literal bits lose the bits of the field and
no more (`open?_splits`). It makes no difference how many runs of literal bits the slice goes
through.
-/

namespace SleighForge

/-- The bits of the field in a word, as a mask. -/
def BitField.mask (f : BitField) : Nat :=
  2 ^ f.lo * (2 ^ f.width - 1)

theorem BitField.testBit_mask (f : BitField) (i : Nat) :
    f.mask.testBit i = decide (f.lo ≤ i ∧ i < f.hi) := by
  have hsum := f.lo_add_width
  have hinside : i - f.lo < f.width ∧ f.lo ≤ i ↔ f.lo ≤ i ∧ i < f.hi := by omega
  rw [mask, Nat.testBit_two_pow_mul, Nat.testBit_two_pow_sub_one, ← Bool.decide_and,
    decide_eq_decide, and_comm]
  exact hinside

namespace Encoding

variable {e e' : Encoding} {f : BitField}

/-! ## Where a field can be opened -/

/-- A field can be opened where all bits are literal, and this is all that is checked. -/
theorem open?_eq_ok_iff : open? e f = .ok e' ↔ IsLiteral e f.lo f.hi ∧ e' = opened e f := by
  unfold open? IsLiteral
  by_cases hwidth : width e < f.hi
  · rw [if_pos hwidth]
    refine iff_of_false nofun ?_
    rintro ⟨⟨hle, -⟩, -⟩
    omega
  · rw [if_neg hwidth]
    by_cases hclear : ClearOf e f.lo f.hi
    · rw [if_pos hclear, Except.ok.injEq, eq_comm]
      exact (and_iff_right ⟨Nat.le_of_not_lt hwidth, hclear⟩).symm
    · rw [if_neg hclear]
      exact iff_of_false nofun fun h => hclear h.1.2

/-- A field cannot be opened where it reaches above the word or has a bit that is no literal bit. -/
theorem open?_eq_error_iff (hp : Placed e) {fault : OpeningFault} :
    open? e f = .error fault ↔
      f.hi > width e ∧ fault = .exceeds f.lo f.hi (width e) ∨
      f.hi ≤ width e ∧ (∃ i, f.lo ≤ i ∧ i < f.hi ∧ (literalMask e).testBit i = false) ∧
        fault = .overlaps f.lo f.hi := by
  unfold open?
  by_cases hwidth : width e < f.hi
  · have hnot : ¬ f.hi ≤ width e := Nat.not_le_of_lt hwidth
    rw [if_pos hwidth, Except.error.injEq, eq_comm]
    simp [hwidth, hnot]
  · have hle : f.hi ≤ width e := Nat.le_of_not_lt hwidth
    -- Within the width, clear of the fields says that every bit of the window is literal.
    have hclear : ClearOf e f.lo f.hi ↔
        ¬ ∃ i, f.lo ≤ i ∧ i < f.hi ∧ (literalMask e).testBit i = false := by
      have hliteral := isLiteral_iff_testBit hp f.lo_lt_hi
      rw [IsLiteral, and_iff_right hle] at hliteral
      rw [hliteral]
      simp
    rw [if_neg hwidth]
    by_cases hfield : ∃ i, f.lo ≤ i ∧ i < f.hi ∧ (literalMask e).testBit i = false
    · rw [if_neg (mt hclear.1 (not_not_intro hfield)), Except.error.injEq, eq_comm]
      simp [hwidth, hle, hfield]
    · rw [if_pos (hclear.2 hfield)]
      simp [hwidth, hfield]

/-! ## What is opened -/

/-- The bits of a new field are literal no more. -/
theorem literalMask_opened (hp : Placed e) (h : IsLiteral e f.lo f.hi) :
    literalMask (opened e f) = (literalMask e).ldiff f.mask := by
  apply Nat.eq_of_testBit_eq
  intro i
  rw [testBit_literalMask, literalBit?_opened hp h, Nat.testBit_ldiff, testBit_literalMask,
    f.testBit_mask]
  by_cases hi : f.lo ≤ i ∧ i < f.hi
  · simp [hi]
  · simp [hi]

/-- The literal value loses the bits of the new field. -/
theorem literalValue_opened (hp : Placed e) (h : IsLiteral e f.lo f.hi) :
    literalValue (opened e f) = (literalValue e).ldiff f.mask := by
  apply Nat.eq_of_testBit_eq
  intro i
  rw [testBit_literalValue, literalBit?_opened hp h, Nat.testBit_ldiff, testBit_literalValue,
    f.testBit_mask]
  by_cases hi : f.lo ≤ i ∧ i < f.hi
  · simp [hi]
  · simp [hi]

/-- The fields of an encoding are different, since each lies above those that follow it. -/
theorem nodup_fields (hp : Placed e) : (fields e).Nodup := by
  refine (pairwise_fields hp).imp ?_
  rintro f g habove rfl
  have := f.lo_lt_hi
  omega

/-- There is one field more. -/
theorem fields_opened_perm (hp : Placed e) (h : IsLiteral e f.lo f.hi) :
    (fields (opened e f)).Perm (f :: fields e) := by
  -- The bits of the slice are literal bits, so no field of the encoding has them.
  have hnew : f ∉ fields e := by
    intro hf
    have := h.2 f hf
    have := f.lo_lt_hi
    omega
  refine (List.perm_ext_iff_of_nodup (nodup_fields (placed_opened hp h)) ?_).2 ?_
  · exact List.nodup_cons.2 ⟨hnew, nodup_fields hp⟩
  · intro g
    rw [mem_fields_opened hp h, List.mem_cons]

end Encoding

/-- Opening a field in a pattern fails exactly if the field reaches above the word or covers a bit
that is no literal bit. Otherwise it gives an encoding of which patterns of the same width can be
built. The field is added to the fields, which stay in descending order, and its bits are taken out
of mask and value. -/
theorem open?_splits (p : Pattern) (f : BitField) :
    (∀ fault, p.encoding.open? f = .error fault ↔
      f.hi > p.width ∧ fault = .exceeds f.lo f.hi p.width ∨
      f.hi ≤ p.width ∧
        (∃ i, f.lo ≤ i ∧ i < f.hi ∧ p.encoding.literalMask.testBit i = false) ∧
        fault = .overlaps f.lo f.hi) ∧
    (f.hi ≤ p.width → (∀ i, f.lo ≤ i → i < f.hi → p.encoding.literalMask.testBit i = true) →
      ∃ e, p.encoding.open? f = .ok e ∧
        (∀ mnemonic operands index examples, ∃ q,
          Pattern.ofParts mnemonic operands e p.width index examples = .ok q ∧ q.encoding = e) ∧
        e.fields.Perm (f :: p.fields) ∧
        e.fields.Pairwise (fun g g' => g'.hi ≤ g.lo) ∧
        e.literalMask = p.encoding.literalMask.ldiff f.mask ∧
        e.literalValue = p.encoding.literalValue.ldiff f.mask) := by
  refine ⟨fun fault => Encoding.open?_eq_error_iff p.placed, ?_⟩
  intro _ hbits
  have hliteral : p.encoding.IsLiteral f.lo f.hi :=
    (Encoding.isLiteral_iff_testBit p.placed f.lo_lt_hi).2 hbits
  have hplaced : (p.encoding.opened f).Placed := Encoding.placed_opened p.placed hliteral
  have hwidth : (p.encoding.opened f).width = p.width := Encoding.width_opened p.placed hliteral
  refine ⟨p.encoding.opened f, Encoding.open?_eq_ok_iff.2 ⟨hliteral, rfl⟩, ?_,
    Encoding.fields_opened_perm p.placed hliteral, Encoding.pairwise_fields hplaced,
    Encoding.literalMask_opened p.placed hliteral, Encoding.literalValue_opened p.placed hliteral⟩
  intro mnemonic operands index examples
  let q : Pattern := ⟨mnemonic, operands, p.encoding.opened f, index, examples, hplaced⟩
  have hq : Pattern.ofParts mnemonic operands q.encoding q.width index examples = .ok q :=
    q.ofParts_eq
  have hqwidth : q.width = p.width := hwidth
  rw [hqwidth] at hq
  exact ⟨q, hq, rfl⟩

/-- A register field over the lower bit of the highest run and the run below it. -/
def acrossRuns : BitField :=
  ⟨5, 7, .register 1, false, by decide⟩

/-- A field is opened across two runs of literal bits, and one that overlaps another is refused. -/
theorem open?_splits_shift :
    ∃ e, shift.encoding.open? acrossRuns = .ok e ∧
      e.fields.Perm [acrossRuns, ⟨3, 5, .register 0, false, by decide⟩,
        ⟨0, 2, .immediate, false, by decide⟩] ∧
      e.literalMask = 0x84 ∧ e.literalValue = 0x80 ∧
      shift.encoding.open? ⟨2, 4, .immediate, false, by decide⟩ = .error (.overlaps 2 4) := by
  obtain ⟨e, he, -, hfields, -, hmask, hvalue⟩ :=
    (open?_splits shift acrossRuns).2 (by decide) (by decide +kernel)
  have hfails := (open?_splits shift ⟨2, 4, .immediate, false, by decide⟩).1 (.overlaps 2 4)
  refine ⟨e, he, hfields, hmask.trans (by decide +kernel), hvalue.trans (by decide +kernel), ?_⟩
  exact hfails.2 (.inr ⟨by decide, ⟨3, by decide⟩, rfl⟩)

end SleighForge
