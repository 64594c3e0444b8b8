import SleighForge.Proofs.Combine.OverImmediate

/-!
# Reading merged numbers

A field over numbers is signed as soon as one number of its group is negative, but a window is taken
to hold a number that is not negative if its bits do without a sign. So the field reads back the
numbers of its group except those that are not negative and have the highest bit of the window, in a
group with a negative number (`mergeImmediates_read`).
-/

namespace SleighForge

/-- The number that a field shows in a word: its bits, in two's complement if it is signed. -/
def BitField.read (f : BitField) (word : Int) : Int :=
  if f.signed ∧ (2 ^ (f.width - 1) : Int) ≤ f.extract word then f.extract word - 2 ^ f.width
  else f.extract word

/-- A field that holds a number reads it back unless the field is signed and the number needs the
highest bit without being negative. -/
theorem BitField.read_eq_iff {f : BitField} {word v : Int} (hlow : -2 ^ (f.width - 1) ≤ v)
    (hhigh : v < 2 ^ f.width) (hbits : (f.extract word : Int) = v % 2 ^ f.width)
    (hneg : v < 0 → f.signed = true) :
    f.read word = v ↔ f.signed = false ∨ v < 2 ^ (f.width - 1) := by
  have hpow : (2 ^ f.width : Int) = 2 * 2 ^ (f.width - 1) := by
    rw [← Int.pow_succ', Nat.sub_add_cancel f.width_pos]
  unfold read
  rw [hbits]
  by_cases hv : v < 0
  · -- A negative number wraps into the upper half, and the field is signed.
    have hmod : v % 2 ^ f.width = v + 2 ^ f.width := by
      rw [← Int.add_emod_right, Int.emod_eq_of_lt (by omega) (by omega)]
    have hcond : f.signed = true ∧ (2 ^ (f.width - 1) : Int) ≤ v + 2 ^ f.width :=
      ⟨hneg hv, by omega⟩
    rw [hmod, if_pos hcond]
    omega
  · rw [Int.emod_eq_of_lt (by omega) hhigh]
    cases hs : f.signed with
    | false => simp
    | true =>
      by_cases htop : (2 ^ (f.width - 1) : Int) ≤ v
      · -- The highest bit of a number that is not negative is read as a sign.
        rw [if_pos ⟨rfl, htop⟩]
        refine iff_of_false (by omega) ?_
        rintro (h | h)
        · cases h
        · omega
      · rw [if_neg fun h => htop h.2]
        exact iff_of_true rfl (.inr (by omega))

namespace Combine

/-- The field of a merged pattern is signed if the group has a negative number. It reads back the
number of a member exactly if it is not signed or the number is below half the range of the
window. -/
theorem mergeImmediates_read {first result : Pattern} {rest : List Pattern} {position : Nat}
    {foreign : List Int} (hwidth : ∀ p ∈ rest, p.width = first.width)
    (hfields : ∀ p ∈ rest, p.fields = first.fields)
    (h : mergeImmediates first rest position foreign = .ok (some result)) :
    ∃ f, result.operands[position]? = some (.field f) ∧
      (f.signed = true ↔ ∃ p ∈ first :: rest, ∃ v, valueAt? position p = some v ∧ v < 0) ∧
      ∀ p ∈ first :: rest, ∀ v, valueAt? position p = some v →
        ∀ word, p.accepts word = true →
          (f.read word = v ↔ f.signed = false ∨ v < 2 ^ (f.width - 1)) := by
  rcases mergeImmediates_spec h with ⟨f, ho, hover⟩
  refine ⟨f, ?_, hover.signed, ?_⟩
  · rcases hover.holds first (List.mem_cons_self ..) with ⟨v, hv, -⟩
    rcases valueAt?_eq_some_iff.1 hv with ⟨spelling, hop⟩
    rw [ho.eq]
    exact List.getElem?_set_self (List.getElem?_eq_some_iff.1 hop).1
  · intro p hp v hv word hword
    have hl : p.encoding.IsLiteral f.lo f.hi := by
      rcases List.mem_cons.1 hp with rfl | hp
      · exact ho.literal
      · exact (Encoding.isLiteral_congr (hwidth p hp) (hfields p hp) f.lo f.hi).2 ho.literal
    rcases hover.holds p hp with ⟨v', hv', hholds⟩
    rw [hv, Option.some.injEq] at hv'
    subst hv'
    rcases holds_iff.1 hholds with ⟨hlow, hhigh, hbits⟩
    -- The window lies in literal bits of every member, so any word it accepts shows the same value.
    rw [← extract_of_accepts hl hword] at hbits
    exact BitField.read_eq_iff hlow hhigh hbits fun hneg => hover.signed.2 ⟨p, hp, v, hv, hneg⟩

/-- An instruction of one byte with a number for its operand. -/
def addition (word : BitRun) (v : Int) (index : Int) : Pattern :=
  .concrete "ADDI" [.text "#", .immediate v (toString v)] word index

/-- The whole byte as a signed number. -/
def signedByte : BitField :=
  ⟨0, 8, .immediate, true, by decide⟩

theorem signedByte_reads :
    signedByte.read 255 = -1 ∧ signedByte.read 1 = 1 := by
  let first := addition ⟨255, 8, by decide, by decide⟩ (-1) 0
  let second := addition ⟨1, 8, by decide, by decide⟩ 1 1
  have hmerge : mergeImmediates first [second] 1 [] =
      .ok (some (first.generalize 1 signedByte (by decide)
        ([first, second].flatMap Pattern.examples))) := by decide +kernel
  obtain ⟨f, hop, -, hread⟩ := mergeImmediates_read (by decide) (by decide) hmerge
  obtain rfl : signedByte = f := Operand.field.inj (Option.some.inj hop)
  refine ⟨(hread first (by simp) (-1) (by decide) 255 (by decide)).2 (.inr (by decide)), ?_⟩
  exact (hread second (by simp) 1 (by decide) 1 (by decide)).2 (.inr (by decide))

/-- A group of minus one and two hundred gets a signed byte, which reads two hundred as a negative
number. -/
theorem signedByte_misreads :
    ¬ ∀ (first result : Pattern) (rest : List Pattern) (position : Nat) (foreign : List Int),
      (∀ p ∈ rest, p.width = first.width) → (∀ p ∈ rest, p.fields = first.fields) →
      mergeImmediates first rest position foreign = .ok (some result) →
      ∀ f, result.operands[position]? = some (.field f) →
      ∀ p ∈ first :: rest, ∀ v, valueAt? position p = some v →
        ∀ word, p.accepts word = true → f.read word = v := by
  intro h
  let first := addition ⟨255, 8, by decide, by decide⟩ (-1) 0
  let second := addition ⟨200, 8, by decide, by decide⟩ 200 1
  have hmerge : mergeImmediates first [second] 1 [] =
      .ok (some (first.generalize 1 signedByte (by decide)
        ([first, second].flatMap Pattern.examples))) := by decide +kernel
  have hread := h first _ [second] 1 [] (by decide) (by decide) hmerge signedByte rfl second
    (by simp) 200 (by decide) 200 (by decide)
  revert hread
  decide

end Combine

end SleighForge
