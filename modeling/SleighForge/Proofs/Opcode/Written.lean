import SleighForge.Pattern
import SleighForge.Proofs.Opcode.Grammar
import SleighForge.Proofs.Text.Writing

/-!
# Opcodes written and read

The library writes opcodes in two ways, in hexadecimal and bit by bit. Both can be read again, the
first with its width after a slash and the second also with underscores in it (`parse_written`).
Limits are about the width only, as a numeral and as a number: the digits of the word itself are in
base sixteen or two and may be as many as they are.
-/

namespace SleighForge

namespace Opcode

open Text

/-- Hexadecimal digits are a run. -/
theorem Run.of_areDigits_sixteen {cs : List Char} (hne : cs ≠ []) (h : AreDigits 16 cs) :
    Run IsHexChar cs where
  nonempty := hne
  chars c hc := by
    obtain ⟨d, hd⟩ := h c hc
    exact isDigitOrGap_sixteen_iff.1 (isDigitOrGap_of_digitIn? hd)

section

variable {limits : Limits}

/-- The digits of an opcode in hexadecimal, and its width after a slash, give the opcode again. -/
theorem parse_hexText (length bitness : Nat) (o : Opcode)
    (hbits : limits.widthFault? o.width = none)
    (hcount : limits.digitsFault? 10 (toString o.width).length = none) :
    parse limits ("0x" ++ hexText length o.value ++ "/" ++ toString o.width) bitness = .ok o := by
  obtain ⟨digits, hdigits, hvalue⟩ := isNumeral_hexText length o.value
  obtain ⟨figures, hfigures, hwidth⟩ := mapM_decimalValue?_toString o.width
  have hsuffix : (toString o.width).toList ≠ [] := by
    rw [Nat.toString_eq_repr, Nat.toList_repr]
    exact Nat.toDigits_ne_nil
  have hrun := Run.of_areDigits_sixteen hdigits.nonempty hdigits.areDigits
  rw [← hdigits.areDigits.filter_eq] at hdigits
  have htext : ("0x" ++ hexText length o.value ++ "/" ++ toString o.width).toList =
      '0' :: 'x' :: (hexText length o.value).toList ++ '/' :: (toString o.width).toList := by
    simp [String.toList_append]
  have hparts := parts?_sized htext (.hex (.inl rfl) hrun) hsuffix hfigures
  refine (parse_eq_ok_iff hparts hdigits).2 ⟨hvalue.symm, ?_, hbits⟩
  rw [widthOf_some_eq_ok_iff, length_of_mapM hfigures, String.length_toList]
  exact ⟨hcount, hwidth⟩

/-- The bits of an opcode, with underscores among them, give the opcode again. The marker of binary
runs makes no difference. -/
theorem parse_bitText {bitness : Nat} (o : Opcode) (hbits : limits.widthFault? o.width = none)
    (hwide : bitness ≤ o.width) {cs : List Char}
    (hcs : cs.filter (· != '_') = (bitText o.width o.value).toList) :
    parse limits (String.ofList cs) bitness = .ok o ∧
      parse limits ("0b" ++ String.ofList cs) bitness = .ok o := by
  obtain ⟨digits, hdigits, hlength, hvalue⟩ := isNumeral_bitText o.width_pos o.value_lt
  rw [← hcs] at hdigits
  have hrun : Run IsBinaryChar cs := by
    constructor
    · rintro rfl
      exact hdigits.nonempty rfl
    · intro c hc
      by_cases hgap : c = '_'
      · exact .inr (.inr hgap)
      · have hmem : c ∈ cs.filter (· != '_') := List.mem_filter.2 ⟨hc, bne_iff_ne.2 hgap⟩
        obtain ⟨d, hd⟩ := hdigits.areDigits c hmem
        exact isDigitOrGap_two_iff.1 (isDigitOrGap_of_digitIn? hd)
  -- The digits give the width, one bit each; the bitness does not exceed it.
  have hwidth : widthOf limits bitness 2 digits.length none = .ok o.width := by
    rw [widthOf, hlength, bitsPerDigit, if_pos rfl, Nat.mul_one, Nat.max_eq_right hwide]
  constructor
  · have hbody : Body (String.ofList cs).toList 2 cs := by
      rw [String.toList_ofList]
      exact .bareBinary hrun
    exact (parse_eq_ok_iff (parts?_body hbody) hdigits).2 ⟨hvalue.symm, hwidth, hbits⟩
  · have hbody : Body ("0b" ++ String.ofList cs).toList 2 cs := by
      have htext : ("0b" ++ String.ofList cs).toList = '0' :: 'b' :: cs := by simp
      rw [htext]
      exact .binary (.inl rfl) hrun
    exact (parse_eq_ok_iff (parts?_body hbody) hdigits).2 ⟨hvalue.symm, hwidth, hbits⟩

end

/-- What an example shows of its word, with the width after a slash, is read as the word and the
width. So are the bits of a run that is not shorter than the bitness, whether the marker of binary
runs stands before them or not, and whatever underscores are put between them. The width may not
exceed the limits, if there are any, and not as a numeral where it is written out. -/
theorem parse_written (limits : Limits) (word : BitRun) (bitness : Nat)
    (hbits : ∀ limit, limits.bits = some limit → word.width ≤ limit) :
    ((∀ limit, limits.digits = some limit → (toString word.width).length ≤ limit) →
      ∀ text, parse limits ((Example.mk word.value word.width text).opcodeDigits ++ "/" ++
        toString word.width) bitness =
      .ok ⟨word.value, word.width, word.width_pos, word.value_lt⟩) ∧
    (bitness ≤ word.width → ∀ cs : List Char, cs.filter (· != '_') = word.text.toList →
      ∀ marker ∈ ["", "0b"], parse limits (marker ++ String.ofList cs) bitness =
        .ok ⟨word.value, word.width, word.width_pos, word.value_lt⟩) := by
  have hwidth : limits.widthFault? word.width = none := Limits.widthFault?_eq_none_iff.2 hbits
  constructor
  · -- The width is written out here, so the limit on figures concerns this rendering alone.
    intro hcount text
    exact parse_hexText ((word.width + 3) / 4) bitness
      ⟨word.value, word.width, word.width_pos, word.value_lt⟩ hwidth
      (Limits.digitsFault?_eq_none_iff.2 fun _ => hcount)
  · intro hwide cs hcs marker hmarker
    obtain ⟨hbare, hmarked⟩ := parse_bitText
      ⟨word.value, word.width, word.width_pos, word.value_lt⟩ hwidth hwide hcs
    rcases List.mem_pair.1 hmarker with rfl | rfl
    · rw [String.empty_append]
      exact hbare
    · exact hmarked

/-- A word of nine bits where words have eight, in three notations. -/
theorem parse_written_nineBits : ∃ o : Opcode, o.value = 5 ∧ o.width = 9 ∧ 8 ≤ 9 ∧
    (∀ limit, Limits.standard.bits = some limit → 9 ≤ limit) ∧
    (∀ limit, Limits.standard.digits = some limit → (toString 9).length ≤ limit) ∧
    ['_', '0', '0', '0', '0', '_', '0', '0', '1', '0', '1', '_'].filter (· != '_') =
      "000000101".toList ∧
    parse .standard "0x005/9" 8 = .ok o ∧ parse .standard "_0000_00101_" 8 = .ok o ∧
    parse .standard "0b_0000_00101_" 8 = .ok o := by
  have hwidth : ∀ limit, Limits.standard.bits = some limit → 9 ≤ limit := by
    rintro _ ⟨⟩
    decide
  have hcount : ∀ limit, Limits.standard.digits = some limit →
      (toString 9).length ≤ limit := by
    rintro _ ⟨⟩
    decide
  obtain ⟨hhex, hbits⟩ := parse_written .standard ⟨5, 9, by decide, by decide⟩ 8 hwidth
  have htext : (Example.mk 5 9 "NOP").opcodeDigits ++ "/" ++ toString 9 = "0x005/9" := by
    decide +kernel
  have hgaps := hbits (by decide)
    ['_', '0', '0', '0', '0', '_', '0', '0', '1', '0', '1', '_'] (by decide)
  exact ⟨_, rfl, rfl, by decide, hwidth, hcount, by simp, htext ▸ hhex hcount "NOP",
    hgaps "" (by simp), hgaps "0b" (by simp)⟩

end Opcode

end SleighForge
