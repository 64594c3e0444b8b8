import SleighForge.Proofs.Encoding.LiteralBits

/-!
# Encodings as text

The text of an encoding has one character a bit, the highest bit first, which is a zero or a one
where the bit is fixed and a letter where it belongs to a field (`getElem?_text_eq_some_iff`). So a
word agrees with an encoding if it fits the text (`agrees_iff_fitsText`).
-/

namespace SleighForge

/-- The character that is written for a bit. -/
def bitChar (b : Bool) : Char :=
  if b then '1' else '0'

/-- A number has every bit that a text gives. The last character is that of bit 0, and one that is
neither zero nor one stands for a bit of any value. -/
def FitsText (text : String) (n : Nat) : Prop :=
  ∀ i b, text.toList.reverse[i]? = some (bitChar b) → n.testBit i = b

/-- Zeros and ones are told apart. -/
theorem bitChar_injective {a b : Bool} (h : bitChar a = bitChar b) : a = b := by
  cases a <;> cases b <;> first | rfl | cases h

namespace Segment

theorem length_text (s : Segment) : s.text.toList.length = s.width := by
  cases s <;> simp [text, BitRun.text, Text.bitText, width]

/-- The text of a segment, read from its end, has the literal bits. -/
theorem getElem?_text_eq_some_iff (s : Segment) (i : Nat) (b : Bool) :
    s.text.toList.reverse[i]? = some (bitChar b) ↔ s.literalBit? i = some b := by
  cases s with
  | bits r =>
    have htext : r.text.toList.reverse =
        (List.range r.width).map fun i => bitChar (r.value.testBit i) := by
      simp [BitRun.text, Text.bitText, bitChar]
    rw [text, htext, literalBit?, List.getElem?_map]
    by_cases hi : i < r.width
    · rw [List.getElem?_range hi, if_pos hi, Option.map_some, Option.some.injEq, Option.some.injEq]
      exact ⟨bitChar_injective, congrArg bitChar⟩
    · rw [List.getElem?_eq_none (by simpa using hi), if_neg hi]
      simp
  | field f =>
    -- The letters of fields are not those of bits.
    have hletter : ∀ c ∈ (text (.field f)).toList.reverse, c ≠ bitChar b := by
      intro c hc
      rw [text, String.toList_ofList, List.reverse_replicate] at hc
      rw [List.eq_of_mem_replicate hc]
      cases f.kind <;> cases b <;> simp [bitChar]
    refine iff_of_false ?_ (by simp [literalBit?])
    intro hsome
    exact hletter _ (List.mem_of_getElem? hsome) rfl

end Segment

namespace Encoding

theorem toList_text_cons (s : Segment) (rest : Encoding) :
    (text (s :: rest)).toList = s.text.toList ++ (text rest).toList := by
  simp [text, String.toList_append]

theorem length_text (e : Encoding) : (text e).toList.length = width e := by
  induction e with
  | nil => rfl
  | cons s rest ih =>
    rw [toList_text_cons, List.length_append, ih, Segment.length_text, width]

/-- The text of an encoding, read from its end, has the literal bits. -/
theorem getElem?_text_eq_some_iff (e : Encoding) (i : Nat) (b : Bool) :
    (text e).toList.reverse[i]? = some (bitChar b) ↔ literalBit? e i = some b := by
  induction e with
  | nil => simp [text, literalBit?]
  | cons s rest ih =>
    have hlen : (text rest).toList.reverse.length = width rest := by
      rw [List.length_reverse, length_text]
    rw [toList_text_cons, List.reverse_append, literalBit?]
    by_cases hi : i < width rest
    · rw [List.getElem?_append_left (hlen ▸ hi), if_pos hi, ih]
    · rw [List.getElem?_append_right (by omega), if_neg hi, hlen,
        Segment.getElem?_text_eq_some_iff]

/-- A word agrees with an encoding exactly if it fits its text. -/
theorem agrees_iff_fitsText (e : Encoding) (n : Nat) :
    agrees e n = true ↔ FitsText (text e) n := by
  rw [agrees_natCast_iff]
  refine forall₂_congr fun i b => ?_
  rw [getElem?_text_eq_some_iff]

end Encoding

end SleighForge
