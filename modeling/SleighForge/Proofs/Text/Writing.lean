import SleighForge.Proofs.Text.Literals
import SleighForge.Proofs.Text.Numerals

/-!
# Numbers written and read

A number written in hexadecimal, with zeros in front, or bit by bit, or in decimal, is a numeral of
its base with its value (`isNumeral_hexText`, `isNumeral_bitText`, `mapM_decimalValue?_toString`).
-/

namespace SleighForge.Text

/-! ## Characters for digits -/

theorem mapM_eq_some_map {α : Type} {f : α → Option Nat} {g : α → Nat} {xs : List α}
    (h : ∀ x ∈ xs, f x = some (g x)) : xs.mapM f = some (xs.map g) := by
  induction xs with
  | nil => rfl
  | cons x xs ih =>
    rw [List.forall_mem_cons] at h
    rw [List.mapM_cons, h.1, ih h.2]
    rfl

/-- Characters that are chosen one by one make a numeral of the digits that they stand for. -/
theorem isNumeral_map {α : Type} {base : Nat} {xs : List α} {char : α → Char} {digit : α → Nat}
    (hne : xs ≠ []) (h : ∀ x ∈ xs, digitIn? base (char x) = some (digit x)) :
    IsNumeral base (xs.map char) (xs.map digit) where
  nonempty := mt List.map_eq_nil_iff.1 hne
  values := by
    rw [List.mapM_map]
    exact mapM_eq_some_map h

/-- The digits of a numeral are no underscores. -/
theorem AreDigits.filter_eq {base : Nat} {cs : List Char} (h : AreDigits base cs) :
    cs.filter (· != '_') = cs := by
  rw [List.filter_eq_self]
  intro c hc
  exact bne_iff_ne.2 (h.ne_mark hc).2.2.1

/-! ## Hexadecimal -/

theorem digitsOf_ne_nil (base n : Nat) : digitsOf base n ≠ [] := by
  rw [digitsOf]
  split <;> simp

theorem lt_of_mem_digitsOf {base n d : Nat} (hbase : 2 ≤ base) (hd : d ∈ digitsOf base n) :
    d < base := by
  fun_induction digitsOf base n with
  | case1 n hsmall =>
    rw [List.mem_singleton.1 hd]
    omega
  | case2 n hlarge ih =>
    rcases List.mem_append.1 hd with hd | hd
    · exact ih hd
    · rw [List.mem_singleton.1 hd]
      exact Nat.mod_lt _ (by omega)

/-- The digits of a number add up to it. -/
theorem ofDigits_digitsOf (base n : Nat) : ofDigits base (digitsOf base n) = n := by
  fun_induction digitsOf base n with
  | case1 n hsmall => simp [ofDigits]
  | case2 n hlarge ih =>
    rw [ofDigits, List.foldl_append, ← ofDigits, ih]
    exact Nat.div_add_mod n base

/-- A hexadecimal digit is read as it is written. -/
theorem digitIn?_digitChar {d : Nat} (hd : d < 16) : digitIn? 16 (Nat.digitChar d) = some d := by
  revert d
  decide

/-- A number in hexadecimal has its value, however many zeros stand in front. -/
theorem isNumeral_hexText (length n : Nat) : ∃ digits,
    IsNumeral 16 (hexText length n).toList digits ∧ Nat.ofDigits 16 digits.reverse = n := by
  obtain ⟨count, hcount⟩ : ∃ count, padZeros length (numeral 16 n) =
      List.replicate count '0' ++ (digitsOf 16 n).map Nat.digitChar := ⟨_, rfl⟩
  have hzeros : List.replicate count '0' = (List.replicate count 0).map Nat.digitChar := by
    rw [List.map_replicate]
    rfl
  have htext : (hexText length n).toList =
      (List.replicate count 0 ++ digitsOf 16 n).map Nat.digitChar := by
    have hpositive : ¬ (n : Int) < 0 := by omega
    rw [hexText, if_neg hpositive, Int.natAbs_natCast, String.toList_ofList, hcount, hzeros,
      List.map_append]
  -- The padding is written of zeros, which are digits like the others and add nothing to the value.
  have hsmall : ∀ d ∈ List.replicate count 0 ++ digitsOf 16 n, d < 16 := by
    intro d hd
    rcases List.mem_append.1 hd with hd | hd
    · rw [List.eq_of_mem_replicate hd]
      decide
    · exact lt_of_mem_digitsOf (by decide) hd
  refine ⟨List.replicate count 0 ++ digitsOf 16 n, ?_, ?_⟩
  · have hne := List.append_ne_nil_of_right_ne_nil (List.replicate count 0) (digitsOf_ne_nil 16 n)
    have hnumeral := isNumeral_map hne fun d hd => digitIn?_digitChar (hsmall d hd)
    rwa [← htext, List.map_id'] at hnumeral
  · rw [List.reverse_append, List.reverse_replicate, Nat.ofDigits_append_replicate_zero,
      ← ofDigits_eq, ofDigits_digitsOf]

/-! ## Decimal -/

/-- A decimal digit is read by its place among the digits. -/
theorem decimalValue?_of_isDigit {c : Char} (hc : c.isDigit = true) :
    decimalValue? c = some (c.toNat - 48) := by
  have hrange := Char.isDigit_iff_toNat.1 hc
  have hzero : decimalZeros = 48 :: decimalZeros.tail := rfl
  rw [decimalValue?, hzero, List.find?_cons_of_pos]
  · rfl
  · simpa using hrange

/-- A number in decimal has its value. -/
theorem mapM_decimalValue?_toString (n : Nat) : ∃ figures,
    (toString n).toList.mapM decimalValue? = some figures ∧
      Nat.ofDigits 10 figures.reverse = n := by
  have hfigure : ∀ c ∈ (toString n).toList, decimalValue? c = some (c.toNat - 48) := by
    intro c hc
    exact decimalValue?_of_isDigit (isDigit_of_mem_toString hc)
  refine ⟨_, mapM_eq_some_map hfigure, ?_⟩
  rw [← ofDigits_eq, ofDigits, List.foldl_map, Nat.toString_eq_repr, Nat.toList_repr]
  exact Nat.ofDigitChars_ten_toDigits

/-! ## Bit by bit -/

/-- The bits of a number add up to it, as far as there are bits. -/
theorem ofDigits_bits (n width : Nat) :
    Nat.ofDigits 2 ((List.range width).map fun i => (n.testBit i).toNat) = n % 2 ^ width := by
  induction width with
  | zero => simp [Nat.mod_one]
  | succ width ih =>
    rw [List.range_succ, List.map_append, List.map_singleton, Nat.ofDigits_append,
      Nat.ofDigits_singleton, ih, List.length_map, List.length_range, Nat.toNat_testBit,
      Nat.mod_pow_succ]

/-- The bits of a number make a binary numeral of its value. -/
theorem isNumeral_bitText {width n : Nat} (hpos : 0 < width) (hlt : n < 2 ^ width) : ∃ digits,
    IsNumeral 2 (bitText width n).toList digits ∧ digits.length = width ∧
      Nat.ofDigits 2 digits.reverse = n := by
  have hne : (List.range width).reverse ≠ [] := by
    rw [Ne, List.reverse_eq_nil_iff, List.range_eq_nil]
    omega
  have hdigit : ∀ i ∈ (List.range width).reverse,
      digitIn? 2 (if n.testBit i then '1' else '0') = some (n.testBit i).toNat := by
    intro i _
    cases n.testBit i <;> decide
  refine ⟨(List.range width).reverse.map fun i => (n.testBit i).toNat, ?_, ?_, ?_⟩
  · rw [bitText, String.toList_ofList]
    exact isNumeral_map hne hdigit
  · rw [List.length_map, List.length_reverse, List.length_range]
  · rw [← List.map_reverse, List.reverse_reverse, ofDigits_bits, Nat.mod_eq_of_lt hlt]

end SleighForge.Text
