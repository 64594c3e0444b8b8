import Mathlib.Data.Nat.Digits.Defs
import SleighForge.Proofs.Text.Spellings

/-!
# What literals denote

The literals of operand text are given by a grammar (`Literal.Denotes`): plain decimal digits, a
zero and the letter of a base before the digits, a dollar sign before hexadecimal digits, or a
letter `h` after them. No spelling has two readings (`Denotes.unique`). The reader takes exactly
these spellings and gives the positional value of their digits (`value?_eq_some_iff`), and the case
of letters makes no difference (`value?_map_lowerChar`).
-/

namespace SleighForge

namespace Text

/-! ## Digits -/

/-- The value of digits is their positional value. -/
theorem ofDigits_eq (base : Nat) (digits : List Nat) :
    ofDigits base digits = Nat.ofDigits base digits.reverse := by
  rw [Nat.ofDigits_eq_foldr, List.foldr_reverse]
  simp only [ofDigits, Nat.cast_id, Nat.add_comm]

theorem digitIn?_of_digitValue? {base d : Nat} {c : Char} (h : digitValue? c = some d)
    (hlt : d < base) : digitIn? base c = some d := by
  rw [digitIn?, Option.filter_eq_some_iff]
  exact ⟨h, decide_eq_true hlt⟩

/-- Decimal digits are those of ASCII here. -/
theorem isDigitIn_ten_iff {c : Char} :
    isDigitIn 10 c = true ↔ 48 ≤ c.toNat ∧ c.toNat ≤ 57 := by
  constructor
  · intro h
    obtain ⟨d, hd⟩ := Option.isSome_iff_exists.1 h
    have := toNat_of_digitIn? hd
    omega
  · rintro ⟨hlo, hhi⟩
    have hvalue : digitValue? c = some (c.toNat - 48) := by
      simp only [digitValue?, le_iff_toNat_le, Char.reduceToNat, hlo, hhi, and_self, if_true]
    rw [isDigitIn, digitIn?_of_digitValue? hvalue (by omega)]
    rfl

/-- Among the code points of ASCII only those of the ten figures are decimal digits. -/
theorem isDecimal_iff {c : Char} (hc : c.toNat < 0x80) :
    isDecimal c = true ↔ 48 ≤ c.toNat ∧ c.toNat ≤ 57 := by
  have hzeros : ∀ first ∈ decimalZeros, first = 48 ∨ 0x80 ≤ first := by decide
  rw [isDecimal, decimalValue?, Option.isSome_map, List.find?_isSome]
  simp only [Bool.and_eq_true, decide_eq_true_eq]
  constructor
  · rintro ⟨first, hfirst, hle, hge⟩
    have := hzeros first hfirst
    omega
  · rintro ⟨hlo, hhi⟩
    exact ⟨48, by decide, hlo, hhi⟩

theorem isDigitIn_ten_of_isDecimal {base d : Nat} {c : Char} (hd : digitIn? base c = some d)
    (hc : isDecimal c = true) : isDigitIn 10 c = true := by
  have hcode := toNat_of_digitIn? hd
  exact isDigitIn_ten_iff.2 ((isDecimal_iff (by omega)).1 hc)

/-- A letter of ASCII is the lower case of its two cases only. -/
theorem toLower_eq_iff {m letter capital : Char} (hletter : 97 ≤ letter.toNat ∧ letter.toNat ≤ 122)
    (hcapital : letter.toNat = capital.toNat + 32) :
    m.toLower = letter ↔ m = letter ∨ m = capital := by
  rw [← Char.toNat_inj, ← Char.toNat_inj, ← Char.toNat_inj]
  have hlower := toNat_toLower m
  split at hlower <;> omega

/-- The characters are digits of the base with these values, at least one. -/
structure IsNumeral (base : Nat) (cs : List Char) (digits : List Nat) : Prop where
  nonempty : cs ≠ []
  values : cs.mapM (digitIn? base) = some digits

theorem IsNumeral.areDigits {base : Nat} {cs : List Char} {digits : List Nat}
    (h : IsNumeral base cs digits) : AreDigits base cs :=
  areDigits_of_mapM h.values

/-- Digits are a numeral if there is one. -/
theorem isNumeral_of_areDigits {base : Nat} {cs : List Char} (hne : cs ≠ [])
    (h : AreDigits base cs) : IsNumeral base cs (cs.filterMap digitValue?) := by
  refine ⟨hne, ?_⟩
  clear hne
  induction cs with
  | nil => rfl
  | cons c cs ih =>
    obtain ⟨d, hd⟩ := h c (List.mem_cons_self ..)
    have hvalue := (Option.filter_eq_some_iff.1 hd).1
    rw [List.mapM_cons, hd, ih fun c' hc' => h c' (List.mem_cons_of_mem _ hc'),
      List.filterMap_cons_some hvalue]
    rfl

/-- A numeral has a digit for each character. -/
theorem IsNumeral.length_eq {base : Nat} {cs : List Char} {digits : List Nat}
    (h : IsNumeral base cs digits) : digits.length = cs.length :=
  length_of_mapM h.values

/-- Digits are read as the numeral that they are. -/
theorem readDigits?_eq_some_iff_isNumeral {base n : Nat} {cs : List Char} :
    readDigits? base cs = some n ↔
      ∃ digits, IsNumeral base cs digits ∧ Nat.ofDigits base digits.reverse = n := by
  simp only [readDigits?_eq_some_iff, ← ofDigits_eq]
  constructor
  · rintro ⟨hne, digits, hdigits, hn⟩
    exact ⟨digits, ⟨hne, hdigits⟩, hn⟩
  · rintro ⟨digits, ⟨hne, hdigits⟩, hn⟩
    exact ⟨hne, digits, hdigits, hn⟩

end Text

namespace Literal

open Text

/-! ## The grammar -/

/-- The spelling denotes digits of a base. -/
inductive Denotes : List Char → Nat → List Nat → Prop
  | decimal {cs : List Char} {digits : List Nat} (h : IsNumeral 10 cs digits) :
    Denotes cs 10 digits
  | marked {base : Nat} {m : Char} {cs : List Char} {digits : List Nat}
    (hm : baseMarker? base = some m.toLower) (h : IsNumeral base cs digits) :
    Denotes ('0' :: m :: cs) base digits
  | dollar {cs : List Char} {digits : List Nat} (h : IsNumeral 16 cs digits) :
    Denotes ('$' :: cs) 16 digits
  | closed {c m : Char} {cs : List Char} {digits : List Nat} (hc : isDigitIn 10 c = true)
    (hm : m.toLower = 'h') (h : IsNumeral 16 (c :: cs) digits) :
    Denotes (c :: cs ++ [m]) 16 digits

theorem toLower_eq_h_iff {m : Char} : m.toLower = 'h' ↔ m = 'h' ∨ m = 'H' :=
  toLower_eq_iff (by decide) (by decide)

/-- What stands before a closing h. -/
theorem beforeH?_eq_some_iff {cs ds : List Char} :
    beforeH? cs = some ds ↔ ∃ m : Char, m.toLower = 'h' ∧ cs = ds ++ [m] := by
  have hreverse (m : Char) : cs = ds ++ [m] ↔ cs.reverse = m :: ds.reverse := by
    rw [← List.reverse_inj, List.reverse_append]
    rfl
  simp only [hreverse, toLower_eq_h_iff]
  unfold beforeH?
  split
  · next rest heq => simp [heq, List.reverse_eq_iff]
  · next rest heq => simp [heq, List.reverse_eq_iff]
  · next hlower hupper =>
    refine iff_of_false nofun ?_
    rintro ⟨m, rfl | rfl, h⟩
    · exact hlower _ h
    · exact hupper _ h

/-- The letter that closes a literal is no digit. -/
theorem digitIn?_closing {base : Nat} {m : Char} (hm : m.toLower = 'h') :
    digitIn? base m = none := by
  rw [Option.eq_none_iff_forall_ne_some]
  intro d hd
  have hcode := (toNat_of_digitIn? hd).2
  rcases toLower_eq_h_iff.1 hm with rfl | rfl
  · have hh : 'h'.toNat = 104 := rfl
    omega
  · have hh : 'H'.toNat = 72 := rfl
    omega

/-- A spelling that ends in a digit is not closed by a letter. -/
theorem beforeH?_eq_none {base : Nat} {ds : List Char} (cs : List Char) (h : AreDigits base ds)
    (hne : ds ≠ []) : beforeH? (cs ++ ds) = none := by
  rw [Option.eq_none_iff_forall_ne_some]
  intro before hbefore
  obtain ⟨m, hm, heq⟩ := beforeH?_eq_some_iff.1 hbefore
  have hlast := congrArg List.getLast? heq
  rw [List.getLast?_append_of_ne_nil _ hne, List.getLast?_concat] at hlast
  obtain ⟨d, hd⟩ := h m (List.mem_of_getLast? hlast)
  rw [digitIn?_closing hm] at hd
  cases hd

/-- What a spelling denotes is what it is taken apart into. -/
theorem Denotes.spelling_eq {cs : List Char} {base : Nat} {digits : List Nat}
    (h : Denotes cs base digits) :
    ∃ ds, spelling cs = ⟨base, ds⟩ ∧ IsNumeral base ds digits := by
  cases h with
  | decimal h =>
    -- Figures are neither a mark in front nor the letter of a base nor one that closes a literal.
    refine ⟨cs, ?_, h⟩
    have hopen : beforeH? cs = none := beforeH?_eq_none [] h.areDigits h.nonempty
    have hfigure (c : Char) (hc : c ∈ cs) : 48 ≤ c.toNat ∧ c.toNat ≤ 57 := by
      obtain ⟨d, hd⟩ := h.areDigits c hc
      have := toNat_of_digitIn? hd
      omega
    unfold spelling
    rw [hopen, ite_self]
    dsimp only
    split
    · have := hfigure '$' (List.mem_cons_self ..)
      have hdollar : '$'.toNat = 36 := rfl
      omega
    · next m ds =>
      have hcode := hfigure m (List.mem_cons_of_mem _ (List.mem_cons_self ..))
      have hlower := toNat_toLower m
      rw [if_neg (by omega)] at hlower
      have hne (letter : Char) (hletter : 57 < letter.toNat) : m.toLower ≠ letter := by
        rintro rfl
        omega
      rw [if_neg (hne 'x' (by decide)), if_neg (hne 'b' (by decide)), if_neg (hne 'o' (by decide))]
    · rfl
  | @marked base m ds digits hm h =>
    refine ⟨ds, ?_, h⟩
    have hopen : beforeH? ('0' :: m :: ds) = none :=
      beforeH?_eq_none ['0', m] h.areDigits h.nonempty
    unfold spelling
    rw [hopen, ite_self]
    dsimp only
    unfold baseMarker? at hm
    split at hm
    · simp [← Option.some.inj hm]
    · simp [← Option.some.inj hm]
    · simp [← Option.some.inj hm]
    · cases hm
  | @dollar ds digits h => exact ⟨ds, rfl, h⟩
  | @closed c m ds digits hc hm h =>
    refine ⟨c :: ds, ?_, h⟩
    have hfigure := isDigitIn_ten_iff.1 hc
    have hdecimal : isDecimal c = true := (isDecimal_iff (by omega)).2 hfigure
    have hbefore : beforeH? (c :: ds ++ [m]) = some (c :: ds) :=
      beforeH?_eq_some_iff.2 ⟨m, hm, rfl⟩
    unfold spelling
    rw [hbefore]
    simp [hdecimal]

/-- A spelling denotes its digits in its base. -/
theorem denotes_of_spelling {cs ds : List Char} {base : Nat} {digits : List Nat}
    (hspelling : spelling cs = ⟨base, ds⟩) (h : IsNumeral base ds digits) :
    Denotes cs base digits := by
  -- The cases are the branches of the reader, in its order: closed, dollar, marked, decimal.
  unfold spelling at hspelling
  split at hspelling
  · next hclosed =>
    cases hspelling
    split at hclosed
    · next hhead =>
      obtain ⟨m, hm, rfl⟩ := beforeH?_eq_some_iff.1 hclosed
      obtain ⟨c, ds, rfl⟩ := List.exists_cons_of_ne_nil h.nonempty
      obtain ⟨d, hd⟩ := h.areDigits c (List.mem_cons_self ..)
      exact .closed (isDigitIn_ten_of_isDecimal hd hhead) hm h
    · cases hclosed
  · split at hspelling
    · cases hspelling
      exact .dollar h
    · split at hspelling
      · next hm =>
        cases hspelling
        exact .marked (by rw [hm]; rfl) h
      · split at hspelling
        · next hm =>
          cases hspelling
          exact .marked (by rw [hm]; rfl) h
        · split at hspelling
          · next hm =>
            cases hspelling
            exact .marked (by rw [hm]; rfl) h
          · cases hspelling
            exact .decimal h
    · cases hspelling
      exact .decimal h

/-- No spelling has two readings. -/
theorem Denotes.unique {cs : List Char} {base base' : Nat} {digits digits' : List Nat}
    (h : Denotes cs base digits) (h' : Denotes cs base' digits') :
    base = base' ∧ digits = digits' := by
  obtain ⟨ds, heq, hds⟩ := h.spelling_eq
  obtain ⟨ds', heq', hds'⟩ := h'.spelling_eq
  rw [heq, Spelling.mk.injEq] at heq'
  obtain ⟨rfl, rfl⟩ := heq'
  exact ⟨rfl, Option.some.inj (hds.values.symm.trans hds'.values)⟩

/-- The literals are the spellings of the grammar, and their values the positional values of their
digits. -/
theorem value?_eq_some_iff {cs : List Char} {n : Nat} :
    value? cs = some n ↔
      ∃ base digits, Denotes cs base digits ∧ Nat.ofDigits base digits.reverse = n := by
  rw [value?, readDigits?_eq_some_iff_isNumeral]
  constructor
  · rintro ⟨digits, hdigits, hn⟩
    exact ⟨_, digits, denotes_of_spelling rfl hdigits, hn⟩
  · rintro ⟨base, digits, hdenotes, hn⟩
    obtain ⟨ds, heq, hds⟩ := hdenotes.spelling_eq
    rw [heq]
    exact ⟨digits, hds, hn⟩

theorem ne_nil_of_value? {cs : List Char} {n : Nat} (h : value? cs = some n) : cs ≠ [] := by
  rintro rfl
  cases h

/-- What has no value denotes nothing. -/
theorem value?_eq_none_iff {cs : List Char} :
    value? cs = none ↔ ∀ base digits, ¬ Denotes cs base digits := by
  simp only [Option.eq_none_iff_forall_ne_some, ne_eq, value?_eq_some_iff]
  constructor
  · intro h base digits hdenotes
    exact h _ ⟨base, digits, hdenotes, rfl⟩
  · rintro h n ⟨base, digits, hdenotes, -⟩
    exact h base digits hdenotes

/-! ## Letter case -/

theorem digitIn?_lowerChar (base : Nat) (c : Char) :
    digitIn? base (lowerChar c) = digitIn? base c := by
  have hvalue : digitValue? (lowerChar c) = digitValue? c := by
    by_cases hc : c = '\u212A'
    · rw [hc]
      decide
    · have hlower := toNat_toLower c
      rw [lowerChar, if_neg hc]
      simp only [digitValue?, le_iff_toNat_le, Char.reduceToNat]
      grind
  rw [digitIn?, hvalue, digitIn?]

theorem isNumeral_map_lowerChar {base : Nat} {cs : List Char} {digits : List Nat} :
    IsNumeral base (cs.map lowerChar) digits ↔ IsNumeral base cs digits := by
  have hmap : (cs.map lowerChar).mapM (digitIn? base) = cs.mapM (digitIn? base) := by
    rw [List.mapM_map]
    simp only [Function.comp_def, digitIn?_lowerChar]
  constructor
  · rintro ⟨hne, hvalues⟩
    exact ⟨mt List.map_eq_nil_iff.2 hne, hmap ▸ hvalues⟩
  · rintro ⟨hne, hvalues⟩
    exact ⟨mt List.map_eq_nil_iff.1 hne, hmap.trans hvalues⟩

/-- Of the letters of ASCII only `k` is the lower case of something else besides its two cases. -/
theorem toLower_lowerChar_eq_iff {letter m : Char} (hletter : letter.toNat < 0x80)
    (hk : letter ≠ 'k') : (lowerChar m).toLower = letter ↔ m.toLower = letter := by
  by_cases hm : m = '\u212A'
  · rw [hm]
    refine iff_of_false (fun h => hk h.symm) ?_
    rintro rfl
    exact absurd hletter (by decide)
  · rw [lowerChar, if_neg hm, toLower_toLower]

/-- A figure or a mark of ASCII is the lower case of no other character. -/
theorem lowerChar_eq_iff {c mark : Char} (hmark : mark.toNat < 65) :
    lowerChar c = mark ↔ c = mark := by
  by_cases hc : c = '\u212A'
  · rw [hc]
    refine iff_of_false ?_ ?_
    · rintro rfl
      exact absurd hmark (by decide)
    · rintro rfl
      exact absurd hmark (by decide)
  · have hlower := toNat_toLower c
    rw [lowerChar, if_neg hc, ← Char.toNat_inj, ← Char.toNat_inj]
    split at hlower <;> omega

theorem baseMarker?_map_lowerChar {base : Nat} {m : Char} :
    baseMarker? base = some (lowerChar m).toLower ↔ baseMarker? base = some m.toLower := by
  unfold baseMarker?
  split
  · simp only [Option.some.injEq, eq_comm (a := 'b')]
    exact toLower_lowerChar_eq_iff (by decide) (by decide)
  · simp only [Option.some.injEq, eq_comm (a := 'o')]
    exact toLower_lowerChar_eq_iff (by decide) (by decide)
  · simp only [Option.some.injEq, eq_comm (a := 'x')]
    exact toLower_lowerChar_eq_iff (by decide) (by decide)
  · exact iff_of_false nofun nofun

theorem isDigitIn_lowerChar (base : Nat) (c : Char) :
    isDigitIn base (lowerChar c) = isDigitIn base c := by
  rw [isDigitIn, digitIn?_lowerChar, isDigitIn]

/-- The case of a literal does not matter. -/
theorem denotes_map_lowerChar {cs : List Char} {base : Nat} {digits : List Nat} :
    Denotes (cs.map lowerChar) base digits ↔ Denotes cs base digits := by
  constructor
  · intro h
    -- The lowered text is taken apart, and each piece is the image of a piece of the text.
    generalize hcs : cs.map lowerChar = lowered at h
    cases h with
    | decimal h =>
      subst hcs
      exact .decimal (isNumeral_map_lowerChar.1 h)
    | marked hm h =>
      obtain ⟨zero, rest, rfl, hzero, hrest⟩ := List.map_eq_cons_iff.1 hcs
      obtain ⟨m, ds, rfl, rfl, rfl⟩ := List.map_eq_cons_iff.1 hrest
      obtain rfl : zero = '0' := (lowerChar_eq_iff (by decide)).1 hzero
      exact .marked (baseMarker?_map_lowerChar.1 hm) (isNumeral_map_lowerChar.1 h)
    | dollar h =>
      obtain ⟨dollar, ds, rfl, hdollar, rfl⟩ := List.map_eq_cons_iff.1 hcs
      obtain rfl : dollar = '$' := (lowerChar_eq_iff (by decide)).1 hdollar
      exact .dollar (isNumeral_map_lowerChar.1 h)
    | closed hc hm h =>
      obtain ⟨front, last, rfl, hfront, hlast⟩ := List.map_eq_append_iff.1 hcs
      obtain ⟨c, ds, rfl, rfl, rfl⟩ := List.map_eq_cons_iff.1 hfront
      obtain ⟨m, after, rfl, rfl, hafter⟩ := List.map_eq_cons_iff.1 hlast
      obtain rfl : after = [] := List.map_eq_nil_iff.1 hafter
      rw [isDigitIn_lowerChar] at hc
      exact .closed hc ((toLower_lowerChar_eq_iff (by decide) (by decide)).1 hm)
        (isNumeral_map_lowerChar.1 h)
  · intro h
    cases h with
    | decimal h => exact .decimal (isNumeral_map_lowerChar.2 h)
    | marked hm h =>
      exact .marked (baseMarker?_map_lowerChar.2 hm) (isNumeral_map_lowerChar.2 h)
    | dollar h => exact .dollar (isNumeral_map_lowerChar.2 h)
    | @closed c m ds digits hc hm h =>
      rw [List.map_append]
      rw [← isDigitIn_lowerChar] at hc
      exact .closed hc ((toLower_lowerChar_eq_iff (by decide) (by decide)).2 hm)
        (isNumeral_map_lowerChar.2 h)

/-- The case of its letters makes no difference to a literal. -/
theorem value?_map_lowerChar (cs : List Char) : value? (cs.map lowerChar) = value? cs := by
  ext n
  simp only [value?_eq_some_iff, denotes_map_lowerChar]

end Literal

end SleighForge
