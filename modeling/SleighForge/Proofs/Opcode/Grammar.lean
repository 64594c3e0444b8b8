import Mathlib.Data.List.TakeDrop
import Mathlib.Data.List.TakeWhile
import SleighForge.Opcode
import SleighForge.Proofs.Text.Literals

/-!
# What opcodes denote

The texts of opcodes are given by a grammar. The body of an opcode is a hexadecimal run after `0x`,
a binary run after `0b`, or a run without a marker (`Opcode.Body`). A slash and a width may follow it
(`Opcode.Denotes`). The reader splits a text at its first slash, which no body holds, and reads the
body in the one way that the grammar has for it (`body?_eq_some_iff`), so it takes exactly the texts
of the grammar that the limits admit and gives what they denote (`parse_denotes`).
-/

namespace SleighForge

namespace Opcode

open Text

/-! ## Runs -/

/-- A digit of sixteen, in either case, or an underscore. -/
def IsHexChar (c : Char) : Prop :=
  '0' ≤ c ∧ c ≤ '9' ∨ 'A' ≤ c ∧ c ≤ 'F' ∨ 'a' ≤ c ∧ c ≤ 'f' ∨ c = '_'

/-- A digit of two or an underscore. -/
def IsBinaryChar (c : Char) : Prop :=
  c = '0' ∨ c = '1' ∨ c = '_'

/-- One or more characters of a class. -/
structure Run (IsChar : Char → Prop) (cs : List Char) : Prop where
  nonempty : cs ≠ []
  chars : ∀ c ∈ cs, IsChar c

theorem isDigitOrGap_of_digitIn? {base d : Nat} {c : Char} (h : digitIn? base c = some d) :
    isDigitOrGap base c = true := by
  rw [isDigitOrGap, isDigitIn, h]
  rfl

theorem isDigitOrGap_sixteen_iff {c : Char} : isDigitOrGap 16 c = true ↔ IsHexChar c := by
  simp only [IsHexChar, le_iff_toNat_le, Char.reduceToNat]
  constructor
  · intro h
    rw [isDigitOrGap, Bool.or_eq_true, beq_iff_eq] at h
    rcases h with h | h
    · obtain ⟨d, hd⟩ := Option.isSome_iff_exists.1 h
      have hcode := (toNat_of_digitIn? hd).2
      omega
    · exact .inr (.inr (.inr h))
  · -- The three ranges are those of the figures and of the letters in either case.
    have hvalue : digitValue? c = if 48 ≤ c.toNat ∧ c.toNat ≤ 57 then some (c.toNat - 48)
        else if 97 ≤ c.toNat ∧ c.toNat ≤ 102 then some (c.toNat - 97 + 10)
        else if 65 ≤ c.toNat ∧ c.toNat ≤ 70 then some (c.toNat - 65 + 10)
        else none := by
      simp only [digitValue?, le_iff_toNat_le, Char.reduceToNat]
    rintro (h | h | h | rfl)
    · rw [if_pos h] at hvalue
      exact isDigitOrGap_of_digitIn? (digitIn?_of_digitValue? hvalue (by omega))
    · rw [if_neg (by omega), if_neg (by omega), if_pos h] at hvalue
      exact isDigitOrGap_of_digitIn? (digitIn?_of_digitValue? hvalue (by omega))
    · rw [if_neg (by omega), if_pos h] at hvalue
      exact isDigitOrGap_of_digitIn? (digitIn?_of_digitValue? hvalue (by omega))
    · decide

theorem isDigitOrGap_two_iff {c : Char} : isDigitOrGap 2 c = true ↔ IsBinaryChar c := by
  constructor
  · intro h
    rw [isDigitOrGap, Bool.or_eq_true, beq_iff_eq] at h
    rcases h with h | h
    · obtain ⟨d, hd⟩ := Option.isSome_iff_exists.1 h
      have hcode := toNat_of_digitIn? hd
      have hfigure : c.toNat = '0'.toNat ∨ c.toNat = '1'.toNat := by
        simp only [Char.reduceToNat]
        omega
      rw [Char.toNat_inj, Char.toNat_inj] at hfigure
      exact hfigure.imp_right .inl
    · exact .inr (.inr h)
  · rintro (rfl | rfl | rfl) <;> decide

theorem isRun_iff {base : Nat} {cs : List Char} {IsChar : Char → Prop}
    (hchar : ∀ c, isDigitOrGap base c = true ↔ IsChar c) :
    isRun base cs = true ↔ Run IsChar cs := by
  simp only [isRun, Bool.and_eq_true, Bool.not_eq_true', List.isEmpty_eq_false_iff,
    List.all_eq_true, hchar]
  constructor
  · intro h
    exact ⟨h.1, h.2⟩
  · intro h
    exact ⟨h.nonempty, h.chars⟩

theorem isRun_sixteen_iff {cs : List Char} : isRun 16 cs = true ↔ Run IsHexChar cs :=
  isRun_iff fun _ => isDigitOrGap_sixteen_iff

theorem isRun_two_iff {cs : List Char} : isRun 2 cs = true ↔ Run IsBinaryChar cs :=
  isRun_iff fun _ => isDigitOrGap_two_iff

/-- A binary run is a hexadecimal one, too. -/
theorem IsBinaryChar.isHexChar {c : Char} (h : IsBinaryChar c) : IsHexChar c := by
  rw [← isDigitOrGap_sixteen_iff]
  rcases h with rfl | rfl | rfl <;> decide

/-! ## Bodies -/

/-- The text of a body, its base, and its run of digits and underscores. A run without a marker is
binary if it can be. A text that can be read as a marker and a binary run is not read otherwise. -/
inductive Body : List Char → Nat → List Char → Prop
  | hex {m : Char} {run : List Char} (hm : m = 'x' ∨ m = 'X') (h : Run IsHexChar run) :
    Body ('0' :: m :: run) 16 run
  | binary {m : Char} {run : List Char} (hm : m = 'b' ∨ m = 'B') (h : Run IsBinaryChar run) :
    Body ('0' :: m :: run) 2 run
  | bareBinary {run : List Char} (h : Run IsBinaryChar run) : Body run 2 run
  | bareHex {run : List Char} (h : Run IsHexChar run) (hbinary : ¬ Run IsBinaryChar run)
    (hmarked : ∀ m rest, (m = 'b' ∨ m = 'B') → run = '0' :: m :: rest → ¬ Run IsBinaryChar rest) :
    Body run 16 run

theorem toLower_eq_x_iff {m : Char} : m.toLower = 'x' ↔ m = 'x' ∨ m = 'X' :=
  toLower_eq_iff (by decide) (by decide)

theorem toLower_eq_b_iff {m : Char} : m.toLower = 'b' ↔ m = 'b' ∨ m = 'B' :=
  toLower_eq_iff (by decide) (by decide)

/-- A body without a marker is binary if it can be, and hexadecimal if not. -/
theorem ofBareRun?_eq_some_iff {cs run : List Char} {base : Nat} :
    ofBareRun? cs = some (base, run) ↔ run = cs ∧
      (base = 2 ∧ Run IsBinaryChar cs ∨ base = 16 ∧ Run IsHexChar cs ∧ ¬ Run IsBinaryChar cs) := by
  -- The hexadecimal test comes first, and binary runs pass it too.
  have hhex (h : isRun 2 cs = true) : isRun 16 cs = true := by
    rw [isRun_two_iff] at h
    exact isRun_sixteen_iff.2 ⟨h.nonempty, fun c hc => (h.chars c hc).isHexChar⟩
  unfold ofBareRun?
  rw [← isRun_two_iff, ← isRun_sixteen_iff]
  constructor
  · intro h
    by_cases hsixteen : isRun 16 cs = true
    · rw [if_pos hsixteen] at h
      cases h
      by_cases htwo : isRun 2 cs = true
      · exact ⟨rfl, .inl ⟨if_pos htwo, htwo⟩⟩
      · exact ⟨rfl, .inr ⟨if_neg htwo, hsixteen, htwo⟩⟩
    · rw [if_neg hsixteen] at h
      cases h
  · rintro ⟨rfl, ⟨rfl, htwo⟩ | ⟨rfl, hsixteen, htwo⟩⟩
    · rw [if_pos (hhex htwo), if_pos htwo]
    · rw [if_pos hsixteen, if_neg htwo]

/-- A body is bare unless it has a marker and a run after it. -/
theorem Body.of_bare {cs run : List Char} {base : Nat} (h : ofBareRun? cs = some (base, run))
    (hmarked : ∀ m rest, (m = 'b' ∨ m = 'B') → cs = '0' :: m :: rest → ¬ Run IsBinaryChar rest) :
    Body cs base run := by
  obtain ⟨rfl, ⟨rfl, hrun⟩ | ⟨rfl, hrun, hbinary⟩⟩ := ofBareRun?_eq_some_iff.1 h
  · exact .bareBinary hrun
  · exact .bareHex hrun hbinary hmarked

/-- How a body that begins like a marked one is read. -/
theorem body?_marked (m : Char) (rest : List Char) : body? ('0' :: m :: rest) =
    if m.toLower = 'x' ∧ isRun 16 rest then some (16, rest)
    else if m.toLower = 'b' ∧ isRun 2 rest then some (2, rest)
    else ofBareRun? ('0' :: m :: rest) :=
  rfl

/-- A text that begins with no marker of a run is a bare run, if anything. -/
theorem body?_bare {cs : List Char} (hhex : ∀ m rest, cs = '0' :: m :: rest → m.toLower ≠ 'x')
    (hbinary : ∀ m rest, cs = '0' :: m :: rest → m.toLower = 'b' → ¬ Run IsBinaryChar rest) :
    body? cs = ofBareRun? cs := by
  unfold body?
  split
  · next m rest =>
    rw [if_neg (fun h => hhex m rest rfl h.1), if_neg]
    intro h
    exact hbinary m rest rfl h.1 (isRun_two_iff.1 h.2)
  · rfl

/-- The letter of the hexadecimal marker is no digit. -/
theorem IsHexChar.toLower_ne_x {c : Char} (h : IsHexChar c) : c.toLower ≠ 'x' := by
  intro hx
  rw [← isDigitOrGap_sixteen_iff] at h
  rcases toLower_eq_x_iff.1 hx with rfl | rfl <;> exact absurd h (by decide)

theorem IsBinaryChar.toLower_ne_b {c : Char} (h : IsBinaryChar c) : c.toLower ≠ 'b' := by
  rcases h with rfl | rfl | rfl <;> decide

/-- The reader of bodies reads them in the way of the grammar, and reads nothing else. -/
theorem body?_eq_some_iff {cs run : List Char} {base : Nat} :
    body? cs = some (base, run) ↔ Body cs base run := by
  constructor
  · intro h
    unfold body? at h
    split at h
    · next m rest =>
      by_cases hx : m.toLower = 'x' ∧ isRun 16 rest = true
      · rw [if_pos hx] at h
        cases h
        exact .hex (toLower_eq_x_iff.1 hx.1) (isRun_sixteen_iff.1 hx.2)
      rw [if_neg hx] at h
      by_cases hb : m.toLower = 'b' ∧ isRun 2 rest = true
      · rw [if_pos hb] at h
        cases h
        exact .binary (toLower_eq_b_iff.1 hb.1) (isRun_two_iff.1 hb.2)
      rw [if_neg hb] at h
      refine .of_bare h ?_
      intro m' rest' hm' heq hrest
      cases heq
      exact hb ⟨toLower_eq_b_iff.2 hm', isRun_two_iff.2 hrest⟩
    · next hmarked =>
      refine .of_bare h ?_
      intro m rest _ heq
      exact absurd heq (hmarked m rest)
  · intro h
    cases h with
    | @hex m run hm hrun =>
      rw [body?_marked, if_pos ⟨toLower_eq_x_iff.2 hm, isRun_sixteen_iff.2 hrun⟩]
    | @binary m run hm hrun =>
      have hb : m.toLower = 'b' := toLower_eq_b_iff.2 hm
      have hx : m.toLower ≠ 'x' := by
        rw [hb]
        decide
      rw [body?_marked, if_neg (fun h => hx h.1), if_pos ⟨hb, isRun_two_iff.2 hrun⟩]
    | bareBinary hrun =>
      -- The second character of a binary run is no letter, so there is no marker.
      have hsecond (m : Char) (rest : List Char) (heq : cs = '0' :: m :: rest) : IsBinaryChar m :=
        hrun.chars m (by simp [heq])
      rw [body?_bare, ofBareRun?_eq_some_iff]
      · exact ⟨rfl, .inl ⟨rfl, hrun⟩⟩
      · intro m rest heq
        exact (hsecond m rest heq).isHexChar.toLower_ne_x
      · intro m rest heq hb
        exact absurd hb (hsecond m rest heq).toLower_ne_b
    | bareHex hrun hbinary hmarked =>
      rw [body?_bare, ofBareRun?_eq_some_iff]
      · exact ⟨rfl, .inr ⟨rfl, hrun, hbinary⟩⟩
      · intro m rest heq
        exact (hrun.chars m (by simp [heq])).toLower_ne_x
      · intro m rest heq hb
        exact hmarked m rest (toLower_eq_b_iff.1 hb) heq

/-! ## Widths -/

/-- The characters of a body are those of hexadecimal runs, and the letter of their marker. -/
theorem Body.char_cases {cs run : List Char} {base : Nat} (h : Body cs base run) {c : Char}
    (hc : c ∈ cs) : isDigitOrGap 16 c = true ∨ c = 'x' ∨ c = 'X' := by
  have hbinary {run : List Char} (hrun : Run IsBinaryChar run) (hc : c ∈ run) :
      isDigitOrGap 16 c = true :=
    isDigitOrGap_sixteen_iff.2 (hrun.chars c hc).isHexChar
  cases h with
  | @hex m run hm hrun =>
    rcases List.mem_cons.1 hc with rfl | hc
    · exact .inl (by decide)
    rcases List.mem_cons.1 hc with rfl | hc
    · exact .inr hm
    · exact .inl (isDigitOrGap_sixteen_iff.2 (hrun.chars c hc))
  | @binary m run hm hrun =>
    rcases List.mem_cons.1 hc with rfl | hc
    · exact .inl (by decide)
    rcases List.mem_cons.1 hc with rfl | hc
    · rcases hm with rfl | rfl <;> exact .inl (by decide)
    · exact .inl (hbinary hrun hc)
  | bareBinary hrun => exact .inl (hbinary hrun hc)
  | bareHex hrun => exact .inl (isDigitOrGap_sixteen_iff.2 (hrun.chars c hc))

/-- A body has no slash, so the first slash ends it. -/
theorem Body.slash_not_mem {cs run : List Char} {base : Nat} (h : Body cs base run) :
    '/' ∉ cs := by
  intro hmem
  exact absurd (h.char_cases hmem) (by decide)

/-- A body has no line feed. -/
theorem Body.lineFeed_not_mem {cs run : List Char} {base : Nat} (h : Body cs base run) :
    '\n' ∉ cs := by
  intro hmem
  exact absurd (h.char_cases hmem) (by decide)

/-- Without a slash there is a body only. -/
theorem parts?_of_not_mem {cs : List Char} (h : '/' ∉ cs) :
    parts? cs = (body? cs).map (·, none) := by
  have hother : ∀ c ∈ cs, (c != '/') = true := by
    intro c hc
    rw [bne_iff_ne]
    rintro rfl
    exact h hc
  rw [parts?, List.span_eq_takeWhile_dropWhile, List.takeWhile_eq_self_iff.2 hother,
    List.dropWhile_eq_nil_iff.2 hother]

/-- After the first slash there is the width. -/
theorem parts?_slash {body suffix : List Char} (h : '/' ∉ body) :
    parts? (body ++ '/' :: suffix) =
      (do return (← body? body, some (← widthFigures? suffix))) := by
  have hother : ∀ c ∈ body, (c != '/') = true := by
    intro c hc
    rw [bne_iff_ne]
    rintro rfl
    exact h hc
  rw [parts?, List.span_eq_takeWhile_dropWhile, List.takeWhile_append_of_pos hother,
    List.dropWhile_append_of_pos hother, List.takeWhile_cons_of_neg (by decide),
    List.dropWhile_cons_of_neg (by decide), List.append_nil]

/-- An opcode is a body, or a body with a slash and figures after it. -/
theorem parts?_eq_some_iff {cs run : List Char} {base : Nat} {figures? : Option (List Nat)} :
    parts? cs = some ((base, run), figures?) ↔ figures? = none ∧ Body cs base run ∨
      ∃ body suffix figures, cs = body ++ '/' :: suffix ∧ Body body base run ∧
        widthFigures? suffix = some figures ∧ figures? = some figures := by
  constructor
  · intro h
    by_cases hslash : '/' ∈ cs
    · -- The text is cut at its first slash: no body has one.
      obtain ⟨body, suffix, rfl, hbody⟩ := List.eq_append_cons_of_mem hslash
      rw [parts?_slash hbody, Option.bind_eq_bind, Option.bind_eq_some_iff] at h
      obtain ⟨⟨base', run'⟩, hread, h⟩ := h
      obtain ⟨figures, hsuffix, h⟩ := Option.bind_eq_some_iff.1 h
      cases h
      exact .inr ⟨body, suffix, figures, rfl, body?_eq_some_iff.1 hread, hsuffix, rfl⟩
    · rw [parts?_of_not_mem hslash, Option.map_eq_some_iff] at h
      obtain ⟨⟨base', run'⟩, hread, h⟩ := h
      cases h
      exact .inl ⟨rfl, body?_eq_some_iff.1 hread⟩
  · rintro (⟨rfl, hbody⟩ | ⟨body, suffix, figures, rfl, hbody, hsuffix, rfl⟩)
    · rw [parts?_of_not_mem hbody.slash_not_mem, body?_eq_some_iff.2 hbody]
      rfl
    · rw [parts?_slash hbody.slash_not_mem, body?_eq_some_iff.2 hbody, hsuffix]
      rfl

/-- A width is a sequence of decimal digits of any script. -/
theorem widthFigures?_eq_some_iff {cs : List Char} {figures : List Nat} :
    widthFigures? cs = some figures ↔ cs ≠ [] ∧ cs.mapM decimalValue? = some figures := by
  unfold widthFigures?
  by_cases hcs : cs = []
  · simp [hcs]
  · rw [if_neg (mt List.isEmpty_iff.1 hcs), and_iff_right hcs]

/-- The width after the slash is taken if its figures are not too many. -/
theorem widthOf_some_eq_ok_iff {limits : Limits} {bitness base count width : Nat}
    {figures : List Nat} : widthOf limits bitness base count (some figures) = .ok width ↔
      limits.digitsFault? 10 figures.length = none ∧
        Nat.ofDigits 10 figures.reverse = width := by
  rw [widthOf, ← ofDigits_eq]
  cases limits.digitsFault? 10 figures.length with
  | none => simp
  | some fault => simp

/-! ## Opcodes -/

/-- The characters of a run are digits of its base and underscores. -/
theorem Body.chars {cs run : List Char} {base : Nat} (h : Body cs base run) :
    ∀ c ∈ run, isDigitOrGap base c = true := by
  intro c hc
  cases h with
  | hex hm hrun => exact isDigitOrGap_sixteen_iff.2 (hrun.chars c hc)
  | binary hm hrun => exact isDigitOrGap_two_iff.2 (hrun.chars c hc)
  | bareBinary hrun => exact isDigitOrGap_two_iff.2 (hrun.chars c hc)
  | bareHex hrun => exact isDigitOrGap_sixteen_iff.2 (hrun.chars c hc)

/-- A run without its gaps has digits only. -/
theorem areDigits_filter {base : Nat} {run : List Char}
    (h : ∀ c ∈ run, isDigitOrGap base c = true) : AreDigits base (run.filter (· != '_')) := by
  intro c hc
  obtain ⟨hc, hgap⟩ := List.mem_filter.1 hc
  have hdigit := h c hc
  rw [isDigitOrGap, Bool.or_eq_true, beq_iff_eq] at hdigit
  exact Option.isSome_iff_exists.1 (hdigit.resolve_right (bne_iff_ne.1 hgap))

/-- The word of an opcode that was taken apart is made of the value of its digits and its width. -/
theorem parse_eq {limits : Limits} {text : String} {bitness base : Nat} {run : List Char}
    {figures? : Option (List Nat)} {digits : List Nat}
    (hparts : parts? (dropFinalNewline text.toList) = some ((base, run), figures?))
    (hdigits : IsNumeral base (run.filter (· != '_')) digits) :
    parse limits text bitness =
      (widthOf limits bitness base digits.length figures?).bind
        (make limits (Nat.ofDigits base digits.reverse)) := by
  have hvalues := (isNumeral_of_areDigits hdigits.nonempty hdigits.areDigits).values
  obtain rfl := Option.some.inj (hdigits.values.symm.trans hvalues)
  unfold parse
  rw [hparts]
  dsimp only
  rw [if_neg (mt List.isEmpty_iff.1 hdigits.nonempty), ← ofDigits_eq, hdigits.length_eq]
  rfl

/-- An opcode that is read has digits. -/
theorem exists_isNumeral_of_parse {limits : Limits} {text : String} {bitness base : Nat}
    {run : List Char} {figures? : Option (List Nat)} {o : Opcode}
    (hparts : parts? (dropFinalNewline text.toList) = some ((base, run), figures?))
    (hrun : ∀ c ∈ run, isDigitOrGap base c = true) (h : parse limits text bitness = .ok o) :
    ∃ digits, IsNumeral base (run.filter (· != '_')) digits := by
  by_cases hempty : run.filter (· != '_') = []
  · -- There are underscores only, which are no numeral.
    unfold parse at h
    rw [hparts] at h
    dsimp only at h
    rw [if_pos (List.isEmpty_iff.2 hempty)] at h
    cases h
  · exact ⟨_, isNumeral_of_areDigits hempty (areDigits_filter hrun)⟩

/-- The value and the width of an opcode that is read are those of its parts, and the limits admit
them. -/
theorem parse_eq_ok_iff {limits : Limits} {text : String} {bitness base : Nat} {run : List Char}
    {figures? : Option (List Nat)} {digits : List Nat}
    (hparts : parts? (dropFinalNewline text.toList) = some ((base, run), figures?))
    (hdigits : IsNumeral base (run.filter (· != '_')) digits) {o : Opcode} :
    parse limits text bitness = .ok o ↔ o.value = Nat.ofDigits base digits.reverse ∧
      widthOf limits bitness base digits.length figures? = .ok o.width ∧
      limits.widthFault? o.width = none := by
  rw [parse_eq hparts hdigits]
  cases widthOf limits bitness base digits.length figures? with
  | error fault => simp [Except.bind]
  | ok width =>
    show make _ _ _ = _ ↔ _
    rw [make_eq_ok_iff, Except.ok.injEq]
    constructor
    · rintro ⟨hvalue, rfl, hlimit⟩
      exact ⟨hvalue, rfl, hlimit⟩
    · rintro ⟨hvalue, rfl, hlimit⟩
      exact ⟨hvalue, rfl, hlimit⟩

/-- An opcode that is read has been taken apart. -/
theorem exists_parts_of_parse {limits : Limits} {text : String} {bitness : Nat} {o : Opcode}
    (h : parse limits text bitness = .ok o) : ∃ base run figures?,
      parts? (dropFinalNewline text.toList) = some ((base, run), figures?) := by
  cases hparts : parts? (dropFinalNewline text.toList) with
  | none =>
    rw [parse, hparts] at h
    cases h
  | some parts => exact ⟨parts.1.1, parts.1.2, parts.2, rfl⟩

theorem dropFinalNewline_eq_self {cs : List Char} (h : cs.getLast? ≠ some '\n') :
    dropFinalNewline cs = cs := by
  unfold dropFinalNewline
  split
  · next rest heq =>
    rw [List.getLast?_eq_head?_reverse, heq] at h
    exact absurd rfl h
  · rfl

theorem decimalValue?_lineFeed : decimalValue? '\n' = none := by
  decide

/-- A body on its own is taken apart into itself. -/
theorem parts?_body {text : String} {base : Nat} {run : List Char}
    (hbody : Body text.toList base run) :
    parts? (dropFinalNewline text.toList) = some ((base, run), none) := by
  have htext : dropFinalNewline text.toList = text.toList := by
    refine dropFinalNewline_eq_self ?_
    intro hlast
    exact hbody.lineFeed_not_mem (List.mem_of_getLast? hlast)
  rw [htext, parts?_eq_some_iff]
  exact .inl ⟨rfl, hbody⟩

/-- A body before a slash is taken apart into itself and the figures after the slash. -/
theorem parts?_sized {text : String} {base : Nat} {body run suffix : List Char}
    {figures : List Nat} (htext : text.toList = body ++ '/' :: suffix) (hbody : Body body base run)
    (hsuffix : suffix ≠ []) (hfigures : suffix.mapM decimalValue? = some figures) :
    parts? (dropFinalNewline text.toList) = some ((base, run), some figures) := by
  have hline : dropFinalNewline text.toList = text.toList := by
    refine dropFinalNewline_eq_self ?_
    intro hlast
    rw [htext, List.getLast?_append_of_ne_nil _ (List.cons_ne_nil _ _),
      List.getLast?_cons_of_ne_nil hsuffix] at hlast
    obtain ⟨d, hd⟩ := exists_of_mapM hfigures _ (List.mem_of_getLast? hlast)
    exact absurd hd (by simp [decimalValue?_lineFeed])
  rw [hline, htext, parts?_eq_some_iff]
  have hwritten := widthFigures?_eq_some_iff.2 ⟨hsuffix, hfigures⟩
  exact .inr ⟨body, suffix, _, rfl, hbody, hwritten, rfl⟩

/-- The text denotes a value and a width. The width is that after the slash, which is not zero, or
else that of the digits, but at least the bitness. Underscores do not count as digits. -/
inductive Denotes (bitness : Nat) : List Char → Nat → Nat → Prop
  | unsized {body run : List Char} {base : Nat} {digits : List Nat} (hbody : Body body base run)
    (hdigits : IsNumeral base (run.filter (· != '_')) digits)
    (hfits : Nat.ofDigits base digits.reverse <
      2 ^ max bitness (digits.length * bitsPerDigit base)) :
    Denotes bitness body (Nat.ofDigits base digits.reverse)
      (max bitness (digits.length * bitsPerDigit base))
  | sized {body run suffix : List Char} {base : Nat} {digits figures : List Nat}
    (hbody : Body body base run) (hdigits : IsNumeral base (run.filter (· != '_')) digits)
    (hsuffix : suffix ≠ []) (hfigures : suffix.mapM decimalValue? = some figures)
    (hpos : 0 < Nat.ofDigits 10 figures.reverse)
    (hfits : Nat.ofDigits base digits.reverse < 2 ^ Nat.ofDigits 10 figures.reverse) :
    Denotes bitness (body ++ '/' :: suffix) (Nat.ofDigits base digits.reverse)
      (Nat.ofDigits 10 figures.reverse)

/-- The limits admit an opcode of the text and of the width: the number after its slash is short
enough, and a word may be as wide. -/
structure Admits (limits : Limits) (cs : List Char) (width : Nat) : Prop where
  figures : ∀ body suffix, cs = body ++ '/' :: suffix →
    ∀ limit, limits.digits = some limit → suffix.length ≤ limit
  bits : ∀ limit, limits.bits = some limit → width ≤ limit

section

variable {limits : Limits} {body run suffix : List Char} {base width : Nat}

/-- A text without a slash is admitted if its width is. -/
theorem admits_body_iff (hbody : Body body base run) :
    Admits limits body width ↔ limits.widthFault? width = none := by
  rw [Limits.widthFault?_eq_none_iff]
  constructor
  · exact Admits.bits
  · intro hbits
    refine ⟨?_, hbits⟩
    rintro before after rfl
    exact absurd (List.mem_append_right _ (List.mem_cons_self ..)) hbody.slash_not_mem

/-- There is one slash only, and the limit of figures is about what follows it. -/
theorem admits_sized_iff (hbody : Body body base run) {figures : List Nat}
    (hfigures : suffix.mapM decimalValue? = some figures) :
    Admits limits (body ++ '/' :: suffix) width ↔
      limits.digitsFault? 10 figures.length = none ∧ limits.widthFault? width = none := by
  rw [Limits.widthFault?_eq_none_iff, Limits.digitsFault?_eq_none_iff, length_of_mapM hfigures]
  have hslash : '/' ∉ suffix := by
    intro hmem
    obtain ⟨d, hd⟩ := exists_of_mapM hfigures _ hmem
    have hnone : decimalValue? '/' = none := by decide
    rw [hnone] at hd
    cases hd
  constructor
  · intro h
    exact ⟨fun _ => h.figures body suffix rfl, h.bits⟩
  · rintro ⟨hdigits, hbits⟩
    refine ⟨?_, hbits⟩
    intro before after heq
    obtain ⟨-, -, hafter⟩ :=
      (List.append_cons_inj_of_notMem hbody.slash_not_mem hslash).1 heq
    exact hafter ▸ hdigits rfl

end

/-- What is made of a text of the grammar is what it denotes, or the limits do not admit it. -/
theorem Denotes.parse_cases {text : String} {bitness value width : Nat}
    (h : Denotes bitness text.toList value width) (limits : Limits) :
    Admits limits text.toList width ∧
        (∃ o, parse limits text bitness = .ok o ∧ o.value = value ∧ o.width = width) ∨
      ¬ Admits limits text.toList width ∧
        ∃ fault, parse limits text bitness = .error (.limit fault) := by
  -- The word can be made, but for the limit of its width.
  have hmake {value width : Nat} (hpos : 0 < width) (hfits : value < 2 ^ width) :
      limits.widthFault? width = none ∧
          (∃ o, make limits value width = .ok o ∧ o.value = value ∧ o.width = width) ∨
        limits.widthFault? width ≠ none ∧
          ∃ fault, make limits value width = .error (.limit fault) := by
    cases hlimit : limits.widthFault? width with
    | none =>
      exact .inl ⟨rfl, ⟨value, width, hpos, hfits⟩, make_eq_ok_iff.2 ⟨rfl, rfl, hlimit⟩, rfl, rfl⟩
    | some fault => exact .inr ⟨nofun, fault, make_of_widthFault? hpos hlimit⟩
  generalize hcs : text.toList = cs at h
  cases h with
  | @unsized body run base digits hbody hdigits hfits =>
    -- A numeral has a digit, so the width is not zero whatever the bitness is.
    have hpos : 0 < max bitness (digits.length * bitsPerDigit base) := by
      have hlength := hdigits.length_eq
      have hdigit := List.length_pos_of_ne_nil hdigits.nonempty
      unfold bitsPerDigit
      split <;> omega
    rw [parse_eq (parts?_body (hcs ▸ hbody)) hdigits, admits_body_iff hbody]
    exact hmake hpos hfits
  | sized hbody hdigits hsuffix hfigures hpos hfits =>
    rw [parse_eq (parts?_sized hcs hbody hsuffix hfigures) hdigits,
      admits_sized_iff hbody hfigures]
    cases hlimit : limits.digitsFault? 10 _ with
    | none =>
      rw [and_iff_right rfl, widthOf_some_eq_ok_iff.2 ⟨hlimit, rfl⟩]
      exact hmake hpos hfits
    | some fault =>
      refine .inr ⟨nofun, fault, ?_⟩
      rw [widthOf, hlimit]
      rfl

/-- What is read was of the grammar, and the limits admitted it. -/
theorem denotes_of_parse {limits : Limits} {text : String} {bitness : Nat} {o : Opcode}
    (hline : text.toList.getLast? ≠ some '\n') (h : parse limits text bitness = .ok o) :
    Denotes bitness text.toList o.value o.width ∧ Admits limits text.toList o.width := by
  have htext : dropFinalNewline text.toList = text.toList := dropFinalNewline_eq_self hline
  obtain ⟨base, run, figures?, hparts⟩ := exists_parts_of_parse h
  -- An opcode carries the proofs that it has a bit and fits, which is what is left to show.
  have hfits := o.value_lt
  have hpos := o.width_pos
  rcases parts?_eq_some_iff.1 (htext ▸ hparts) with
    ⟨rfl, hbody⟩ | ⟨body, suffix, figures, hcs, hbody, hsuffix, rfl⟩
  · obtain ⟨digits, hdigits⟩ := exists_isNumeral_of_parse hparts hbody.chars h
    obtain ⟨hvalue, hwidth, hlimit⟩ := (parse_eq_ok_iff hparts hdigits).1 h
    have hwidth := Except.ok.inj hwidth
    rw [hvalue, ← hwidth] at hfits ⊢
    exact ⟨.unsized hbody hdigits hfits, (admits_body_iff hbody).2 (hwidth ▸ hlimit)⟩
  · obtain ⟨digits, hdigits⟩ := exists_isNumeral_of_parse hparts hbody.chars h
    obtain ⟨hvalue, hwidth, hlimit⟩ := (parse_eq_ok_iff hparts hdigits).1 h
    obtain ⟨hne, hfigures⟩ := widthFigures?_eq_some_iff.1 hsuffix
    obtain ⟨hcount, hwidth⟩ := widthOf_some_eq_ok_iff.1 hwidth
    rw [hvalue, ← hwidth] at hfits ⊢
    rw [hcs]
    exact ⟨.sized hbody hdigits hne hfigures (hwidth ▸ hpos) hfits,
      (admits_sized_iff hbody hfigures).2 ⟨hcount, hwidth ▸ hlimit⟩⟩

/-- A line feed at the end apart, exactly the texts of the grammar that the limits admit are read,
and they are read as what they denote. Those that the limits do not admit are not read for that
reason only. -/
theorem parse_denotes (limits : Limits) (text : String) (bitness : Nat)
    (hline : text.toList.getLast? ≠ some '\n') (value width : Nat) :
    ((∃ o, parse limits text bitness = .ok o ∧ o.value = value ∧ o.width = width) ↔
      Denotes bitness text.toList value width ∧ Admits limits text.toList width) ∧
    (Denotes bitness text.toList value width → ¬ Admits limits text.toList width →
      ∃ fault, parse limits text bitness = .error (.limit fault)) := by
  constructor
  · constructor
    · rintro ⟨o, hparse, rfl, rfl⟩
      exact denotes_of_parse hline hparse
    · rintro ⟨hdenotes, hadmits⟩
      obtain ⟨-, hread⟩ | ⟨hnot, -⟩ := hdenotes.parse_cases limits
      · exact hread
      · exact absurd hadmits hnot
  · intro hdenotes hnot
    obtain ⟨hadmits, -⟩ | ⟨-, hfault⟩ := hdenotes.parse_cases limits
    · exact absurd hadmits hnot
    · exact hfault

/-- No binary run follows the marker of this body, so it is hexadecimal. The width is written in
Arabic-Indic figures. -/
theorem parse_denotes_bareHex :
    "0b_12/\u0663\u0662".toList.getLast? ≠ some '\n' ∧
      Denotes 8 "0b_12/\u0663\u0662".toList 0xB12 32 ∧
      Admits .standard "0b_12/\u0663\u0662".toList 32 := by
  have hline : "0b_12/\u0663\u0662".toList.getLast? ≠ some '\n' := by simp
  have hparse : (parse .standard "0b_12/\u0663\u0662" 8).toOption.map
      (fun o => (o.value, o.width)) = some (0xB12, 32) := by decide +kernel
  refine ⟨hline, (parse_denotes .standard "0b_12/\u0663\u0662" 8 hline 0xB12 32).1.1 ?_⟩
  cases hread : parse .standard "0b_12/\u0663\u0662" 8 with
  | error fault =>
    rw [hread] at hparse
    cases hparse
  | ok o =>
    rw [hread] at hparse
    obtain ⟨hvalue, hwidth⟩ := Prod.mk.inj (Option.some.inj hparse)
    exact ⟨o, rfl, hvalue, hwidth⟩

/-- A zero of 10 ^ 20 bits is an opcode of the grammar, and is not read: so far no bit can be
shifted. -/
theorem parse_hugeZero :
    Denotes 8 "0/100000000000000000000".toList 0 (10 ^ 20) ∧
      parse .standard "0/100000000000000000000" 8 = .error (.limit .bits) := by
  have hrun : Run IsBinaryChar ['0'] := ⟨nofun, by simp [IsBinaryChar]⟩
  have hdigits : IsNumeral 2 (['0'].filter (· != '_')) [0] := ⟨by simp, by decide⟩
  have hfigures : "100000000000000000000".toList.mapM decimalValue? =
      some (1 :: List.replicate 20 0) := by decide +kernel
  have hwidth : Nat.ofDigits 10 (1 :: List.replicate 20 0).reverse = 10 ^ 20 := by decide
  constructor
  · have h : Denotes 8 _ _ _ := .sized (.bareBinary hrun) hdigits (by simp) hfigures
      (hwidth ▸ by decide) (Nat.two_pow_pos _)
    rw [hwidth] at h
    exact h
  · rfl

/-- A binary run may not be made of underscores only, even if the text is hexadecimal otherwise. -/
example : parse .standard "0b_" 8 = .error .noDigits := rfl

end Opcode

end SleighForge
