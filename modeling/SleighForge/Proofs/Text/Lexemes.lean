import Mathlib.Data.List.TakeWhile
import SleighForge.Proofs.Text.Literals

/-!
# Lexemes of operand text

The lexemes of a text hold its characters in order, except for the blanks (`source_scan`), and each
is a literal, a run that is none, or a mark (`lexical_scan`). Conversely a text that begins with the
characters of such a lexeme is cut after them, if no run goes on there (`scan_append`).
-/

namespace SleighForge

open Text

/-! ## Characters of runs -/

namespace Text

/-- The letters and digits of ASCII by their code points. -/
theorem isAlphanum_iff {c : Char} : c.isAlphanum = true ↔ 65 ≤ c.toNat ∧ c.toNat ≤ 90 ∨
    97 ≤ c.toNat ∧ c.toNat ≤ 122 ∨ 48 ≤ c.toNat ∧ c.toNat ≤ 57 := by
  have hranges : c.isAlphanum =
      (decide ('A'.val ≤ c.val ∧ c.val ≤ 'Z'.val) ||
        (decide ('a'.val ≤ c.val) && decide (c.val ≤ 'z'.val)) ||
        (decide ('0'.val ≤ c.val) && decide (c.val ≤ '9'.val))) := rfl
  simp only [hranges, Bool.or_eq_true, Bool.and_eq_true, decide_eq_true_eq,
    UInt32.le_iff_toNat_le, or_assoc]
  exact Iff.rfl

theorem isBlank_of_isAlphanumeric {c : Char} (h : isAlphanumeric c = true) : isBlank c = false := by
  have hascii : ∀ r ∈ blankRanges, r.2 < 48 ∨ 0x80 ≤ r.1 := by decide
  have hwide : ∀ r ∈ blankRanges, ∀ s ∈ alphanumericRanges, r.2 < s.1 ∨ s.2 < r.1 := by
    decide +kernel
  rw [← Bool.not_eq_true, isBlank, within_eq_true_iff]
  rintro ⟨r, hr, hlo, hhi⟩
  unfold isAlphanumeric at h
  split at h
  · have := isAlphanum_iff.1 h
    have := hascii r hr
    omega
  · obtain ⟨s, hs, hlo', hhi'⟩ := within_eq_true_iff.1 h
    have := hwide r hr s hs
    omega

end Text

namespace Lexeme

theorem isBlank_of_isRunChar {c : Char} (h : isRunChar c = true) : isBlank c = false := by
  simp only [isRunChar, isWordChar, Bool.or_eq_true, beq_iff_eq] at h
  rcases h with (h | rfl) | rfl
  · exact isBlank_of_isAlphanumeric h
  · decide
  · decide

theorem isRunChar_of_isAlphanum {c : Char} (h : c.isAlphanum = true) : isRunChar c = true := by
  have hlt : c.toNat < 0x80 := by
    have := isAlphanum_iff.1 h
    omega
  simp [isRunChar, isWordChar, isAlphanumeric, hlt, h]

theorem isRunChar_of_digitIn? {base d : Nat} {c : Char} (h : digitIn? base c = some d) :
    isRunChar c = true := by
  have hcode := toNat_of_digitIn? h
  exact isRunChar_of_isAlphanum (isAlphanum_iff.2 (by omega))

/-- The case of a character does not matter to runs. -/
theorem isRunChar_lowerChar (c : Char) : isRunChar (lowerChar c) = isRunChar c := by
  by_cases hc : c = '\u212A'
  · rw [hc]
    decide +kernel
  · have hlower := toNat_toLower c
    rw [lowerChar, if_neg hc]
    split at hlower
    · rw [isRunChar_of_isAlphanum (c := c) (isAlphanum_iff.2 (by omega)),
        isRunChar_of_isAlphanum (c := c.toLower) (isAlphanum_iff.2 (by omega))]
    · rw [Char.toNat_inj.1 hlower]

/-- A nonempty list of characters of runs. -/
structure IsRun (cs : List Char) : Prop where
  nonempty : cs ≠ []
  chars : ∀ c ∈ cs, isRunChar c = true

theorem not_isRun_singleton {c : Char} (h : isRunChar c = false) : ¬ IsRun [c] := by
  intro hrun
  rw [hrun.chars c (List.mem_singleton_self c)] at h
  cases h

theorem isRun_map_lowerChar {cs : List Char} : IsRun (cs.map lowerChar) ↔ IsRun cs := by
  have hchars : (∀ c ∈ cs.map lowerChar, isRunChar c = true) ↔ ∀ c ∈ cs, isRunChar c = true := by
    simp only [List.forall_mem_map, isRunChar_lowerChar]
  constructor
  · intro h
    exact ⟨mt List.map_eq_nil_iff.2 h.nonempty, hchars.1 h.chars⟩
  · intro h
    exact ⟨mt List.map_eq_nil_iff.1 h.nonempty, hchars.2 h.chars⟩

/-- No run goes on at the start of the text. -/
def Apart (t : List Char) : Prop :=
  ∀ c ∈ t.head?, isRunChar c = false

theorem Apart.takeWhile_eq {t : List Char} (h : Apart t) : t.takeWhile isRunChar = [] := by
  cases t with
  | nil => rfl
  | cons c t => simp [h c rfl]

theorem Apart.dropWhile_eq {t : List Char} (h : Apart t) : t.dropWhile isRunChar = t := by
  cases t with
  | nil => rfl
  | cons c t => simp [h c rfl]

/-- A run ends where something comes that is apart from it. -/
theorem Apart.takeWhile_append {run t : List Char} (h : Apart t)
    (hrun : ∀ c ∈ run, isRunChar c = true) : (run ++ t).takeWhile isRunChar = run := by
  rw [List.takeWhile_append_of_pos hrun, h.takeWhile_eq, List.append_nil]

theorem Apart.dropWhile_append {run t : List Char} (h : Apart t)
    (hrun : ∀ c ∈ run, isRunChar c = true) : (run ++ t).dropWhile isRunChar = t := by
  rw [List.dropWhile_append_of_pos hrun, h.dropWhile_eq]

/-! ## Lexemes -/

/-- The characters of a lexeme. -/
def source : Lexeme → List Char
  | number spelling _ => spelling
  | word cs => cs
  | mark c => [c]

/-- The lexeme is a literal with its value, a run that is no literal, or a mark. -/
inductive Lexical : Lexeme → Prop
  | number {spelling : List Char} {value : Nat} (h : Literal.value? spelling = some value) :
    Lexical (.number spelling value)
  | word {cs : List Char} (hrun : IsRun cs) (h : Literal.value? cs = none) : Lexical (.word cs)
  | mark {c : Char} (hblank : isBlank c = false) (hrun : isRunChar c = false) : Lexical (.mark c)

/-- A literal is a run, or a dollar sign before a run. -/
theorem isRun_of_value? {cs : List Char} {n : Nat} (h : Literal.value? cs = some n) :
    IsRun cs ∨ ∃ run, cs = '$' :: run ∧ IsRun run := by
  obtain ⟨base, digits, hdenotes, -⟩ := Literal.value?_eq_some_iff.1 h
  have hdigits {base : Nat} {ds : List Char} {digits : List Nat} (h : IsNumeral base ds digits) :
      ∀ c ∈ ds, isRunChar c = true := by
    intro c hc
    obtain ⟨d, hd⟩ := h.areDigits c hc
    exact isRunChar_of_digitIn? hd
  -- The letters of a base and the closing one are letters of ASCII.
  have hletter {m : Char} (h : m.toLower.isAlphanum = true) : isRunChar m = true := by
    have hlower := toNat_toLower m
    have hcode := isAlphanum_iff.1 h
    refine isRunChar_of_isAlphanum (isAlphanum_iff.2 ?_)
    split at hlower <;> omega
  cases hdenotes with
  | decimal h => exact .inl ⟨h.nonempty, hdigits h⟩
  | marked hm h =>
    refine .inl ⟨nofun, List.forall_mem_cons.2 ⟨by decide, List.forall_mem_cons.2 ⟨?_, hdigits h⟩⟩⟩
    refine hletter ?_
    unfold baseMarker? at hm
    split at hm
    · rw [← Option.some.inj hm]
      decide
    · rw [← Option.some.inj hm]
      decide
    · rw [← Option.some.inj hm]
      decide
    · cases hm
  | dollar h => exact .inr ⟨_, rfl, h.nonempty, hdigits h⟩
  | closed hc hm h =>
    refine .inl ⟨nofun, List.forall_mem_append.2 ⟨hdigits h, ?_⟩⟩
    intro c hc
    rw [List.mem_singleton.1 hc]
    exact hletter (by rw [hm]; decide)

/-- The source of a run is the run, as a word or as a number. -/
theorem source_ofRun (run : List Char) : (ofRun run).source = run := by
  unfold ofRun
  split <;> rfl

/-- A run is a word or a number as a scan finds them. -/
theorem lexical_ofRun {run : List Char} (h : IsRun run) : (ofRun run).Lexical := by
  unfold ofRun
  split
  · next hvalue => exact .number hvalue
  · next hnone => exact .word h hnone

/-! ## Cutting a text -/

theorem isRun_takeWhile {c : Char} {cs : List Char} (hc : isRunChar c = true) :
    IsRun (c :: cs.takeWhile isRunChar) where
  nonempty := nofun
  chars := List.forall_mem_cons.2 ⟨hc, fun _ h => List.mem_takeWhile_imp h⟩

/-- All that a scan finds is as a scan finds it. -/
theorem lexical_scan (cs : List Char) : ∀ l ∈ scan cs, l.Lexical := by
  fun_induction scan cs with
  | case1 => exact fun l hl => absurd hl List.not_mem_nil
  | case2 c cs hblank ih => exact ih
  | case3 c cs hblank hrun ih =>
    exact List.forall_mem_cons.2 ⟨lexical_ofRun (isRun_takeWhile hrun), ih⟩
  | case4 cs value hblank hrun hvalue ih => exact List.forall_mem_cons.2 ⟨.number hvalue, ih⟩
  | case5 cs hblank hrun hnone ih =>
    exact List.forall_mem_cons.2 ⟨.mark (by simpa using hblank) (by simpa using hrun), ih⟩
  | case6 c cs hblank hrun hdollar ih =>
    exact List.forall_mem_cons.2 ⟨.mark (by simpa using hblank) (by simpa using hrun), ih⟩

/-- The lexemes hold the characters of the text, except for the blanks. -/
theorem source_scan (cs : List Char) :
    (scan cs).flatMap source = cs.filter fun c => !isBlank c := by
  have hrest (cs : List Char) : cs.filter (fun c => !isBlank c) =
      cs.takeWhile isRunChar ++ (cs.dropWhile isRunChar).filter fun c => !isBlank c := by
    conv => lhs; rw [← List.takeWhile_append_dropWhile (p := isRunChar) (l := cs)]
    rw [List.filter_append, List.filter_eq_self.2]
    intro c hc
    simp [isBlank_of_isRunChar (List.mem_takeWhile_imp hc)]
  fun_induction scan cs with
  | case1 => rfl
  | case2 c cs hblank ih => rw [ih, List.filter_cons_of_neg (by simpa using hblank)]
  | case3 c cs hblank hrun ih =>
    -- A run is cut off whole: the rest of the text begins where it ends.
    rw [List.flatMap_cons, source_ofRun, ih, List.filter_cons_of_pos (by simpa using hblank),
      hrest cs, List.cons_append]
  | case4 cs value hblank hrun hvalue ih =>
    rw [List.flatMap_cons, source, ih, List.filter_cons_of_pos (by simpa using hblank),
      hrest cs, List.cons_append]
  | case5 cs hblank hrun hnone ih =>
    rw [List.flatMap_cons, source, ih, List.filter_cons_of_pos (by simpa using hblank),
      List.singleton_append]
  | case6 c cs hblank hrun hdollar ih =>
    rw [List.flatMap_cons, source, ih, List.filter_cons_of_pos (by simpa using hblank),
      List.singleton_append]

/-- A run or a dollar sign, after which a run must not go on for the lexeme to end. -/
def isOpen : Lexeme → Bool
  | mark c => c == '$'
  | _ => true

/-- A run is scanned alone if what follows cannot go on with it. -/
theorem scan_run {run t : List Char} (hrun : IsRun run) (ht : Apart t) :
    scan (run ++ t) = ofRun run :: scan t := by
  obtain ⟨c, cs, rfl⟩ := List.exists_cons_of_ne_nil hrun.nonempty
  obtain ⟨hc, hcs⟩ := List.forall_mem_cons.1 hrun.chars
  rw [List.cons_append, scan, if_neg (by simp [isBlank_of_isRunChar hc]), if_pos hc,
    ht.takeWhile_append hcs, ht.dropWhile_append hcs]

/-- The text is cut after a lexeme if no run goes on there. -/
theorem scan_append {l : Lexeme} (hl : l.Lexical) {t : List Char} (ht : l.isOpen = true → Apart t) :
    scan (l.source ++ t) = l :: scan t := by
  cases hl with
  | @number spelling value h =>
    rcases isRun_of_value? h with hrun | ⟨run, rfl, hrun⟩
    · rw [source, scan_run hrun (ht rfl), ofRun, h]
    · -- The dollar sign is no character of a run, so the run after it is looked at.
      have hblank : isBlank '$' = false := by decide
      have hdollar : isRunChar '$' = false := by decide
      rw [source, List.cons_append, scan]
      simp only [hblank, hdollar, Bool.false_eq_true, if_false, if_true,
        (ht rfl).takeWhile_append hrun.chars, (ht rfl).dropWhile_append hrun.chars, h]
  | word hrun h => rw [source, scan_run hrun (ht rfl), ofRun, h]
  | @mark c hblank hrun =>
    rw [source, List.singleton_append, scan, if_neg (by simp [hblank]), if_neg (by simp [hrun])]
    split
    · next hdollar =>
      -- No run follows the dollar sign, and it is no literal on its own.
      have hapart : Apart t := ht (by simp [isOpen, hdollar])
      rw [hapart.takeWhile_eq, hdollar]
      rfl
    · rfl

/-! ## Registers -/

/-- The lexeme, in lower case if it is the name of a register. -/
def lowered (catalog : Catalog) : Lexeme → Lexeme
  | word cs =>
    if lower (String.ofList cs) ∈ catalog.names then word (cs.map lowerChar) else word cs
  | l => l

/-- A register in lower case is scanned as a word still. -/
theorem lexical_lowered (catalog : Catalog) {l : Lexeme} (h : l.Lexical) :
    (l.lowered catalog).Lexical := by
  cases h with
  | number h => exact .number h
  | @word cs hrun h =>
    rw [lowered]
    split
    · refine .word (isRun_map_lowerChar.2 hrun) ?_
      rw [Literal.value?_map_lowerChar, h]
    · exact .word hrun h
  | mark hblank hrun => exact .mark hblank hrun

end Lexeme

end SleighForge
