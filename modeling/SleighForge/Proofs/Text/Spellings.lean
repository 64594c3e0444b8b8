import Mathlib.Data.List.TakeWhile
import SleighForge.Operand.Scan
import SleighForge.Proofs.Listing

/-!
# Numbers of operand text

A number in operand text is written in plain digits of its base. The reader of numbers that are
given on their own takes other spellings, too, but reads these to the same value
(`ofText_of_value?`), so the spelling that an operand keeps is one of its value
(`Operand.spelled_read`). Both have the same limits: operand text is read where each of its numbers
is (`Operand.read_eq_ok_iff`).
-/

namespace SleighForge

namespace Text

/-! ## Digits -/

theorem le_iff_toNat_le {a b : Char} : a ≤ b ↔ a.toNat ≤ b.toNat :=
  UInt32.le_iff_toNat_le

/-- The code points of digits are those of ten figures and of six letters in either case. -/
theorem toNat_of_digitIn? {base d : Nat} {c : Char} (h : digitIn? base c = some d) : d < base ∧
    (48 ≤ c.toNat ∧ c.toNat ≤ 57 ∧ d = c.toNat - 48 ∨
      97 ≤ c.toNat ∧ c.toNat ≤ 102 ∧ d = c.toNat - 97 + 10 ∨
      65 ≤ c.toNat ∧ c.toNat ≤ 70 ∧ d = c.toNat - 65 + 10) := by
  obtain ⟨hvalue, hlt⟩ := Option.filter_eq_some_iff.1 h
  refine ⟨of_decide_eq_true hlt, ?_⟩
  unfold digitValue? at hvalue
  simp only [le_iff_toNat_le, Char.reduceToNat] at hvalue
  split at hvalue
  · cases hvalue
    omega
  · split at hvalue
    · cases hvalue
      omega
    · split at hvalue
      · cases hvalue
        omega
      · cases hvalue

/-- The characters are digits of the base. -/
def AreDigits (base : Nat) (cs : List Char) : Prop :=
  ∀ c ∈ cs, ∃ d, digitIn? base c = some d

section

variable {base : Nat} {cs : List Char}

/-- Digits are read if there are any and each of them has a value. -/
theorem readDigits?_eq_some_iff {n : Nat} : readDigits? base cs = some n ↔
    cs ≠ [] ∧ ∃ digits, cs.mapM (digitIn? base) = some digits ∧ ofDigits base digits = n := by
  unfold readDigits?
  by_cases hcs : cs = []
  · simp [hcs]
  · rw [if_neg (mt List.isEmpty_iff.1 hcs), Option.map_eq_some_iff, and_iff_right hcs]

theorem exists_of_mapM {f : Char → Option Nat} {digits : List Nat} (h : cs.mapM f = some digits) :
    ∀ c ∈ cs, ∃ d, f c = some d := by
  induction cs generalizing digits with
  | nil => exact fun c hc => absurd hc List.not_mem_nil
  | cons c cs ih =>
    rw [List.mapM_cons, Option.bind_eq_bind, Option.bind_eq_some_iff] at h
    obtain ⟨d, hd, h⟩ := h
    obtain ⟨ds, hds, -⟩ := Option.bind_eq_some_iff.1 h
    intro c' hc'
    rcases List.mem_cons.1 hc' with rfl | hc'
    · exact ⟨d, hd⟩
    · exact ih hds c' hc'

theorem length_of_mapM {f : Char → Option Nat} {digits : List Nat} (h : cs.mapM f = some digits) :
    digits.length = cs.length := by
  induction cs generalizing digits with
  | nil =>
    cases h
    rfl
  | cons c cs ih =>
    rw [List.mapM_cons, Option.bind_eq_bind, Option.bind_eq_some_iff] at h
    obtain ⟨d, -, h⟩ := h
    obtain ⟨ds, hds, h⟩ := Option.bind_eq_some_iff.1 h
    cases h
    rw [List.length_cons, List.length_cons, ih hds]

theorem areDigits_of_mapM {digits : List Nat} (h : cs.mapM (digitIn? base) = some digits) :
    AreDigits base cs :=
  exists_of_mapM h

namespace AreDigits

/-- Digits are characters of ASCII. -/
theorem toNat_lt (h : AreDigits base cs) {c : Char} (hc : c ∈ cs) : c.toNat < 0x7F := by
  obtain ⟨d, hd⟩ := h c hc
  have := toNat_of_digitIn? hd
  omega

/-- Digits are none of the characters that the reader of numbers looks for besides. -/
theorem ne_mark (h : AreDigits base cs) {c : Char} (hc : c ∈ cs) :
    c ≠ '-' ∧ c ≠ '+' ∧ c ≠ '_' ∧ isSpace c = false := by
  obtain ⟨d, hd⟩ := h c hc
  have hcode := (toNat_of_digitIn? hd).2
  have hne (m : Char) (hm : m.toNat < 48 ∨ m.toNat = 95) : c ≠ m := by
    rintro rfl
    omega
  refine ⟨hne '-' (by decide), hne '+' (by decide), hne '_' (by decide), ?_⟩
  have htab : ¬ c ≤ '\r' := by
    intro hle
    have hle' : c.toNat ≤ '\r'.toNat := le_iff_toNat_le.1 hle
    have hcode' : '\r'.toNat = 13 := rfl
    omega
  simp [isSpace, hne ' ' (by decide), htab]

theorem plain_eq (h : AreDigits base cs) : plain cs = cs := by
  refine if_pos (List.all_eq_true.2 fun c hc => ?_)
  have := h.toNat_lt hc
  exact decide_eq_true (by omega)

theorem trim_eq (h : AreDigits base cs) : trim isSpace cs = cs := by
  have hspace (c : Char) (hc : c ∈ cs) : isSpace c = false := (h.ne_mark hc).2.2.2
  have hdrop (xs : List Char) (hxs : ∀ c ∈ xs, isSpace c = false) : xs.dropWhile isSpace = xs := by
    cases xs with
    | nil => rfl
    | cons c xs => rw [List.dropWhile_cons_of_neg (by simp [hxs c (List.mem_cons_self ..)])]
  rw [trim, hdrop cs hspace, trimEnd, hdrop cs.reverse, List.reverse_reverse]
  intro c hc
  exact hspace c (List.mem_reverse.1 hc)

/-- The marker of a base is no digit of that base. -/
theorem dropMarker_eq (h : AreDigits base cs) : dropMarker base cs = cs := by
  unfold dropMarker
  split
  · next m rest =>
    obtain ⟨d, hd⟩ := h m (List.mem_cons_of_mem _ (List.mem_cons_self ..))
    have hcode := toNat_of_digitIn? hd
    have hlower := toNat_toLower m
    have hmarker : baseMarker? base ≠ some m.toLower := by
      intro heq
      unfold baseMarker? at heq
      split at heq
      · have hb : m.toLower.toNat = 98 := Option.some.inj heq ▸ rfl
        split at hlower <;> omega
      · have ho : m.toLower.toNat = 111 := Option.some.inj heq ▸ rfl
        split at hlower <;> omega
      · have hx : m.toLower.toNat = 120 := Option.some.inj heq ▸ rfl
        split at hlower <;> omega
      · cases heq
    rw [if_neg hmarker]
  · rfl

/-- Digits without gaps are one group. -/
theorem groupedDigits?_eq (h : AreDigits base cs) (hne : cs ≠ []) :
    groupedDigits? base cs = cs.mapM (digitIn? base) := by
  fun_induction groupedDigits? base cs with
  | case1 => exact absurd rfl hne
  | case2 c =>
    rw [List.mapM_cons]
    cases digitIn? base c <;> rfl
  | case3 c cs ih =>
    have hgap := List.mem_cons_of_mem c (List.mem_cons_self (a := '_') (l := cs))
    exact absurd rfl (h.ne_mark hgap).2.2.1
  | case4 c cs hone hgap ih =>
    have hcs : cs ≠ [] := fun hnil => hone (hnil ▸ rfl)
    rw [ih (fun c' hc' => h c' (List.mem_cons_of_mem _ hc')) hcs, List.mapM_cons]

/-- The reader counts all of the digits. -/
theorem takeWhile_eq (h : AreDigits base cs) : cs.takeWhile (isDigitOrGap base) = cs ∧
    cs.dropWhile (isDigitOrGap base) = [] := by
  have hdigit : ∀ c ∈ cs, isDigitOrGap base c = true := by
    intro c hc
    obtain ⟨d, hd⟩ := h c hc
    rw [isDigitOrGap, isDigitIn, hd, Option.isSome_some, Bool.true_or]
  exact ⟨List.takeWhile_eq_self_iff.2 hdigit, List.dropWhile_eq_nil_iff.2 hdigit⟩

end AreDigits

/-- Digits that the strict reader reads have the same value for the lenient one, unless they are too
many for it. -/
theorem readMarked_of_mapM {limits : Limits} {digits : List Nat} (hne : cs ≠ [])
    (h : cs.mapM (digitIn? base) = some digits) :
    readMarked limits base cs =
      ((limits.digitsFault? base cs.length).map fun fault =>
        Except.error (NumeralFault.limit fault)).getD (.ok (ofDigits base digits)) := by
  have hare := areDigits_of_mapM h
  unfold readMarked
  dsimp only
  rw [hare.dropMarker_eq, hare.takeWhile_eq.1, hare.takeWhile_eq.2, hare.groupedDigits?_eq hne, h]
  dsimp only
  rw [length_of_mapM h]
  cases limits.digitsFault? base cs.length <;> rfl

/-- Digits have no sign. -/
theorem readInt_of_areDigits {limits : Limits} (h : AreDigits base cs) :
    readInt limits base cs = (readMarked limits base cs).map Int.ofNat := by
  unfold readInt
  rw [h.plain_eq, h.trim_eq]
  split
  · exact absurd rfl (h.ne_mark (List.mem_cons_self ..)).1
  · exact absurd rfl (h.ne_mark (List.mem_cons_self ..)).2.1
  · rfl

/-- Digits within the limit are read as their number. -/
theorem readInt_of_readDigits? {limits : Limits} {n : Nat} (h : readDigits? base cs = some n)
    (hlimit : limits.digitsFault? base cs.length = none) :
    readInt limits base cs = .ok (n : Int) := by
  obtain ⟨hne, digits, hdigits, rfl⟩ := readDigits?_eq_some_iff.1 h
  rw [readInt_of_areDigits (areDigits_of_mapM hdigits), readMarked_of_mapM hne hdigits, hlimit]
  rfl

end

end Text

/-! ## Spellings -/

namespace Literal

open Text

variable {cs : List Char} {n : Nat}

/-- A literal does not begin with a sign. -/
theorem value?_sign (cs : List Char) : value? ('-' :: cs) = none := by
  have hspelling : spelling ('-' :: cs) = ⟨10, '-' :: cs⟩ := rfl
  rw [value?, hspelling]
  cases hread : readDigits? 10 ('-' :: cs) with
  | none => rfl
  | some n =>
    obtain ⟨-, digits, hdigits, -⟩ := readDigits?_eq_some_iff.1 hread
    exact absurd rfl ((areDigits_of_mapM hdigits).ne_mark (List.mem_cons_self ..)).1

/-- The number of an operand is read from its spelling, if it is not too long. -/
theorem ofText_of_value? {limits : Limits} (h : value? cs = some n)
    (hlimit : (Lexeme.number cs n).fault? limits = none) :
    ofText limits (String.ofList cs) = .ok (n : Int) := by
  unfold ofText
  rw [String.toList_ofList]
  dsimp only
  split
  · next rest =>
    rw [value?_sign] at h
    cases h
  · exact readInt_of_readDigits? h hlimit

/-- A negated literal within the limit is read as the negated number. -/
theorem ofText_of_negated {limits : Limits} (h : value? cs = some n)
    (hlimit : (Lexeme.number cs n).fault? limits = none) :
    ofText limits (String.ofList ('-' :: cs)) = .ok (-(n : Int)) := by
  unfold ofText
  rw [String.toList_ofList]
  show (readInt _ _ _).map (- ·) = _
  rw [readInt_of_readDigits? h hlimit]
  rfl

end Literal

/-- The operand, if it is a number, keeps a spelling of its value. -/
def Operand.Spelled (limits : Limits) (op : Operand) : Prop :=
  ∀ v spelling, op = .immediate v spelling → Literal.ofText limits spelling = .ok v

/-- The lexeme, if it is a number, has its value from its spelling. -/
def Lexeme.Valued (l : Lexeme) : Prop :=
  ∀ spelling value, l = .number spelling value → Literal.value? spelling = some value

/-- The lexeme has its value from its spelling, and the value can be taken. -/
def Lexeme.Readable (limits : Limits) (l : Lexeme) : Prop :=
  l.Valued ∧ l.fault? limits = none

/-- A run that is a number has its value. -/
theorem Lexeme.valued_ofRun (run : List Char) : (ofRun run).Valued := by
  intro spelling value h
  unfold ofRun at h
  split at h
  · next hvalue =>
    cases h
    exact hvalue
  · cases h

theorem Lexeme.valued_scan (cs : List Char) : ∀ l ∈ scan cs, l.Valued := by
  fun_induction scan cs with
  | case1 => exact fun l hl => absurd hl List.not_mem_nil
  | case2 c cs hblank ih => exact ih
  | case3 c cs hblank hrun ih => exact List.forall_mem_cons.2 ⟨valued_ofRun _, ih⟩
  | case4 cs hblank hrun value hvalue ih =>
    refine List.forall_mem_cons.2 ⟨?_, ih⟩
    rintro _ _ ⟨⟩
    exact hvalue
  | case5 cs hblank hrun hnone ih => exact List.forall_mem_cons.2 ⟨nofun, ih⟩
  | case6 c cs hblank hrun hdollar ih => exact List.forall_mem_cons.2 ⟨nofun, ih⟩

namespace Operand

section

variable {limits : Limits} {spelling : List Char} {value : Nat}

theorem spelled_text (s : String) : (text s).Spelled limits :=
  nofun

theorem spelled_ofWord (catalog : Catalog) (cs : List Char) :
    (ofWord catalog cs).Spelled limits := by
  unfold ofWord
  split <;> exact nofun

/-- A number is spelled as it was written. -/
theorem spelled_ofNumber (h : (Lexeme.number spelling value).Readable limits) :
    (ofNumber spelling value).Spelled limits := by
  rintro _ _ ⟨⟩
  exact Literal.ofText_of_value? (h.1 _ _ rfl) h.2

/-- A negated number is spelled with its minus. -/
theorem spelled_ofNegated (h : (Lexeme.number spelling value).Readable limits) :
    (ofNegated spelling value).Spelled limits := by
  rintro _ _ ⟨⟩
  exact Literal.ofText_of_negated (h.1 _ _ rfl) h.2

/-- One lexeme makes one operand, but for a sign, which goes into the number after it. -/
theorem spelled_ofLexemes (catalog : Catalog) (previous : Option Operand) (lexemes : List Lexeme)
    (h : ∀ l ∈ lexemes, l.Readable limits) :
    ∀ op ∈ ofLexemes catalog previous lexemes, op.Spelled limits := by
  fun_induction ofLexemes catalog previous lexemes with
  | case1 => exact fun op hop => absurd hop List.not_mem_nil
  | case2 previous c hsign spelling value rest op ih =>
    have hrest := (List.forall_mem_cons.1 h).2
    have hnumber := (List.forall_mem_cons.1 hrest).1
    exact List.forall_mem_cons.2 ⟨spelled_ofNegated hnumber, ih (List.forall_mem_cons.1 hrest).2⟩
  | case3 previous c hsign rest hrest op ih =>
    exact List.forall_mem_cons.2 ⟨spelled_text _, ih (List.forall_mem_cons.1 h).2⟩
  | case4 previous c rest hsign op ih =>
    exact List.forall_mem_cons.2 ⟨spelled_text _, ih (List.forall_mem_cons.1 h).2⟩
  | case5 previous spelling value rest op ih =>
    have hnumber := (List.forall_mem_cons.1 h).1
    exact List.forall_mem_cons.2 ⟨spelled_ofNumber hnumber, ih (List.forall_mem_cons.1 h).2⟩
  | case6 previous cs rest op ih =>
    exact List.forall_mem_cons.2 ⟨spelled_ofWord _ _, ih (List.forall_mem_cons.1 h).2⟩

end

section

variable {limits : Limits} {catalog : Catalog} {s : String} {ops : List Operand}

/-- Operand text is read if no number of it is too long, and then its operands are read. -/
theorem read_eq_ok_iff : read limits catalog s = .ok ops ↔
    (∀ l ∈ Lexeme.scan s.toList, l.fault? limits = none) ∧ ops = scan catalog s := by
  unfold read
  cases hfirst : (Lexeme.scan s.toList).findSome? (Lexeme.fault? limits) with
  | none =>
    rw [and_iff_right (List.findSome?_eq_none_iff.1 hfirst), Except.ok.injEq, eq_comm]
  | some fault =>
    refine iff_of_false nofun ?_
    rintro ⟨hnone, -⟩
    rw [List.findSome?_eq_none_iff.2 hnone] at hfirst
    cases hfirst

/-- The numbers of operand text are spelled as they were written. -/
theorem spelled_read (h : read limits catalog s = .ok ops) : ∀ op ∈ ops, op.Spelled limits := by
  obtain ⟨hlimits, rfl⟩ := read_eq_ok_iff.1 h
  exact spelled_ofLexemes catalog none _ fun l hl => ⟨Lexeme.valued_scan _ l hl, hlimits l hl⟩

end

end Operand

end SleighForge
