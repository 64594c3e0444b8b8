import SleighForge.Proofs.Text.Lexemes

/-!
# Scanning and rendering operand text

Every operand is made of one lexeme or of a minus sign and a number (`groups_ofLexemes`). So no
character but the blanks is lost on the way from a text to its operands, and numbers have the value
of their digits (`scan_reads`). Rendering leaves out spaces and puts in others, but only where the
lexemes remain as they are apart from the case of registers, and scanning what is rendered gives the
same operands again (`scan_render_scan`).

All of this is about what the operands are. They are given unless a decimal number of the text has
too many digits, which neither scanning nor rendering brings about or mends.
-/

namespace SleighForge

open Text

/-! ## Numbers that are too long -/

namespace Lexeme

/-- The lexeme is a decimal number of more digits than the limit. -/
def Exceeds (limit : Nat) (l : Lexeme) : Prop :=
  ∃ spelling value digits, l = .number spelling value ∧ Literal.Denotes spelling 10 digits ∧
    limit < digits.length

/-- What counts is the digits that the spelling denotes, and their base. -/
theorem fault?_number {limits : Limits} {cs : List Char} {value base : Nat} {digits : List Nat}
    (h : Literal.Denotes cs base digits) :
    (number cs value).fault? limits = limits.digitsFault? base digits.length := by
  obtain ⟨ds, heq, hds⟩ := h.spelling_eq
  rw [fault?, heq, hds.length_eq]

/-- A lexeme is within the limits unless it exceeds one. -/
theorem fault?_eq_none_iff {limits : Limits} {l : Lexeme} (hl : l.Lexical) :
    l.fault? limits = none ↔ ∀ limit, limits.digits = some limit → ¬ l.Exceeds limit := by
  cases hl with
  | @number spelling value hvalue =>
    obtain ⟨base, digits, hdenotes, -⟩ := Literal.value?_eq_some_iff.1 hvalue
    rw [fault?_number hdenotes, Limits.digitsFault?_eq_none_iff]
    constructor
    · rintro hshort limit hlimit ⟨_, _, digits', ⟨⟩, hdenotes', hlong⟩
      obtain ⟨rfl, rfl⟩ := hdenotes.unique hdenotes'
      have := hshort rfl limit hlimit
      omega
    · rintro hshort rfl limit hlimit
      by_contra hlong
      exact hshort limit hlimit ⟨spelling, value, digits, rfl, hdenotes, by omega⟩
  | word hrun h => exact iff_of_true rfl (by rintro _ _ ⟨_, _, _, ⟨⟩, -⟩)
  | mark hblank hrun => exact iff_of_true rfl (by rintro _ _ ⟨_, _, _, ⟨⟩, -⟩)

/-- A register in lower case is no longer and no shorter. -/
theorem fault?_lowered (limits : Limits) (catalog : Catalog) (l : Lexeme) :
    (l.lowered catalog).fault? limits = l.fault? limits := by
  cases l with
  | word cs =>
    rw [lowered]
    split <;> rfl
  | _ => rfl

end Lexeme

namespace Operand

/-- A text with the same lexemes but for the case of registers is read alike. -/
theorem read_of_lowered {limits : Limits} {catalog : Catalog} {s t : String}
    (hlexemes : Lexeme.scan t.toList = (Lexeme.scan s.toList).map (Lexeme.lowered catalog))
    (hscan : scan catalog t = scan catalog s) : read limits catalog t = read limits catalog s := by
  have hfault : Lexeme.fault? limits ∘ Lexeme.lowered catalog = Lexeme.fault? limits :=
    funext (Lexeme.fault?_lowered limits catalog)
  rw [read, read, hlexemes, List.findSome?_map, hfault, hscan]

/-! ## From lexemes to operands -/

/-- The operand that is made of the lexemes. -/
inductive MadeOf (catalog : Catalog) : List Lexeme → Operand → Prop
  | number {spelling : List Char} {value : Nat} (h : Literal.value? spelling = some value) :
    MadeOf catalog [.number spelling value] (.immediate value (String.ofList spelling))
  | negated {spelling : List Char} {value : Nat} (h : Literal.value? spelling = some value) :
    MadeOf catalog [.mark '-', .number spelling value]
      (.immediate (-value) (String.ofList ('-' :: spelling)))
  | register {cs : List Char} (hrun : Lexeme.IsRun cs) (h : Literal.value? cs = none)
    (hname : lower (String.ofList cs) ∈ catalog.names) :
    MadeOf catalog [.word cs] (.register (lower (String.ofList cs)))
  | word {cs : List Char} (hrun : Lexeme.IsRun cs) (h : Literal.value? cs = none)
    (hname : lower (String.ofList cs) ∉ catalog.names) :
    MadeOf catalog [.word cs] (.text (String.ofList cs))
  | mark {c : Char} (hblank : isBlank c = false) (hrun : Lexeme.isRunChar c = false) :
    MadeOf catalog [.mark c] (.text (String.singleton c))

/-- A word makes a register or text of itself. -/
theorem madeOf_ofWord (catalog : Catalog) {cs : List Char} (h : (Lexeme.word cs).Lexical) :
    MadeOf catalog [.word cs] (ofWord catalog cs) := by
  cases h with
  | word hrun hnone =>
    unfold ofWord Catalog.normalize?
    split
    · next name hname =>
      split at hname
      · next hmem =>
        cases hname
        exact .register hrun hnone hmem
      · cases hname
    · next hname =>
      split at hname
      · cases hname
      · next hmem => exact .word hrun hnone hmem

/-- The lexemes go into the operands in order, none left out and none used twice. -/
theorem groups_ofLexemes (catalog : Catalog) (previous : Option Operand) (lexemes : List Lexeme)
    (h : ∀ l ∈ lexemes, l.Lexical) :
    ∃ groups, groups.flatten = lexemes ∧
      List.Forall₂ (MadeOf catalog) groups (ofLexemes catalog previous lexemes) := by
  fun_induction ofLexemes catalog previous lexemes with
  | case1 => exact ⟨[], rfl, .nil⟩
  | case2 previous c hsign spelling value rest op ih =>
    -- A sign is taken into the number after it. In all other cases one lexeme makes one operand.
    obtain ⟨rfl, -⟩ := hsign
    obtain ⟨-, hnumber, hrest⟩ := by simpa only [List.forall_mem_cons] using h
    obtain ⟨groups, rfl, hgroups⟩ := ih hrest
    cases hnumber with
    | number hvalue => exact ⟨_ :: groups, rfl, .cons (.negated hvalue) hgroups⟩
  | case3 previous c hsign rest hrest op ih =>
    obtain ⟨hmark, hlexical⟩ := List.forall_mem_cons.1 h
    obtain ⟨groups, rfl, hgroups⟩ := ih hlexical
    cases hmark with
    | mark hblank hrun => exact ⟨_ :: groups, rfl, .cons (.mark hblank hrun) hgroups⟩
  | case4 previous c rest hsign op ih =>
    obtain ⟨hmark, hlexical⟩ := List.forall_mem_cons.1 h
    obtain ⟨groups, rfl, hgroups⟩ := ih hlexical
    cases hmark with
    | mark hblank hrun => exact ⟨_ :: groups, rfl, .cons (.mark hblank hrun) hgroups⟩
  | case5 previous spelling value rest op ih =>
    obtain ⟨hnumber, hlexical⟩ := List.forall_mem_cons.1 h
    obtain ⟨groups, rfl, hgroups⟩ := ih hlexical
    cases hnumber with
    | number hvalue => exact ⟨_ :: groups, rfl, .cons (.number hvalue) hgroups⟩
  | case6 previous cs rest op ih =>
    obtain ⟨hword, hlexical⟩ := List.forall_mem_cons.1 h
    obtain ⟨groups, rfl, hgroups⟩ := ih hlexical
    exact ⟨_ :: groups, rfl, .cons (madeOf_ofWord catalog hword) hgroups⟩

/-- A number is displayed as it is spelled. -/
theorem display_immediate (v : Int) {cs : List Char} (hcs : cs ≠ []) :
    (immediate v (String.ofList cs)).display = String.ofList cs := by
  have hne : (String.ofList cs).isEmpty = false := by
    rw [← Bool.not_eq_true, String.isEmpty_iff, ← String.toList_inj, String.toList_ofList]
    exact hcs
  rw [display, hne]
  rfl

namespace MadeOf

variable {catalog : Catalog} {group : List Lexeme} {op : Operand}

/-- An operand shows the characters it is made of, a register in lower case. -/
theorem display_eq (h : MadeOf catalog group op) : op.display =
    if op.register?.isSome then lower (String.ofList (group.flatMap Lexeme.source))
    else String.ofList (group.flatMap Lexeme.source) := by
  cases h with
  | number h => simp [display_immediate _ (Literal.ne_nil_of_value? h), register?, Lexeme.source]
  | negated h =>
    rw [display_immediate _ (List.cons_ne_nil _ _)]
    simp [register?, Lexeme.source]
  | register hrun h hname => simp [display, register?, Lexeme.source]
  | word hrun h hname => simp [display, register?, Lexeme.source]
  | mark hblank hrun => simp [display, register?, Lexeme.source]

end MadeOf

/-! ## Rendering -/

/-- Scanning a text that begins with the operand gives the lexemes, and then those of what follows,
if no run goes on after a word. An operand that is no word ends a run before it. -/
structure Writes (op : Operand) (lexemes : List Lexeme) : Prop where
  scan_eq : ∀ t, (op.isWord = true → Lexeme.Apart t) →
    Lexeme.scan (op.display.toList ++ t) = lexemes ++ Lexeme.scan t
  apart : op.isWord = false → ∀ t, Lexeme.Apart (op.display.toList ++ t)

/-- An operand that shows one lexeme writes it, with a space before a word after a word. -/
theorem writes_lexeme {op : Operand} {l : Lexeme} (hl : l.Lexical)
    (hdisplay : op.display.toList = l.source) (hword : op.isWord = l.isOpen) : Writes op [l] where
  scan_eq t ht := by
    rw [hdisplay, Lexeme.scan_append hl fun hopen => ht (hword.trans hopen)]
    rfl
  apart h t := by
    rw [hword] at h
    cases hl with
    | number h' => cases h
    | word hrun h' => cases h
    | mark hblank hrun =>
      rw [hdisplay]
      rintro c ⟨⟩
      exact hrun

/-- Text is a word if it begins with a character of runs or a dollar. -/
theorem isWord_text {s : String} {c : Char} {cs : List Char} (hs : s.toList = c :: cs) :
    (text s).isWord = (Lexeme.isRunChar c || c == '$') := by
  simp [isWord, hs, Lexeme.isRunChar, isWordChar]

/-- An operand writes what it is made of, registers in lower case. -/
theorem MadeOf.writes {catalog : Catalog} {group : List Lexeme} {op : Operand}
    (h : MadeOf catalog group op) : Writes op (group.map (Lexeme.lowered catalog)) := by
  cases h with
  | @number spelling value h =>
    refine writes_lexeme (.number h) ?_ rfl
    rw [display_immediate _ (Literal.ne_nil_of_value? h), String.toList_ofList]
    rfl
  | @negated spelling value h =>
    have hdisplay (t : List Char) :
        (immediate (-value) (String.ofList ('-' :: spelling))).display.toList ++ t =
          (Lexeme.mark '-').source ++ ((Lexeme.number spelling value).source ++ t) := by
      rw [display_immediate _ (List.cons_ne_nil _ _), String.toList_ofList]
      rfl
    -- Two lexemes in a row: the sign ends whatever follows it, the number only before `t`.
    refine ⟨fun t ht => ?_, nofun⟩
    rw [hdisplay, Lexeme.scan_append (.mark (by decide) (by decide)) fun h => absurd h (by decide),
      Lexeme.scan_append (.number h) fun _ => ht rfl]
    rfl
  | @register cs hrun h hname =>
    have hlowered : (Lexeme.word cs).lowered catalog = .word (cs.map lowerChar) := if_pos hname
    rw [List.map_singleton, hlowered]
    refine writes_lexeme ?_ ?_ rfl
    · rw [← hlowered]
      exact Lexeme.lexical_lowered catalog (.word hrun h)
    · simp [display, lower, Lexeme.source]
  | @word cs hrun h hname =>
    have hlowered : (Lexeme.word cs).lowered catalog = .word cs := if_neg hname
    rw [List.map_singleton, hlowered]
    refine writes_lexeme (.word hrun h) ?_ ?_
    · simp [display, Lexeme.source]
    · obtain ⟨c, cs, rfl⟩ := List.exists_cons_of_ne_nil hrun.nonempty
      rw [isWord_text (String.toList_ofList), hrun.chars c (List.mem_cons_self ..)]
      rfl
  | @mark c hblank hrun =>
    refine writes_lexeme (.mark hblank hrun) (String.toList_singleton c) ?_
    rw [isWord_text (String.toList_singleton c), hrun]
    rfl

/-- The space between two operands keeps their lexemes apart. -/
theorem Writes.scan_gap {a b : Operand} {lexemes lexemes' : List Lexeme} (ha : Writes a lexemes)
    (hb : Writes b lexemes') (t : List Char) :
    Lexeme.scan (a.display.toList ++ ((gap a b).toList ++ (b.display.toList ++ t))) =
      lexemes ++ Lexeme.scan (b.display.toList ++ t) := by
  have hspace (t : List Char) :
      Lexeme.scan (a.display.toList ++ (" ".toList ++ t)) = lexemes ++ Lexeme.scan t := by
    have hblank : isBlank ' ' = true := by decide
    have hapart : Lexeme.Apart (' ' :: t) := by
      rintro c ⟨⟩
      decide
    have hdrop : Lexeme.scan (' ' :: t) = Lexeme.scan t := by rw [Lexeme.scan, if_pos hblank]
    exact (ha.scan_eq (' ' :: t) fun _ => hapart).trans (by rw [hdrop])
  unfold gap
  split
  · exact hspace _
  · split
    · exact hspace _
    · next hwords =>
      -- Without a space one of the two is no word. If it is the second, it ends a run before it.
      refine ha.scan_eq _ fun haword => ?_
      refine hb.apart ?_ t
      simpa [haword] using hwords

/-- The text of operands is scanned as the lexemes that they write. -/
theorem scan_render {groups : List (List Lexeme)} {ops : List Operand}
    (h : List.Forall₂ (fun group op => Writes op group) groups ops) :
    Lexeme.scan (render ops).toList = groups.flatten := by
  induction h with
  | nil => simp [render, Lexeme.scan]
  | @cons group op groups ops hwrites hrest ih =>
    cases hrest with
    | nil =>
      have := hwrites.scan_eq [] (by rintro - c ⟨⟩)
      simpa [render, Lexeme.scan] using this
    | @cons group' op' groups ops hwrites' hrest =>
      -- What follows begins with the next operand, and this one is cut off before it.
      obtain ⟨t, ht⟩ : ∃ t, (render (op' :: ops)).toList = op'.display.toList ++ t := by
        cases ops with
        | nil => exact ⟨[], by simp [render]⟩
        | cons op'' ops => exact ⟨_, by simp [render]; rfl⟩
      rw [List.flatten_cons, ← ih, render, String.toList_append, String.toList_append,
        List.append_assoc, ht, hwrites.scan_gap hwrites']

/-- The case of a register does not matter. -/
theorem ofWord_lower {catalog : Catalog} {cs : List Char}
    (hname : lower (String.ofList cs) ∈ catalog.names) :
    ofWord catalog (cs.map lowerChar) = ofWord catalog cs := by
  have hlower : String.ofList (cs.map lowerChar) = lower (String.ofList cs) := by simp [lower]
  unfold ofWord Catalog.normalize?
  rw [hlower, lower_lower, if_pos hname]

/-- The case of registers makes no difference to the operands. -/
theorem ofLexemes_lowered (catalog : Catalog) (previous : Option Operand) (lexemes : List Lexeme) :
    ofLexemes catalog previous (lexemes.map (Lexeme.lowered catalog)) =
      ofLexemes catalog previous lexemes := by
  fun_induction ofLexemes catalog previous lexemes with
  | case1 => rfl
  | case2 previous c hsign spelling value rest op ih =>
    show ofLexemes catalog previous (.mark c :: .number spelling value :: rest.map _) = _
    rw [ofLexemes, if_pos hsign, ← ih]
  | case3 previous c hsign rest hrest op ih =>
    show ofLexemes catalog previous (.mark c :: rest.map _) = _
    rw [ofLexemes, if_pos hsign, ← ih]
    -- What follows the sign is no number, and none with registers in lower case.
    intro spelling value others hmap
    obtain ⟨l, rest, rfl, hl, -⟩ := List.map_eq_cons_iff.1 hmap
    cases l with
    | number spelling value => exact hrest spelling value rest rfl
    | word cs =>
      rw [Lexeme.lowered] at hl
      split at hl <;> cases hl
    | mark c => cases hl
  | case4 previous c rest hsign op ih =>
    show ofLexemes catalog previous (.mark c :: rest.map _) = _
    conv_lhs => unfold ofLexemes
    rw [if_neg hsign, ← ih]
  | case5 previous spelling value rest op ih =>
    show ofLexemes catalog previous (.number spelling value :: rest.map _) = _
    rw [ofLexemes, ← ih]
  | case6 previous cs rest op ih =>
    have hword : ofLexemes catalog previous ((Lexeme.word cs).lowered catalog :: rest.map
        (Lexeme.lowered catalog)) = op :: ofLexemes catalog (some op) (rest.map
        (Lexeme.lowered catalog)) := by
      rw [Lexeme.lowered]
      split
      · next hname => rw [ofLexemes, ofWord_lower hname]
      · rw [ofLexemes]
    rw [List.map_cons, hword, ih]

/-- Rendering what was scanned gives a text with the same lexemes, but for the case of registers. -/
theorem scan_render_ofLexemes (catalog : Catalog) (previous : Option Operand)
    {lexemes : List Lexeme} (h : ∀ l ∈ lexemes, l.Lexical) :
    Lexeme.scan (render (ofLexemes catalog previous lexemes)).toList =
      lexemes.map (Lexeme.lowered catalog) := by
  obtain ⟨groups, rfl, hgroups⟩ := groups_ofLexemes catalog previous lexemes h
  have hwrites : List.Forall₂ (fun group op => Writes op group)
      (groups.map (List.map (Lexeme.lowered catalog)))
      (ofLexemes catalog previous groups.flatten) :=
    List.forall₂_map_left_iff.2 (hgroups.imp fun _ _ => MadeOf.writes)
  rw [scan_render hwrites, List.map_flatten]

/-- Operand text survives rendering. What is rendered is read as the text was, which fails if a
number is too long. -/
theorem scan_render_scan (catalog : Catalog) (s : String) :
    scan catalog (render (scan catalog s)) = scan catalog s ∧
      ∀ limits, read limits catalog (render (scan catalog s)) = read limits catalog s := by
  have hlexemes := scan_render_ofLexemes catalog none (Lexeme.lexical_scan s.toList)
  have hscan : scan catalog (render (scan catalog s)) = scan catalog s := by
    rw [scan, scan, hlexemes, ofLexemes_lowered]
  exact ⟨hscan, fun limits => read_of_lowered hlexemes hscan⟩

/-! ## Reading -/

/-- The spelling is that of a literal with the value, or a minus sign and the spelling of its
negative. -/
def Spells (spelling : String) (v : Int) : Prop :=
  ∃ cs base digits, Literal.Denotes cs base digits ∧
    (spelling.toList = cs ∧ cs.head? ≠ some '-' ∧ v = (Nat.ofDigits base digits.reverse : Nat) ∨
      spelling.toList = '-' :: cs ∧ v = -(Nat.ofDigits base digits.reverse : Nat))

/-- A literal is a spelling of its value, and with a minus of the negated one. -/
theorem spells_of_value? {cs : List Char} {n : Nat} (h : Literal.value? cs = some n) :
    Spells (String.ofList cs) n ∧ Spells (String.ofList ('-' :: cs)) (-n) := by
  obtain ⟨base, digits, hdenotes, rfl⟩ := Literal.value?_eq_some_iff.1 h
  refine ⟨⟨cs, base, digits, hdenotes, .inl ⟨String.toList_ofList, ?_, rfl⟩⟩,
    ⟨cs, base, digits, hdenotes, .inr ⟨String.toList_ofList, rfl⟩⟩⟩
  intro hsign
  obtain ⟨ds, rfl⟩ := List.head?_eq_some_iff.1 hsign
  rw [Literal.value?_sign] at h
  cases h

/-- A register of the catalog, a number that the reader of numbers reads from its spelling to the
value of its digits, or a text that is not empty and neither of these. -/
def IsPiece (limits : Limits) (catalog : Catalog) (op : Operand) : Prop :=
  (∃ name ∈ catalog.names, op = .register name) ∨
  (∃ v spelling, op = .immediate v spelling ∧ Literal.ofText limits spelling = .ok v ∧
    Spells spelling v) ∨
  ∃ s ≠ "", op = .text s ∧ (∀ base digits, ¬ Literal.Denotes s.toList base digits) ∧
    (Lexeme.IsRun s.toList → lower s ∉ catalog.names)

/-- What is made of lexemes within the limits is a piece. -/
theorem MadeOf.isPiece {limits : Limits} {catalog : Catalog} {group : List Lexeme} {op : Operand}
    (h : MadeOf catalog group op) (hlimits : ∀ l ∈ group, l.fault? limits = none) :
    IsPiece limits catalog op := by
  cases h with
  | @number spelling value h =>
    have hshort := hlimits _ (List.mem_cons_self ..)
    exact .inr (.inl ⟨_, _, rfl, Literal.ofText_of_value? h hshort, (spells_of_value? h).1⟩)
  | @negated spelling value h =>
    have hshort := hlimits _ (List.mem_cons_of_mem _ (List.mem_cons_self ..))
    exact .inr (.inl ⟨_, _, rfl, Literal.ofText_of_negated h hshort, (spells_of_value? h).2⟩)
  | register hrun h hname => exact .inl ⟨_, hname, rfl⟩
  | @word cs hrun h hname =>
    refine .inr (.inr ⟨String.ofList cs, ?_, rfl, ?_, fun _ => hname⟩)
    · rw [Ne, ← String.toList_inj, String.toList_ofList]
      exact hrun.nonempty
    · rw [String.toList_ofList]
      exact Literal.value?_eq_none_iff.1 h
  | @mark c hblank hrun =>
    -- A mark is no literal: whatever denotes a number is a run of its own or a sign before one.
    have hnot := Lexeme.not_isRun_singleton hrun
    refine .inr (.inr ⟨String.singleton c, ?_, rfl, ?_, ?_⟩)
    · rw [Ne, ← String.toList_inj, String.toList_singleton]
      exact List.cons_ne_nil c []
    · rw [String.toList_singleton]
      intro base digits hdenotes
      have hvalue := Literal.value?_eq_some_iff.2 ⟨base, digits, hdenotes, rfl⟩
      rcases Lexeme.isRun_of_value? hvalue with h | ⟨run, h, hrun⟩
      · exact hnot h
      · exact hrun.nonempty (List.cons.inj h).2.symm
    · rw [String.toList_singleton]
      exact fun h => absurd h hnot

/-- Operand text is read unless a decimal number of it has more digits than the limit, and then the
fault says so. -/
theorem read_cases (limits : Limits) (catalog : Catalog) (s : String) :
    (∀ limit, limits.digits = some limit → ∀ l ∈ Lexeme.scan s.toList, ¬ l.Exceeds limit) ∧
        read limits catalog s = .ok (scan catalog s) ∨
      ∃ limit count, limits.digits = some limit ∧ limit < count ∧
        (∃ l ∈ Lexeme.scan s.toList, l.Exceeds limit) ∧
        read limits catalog s = .error (.digits limit count) := by
  have hlexical := Lexeme.lexical_scan s.toList
  cases hfirst : (Lexeme.scan s.toList).findSome? (Lexeme.fault? limits) with
  | none =>
    refine .inl ⟨?_, by rw [read, hfirst]⟩
    intro limit hlimit l hl
    have hnone := List.findSome?_eq_none_iff.1 hfirst l hl
    exact (Lexeme.fault?_eq_none_iff (hlexical l hl)).1 hnone limit hlimit
  | some fault =>
    obtain ⟨l, hl, hfault⟩ := List.exists_of_findSome?_eq_some hfirst
    -- Only a decimal literal can exceed the limit.
    cases hlexical l hl with
    | @number spelling value hvalue =>
      obtain ⟨base, digits, hdenotes, -⟩ := Literal.value?_eq_some_iff.1 hvalue
      rw [Lexeme.fault?_number hdenotes, Limits.digitsFault?_eq_some_iff] at hfault
      obtain ⟨rfl, limit, hlimit, hlong, rfl⟩ := hfault
      exact .inr ⟨limit, digits.length, hlimit, hlong,
        ⟨_, hl, spelling, value, digits, rfl, hdenotes, hlong⟩, by rw [read, hfirst]⟩
    | word hrun h => cases hfault
    | mark hblank hrun => cases hfault

/-- Scanning takes every text apart into such pieces. What they show, put together, is the text
without its blanks, but for the case of registers. Operand text is read unless a decimal number of
it has more digits than the limit. -/
theorem scan_reads (limits : Limits) (catalog : Catalog) (s : String) :
    ((∃ ops, read limits catalog s = .ok ops) ↔
      ∀ limit, limits.digits = some limit → ∀ l ∈ Lexeme.scan s.toList, ¬ l.Exceeds limit) ∧
    (∀ fault, read limits catalog s = .error fault →
      ∃ limit count, limits.digits = some limit ∧ limit < count ∧ fault = .digits limit count) ∧
    ∀ ops, read limits catalog s = .ok ops →
      ∃ sources : List (List Char), sources.flatten = s.toList.filter (fun c => !isBlank c) ∧
        List.Forall₂ (fun cs op => IsPiece limits catalog op ∧ op.display =
          if op.register?.isSome then lower (String.ofList cs) else String.ofList cs)
          sources ops := by
  refine ⟨?_, ?_, ?_⟩
  · rcases read_cases limits catalog s with ⟨hshort, hread⟩ | ⟨limit, count, hlimit, -, hlong, hread⟩
    · exact iff_of_true ⟨_, hread⟩ hshort
    · obtain ⟨l, hl, hexceeds⟩ := hlong
      refine iff_of_false ?_ fun hshort => hshort limit hlimit l hl hexceeds
      rw [hread]
      exact nofun
  · intro fault hfault
    rcases read_cases limits catalog s with ⟨-, hread⟩ | ⟨limit, count, hlimit, hlong, -, hread⟩
    · rw [hread] at hfault
      cases hfault
    · rw [hread] at hfault
      exact ⟨limit, count, hlimit, hlong, (Except.error.inj hfault).symm⟩
  · intro ops hread
    obtain ⟨hlimits, rfl⟩ := read_eq_ok_iff.1 hread
    obtain ⟨groups, hflat, hmade⟩ :=
      groups_ofLexemes catalog none _ (Lexeme.lexical_scan s.toList)
    refine ⟨groups.map (List.flatMap Lexeme.source), ?_, ?_⟩
    · rw [← Lexeme.source_scan, ← hflat]
      simp only [List.flatMap_def, List.map_flatten, List.flatten_flatten, List.map_map,
        Function.comp_def]
      rfl
    · -- Every lexeme is in one of the groups, and none of them is too long.
      have hgroup : ∀ group ∈ groups, ∀ l ∈ group, l.fault? limits = none := by
        intro group hgroup l hl
        exact hlimits l (hflat ▸ List.mem_flatten.2 ⟨group, hgroup, hl⟩)
      rw [List.forall₂_map_left_iff]
      refine ((List.forall₂_and_left _ _).2 ⟨hgroup, hmade⟩).imp ?_
      rintro group op ⟨hshort, hop⟩
      exact ⟨hop.isPiece hshort, hop.display_eq⟩

/-- A number of 4301 figures is one figure too long. -/
theorem read_repunit : read .standard ⟨[]⟩ (String.ofList (List.replicate 4301 '1')) =
    .error (.digits 4300 4301) := by
  have hne : List.replicate 4301 '1' ≠ [] := by
    rw [Ne, List.replicate_eq_nil_iff]
    decide
  have hfigures : AreDigits 10 (List.replicate 4301 '1') := by
    intro c hc
    rw [List.eq_of_mem_replicate hc]
    exact ⟨1, by decide⟩
  have hnumeral := isNumeral_of_areDigits hne hfigures
  obtain ⟨value, hvalue⟩ : ∃ value, Literal.value? (List.replicate 4301 '1') = some value :=
    ⟨_, Literal.value?_eq_some_iff.2 ⟨10, _, .decimal hnumeral, rfl⟩⟩
  have hscan : Lexeme.scan (List.replicate 4301 '1' ++ []) = _ :=
    Lexeme.scan_append (.number hvalue) (by rintro - c ⟨⟩)
  have hfault : (Lexeme.number (List.replicate 4301 '1') value).fault? .standard =
      some (.digits 4300 4301) := by
    rw [Lexeme.fault?_number (.decimal hnumeral), hnumeral.length_eq, List.length_replicate]
    rfl
  rw [List.append_nil] at hscan
  rw [read, String.toList_ofList, hscan, List.findSome?_cons, hfault]

end Operand

end SleighForge
