import SleighForge.Proofs.Layout.RegionNames
import SleighForge.Proofs.Specification
import SleighForge.Proofs.Specification.Names

/-!
# What a display section prints

A display section is read with quoted strings for what is between the quotes, and with carets that
join what stands on their two sides. Read so, it is the operand text of the instruction
(`display_prints`): spaces stand at the same places, a field goes by the name of its token field,
and double quotes have become apostrophes.

The items and the separators are printed one by one (`Prints`). What separates two items depends on
the items, and what separates two pieces of operand text on the pieces, but a caret prints as
nothing, so the two agree (`prints_separator`).
-/

namespace SleighForge

namespace Specification

/-! ## Printing -/

/-- What is printed from a place within a quoted string or outside, if the string is closed. -/
def printedFrom? (quoted : Bool) : List Char → Option (List Char)
  | [] => if quoted then none else some []
  | c :: cs =>
    if c = '"' then printedFrom? (!quoted) cs
    else if quoted = false ∧ c = '^' then printedFrom? quoted cs
    else (printedFrom? quoted cs).map (c :: ·)

/-- What a display section prints: quoted strings without their quotes, and all that stands outside
of them but the carets. -/
def printed? (display : String) : Option String :=
  (printedFrom? false display.toList).map String.ofList

/-- The source prints as the text, whatever follows it. -/
def Prints (source text : String) : Prop :=
  ∀ rest, printedFrom? false (source.toList ++ rest) =
    (printedFrom? false rest).map (text.toList ++ ·)

namespace Prints

variable {source text source' text' : String}

/-- One source after the other prints the one text after the other. -/
theorem append (h : Prints source text) (h' : Prints source' text') :
    Prints (source ++ source') (text ++ text') := by
  intro rest
  rw [String.toList_append, List.append_assoc, h, h', Option.map_map, String.toList_append]
  simp only [Function.comp_def, List.append_assoc]

theorem printed?_eq (h : Prints source text) : printed? source = some text := by
  have hall := h []
  rw [List.append_nil] at hall
  rw [printed?, hall]
  simp [printedFrom?]

theorem empty : Prints "" "" := by
  intro rest
  simp

theorem caret : Prints "^" "" := by
  intro rest
  show printedFrom? false ('^' :: rest) = _
  rw [printedFrom?, if_neg (by decide), if_pos ⟨rfl, rfl⟩]
  simp

end Prints

/-- The text has neither quotes nor carets. -/
structure IsVerbatim (s : String) : Prop where
  quote_not_mem : '"' ∉ s.toList
  caret_not_mem : '^' ∉ s.toList

/-- A text without marks of its own prints as it is. -/
theorem IsVerbatim.prints {s : String} (h : IsVerbatim s) : Prints s s := by
  intro rest
  have hquote := h.quote_not_mem
  have hcaret := h.caret_not_mem
  generalize s.toList = cs at hquote hcaret
  induction cs with
  | nil => simp
  | cons c cs ih =>
    rw [List.mem_cons, not_or] at hquote hcaret
    have hplain : ¬ (false = false ∧ c = '^') := fun hc => hcaret.1 hc.2.symm
    rw [List.cons_append, printedFrom?, if_neg (Ne.symm hquote.1), if_neg hplain,
      ih hquote.2 hcaret.2, Option.map_map]
    rfl

theorem prints_space : Prints " " " " :=
  IsVerbatim.prints ⟨by decide, by decide⟩

/-- A quoted string prints as what is between the quotes, carets included. -/
theorem prints_quoted {s : String} (h : '"' ∉ s.toList) : Prints ("\"" ++ s ++ "\"") s := by
  have hbody : ∀ cs : List Char, '"' ∉ cs → ∀ rest,
      printedFrom? true (cs ++ '"' :: rest) = (printedFrom? false rest).map (cs ++ ·) := by
    intro cs hcs rest
    induction cs with
    | nil =>
      show printedFrom? true ('"' :: rest) = _
      rw [printedFrom?, if_pos rfl]
      simp
    | cons c cs ih =>
      rw [List.mem_cons, not_or] at hcs
      rw [List.cons_append, printedFrom?, if_neg (Ne.symm hcs.1), if_neg (by simp), ih hcs.2,
        Option.map_map]
      rfl
  intro rest
  have hsource : ("\"" ++ s ++ "\"").toList ++ rest = '"' :: (s.toList ++ '"' :: rest) := by
    simp
  rw [hsource, printedFrom?, if_pos rfl]
  exact hbody s.toList h rest

/-! ## Apostrophes for double quotes -/

/-- The text with apostrophes for double quotes. -/
def requoted (s : String) : String :=
  s.map fun c => if c = '"' then '\'' else c

theorem toList_requoted (s : String) :
    (requoted s).toList = s.toList.map fun c => if c = '"' then '\'' else c :=
  String.toList_map

/-- There are no double quotes left. -/
theorem quote_not_mem_requoted (s : String) : '"' ∉ (requoted s).toList := by
  rw [toList_requoted, List.mem_map]
  rintro ⟨c, -, hc⟩
  split at hc
  · exact absurd hc (by decide)
  · next hne => exact hne hc

theorem requoted_eq_self {s : String} (h : '"' ∉ s.toList) : requoted s = s := by
  rw [← String.toList_inj, toList_requoted]
  refine (List.map_congr_left ?_).trans (List.map_id _)
  intro c hc
  refine if_neg ?_
  rintro rfl
  exact h hc

/-- Marks other than the two quotes are told apart still. -/
theorem requoted_eq_iff {s t : String} (hquote : '"' ∉ t.toList) (hapostrophe : '\'' ∉ t.toList) :
    requoted s = t ↔ s = t := by
  constructor
  · intro h
    by_cases hs : '"' ∈ s.toList
    · have hmem : '\'' ∈ (requoted s).toList := by
        rw [toList_requoted]
        exact List.mem_map.2 ⟨'"', hs, rfl⟩
      rw [h] at hmem
      exact absurd hmem hapostrophe
    · rwa [requoted_eq_self hs] at h
  · rintro rfl
    exact requoted_eq_self hquote

theorem isEmpty_requoted (s : String) : (requoted s).isEmpty = s.isEmpty := by
  rw [Bool.eq_iff_iff, String.isEmpty_iff, String.isEmpty_iff]
  exact requoted_eq_iff List.not_mem_nil List.not_mem_nil

/-- Numbers have no quotes. -/
theorem requoted_toString (v : Int) : requoted (toString v) = toString v := by
  refine requoted_eq_self fun hmem => ?_
  exact absurd (Text.isPart_toString_int v '"' hmem) (by decide)

/-! ## Items -/

/-- The operand that is printed for an operand: for a field the word that its token field is called,
and apostrophes for double quotes. -/
def printedAs (l : Layout) : Operand → Operand
  | .text s => .text (requoted s)
  | .register name => .register (requoted name)
  | .immediate v spelling => .immediate v (requoted spelling)
  | .field f =>
    match l.tokenField? f with
    | some field => .register field.name
    | none => .field f

variable {l : Layout} {op : Operand} {item : String}

/-- Operands that are no fields are printed as they are displayed, quotes apart. -/
theorem display_printedAs (hop : op.field? = none) :
    (printedAs l op).display = requoted op.display := by
  cases op with
  | text | register => rfl
  | immediate v spelling =>
    show (if (requoted spelling).isEmpty then _ else _) = requoted (if _ then _ else _)
    rw [isEmpty_requoted]
    split
    · exact (requoted_toString v).symm
    · rfl
  | field f => cases hop

theorem isWord_printedAs (l : Layout) (op : Operand) : (printedAs l op).isWord = op.isWord := by
  cases op with
  | text s =>
    show (Operand.text (requoted s)).isWord = _
    unfold Operand.isWord
    dsimp only
    rw [toList_requoted]
    cases s.toList with
    | nil => rfl
    | cons c cs =>
      by_cases hc : c = '"'
      · -- Neither of the two marks begins a word.
        rw [hc]
        rfl
      · rw [List.map_cons, if_neg hc]
  | register | immediate => rfl
  | field f =>
    rw [printedAs]
    split <;> rfl

/-- Only commas are printed as commas. -/
theorem printedAs_eq_comma_iff : printedAs l op = .text "," ↔ op = .text "," := by
  cases op with
  | text s =>
    rw [printedAs, Operand.text.injEq, Operand.text.injEq]
    exact requoted_eq_iff (by decide) (by decide)
  | register | immediate =>
    constructor
    · rintro ⟨⟩
    · rintro ⟨⟩
  | field f =>
    constructor
    · intro h
      rw [printedAs] at h
      split at h
      · cases h
      · cases h
    · rintro ⟨⟩

/-- The spaces of the operand text are those between the operands as they are printed. -/
theorem gap_printedAs (l : Layout) (a b : Operand) :
    Operand.gap (printedAs l a) (printedAs l b) = Operand.gap a b := by
  unfold Operand.gap
  rw [isWord_printedAs, isWord_printedAs]
  exact if_congr printedAs_eq_comma_iff rfl rfl

/-- An item is the name of a token field, a bare mark or a quoted string. -/
theorem displayItem_cases (h : displayItem l op = .ok item) :
    (∃ f t, op = .field f ∧ l.tokenField? f = some t ∧ item = t.name) ∨
      op = .text item ∧ isBare item = true ∨
      op.field? = none ∧ item = "\"" ++ requoted op.display ++ "\"" := by
  cases op with
  | field f =>
    rw [displayItem] at h
    cases ht : l.tokenField? f with
    | none =>
      rw [ht] at h
      cases h
    | some t =>
      rw [ht] at h
      cases h
      exact .inl ⟨f, t, rfl, ht, rfl⟩
  | text s =>
    unfold displayItem at h
    dsimp only at h
    split at h
    · next hbare =>
      cases h
      exact .inr (.inl ⟨rfl, hbare⟩)
    · cases h
      exact .inr (.inr ⟨rfl, rfl⟩)
  | register | immediate =>
    cases h
    exact .inr (.inr ⟨rfl, rfl⟩)

/-- Bare marks are neither quotes nor carets. -/
theorem isVerbatim_of_isBare (h : isBare item = true) : IsVerbatim item := by
  have hmarks : ∀ mark ∈ bareMarks, '"' ∉ mark.toList ∧ '^' ∉ mark.toList := by decide
  obtain ⟨hquote, hcaret⟩ := hmarks item (List.contains_iff_mem.1 h)
  exact ⟨hquote, hcaret⟩

/-- The names of the token fields are printed as they are. -/
def HasVerbatimNames (l : Layout) : Prop :=
  ∀ r ∈ l.regions, IsVerbatim r.field.name

/-- An item prints as its operand. -/
theorem prints_displayItem (hnames : HasVerbatimNames l) (h : displayItem l op = .ok item) :
    Prints item (printedAs l op).display := by
  rcases displayItem_cases h with ⟨f, t, rfl, ht, rfl⟩ | ⟨rfl, hbare⟩ | ⟨hop, rfl⟩
  · have hdisplay : (printedAs l (.field f)).display = t.name := by
      rw [printedAs, ht]
      rfl
    obtain ⟨r, hfind, rfl⟩ := Option.map_eq_some_iff.1 ht
    rw [hdisplay]
    exact (hnames r (List.mem_of_find?_eq_some hfind)).prints
  · have hitem := isVerbatim_of_isBare hbare
    have hdisplay : (printedAs l (.text item)).display = item :=
      requoted_eq_self hitem.quote_not_mem
    rw [hdisplay]
    exact hitem.prints
  · rw [display_printedAs hop]
    exact prints_quoted (quote_not_mem_requoted _)

/-! ## Separators -/

/-- A separator prints as the space of the operand text, or as nothing where it has none. -/
theorem prints_separator (l : Layout) (previous op : Operand) (previousItem item : String) :
    Prints (separator previous op previousItem item)
      (Operand.gap (printedAs l previous) (printedAs l op)) := by
  rw [gap_printedAs]
  unfold separator Operand.gap
  by_cases hcomma : previous = .text ","
  · rw [if_pos hcomma, if_pos hcomma]
    exact prints_space
  · rw [if_neg hcomma, if_neg hcomma]
    by_cases hwords : (previous.isWord && op.isWord) = true
    · rw [if_pos hwords, if_pos hwords]
      exact prints_space
    · -- Where the operand text has no space, a caret makes no difference.
      rw [if_neg hwords, if_neg hwords]
      split
      · exact Prints.caret
      · exact Prints.empty

/-- There is something between two items unless one of them is a bare mark. -/
theorem separator_cases (previous op : Operand) (previousItem item : String) :
    separator previous op previousItem item = " " ∨ separator previous op previousItem item = "^" ∨
      separator previous op previousItem item = "" ∧
        (isBare previousItem = true ∨ isBare item = true) := by
  unfold separator
  split
  · exact .inl rfl
  · split
    · exact .inl rfl
    · split
      · exact .inr (.inl rfl)
      · next hbare =>
        refine .inr (.inr ⟨rfl, ?_⟩)
        by_cases hprevious : isBare previousItem = true
        · exact .inl hprevious
        · simpa [hprevious] using hbare

/-! ## Display sections -/

/-- Items that follow an item, with a space, a caret or nothing before each. There is something
between two items unless one of them is a bare mark. -/
inductive Follows : String → List String → String → Prop
  | nil (previous : String) : Follows previous [] ""
  | cons {previous item separator text : String} {items : List String}
    (hseparator : separator = " " ∨ separator = "^" ∨
      separator = "" ∧ (isBare previous = true ∨ isBare item = true))
    (h : Follows item items text) : Follows previous (item :: items) (separator ++ item ++ text)

/-- The text is made of the items, each after a space, a caret or, next to a bare mark, nothing. The
first is after a space. -/
inductive Spaced : List String → String → Prop
  | nil : Spaced [] ""
  | cons {item text : String} {items : List String} (h : Follows item items text) :
    Spaced (item :: items) (" " ++ item ++ text)

/-- The operands as they are printed, after a space if there are any. -/
def printedOperands (l : Layout) (ops : List Operand) : String :=
  if ops = [] then "" else " " ++ Operand.render (ops.map (printedAs l))

variable {ops : List Operand} {items : List String}

/-- The items of operands after an operand print as the rest of the operand text. -/
theorem exists_displayAfter (hnames : HasVerbatimNames l)
    (hitems : List.Forall₂ (fun op item => displayItem l op = .ok item) ops items)
    (hitem : displayItem l op = .ok item) :
    ∃ text, displayAfter l op item ops = .ok text ∧ Follows item items text ∧
      Prints (item ++ text) (Operand.render ((op :: ops).map (printedAs l))) := by
  induction hitems generalizing op item with
  | nil =>
    refine ⟨"", rfl, .nil item, ?_⟩
    rw [String.append_empty]
    exact prints_displayItem hnames hitem
  | @cons op' item' ops items hitem' _ ih =>
    obtain ⟨text, htext, hfollows, hprints⟩ := ih hitem'
    refine ⟨_, displayAfter_cons hitem' htext, .cons (separator_cases ..) hfollows, ?_⟩
    have hpieces := ((prints_displayItem hnames hitem).append
      (prints_separator l op op' item item')).append hprints
    rw [String.append_assoc, String.append_assoc] at hpieces
    rw [String.append_assoc]
    simpa only [List.map_cons, Operand.render, String.append_assoc] using hpieces

/-- The items of operands print as the operand text after a space. -/
theorem exists_displayOperands (hnames : HasVerbatimNames l)
    (hitems : List.Forall₂ (fun op item => displayItem l op = .ok item) ops items) :
    ∃ display, displayOperands l ops = .ok display ∧ Spaced items display ∧
      printed? display = some (printedOperands l ops) := by
  cases hitems with
  | nil => exact ⟨"", rfl, .nil, rfl⟩
  | @cons op item ops items hitem hrest =>
    obtain ⟨text, htext, hfollows, hprints⟩ := exists_displayAfter hnames hrest hitem
    refine ⟨_, displayOperands_cons hitem htext, .cons hfollows, ?_⟩
    rw [printedOperands, if_neg (List.cons_ne_nil op ops), String.append_assoc]
    exact (prints_space.append hprints).printed?_eq

/-- The names of a laid out model have letters, digits, minus signs and underscores only. -/
theorem hasVerbatimNames_of_laidOut {m : Model} (h : m.LaidOut) {x : Pattern × Layout}
    (hx : x ∈ m.patterns.zip m.layouts) : HasVerbatimNames x.2 := by
  intro r hr
  have hnamed := Layout.named_of_mem_regions (h.ofPattern hx) hr
  constructor
  · intro hmem
    exact absurd (hnamed.mem_name hmem) (by decide)
  · intro hmem
    exact absurd (hnamed.mem_name hmem) (by decide)

end Specification

open Specification in
/-- The display section of every instruction of a model that a job has built prints like the operand
text: nothing where there are no operands, and otherwise a space and the operands, with the names of
the token fields for the fields and apostrophes for double quotes. Between two of its items there is
a space or a caret, unless one of them is a bare mark. -/
theorem display_prints (job : Job) (lines : List String) (c : Collector) (m : Model)
    (stats : List PassStats) (hbuild : (job.build lines c).result = .ok (m, stats)) :
    m.layouts.length = m.patterns.length ∧
    ∀ x ∈ m.patterns.zip m.layouts, ∃ items display,
      List.Forall₂ (fun op item => displayItem x.2 op = .ok item) x.1.operands items ∧
      displayText x.1 x.2 = .ok (x.1.mnemonic ++ display) ∧
      Spaced items display ∧
      printed? display = some (printedOperands x.2 x.1.operands) := by
  obtain ⟨m₀, hready₀, hlay⟩ := Job.exists_layOut_of_build hbuild
  have hlaid := Model.laidOut_of_layOut hlay
  refine ⟨hlaid.layouts.length_eq.symm, ?_⟩
  intro x hx
  have hpattern : x.1 ∈ m₀.patterns := by
    obtain ⟨layouts, journal, -, rfl⟩ := Stage.layOut_inv hlay
    exact (List.of_mem_zip hx).1
  -- All fields among the operands are in the layout, so every operand has its item.
  have hshown : ∀ op ∈ x.1.operands, ∃ item, displayItem x.2 op = .ok item := by
    intro op hop
    refine displayItem_ok fun f hf => ?_
    have hfield : f ∈ x.1.fields := hready₀.sound.named x.1 hpattern f (hf ▸ hop)
    exact ⟨_, Layout.tokenField?_eq (hlaid.ofPattern hx) hfield⟩
  obtain ⟨items, hitems⟩ := exists_mapM_eq_ok hshown
  have hall := mapM_eq_ok_iff.1 hitems
  obtain ⟨display, hdisplay, hspaced, hprints⟩ :=
    exists_displayOperands (hasVerbatimNames_of_laidOut hlaid hx) hall
  refine ⟨items, display, hall, ?_, hspaced, hprints⟩
  rw [displayText, hdisplay]
  rfl

/-- A job for examples, which knows two registers only. -/
def twoRegisterJob : Job :=
  { config := byteConfig, catalog := ⟨["r0", "r1"]⟩ }

/-- A list for examples: a quote, a caret and a dollar sign are shown in quotes. -/
def quotedMarks : List String :=
  ["00010000 SAY \"r0^$zz", "00010001 SAY \"r1^$zz"]

open Specification in
/-- Quotes and carets among the operands, and a register field next to them. -/
theorem display_prints_quotedMarks : ∃ m stats,
    (twoRegisterJob.build quotedMarks {}).result = .ok (m, stats) ∧
    ∃ x ∈ m.patterns.zip m.layouts, ∃ items display,
      x.1.mnemonic ++ display = "SAY \"'\"^reg_0_1_0^\"^\"^\"$\" \"zz\"" ∧
      Spaced items display ∧ printed? display = some " 'reg_0_1_0^$ zz" := by
  have hshown : (twoRegisterJob.build quotedMarks {}).result.toOption.map (fun built =>
      (built.1.patterns.zip built.1.layouts).map fun x =>
        ((displayText x.1 x.2).toOption, printedOperands x.2 x.1.operands)) =
      some [(some "SAY \"'\"^reg_0_1_0^\"^\"^\"$\" \"zz\"", " 'reg_0_1_0^$ zz")] := by
    decide +kernel
  cases hbuild : (twoRegisterJob.build quotedMarks {}).result with
  | error fault =>
    rw [hbuild] at hshown
    cases hshown
  | ok built =>
    rw [hbuild] at hshown
    rcases built with ⟨m, stats⟩
    obtain ⟨-, hall⟩ := display_prints _ quotedMarks {} m stats hbuild
    obtain ⟨x, hzip, hx⟩ := List.map_eq_singleton_iff.1 (Option.some.inj hshown)
    have hmem : x ∈ m.patterns.zip m.layouts := hzip ▸ List.mem_singleton_self x
    obtain ⟨items, display, -, htext, hspaced, hprints⟩ := hall x hmem
    obtain ⟨hdisplay, hoperands⟩ := Prod.mk.inj hx
    rw [htext] at hdisplay
    rw [hoperands] at hprints
    exact ⟨m, stats, rfl, x, hmem, items, display, Option.some.inj hdisplay, hspaced, hprints⟩

end SleighForge
