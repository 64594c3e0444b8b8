import SleighForge.Proofs.SideBySide
import SleighForge.Proofs.Text.Scanning

/-!
# Operand text under more registers

With more names in the catalog, operand text is cut at the same places: the operands are the same,
except that a word is a register where it is one of the names added (`scan_extend`).

Whether a minus sign goes into the number after it depends on the operand before it, and that may be
another one under the larger catalog. But the names are runs and the texts that a sign can follow
are marks, so both scans take in the same signs (`allowsSign_relabel`).
-/

namespace SleighForge

open Text

/-! ## Register names are runs -/

/-- Register names begin with characters of runs. -/
theorem isRunChar_of_isRegisterStart {c : Char} (h : isRegisterStart c = true) :
    Lexeme.isRunChar c = true := by
  simp only [isRegisterStart, Bool.or_eq_true, beq_iff_eq] at h
  rcases h with (halpha | rfl) | rfl
  · refine Lexeme.isRunChar_of_isAlphanum ?_
    rw [Char.isAlphanum, halpha, Bool.true_or]
  · decide
  · decide

/-- Register names are runs. -/
theorem isRun_of_isRegisterName {name : String} (h : isRegisterName name = true) :
    Lexeme.IsRun name.toList := by
  unfold isRegisterName at h
  split at h
  · cases h
  · next c cs hname =>
    rw [hname]
    obtain ⟨hstart, hrest⟩ := Bool.and_eq_true_iff.1 h
    constructor
    · exact List.cons_ne_nil c cs
    · intro d hd
      rcases List.mem_cons.1 hd with rfl | hd
      · exact isRunChar_of_isRegisterStart hstart
      · rcases Bool.or_eq_true_iff.1 (List.all_eq_true.1 hrest d hd) with hletter | hdigit
        · exact isRunChar_of_isRegisterStart hletter
        · refine Lexeme.isRunChar_of_isAlphanum ?_
          rw [Char.isAlphanum, hdigit, Bool.or_true]

theorem isRun_lower_iff {s : String} : Lexeme.IsRun (lower s).toList ↔ Lexeme.IsRun s.toList := by
  rw [lower, String.toList_ofList, Lexeme.isRun_map_lowerChar]

/-! ## The names that are added -/

namespace Catalog

/-- The names as the catalog would keep them. -/
def keptNames (given : List String) : List String :=
  given.map fun name => lower (strip name)

variable {catalog extended : Catalog} {given : List String}

theorem isRun_of_mem_keptNames (hvalid : ∀ name ∈ given, isRegisterName (strip name) = true)
    {name : String} (h : name ∈ keptNames given) : Lexeme.IsRun name.toList := by
  obtain ⟨name, hname, rfl⟩ := List.mem_map.1 h
  exact isRun_lower_iff.2 (isRun_of_isRegisterName (hvalid name hname))

/-- Valid names are all kept, in lower case and without blanks around. -/
theorem mapM_registerName (hvalid : ∀ name ∈ given, isRegisterName (strip name) = true) :
    given.mapM registerName = .ok (keptNames given) := by
  refine mapM_eq_ok_iff.2 (List.forall₂_map_right_iff.2 (List.forall₂_same.2 ?_))
  intro name hname
  simp only [registerName, hvalid name hname, if_true]

/-- Valid names can be added to every catalog. -/
theorem exists_extend (catalog : Catalog)
    (hvalid : ∀ name ∈ given, isRegisterName (strip name) = true) :
    ∃ extended, catalog.extend given = .ok extended ∧
      ∀ name, name ∈ extended.names ↔ name ∈ catalog.names ∨ name ∈ keptNames given := by
  have hnames := mapM_registerName hvalid
  have hextend : catalog.extend given = .ok ⟨distinct (catalog.names ++ keptNames given)⟩ := by
    rw [extend, hnames]
    rfl
  exact ⟨_, hextend, mem_names_extend hnames hextend⟩

end Catalog

/-! ## Scanning under the two catalogs -/

namespace Operand

/-- The operand with the names known as registers: a text that is one of them, in any case, is the
register. -/
def relabel (names : List String) : Operand → Operand
  | text s => if lower s ∈ names then register (lower s) else text s
  | op => op

/-- The operand is a number or a mark, and so cannot become a register. -/
inductive Nameless : Operand → Prop
  | immediate (v : Int) (spelling : String) : Nameless (immediate v spelling)
  | mark {c : Char} (h : Lexeme.isRunChar c = false) : Nameless (text (String.singleton c))

variable {names : List String}

/-- What is no run cannot become a register. -/
theorem relabel_of_not_isRun (hnames : ∀ name ∈ names, Lexeme.IsRun name.toList) {s : String}
    (hs : ¬ Lexeme.IsRun s.toList) : relabel names (text s) = text s :=
  if_neg fun hmem => hs (isRun_lower_iff.1 (hnames _ hmem))

theorem relabel_mark (hnames : ∀ name ∈ names, Lexeme.IsRun name.toList) {c : Char}
    (hc : Lexeme.isRunChar c = false) :
    relabel names (text (String.singleton c)) = text (String.singleton c) := by
  refine relabel_of_not_isRun hnames ?_
  rw [String.toList_singleton]
  exact Lexeme.not_isRun_singleton hc

/-- A number or a mark comes only from itself. -/
theorem relabel_eq_iff (hnames : ∀ name ∈ names, Lexeme.IsRun name.toList) {op op' : Operand}
    (h : Nameless op) : relabel names op' = op ↔ op' = op := by
  constructor
  · intro heq
    cases op' with
    | text s =>
      rw [relabel] at heq
      split at heq
      · rw [← heq] at h
        cases h
      · exact heq
    | _ => exact heq
  · rintro rfl
    cases h with
    | immediate v spelling => rfl
    | mark hc => exact relabel_mark hnames hc

/-- A sign can stand after the same operands. -/
theorem allowsSign_relabel (hnames : ∀ name ∈ names, Lexeme.IsRun name.toList)
    (previous : Option Operand) :
    allowsSign (previous.map (relabel names)) = allowsSign previous := by
  cases previous with
  | none => rfl
  | some op =>
    cases op with
    | text s =>
      by_cases hrun : Lexeme.IsRun s.toList
      · -- No sign can follow a run, be it a word or a register.
        have hmark : allowsSign (some (text s)) = false := by
          rw [← Bool.not_eq_true]
          intro hsign
          have hmarks : ∀ mark ∈ [",", "(", "#", "[", "\x7b", "+"],
              mark.toList.all Lexeme.isRunChar = false := by decide
          have hnone := hmarks s (List.contains_iff_mem.1 hsign)
          rw [List.all_eq_true.2 hrun.chars] at hnone
          cases hnone
        rw [Option.map_some, relabel]
        split
        · exact hmark.symm
        · rfl
      · rw [Option.map_some, relabel_of_not_isRun hnames hrun]
    | _ => rfl

section

variable {catalog extended : Catalog}

/-- A word of the larger catalog is one of the smaller catalog or one of the names. -/
theorem ofWord_relabel
    (hext : ∀ name, name ∈ extended.names ↔ name ∈ catalog.names ∨ name ∈ names) (cs : List Char) :
    ofWord extended cs = relabel names (ofWord catalog cs) := by
  unfold ofWord Catalog.normalize?
  by_cases hold : lower (String.ofList cs) ∈ catalog.names
  · rw [if_pos hold, if_pos ((hext _).2 (.inl hold))]
    rfl
  · rw [if_neg hold]
    by_cases hnew : lower (String.ofList cs) ∈ names
    · rw [if_pos ((hext _).2 (.inr hnew))]
      exact (if_pos hnew).symm
    · have hneither : lower (String.ofList cs) ∉ extended.names := by
        rw [hext]
        exact not_or_intro hold hnew
      rw [if_neg hneither]
      exact (if_neg hnew).symm

/-- The two scans make the same step on each lexeme. -/
theorem ofLexemes_relabel (hnames : ∀ name ∈ names, Lexeme.IsRun name.toList)
    (hext : ∀ name, name ∈ extended.names ↔ name ∈ catalog.names ∨ name ∈ names)
    (previous : Option Operand) (lexemes : List Lexeme) (h : ∀ l ∈ lexemes, l.Lexical) :
    ofLexemes extended (previous.map (relabel names)) lexemes =
      (ofLexemes catalog previous lexemes).map (relabel names) := by
  have hmark {c : Char} (h : (Lexeme.mark c).Lexical) :
      relabel names (text (String.singleton c)) = text (String.singleton c) := by
    cases h with
    | mark hblank hrun => exact relabel_mark hnames hrun
  fun_induction ofLexemes catalog previous lexemes with
  | case1 => rfl
  | case2 previous c hsign spelling value rest op ih =>
    -- The sign goes into the number in both, so that no mark is left in either.
    obtain ⟨-, -, hrest⟩ := by simpa only [List.forall_mem_cons] using h
    have hsign' : c = '-' ∧ allowsSign (previous.map (relabel names)) = true := by
      rwa [allowsSign_relabel hnames]
    rw [ofLexemes, if_pos hsign', List.map_cons, ← ih hrest]
    rfl
  | case3 previous c hsign rest hnumber op ih =>
    obtain ⟨hlexical, hrest⟩ := List.forall_mem_cons.1 h
    have hsign' : c = '-' ∧ allowsSign (previous.map (relabel names)) = true := by
      rwa [allowsSign_relabel hnames]
    rw [ofLexemes, if_pos hsign', List.map_cons, ← ih hrest, Option.map_some, hmark hlexical]
    exact hnumber
  | case4 previous c rest hsign op ih =>
    obtain ⟨hlexical, hrest⟩ := List.forall_mem_cons.1 h
    have hsign' : ¬ (c = '-' ∧ allowsSign (previous.map (relabel names)) = true) := by
      rwa [allowsSign_relabel hnames]
    conv_lhs => unfold ofLexemes
    rw [if_neg hsign', List.map_cons, ← ih hrest, Option.map_some, hmark hlexical]
  | case5 previous spelling value rest op ih =>
    obtain ⟨-, hrest⟩ := List.forall_mem_cons.1 h
    rw [ofLexemes, List.map_cons, ← ih hrest]
    rfl
  | case6 previous cs rest op ih =>
    obtain ⟨-, hrest⟩ := List.forall_mem_cons.1 h
    rw [ofLexemes, List.map_cons, ← ih hrest, Option.map_some, ofWord_relabel hext]

end

/-- Adding registers never changes how operand text is cut. Every operand stays as it is, except
that a word becomes a register if it is one of the names added; numbers with their signs and marks
stand at the same places as before. Nor does it change whether a number is too long. -/
theorem scan_extend (catalog : Catalog) (given : List String) (s : String)
    (hvalid : ∀ name ∈ given, isRegisterName (strip name) = true) :
    ∃ extended, catalog.extend given = .ok extended ∧
      scan extended s = (scan catalog s).map (relabel (Catalog.keptNames given)) ∧
      (∀ (i : Nat) (op : Operand), Nameless op →
        ((scan extended s)[i]? = some op ↔ (scan catalog s)[i]? = some op)) ∧
      ∀ limits, read limits extended s =
        (read limits catalog s).map (List.map (relabel (Catalog.keptNames given))) := by
  obtain ⟨extended, hextend, hext⟩ := Catalog.exists_extend catalog hvalid
  have hnames : ∀ name ∈ Catalog.keptNames given, Lexeme.IsRun name.toList :=
    fun _ => Catalog.isRun_of_mem_keptNames hvalid
  have hscan : scan extended s = (scan catalog s).map (relabel (Catalog.keptNames given)) :=
    ofLexemes_relabel hnames hext none _ (Lexeme.lexical_scan s.toList)
  refine ⟨extended, hextend, hscan, ?_, ?_⟩
  · intro i op hop
    rw [hscan, List.getElem?_map, Option.map_eq_some_iff]
    simp only [relabel_eq_iff hnames hop, exists_eq_right]
  · -- The lexemes and so their lengths are the same, whatever the catalog is.
    intro limits
    rw [read, read, hscan]
    cases (Lexeme.scan s.toList).findSome? (Lexeme.fault? limits) <;> rfl

/-- The minus sign after `Acc` stands by itself, while that is a word and once it is a register. -/
theorem scan_extend_accumulator :
    isRegisterName (strip " ACC ") = true ∧
      scan ⟨["r0"]⟩ "-1,Acc -2 r0,-ACC" = [immediate (-1) "-1", text ",", text "Acc", text "-",
        immediate 2 "2", register "r0", text ",", text "-", text "ACC"] ∧
      ∃ extended, Catalog.extend ⟨["r0"]⟩ [" ACC "] = .ok extended ∧
        scan extended "-1,Acc -2 r0,-ACC" = [immediate (-1) "-1", text ",", register "acc",
          text "-", immediate 2 "2", register "r0", text ",", text "-", register "acc"] := by
  have hname : isRegisterName (strip " ACC ") = true := by decide +kernel
  have hvalid : ∀ name ∈ [" ACC "], isRegisterName (strip name) = true := by
    intro name hmem
    rw [List.mem_singleton.1 hmem]
    exact hname
  obtain ⟨extended, hextend, hscan, -⟩ := scan_extend ⟨["r0"]⟩ [" ACC "] "-1,Acc -2 r0,-ACC" hvalid
  refine ⟨hname, by decide +kernel, extended, hextend, hscan.trans ?_⟩
  decide +kernel

end Operand

end SleighForge
