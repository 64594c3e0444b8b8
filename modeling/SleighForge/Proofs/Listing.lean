import SleighForge.Listing
import SleighForge.Proofs.Model.Steps

/-!
# Patterns as they are read

A list that is read gives the patterns of concrete instructions, whose registers the catalog knows
(`read_ok`). A name keeps its lower case when it is put into lower case again, so a register that
was found in the catalog is found there under its name.
-/

namespace SleighForge

/-! ## Lower case -/

theorem toNat_toLower (c : Char) :
    c.toLower.toNat = if 65 ≤ c.toNat ∧ c.toNat ≤ 90 then c.toNat + 32 else c.toNat := by
  unfold Char.toLower
  simp only [Char.toNat, ge_iff_le, UInt32.le_iff_toNat_le]
  split
  · next h =>
    have hupper : 65 ≤ c.val.toNat ∧ c.val.toNat ≤ 90 := h
    have hsum : (c.val + ('a'.val - 'A'.val)).toNat = (c.val.toNat + 32) % 2 ^ 32 :=
      UInt32.toNat_add ..
    rw [if_pos hupper, hsum]
    omega
  · next h =>
    have hother : ¬ (65 ≤ c.val.toNat ∧ c.val.toNat ≤ 90) := h
    rw [if_neg hother]

theorem toLower_toLower (c : Char) : c.toLower.toLower = c.toLower := by
  have hlower := toNat_toLower c
  apply Char.toNat_inj.1
  rw [toNat_toLower c.toLower, if_neg]
  split at hlower <;> omega

theorem lowerChar_lowerChar (c : Char) : lowerChar (lowerChar c) = lowerChar c := by
  -- A letter in lower case is neither between A and Z nor the Kelvin sign.
  by_cases hc : c = '\u212A'
  · rw [hc]
    decide
  · have hlower := toNat_toLower c
    have hne : c.toLower ≠ '\u212A' := by
      intro heq
      rw [heq] at hlower
      split at hlower
      · have hkelvin : '\u212A'.toNat = 8490 := rfl
        omega
      · exact hc (Char.toNat_inj.1 hlower.symm)
    rw [lowerChar, lowerChar, if_neg hc, if_neg hne, toLower_toLower]

theorem lower_lower (s : String) : lower (lower s) = lower s := by
  simp [lower, Function.comp_def, lowerChar_lowerChar]

/-- A name that the catalog has given is known under itself. -/
theorem Catalog.contains_of_normalize? {c : Catalog} {name reg : String}
    (h : c.normalize? name = some reg) : c.contains reg = true := by
  rcases normalize?_eq_some_iff.1 h with ⟨rfl, hmem⟩
  have hself : c.normalize? (lower name) = some (lower name) :=
    normalize?_eq_some_iff.2 ⟨lower_lower name, hmem⟩
  rw [contains, hself]
  rfl

/-! ## Operands -/

/-- The operand is no field, and the catalog knows it if it is a register. -/
def Operand.Scanned (catalog : Catalog) (op : Operand) : Prop :=
  op.field? = none ∧ ∀ name, op = .register name → catalog.contains name = true

namespace Operand

theorem scanned_text (catalog : Catalog) (s : String) : (text s).Scanned catalog :=
  ⟨rfl, fun _ h => by cases h⟩

theorem scanned_immediate (catalog : Catalog) (v : Int) (spelling : String) :
    (immediate v spelling).Scanned catalog :=
  ⟨rfl, fun _ h => by cases h⟩

/-- A word is a register of the catalog or text. -/
theorem scanned_ofWord (catalog : Catalog) (cs : List Char) :
    (ofWord catalog cs).Scanned catalog := by
  unfold ofWord
  split
  · next reg h =>
    refine ⟨rfl, ?_⟩
    intro name heq
    cases heq
    exact Catalog.contains_of_normalize? h
  · exact scanned_text ..

/-- Operands that are made of lexemes are as a scan leaves them. -/
theorem scanned_ofLexemes (catalog : Catalog) (previous : Option Operand) (lexemes : List Lexeme) :
    ∀ op ∈ ofLexemes catalog previous lexemes, op.Scanned catalog := by
  fun_induction ofLexemes catalog previous lexemes with
  | case1 => simp
  | case2 previous c hsign spelling value rest op ih =>
    exact List.forall_mem_cons.2 ⟨scanned_immediate .., ih⟩
  | case3 previous c hsign rest hrest op ih =>
    exact List.forall_mem_cons.2 ⟨scanned_text .., ih⟩
  | case4 previous c rest hsign op ih => exact List.forall_mem_cons.2 ⟨scanned_text .., ih⟩
  | case5 previous spelling value rest op ih =>
    exact List.forall_mem_cons.2 ⟨scanned_immediate .., ih⟩
  | case6 previous cs rest op ih => exact List.forall_mem_cons.2 ⟨scanned_ofWord .., ih⟩

end Operand

namespace Listing

/-! ## Lines -/

/-- Operands that are read are those of the text. -/
theorem eq_scan_of_operandsOf {limits : Limits} {catalog : Catalog} {cs : List Char}
    {operands : List Operand} (h : operandsOf limits catalog cs = .ok operands) :
    operands = [] ∨ operands = Operand.scan catalog (String.ofList cs) := by
  unfold operandsOf at h
  split at h
  · cases h
    exact .inl rfl
  · unfold Operand.read at h
    split at h
    · cases h
    · cases h
      exact .inr rfl

theorem scanned_operandsOf {limits : Limits} {catalog : Catalog} {cs : List Char}
    {operands : List Operand} (h : operandsOf limits catalog cs = .ok operands) :
    ∀ op ∈ operands, op.Scanned catalog := by
  rcases eq_scan_of_operandsOf h with rfl | rfl
  · exact fun op hop => absurd hop List.not_mem_nil
  · exact Operand.scanned_ofLexemes _ _ _

/-- The pattern is that of an instruction whose registers the catalog knows. -/
def IsInstruction (catalog : Catalog) (p : Pattern) : Prop :=
  ∃ i : Instruction, i.pattern = p ∧ ∀ name, .register name ∈ i.operands →
    catalog.contains name = true

/-- What is read from the columns of a line is an instruction. -/
theorem instructionOf_ok {reader : Reader} {line : String} {index : Int} {p : Pattern}
    {wide : Option (String × Nat)} (h : instructionOf reader line index = .ok (p, wide)) :
    IsInstruction reader.catalog p := by
  obtain ⟨c, opcode, operands, -, -, hoperands, rfl, -⟩ := exists_columns_of_instructionOf h
  have hscanned := scanned_operandsOf hoperands
  exact ⟨⟨_, _, _, index, fun op hop => (hscanned op hop).1⟩, rfl, fun name hname =>
    (hscanned _ hname).2 name rfl⟩

/-- A line that is read is an instruction. -/
theorem readLine_ok {reader : Reader} {lineNumber index : Int} {line : String}
    {collector collector' : Collector} {p : Pattern}
    (h : readLine reader lineNumber line index collector = (.ok p, collector')) :
    IsInstruction reader.catalog p := by
  unfold readLine at h
  split at h
  · cases h
  · cases h
  · next hline =>
    cases h
    exact instructionOf_ok hline

theorem readFrom_ok {reader : Reader} {lineNumber : Int} {found listing : Listing}
    {collector : Collector} {journal : Journal} {lines : List String}
    (hfound : ∀ p ∈ found.patterns, IsInstruction reader.catalog p)
    (h : (readFrom reader lineNumber found collector journal lines).result = .ok listing) :
    ∀ p ∈ listing.patterns, IsInstruction reader.catalog p := by
  fun_induction readFrom reader lineNumber found collector journal lines with
  | case1 =>
    cases h
    exact hfound
  | case2 _ _ _ _ _ _ _ _ ih => exact ih hfound h
  | case3 _ _ _ _ _ _ _ _ _ _ hline ih =>
    -- The one step that adds a pattern adds that of the line.
    refine ih ?_ h
    intro q hq
    rcases List.mem_append.1 hq with hq | hq
    · exact hfound q hq
    · rw [List.mem_singleton.1 hq]
      exact readLine_ok hline
  | case4 => cases h
  | case5 => cases h
  | case6 _ _ _ _ _ _ _ _ _ _ _ _ _ _ _ ih => exact ih hfound h
  | case7 => cases h

/-- A list that is read gives concrete instructions whose registers the catalog knows. -/
theorem read_ok {reader : Reader} {lines : List String} {collector : Collector} {listing : Listing}
    (h : (read reader lines collector).result = .ok listing) :
    ∃ instructions : List Instruction, listing.patterns = instructions.map Instruction.pattern ∧
      ∀ i ∈ instructions, ∀ name, .register name ∈ i.operands →
        reader.catalog.contains name = true := by
  have hall := readFrom_ok (fun p hp => absurd hp List.not_mem_nil) h
  -- On the patterns alone: the rest of a listing is no listing.
  generalize listing.patterns = patterns at hall
  induction patterns with
  | nil => exact ⟨[], rfl, fun i hi => absurd hi List.not_mem_nil⟩
  | cons p patterns ih =>
    rcases List.forall_mem_cons.1 hall with ⟨hhead, htail⟩
    rcases hhead with ⟨i, rfl, hi⟩
    rcases ih htail with ⟨is, rfl, his⟩
    exact ⟨i :: is, rfl, List.forall_mem_cons.2 ⟨hi, his⟩⟩

end Listing

end SleighForge
