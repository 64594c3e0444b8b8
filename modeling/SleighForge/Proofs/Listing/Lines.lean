import SleighForge.Listing
import SleighForge.Proofs.RegisterTable.Twin

/-!
# One line of a list

A line is blank or a comment, or it holds an instruction (`Listing.instruction?`), or it is
malformed (`Listing.fault?`), or a number of it exceeds a limit (`Listing.overrun?`). What reading
does with the line is said once for each of the four: a comment is passed over, an instruction is
kept with the warning about it, a malformed line ends a strict reading and goes to the collector of
a lenient one, and a number that exceeds a limit ends any reading. Without limits the last does not
occur (`Listing.overrun?_unbounded`).
-/

namespace SleighForge

/-- The collector with diagnostics and warnings after those that it has. -/
def Collector.gather (c : Collector) (errors : List Diagnostic) (warnings : List String) :
    Collector :=
  { c with errors := c.errors ++ errors, warnings := c.warnings ++ warnings }

/-! ## Without limits -/

/-- Without limits the operands of every text are read. -/
theorem Operand.read_unbounded (catalog : Catalog) (s : String) :
    read .unbounded catalog s = .ok (scan catalog s) := by
  have hnone : (Lexeme.scan s.toList).findSome? (Lexeme.fault? .unbounded) = none := by
    rw [List.findSome?_eq_none_iff]
    intro l _
    cases l <;> rfl
  rw [read, hnone]

/-- Without limits no opcode exceeds any. -/
theorem Opcode.parse_unbounded_ne_limit {text : String} {bitness : Nat} {fault : LimitFault} :
    parse .unbounded text bitness ≠ .error (.limit fault) := by
  -- A limit is looked at twice: for the figures of the width, and for the width they give.
  have hwidth (base count : Nat) (figures? : Option (List Nat)) :
      ∃ width, widthOf .unbounded bitness base count figures? = .ok width := by
    cases figures? with
    | none => exact ⟨_, rfl⟩
    | some figures => exact ⟨_, rfl⟩
  have hmake (value width : Nat) : make .unbounded value width ≠ .error (.limit fault) := by
    unfold make
    split
    · dsimp only [Limits.widthFault?_unbounded]
      split <;> rintro ⟨⟩
    · rintro ⟨⟩
  unfold parse
  split
  · rintro ⟨⟩
  · next base run figures? hparts =>
    dsimp only
    split
    · rintro ⟨⟩
    · obtain ⟨width, hok⟩ := hwidth base (run.filter (· != '_')).length figures?
      rw [hok]
      exact hmake _ _

namespace Listing

/-! ## What a line is -/

/-- The instruction of a line at the first position, if it holds one. -/
def instruction? (reader : Reader) (line : String) : Option Pattern :=
  if isBlankOrComment (chomp line) then none
  else (instructionOf reader (chomp line) 0).toOption.map Prod.fst

/-- Why the line is malformed, if it is. -/
def fault? (reader : Reader) (line : String) : Option LineFault :=
  if isBlankOrComment (chomp line) then none
  else
    match instructionOf reader (chomp line) 0 with
    | .error (.malformed fault) => some fault
    | _ => none

/-- What exceeds a limit in the line, if anything does. -/
def overrun? (reader : Reader) (line : String) : Option LimitFault :=
  if isBlankOrComment (chomp line) then none
  else
    match instructionOf reader (chomp line) 0 with
    | .error (.limit fault _) => some fault
    | _ => none

/-- The warning about a line with an instruction: its word is wider than the processor has it, and
the opcode does not say so with a slash. -/
def warning? (reader : Reader) (line : String) (lineNumber : Int) : Option String :=
  match instruction? reader line, columns? (chomp line) with
  | some p, some c =>
    if reader.bitness < p.width ∧ '/' ∉ c.opcode then
      some (widthWarning reader lineNumber (String.ofList c.opcode) p.width)
    else none
  | _, _ => none

variable {reader : Reader} {line : String} {p : Pattern} {fault : LineFault}
  {exceeded : LimitFault}

/-- A line holds an instruction if it is no comment and its columns are read. -/
theorem instruction?_eq_some_iff : instruction? reader line = some p ↔
    isBlankOrComment (chomp line) = false ∧
      ∃ wide, instructionOf reader (chomp line) 0 = .ok (p, wide) := by
  unfold instruction?
  cases isBlankOrComment (chomp line) with
  | true => simp
  | false => cases instructionOf reader (chomp line) 0 <;> simp [Except.toOption, Prod.ext_iff]

/-- A line is malformed if it is no comment and its columns are not what they should be. -/
theorem fault?_eq_some_iff : fault? reader line = some fault ↔
    isBlankOrComment (chomp line) = false ∧
      instructionOf reader (chomp line) 0 = .error (.malformed fault) := by
  unfold fault?
  cases isBlankOrComment (chomp line) with
  | true => simp
  | false =>
    cases instructionOf reader (chomp line) 0 with
    | error failure => cases failure <;> simp
    | ok x => simp

/-- A limit is exceeded in a line that is no comment, whether or not the width of its opcode has
been found suspicious before. -/
theorem overrun?_eq_some_iff : overrun? reader line = some exceeded ↔
    isBlankOrComment (chomp line) = false ∧
      ∃ wide, instructionOf reader (chomp line) 0 = .error (.limit exceeded wide) := by
  unfold overrun?
  cases isBlankOrComment (chomp line) with
  | true => simp
  | false =>
    cases instructionOf reader (chomp line) 0 with
    | error failure => cases failure <;> simp
    | ok x => simp

/-- A comment holds no instruction, whatever it says. -/
theorem instruction?_comment (h : isBlankOrComment (chomp line) = true) :
    instruction? reader line = none :=
  if_pos h

/-- A malformed line holds no instruction. -/
theorem instruction?_of_fault? (h : fault? reader line = some fault) :
    instruction? reader line = none := by
  obtain ⟨hline, hrun⟩ := fault?_eq_some_iff.1 h
  simp [instruction?, hline, hrun, Except.toOption]

/-- A line that is no comment and holds no instruction is malformed, or a number of it exceeds a
limit. -/
theorem exists_fault (hline : isBlankOrComment (chomp line) = false)
    (h : instruction? reader line = none) :
    (∃ fault, fault? reader line = some fault) ∨ ∃ fault, overrun? reader line = some fault := by
  cases hrun : instructionOf reader (chomp line) 0 with
  | error failure =>
    cases failure with
    | malformed fault => exact .inl ⟨fault, fault?_eq_some_iff.2 ⟨hline, hrun⟩⟩
    | limit fault wide => exact .inr ⟨fault, overrun?_eq_some_iff.2 ⟨hline, wide, hrun⟩⟩
  | ok x =>
    rw [instruction?_eq_some_iff.2 ⟨hline, x.2, hrun⟩] at h
    cases h

/-- Only an instruction is warned about. -/
theorem warning?_of_none (h : instruction? reader line = none) (n : Int) :
    warning? reader line n = none := by
  rw [warning?, h]

/-- The position has no part in what a line holds. -/
theorem instructionOf_eq (reader : Reader) (line : String) (index : Int) :
    instructionOf reader line index =
      (instructionOf reader line 0).map fun x => (x.1.reindex fun _ => index, x.2) := by
  unfold instructionOf
  cases columns? line with
  | none => rfl
  | some c =>
    dsimp only
    cases Opcode.parse reader.limits (String.ofList c.opcode) reader.bitness with
    | error fault => rfl
    | ok opcode => cases operandsOf reader.limits reader.catalog c.operands <;> rfl

/-- The warning that reading a line gives is the one about its width. -/
theorem warning?_eq {wide : Option (String × Nat)} (hline : isBlankOrComment (chomp line) = false)
    (hrun : instructionOf reader (chomp line) 0 = .ok (p, wide)) (n : Int) :
    warning? reader line n = wide.map fun x => widthWarning reader n x.1 x.2 := by
  rw [warning?, instruction?_eq_some_iff.2 ⟨hline, wide, hrun⟩]
  obtain ⟨c, opcode, operands, hcolumns, -, -, rfl, rfl⟩ := exists_columns_of_instructionOf hrun
  have hiff : isSuspicious reader (String.ofList c.opcode) opcode = true ↔
      reader.bitness < opcode.width ∧ '/' ∉ c.opcode := by
    simp [isSuspicious]
  rw [hcolumns]
  -- The width of the pattern is that of the opcode, so both ask the same.
  show (if reader.bitness < opcode.width ∧ '/' ∉ c.opcode then _ else _) = _
  by_cases hwide : reader.bitness < opcode.width ∧ '/' ∉ c.opcode
  · rw [if_pos hwide, if_pos (hiff.2 hwide)]
    rfl
  · rw [if_neg hwide, if_neg (mt hiff.1 hwide)]
    rfl

/-- Without limits none is exceeded. -/
theorem overrun?_unbounded (h : reader.limits = .unbounded) : overrun? reader line = none := by
  rw [Option.eq_none_iff_forall_ne_some]
  intro exceeded hexceeded
  obtain ⟨-, wide, hrun⟩ := overrun?_eq_some_iff.1 hexceeded
  unfold instructionOf at hrun
  rw [h] at hrun
  split at hrun
  · cases hrun
  · next c hcolumns =>
    dsimp only at hrun
    split at hrun
    · next fault hopcode =>
      -- The only fault of an opcode that is not put down to its line comes from a limit.
      cases fault with
      | limit fault => exact Opcode.parse_unbounded_ne_limit hopcode
      | _ => cases hrun
    · split at hrun
      · next fault hoperands =>
        unfold operandsOf at hoperands
        split at hoperands
        · cases hoperands
        · rw [Operand.read_unbounded] at hoperands
          cases hoperands
      · cases hrun

/-! ## Strictness

What a line says does not depend on whether the reading is strict. -/

theorem instructionOf_strict (reader : Reader) (b : Bool) (line : String) (index : Int) :
    instructionOf { reader with strict := b } line index = instructionOf reader line index := by
  unfold instructionOf
  rfl

theorem fault?_strict (reader : Reader) (b : Bool) (line : String) :
    fault? { reader with strict := b } line = fault? reader line := by
  rw [fault?, fault?, instructionOf_strict]

theorem overrun?_strict (reader : Reader) (b : Bool) (line : String) :
    overrun? { reader with strict := b } line = overrun? reader line := by
  rw [overrun?, overrun?, instructionOf_strict]

theorem instruction?_strict (reader : Reader) (b : Bool) (line : String) :
    instruction? { reader with strict := b } line = instruction? reader line := by
  rw [instruction?, instruction?, instructionOf_strict]

theorem warning?_strict (reader : Reader) (b : Bool) (line : String) (n : Int) :
    warning? { reader with strict := b } line n = warning? reader line n := by
  rw [warning?, warning?, instruction?_strict]
  cases instruction? reader line with
  | none => rfl
  | some p =>
    cases columns? (chomp line) with
    | none => rfl
    | some c => rfl

/-! ## Readings -/

/-- A comment is passed over, and only the line number goes on. -/
theorem readFrom_comment (hline : isBlankOrComment (chomp line) = true) (n : Int)
    (found : Listing) (c : Collector) (journal : Journal) (lines : List String) :
    readFrom reader n found c journal (line :: lines) =
      readFrom reader (n + 1) found c journal lines := by
  rw [readFrom]
  simp only [hline, if_true]

/-- An instruction is kept at the next position, with the warning about its width. -/
theorem readFrom_instruction (hline : instruction? reader line = some p) (n : Int)
    (found : Listing) (c : Collector) (journal : Journal) (lines : List String) :
    readFrom reader n found c journal (line :: lines) =
      readFrom reader (n + 1) { found with
        patterns := found.patterns ++ [p.reindex fun _ => found.patterns.length] }
        (c.gather [] (warning? reader line n).toList) journal lines := by
  obtain ⟨hcomment, wide, hrun⟩ := instruction?_eq_some_iff.1 hline
  rw [readFrom, warning?_eq hcomment hrun]
  simp only [hcomment, readLine, instructionOf_eq reader (chomp line) found.patterns.length,
    hrun, Except.map, Bool.false_eq_true, if_false]
  cases wide with
  | none => simp [Collector.gather, warnWide]
  | some x => simp [Collector.gather, Collector.warn, warnWide]

/-- A malformed line ends a strict reading, and a lenient one if its diagnostic is the last that the
collector takes. -/
theorem readFrom_malformed (hline : fault? reader line = some fault) (n : Int) (found : Listing)
    (c : Collector) (journal : Journal) (lines : List String) :
    readFrom reader n found c journal (line :: lines) =
      let d := diagnose reader n (chomp line) fault
      if reader.strict then ⟨.error (.malformed d), c, journal⟩
      else if (c.add d).isFull then
        ⟨.error (.tooMany (c.add d).overflow), c.add d, journal ++ [skipRemark n d]⟩
      else readFrom reader (n + 1) { found with skipped := found.skipped + 1 } (c.add d)
        (journal ++ [skipRemark n d]) lines := by
  obtain ⟨hcomment, hrun⟩ := fault?_eq_some_iff.1 hline
  rw [readFrom]
  simp only [hcomment, readLine, instructionOf_eq reader (chomp line) found.patterns.length,
    hrun, Except.map, Bool.false_eq_true, if_false]

/-- A number that exceeds a limit ends every reading. -/
theorem readFrom_overrun (hline : overrun? reader line = some exceeded) (n : Int)
    (found : Listing) (c : Collector) (journal : Journal) (lines : List String) :
    (readFrom reader n found c journal (line :: lines)).result = .error (.limit exceeded) := by
  obtain ⟨hcomment, wide, hrun⟩ := overrun?_eq_some_iff.1 hline
  rw [readFrom]
  simp only [hcomment, readLine, instructionOf_eq reader (chomp line) found.patterns.length,
    hrun, Except.map, Bool.false_eq_true, if_false]

end Listing

end SleighForge
