import SleighForge.Diagnostic
import SleighForge.Journal
import SleighForge.Operand.Scan
import SleighForge.Pattern

/-!
# Instruction lists

An instruction list has one concrete instruction a line: the opcode, the mnemonic and the operands,
with comments after a semicolon. Lines that are blank or begin with a comment mark are skipped.
Reading is strict, where the first malformed line ends it, or lenient, where malformed lines go to
a collector. A number that exceeds a limit is no fault of its line and ends a lenient reading, too.
-/

namespace SleighForge

open Text

/-- Why a line is malformed. -/
inductive LineFault where
  /-- There is no opcode with a mnemonic after it. -/
  | incomplete
  /-- The opcode cannot be read. -/
  | opcode (text : String) (fault : OpcodeFault)
  deriving DecidableEq, Repr

namespace LineFault

/-- The message about a line. -/
def message : LineFault → String
  | incomplete => "expected an opcode followed by a mnemonic"
  | opcode text fault => fault.message text

/-- How to mend the line. -/
def hint : LineFault → String
  | incomplete => "each line needs an opcode followed by a mnemonic"
  | opcode .. => "use binary digits, 0b..., or 0x... hex"

end LineFault

/-- Why no instruction is read from a line. -/
inductive LineFailure where
  /-- The line is malformed. -/
  | malformed (fault : LineFault)
  /-- A number of the line exceeds a limit. Its opcode may have been read before, with the width
  that it has if that is suspicious. -/
  | limit (fault : LimitFault) (wide : Option (String × Nat))
  deriving DecidableEq, Repr

/-- Why reading a list ended early. -/
inductive ListingFault where
  /-- A malformed line, in a strict reading. -/
  | malformed (d : Diagnostic)
  /-- As many malformed lines as the collector takes. -/
  | tooMany (d : Diagnostic)
  /-- A number that exceeds a limit, in any reading. -/
  | limit (fault : LimitFault)
  deriving DecidableEq, Repr

/-- The message about a list. -/
def ListingFault.message : ListingFault → String
  | malformed d => d.display
  | tooMany d => d.display
  | limit fault => fault.message

/-- The settings of a reading. -/
structure Reader where
  catalog : Catalog
  bitness : Nat
  filename : String := "<input>"
  strict : Bool := true
  limits : Limits := .standard

/-- What a reading has found. -/
structure Listing where
  patterns : List Pattern := []
  /-- The number of malformed lines that were skipped. -/
  skipped : Nat := 0

namespace Listing

/-- A line without instruction: blank, or a comment as a whole. -/
def isBlankOrComment (line : String) : Bool :=
  match trim isBlank line.toList with
  | [] => true
  | '#' :: _ => true
  | ';' :: _ => true
  | '/' :: '/' :: _ => true
  | _ => false

/-- The columns of a line: opcode and mnemonic, and operand text if there is any. -/
structure Columns where
  opcode : List Char
  mnemonic : List Char
  operands : List Char
  deriving DecidableEq, Repr

/-- The columns of a line up to its first semicolon. -/
def columns? (line : String) : Option Columns :=
  match trim isBlank (line.toList.takeWhile (· != ';')) with
  | [] => none
  | cs =>
    let (opcode, rest) := firstWord cs
    match rest with
    | [] => none
    | rest =>
      let (mnemonic, operands) := firstWord rest
      some ⟨opcode, mnemonic, operands⟩

/-- The operands of operand text, of which there may be none. -/
def operandsOf (limits : Limits) (catalog : Catalog) (cs : List Char) :
    Except LimitFault (List Operand) :=
  if cs.isEmpty then .ok [] else Operand.read limits catalog (String.ofList cs)

/-- The opcode is wider than the processor and does not say so itself. -/
def isSuspicious (reader : Reader) (text : String) (opcode : Opcode) : Bool :=
  reader.bitness < opcode.width && !text.toList.contains '/'

/-- What a fault in the opcode is for the line. The column is no opcode if its number after the
slash is too long, but a width that no word can have is noticed only when the word is made. -/
def opcodeFailure (text : String) : OpcodeFault → LineFailure
  | .limit .bits => .limit .bits none
  | fault => .malformed (.opcode text fault)

/-- The pattern of a line that is no comment, and whether its width is suspicious. -/
def instructionOf (reader : Reader) (line : String) (index : Int) :
    Except LineFailure (Pattern × Option (String × Nat)) :=
  match columns? line with
  | none => .error (.malformed .incomplete)
  | some c =>
    let text := String.ofList c.opcode
    match Opcode.parse reader.limits text reader.bitness with
    | .error fault => .error (opcodeFailure text fault)
    | .ok opcode =>
      let word : BitRun := ⟨opcode.value, opcode.width, opcode.width_pos, opcode.value_lt⟩
      let wide := if isSuspicious reader text opcode then some (text, opcode.width) else none
      match operandsOf reader.limits reader.catalog c.operands with
      | .error fault => .error (.limit fault wide)
      | .ok operands =>
        .ok (Pattern.concrete (String.ofList c.mnemonic) operands word index, wide)

/-- An instruction is made of the columns of its line: the opcode and the operands were read. -/
theorem exists_columns_of_instructionOf {reader : Reader} {line : String} {index : Int}
    {p : Pattern} {wide : Option (String × Nat)}
    (h : instructionOf reader line index = .ok (p, wide)) :
    ∃ c opcode operands, columns? line = some c ∧
      Opcode.parse reader.limits (String.ofList c.opcode) reader.bitness = .ok opcode ∧
      operandsOf reader.limits reader.catalog c.operands = .ok operands ∧
      p = Pattern.concrete (String.ofList c.mnemonic) operands
        ⟨opcode.value, opcode.width, opcode.width_pos, opcode.value_lt⟩ index ∧
      wide = if isSuspicious reader (String.ofList c.opcode) opcode then
        some (String.ofList c.opcode, opcode.width) else none := by
  unfold instructionOf at h
  split at h
  · cases h
  · next c hcolumns =>
    dsimp only at h
    split at h
    · cases h
    · next opcode hopcode =>
      split at h
      · cases h
      · next operands hoperands =>
        cases h
        exact ⟨c, opcode, operands, hcolumns, hopcode, hoperands, rfl, rfl⟩

/-- The warning about a suspicious width. -/
def widthWarning (reader : Reader) (line : Int) (text : String) (width : Nat) : String :=
  let place : Location := ⟨reader.filename, line⟩
  s!"{place.display}: opcode '{text}' is {width} bits wide, " ++
    s!"more than the configured bitness of {reader.bitness}"

/-- The diagnostic about a malformed line. -/
def diagnose (reader : Reader) (lineNumber : Int) (line : String) (fault : LineFault) :
    Diagnostic :=
  ⟨fault.message, some ⟨reader.filename, lineNumber⟩, some (strip line), some fault.hint⟩

/-- The collector with the warning about a suspicious width, if it is one. -/
def warnWide (reader : Reader) (lineNumber : Int) (wide : Option (String × Nat))
    (collector : Collector) : Collector :=
  match wide with
  | none => collector
  | some (text, width) => collector.warn (widthWarning reader lineNumber text width)

/-- Reads one line, with a warning to the collector if its width is suspicious. -/
def readLine (reader : Reader) (lineNumber : Int) (line : String) (index : Int)
    (collector : Collector) : Except ListingFault Pattern × Collector :=
  match instructionOf reader line index with
  | .error (.malformed fault) =>
    (.error (.malformed (diagnose reader lineNumber line fault)), collector)
  | .error (.limit fault wide) =>
    (.error (.limit fault), warnWide reader lineNumber wide collector)
  | .ok (p, wide) => (.ok p, warnWide reader lineNumber wide collector)

/-- A line without the line ends at its end. -/
def chomp (line : String) : String :=
  String.ofList (trimEnd (fun c => c == '\r' || c == '\n') line.toList)

/-- What a reading leaves behind, also one that ends early. -/
structure Outcome where
  result : Except ListingFault Listing
  collector : Collector
  journal : Journal

/-- The remark about a skipped line. -/
def skipRemark (lineNumber : Int) (d : Diagnostic) : Remark :=
  ⟨.debug, s!"Skipping line {lineNumber}: {d.message}"⟩

/-- The remark at the end of a reading. -/
def endRemark (reader : Reader) (l : Listing) : Remark :=
  ⟨.debug, s!"Parsed {l.patterns.length} instructions from {reader.filename} " ++
    s!"({l.skipped} skipped)"⟩

/-- Reads lines from the given line number on, after what has been found so far. -/
def readFrom (reader : Reader) (lineNumber : Int) (found : Listing) (collector : Collector)
    (journal : Journal) : List String → Outcome
  | [] => ⟨.ok found, collector, journal ++ [endRemark reader found]⟩
  | raw :: lines =>
    let line := chomp raw
    if isBlankOrComment line then readFrom reader (lineNumber + 1) found collector journal lines
    else
      match readLine reader lineNumber line found.patterns.length collector with
      | (.ok p, collector) =>
        readFrom reader (lineNumber + 1) { found with patterns := found.patterns ++ [p] }
          collector journal lines
      | (.error (.malformed d), collector) =>
        if reader.strict then ⟨.error (.malformed d), collector, journal⟩
        else
          let collector := collector.add d
          let journal := journal ++ [skipRemark lineNumber d]
          if collector.isFull then ⟨.error (.tooMany collector.overflow), collector, journal⟩
          else
            readFrom reader (lineNumber + 1) { found with skipped := found.skipped + 1 }
              collector journal lines
      | (.error fault, collector) => ⟨.error fault, collector, journal⟩

/-- Reads an instruction list. -/
def read (reader : Reader) (lines : List String) (collector : Collector) : Outcome :=
  readFrom reader 1 {} collector [] lines

end Listing

end SleighForge
