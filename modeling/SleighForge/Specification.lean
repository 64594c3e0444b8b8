import SleighForge.LanguageFiles
import SleighForge.Model

/-!
# The specification

The text of a processor specification: byte order and spaces, registers, tokens with their fields,
register tables attached to fields, and one constructor for each pattern. A constructor displays
the operands and constrains the opcode fields of its layout. Numbers are printed whatever their
length: only readers have limits here.
-/

namespace SleighForge

/-- An operand is a field that the layout does not have. -/
structure MissingField where
  name : String
  deriving DecidableEq, Repr

namespace Specification

/-! ## Constructors -/

/-- Marks that a display section shows without quotes. -/
def bareMarks : List String :=
  [",", "[", "]", "(", ")", "+", "-", "*", "#", "!", ":", "\x7b", "\x7d"]

/-- The item is a mark that needs no quotes. -/
def isBare (item : String) : Bool :=
  bareMarks.contains item

/-- An operand as an item of the display section. Quoted text has single quotes for double ones. -/
def displayItem (l : Layout) (op : Operand) : Except MissingField String :=
  match op with
  | .field f =>
    match l.tokenField? f with
    | some field => .ok field.name
    | none => .error ⟨f.name⟩
  | op =>
    let quoted := op.display.map fun c => if c = '"' then '\'' else c
    match op with
    | .text s => if isBare s then .ok s else .ok ("\"" ++ quoted ++ "\"")
    | _ => .ok ("\"" ++ quoted ++ "\"")

/-- What stands between two items: the space that the operand text has there, or a caret that joins
them if neither is a bare mark. -/
def separator (previous op : Operand) (previousItem item : String) : String :=
  if previous = .text "," then " "
  else if previous.isWord && op.isWord then " "
  else if !isBare previousItem && !isBare item then "^"
  else ""

/-- The items of operands after an operand and its item. -/
def displayAfter (l : Layout) (previous : Operand) (previousItem : String) :
    List Operand → Except MissingField String
  | [] => .ok ""
  | op :: rest => do
    let item ← displayItem l op
    return separator previous op previousItem item ++ item ++ (← displayAfter l op item rest)

/-- The items of operands, after a space if there are any. -/
def displayOperands (l : Layout) : List Operand → Except MissingField String
  | [] => .ok ""
  | op :: rest => do
    let item ← displayItem l op
    return " " ++ item ++ (← displayAfter l op item rest)

/-- The display section of a constructor. -/
def displayText (p : Pattern) (l : Layout) : Except MissingField String :=
  (displayOperands l p.operands).map (p.mnemonic ++ ·)

/-- An opcode field with its value. -/
def constraintText (r : Region) (value : Nat) : String :=
  s!"{r.field.name}=0x" ++ Text.hexText 0 value

/-- The pattern section of a constructor: the opcode fields with their values, then the operand
fields. -/
def constraintsText (l : Layout) : String :=
  let constraints := l.regions.filterMap fun r => r.value?.map (constraintText r)
  let operands := l.regions.filterMap fun r => r.operand?.map fun _ => r.field.name
  " & ".intercalate (constraints ++ operands)

/-- The number of examples that a constructor shows. -/
def maxExamples : Nat := 4

/-- The comments before a constructor. -/
def commentLines (c : Config) (p : Pattern) : List String :=
  let opcode := if c.omitOpcodes then [] else [s!"# opcode: {p.encoding.text}"]
  let hidden := p.examples.length - maxExamples
  let examples :=
    if c.omitExamples then []
    else
      (p.examples.take maxExamples).map (fun e => s!"# example: {e.display}")
        ++ if hidden = 0 then [] else [s!"# ... {hidden} more"]
  opcode ++ examples

/-- The lines of a constructor, with its comments. -/
def constructorLines (c : Config) (p : Pattern) (l : Layout) :
    Except MissingField (List String) := do
  let display ← displayText p l
  return commentLines c p ++ [s!":{display} is {constraintsText l}", "\x7b", "\x7d", ""]

/-! ## Declarations -/

/-- The registers to define: those in use, then the program counter and the stack pointer. -/
def declaredRegisters (m : Model) : List String :=
  distinct (m.usedRegisters ++ [programCounter, stackPointer])

/-- Higher fields first, of those longer ones first, then by name. -/
def fieldLe (a b : TokenField) : Bool :=
  b.hi < a.hi || (a.hi == b.hi && (a.lo < b.lo || (a.lo == b.lo && decide (a.name ≤ b.name))))

/-- The attribute of a token field. -/
def fieldAttribute (f : TokenField) : String :=
  match f.role with
  | .immediate true => " signed"
  | .immediate false => " hex"
  | _ => ""

/-- The line of a token field, with its lowest and highest bit. -/
def fieldLine (f : TokenField) : String :=
  s!"  {f.name} = ({f.lo}, {f.hi - 1}){fieldAttribute f}"

/-- The declaration of a token, padded to whole bytes. -/
def tokenLines (t : Token) : List String :=
  s!"define token {t.name} ({t.byteSize * 8})" ::
    (t.fields.mergeSort fieldLe).map fieldLine ++ [";", ""]

/-- The fields of all tokens that select from a table. -/
def fieldsOfTable (m : Model) (id : Int) : List String :=
  (m.tokens.flatMap Token.fields).filterMap fun f =>
    if f.table? = some id then some f.name else none

/-- The registers of a table for every selector, with an underscore where there is none. -/
def paddedRegisters (t : RegisterTable) : List String :=
  let missing := 2 ^ t.selectorWidth - t.registers.length
  (t.registers ++ List.replicate missing none).map fun r : Option String => r.getD "_"

/-- The statement that attaches a table to its fields, if it has any. -/
def attachLines (m : Model) (t : RegisterTable) : List String :=
  match fieldsOfTable m t.id with
  | [] => []
  | names =>
    let fields := " ".intercalate (names.mergeSort fun a b => a ≤ b)
    let registers := " ".intercalate (paddedRegisters t)
    [s!"# {t.name}", s!"attach variables [ {fields} ] [ {registers} ];"]

/-- The statements for all tables, in the order of their ids. -/
def attachSection (m : Model) : List String :=
  match m.tables.toList.flatMap (attachLines m) with
  | [] => []
  | lines => lines ++ [""]

/-- The lines before the tokens. -/
def headerLines (m : Model) : List String :=
  let c := m.config
  let registers := " ".intercalate (declaredRegisters m)
  [s!"# {c.name} ({c.family})",
   "# Generated by gpmg",
   "",
   s!"define endian={c.byteOrder.name};",
   s!"define alignment={c.alignment};",
   "",
   s!"define space ram type=ram_space size={c.addressBytes} default;",
   "define space register type=register_space size=4;",
   "",
   s!"define register offset=0x0000 size={c.addressBytes} [",
   s!"  {registers}",
   "];",
   ""]

/-- The text of the specification. -/
def render (m : Model) : Except MissingField String := do
  let constructors ← (m.patterns.zip m.layouts).mapM fun (p, l) => constructorLines m.config p l
  return "\n".intercalate
    (headerLines m ++ m.tokens.flatMap tokenLines ++ attachSection m ++ constructors.flatten)

end Specification

end SleighForge
