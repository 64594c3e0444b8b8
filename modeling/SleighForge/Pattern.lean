import SleighForge.Encoding.Opening
import SleighForge.Encoding.Word
import SleighForge.Opcode
import SleighForge.Operand

/-!
# Instruction patterns

A pattern is one instruction: its mnemonic, its operands, the encoding of its words, and the
concrete instructions it stands for. A line of the instruction list gives a pattern without fields;
merging opens fields in it.
-/

namespace SleighForge

open Text

/-- A concrete instruction that a pattern stands for. -/
structure Example where
  opcode : Int
  width : Nat
  /-- Mnemonic and operands as read. -/
  text : String
  deriving DecidableEq, Repr

namespace Example

/-- The opcode in hexadecimal, with as many digits as its width asks for. -/
def opcodeDigits (e : Example) : String :=
  "0x" ++ hexText ((e.width + 3) / 4) e.opcode

/-- The opcode and the text of the instruction. -/
def display (e : Example) : String :=
  s!"{e.opcodeDigits} {e.text}"

end Example

/-- An instruction with its fields in place. -/
structure Pattern where
  mnemonic : String
  operands : List Operand
  encoding : Encoding
  /-- The position in the source of the first instruction the pattern stands for. -/
  index : Int
  examples : List Example
  placed : Encoding.Placed encoding
  deriving DecidableEq, Repr

/-- Why a pattern cannot be built. -/
inductive PatternFault where
  /-- The segments do not add up to the width. -/
  | coverage (mnemonic : String) (covered : Nat) (width : Int)
  /-- A field does not sit at its own slice. -/
  | misplaced (mnemonic : String) (field : String) (lo hi : Nat)
  deriving DecidableEq, Repr

/-- The message about a pattern. -/
def PatternFault.message : PatternFault → String
  | coverage m covered width => s!"encoding of '{m}' covers {covered} bits, expected {width}"
  | misplaced m field lo hi => s!"field {field} of '{m}' sits at [{lo}, {hi})"

namespace Pattern

/-- A mnemonic with operands, if there are any. -/
def instructionText (mnemonic : String) (operands : List Operand) : String :=
  let rendered := Operand.render operands
  if rendered.isEmpty then mnemonic else s!"{mnemonic} {rendered}"

/-- Builds a pattern from its parts, of which the width is a check. -/
def ofParts (mnemonic : String) (operands : List Operand) (encoding : Encoding) (width : Int)
    (index : Int) (examples : List Example) : Except PatternFault Pattern :=
  if (encoding.width : Int) = width then
    match h : Encoding.firstMisplaced? encoding with
    | some (f, lo, hi) => .error (.misplaced mnemonic f.name lo hi)
    | none =>
      .ok ⟨mnemonic, operands, encoding, index, examples,
        Encoding.placed_of_firstMisplaced?_eq_none h⟩
  else .error (.coverage mnemonic encoding.width width)

/-- The pattern of a concrete instruction, which is its own only example. -/
def concrete (mnemonic : String) (operands : List Operand) (word : BitRun) (index : Int) :
    Pattern where
  mnemonic
  operands
  encoding := [.bits word]
  index
  examples := [⟨word.value, word.width, instructionText mnemonic operands⟩]
  placed := ⟨trivial, trivial⟩

/-- The number of bits of its words. -/
def width (p : Pattern) : Nat :=
  p.encoding.width

/-- A pattern is built from its own parts. -/
theorem ofParts_eq (p : Pattern) :
    ofParts p.mnemonic p.operands p.encoding p.width p.index p.examples = .ok p := by
  have hwidth : (p.encoding.width : Int) = p.width := rfl
  rw [ofParts, if_pos hwidth]
  split
  · next hmisplaced =>
    rw [Encoding.firstMisplaced?_of_placed p.placed] at hmisplaced
    cases hmisplaced
  · rfl

/-- The operand fields, the most significant first. -/
def fields (p : Pattern) : List BitField :=
  p.encoding.fields

/-- The pattern stands for more than one concrete instruction by a field. -/
def hasFields (p : Pattern) : Bool :=
  !p.fields.isEmpty

/-- The word is made by some values of the fields. -/
def accepts (p : Pattern) (word : Int) : Bool :=
  p.encoding.accepts word

/-- The operands as text. -/
def operandsText (p : Pattern) : String :=
  Operand.render p.operands

/-- Mnemonic and operands as text. -/
def text (p : Pattern) : String :=
  instructionText p.mnemonic p.operands

/-- The bits and the text of the instruction. -/
def display (p : Pattern) : String :=
  s!"{p.encoding.text} {p.text}"

/-- What tells a pattern from others: all but its position and its examples, and without regard to
the spelling of numbers. -/
structure Identity where
  mnemonic : String
  operands : List Operand
  encoding : Encoding
  deriving DecidableEq

/-- What tells the pattern from others. -/
def identity (p : Pattern) : Identity :=
  ⟨p.mnemonic, p.operands.map Operand.bare, p.encoding⟩

/-- Opens a field in literal bits and lets it stand for the operand at a position. -/
def generalize (p : Pattern) (position : Nat) (f : BitField)
    (h : p.encoding.IsLiteral f.lo f.hi) (examples : List Example) : Pattern where
  mnemonic := p.mnemonic
  operands := p.operands.set position (.field f)
  encoding := p.encoding.opened f
  index := p.index
  examples
  placed := Encoding.placed_opened p.placed h

theorem width_generalize {p : Pattern} {position : Nat} {f : BitField}
    {h : p.encoding.IsLiteral f.lo f.hi} {examples : List Example} :
    (p.generalize position f h examples).width = p.width :=
  Encoding.width_opened p.placed h

/-- Replaces the ids of register tables in the operands and in the encoding. -/
def mapTable (g : Int → Int) (p : Pattern) : Pattern where
  mnemonic := p.mnemonic
  operands := p.operands.map (Operand.mapTable g)
  encoding := p.encoding.mapTable g
  index := p.index
  examples := p.examples
  placed := (Encoding.mapTable_placed g p.encoding).2 p.placed

end Pattern

end SleighForge
