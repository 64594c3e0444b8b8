import SleighForge.BitField
import SleighForge.Text.WordChar

/-!
# Operands

Operand text is a sequence of pieces: literal text, registers, numbers and, once instructions have
been merged, fields. Rendering puts the pieces back together, with a space between words and after
a comma.
-/

namespace SleighForge

open Text

/-- A piece of operand text. -/
inductive Operand where
  /-- Literal text: punctuation, keywords and unknown names. -/
  | text (s : String)
  /-- A register, by its name in the catalog. -/
  | register (name : String)
  /-- A number, with its spelling where that is known. -/
  | immediate (value : Int) (spelling : String)
  /-- A placeholder for the operands of merged instructions. -/
  | field (f : BitField)
  deriving DecidableEq, Repr

namespace Operand

/-- The operand without the spelling of a number. -/
def bare : Operand → Operand
  | immediate v _ => immediate v ""
  | op => op

/-- Two operands are the same if they differ at most in how a number is spelled. -/
def Same (a b : Operand) : Prop :=
  a.bare = b.bare

instance (a b : Operand) : Decidable (Same a b) :=
  inferInstanceAs (Decidable (a.bare = b.bare))

/-- The piece as it is shown. -/
def display : Operand → String
  | text s => s
  | register name => name
  | immediate v spelling => if spelling.isEmpty then toString v else spelling
  | field f => f.name

/-- The piece is a word, so that a space is needed between it and another word. Literal text is a
word unless it begins with punctuation. -/
def isWord : Operand → Bool
  | text s =>
    match s.toList with
    | [] => true
    | c :: _ => isAlphanumeric c || c == '_' || c == '.' || c == '$'
  | _ => true

/-- The space between two adjacent pieces. -/
def gap (a b : Operand) : String :=
  if a = text "," then " " else if a.isWord && b.isWord then " " else ""

/-- The pieces put together. -/
def render : List Operand → String
  | [] => ""
  | [a] => a.display
  | a :: b :: rest => a.display ++ gap a b ++ render (b :: rest)

/-- The field of a placeholder. -/
def field? : Operand → Option BitField
  | field f => some f
  | _ => none

/-- The name of a register operand. -/
def register? : Operand → Option String
  | register name => some name
  | _ => none

/-- The name an operand goes by: that of a register, or of a field in its place. -/
def name? : Operand → Option String
  | register name => some name
  | field f => some f.name
  | _ => none

/-- The value of a number. -/
def immediate? : Operand → Option Int
  | immediate v _ => some v
  | _ => none

/-- Replaces the ids of register tables. -/
def mapTable (g : Int → Int) : Operand → Operand
  | field f => field (f.mapTable g)
  | op => op

end Operand

end SleighForge
