import SleighForge.Catalog
import SleighForge.Literal
import SleighForge.Operand

/-!
# Scanning operand text

Operand text is cut into lexemes: maximal runs of word characters and dots, and single marks.
Blanks separate lexemes and are otherwise ignored. A run that is a numeric literal is a number, and
so is a dollar sign with the hexadecimal run after it. Every lexeme becomes an operand, except that
a minus sign before a number is taken into the number where a sign can stand.

What the operands of a text are (`Operand.scan`) does not depend on limits. Whether they are given
does (`Operand.read`): the value of a decimal number cannot be taken if it has too many digits.
-/

namespace SleighForge

open Text

/-- A lexeme of operand text. -/
inductive Lexeme where
  | number (spelling : List Char) (value : Nat)
  | word (cs : List Char)
  | mark (c : Char)
  deriving DecidableEq, Repr

namespace Lexeme

/-- A character of a run. -/
def isRunChar (c : Char) : Bool :=
  isWordChar c || c == '.'

/-- A run as a lexeme. -/
def ofRun (run : List Char) : Lexeme :=
  match Literal.value? run with
  | some value => number run value
  | none => word run

/-- The lexemes of a text. -/
def scan : List Char → List Lexeme
  | [] => []
  | c :: cs =>
    if isBlank c then scan cs
    else if isRunChar c then
      ofRun (c :: cs.takeWhile isRunChar) :: scan (cs.dropWhile isRunChar)
    else if c = '$' then
      match Literal.value? (c :: cs.takeWhile isRunChar) with
      | some value =>
        number (c :: cs.takeWhile isRunChar) value :: scan (cs.dropWhile isRunChar)
      | none => mark c :: scan cs
    else mark c :: scan cs
termination_by cs => cs.length
decreasing_by
  all_goals
    have := (List.dropWhile_suffix isRunChar (l := cs)).length_le
    simp only [List.length_cons]
    omega

/-- What is wrong with the length of a number, if anything is. -/
def fault? (limits : Limits) : Lexeme → Option LimitFault
  | number cs _ =>
    limits.digitsFault? (Literal.spelling cs).base (Literal.spelling cs).digits.length
  | word _ => none
  | mark _ => none

end Lexeme

namespace Operand

/-- A sign can stand at the start and after certain marks. -/
def allowsSign : Option Operand → Bool
  | none => true
  | some (text s) => [",", "(", "#", "[", "\x7b", "+"].contains s
  | some _ => false

/-- A word as an operand: a register if the catalog has it. -/
def ofWord (catalog : Catalog) (cs : List Char) : Operand :=
  match catalog.normalize? (String.ofList cs) with
  | some name => register name
  | none => text (String.ofList cs)

/-- The number of a lexeme. -/
def ofNumber (spelling : List Char) (value : Nat) : Operand :=
  immediate value (String.ofList spelling)

/-- The number of a lexeme after a minus sign. -/
def ofNegated (spelling : List Char) (value : Nat) : Operand :=
  immediate (-value) (String.ofList ('-' :: spelling))

/-- The operands of lexemes that follow the operand `previous`. -/
def ofLexemes (catalog : Catalog) (previous : Option Operand) : List Lexeme → List Operand
  | [] => []
  | .mark c :: rest =>
    if c = '-' ∧ allowsSign previous then
      match rest with
      | .number spelling value :: rest =>
        let op := ofNegated spelling value
        op :: ofLexemes catalog (some op) rest
      | rest =>
        let op := text (String.singleton c)
        op :: ofLexemes catalog (some op) rest
    else
      let op := text (String.singleton c)
      op :: ofLexemes catalog (some op) rest
  | .number spelling value :: rest =>
    let op := ofNumber spelling value
    op :: ofLexemes catalog (some op) rest
  | .word cs :: rest =>
    let op := ofWord catalog cs
    op :: ofLexemes catalog (some op) rest

/-- The operands of operand text. -/
def scan (catalog : Catalog) (s : String) : List Operand :=
  ofLexemes catalog none (Lexeme.scan s.toList)

/-- Reads operand text, up to the first number that is too long. -/
def read (limits : Limits) (catalog : Catalog) (s : String) : Except LimitFault (List Operand) :=
  match (Lexeme.scan s.toList).findSome? (Lexeme.fault? limits) with
  | some fault => .error fault
  | none => .ok (scan catalog s)

end Operand

end SleighForge
