import SleighForge.Text.Numeral

/-!
# Numeric literals

Assemblers spell numbers in several ways: `12`, `0x1F`, `$1F`, `1Fh`, `0b101`, `0o17`. A spelling
splits into a base and digits in that base. Operand text holds a literal only where the digits are
plain ASCII digits of the base (`value?`); a number given on its own may be spelled more freely
(`ofText`). Both have the same value where both are there, but a literal of operand text is found
whatever its length, and only taking its value has limits (`Lexeme.fault?`).
-/

namespace SleighForge.Literal

open Text

/-- A numeric spelling taken apart. -/
structure Spelling where
  base : Nat
  digits : List Char
  deriving DecidableEq, Repr

/-- The digits before a closing `h`, if there is one. -/
def beforeH? (cs : List Char) : Option (List Char) :=
  match cs.reverse with
  | 'h' :: rest => some rest.reverse
  | 'H' :: rest => some rest.reverse
  | _ => none

/-- The base and the digits a spelling denotes. A closing `h` after a first digit wins over a
marker, so `0b1h` is hexadecimal. -/
def spelling (cs : List Char) : Spelling :=
  match (if (cs.head?.map isDecimal).getD false then beforeH? cs else none) with
  | some digits => ⟨16, digits⟩
  | none =>
    match cs with
    | '$' :: digits => ⟨16, digits⟩
    | '0' :: m :: digits =>
      if m.toLower = 'x' then ⟨16, digits⟩
      else if m.toLower = 'b' then ⟨2, digits⟩
      else if m.toLower = 'o' then ⟨8, digits⟩
      else ⟨10, cs⟩
    | _ => ⟨10, cs⟩

/-- The value of a literal of operand text, or `none` where the text is no literal. -/
def value? (cs : List Char) : Option Nat :=
  readDigits? (spelling cs).base (spelling cs).digits

/-- The value of a number given on its own, with an optional minus sign in front. -/
def ofText (limits : Limits) (text : String) : Except NumeralFault Int :=
  let read (cs : List Char) := readInt limits (spelling cs).base (spelling cs).digits
  match text.toList with
  | '-' :: cs => (read cs).map (- ·)
  | cs => read cs

end SleighForge.Literal
