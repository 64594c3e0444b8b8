import SleighForge.Limits
import SleighForge.Text.Blank
import SleighForge.Text.Decimal

/-!
# Positional numerals

Writing a number in a base up to sixteen, and reading one back. Two readers are given: the strict
one takes ASCII digits of the base and nothing else; the lenient one takes what people type, with
blanks around the number, one sign, a marker that repeats the base, single underscores between
digits, and the decimal digits of any script. The lenient reader has limits: a numeral in base ten
may be too long for it.
-/

namespace SleighForge.Text

/-! ## Digits -/

/-- The value of an ASCII digit; letters of either case stand for ten to fifteen. -/
def digitValue? (c : Char) : Option Nat :=
  if '0' ≤ c ∧ c ≤ '9' then some (c.toNat - '0'.toNat)
  else if 'a' ≤ c ∧ c ≤ 'f' then some (c.toNat - 'a'.toNat + 10)
  else if 'A' ≤ c ∧ c ≤ 'F' then some (c.toNat - 'A'.toNat + 10)
  else none

/-- The value of an ASCII digit of the base. -/
def digitIn? (base : Nat) (c : Char) : Option Nat :=
  (digitValue? c).filter (· < base)

/-- An ASCII digit of the base. -/
def isDigitIn (base : Nat) (c : Char) : Bool :=
  (digitIn? base c).isSome

/-- The number written by digits of the base, the first being the most significant. -/
def ofDigits (base : Nat) (digits : List Nat) : Nat :=
  digits.foldl (fun n d => base * n + d) 0

/-- The digits of a number, the first being the most significant. -/
def digitsOf (base n : Nat) : List Nat :=
  if _ : n < base ∨ base < 2 then [n]
  else digitsOf base (n / base) ++ [n % base]
termination_by n
decreasing_by exact Nat.div_lt_self (by omega) (by omega)

/-! ## Writing -/

/-- A number in the base, in lower-case digits. -/
def numeral (base n : Nat) : List Char :=
  (digitsOf base n).map Nat.digitChar

/-- Puts zeros in front until the text has the given length. -/
def padZeros (length : Nat) (cs : List Char) : List Char :=
  List.replicate (length - cs.length) '0' ++ cs

/-- A number in hexadecimal, at least as long as given. A minus sign counts in the length. -/
def hexText (length : Nat) (n : Int) : String :=
  String.ofList <|
    if n < 0 then '-' :: padZeros (length - 1) (numeral 16 n.natAbs)
    else padZeros length (numeral 16 n.natAbs)

/-- The lowest bits of a number, the highest of them first. -/
def bitText (length n : Nat) : String :=
  String.ofList <| (List.range length).reverse.map fun i => if n.testBit i then '1' else '0'

/-! ## Reading strictly -/

/-- The value of a nonempty run of ASCII digits of the base. -/
def readDigits? (base : Nat) (cs : List Char) : Option Nat :=
  if cs.isEmpty then none else (cs.mapM (digitIn? base)).map (ofDigits base)

/-! ## Reading leniently -/

/-- The blanks of ASCII, the separators U+001C to U+001F not among them. -/
def isSpace (c : Char) : Bool :=
  c == ' ' || ('\t' ≤ c && c ≤ '\r')

/-- A character as the lenient reader sees it in a text that is not all ASCII: a digit of any
script is its ASCII digit and a blank is a space. -/
def plainChar (c : Char) : Char :=
  if c.toNat < 0x7F then c
  else if isBlank c then ' '
  else match decimalValue? c with
    | some d => Nat.digitChar d
    | none => '?'

/-- A text as the lenient reader sees it. Texts of ASCII characters are taken as they are. -/
def plain (cs : List Char) : List Char :=
  if cs.all (·.toNat < 0x80) then cs else cs.map plainChar

/-- Digits of the base with at most one underscore between two of them. -/
def groupedDigits? (base : Nat) : List Char → Option (List Nat)
  | [] => none
  | [c] => (digitIn? base c).map ([·])
  | c :: '_' :: cs => do return (← digitIn? base c) :: (← groupedDigits? base cs)
  | c :: cs => do return (← digitIn? base c) :: (← groupedDigits? base cs)

/-- The letter that marks numerals of the base after a leading zero. -/
def baseMarker? (base : Nat) : Option Char :=
  match base with
  | 2 => some 'b'
  | 8 => some 'o'
  | 16 => some 'x'
  | _ => none

/-- Drops a zero and the marker of the base, and one underscore after them. -/
def dropMarker (base : Nat) (cs : List Char) : List Char :=
  match cs with
  | '0' :: m :: rest =>
    if baseMarker? base = some m.toLower then
      match rest with
      | '_' :: rest => rest
      | rest => rest
    else cs
  | cs => cs

/-- Why a text is not read as a number. -/
inductive NumeralFault where
  /-- It is no numeral. -/
  | notNumeral
  /-- It is one, or begins with one, that exceeds a limit. -/
  | limit (fault : LimitFault)
  deriving DecidableEq, Repr

/-- A digit of the base or an underscore. -/
def isDigitOrGap (base : Nat) (c : Char) : Bool :=
  isDigitIn base c || c == '_'

/-- The value of a number without its sign, after an optional marker of the base. The digits are
counted before what follows them is looked at. -/
def readMarked (limits : Limits) (base : Nat) (cs : List Char) : Except NumeralFault Nat :=
  let cs := dropMarker base cs
  match groupedDigits? base (cs.takeWhile (isDigitOrGap base)) with
  | none => .error .notNumeral
  | some digits =>
    match limits.digitsFault? base digits.length with
    | some fault => .error (.limit fault)
    | none =>
      if (cs.dropWhile (isDigitOrGap base)).isEmpty then .ok (ofDigits base digits)
      else .error .notNumeral

/-- The lenient reader. -/
def readInt (limits : Limits) (base : Nat) (cs : List Char) : Except NumeralFault Int :=
  match trim isSpace (plain cs) with
  | '-' :: cs => (readMarked limits base cs).map fun n => -(n : Int)
  | '+' :: cs => (readMarked limits base cs).map Int.ofNat
  | cs => (readMarked limits base cs).map Int.ofNat

end SleighForge.Text
