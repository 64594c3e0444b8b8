import SleighForge.BitRun

/-!
# Opcodes

The first column of an instruction line is its machine word: hexadecimal after `0x`, binary after
`0b`, and without a marker binary if it holds only `0` and `1`, hexadecimal otherwise. Underscores
are ignored. `/N` at the end gives the width in bits; without it the width is that of the digits,
but at least the bitness of the processor. The length of `N` and the width itself have limits.
-/

namespace SleighForge

open Text

/-- A machine word of a given width. -/
structure Opcode where
  value : Nat
  width : Nat
  width_pos : 0 < width
  value_lt : value < 2 ^ width

/-- Why a text is no opcode. -/
inductive OpcodeFault where
  /-- It is not of the form of a binary or hexadecimal numeral. -/
  | notLiteral
  /-- It holds underscores only. -/
  | noDigits
  /-- The width after the slash is zero. -/
  | zeroWidth
  /-- The value needs more bits than the width. -/
  | tooWide (width : Nat)
  /-- The number after the slash or the width exceeds a limit. -/
  | limit (fault : LimitFault)
  deriving DecidableEq, Repr

/-- The message about an opcode text. -/
def OpcodeFault.message (text : String) : OpcodeFault → String
  | notLiteral => s!"opcode '{text}' is not a binary or hex literal"
  | noDigits => s!"opcode '{text}' has no digits"
  | zeroWidth => s!"opcode '{text}' has a zero width"
  | tooWide width => s!"opcode '{text}' does not fit in {width} bits"
  | limit fault => fault.message

namespace Opcode

/-- A nonempty run of digits of the base and underscores. -/
def isRun (base : Nat) (cs : List Char) : Bool :=
  !cs.isEmpty && cs.all (isDigitOrGap base)

/-- A run without a marker is binary if it can be. -/
def ofBareRun? (cs : List Char) : Option (Nat × List Char) :=
  if isRun 16 cs then some (if isRun 2 cs then 2 else 16, cs) else none

/-- The base and the digits of an opcode without its width. A text such as `0b12` is no binary
run after its marker and so is hexadecimal without one. -/
def body? (cs : List Char) : Option (Nat × List Char) :=
  match cs with
  | '0' :: m :: rest =>
    if m.toLower = 'x' ∧ isRun 16 rest then some (16, rest)
    else if m.toLower = 'b' ∧ isRun 2 rest then some (2, rest)
    else ofBareRun? cs
  | _ => ofBareRun? cs

/-- The figures of the width after the slash: a nonempty run of decimal digits of any script. -/
def widthFigures? (cs : List Char) : Option (List Nat) :=
  if cs.isEmpty then none else cs.mapM decimalValue?

/-- An opcode without a line feed at its end, split at its first slash. -/
def parts? (cs : List Char) : Option ((Nat × List Char) × Option (List Nat)) :=
  match cs.span (· != '/') with
  | (body, []) => (body? body).map (·, none)
  | (body, _ :: suffix) => do return (← body? body, some (← widthFigures? suffix))

/-- Drops one line feed at the end. -/
def dropFinalNewline (cs : List Char) : List Char :=
  match cs.reverse with
  | '\n' :: rest => rest.reverse
  | _ => cs

/-- The number of bits one digit of the base stands for. -/
def bitsPerDigit (base : Nat) : Nat :=
  if base = 2 then 1 else 4

/-- The width that the figures after the slash say, or else that of the digits, which are `count`
digits of the base, but at least the bitness. -/
def widthOf (limits : Limits) (bitness base count : Nat) :
    Option (List Nat) → Except OpcodeFault Nat
  | none => .ok (max bitness (count * bitsPerDigit base))
  | some figures =>
    match limits.digitsFault? 10 figures.length with
    | some fault => .error (.limit fault)
    | none => .ok (ofDigits 10 figures)

/-- The word with the value and the width. Where the width exceeds the limit it is not looked
whether the value fits. -/
def make (limits : Limits) (value width : Nat) : Except OpcodeFault Opcode :=
  if hw : 0 < width then
    match limits.widthFault? width with
    | some fault => .error (.limit fault)
    | none =>
      if hv : fits value width then .ok ⟨value, width, hw, fits_iff.1 hv⟩
      else .error (.tooWide width)
  else .error .zeroWidth

/-- A word is made of a value that fits in a width that is neither zero nor too great. -/
theorem make_eq_ok_iff {limits : Limits} {value width : Nat} {o : Opcode} :
    make limits value width = .ok o ↔
      o.value = value ∧ o.width = width ∧ limits.widthFault? width = none := by
  constructor
  · intro h
    unfold make at h
    split at h
    · split at h
      · cases h
      · next hlimit =>
        split at h
        · cases h
          exact ⟨rfl, rfl, hlimit⟩
        · cases h
    · cases h
  · -- An opcode carries the proofs that it has a bit and fits, so only the limit is asked for.
    rintro ⟨rfl, rfl, hlimit⟩
    rw [make, dif_pos o.width_pos]
    split
    · next fault hfault =>
      rw [hlimit] at hfault
      cases hfault
    · rw [dif_pos (fits_iff.2 o.value_lt)]

/-- A word that is too wide is not made, whatever its value. -/
theorem make_of_widthFault? {limits : Limits} {value width : Nat} {fault : LimitFault}
    (hpos : 0 < width) (h : limits.widthFault? width = some fault) :
    make limits value width = .error (.limit fault) := by
  rw [make, dif_pos hpos]
  split
  · next fault' hfault =>
    rw [h] at hfault
    cases hfault
    rfl
  · next hnone =>
    rw [h] at hnone
    cases hnone

/-- Reads the opcode column, for a processor of the given bitness. -/
def parse (limits : Limits) (text : String) (bitness : Nat) : Except OpcodeFault Opcode :=
  match parts? (dropFinalNewline text.toList) with
  | none => .error .notLiteral
  | some ((base, run), figures?) =>
    let digits := run.filter (· != '_')
    if digits.isEmpty then .error .noDigits
    else do
      let width ← widthOf limits bitness base digits.length figures?
      make limits (ofDigits base (digits.filterMap digitValue?)) width

end Opcode

end SleighForge
