/-!
# Limits

Two things that a reader of numbers does are bounded, whatever memory there is. A numeral in base
ten has to be converted, in a time that grows faster than its length, so its length is bounded;
numerals in the other bases are taken digit by digit and may have any length. And a bit can be
shifted to the left only so far, which bounds the width of a machine word.

What is read depends on the limits only where one of them is exceeded, so they are settings: a
processor of lists has the standard ones, and without limits every numeral and every word is read.
-/

namespace SleighForge

/-- The limits of a reader. A limit that is `none` is not there. -/
structure Limits where
  /-- The most digits of a numeral in base ten. -/
  digits : Option Nat
  /-- The greatest width of a machine word. -/
  bits : Option Nat
  deriving DecidableEq, Repr

/-- What exceeds a limit. -/
inductive LimitFault where
  /-- A numeral has more digits than the limit. -/
  | digits (limit count : Nat)
  /-- A word is wider than the limit. -/
  | bits
  deriving DecidableEq, Repr

/-- The message about what exceeds a limit. -/
def LimitFault.message : LimitFault → String
  | digits limit count =>
    s!"Exceeds the limit ({limit} digits) for integer string conversion: " ++
      s!"value has {count} digits; use sys.set_int_max_str_digits() to increase the limit"
  | bits => "too many digits in integer"

namespace Limits

/-- No limits. -/
def unbounded : Limits :=
  ⟨none, none⟩

/-- The limits that are set where nobody sets others. -/
def standard : Limits :=
  ⟨some 4300, some 69175290276410818320⟩

/-- What is wrong with so many digits in the base, if anything is. Leading zeros count. -/
def digitsFault? (limits : Limits) (base count : Nat) : Option LimitFault :=
  match limits.digits with
  | none => none
  | some limit => if base = 10 ∧ limit < count then some (.digits limit count) else none

/-- What is wrong with a word of the width, if anything is. -/
def widthFault? (limits : Limits) (width : Nat) : Option LimitFault :=
  match limits.bits with
  | none => none
  | some limit => if limit < width then some .bits else none

@[simp] theorem widthFault?_unbounded (width : Nat) : unbounded.widthFault? width = none :=
  rfl

/-- Only the length of numerals in base ten is limited. -/
theorem digitsFault?_eq_some_iff {limits : Limits} {base count : Nat} {fault : LimitFault} :
    limits.digitsFault? base count = some fault ↔
      base = 10 ∧ ∃ limit, limits.digits = some limit ∧ limit < count ∧
        fault = .digits limit count := by
  unfold digitsFault?
  cases limits.digits with
  | none => simp
  | some limit => simp [eq_comm, and_assoc]

/-- Nothing is wrong with few digits, and with no digits of another base. -/
theorem digitsFault?_eq_none_iff {limits : Limits} {base count : Nat} :
    limits.digitsFault? base count = none ↔
      (base = 10 → ∀ limit, limits.digits = some limit → count ≤ limit) := by
  unfold digitsFault?
  cases limits.digits with
  | none => simp
  | some limit => simp

theorem widthFault?_eq_none_iff {limits : Limits} {width : Nat} :
    limits.widthFault? width = none ↔ ∀ limit, limits.bits = some limit → width ≤ limit := by
  unfold widthFault?
  cases limits.bits with
  | none => simp
  | some limit => simp

end Limits

end SleighForge
