import SleighForge.Power
import SleighForge.Text.Numeral

/-!
# Runs of literal bits

A run of literal bits is a nonempty string of zeros and ones, held as a number and a width. A run
can be cut in two.
-/

namespace SleighForge

open Text

/-- The number fits in the width. -/
def fits (value width : Nat) : Bool :=
  value = 0 || value.log2 < width

theorem fits_iff {value width : Nat} : fits value width = true ↔ value < 2 ^ width := by
  rcases Nat.eq_zero_or_pos value with rfl | h
  · exact ⟨fun _ => Nat.two_pow_pos width, fun _ => by simp [fits]⟩
  · have hne : value ≠ 0 := by omega
    simp [fits, hne, Nat.log2_lt hne]

/-- Literal bits of an instruction word. -/
structure BitRun where
  value : Nat
  width : Nat
  width_pos : 0 < width
  value_lt : value < 2 ^ width
  deriving DecidableEq, Repr

/-- Why a run cannot be built. -/
inductive RunFault where
  /-- The width is zero or negative. -/
  | width (width : Int)
  /-- The value is negative or needs more bits. -/
  | value (value : Int) (width : Nat)
  deriving DecidableEq, Repr

/-- A number in hexadecimal with its sign before the marker. -/
def markedHex (n : Int) : String :=
  (if n < 0 then "-0x" else "0x") ++ hexText 0 n.natAbs

/-- The message about a run. -/
def RunFault.message : RunFault → String
  | width w => s!"bit pattern width must be positive, got {w}"
  | value v w => s!"value {markedHex v} does not fit in {w} bits"

namespace BitRun

/-- Builds a run from a value and a width. -/
def make (value width : Int) : Except RunFault BitRun :=
  if hw : 0 < width then
    if hv : 0 ≤ value ∧ fits value.toNat width.toNat then
      .ok ⟨value.toNat, width.toNat, by omega, fits_iff.1 hv.2⟩
    else .error (.value value width.toNat)
  else .error (.width width)

/-- The bits as zeros and ones, the most significant first. -/
def text (r : BitRun) : String :=
  bitText r.width r.value

/-- The bits from position `k` up. -/
def upper (r : BitRun) (k : Nat) (h : k < r.width) : BitRun where
  value := r.value / 2 ^ k
  width := r.width - k
  width_pos := by omega
  value_lt := by
    rw [Nat.div_lt_iff_lt_mul (Nat.two_pow_pos k), ← Nat.pow_add, Nat.sub_add_cancel (by omega)]
    exact r.value_lt

/-- The bits below position `k`. -/
def lower (r : BitRun) (k : Nat) (h : 0 < k) : BitRun where
  value := r.value % 2 ^ k
  width := k
  width_pos := h
  value_lt := Nat.mod_lt _ (Nat.two_pow_pos k)

end BitRun

end SleighForge
