import SleighForge.BitField
import SleighForge.BitRun

/-!
# Encodings

An encoding describes the bits of an instruction word from the most significant one down, as a list
of segments. A segment is a run of literal bits or an operand field. Fields name the bits they
stand for, so a list of segments is an encoding only where each field sits at its own slice
(`Placed`).
-/

namespace SleighForge

/-- A part of an encoding. -/
inductive Segment where
  | bits (run : BitRun)
  | field (f : BitField)
  deriving DecidableEq, Repr

namespace Segment

/-- The number of bits. -/
def width : Segment → Nat
  | bits r => r.width
  | field f => f.width

/-- The field, if the segment is one. -/
def field? : Segment → Option BitField
  | bits _ => none
  | field f => some f

/-- The segment may have its least significant bit at `lo`. -/
def SitsAt (lo : Nat) : Segment → Prop
  | bits _ => True
  | field f => f.lo = lo

instance (lo : Nat) (s : Segment) : Decidable (s.SitsAt lo) :=
  match s with
  | bits _ => inferInstanceAs (Decidable True)
  | field f => inferInstanceAs (Decidable (f.lo = lo))

/-- Zeros and ones for literal bits, `i` for the bits of an immediate, `r` for those of a register
selector. -/
def text : Segment → String
  | bits r => r.text
  | field f =>
    String.ofList <| List.replicate f.width <|
      match f.kind with
      | .immediate => 'i'
      | .register _ => 'r'

/-- Replaces the ids of register tables. -/
def mapTable (g : Int → Int) : Segment → Segment
  | bits r => bits r
  | field f => field (f.mapTable g)

@[simp] theorem mapTable_width (g : Int → Int) (s : Segment) :
    (s.mapTable g).width = s.width := by
  cases s <;> simp [mapTable, width]

theorem mapTable_sitsAt (g : Int → Int) (s : Segment) (lo : Nat) :
    (s.mapTable g).SitsAt lo ↔ s.SitsAt lo := by
  cases s <;> simp [mapTable, SitsAt]

end Segment

/-- Segments, the most significant first. -/
abbrev Encoding := List Segment

namespace Encoding

/-- The number of bits. -/
def width : Encoding → Nat
  | [] => 0
  | s :: rest => s.width + width rest

/-- The segments with their slices `[lo, hi)`. -/
def slices : Encoding → List (Segment × Nat × Nat)
  | [] => []
  | s :: rest => (s, width rest, width rest + s.width) :: slices rest

/-- The operand fields, the most significant first. -/
def fields (e : Encoding) : List BitField :=
  e.filterMap Segment.field?

/-- Every field sits at its own slice, in an encoding that lies on top of `base` more bits. -/
def PlacedOn (base : Nat) : Encoding → Prop
  | [] => True
  | s :: rest => s.SitsAt (base + width rest) ∧ PlacedOn base rest

/-- Every field sits at its own slice. -/
def Placed (e : Encoding) : Prop :=
  PlacedOn 0 e

instance (base : Nat) (e : Encoding) : Decidable (PlacedOn base e) :=
  match e with
  | [] => inferInstanceAs (Decidable True)
  | s :: rest =>
    have := instDecidablePlacedOn base rest
    inferInstanceAs (Decidable (s.SitsAt (base + width rest) ∧ PlacedOn base rest))

instance (e : Encoding) : Decidable (Placed e) :=
  inferInstanceAs (Decidable (PlacedOn 0 e))

/-- The first field that does not sit at its own slice, with the slice where it sits. -/
def firstMisplaced? : Encoding → Option (BitField × Nat × Nat)
  | [] => none
  | .bits _ :: rest => firstMisplaced? rest
  | .field f :: rest =>
    if f.lo = width rest then firstMisplaced? rest
    else some (f, width rest, width rest + f.width)

/-- If no field is found to be misplaced, none is. -/
theorem placed_of_firstMisplaced?_eq_none {e : Encoding} (h : firstMisplaced? e = none) :
    Placed e := by
  induction e with
  | nil => trivial
  | cons s rest ih =>
    cases s with
    | bits r => exact ⟨trivial, ih h⟩
    | field f =>
      by_cases hlo : f.lo = width rest
      · exact ⟨by simpa [Segment.SitsAt] using hlo, ih (by simpa [firstMisplaced?, hlo] using h)⟩
      · simp [firstMisplaced?, hlo] at h

/-- A field on top of an encoding begins where that ends. -/
theorem lo_eq_width {f : BitField} {rest : Encoding} (hp : Placed (.field f :: rest)) :
    f.lo = width rest := by
  simpa [Segment.SitsAt] using hp.1

theorem firstMisplaced?_of_placed {e : Encoding} (h : Placed e) : firstMisplaced? e = none := by
  induction e with
  | nil => rfl
  | cons s rest ih =>
    cases s with
    | bits r => exact ih h.2
    | field f => rw [firstMisplaced?, if_pos (lo_eq_width h), ih h.2]

/-- The encoding as text, one character a bit. -/
def text (e : Encoding) : String :=
  String.join (e.map Segment.text)

/-! ## Appending -/

@[simp] theorem width_append (e₁ e₂ : Encoding) :
    width (e₁ ++ e₂) = width e₁ + width e₂ := by
  induction e₁ with
  | nil => simp [width]
  | cons s rest ih => simp [width, ih, Nat.add_assoc]

/-- Of two parts one after the other, the lower one lies below the upper one. -/
theorem placedOn_append {base : Nat} {e₁ e₂ : Encoding} :
    PlacedOn base (e₁ ++ e₂) ↔ PlacedOn (base + width e₂) e₁ ∧ PlacedOn base e₂ := by
  induction e₁ with
  | nil => simp [PlacedOn]
  | cons s rest ih =>
    simp [PlacedOn, ih, Nat.add_assoc, Nat.add_comm (width rest), and_assoc]

theorem placed_append {e₁ e₂ : Encoding} :
    Placed (e₁ ++ e₂) ↔ PlacedOn (width e₂) e₁ ∧ Placed e₂ := by
  simp [Placed, placedOn_append]

/-! ## Renaming register tables -/

/-- Replaces the ids of register tables. -/
def mapTable (g : Int → Int) (e : Encoding) : Encoding :=
  e.map (Segment.mapTable g)

@[simp] theorem mapTable_width (g : Int → Int) (e : Encoding) : width (e.mapTable g) = width e := by
  induction e with
  | nil => rfl
  | cons s rest ih => simp_all [mapTable, width]

theorem mapTable_placed (g : Int → Int) (e : Encoding) : Placed (e.mapTable g) ↔ Placed e := by
  unfold Placed
  induction e with
  | nil => simp [mapTable, PlacedOn]
  | cons s rest ih =>
    have hw : width (rest.map (Segment.mapTable g)) = width rest := mapTable_width g rest
    have ih : PlacedOn 0 (rest.map (Segment.mapTable g)) ↔ PlacedOn 0 rest := ih
    simp [mapTable, PlacedOn, Segment.mapTable_sitsAt, ih, hw]

end Encoding

end SleighForge
