import SleighForge.Encoding.Basic

/-!
# Opening a field

A slice of literal bits can be opened, that is, replaced by a field. The encoding is cut above and
below the slice, and the field goes between the two parts. The main statements say that opening
keeps the width and that every field of the result sits at its own slice.
-/

namespace SleighForge

/-- Why a slice cannot be opened. -/
inductive OpeningFault where
  /-- It reaches above the word. -/
  | exceeds (lo hi width : Nat)
  /-- Some of its bits belong to a field. -/
  | overlaps (lo hi : Nat)
  deriving DecidableEq, Repr

/-- The message about a slice. -/
def OpeningFault.message : OpeningFault → String
  | exceeds lo hi width => s!"slice [{lo}, {hi}) exceeds width {width}"
  | overlaps lo hi => s!"slice [{lo}, {hi}) overlaps an existing field"

namespace Encoding

/-- No field has bits in the slice. -/
def ClearOf (e : Encoding) (lo hi : Nat) : Prop :=
  ∀ f ∈ fields e, f.hi ≤ lo ∨ hi ≤ f.lo

instance (e : Encoding) (lo hi : Nat) : Decidable (ClearOf e lo hi) :=
  inferInstanceAs (Decidable (∀ f ∈ fields e, f.hi ≤ lo ∨ hi ≤ f.lo))

/-- All bits of the slice are literal bits. -/
def IsLiteral (e : Encoding) (lo hi : Nat) : Prop :=
  hi ≤ width e ∧ ClearOf e lo hi

instance (e : Encoding) (lo hi : Nat) : Decidable (IsLiteral e lo hi) :=
  inferInstanceAs (Decidable (hi ≤ width e ∧ ClearOf e lo hi))

/-! ## Cutting -/

/-- The part of an encoding from bit `k` up. A field with bits on both sides is lost. -/
def above (k : Nat) : Encoding → Encoding
  | [] => []
  | s :: rest =>
    if k ≤ width rest then s :: above k rest
    else
      match s with
      | .bits r =>
        if h : k - width rest < r.width then [.bits (r.upper (k - width rest) h)] else []
      | .field _ => []

/-- The part of an encoding below bit `k`. A field with bits on both sides is lost. -/
def below (k : Nat) : Encoding → Encoding
  | [] => []
  | s :: rest =>
    if h : width rest < k then
      if width rest + s.width ≤ k then s :: rest
      else
        match s with
        | .bits r => .bits (r.lower (k - width rest) (Nat.sub_pos_of_lt h)) :: rest
        | .field _ => rest
    else below k rest

/-- No field has bits on both sides of `k`. -/
def CutAt (e : Encoding) (k : Nat) : Prop :=
  ∀ f ∈ fields e, f.hi ≤ k ∨ k ≤ f.lo

theorem cutAt_rest {s : Segment} {rest : Encoding} {k : Nat}
    (hc : CutAt (s :: rest) k) : CutAt rest k := by
  intro f hf
  refine hc f ?_
  unfold fields at hf ⊢
  rw [List.filterMap_cons]
  split
  · exact hf
  · exact List.mem_cons_of_mem _ hf

/-- A field is not cut in two. -/
theorem cutAt_head {f : BitField} {rest : Encoding} {k : Nat}
    (hc : CutAt (.field f :: rest) k) : f.hi ≤ k ∨ k ≤ f.lo :=
  hc f (by simp [fields, Segment.field?])

/-- The part above a cut has the bits that are above it. -/
theorem width_above {e : Encoding} {k : Nat} (hp : Placed e) (hc : CutAt e k)
    (hk : k ≤ width e) : width (above k e) + k = width e := by
  induction e with
  | nil => simp_all [above, width]
  | cons s rest ih =>
    unfold above
    split
    · next h =>
      have := ih hp.2 (cutAt_rest hc) h
      simp only [width]
      omega
    · next h =>
      simp only [width] at hk ⊢
      cases s with
      | bits r =>
        have hwidth : (Segment.bits r).width = r.width := rfl
        simp only [hwidth] at hk ⊢
        by_cases hlt : k - width rest < r.width
        · simp only [hlt, dif_pos, width, Segment.width, BitRun.upper]
          omega
        · simp only [hlt, dif_neg, not_false_eq_true, width]
          omega
      | field f =>
        have hlo : f.lo = width rest := lo_eq_width hp
        have hwidth : (Segment.field f).width = f.hi - f.lo := rfl
        have := f.lo_lt_hi
        -- A field is never cut, so it lies above `k`, while the rest below it lies under `k`.
        have := cutAt_head hc
        simp only [width, hwidth] at hk ⊢
        omega

/-- The part below a cut has as many bits as the cut is high. -/
theorem width_below {e : Encoding} {k : Nat} (hp : Placed e) (hc : CutAt e k)
    (hk : k ≤ width e) : width (below k e) = k := by
  induction e with
  | nil => simp_all [below, width]
  | cons s rest ih =>
    unfold below
    simp only [width] at hk
    split
    · split
      · simp only [width]; omega
      · cases s with
        | bits r =>
          simp only [width, Segment.width, BitRun.lower]
          omega
        | field f =>
          have hlo : f.lo = width rest := lo_eq_width hp
          have hwidth : (Segment.field f).width = f.hi - f.lo := rfl
          have := f.lo_lt_hi
          -- The cut is strictly inside the segment, which a field does not allow.
          have := cutAt_head hc
          simp only [hwidth] at *
          omega
    · exact ih hp.2 (cutAt_rest hc) (by omega)

/-- Fields below a cut stay where they are. -/
theorem placed_below {e : Encoding} {k : Nat} (hp : Placed e) : Placed (below k e) := by
  induction e with
  | nil => exact hp
  | cons s rest ih =>
    unfold below
    split
    · split
      · exact hp
      · cases s with
        | bits r => exact ⟨trivial, hp.2⟩
        | field f => exact hp.2
    · exact ih hp.2

/-- Fields above a cut stay where they are, on top of what is below it. -/
theorem placedOn_above {e : Encoding} {k : Nat} (hp : Placed e) (hc : CutAt e k)
    (hk : k ≤ width e) : PlacedOn k (above k e) := by
  induction e with
  | nil => trivial
  | cons s rest ih =>
    unfold above
    split
    · next h =>
      have hw := width_above hp.2 (cutAt_rest hc) h
      refine ⟨?_, ih hp.2 (cutAt_rest hc) h⟩
      have hsum : k + width (above k rest) = 0 + width rest := by omega
      rw [hsum]
      exact hp.1
    · cases s with
      | bits r =>
        dsimp only
        split
        · exact ⟨trivial, trivial⟩
        · trivial
      | field f => trivial

/-! ## Opening -/

/-- The encoding with the slice of the field replaced by the field. -/
def opened (e : Encoding) (f : BitField) : Encoding :=
  above f.hi e ++ .field f :: below f.lo e

/-- Replaces literal bits by a field. -/
def open? (e : Encoding) (f : BitField) : Except OpeningFault Encoding :=
  if width e < f.hi then .error (.exceeds f.lo f.hi (width e))
  else if ClearOf e f.lo f.hi then .ok (opened e f)
  else .error (.overlaps f.lo f.hi)

/-- An encoding can be cut below a slice of literal bits. -/
theorem IsLiteral.cutAt_lo {e : Encoding} {lo hi : Nat} (h : IsLiteral e lo hi)
    (hlt : lo < hi) : CutAt e lo := by
  intro f hf
  have := h.2 f hf
  omega

theorem IsLiteral.cutAt_hi {e : Encoding} {lo hi : Nat} (h : IsLiteral e lo hi)
    (hlt : lo < hi) : CutAt e hi := by
  intro f hf
  have := h.2 f hf
  omega

/-- Opening a field leaves the width. -/
theorem width_opened {e : Encoding} {f : BitField} (hp : Placed e)
    (h : IsLiteral e f.lo f.hi) : width (opened e f) = width e := by
  have hlt := f.lo_lt_hi
  have habove := width_above hp (h.cutAt_hi hlt) h.1
  have hbelow := width_below hp (h.cutAt_lo hlt) (by have := h.1; omega)
  simp only [opened, width_append, width, Segment.width, BitField.width]
  omega

theorem placed_opened {e : Encoding} {f : BitField} (hp : Placed e)
    (h : IsLiteral e f.lo f.hi) : Placed (opened e f) := by
  have hlt := f.lo_lt_hi
  have hbelow := width_below hp (h.cutAt_lo hlt) (by have := h.1; omega)
  rw [opened, placed_append]
  refine ⟨?_, by simp [Segment.SitsAt, hbelow], placed_below hp⟩
  have hw : width (.field f :: below f.lo e) = f.hi := by
    simp only [width, Segment.width, BitField.width, hbelow]
    omega
  rw [hw]
  exact placedOn_above hp (h.cutAt_hi hlt) h.1

end Encoding

end SleighForge
