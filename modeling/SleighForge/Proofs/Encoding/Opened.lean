import SleighForge.Proofs.Encoding.LiteralBits

/-!
# What opening a field does to the words

Opening a field frees the bits of its slice (`literalBit?_opened`) and adds the field to those of
the encoding (`mem_fields_opened`). So an encoding stays good for every word that differs from its
own words in that slice only (`accepts_opened`). Renaming register tables changes no word.
-/

namespace SleighForge

namespace Encoding

/-! ## Cutting -/

/-- Of two parts, the lower one has the lower bits. -/
theorem literalBit?_append (e₁ e₂ : Encoding) (i : Nat) :
    literalBit? (e₁ ++ e₂) i =
      if i < width e₂ then literalBit? e₂ i else literalBit? e₁ (i - width e₂) := by
  induction e₁ with
  | nil =>
    split
    · rfl
    · next hi => exact literalBit?_eq_none (Nat.le_of_not_lt hi)
  | cons s rest ih =>
    rw [List.cons_append, literalBit?, width_append, ih]
    by_cases hi : i < width e₂
    · have hlt : i < width rest + width e₂ := by omega
      rw [if_pos hlt, if_pos hi, if_pos hi]
    · have hiff : i < width rest + width e₂ ↔ i - width e₂ < width rest := by omega
      have hsub : i - (width rest + width e₂) = i - width e₂ - width rest := by omega
      rw [if_neg hi, if_neg hi, literalBit?, hsub]
      simp only [hiff]

/-- The literal bits above a cut, counted from there. -/
theorem literalBit?_above {e : Encoding} {k : Nat} (hp : Placed e) (hc : CutAt e k)
    (hk : k ≤ width e) (i : Nat) : literalBit? (above k e) i = literalBit? e (i + k) := by
  -- Along the segments, as `above` goes: it keeps segments until the cut and drops those below it.
  induction e with
  | nil => rfl
  | cons s rest ih =>
    unfold above
    split
    · next h =>
      have hw := width_above hp.2 (cutAt_rest hc) h
      have hiff : i < width (above k rest) ↔ i + k < width rest := by omega
      have hsub : i - width (above k rest) = i + k - width rest := by omega
      rw [literalBit?, literalBit?, ih hp.2 (cutAt_rest hc) h, hsub]
      simp only [hiff]
    · next h =>
      have hrest : ¬ i + k < width rest := by omega
      rw [literalBit?, if_neg hrest]
      cases s with
      | bits r =>
        -- The cut goes through a run of literal bits, whose upper part stays.
        dsimp only
        split
        · have htop : i < r.width - (k - width rest) ↔ i + k - width rest < r.width := by omega
          have hsum : i + (k - width rest) = i + k - width rest := by omega
          simp [literalBit?, Segment.literalBit?, BitRun.upper, width, htop,
            Nat.testBit_div_two_pow, hsum]
        · exact (Segment.literalBit?_eq_none (by simp only [Segment.width]; omega)).symm
      | field f => rfl

/-- The literal bits below a cut stay where they are. -/
theorem literalBit?_below {e : Encoding} {k : Nat} (hp : Placed e) (hc : CutAt e k) (i : Nat) :
    literalBit? (below k e) i = if i < k then literalBit? e i else none := by
  induction e with
  | nil => simp [below, literalBit?]
  | cons s rest ih =>
    unfold below
    split
    · next hrest =>
      split
      · next hall =>
        split
        · rfl
        · exact literalBit?_eq_none (by simp only [width]; omega)
      · next hall =>
        cases s with
        | bits r =>
          simp only [Segment.width] at hall
          simp only [literalBit?, Segment.literalBit?, BitRun.lower, Nat.testBit_mod_two_pow]
          by_cases hi : i < width rest
          · have hk : i < k := by omega
            rw [if_pos hi, if_pos hk, if_pos hi]
          · by_cases hk : i < k
            · have hlow : i - width rest < k - width rest := by omega
              have htop : i - width rest < r.width := by omega
              simp [hi, hk, hlow, htop]
            · have hlow : ¬ i - width rest < k - width rest := by omega
              simp [hi, hk, hlow]
        | field f =>
          -- No field is cut in two.
          have hlo : f.lo = width rest := lo_eq_width hp
          have := f.lo_lt_hi
          have := cutAt_head hc
          simp only [Segment.width, BitField.width] at hall
          omega
    · next hrest =>
      rw [ih hp.2 (cutAt_rest hc)]
      split
      · next hk =>
        have hi : i < width rest := by omega
        rw [literalBit?, if_pos hi]
      · rfl

/-! ## Opening -/

/-- Opening a field frees its slice and nothing else. -/
theorem literalBit?_opened {e : Encoding} {f : BitField} (hp : Placed e)
    (h : IsLiteral e f.lo f.hi) (i : Nat) :
    literalBit? (opened e f) i = if f.lo ≤ i ∧ i < f.hi then none else literalBit? e i := by
  have hlt := f.lo_lt_hi
  have hbelow := width_below hp (h.cutAt_lo hlt) (by have := h.1; omega)
  have hwidth : width (.field f :: below f.lo e) = f.hi := by
    simp only [width, Segment.width, BitField.width, hbelow]
    omega
  rw [opened, literalBit?_append, hwidth]
  -- Three places for a position: above the field, in the part with the field, and below it.
  by_cases hhi : i < f.hi
  · rw [if_pos hhi, literalBit?, hbelow]
    by_cases hlo : i < f.lo
    · have hout : ¬ (f.lo ≤ i ∧ i < f.hi) := by omega
      rw [if_pos hlo, if_neg hout, literalBit?_below hp (h.cutAt_lo hlt), if_pos hlo]
    · have hin : f.lo ≤ i ∧ i < f.hi := by omega
      rw [if_neg hlo, if_pos hin, Segment.literalBit?]
  · have hout : ¬ (f.lo ≤ i ∧ i < f.hi) := by omega
    rw [if_neg hhi, if_neg hout, literalBit?_above hp (h.cutAt_hi hlt) h.1,
      Nat.sub_add_cancel (Nat.le_of_not_lt hhi)]

theorem mem_fields_append {e₁ e₂ : Encoding} {g : BitField} :
    g ∈ fields (e₁ ++ e₂) ↔ g ∈ fields e₁ ∨ g ∈ fields e₂ := by
  simp [fields]

theorem mem_fields_above {e : Encoding} {k : Nat} (hp : Placed e) {g : BitField} :
    g ∈ fields (above k e) ↔ g ∈ fields e ∧ k ≤ g.lo := by
  induction e with
  | nil => simp [above, fields]
  | cons s rest ih =>
    unfold above
    split
    · next h =>
      cases s with
      | bits r => exact ih hp.2
      | field f =>
        have hlo : f.lo = width rest := lo_eq_width hp
        rw [fields_cons_field, fields_cons_field, List.mem_cons, List.mem_cons, ih hp.2]
        constructor
        · rintro (rfl | ⟨hg, hk⟩)
          · exact ⟨.inl rfl, by omega⟩
          · exact ⟨.inr hg, hk⟩
        · rintro ⟨rfl | hg, hk⟩
          · exact .inl rfl
          · exact .inr ⟨hg, hk⟩
    · next h =>
      -- Every field is below the position here.
      have hnone : ¬ (g ∈ fields (s :: rest) ∧ k ≤ g.lo) := by
        rintro ⟨hg, hk⟩
        cases s with
        | bits r =>
          have := hi_le_width hp.2 hg
          have := g.lo_lt_hi
          omega
        | field f =>
          have hlo : f.lo = width rest := lo_eq_width hp
          rw [fields_cons_field, List.mem_cons] at hg
          rcases hg with rfl | hg
          · omega
          · have := hi_le_width hp.2 hg
            have := g.lo_lt_hi
            omega
      refine iff_of_false ?_ hnone
      cases s with
      | bits r =>
        dsimp only
        split <;> simp [fields, Segment.field?]
      | field f => simp [fields]

theorem mem_fields_below {e : Encoding} {k : Nat} (hp : Placed e) (hc : CutAt e k)
    {g : BitField} : g ∈ fields (below k e) ↔ g ∈ fields e ∧ g.hi ≤ k := by
  induction e with
  | nil => simp [below, fields]
  | cons s rest ih =>
    unfold below
    split
    · next hrest =>
      -- The cut lies above the rest: the segment at its head is dropped or kept, never split.
      have hlow : ∀ g ∈ fields rest, g.hi ≤ k := fun g hg =>
        Nat.le_trans (hi_le_width hp.2 hg) (Nat.le_of_lt hrest)
      split
      · next hall =>
        have hsub : ∀ g ∈ fields (s :: rest), g.hi ≤ k := fun g hg =>
          Nat.le_trans (hi_le_width hp hg) (by simp only [width]; omega)
        exact ⟨fun hg => ⟨hg, hsub g hg⟩, And.left⟩
      · next hall =>
        cases s with
        | bits r => exact ⟨fun hg => ⟨hg, hlow g hg⟩, And.left⟩
        | field f =>
          have hlo : f.lo = width rest := lo_eq_width hp
          have := f.lo_lt_hi
          have := cutAt_head hc
          simp only [Segment.width, BitField.width] at hall
          omega
    · next hrest =>
      rw [ih hp.2 (cutAt_rest hc)]
      cases s with
      | bits r => rfl
      | field f =>
        have hlo : f.lo = width rest := lo_eq_width hp
        have := f.lo_lt_hi
        have hne : ∀ g : BitField, g = f → ¬ g.hi ≤ k := by
          rintro g rfl
          omega
        rw [fields_cons_field, List.mem_cons]
        constructor
        · rintro ⟨hg, hk⟩
          exact ⟨.inr hg, hk⟩
        · rintro ⟨rfl | hg, hk⟩
          · exact absurd hk (hne g rfl)
          · exact ⟨hg, hk⟩

/-- Opening a field adds it to the fields of the encoding. -/
theorem mem_fields_opened {e : Encoding} {f : BitField} (hp : Placed e)
    (h : IsLiteral e f.lo f.hi) {g : BitField} :
    g ∈ fields (opened e f) ↔ g = f ∨ g ∈ fields e := by
  have hlt := f.lo_lt_hi
  rw [opened, mem_fields_append, fields_cons_field, List.mem_cons, mem_fields_above hp,
    mem_fields_below hp (h.cutAt_lo hlt)]
  constructor
  · rintro (⟨hg, -⟩ | rfl | ⟨hg, -⟩)
    · exact .inr hg
    · exact .inl rfl
    · exact .inr hg
  · -- The slice was literal, so a field that was there before is below it or above it.
    rintro (rfl | hg)
    · exact .inr (.inl rfl)
    · rcases h.2 g hg with hle | hle
      · exact .inr (.inr ⟨hg, hle⟩)
      · exact .inl ⟨hg, hle⟩

/-- Two encodings fix the same bits to the same values outside a slice. -/
def AgreeOutside (lo hi : Nat) (e e' : Encoding) : Prop :=
  ∀ i, i < lo ∨ hi ≤ i → literalBit? e i = literalBit? e' i

/-- Encodings of one shape agree where their literal values do. -/
theorem agreeOutside_of_testBit {e e' : Encoding} (hp : Placed e) (hp' : Placed e')
    (hw : width e = width e') (hf : fields e = fields e') {lo hi : Nat}
    (h : ∀ i, (literalValue e).testBit i ≠ (literalValue e').testBit i → lo ≤ i ∧ i < hi) :
    AgreeOutside lo hi e e' := by
  intro i hi
  -- Both fix the same positions, so they agree where the bits of the literal values do.
  have hsome := isSome_literalBit?_congr hp hp' hw hf i
  have hbit : (literalBit? e i).getD false = (literalBit? e' i).getD false := by
    rw [← testBit_literalValue, ← testBit_literalValue]
    apply Decidable.byContradiction
    intro hne
    have := h i hne
    omega
  cases hb : literalBit? e i <;> cases hb' : literalBit? e' i <;> simp_all

/-- An encoding with a field opened accepts what an encoding accepts that agrees outside the
field. -/
theorem accepts_opened {e e' : Encoding} {f : BitField} (hp : Placed e)
    (h : IsLiteral e f.lo f.hi) (hw : width e = width e') (ha : AgreeOutside f.lo f.hi e e')
    {word : Int} (hacc : accepts e' word = true) : accepts (opened e f) word = true := by
  rcases Int.eq_ofNat_of_zero_le ((accepts_iff e' word).1 hacc).1 with ⟨n, rfl⟩
  rcases (accepts_natCast_iff e' n).1 hacc with ⟨hlt, hbits⟩
  refine (accepts_natCast_iff _ n).2 ⟨by rwa [width_opened hp h, hw], ?_⟩
  intro i b hb
  rw [literalBit?_opened hp h] at hb
  split at hb
  · cases hb
  · next hout => exact hbits i b (by rwa [← ha i (by omega)])

/-- Which words agree depends on the slice of an opened field only. -/
theorem agrees_opened_congr {e : Encoding} (hp : Placed e) (f g : BitField)
    (hf : IsLiteral e f.lo f.hi) (hlo : g.lo = f.lo) (hhi : g.hi = f.hi) (word : Int) :
    agrees (opened e g) word = agrees (opened e f) word := by
  have hg : IsLiteral e g.lo g.hi := by rwa [hlo, hhi]
  rw [Bool.eq_iff_iff, agrees_iff, agrees_iff, width_opened hp hg, width_opened hp hf]
  simp only [literalBit?_opened hp hg, literalBit?_opened hp hf, hlo, hhi]

/-- Encodings that agree outside the slice of a field agree with the same words once the field is
opened in them. -/
theorem AgreeOutside.agrees_opened {e e' : Encoding} {f : BitField}
    (ha : AgreeOutside f.lo f.hi e e') (hp : Placed e) (hp' : Placed e')
    (h : IsLiteral e f.lo f.hi) (h' : IsLiteral e' f.lo f.hi) (hw : width e = width e')
    (word : Int) : agrees (opened e f) word = agrees (opened e' f) word := by
  have hbit (i : Nat) : literalBit? (opened e f) i = literalBit? (opened e' f) i := by
    rw [literalBit?_opened hp h, literalBit?_opened hp' h']
    split
    · rfl
    · exact ha i (by omega)
  rw [Bool.eq_iff_iff, agrees_iff, agrees_iff, width_opened hp h, width_opened hp' h', hw]
  simp only [hbit]

/-! ## Renaming register tables -/

/-- The fields of a renamed encoding are the renamed fields. -/
theorem fields_mapTable (g : Int → Int) (e : Encoding) :
    fields (e.mapTable g) = (fields e).map (BitField.mapTable g) := by
  induction e with
  | nil => rfl
  | cons s rest ih =>
    cases s with
    | bits r => exact ih
    | field f => exact congrArg (f.mapTable g :: ·) ih

theorem literalBit?_mapTable (g : Int → Int) (e : Encoding) (i : Nat) :
    literalBit? (e.mapTable g) i = literalBit? e i := by
  induction e with
  | nil => rfl
  | cons s rest ih =>
    have hw : width (mapTable g rest) = width rest := mapTable_width g rest
    have hs : (s.mapTable g).literalBit? = s.literalBit? := by cases s <;> rfl
    show literalBit? (s.mapTable g :: mapTable g rest) i = _
    rw [literalBit?, literalBit?, hw, hs, ih]

theorem agrees_mapTable (g : Int → Int) (e : Encoding) (word : Int) :
    agrees (e.mapTable g) word = agrees e word := by
  rw [Bool.eq_iff_iff, agrees_iff, agrees_iff, mapTable_width]
  simp only [literalBit?_mapTable]

/-- Renaming tables leaves which words are accepted. -/
theorem accepts_mapTable (g : Int → Int) (e : Encoding) (word : Int) :
    accepts (e.mapTable g) word = accepts e word := by
  rw [accepts, accepts, mapTable_width, agrees_mapTable]

end Encoding

end SleighForge
