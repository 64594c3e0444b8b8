import Mathlib.Data.List.Chain
import SleighForge.Layout
import SleighForge.Proofs.Encoding.BitText
import SleighForge.Proofs.Encoding.RoundTrip
import SleighForge.Proofs.Layout

/-!
# What a layout says

The regions of a layout cover the word, and each is a field or a longest run of literal bits
(`partition_regionsBelow`). A number agrees with the encoding if it has the values of the runs
(`holds_regionsBelow`). So the layout, the text and the encoding of a pattern describe the same
words (`layout_describes`).
-/

namespace SleighForge

namespace Region

/-- The region of an operand field. Its name begins with the stem. -/
def ofField (stem : String) (f : BitField) : Region where
  field :=
    { name := stem ++ f.name
      lo := f.lo
      hi := f.hi
      role := match f.kind with
        | .immediate => .immediate f.signed
        | .register table => .register table }
  content := .operand f

/-- The bits of the region in a number are its value, if it has one. -/
def Holds (r : Region) (n : Nat) : Prop :=
  ∀ v, r.value? = some v → bitSlice n r.field.lo r.field.width = v

end Region

namespace Layout

/-- Regions cover the bits below a position, from there down, without gaps and overlaps. -/
def Tiles : Nat → List Region → Prop
  | top, [] => top = 0
  | top, r :: rest => r.field.hi = top ∧ r.field.lo < r.field.hi ∧ Tiles r.field.lo rest

/-- Regions cover the bits below a position. Those of operands are the regions of the fields, in
order; the others hold literal bits that fit, and no two of them are neighbours. -/
structure Partition (stem : String) (fields : List BitField) (top : Nat) (rs : List Region) :
    Prop where
  tiles : Tiles top rs
  operands : rs.filter (·.operand?.isSome) = fields.map (Region.ofField stem)
  values : ∀ r ∈ rs, ∀ v, r.value? = some v → v < 2 ^ r.field.width
  apart : rs.IsChain fun r s => r.operand?.isSome ∨ s.operand?.isSome

/-! ## Single regions -/

/-- The region of a field is that of `Region.ofField`. -/
theorem operandRegion_eq {tables : Tables} {stem : String} {f : BitField} {r : Region}
    (h : operandRegion tables stem f = .ok r) : r = Region.ofField stem f := by
  cases hkind : f.kind with
  | immediate =>
    simp only [operandRegion, hkind] at h
    cases h
    simp only [Region.ofField, hkind]
  | register table =>
    simp only [operandRegion, hkind] at h
    split at h
    · cases h
    · split at h
      · cases h
        simp only [Region.ofField, hkind]
      · cases h

/-- The regions of a run of bits hold of the words that have its value there. -/
theorem holds_opcodeRegion {stem : String} {lo value width n : Nat} (hv : value < 2 ^ width) :
    (∀ r ∈ opcodeRegion stem lo value width, r.Holds n) ↔ bitSlice n lo width = value := by
  unfold opcodeRegion
  split
  · next hzero =>
    subst hzero
    have hlt := bitSlice_lt n lo 0
    rw [Nat.pow_zero] at hv hlt
    simp
    omega
  · simp [Region.Holds, Region.value?, TokenField.width]

namespace Partition

variable {stem : String} {fields : List BitField} {rs : List Region}

/-- An encoding without segments has no regions. -/
theorem nil (stem : String) : Partition stem [] 0 [] where
  tiles := rfl
  operands := rfl
  values _ hr := absurd hr List.not_mem_nil
  apart := .nil

/-- A field on top of regions. -/
theorem operand {f : BitField} (h : Partition stem fields f.lo rs) :
    Partition stem (f :: fields) f.hi (Region.ofField stem f :: rs) := by
  refine ⟨⟨rfl, f.lo_lt_hi, h.tiles⟩, ?_, ?_, ?_⟩
  · rw [List.filter_cons_of_pos rfl, h.operands, List.map_cons]
  · intro r hr v hv
    rcases List.mem_cons.1 hr with rfl | hr
    · cases hv
    · exact h.values r hr v hv
  · rw [List.isChain_cons]
    exact ⟨fun _ _ => .inl rfl, h.apart⟩

/-- A run of literal bits on top of regions that begin with a field, or of none. -/
theorem opcode {lo value width : Nat} (h : Partition stem fields lo rs)
    (hhead : ∀ r ∈ rs.head?, r.operand?.isSome) (hv : value < 2 ^ width) :
    Partition stem fields (lo + width) (opcodeRegion stem lo value width ++ rs) := by
  unfold opcodeRegion
  split
  · next hzero =>
    rw [hzero]
    exact h
  · next hpos =>
    have hwidth : lo + width - lo = width := Nat.add_sub_cancel_left ..
    refine ⟨⟨rfl, by dsimp only; omega, h.tiles⟩, h.operands, ?_, ?_⟩
    · intro r hr v hrv
      rcases List.mem_cons.1 hr with rfl | hr
      · cases hrv
        simpa only [TokenField.width, hwidth] using hv
      · exact h.values r hr v hrv
    · rw [List.singleton_append, List.isChain_cons]
      exact ⟨fun r hr => .inr (hhead r hr), h.apart⟩

end Partition

/-! ## The regions below an open run -/

/-- A field ends the run of literal bits above it. -/
theorem regionsBelow_field {tables : Tables} {stem : String} {value width : Nat} {f : BitField}
    {rest : Encoding} {rs : List Region}
    (h : regionsBelow tables stem value width (.field f :: rest) = .ok rs) :
    ∃ below, regionsBelow tables stem 0 0 rest = .ok below ∧
      rs = opcodeRegion stem (Encoding.width rest + f.width) value width ++
        Region.ofField stem f :: below := by
  rw [regionsBelow] at h
  cases hregion : operandRegion tables stem f with
  | error cause =>
    rw [hregion] at h
    cases h
  | ok region =>
    cases hbelow : regionsBelow tables stem 0 0 rest with
    | error cause =>
      rw [hregion, hbelow] at h
      cases h
    | ok below =>
      rw [hregion, hbelow] at h
      cases h
      exact ⟨below, rfl, by rw [operandRegion_eq hregion]⟩

/-- A run that fits still fits with another run appended. -/
theorem append_lt {value width : Nat} (hv : value < 2 ^ width) (r : BitRun) :
    2 ^ r.width * value + r.value < 2 ^ (width + r.width) := by
  have hmul : 2 ^ r.width * (value + 1) ≤ 2 ^ r.width * 2 ^ width := Nat.mul_le_mul_left _ hv
  have hr := r.value_lt
  rw [Nat.pow_add, Nat.mul_comm (2 ^ width)]
  rw [Nat.mul_succ] at hmul
  omega

/-- The regions of an encoding part its width, the open run on top included. -/
theorem partition_regionsBelow {tables : Tables} {stem : String} {e : Encoding} (hp : e.Placed)
    {value width : Nat} {rs : List Region} (hv : value < 2 ^ width)
    (h : regionsBelow tables stem value width e = .ok rs) :
    Partition stem e.fields (e.width + width) rs := by
  -- On the segments; the open run above them varies.
  induction e generalizing value width rs with
  | nil =>
    cases h
    have hrun := (Partition.nil stem).opcode (by simp) hv
    rwa [List.append_nil] at hrun
  | cons s rest ih =>
    cases s with
    | bits r =>
      have hrest := ih hp.2 (append_lt hv r) h
      have htop : Encoding.width (.bits r :: rest) + width =
          Encoding.width rest + (width + r.width) := by
        simp only [Encoding.width, Segment.width]
        omega
      rw [htop]
      exact hrest
    | field f =>
      rcases regionsBelow_field h with ⟨below, hbelow, rfl⟩
      have hlo : f.lo = Encoding.width rest := Encoding.lo_eq_width hp
      have hhi : f.hi = Encoding.width rest + f.width := by rw [← hlo, f.lo_add_width]
      have hrest := ih hp.2 Nat.one_pos hbelow
      rw [Nat.add_zero, ← hlo] at hrest
      have hall := hrest.operand.opcode (by simp [Region.ofField, Region.operand?]) hv
      have htop : Encoding.width (.field f :: rest) + width = f.hi + width := by
        simp only [Encoding.width, Segment.width]
        omega
      rw [htop, ← hhi]
      exact hall

/-- Two numbers are the same if their upper and their lower parts are. -/
theorem mul_add_eq_iff {b q m q' m' : Nat} (hm : m < b) (hm' : m' < b) :
    b * q + m = b * q' + m' ↔ q = q' ∧ m = m' := by
  have hsplit : (b * q + m) / b = q' ∧ (b * q + m) % b = m' ↔ m' + b * q' = b * q + m ∧ m' < b :=
    Nat.div_mod_unique (Nat.zero_lt_of_lt hm)
  rw [Nat.mul_add_div (Nat.zero_lt_of_lt hm), Nat.div_eq_of_lt hm, Nat.add_zero, Nat.mul_add_mod,
    Nat.mod_eq_of_lt hm] at hsplit
  rw [hsplit, and_iff_left hm', Nat.add_comm m', eq_comm]

/-- A number has the values of the regions if it has that of the open run above the encoding, and
agrees with the encoding. -/
theorem holds_regionsBelow {tables : Tables} {stem : String} {e : Encoding} {value width : Nat}
    {rs : List Region} (hv : value < 2 ^ width)
    (h : regionsBelow tables stem value width e = .ok rs) (n : Nat) :
    (∀ r ∈ rs, r.Holds n) ↔ bitSlice n e.width width = value ∧ e.agrees n = true := by
  -- `value` collects the literal bits since the last field; a field ends the region they make.
  induction e generalizing value width rs with
  | nil =>
    cases h
    have hnil : Encoding.agrees [] n = true :=
      (Encoding.agrees_natCast_iff [] n).2 (by simp [Encoding.literalBit?])
    rw [holds_opcodeRegion hv, and_iff_left hnil]
    rfl
  | cons s rest ih =>
    cases s with
    | bits r =>
      have hwidth : Encoding.width (.bits r :: rest) = Encoding.width rest + r.width :=
        Nat.add_comm ..
      rw [ih (append_lt hv r) h, Encoding.agrees_cons_bits, bitSlice_eq_mul_add, hwidth,
        mul_add_eq_iff (bitSlice_lt ..) r.value_lt, and_assoc]
    | field f =>
      rcases regionsBelow_field h with ⟨below, hbelow, rfl⟩
      have hfree : (Region.ofField stem f).Holds n := by
        intro v hv
        cases hv
      have hzero : bitSlice n (Encoding.width rest) 0 = 0 := by
        have hlt := bitSlice_lt n (Encoding.width rest) 0
        omega
      have hwidth : Encoding.width (.field f :: rest) = Encoding.width rest + f.width :=
        Nat.add_comm ..
      rw [List.forall_mem_append, List.forall_mem_cons, and_iff_right hfree,
        ih Nat.one_pos hbelow, and_iff_right hzero, holds_opcodeRegion hv,
        Encoding.agrees_cons_field, hwidth]

/-! ## The layout of a pattern -/

/-- A layout has the regions of the whole encoding. -/
theorem regions_of_ofPattern {tables : Tables} {stem : String} {p : Pattern} {l : Layout}
    (h : ofPattern tables stem p = .ok l) :
    regionsBelow tables stem 0 0 p.encoding = .ok l.regions := by
  unfold ofPattern at h
  cases hcheck : checkFields p with
  | error cause =>
    rw [hcheck] at h
    cases h
  | ok _ =>
    cases hregions : regionsBelow tables stem 0 0 p.encoding with
    | error cause =>
      rw [hcheck, hregions] at h
      cases h
    | ok rs =>
      rw [hcheck, hregions] at h
      cases h
      rfl

/-- Regions of operands hold of every word, so the constraints are all there is to check. -/
theorem forall_mem_constraints {l : Layout} {n : Nat} :
    (∀ r ∈ l.constraints, r.Holds n) ↔ ∀ r ∈ l.regions, r.Holds n := by
  constructor
  · intro h r hr v hv
    exact h r (List.mem_filter.2 ⟨hr, by rw [hv]; rfl⟩) v hv
  · intro h r hr
    exact h r (List.mem_filter.1 hr).1

end Layout

/-- The regions of a layout cover the word from its highest bit down. Those of operands are the
fields of the pattern in order, no two of the others are neighbours, and each of the others has a
value that fits. The encoding, the text and the layout describe the same words. -/
theorem layout_describes (tables : Tables) (stem : String) (p : Pattern) (l : Layout)
    (h : Layout.ofPattern tables stem p = .ok l) :
    Layout.Tiles p.width l.regions ∧
    (l.regions.IsChain fun r s => r.operand?.isSome ∨ s.operand?.isSome) ∧
    l.regions.filter (·.operand?.isSome) = p.fields.map (Region.ofField stem) ∧
    (∀ r ∈ l.regions, ∀ v, r.value? = some v → v < 2 ^ r.field.width) ∧
    p.encoding.text.length = p.width ∧
    ∀ n : Nat, n < 2 ^ p.width →
      (p.accepts n = true ↔ FitsText p.encoding.text n) ∧
      (p.accepts n = true ↔ ∀ r ∈ l.constraints, r.Holds n) := by
  have hregions := Layout.regions_of_ofPattern h
  have hpart := Layout.partition_regionsBelow p.placed Nat.one_pos hregions
  refine ⟨hpart.tiles, hpart.apart, hpart.operands, hpart.values, ?_, ?_⟩
  · exact String.length_toList.symm.trans (Encoding.length_text p.encoding)
  · intro n hn
    have haccepts : p.accepts n = true ↔ p.encoding.agrees n = true :=
      (Encoding.accepts_natCast p.encoding n).trans (and_iff_right hn)
    have hnone : bitSlice n p.encoding.width 0 = 0 := by
      have hlt := bitSlice_lt n p.encoding.width 0
      omega
    constructor
    · rw [haccepts, Encoding.agrees_iff_fitsText]
    · rw [haccepts, Layout.forall_mem_constraints, Layout.holds_regionsBelow Nat.one_pos hregions,
        and_iff_right hnone]

/-- A shift has four regions, two of them for its literal bits. -/
theorem layout_describes_shift :
    ∃ l, Layout.ofPattern ⟨[⟨0, [some "a", some "b", none, some "c"], ""⟩]⟩ "instr8_" shift = .ok l ∧
      Layout.Tiles 8 l.regions ∧ l.regions.map Region.value? = [some 5, none, some 0, none] ∧
      shift.encoding.text = "101rr0ii" ∧ FitsText "101rr0ii" 0xB3 ∧
      (∀ r ∈ l.constraints, r.Holds 0xB3) ∧ ¬ ∀ r ∈ l.constraints, r.Holds 0xB7 := by
  have hnamed : ∀ f, .field f ∈ shift.operands → f ∈ shift.fields := by
    intro f hf
    simpa [shift, Pattern.fields, Encoding.fields, Segment.field?, eq_comm] using hf
  obtain ⟨rs, hrs, hvalues⟩ : ∃ rs, Layout.regionsBelow
      ⟨[⟨0, [some "a", some "b", none, some "c"], ""⟩]⟩ "instr8_" 0 0 shift.encoding = .ok rs ∧
        rs.map Region.value? = [some 5, none, some 0, none] := ⟨_, rfl, rfl⟩
  have hl : Layout.ofPattern ⟨[⟨0, [some "a", some "b", none, some "c"], ""⟩]⟩ "instr8_" shift =
      .ok ⟨Token.nameOf shift.width, rs⟩ := by
    unfold Layout.ofPattern
    rw [Layout.checkFields_ok hnamed, hrs]
    rfl
  obtain ⟨htiles, -, -, -, -, hwords⟩ := layout_describes _ _ _ _ hl
  have hin := hwords 0xB3 (by decide)
  have hout := hwords 0xB7 (by decide)
  have htext : shift.encoding.text = "101rr0ii" := by decide
  have haccepted : shift.accepts 0xB3 = true := by decide
  have hrefused : shift.accepts 0xB7 ≠ true := by decide
  exact ⟨_, hl, htiles, hvalues, htext, htext ▸ hin.1.1 haccepted, hin.2.1 haccepted,
    fun hholds => hrefused (hout.2.2 hholds)⟩

end SleighForge
