import SleighForge.Pattern
import SleighForge.Proofs.Encoding.FieldNames
import SleighForge.Proofs.Encoding.Segments

/-!
# Words and the values of their fields

Field values make a word exactly where the encoding accepts the word and every field has the value
that its bits in the word are (`encode_eq_ok_iff`). They make none exactly where a field has no
value or one that does not fit (`encode_fails_iff`). So encoding and decoding undo each other on the
accepted words (`encode_decode_inverse`).
-/

namespace SleighForge

namespace Encoding

/-- Each field has a value, and the value fits. -/
def Fills (e : Encoding) (values : List (String × Int)) : Prop :=
  ∀ f ∈ fields e, ∃ v, values.lookup f.name = some v ∧ 0 ≤ v ∧ v < 2 ^ f.width

variable {values : List (String × Int)}

/-! ## Encoding, segment by segment -/

/-- A run of literal bits goes on top of the rest. -/
theorem encode_cons_bits (values : List (String × Int)) (r : BitRun) (rest : Encoding) :
    encode values (.bits r :: rest) = (encode values rest).map (2 ^ width rest * r.value + ·) := by
  rw [encode]
  cases encode values rest <;> rfl

/-- The value of a field goes on top of the rest. -/
theorem encode_cons_field {f : BitField} {v : Nat} (hlookup : values.lookup f.name = some (v : Int))
    (hv : v < 2 ^ f.width) (rest : Encoding) :
    encode values (.field f :: rest) = (encode values rest).map (2 ^ width rest * v + ·) := by
  have hfits : 0 ≤ (v : Int) ∧ (v : Int) < 2 ^ f.width := ⟨by omega, by exact_mod_cast hv⟩
  rw [encode, hlookup]
  dsimp only
  rw [if_pos hfits]
  cases encode values rest <;> rfl

/-- The fault is that of the field, which has no value or one that does not fit. -/
inductive Unfit (values : List (String × Int)) (f : BitField) : EncodeFault → Prop where
  | missing (h : values.lookup f.name = none) : Unfit values f (.missing f.name)
  | tooWide {v : Int} (h : values.lookup f.name = some v) (hv : ¬ (0 ≤ v ∧ v < 2 ^ f.width)) :
    Unfit values f (.tooWide f.name v)

/-- A field has a value that fits, or encoding fails on it. -/
theorem encode_field_cases (values : List (String × Int)) (f : BitField) (rest : Encoding) :
    (∃ v : Nat, values.lookup f.name = some (v : Int) ∧ v < 2 ^ f.width) ∨
      ∃ fault, Unfit values f fault ∧ encode values (.field f :: rest) = .error fault := by
  cases hlookup : values.lookup f.name with
  | none => exact .inr ⟨_, .missing hlookup, by rw [encode, hlookup]⟩
  | some v =>
    by_cases hv : 0 ≤ v ∧ v < 2 ^ f.width
    · rcases Int.eq_ofNat_of_zero_le hv.1 with ⟨n, rfl⟩
      exact .inl ⟨n, rfl, by exact_mod_cast hv.2⟩
    · refine .inr ⟨_, .tooWide hlookup hv, ?_⟩
      rw [encode, hlookup]
      exact if_neg hv

/-- A word is put together from a segment and a word of the rest, and is taken apart again. -/
theorem map_mul_add_eq_ok_iff {ε : Type} {x : Except ε Nat} {b q n : Nat} (hb : 0 < b)
    (hx : ∀ m, x = .ok m → m < b) :
    x.map (b * q + ·) = .ok n ↔ n / b = q ∧ x = .ok (n % b) := by
  cases x with
  | error e => simp [Except.map]
  | ok m =>
    have hm : m < b := hx m rfl
    have hsplit : n / b = q ∧ n % b = m ↔ m + b * q = n ∧ m < b := Nat.div_mod_unique hb
    simp only [Except.map, Except.ok.injEq]
    omega

theorem encode_lt {e : Encoding} {n : Nat} (h : encode values e = .ok n) : n < 2 ^ width e := by
  induction e generalizing n with
  | nil =>
    cases h
    exact Nat.one_pos
  | cons s rest ih =>
    rw [lt_two_pow_width_cons_iff]
    have hpos := Nat.two_pow_pos (width rest)
    cases s with
    | bits r =>
      rw [encode_cons_bits, map_mul_add_eq_ok_iff hpos fun _ => ih] at h
      rw [h.1]
      exact r.value_lt
    | field f =>
      rcases encode_field_cases values f rest with ⟨v, hlookup, hv⟩ | ⟨fault, -, herror⟩
      · rw [encode_cons_field hlookup hv, map_mul_add_eq_ok_iff hpos fun _ => ih] at h
        rw [h.1]
        exact hv
      · rw [herror] at h
        cases h

/-! ## The word that values make -/

theorem extract_fits (f : BitField) (word : Int) :
    0 ≤ (f.extract word : Int) ∧ (f.extract word : Int) < 2 ^ f.width := by
  have hlt := bitSlice_lt word f.lo f.width
  exact ⟨Int.natCast_nonneg _, by exact_mod_cast hlt⟩

/-- The uppermost field is what is left after the other bits. -/
theorem extract_head {f : BitField} {rest : Encoding} (hp : Placed (.field f :: rest)) {n : Nat}
    (hn : n / 2 ^ width rest < 2 ^ f.width) : f.extract n = n / 2 ^ width rest := by
  have hlo : f.lo = width rest := lo_eq_width hp
  rw [BitField.extract, bitSlice_natCast, hlo, Nat.mod_eq_of_lt hn]

/-- Bits beyond the width are not read. -/
theorem extract_mod_width {e : Encoding} (hp : Placed e) {f : BitField} (hf : f ∈ fields e)
    (n : Nat) : f.extract (n % 2 ^ width e : Nat) = f.extract n := by
  apply bitSlice_mod
  rw [f.lo_add_width]
  exact hi_le_width hp hf

/-- Values make a word exactly where the encoding accepts the word and each field has the value
that its bits in the word are. -/
theorem encode_eq_ok_iff {e : Encoding} (hp : Placed e) {n : Nat} :
    encode values e = .ok n ↔
      accepts e n = true ∧ ∀ f ∈ fields e, values.lookup f.name = some (f.extract n : Int) := by
  -- On the segments: the first one takes the upper bits of the word, the rest takes the others.
  induction e generalizing n with
  | nil =>
    have hnil : accepts [] n = true ↔ n = 0 := by
      rw [accepts_natCast]
      simp [width, agrees, bitSlice, literalMask, literalValue]
    rw [hnil]
    simp [encode, fields, eq_comm]
  | cons s rest ih =>
    have hpos := Nat.two_pow_pos (width rest)
    have hrest : (∀ f ∈ fields rest, values.lookup f.name =
          some (f.extract (n % 2 ^ width rest : Nat) : Int)) ↔
        ∀ f ∈ fields rest, values.lookup f.name = some (f.extract n : Int) := by
      refine forall₂_congr fun f hf => ?_
      rw [extract_mod_width hp.2 hf]
    cases s with
    | bits r =>
      rw [encode_cons_bits, map_mul_add_eq_ok_iff hpos fun _ => encode_lt, ih hp.2, hrest,
        accepts_cons_bits, fields_cons_bits, and_assoc]
    | field f =>
      rw [accepts_cons_field, fields_cons_field, List.forall_mem_cons]
      rcases encode_field_cases values f rest with ⟨v, hlookup, hv⟩ | ⟨fault, hunfit, herror⟩
      · rw [encode_cons_field hlookup hv, map_mul_add_eq_ok_iff hpos fun _ => encode_lt, ih hp.2,
          hrest, hlookup]
        constructor
        · rintro ⟨hhead, haccepts, hvalues⟩
          have hn : n / 2 ^ width rest < 2 ^ f.width := hhead ▸ hv
          exact ⟨⟨hn, haccepts⟩, by rw [extract_head hp hn, hhead], hvalues⟩
        · rintro ⟨⟨hn, haccepts⟩, hvalue, hvalues⟩
          rw [extract_head hp hn] at hvalue
          exact ⟨(Int.ofNat_inj.1 (Option.some.inj hvalue)).symm, haccepts, hvalues⟩
      · -- The bits of a field in a word always fit, so its value is not among them.
        rw [herror]
        refine iff_of_false (by simp) ?_
        rintro ⟨-, hvalue, -⟩
        cases hunfit with
        | missing hnone =>
          rw [hvalue] at hnone
          cases hnone
        | tooWide hsome hbad =>
          rw [hvalue, Option.some.injEq] at hsome
          exact hbad (hsome ▸ extract_fits f n)

/-- Values that are encoded fill all fields. -/
theorem fills_of_encode {e : Encoding} (hp : Placed e) {n : Nat} (h : encode values e = .ok n) :
    Fills e values := by
  intro f hf
  exact ⟨_, ((encode_eq_ok_iff hp).1 h).2 f hf, extract_fits f n⟩

/-! ## Values that make no word -/

/-- Values that are refused do not fit a field. -/
theorem encode_fault {e : Encoding} {fault : EncodeFault} (h : encode values e = .error fault) :
    ∃ f ∈ fields e, Unfit values f fault := by
  induction e with
  | nil => cases h
  | cons s rest ih =>
    -- Shifting the value of the rest neither makes a fault nor hides one.
    have hmap : ∀ {q : Nat}, (encode values rest).map (2 ^ width rest * q + ·) = .error fault →
        encode values rest = .error fault := by
      intro q hq
      cases hrest : encode values rest with
      | error fault' =>
        rw [hrest] at hq
        cases hq
        rfl
      | ok n =>
        rw [hrest] at hq
        cases hq
    cases s with
    | bits r =>
      rw [encode_cons_bits] at h
      exact ih (hmap h)
    | field f =>
      rw [fields_cons_field]
      rcases encode_field_cases values f rest with ⟨v, hlookup, hv⟩ | ⟨fault', hunfit, herror⟩
      · rw [encode_cons_field hlookup hv] at h
        rcases ih (hmap h) with ⟨g, hg, hunfit⟩
        exact ⟨g, List.mem_cons_of_mem _ hg, hunfit⟩
      · rw [herror, Except.error.injEq] at h
        exact ⟨f, List.mem_cons_self .., h ▸ hunfit⟩

/-- Values make no word exactly where a field has no value or one that does not fit. -/
theorem encode_fails_iff {e : Encoding} (hp : Placed e) :
    (∃ fault, encode values e = .error fault) ↔
      ∃ f ∈ fields e, values.lookup f.name = none ∨
        ∃ v, values.lookup f.name = some v ∧ ¬ (0 ≤ v ∧ v < 2 ^ f.width) := by
  constructor
  · rintro ⟨fault, h⟩
    rcases encode_fault h with ⟨f, hf, hunfit⟩
    cases hunfit with
    | missing hnone => exact ⟨f, hf, .inl hnone⟩
    | tooWide hsome hbad => exact ⟨f, hf, .inr ⟨_, hsome, hbad⟩⟩
  · rintro ⟨f, hf, hwhy⟩
    cases h : encode values e with
    | error fault => exact ⟨fault, rfl⟩
    | ok n =>
      rcases fills_of_encode hp h f hf with ⟨v, hv, hfits⟩
      rw [hv] at hwhy
      rcases hwhy with hnone | ⟨v', hsome, hbad⟩
      · cases hnone
      · rw [Option.some.injEq] at hsome
        exact absurd (hsome ▸ hfits) hbad

/-! ## Decoding -/

/-- The values read from a word fill all fields. -/
theorem fills_fieldValues {e : Encoding} (hp : Placed e) (word : Int) :
    Fills e (fieldValues e word) := by
  intro f hf
  exact ⟨_, lookup_fieldValues hp hf word, extract_fits f word⟩

/-- Encoding the values read from an accepted word gives the word. -/
theorem encode_fieldValues {e : Encoding} (hp : Placed e) {n : Nat} (h : accepts e n = true) :
    encode (fieldValues e n) e = .ok n :=
  (encode_eq_ok_iff hp).2 ⟨h, fun _ hf => lookup_fieldValues hp hf n⟩

/-- Values that make a word are those that decoding finds in it. -/
theorem lookup_of_encode {e : Encoding} (hp : Placed e) {n : Nat} (h : encode values e = .ok n)
    {f : BitField} (hf : f ∈ fields e) :
    values.lookup f.name = (fieldValues e n).lookup f.name := by
  rw [((encode_eq_ok_iff hp).1 h).2 f hf, lookup_fieldValues hp hf]

end Encoding

/-- A pattern accepts the words that fitting values of its fields make, and no others. The values
found in an accepted word make it, and no other values of the fields do. Values make no word
exactly where a field has none or one that does not fit, and the fault names that field. -/
theorem encode_decode_inverse (p : Pattern) :
    (∀ word : Int, p.accepts word = true ↔
      ∃ values n, p.encoding.Fills values ∧ p.encoding.encode values = .ok n ∧ word = n) ∧
    (∀ word : Int, p.accepts word = true →
      p.encoding.Fills (p.encoding.fieldValues word) ∧
      ∃ n : Nat, word = n ∧ p.encoding.encode (p.encoding.fieldValues word) = .ok n ∧
        ∀ values, p.encoding.encode values = .ok n → ∀ f ∈ p.fields,
          values.lookup f.name = (p.encoding.fieldValues word).lookup f.name) ∧
    (∀ values n, p.encoding.encode values = .ok n → ∀ f ∈ p.fields,
      (p.encoding.fieldValues n).lookup f.name = values.lookup f.name) ∧
    (∀ values, (∃ fault, p.encoding.encode values = .error fault) ↔
      ∃ f ∈ p.fields, values.lookup f.name = none ∨
        ∃ v, values.lookup f.name = some v ∧ ¬ (0 ≤ v ∧ v < 2 ^ f.width)) ∧
    ∀ values fault, p.encoding.encode values = .error fault →
      ∃ f ∈ p.fields, Encoding.Unfit values f fault := by
  have hp := p.placed
  refine ⟨?_, ?_, ?_, fun values => Encoding.encode_fails_iff hp, fun values fault =>
    Encoding.encode_fault⟩
  · intro word
    constructor
    · intro hword
      rcases Encoding.exists_nat_of_accepts hword with ⟨n, rfl, -⟩
      exact ⟨_, n, Encoding.fills_fieldValues hp n, Encoding.encode_fieldValues hp hword, rfl⟩
    · -- That the values fit is not needed here: encoding has tested them.
      rintro ⟨values, n, -, hencode, rfl⟩
      exact ((Encoding.encode_eq_ok_iff hp).1 hencode).1
  · intro word hword
    rcases Encoding.exists_nat_of_accepts hword with ⟨n, rfl, -⟩
    refine ⟨Encoding.fills_fieldValues hp n, n, rfl, Encoding.encode_fieldValues hp hword, ?_⟩
    intro values hencode f hf
    exact Encoding.lookup_of_encode hp hencode hf
  · intro values n hencode f hf
    exact (Encoding.lookup_of_encode hp hencode hf).symm

/-- An instruction of one byte for examples. Two runs of literal bits are neighbours, and a third one
stands between a register field and a number at the lower edge. -/
def shift : Pattern where
  mnemonic := "SHL"
  operands :=
    [.field ⟨3, 5, .register 0, false, Nat.lt_add_of_pos_right Nat.two_pos⟩,
     .field ⟨0, 2, .immediate, false, Nat.two_pos⟩]
  encoding :=
    [.bits ⟨2, 2, Nat.two_pos, by decide⟩,
     .bits ⟨1, 1, Nat.one_pos, by decide⟩,
     .field ⟨3, 5, .register 0, false, Nat.lt_add_of_pos_right Nat.two_pos⟩,
     .bits ⟨0, 1, Nat.one_pos, by decide⟩,
     .field ⟨0, 2, .immediate, false, Nat.two_pos⟩]
  index := 0
  examples := []
  placed := by decide

/-- Two fields are read and encoded again, and a value that does not fit is refused. -/
theorem encode_decode_inverse_shift :
    shift.accepts 0xB3 = true ∧ shift.accepts 0xB7 = false ∧
    shift.encoding.fieldValues 0xB3 = [("reg_3_2_0", 2), ("imm_0_2", 3)] ∧
    shift.encoding.encode [("reg_3_2_0", 2), ("imm_0_2", 3)] = .ok 0xB3 ∧
    (∀ values, shift.encoding.encode values = .ok 0xB3 →
      values.lookup "reg_3_2_0" = some 2 ∧ values.lookup "imm_0_2" = some 3) ∧
    ∃ fault, shift.encoding.encode [("reg_3_2_0", 2), ("imm_0_2", 4)] = .error fault := by
  obtain ⟨-, hdecode, hback, hfails, -⟩ := encode_decode_inverse shift
  have haccepts : shift.accepts 0xB3 = true := by decide
  have hvalues : shift.encoding.fieldValues 0xB3 = [("reg_3_2_0", 2), ("imm_0_2", 3)] := by decide
  obtain ⟨-, n, hn, hencode, -⟩ := hdecode 0xB3 haccepts
  obtain rfl : 0xB3 = n := by omega
  refine ⟨haccepts, by decide, hvalues, hvalues ▸ hencode, ?_, ?_⟩
  · intro values hmade
    constructor
    · exact (hback values _ hmade _ (List.mem_cons_self ..)).symm
    · exact (hback values _ hmade _ (List.mem_cons_of_mem _ (List.mem_cons_self ..))).symm
  · refine (hfails _).2 ⟨_, List.mem_cons_of_mem _ (List.mem_cons_self ..), .inr ⟨4, rfl, ?_⟩⟩
    decide

end SleighForge
