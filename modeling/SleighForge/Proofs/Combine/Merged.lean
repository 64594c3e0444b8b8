import SleighForge.Proofs.Combine.Group
import SleighForge.Proofs.Combine.Selection
import SleighForge.Proofs.Combine.Span
import SleighForge.Proofs.Encoding.Opened
import SleighForge.Proofs.RegisterTable.Interning

/-!
# Merged patterns

A merged pattern comes from its first member by opening a field (`OpenedBy`). It has what its
members have in common, and accepts their words (`OpenedBy.accepts`). `Merged` adds that the field
shows the operand of each member in the words of that member.
-/

namespace SleighForge

/-! ## What a field stands for -/

namespace BitField

/-- The bits of the field stand for the operand: they are the number in two's complement, or they
select the register. -/
def Shows (f : BitField) (tables : Tables) (bits : Nat) : Operand → Prop
  | .immediate v _ =>
    f.kind = .immediate ∧ -2 ^ (f.width - 1) ≤ v ∧ v < 2 ^ f.width ∧ (bits : Int) = v % 2 ^ f.width
  | .register name =>
    ∃ id t, f.kind = .register id ∧ tables.get? id = some t ∧ t.registers[bits]? = some (some name)
  | _ => False

/-- The table of the field, if it needs one, exists, asks for its width and has two registers. -/
def HasTable (f : BitField) (tables : Tables) : Prop :=
  ∀ id, f.kind = .register id →
    ∃ t, tables.get? id = some t ∧ t.selectorWidth = f.width ∧ 2 ≤ t.members.length

variable {f : BitField} {ts ts' : Tables}

/-- What a field shows it shows while its table is kept. -/
theorem Shows.mono (hkeep : ∀ id t, ts.get? id = some t → ts'.get? id = some t) {bits : Nat}
    {op : Operand} (h : f.Shows ts bits op) : f.Shows ts' bits op := by
  cases op with
  | immediate v spelling => exact h
  | register name =>
    rcases h with ⟨id, t, hkind, ht, hreg⟩
    exact ⟨id, t, hkind, hkeep id t ht, hreg⟩
  | text s => exact h
  | field g => exact h

/-- What a field shows does not depend on how numbers are spelled. -/
theorem shows_congr {bits : Nat} {op op' : Operand} (h : op.Same op') :
    f.Shows ts bits op ↔ f.Shows ts bits op' := by
  cases op <;> cases op' <;> simp_all [Operand.Same, Operand.bare, Shows]

theorem HasTable.mono (hkeep : ∀ id t, ts.get? id = some t → ts'.get? id = some t)
    (h : f.HasTable ts) : f.HasTable ts' := by
  intro id hkind
  rcases h id hkind with ⟨t, ht, hrest⟩
  exact ⟨t, hkeep id t ht, hrest⟩

end BitField

namespace Combine

/-- In a word that a pattern accepts, a field over literal bits holds those bits. -/
theorem extract_of_accepts {p : Pattern} {f : BitField} (hl : p.encoding.IsLiteral f.lo f.hi)
    {word : Int} (hw : p.accepts word = true) :
    f.extract word = bitSlice p.encoding.literalValue f.lo f.width := by
  refine Encoding.bitSlice_of_accepts p.placed hw ?_
  rwa [f.lo_add_width]

/-- Members that differ at a bit differ in every slice that has it. -/
theorem bitSlice_ne_of_differsAt {p q : Pattern} {i : Nat} (h : DiffersAt p q i) (lo width : Nat)
    (hlo : lo ≤ i) (hhi : i < lo + width) :
    bitSlice p.encoding.literalValue lo width ≠ bitSlice q.encoding.literalValue lo width := by
  intro heq
  have hin : i - lo < width := by omega
  have hsum : lo + (i - lo) = i := by omega
  have hbit := congrArg (·.testBit (i - lo)) heq
  simp only [testBit_bitSlice, hsum, hin, decide_true, Bool.true_and] at hbit
  exact h hbit

/-! ## Foreign words -/

/-- The pattern with the field opened in it agrees with one of the words. -/
def Collides (p : Pattern) (f : BitField) (foreign : List Int) : Prop :=
  ∃ word ∈ foreign, (p.encoding.opened f).agrees word = true

instance (p : Pattern) (f : BitField) (foreign : List Int) : Decidable (Collides p f foreign) :=
  inferInstanceAs (Decidable (∃ word ∈ foreign, (p.encoding.opened f).agrees word = true))

/-- A word of the width of the pattern agrees with it where the pattern accepts it. -/
theorem collides_iff_accepts {p : Pattern} {f : BitField} {foreign : List Int}
    (hl : p.encoding.IsLiteral f.lo f.hi)
    (hwords : ∀ word ∈ foreign, 0 ≤ word ∧ word < 2 ^ p.width) :
    Collides p f foreign ↔ ∃ word ∈ foreign, (p.encoding.opened f).accepts word = true := by
  refine exists_congr fun word => and_congr_right fun hword => ?_
  obtain ⟨hge, hlt⟩ := hwords word hword
  have hwidth : (p.encoding.opened f).width = p.width := Encoding.width_opened p.placed hl
  rw [Encoding.accepts_iff, hwidth]
  exact ⟨fun h => ⟨hge, hlt, h⟩, fun h => h.2.2⟩

/-- Testing the opened pattern on the foreign words is testing for a collision. -/
theorem any_agrees_generalize {p : Pattern} {position : Nat} {f : BitField}
    (hl : p.encoding.IsLiteral f.lo f.hi) (examples : List Example) (foreign : List Int) :
    foreign.any (p.generalize position f hl examples).encoding.agrees = true ↔
      Collides p f foreign :=
  List.any_eq_true

/-! ## Opening a field over a group -/

/-- A pattern comes from the first of a group by opening a field over the bits in which the group
differs, of which there are some. It holds the examples of the group and agrees with no foreign
word. -/
structure OpenedBy (first : Pattern) (rest : List Pattern) (position : Nat) (foreign : List Int)
    (f : BitField) (result : Pattern) : Prop where
  literal : first.encoding.IsLiteral f.lo f.hi
  eq : result = first.generalize position f literal ((first :: rest).flatMap Pattern.examples)
  covers : ∀ p ∈ rest, ∀ i, DiffersAt p first i → f.lo ≤ i ∧ i < f.hi
  varies : ∃ p ∈ rest, ∃ i, DiffersAt p first i
  refuses : ∀ word ∈ foreign, result.encoding.agrees word = false

namespace OpenedBy

variable {kind : OperandKind} {first p result : Pattern} {rest : List Pattern} {position : Nat}
  {foreign : List Int} {f : BitField}

/-- The result has the examples of the members, one member after the other. -/
theorem examples_eq (h : OpenedBy first rest position foreign f result) :
    result.examples = (first :: rest).flatMap Pattern.examples := by
  rw [h.eq]
  rfl

theorem width_eq (h : OpenedBy first rest position foreign f result)
    (hg : IsGroup kind position (first :: rest)) (hp : p ∈ first :: rest) :
    result.width = p.width := by
  rw [h.eq, Pattern.width_generalize]
  exact hg.width_eq (List.mem_cons_self ..) hp

theorem mnemonic_eq (h : OpenedBy first rest position foreign f result)
    (hg : IsGroup kind position (first :: rest)) (hp : p ∈ first :: rest) :
    result.mnemonic = p.mnemonic := by
  rw [← hg.mnemonic_eq (List.mem_cons_self ..) hp, h.eq]
  rfl

theorem length_eq (h : OpenedBy first rest position foreign f result)
    (hg : IsGroup kind position (first :: rest)) (hp : p ∈ first :: rest) :
    result.operands.length = p.operands.length := by
  rw [h.eq, ← hg.length_eq (List.mem_cons_self ..) hp]
  exact List.length_set

/-- The result has the new field for an operand. -/
theorem operand_eq (h : OpenedBy first rest position foreign f result)
    (hg : IsGroup kind position (first :: rest)) :
    result.operands[position]? = some (.field f) := by
  rw [h.eq]
  exact List.getElem?_set_self (hg.position_lt (List.mem_cons_self ..))

/-- Away from the position the operands are those of each member. -/
theorem bareAt?_eq (h : OpenedBy first rest position foreign f result)
    (hg : IsGroup kind position (first :: rest)) (hp : p ∈ first :: rest) {i : Nat}
    (hi : i ≠ position) : result.bareAt? i = p.bareAt? i := by
  have hset : result.operands[i]? = first.operands[i]? := by
    rw [h.eq]
    exact List.getElem?_set_ne (Ne.symm hi)
  rw [← hg.bareAt?_eq (List.mem_cons_self ..) hp hi, Pattern.bareAt?, hset]
  rfl

/-- All other operands are those of the first member. -/
theorem mem_operands (h : OpenedBy first rest position foreign f result) {op : Operand}
    (hop : op ∈ result.operands) : op = .field f ∨ op ∈ first.operands := by
  rw [h.eq] at hop
  exact (List.mem_or_eq_of_mem_set hop).symm

/-- The fields among the operands of the first member stay. -/
theorem field_mem_operands (h : OpenedBy first rest position foreign f result)
    (hg : IsGroup kind position (first :: rest)) {g : BitField}
    (hop : .field g ∈ first.operands) : .field g ∈ result.operands := by
  obtain ⟨i, hi⟩ := List.mem_iff_getElem?.1 hop
  have hne : position ≠ i := by
    rintro rfl
    obtain ⟨op, hat, hkind⟩ := hg.holds first (List.mem_cons_self ..)
    rw [hi, Option.some.injEq] at hat
    rw [← hat] at hkind
    cases kind with
    | immediate | register => cases hkind
  refine List.mem_iff_getElem?.2 ⟨i, ?_⟩
  rw [h.eq, ← hi]
  exact List.getElem?_set_ne hne

/-- The fields of the result are the new one and those of the members. -/
theorem mem_fields (h : OpenedBy first rest position foreign f result) {g : BitField} :
    g ∈ result.fields ↔ g = f ∨ g ∈ first.fields := by
  rw [h.eq]
  exact Encoding.mem_fields_opened first.placed h.literal

/-- The new field is opened where all members have literal bits. -/
theorem isLiteral (h : OpenedBy first rest position foreign f result)
    (hg : IsGroup kind position (first :: rest)) (hp : p ∈ first :: rest) :
    p.encoding.IsLiteral f.lo f.hi :=
  (hg.isLiteral_iff (List.mem_cons_self ..) hp f.lo f.hi).1 h.literal

/-- The merged pattern accepts the words of its members. -/
theorem accepts (h : OpenedBy first rest position foreign f result)
    (hg : IsGroup kind position (first :: rest)) (hp : p ∈ first :: rest) {word : Int}
    (hw : p.accepts word = true) : result.accepts word = true := by
  have hwidth : first.encoding.width = p.encoding.width := hg.width_eq (List.mem_cons_self ..) hp
  have hfields : first.encoding.fields = p.encoding.fields :=
    hg.fields_eq (List.mem_cons_self ..) hp
  have hagree : Encoding.AgreeOutside f.lo f.hi first.encoding p.encoding := by
    refine Encoding.agreeOutside_of_testBit first.placed p.placed hwidth hfields ?_
    intro i hi
    rcases List.mem_cons.1 hp with rfl | hp
    · exact absurd rfl hi
    · exact h.covers p hp i (Ne.symm hi)
  rw [h.eq]
  exact Encoding.accepts_opened first.placed h.literal hwidth hagree hw

/-- In a word of a member the field holds the literal bits of that member. -/
theorem extract_eq (h : OpenedBy first rest position foreign f result)
    (hg : IsGroup kind position (first :: rest)) (hp : p ∈ first :: rest) {word : Int}
    (hw : p.accepts word = true) :
    f.extract word = bitSlice p.encoding.literalValue f.lo f.width :=
  extract_of_accepts (h.isLiteral hg hp) hw

/-- Two members differ in the bits of the field. -/
theorem exists_bitSlice_ne (h : OpenedBy first rest position foreign f result) :
    ∃ p ∈ rest, bitSlice p.encoding.literalValue f.lo f.width ≠
      bitSlice first.encoding.literalValue f.lo f.width := by
  rcases h.varies with ⟨p, hp, i, hdiff⟩
  rcases h.covers p hp i hdiff with ⟨hlo, hhi⟩
  refine ⟨p, hp, bitSlice_ne_of_differsAt hdiff _ _ hlo ?_⟩
  rwa [f.lo_add_width]

end OpenedBy

/-- The field of a merged pattern shows the operand of each member, and has the table it needs, in
which every register has the selector of some member. -/
structure Merged (tables : Tables) (first : Pattern) (rest : List Pattern) (position : Nat)
    (foreign : List Int) (f : BitField) (result : Pattern) : Prop
    extends OpenedBy first rest position foreign f result where
  shows : ∀ p ∈ first :: rest, ∃ op, p.operands[position]? = some op ∧
    f.Shows tables (bitSlice p.encoding.literalValue f.lo f.width) op
  hasTable : f.HasTable tables
  selected : ∀ id, f.kind = .register id → ∃ t, tables.get? id = some t ∧
    ∀ (i : Nat) name, t.registers[i]? = some (some name) →
      ∃ p ∈ first :: rest, bitSlice p.encoding.literalValue f.lo f.width = i

theorem Merged.mono {ts ts' : Tables} {first result : Pattern} {rest : List Pattern}
    {position : Nat} {foreign : List Int} {f : BitField}
    (hkeep : ∀ id t, ts.get? id = some t → ts'.get? id = some t)
    (h : Merged ts first rest position foreign f result) :
    Merged ts' first rest position foreign f result where
  toOpenedBy := h.toOpenedBy
  shows p hp := by
    rcases h.shows p hp with ⟨op, hop, hshows⟩
    exact ⟨op, hop, hshows.mono hkeep⟩
  hasTable := h.hasTable.mono hkeep
  selected id hkind := by
    rcases h.selected id hkind with ⟨t, ht, hall⟩
    exact ⟨t, hkeep id t ht, hall⟩

end Combine

end SleighForge
