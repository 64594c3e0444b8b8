import SleighForge.Pattern
import SleighForge.Proofs.Encoding.Opened

/-!
# Patterns with renamed tables

Renaming the register tables of a pattern renames those of its fields, and fields that the operands
name stay fields of the encoding.
-/

namespace SleighForge

namespace Pattern

theorem fields_mapTable (g : Int → Int) (p : Pattern) :
    (p.mapTable g).fields = p.fields.map (BitField.mapTable g) :=
  Encoding.fields_mapTable g p.encoding

theorem mem_operands_mapTable {g : Int → Int} {p : Pattern} {op : Operand} :
    op ∈ (p.mapTable g).operands ↔ ∃ op₀ ∈ p.operands, op₀.mapTable g = op :=
  List.mem_map

/-- The fields that the operands name occur in the encoding. -/
def OperandsEncoded (p : Pattern) : Prop :=
  ∀ f, .field f ∈ p.operands → f ∈ p.fields

/-- The register fields that the operands name occur in the encoding. -/
def RegistersEncoded (p : Pattern) : Prop :=
  ∀ f, .field f ∈ p.operands → f.table?.isSome → f ∈ p.fields

/-- If all fields among the operands are encoded, those that select registers are. -/
theorem OperandsEncoded.registers {p : Pattern} (h : p.OperandsEncoded) : p.RegistersEncoded :=
  fun f hf _ => h f hf

theorem OperandsEncoded.mapTable {p : Pattern} (h : p.OperandsEncoded) (g : Int → Int) :
    (p.mapTable g).OperandsEncoded := by
  intro f hf
  rcases mem_operands_mapTable.1 hf with ⟨op, hop, heq⟩
  rw [fields_mapTable]
  cases op with
  | text | register | immediate => cases heq
  | field f₀ =>
    rw [← Operand.field.inj heq]
    exact List.mem_map_of_mem (h f₀ hop)

theorem RegistersEncoded.mapTable {p : Pattern} (h : p.RegistersEncoded) (g : Int → Int) :
    (p.mapTable g).RegistersEncoded := by
  intro f hf htable
  rcases mem_operands_mapTable.1 hf with ⟨op, hop, heq⟩
  rw [fields_mapTable]
  cases op with
  | text | register | immediate => cases heq
  | field f₀ =>
    rw [← Operand.field.inj heq] at htable ⊢
    rw [BitField.table?_mapTable, Option.isSome_map] at htable
    exact List.mem_map_of_mem (h f₀ hop htable)

end Pattern

end SleighForge
