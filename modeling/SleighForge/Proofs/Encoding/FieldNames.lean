import SleighForge.Proofs.Association
import SleighForge.Proofs.Encoding.LiteralBits
import SleighForge.Proofs.Text.Numerals
import SleighForge.Token

/-!
# Names of fields

The name of a field tells its kind, its lowest bit, its width and its table
(`TokenRole.nameParts_injective`), so fields with one name begin at one bit. The fields of an
encoding lie apart, and hence their names do too (`nodup_names`): the values of a word can be looked
up by name (`lookup_fieldValues`).
-/

namespace SleighForge

namespace TokenRole

/-- What a name begins with. -/
def kindText : TokenRole → String
  | .opcode => "op"
  | .immediate true => "simm"
  | .immediate false => "imm"
  | .register _ => "reg"

/-- What a name ends in. -/
def tableParts : TokenRole → List String
  | .register table => [toString table]
  | _ => []

/-- The parts of the name of a field: its kind, its lowest bit, its width and its table. -/
def nameParts (lo width : Nat) (r : TokenRole) : List String :=
  r.kindText :: toString lo :: toString width :: r.tableParts

theorem nameParts_ne_nil (lo width : Nat) (r : TokenRole) : r.nameParts lo width ≠ [] :=
  List.cons_ne_nil _ _

/-- The parts of a name have no underscores. -/
theorem isPart_of_mem_nameParts {lo width : Nat} {r : TokenRole} {s : String}
    (hs : s ∈ r.nameParts lo width) : Text.IsPart s := by
  rcases List.mem_cons.1 hs with rfl | hs
  · cases r with
    | opcode | register => simp [Text.IsPart, kindText]
    | immediate signed => cases signed <;> simp [Text.IsPart, kindText]
  rcases List.mem_cons.1 hs with rfl | hs
  · exact Text.isPart_toString lo
  rcases List.mem_cons.1 hs with rfl | hs
  · exact Text.isPart_toString width
  cases r with
  | opcode | immediate => cases hs
  | register table =>
    rw [List.mem_singleton.1 hs]
    exact Text.isPart_toString_int table

/-- A role is told by its kind and by its table. -/
theorem eq_of_kindText_eq {r r' : TokenRole} (hkind : r.kindText = r'.kindText)
    (htable : r.tableParts = r'.tableParts) : r = r' := by
  cases r with
  | opcode => cases r' with
    | opcode => rfl
    | immediate signed => cases signed <;> simp [kindText] at hkind
    | register => simp [kindText] at hkind
  | immediate signed => cases r' with
    | opcode | register => cases signed <;> simp [kindText] at hkind
    | immediate signed' => cases signed <;> cases signed' <;> simp_all [kindText]
  | register table => cases r' with
    | opcode => simp [kindText] at hkind
    | immediate signed => cases signed <;> simp [kindText] at hkind
    | register table' => rw [Text.toString_int_injective (List.singleton_inj.1 htable)]

/-- The parts tell all of the field. -/
theorem nameParts_injective {lo width lo' width' : Nat} {r r' : TokenRole}
    (h : r.nameParts lo width = r'.nameParts lo' width') : r = r' ∧ lo = lo' ∧ width = width' := by
  simp only [nameParts, List.cons.injEq] at h
  obtain ⟨hkind, hlo, hwidth, htable⟩ := h
  exact ⟨eq_of_kindText_eq hkind htable, Text.toString_injective hlo,
    Text.toString_injective hwidth⟩

end TokenRole

namespace BitField

/-- What the bits of the field hold. -/
def role (f : BitField) : TokenRole :=
  match f.kind with
  | .immediate => .immediate f.signed
  | .register table => .register table

/-- The name of a field is made of its parts. -/
theorem name_eq (f : BitField) : f.name = "_".intercalate (f.role.nameParts f.lo f.width) := by
  unfold name role
  cases f.kind with
  | immediate => cases f.signed <;> rfl
  | register table => rfl

/-- Fields with one name begin at the same bit. -/
theorem lo_eq_of_name_eq {f g : BitField} (h : f.name = g.name) : f.lo = g.lo := by
  rw [name_eq, name_eq] at h
  have hparts := Text.eq_of_intercalate_eq (TokenRole.nameParts_ne_nil _ _ _)
    (TokenRole.nameParts_ne_nil _ _ _) (fun _ => TokenRole.isPart_of_mem_nameParts)
    (fun _ => TokenRole.isPart_of_mem_nameParts) h
  exact (TokenRole.nameParts_injective hparts).2.1

end BitField

namespace Encoding

/-- No two fields of an encoding have one name. -/
theorem nodup_names {e : Encoding} (hp : Placed e) : ((fields e).map BitField.name).Nodup := by
  refine List.pairwise_map.2 ((pairwise_fields hp).imp ?_)
  intro f g hbelow hname
  have hlo := BitField.lo_eq_of_name_eq hname
  have := g.lo_lt_hi
  omega

/-- The bits of the fields in a word, under their names, as values to encode. -/
def fieldValues (e : Encoding) (word : Int) : List (String × Int) :=
  (decode e word).map fun entry => (entry.1, (entry.2 : Int))

/-- The values that are read from a word have one entry for each field. -/
theorem lookup_fieldValues {e : Encoding} (hp : Placed e) {f : BitField} (hf : f ∈ fields e)
    (word : Int) : (fieldValues e word).lookup f.name = some (f.extract word : Int) := by
  have hvalues : fieldValues e word =
      (fields e).map fun f => (f.name, (f.extract word : Int)) := List.map_map
  rw [hvalues]
  exact lookup_map_of_nodup (nodup_names hp) hf

end Encoding

end SleighForge
