import SleighForge.Proofs.Specification.Names
import SleighForge.Specification

/-!
# Attached tables

A specification attaches the tables to the fields that select from them. Each of these fields is in
the statement of its own table and in no other (`count_fieldsOfTable`), and the statement has a
register or an underscore for each selector (`getElem?_paddedRegisters`).
-/

namespace SleighForge

namespace RegisterTable

/-- A table has no more registers than selectors. -/
theorem length_registers_le (t : RegisterTable) : t.registers.length ≤ 2 ^ t.selectorWidth := by
  have hlt : t.registers.length - 1 < 2 ^ t.selectorWidth := Nat.lt_log2_self
  omega

end RegisterTable

namespace Specification

theorem length_paddedRegisters (t : RegisterTable) :
    (paddedRegisters t).length = 2 ^ t.selectorWidth := by
  have := t.length_registers_le
  rw [paddedRegisters, List.length_map, List.length_append, List.length_replicate]
  omega

/-- A selector without a register has an underscore. -/
theorem getElem?_paddedRegisters (t : RegisterTable) {i : Nat} (hi : i < 2 ^ t.selectorWidth) :
    (paddedRegisters t)[i]? = some ((t.registers[i]?.join).getD "_") := by
  have hlen := t.length_registers_le
  rw [paddedRegisters, List.getElem?_map]
  by_cases hlt : i < t.registers.length
  · rw [List.getElem?_append_left hlt, List.getElem?_eq_getElem hlt]
    rfl
  · have hge := Nat.le_of_not_lt hlt
    have hin : i - t.registers.length < 2 ^ t.selectorWidth - t.registers.length := by omega
    rw [List.getElem?_append_right hge, List.getElem?_replicate, if_pos hin,
      List.getElem?_eq_none hge]
    rfl

/-! ## The fields of a table -/

variable {m : Model} {id : Int}

/-- The fields of a table are those that select from it. -/
theorem mem_fieldsOfTable {name : String} : name ∈ fieldsOfTable m id ↔
    ∃ f ∈ m.tokens.flatMap Token.fields, f.table? = some id ∧ f.name = name := by
  rw [fieldsOfTable, List.mem_filterMap]
  refine exists_congr fun f => and_congr_right fun _ => ?_
  by_cases htable : f.table? = some id
  · rw [if_pos htable, Option.some.injEq, and_iff_right htable]
  · rw [if_neg htable]
    simp [htable]

/-- The fields of a table are in the order in which they are declared. -/
theorem fieldsOfTable_sublist (m : Model) (id : Int) :
    (fieldsOfTable m id).Sublist ((m.tokens.flatMap Token.fields).map TokenField.name) := by
  have hfilter : fieldsOfTable m id =
      ((m.tokens.flatMap Token.fields).filter (·.table? = some id)).map TokenField.name := by
    rw [fieldsOfTable, ← List.filterMap_eq_map, ← List.filterMap_eq_filter,
      List.filterMap_filterMap]
    refine List.filterMap_congr fun f _ => ?_
    by_cases htable : f.table? = some id <;> simp [htable, Option.guard]
  rw [hfilter]
  exact List.filter_sublist.map _

/-- A field that selects from a table is in one statement, and that is the one of the table. -/
theorem count_fieldsOfTable (h : m.LaidOut) {f : TokenField}
    (hf : f ∈ m.tokens.flatMap Token.fields) {t : RegisterTable} (htable : f.table? = some t.id)
    (ht : t ∈ m.tables.toList) :
    f.name ∈ fieldsOfTable m t.id ∧
      (m.tables.toList.flatMap fun u => fieldsOfTable m u.id).count f.name = 1 := by
  have hmem : f.name ∈ fieldsOfTable m t.id := mem_fieldsOfTable.2 ⟨f, hf, htable, rfl⟩
  refine ⟨hmem, ?_⟩
  have hnodup : (m.tables.toList.flatMap fun u => fieldsOfTable m u.id).Nodup := by
    rw [List.nodup_flatMap]
    constructor
    · intro u _
      exact (fieldsOfTable_sublist m u.id).nodup h.nodup_names
    · refine m.tables.pairwise_toList.imp ?_
      intro u v hne name hu hv
      obtain ⟨g, hg, hgu, rfl⟩ := mem_fieldsOfTable.1 hu
      obtain ⟨g', hg', hgv, hname⟩ := mem_fieldsOfTable.1 hv
      rw [List.inj_on_of_nodup_map h.nodup_names hg' hg hname, hgu, Option.some.injEq] at hgv
      exact hne hgv
  exact List.count_eq_one_of_mem hnodup (List.mem_flatMap.2 ⟨t, ht, hmem⟩)

end Specification

end SleighForge
