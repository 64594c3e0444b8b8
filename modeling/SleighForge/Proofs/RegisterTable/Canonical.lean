import Mathlib.Data.List.Perm.Subperm
import SleighForge.Proofs.Pattern
import SleighForge.Proofs.RegisterTable.Numbering
import SleighForge.Proofs.Text.Numerals

/-!
# The numbered tables

The numbered tables depend on nothing but the register lists that the fields select from, in the
order of the fields (`tables_eq_tablesOf`). There is one table for each list, in the order of first
occurrence, with an id and a name of its own, and a field is given the position of its list
(`apply_eq_position`).
-/

namespace SleighForge

/-! ## Fresh names -/

/-- A base and its variants are different names. -/
theorem nodup_variants (base : String) (count : Nat) :
    (base :: (List.range count).map fun n => s!"{base}_{n + 1}").Nodup := by
  have htext : ∀ n : Nat, (s!"{base}_{n + 1}").toList =
      base.toList ++ '_' :: (toString (n + 1)).toList := by
    intro n
    simp [String.toList_append, toString]
  rw [List.nodup_cons]
  constructor
  · intro hmem
    rcases List.mem_map.1 hmem with ⟨n, -, heq⟩
    have hlength := congrArg (fun name => name.toList.length) heq
    rw [htext, List.length_append, List.length_cons] at hlength
    omega
  · refine List.nodup_range.map ?_
    intro m n heq
    have hlist := congrArg String.toList heq
    dsimp only at hlist
    rw [htext, htext, List.append_cancel_left_eq, List.cons.injEq] at hlist
    have hsucc := Text.toString_injective (String.toList_injective hlist.2)
    omega

/-- There are more variants than used names, so one of them is new. -/
theorem freshName_not_mem (used : List String) (base : String) : freshName used base ∉ used := by
  unfold freshName
  extract_lets variants
  cases hfind : (base :: variants).find? (· ∉ used) with
  | some name => simpa using List.find?_some hfind
  | none =>
    have hused : base :: variants ⊆ used := by
      intro name hname
      simpa using List.find?_eq_none.1 hfind name hname
    have hle := ((nodup_variants base used.length).subperm hused).length_le
    simp only [List.length_cons, List.length_map, List.length_range] at hle
    omega

/-! ## The tables of register lists -/

/-- The registers that a field selects from. -/
def BitField.registers? (ts : Tables) (f : BitField) : Option (List (Option String)) :=
  (f.table?.bind ts.get?).map RegisterTable.registers

theorem BitField.registers?_eq {ts : Tables} {f : BitField} {id : Int} {t : RegisterTable}
    (hf : f.table? = some id) (ht : ts.get? id = some t) : f.registers? ts = some t.registers := by
  rw [registers?, hf, Option.bind_some, ht, Option.map_some]

theorem BitField.registers?_eq_none {ts : Tables} {f : BitField} (hf : f.table? = none) :
    f.registers? ts = none := by
  rw [registers?, hf, Option.bind_none, Option.map_none]

namespace Numbering

/-- Tables with one more, unless there is one with these registers. -/
def addRegisters (tables : List RegisterTable) (registers : List (Option String)) :
    List RegisterTable :=
  if registers ∈ tables.map RegisterTable.registers then tables
  else tables ++ [⟨tables.length, registers, freshName (tables.map RegisterTable.name)
    (RegisterTable.baseName ⟨tables.length, registers, ""⟩ tables.length)⟩]

/-- One table for each of some register lists. -/
def tablesOf (lists : List (List (Option String))) : List RegisterTable :=
  lists.foldl addRegisters []

/-- What holds of the tables of register lists. -/
structure Distinguished (tables : List RegisterTable) : Prop where
  ids : tables.map RegisterTable.id = (List.range tables.length).map fun (k : Nat) => (k : Int)
  registers : (tables.map RegisterTable.registers).Nodup
  names : (tables.map RegisterTable.name).Nodup

/-- Registers that have a table get no other. -/
theorem addRegisters_of_mem {tables : List RegisterTable} {registers : List (Option String)}
    (h : registers ∈ tables.map RegisterTable.registers) :
    addRegisters tables registers = tables :=
  if_pos h

/-- New registers get a table with the next id and a fresh name. -/
theorem addRegisters_of_not_mem {tables : List RegisterTable} {t : RegisterTable}
    (h : t.registers ∉ tables.map RegisterTable.registers) :
    addRegisters tables t.registers = tables ++ [⟨tables.length, t.registers,
      freshName (tables.map RegisterTable.name) (t.baseName tables.length)⟩] := by
  rw [addRegisters, if_neg h]
  rfl

/-- A new table is told from the others by its id, its registers and its name. -/
theorem Distinguished.add {tables : List RegisterTable} (h : Distinguished tables)
    (registers : List (Option String)) : Distinguished (addRegisters tables registers) := by
  unfold addRegisters
  split
  · exact h
  · next hnew =>
    refine ⟨?_, ?_, ?_⟩
    · simp [h.ids, List.range_succ]
    · rw [List.map_append, List.map_singleton, ← List.concat_eq_append]
      exact h.registers.concat hnew
    · rw [List.map_append, List.map_singleton, ← List.concat_eq_append]
      exact h.names.concat (freshName_not_mem _ _)

/-- Tables that are made one by one are told apart. -/
theorem distinguished_tablesOf (lists : List (List (Option String))) :
    Distinguished (tablesOf lists) := by
  have hfold : ∀ tables, Distinguished tables → Distinguished (lists.foldl addRegisters tables) := by
    induction lists with
    | nil => exact fun _ h => h
    | cons registers lists ih => exact fun tables h => ih _ (h.add registers)
  exact hfold [] ⟨rfl, List.nodup_nil, List.nodup_nil⟩

/-- The tables are those of the lists in the order of first occurrence. -/
theorem map_registers_tablesOf (lists : List (List (Option String))) :
    (tablesOf lists).map RegisterTable.registers = distinct lists := by
  -- From any tables, with `seen` their lists, or the induction would not go through.
  have hfold : ∀ (tables : List RegisterTable) (seen : List (List (Option String))),
      (∀ r, r ∈ seen ↔ r ∈ tables.map RegisterTable.registers) →
      (lists.foldl addRegisters tables).map RegisterTable.registers =
        tables.map RegisterTable.registers ++ unseenBy (fun r => r) seen lists := by
    induction lists with
    | nil =>
      intro tables seen _
      rw [unseenBy, List.append_nil, List.foldl_nil]
    | cons registers lists ih =>
      intro tables seen hseen
      rw [List.foldl_cons, unseenBy, addRegisters]
      by_cases hmem : registers ∈ seen
      · rw [if_pos hmem, if_pos ((hseen _).1 hmem)]
        exact ih tables seen hseen
      · rw [if_neg hmem, if_neg (mt (hseen _).2 hmem), ih _ (registers :: seen)]
        · rw [List.map_append, List.append_assoc]
          rfl
        · intro r
          rw [List.map_append, List.mem_append, List.mem_cons, hseen, or_comm]
          exact or_congr_right List.mem_singleton.symm
  exact hfold [] [] fun r => Iff.rfl

/-- The id of a table is the position of its registers. -/
theorem Distinguished.id_eq {tables : List RegisterTable} (h : Distinguished tables)
    {t : RegisterTable} (ht : t ∈ tables) :
    t.id = ((tables.map RegisterTable.registers).idxOf t.registers : Nat) := by
  rcases List.getElem_of_mem ht with ⟨k, hk, rfl⟩
  have hid : (tables.map RegisterTable.id)[k]? = some (k : Int) := by
    rw [h.ids, List.getElem?_map, List.getElem?_range hk, Option.map_some]
  have hidx := h.registers.idxOf_getElem k (by rwa [List.length_map])
  rw [List.getElem_map] at hidx
  rw [hidx]
  simpa [hk] using hid

/-! ## Numbering makes them -/

variable {working : Tables} {n n' : Numbering}

/-- Adding a field adds the table of its registers, if it has one. -/
theorem Adds.tables_eq (h : Sound working n) {f : BitField} (hadds : Adds working n f n') :
    n'.tables = (f.registers? working).toList.foldl addRegisters n.tables := by
  cases hadds with
  | none htable =>
    rw [BitField.registers?_eq_none htable]
    rfl
  | seen htable hseen =>
    rcases Option.isSome_iff_exists.1 hseen with ⟨new, hlook⟩
    rcases h.same _ new hlook with ⟨u, t, hu, ht, -, hregs⟩
    rw [BitField.registers?_eq htable hu, ← hregs]
    exact (addRegisters_of_mem (List.mem_map_of_mem ht)).symm
  | lent htable _ hu _ ht hregs =>
    rw [BitField.registers?_eq htable hu, ← hregs]
    exact (addRegisters_of_mem (List.mem_map_of_mem ht)).symm
  | made htable _ hu _ hnone =>
    rw [BitField.registers?_eq htable hu]
    refine (addRegisters_of_not_mem ?_).symm
    rw [List.mem_map]
    rintro ⟨t, ht, heq⟩
    exact hnone t ht heq

theorem Adds.two_le {f : BitField} (hadds : Adds working n f n')
    (h : ∀ t ∈ n.tables, 2 ≤ t.members.length) : ∀ t ∈ n'.tables, 2 ≤ t.members.length := by
  cases hadds with
  | none | seen | lent => exact h
  | made _ _ _ htwo =>
    intro t ht
    rcases List.mem_append.1 ht with ht | ht
    · exact h t ht
    · rw [List.mem_singleton.1 ht]
      exact htwo

/-- Adding fields one by one adds their tables one by one. -/
theorem addFields_tables {xs : List (Pattern × BitField)} (h : Sound working n)
    (htwo : ∀ t ∈ n.tables, 2 ≤ t.members.length)
    (hfold : xs.foldlM (fun n x => addField working x.1 n x.2) n = .ok n') :
    n'.tables = (xs.filterMap fun x => x.2.registers? working).foldl addRegisters n.tables ∧
      ∀ t ∈ n'.tables, 2 ≤ t.members.length := by
  induction xs generalizing n with
  | nil =>
    cases hfold
    exact ⟨rfl, htwo⟩
  | cons x xs ih =>
    rw [List.foldlM_cons] at hfold
    cases hone : addField working x.1 n x.2 with
    | error fault =>
      rw [hone] at hfold
      cases hfold
    | ok n₁ =>
      rw [hone] at hfold
      have hadds := adds_of_addField hone
      rcases ih (addField_spec h hone).1.sound (hadds.two_le htwo) hfold with ⟨htables, htwo'⟩
      refine ⟨?_, htwo'⟩
      rw [htables, hadds.tables_eq h, List.filterMap_cons]
      cases x.2.registers? working <;> rfl

/-- The register lists that the fields of some patterns select from, one for each field that selects
one. -/
def selections (ts : Tables) (patterns : List Pattern) : List (List (Option String)) :=
  patterns.flatMap fun p => p.fields.filterMap (BitField.registers? ts)

/-- The new tables are those of the selections, in the order of the patterns. -/
theorem ofPatterns_tables {patterns : List Pattern} (h : ofPatterns working patterns = .ok n) :
    n.tables = tablesOf (selections working patterns) ∧
      ∀ t ∈ n.tables, 2 ≤ t.members.length := by
  have hlists : (patterns.flatMap fun p => p.fields.map (p, ·)).filterMap
      (fun x => x.2.registers? working) = selections working patterns := by
    rw [List.filterMap_flatMap, selections]
    simp only [List.filterMap_map]
    rfl
  rw [ofPatterns_eq] at h
  rw [← hlists]
  exact addFields_tables (sound_empty working) (fun _ ht => absurd ht List.not_mem_nil) h

/-! ## The ids that the fields are given -/

/-- The ids of the tables that the fields select from, one for each field that selects from one. -/
def references (patterns : List Pattern) : List Int :=
  patterns.flatMap fun p => p.fields.filterMap BitField.table?

/-- The position of a register list among some, in the order of first occurrence. -/
def position (lists : List (List (Option String))) (registers : List (Option String)) : Int :=
  ((distinct lists).idxOf registers : Nat)

section

variable {patterns : List Pattern}

theorem distinguished_of_ofPatterns (h : ofPatterns working patterns = .ok n) :
    Distinguished n.tables := by
  rw [(ofPatterns_tables h).1]
  exact distinguished_tablesOf _

/-- The new tables have the registers of the selections, without repeats. -/
theorem map_registers_of_ofPatterns (h : ofPatterns working patterns = .ok n) :
    n.tables.map RegisterTable.registers = distinct (selections working patterns) := by
  rw [(ofPatterns_tables h).1]
  exact map_registers_tablesOf _

/-- A field is given the position of its register list, and that list has two registers. -/
theorem apply_eq_position (h : ofPatterns working patterns = .ok n) {p : Pattern}
    (hp : p ∈ patterns) {f : BitField} (hf : f ∈ p.fields) {old : Int}
    (hold : f.table? = some old) :
    ∃ u, working.get? old = some u ∧ 2 ≤ u.members.length ∧
      n.apply old = position (selections working patterns) u.registers := by
  have hspec := ofPatterns_spec h
  rcases hspec.same p hp f hf old hold with ⟨u, t, hu, hnew, hregs⟩
  rcases hspec.numbered.get?_eq_some_iff.1 hnew with ⟨ht, hid⟩
  have ht : t ∈ n.tables := List.mem_reverse.1 ht
  refine ⟨u, hu, ?_, ?_⟩
  · rw [← RegisterTable.members_congr hregs]
    exact (ofPatterns_tables h).2 t ht
  · rw [← hid, (distinguished_of_ofPatterns h).id_eq ht, map_registers_of_ofPatterns h, hregs]
    rfl

/-- The new ids count the selections in the order in which they first occur. -/
theorem references_mapTable (h : ofPatterns working patterns = .ok n) :
    references (patterns.map (Pattern.mapTable n.apply)) =
      (selections working patterns).map (position (selections working patterns)) := by
  rw [references, List.flatMap_map, selections, List.map_flatMap, ← selections]
  refine List.flatMap_congr fun p hp => ?_
  rw [Pattern.fields_mapTable, List.filterMap_map, List.map_filterMap]
  refine List.filterMap_congr fun f hf => ?_
  rw [Function.comp_apply, BitField.table?_mapTable]
  cases hold : f.table? with
  | none => rw [BitField.registers?_eq_none hold, Option.map_none, Option.map_none]
  | some old =>
    rcases apply_eq_position h hp hf hold with ⟨u, hu, -, happly⟩
    rw [BitField.registers?_eq hold hu, Option.map_some, Option.map_some, happly]

/-- The new ids come up in ascending order, and each comes up. -/
theorem distinct_references (h : ofPatterns working patterns = .ok n) :
    distinct (references (patterns.map (Pattern.mapTable n.apply))) =
      n.tables.map RegisterTable.id := by
  let lists := selections working patterns
  have happart : ∀ r ∈ lists, ∀ r', position lists r' = position lists r → r' = r := by
    intro r hr r' heq
    exact ((List.idxOf_inj (mem_distinct.2 hr)).1 (Int.ofNat_inj.1 heq).symm).symm
  calc distinct (references (patterns.map (Pattern.mapTable n.apply)))
      = (distinct lists).map (position lists) := by
        rw [references_mapTable h, distinct_map happart]
    _ = n.tables.map fun t => position lists t.registers := by
        rw [← map_registers_of_ofPatterns h, List.map_map]
        rfl
    _ = n.tables.map RegisterTable.id := by
        refine List.map_congr_left fun t ht => ?_
        rw [(distinguished_of_ofPatterns h).id_eq ht, map_registers_of_ofPatterns h]
        rfl

/-- Listing the numbered tables gives them in the order in which they were numbered. -/
theorem toList_toTables (h : ofPatterns working patterns = .ok n) : n.toTables.toList = n.tables := by
  have hnumbered := (ofPatterns_spec h).numbered
  have hids : n.toTables.ids = (n.tables.map RegisterTable.id).reverse := by
    rw [Tables.ids, distinct_eq_self hnumbered.nodup, toTables, List.map_reverse]
  have hsorted : (n.tables.map RegisterTable.id).Pairwise (· ≤ ·) := by
    rw [(distinguished_of_ofPatterns h).ids, List.pairwise_map]
    exact List.pairwise_lt_range.imp fun hlt => Int.ofNat_le.2 (Nat.le_of_lt hlt)
  -- Ids are given out upwards, so sorting the history, newest first, puts it back in order.
  have hsort : n.toTables.ids.mergeSort (fun a b => a ≤ b) = n.tables.map RegisterTable.id := by
    have hperm := (List.mergeSort_perm n.toTables.ids fun a b => a ≤ b).trans
      (hids ▸ List.reverse_perm _)
    refine hperm.eq_of_pairwise (fun a b _ _ => Int.le_antisymm) ?_ hsorted
    refine (List.pairwise_mergeSort ?_ ?_ n.toTables.ids).imp fun hle => of_decide_eq_true hle
    · intro a b c hab hbc
      exact decide_eq_true (Int.le_trans (of_decide_eq_true hab) (of_decide_eq_true hbc))
    · intro a b
      simpa using Int.le_total a b
  have hget : ∀ t ∈ n.tables, n.toTables.get? t.id = some t := by
    intro t ht
    exact hnumbered.get?_eq_some_iff.2 ⟨List.mem_reverse.2 ht, rfl⟩
  rw [Tables.toList, hsort, List.filterMap_map]
  calc n.tables.filterMap (n.toTables.get? ∘ RegisterTable.id)
      = n.tables.filterMap some := List.filterMap_congr hget
    _ = n.tables := List.filterMap_some

end

end Numbering

end SleighForge
