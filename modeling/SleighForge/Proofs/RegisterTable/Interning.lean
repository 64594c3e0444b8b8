import Mathlib.Data.List.Nodup
import SleighForge.RegisterTable

/-!
# Interning

Tables that only interning or numbering has made are numbered from 0 up without gaps (`Numbered`).
Interning keeps them so, and every table keeps its id (`intern_grown`).
-/

namespace SleighForge

/-! ## Tables with the same registers -/

/-- The width of a selector depends on the registers only. -/
theorem RegisterTable.selectorWidth_congr {t u : RegisterTable} (h : t.registers = u.registers) :
    t.selectorWidth = u.selectorWidth := by
  rw [selectorWidth, selectorWidth, h]

theorem RegisterTable.members_congr {t u : RegisterTable} (h : t.registers = u.registers) :
    t.members = u.members := by
  rw [members, members, h]

/-- The members are the registers at all selectors that have one. -/
theorem RegisterTable.mem_members {t : RegisterTable} {name : String} :
    name ∈ t.members ↔ some name ∈ t.registers := by
  simp [members]

namespace Tables

/-! ## Tables by their ids -/

theorem id_of_get? {ts : Tables} {id : Int} {t : RegisterTable} (h : ts.get? id = some t) :
    t.id = id := by
  simpa using List.find?_some h

/-- The tables are those that are found. -/
theorem mem_toList {ts : Tables} {t : RegisterTable} : t ∈ ts.toList ↔ ts.get? t.id = some t := by
  rw [toList, List.mem_filterMap]
  constructor
  · rintro ⟨id, -, hget⟩
    rwa [id_of_get? hget]
  · intro hget
    have hmem : t.id ∈ ts.ids := by
      rw [ids, mem_distinct]
      exact List.mem_map_of_mem (List.mem_of_find?_eq_some hget)
    exact ⟨t.id, List.mem_mergeSort.2 hmem, hget⟩

/-- The list has one table of each id. -/
theorem pairwise_toList (ts : Tables) : ts.toList.Pairwise fun t u => t.id ≠ u.id := by
  have hids : (ts.ids.mergeSort fun a b => a ≤ b).Nodup :=
    (List.mergeSort_perm _ _).symm.nodup (nodup_distinct _)
  refine List.Pairwise.filterMap ts.get? ?_ hids
  intro id id' hne t ht u hu
  rw [id_of_get? ht, id_of_get? hu]
  exact hne

/-! ## Numbered tables -/

/-- The ids are the numbers below the number of tables, each once. -/
structure Numbered (ts : Tables) : Prop where
  nodup : (ts.history.map RegisterTable.id).Nodup
  bounds : ∀ t ∈ ts.history, 0 ≤ t.id ∧ t.id < ts.history.length

theorem numbered_empty : Numbered {} where
  nodup := List.nodup_nil
  bounds _ ht := absurd ht List.not_mem_nil

namespace Numbered

variable {ts : Tables}

theorem size_eq (h : ts.Numbered) : ts.size = ts.history.length := by
  rw [size, ids, distinct_eq_self h.nodup, List.length_map]

/-- A table that was interned is never hidden by another. -/
theorem get?_eq_some_iff (h : ts.Numbered) {id : Int} {t : RegisterTable} :
    ts.get? id = some t ↔ t ∈ ts.history ∧ t.id = id := by
  constructor
  · intro hget
    exact ⟨List.mem_of_find?_eq_some hget, by simpa using List.find?_some hget⟩
  · rintro ⟨hmem, rfl⟩
    cases hget : ts.get? t.id with
    | none => simpa using List.find?_eq_none.1 hget t hmem
    | some u =>
      have hu : u ∈ ts.history := List.mem_of_find?_eq_some hget
      have hid : u.id = t.id := by simpa using List.find?_some hget
      rw [List.inj_on_of_nodup_map h.nodup hu hmem hid]

end Numbered

/-- More tables, where those that were there keep their ids and the registers of the others satisfy
a condition. -/
structure Grown (known : String → Prop) (ts ts' : Tables) : Prop where
  numbered : ts'.Numbered
  keeps : ∀ id t, ts.get? id = some t → ts'.get? id = some t
  known : ∀ t ∈ ts'.history, t ∈ ts.history ∨ ∀ name ∈ t.members, known name

namespace Grown

variable {known : String → Prop} {ts ts' ts'' : Tables}

theorem refl (h : ts.Numbered) : Grown known ts ts where
  numbered := h
  keeps _ _ := id
  known _ := .inl

theorem trans (h : Grown known ts ts') (h' : Grown known ts' ts'') : Grown known ts ts'' where
  numbered := h'.numbered
  keeps id t ht := h'.keeps id t (h.keeps id t ht)
  known t ht := by
    rcases h'.known t ht with ht | ht
    · exact h.known t ht
    · exact .inr ht

theorem mono (h : Grown known ts ts') {more : String → Prop}
    (hmore : ∀ name, known name → more name) : Grown more ts ts' where
  numbered := h.numbered
  keeps := h.keeps
  known t ht := (h.known t ht).imp_right fun hk name hname => hmore name (hk name hname)

end Grown

/-- Interning numbers on, and finds the table again. -/
theorem intern_grown {ts : Tables} (h : ts.Numbered) (registers : List (Option String)) :
    Grown (fun name => some name ∈ registers) ts (ts.intern registers).2 ∧
      (ts.intern registers).2.get? (ts.intern registers).1.id = some (ts.intern registers).1 := by
  have hregs := intern_registers ts registers
  unfold intern at hregs ⊢
  split
  · next t hfind =>
    exact ⟨.refl h, h.get?_eq_some_iff.2 ⟨List.mem_of_find?_eq_some hfind, rfl⟩⟩
  · next hfind =>
    have hsize := h.size_eq
    -- The ids in use are those below the size, so the new one overwrites nothing.
    have hfresh : ∀ t ∈ ts.history, t.id ≠ ts.size := by
      intro t ht
      have := h.bounds t ht
      omega
    let new : RegisterTable := { id := ts.size, registers }
    have hadd : (ts.add new).Numbered := by
      refine ⟨List.nodup_cons.2 ⟨?_, h.nodup⟩, ?_⟩
      · rw [List.mem_map]
        rintro ⟨t, ht, hid⟩
        exact hfresh t ht hid
      · intro t ht
        have hlen : (ts.add new).history.length = ts.history.length + 1 := rfl
        rcases List.mem_cons.1 ht with rfl | ht
        · show 0 ≤ (ts.size : Int) ∧ (ts.size : Int) < _
          omega
        · have := h.bounds t ht
          omega
    refine ⟨⟨hadd, ?_, ?_⟩, ?_⟩
    · intro id t ht
      rcases h.get?_eq_some_iff.1 ht with ⟨hmem, hid⟩
      exact hadd.get?_eq_some_iff.2 ⟨List.mem_cons_of_mem _ hmem, hid⟩
    · intro t ht
      rcases List.mem_cons.1 ht with rfl | ht
      · exact .inr fun name hname => RegisterTable.mem_members.1 hname
      · exact .inl ht
    · exact hadd.get?_eq_some_iff.2 ⟨List.mem_cons_self .., rfl⟩

end Tables

end SleighForge
