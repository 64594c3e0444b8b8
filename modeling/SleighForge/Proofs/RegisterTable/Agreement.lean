import SleighForge.Proofs.RegisterTable.Interning

/-!
# Tables of given ids

Tables are filled in two ways: registers are interned, or a table is added under an id of its own.
Interning takes the number of tables for the next id, which is in use already if tables were added
under other numbers than they are counted by. As long as no entry takes an id that stands for other
registers (`SparesAll`), a table that is found by its registers is found by its id as well
(`Agrees`), and interning leaves all ids as they are exactly if the next id is free
(`undisturbed_iff_spares`).
-/

namespace SleighForge

namespace Tables

/-! ## Searching -/

/-- A table that is added is found by its id, others as before. -/
theorem get?_add (ts : Tables) (t : RegisterTable) (id : Int) :
    (ts.add t).get? id = if t.id = id then some t else ts.get? id := by
  by_cases h : t.id = id <;> simp [get?, add, h]

theorem find?_add (ts : Tables) (t : RegisterTable) (registers : List (Option String)) :
    (ts.add t).find? registers =
      if t.registers = registers then some t else ts.find? registers := by
  by_cases h : t.registers = registers <;> simp [find?, add, h]

theorem registers_of_find? {ts : Tables} {registers : List (Option String)} {t : RegisterTable}
    (h : ts.find? registers = some t) : t.registers = registers := by
  simpa using List.find?_some h

/-- Registers that no table has, no id stands for. -/
theorem registers_ne_of_find? {ts : Tables} {registers : List (Option String)}
    (h : ts.find? registers = none) {id : Int} {t : RegisterTable} (ht : ts.get? id = some t) :
    t.registers ≠ registers := by
  simpa using List.find?_eq_none.1 h t (List.mem_of_find?_eq_some ht)

/-- The table that interning adds where there is none with these registers. -/
def next (ts : Tables) (registers : List (Option String)) : RegisterTable where
  id := ts.size
  registers

/-- A register list that is there is not added. -/
theorem intern_of_find? {ts : Tables} {registers : List (Option String)} {t : RegisterTable}
    (h : ts.find? registers = some t) : ts.intern registers = (t, ts) := by
  rw [intern, h]

/-- A new register list is added under the next id. -/
theorem intern_of_find?_eq_none {ts : Tables} {registers : List (Option String)}
    (h : ts.find? registers = none) :
    ts.intern registers = (ts.next registers, ts.add (ts.next registers)) := by
  rw [intern, h]
  rfl

/-! ## Entries -/

/-- A way to fill a collection of tables. -/
inductive Entry where
  | interned (registers : List (Option String))
  | added (t : RegisterTable)

/-- The table that is added. -/
def Entry.added? : Entry → Option RegisterTable
  | interned _ => none
  | added t => some t

/-- Makes an entry. -/
def enter (ts : Tables) : Entry → Tables
  | .interned registers => (ts.intern registers).2
  | .added t => ts.add t

/-- Makes entries one after the other. -/
def enterAll (ts : Tables) (entries : List Entry) : Tables :=
  entries.foldl enter ts

/-- The entry takes no id that stands for other registers. -/
def Spares (ts : Tables) : Entry → Prop
  | .interned registers => ts.find? registers = none → ts.get? ts.size = none
  | .added t => ∀ u, ts.get? t.id = some u → u.registers = t.registers

/-- No entry takes an id that stands for other registers when its turn comes. -/
def SparesAll (ts : Tables) : List Entry → Prop
  | [] => True
  | e :: es => ts.Spares e ∧ (ts.enter e).SparesAll es

/-- Tables that are added have different ids and different registers. -/
def AddedApart (entries : List Entry) : Prop :=
  (entries.filterMap Entry.added?).Pairwise fun t u => t.id ≠ u.id ∧ t.registers ≠ u.registers

/-! ## Agreement -/

/-- A table that is found by its registers is found by its id. -/
def Agrees (ts : Tables) : Prop :=
  ∀ registers t, ts.find? registers = some t → ts.get? t.id = some t

theorem agrees_empty : Agrees {} := by
  intro registers t h
  cases h

/-- The two ways of finding a table agree if the new one takes the place of none with other
registers. -/
theorem Agrees.add {ts : Tables} (h : ts.Agrees) {t : RegisterTable}
    (ht : ∀ u, ts.get? t.id = some u → u.registers = t.registers) : (ts.add t).Agrees := by
  intro registers u hu
  rw [find?_add] at hu
  rw [get?_add]
  by_cases hregs : t.registers = registers
  · rw [if_pos hregs, Option.some.injEq] at hu
    rw [hu, if_pos rfl]
  · rw [if_neg hregs] at hu
    -- The other table is still found, so the new one has not taken its id.
    have hid : t.id ≠ u.id := by
      intro heq
      have hget := h registers u hu
      rw [← heq] at hget
      exact hregs ((ht u hget).symm.trans (registers_of_find? hu))
    rw [if_neg hid]
    exact h registers u hu

/-- An entry that spares what is there leaves the tables in agreement. -/
theorem Agrees.enter {ts : Tables} (h : ts.Agrees) {e : Entry} (he : ts.Spares e) :
    (ts.enter e).Agrees := by
  cases e with
  | interned registers =>
    cases hfind : ts.find? registers with
    | some t =>
      rw [Tables.enter, intern_of_find? hfind]
      exact h
    | none =>
      rw [Tables.enter, intern_of_find?_eq_none hfind]
      apply h.add
      intro u hu
      rw [next, he hfind] at hu
      cases hu
  | added t => exact h.add he

theorem Agrees.enterAll {ts : Tables} (h : ts.Agrees) {entries : List Entry}
    (he : ts.SparesAll entries) : (ts.enterAll entries).Agrees := by
  induction entries generalizing ts with
  | nil => exact h
  | cons e es ih => exact ih (h.enter he.1) he.2

/-! ## Interning among tables of given ids -/

/-- Interning gives a table with these registers that is found by its id, leaves every id with the
registers it stands for, and adds a table only if no id stands for these registers. -/
structure Undisturbed (ts : Tables) (registers : List (Option String)) : Prop where
  registers_eq : (ts.intern registers).1.registers = registers
  found : (ts.intern registers).2.get? (ts.intern registers).1.id = some (ts.intern registers).1
  kept : ∀ id t, ts.get? id = some t →
    ∃ u, (ts.intern registers).2.get? id = some u ∧ u.registers = t.registers
  adds_nothing_iff : (ts.intern registers).2 = ts ↔
    ∃ id t, ts.get? id = some t ∧ t.registers = registers

/-- Registers that a table has are interned without a change. -/
theorem Agrees.undisturbed_of_find? {ts : Tables} (h : ts.Agrees)
    {registers : List (Option String)} {t : RegisterTable} (ht : ts.find? registers = some t) :
    ts.Undisturbed registers := by
  have hget := h registers t ht
  have hregs := registers_of_find? ht
  constructor
  · rw [intern_of_find? ht]
    exact hregs
  · rw [intern_of_find? ht]
    exact hget
  · intro id u hu
    rw [intern_of_find? ht]
    exact ⟨u, hu, rfl⟩
  · rw [intern_of_find? ht]
    constructor
    · intro _
      exact ⟨t.id, t, hget, hregs⟩
    · intro _
      rfl

/-- New registers are interned under the next id, if that is free. -/
theorem undisturbed_of_free {ts : Tables} {registers : List (Option String)}
    (hnew : ts.find? registers = none) (hfree : ts.get? ts.size = none) :
    ts.Undisturbed registers := by
  constructor
  · rw [intern_of_find?_eq_none hnew, next]
  · rw [intern_of_find?_eq_none hnew, get?_add, if_pos rfl]
  · intro id t ht
    rw [intern_of_find?_eq_none hnew, get?_add]
    -- Every id that is found is not the next one, which is free.
    have hid : (ts.next registers).id ≠ id := by
      intro heq
      rw [← heq, next, hfree] at ht
      cases ht
    rw [if_neg hid]
    exact ⟨t, ht, rfl⟩
  · rw [intern_of_find?_eq_none hnew]
    constructor
    · intro heq
      have hlength := congrArg (·.history.length) heq
      simp [add] at hlength
    · rintro ⟨id, t, ht, hregs⟩
      exact absurd hregs (registers_ne_of_find? hnew ht)

/-- Among tables of given ids that no entry has taken from another, interning leaves all ids as
they are exactly if the registers have a table or the next id is free. -/
theorem undisturbed_iff_spares (entries : List Entry) (h : SparesAll {} entries)
    (registers : List (Option String)) :
    (enterAll {} entries).Undisturbed registers ↔
      (enterAll {} entries).Spares (.interned registers) := by
  have hagrees := agrees_empty.enterAll h
  generalize enterAll {} entries = ts at hagrees ⊢
  constructor
  · intro hundisturbed hnew
    cases hget : ts.get? ts.size with
    | none => rfl
    | some t =>
      -- The id of the new table stood for other registers before.
      obtain ⟨u, hu, hregs⟩ := hundisturbed.kept ts.size t hget
      rw [intern_of_find?_eq_none hnew, get?_add, next, if_pos rfl, Option.some.injEq] at hu
      rw [← hu] at hregs
      exact absurd hregs.symm (registers_ne_of_find? hnew hget)
  · intro hspares
    cases hfind : ts.find? registers with
    | some t => exact hagrees.undisturbed_of_find? hfind
    | none => exact undisturbed_of_free hfind (hspares hfind)

/-- Two tables added in descending order of their ids, and a third that was interned. -/
def countedDown : List Entry :=
  [.added ⟨1, [some "a", some "b"], "a_b"⟩, .added ⟨0, [some "c", some "d"], "c_d"⟩,
    .interned [some "b", some "a"]]

/-- The next id is free where the ids of added tables count down to zero. -/
theorem undisturbed_countedDown :
    SparesAll {} countedDown ∧ (enterAll {} countedDown).size = 3 ∧
      (enterAll {} countedDown).Undisturbed [some "a", none, some "d"] := by
  have hspares : SparesAll {} countedDown := by
    refine ⟨?_, ?_, ?_, trivial⟩
    · intro u hu
      cases hu
    · intro u hu
      cases hu
    · intro _
      decide
  refine ⟨hspares, by decide, ?_⟩
  exact (undisturbed_iff_spares countedDown hspares _).2 fun _ => by decide

/-- A table that was added under the id one, as the first of all, loses its id to the next
registers that are interned. -/
theorem added_table_overwritten :
    AddedApart [.added ⟨1, [some "a"], ""⟩] ∧
      ¬ (enterAll {} [.added ⟨1, [some "a"], ""⟩]).Undisturbed [some "b"] := by
  constructor
  · exact List.pairwise_singleton ..
  · intro h
    obtain ⟨u, hu, hregs⟩ := h.kept 1 ⟨1, [some "a"], ""⟩ (by decide)
    have hu' : u = ⟨1, [some "b"], ""⟩ := by
      have hget : ((enterAll {} [.added ⟨1, [some "a"], ""⟩]).intern [some "b"]).2.get? 1 =
        some ⟨1, [some "b"], ""⟩ := by decide
      exact Option.some.inj (hu.symm.trans hget)
    rw [hu'] at hregs
    simp at hregs

end Tables

end SleighForge
