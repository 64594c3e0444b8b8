import SleighForge.Distinct

/-!
# Register tables

A register table lists the registers that a register field selects; a selector that no instruction
uses has none. `Tables` is a collection of tables that are found by their id and by their
registers. It keeps its whole history, newest first, and the newest table wins in either search.
-/

namespace SleighForge

/-- The registers that a field selects, by selector value. -/
structure RegisterTable where
  id : Int
  registers : List (Option String)
  name : String := ""
  deriving DecidableEq, Repr

namespace RegisterTable

/-- The number of selector bits, at least one. -/
def selectorWidth (t : RegisterTable) : Nat :=
  (t.registers.length - 1).log2 + 1

/-- The registers that are present, in the order of their selectors. -/
def members (t : RegisterTable) : List String :=
  t.registers.filterMap fun r => r

end RegisterTable

/-- Register tables, the newest first. -/
structure Tables where
  history : List RegisterTable := []
  deriving DecidableEq, Repr

namespace Tables

/-- The newest table of the id. -/
def get? (ts : Tables) (id : Int) : Option RegisterTable :=
  ts.history.find? (·.id = id)

/-- The newest table with these registers. -/
def find? (ts : Tables) (registers : List (Option String)) : Option RegisterTable :=
  ts.history.find? (·.registers = registers)

/-- There is a table of the id. -/
def contains (ts : Tables) (id : Int) : Bool :=
  (ts.get? id).isSome

/-- The ids in use, each once. -/
def ids (ts : Tables) : List Int :=
  distinct (ts.history.map (·.id))

/-- The number of ids in use. -/
def size (ts : Tables) : Nat :=
  ts.ids.length

/-- Adds a table. It hides an earlier one of the same id, and in a search by registers an earlier
one with the same registers. -/
def add (ts : Tables) (t : RegisterTable) : Tables :=
  ⟨t :: ts.history⟩

/-- The table with these registers, which is added under the next id if there is none. -/
def intern (ts : Tables) (registers : List (Option String)) : RegisterTable × Tables :=
  match ts.find? registers with
  | some t => (t, ts)
  | none =>
    let t : RegisterTable := { id := ts.size, registers }
    (t, ts.add t)

/-- The tables in the order of their ids. -/
def toList (ts : Tables) : List RegisterTable :=
  (ts.ids.mergeSort fun a b => a ≤ b).filterMap ts.get?

theorem intern_registers (ts : Tables) (registers : List (Option String)) :
    (ts.intern registers).1.registers = registers := by
  unfold intern
  split
  · next h => simpa [find?] using List.find?_some h
  · rfl

end Tables

end SleighForge
