import SleighForge.Combine.Fault
import SleighForge.Layout.Fault
import SleighForge.Pattern
import SleighForge.RegisterTable

/-!
# Numbering register tables

The tables that a specification declares are those that its instructions use, in the order of their
first use, each with a name of its own. Tables with the same registers become one. The fields of
the instructions are given the new ids.
-/

namespace SleighForge

/-- Why instructions cannot be brought into their final form. -/
inductive StageFault where
  | combine (fault : CombineFault)
  | layout (fault : LayoutFault)
  deriving DecidableEq, Repr

/-- The message about instructions. -/
def StageFault.message : StageFault → String
  | combine fault => fault.message
  | layout fault => fault.message

/-- A table with more registers is named by its position. -/
def maxJoinedMembers : Nat := 4

/-- The name of a table at a position, before names are told apart: its registers, if they are few
enough. -/
def RegisterTable.baseName (t : RegisterTable) (position : Int) : String :=
  if t.members.length ≤ maxJoinedMembers then "_".intercalate t.members
  else s!"attach{position}"

/-- A name that is not in use: the base, or the base with the least number that makes it new. One
of the base and its first `used.length` variants always is. -/
def freshName (used : List String) (base : String) : String :=
  let variants := (List.range used.length).map fun n => s!"{base}_{n + 1}"
  ((base :: variants).find? (· ∉ used)).getD base

/-- Tables numbered so far. -/
structure Numbering where
  /-- New ids by old ids. -/
  ids : List (Int × Int) := []
  /-- The tables with their new ids, in ascending order. -/
  tables : List RegisterTable := []
  deriving DecidableEq, Repr

namespace Numbering

/-- The new id of a table; one that is not numbered keeps its id. -/
def apply (n : Numbering) (id : Int) : Int :=
  (n.ids.lookup id).getD id

/-- Numbers the table of a field of a pattern. -/
def addField (working : Tables) (p : Pattern) (n : Numbering) (f : BitField) :
    Except StageFault Numbering :=
  match f.table? with
  | none => .ok n
  | some old =>
    if (n.ids.lookup old).isSome then .ok n
    else
      match working.get? old with
      | none => .error (.layout ⟨.missingTable f.name old, some p.index, p.mnemonic⟩)
      | some t =>
        if t.members.length < 2 then
          .error (.combine ⟨.groupTooSmall, p.mnemonic, [p.index]⟩)
        else
          match n.tables.find? (·.registers = t.registers) with
          | some same => .ok { n with ids := n.ids ++ [(old, same.id)] }
          | none =>
            let id : Int := n.tables.length
            let name := freshName (n.tables.map RegisterTable.name) (t.baseName id)
            .ok ⟨n.ids ++ [(old, id)], n.tables ++ [⟨id, t.registers, name⟩]⟩

/-- Numbers the tables of all fields of some patterns. -/
def ofPatterns (working : Tables) (patterns : List Pattern) : Except StageFault Numbering :=
  patterns.foldlM (fun n p => p.fields.foldlM (addField working p) n) {}

/-- The numbered tables as a collection. -/
def toTables (n : Numbering) : Tables :=
  ⟨n.tables.reverse⟩

end Numbering

end SleighForge
