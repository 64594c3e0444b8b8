import SleighForge.Combine.Register
import SleighForge.Combine.Rounds
import SleighForge.Journal

/-!
# Combining passes

A list of patterns is combined in three passes. The first drops repeats, the second merges over
numbers, the third over registers. The register tables that the third pass interns stay, also
where the pass ends in a fault.
-/

namespace SleighForge

/-- The passes. -/
inductive Pass where
  | duplicates
  | immediates
  | registers
  deriving DecidableEq, Repr

namespace Pass

/-- The name of a pass in remarks. -/
def name : Pass → String
  | duplicates => "duplicates"
  | immediates => "immediates"
  | registers => "registers"

/-- The passes in the order in which they are made. -/
def all : List Pass :=
  [duplicates, immediates, registers]

end Pass

/-- What a pass has done. -/
structure PassStats where
  pass : Pass
  /-- The number of patterns before the pass. -/
  before : Nat
  /-- The number of patterns after the pass. -/
  after : Nat
  groups : Nat
  rounds : Nat
  deriving DecidableEq, Repr

/-- The number of patterns that went. -/
def PassStats.removed (s : PassStats) : Nat :=
  s.before - s.after

namespace Combine

/-- What merging works on besides the patterns. -/
structure Bench where
  tables : Tables := {}
  journal : Journal := []

/-- Combining ends in a fault or with a result, and leaves the bench in either case. -/
abbrev CombineM := ExceptT CombineFault (StateM Bench)

/-- Makes a remark about a detail. -/
def noteDetail (text : String) : CombineM Unit :=
  modify fun b => { b with journal := b.journal ++ [⟨.debug, text⟩] }

/-- Patterns in a remark: the mnemonic and the positions in the source. -/
def membersText (first : Pattern) (rest : List Pattern) : String :=
  s!"'{first.mnemonic}' (instructions {Remark.bracketed ((first :: rest).map Pattern.index)})"

/-- The field that merging has put at a position. -/
def fieldAt? (p : Pattern) (position : Nat) : Option BitField :=
  p.operands[position]?.bind Operand.field?

/-- Merges over a number, with a remark. -/
def immediateMerger : Merger CombineFault Bench := fun first rest position foreign => do
  let merged? ← ExceptT.mk (pure (mergeImmediates first rest position foreign))
  match merged?.bind (fieldAt? · position) with
  | some f => noteDetail s!"Immediate field {f.name} for {membersText first rest}"
  | none =>
    noteDetail <| s!"Immediate group {membersText first rest} left uncombined: " ++
      "every window matches another instruction"
  return merged?

/-- Merges over a register, with a remark. -/
def registerMerger : Merger CombineFault Bench := fun first rest position foreign => do
  let (merged?, tables) ←
    ExceptT.mk (pure (mergeRegisters first rest position foreign (← get).tables))
  modify fun b => { b with tables }
  match merged?.bind (fieldAt? · position) with
  | some f =>
    let names := ((f.table?.bind tables.get?).map RegisterTable.members).getD []
    noteDetail <| s!"Register field {f.name} for '{first.mnemonic}' selects " ++
      Remark.parenthesized (names.map some)
  | none =>
    let (lo, hi) := (varyingSpan? first rest).getD (0, 0)
    noteDetail <| s!"Register group {membersText first rest} left uncombined: " ++
      s!"bits [{lo}, {hi}) match another instruction"
  return merged?

/-- Drops every pattern that is the same as an earlier one. -/
def dropDuplicates (patterns : List Pattern) : List Pattern :=
  distinctBy Pattern.identity patterns

/-- Makes a pass over patterns. -/
def runPass (pass : Pass) (ranking : Ranking) (patterns : List Pattern) :
    CombineM (List Pattern × PassStats) := do
  let before := patterns.length
  match pass with
  | .duplicates =>
    let kept := dropDuplicates patterns
    return (kept, ⟨pass, before, kept.length, before - kept.length, 1⟩)
  | .immediates =>
    let done ← mergeRounds .immediate ranking immediateMerger ⟨patterns, 0, 0⟩
    return (done.patterns, ⟨pass, before, done.patterns.length, done.groups, done.rounds⟩)
  | .registers =>
    let done ← mergeRounds .register ranking registerMerger ⟨patterns, 0, 0⟩
    return (done.patterns, ⟨pass, before, done.patterns.length, done.groups, done.rounds⟩)

end Combine

end SleighForge
