import SleighForge.Catalog
import SleighForge.Combine.Pass
import SleighForge.Layout
import SleighForge.RegisterTable.Numbering

/-!
# The model of an instruction set

The model holds the patterns of an instruction set, the register tables that their fields select
from, and the tokens and layouts that describe them in a specification. Stages bring it from the
instructions as read to its final form. A stage that ends in a fault leaves patterns, tokens and
layouts as they were.
-/

namespace SleighForge

/-- What is known of an instruction set. -/
structure Model where
  config : Config
  catalog : Catalog
  patterns : List Pattern := []
  tables : Tables := {}
  /-- In ascending order of width. -/
  tokens : List Token := []
  /-- One for each pattern, in order. -/
  layouts : List Layout := []
  journal : Journal := []

/-- A stage ends in a fault or with a result, and leaves a model in either case. -/
abbrev Stage := ExceptT StageFault (StateM Model)

namespace Model

/-- Adds a remark. -/
def note (m : Model) (severity : Severity) (text : String) : Model :=
  { m with journal := m.journal ++ [⟨severity, text⟩] }

/-- The registers that the instructions use, in the order of first use. Those behind a field are
used too. -/
def usedRegisters (m : Model) : List String :=
  distinct <| m.patterns.flatMap fun p => p.operands.flatMap fun op =>
    match op with
    | .register name => [name]
    | .field f => ((f.table?.bind m.tables.get?).map RegisterTable.members).getD []
    | _ => []

/-- The first register of the tables and of the operands that the catalog does not know. -/
def unknownRegister? (m : Model) : Option LayoutFault :=
  let inTables := m.tables.toList.flatMap fun t =>
    (t.members.filter (!m.catalog.contains ·)).map fun name =>
      ⟨.unknownRegister name (some t.name), none, ""⟩
  let inOperands := m.patterns.flatMap fun p =>
    ((p.operands.filterMap Operand.register?).filter (!m.catalog.contains ·)).map fun name =>
      ⟨.unknownRegister name none, some p.index, p.mnemonic⟩
  (inTables ++ inOperands).head?

/-- The widths of the patterns, ascending. -/
def widths (m : Model) : List Nat :=
  (distinct (m.patterns.map Pattern.width)).mergeSort fun a b => a ≤ b

/-- What the names of the token fields of a width begin with, given the widths of all patterns:
nothing, unless there are several. -/
def stem (widths : List Nat) (width : Nat) : String :=
  if widths.length > 1 then Token.nameOf width ++ "_" else ""

/-- The token of a width, given the layouts of all patterns. -/
def tokenOf (m : Model) (layouts : List Layout) (width : Nat) : Token :=
  Token.ofFields m.config width <|
    ((m.patterns.zip layouts).filter (·.1.width = width)).flatMap fun (_, l) =>
      l.regions.map Region.field

end Model

namespace Stage

/-- Makes a remark. -/
def note (severity : Severity) (text : String) : Stage Unit :=
  modify (·.note severity text)

/-- Makes a combining pass. -/
def combine (pass : Pass) (ranking : Ranking) : Stage PassStats := do
  let m ← get
  let (result, bench) := (Combine.runPass pass ranking m.patterns).run.run ⟨m.tables, m.journal⟩
  set { m with tables := bench.tables, journal := bench.journal }
  match result with
  | .error fault => throw (.combine fault)
  | .ok (patterns, stats) =>
    modify fun m => { m with patterns }
    note .info <| s!"Combined {pass.name}: {stats.groups} groups merged, " ++
      s!"{stats.before} -> {stats.after} instructions"
    return stats

/-- Makes all combining passes. -/
def runPasses (ranking : Ranking) : Stage (List PassStats) :=
  Pass.all.mapM (combine · ranking)

/-- Numbers and names the register tables. -/
def numberTables : Stage Unit := do
  let m ← get
  match Numbering.ofPatterns m.tables m.patterns with
  | .error fault => throw fault
  | .ok numbering =>
    let tables := numbering.toTables
    set { m with patterns := m.patterns.map (Pattern.mapTable numbering.apply), tables }
    note .info s!"Computed {tables.size} attach variables"
    let dropped := m.tables.size - tables.size
    if dropped ≠ 0 then
      note .debug s!"Dropped {dropped} unreferenced or duplicate attach tables"
    for t in tables.toList do
      note .debug s!"  {t.name} (width {t.selectorWidth}): {Remark.parenthesized t.registers}"

/-- Lays out every pattern and collects the tokens. -/
def layOut : Stage Unit := do
  let m ← get
  match m.unknownRegister? with
  | some fault => throw (.layout fault)
  | none =>
    let widths := m.widths
    match m.patterns.mapM fun p => Layout.ofPattern m.tables (Model.stem widths p.width) p with
    | .error fault => throw (.layout fault)
    | .ok layouts =>
      let tokens := widths.map (m.tokenOf layouts)
      set { m with tokens, layouts }
      let fieldCount := tokens.foldl (fun count t => count + t.fields.length) 0
      note .info s!"Computed {tokens.length} tokens with {fieldCount} fields"

end Stage

end SleighForge
