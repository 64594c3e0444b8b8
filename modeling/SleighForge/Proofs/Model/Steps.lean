import SleighForge.Proofs.Combine.Change
import SleighForge.Proofs.Model.Stages

/-!
# Steps on a model

A model starts from concrete instructions and goes through combining passes and numberings, in any
order and as often as one likes. Each step is a sequence of changes of the patterns and tables
(`changes_of_steps`).
-/

namespace SleighForge

/-- A concrete instruction: none of its operands is a field. -/
structure Instruction where
  mnemonic : String
  operands : List Operand
  word : BitRun
  /-- The position in the source. -/
  index : Int
  plain : ∀ op ∈ operands, op.field? = none

/-- The pattern of the instruction. -/
def Instruction.pattern (i : Instruction) : Pattern :=
  .concrete i.mnemonic i.operands i.word i.index

/-- A processor with words of one byte, for examples. -/
def byteConfig : Config :=
  ⟨"P", "F", .big, 1, 8, false, false, Nat.one_pos, byte_width_pos, by decide +kernel⟩

/-- Instructions for examples: two differ in a number and two in a register. -/
def loads : List Instruction :=
  [⟨"LDI", [.text "#", .immediate (-1) "-1"], byteWord 0x1F, 0, by decide⟩,
   ⟨"LDI", [.text "#", .immediate 2 "2"], byteWord 0x12, 1, by decide⟩,
   ⟨"LDR", [.register "r0"], byteWord 0x20, 2, by decide⟩,
   ⟨"LDR", [.register "r1"], byteWord 0x24, 3, by decide⟩]

namespace Model

/-- The model of some instructions before any stage. -/
def ofInstructions (config : Config) (catalog : Catalog) (instructions : List Instruction) :
    Model :=
  { config, catalog, patterns := instructions.map Instruction.pattern }

/-- The patterns and the tables. -/
def stock (m : Model) : Stock :=
  ⟨m.patterns, m.tables⟩

end Model

/-- A combining pass, or a numbering of the register tables. -/
inductive Step where
  | pass (pass : Pass) (ranking : Ranking)
  | number

namespace Stage

/-- Makes a step. -/
def step : Step → Stage Unit
  | .pass pass ranking => do
    let _ ← combine pass ranking
  | .number => numberTables

/-- Makes steps one after the other. -/
def steps : List Step → Stage Unit
  | [] => pure ()
  | s :: rest => do
    step s
    steps rest

section

variable {m m' : Model}

/-- A pass that goes well has run on patterns and tables and changed nothing else. -/
theorem combine_ok {pass : Pass} {ranking : Ranking} {stats : PassStats}
    (hrun : runFrom m (combine pass ranking) = (.ok stats, m')) :
    m'.catalog = m.catalog ∧ ∃ b, runFrom ⟨m.tables, m.journal⟩
      (Combine.runPass pass ranking m.patterns) = (.ok (m'.patterns, stats), b) ∧
      m'.tables = b.tables := by
  rcases runFrom_combine m pass ranking with ⟨journal, hcombine⟩
  rw [hrun] at hcombine
  rcases hpass : runFrom ⟨m.tables, m.journal⟩ (Combine.runPass pass ranking m.patterns) with
    ⟨fault | ⟨patterns, stats'⟩, b⟩
  · rw [hpass] at hcombine
    cases hcombine
  · rw [hpass] at hcombine
    cases hcombine
    exact ⟨rfl, b, hpass, rfl⟩

/-- Numbering that goes well has renamed the patterns and replaced the tables. -/
theorem numberTables_ok (hrun : runFrom m numberTables = (.ok ⟨⟩, m')) :
    m'.catalog = m.catalog ∧ ∃ n, Numbering.ofPatterns m.tables m.patterns = .ok n ∧
      m'.stock = ⟨m.patterns.map (Pattern.mapTable n.apply), n.toTables⟩ := by
  rcases runFrom_numberTables m with ⟨journal, hnumber⟩
  rw [hrun] at hnumber
  cases hn : Numbering.ofPatterns m.tables m.patterns with
  | error fault =>
    rw [hn] at hnumber
    cases hnumber
  | ok n =>
    rw [hn] at hnumber
    cases hnumber
    exact ⟨rfl, n, rfl, rfl⟩

/-- A pass is a sequence of changes. -/
theorem changes_of_combine {pass : Pass} {ranking : Ranking} {stats : PassStats}
    (hn : m.tables.Numbered) (hrun : runFrom m (combine pass ranking) = (.ok stats, m')) :
    Stock.Changes m.stock m'.stock ∧ m'.catalog = m.catalog := by
  rcases combine_ok hrun with ⟨hcatalog, b, hpass, htables⟩
  have hchanges := Combine.changes_of_runPass hn hpass
  rw [← htables] at hchanges
  exact ⟨hchanges, hcatalog⟩

/-- Numbering is a change. -/
theorem changes_of_numberTables (hrun : runFrom m numberTables = (.ok ⟨⟩, m')) :
    Stock.Changes m.stock m'.stock ∧ m'.catalog = m.catalog := by
  rcases numberTables_ok hrun with ⟨hcatalog, n, hn, hstock⟩
  rw [hstock]
  exact ⟨.single (.numbered (Numbering.ofPatterns_spec hn)), hcatalog⟩

theorem step_pass_ok {pass : Pass} {ranking : Ranking}
    (hrun : runFrom m (step (.pass pass ranking)) = (.ok ⟨⟩, m')) :
    ∃ stats, runFrom m (combine pass ranking) = (.ok stats, m') := by
  rcases runFrom_bind_eq_ok.1 hrun with ⟨stats, m₁, hcombine, hrun⟩
  rw [runFrom_pure] at hrun
  cases hrun
  exact ⟨stats, hcombine⟩

/-- A step is a sequence of changes. -/
theorem changes_of_step {s : Step} (hn : m.tables.Numbered)
    (hrun : runFrom m (step s) = (.ok ⟨⟩, m')) : Stock.Changes m.stock m'.stock := by
  cases s with
  | pass pass ranking =>
    rcases step_pass_ok hrun with ⟨stats, hcombine⟩
    exact (changes_of_combine hn hcombine).1
  | number => exact (changes_of_numberTables hrun).1

/-- What steps keep one by one, they keep in sequence. -/
theorem steps_induction {I : List Step → Model → Prop} (done : List Step) {todo : List Step}
    (hstep : ∀ done s m m', I done m → runFrom m (step s) = (.ok ⟨⟩, m') → I (done ++ [s]) m')
    (hm : I done m) (hrun : runFrom m (steps todo) = (.ok ⟨⟩, m')) : I (done ++ todo) m' := by
  -- On the steps to do; the steps done grow by one at a time.
  induction todo generalizing done m with
  | nil =>
    rw [steps, runFrom_pure] at hrun
    cases hrun
    rwa [List.append_nil]
  | cons s todo ih =>
    rcases runFrom_bind_eq_ok.1 hrun with ⟨_, m₁, hone, hrun⟩
    have h := ih (done ++ [s]) (hstep done s m m₁ hm hone) hrun
    rwa [List.append_assoc] at h

/-- Steps from a model with numbered tables are changes of its patterns and tables. -/
theorem changes_of_steps {todo : List Step} (hn : m.tables.Numbered)
    (hrun : runFrom m (steps todo) = (.ok ⟨⟩, m')) : Stock.Changes m.stock m'.stock := by
  refine steps_induction [] (I := fun _ m₁ => Stock.Changes m.stock m₁.stock) ?_ .refl hrun
  intro _ s m₁ m₂ hm₁ hone
  exact hm₁.trans (changes_of_step (hm₁.tables_numbered hn) hone)

/-- Passes in a row are changes, too. -/
theorem changes_of_passes {passes : List Pass} {ranking : Ranking} {stats : List PassStats}
    (hn : m.tables.Numbered)
    (hrun : runFrom m (passes.mapM (combine · ranking)) = (.ok stats, m')) :
    Stock.Changes m.stock m'.stock := by
  refine runFrom_mapM_induction (I := fun m₁ => Stock.Changes m.stock m₁.stock) ?_ .refl hrun
  intro _ _ m₁ _ m₂ hm₁ hone
  exact hm₁.trans (changes_of_combine (hm₁.tables_numbered hn) hone).1

end

end Stage

end SleighForge
