import SleighForge.Model
import SleighForge.Proofs.Run
import SleighForge.Proofs.SideBySide

/-!
# What the stages do

Apart from remarks, a combining stage does to a model what its pass does to the patterns
(`runFrom_combine`), numbering does what `Numbering.ofPatterns` does (`runFrom_numberTables`), and
laying out needs known registers and a layout for each pattern (`layOut_ok`).
-/

namespace SleighForge

namespace Stage

/-! ## Remarks -/

/-- The stage only makes remarks. -/
def OnlyRemarks (x : Stage Unit) : Prop :=
  ∀ m, ∃ journal, runFrom m x = (.ok ⟨⟩, { m with journal })

theorem onlyRemarks_note (severity : Severity) (text : String) :
    OnlyRemarks (note severity text) :=
  fun _ => ⟨_, rfl⟩

theorem onlyRemarks_pure : OnlyRemarks (pure ⟨⟩) :=
  fun m => ⟨m.journal, rfl⟩

theorem OnlyRemarks.bind {x : Stage Unit} {f : Unit → Stage Unit} (hx : OnlyRemarks x)
    (hf : OnlyRemarks (f ⟨⟩)) : OnlyRemarks (x >>= f) := by
  intro m
  rcases hx m with ⟨journal, hx⟩
  rcases hf { m with journal } with ⟨journal', hf⟩
  rw [runFrom_bind, hx]
  exact ⟨journal', hf⟩

/-- Remarks on all elements of a list. -/
theorem onlyRemarks_forIn {α : Type} (xs : List α) (text : α → String) :
    OnlyRemarks (forIn xs PUnit.unit fun x _ => do
      note .debug (text x)
      pure (.yield PUnit.unit)) := by
  induction xs with
  | nil => exact onlyRemarks_pure
  | cons x xs ih =>
    rw [List.forIn_cons]
    intro m
    rw [runFrom_bind, runFrom_bind]
    exact ih _

/-! ## Combining -/

/-- A combining stage does what the pass does. -/
theorem runFrom_combine (m : Model) (pass : Pass) (ranking : Ranking) :
    ∃ journal, runFrom m (combine pass ranking) =
      match runFrom ⟨m.tables, m.journal⟩ (Combine.runPass pass ranking m.patterns) with
      | (.ok (patterns, stats), b) => (.ok stats, { m with patterns, tables := b.tables, journal })
      | (.error fault, b) => (.error (.combine fault), { m with tables := b.tables, journal }) := by
  rw [combine, runFrom_bind, runFrom_get]
  dsimp only
  cases hrun : runFrom ⟨m.tables, m.journal⟩ (Combine.runPass pass ranking m.patterns) with
  | mk result b =>
    -- The stage runs the pass on a bench of its own, which is `runFrom` spelled out.
    have hrun' : (Combine.runPass pass ranking m.patterns).run.run ⟨m.tables, m.journal⟩ =
      (result, b) := hrun
    rw [hrun']
    dsimp only
    rw [runFrom_bind, runFrom_set]
    dsimp only
    cases result with
    | error fault => exact ⟨b.journal, rfl⟩
    | ok made =>
      dsimp only
      rw [runFrom_bind, runFrom_modify]
      dsimp only
      rw [runFrom_bind]
      exact ⟨_, rfl⟩

/-! ## Numbering -/

/-- Numbering brings patterns and tables to their numbered form. -/
theorem runFrom_numberTables (m : Model) :
    ∃ journal, runFrom m numberTables =
      match Numbering.ofPatterns m.tables m.patterns with
      | .ok n => (.ok ⟨⟩, { m with
          patterns := m.patterns.map (Pattern.mapTable n.apply), tables := n.toTables, journal })
      | .error fault => (.error fault, { m with journal }) := by
  rw [numberTables, runFrom_bind, runFrom_get]
  dsimp only
  cases Numbering.ofPatterns m.tables m.patterns with
  | error fault => exact ⟨m.journal, rfl⟩
  | ok n =>
    dsimp only
    rw [runFrom_bind, runFrom_set]
    dsimp only
    -- After the patterns and tables are set, only remarks follow.
    have hlist := onlyRemarks_forIn n.toTables.toList fun t =>
      s!"  {t.name} (width {t.selectorWidth}): {Remark.parenthesized t.registers}"
    refine OnlyRemarks.bind (onlyRemarks_note _ _) ?_ _
    split
    · exact (onlyRemarks_note _ _).bind (hlist.bind onlyRemarks_pure)
    · exact hlist.bind onlyRemarks_pure

/-! ## Laying out -/

/-- Laying out adds the tokens and the layouts. -/
theorem runFrom_layOut (m : Model) :
    ∃ journal, runFrom m layOut =
      match m.unknownRegister? with
      | some fault => (.error (.layout fault), m)
      | none =>
        match m.patterns.mapM fun p =>
          Layout.ofPattern m.tables (Model.stem m.widths p.width) p with
        | .error fault => (.error (.layout fault), m)
        | .ok layouts =>
          (.ok ⟨⟩, { m with tokens := m.widths.map (m.tokenOf layouts), layouts, journal }) := by
  rw [layOut, runFrom_bind, runFrom_get]
  dsimp only
  cases m.unknownRegister? with
  | some fault => exact ⟨[], rfl⟩
  | none =>
    dsimp only
    cases m.patterns.mapM fun p => Layout.ofPattern m.tables (Model.stem m.widths p.width) p with
    | error fault => exact ⟨[], rfl⟩
    | ok layouts => exact ⟨_, rfl⟩

/-- If laying out succeeds, every pattern has its layout. -/
theorem layOut_inv {m m' : Model} (hrun : runFrom m layOut = (.ok ⟨⟩, m')) :
    ∃ layouts journal, (m.patterns.mapM fun p =>
        Layout.ofPattern m.tables (Model.stem m.widths p.width) p) = .ok layouts ∧
      m' = { m with tokens := m.widths.map (m.tokenOf layouts), layouts, journal } := by
  rcases runFrom_layOut m with ⟨journal, hlay⟩
  rw [hrun] at hlay
  cases hfault : m.unknownRegister? with
  | some fault =>
    rw [hfault] at hlay
    cases hlay
  | none =>
    rw [hfault] at hlay
    dsimp only at hlay
    cases hall : m.patterns.mapM fun p =>
      Layout.ofPattern m.tables (Model.stem m.widths p.width) p with
    | error fault =>
      rw [hall] at hlay
      cases hlay
    | ok layouts =>
      rw [hall] at hlay
      cases hlay
      exact ⟨layouts, journal, rfl, rfl⟩

/-- Laying out succeeds where the registers are known and every pattern has a layout. -/
theorem layOut_ok {m : Model} (hknown : m.unknownRegister? = none)
    (hlay : ∀ p ∈ m.patterns, ∀ stem, ∃ l, Layout.ofPattern m.tables stem p = .ok l) :
    ∃ m', runFrom m layOut = (.ok ⟨⟩, m') := by
  rcases exists_mapM_eq_ok fun p hp => hlay p hp (Model.stem m.widths p.width) with ⟨layouts, hall⟩
  rw [layOut, runFrom_bind, runFrom_get]
  dsimp only
  rw [hknown]
  dsimp only
  rw [hall]
  exact ⟨_, rfl⟩

end Stage

end SleighForge
