import SleighForge.Proofs.Model.Steps

/-!
# Steps that may fail

A step that ends in a fault leaves a model, too. What a step can do is said for either outcome
(`step_pass_cases`, `step_number_cases`), and `Model.afterAll` is what steps leave when the faults
among them are passed over.
-/

namespace SleighForge

namespace Model

/-- What a step leaves, whatever comes of it. -/
def after (m : Model) (s : Step) : Model :=
  (runFrom m (Stage.step s)).2

/-- What steps in a row leave, whatever comes of each. -/
def afterAll (m : Model) (todo : List Step) : Model :=
  todo.foldl after m

end Model

namespace Stage

/-- A pass succeeds and changes patterns and tables, or it ends in a fault and changes no more than
the tables. -/
theorem step_pass_cases (m : Model) (pass : Pass) (ranking : Ranking) :
    (∃ patterns stats b journal,
      runFrom ⟨m.tables, m.journal⟩ (Combine.runPass pass ranking m.patterns) =
        (.ok (patterns, stats), b) ∧
      runFrom m (step (.pass pass ranking)) =
        (.ok ⟨⟩, { m with patterns, tables := b.tables, journal })) ∨
    ∃ fault b journal,
      runFrom ⟨m.tables, m.journal⟩ (Combine.runPass pass ranking m.patterns) =
        (.error fault, b) ∧
      runFrom m (step (.pass pass ranking)) =
        (.error (.combine fault), { m with tables := b.tables, journal }) := by
  rcases runFrom_combine m pass ranking with ⟨journal, hcombine⟩
  rcases hpass : runFrom ⟨m.tables, m.journal⟩ (Combine.runPass pass ranking m.patterns) with
    ⟨fault | ⟨patterns, stats⟩, b⟩
  · rw [hpass] at hcombine
    refine .inr ⟨fault, b, journal, hpass, ?_⟩
    rw [step, runFrom_bind, hcombine]
  · rw [hpass] at hcombine
    refine .inl ⟨patterns, stats, b, journal, hpass, ?_⟩
    rw [step, runFrom_bind, hcombine]
    rfl

/-- Numbering succeeds, or it ends in a fault and changes nothing. -/
theorem step_number_cases (m : Model) :
    (∃ n journal, Numbering.ofPatterns m.tables m.patterns = .ok n ∧
      runFrom m (step .number) = (.ok ⟨⟩, { m with
        patterns := m.patterns.map (Pattern.mapTable n.apply), tables := n.toTables, journal })) ∨
    ∃ fault journal, Numbering.ofPatterns m.tables m.patterns = .error fault ∧
      runFrom m (step .number) = (.error fault, { m with journal }) := by
  rcases runFrom_numberTables m with ⟨journal, hnumber⟩
  cases hn : Numbering.ofPatterns m.tables m.patterns with
  | error fault =>
    rw [hn] at hnumber
    exact .inr ⟨fault, journal, rfl, hnumber⟩
  | ok n =>
    rw [hn] at hnumber
    exact .inl ⟨n, journal, rfl, hnumber⟩

end Stage

/-- What every step keeps, whatever comes of it, steps in a row keep. -/
theorem Model.afterAll_induction {I : Model → Prop} (hstep : ∀ m s, I m → I (m.after s))
    {m : Model} (hm : I m) (todo : List Step) : I (m.afterAll todo) := by
  induction todo generalizing m with
  | nil => exact hm
  | cons s todo ih => exact ih (hstep m s hm)

end SleighForge
