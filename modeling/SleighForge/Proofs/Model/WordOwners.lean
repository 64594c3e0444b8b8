import SleighForge.Proofs.Model.SourceWords

/-!
# Owners of words over a run

What any steps leave: each pattern accepts the words it holds, and a word of the source is accepted
by as many patterns of its width as there are lines with it, or by one if a pass has dropped the
repeats (`words_owned`). The count is carried over the steps by `Tallied`.
-/

namespace SleighForge

/-- The step drops repeats. -/
def Step.dropsRepeats : Step → Bool
  | .pass .duplicates _ => true
  | _ => false

/-- What some steps have come to, from sources whose words of the width are apart. -/
structure Tallied (sources : List Pattern) (width : Nat) (done : List Step) (m : Model) :
    Prop where
  numbered : m.tables.Numbered
  owned : Owned m.patterns
  copies : Copies width m.patterns
  same : ∀ word, word ∈ heldWords width m.patterns ↔ word ∈ heldWords width sources
  count : ∀ word ∈ heldWords width sources, (heldWords width m.patterns).count word =
    if done.any Step.dropsRepeats then 1 else (heldWords width sources).count word

namespace Stage

variable {m m' : Model}

/-- A merging pass permutes the examples. -/
theorem examples_perm_of_combine {pass : Pass} {ranking : Ranking} {stats : PassStats}
    (hn : m.tables.Numbered) (hpass : pass ≠ .duplicates)
    (hrun : runFrom m (combine pass ranking) = (.ok stats, m')) :
    (allExamples m'.patterns).Perm (allExamples m.patterns) := by
  rcases combine_ok hrun with ⟨-, b, hrun, -⟩
  exact Combine.examples_perm_of_runPass hpass hn hrun

theorem combine_duplicates_ok {ranking : Ranking} {stats : PassStats}
    (hrun : runFrom m (combine .duplicates ranking) = (.ok stats, m')) :
    m'.patterns = Combine.dropDuplicates m.patterns := by
  rcases combine_ok hrun with ⟨-, b, hrun, -⟩
  rw [Combine.runPass, runFrom_pure, Prod.mk.injEq, Except.ok.injEq, Prod.mk.injEq] at hrun
  exact hrun.1.1.symm

/-- A step that drops no repeats permutes the examples. -/
theorem examples_perm_of_step {s : Step} (hn : m.tables.Numbered) (hs : s.dropsRepeats = false)
    (hrun : runFrom m (step s) = (.ok ⟨⟩, m')) :
    (allExamples m'.patterns).Perm (allExamples m.patterns) := by
  cases s with
  | pass pass ranking =>
    rcases step_pass_ok hrun with ⟨stats, hcombine⟩
    refine examples_perm_of_combine hn ?_ hcombine
    rintro rfl
    cases hs
  | number =>
    rcases numberTables_ok hrun with ⟨-, n, -, hstock⟩
    have hpatterns : m'.patterns = m.patterns.map (Pattern.mapTable n.apply) :=
      congrArg Stock.patterns hstock
    rw [hpatterns, allExamples_mapTable]

end Stage

/-- After a change, patterns that share a word are repeats still. -/
theorem Copies.change {s s' : Stock} {width : Nat} (h : Copies width s.patterns)
    (ho : Owned s.patterns) (hc : Stock.Change s s') : Copies width s'.patterns := by
  cases hc with
  | dropped => exact h.sublist (Combine.dropDuplicates_sublist _)
  | merged hr => exact h.settle ho hr
  | numbered _ => exact h.mapTable _

theorem Copies.changes {s s' : Stock} {width : Nat} (h : Copies width s.patterns)
    (ho : Owned s.patterns) (hc : Stock.Changes s s') : Copies width s'.patterns := by
  induction hc with
  | refl => exact h
  | tail hbefore hstep ih => exact ih.change (ho.changes hbefore) hstep

/-- A step keeps the tally; once repeats are dropped there is one of each word. -/
theorem Tallied.step {sources : List Pattern} {width : Nat} {done : List Step} {s : Step}
    {m m' : Model} (h : Tallied sources width done m)
    (hrun : runFrom m (Stage.step s) = (.ok ⟨⟩, m')) :
    Tallied sources width (done ++ [s]) m' := by
  have hchanges := Stage.changes_of_step h.numbered hrun
  have hany : (done ++ [s]).any Step.dropsRepeats =
      (done.any Step.dropsRepeats || s.dropsRepeats) := by simp
  cases hs : s.dropsRepeats with
  | true =>
    -- Whatever the counts were, one of each word is left.
    obtain ⟨ranking, rfl⟩ : ∃ ranking, s = .pass .duplicates ranking := by
      cases s with
      | pass pass ranking => cases pass <;> first | exact ⟨ranking, rfl⟩ | cases hs
      | number => cases hs
    rcases Stage.step_pass_ok hrun with ⟨stats, hcombine⟩
    have hpatterns := Stage.combine_duplicates_ok hcombine
    have hsame : ∀ word, word ∈ heldWords width m'.patterns ↔ word ∈ heldWords width sources := by
      intro word
      rw [hpatterns, mem_heldWords_dropDuplicates h.owned, h.same]
    refine ⟨hchanges.tables_numbered h.numbered, h.owned.changes hchanges,
      h.copies.changes h.owned hchanges, hsame, fun word hw => ?_⟩
    have hnodup : (heldWords width m'.patterns).Nodup := by
      rw [hpatterns]
      exact h.copies.nodup_dropDuplicates
    rw [hany, hs, Bool.or_true, if_pos rfl]
    exact List.count_eq_one_of_mem hnodup ((hsame word).2 hw)
  | false =>
    -- The examples are permuted, so every count stays.
    have hperm : (heldWords width m'.patterns).Perm (heldWords width m.patterns) :=
      heldWords_perm (Stage.examples_perm_of_step h.numbered hs hrun)
    refine ⟨hchanges.tables_numbered h.numbered, h.owned.changes hchanges,
      h.copies.changes h.owned hchanges, fun word => hperm.mem_iff.trans (h.same word),
      fun word hw => ?_⟩
    rw [hperm.count_eq, h.count word hw, hany, hs, Bool.or_false]

/-- Before the first step every word is tallied as often as it is listed. -/
theorem tallied_instructions {config : Config} {catalog : Catalog}
    {instructions : List Instruction} {width : Nat}
    (h : (heldWords width (Combine.dropDuplicates (instructions.map Instruction.pattern))).Nodup) :
    Tallied (instructions.map Instruction.pattern) width []
      (Model.ofInstructions config catalog instructions) where
  numbered := Tables.numbered_empty
  owned := owned_instructions instructions
  copies := copies_instructions h
  same _ := Iff.rfl
  count _ _ := rfl

/-- After any steps, a pattern accepts an example's word of its width only if it holds that word.
Merging passes permute the examples and dropping repeats keeps the words. If the words of a width
are apart once repeats are dropped, each is accepted by as many patterns of that width as there are
lines with it, and by one as soon as a step has dropped repeats. -/
theorem words_owned (config : Config) (catalog : Catalog) (instructions : List Instruction)
    (todo : List Step) (m : Model)
    (hrun : runFrom (Model.ofInstructions config catalog instructions) (Stage.steps todo)
      = (.ok ⟨⟩, m)) :
    (∀ p ∈ m.patterns, ∀ q ∈ m.patterns, q.width = p.width → ∀ e ∈ q.examples,
      (p.accepts e.opcode = true ↔ ∃ e' ∈ p.examples, e'.opcode = e.opcode)) ∧
    (∀ pass ranking stats m', runFrom m (Stage.combine pass ranking) = (.ok stats, m') →
      if pass = .duplicates then
        ∀ width word, word ∈ heldWords width m'.patterns ↔ word ∈ heldWords width m.patterns
      else (allExamples m'.patterns).Perm (allExamples m.patterns)) ∧
    ∀ width,
      (heldWords width (Combine.dropDuplicates (instructions.map Instruction.pattern))).Nodup →
      ∀ word ∈ heldWords width (instructions.map Instruction.pattern),
        m.patterns.countP (fun p => p.width = width ∧ p.accepts word) =
          if todo.any Step.dropsRepeats then 1
          else (heldWords width (instructions.map Instruction.pattern)).count word := by
  have hchanges := Stage.changes_of_steps
    (m := Model.ofInstructions config catalog instructions) Tables.numbered_empty hrun
  have howned : Owned m.patterns := (owned_instructions instructions).changes hchanges
  refine ⟨howned.exact, ?_, ?_⟩
  · intro pass ranking stats m' hcombine
    split
    · next hpass =>
      subst hpass
      intro width word
      rw [Stage.combine_duplicates_ok hcombine]
      exact mem_heldWords_dropDuplicates howned
    · next hpass =>
      exact Stage.examples_perm_of_combine (hchanges.tables_numbered Tables.numbered_empty) hpass
        hcombine
  · intro width hapart word hword
    -- The tally is what carries the third clause: ownership alone does not count the owners.
    have htally := Stage.steps_induction []
      (I := Tallied (instructions.map Instruction.pattern) width)
      (fun _ _ _ _ h hstep => h.step hstep) (tallied_instructions hapart) hrun
    rw [countP_accepts htally.owned htally.copies ((htally.same word).2 hword)]
    exact htally.count word hword

/-- Lines of one byte that add one, three, and one again. -/
def additions : List Instruction :=
  [⟨"ADDI", [.text "#", .immediate 1 "1"], byteWord 0x11, 0, by decide⟩,
   ⟨"ADDI", [.text "#", .immediate 3 "3"], byteWord 0x13, 1, by decide⟩,
   ⟨"ADDI", [.text "#", .immediate 1 "0x1"], byteWord 0x11, 2, by decide⟩]

/-- Sums with a repeat, which is dropped before numbers are merged. -/
theorem words_owned_additions :
    ∃ m, runFrom (Model.ofInstructions byteConfig Catalog.common additions)
        (Stage.steps [.pass .duplicates .longestShared, .pass .immediates .longestShared, .number])
        = (.ok ⟨⟩, m) ∧
      m.patterns.countP (fun p => p.width = 8 ∧ p.accepts 0x11) = 1 := by
  obtain ⟨_, m, hrun⟩ := exists_of_isOk
    (s := Model.ofInstructions byteConfig Catalog.common additions)
    (x := Stage.steps
      [.pass .duplicates .longestShared, .pass .immediates .longestShared, .number])
    (by decide +kernel)
  refine ⟨m, hrun, ?_⟩
  exact (words_owned _ _ _ _ m hrun).2.2 8 (by decide) 0x11 (by decide)

/-- A merging pass drops no repeats, so a repeated line leaves two patterns that accept its word. -/
theorem two_owners_of_repeat :
    ¬ ∀ (config : Config) (catalog : Catalog) (instructions : List Instruction) (todo : List Step)
      (m : Model),
      runFrom (Model.ofInstructions config catalog instructions) (Stage.steps todo) = (.ok ⟨⟩, m) →
      ∀ width,
        (heldWords width (Combine.dropDuplicates (instructions.map Instruction.pattern))).Nodup →
        ∀ word ∈ heldWords width (instructions.map Instruction.pattern),
          m.patterns.countP (fun p => p.width = width ∧ p.accepts word) = 1 := by
  intro h
  let nop (index : Int) : Instruction := ⟨"NOP", [], byteWord 0, index, by simp⟩
  let start := Model.ofInstructions byteConfig Catalog.common [nop 0, nop 1]
  let todo : List Step := [.pass .immediates .longestShared]
  have hok : (runFrom start (Stage.steps todo)).1.isOk = true := by decide +kernel
  have htwo : (runFrom start (Stage.steps todo)).2.patterns.countP
      (fun p => p.width = 8 ∧ p.accepts 0) = 2 := by decide +kernel
  rcases exists_of_isOk hok with ⟨_, m, hrun⟩
  have hone := h byteConfig Catalog.common [nop 0, nop 1] todo m hrun 8 (by decide) 0 (by decide)
  rw [hrun] at htwo
  exact absurd (hone.symm.trans htwo) (by decide)

end SleighForge
