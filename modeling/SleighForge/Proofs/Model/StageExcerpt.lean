import SleighForge.Proofs.Combine.ExcerptPasses
import SleighForge.Proofs.Model.Ownership

/-!
# Stages over an excerpt

A combining stage that succeeds on the patterns of a model succeeds on an excerpt of them, and
leaves an excerpt of what it leaves (`passes_excerpt`). One that faults does so because of a single
pattern, and faults on every excerpt that keeps the width of it (`passes_excerpt_fault`).
-/

namespace SleighForge

/-- A concrete instruction has no tables. -/
theorem alike_pattern (ts us : Tables) (i : Instruction) : i.pattern.Alike ts us i.pattern where
  mnemonic := rfl
  operands := List.forall₂_same.2 fun op hop => .plain (i.plain op hop)
  encoding := .cons (.bits i.word) .nil
  index := rfl
  examples := rfl

/-- The instructions of some widths are an excerpt of all. -/
theorem excerpt_instructions (keep : Nat → Bool) (instructions : List Instruction) :
    Excerpt keep id {} {} (instructions.map Instruction.pattern)
      ((instructions.filter fun i => keep i.word.width).map Instruction.pattern) := by
  refine ⟨Tables.interned_empty, Tables.interned_empty, ?_⟩
  have hfilter : (instructions.map Instruction.pattern).filter (fun p => keep p.width) =
      (instructions.filter fun i => keep i.word.width).map Instruction.pattern := by
    rw [List.filter_map]
    refine congrArg _ (List.filter_congr fun i _ => ?_)
    rw [Function.comp_apply, width_pattern]
  rw [hfilter, List.forall₂_map_left_iff, List.forall₂_map_right_iff]
  exact List.forall₂_same.2 fun i _ => alike_pattern {} {} i

namespace Stage

variable {keep : Nat → Bool} {g : Int → Int} {m m₁ n : Model} {ranking : Ranking}

/-- A stage does with an excerpt what its pass does with the list. -/
theorem combine_of_runPass {pass : Pass} {stats : PassStats} {b b₁ : Combine.Bench}
    {patterns patterns₁ : List Pattern} (hranking : ranking.Respects keep g)
    (h : Excerpt keep g b.tables n.tables patterns n.patterns)
    (hpass : runFrom b (Combine.runPass pass ranking patterns) = (.ok (patterns₁, stats), b₁)) :
    ∃ stats' n₁, runFrom n (combine pass ranking) = (.ok stats', n₁) ∧
      Excerpt keep g b₁.tables n₁.tables patterns₁ n₁.patterns := by
  have hbench : Excerpt keep g b.tables (Combine.Bench.mk n.tables n.journal).tables patterns
    n.patterns := h
  rcases Combine.runPass_excerpt hranking hbench hpass with ⟨excerpt', stats', b', hpass', hnext⟩
  rcases runFrom_combine n pass ranking with ⟨journal, hrun'⟩
  rw [hpass'] at hrun'
  exact ⟨stats', _, hrun', hnext⟩

/-- A pass that goes well on a list goes well on its excerpt, and leaves an excerpt. -/
theorem combine_excerpt {pass : Pass} {stats : PassStats} (hranking : ranking.Respects keep g)
    (h : Excerpt keep g m.tables n.tables m.patterns n.patterns)
    (hrun : runFrom m (combine pass ranking) = (.ok stats, m₁)) :
    ∃ stats' n₁, runFrom n (combine pass ranking) = (.ok stats', n₁) ∧
      Excerpt keep g m₁.tables n₁.tables m₁.patterns n₁.patterns := by
  rcases combine_ok hrun with ⟨-, b, hpass, htables⟩
  rw [htables]
  exact combine_of_runPass (b := ⟨m.tables, m.journal⟩) hranking h hpass

/-- A pass that fails on a list fails on every excerpt that has the width at which it fails. -/
theorem combine_excerpt_fault {pass : Pass} {fault : StageFault} (hn : m.tables.Numbered)
    (hrun : runFrom m (combine pass ranking) = (.error fault, m₁)) :
    ∃ p ∈ m.patterns, ∀ (keep : Nat → Bool) (g : Int → Int) (n : Model), keep p.width = true →
      ranking.Respects keep g → Excerpt keep g m.tables n.tables m.patterns n.patterns →
      ∃ fault' n₁, runFrom n (combine pass ranking) = (.error fault', n₁) := by
  rcases runFrom_combine m pass ranking with ⟨journal, hcombine⟩
  rw [hrun] at hcombine
  rcases hpass : runFrom ⟨m.tables, m.journal⟩ (Combine.runPass pass ranking m.patterns) with
    ⟨e | ⟨patterns, stats⟩, b⟩
  · rcases Combine.runPass_excerpt_fault (b := ⟨m.tables, m.journal⟩) hn hpass with ⟨p, hp, hall⟩
    refine ⟨p, hp, fun keep g n hkeep hranking h => ?_⟩
    rcases hall keep g n.patterns ⟨n.tables, n.journal⟩ hkeep hranking h with ⟨b', hpass'⟩
    rcases runFrom_combine n pass ranking with ⟨journal', hrun'⟩
    rw [hpass'] at hrun'
    exact ⟨_, _, hrun'⟩
  · rw [hpass] at hcombine
    cases hcombine

/-- Passes that go well one by one go well together. -/
theorem passes_cons {pass : Pass} {passes : List Pass} {one : PassStats} {more : List PassStats}
    (hone : runFrom m (combine pass ranking) = (.ok one, m₁))
    (hmore : runFrom m₁ (passes.mapM (combine · ranking)) = (.ok more, n)) :
    runFrom m ((pass :: passes).mapM (combine · ranking)) = (.ok (one :: more), n) := by
  rw [List.mapM_cons]
  exact runFrom_bind_eq_ok.2 ⟨one, m₁, hone, runFrom_bind_eq_ok.2 ⟨more, n, hmore, rfl⟩⟩

/-- Passes that go well on a list go well on its excerpt, and leave an excerpt. -/
theorem passes_excerpt {passes : List Pass} {stats : List PassStats}
    (hranking : ranking.Respects keep g)
    (h : Excerpt keep g m.tables n.tables m.patterns n.patterns)
    (hrun : runFrom m (passes.mapM (combine · ranking)) = (.ok stats, m₁)) :
    ∃ stats' n₁, runFrom n (passes.mapM (combine · ranking)) = (.ok stats', n₁) ∧
      Excerpt keep g m₁.tables n₁.tables m₁.patterns n₁.patterns := by
  -- On the passes, which go on from models that are excerpts again.
  induction passes generalizing m n stats with
  | nil =>
    rw [List.mapM_nil, runFrom_pure] at hrun
    cases hrun
    exact ⟨[], n, rfl, h⟩
  | cons pass passes ih =>
    rw [List.mapM_cons, runFrom_bind_eq_ok] at hrun
    rcases hrun with ⟨one, m₂, hone, hrun⟩
    rcases runFrom_bind_eq_ok.1 hrun with ⟨more, m₃, hmore, hrun⟩
    cases hrun
    rcases combine_excerpt hranking h hone with ⟨one', n₂, hone', hnext⟩
    rcases ih hnext hmore with ⟨more', n₁, hmore', hdone⟩
    exact ⟨one' :: more', n₁, passes_cons hone' hmore', hdone⟩

/-- A pattern after some changes is as wide as one before them. -/
theorem exists_width_of_changes {s s' : Stock} (h : Stock.Changes s s') {q : Pattern}
    (hq : q ∈ s'.patterns) : ∃ p ∈ s.patterns, p.width = q.width := by
  induction h generalizing q with
  | refl => exact ⟨q, hq, rfl⟩
  | @tail s₁ s₂ _ hstep ih =>
    have hone : ∃ p ∈ s₁.patterns, p.width = q.width := by
      cases hstep with
      | dropped => exact ⟨q, (Combine.dropDuplicates_sublist _).subset hq, rfl⟩
      | merged hr => exact Combine.exists_width_of_mem_settle hr hq
      | numbered =>
        rcases List.mem_map.1 hq with ⟨p, hp, rfl⟩
        exact ⟨p, hp, (Encoding.mapTable_width _ _).symm⟩
    rcases hone with ⟨p, hp, hwidth⟩
    rcases ih hp with ⟨p', hp', hwidth'⟩
    exact ⟨p', hp', hwidth'.trans hwidth⟩

/-- Passes that fail on a list fail on every excerpt that has the width at which they fail. -/
theorem passes_excerpt_fault {passes : List Pass} {fault : StageFault} (hn : m.tables.Numbered)
    (hrun : runFrom m (passes.mapM (combine · ranking)) = (.error fault, m₁)) :
    ∃ p ∈ m.patterns, ∀ (keep : Nat → Bool) (g : Int → Int) (n : Model), keep p.width = true →
      ranking.Respects keep g → Excerpt keep g m.tables n.tables m.patterns n.patterns →
      ∃ fault' n₁, runFrom n (passes.mapM (combine · ranking)) = (.error fault', n₁) := by
  induction passes generalizing m with
  | nil =>
    rw [List.mapM_nil, runFrom_pure] at hrun
    cases hrun
  | cons pass passes ih =>
    rw [List.mapM_cons, runFrom_bind_eq_error] at hrun
    rcases hrun with hone | ⟨one, m₂, hone, hrun⟩
    · rcases combine_excerpt_fault hn hone with ⟨p, hp, hall⟩
      refine ⟨p, hp, fun keep g n hkeep hranking h => ?_⟩
      rcases hall keep g n hkeep hranking h with ⟨fault', n₁, hone'⟩
      exact ⟨fault', n₁, by rw [List.mapM_cons, runFrom_bind, hone']⟩
    · rcases runFrom_bind_eq_error.1 hrun with hmore | ⟨more, m₃, -, hrun⟩
      · -- A later pass faults; the pattern at fault has its width from one before the first pass.
        rcases changes_of_combine hn hone with ⟨hchanges, -⟩
        rcases ih (hchanges.tables_numbered hn) hmore with ⟨q, hq, hall⟩
        rcases exists_width_of_changes hchanges hq with ⟨p, hp, hwidth⟩
        refine ⟨p, hp, fun keep g n hkeep hranking h => ?_⟩
        rcases combine_excerpt hranking h hone with ⟨one', n₂, hone', hnext⟩
        rcases hall keep g n₂ (hwidth ▸ hkeep) hranking hnext with ⟨fault', n₁, hmore'⟩
        refine ⟨fault', n₁, ?_⟩
        rw [List.mapM_cons, runFrom_bind, hone']
        exact runFrom_bind_eq_error.2 (.inl hmore')
      · cases hrun

end Stage

end SleighForge
