import SleighForge.Proofs.Combine.Change

/-!
# Examples

Merging gives each merged pattern the examples of its members, so a merging pass permutes the
examples of the patterns (`examples_perm_of_runPass`).
-/

namespace SleighForge

/-- The examples of some patterns, one after the other. -/
def allExamples (patterns : List Pattern) : List Example :=
  patterns.flatMap Pattern.examples

theorem allExamples_mapTable (g : Int → Int) (patterns : List Pattern) :
    allExamples (patterns.map (Pattern.mapTable g)) = allExamples patterns :=
  List.flatMap_map ..

namespace Combine

/-- A round permutes the examples. -/
theorem Round.examples_perm {patterns : List Pattern} {ts ts' : Tables} {merges : List Merge}
    (h : Round patterns ts ts' merges) :
    (allExamples (settle merges patterns)).Perm (allExamples patterns) := by
  have hmerged : (merges.map Merge.result).flatMap Pattern.examples =
      (merges.flatMap (·.members patterns)).flatMap Pattern.examples := by
    rw [List.flatMap_map, List.flatMap_assoc]
    apply List.flatMap_congr
    intro m hm
    rcases h.made m hm with ⟨kind, position, first, rest, f, hmade⟩
    rw [hmade.merged.examples_eq, hmade.members_eq]
  have hafter := (settle_perm h.disjoint).flatMap_right Pattern.examples
  have hbefore := (perm_members_append h.disjoint).flatMap_right Pattern.examples
  rw [List.flatMap_append, hmerged, ← List.flatMap_append] at hafter
  exact hafter.trans hbefore.symm

/-- Rounds only permute the examples. -/
theorem examples_perm_of_mergeRounds (kind : OperandKind) {ranking : Ranking}
    {now done : Progress} {b b' : Bench} (hn : b.tables.Numbered)
    (hrun : runFrom b (mergeRounds kind ranking (mergerOf kind) now) = (.ok done, b')) :
    (allExamples done.patterns).Perm (allExamples now.patterns) := by
  refine (mergeRounds_induction
    (I := fun patterns c => c.tables.Numbered ∧
      (allExamples patterns).Perm (allExamples now.patterns))
    (fun patterns c merges c' hc hround => ?_) ⟨hn, .refl _⟩ hrun).2
  have hr := round_of_mergeRound (fun _ => mem_all_of_mem_mergeSort) hc.1 hround
  exact ⟨hr.grown.numbered, hr.examples_perm.trans hc.2⟩

/-- A merging pass permutes the examples. -/
theorem examples_perm_of_runPass {pass : Pass} {ranking : Ranking}
    {patterns patterns' : List Pattern} {b b' : Bench} {stats : PassStats}
    (hpass : pass ≠ .duplicates) (hn : b.tables.Numbered)
    (hrun : runFrom b (runPass pass ranking patterns) = (.ok (patterns', stats), b')) :
    (allExamples patterns').Perm (allExamples patterns) := by
  cases pass with
  | duplicates => exact absurd rfl hpass
  | immediates =>
    rcases runFrom_bind_eq_ok.1 hrun with ⟨done, c, hrounds, hrun⟩
    cases hrun
    exact examples_perm_of_mergeRounds .immediate hn hrounds
  | registers =>
    rcases runFrom_bind_eq_ok.1 hrun with ⟨done, c, hrounds, hrun⟩
    cases hrun
    exact examples_perm_of_mergeRounds .register hn hrounds

end Combine

end SleighForge
