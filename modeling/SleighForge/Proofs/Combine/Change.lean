import Mathlib.Logic.Relation
import SleighForge.Proofs.Combine.Made
import SleighForge.Proofs.RegisterTable.Numbering

/-!
# Changes of the patterns

Combining and numbering change patterns and tables in three ways: repeats are dropped, a round
merges groups, and the tables are numbered (`Change`). A pass over patterns is a sequence of such
changes (`changes_of_runPass`), so an invariant is shown by looking at each of the three.
-/

namespace SleighForge

open Relation (ReflTransGen)

/-- Patterns with the tables that their fields select from. -/
structure Stock where
  patterns : List Pattern
  tables : Tables

namespace Stock

/-- One change of patterns and tables. -/
inductive Change : Stock → Stock → Prop where
  | dropped (s : Stock) : Change s ⟨Combine.dropDuplicates s.patterns, s.tables⟩
  | merged {s : Stock} {tables : Tables} {merges : List Combine.Merge}
    (h : Combine.Round s.patterns s.tables tables merges) :
    Change s ⟨Combine.settle merges s.patterns, tables⟩
  | numbered {s : Stock} {n : Numbering} (h : n.Renumbers s.tables s.patterns) :
    Change s ⟨s.patterns.map (Pattern.mapTable n.apply), n.toTables⟩

/-- Any number of changes. -/
abbrev Changes : Stock → Stock → Prop :=
  ReflTransGen Change

variable {s s' : Stock}

/-- A change keeps the tables numbered in order. -/
theorem Change.tables_numbered (h : Change s s') (hn : s.tables.Numbered) :
    s'.tables.Numbered := by
  cases h with
  | dropped => exact hn
  | merged h => exact h.grown.numbered
  | numbered h => exact h.numbered

theorem Changes.tables_numbered (h : Changes s s') (hn : s.tables.Numbered) :
    s'.tables.Numbered := by
  induction h with
  | refl => exact hn
  | tail _ hstep ih => exact hstep.tables_numbered ih

end Stock

namespace Combine

/-! ## Dropping repeats -/

theorem dropDuplicates_sublist (patterns : List Pattern) :
    (dropDuplicates patterns).Sublist patterns :=
  distinctBy_sublist _ _

/-- A repeat of every pattern stays. -/
theorem exists_mem_dropDuplicates {patterns : List Pattern} {p : Pattern} (hp : p ∈ patterns) :
    ∃ q ∈ dropDuplicates patterns, q.identity = p.identity := by
  have hid : p.identity ∈ (dropDuplicates patterns).map Pattern.identity :=
    mem_map_distinctBy.2 (List.mem_map_of_mem hp)
  exact List.mem_map.1 hid

/-! ## Passes -/

/-- A pass drops repeats, or makes rounds over one kind of operand. -/
theorem runPass_cases (pass : Pass) : pass = .duplicates ∨ ∃ kind, ∀ ranking patterns,
    runPass pass ranking patterns = do
      let done ← mergeRounds kind ranking (mergerOf kind) ⟨patterns, 0, 0⟩
      return (done.patterns,
        ⟨pass, patterns.length, done.patterns.length, done.groups, done.rounds⟩) := by
  cases pass with
  | duplicates => exact .inl rfl
  | immediates => exact .inr ⟨.immediate, fun _ _ => rfl⟩
  | registers => exact .inr ⟨.register, fun _ _ => rfl⟩

/-- Every round of a pass is a change. -/
theorem changes_of_mergeRounds (kind : OperandKind) {ranking : Ranking} {now done : Progress}
    {b b' : Bench} (hn : b.tables.Numbered)
    (hrun : runFrom b (mergeRounds kind ranking (mergerOf kind) now) = (.ok done, b')) :
    Stock.Changes ⟨now.patterns, b.tables⟩ ⟨done.patterns, b'.tables⟩ := by
  refine mergeRounds_induction
    (I := fun patterns c => Stock.Changes ⟨now.patterns, b.tables⟩ ⟨patterns, c.tables⟩)
    (fun patterns c merges c' hc hround => ?_) .refl hrun
  exact hc.tail <| .merged <|
    round_of_mergeRound (fun _ => mem_all_of_mem_mergeSort) (hc.tables_numbered hn) hround

/-- What a pass does, where it ends well, is a sequence of changes. -/
theorem changes_of_runPass {pass : Pass} {ranking : Ranking} {patterns patterns' : List Pattern}
    {b b' : Bench} {stats : PassStats} (hn : b.tables.Numbered)
    (hrun : runFrom b (runPass pass ranking patterns) = (.ok (patterns', stats), b')) :
    Stock.Changes ⟨patterns, b.tables⟩ ⟨patterns', b'.tables⟩ := by
  rcases runPass_cases pass with rfl | ⟨kind, heq⟩
  · rw [runPass, runFrom_pure] at hrun
    cases hrun
    exact .single (.dropped ⟨patterns, b.tables⟩)
  · rw [heq] at hrun
    rcases runFrom_bind_eq_ok.1 hrun with ⟨done, c, hrounds, hrun⟩
    cases hrun
    exact changes_of_mergeRounds kind hn hrounds

/-- A pass fails only where a group has no place for what tells its members apart. -/
theorem isPlacement_of_runPass {pass : Pass} {ranking : Ranking} {patterns : List Pattern}
    {b b' : Bench} {fault : CombineFault}
    (hrun : runFrom b (runPass pass ranking patterns) = (.error fault, b')) :
    fault.IsPlacement := by
  rcases runPass_cases pass with rfl | ⟨kind, heq⟩
  · cases hrun
  · rw [heq] at hrun
    rcases runFrom_bind_eq_error.1 hrun with hrounds | ⟨done, c, -, hrun⟩
    · exact isPlacement_of_mergeRounds kind hrounds
    · cases hrun

end Combine

end SleighForge
