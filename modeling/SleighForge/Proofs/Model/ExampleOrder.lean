import Mathlib.Data.List.Flatten
import Mathlib.Data.List.Sort
import SleighForge.Proofs.Model.SourceOrder
import SleighForge.Proofs.Model.StageExcerpt

/-!
# Examples in the order of the source

A pattern with at most one field is an instruction or was merged once, from instructions in the
order of the source, so its examples are in that order (`examples_in_source_order`). With two fields
they need not be: the second merge puts the examples of one merged pattern after those of another
(`examples_out_of_source_order`).
-/

namespace SleighForge

/-- Patterns without a field are instructions, and the examples of patterns with at most one field
come in the order of the instructions. -/
structure ListedInOrder (instructions : List Instruction) (patterns : List Pattern) : Prop where
  ordered : Ordered patterns
  plain : ∀ p ∈ patterns, p.fields = [] → p ∈ instructions.map Instruction.pattern
  single : ∀ p ∈ patterns, p.fields.length ≤ 1 →
    p.examples.Sublist (instructions.map Instruction.toExample)

/-- To begin with, each instruction is its own example. -/
theorem allExamples_instructions (instructions : List Instruction) :
    allExamples (instructions.map Instruction.pattern) =
      instructions.map Instruction.toExample := by
  rw [allExamples, List.flatMap_map]
  exact List.flatMap_pure_eq_map ..

/-- Patterns in the order of the source that are all among others in that order are a part of
these. -/
theorem Ordered.sublist_of_subset {patterns fewer : List Pattern} (h : Ordered patterns)
    (hfewer : Ordered fewer) (hsub : fewer ⊆ patterns) : fewer.Sublist patterns := by
  have hasymm : Std.Antisymm fun p q : Pattern => p.index < q.index :=
    ⟨fun _ _ hpq hqp => absurd hpq (Int.lt_asymm hqp)⟩
  have hnodup : fewer.Nodup := hfewer.imp fun hlt heq => Int.ne_of_lt hlt (congrArg _ heq)
  exact List.sublist_of_subperm_of_pairwise (List.subperm_of_subset hnodup hsub) hfewer h

theorem eq_of_mem_of_length_le_one {α : Type} {xs : List α} (h : xs.length ≤ 1) {a b : α}
    (ha : a ∈ xs) (hb : b ∈ xs) : a = b := by
  match xs with
  | [] => cases ha
  | [x] => rw [List.mem_singleton.1 ha, List.mem_singleton.1 hb]
  | _ :: _ :: _ => simp at h

/-- A merge into a pattern with one field is a merge of patterns without fields. -/
theorem Combine.Made.fields_eq_nil {ts : Tables} {patterns : List Pattern} {m : Merge}
    {kind : OperandKind} {position : Nat} {first p : Pattern} {rest : List Pattern} {f : BitField}
    (h : Made ts patterns m kind position first rest f) (hone : m.result.fields.length ≤ 1)
    (hp : p ∈ first :: rest) : p.fields = [] := by
  rw [h.gathered.group.fields_eq hp (List.mem_cons_self ..), List.eq_nil_iff_forall_not_mem]
  intro g hg
  have hnew := h.merged.mem_fields.2 (.inl rfl)
  have hold := h.merged.mem_fields.2 (.inr hg)
  -- An old field would be the new one, which was opened where there was none.
  have heq : g = f := eq_of_mem_of_length_le_one hone hold hnew
  have hclear := h.merged.literal.2 g hg
  rw [heq] at hclear
  have := f.lo_lt_hi
  omega

theorem examples_sublist {patterns : List Pattern} {p : Pattern} (hp : p ∈ patterns) :
    p.examples.Sublist (allExamples patterns) := by
  have hsub := (List.singleton_sublist.2 hp).flatMap Pattern.examples
  rwa [List.flatMap_singleton] at hsub

namespace ListedInOrder

variable {instructions : List Instruction} {patterns : List Pattern} {s s' : Stock}

/-- The list as it is read is in order. -/
theorem start (h : instructions.Pairwise fun i j => i.index < j.index) :
    ListedInOrder instructions (instructions.map Instruction.pattern) where
  ordered := ordered_instructions h
  plain _ hp _ := hp
  single _ hp _ := allExamples_instructions instructions ▸ examples_sublist hp

/-- Dropping repeats keeps the order. -/
theorem dropped (h : ListedInOrder instructions patterns) :
    ListedInOrder instructions (Combine.dropDuplicates patterns) := by
  have hsub := Combine.dropDuplicates_sublist patterns
  exact ⟨h.ordered.sublist hsub, fun p hp => h.plain p (hsub.subset hp),
    fun p hp => h.single p (hsub.subset hp)⟩

/-- A merge into one field is made of instructions in the order of the source. -/
theorem merged (hsorted : instructions.Pairwise fun i j => i.index < j.index)
    (h : ListedInOrder instructions patterns) {ts ts' : Tables} {merges : List Combine.Merge}
    (hr : Combine.Round patterns ts ts' merges) :
    ListedInOrder instructions (Combine.settle merges patterns) := by
  refine ⟨h.ordered.settle hr, ?_, ?_⟩
  · intro p hp hnone
    rcases hr.cases_of_mem_settle hp with
      ⟨m, kind, position, first, rest, f, rfl, hmade⟩ | ⟨i, hi⟩
    · have hnew := hmade.merged.mem_fields.2 (.inl rfl)
      rw [hnone] at hnew
      cases hnew
    · exact h.plain p (List.mem_of_getElem? hi) hnone
  · intro p hp hone
    rcases hr.cases_of_mem_settle hp with
      ⟨m, kind, position, first, rest, f, rfl, hmade⟩ | ⟨i, hi⟩
    · -- The members have no fields, so they are instructions, and they keep their order.
      have hmembers : (first :: rest).Sublist (instructions.map Instruction.pattern) := by
        refine (ordered_instructions hsorted).sublist_of_subset (hmade.ordered h.ordered) ?_
        intro q hq
        rcases hmade.mem_members.1 hq with ⟨i, -, hi⟩
        exact h.plain q (List.mem_of_getElem? hi) (hmade.fields_eq_nil hone hq)
      rw [hmade.merged.examples_eq, ← allExamples_instructions]
      exact hmembers.flatMap Pattern.examples
    · exact h.single p (List.mem_of_getElem? hi) hone

theorem mapTable (h : ListedInOrder instructions patterns) (g : Int → Int) :
    ListedInOrder instructions (patterns.map (Pattern.mapTable g)) := by
  refine ⟨h.ordered.mapTable g, ?_, ?_⟩
  · intro p hp hnone
    rcases List.mem_map.1 hp with ⟨q, hq, rfl⟩
    rw [Pattern.fields_mapTable, List.map_eq_nil_iff] at hnone
    have hplain := h.plain q hq hnone
    rcases List.mem_map.1 hplain with ⟨i, -, rfl⟩
    rwa [i.mapTable_pattern]
  · intro p hp hone
    rcases List.mem_map.1 hp with ⟨q, hq, rfl⟩
    rw [Pattern.fields_mapTable, List.length_map] at hone
    exact h.single q hq hone

/-- A change keeps the order, up to one field. -/
theorem change (hsorted : instructions.Pairwise fun i j => i.index < j.index)
    (h : ListedInOrder instructions s.patterns) (hc : Stock.Change s s') :
    ListedInOrder instructions s'.patterns := by
  cases hc with
  | dropped => exact h.dropped
  | merged hr => exact h.merged hsorted hr
  | numbered _ => exact h.mapTable _

theorem changes (hsorted : instructions.Pairwise fun i j => i.index < j.index)
    (h : ListedInOrder instructions s.patterns) (hc : Stock.Changes s s') :
    ListedInOrder instructions s'.patterns := by
  induction hc with
  | refl => exact h
  | tail _ hstep ih => exact ih.change hsorted hstep

end ListedInOrder

/-! ## Runs -/

/-- Combining lists the examples of a pattern with at most one field in the order of the source. -/
theorem examples_in_source_order (config : Config) (catalog : Catalog)
    (instructions : List Instruction) (ranking : Ranking) (stats : List PassStats) (m : Model)
    (hsorted : instructions.Pairwise fun i j => i.index < j.index)
    (hrun : runFrom (Model.ofInstructions config catalog instructions) (Stage.runPasses ranking)
      = (.ok stats, m)) :
    ∀ p ∈ m.patterns, p.fields.length ≤ 1 →
      p.examples.Sublist (instructions.map Instruction.toExample) := by
  have hchanges := Stage.changes_of_passes
    (m := Model.ofInstructions config catalog instructions) Tables.numbered_empty hrun
  exact ((ListedInOrder.start hsorted).changes hsorted hchanges).single

/-- Loads that are merged over one field have their examples in the order of the list. -/
theorem examples_in_source_order_loads : ∃ stats m,
    runFrom (Model.ofInstructions byteConfig Catalog.common loads)
      (Stage.runPasses .longestShared) = (.ok stats, m) ∧
    ∀ p ∈ m.patterns, p.fields.length ≤ 1 →
      p.examples.Sublist (loads.map Instruction.toExample) := by
  obtain ⟨stats, m, hrun⟩ := exists_of_isOk
    (s := Model.ofInstructions byteConfig Catalog.common loads)
    (x := Stage.runPasses .longestShared) (by decide +kernel)
  exact ⟨stats, m, hrun, examples_in_source_order _ _ _ _ stats m (by decide) hrun⟩

/-! ### Two fields -/

/-- The instruction that loads a register with a number, for examples. -/
def load (register : String) (value : Int) (word : Nat) (index : Int) : Instruction where
  mnemonic := "LD"
  operands := [.register register, .text ",", .text "#", .immediate value (toString value)]
  word := byteWord word
  index
  plain := by simp [Operand.field?]

/-- Loads of two registers with two numbers each, where the register changes first. -/
def crossLoads : List Instruction :=
  [load "r0" 0 0x10 0, load "r1" 0 0x12 1, load "r0" 1 0x11 2, load "r1" 1 0x13 3]

/-- The same loads, one register after the other. -/
def loadsByRegister : List Instruction :=
  [load "r0" 0 0x10 0, load "r0" 1 0x11 2, load "r1" 0 0x12 1, load "r1" 1 0x13 3]

/-- The number in the lowest bit. -/
def lowBit : BitField :=
  ⟨0, 1, .immediate, false, Nat.one_pos⟩

/-- The lowest bit of an instruction is literal. -/
theorem isLiteral_lowBit (i : Instruction) : i.pattern.encoding.IsLiteral lowBit.lo lowBit.hi := by
  have hwidth : 1 ≤ i.word.width := i.word.width_pos
  exact ⟨hwidth, fun _ hf => nomatch hf⟩

/-- Two loads merged over the number. -/
def eitherLoad (i j : Instruction) : Pattern :=
  i.pattern.generalize 3 lowBit (isLiteral_lowBit i) [i.toExample, j.toExample]

/-- The loads of either register, merged over the number. -/
def mergedLoads : List Pattern :=
  [eitherLoad (load "r0" 0 0x10 0) (load "r0" 1 0x11 2),
   eitherLoad (load "r1" 0 0x12 1) (load "r1" 1 0x13 3)]

/-- The pass over numbers merges the loads of each register. -/
theorem merge_numbers : ∃ stats b,
    runFrom ({} : Combine.Bench)
      (Combine.runPass .immediates .longestShared (crossLoads.map Instruction.pattern)) =
      (.ok (mergedLoads, stats), b) ∧ b.tables = {} := by
  -- The candidates are in the order of the ranking, so sorting leaves them alone.
  have hranked : (Candidate.all .immediate (crossLoads.map Instruction.pattern)).mergeSort
      Ranking.longestShared = Candidate.all .immediate (crossLoads.map Instruction.pattern) :=
    List.mergeSort_of_pairwise (by decide +kernel)
  have hdone : (runFrom ({} : Combine.Bench) (Combine.runPass .immediates .longestShared
        (crossLoads.map Instruction.pattern))).1.toOption.map Prod.fst = some mergedLoads ∧
      (runFrom ({} : Combine.Bench) (Combine.runPass .immediates .longestShared
        (crossLoads.map Instruction.pattern))).2.tables = {} := by
    rw [Combine.runPass, Combine.mergeRounds]
    dsimp only
    rw [hranked]
    decide +kernel
  rcases hrun : runFrom ({} : Combine.Bench) (Combine.runPass .immediates .longestShared
    (crossLoads.map Instruction.pattern)) with ⟨fault | ⟨patterns, stats⟩, b⟩
  · rw [hrun] at hdone
    cases hdone.1
  · rw [hrun] at hdone
    cases hdone.1
    exact ⟨stats, b, rfl, hdone.2⟩

/-- The pass over registers then puts the loads of one register before those of the other. -/
theorem merge_loads_of_registers : ∃ patterns stats b,
    runFrom ({} : Combine.Bench) (Combine.runPass .registers .longestShared mergedLoads) =
      (.ok (patterns, stats), b) ∧
    patterns.map Pattern.examples = [loadsByRegister.map Instruction.toExample] := by
  have hdone : (runFrom ({} : Combine.Bench) (Combine.runPass .registers .longestShared
      mergedLoads)).1.toOption.map (fun done => done.1.map Pattern.examples) =
      some [loadsByRegister.map Instruction.toExample] := by
    decide +kernel
  rcases hrun : runFrom ({} : Combine.Bench) (Combine.runPass .registers .longestShared
    mergedLoads) with ⟨fault | ⟨patterns, stats⟩, b⟩
  · rw [hrun] at hdone
    cases hdone
  · rw [hrun] at hdone
    exact ⟨patterns, stats, b, rfl, Option.some.inj hdone⟩

/-- Two merges over crossing groups list the examples out of the order of the source. -/
theorem examples_out_of_source_order : ∃ stats m,
    runFrom (Model.ofInstructions byteConfig Catalog.common crossLoads)
      (Stage.runPasses .longestShared) = (.ok stats, m) ∧
    ∃ p ∈ m.patterns, ¬ p.examples.Sublist (crossLoads.map Instruction.toExample) := by
  have hranking := Ranking.longestShared_respects (fun _ => true) KeepsOrder.refl
  have hdistinct : ∃ stats, runFrom ({} : Combine.Bench) (Combine.runPass .duplicates
      .longestShared (crossLoads.map Instruction.pattern)) =
      (.ok (crossLoads.map Instruction.pattern, stats), {}) :=
    ⟨⟨.duplicates, 4, 4, 0, 1⟩, rfl⟩
  rcases hdistinct with ⟨stats₁, hdistinct⟩
  -- Each pass by itself starts from an empty bench; in the run it does the same.
  rcases merge_numbers with ⟨stats₂, b₂, hnumbers, htables⟩
  rcases merge_loads_of_registers with ⟨patterns, stats₃, b₃, hregisters, hexamples⟩
  have hstart := excerpt_instructions (fun _ => true) crossLoads
  rcases Stage.combine_of_runPass (b := {})
    (n := Model.ofInstructions byteConfig Catalog.common crossLoads) hranking hstart hdistinct
    with ⟨one, m₁, hone, h₁⟩
  rcases Stage.combine_of_runPass hranking h₁ hnumbers with ⟨two, m₂, htwo, h₂⟩
  rw [htables] at h₂
  rcases Stage.combine_of_runPass (b := {}) hranking h₂ hregisters with ⟨three, m₃, hthree, h₃⟩
  refine ⟨[one, two, three], m₃, Stage.passes_cons hone
    (Stage.passes_cons htwo (Stage.passes_cons hthree rfl)), ?_⟩
  have hmerged : m₃.patterns.map Pattern.examples = patterns.map Pattern.examples := by
    have htwins := h₃.twins
    rw [List.filter_true] at htwins
    exact (map_eq_map_of_forall₂ htwins fun _ _ _ _ hpq => hpq.examples.symm).symm
  rw [hexamples] at hmerged
  have hmem : loadsByRegister.map Instruction.toExample ∈ m₃.patterns.map Pattern.examples :=
    hmerged ▸ List.mem_cons_self ..
  rcases List.mem_map.1 hmem with ⟨p, hp, hp'⟩
  refine ⟨p, hp, ?_⟩
  rw [hp']
  decide +kernel

end SleighForge
