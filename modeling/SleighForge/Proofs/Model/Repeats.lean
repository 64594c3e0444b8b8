import SleighForge.Proofs.Listing.Padding
import SleighForge.Proofs.Model.Positions
import SleighForge.Proofs.Model.StageExcerpt
import SleighForge.Proofs.Specification

/-!
# Repeats and comments

Lines that say nothing new have no part in the specification (`build_padded`): the first pass drops
repeats, and from there on the patterns of the padded list are those of the list at other positions,
which are in the same order.
-/

namespace SleighForge

variable {g : Int → Int}

/-! ## Dropping repeats -/

namespace Stage

/-- The first pass drops repeats and does nothing else. -/
theorem combine_duplicates (m : Model) (ranking : Ranking) :
    ∃ stats journal, runFrom m (combine .duplicates ranking) =
      (.ok stats, { m with patterns := Combine.dropDuplicates m.patterns, journal }) := by
  rcases runFrom_combine m .duplicates ranking with ⟨journal, hrun⟩
  exact ⟨_, journal, hrun⟩

end Stage

/-- Instructions and the same instructions at other positions are twins. -/
theorem excerpt_reindex {instructions : List Instruction} {patterns : List Pattern}
    (h : patterns ⊆ instructions.map Instruction.pattern) :
    Excerpt (fun _ => true) g {} {} patterns (patterns.map (Pattern.reindex g)) := by
  refine ⟨Tables.interned_empty, Tables.interned_empty, ?_⟩
  rw [List.filter_true, List.forall₂_map_right_iff]
  refine List.forall₂_same.2 fun p hp => ?_
  rcases List.mem_map.1 (h hp) with ⟨i, -, rfl⟩
  exact alike_pattern {} {} { i with index := g i.index }

/-! ## Models side by side -/

/-- The second model has the instructions of the first and repeats of them, at other positions, and
nothing has been done to either. -/
structure Model.Repeating (g : Int → Int) (m m' : Model) : Prop extends SameFrame m m' where
  order : KeepsOrder g
  concrete : ∃ instructions : List Instruction, m.patterns = instructions.map Instruction.pattern
  tables : m.tables = {}
  tables' : m'.tables = {}
  kept : Combine.dropDuplicates m'.patterns =
    (Combine.dropDuplicates m.patterns).map (Pattern.reindex g)

/-- Without repeats, the patterns of the second model are an excerpt, of all widths, of those of the
first. -/
theorem Model.Repeating.excerpt {m m' : Model} (h : m.Repeating g m') :
    Excerpt (fun _ => true) g m.tables m'.tables (Combine.dropDuplicates m.patterns)
      (Combine.dropDuplicates m'.patterns) := by
  rcases h.concrete with ⟨instructions, hm⟩
  have hsub : Combine.dropDuplicates m.patterns ⊆ instructions.map Instruction.pattern := by
    rw [← hm]
    exact (Combine.dropDuplicates_sublist m.patterns).subset
  rw [h.tables, h.tables', h.kept]
  exact excerpt_reindex hsub

/-- All passes bring the models to twins. -/
theorem Stage.runPasses_twins {m m' m₁ : Model} {stats : List PassStats} (h : m.Repeating g m')
    (hrun : runFrom m (runPasses .longestShared) = (.ok stats, m₁)) :
    ∃ stats' m₁', runFrom m' (runPasses .longestShared) = (.ok stats', m₁') ∧ m₁.SameFrame m₁' ∧
      List.Forall₂ (Pattern.Twin g m₁.tables m₁'.tables) m₁.patterns m₁'.patterns := by
  have hframe₁ := sameFrame_of_passes hrun
  rw [runPasses, Pass.all, List.mapM_cons] at hrun
  rcases runFrom_bind_eq_ok.1 hrun with ⟨one, n, hone, hrest⟩
  rcases runFrom_bind_eq_ok.1 hrest with ⟨more, n₁, hmore, hdone⟩
  cases hdone
  -- The first pass drops the repeats on both sides.
  rcases combine_duplicates m .longestShared with ⟨one₁, journal, hdropped⟩
  rw [hone] at hdropped
  cases hdropped
  rcases combine_duplicates m' .longestShared with ⟨one', journal', hone'⟩
  rcases passes_excerpt
    (n := { m' with patterns := Combine.dropDuplicates m'.patterns, journal := journal' })
    (Ranking.longestShared_respects _ h.order) h.excerpt hmore with ⟨more', m₁', hmore', hlast⟩
  have hrun' := passes_cons hone' hmore'
  refine ⟨one' :: more', m₁', hrun', ?_, ?_⟩
  · exact hframe₁.symm.trans (h.toSameFrame.trans (sameFrame_of_passes hrun'))
  · have htwins := hlast.twins
    rwa [List.filter_true] at htwins

/-- Finishing brings the models to models that differ in positions only. -/
theorem Job.finish_moved {job : Job} {m n m₃ : Model} {stats : List PassStats}
    (hcombine : job.combine = Stage.runPasses .longestShared) (h : m.Repeating g n)
    (hready : m.Ready) (hready' : n.Ready) (hrun : runFrom m job.finish = (.ok stats, m₃)) :
    ∃ stats' n₃, runFrom n job.finish = (.ok stats', n₃) ∧ m₃.Moved g n₃ ∧
      ∃ text, Specification.render m₃ = .ok text := by
  rcases finish_eq_ok.1 hrun with ⟨m₁, m₂, hpasses, hnumber, hlay⟩
  rcases Stage.runPasses_twins h (hcombine ▸ hpasses) with
    ⟨stats', n₁, hpasses', hframe₁, htwins⟩
  rw [← hcombine] at hpasses'
  have hready₁ := (ready_of_combine hready hpasses).note .info "Computing attach registers"
  have hready₁' := (ready_of_combine hready' hpasses').note .info "Computing attach registers"
  rcases Stage.numberTables_moved hready₁.sound.named hready₁'.sound.named (hframe₁.note ..) htwins
    hnumber with ⟨n₂, hnumber', hmoved⟩
  -- Numbering leaves either model ready, so laying out finds every register.
  rcases hready₁.numberTables with ⟨k, hk, hready₂⟩
  rcases hready₁'.numberTables with ⟨k', hk', hready₂'⟩
  rw [hnumber] at hk
  rw [hnumber'] at hk'
  cases hk
  cases hk'
  rcases Stage.layOut_moved (hmoved.note ..) (hready₂'.note ..).unknownRegister?_eq_none hlay with
    ⟨n₃, hlay', hmoved'⟩
  exact ⟨stats', n₃, finish_eq_ok.2 ⟨n₁, n₂, hpasses', hnumber', hlay'⟩, hmoved',
    Specification.render_of_layOut (hready₂.note ..).sound.named hlay⟩

/-- A list with more blank lines, comments and repeats builds if the list does. It comes to the same
patterns at other positions, which are in the same order, to the same tables, tokens and layouts,
and to the same text. -/
theorem build_padded (job : Job) (lines padded : List String) (c : Collector) (m : Model)
    (stats : List PassStats) (hranking : job.ranking = .longestShared)
    (hcombining : job.skipCombining = false) (hpadded : Listing.Padded job.reader [] lines padded)
    (hbuild : (job.build lines c).result = .ok (m, stats)) :
    ∃ m' stats' g text, (job.build padded c).result = .ok (m', stats') ∧ KeepsOrder g ∧
      m'.patterns = m.patterns.map (Pattern.reindex g) ∧ m'.tables = m.tables ∧
      m'.tokens = m.tokens ∧ m'.layouts = m.layouts ∧
      Specification.render m = .ok text ∧ Specification.render m' = .ok text := by
  have hcombine : job.combine = Stage.runPasses .longestShared := by
    rw [Job.combine, hcombining, if_neg Bool.false_ne_true, hranking]
  rcases Job.exists_read_of_build hbuild with ⟨listing, hread⟩
  rcases Listing.read_padded hpadded hread with ⟨listing', g, hread', hg, hkept⟩
  rcases Job.build_of_read hread with ⟨journal, heq⟩
  rcases Job.build_of_read hread' with ⟨journal', heq'⟩
  rcases Listing.read_ok hread with ⟨instructions, hinstructions, -⟩
  -- The listings differ in repeats, which the first pass of the schedule drops.
  have hrepeating : (job.start listing journal).Repeating g (job.start listing' journal') :=
    ⟨⟨rfl, rfl, rfl, rfl⟩, hg, ⟨instructions, hinstructions⟩, rfl, rfl, hkept⟩
  rcases hrun : runFrom (job.start listing journal) job.finish with ⟨fault | stats₁, m₁⟩
  · rw [hbuild, hrun] at heq
    cases heq
  · rw [hbuild, hrun] at heq
    cases heq
    rcases Job.finish_moved hcombine hrepeating (Model.ready_of_read hread rfl rfl rfl)
      (Model.ready_of_read hread' rfl rfl rfl) hrun with ⟨stats', m', hrun', hmoved, text, htext⟩
    rw [hrun'] at heq'
    exact ⟨m', stats', g, text, heq', hg, hmoved.patterns, hmoved.tables, hmoved.tokens,
      hmoved.layouts, htext, hmoved.render_eq.trans htext⟩

/-- A list for examples. -/
def moveLines : List String :=
  ["00010000 MOV r0", "00010001 MOV r1"]

/-- The same list with a comment, a blank line and two repeats. -/
def paddedMoveLines : List String :=
  ["; moves", "00010000 MOV r0", "0x10 MOV R0 ; again", "00010001 MOV r1", "\r\n",
    "0001_0000 MOV r0"]

theorem padded_moveLines : Listing.Padded byteJob.reader [] moveLines paddedMoveLines := by
  let p : Pattern := .concrete "MOV" [.register "r0"] (byteWord 0x10) 0
  have hline : Listing.instruction? byteJob.reader "00010000 MOV r0" = some p := by decide +kernel
  have hhex : Listing.instruction? byteJob.reader "0x10 MOV R0 ; again" = some p := by
    decide +kernel
  have hgap : Listing.instruction? byteJob.reader "0001_0000 MOV r0" = some p := by decide +kernel
  refine .comment (by decide +kernel) (.keep _ ?_)
  rw [hline]
  refine .again hhex (List.mem_cons_self ..) rfl (.keep _ (.comment (by decide +kernel) ?_))
  exact .again hgap (List.mem_append_right _ (List.mem_cons_self ..)) rfl (.done _)

/-- A comment, a blank line and two repeats make no difference to the text. -/
theorem build_padded_moves : ∃ m stats m' stats' text,
    (byteJob.build moveLines {}).result = .ok (m, stats) ∧
    (byteJob.build paddedMoveLines {}).result = .ok (m', stats') ∧ m'.layouts = m.layouts ∧
    Specification.render m = .ok text ∧ Specification.render m' = .ok text := by
  have hok : (byteJob.build moveLines {}).result.isOk = true := by decide +kernel
  cases hbuild : (byteJob.build moveLines {}).result with
  | error fault =>
    rw [hbuild] at hok
    cases hok
  | ok built =>
    rcases built with ⟨m, stats⟩
    rcases build_padded byteJob moveLines paddedMoveLines {} m stats rfl rfl padded_moveLines
      hbuild with ⟨m', stats', g, text, hbuild', -, -, -, -, hlayouts, htext, htext'⟩
    exact ⟨m, stats, m', stats', text, rfl, hbuild', hlayouts, htext, htext'⟩

end SleighForge
