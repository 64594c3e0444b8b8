import SleighForge.Job
import SleighForge.Proofs.Layout
import SleighForge.Proofs.Listing
import SleighForge.Proofs.Model.Soundness

/-!
# Bringing a model to its final form

After combining, numbering and laying out cannot fail on a model of instructions as they are read
(`finish_of_combine`): the tables have two registers, the fields lie apart and have the widths that
their tables ask for, and the catalog knows all registers. The one way in which a job fails after
reading is that a group has no place for what tells its members apart.
-/

namespace SleighForge

/-- A model of which numbering and laying out can be made, and a specification written. -/
structure Model.Ready (m : Model) : Prop where
  sound : m.stock.Sound
  displayed : m.stock.Displayed
  known : m.stock.Known fun name => m.catalog.contains name = true

theorem Stock.known_instructions {known : String → Prop} {instructions : List Instruction}
    (h : ∀ i ∈ instructions, ∀ name, .register name ∈ i.operands → known name) :
    Known known ⟨instructions.map Instruction.pattern, {}⟩ where
  operands p hp name hname := by
    rcases List.mem_map.1 hp with ⟨i, hi, rfl⟩
    exact h i hi name hname
  tables _ ht := absurd ht List.not_mem_nil

namespace Model

variable {m m' : Model}

/-- A model of instructions as they are read is ready. -/
theorem ready_of_read {reader : Reader} {lines : List String} {collector : Collector}
    {listing : Listing} (hread : (Listing.read reader lines collector).result = .ok listing)
    (hpatterns : m.patterns = listing.patterns) (hcatalog : m.catalog = reader.catalog)
    (htables : m.tables = {}) : m.Ready := by
  rcases Listing.read_ok hread with ⟨instructions, heq, hknown⟩
  have hstock : m.stock = ⟨instructions.map Instruction.pattern, {}⟩ := by
    rw [stock, hpatterns, heq, htables]
  refine ⟨?_, ?_, ?_⟩
  · rw [hstock]
    exact Stock.sound_instructions instructions
  · rw [hstock]
    exact Stock.displayed_instructions instructions
  · rw [hstock, hcatalog]
    exact Stock.known_instructions hknown

theorem Ready.note (h : m.Ready) (severity : Severity) (text : String) :
    (m.note severity text).Ready :=
  ⟨h.sound, h.displayed, h.known⟩

/-- A model stays ready while it is combined. -/
theorem Ready.changes (h : m.Ready) (hc : Stock.Changes m.stock m'.stock)
    (hcatalog : m'.catalog = m.catalog) : m'.Ready :=
  ⟨h.sound.changes hc, h.displayed.changes hc, hcatalog ▸ h.known.changes hc⟩

/-! ## Numbering -/

/-- The tables of a ready model can be numbered, and it stays ready. -/
theorem Ready.numberTables (h : m.Ready) :
    ∃ m', runFrom m Stage.numberTables = (.ok ⟨⟩, m') ∧ m'.Ready := by
  have hn : ∃ n, Numbering.ofPatterns m.tables m.patterns = .ok n := by
    apply Numbering.ofPatterns_ok
    intro p hp f hf old hold
    rcases h.sound.hasTable p hp f hf old (BitField.table?_eq_some_iff.1 hold) with ⟨u, hu, -, htwo⟩
    exact ⟨u, hu, htwo⟩
  rcases hn with ⟨n, hn⟩
  rcases Stage.runFrom_numberTables m with ⟨journal, hrun⟩
  rw [hn] at hrun
  rcases Stage.changes_of_numberTables hrun with ⟨hchanges, hcatalog⟩
  exact ⟨_, hrun, h.changes hchanges hcatalog⟩

/-! ## Laying out -/

theorem Ready.unknownRegister?_eq_none (h : m.Ready) : m.unknownRegister? = none := by
  -- The list of unknown registers is empty, for the tables as for the operands.
  have htables : ∀ t ∈ m.tables.toList, t.members.filter (!m.catalog.contains ·) = [] := by
    intro t ht
    rcases List.mem_filterMap.1 ht with ⟨id, -, hget⟩
    rw [List.filter_eq_nil_iff]
    intro name hname
    simp [h.known.tables t (List.mem_of_find?_eq_some hget) name hname]
  have hoperands : ∀ p ∈ m.patterns,
      (p.operands.filterMap Operand.register?).filter (!m.catalog.contains ·) = [] := by
    intro p hp
    rw [List.filter_eq_nil_iff]
    intro name hname
    rcases List.mem_filterMap.1 hname with ⟨op, hop, hreg⟩
    cases op with
    | register name' =>
      cases hreg
      simp [h.known.operands p hp name hop]
    | _ => cases hreg
  unfold unknownRegister?
  dsimp only
  rw [List.head?_eq_none_iff, List.append_eq_nil_iff, List.flatMap_eq_nil_iff,
    List.flatMap_eq_nil_iff]
  exact ⟨fun t ht => by rw [htables t ht]; rfl, fun p hp => by rw [hoperands p hp]; rfl⟩

/-- A ready model can be laid out. -/
theorem Ready.layOut (h : m.Ready) : ∃ m', runFrom m Stage.layOut = (.ok ⟨⟩, m') :=
  Stage.layOut_ok h.unknownRegister?_eq_none fun p hp stem =>
    Layout.ofPattern_ok (h.sound.named p hp) (h.sound.hasTable p hp) stem

end Model

namespace Job

variable {job : Job} {lines : List String} {c : Collector} {m m' : Model} {stats : List PassStats}

/-! ## The parts of a job -/

/-- The model of a list that was read. -/
def start (job : Job) (listing : Listing) (journal : Journal) : Model where
  config := job.config
  catalog := job.knownRegisters
  patterns := listing.patterns
  journal := journal

/-- A job builds what it has read. -/
theorem build_of_read {listing : Listing}
    (hread : (Listing.read job.reader lines c).result = .ok listing) :
    ∃ journal, (job.build lines c).result =
      match runFrom (job.start listing journal) job.finish with
      | (.ok stats, m) => .ok (m, stats)
      | (.error fault, _) => .error (.stage fault) := by
  unfold build parse
  dsimp only
  rw [hread]
  dsimp only
  generalize (⟨.info, "Parsing instructions"⟩ :: (Listing.read job.reader lines c).journal) ++ _
    = journal
  refine ⟨journal, ?_⟩
  rcases hrun : runFrom (job.start listing journal) job.finish with ⟨fault | stats, m⟩
  all_goals
    have hfinish : job.finish.run.run (job.start listing journal) = _ := hrun
    unfold start at hfinish
    rw [hfinish]

theorem exists_read_of_build (h : (job.build lines c).result = .ok (m, stats)) :
    ∃ listing, (Listing.read job.reader lines c).result = .ok listing := by
  cases hread : (Listing.read job.reader lines c).result with
  | ok listing => exact ⟨listing, rfl⟩
  | error fault =>
    unfold build parse at h
    dsimp only at h
    rw [hread] at h
    cases h

/-- The stages are combining, numbering and laying out, and all have to go well. -/
theorem finish_eq_ok : runFrom m job.finish = (.ok stats, m') ↔
    ∃ m₁ m₂, runFrom m job.combine = (.ok stats, m₁) ∧
      runFrom (m₁.note .info "Computing attach registers") Stage.numberTables = (.ok ⟨⟩, m₂) ∧
      runFrom (m₂.note .info "Computing token instructions") Stage.layOut = (.ok ⟨⟩, m') := by
  constructor
  · intro hrun
    rcases runFrom_bind_eq_ok.1 hrun with ⟨stats₁, m₁, hcombine, h₁⟩
    rcases runFrom_bind_eq_ok.1 h₁ with ⟨_, _, hnote, h₂⟩
    cases hnote
    rcases runFrom_bind_eq_ok.1 h₂ with ⟨_, m₂, hnumber, h₃⟩
    rcases runFrom_bind_eq_ok.1 h₃ with ⟨_, _, hnote', h₄⟩
    cases hnote'
    rcases runFrom_bind_eq_ok.1 h₄ with ⟨_, m₃, hlay, h₅⟩
    cases h₅
    exact ⟨m₁, m₂, hcombine, hnumber, hlay⟩
  · rintro ⟨m₁, m₂, hcombine, hnumber, hlay⟩
    refine runFrom_bind_eq_ok.2 ⟨stats, m₁, hcombine, runFrom_bind_eq_ok.2 ⟨⟨⟩, _, rfl, ?_⟩⟩
    refine runFrom_bind_eq_ok.2 ⟨⟨⟩, m₂, hnumber, runFrom_bind_eq_ok.2 ⟨⟨⟩, _, rfl, ?_⟩⟩
    exact runFrom_bind_eq_ok.2 ⟨⟨⟩, m', hlay, rfl⟩

/-! ## Combining -/

/-- A model that is combined stays ready. -/
theorem ready_of_combine (h : m.Ready)
    (hrun : runFrom m job.combine = (.ok stats, m')) : m'.Ready := by
  unfold combine at hrun
  split at hrun
  · rw [runFrom_bind, Stage.note, runFrom_modify] at hrun
    cases hrun
    exact h.note ..
  · refine runFrom_mapM_induction (I := Model.Ready) ?_ h hrun
    intro pass _ s _ t hs hpass
    rcases Stage.changes_of_combine hs.sound.numbered hpass with ⟨hchanges, hcatalog⟩
    exact hs.changes hchanges hcatalog

/-- Combining fails only where a group has no place for what tells its members apart. -/
theorem combine_fault {fault : StageFault} (hrun : runFrom m job.combine = (.error fault, m')) :
    ∃ f, fault = .combine f ∧ f.IsPlacement := by
  unfold combine at hrun
  split at hrun
  · rw [runFrom_bind, Stage.note, runFrom_modify] at hrun
    cases hrun
  · rcases runFrom_mapM_eq_error hrun with ⟨pass, -, m₁, hpass⟩
    rcases Stage.runFrom_combine m₁ pass job.ranking with ⟨journal, hcombine⟩
    rw [hpass] at hcombine
    rcases hrunPass : runFrom ⟨m₁.tables, m₁.journal⟩
      (Combine.runPass pass job.ranking m₁.patterns) with ⟨f | ⟨patterns, stats⟩, b⟩
    · rw [hrunPass] at hcombine
      cases hcombine
      exact ⟨f, rfl, Combine.isPlacement_of_runPass hrunPass⟩
    · rw [hrunPass] at hcombine
      cases hcombine

/-! ## Finishing -/

/-- Once combining has ended well, the rest of the job does. -/
theorem finish_ok (h : m.Ready)
    (hrun : runFrom m job.combine = (.ok stats, m')) :
    ∃ m₁, runFrom m job.finish = (.ok stats, m₁) := by
  have hnoted := (ready_of_combine h hrun).note .info "Computing attach registers"
  rcases hnoted.numberTables with ⟨m₂, hnumber, hready⟩
  rcases (hready.note .info "Computing token instructions").layOut with ⟨m₃, hlay⟩
  exact ⟨m₃, finish_eq_ok.2 ⟨m', m₂, hrun, hnumber, hlay⟩⟩

/-- A job fails on a ready model only while combining. -/
theorem finish_fault {fault : StageFault} (h : m.Ready)
    (hrun : runFrom m job.finish = (.error fault, m')) :
    ∃ f, fault = .combine f ∧ f.IsPlacement ∧ runFrom m job.combine = (.error fault, m') := by
  rcases runFrom_bind_eq_error.1 hrun with hcombine | ⟨stats, m₁, hcombine, -⟩
  · rcases combine_fault hcombine with ⟨f, rfl, hplace⟩
    exact ⟨f, rfl, hplace, hcombine⟩
  · rcases finish_ok h hcombine with ⟨m₂, hok⟩
    rw [hrun] at hok
    cases hok

/-- After reading, a job fails only where a group has no place for what tells its members apart. -/
theorem build_fault {fault : StageFault}
    (h : (job.build lines c).result = .error (.stage fault)) :
    ∃ f, fault = .combine f ∧ f.IsPlacement := by
  cases hread : (Listing.read job.reader lines c).result with
  | error fault' =>
    unfold build parse at h
    dsimp only at h
    rw [hread] at h
    cases h
  | ok listing =>
    -- What comes after reading is a run of `finish` from a ready model.
    rcases build_of_read hread with ⟨journal, heq⟩
    have hready : (job.start listing journal).Ready := Model.ready_of_read hread rfl rfl rfl
    rcases hrun : runFrom (job.start listing journal) job.finish with ⟨fault' | stats, m'⟩
    · rw [heq, hrun] at h
      cases h
      rcases finish_fault hready hrun with ⟨f, heq', hplace, -⟩
      exact ⟨f, heq', hplace⟩
    · rw [heq, hrun] at h
      cases h

/-- The last thing that a job does is to lay out a ready model. -/
theorem exists_layOut_of_build (h : (job.build lines c).result = .ok (m, stats)) :
    ∃ m₀ : Model, m₀.Ready ∧ runFrom m₀ Stage.layOut = (.ok ⟨⟩, m) := by
  obtain ⟨listing, hread⟩ := exists_read_of_build h
  obtain ⟨journal, heq⟩ := build_of_read hread
  have hstart : (job.start listing journal).Ready := Model.ready_of_read hread rfl rfl rfl
  rcases hrun : runFrom (job.start listing journal) job.finish with ⟨fault | stats', m'⟩
  · rw [h, hrun] at heq
    cases heq
  · rw [h, hrun] at heq
    cases heq
    obtain ⟨m₁, m₂, hcombine, hnumber, hlay⟩ := finish_eq_ok.1 hrun
    obtain ⟨m₂', hnumber', hready⟩ := ((ready_of_combine hstart hcombine).note ..).numberTables
    rw [hnumber] at hnumber'
    cases hnumber'
    exact ⟨_, hready.note .., hlay⟩

end Job

/-- A job for examples. -/
def byteJob : Job :=
  { config := byteConfig }

/-- Numbering and laying out succeed on a model that was read and combined, whatever the catalog,
the settings and the order in which groups are merged. Finishing a model that was read fails only
where combining fails, because a group has no place for what tells its members apart. -/
theorem finish_of_combine (reader : Reader) (lines : List String) (collector : Collector)
    (listing : Listing) (job : Job) (m : Model)
    (hread : (Listing.read reader lines collector).result = .ok listing)
    (hpatterns : m.patterns = listing.patterns) (hcatalog : m.catalog = reader.catalog)
    (htables : m.tables = {}) :
    (∀ stats m₁, runFrom m job.combine = (.ok stats, m₁) →
      ∃ m₂ m₃, runFrom m₁ Stage.numberTables = (.ok ⟨⟩, m₂) ∧
        runFrom m₂ Stage.layOut = (.ok ⟨⟩, m₃)) ∧
    ∀ fault m', runFrom m job.finish = (.error fault, m') →
      ∃ f, fault = .combine f ∧ f.IsPlacement ∧ runFrom m job.combine = (.error fault, m') := by
  have hready := Model.ready_of_read hread hpatterns hcatalog htables
  constructor
  · intro stats m₁ hrun
    rcases (Job.ready_of_combine hready hrun).numberTables with ⟨m₂, hnumber, hready₂⟩
    rcases hready₂.layOut with ⟨m₃, hlay⟩
    exact ⟨m₂, m₃, hnumber, hlay⟩
  · intro fault m' hrun
    exact Job.finish_fault hready hrun

/-- Loads go through all stages. -/
theorem finish_of_loads :
    ∃ m stats m₁ m₂ m₃, runFrom m ({ config := byteConfig } : Job).combine = (.ok stats, m₁) ∧
      runFrom m₁ Stage.numberTables = (.ok ⟨⟩, m₂) ∧
      runFrom m₂ Stage.layOut = (.ok ⟨⟩, m₃) := by
  let m := Model.ofInstructions byteConfig Catalog.common loads
  let lines := ["00011111 LDI #-1", "00010010 LDI #2", "00100000 LDR r0", "00100100 LDR r1"]
  let reader : Reader := { catalog := Catalog.common, bitness := 8 }
  have hpatterns : (Listing.read reader lines {}).result.toOption.map Listing.patterns =
      some (loads.map Instruction.pattern) := by decide +kernel
  obtain ⟨stats, m₁, hcombine⟩ := exists_of_isOk (s := m)
    (x := ({ config := byteConfig } : Job).combine) (by decide +kernel)
  cases hread : (Listing.read reader lines {}).result with
  | error fault =>
    rw [hread] at hpatterns
    cases hpatterns
  | ok listing =>
    rw [hread] at hpatterns
    -- The instructions are what reading these lines gives, as the theorem asks.
    have hsame : listing.patterns = m.patterns := Option.some.inj hpatterns
    obtain ⟨m₂, m₃, hnumber, hlay⟩ :=
      (finish_of_combine reader lines {} listing _ m hread hsame.symm rfl rfl).1 stats m₁ hcombine
    exact ⟨m, stats, m₁, m₂, m₃, hcombine, hnumber, hlay⟩

end SleighForge
