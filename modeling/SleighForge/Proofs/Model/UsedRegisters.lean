import SleighForge.Proofs.Model.Finish

/-!
# The registers in use

An operand that is a register uses it, and a field uses the registers of its table
(`Operand.Uses`). A register that a merge takes out of the operands is in the table of the new
field, and the table has no others, so changes of the patterns keep the registers in use
(`Stock.uses_change`): a job ends with those of the instructions that it read.
-/

namespace SleighForge

/-- The operand is the register, or a field whose table has it. -/
def Operand.Uses (tables : Tables) (op : Operand) (name : String) : Prop :=
  match op with
  | .register r => r = name
  | .field f => ∃ id t, f.kind = .register id ∧ tables.get? id = some t ∧ name ∈ t.members
  | _ => False

namespace Operand

variable {ts ts' : Tables} {op op' : Operand} {name : String}

theorem uses_congr (h : op.bare = op'.bare) : op.Uses ts name ↔ op'.Uses ts name := by
  cases op <;> cases op' <;> simp_all [bare, Uses]

theorem Uses.mono (hkeep : ∀ id t, ts.get? id = some t → ts'.get? id = some t)
    (h : op.Uses ts name) : op.Uses ts' name := by
  cases op with
  | field f =>
    obtain ⟨id, t, hkind, ht, hname⟩ := h
    exact ⟨id, t, hkind, hkeep id t ht, hname⟩
  | _ => exact h

/-- More tables add nothing to a field that has its table. -/
theorem Uses.of_mono (hkeep : ∀ id t, ts.get? id = some t → ts'.get? id = some t)
    (htable : ∀ f, op = .field f → f.HasTable ts) (h : op.Uses ts' name) : op.Uses ts name := by
  cases op with
  | field f =>
    obtain ⟨id, t, hkind, ht, hname⟩ := h
    obtain ⟨u, hu, -⟩ := htable f rfl id hkind
    rw [hkeep id u hu, Option.some.injEq] at ht
    exact ⟨id, u, hkind, hu, ht ▸ hname⟩
  | _ => exact h

/-- A field uses the register that its bits stand for. -/
theorem uses_of_shows {f : BitField} {bits : Nat} (h : f.Shows ts bits op)
    (huses : op.Uses ts name) : (Operand.field f).Uses ts name := by
  cases op with
  | register r =>
    obtain ⟨id, t, hkind, ht, hreg⟩ := h
    cases huses
    exact ⟨id, t, hkind, ht, RegisterTable.mem_members.2 (List.mem_of_getElem? hreg)⟩
  | field g => exact h.elim
  | _ => exact huses.elim

end Operand

namespace Stock

/-- Some operand uses the register. -/
def Uses (s : Stock) (name : String) : Prop :=
  ∃ p ∈ s.patterns, ∃ op ∈ p.operands, op.Uses s.tables name

variable {s s' : Stock}

/-! ## Changes -/

/-- Dropping repeats drops no register, since what is repeated is kept once. -/
theorem uses_dropped (s : Stock) (name : String) :
    Uses ⟨Combine.dropDuplicates s.patterns, s.tables⟩ name ↔ s.Uses name := by
  constructor
  · rintro ⟨p, hp, hop⟩
    exact ⟨p, (Combine.dropDuplicates_sublist s.patterns).subset hp, hop⟩
  · rintro ⟨p, hp, op, hop, huses⟩
    obtain ⟨q, hq, hid⟩ := Combine.exists_mem_dropDuplicates hp
    obtain ⟨k, hk⟩ := List.mem_iff_getElem?.1 hop
    obtain ⟨op', hop', hbare⟩ :=
      Pattern.exists_operand_of_bareAt? (Pattern.bareAt?_of_identity hid.symm k) hk
    exact ⟨q, hq, op', List.mem_of_getElem? hop', (Operand.uses_congr hbare).1 huses⟩

section

variable {tables : Tables} {merges : List Combine.Merge} {name : String}

/-- A register behind a new field is an operand of a member. -/
theorem uses_of_merged (h : s.Sound) (hr : Combine.Round s.patterns s.tables tables merges)
    (huses : Uses ⟨Combine.settle merges s.patterns, tables⟩ name) : s.Uses name := by
  obtain ⟨p, hp, op, hop, huses⟩ := huses
  have hbefore : ∀ q ∈ s.patterns, op ∈ q.operands → s.Uses name := by
    intro q hq hop
    refine ⟨q, hq, op, hop, huses.of_mono hr.grown.keeps ?_⟩
    rintro f rfl
    exact h.hasTable q hq f (h.named q hq f hop)
  rcases hr.cases_of_mem_settle hp with ⟨m, kind, position, first, rest, f, rfl, hmade⟩ | ⟨i, hi⟩
  · rcases hmade.merged.mem_operands hop with rfl | hop
    · -- The register is selected by the bits of a member, whose operand it therefore is.
      obtain ⟨id, t, hkind, ht, hname⟩ := huses
      obtain ⟨u, hu, hselected⟩ := hmade.merged.selected id hkind
      rw [ht, Option.some.injEq] at hu
      subst hu
      obtain ⟨i, hi⟩ := List.mem_iff_getElem?.1 (RegisterTable.mem_members.1 hname)
      obtain ⟨q, hq, hbits⟩ := hselected i name hi
      obtain ⟨op, hop, hshows⟩ := hmade.merged.shows q hq
      obtain ⟨j, -, hj⟩ := hmade.mem_members.1 hq
      refine ⟨q, List.mem_of_getElem? hj, op, List.mem_of_getElem? hop, ?_⟩
      cases op with
      | register r =>
        obtain ⟨id', t', hkind', ht', hreg⟩ := hshows
        rw [hkind, FieldKind.register.injEq] at hkind'
        subst hkind'
        rw [ht, Option.some.injEq] at ht'
        subst ht'
        rw [hbits, hi, Option.some.injEq, Option.some.injEq] at hreg
        exact hreg.symm
      | immediate v spelling => cases hkind.symm.trans hshows.1
      | _ => exact hshows.elim
    · exact hbefore first (List.mem_of_getElem? hmade.first_eq) hop
  · exact hbefore p (List.mem_of_getElem? hi) hop

/-- A register that is taken out of the operands of a member is in the table of the new field. -/
theorem uses_merged (hr : Combine.Round s.patterns s.tables tables merges) (huses : s.Uses name) :
    Uses ⟨Combine.settle merges s.patterns, tables⟩ name := by
  obtain ⟨p, hp, op, hop, huses⟩ := huses
  replace huses := huses.mono hr.grown.keeps
  obtain ⟨j, hj⟩ := List.mem_iff_getElem?.1 hp
  by_cases hclaimed : j ∈ Combine.claimed merges
  · obtain ⟨m, hm, hjm⟩ := Combine.mem_claimed.1 hclaimed
    obtain ⟨kind, position, first, rest, f, hmade⟩ := hr.made m hm
    have hg := hmade.gathered.group
    have hmember := hmade.mem_members.2 ⟨j, hjm, hj⟩
    refine ⟨m.result, (Combine.mem_settle hr.disjoint).2 (.inl ⟨m, hm, rfl⟩), ?_⟩
    obtain ⟨k, hk⟩ := List.mem_iff_getElem?.1 hop
    -- The operand is the one the merge turns into a field, or it stays as it was.
    by_cases hposition : k = position
    · subst hposition
      obtain ⟨op', hop', hshows⟩ := hmade.merged.shows p hmember
      rw [hk, Option.some.injEq] at hop'
      subst hop'
      exact ⟨.field f, List.mem_of_getElem? (hmade.merged.operand_eq hg),
        Operand.uses_of_shows hshows huses⟩
    · obtain ⟨op', hop', hbare⟩ := Pattern.exists_operand_of_bareAt?
        (hmade.merged.bareAt?_eq hg hmember hposition).symm hk
      exact ⟨op', List.mem_of_getElem? hop', (Operand.uses_congr hbare).1 huses⟩
  · exact ⟨p, (Combine.mem_settle hr.disjoint).2 (.inr ⟨j, hj, hclaimed⟩), op, hop, huses⟩

end

/-- Under its new id a field has the registers that it had, and no others. -/
theorem uses_mapTable (h : s.Sound) {n : Numbering} (hn : n.Renumbers s.tables s.patterns)
    {p : Pattern} (hp : p ∈ s.patterns) {op : Operand} (hop : op ∈ p.operands) (name : String) :
    (op.mapTable n.apply).Uses n.toTables name ↔ op.Uses s.tables name := by
  cases op with
  | field f =>
    have hf : f ∈ p.fields := h.named p hp f hop
    constructor
    · rintro ⟨new, t, hkind, ht, hname⟩
      obtain ⟨old, hold, rfl⟩ := BitField.mapTable_register hkind
      obtain ⟨u, hu, -⟩ := h.hasTable p hp f hf old hold
      obtain ⟨t', ht', hregs⟩ := hn.get?_apply hp hf hold hu
      rw [ht, Option.some.injEq] at ht'
      subst ht'
      exact ⟨old, u, hold, hu, RegisterTable.members_congr hregs ▸ hname⟩
    · rintro ⟨old, u, hold, hu, hname⟩
      obtain ⟨t, ht, hregs⟩ := hn.get?_apply hp hf hold hu
      refine ⟨n.apply old, t, ?_, ht, RegisterTable.members_congr hregs ▸ hname⟩
      rw [BitField.mapTable, hold]
  | _ => exact Iff.rfl

/-- Numbering changes ids and no registers. -/
theorem uses_renumbered (h : s.Sound) {n : Numbering} (hn : n.Renumbers s.tables s.patterns)
    (name : String) :
    Uses ⟨s.patterns.map (Pattern.mapTable n.apply), n.toTables⟩ name ↔ s.Uses name := by
  constructor
  · rintro ⟨p, hp, op, hop, huses⟩
    obtain ⟨p₀, hp₀, rfl⟩ := List.mem_map.1 hp
    obtain ⟨op₀, hop₀, rfl⟩ := Pattern.mem_operands_mapTable.1 hop
    exact ⟨p₀, hp₀, op₀, hop₀, (uses_mapTable h hn hp₀ hop₀ name).1 huses⟩
  · rintro ⟨p, hp, op, hop, huses⟩
    exact ⟨_, List.mem_map_of_mem hp, _, Pattern.mem_operands_mapTable.2 ⟨op, hop, rfl⟩,
      (uses_mapTable h hn hp hop name).2 huses⟩

/-- A change keeps the registers in use. -/
theorem uses_change (h : s.Sound) (hc : Change s s') (name : String) :
    s'.Uses name ↔ s.Uses name := by
  cases hc with
  | dropped => exact uses_dropped s name
  | merged hr => exact ⟨uses_of_merged h hr, uses_merged hr⟩
  | numbered hn => exact uses_renumbered h hn name

/-- Changes bring in no registers and lose none. -/
theorem uses_changes (h : s.Sound) (hc : Changes s s') (name : String) :
    s'.Uses name ↔ s.Uses name := by
  induction hc with
  | refl => exact Iff.rfl
  | tail hbefore hstep ih => exact (uses_change (h.changes hbefore) hstep name).trans ih

end Stock

/-! ## Models -/

namespace Model

/-- The registers in use are those of operands and those that fields among the operands select. -/
theorem mem_usedRegisters {m : Model} {name : String} :
    name ∈ m.usedRegisters ↔ m.stock.Uses name := by
  simp only [usedRegisters, mem_distinct, List.mem_flatMap, Stock.Uses, stock]
  refine exists_congr fun p => and_congr_right fun _ => exists_congr fun op =>
    and_congr_right fun _ => ?_
  cases op with
  | register r => simp [Operand.Uses, eq_comm]
  | field f =>
    cases hkind : f.kind with
    | immediate => simp [Operand.Uses, BitField.table?, hkind]
    | register id => cases hget : m.tables.get? id <;> simp [Operand.Uses, BitField.table?, *]
  | _ => simp [Operand.Uses]

theorem nodup_usedRegisters (m : Model) : m.usedRegisters.Nodup :=
  nodup_distinct _

end Model

namespace Job

variable {job : Job} {m m' : Model} {stats : List PassStats}

theorem changes_of_combine (hn : m.tables.Numbered)
    (hrun : runFrom m job.combine = (.ok stats, m')) : Stock.Changes m.stock m'.stock := by
  unfold combine at hrun
  split at hrun
  · rw [runFrom_bind, Stage.note, runFrom_modify] at hrun
    cases hrun
    exact .refl
  · exact Stage.changes_of_passes hn hrun

/-- Combining and numbering change the patterns and tables; laying out leaves them as they are. -/
theorem changes_of_finish (hn : m.tables.Numbered)
    (hrun : runFrom m job.finish = (.ok stats, m')) : Stock.Changes m.stock m'.stock := by
  obtain ⟨m₁, m₂, hcombine, hnumber, hlay⟩ := finish_eq_ok.1 hrun
  obtain ⟨layouts, journal, -, rfl⟩ := Stage.layOut_inv hlay
  exact (changes_of_combine hn hcombine).trans (Stage.changes_of_numberTables hnumber).1

end Job

/-- The model that a job builds uses the registers that the job lists for the same lines, and
neither names a register twice. -/
theorem usedRegisters_build (job : Job) (lines : List String) (collector : Collector) (m : Model)
    (stats : List PassStats) (hbuild : (job.build lines collector).result = .ok (m, stats)) :
    ∃ names, (job.listRegisters lines collector).result = .ok names ∧ names.Nodup ∧
      m.usedRegisters.Nodup ∧ ∀ name, name ∈ m.usedRegisters ↔ name ∈ names := by
  obtain ⟨listing, hread⟩ := Job.exists_read_of_build hbuild
  obtain ⟨journal, heq⟩ := Job.build_of_read hread
  have hstart : (job.start listing journal).Ready := Model.ready_of_read hread rfl rfl rfl
  have hlist : (job.listRegisters lines collector).result =
      .ok (job.start listing journal).usedRegisters := by
    unfold Job.listRegisters Job.parse
    dsimp only
    rw [hread]
    rfl
  refine ⟨_, hlist, Model.nodup_usedRegisters _, m.nodup_usedRegisters, fun name => ?_⟩
  rcases hrun : runFrom (job.start listing journal) job.finish with ⟨fault | stats', m'⟩
  · rw [hbuild, hrun] at heq
    cases heq
  · rw [hbuild, hrun] at heq
    cases heq
    -- Finishing changes the model step by step, and no step changes which registers are used.
    have hchanges := Job.changes_of_finish Tables.numbered_empty hrun
    rw [Model.mem_usedRegisters, Model.mem_usedRegisters,
      Stock.uses_changes hstart.sound hchanges]

/-- Lines that are merged over a register. -/
def movedLines : List String :=
  ["00010000 MOV r0", "00010001 MOV r1"]

/-- Two moves are combined, and both registers are in use still. -/
theorem usedRegisters_movedLines : ∃ m stats names,
    (byteJob.build movedLines {}).result = .ok (m, stats) ∧
      (byteJob.listRegisters movedLines {}).result = .ok names ∧
      names.Nodup ∧ m.usedRegisters.Nodup ∧ (∀ name, name ∈ m.usedRegisters ↔ name ∈ names) ∧
      names = ["r0", "r1"] ∧ m.patterns.length = 1 := by
  have hbuilt : (byteJob.build movedLines {}).result.toOption.map (·.1.patterns.length) =
      some 1 := by decide +kernel
  have hlisted : (byteJob.listRegisters movedLines {}).result.toOption =
      some ["r0", "r1"] := by decide +kernel
  cases hbuild : (byteJob.build movedLines {}).result with
  | error fault =>
    rw [hbuild] at hbuilt
    cases hbuilt
  | ok built =>
    obtain ⟨m, stats⟩ := built
    rw [hbuild] at hbuilt
    obtain ⟨names, hlist, hnodup, hnodup', hsame⟩ :=
      usedRegisters_build byteJob movedLines {} m stats hbuild
    rw [hlist] at hlisted
    exact ⟨m, stats, names, rfl, hlist, hnodup, hnodup', hsame, Option.some.inj hlisted,
      Option.some.inj hbuilt⟩

end SleighForge
