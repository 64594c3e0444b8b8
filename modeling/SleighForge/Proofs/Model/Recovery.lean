import SleighForge.Proofs.Model.Ownership
import SleighForge.Proofs.Model.Soundness

/-!
# Every instruction can be recovered

Each concrete instruction has a pattern that accepts its word and shows its operands in it
(`RecoveredFrom`). Dropping repeats, merging and numbering find such a pattern again, so every run
of steps does (`instructions_recovered`).
-/

namespace SleighForge

/-- The pattern stands for the instruction: it holds and accepts the word, and each of its operands
is that of the instruction or a field that shows it in the word. -/
structure RecoveredFrom (tables : Tables) (p : Pattern) (i : Instruction) : Prop where
  width : p.width = i.word.width
  mnemonic : p.mnemonic = i.mnemonic
  held : ∃ e ∈ p.examples, e.opcode = i.word.value
  accepts : p.accepts i.word.value = true
  length : p.operands.length = i.operands.length
  operands : ∀ (k : Nat) op, i.operands[k]? = some op →
    ∃ op', p.operands[k]? = some op' ∧
      (op'.Same op ∨ ∃ f, op' = .field f ∧ f.Shows tables (f.extract i.word.value) op)

namespace RecoveredFrom

variable {ts ts' : Tables} {p q : Pattern} {i : Instruction}

/-- An instruction is recovered from itself. -/
theorem recoveredFrom_pattern (i : Instruction) : RecoveredFrom ts i.pattern i where
  width := width_pattern i
  mnemonic := rfl
  held := ⟨_, mem_examples_pattern.2 rfl, rfl⟩
  accepts := (accepts_pattern_iff i _).2 rfl
  length := rfl
  operands _ op hop := ⟨op, hop, .inl rfl⟩

theorem mono (h : RecoveredFrom ts p i)
    (hkeep : ∀ id t, ts.get? id = some t → ts'.get? id = some t) : RecoveredFrom ts' p i where
  __ := h
  operands k op hop := by
    rcases h.operands k op hop with ⟨op', hop', hshown⟩
    refine ⟨op', hop', hshown.imp_right ?_⟩
    rintro ⟨f, hf, hshows⟩
    exact ⟨f, hf, hshows.mono hkeep⟩

/-- An operand with the same bare form does as well. -/
theorem operand_congr {op op₁ op₂ : Operand} {word : Int} (hsame : op₁.bare = op₂.bare)
    (h : op₁.Same op ∨ ∃ f, op₁ = .field f ∧ f.Shows ts (f.extract word) op) :
    op₂.Same op ∨ ∃ f, op₂ = .field f ∧ f.Shows ts (f.extract word) op := by
  rcases h with h | ⟨f, rfl, hshows⟩
  · exact .inl (hsame.symm.trans h)
  · refine .inr ⟨f, ?_, hshows⟩
    cases op₂ <;> simp_all [Operand.bare]

/-- A repeat of the pattern stands for the instruction as well. -/
theorem of_identity {patterns : List Pattern} (ho : Owned patterns) (hp : p ∈ patterns)
    (hq : q ∈ patterns) (hid : p.identity = q.identity) (h : RecoveredFrom ts p i) :
    RecoveredFrom ts q i := by
  have henc : p.encoding = q.encoding := congrArg Pattern.Identity.encoding hid
  have hops : p.operands.map Operand.bare = q.operands.map Operand.bare :=
    congrArg Pattern.Identity.operands hid
  have hwidth : p.width = q.width := congrArg Encoding.width henc
  have haccepts : q.accepts i.word.value = true := by
    rw [Pattern.accepts, ← henc]
    exact h.accepts
  refine ⟨hwidth ▸ h.width, ?_, ?_, haccepts, ?_, ?_⟩
  · rw [← h.mnemonic]
    exact (congrArg Pattern.Identity.mnemonic hid).symm
  · -- The repeat need not hold the same examples, but it accepts the word and so holds it.
    rcases h.held with ⟨e, he, heq⟩
    rcases (ho.exact q hq p hp hwidth e he).1 (heq ▸ haccepts) with ⟨e', he', heq'⟩
    exact ⟨e', he', heq'.trans heq⟩
  · have hlen := congrArg List.length hops
    rw [List.length_map, List.length_map] at hlen
    rw [← hlen, h.length]
  · intro k op hop
    rcases h.operands k op hop with ⟨op₁, hop₁, hshown⟩
    have hbare : p.bareAt? k = q.bareAt? k := Pattern.bareAt?_of_identity hid k
    rcases Pattern.exists_operand_of_bareAt? hbare hop₁ with ⟨op₂, hop₂, hsame⟩
    exact ⟨op₂, hop₂, operand_congr hsame hshown⟩

/-- A merged pattern stands for the instructions of its members. -/
theorem of_made {patterns : List Pattern} {m : Combine.Merge} {kind : OperandKind}
    {position : Nat} {first : Pattern} {rest : List Pattern} {f : BitField}
    (hmade : Combine.Made ts patterns m kind position first rest f) (hp : p ∈ first :: rest)
    (h : RecoveredFrom ts p i) : RecoveredFrom ts m.result i := by
  have ho := hmade.merged.toOpenedBy
  have hg := hmade.gathered.group
  refine ⟨(ho.width_eq hg hp).trans h.width, (ho.mnemonic_eq hg hp).trans h.mnemonic, ?_,
    ho.accepts hg hp h.accepts, (ho.length_eq hg hp).trans h.length, ?_⟩
  · rcases h.held with ⟨e, he, heq⟩
    rw [ho.examples_eq]
    exact ⟨e, List.mem_flatMap.2 ⟨p, hp, he⟩, heq⟩
  · -- At the position the new field shows the operand; elsewhere the member's operand stays.
    intro k op hop
    rcases h.operands k op hop with ⟨op₁, hop₁, hshown⟩
    by_cases hk : k = position
    · subst hk
      refine ⟨.field f, ho.operand_eq hg, .inr ⟨f, rfl, ?_⟩⟩
      rcases hmade.merged.shows p hp with ⟨op₂, hop₂, hshows⟩
      rw [hop₁, Option.some.injEq] at hop₂
      subst hop₂
      rw [ho.extract_eq hg hp h.accepts]
      rcases hshown with hsame | ⟨g, rfl, -⟩
      · exact (BitField.shows_congr hsame).1 hshows
      · exact hshows.elim
    · rcases Pattern.exists_operand_of_bareAt? (ho.bareAt?_eq hg hp hk).symm hop₁ with
        ⟨op₂, hop₂, hsame⟩
      exact ⟨op₂, hop₂, operand_congr hsame hshown⟩

/-- A field with a renamed table shows what it showed. -/
theorem shows_mapTable {s : Stock} {n : Numbering} (hn : n.Renumbers s.tables s.patterns)
    (hp : p ∈ s.patterns) {f : BitField} (hf : f ∈ p.fields) {bits : Nat} {op : Operand}
    (h : f.Shows s.tables bits op) : (f.mapTable n.apply).Shows n.toTables bits op := by
  cases op with
  | immediate v spelling =>
    have hsame : f.mapTable n.apply = f := by
      rw [BitField.mapTable, h.1]
    rw [hsame]
    exact h
  | register name =>
    rcases h with ⟨id, u, hkind, hu, hreg⟩
    rcases hn.get?_apply hp hf hkind hu with ⟨t, ht, hregs⟩
    refine ⟨n.apply id, t, ?_, ht, hregs ▸ hreg⟩
    rw [BitField.mapTable, hkind]
  | text s => exact h
  | field g => exact h

/-- What is recovered stays so when tables are numbered. -/
theorem renumbered {s : Stock} (hs : s.Sound) {n : Numbering}
    (hn : n.Renumbers s.tables s.patterns) (hp : p ∈ s.patterns) (h : RecoveredFrom s.tables p i) :
    RecoveredFrom n.toTables (p.mapTable n.apply) i := by
  refine ⟨(Encoding.mapTable_width _ _).trans h.width, h.mnemonic, h.held,
    (Encoding.accepts_mapTable ..).trans h.accepts, ?_, ?_⟩
  · rw [← h.length]
    exact List.length_map _
  · intro k op hop
    rcases h.operands k op hop with ⟨op₁, hop₁, hshown⟩
    have hmap : (p.mapTable n.apply).operands[k]? = some (op₁.mapTable n.apply) := by
      rw [Pattern.mapTable, List.getElem?_map, hop₁, Option.map_some]
    refine ⟨_, hmap, ?_⟩
    rcases hshown with hsame | ⟨f, rfl, hshows⟩
    · -- The operand of an instruction is no field, and renaming changes fields only.
      have hplain := i.plain op (List.mem_of_getElem? hop)
      refine .inl ?_
      cases op₁ with
      | field f =>
        cases op <;> cases hsame
        cases hplain
      | _ => exact hsame
    · refine .inr ⟨f.mapTable n.apply, rfl, ?_⟩
      have hextract : (f.mapTable n.apply).extract i.word.value = f.extract i.word.value := by
        simp [BitField.extract]
      rw [hextract]
      exact shows_mapTable hn hp (hs.named p hp f (List.mem_of_getElem? hop₁)) hshows

end RecoveredFrom

/-! ## Changes -/

/-- Some pattern stands for the instruction. -/
def Recovers (s : Stock) (i : Instruction) : Prop :=
  ∃ p ∈ s.patterns, RecoveredFrom s.tables p i

/-- After a change every instruction can still be recovered. -/
theorem Recovers.change {s s' : Stock} {i : Instruction} (h : Recovers s i)
    (ho : Owned s.patterns) (hs : s.Sound) (hc : Stock.Change s s') : Recovers s' i := by
  rcases h with ⟨p, hp, hrec⟩
  cases hc with
  | dropped =>
    rcases Combine.exists_mem_dropDuplicates hp with ⟨q, hq, heq⟩
    have hmem := (Combine.dropDuplicates_sublist s.patterns).subset hq
    exact ⟨q, hq, hrec.of_identity ho hp hmem heq.symm⟩
  | @merged tables merges hr =>
    have hrec := hrec.mono hr.grown.keeps
    rcases List.mem_iff_getElem?.1 hp with ⟨j, hj⟩
    by_cases hclaimed : j ∈ Combine.claimed merges
    · rcases Combine.mem_claimed.1 hclaimed with ⟨m, hm, hjm⟩
      rcases hr.made m hm with ⟨kind, position, first, rest, f, hmade⟩
      exact ⟨m.result, (Combine.mem_settle hr.disjoint).2 (.inl ⟨m, hm, rfl⟩),
        hrec.of_made hmade (hmade.mem_members.2 ⟨j, hjm, hj⟩)⟩
    · exact ⟨p, (Combine.mem_settle hr.disjoint).2 (.inr ⟨j, hj, hclaimed⟩), hrec⟩
  | numbered hn => exact ⟨_, List.mem_map_of_mem hp, hrec.renumbered hs hn hp⟩

theorem Recovers.changes {s s' : Stock} {i : Instruction} (h : Recovers s i)
    (ho : Owned s.patterns) (hs : s.Sound) (hc : Stock.Changes s s') : Recovers s' i := by
  induction hc with
  | refl => exact h
  | tail hbefore hstep ih => exact ih.change (ho.changes hbefore) (hs.changes hbefore) hstep

/-- After any steps, every instruction has a pattern that stands for it. -/
theorem instructions_recovered (config : Config) (catalog : Catalog)
    (instructions : List Instruction) (todo : List Step) (m : Model)
    (hrun : runFrom (Model.ofInstructions config catalog instructions) (Stage.steps todo)
      = (.ok ⟨⟩, m)) :
    ∀ i ∈ instructions, ∃ p ∈ m.patterns, RecoveredFrom m.tables p i := by
  intro i hi
  have hchanges := Stage.changes_of_steps
    (m := Model.ofInstructions config catalog instructions) Tables.numbered_empty hrun
  have hstart : Recovers (Model.ofInstructions config catalog instructions).stock i :=
    ⟨i.pattern, List.mem_map_of_mem hi, .recoveredFrom_pattern i⟩
  exact hstart.changes (owned_instructions instructions) (Stock.sound_instructions instructions)
    hchanges

/-- Two passes and the numbering, on a list of loads. -/
theorem loads_recovered :
    ∃ m, runFrom (Model.ofInstructions byteConfig Catalog.common loads)
        (Stage.steps [.pass .immediates .longestShared, .pass .registers .longestShared, .number])
        = (.ok ⟨⟩, m) ∧
      ∀ i ∈ loads, ∃ p ∈ m.patterns, RecoveredFrom m.tables p i := by
  obtain ⟨_, m, hrun⟩ := exists_of_isOk (s := Model.ofInstructions byteConfig Catalog.common loads)
    (x := Stage.steps
      [.pass .immediates .longestShared, .pass .registers .longestShared, .number])
    (by decide +kernel)
  exact ⟨m, hrun, instructions_recovered _ _ _ _ m hrun⟩

end SleighForge
