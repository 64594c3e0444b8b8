import SleighForge.Proofs.Model.Recovery

/-!
# Fields are opened for values that occur

A field is opened over bits in which instructions differ, and its register table is made of their
selectors. So every field takes two values over the examples of its pattern, and every register in
its table is selected in one of them (`Stock.Exercised`). Later merges add examples and keep the
field. An instruction that is merged with no other keeps its operands and its encoding
(`fields_exercised`).
-/

namespace SleighForge

namespace Pattern

/-- The field takes two values over the examples of the pattern. -/
def Varies (p : Pattern) (f : BitField) : Prop :=
  ∃ e ∈ p.examples, ∃ e' ∈ p.examples, f.extract e.opcode ≠ f.extract e'.opcode

/-- The table of the field, if it needs one, exists, and has registers only at selectors that occur
in the examples of the pattern. -/
def Selects (p : Pattern) (tables : Tables) (f : BitField) : Prop :=
  ∀ id, f.kind = .register id → ∃ t, tables.get? id = some t ∧
    ∀ (i : Nat) name, t.registers[i]? = some (some name) →
      ∃ e ∈ p.examples, f.extract e.opcode = i

variable {p q : Pattern} {f : BitField} {ts ts' : Tables}

theorem Varies.mono (h : p.Varies f) (hsub : p.examples ⊆ q.examples) : q.Varies f := by
  rcases h with ⟨e, he, e', he', hne⟩
  exact ⟨e, hsub he, e', hsub he', hne⟩

/-- Registers that are selected stay selected with more examples. -/
theorem Selects.mono (h : p.Selects ts f) (hsub : p.examples ⊆ q.examples)
    (hkeep : ∀ id t, ts.get? id = some t → ts'.get? id = some t) : q.Selects ts' f := by
  intro id hkind
  rcases h id hkind with ⟨t, ht, hall⟩
  refine ⟨t, hkeep id t ht, ?_⟩
  intro i name hi
  rcases hall i name hi with ⟨e, he, hextract⟩
  exact ⟨e, hsub he, hextract⟩

end Pattern

/-! ## A merged pattern -/

namespace Combine.Made

variable {ts : Tables} {patterns : List Pattern} {m : Merge} {kind : OperandKind}
  {position : Nat} {first p : Pattern} {rest : List Pattern} {f : BitField}

/-- The result of a merge has the examples of all members. -/
theorem examples_subset (h : Made ts patterns m kind position first rest f)
    (hp : p ∈ first :: rest) : p.examples ⊆ m.result.examples := by
  intro e he
  rw [h.merged.examples_eq]
  exact List.mem_flatMap.2 ⟨p, hp, he⟩

/-- The new field takes the literal bits of each member in an example of that member. -/
theorem exists_extract_eq (h : Made ts patterns m kind position first rest f)
    (ho : Owned patterns) (hex : ∀ p ∈ patterns, p.examples ≠ []) (hp : p ∈ first :: rest) :
    ∃ e ∈ m.result.examples,
      f.extract e.opcode = bitSlice p.encoding.literalValue f.lo f.width := by
  rcases h.mem_members.1 hp with ⟨i, -, hi⟩
  have hmem := List.mem_of_getElem? hi
  rcases List.exists_mem_of_ne_nil _ (hex p hmem) with ⟨e, he⟩
  refine ⟨e, h.examples_subset hp he, ?_⟩
  exact h.merged.extract_eq h.gathered.group hp (ho.accepts_example hmem he)

/-- A new field takes two values, since merged members differ in it. -/
theorem varies (h : Made ts patterns m kind position first rest f) (ho : Owned patterns)
    (hex : ∀ p ∈ patterns, p.examples ≠ []) : m.result.Varies f := by
  rcases h.merged.exists_bitSlice_ne with ⟨p, hp, hne⟩
  rcases h.exists_extract_eq ho hex (List.mem_cons_of_mem _ hp) with ⟨e, he, hbits⟩
  rcases h.exists_extract_eq ho hex (List.mem_cons_self ..) with ⟨e', he', hbits'⟩
  refine ⟨e, he, e', he', ?_⟩
  rwa [hbits, hbits']

/-- A new field selects every register of its table, since each is that of a member. -/
theorem selects (h : Made ts patterns m kind position first rest f) (ho : Owned patterns)
    (hex : ∀ p ∈ patterns, p.examples ≠ []) : m.result.Selects ts f := by
  intro id hkind
  rcases h.merged.selected id hkind with ⟨t, ht, hall⟩
  refine ⟨t, ht, ?_⟩
  intro i name hi
  rcases hall i name hi with ⟨p, hp, hbits⟩
  rcases h.exists_extract_eq ho hex hp with ⟨e, he, hextract⟩
  exact ⟨e, he, hextract.trans hbits⟩

end Combine.Made

/-- No pattern loses its examples in a round. -/
theorem Combine.Round.examples_ne_nil {ts ts' : Tables} {patterns : List Pattern}
    {merges : List Combine.Merge} (hr : Combine.Round patterns ts ts' merges)
    (hex : ∀ p ∈ patterns, p.examples ≠ []) :
    ∀ p ∈ Combine.settle merges patterns, p.examples ≠ [] := by
  intro p hp hnone
  rcases hr.cases_of_mem_settle hp with
    ⟨m, kind, position, first, rest, f, rfl, hmade⟩ | ⟨i, hi⟩
  · have hsub := hmade.examples_subset (List.mem_cons_self ..)
    rw [hnone, List.subset_nil] at hsub
    exact hex first (List.mem_of_getElem? hmade.first_eq) hsub
  · exact hex p (List.mem_of_getElem? hi) hnone

/-! ## The invariant -/

namespace Stock

/-- Every pattern stands for an example, each of its fields takes two values over its examples and
has registers only at the selectors among them, and without a field it is an instruction. -/
structure Exercised (instructions : List Instruction) (s : Stock) : Prop where
  nonempty : ∀ p ∈ s.patterns, p.examples ≠ []
  varies : ∀ p ∈ s.patterns, ∀ f ∈ p.fields, p.Varies f
  selects : ∀ p ∈ s.patterns, ∀ f ∈ p.fields, p.Selects s.tables f
  plain : ∀ p ∈ s.patterns, p.fields = [] → ∃ i ∈ instructions, p = i.pattern

/-- To begin with there are no fields. -/
theorem exercised_instructions (instructions : List Instruction) :
    Exercised instructions ⟨instructions.map Instruction.pattern, {}⟩ := by
  refine ⟨?_, ?_, ?_, ?_⟩
  · intro p hp
    rcases List.mem_map.1 hp with ⟨i, -, rfl⟩
    exact List.cons_ne_nil _ _
  · intro p hp f hf
    rcases List.mem_map.1 hp with ⟨i, -, rfl⟩
    exact absurd hf List.not_mem_nil
  · intro p hp f hf
    rcases List.mem_map.1 hp with ⟨i, -, rfl⟩
    exact absurd hf List.not_mem_nil
  · intro p hp _
    rcases List.mem_map.1 hp with ⟨i, hi, rfl⟩
    exact ⟨i, hi, rfl⟩

namespace Exercised

variable {instructions : List Instruction} {s s' : Stock}

/-- Dropping repeats leaves patterns as they are. -/
theorem dropped (h : Exercised instructions s) :
    Exercised instructions ⟨Combine.dropDuplicates s.patterns, s.tables⟩ := by
  have hsub := (Combine.dropDuplicates_sublist s.patterns).subset
  refine ⟨?_, ?_, ?_, ?_⟩
  · exact fun p hp => h.nonempty p (hsub hp)
  · exact fun p hp => h.varies p (hsub hp)
  · exact fun p hp => h.selects p (hsub hp)
  · exact fun p hp => h.plain p (hsub hp)

/-- A round keeps the values: the new field has those of the members, and the fields that the first
member had keep theirs, as its examples stay. -/
theorem merged (h : Exercised instructions s) (ho : Owned s.patterns) {tables : Tables}
    {merges : List Combine.Merge} (hr : Combine.Round s.patterns s.tables tables merges) :
    Exercised instructions ⟨Combine.settle merges s.patterns, tables⟩ := by
  refine ⟨?_, ?_, ?_, ?_⟩
  · exact hr.examples_ne_nil h.nonempty
  · intro p hp g hg
    rcases hr.cases_of_mem_settle hp with
      ⟨m, kind, position, first, rest, f, rfl, hmade⟩ | ⟨i, hi⟩
    · rcases hmade.merged.mem_fields.1 hg with rfl | hg
      · -- A field of a merged pattern is the one placed, or comes from the first member with its
        -- examples.
        exact hmade.varies ho h.nonempty
      · have hfirst := List.mem_of_getElem? hmade.first_eq
        exact (h.varies first hfirst g hg).mono (hmade.examples_subset (List.mem_cons_self ..))
    · exact h.varies p (List.mem_of_getElem? hi) g hg
  · intro p hp g hg
    rcases hr.cases_of_mem_settle hp with
      ⟨m, kind, position, first, rest, f, rfl, hmade⟩ | ⟨i, hi⟩
    · rcases hmade.merged.mem_fields.1 hg with rfl | hg
      · exact hmade.selects ho h.nonempty
      · have hfirst := List.mem_of_getElem? hmade.first_eq
        exact (h.selects first hfirst g hg).mono
          (hmade.examples_subset (List.mem_cons_self ..)) hr.grown.keeps
    · exact (h.selects p (List.mem_of_getElem? hi) g hg).mono (List.Subset.refl _) hr.grown.keeps
  · intro p hp hnone
    rcases hr.cases_of_mem_settle hp with
      ⟨m, kind, position, first, rest, f, rfl, hmade⟩ | ⟨i, hi⟩
    · have hf : f ∈ m.result.fields := hmade.merged.mem_fields.2 (.inl rfl)
      rw [hnone] at hf
      exact absurd hf List.not_mem_nil
    · exact h.plain p (List.mem_of_getElem? hi) hnone

theorem renumbered (h : Exercised instructions s) {n : Numbering}
    (hn : n.Renumbers s.tables s.patterns) :
    Exercised instructions ⟨s.patterns.map (Pattern.mapTable n.apply), n.toTables⟩ := by
  -- Numbering writes another table into a field and leaves its bits alone.
  have hextract (f : BitField) (word : Int) :
      (f.mapTable n.apply).extract word = f.extract word := by
    rw [BitField.extract, BitField.mapTable_lo, BitField.mapTable_width, BitField.extract]
  refine ⟨?_, ?_, ?_, ?_⟩
  · intro p hp
    rcases List.mem_map.1 hp with ⟨p₀, hp₀, rfl⟩
    exact h.nonempty p₀ hp₀
  · intro p hp f hf
    rcases List.mem_map.1 hp with ⟨p₀, hp₀, rfl⟩
    rw [Pattern.fields_mapTable] at hf
    rcases List.mem_map.1 hf with ⟨f₀, hf₀, rfl⟩
    rcases h.varies p₀ hp₀ f₀ hf₀ with ⟨e, he, e', he', hne⟩
    refine ⟨e, he, e', he', ?_⟩
    rwa [hextract, hextract]
  · intro p hp f hf new hkind
    rcases List.mem_map.1 hp with ⟨p₀, hp₀, rfl⟩
    rw [Pattern.fields_mapTable] at hf
    rcases List.mem_map.1 hf with ⟨f₀, hf₀, rfl⟩
    rcases BitField.mapTable_register hkind with ⟨old, hold, rfl⟩
    rcases h.selects p₀ hp₀ f₀ hf₀ old hold with ⟨u, hu, hall⟩
    rcases hn.get?_apply hp₀ hf₀ hold hu with ⟨t, ht, hregs⟩
    refine ⟨t, ht, ?_⟩
    intro i name hi
    rw [hregs] at hi
    rcases hall i name hi with ⟨e, he, heq⟩
    exact ⟨e, he, (hextract f₀ e.opcode).trans heq⟩
  · intro p hp hnone
    rcases List.mem_map.1 hp with ⟨p₀, hp₀, rfl⟩
    rw [Pattern.fields_mapTable, List.map_eq_nil_iff] at hnone
    rcases h.plain p₀ hp₀ hnone with ⟨i, hi, rfl⟩
    exact ⟨i, hi, i.mapTable_pattern _⟩

/-- A change leaves all fields exercised. -/
theorem change (h : Exercised instructions s) (ho : Owned s.patterns) (hc : Change s s') :
    Exercised instructions s' := by
  cases hc with
  | dropped => exact h.dropped
  | merged hr => exact h.merged ho hr
  | numbered hn => exact h.renumbered hn

theorem changes (h : Exercised instructions s) (ho : Owned s.patterns) (hc : Changes s s') :
    Exercised instructions s' := by
  induction hc with
  | refl => exact h
  | tail hbefore hstep ih => exact ih.change (ho.changes hbefore) hstep

end Exercised

end Stock

/-! ## Runs -/

/-- An instruction that stands for another is a repeat of it. -/
theorem RecoveredFrom.identity_eq {ts : Tables} {i j : Instruction}
    (h : RecoveredFrom ts j.pattern i) : j.pattern.identity = i.pattern.identity := by
  have hwidth : j.word.width = i.word.width := by rw [← width_pattern, h.width]
  have hvalue : i.word.value = j.word.value :=
    (accepts_pattern_iff j i.word.value).1 h.accepts
  have hword : j.word = i.word := by
    rw [BitRun.mk.injEq]
    exact ⟨hvalue.symm, hwidth⟩
  have hoperands : j.operands.map Operand.bare = i.operands.map Operand.bare := by
    refine List.ext_getElem? fun k => ?_
    rw [List.getElem?_map, List.getElem?_map]
    cases hop : i.operands[k]? with
    | none =>
      have hlen := List.getElem?_eq_none_iff.1 hop
      have hlen' : j.operands.length ≤ k := Nat.le_trans (Nat.le_of_eq h.length) hlen
      rw [List.getElem?_eq_none_iff.2 hlen']
    | some op =>
      rcases h.operands k op hop with ⟨op', hop', hsame | ⟨f, rfl, -⟩⟩
      · have hop' : j.operands[k]? = some op' := hop'
        rw [hop', Option.map_some, Option.map_some, Option.some.injEq]
        exact hsame
      · -- The operands of an instruction are no fields.
        have hplain := j.plain (.field f) (List.mem_of_getElem? hop')
        cases hplain
  show Pattern.Identity.mk j.mnemonic (j.operands.map Operand.bare) [.bits j.word] =
    ⟨i.mnemonic, i.operands.map Operand.bare, [.bits i.word]⟩
  have hmnemonic : j.mnemonic = i.mnemonic := h.mnemonic
  rw [hmnemonic, hoperands, hword]

/-- A pattern for an instruction stands for some other word as well, or it is the instruction or a
repeat of it. -/
theorem Stock.Exercised.other_or_repeat {instructions : List Instruction} {s : Stock}
    (h : s.Exercised instructions) {p : Pattern} (hp : p ∈ s.patterns) {i : Instruction}
    (hrec : RecoveredFrom s.tables p i) :
    (∃ e ∈ p.examples, e.opcode ≠ i.word.value) ∨
      ∃ j ∈ instructions, p = j.pattern ∧ j.pattern.identity = i.pattern.identity := by
  by_cases hnone : p.fields = []
  · rcases h.plain p hp hnone with ⟨j, hj, rfl⟩
    exact .inr ⟨j, hj, rfl, hrec.identity_eq⟩
  · -- A field takes two values, and the word of the instruction gives only one of them.
    rcases List.exists_mem_of_ne_nil _ hnone with ⟨f, hf⟩
    rcases h.varies p hp f hf with ⟨e, he, e', he', hne⟩
    refine .inl ?_
    by_cases heq : e.opcode = i.word.value
    · refine ⟨e', he', ?_⟩
      intro heq'
      exact hne (by rw [heq, heq'])
    · exact ⟨e, he, heq⟩

/-- After any steps, every field takes two values over the examples of its pattern, and its table
has registers only at selectors that occur among them. A pattern for an instruction stands for some
other word as well, or it is the instruction itself or a repeat of it. -/
theorem fields_exercised (config : Config) (catalog : Catalog) (instructions : List Instruction)
    (todo : List Step) (m : Model)
    (hrun : runFrom (Model.ofInstructions config catalog instructions) (Stage.steps todo)
      = (.ok ⟨⟩, m)) :
    (∀ p ∈ m.patterns, ∀ f, f ∈ p.fields ∨ .field f ∈ p.operands →
      p.Varies f ∧ p.Selects m.tables f) ∧
    ∀ i ∈ instructions, (∃ p ∈ m.patterns, RecoveredFrom m.tables p i) ∧
      ∀ p ∈ m.patterns, RecoveredFrom m.tables p i →
        (∃ e ∈ p.examples, e.opcode ≠ i.word.value) ∨
          ∃ j ∈ instructions, p = j.pattern ∧ j.pattern.identity = i.pattern.identity := by
  have hchanges := Stage.changes_of_steps
    (m := Model.ofInstructions config catalog instructions) Tables.numbered_empty hrun
  have hexercised := (Stock.exercised_instructions instructions).changes
    (owned_instructions instructions) hchanges
  have hsound := (Stock.sound_instructions instructions).changes hchanges
  constructor
  · intro p hp f hf
    -- An operand names only fields of the encoding, so both cases of `hf` are one.
    have hmem : f ∈ p.fields := hf.elim (fun h => h) (hsound.named p hp f)
    exact ⟨hexercised.varies p hp f hmem, hexercised.selects p hp f hmem⟩
  · intro i hi
    have hstart : Recovers (Model.ofInstructions config catalog instructions).stock i :=
      ⟨i.pattern, List.mem_map_of_mem hi, .recoveredFrom_pattern i⟩
    refine ⟨?_, ?_⟩
    · exact hstart.changes (owned_instructions instructions)
        (Stock.sound_instructions instructions) hchanges
    · intro p hp hrec
      exact hexercised.other_or_repeat hp hrec

/-- Both merges of the loads are made, so that there are fields to speak of. -/
theorem fields_exercised_loads :
    ∃ m, runFrom (Model.ofInstructions byteConfig Catalog.common loads)
        (Stage.steps [.pass .immediates .longestShared, .pass .registers .longestShared, .number])
        = (.ok ⟨⟩, m) ∧
      m.patterns.length = 2 ∧
      ∀ p ∈ m.patterns, ∀ f, f ∈ p.fields ∨ .field f ∈ p.operands →
        p.Varies f ∧ p.Selects m.tables f := by
  obtain ⟨_, m, hrun⟩ := exists_of_isOk (s := Model.ofInstructions byteConfig Catalog.common loads)
    (x := Stage.steps
      [.pass .immediates .longestShared, .pass .registers .longestShared, .number])
    (by decide +kernel)
  have hlength : (runFrom (Model.ofInstructions byteConfig Catalog.common loads) (Stage.steps
      [.pass .immediates .longestShared, .pass .registers .longestShared,
        .number])).2.patterns.length = 2 := by
    decide +kernel
  rw [hrun] at hlength
  exact ⟨m, hrun, hlength, (fields_exercised _ _ _ _ m hrun).1⟩

end SleighForge
