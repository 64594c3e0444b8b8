import SleighForge.Proofs.Model.Steps
import SleighForge.Proofs.Pattern

/-!
# Fields and tables stay sound

While patterns change, the fields that their operands name stay fields of their encodings, and every
register field keeps a table of its width with two registers (`Stock.Sound`). The fields of the
encodings stay among the operands (`Stock.Displayed`). No register comes up that the patterns did
not have before (`Stock.Known`).
-/

namespace SleighForge

/-- Under its new id a table has the registers that it had. -/
theorem Numbering.Renumbers.get?_apply {n : Numbering} {working : Tables} {patterns : List Pattern}
    (h : n.Renumbers working patterns) {p : Pattern} (hp : p ∈ patterns) {f : BitField}
    (hf : f ∈ p.fields) {old : Int} (hkind : f.kind = .register old) {u : RegisterTable}
    (hu : working.get? old = some u) :
    ∃ t, n.toTables.get? (n.apply old) = some t ∧ t.registers = u.registers := by
  rcases h.same p hp f hf old (BitField.table?_eq_some_iff.2 hkind) with ⟨u', t, hu', ht, hregs⟩
  rw [hu, Option.some.injEq] at hu'
  subst hu'
  exact ⟨t, ht, hregs⟩

namespace Stock

/-- The operands name fields of the encodings, and every field has the table it needs. -/
structure Sound (s : Stock) : Prop where
  numbered : s.tables.Numbered
  named : ∀ p ∈ s.patterns, ∀ f, .field f ∈ p.operands → f ∈ p.fields
  hasTable : ∀ p ∈ s.patterns, ∀ f ∈ p.fields, f.HasTable s.tables

/-- The operands name the fields of the encodings. -/
def Displayed (s : Stock) : Prop :=
  ∀ p ∈ s.patterns, ∀ f ∈ p.fields, .field f ∈ p.operands

/-- The registers of the operands and of the tables satisfy a condition. -/
structure Known (known : String → Prop) (s : Stock) : Prop where
  operands : ∀ p ∈ s.patterns, ∀ name, .register name ∈ p.operands → known name
  tables : ∀ t ∈ s.tables.history, ∀ name ∈ t.members, known name

/-- Instructions have no fields. -/
theorem sound_instructions (instructions : List Instruction) :
    Sound ⟨instructions.map Instruction.pattern, {}⟩ where
  numbered := Tables.numbered_empty
  named p hp f hf := by
    rcases List.mem_map.1 hp with ⟨i, -, rfl⟩
    have hplain := i.plain (.field f) hf
    cases hplain
  hasTable p hp f hf := by
    rcases List.mem_map.1 hp with ⟨i, -, rfl⟩
    cases hf

namespace Sound

variable {s s' : Stock}

/-- Dropping repeats leaves patterns as they are. -/
theorem dropped (h : Sound s) : Sound ⟨Combine.dropDuplicates s.patterns, s.tables⟩ := by
  have hsub := Combine.dropDuplicates_sublist s.patterns
  exact ⟨h.numbered, fun p hp => h.named p (hsub.subset hp), fun p hp =>
    h.hasTable p (hsub.subset hp)⟩

/-- A round leaves new fields encoded and with their tables. -/
theorem merged (h : Sound s) {tables : Tables} {merges : List Combine.Merge}
    (hr : Combine.Round s.patterns s.tables tables merges) :
    Sound ⟨Combine.settle merges s.patterns, tables⟩ := by
  refine ⟨hr.grown.numbered, ?_, ?_⟩
  · -- The operands of a merged pattern are those of its first member and the new field.
    intro p hp f hf
    rcases hr.cases_of_mem_settle hp with
      ⟨m, kind, position, first, rest, g, rfl, hmade⟩ | ⟨i, hi⟩
    · rw [hmade.merged.mem_fields]
      rcases hmade.merged.mem_operands hf with heq | hf
      · exact .inl (Operand.field.inj heq)
      · exact .inr (h.named first (List.mem_of_getElem? hmade.first_eq) f hf)
    · exact h.named p (List.mem_of_getElem? hi) f hf
  · intro p hp f hf
    rcases hr.cases_of_mem_settle hp with
      ⟨m, kind, position, first, rest, g, rfl, hmade⟩ | ⟨i, hi⟩
    · rcases hmade.merged.mem_fields.1 hf with rfl | hf
      · exact hmade.merged.hasTable
      · have hfirst := List.mem_of_getElem? hmade.first_eq
        exact (h.hasTable first hfirst f hf).mono hr.grown.keeps
    · exact (h.hasTable p (List.mem_of_getElem? hi) f hf).mono hr.grown.keeps

/-- Numbering gives every field its table under the new id. -/
theorem renumbered (h : Sound s) {n : Numbering} (hn : n.Renumbers s.tables s.patterns) :
    Sound ⟨s.patterns.map (Pattern.mapTable n.apply), n.toTables⟩ := by
  refine ⟨hn.numbered, ?_, ?_⟩
  · intro p hp f hf
    rcases List.mem_map.1 hp with ⟨p₀, hp₀, rfl⟩
    have hencoded : p₀.OperandsEncoded := h.named p₀ hp₀
    exact hencoded.mapTable _ f hf
  · intro p hp f hf new hkind
    rcases List.mem_map.1 hp with ⟨p₀, hp₀, rfl⟩
    rw [Pattern.fields_mapTable] at hf
    rcases List.mem_map.1 hf with ⟨f₀, hf₀, rfl⟩
    rcases BitField.mapTable_register hkind with ⟨old, hold, rfl⟩
    rcases h.hasTable p₀ hp₀ f₀ hf₀ old hold with ⟨u, hu, hwidth, htwo⟩
    rcases hn.get?_apply hp₀ hf₀ hold hu with ⟨t, ht, hregs⟩
    refine ⟨t, ht, ?_, ?_⟩
    · rw [RegisterTable.selectorWidth_congr hregs, hwidth, BitField.mapTable_width]
    · rw [RegisterTable.members_congr hregs]
      exact htwo

/-- A change leaves the stock sound. -/
theorem change (h : Sound s) (hc : Change s s') : Sound s' := by
  cases hc with
  | dropped => exact h.dropped
  | merged hr => exact h.merged hr
  | numbered hn => exact h.renumbered hn

theorem changes (h : Sound s) (hc : Changes s s') : Sound s' := by
  induction hc with
  | refl => exact h
  | tail _ hstep ih => exact ih.change hstep

end Sound

/-! ## Fields among the operands -/

/-- To begin with there are no fields to display. -/
theorem displayed_instructions (instructions : List Instruction) :
    Displayed ⟨instructions.map Instruction.pattern, {}⟩ := by
  intro p hp f hf
  obtain ⟨i, -, rfl⟩ := List.mem_map.1 hp
  exact absurd hf List.not_mem_nil

namespace Displayed

variable {s s' : Stock}

/-- A merge puts its field among the operands, in the place of an operand that is no field. -/
theorem merged (h : Displayed s) {tables : Tables} {merges : List Combine.Merge}
    (hr : Combine.Round s.patterns s.tables tables merges) :
    Displayed ⟨Combine.settle merges s.patterns, tables⟩ := by
  intro p hp f hf
  rcases hr.cases_of_mem_settle hp with
    ⟨m, kind, position, first, rest, g, rfl, hmade⟩ | ⟨i, hi⟩
  · rcases hmade.merged.mem_fields.1 hf with rfl | hf
    · exact List.mem_of_getElem? (hmade.merged.operand_eq hmade.gathered.group)
    · have hfirst := h first (List.mem_of_getElem? hmade.first_eq) f hf
      exact hmade.merged.field_mem_operands hmade.gathered.group hfirst
  · exact h p (List.mem_of_getElem? hi) f hf

/-- Numbering renames fields in encodings and operands alike. -/
theorem renumbered (h : Displayed s) (n : Numbering) :
    Displayed ⟨s.patterns.map (Pattern.mapTable n.apply), n.toTables⟩ := by
  intro p hp f hf
  obtain ⟨p₀, hp₀, rfl⟩ := List.mem_map.1 hp
  rw [Pattern.fields_mapTable] at hf
  obtain ⟨f₀, hf₀, rfl⟩ := List.mem_map.1 hf
  exact Pattern.mem_operands_mapTable.2 ⟨.field f₀, h p₀ hp₀ f₀ hf₀, rfl⟩

theorem change (h : Displayed s) (hc : Change s s') : Displayed s' := by
  cases hc with
  | dropped => exact fun p hp => h p ((Combine.dropDuplicates_sublist s.patterns).subset hp)
  | merged hr => exact h.merged hr
  | numbered => exact h.renumbered _

theorem changes (h : Displayed s) (hc : Changes s s') : Displayed s' := by
  induction hc with
  | refl => exact h
  | tail _ hstep ih => exact ih.change hstep

end Displayed

/-! ## Registers -/

namespace Known

variable {known : String → Prop} {s s' : Stock}

/-- A change brings in no new registers. -/
theorem change (h : Known known s) (hc : Change s s') : Known known s' := by
  cases hc with
  | dropped =>
    have hsub := Combine.dropDuplicates_sublist s.patterns
    exact ⟨fun p hp => h.operands p (hsub.subset hp), h.tables⟩
  | merged hr =>
    constructor
    · intro p hp name hname
      rcases hr.cases_of_mem_settle hp with
        ⟨m, kind, position, first, rest, f, rfl, hmade⟩ | ⟨i, hi⟩
      · rcases hmade.merged.mem_operands hname with heq | hname
        · cases heq
        · exact h.operands first (List.mem_of_getElem? hmade.first_eq) name hname
      · exact h.operands p (List.mem_of_getElem? hi) name hname
    · intro t ht name hname
      -- A table that is new has registers of the patterns only.
      rcases hr.grown.known t ht with ht | hnew
      · exact h.tables t ht name hname
      · rcases hnew name hname with ⟨p, hp, hop⟩
        exact h.operands p hp name hop
  | numbered hn =>
    constructor
    · intro p hp name hname
      rcases List.mem_map.1 hp with ⟨p₀, hp₀, rfl⟩
      rcases Pattern.mem_operands_mapTable.1 hname with ⟨op, hop, heq⟩
      cases op with
      | register name₀ =>
        cases heq
        exact h.operands p₀ hp₀ name hop
      | _ => cases heq
    · intro t ht name hname
      rcases hn.known t ht with ⟨u, hu, hregs⟩
      rw [RegisterTable.members_congr hregs] at hname
      exact h.tables u hu name hname

theorem changes (h : Known known s) (hc : Changes s s') : Known known s' := by
  induction hc with
  | refl => exact h
  | tail _ hstep ih => exact ih.change hstep

end Known

end Stock

end SleighForge
