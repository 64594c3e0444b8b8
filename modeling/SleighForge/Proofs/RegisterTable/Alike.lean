import SleighForge.Proofs.RegisterTable.Canonical
import SleighForge.Proofs.SideBySide

/-!
# Patterns that select alike

Patterns are alike if they differ at most in the ids of their register tables, and the ids in the
same place stand for the same registers. Numbering leaves a pattern alike (`alike_of_ofPatterns`),
and it brings alike patterns to the same form (`ofPatterns_alike`).
-/

namespace SleighForge

/-! ## The relation -/

/-- The fields are the same up to the ids of their tables, and these have the same registers. -/
inductive BitField.Alike (ts us : Tables) : BitField → BitField → Prop where
  | immediate {f : BitField} (hf : f.table? = none) : Alike ts us f f
  | register {f : BitField} {old new : Int} {t u : RegisterTable} (hf : f.table? = some old)
    (ht : ts.get? old = some t) (hu : us.get? new = some u) (hregs : u.registers = t.registers) :
    Alike ts us f { f with kind := .register new }

/-- The operands are the same or alike fields. -/
inductive Operand.Alike (ts us : Tables) : Operand → Operand → Prop where
  | plain {op : Operand} (hop : op.field? = none) : Alike ts us op op
  | field {f g : BitField} (h : f.Alike ts us g) : Alike ts us (.field f) (.field g)

/-- The segments are the same literal bits or alike fields. -/
inductive Segment.Alike (ts us : Tables) : Segment → Segment → Prop where
  | bits (r : BitRun) : Alike ts us (.bits r) (.bits r)
  | field {f g : BitField} (h : f.Alike ts us g) : Alike ts us (.field f) (.field g)

namespace Pattern

/-- The patterns are the same up to alike fields. -/
structure Alike (ts us : Tables) (p q : Pattern) : Prop where
  mnemonic : q.mnemonic = p.mnemonic
  operands : List.Forall₂ (Operand.Alike ts us) p.operands q.operands
  encoding : List.Forall₂ (Segment.Alike ts us) p.encoding q.encoding
  index : q.index = p.index
  examples : q.examples = p.examples

end Pattern

variable {ts us : Tables}

/-- Fields that are alike select from the same registers. -/
theorem BitField.Alike.registers?_eq {f g : BitField} (h : f.Alike ts us g) :
    g.registers? us = f.registers? ts := by
  cases h with
  | immediate hf => rw [registers?_eq_none hf, registers?_eq_none hf]
  | @register old new t u hf ht hu hregs =>
    have hg : BitField.table? { f with kind := .register new } = some new := rfl
    rw [BitField.registers?_eq hf ht, BitField.registers?_eq hg hu, hregs]

/-- A field of a pattern has a field alike in a pattern alike. -/
theorem Pattern.Alike.exists_field {p q : Pattern} (h : p.Alike ts us q) {g : BitField}
    (hg : g ∈ q.fields) : ∃ f ∈ p.fields, f.Alike ts us g := by
  rcases List.mem_filterMap.1 hg with ⟨s, hs, hfield⟩
  rcases exists_of_mem_right h.encoding hs with ⟨s', hs', halike⟩
  cases halike with
  | bits => cases hfield
  | field halike =>
    cases hfield
    exact ⟨_, List.mem_filterMap.2 ⟨_, hs', rfl⟩, halike⟩

/-- Patterns that are alike have the same selections. -/
theorem Numbering.selections_eq {patterns patterns' : List Pattern}
    (h : List.Forall₂ (Pattern.Alike ts us) patterns patterns') :
    selections us patterns' = selections ts patterns := by
  have hsegments : ∀ (ws : Tables) (p : Pattern), p.fields.filterMap (BitField.registers? ws) =
      (p.encoding.map fun s => s.field?.bind (BitField.registers? ws)).filterMap id := by
    intro ws p
    rw [Pattern.fields, Encoding.fields, List.filterMap_filterMap, List.filterMap_map]
    rfl
  rw [selections, selections, List.flatMap_def, List.flatMap_def]
  refine congrArg List.flatten (map_eq_map_of_forall₂ h fun p _ q _ hpq => ?_).symm
  rw [hsegments, hsegments]
  refine congrArg _ (map_eq_map_of_forall₂ hpq.encoding fun s _ s' _ halike => ?_)
  cases halike with
  | bits => rfl
  | field halike => exact halike.registers?_eq.symm

/-! ## Renaming tables -/

section

variable {a b : Int → Int} {p q : Pattern}

/-- A renamed field is alike if its table is kept under the new name. -/
theorem BitField.alike_mapTable {f : BitField} (h : ∀ old, f.table? = some old →
    ∃ t u, ts.get? old = some t ∧ us.get? (a old) = some u ∧ u.registers = t.registers) :
    f.Alike ts us (f.mapTable a) := by
  cases hold : f.table? with
  | none =>
    rw [mapTable_eq_self hold]
    exact .immediate hold
  | some old =>
    rcases h old hold with ⟨t, u, ht, hu, hregs⟩
    rw [mapTable_eq hold]
    exact .register hold ht hu hregs

/-- A pattern is alike after its tables are renamed if its fields are. -/
theorem Pattern.alike_mapTable (hp : p.OperandsEncoded)
    (h : ∀ f ∈ p.fields, f.Alike ts us (f.mapTable a)) : p.Alike ts us (p.mapTable a) := by
  refine ⟨rfl, ?_, ?_, rfl, rfl⟩
  · refine List.forall₂_map_right_iff.2 (List.forall₂_same.2 ?_)
    intro op hop
    cases op with
    | text | register | immediate => exact .plain rfl
    | field f => exact .field (h f (hp f hop))
  · refine List.forall₂_map_right_iff.2 (List.forall₂_same.2 ?_)
    intro s hs
    cases s with
    | bits r => exact .bits r
    | field f => exact .field (h f (List.mem_filterMap.2 ⟨_, hs, rfl⟩))

/-- Patterns alike are the same after their tables are renamed if their fields are. -/
theorem Pattern.Alike.mapTable_eq (h : p.Alike ts us q) (hp : p.RegistersEncoded)
    (hq : q.RegistersEncoded) (hab : ∀ f ∈ p.fields, ∀ g ∈ q.fields, f.Alike ts us g →
      f.mapTable a = g.mapTable b) : p.mapTable a = q.mapTable b := by
  have hoperands : p.operands.map (Operand.mapTable a) = q.operands.map (Operand.mapTable b) := by
    refine map_eq_map_of_forall₂ h.operands fun op hop op' hop' halike => ?_
    cases halike with
    | plain hplain =>
      cases op with
      | text | register | immediate => rfl
      | field => cases hplain
    | field halike =>
      cases halike with
      | immediate hnone =>
        show Operand.field _ = Operand.field _
        rw [BitField.mapTable_eq_self hnone, BitField.mapTable_eq_self hnone]
      | register hold ht hu hregs =>
        -- `hab` is about encoded fields, and a register operand has its field encoded.
        have hf := hp _ hop (Option.isSome_iff_exists.2 ⟨_, hold⟩)
        have hg := hq _ hop' rfl
        exact congrArg Operand.field (hab _ hf _ hg (.register hold ht hu hregs))
  have hencoding : p.encoding.mapTable a = q.encoding.mapTable b := by
    refine map_eq_map_of_forall₂ h.encoding fun s hs s' hs' halike => ?_
    cases halike with
    | bits => rfl
    | field halike =>
      exact congrArg Segment.field (hab _ (List.mem_filterMap.2 ⟨_, hs, rfl⟩) _
        (List.mem_filterMap.2 ⟨_, hs', rfl⟩) halike)
  rw [Pattern.mapTable, Pattern.mapTable, Pattern.mk.injEq]
  exact ⟨h.mnemonic.symm, hoperands, hencoding, h.index.symm, h.examples.symm⟩

end

/-! ## Numbering -/

namespace Numbering

variable {n : Numbering} {patterns patterns' : List Pattern}

/-- Numbering changes no more than the ids, and each still stands for the same registers. -/
theorem alike_of_ofPatterns (hp : ∀ p ∈ patterns, p.OperandsEncoded)
    (h : ofPatterns ts patterns = .ok n) :
    List.Forall₂ (Pattern.Alike ts n.toTables) patterns
      (patterns.map (Pattern.mapTable n.apply)) := by
  refine List.forall₂_map_right_iff.2 (List.forall₂_same.2 ?_)
  intro p hmem
  refine Pattern.alike_mapTable (hp p hmem) fun f hf => BitField.alike_mapTable fun old hold => ?_
  rcases (ofPatterns_spec h).same p hmem f hf old hold with ⟨u, t, hu, ht, hregs⟩
  exact ⟨u, t, hu, ht, hregs⟩

/-- Patterns alike are numbered alike, so they come out the same, with the same tables. -/
theorem ofPatterns_alike (hp : ∀ p ∈ patterns, p.RegistersEncoded)
    (hq : ∀ q ∈ patterns', q.RegistersEncoded)
    (halike : List.Forall₂ (Pattern.Alike ts us) patterns patterns')
    (h : ofPatterns ts patterns = .ok n) :
    ∃ n', ofPatterns us patterns' = .ok n' ∧ n'.toTables = n.toTables ∧
      patterns'.map (Pattern.mapTable n'.apply) = patterns.map (Pattern.mapTable n.apply) := by
  -- A table gets the place of its registers in this list, whatever its id was.
  have hlists : selections us patterns' = selections ts patterns := selections_eq halike
  have hok : ∃ n', ofPatterns us patterns' = .ok n' := by
    refine ofPatterns_ok fun q hmem g hg new hnew => ?_
    rcases exists_of_mem_right halike hmem with ⟨p, hpmem, hpq⟩
    rcases hpq.exists_field hg with ⟨f, hf, hfg⟩
    cases hfg with
    | immediate hnone =>
      rw [hnone] at hnew
      cases hnew
    | register hold ht hu hregs =>
      cases hnew
      rcases apply_eq_position h hpmem hf hold with ⟨t, ht', htwo, -⟩
      rw [ht, Option.some.injEq] at ht'
      exact ⟨_, hu, by rwa [RegisterTable.members_congr hregs, ht']⟩
  rcases hok with ⟨n', h'⟩
  refine ⟨n', h', ?_, ?_⟩
  · rw [toTables, toTables, (ofPatterns_tables h).1, (ofPatterns_tables h').1, hlists]
  · refine (map_eq_map_of_forall₂ halike fun p hpmem q hqmem hpq => ?_).symm
    refine hpq.mapTable_eq (hp p hpmem) (hq q hqmem) fun f hf g hg hfg => ?_
    cases hfg with
    | immediate hnone => rw [BitField.mapTable_eq_self hnone, BitField.mapTable_eq_self hnone]
    | @register old new t u hold ht hu hregs =>
      have hnew : BitField.table? { f with kind := .register new } = some new := rfl
      rcases apply_eq_position h hpmem hf hold with ⟨t', ht', -, happly⟩
      rcases apply_eq_position h' hqmem hg hnew with ⟨u', hu', -, happly'⟩
      rw [ht, Option.some.injEq] at ht'
      rw [hu, Option.some.injEq] at hu'
      rw [BitField.mapTable_eq hold, BitField.mapTable_eq hnew, happly, happly', hlists, ← ht',
        ← hu', hregs]

end Numbering

end SleighForge
