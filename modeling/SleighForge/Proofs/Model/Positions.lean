import SleighForge.Proofs.Combine.Excerpt
import SleighForge.Proofs.Layout.Partition
import SleighForge.Proofs.Model.CanonicalTables
import SleighForge.Proofs.Model.Finish
import SleighForge.Specification

/-!
# Models that differ in positions

Where the patterns of a model stand in the source matters only while they are combined. Models that
differ in nothing else are numbered, laid out and written down alike (`Moved`).
-/

namespace SleighForge

/-- The models have the same settings, tokens and layouts. -/
structure Model.SameFrame (m m' : Model) : Prop where
  config : m'.config = m.config
  catalog : m'.catalog = m.catalog
  tokens : m'.tokens = m.tokens
  layouts : m'.layouts = m.layouts

namespace Model.SameFrame

variable {m m' m'' : Model}

theorem refl (m : Model) : SameFrame m m :=
  ⟨rfl, rfl, rfl, rfl⟩

theorem symm (h : SameFrame m m') : SameFrame m' m :=
  ⟨h.config.symm, h.catalog.symm, h.tokens.symm, h.layouts.symm⟩

theorem trans (h : SameFrame m m') (h' : SameFrame m' m'') : SameFrame m m'' :=
  ⟨h'.config.trans h.config, h'.catalog.trans h.catalog, h'.tokens.trans h.tokens,
    h'.layouts.trans h.layouts⟩

theorem note (h : SameFrame m m') (severity : Severity) (text : String) :
    SameFrame (m.note severity text) (m'.note severity text) :=
  ⟨h.config, h.catalog, h.tokens, h.layouts⟩

end Model.SameFrame

/-- The second model is the first with its patterns at other positions, but for remarks. -/
structure Model.Moved (g : Int → Int) (m m' : Model) : Prop extends SameFrame m m' where
  patterns : m'.patterns = m.patterns.map (Pattern.reindex g)
  tables : m'.tables = m.tables

variable {g : Int → Int}

/-! ## Numbering -/

namespace Numbering

variable {working : Tables} {n n' : Numbering}

/-- The pattern of a field is needed for faults only. -/
theorem addField_congr {p : Pattern} {f : BitField} (h : addField working p n f = .ok n')
    (q : Pattern) : addField working q n f = .ok n' := by
  unfold addField at h ⊢
  cases hf : f.table? with
  | none =>
    rw [hf] at h
    exact h
  | some old =>
    rw [hf] at h
    dsimp only at h ⊢
    by_cases hseen : (n.ids.lookup old).isSome = true
    · rw [if_pos hseen] at h ⊢
      exact h
    · rw [if_neg hseen] at h ⊢
      -- Both faults name the pattern, and nothing else does.
      cases hget : working.get? old with
      | none =>
        rw [hget] at h
        cases h
      | some t =>
        rw [hget] at h
        dsimp only at h ⊢
        by_cases hsmall : t.members.length < 2
        · rw [if_pos hsmall] at h
          cases h
        · rw [if_neg hsmall] at h ⊢
          exact h

/-- Numbering does not depend on positions. -/
theorem ofPatterns_reindex {patterns : List Pattern} (h : ofPatterns working patterns = .ok n) :
    ofPatterns working (patterns.map (Pattern.reindex g)) = .ok n := by
  have hfold : ∀ (xs : List (Pattern × BitField)) (n₀ : Numbering),
      xs.foldlM (fun n x => addField working x.1 n x.2) n₀ = .ok n →
      (xs.map fun x => (x.1.reindex g, x.2)).foldlM
        (fun n x => addField working x.1 n x.2) n₀ = .ok n := by
    intro xs
    -- On the fields, from any numbering so far.
    induction xs with
    | nil => exact fun n₀ hxs => hxs
    | cons x xs ih =>
      intro n₀ hxs
      rw [List.foldlM_cons] at hxs
      rw [List.map_cons, List.foldlM_cons]
      cases hone : addField working x.1 n₀ x.2 with
      | error fault =>
        rw [hone] at hxs
        cases hxs
      | ok n₁ =>
        rw [hone] at hxs
        rw [addField_congr hone (x.1.reindex g)]
        exact ih n₁ hxs
  have hpairs : (patterns.map (Pattern.reindex g)).flatMap (fun p => p.fields.map (p, ·)) =
      (patterns.flatMap fun p => p.fields.map (p, ·)).map fun x => (x.1.reindex g, x.2) := by
    rw [List.flatMap_map, List.map_flatMap]
    simp only [List.map_map]
    rfl
  rw [ofPatterns_eq] at h ⊢
  rw [hpairs]
  exact hfold _ {} h

end Numbering

namespace Stage

variable {m m' m₁ : Model} {ranking : Ranking}

/-! ## Combining -/

/-- A pass leaves configuration, catalog, tokens and layouts. -/
theorem sameFrame_of_combine {pass : Pass} {stats : PassStats}
    (hrun : runFrom m (combine pass ranking) = (.ok stats, m₁)) : m.SameFrame m₁ := by
  rcases runFrom_combine m pass ranking with ⟨journal, hcombine⟩
  rw [hrun] at hcombine
  rcases hpass : runFrom ⟨m.tables, m.journal⟩ (Combine.runPass pass ranking m.patterns) with
    ⟨fault | ⟨patterns, stats'⟩, b⟩
  all_goals
    rw [hpass] at hcombine
    cases hcombine
  exact ⟨rfl, rfl, rfl, rfl⟩

/-- Passes leave configuration, catalog, tokens and layouts. -/
theorem sameFrame_of_passes {passes : List Pass} {stats : List PassStats}
    (hrun : runFrom m (passes.mapM (combine · ranking)) = (.ok stats, m₁)) : m.SameFrame m₁ :=
  runFrom_mapM_induction (I := m.SameFrame)
    (fun _ _ _ _ _ h hpass => h.trans (sameFrame_of_combine hpass)) (.refl m) hrun

/-! ## Numbering -/

/-- Numbering makes twins the same but for positions. -/
theorem numberTables_moved (hm : ∀ p ∈ m.patterns, p.OperandsEncoded)
    (hm' : ∀ p ∈ m'.patterns, p.OperandsEncoded) (hframe : m.SameFrame m')
    (htwins : List.Forall₂ (Pattern.Twin g m.tables m'.tables) m.patterns m'.patterns)
    (hrun : runFrom m numberTables = (.ok ⟨⟩, m₁)) :
    ∃ m₁', runFrom m' numberTables = (.ok ⟨⟩, m₁') ∧ m₁.Moved g m₁' := by
  rcases runFrom_numberTables m with ⟨journal, hnumber⟩
  rw [hrun] at hnumber
  cases hn : Numbering.ofPatterns m.tables m.patterns with
  | error fault =>
    rw [hn] at hnumber
    cases hnumber
  | ok n =>
    rw [hn] at hnumber
    cases hnumber
    have hencoded : ∀ p ∈ m.patterns.map (Pattern.reindex g), p.OperandsEncoded :=
      List.forall_mem_map.2 hm
    -- Numbering reads no index, so it may be moved before the two lists are compared.
    rcases Numbering.ofPatterns_alike (fun p hp => (hencoded p hp).registers)
        (fun q hq => (hm' q hq).registers) (List.forall₂_map_left_iff.2 htwins)
      (Numbering.ofPatterns_reindex hn) with ⟨n', hn', htables, hpatterns⟩
    rcases runFrom_numberTables m' with ⟨journal', hrun'⟩
    rw [hn'] at hrun'
    refine ⟨_, hrun', ⟨hframe.config, hframe.catalog, hframe.tokens, hframe.layouts⟩, ?_, htables⟩
    show m'.patterns.map _ = _
    rw [hpatterns, List.map_map, List.map_map]
    rfl

end Stage

/-! ## Laying out -/

/-- A layout does not depend on the position. -/
theorem Layout.ofPattern_reindex {tables : Tables} {stem : String} {p : Pattern} {l : Layout}
    (h : ofPattern tables stem p = .ok l) : ofPattern tables stem (p.reindex g) = .ok l := by
  have hcheck : checkFields (p.reindex g) = checkFields p := rfl
  have hencoding : (p.reindex g).encoding = p.encoding := rfl
  have hwidth : (p.reindex g).width = p.width := rfl
  unfold ofPattern at h ⊢
  rw [hcheck, hencoding, hwidth]
  dsimp only at h ⊢
  generalize (do
    checkFields p
    regionsBelow tables stem 0 0 p.encoding) = regions? at h ⊢
  cases regions? with
  | error cause => cases h
  | ok regions => exact h

namespace Model.Moved

variable {m m' : Model}

theorem note (h : m.Moved g m') (severity : Severity) (text : String) :
    (m.note severity text).Moved g (m'.note severity text) :=
  ⟨h.toSameFrame.note severity text, h.patterns, h.tables⟩

theorem widths_eq (h : m.Moved g m') : m'.widths = m.widths := by
  rw [widths, widths, h.patterns, List.map_map]
  rfl

theorem tokenOf_eq (h : m.Moved g m') (layouts : List Layout) (width : Nat) :
    m'.tokenOf layouts width = m.tokenOf layouts width := by
  rw [tokenOf, tokenOf, h.config, h.patterns, List.zip_map_left, List.filter_map, List.flatMap_map]
  rfl

end Model.Moved

namespace Stage

variable {m m' m₁ : Model}

/-- A moved model is laid out alike. -/
theorem layOut_moved (h : m.Moved g m') (hknown : m'.unknownRegister? = none)
    (hrun : runFrom m layOut = (.ok ⟨⟩, m₁)) :
    ∃ m₁', runFrom m' layOut = (.ok ⟨⟩, m₁') ∧ m₁.Moved g m₁' := by
  rcases layOut_inv hrun with ⟨layouts, journal, hall, rfl⟩
  have hall' : (m'.patterns.mapM fun p =>
      Layout.ofPattern m'.tables (Model.stem m'.widths p.width) p) = .ok layouts := by
    rw [h.patterns, h.tables, h.widths_eq, mapM_eq_ok_iff, List.forall₂_map_left_iff]
    exact (mapM_eq_ok_iff.1 hall).imp fun _ _ hp => Layout.ofPattern_reindex hp
  rcases runFrom_layOut m' with ⟨journal', hlay⟩
  rw [hknown] at hlay
  dsimp only at hlay
  rw [hall'] at hlay
  refine ⟨_, hlay, ⟨h.config, h.catalog, ?_, rfl⟩, h.patterns, h.tables⟩
  show m'.widths.map (m'.tokenOf layouts) = m.widths.map (m.tokenOf layouts)
  rw [h.widths_eq]
  exact List.map_congr_left fun width _ => h.tokenOf_eq layouts width

end Stage

/-! ## Writing down -/

/-- The specification does not tell positions. -/
theorem Model.Moved.render_eq {m m' : Model} (h : m.Moved g m') :
    Specification.render m' = Specification.render m := by
  have hused : m'.usedRegisters = m.usedRegisters := by
    rw [usedRegisters, usedRegisters, h.patterns, h.tables, List.flatMap_map]
    rfl
  have hheader : Specification.headerLines m' = Specification.headerLines m := by
    rw [Specification.headerLines, Specification.headerLines, Specification.declaredRegisters,
      Specification.declaredRegisters, hused, h.config]
  have hattach : Specification.attachSection m' = Specification.attachSection m := by
    unfold Specification.attachSection Specification.attachLines Specification.fieldsOfTable
    rw [h.tables, h.tokens]
  unfold Specification.render
  rw [hheader, hattach, h.tokens, h.layouts, h.config, h.patterns, List.zip_map_left,
    List.mapM_map]
  rfl

end SleighForge
