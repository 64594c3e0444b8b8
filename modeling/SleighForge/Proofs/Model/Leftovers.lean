import Mathlib.Data.List.Sort
import SleighForge.Proofs.Model.Attempts
import SleighForge.Proofs.Model.CanonicalTables
import SleighForge.Proofs.Model.StageExcerpt
import SleighForge.Proofs.RegisterTable.Faults

/-!
# Failures leave no trace

A call that ends in a fault leaves patterns, tokens and layouts as they were. A pass over registers
may leave tables behind, which no field selects from. Later steps go on as if they were not there:
they end alike, and leave patterns that are the same up to the ids of their tables (`InStep.step`).
Numbering drops the leftovers and the difference with them, if it succeeds
(`failure_leaves_no_trace`); if it does not, they stay (`leftovers_stay`).
-/

namespace SleighForge

/-! ## Tables and references -/

/-- The tables were built, and the register fields have their tables and occur in the encodings. -/
structure Stock.Referenced (s : Stock) : Prop where
  built : s.tables.Built
  present : ∀ p ∈ s.patterns, ∀ f ∈ p.fields, f.Present s.tables
  placed : ∀ p ∈ s.patterns, p.RegistersEncoded

/-! ## Alike to itself -/

section

variable {ts us : Tables}

/-- A field whose table is there is like itself while the tables are kept. -/
theorem BitField.Present.alike {f : BitField} (h : f.Present ts)
    (hkeep : ∀ id t, ts.get? id = some t → us.get? id = some t) : f.Alike ts us f := by
  cases hid : f.table? with
  | none => exact .immediate hid
  | some id =>
    rcases h id hid with ⟨t, ht⟩
    have hsame : f = { f with kind := .register id } := by rw [← table?_eq_some_iff.1 hid]
    have halike : f.Alike ts us { f with kind := .register id } :=
      .register hid ht (hkeep id t ht) rfl
    rwa [← hsame] at halike

/-- With more tables a pattern selects from what it selected from. -/
theorem Pattern.alike_self {p : Pattern} (hp : p.RegistersEncoded)
    (hpresent : ∀ f ∈ p.fields, f.Present ts)
    (hkeep : ∀ id t, ts.get? id = some t → us.get? id = some t) : p.Alike ts us p := by
  refine ⟨rfl, List.forall₂_same.2 ?_, List.forall₂_same.2 ?_, rfl, rfl⟩
  · intro op hop
    cases op with
    | text | register | immediate => exact .plain rfl
    | field f =>
      refine .field (BitField.Present.alike ?_ hkeep)
      intro id hid
      exact hpresent f (hp f hop (Option.isSome_iff_exists.2 ⟨id, hid⟩)) id hid
  · intro s hs
    cases s with
    | bits r => exact .bits r
    | field f =>
      have hf : f ∈ p.fields := List.mem_filterMap.2 ⟨_, hs, rfl⟩
      exact .field ((hpresent f hf).alike hkeep)

/-- The register fields of alike operands occur in alike encodings. -/
theorem Pattern.Alike.registersEncoded (hus : us.Interned) {p q : Pattern} (h : p.Alike ts us q)
    (hp : p.RegistersEncoded) : q.RegistersEncoded := by
  intro g hg htable
  rcases exists_of_mem_right h.operands hg with ⟨op, hop, halike⟩
  cases halike with
  | plain hplain => cases hplain
  | @field f _ hfg =>
    have hfield : f ∈ p.fields := by
      refine hp f hop ?_
      cases hfg with
      | immediate hnone =>
        rw [hnone] at htable
        cases htable
      | register hf => exact Option.isSome_iff_exists.2 ⟨_, hf⟩
    rcases exists_of_mem_right (Encoding.Alike.fields h.encoding).flip hfield with
      ⟨g', hg', hfg'⟩
    rwa [BitField.Alike.rightUnique hus hfg hfg']

/-- Alike patterns are excerpts of each other. -/
theorem excerpt_of_alike (hts : ts.Interned) (hus : us.Interned) {patterns others : List Pattern}
    (h : List.Forall₂ (Pattern.Alike ts us) patterns others) :
    Excerpt (fun _ => true) id ts us patterns others := by
  refine ⟨hts, hus, ?_⟩
  rw [List.filter_true]
  exact h

/-- An excerpt of all widths is alike, pattern by pattern. -/
theorem Excerpt.alike {patterns others : List Pattern}
    (h : Excerpt (fun _ => true) id ts us patterns others) :
    List.Forall₂ (Pattern.Alike ts us) patterns others := by
  have htwins := h.twins
  rwa [List.filter_true] at htwins

end

/-- Changes keep the register fields of operands in the encodings. -/
theorem registersEncoded_of_changes {s s' : Stock} (h : Stock.Changes s s')
    (hs : ∀ p ∈ s.patterns, p.RegistersEncoded) : ∀ p ∈ s'.patterns, p.RegistersEncoded := by
  induction h with
  | refl => exact hs
  | tail _ hstep ih =>
    cases hstep with
    | dropped => exact fun p hp => ih p ((Combine.dropDuplicates_sublist _).subset hp)
    | merged hr =>
      intro p hp f hf htable
      rcases hr.cases_of_mem_settle hp with
        ⟨m, kind, position, first, rest, g, rfl, hmade⟩ | ⟨i, hi⟩
      · rw [hmade.merged.mem_fields]
        rcases hmade.merged.mem_operands hf with heq | hf
        · exact .inl (Operand.field.inj heq)
        · exact .inr (ih first (List.mem_of_getElem? hmade.first_eq) f hf htable)
      · exact ih p (List.mem_of_getElem? hi) f hf htable
    | numbered hn =>
      intro p hp
      rcases List.mem_map.1 hp with ⟨p₀, hp₀, rfl⟩
      exact (ih p₀ hp₀).mapTable _

/-! ## Models in step -/

namespace Model

/-- The models are the same but for their remarks, the ids of tables, and tables that no field
selects from. -/
structure Agree (a b : Model) : Prop where
  config : b.config = a.config
  catalog : b.catalog = a.catalog
  tokens : b.tokens = a.tokens
  layouts : b.layouts = a.layouts
  alike : List.Forall₂ (Pattern.Alike a.tables b.tables) a.patterns b.patterns

/-- Models that agree, over interned tables. -/
structure InStep (a b : Model) : Prop extends Agree a b where
  left : a.tables.Interned
  right : b.tables.Interned
  placed : ∀ p ∈ a.patterns, p.RegistersEncoded

namespace InStep

variable {a b : Model}

/-- Models in step are excerpts of each other. -/
theorem excerpt (h : a.InStep b) :
    Excerpt (fun _ => true) id a.tables b.tables a.patterns b.patterns :=
  excerpt_of_alike h.left h.right h.alike

theorem placed_right (h : a.InStep b) : ∀ q ∈ b.patterns, q.RegistersEncoded := by
  intro q hq
  rcases exists_of_mem_right h.alike.flip.flip hq with ⟨p, hp, halike⟩
  exact halike.registersEncoded h.right (h.placed p hp)

/-- Passes end alike on models in step, and leave models in step. -/
theorem pass (h : a.InStep b) (pass : Pass) (ranking : Ranking) :
    (runFrom b (Stage.step (.pass pass ranking))).1 =
      (runFrom a (Stage.step (.pass pass ranking))).1 ∧
    (a.after (.pass pass ranking)).InStep (b.after (.pass pass ranking)) := by
  have hranking := ranking.respects_all
  have hexcerpt : Excerpt (fun _ => true) id (Combine.Bench.mk a.tables a.journal).tables
    (Combine.Bench.mk b.tables b.journal).tables a.patterns b.patterns := h.excerpt
  unfold Model.after
  rcases Stage.step_pass_cases a pass ranking with
    ⟨patterns, stats, c, journal, hpass, hstep⟩ | ⟨fault, c, journal, hpass, hstep⟩
  · rcases Combine.runPass_excerpt hranking hexcerpt hpass with
      ⟨patterns', stats', c', hpass', hnext⟩
    rcases Stage.step_pass_cases b pass ranking with
      ⟨_, _, _, journal', hcase, hstep'⟩ | ⟨_, _, journal', hcase, -⟩
    all_goals
      rw [hpass'] at hcase
      cases hcase
    have hchanges := Combine.changes_of_runPass (b := ⟨a.tables, a.journal⟩)
      h.left.toNumbered hpass
    rw [hstep, hstep']
    refine ⟨rfl, ⟨h.config, h.catalog, h.tokens, h.layouts, hnext.alike⟩, hnext.left, hnext.right,
      ?_⟩
    exact registersEncoded_of_changes hchanges h.placed
  · -- Only the tables have changed, and they keep their ids on either side.
    rcases Combine.runPass_excerpt_fault (b := ⟨a.tables, a.journal⟩) h.left.toNumbered hpass with
      ⟨p, -, hall⟩
    rcases hall (fun _ => true) id b.patterns ⟨b.tables, b.journal⟩ rfl hranking hexcerpt with
      ⟨c', hpass'⟩
    have hsame : fault.reindex id = fault := by
      rw [CombineFault.reindex, List.map_id]
    rw [hsame] at hpass'
    rcases Stage.step_pass_cases b pass ranking with
      ⟨_, _, _, journal', hcase, -⟩ | ⟨_, _, journal', hcase, hstep'⟩
    all_goals
      rw [hpass'] at hcase
      cases hcase
    have hkeeps := Combine.keeps_of_runPass pass ranking a.patterns
      (b := ⟨a.tables, a.journal⟩) (.refl h.left)
    have hkeeps' := Combine.keeps_of_runPass pass ranking b.patterns
      (b := ⟨b.tables, b.journal⟩) (.refl h.right)
    rw [hpass] at hkeeps
    rw [hpass'] at hkeeps'
    rw [hstep, hstep']
    refine ⟨rfl, ⟨h.config, h.catalog, h.tokens, h.layouts, ?_⟩, hkeeps.interned,
      hkeeps'.interned, h.placed⟩
    have hkept : Kept a.tables b.tables c.tables c'.tables :=
      ⟨hkeeps.interned, hkeeps'.interned, hkeeps.keeps, hkeeps'.keeps⟩
    exact hkept.twins (g := id) h.alike

/-- What numbering leaves of models in step, where it succeeds, is the same but for remarks. -/
theorem number_cases (h : a.InStep b) :
    (∃ fault journal journal', runFrom a (Stage.step .number) = (.error fault, { a with journal }) ∧
      runFrom b (Stage.step .number) = (.error fault, { b with journal := journal' })) ∨
    ∃ n journal journal', Numbering.ofPatterns a.tables a.patterns = .ok n ∧
      runFrom a (Stage.step .number) = (.ok ⟨⟩, { a with
        patterns := a.patterns.map (Pattern.mapTable n.apply), tables := n.toTables, journal }) ∧
      runFrom b (Stage.step .number) = (.ok ⟨⟩, { a with
        patterns := a.patterns.map (Pattern.mapTable n.apply), tables := n.toTables,
        journal := journal' }) := by
  rcases Stage.runFrom_numberTables a with ⟨journal, hrun⟩
  rcases Stage.runFrom_numberTables b with ⟨journal', hrun'⟩
  rcases Numbering.ofPatterns_agree h.placed h.placed_right h.alike with
    ⟨fault, hfault, hfault'⟩ | ⟨n, n', hn, hn', htables, hpatterns⟩
  · rw [hfault] at hrun
    rw [hfault'] at hrun'
    exact .inl ⟨fault, journal, journal', hrun, hrun'⟩
  · rw [hn] at hrun
    rw [hn'] at hrun'
    dsimp only at hrun'
    -- The tables are canonical, so whatever ids the two models used are gone.
    rw [htables, hpatterns] at hrun'
    refine .inr ⟨n, journal, journal', hn, hrun, hrun'.trans ?_⟩
    rw [Prod.mk.injEq, Model.mk.injEq]
    exact ⟨rfl, h.config, h.catalog, rfl, rfl, h.tokens, h.layouts, rfl⟩

/-- Numbering ends alike on both sides, and leaves the models in step. -/
theorem number (h : a.InStep b) :
    (runFrom b (Stage.step .number)).1 = (runFrom a (Stage.step .number)).1 ∧
    (a.after .number).InStep (b.after .number) := by
  unfold Model.after
  rcases h.number_cases with
    ⟨fault, journal, journal', hrun, hrun'⟩ | ⟨n, journal, journal', hn, hrun, hrun'⟩
  · rw [hrun, hrun']
    exact ⟨rfl, ⟨h.config, h.catalog, h.tokens, h.layouts, h.alike⟩, h.left, h.right, h.placed⟩
  · -- Both are the same model now, in which every field has its table.
    have hinterned := Tables.interned_of_ofPatterns hn
    have hplaced : ∀ p ∈ a.patterns.map (Pattern.mapTable n.apply), p.RegistersEncoded := by
      intro p hp
      rcases List.mem_map.1 hp with ⟨p₀, hp₀, rfl⟩
      exact (h.placed p₀ hp₀).mapTable _
    have hpresent : ∀ p ∈ a.patterns.map (Pattern.mapTable n.apply), ∀ f ∈ p.fields,
        f.Present n.toTables := by
      intro p hp f hf new hnew
      rcases List.mem_map.1 hp with ⟨p₀, hp₀, rfl⟩
      rw [Pattern.fields_mapTable] at hf
      rcases List.mem_map.1 hf with ⟨f₀, hf₀, rfl⟩
      rw [BitField.table?_mapTable, Option.map_eq_some_iff] at hnew
      rcases hnew with ⟨old, hold, rfl⟩
      rcases (Numbering.ofPatterns_spec hn).same p₀ hp₀ f₀ hf₀ old hold with ⟨u, t, -, ht, -⟩
      exact ⟨t, ht⟩
    rw [hrun, hrun']
    refine ⟨rfl, ⟨rfl, rfl, rfl, rfl, List.forall₂_same.2 fun p hp => ?_⟩, hinterned, hinterned,
      hplaced⟩
    exact Pattern.alike_self (hplaced p hp) (hpresent p hp) fun _ _ => id

/-- Steps end alike on models in step, and leave models in step. -/
theorem step (h : a.InStep b) (s : Step) :
    (runFrom b (Stage.step s)).1 = (runFrom a (Stage.step s)).1 ∧
    (a.after s).InStep (b.after s) := by
  cases s with
  | pass p ranking => exact h.pass p ranking
  | number => exact h.number

theorem steps (h : a.InStep b) (todo : List Step) :
    (a.afterAll todo).InStep (b.afterAll todo) := by
  induction todo generalizing a b with
  | nil => exact h
  | cons s todo ih => exact ih (h.step s).2

end InStep

end Model

/-! ## Calls -/

/-- A call on the way to the final form of a model. -/
inductive Call where
  | step (s : Step)
  | layOut

namespace Stage

/-- Makes a call. -/
def call : Call → Stage Unit
  | .step s => step s
  | .layOut => layOut

/-- Laying out does not depend on the remarks made so far. -/
theorem runFrom_layOut_journal (m : Model) (journal : Journal) :
    ∃ journal', runFrom { m with journal } layOut =
      ((runFrom m layOut).1, { (runFrom m layOut).2 with journal := journal' }) := by
  have hknown : ({ m with journal } : Model).unknownRegister? = m.unknownRegister? := rfl
  rcases runFrom_layOut m with ⟨journal₁, hrun⟩
  rcases runFrom_layOut { m with journal } with ⟨journal₂, hrun'⟩
  rw [hrun, hrun', hknown]
  cases m.unknownRegister? with
  | some fault => exact ⟨journal, rfl⟩
  | none =>
    dsimp only
    have hwidths : ({ m with journal } : Model).widths = m.widths := rfl
    rw [hwidths]
    cases m.patterns.mapM fun p => Layout.ofPattern m.tables (Model.stem m.widths p.width) p with
    | error fault => exact ⟨journal, rfl⟩
    | ok layouts => exact ⟨journal₂, rfl⟩

/-- A call that ends in a fault changes no more than the tables, and these keep their ids. -/
theorem call_fault {m m₁ : Model} {c : Call} {fault : StageFault} (hm : m.tables.Interned)
    (hrun : runFrom m (call c) = (.error fault, m₁)) :
    ∃ tables journal, m₁ = { m with tables, journal } ∧ m.tables.Keeps tables := by
  cases c with
  | step s =>
    cases s with
    | pass pass ranking =>
      rcases step_pass_cases m pass ranking with
        ⟨patterns, stats, b, journal, -, hstep⟩ | ⟨_, b, journal, hpass, hstep⟩
      · rw [call, hstep] at hrun
        cases hrun
      · rw [call, hstep] at hrun
        cases hrun
        have hkeeps := Combine.keeps_of_runPass pass ranking m.patterns
          (b := ⟨m.tables, m.journal⟩) (.refl hm)
        rw [hpass] at hkeeps
        exact ⟨b.tables, journal, rfl, hkeeps⟩
    | number =>
      rcases step_number_cases m with ⟨n, journal, -, hstep⟩ | ⟨_, journal, -, hstep⟩
      · rw [call, hstep] at hrun
        cases hrun
      · rw [call, hstep] at hrun
        cases hrun
        exact ⟨m.tables, journal, rfl, .refl hm⟩
  | layOut =>
    rcases runFrom_layOut m with ⟨journal, hlay⟩
    -- Laying out reads the tables only, and a fault comes before the layouts are put in place.
    have hsame : m₁ = m := by
      rw [call, hlay] at hrun
      cases hfault : m.unknownRegister? with
      | some fault =>
        rw [hfault] at hrun
        cases hrun
        rfl
      | none =>
        rw [hfault] at hrun
        dsimp only at hrun
        cases hall : m.patterns.mapM fun p =>
          Layout.ofPattern m.tables (Model.stem m.widths p.width) p with
        | error fault =>
          rw [hall] at hrun
          cases hrun
          rfl
        | ok layouts =>
          rw [hall] at hrun
          cases hrun
    exact ⟨m.tables, m.journal, hsame, .refl hm⟩

end Stage

/-! ## A pass that leaves a table behind -/

/-- An instruction with a register, for examples. -/
def withRegister (mnemonic register : String) (word : Nat) (index : Int) : Instruction where
  mnemonic
  operands := [.register register]
  word := byteWord word
  index
  plain := by simp [Operand.field?]

/-- A pattern with a register field in its lowest bit, for examples. -/
def selecting : Pattern where
  mnemonic := "GEN"
  operands := [.field (bitSelector 0 0)]
  encoding := [.bits ⟨4, 7, by decide, by decide⟩, .field (bitSelector 0 0)]
  index := 0
  examples := []
  placed := ⟨trivial, rfl, trivial⟩

/-- A selector, two moves that can be merged, and two loads of the same word, which cannot. -/
def clashes : List Pattern :=
  selecting :: [withRegister "MOV" "r0" 0x10 0, withRegister "MOV" "r1" 0x11 1,
    withRegister "LD" "r0" 0x20 2, withRegister "LD" "r1" 0x20 3].map Instruction.pattern

/-- The selector is over the given registers. -/
def clashing (registers : List (Option String)) : Model where
  config := byteConfig
  catalog := Catalog.common
  patterns := clashes
  tables := (({} : Tables).intern registers).2

/-- The tables once the moves are merged. -/
def withMoves (registers : List (Option String)) : Tables :=
  ⟨[⟨1, [some "r0", some "r1"], ""⟩, ⟨0, registers, ""⟩]⟩

/-- The pass over registers, for examples. -/
def overRegisters : Step :=
  .pass .registers .longestShared

/-- A numbering that ends in a fault leaves the tables. -/
theorem Model.tables_after_number {m : Model} {ts : Tables} (patterns : List Pattern)
    (h : (Numbering.ofPatterns ts patterns).toOption = none) (htables : m.tables = ts)
    (hpatterns : m.patterns = patterns) : (m.after .number).tables = ts := by
  subst htables hpatterns
  unfold Model.after
  rcases Stage.step_number_cases m with ⟨n, journal, hn, -⟩ | ⟨fault, journal, -, hstep⟩
  · rw [hn] at h
    cases h
  · rw [hstep]

/-- The one field of the clashing moves has its table. -/
theorem referenced_clashing (registers : List (Option String)) :
    (clashing registers).stock.Referenced where
  built := .intern .empty registers
  present := by
    intro p hp f hf id hid
    rcases List.mem_cons.1 hp with rfl | hp
    · have hf : f = bitSelector 0 0 := List.mem_singleton.1 hf
      rw [hf] at hid
      cases hid
      exact ⟨⟨0, registers, ""⟩, rfl⟩
    · rcases List.mem_map.1 hp with ⟨i, -, rfl⟩
      exact absurd hf List.not_mem_nil
  placed := by
    intro p hp f hf _
    rcases List.mem_cons.1 hp with rfl | hp
    · have hf : f = bitSelector 0 0 := Operand.field.inj (List.mem_singleton.1 hf)
      rw [hf]
      exact List.mem_singleton_self _
    · rcases List.mem_map.1 hp with ⟨i, -, rfl⟩
      cases i.plain (.field f) hf

/-- The moves are merged before the loads end the pass, so their table stays. -/
theorem clashing_overRegisters (registers : List (Option String))
    (h : registers ∈ [[some "a"], [some "a", some "b"]]) :
    ∃ fault journal, runFrom (clashing registers) (Stage.step overRegisters) =
      (.error fault, { clashing registers with tables := withMoves registers, journal }) := by
  -- Sorting is by well-founded recursion, which does not evaluate, so its result is put in first.
  have hranked : (Candidate.all .register clashes).mergeSort Ranking.longestShared =
      Candidate.all .register clashes :=
    List.mergeSort_of_pairwise (by decide +kernel)
  have hdone : ∀ registers ∈ [[some "a"], [some "a", some "b"]],
      (runFrom ⟨(clashing registers).tables, []⟩
        (Combine.runPass .registers .longestShared clashes)).1.toOption = none ∧
      (runFrom ⟨(clashing registers).tables, []⟩
        (Combine.runPass .registers .longestShared clashes)).2.tables = withMoves registers := by
    rw [Combine.runPass, Combine.mergeRounds]
    dsimp only
    rw [hranked]
    decide +kernel
  rcases hdone registers h with ⟨hfault, htables⟩
  rcases Stage.step_pass_cases (clashing registers) .registers .longestShared with
    ⟨patterns, stats, b, journal, hpass, -⟩ | ⟨fault, b, journal, hpass, hstep⟩
  · have hpass : runFrom ⟨(clashing registers).tables, []⟩
        (Combine.runPass .registers .longestShared clashes) = (.ok (patterns, stats), b) := hpass
    rw [hpass] at hfault
    cases hfault
  · have hpass : runFrom ⟨(clashing registers).tables, []⟩
        (Combine.runPass .registers .longestShared clashes) = (.error fault, b) := hpass
    rw [hpass] at htables
    rw [← htables]
    exact ⟨.combine fault, journal, hstep⟩

/-! ## Results -/

/-- A call that ends in a fault leaves the patterns, the tokens and the layouts, and the tables that
were there keep their ids. All later steps end as they would have ended without the call, and leave
the same patterns up to the ids of tables. Where numbering succeeds then, it gives the same patterns
and tables as without the call, and laying out comes to the same. -/
theorem failure_leaves_no_trace (m m₁ : Model) (c : Call) (fault : StageFault)
    (hm : m.stock.Referenced) (hrun : runFrom m (Stage.call c) = (.error fault, m₁)) :
    m₁.patterns = m.patterns ∧ m₁.tokens = m.tokens ∧ m₁.layouts = m.layouts ∧
    (∀ id t, m.tables.get? id = some t → m₁.tables.get? id = some t) ∧
    ∀ todo : List Step,
      (m.afterAll todo).Agree (m₁.afterAll todo) ∧
      (∀ s, (runFrom (m₁.afterAll todo) (Stage.step s)).1 =
        (runFrom (m.afterAll todo) (Stage.step s)).1) ∧
      ∀ a, runFrom (m.afterAll todo) (Stage.step .number) = (.ok ⟨⟩, a) →
        ∃ b journal journal', runFrom (m₁.afterAll todo) (Stage.step .number) = (.ok ⟨⟩, b) ∧
          b = { a with journal } ∧
          runFrom b Stage.layOut = ((runFrom a Stage.layOut).1,
            { (runFrom a Stage.layOut).2 with journal := journal' }) := by
  rcases Stage.call_fault hm.built.interned hrun with ⟨tables, journal, rfl, hkeeps⟩
  refine ⟨rfl, rfl, rfl, hkeeps.keeps, ?_⟩
  -- The failed call may have left tables behind, and no pattern refers to one of them.
  have hstart : m.InStep { m with tables, journal } := by
    refine ⟨⟨rfl, rfl, rfl, rfl, List.forall₂_same.2 fun p hp => ?_⟩, hm.built.interned,
      hkeeps.interned, hm.placed⟩
    exact Pattern.alike_self (hm.placed p hp) (hm.present p hp) hkeeps.keeps
  intro todo
  have hend := hstart.steps todo
  refine ⟨hend.toAgree, fun s => (hend.step s).1, ?_⟩
  intro a hnumber
  rcases hend.number_cases with
    ⟨_, _, _, hcase, -⟩ | ⟨n, journal₁, journal₂, -, hcase, hnumber'⟩
  · rw [hnumber] at hcase
    cases hcase
  · rw [hnumber] at hcase
    cases hcase
    rcases Stage.runFrom_layOut_journal { m.afterAll todo with
        patterns := (m.afterAll todo).patterns.map (Pattern.mapTable n.apply),
        tables := n.toTables, journal := journal₁ } journal₂ with ⟨journal₃, hlay⟩
    exact ⟨_, journal₂, journal₃, hnumber', rfl, hlay⟩

/-- The selector has two registers, so numbering drops the table of the moves. -/
theorem failure_leaves_no_trace_clashing :
    ∃ fault m₁ a b journal journal',
      runFrom (clashing [some "a", some "b"]) (Stage.call (.step overRegisters)) =
        (.error fault, m₁) ∧
      m₁.tables ≠ (clashing [some "a", some "b"]).tables ∧
      runFrom (clashing [some "a", some "b"]) (Stage.step .number) = (.ok ⟨⟩, a) ∧
      runFrom m₁ (Stage.step .number) = (.ok ⟨⟩, b) ∧ b = { a with journal } ∧
      runFrom b Stage.layOut =
        ((runFrom a Stage.layOut).1, { (runFrom a Stage.layOut).2 with journal := journal' }) := by
  rcases clashing_overRegisters [some "a", some "b"] (by decide) with
    ⟨fault, journal₀, hrun⟩
  rcases failure_leaves_no_trace _ _ (.step overRegisters) fault (referenced_clashing _) hrun with
    ⟨-, -, -, -, hlater⟩
  have hmore : withMoves [some "a", some "b"] ≠ (clashing [some "a", some "b"]).tables := by
    decide +kernel
  rcases Stage.step_number_cases (clashing [some "a", some "b"]) with
    ⟨n, journal₁, -, hnumber⟩ | ⟨_, _, hfault, -⟩
  · rcases (hlater []).2.2 _ hnumber with ⟨b, journal, journal', hnumber', hb, hlay⟩
    exact ⟨fault, _, _, b, journal, journal', hrun, hmore, hnumber, hnumber', hb, hlay⟩
  · have hok : (Numbering.ofPatterns (clashing [some "a", some "b"]).tables
        (clashing [some "a", some "b"]).patterns).toOption.isSome := by decide +kernel
    rw [hfault] at hok
    cases hok

/-- The selector has one register, so numbering ends in a fault with and without the pass, and the
table of the moves stays. -/
theorem leftovers_stay :
    ¬ ∀ (m m₁ : Model) (c : Call) (fault : StageFault), m.stock.Referenced →
      runFrom m (Stage.call c) = (.error fault, m₁) → ∀ todo : List Step, ∀ id,
        ((m₁.afterAll todo).after .number).tables.get? id =
          ((m.afterAll todo).after .number).tables.get? id := by
  intro hall
  rcases clashing_overRegisters [some "a"] (by decide) with ⟨fault, journal, hrun⟩
  have hsame := hall _ _ (.step overRegisters) fault (referenced_clashing _) hrun [] 1
  have hwithout : ((clashing [some "a"]).after .number).tables = ⟨[⟨0, [some "a"], ""⟩]⟩ :=
    Model.tables_after_number clashes (by decide +kernel) rfl rfl
  have hwith : (Model.after { clashing [some "a"] with
      tables := withMoves [some "a"], journal } .number).tables = withMoves [some "a"] :=
    Model.tables_after_number clashes (by decide +kernel) rfl rfl
  rw [Model.afterAll, Model.afterAll, List.foldl_nil, List.foldl_nil, hwith, hwithout] at hsame
  exact absurd hsame (by decide +kernel)

end SleighForge
