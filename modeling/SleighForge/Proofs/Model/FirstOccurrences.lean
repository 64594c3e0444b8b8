import Mathlib.Data.List.Induction
import SleighForge.Proofs.Combine.Outcomes
import SleighForge.Proofs.Model.Attempts
import SleighForge.Proofs.Model.Soundness
import SleighForge.Proofs.Model.FieldValues

/-!
# Repeats are dropped once and for all

Dropping repeats leaves the first occurrence of each pattern (`dropDuplicates_eq`). No later step
makes a repeat again, whether it succeeds or fails. A merged pattern that came out like another
would accept a word of it, but such words are foreign and were refused; and numbering keeps patterns
apart because interned tables have different registers (`repeats_dropped_once`).
-/

namespace SleighForge

/-! ## First occurrences -/

/-- The first element for each value of `f` is the one whose value does not come up before it. -/
theorem distinctBy_eq_filter {α β : Type} [DecidableEq β] (f : α → β) (xs : List α) :
    distinctBy f xs =
      (xs.zipIdx.filter fun x => f x.1 ∉ (xs.take x.2).map f).map Prod.fst := by
  induction xs using List.reverseRecOn with
  | nil => rfl
  | append_singleton xs x ih =>
    have hbefore : (xs.zipIdx.filter fun y => f y.1 ∉ ((xs ++ [x]).take y.2).map f) =
        xs.zipIdx.filter fun y => f y.1 ∉ (xs.take y.2).map f := by
      refine List.filter_congr fun y hy => ?_
      have hlt := (List.getElem?_eq_some_iff.1 (List.mem_zipIdx_iff_getElem?.1 hy)).1
      rw [List.take_append_of_le_length (Nat.le_of_lt hlt)]
    rw [List.zipIdx_append, List.filter_append, List.map_append, hbefore, ← ih]
    by_cases hmem : f x ∈ xs.map f
    · simp [distinctBy_concat_of_mem hmem, List.mem_map.1 hmem]
    · simp [distinctBy_concat_of_not_mem hmem, hmem]

namespace Pattern

/-- The patterns are the same but for their positions, their examples and the spelling of
numbers. -/
def Repeats (p q : Pattern) : Prop :=
  p.mnemonic = q.mnemonic ∧ List.Forall₂ Operand.Same p.operands q.operands ∧
    p.encoding = q.encoding

instance (p q : Pattern) : Decidable (p.Repeats q) :=
  inferInstanceAs (Decidable (_ ∧ _ ∧ _))

/-- Patterns with one identity are repeats of each other. -/
theorem identity_eq_iff {p q : Pattern} : p.identity = q.identity ↔ p.Repeats q := by
  have hoperands : p.operands.map Operand.bare = q.operands.map Operand.bare ↔
      List.Forall₂ Operand.Same p.operands q.operands := by
    rw [← List.forall₂_eq_eq_eq, List.forall₂_map_left_iff, List.forall₂_map_right_iff]
    rfl
  rw [Repeats, ← hoperands, identity, identity, Identity.mk.injEq]

end Pattern

/-- The patterns that repeat none before them, in order. -/
def firstOccurrences (patterns : List Pattern) : List Pattern :=
  let new (x : Pattern × Nat) : Bool := ∀ q ∈ patterns.take x.2, ¬ q.Repeats x.1
  (patterns.zipIdx.filter new).map Prod.fst

/-- What the pass leaves are the first occurrences. -/
theorem dropDuplicates_eq (patterns : List Pattern) :
    Combine.dropDuplicates patterns = firstOccurrences patterns := by
  rw [Combine.dropDuplicates, distinctBy_eq_filter, firstOccurrences]
  refine congrArg _ (List.filter_congr fun x _ => decide_eq_decide.2 ?_)
  simp only [List.mem_map, not_exists, not_and, Pattern.identity_eq_iff]

/-! ## Rounds -/

namespace Combine

variable {ts ts' : Tables} {patterns : List Pattern} {merges : List Merge}

/-- A merged pattern is no repeat of a pattern that accepts a word from outside of its group. -/
theorem Made.identity_ne {m : Merge} {kind : OperandKind} {position : Nat} {first : Pattern}
    {rest : List Pattern} {f : BitField} (h : Made ts patterns m kind position first rest f)
    {q₀ q : Pattern} {i : Nat} (hi : patterns[i]? = some q₀) (hout : i ∉ m.slots)
    (hw : q₀.width = q.width) {e : Example} (he : e ∈ q₀.examples)
    (hacc : q.accepts e.opcode = true) : m.result.identity ≠ q.identity := by
  intro heq
  have henc : m.result.encoding = q.encoding := congrArg Pattern.Identity.encoding heq
  have hwidth : q₀.width = m.result.width := hw.trans (congrArg Encoding.width henc).symm
  have hrefused := h.not_accepts hi hout hwidth he
  rw [Pattern.accepts, henc] at hrefused
  rw [Pattern.accepts, hrefused] at hacc
  cases hacc

theorem unclaimed_sublist (merges : List Merge) (patterns : List Pattern) :
    (unclaimed merges patterns).Sublist patterns := by
  have hsub : (unclaimed merges patterns).Sublist
      ((List.range patterns.length).filterMap (patterns[·]?)) :=
    List.filter_sublist.filterMap _
  rwa [filterMap_range_getElem?] at hsub

/-- A round makes no repeats: a merged pattern refuses the words of all other patterns. -/
theorem nodup_settle (ho : Owned patterns) (hex : ∀ p ∈ patterns, p.examples ≠ [])
    (hr : Round patterns ts ts' merges) (h : (patterns.map Pattern.identity).Nodup) :
    ((settle merges patterns).map Pattern.identity).Nodup := by
  have hperm := (settle_perm hr.disjoint).map Pattern.identity
  rw [hperm.nodup_iff, List.map_append, List.nodup_append]
  refine ⟨?_, h.sublist ((unclaimed_sublist merges patterns).map _), ?_⟩
  · rw [List.map_map]
    refine List.pairwise_map.2 (hr.disjoint.pairwise.imp_of_mem ?_)
    intro m m' hm hm' hslots
    rcases hr.made m hm with ⟨kind, position, first, rest, f, hmade⟩
    rcases hr.made m' hm' with ⟨kind', position', first', rest', f', hmade'⟩
    -- The first member of the other merge has a word that its result accepts.
    have hfirst := List.mem_of_getElem? hmade'.first_eq
    rcases List.exists_mem_of_ne_nil _ (hex first' hfirst) with ⟨e, he⟩
    have hout : m'.slot ∉ m.slots := fun hin => hslots _ hin (List.mem_cons_self ..)
    have hg := hmade'.gathered.group
    refine hmade.identity_ne hmade'.first_eq hout ?_ he ?_
    · exact (hmade'.merged.width_eq hg (List.mem_cons_self ..)).symm
    · exact hmade'.merged.accepts hg (List.mem_cons_self ..) (ho.accepts_example hfirst he)
  · intro a ha b hb
    rcases List.mem_map.1 ha with ⟨p, hp, rfl⟩
    rcases List.mem_map.1 hp with ⟨m, hm, rfl⟩
    rcases List.mem_map.1 hb with ⟨q, hq, rfl⟩
    rcases hr.made m hm with ⟨kind, position, first, rest, f, hmade⟩
    rcases mem_unclaimed.1 hq with ⟨i, hi, hfree⟩
    have hmem := List.mem_of_getElem? hi
    rcases List.exists_mem_of_ne_nil _ (hex q hmem) with ⟨e, he⟩
    have hout : i ∉ m.slots := fun hin => hfree (mem_claimed.2 ⟨m, hm, hin⟩)
    exact hmade.identity_ne hi hout rfl he (ho.accepts_example hmem he)

end Combine

/-! ## The invariant -/

namespace Stock

/-- Patterns over interned tables that own their words, of which no two are repeats. -/
structure Unrepeated (s : Stock) : Prop where
  interned : s.tables.Interned
  owned : Owned s.patterns
  sound : s.Sound
  nonempty : ∀ p ∈ s.patterns, p.examples ≠ []
  distinct : (s.patterns.map Pattern.identity).Nodup

/-- Instructions are no repeats once their repeats are dropped. -/
theorem unrepeated_instructions (instructions : List Instruction) :
    Unrepeated ⟨Combine.dropDuplicates (instructions.map Instruction.pattern), {}⟩ := by
  have hexercised := (exercised_instructions instructions).dropped
  refine ⟨Tables.interned_empty, ?_, ?_, hexercised.nonempty, nodup_map_distinctBy _ _⟩
  · exact (owned_instructions instructions).sublist (Combine.dropDuplicates_sublist _)
  · exact (sound_instructions instructions).dropped

namespace Unrepeated

variable {s : Stock}

/-- Without repeats nothing is dropped. -/
theorem dropDuplicates_eq_self (h : s.Unrepeated) :
    Combine.dropDuplicates s.patterns = s.patterns :=
  distinctBy_eq_self h.distinct

/-- More tables make no repeats. -/
theorem grown (h : s.Unrepeated) {tables : Tables} (hkeeps : s.tables.Keeps tables) :
    Unrepeated ⟨s.patterns, tables⟩ where
  interned := hkeeps.interned
  owned := h.owned
  sound := by
    refine ⟨hkeeps.interned.toNumbered, h.sound.named, ?_⟩
    intro p hp f hf
    exact (h.sound.hasTable p hp f hf).mono hkeeps.keeps
  nonempty := h.nonempty
  distinct := h.distinct

/-- A round makes no repeats. -/
theorem merged (h : s.Unrepeated) {tables : Tables} {merges : List Combine.Merge}
    (hr : Combine.Round s.patterns s.tables tables merges) (htables : tables.Interned) :
    Unrepeated ⟨Combine.settle merges s.patterns, tables⟩ where
  interned := htables
  owned := h.owned.settle hr
  sound := h.sound.merged hr
  nonempty := hr.examples_ne_nil h.nonempty
  distinct := Combine.nodup_settle h.owned h.nonempty hr h.distinct

/-- Numbering makes no repeats, as different ids of interned tables stand for different
registers. -/
theorem numbered (h : s.Unrepeated) {n : Numbering}
    (hn : Numbering.ofPatterns s.tables s.patterns = .ok n) :
    Unrepeated ⟨s.patterns.map (Pattern.mapTable n.apply), n.toTables⟩ where
  interned := Tables.interned_of_ofPatterns hn
  owned := h.owned.mapTable _
  sound := h.sound.renumbered (Numbering.ofPatterns_spec hn)
  nonempty := by
    intro p hp
    rcases List.mem_map.1 hp with ⟨p₀, hp₀, rfl⟩
    exact h.nonempty p₀ hp₀
  distinct := by
    have halike := Numbering.alike_of_ofPatterns h.sound.named hn
    rw [List.forall₂_map_right_iff, List.forall₂_same] at halike
    have hapart := List.pairwise_map.1 h.distinct
    rw [List.map_map]
    refine List.pairwise_map.2 (hapart.imp_of_mem ?_)
    intro p q hp hq hne heq
    have htwin : p.Twin id s.tables n.toTables (p.mapTable n.apply) := halike p hp
    have htwin' : q.Twin id s.tables n.toTables (q.mapTable n.apply) := halike q hq
    exact hne ((htwin.identity_eq_iff h.interned (Tables.interned_of_ofPatterns hn) htwin').2 heq)

/-- A pass makes no repeats. -/
theorem of_runPass (h : s.Unrepeated) {pass : Pass} {ranking : Ranking} {journal : Journal}
    {patterns : List Pattern} {stats : PassStats} {b : Combine.Bench}
    (hrun : runFrom ⟨s.tables, journal⟩ (Combine.runPass pass ranking s.patterns) =
      (.ok (patterns, stats), b)) : Unrepeated ⟨patterns, b.tables⟩ := by
  rcases Combine.runPass_cases pass with rfl | ⟨kind, heq⟩
  · cases hrun
    rw [h.dropDuplicates_eq_self]
    exact h
  · rw [heq] at hrun
    rcases runFrom_bind_eq_ok.1 hrun with ⟨done, c, hrounds, hrun⟩
    cases hrun
    refine Combine.mergeRounds_induction
      (I := fun patterns c => Unrepeated ⟨patterns, c.tables⟩) ?_ h hrounds
    intro patterns c merges c' hc hround
    have hkeeps := Combine.keeps_of_mergeRound kind patterns
      ((Candidate.all kind patterns).mergeSort ranking) (.refl hc.interned)
    rw [hround] at hkeeps
    exact hc.merged (Combine.round_of_mergeRound (fun _ => Combine.mem_all_of_mem_mergeSort)
      hc.sound.numbered hround) hkeeps.interned

end Unrepeated

end Stock

/-- No step makes repeats, whatever comes of it. -/
theorem Stock.Unrepeated.after {m : Model} (h : m.stock.Unrepeated) (s : Step) :
    (m.after s).stock.Unrepeated := by
  unfold Model.after
  cases s with
  | pass pass ranking =>
    rcases Stage.step_pass_cases m pass ranking with
      ⟨patterns, stats, b, journal, hpass, hstep⟩ | ⟨fault, b, journal, hpass, hstep⟩
    · rw [hstep]
      exact h.of_runPass hpass
    · have hkeeps := Combine.keeps_of_runPass pass ranking m.patterns
        (b := ⟨m.tables, m.journal⟩) (.refl h.interned)
      rw [hpass] at hkeeps
      rw [hstep]
      exact h.grown hkeeps
  | number =>
    rcases Stage.step_number_cases m with ⟨n, journal, hn, hstep⟩ | ⟨fault, journal, -, hstep⟩
    · rw [hstep]
      exact h.numbered hn
    · rw [hstep]
      exact h

/-! ## The stage -/

theorem Stage.runFrom_duplicates (m : Model) (ranking : Ranking) :
    ∃ journal, runFrom m (Stage.combine .duplicates ranking) =
      (.ok ⟨.duplicates, m.patterns.length, (firstOccurrences m.patterns).length,
        m.patterns.length - (firstOccurrences m.patterns).length, 1⟩,
        { m with patterns := firstOccurrences m.patterns, journal }) := by
  rcases Stage.runFrom_combine m .duplicates ranking with ⟨journal, hrun⟩
  refine ⟨journal, ?_⟩
  rw [hrun, Combine.runPass, runFrom_pure, dropDuplicates_eq]

/-- Dropping repeats leaves the first occurrences and nothing else. Once that was done to some
instructions, no steps make two patterns that are repeats, whatever comes of each step, so dropping
repeats again removes nothing and changes nothing. -/
theorem repeats_dropped_once :
    (∀ (m : Model) (ranking : Ranking), ∃ journal,
      runFrom m (Stage.combine .duplicates ranking) =
        (.ok ⟨.duplicates, m.patterns.length, (firstOccurrences m.patterns).length,
          m.patterns.length - (firstOccurrences m.patterns).length, 1⟩,
          { m with patterns := firstOccurrences m.patterns, journal })) ∧
    ∀ (config : Config) (catalog : Catalog) (instructions : List Instruction)
      (ranking again : Ranking) (todo : List Step),
      let m := ((Model.ofInstructions config catalog instructions).after
        (.pass .duplicates ranking)).afterAll todo
      m.patterns.Pairwise (fun p q => ¬ p.Repeats q) ∧
      ∃ journal, runFrom m (Stage.combine .duplicates again) =
        (.ok ⟨.duplicates, m.patterns.length, m.patterns.length, 0, 1⟩, { m with journal }) := by
  refine ⟨Stage.runFrom_duplicates, ?_⟩
  intro config catalog instructions ranking again todo m
  have hstart : (((Model.ofInstructions config catalog instructions).after
      (.pass .duplicates ranking)).stock).Unrepeated :=
    Stock.unrepeated_instructions instructions
  -- That no pattern repeats another is kept by every step, not only by the next one.
  have hend : m.stock.Unrepeated :=
    Model.afterAll_induction (I := fun m => m.stock.Unrepeated) (fun _ s h => h.after s) hstart todo
  have hsame : firstOccurrences m.patterns = m.patterns := by
    rw [← dropDuplicates_eq]
    exact hend.dropDuplicates_eq_self
  constructor
  · refine (List.pairwise_map.1 hend.distinct).imp ?_
    intro p q hne hrepeats
    exact hne (Pattern.identity_eq_iff.2 hrepeats)
  · rcases Stage.runFrom_duplicates m again with ⟨journal, hrun⟩
    rw [hsame, Nat.sub_self] at hrun
    exact ⟨journal, hrun⟩

end SleighForge
