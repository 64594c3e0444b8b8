import SleighForge.Proofs.Combine.Made

/-!
# Turns

Rounds follow each other until one merges nothing (`Turns`). Whatever the merger makes of the groups
that it is offered, a round claims no place twice and leaves at least one pattern fewer for each
group it merges (`length_settle_add_le`). So rounds come to an end, and if the merger makes no fault
there are no more of them than patterns to begin with (`mergeRounds_counted`).
-/

namespace SleighForge

namespace Combine

variable {ε σ : Type} {kind : OperandKind} {ranking : Ranking} {merger : Merger ε σ}
  {patterns : List Pattern}

/-! ## One round -/

theorem settle_nil (patterns : List Pattern) : settle [] patterns = patterns := by
  rw [settle_eq_filterMap_range]
  calc (List.range patterns.length).filterMap (settledAt? [] patterns)
      = (List.range patterns.length).filterMap (patterns[·]?) :=
        List.filterMap_congr fun i _ => settledAt?_unclaimed List.not_mem_nil
    _ = patterns := filterMap_range_getElem? patterns

/-- The merges of a round claim no place twice, and several places each. -/
theorem disjoint_of_mergeRound {cs : List Candidate}
    (hcs : ∀ c ∈ cs, c ∈ Candidate.all kind patterns) {merges : List Merge} {s t : σ}
    (hrun : runFrom s (mergeRound merger patterns [] cs) = (.ok merges, t)) :
    Disjoint merges patterns ∧ ∀ m ∈ merges, m.others ≠ [] := by
  refine mergeRound_induction
    (I := fun merges _ => Disjoint merges patterns ∧ ∀ m ∈ merges, m.others ≠ []) ?_ ?_ hcs
    ⟨disjoint_nil patterns, by simp⟩ hrun
  · intro merges _ _ position slot others first rest result hkept hoffer _
    refine ⟨hkept.1.append hoffer result, ?_⟩
    intro m hm
    rcases List.mem_append.1 hm with hm | hm
    · exact hkept.2 m hm
    · rw [List.mem_singleton.1 hm]
      rintro rfl
      -- There is one other place for each other member.
      have hlength := congrArg List.length hoffer.gathered.found
      have hrest : rest.length = 0 := by simpa using hlength
      exact hoffer.several (List.length_eq_zero_iff.1 hrest)
  · intro merges _ _ _ _ _ _ _ hkept _ _
    exact hkept

/-- Merges of several patterns each claim two places or more. -/
theorem two_mul_length_le {merges : List Merge} (hothers : ∀ m ∈ merges, m.others ≠ []) :
    2 * merges.length ≤ (claimed merges).length := by
  induction merges with
  | nil => simp
  | cons m merges ih =>
    rw [List.forall_mem_cons] at hothers
    have hpos := List.length_pos_of_ne_nil hothers.1
    have hrest := ih hothers.2
    have hclaimed : claimed (m :: merges) = m.slot :: m.others ++ claimed merges := rfl
    rw [hclaimed, List.length_append, List.length_cons, List.length_cons]
    omega

/-- A round leaves one pattern for each merge, and those that are unclaimed. -/
theorem length_settle {merges : List Merge} (h : Disjoint merges patterns) :
    (settle merges patterns).length = merges.length + (unclaimed merges patterns).length := by
  rw [(settle_perm h).length_eq, List.length_append, List.length_map]

/-- A round leaves at least one pattern fewer for each group that it merges. -/
theorem length_settle_add_le {merges : List Merge} (h : Disjoint merges patterns)
    (hothers : ∀ m ∈ merges, m.others ≠ []) :
    (settle merges patterns).length + merges.length ≤ patterns.length := by
  let free := (List.range patterns.length).filter (· ∉ claimed merges)
  have hclaimed := two_mul_length_le hothers
  have hbefore : patterns.length = (claimed merges).length + free.length := by
    have hperm := h.perm_range.length_eq
    rwa [List.length_range, List.length_append] at hperm
  have hafter := length_settle h
  have hfree : (unclaimed merges patterns).length ≤ free.length := List.length_filterMap_le ..
  omega

/-- A round that merges leaves fewer patterns. -/
theorem length_settle_lt {merges : List Merge} (h : Disjoint merges patterns) (hne : merges ≠ [])
    (hothers : ∀ m ∈ merges, m.others ≠ []) :
    (settle merges patterns).length < patterns.length := by
  have hpos := List.length_pos_of_ne_nil hne
  have hle := length_settle_add_le h hothers
  omega

/-- A round does not merge all patterns away. -/
theorem settle_ne_nil {merges : List Merge} (h : Disjoint merges patterns)
    (hpatterns : patterns ≠ []) : settle merges patterns ≠ [] := by
  cases merges with
  | nil =>
    rw [settle_nil]
    exact hpatterns
  | cons m merges =>
    intro hnil
    have hlength := length_settle h
    rw [hnil, List.length_cons, List.length_nil] at hlength
    omega

/-! ## Rounds in sequence -/

/-- A round that was made. -/
structure Turn where
  /-- The patterns it began with. -/
  patterns : List Pattern
  /-- The groups it merged. -/
  merges : List Merge

/-- A round over the ranked candidates of some patterns comes to merges. -/
def Turn.Made (kind : OperandKind) (ranking : Ranking) (merger : Merger ε σ) (turn : Turn)
    (s t : σ) : Prop :=
  runFrom s (mergeRound merger turn.patterns []
    ((Candidate.all kind turn.patterns).mergeSort ranking)) = (.ok turn.merges, t)

/-- The patterns that a turn leaves. -/
def Turn.left (turn : Turn) : List Pattern :=
  settle turn.merges turn.patterns

/-- The number of groups that turns have merged. -/
def groupCount : List Turn → Nat
  | [] => 0
  | turn :: turns => turn.merges.length + groupCount turns

/-- Turns follow each other, of which only the last merges nothing. The patterns at either end are
those that the turns begin with and those that they leave. -/
inductive Turns (kind : OperandKind) (ranking : Ranking) (merger : Merger ε σ) :
    List Pattern → σ → List Turn → List Pattern → σ → Prop where
  | last {patterns : List Pattern} {s t : σ}
    (hmade : Turn.Made kind ranking merger ⟨patterns, []⟩ s t) :
    Turns kind ranking merger patterns s [⟨patterns, []⟩] patterns t
  | more {turn : Turn} {s t u : σ} {turns : List Turn} {left : List Pattern}
    (hmade : turn.Made kind ranking merger s t) (hmerges : turn.merges ≠ [])
    (hrest : Turns kind ranking merger turn.left t turns left u) :
    Turns kind ranking merger turn.patterns s (turn :: turns) left u

/-- The merges of a turn claim no place twice, and several places each. -/
theorem Turn.Made.disjoint {turn : Turn} {s t : σ} (h : turn.Made kind ranking merger s t) :
    Disjoint turn.merges turn.patterns ∧ ∀ m ∈ turn.merges, m.others ≠ [] :=
  disjoint_of_mergeRound (fun _ => mem_all_of_mem_mergeSort) h

namespace Turns

variable {s u : σ} {turns : List Turn} {left : List Pattern}

/-- No turn merges a pattern in two groups. -/
theorem nodup (h : Turns kind ranking merger patterns s turns left u) :
    ∀ turn ∈ turns, (claimed turn.merges).Nodup := by
  induction h with
  | last hmade =>
    intro turn hturn
    rw [List.mem_singleton.1 hturn]
    exact List.nodup_nil
  | more hmade _ _ ih =>
    intro turn hturn
    rcases List.mem_cons.1 hturn with heq | hturn
    · rw [heq]
      exact hmade.disjoint.1.nodup
    · exact ih turn hturn

theorem ne_nil (h : Turns kind ranking merger patterns s turns left u) : turns ≠ [] := by
  cases h <;> simp

/-- Each turn but the last merges groups, and leaves at least as many patterns fewer. -/
theorem shrinks (h : Turns kind ranking merger patterns s turns left u) :
    ∀ turn ∈ turns.dropLast,
      turn.merges ≠ [] ∧ turn.left.length + turn.merges.length ≤ turn.patterns.length := by
  induction h with
  | last hmade =>
    intro turn hturn
    cases hturn
  | more hmade hmerges hrest ih =>
    intro turn hturn
    rw [List.dropLast_cons_of_ne_nil hrest.ne_nil] at hturn
    rcases List.mem_cons.1 hturn with heq | hturn
    · rw [heq]
      exact ⟨hmerges, length_settle_add_le hmade.disjoint.1 hmade.disjoint.2⟩
    · exact ih turn hturn

/-- All turns but the last merge a group. -/
theorem length_le (h : Turns kind ranking merger patterns s turns left u) :
    turns.length ≤ groupCount turns + 1 := by
  induction h with
  | last hmade => simp
  | @more turn _ _ _ turns _ _ hmerges _ ih =>
    have hpos := List.length_pos_of_ne_nil hmerges
    have hcount : groupCount (turn :: turns) = turn.merges.length + groupCount turns := rfl
    rw [List.length_cons, hcount]
    omega

/-- There is at least one pattern fewer for each group. -/
theorem groupCount_add_le (h : Turns kind ranking merger patterns s turns left u) :
    groupCount turns + left.length ≤ patterns.length := by
  induction h with
  | last hmade => simp [groupCount]
  | @more turn _ _ _ turns _ hmade _ _ ih =>
    have hround := length_settle_add_le hmade.disjoint.1 hmade.disjoint.2
    have hcount : groupCount (turn :: turns) = turn.merges.length + groupCount turns := rfl
    have hleft : turn.left.length = (settle turn.merges turn.patterns).length := rfl
    omega

/-- Turns do not merge all patterns away. -/
theorem left_ne_nil (h : Turns kind ranking merger patterns s turns left u)
    (hpatterns : patterns ≠ []) : left ≠ [] := by
  induction h with
  | last hmade => exact hpatterns
  | more hmade _ _ ih => exact ih (settle_ne_nil hmade.disjoint.1 hpatterns)

end Turns

/-- Rounds that end well are turns. That a next one is made only if the last has left fewer
patterns, comes to the same as that the last has merged something. -/
theorem turns_of_mergeRounds {now done : Progress} {s u : σ}
    (hrun : runFrom s (mergeRounds kind ranking merger now) = (.ok done, u)) :
    ∃ turns, Turns kind ranking merger now.patterns s turns done.patterns u ∧
      done.groups = now.groups + groupCount turns ∧ done.rounds = now.rounds + turns.length := by
  -- The loop goes on only if a turn has shortened the list, so its length is the measure.
  induction hn : now.patterns.length using Nat.strongRecOn generalizing now s with
  | ind n ih =>
    rw [mergeRounds, runFrom_bind_eq_ok] at hrun
    obtain ⟨merges, t, hround, hrun⟩ := hrun
    have hmade : Turn.Made kind ranking merger ⟨now.patterns, merges⟩ s t := hround
    obtain ⟨hdisjoint, hothers⟩ := hmade.disjoint
    dsimp only at hrun hdisjoint hothers
    split at hrun
    · next hlt =>
      obtain ⟨turns, hturns, hgroups, hrounds⟩ := ih _ (hn ▸ hlt) hrun rfl
      have hmerges : merges ≠ [] := by
        rintro rfl
        rw [settle_nil] at hlt
        exact absurd hlt (Nat.lt_irrefl _)
      refine ⟨_, .more hmade hmerges hturns, ?_, ?_⟩
      · have hcount : groupCount (⟨now.patterns, merges⟩ :: turns) =
          merges.length + groupCount turns := rfl
        rw [hcount, hgroups, Nat.add_assoc]
      · rw [hrounds, List.length_cons]
        dsimp only
        omega
    · next hge =>
      rw [runFrom_pure] at hrun
      cases hrun
      -- A turn that has not shortened the list has merged nothing: it is the last one.
      have hmerges : merges = [] := by
        apply Classical.byContradiction
        intro hne
        exact hge (length_settle_lt hdisjoint hne hothers)
      subst hmerges
      dsimp only
      rw [settle_nil]
      exact ⟨_, .last hmade, rfl, rfl⟩

/-- What the counts of some rounds say of the turns they were made in. -/
structure Counted (patterns : List Pattern) (turns : List Turn) (done : Progress) : Prop where
  rounds_eq : done.rounds = turns.length
  groups_eq : done.groups = groupCount turns
  /-- No turn merges a pattern in two groups. -/
  nodup : ∀ turn ∈ turns, (claimed turn.merges).Nodup
  /-- Each turn but the last leaves at least as many patterns fewer as it merges groups. -/
  shrinks : ∀ turn ∈ turns.dropLast,
    turn.merges ≠ [] ∧ turn.left.length + turn.merges.length ≤ turn.patterns.length
  rounds_le : done.rounds ≤ done.groups + 1
  groups_le : done.groups + done.patterns.length ≤ patterns.length
  ne_nil : patterns ≠ [] → done.patterns ≠ []
  rounds_le_length : patterns ≠ [] → done.rounds ≤ patterns.length
  one_round : patterns = [] → done.rounds = 1

/-- The counts of turns go together. -/
theorem Turns.counted {s u : σ} {turns : List Turn} {done : Progress}
    (h : Turns kind ranking merger patterns s turns done.patterns u)
    (hgroups : done.groups = groupCount turns) (hrounds : done.rounds = turns.length) :
    Counted patterns turns done := by
  have hlength := h.length_le
  have hcount := h.groupCount_add_le
  have hpos := List.length_pos_of_ne_nil h.ne_nil
  refine ⟨hrounds, hgroups, h.nodup, h.shrinks, ?_, ?_, h.left_ne_nil, ?_, ?_⟩
  · omega
  · omega
  · intro hpatterns
    have hleft := List.length_pos_of_ne_nil (h.left_ne_nil hpatterns)
    omega
  · intro hpatterns
    rw [hpatterns, List.length_nil] at hcount
    omega

/-- Rounds come to an end, for every merger. Either they end well, and then they are turns whose
counts go together, or they end at a fault that the merger makes of a group that it is offered. -/
theorem mergeRounds_counted (kind : OperandKind) (ranking : Ranking) (merger : Merger ε σ)
    (patterns : List Pattern) (s : σ) :
    (∃ turns done u,
      runFrom s (mergeRounds kind ranking merger ⟨patterns, 0, 0⟩) = (.ok done, u) ∧
      Turns kind ranking merger patterns s turns done.patterns u ∧
      Counted patterns turns done) ∨
    ∃ fault u, runFrom s (mergeRounds kind ranking merger ⟨patterns, 0, 0⟩) = (.error fault, u) ∧
      ∃ t before merges position slot others first rest,
        Offer kind before merges position slot others first rest ∧
        runFrom t (merger first rest position (foreignWords before (slot :: others))) =
          (.error fault, u) := by
  rcases hrun : runFrom s (mergeRounds kind ranking merger ⟨patterns, 0, 0⟩) with ⟨fault | done, u⟩
  · exact .inr ⟨fault, u, rfl, mergeRounds_fault hrun⟩
  · obtain ⟨turns, hturns, hgroups, hrounds⟩ := turns_of_mergeRounds hrun
    rw [Nat.zero_add] at hgroups hrounds
    exact .inl ⟨turns, done, u, rfl, hturns, hturns.counted hgroups hrounds⟩

/-- Moves for examples. The first two differ in their first registers only. -/
def registerMoves : List Pattern :=
  [.concrete "MOV" [.register "r0", .register "r2"] (byteWord 16) 0,
   .concrete "MOV" [.register "r1", .register "r2"] (byteWord 17) 1,
   .concrete "MOV" [.register "r3"] (byteWord 18) 2]

/-- A second round finds nothing to merge in what the first has left. -/
theorem mergeRounds_counted_registerMoves :
    ∃ turns done u,
      runFrom {} (mergeRounds .register .longestShared registerMerger ⟨registerMoves, 0, 0⟩) =
        (.ok done, u) ∧
      Turns .register .longestShared registerMerger registerMoves {} turns done.patterns u ∧
      Counted registerMoves turns done ∧
      done.rounds = 2 ∧ done.groups = 1 ∧ done.patterns.length = 2 := by
  have hcounts : (runFrom {} (mergeRounds .register .longestShared registerMerger
        ⟨registerMoves, 0, 0⟩)).1.toOption.map
      (fun done => (done.rounds, done.groups, done.patterns.length)) = some (2, 1, 2) := by
    decide +kernel
  rcases mergeRounds_counted .register .longestShared registerMerger registerMoves {} with
    ⟨turns, done, u, hrun, hturns, hcounted⟩ | ⟨fault, u, hrun, -⟩
  · rw [hrun] at hcounts
    simp only [Except.toOption, Option.map_some, Option.some.injEq, Prod.mk.injEq] at hcounts
    exact ⟨turns, done, u, hrun, hturns, hcounted, hcounts⟩
  · rw [hrun] at hcounts
    cases hcounts

end Combine

end SleighForge
