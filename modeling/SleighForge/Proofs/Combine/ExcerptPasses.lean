import SleighForge.Proofs.Combine.ExcerptRounds

/-!
# Passes over an excerpt

A pass over a list does to the patterns of the widths that are kept what it does to an excerpt of
them (`runPass_excerpt`). The list may take more rounds than the excerpt. As a round that merges
nothing is followed by rounds that merge nothing, the rounds that the excerpt does not make would
leave it as it is. A pass that fails over the list fails over every excerpt that has some one width
(`runPass_excerpt_fault`).
-/

namespace SleighForge

namespace Combine

variable {keep : Nat → Bool} {g : Int → Int} {ts us : Tables} {patterns excerpt : List Pattern}
  {kind : OperandKind} {merges merges' : List Merge}

/-! ## After a round -/

/-- At matching places there are twins after the round, or nothing. -/
theorem settle?_rel (h : RoundExcerpt keep g patterns excerpt ts us merges merges')
    {p q : Pattern} {i j : Nat} (hpq : p.Twin g ts us q) (hij : Matches keep patterns i j) :
    Option.Rel (Pattern.Twin g ts us) (settle? merges p i) (settle? merges' q j) := by
  rcases hij.getElem? with ⟨p', hp', hkeep⟩
  -- A merge at the slot `i` is as wide as the pattern there, so the filter keeps it.
  have hfind : (merges.filter fun m => keep m.result.width).find? (·.slot = i) =
      merges.find? (·.slot = i) := by
    refine find?_filter_of fun m hm hslot => ?_
    have heq : m.slot = i := of_decide_eq_true hslot
    rcases h.uniform m hm i (heq ▸ List.mem_cons_self ..) with ⟨p'', hp'', hwidth⟩
    rw [hp', Option.some.injEq] at hp''
    rw [← hwidth, ← hp'', hkeep]
  have hslot : Option.Rel (MergeTwin keep g ts us patterns) (merges.find? (·.slot = i))
      (merges'.find? (·.slot = j)) := by
    rw [← hfind]
    refine find?_rel h.made fun m n hmn => ?_
    have hiff := Relator.rel_eq (matches_biUnique keep patterns) hmn.slot hij
    simpa using hiff
  unfold settle?
  rcases optionRel_cases hslot with ⟨hm, hn⟩ | ⟨m, n, hm, hn, hmn⟩
  · rw [hm, hn]
    dsimp only
    rw [if_congr (h.claimed_iff hij) rfl rfl]
    split
    · exact .none
    · exact .some hpq
  · rw [hm, hn]
    exact .some hmn.result

/-- What is at a place after the round is as wide as what was there before. -/
theorem width_of_settle? (h : RoundExcerpt keep g patterns excerpt ts us merges merges')
    {p q : Pattern} {i : Nat} (hp : patterns[i]? = some p) (hq : settle? merges p i = some q) :
    q.width = p.width := by
  unfold settle? at hq
  cases hfind : merges.find? (·.slot = i) with
  | some m =>
    rw [hfind] at hq
    cases hq
    have heq : m.slot = i := by simpa using List.find?_some hfind
    rcases h.uniform m (List.mem_of_find?_eq_some hfind) i (heq ▸ List.mem_cons_self ..) with
      ⟨p', hp', hwidth⟩
    rw [hp, Option.some.injEq] at hp'
    rw [hp', hwidth]
  | none =>
    rw [hfind] at hq
    dsimp only at hq
    split at hq
    · cases hq
    · cases hq
      rfl

/-- After the round the excerpt is one of the patterns after the round. -/
theorem settle_excerpt (h : RoundExcerpt keep g patterns excerpt ts us merges merges') :
    Excerpt keep g ts us (settle merges patterns) (settle merges' excerpt) := by
  refine ⟨h.left, h.right, ?_⟩
  have hfilter : (settle merges patterns).filter (fun p => keep p.width) =
      (keptPlaces keep patterns).filterMap fun x => settle? merges x.1 x.2 := by
    refine filter_filterMap_of fun x hx q hq => ?_
    rw [List.mem_zipIdx_iff_getElem?] at hx
    rw [width_of_settle? h hx hq]
  rw [hfilter]
  exact List.rel_filterMap (fun x y hxy => settle?_rel h hxy.1 hxy.2) h.places

/-! ## Rounds -/

/-- At the start of a round nothing is merged on either side. -/
theorem roundStart (h : Excerpt keep g ts us patterns excerpt) :
    RoundExcerpt keep g patterns excerpt ts us [] [] where
  __ := h
  made := .nil
  uniform _ hm := absurd hm List.not_mem_nil

/-- A round that leaves fewer patterns has merged some. -/
theorem settle_lt_iff {cs : List Candidate} (hcs : ∀ c ∈ cs, c ∈ Candidate.all kind patterns)
    {b b' : Bench}
    (hrun : runFrom b (mergeRound (mergerOf kind) patterns [] cs) = (.ok merges, b')) :
    (settle merges patterns).length < patterns.length ↔ merges ≠ [] := by
  constructor
  · rintro hlt rfl
    rw [settle_nil] at hlt
    exact Nat.lt_irrefl _ hlt
  · intro hne
    rcases disjoint_of_mergeRound hcs hrun with ⟨hdisjoint, hothers⟩
    exact length_settle_lt hdisjoint hne hothers

/-- After a round that has merged nothing, rounds merge nothing. -/
theorem mergeRounds_of_mergeRound_nil {ranking : Ranking} {now : Progress} {b b' : Bench}
    (hrun : runFrom b (mergeRound (mergerOf kind) now.patterns []
      ((Candidate.all kind now.patterns).mergeSort ranking)) = (.ok [], b')) (c : Bench) :
    ∃ journal, runFrom c (mergeRounds kind ranking (mergerOf kind) now) =
      (.ok ⟨now.patterns, now.groups, now.rounds + 1⟩, { c with journal }) := by
  have hidle := idle_of_mergeRound (fun _ => mem_all_of_mem_mergeSort) hrun
  exact mergeRounds_of_idle now (fun d hd => hidle d (List.mem_mergeSort.2 hd)) ranking c

/-- Rounds over a list do to the patterns that are kept what rounds over the excerpt do. -/
theorem mergeRounds_excerpt (kind : OperandKind) {ranking : Ranking}
    (hranking : ranking.Respects keep g)
    {now now' done : Progress} {b b₁ b' : Bench}
    (h : Excerpt keep g b.tables b'.tables now.patterns now'.patterns)
    (hrun : runFrom b (mergeRounds kind ranking (mergerOf kind) now) = (.ok done, b₁)) :
    ∃ done' b₁', runFrom b' (mergeRounds kind ranking (mergerOf kind) now') = (.ok done', b₁') ∧
      Excerpt keep g b₁.tables b₁'.tables done.patterns done'.patterns := by
  -- On the number of patterns of the list, which makes as many rounds as the excerpt or more.
  induction hn : now.patterns.length using Nat.strongRecOn generalizing now now' b b' with
  | ind n ih =>
    rw [mergeRounds, runFrom_bind_eq_ok] at hrun
    rcases hrun with ⟨merges, b₂, hround, hrun⟩
    have hranked := hranking kind now.patterns _ (forall₂_all h kind)
    rcases mergeRound_excerpt (fun _ => mem_all_of_mem_mergeSort) hranked (roundStart h) hround with
      ⟨merges', b₂', hround', hmerges⟩
    have hnext := settle_excerpt hmerges
    have hlt := settle_lt_iff (fun _ => mem_all_of_mem_mergeSort) hround
    have hlt' := settle_lt_iff (fun _ => mem_all_of_mem_mergeSort) hround'
    dsimp only at hrun
    rw [mergeRounds, runFrom_bind, hround']
    dsimp only
    by_cases hmore' : merges' = []
    · -- The excerpt has come to its end. Were it to go on with the list, it would stay as it is.
      rw [dif_neg (mt hlt'.1 (not_not.2 hmore'))]
      subst hmore'
      rw [settle_nil] at hnext ⊢
      split at hrun
      · next hmore =>
        let next' : Progress := ⟨now'.patterns, now'.groups + 0, now'.rounds + 1⟩
        have hnext' : Excerpt keep g b₂.tables b₂'.tables (settle merges now.patterns)
            next'.patterns := hnext
        rcases ih _ (hn ▸ hmore) hnext' hrun rfl with ⟨done', b₁', hrest, hdone⟩
        rcases mergeRounds_of_mergeRound_nil (show runFrom b' (mergeRound (mergerOf kind)
          next'.patterns [] _) = _ from hround') b₂' with ⟨journal, hstay⟩
        rw [hstay] at hrest
        cases hrest
        exact ⟨_, b₂', rfl, hdone⟩
      · rw [runFrom_pure] at hrun
        cases hrun
        exact ⟨_, b₂', rfl, hnext⟩
    · have hmore : merges ≠ [] := by
        rintro rfl
        cases hmerges.made
        exact hmore' rfl
      rw [dif_pos (hlt.2 hmore)] at hrun
      rw [dif_pos (hlt'.2 hmore')]
      exact ih _ (hn ▸ hlt.2 hmore) hnext hrun rfl

/-- A pattern after a round is as wide as one before it. -/
theorem exists_width_of_mem_settle (hr : Round patterns ts us merges) {q : Pattern}
    (hq : q ∈ settle merges patterns) : ∃ p ∈ patterns, p.width = q.width := by
  rcases hr.cases_of_mem_settle hq with ⟨m, kind, position, first, rest, f, rfl, hmade⟩ | ⟨i, hi⟩
  · exact ⟨first, List.mem_of_getElem? hmade.first_eq,
      (hmade.merged.width_eq hmade.gathered.group (List.mem_cons_self ..)).symm⟩
  · exact ⟨q, List.mem_of_getElem? hi, rfl⟩

/-- Rounds that fail over a list fail over every excerpt that has some one width. -/
theorem mergeRounds_excerpt_fault (kind : OperandKind) {ranking : Ranking} {now : Progress}
    {b b₁ : Bench} {e : CombineFault} (hb : b.tables.Numbered)
    (hrun : runFrom b (mergeRounds kind ranking (mergerOf kind) now) = (.error e, b₁)) :
    ∃ p ∈ now.patterns, ∀ (keep : Nat → Bool) (g : Int → Int) (now' : Progress) (b' : Bench),
      keep p.width = true → ranking.Respects keep g →
      Excerpt keep g b.tables b'.tables now.patterns now'.patterns →
      ∃ b₁', runFrom b' (mergeRounds kind ranking (mergerOf kind) now') =
        (.error (e.reindex g), b₁') := by
  induction hn : now.patterns.length using Nat.strongRecOn generalizing now b with
  | ind n ih =>
    rw [mergeRounds, runFrom_bind_eq_error] at hrun
    rcases hrun with hround | ⟨merges, b₂, hround, hrun⟩
    · rcases mergeRound_excerpt_fault (fun _ => mem_all_of_mem_mergeSort) hround with ⟨p, hp, hall⟩
      refine ⟨p, hp, fun keep g now' b' hkeep hranking h => ?_⟩
      have hranked := hranking kind now.patterns _ (forall₂_all h kind)
      rcases hall keep g now'.patterns _ b' [] hkeep hranked (roundStart h) with ⟨b₁', hround'⟩
      exact ⟨b₁', by rw [mergeRounds, runFrom_bind, hround']⟩
    · dsimp only at hrun
      split at hrun
      · next hlt =>
        have hr := round_of_mergeRound (fun _ => mem_all_of_mem_mergeSort) hb hround
        rcases ih _ (hn ▸ hlt) hr.grown.numbered hrun rfl with ⟨q, hq, hall⟩
        rcases exists_width_of_mem_settle hr hq with ⟨p, hp, hwidth⟩
        refine ⟨p, hp, fun keep g now' b' hkeep hranking h => ?_⟩
        have hranked := hranking kind now.patterns _ (forall₂_all h kind)
        rcases mergeRound_excerpt (fun _ => mem_all_of_mem_mergeSort) hranked (roundStart h) hround
          with ⟨merges', b₂', hround', hmerges⟩
        have hnext := settle_excerpt hmerges
        let next' : Progress :=
          ⟨settle merges' now'.patterns, now'.groups + merges'.length, now'.rounds + 1⟩
        rcases hall keep g next' b₂' (hwidth ▸ hkeep) hranking hnext with ⟨b₁', hrest⟩
        refine ⟨b₁', ?_⟩
        rw [mergeRounds, runFrom_bind, hround']
        dsimp only
        split
        · exact hrest
        · next hstop =>
          -- Were the excerpt at its end, it would stay as it is, and not fail with the list.
          rw [settle_lt_iff (fun _ => mem_all_of_mem_mergeSort) hround', not_not] at hstop
          subst hstop
          have hsame : next'.patterns = now'.patterns := settle_nil now'.patterns
          rw [← hsame] at hround'
          rcases mergeRounds_of_mergeRound_nil hround' b₂' with ⟨journal, hstay⟩
          rw [hstay] at hrest
          cases hrest
      · cases hrun

/-! ## Passes -/

/-- Dropping repeats leaves an excerpt of what it leaves of the whole. -/
theorem dropDuplicates_excerpt (h : Excerpt keep g ts us patterns excerpt) :
    Excerpt keep g ts us (dropDuplicates patterns) (dropDuplicates excerpt) := by
  refine ⟨h.left, h.right, ?_⟩
  have hwidth : ∀ p q : Pattern, p.identity = q.identity → keep p.width = keep q.width := by
    intro p q hid
    have henc : p.encoding = q.encoding := congrArg Pattern.Identity.encoding hid
    rw [Pattern.width, Pattern.width, henc]
  rw [dropDuplicates, filter_distinctBy hwidth]
  exact forall₂_distinctBy (fun _ _ _ _ hpq hpq' => hpq.identity_eq_iff h.left h.right hpq') h.twins

/-- A pass over a list does to the patterns that are kept what a pass over the excerpt does. -/
theorem runPass_excerpt {pass : Pass} {ranking : Ranking} (hranking : ranking.Respects keep g)
    {patterns' : List Pattern} {stats : PassStats} {b b₁ b' : Bench}
    (h : Excerpt keep g b.tables b'.tables patterns excerpt)
    (hrun : runFrom b (runPass pass ranking patterns) = (.ok (patterns', stats), b₁)) :
    ∃ excerpt' stats' b₁',
      runFrom b' (runPass pass ranking excerpt) = (.ok (excerpt', stats'), b₁') ∧
      Excerpt keep g b₁.tables b₁'.tables patterns' excerpt' := by
  rcases runPass_cases pass with rfl | ⟨kind, heq⟩
  · cases hrun
    exact ⟨_, _, b', rfl, dropDuplicates_excerpt h⟩
  · rw [heq] at hrun
    rcases runFrom_bind_eq_ok.1 hrun with ⟨done, c, hrounds, hrun⟩
    cases hrun
    have hstart : Excerpt keep g b.tables b'.tables (Progress.mk patterns 0 0).patterns
      (Progress.mk excerpt 0 0).patterns := h
    rcases mergeRounds_excerpt kind hranking hstart hrounds with ⟨done', b₁', hrounds', hdone⟩
    rw [heq]
    exact ⟨done'.patterns, _, b₁', runFrom_bind_eq_ok.2 ⟨done', b₁', hrounds', rfl⟩, hdone⟩

/-- A pass that fails over a list fails over every excerpt that has some one width. -/
theorem runPass_excerpt_fault {pass : Pass} {ranking : Ranking} {b b₁ : Bench} {e : CombineFault}
    (hb : b.tables.Numbered) (hrun : runFrom b (runPass pass ranking patterns) = (.error e, b₁)) :
    ∃ p ∈ patterns, ∀ (keep : Nat → Bool) (g : Int → Int) (excerpt : List Pattern) (b' : Bench),
      keep p.width = true → ranking.Respects keep g →
      Excerpt keep g b.tables b'.tables patterns excerpt →
      ∃ b₁', runFrom b' (runPass pass ranking excerpt) = (.error (e.reindex g), b₁') := by
  rcases runPass_cases pass with rfl | ⟨kind, heq⟩
  · cases hrun
  · rw [heq, runFrom_bind_eq_error] at hrun
    rcases hrun with hrounds | ⟨done, c, -, hrun⟩
    · rcases mergeRounds_excerpt_fault kind hb hrounds with ⟨p, hp, hall⟩
      refine ⟨p, hp, fun keep g excerpt b' hkeep hranking h => ?_⟩
      rcases hall keep g ⟨excerpt, 0, 0⟩ b' hkeep hranking h with ⟨b₁', hrounds'⟩
      rw [heq]
      exact ⟨b₁', runFrom_bind_eq_error.2 (.inl hrounds')⟩
    · cases hrun

end Combine

end SleighForge
