import SleighForge.Proofs.Model.Recovery

/-!
# Patterns stay in the order of the source

Dropping repeats, merging and numbering leave the patterns in the order of the source (`Ordered`).
What becomes of the patterns is told by a map from the old ones to the new ones (`Folds`): the
position of a new pattern, and its first example, are those of the first pattern that is folded into
it. Over a run of steps the old patterns are the instructions (`source_order_kept`).
-/

namespace SleighForge

/-- The patterns are in the order of their positions in the source. -/
def Ordered (patterns : List Pattern) : Prop :=
  patterns.Pairwise fun p q => p.index < q.index

namespace Ordered

variable {patterns : List Pattern} {p q : Pattern}

theorem sublist (h : Ordered patterns) {fewer : List Pattern} (hs : fewer.Sublist patterns) :
    Ordered fewer :=
  List.Pairwise.sublist hs h

theorem mapTable (h : Ordered patterns) (g : Int → Int) :
    Ordered (patterns.map (Pattern.mapTable g)) :=
  List.pairwise_map.2 h

/-- Of two patterns the earlier one has the lower position. -/
theorem index_lt (h : Ordered patterns) {i j : Nat} (hi : patterns[i]? = some p)
    (hj : patterns[j]? = some q) (hlt : i < j) : p.index < q.index := by
  rcases List.getElem?_eq_some_iff.1 hi with ⟨hi', rfl⟩
  rcases List.getElem?_eq_some_iff.1 hj with ⟨hj', rfl⟩
  exact List.pairwise_iff_getElem.1 h i j hi' hj' hlt

end Ordered

namespace Combine

/-- The members of a group come in the order of the source. -/
theorem Made.ordered {ts : Tables} {patterns : List Pattern} {m : Merge} {kind : OperandKind}
    {position : Nat} {first : Pattern} {rest : List Pattern} {f : BitField}
    (h : Made ts patterns m kind position first rest f) (ho : Ordered patterns) :
    Ordered (first :: rest) := by
  rw [← h.members_eq, Merge.members, Ordered, List.pairwise_filterMap]
  exact h.gathered.ascending.imp fun hlt p hp q hq => ho.index_lt hp hq hlt

/-- The result of a merge has the position of its first member. -/
theorem Made.index_eq {ts : Tables} {patterns : List Pattern} {m : Merge} {kind : OperandKind}
    {position : Nat} {first : Pattern} {rest : List Pattern} {f : BitField}
    (h : Made ts patterns m kind position first rest f) : m.result.index = first.index := by
  rw [h.merged.eq]
  rfl

section

variable {patterns : List Pattern} {ts ts' : Tables} {merges : List Merge}

/-- What is at a place after a round has the position in the source of what was there before. -/
theorem Round.exists_of_settledAt? (h : Round patterns ts ts' merges) {i : Nat} {q : Pattern}
    (hq : settledAt? merges patterns i = some q) :
    ∃ p, patterns[i]? = some p ∧ q.index = p.index := by
  by_cases hi : i ∈ claimed merges
  · rcases mem_claimed.1 hi with ⟨m, hm, him⟩
    rcases List.mem_cons.1 him with rfl | hother
    · rcases h.made m hm with ⟨kind, position, first, rest, f, hmade⟩
      rw [settledAt?_slot h.disjoint hm, Option.some.injEq] at hq
      exact ⟨first, hmade.first_eq, hq ▸ hmade.index_eq⟩
    · rw [settledAt?_other h.disjoint hm hother] at hq
      cases hq
  · rw [settledAt?_unclaimed hi] at hq
    exact ⟨q, hq, rfl⟩

end

end Combine

/-- A round leaves the patterns in order, since results stand where first members stood. -/
theorem Ordered.settle {patterns : List Pattern} {ts ts' : Tables} {merges : List Combine.Merge}
    (h : Ordered patterns) (hr : Combine.Round patterns ts ts' merges) :
    Ordered (Combine.settle merges patterns) := by
  rw [Combine.settle_eq_filterMap_range, Ordered, List.pairwise_filterMap]
  refine List.pairwise_lt_range.imp fun {i j} hlt q hq q' hq' => ?_
  rcases hr.exists_of_settledAt? hq with ⟨p, hp, hindex⟩
  rcases hr.exists_of_settledAt? hq' with ⟨p', hp', hindex'⟩
  rw [hindex, hindex']
  exact h.index_lt hp hp' hlt

/-- A change leaves the patterns in order. -/
theorem Ordered.change {s s' : Stock} (h : Ordered s.patterns) (hc : Stock.Change s s') :
    Ordered s'.patterns := by
  cases hc with
  | dropped => exact h.sublist (Combine.dropDuplicates_sublist _)
  | merged hr => exact h.settle hr
  | numbered _ => exact h.mapTable _

theorem Ordered.changes {s s' : Stock} (h : Ordered s.patterns) (hc : Stock.Changes s s') :
    Ordered s'.patterns := by
  induction hc with
  | refl => exact h
  | tail _ hstep ih => exact ih.change hstep

/-- The list as it is read is in order. -/
theorem ordered_instructions {instructions : List Instruction}
    (h : instructions.Pairwise fun i j => i.index < j.index) :
    Ordered (instructions.map Instruction.pattern) :=
  List.pairwise_map.2 h

/-! ## Folding -/

/-- Each pattern of the one stock is folded into one of the other, which stands for all that the
former stands for and comes no later. A pattern has its examples from those that are folded into it,
and its position in the source and its first example from one of them. -/
structure Folds (s s' : Stock) (into : Pattern → Pattern) : Prop where
  mem : ∀ p ∈ s.patterns, into p ∈ s'.patterns
  recovers : ∀ p ∈ s.patterns, ∀ i, RecoveredFrom s.tables p i → RecoveredFrom s'.tables (into p) i
  index_le : ∀ p ∈ s.patterns, (into p).index ≤ p.index
  held : ∀ q ∈ s'.patterns, ∀ e ∈ q.examples, ∃ p ∈ s.patterns, into p = q ∧ e ∈ p.examples
  first : ∀ q ∈ s'.patterns, ∃ p ∈ s.patterns, into p = q ∧ q.index = p.index ∧
    q.examples.head? = p.examples.head?

namespace Folds

variable {s s' s'' : Stock}

theorem refl (s : Stock) : Folds s s fun p => p where
  mem _ hp := hp
  recovers _ _ _ h := h
  index_le _ _ := Int.le_refl _
  held q hq _ he := ⟨q, hq, rfl, he⟩
  first q hq := ⟨q, hq, rfl, rfl, rfl⟩

/-- What is folded in two changes is folded in both together. -/
theorem trans {into into' : Pattern → Pattern} (h : Folds s s' into) (h' : Folds s' s'' into') :
    Folds s s'' fun p => into' (into p) where
  mem p hp := h'.mem _ (h.mem p hp)
  recovers p hp i hrec := h'.recovers _ (h.mem p hp) i (h.recovers p hp i hrec)
  index_le p hp := Int.le_trans (h'.index_le _ (h.mem p hp)) (h.index_le p hp)
  held r hr e he := by
    rcases h'.held r hr e he with ⟨q, hq, hinto', he⟩
    rcases h.held q hq e he with ⟨p, hp, hinto, he⟩
    exact ⟨p, hp, by rw [hinto, hinto'], he⟩
  first r hr := by
    rcases h'.first r hr with ⟨q, hq, hinto', hindex', hhead'⟩
    rcases h.first q hq with ⟨p, hp, hinto, hindex, hhead⟩
    exact ⟨p, hp, by rw [hinto, hinto'], hindex'.trans hindex, hhead'.trans hhead⟩

theorem examples_ne_nil {into : Pattern → Pattern} (h : Folds s s' into)
    (hs : ∀ p ∈ s.patterns, p.examples ≠ []) : ∀ q ∈ s'.patterns, q.examples ≠ [] := by
  intro q hq heq
  rcases h.first q hq with ⟨p, hp, -, -, hhead⟩
  rw [heq, List.head?_nil, eq_comm, List.head?_eq_none_iff] at hhead
  exact hs p hp hhead

/-! ### Dropping repeats -/

/-- Of repeats, the first stays. -/
def keeperOf (patterns : List Pattern) (p : Pattern) : Pattern :=
  ((Combine.dropDuplicates patterns).find? (·.identity = p.identity)).getD p

/-- Every pattern has a keeper, which is the same instruction and not later in the list. -/
theorem keeperOf_spec {patterns : List Pattern} (h : Ordered patterns) {p : Pattern}
    (hp : p ∈ patterns) : keeperOf patterns p ∈ Combine.dropDuplicates patterns ∧
      (keeperOf patterns p).identity = p.identity ∧ (keeperOf patterns p).index ≤ p.index := by
  have hnodup : ((Combine.dropDuplicates patterns).map Pattern.identity).Nodup :=
    nodup_map_distinctBy _ _
  rcases exists_mem_distinctBy (f := Pattern.identity) h hp with ⟨q, hq, hid, hle⟩
  have hkeeper : keeperOf patterns p = q := by
    unfold keeperOf
    cases hfind : (Combine.dropDuplicates patterns).find? (·.identity = p.identity) with
    | none => simpa [hid] using List.find?_eq_none.1 hfind q hq
    | some q' =>
      have hid' : q'.identity = p.identity := by simpa using List.find?_some hfind
      exact List.inj_on_of_nodup_map hnodup (List.mem_of_find?_eq_some hfind) hq
        (hid'.trans hid.symm)
  rw [hkeeper]
  refine ⟨hq, hid, ?_⟩
  rcases hle with rfl | hlt
  · exact Int.le_refl _
  · exact Int.le_of_lt hlt

/-- A pattern that is kept keeps itself. -/
theorem keeperOf_eq_self {patterns : List Pattern} (h : Ordered patterns) {p : Pattern}
    (hp : p ∈ Combine.dropDuplicates patterns) : keeperOf patterns p = p := by
  have hnodup : ((Combine.dropDuplicates patterns).map Pattern.identity).Nodup :=
    nodup_map_distinctBy _ _
  rcases keeperOf_spec h ((Combine.dropDuplicates_sublist patterns).subset hp) with ⟨hmem, hid, -⟩
  exact List.inj_on_of_nodup_map hnodup hmem hp hid

/-- Dropping repeats folds each pattern into its keeper. -/
theorem dropped (ho : Ordered s.patterns) (hw : Owned s.patterns) :
    Folds s ⟨Combine.dropDuplicates s.patterns, s.tables⟩ (keeperOf s.patterns) := by
  have hsub := Combine.dropDuplicates_sublist s.patterns
  refine ⟨fun p hp => (keeperOf_spec ho hp).1, ?_, fun p hp => (keeperOf_spec ho hp).2.2, ?_, ?_⟩
  · intro p hp i hrec
    rcases keeperOf_spec ho hp with ⟨hmem, hid, -⟩
    exact hrec.of_identity hw hp (hsub.subset hmem) hid.symm
  · intro q hq e he
    exact ⟨q, hsub.subset hq, keeperOf_eq_self ho hq, he⟩
  · intro q hq
    exact ⟨q, hsub.subset hq, keeperOf_eq_self ho hq, rfl, rfl⟩

/-! ### Merging -/

/-- A member of a merge is folded into its result. -/
def resultOf (merges : List Combine.Merge) (patterns : List Pattern) (p : Pattern) : Pattern :=
  ((merges.find? fun m => p ∈ m.members patterns).map Combine.Merge.result).getD p

section

variable {patterns : List Pattern} {ts ts' : Tables} {merges : List Combine.Merge}

/-- A member is folded into the result of its merge. -/
theorem resultOf_member (ho : Ordered patterns) (hr : Combine.Round patterns ts ts' merges)
    {m : Combine.Merge} (hm : m ∈ merges) {p : Pattern} (hp : p ∈ m.members patterns) :
    resultOf merges patterns p = m.result := by
  unfold resultOf
  cases hfind : merges.find? fun m => p ∈ m.members patterns with
  | none => simpa [hp] using List.find?_eq_none.1 hfind m hm
  | some m' =>
    have hp' : p ∈ m'.members patterns := by simpa using List.find?_some hfind
    rcases List.mem_filterMap.1 hp with ⟨i, hi, hpi⟩
    rcases List.mem_filterMap.1 hp' with ⟨j, hj, hpj⟩
    -- A pattern has one place only, or its position would be less than itself.
    have hij : i = j := by
      rcases Nat.lt_trichotomy i j with hlt | heq | hlt
      · exact absurd (ho.index_lt hpi hpj hlt) (Int.lt_irrefl _)
      · exact heq
      · exact absurd (ho.index_lt hpj hpi hlt) (Int.lt_irrefl _)
    have hmm : m' = m := hr.disjoint.eq_of_mem_slots (List.mem_of_find?_eq_some hfind) hm
      (hij ▸ hj) hi
    rw [hmm]
    rfl

/-- An unclaimed pattern stays what it is. -/
theorem resultOf_unclaimed (ho : Ordered patterns) {i : Nat} {p : Pattern}
    (hp : patterns[i]? = some p) (hi : i ∉ Combine.claimed merges) :
    resultOf merges patterns p = p := by
  unfold resultOf
  have hnone : merges.find? (fun m => p ∈ m.members patterns) = none := by
    apply List.find?_eq_none.2
    intro m hm
    simp only [decide_eq_true_eq]
    intro hmem
    rcases List.mem_filterMap.1 hmem with ⟨j, hj, hpj⟩
    have hij : i ≠ j := fun heq => hi (heq ▸ Combine.mem_claimed.2 ⟨m, hm, hj⟩)
    rcases Nat.lt_or_gt_of_ne hij with hlt | hlt
    · exact Int.lt_irrefl _ (ho.index_lt hp hpj hlt)
    · exact Int.lt_irrefl _ (ho.index_lt hpj hp hlt)
  rw [hnone]
  rfl

/-- A pattern is a member of a merge and folded into its result, or stays as it is. -/
theorem resultOf_cases (ho : Ordered patterns) (hr : Combine.Round patterns ts ts' merges)
    {p : Pattern} (hp : p ∈ patterns) :
    (∃ m ∈ merges, p ∈ m.members patterns ∧ resultOf merges patterns p = m.result) ∨
      p ∈ Combine.settle merges patterns ∧ resultOf merges patterns p = p := by
  rcases List.mem_iff_getElem?.1 hp with ⟨i, hi⟩
  by_cases hclaimed : i ∈ Combine.claimed merges
  · rcases Combine.mem_claimed.1 hclaimed with ⟨m, hm, him⟩
    have hmem : p ∈ m.members patterns := List.mem_filterMap.2 ⟨i, him, hi⟩
    exact .inl ⟨m, hm, hmem, resultOf_member ho hr hm hmem⟩
  · exact .inr ⟨(Combine.mem_settle hr.disjoint).2 (.inr ⟨i, hi, hclaimed⟩),
      resultOf_unclaimed ho hi hclaimed⟩

/-- The first member of a merge comes before the others, so its result comes no later than any. -/
theorem index_resultOf_le (ho : Ordered patterns) (hr : Combine.Round patterns ts ts' merges)
    {p : Pattern} (hp : p ∈ patterns) : (resultOf merges patterns p).index ≤ p.index := by
  rcases resultOf_cases ho hr hp with ⟨m, hm, hmem, heq⟩ | ⟨-, heq⟩
  · rcases hr.made m hm with ⟨kind, position, first, rest, f, hmade⟩
    rw [heq, hmade.index_eq]
    rw [hmade.members_eq] at hmem
    rcases List.mem_cons.1 hmem with rfl | hrest
    · exact Int.le_refl _
    · exact Int.le_of_lt ((List.pairwise_cons.1 (hmade.ordered ho)).1 p hrest)
  · exact Int.le_of_eq (congrArg Pattern.index heq)

end

/-- A round folds members into results. -/
theorem merged (ho : Ordered s.patterns) (hex : ∀ p ∈ s.patterns, p.examples ≠ [])
    {tables : Tables} {merges : List Combine.Merge}
    (hr : Combine.Round s.patterns s.tables tables merges) :
    Folds s ⟨Combine.settle merges s.patterns, tables⟩ (resultOf merges s.patterns) := by
  -- Each clause is split the same way: a pattern is in a merge or claimed by none.
  refine ⟨?_, ?_, fun p hp => index_resultOf_le ho hr hp, ?_, ?_⟩
  · intro p hp
    rcases resultOf_cases ho hr hp with ⟨m, hm, -, heq⟩ | ⟨hmem, heq⟩
    · rw [heq]
      exact (Combine.mem_settle hr.disjoint).2 (.inl ⟨m, hm, rfl⟩)
    · rwa [heq]
  · intro p hp i hrec
    have hrec := hrec.mono hr.grown.keeps
    rcases resultOf_cases ho hr hp with ⟨m, hm, hmem, heq⟩ | ⟨-, heq⟩
    · rcases hr.made m hm with ⟨kind, position, first, rest, f, hmade⟩
      rw [heq]
      exact hrec.of_made hmade (hmade.members_eq ▸ hmem)
    · rwa [heq]
  · intro q hq e he
    rcases (Combine.mem_settle hr.disjoint).1 hq with ⟨m, hm, rfl⟩ | ⟨i, hi, hfree⟩
    · rcases hr.made m hm with ⟨kind, position, first, rest, f, hmade⟩
      rw [hmade.merged.examples_eq] at he
      rcases List.mem_flatMap.1 he with ⟨p, hp, he⟩
      rcases hmade.mem_members.1 hp with ⟨i, -, hi⟩
      exact ⟨p, List.mem_of_getElem? hi, resultOf_member ho hr hm (hmade.members_eq ▸ hp), he⟩
    · exact ⟨q, List.mem_of_getElem? hi, resultOf_unclaimed ho hi hfree, he⟩
  · intro q hq
    rcases (Combine.mem_settle hr.disjoint).1 hq with ⟨m, hm, rfl⟩ | ⟨i, hi, hfree⟩
    · rcases hr.made m hm with ⟨kind, position, first, rest, f, hmade⟩
      have hfirst := List.mem_of_getElem? hmade.first_eq
      have hmember : first ∈ m.members s.patterns := hmade.members_eq ▸ List.mem_cons_self ..
      refine ⟨first, hfirst, resultOf_member ho hr hm hmember, hmade.index_eq, ?_⟩
      rw [hmade.merged.examples_eq, List.flatMap_cons]
      exact List.head?_append_of_ne_nil _ (hex first hfirst)
    · exact ⟨q, List.mem_of_getElem? hi, resultOf_unclaimed ho hi hfree, rfl, rfl⟩

/-! ### Numbering -/

/-- Numbering renames every pattern in its place. -/
theorem numbered (hs : s.Sound) {n : Numbering}
    (hn : n.Renumbers s.tables s.patterns) :
    Folds s ⟨s.patterns.map (Pattern.mapTable n.apply), n.toTables⟩ (Pattern.mapTable n.apply) where
  mem p hp := List.mem_map_of_mem hp
  recovers p hp i hrec := hrec.renumbered hs hn hp
  index_le _ _ := Int.le_refl _
  held q hq e he := by
    rcases List.mem_map.1 hq with ⟨p, hp, rfl⟩
    exact ⟨p, hp, rfl, he⟩
  first q hq := by
    rcases List.mem_map.1 hq with ⟨p, hp, rfl⟩
    exact ⟨p, hp, rfl, rfl, rfl⟩

/-! ### Any number of changes -/

/-- A change folds the patterns into those that it leaves. -/
theorem change (ho : Ordered s.patterns) (hw : Owned s.patterns) (hs : s.Sound)
    (hex : ∀ p ∈ s.patterns, p.examples ≠ []) (hc : Stock.Change s s') :
    ∃ into, Folds s s' into := by
  cases hc with
  | dropped => exact ⟨_, .dropped ho hw⟩
  | merged hr => exact ⟨_, .merged ho hex hr⟩
  | numbered hn => exact ⟨_, .numbered hs hn⟩

theorem changes (ho : Ordered s.patterns) (hw : Owned s.patterns) (hs : s.Sound)
    (hex : ∀ p ∈ s.patterns, p.examples ≠ []) (hc : Stock.Changes s s') :
    ∃ into, Folds s s' into := by
  induction hc with
  | refl => exact ⟨_, .refl s⟩
  | tail hbefore hstep ih =>
    rcases ih with ⟨into, hfolds⟩
    rcases change (ho.changes hbefore) (hw.changes hbefore) (hs.changes hbefore)
      (hfolds.examples_ne_nil hex) hstep with ⟨into', hfolds'⟩
    exact ⟨_, hfolds.trans hfolds'⟩

end Folds

/-! ## Runs -/

/-- The instruction as an example. -/
def Instruction.toExample (i : Instruction) : Example :=
  ⟨i.word.value, i.word.width, Pattern.instructionText i.mnemonic i.operands⟩

/-- The patterns are in the order of the source, and each instruction is folded into one that stands
for it. The examples of a pattern are instructions that are folded into it; of these, the first in
the source gives the pattern its position and its first example. -/
structure FoldedInOrder (instructions : List Instruction) (s : Stock)
    (into : Instruction → Pattern) : Prop where
  ordered : s.patterns.Pairwise fun p q => p.index < q.index
  mem : ∀ i ∈ instructions, into i ∈ s.patterns
  recovered : ∀ i ∈ instructions, RecoveredFrom s.tables (into i) i
  held : ∀ p ∈ s.patterns, ∀ e ∈ p.examples, ∃ i ∈ instructions, into i = p ∧ i.toExample = e
  first : ∀ p ∈ s.patterns, ∃ i ∈ instructions, into i = p ∧ p.index = i.index ∧
    p.examples.head? = some i.toExample ∧ ∀ j ∈ instructions, into j = p → i.index ≤ j.index

/-- Every run of steps keeps the order of the source, whatever the rankings. -/
theorem source_order_kept (config : Config) (catalog : Catalog) (instructions : List Instruction)
    (todo : List Step) (m : Model) (hsorted : instructions.Pairwise fun i j => i.index < j.index)
    (hrun : runFrom (Model.ofInstructions config catalog instructions) (Stage.steps todo)
      = (.ok ⟨⟩, m)) :
    ∃ into, FoldedInOrder instructions m.stock into := by
  have hchanges := Stage.changes_of_steps
    (m := Model.ofInstructions config catalog instructions) Tables.numbered_empty hrun
  have ho := ordered_instructions hsorted
  have hex : ∀ p ∈ instructions.map Instruction.pattern, p.examples ≠ [] := by
    intro p hp
    rcases List.mem_map.1 hp with ⟨i, -, rfl⟩
    exact List.cons_ne_nil _ _
  rcases Folds.changes ho (owned_instructions instructions)
    (Stock.sound_instructions instructions) hex hchanges with ⟨into, hfolds⟩
  refine ⟨fun i => into i.pattern, ho.changes hchanges, ?_, ?_, ?_, ?_⟩
  · intro i hi
    exact hfolds.mem _ (List.mem_map_of_mem hi)
  · intro i hi
    exact hfolds.recovers _ (List.mem_map_of_mem hi) i (.recoveredFrom_pattern i)
  · intro p hp e he
    rcases hfolds.held p hp e he with ⟨q, hq, hinto, he⟩
    rcases List.mem_map.1 hq with ⟨i, hi, rfl⟩
    exact ⟨i, hi, hinto, (mem_examples_pattern.1 he).symm⟩
  · intro p hp
    rcases hfolds.first p hp with ⟨q, hq, hinto, hindex, hhead⟩
    rcases List.mem_map.1 hq with ⟨i, hi, rfl⟩
    refine ⟨i, hi, hinto, hindex, hhead, fun j hj hinto' => ?_⟩
    -- Folding never raises an index, and `p` has that of the instruction its first example is from.
    calc i.index = p.index := hindex.symm
      _ = (into j.pattern).index := by rw [← hinto']
      _ ≤ j.index := hfolds.index_le j.pattern (List.mem_map_of_mem hj)

/-- Three passes fold a list of loads in order. -/
theorem source_order_kept_loads :
    ∃ m, runFrom (Model.ofInstructions byteConfig Catalog.common loads)
        (Stage.steps [.pass .duplicates .longestShared, .pass .immediates .longestShared,
          .pass .registers .longestShared]) = (.ok ⟨⟩, m) ∧
      ∃ into, FoldedInOrder loads m.stock into := by
  obtain ⟨_, m, hrun⟩ := exists_of_isOk (s := Model.ofInstructions byteConfig Catalog.common loads)
    (x := Stage.steps [.pass .duplicates .longestShared, .pass .immediates .longestShared,
      .pass .registers .longestShared])
    (by decide +kernel)
  exact ⟨m, hrun, source_order_kept _ _ _ _ m (by decide) hrun⟩

end SleighForge
