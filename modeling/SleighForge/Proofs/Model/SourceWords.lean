import Mathlib.Data.List.Nodup
import Mathlib.Data.List.Pairwise
import SleighForge.Proofs.Model.Ownership

/-!
# How many patterns accept a word

Words of one width that no two different instructions have in common stay apart while patterns
change: two patterns share one of them only if they are repeats of each other (`Copies`). So a word
of the source is accepted by as many patterns as there are lines with it, until a pass drops the
repeats and leaves one (`words_owned`).
-/

namespace SleighForge

/-- The words of the width that the pattern holds. -/
def Pattern.wordsAt (width : Nat) (p : Pattern) : List Int :=
  (p.examples.filter (·.width = width)).map Example.opcode

/-- The words of the width that some patterns hold. -/
def heldWords (width : Nat) (patterns : List Pattern) : List Int :=
  patterns.flatMap (Pattern.wordsAt width)

theorem mem_wordsAt {width : Nat} {p : Pattern} {word : Int} :
    word ∈ p.wordsAt width ↔ ∃ e ∈ p.examples, e.width = width ∧ e.opcode = word := by
  simp [Pattern.wordsAt, and_assoc]

theorem heldWords_eq (width : Nat) (patterns : List Pattern) :
    heldWords width patterns =
      ((allExamples patterns).filter (·.width = width)).map Example.opcode := by
  rw [heldWords, allExamples, List.filter_flatMap, List.map_flatMap]
  rfl

/-- Which words are held depends on the examples only. -/
theorem heldWords_perm {width : Nat} {patterns patterns' : List Pattern}
    (h : (allExamples patterns').Perm (allExamples patterns)) :
    (heldWords width patterns').Perm (heldWords width patterns) := by
  rw [heldWords_eq, heldWords_eq]
  exact (h.filter _).map _

/-- A pattern holds words of its own width. -/
theorem Owned.width_of_mem {patterns : List Pattern} (h : Owned patterns) {p : Pattern}
    (hp : p ∈ patterns) {width : Nat} {word : Int} (hw : word ∈ p.wordsAt width) :
    p.width = width := by
  rcases mem_wordsAt.1 hw with ⟨e, he, hwidth, -⟩
  rw [← hwidth, h.width p hp e he]

/-- Of the words held, a pattern accepts those that it holds. -/
theorem Owned.accepts_iff {patterns : List Pattern} (h : Owned patterns) {p : Pattern}
    (hp : p ∈ patterns) {word : Int} (hw : word ∈ heldWords p.width patterns) :
    p.accepts word = true ↔ word ∈ p.wordsAt p.width := by
  rcases List.mem_flatMap.1 hw with ⟨q, hq, hword⟩
  rcases mem_wordsAt.1 hword with ⟨e, he, hwidth, rfl⟩
  have hqw : q.width = p.width := by rw [← hwidth, h.width q hq e he]
  rw [h.exact p hp q hq hqw e he, mem_wordsAt]
  constructor
  · rintro ⟨e', he', heq⟩
    exact ⟨e', he', h.width p hp e' he', heq⟩
  · rintro ⟨e', he', -, heq⟩
    exact ⟨e', he', heq⟩

/-! ## Dropping repeats -/

/-- A repeat holds the words of the pattern that stays in its place. -/
theorem mem_heldWords_dropDuplicates {patterns : List Pattern} (h : Owned patterns) {width : Nat}
    {word : Int} : word ∈ heldWords width (Combine.dropDuplicates patterns) ↔
      word ∈ heldWords width patterns := by
  have hsub := Combine.dropDuplicates_sublist patterns
  constructor
  · intro hw
    rcases List.mem_flatMap.1 hw with ⟨p, hp, hword⟩
    exact List.mem_flatMap.2 ⟨p, hsub.subset hp, hword⟩
  · intro hw
    rcases List.mem_flatMap.1 hw with ⟨q, hq, hword⟩
    rcases Combine.exists_mem_dropDuplicates hq with ⟨p, hp, hpq⟩
    -- The one that stays has the encoding of the repeat, so it accepts the word, and holds it.
    have henc : p.encoding = q.encoding := congrArg Pattern.Identity.encoding hpq
    have hqw := h.width_of_mem hq hword
    have hpw : p.width = width := by rw [← hqw, Pattern.width, henc, Pattern.width]
    have hacc : p.accepts word = true := by
      rw [Pattern.accepts, henc]
      exact (h.accepts_iff hq (hqw ▸ hw)).2 (hqw ▸ hword)
    refine List.mem_flatMap.2 ⟨p, hp, ?_⟩
    have := (h.accepts_iff (hsub.subset hp) (hpw ▸ hw)).1 hacc
    rwa [hpw] at this

/-! ## Copies -/

/-- No pattern holds a word of the width twice, and two that share one are repeats. -/
structure Copies (width : Nat) (patterns : List Pattern) : Prop where
  once : ∀ p ∈ patterns, (p.wordsAt width).Nodup
  same : patterns.Pairwise fun p q =>
    ∀ word ∈ p.wordsAt width, word ∈ q.wordsAt width → p.identity = q.identity

namespace Copies

variable {width : Nat} {patterns : List Pattern}

theorem sublist (h : Copies width patterns) {fewer : List Pattern} (hs : fewer.Sublist patterns) :
    Copies width fewer where
  once p hp := h.once p (hs.subset hp)
  same := h.same.sublist hs

/-- Renaming tables leaves repeats repeats. -/
theorem identity_mapTable {p q : Pattern} (g : Int → Int) (h : p.identity = q.identity) :
    (p.mapTable g).identity = (q.mapTable g).identity := by
  have hbare (op : Operand) : (op.mapTable g).bare = op.bare.mapTable g := by cases op <;> rfl
  have hops (p : Pattern) : (p.operands.map (Operand.mapTable g)).map Operand.bare =
      (p.operands.map Operand.bare).map (Operand.mapTable g) := by
    simp [List.map_map, Function.comp_def, hbare]
  simp only [Pattern.identity, Pattern.Identity.mk.injEq] at h
  simp only [Pattern.identity, Pattern.mapTable, Pattern.Identity.mk.injEq, hops]
  exact ⟨h.1, by rw [h.2.1], by rw [h.2.2]⟩

theorem mapTable (h : Copies width patterns) (g : Int → Int) :
    Copies width (patterns.map (Pattern.mapTable g)) := by
  refine ⟨?_, List.pairwise_map.2 (h.same.imp ?_)⟩
  · intro p hp
    rcases List.mem_map.1 hp with ⟨p₀, hp₀, rfl⟩
    exact h.once p₀ hp₀
  · intro p q hpq word hp hq
    exact identity_mapTable g (hpq word hp hq)

/-- After repeats are dropped, no word of the width is held twice. -/
theorem nodup_dropDuplicates (h : Copies width patterns) :
    (heldWords width (Combine.dropDuplicates patterns)).Nodup := by
  have hdrop := h.sublist (Combine.dropDuplicates_sublist patterns)
  have hdistinct := List.pairwise_map.1 (nodup_map_distinctBy Pattern.identity patterns)
  refine List.nodup_flatMap.2 ⟨hdrop.once, ?_⟩
  refine (hdrop.same.and hdistinct).imp ?_
  rintro p q ⟨hsame, hne⟩
  apply List.disjoint_left.2
  intro word hp hq
  exact hne (hsame word hp hq)

section

variable {ts ts' : Tables} {merges : List Combine.Merge}

/-- A merged pattern shares no word with a pattern outside of its group. -/
theorem not_mem_result (hr : Combine.Round patterns ts ts' merges)
    (ho : Owned (Combine.settle merges patterns)) {m : Combine.Merge} (hm : m ∈ merges) {i : Nat}
    {q : Pattern} (hi : patterns[i]? = some q) (hout : i ∉ m.slots) (hq : q.width = width)
    {word : Int} (hword : word ∈ q.wordsAt width) : word ∉ m.result.wordsAt width := by
  intro hmem
  rcases hr.made m hm with ⟨kind, position, first, rest, f, hmade⟩
  have hresult : m.result ∈ Combine.settle merges patterns :=
    (Combine.mem_settle hr.disjoint).2 (.inl ⟨m, hm, rfl⟩)
  have hwidth := ho.width_of_mem hresult hmem
  rcases mem_wordsAt.1 hword with ⟨e, he, -, rfl⟩
  rcases mem_wordsAt.1 hmem with ⟨e', he', -, heq⟩
  have hacc := ho.accepts_example hresult he'
  rw [heq, hmade.not_accepts hi hout (hq.trans hwidth.symm) he] at hacc
  cases hacc

/-- The words of a merged pattern are those of its members. -/
theorem wordsAt_result {m : Combine.Merge} {kind : OperandKind} {position : Nat}
    {first : Pattern} {rest : List Pattern} {f : BitField}
    (h : Combine.Made ts patterns m kind position first rest f) (width : Nat) :
    m.result.wordsAt width = heldWords width (first :: rest) := by
  rw [Pattern.wordsAt, h.merged.examples_eq, List.filter_flatMap, List.map_flatMap]
  rfl

/-- Members and patterns that no merge has claimed share words only as repeats. -/
theorem regrouped (h : Copies width patterns) (hr : Combine.Round patterns ts ts' merges) :
    (merges.flatMap (·.members patterns) ++ Combine.unclaimed merges patterns).Pairwise
      fun p q => ∀ word ∈ p.wordsAt width, word ∈ q.wordsAt width → p.identity = q.identity := by
  refine (Combine.perm_members_append hr.disjoint).pairwise h.same ?_
  intro p q hpq word hq hp
  exact (hpq word hp hq).symm

/-- No two members of a group share a word. -/
theorem nodup_result (h : Copies width patterns) (hr : Combine.Round patterns ts ts' merges)
    {m : Combine.Merge} (hm : m ∈ merges) : (m.result.wordsAt width).Nodup := by
  rcases hr.made m hm with ⟨kind, position, first, rest, f, hmade⟩
  have hmembers := (List.pairwise_flatMap.1 (List.pairwise_append.1 (h.regrouped hr)).1).1 m hm
  rw [hmade.members_eq] at hmembers
  rw [wordsAt_result hmade, heldWords, List.nodup_flatMap]
  constructor
  · intro p hp
    rcases hmade.mem_members.1 hp with ⟨i, -, hi⟩
    exact h.once p (List.mem_of_getElem? hi)
  · -- Members that share a word would be repeats, but they differ in one operand.
    refine (hmembers.and hmade.gathered.group.distinct).imp ?_
    rintro p q ⟨hsame, hne⟩
    apply List.disjoint_left.2
    intro word hp hq
    apply hne
    exact Pattern.bareAt?_of_identity (hsame word hp hq) position

/-- After a round, patterns that share a word are repeats still. -/
theorem settle (h : Copies width patterns) (ho : Owned patterns)
    (hr : Combine.Round patterns ts ts' merges) :
    Copies width (Combine.settle merges patterns) := by
  have ho' := ho.settle hr
  constructor
  · intro p hp
    rcases (Combine.mem_settle hr.disjoint).1 hp with ⟨m, hm, rfl⟩ | ⟨i, hi, -⟩
    · exact h.nodup_result hr hm
    · exact h.once p (List.mem_of_getElem? hi)
  · refine (Combine.settle_perm hr.disjoint).symm.pairwise ?_ fun hpq word hq hp =>
      (hpq word hp hq).symm
    -- Two merged patterns, two that no merge has claimed, or one of each.
    refine List.pairwise_append.2 ⟨List.pairwise_map.2 ?_, ?_, ?_⟩
    · apply hr.disjoint.pairwise.imp_of_mem
      intro m m' hm hm' hslots word hwm hwm'
      rcases hr.made m' hm' with ⟨kind, position, first, rest, f, hmade⟩
      rw [wordsAt_result hmade] at hwm'
      rcases List.mem_flatMap.1 hwm' with ⟨q, hq, hwq⟩
      rcases hmade.mem_members.1 hq with ⟨i, hi', hi⟩
      have hqw := ho.width_of_mem (List.mem_of_getElem? hi) hwq
      exact absurd hwm (not_mem_result hr ho' hm hi (fun him => hslots i him hi') hqw hwq)
    · exact (List.pairwise_append.1 (h.regrouped hr)).2.1
    · intro p hp q hq word hwp hwq
      rcases List.mem_map.1 hp with ⟨m, hm, rfl⟩
      rcases Combine.mem_unclaimed.1 hq with ⟨i, hi, hfree⟩
      have hout : i ∉ m.slots := fun him => hfree (Combine.mem_claimed.2 ⟨m, hm, him⟩)
      have hqw := ho.width_of_mem (List.mem_of_getElem? hi) hwq
      exact absurd hwp (not_mem_result hr ho' hm hi hout hqw hwq)

end

end Copies

/-! ## Instructions -/

theorem wordsAt_pattern (i : Instruction) (width : Nat) :
    i.pattern.wordsAt width = if i.word.width = width then [(i.word.value : Int)] else [] := by
  unfold Pattern.wordsAt Instruction.pattern Pattern.concrete
  by_cases h : i.word.width = width <;> simp [h]

/-- A repeat of an instruction stays, with the same word. -/
theorem exists_repeat {instructions : List Instruction} {p : Pattern}
    (hp : p ∈ instructions.map Instruction.pattern) {width : Nat} {word : Int}
    (hword : word ∈ p.wordsAt width) :
    ∃ p₀ ∈ Combine.dropDuplicates (instructions.map Instruction.pattern),
      p₀.identity = p.identity ∧ word ∈ p₀.wordsAt width := by
  rcases Combine.exists_mem_dropDuplicates hp with ⟨p₀, hp₀, heq⟩
  refine ⟨p₀, hp₀, heq, ?_⟩
  rcases List.mem_map.1 hp with ⟨i, -, rfl⟩
  rcases List.mem_map.1 ((Combine.dropDuplicates_sublist _).subset hp₀) with ⟨i₀, -, rfl⟩
  have hsame : i₀.word = i.word := by
    have henc : i₀.pattern.encoding = i.pattern.encoding :=
      congrArg Pattern.Identity.encoding heq
    simpa [Instruction.pattern, Pattern.concrete] using henc
  rwa [wordsAt_pattern, hsame, ← wordsAt_pattern]

/-- Instructions share a word only if they are repeats, if that holds after repeats are dropped. -/
theorem copies_instructions {instructions : List Instruction} {width : Nat}
    (h : (heldWords width (Combine.dropDuplicates (instructions.map Instruction.pattern))).Nodup) :
    Copies width (instructions.map Instruction.pattern) := by
  refine ⟨?_, List.pairwise_of_forall_mem_list ?_⟩
  · intro p hp
    rcases List.mem_map.1 hp with ⟨i, -, rfl⟩
    rw [wordsAt_pattern]
    split <;> simp
  · intro p hp q hq word hwp hwq
    -- Repeats of the two stay, and they are one pattern because both hold the word.
    rcases exists_repeat hp hwp with ⟨p₀, hp₀, hpid, hp₀w⟩
    rcases exists_repeat hq hwq with ⟨q₀, hq₀, hqid, hq₀w⟩
    rw [← hpid, ← hqid]
    have hdisjoint := (List.nodup_flatMap.1 h).2
    have : Std.Symm (Function.onFun List.Disjoint (Pattern.wordsAt width)) :=
      ⟨fun _ _ hd _ hp hq => hd hq hp⟩
    apply Decidable.byContradiction
    intro hne
    have hapart : p₀ ≠ q₀ := fun heq => hne (congrArg Pattern.identity heq)
    exact List.disjoint_left.1 (hdisjoint.forall hp₀ hq₀ hapart) hp₀w hq₀w

/-! ## Counting -/

/-- Holders are counted by counting what they hold. -/
theorem countP_eq_count_flatMap {α β : Type} [DecidableEq β] {xs : List α} {f : α → List β}
    {holds : α → Bool} {b : β} (h : ∀ x ∈ xs, (f x).count b = if holds x then 1 else 0) :
    xs.countP holds = (xs.flatMap f).count b := by
  induction xs with
  | nil => rfl
  | cons x xs ih =>
    rw [List.countP_cons, List.flatMap_cons, List.count_append, h x (List.mem_cons_self ..),
      ih fun y hy => h y (List.mem_cons_of_mem _ hy), Nat.add_comm]

/-- A held word is accepted by as many patterns of its width as hold it. -/
theorem countP_accepts {patterns : List Pattern} {width : Nat} (ho : Owned patterns)
    (hc : Copies width patterns) {word : Int} (hw : word ∈ heldWords width patterns) :
    patterns.countP (fun p => p.width = width ∧ p.accepts word) =
      (heldWords width patterns).count word := by
  apply countP_eq_count_flatMap
  intro p hp
  rw [(hc.once p hp).count]
  -- A pattern holds the word at most once, and does so exactly if it has the width and accepts it.
  by_cases hwidth : p.width = width
  · subst hwidth
    have hiff := ho.accepts_iff hp hw
    by_cases hmem : word ∈ p.wordsAt p.width
    · simp [hmem, hiff.2 hmem]
    · simp [hmem, mt hiff.1 hmem]
  · have hnot : word ∉ p.wordsAt width := fun hmem => hwidth (ho.width_of_mem hp hmem)
    simp [hwidth, hnot]

end SleighForge
