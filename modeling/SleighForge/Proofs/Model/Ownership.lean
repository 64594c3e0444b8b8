import SleighForge.Proofs.Combine.Examples
import SleighForge.Proofs.Model.Steps

/-!
# Every word has its owner

A pattern accepts a word of an instruction of its width only if it stands for an instruction with
that word (`Owned`). A merged pattern accepts the words of its members because it fixes fewer bits,
and no others because it is made only if it agrees with none of them. So the three ways in which
patterns change keep the invariant, and with it every run of steps does.
-/

namespace SleighForge

/-- Patterns as wide as their examples, of which each accepts the words of its own examples and no
other word of an example as wide. -/
structure Owned (patterns : List Pattern) : Prop where
  width : ∀ p ∈ patterns, ∀ e ∈ p.examples, e.width = p.width
  exact : ∀ p ∈ patterns, ∀ q ∈ patterns, q.width = p.width → ∀ e ∈ q.examples,
    (p.accepts e.opcode = true ↔ ∃ e' ∈ p.examples, e'.opcode = e.opcode)

/-! ## Concrete instructions -/

/-- An instruction as read accepts its own word only. -/
theorem accepts_pattern_iff (i : Instruction) (n : Nat) :
    i.pattern.accepts n = true ↔ n = i.word.value :=
  Encoding.accepts_bits_iff i.word n

theorem width_pattern (i : Instruction) : i.pattern.width = i.word.width :=
  Nat.add_zero _

theorem mem_examples_pattern {i : Instruction} {e : Example} :
    e ∈ i.pattern.examples ↔
      e = ⟨i.word.value, i.word.width, Pattern.instructionText i.mnemonic i.operands⟩ :=
  List.mem_singleton

/-- An instruction as read refers to no table. -/
theorem Instruction.mapTable_pattern (g : Int → Int) (i : Instruction) :
    i.pattern.mapTable g = i.pattern := by
  have hoperands : i.operands.map (Operand.mapTable g) = i.operands := by
    refine (List.map_congr_left fun op hop => ?_).trans (List.map_id _)
    have hplain := i.plain op hop
    cases op with
    | field f => cases hplain
    | _ => rfl
  rw [Pattern.mapTable, Pattern.mk.injEq]
  exact ⟨rfl, hoperands, rfl, rfl, rfl⟩

/-- Concrete instructions own their words. -/
theorem owned_instructions (instructions : List Instruction) :
    Owned (instructions.map Instruction.pattern) := by
  constructor
  · intro p hp e he
    rcases List.mem_map.1 hp with ⟨i, -, rfl⟩
    rw [mem_examples_pattern.1 he, width_pattern]
  · intro p hp q hq hw e he
    rcases List.mem_map.1 hp with ⟨i, -, rfl⟩
    rcases List.mem_map.1 hq with ⟨j, -, rfl⟩
    rw [mem_examples_pattern.1 he, accepts_pattern_iff]
    constructor
    · intro heq
      exact ⟨_, mem_examples_pattern.2 rfl, by rw [heq]⟩
    · rintro ⟨e', he', heq⟩
      rw [mem_examples_pattern.1 he'] at heq
      exact (Int.ofNat_inj.1 heq).symm

/-! ## Changes -/

namespace Owned

variable {patterns : List Pattern}

/-- A pattern accepts its own examples. -/
theorem accepts_example (h : Owned patterns) {p : Pattern} (hp : p ∈ patterns) {e : Example}
    (he : e ∈ p.examples) : p.accepts e.opcode = true :=
  (h.exact p hp p hp rfl e he).2 ⟨e, he, rfl⟩

theorem sublist (h : Owned patterns) {fewer : List Pattern} (hs : fewer.Sublist patterns) :
    Owned fewer where
  width p hp := h.width p (hs.subset hp)
  exact p hp q hq := h.exact p (hs.subset hp) q (hs.subset hq)

theorem mapTable (h : Owned patterns) (g : Int → Int) :
    Owned (patterns.map (Pattern.mapTable g)) := by
  have hwidth (p : Pattern) : (p.mapTable g).width = p.width :=
    Encoding.mapTable_width g p.encoding
  have haccepts (p : Pattern) (word : Int) : (p.mapTable g).accepts word = p.accepts word :=
    Encoding.accepts_mapTable g p.encoding word
  constructor
  · intro p hp e he
    rcases List.mem_map.1 hp with ⟨p₀, hp₀, rfl⟩
    rw [hwidth]
    exact h.width p₀ hp₀ e he
  · intro p hp q hq hw e he
    rcases List.mem_map.1 hp with ⟨p₀, hp₀, rfl⟩
    rcases List.mem_map.1 hq with ⟨q₀, hq₀, rfl⟩
    rw [hwidth, hwidth] at hw
    rw [haccepts]
    exact h.exact p₀ hp₀ q₀ hq₀ hw e he

section

variable {ts ts' : Tables} {merges : List Combine.Merge}

/-- What a pattern holds after a round, a pattern as wide held before it. -/
theorem exists_holder (hr : Combine.Round patterns ts ts' merges) {q : Pattern}
    (hq : q ∈ Combine.settle merges patterns) {e : Example} (he : e ∈ q.examples) :
    ∃ (i : Nat) (q₀ : Pattern), patterns[i]? = some q₀ ∧ e ∈ q₀.examples ∧ q₀.width = q.width := by
  rcases hr.cases_of_mem_settle hq with
    ⟨m, kind, position, first, rest, f, rfl, hmade⟩ | ⟨i, hi⟩
  · rw [hmade.merged.examples_eq] at he
    rcases List.mem_flatMap.1 he with ⟨q₀, hq₀, he⟩
    rcases hmade.mem_members.1 hq₀ with ⟨i, -, hi⟩
    exact ⟨i, q₀, hi, he, (hmade.merged.width_eq hmade.gathered.group hq₀).symm⟩
  · exact ⟨i, q, hi, he, rfl⟩

/-- A round keeps the owners: a merged pattern accepts the words of its members, and refuses those
of all others. -/
theorem settle (h : Owned patterns) (hr : Combine.Round patterns ts ts' merges) :
    Owned (Combine.settle merges patterns) := by
  constructor
  · intro p hp e he
    rcases exists_holder hr hp he with ⟨i, p₀, hi, he, hw⟩
    rw [← hw]
    exact h.width p₀ (List.mem_of_getElem? hi) e he
  · intro p hp q hq hw e he
    rcases exists_holder hr hq he with ⟨i, q₀, hi, he, hw₀⟩
    rcases hr.cases_of_mem_settle hp with
      ⟨m, kind, position, first, rest, f, rfl, hmade⟩ | ⟨j, hj⟩
    · rw [hmade.merged.examples_eq]
      constructor
      · -- The word of a pattern outside of the group is foreign, and the merge was made because the
        -- merged pattern does not accept it.
        intro hacc
        have him : i ∈ m.slots := by
          apply Decidable.byContradiction
          intro hout
          rw [hmade.not_accepts hi hout (hw₀.trans hw) he] at hacc
          cases hacc
        exact ⟨e, List.mem_flatMap.2 ⟨q₀, hmade.mem_members.2 ⟨i, him, hi⟩, he⟩, rfl⟩
      · -- Opening a field keeps the words of the members.
        rintro ⟨e', he', heq⟩
        rcases List.mem_flatMap.1 he' with ⟨p₀, hp₀, he'⟩
        rcases hmade.mem_members.1 hp₀ with ⟨j, -, hj⟩
        rw [← heq]
        exact hmade.merged.accepts hmade.gathered.group hp₀
          (h.accepts_example (List.mem_of_getElem? hj) he')
    · exact h.exact p (List.mem_of_getElem? hj) q₀ (List.mem_of_getElem? hi) (hw₀.trans hw) e he

end

/-- A change leaves every word with one owner. -/
theorem change {s s' : Stock} (h : Owned s.patterns) (hc : Stock.Change s s') :
    Owned s'.patterns := by
  cases hc with
  | dropped => exact h.sublist (Combine.dropDuplicates_sublist _)
  | merged hr => exact h.settle hr
  | numbered _ => exact h.mapTable _

theorem changes {s s' : Stock} (h : Owned s.patterns) (hc : Stock.Changes s s') :
    Owned s'.patterns := by
  induction hc with
  | refl => exact h
  | tail _ hstep ih => exact ih.change hstep

end Owned

end SleighForge
