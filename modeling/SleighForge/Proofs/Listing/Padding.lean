import SleighForge.Combine.Pass
import SleighForge.Proofs.Listing.Lines

/-!
# Lists with more lines

A list is padded with lines that say nothing new: blank lines, comments, and instructions that a
line before them has as well (`Padded`). Reading the padded list finds the same instructions and
repeats of them. Without the repeats these are the same but for their positions, which are in the
same order (`read_padded`).
-/

namespace SleighForge

/-! ## Positions -/

namespace Pattern

theorem reindex_congr {g h : Int → Int} {p : Pattern} (heq : g p.index = h p.index) :
    p.reindex g = p.reindex h := by
  rw [reindex, reindex, heq]

end Pattern

namespace Combine

/-- A repeat is dropped, whatever its position. -/
theorem dropDuplicates_concat_repeat {patterns : List Pattern} {p : Pattern}
    (h : p.identity ∈ patterns.map Pattern.identity) (g : Int → Int) :
    dropDuplicates (patterns ++ [p.reindex g]) = dropDuplicates patterns :=
  distinctBy_concat_of_mem (x := p.reindex g) h

/-- A new pattern at the end is kept, whatever its position. -/
theorem dropDuplicates_concat_new {patterns : List Pattern} {p : Pattern}
    (h : p.identity ∉ patterns.map Pattern.identity) (g : Int → Int) :
    dropDuplicates (patterns ++ [p.reindex g]) = dropDuplicates patterns ++ [p.reindex g] :=
  distinctBy_concat_of_not_mem (x := p.reindex g) h

end Combine

/-- The positions after those of the first patterns move one on. -/
def makeRoom (g : Int → Int) (count : Nat) (i : Int) : Int :=
  if i < count then g i else g i + 1

/-- Making room for one more keeps the order. -/
theorem keepsOrder_makeRoom {g : Int → Int} (hg : KeepsOrder g) (count : Nat) :
    KeepsOrder (makeRoom g count) := by
  intro i j hij
  have hlt := hg i j hij
  unfold makeRoom
  split <;> split <;> omega

/-- The other patterns are the patterns and repeats of them, but for positions. The positions that
come next are moved on by the number of repeats. -/
structure WithRepeats (g : Int → Int) (seen patterns others : List Pattern) : Prop where
  order : KeepsOrder g
  below : ∀ p ∈ patterns, p.index < patterns.length
  onward : ∀ i : Int, patterns.length ≤ i → g i = i + others.length - patterns.length
  kept : Combine.dropDuplicates others = (Combine.dropDuplicates patterns).map (Pattern.reindex g)
  known : ∀ p ∈ seen, p.identity ∈ others.map Pattern.identity

namespace WithRepeats

variable {g : Int → Int} {seen patterns others : List Pattern} {p q : Pattern}

/-- Nothing has been read yet on either side. -/
theorem start : WithRepeats id [] [] [] where
  order := .refl
  below _ hp := absurd hp List.not_mem_nil
  onward i _ := by simp
  kept := rfl
  known _ hp := absurd hp List.not_mem_nil

/-- The same instructions occur. -/
theorem mem_identity_iff (h : WithRepeats g seen patterns others) (i : Pattern.Identity) :
    i ∈ others.map Pattern.identity ↔ i ∈ patterns.map Pattern.identity := by
  have hothers : i ∈ (Combine.dropDuplicates others).map Pattern.identity ↔
      i ∈ others.map Pattern.identity := mem_map_distinctBy
  have hpatterns : i ∈ (Combine.dropDuplicates patterns).map Pattern.identity ↔
      i ∈ patterns.map Pattern.identity := mem_map_distinctBy
  rw [← hothers, ← hpatterns, h.kept, List.map_map]
  rfl

/-- Both lists go on with an instruction. -/
theorem next (h : WithRepeats g seen patterns others) (p : Pattern) :
    WithRepeats g (p :: seen) (patterns ++ [p.reindex fun _ => patterns.length])
      (others ++ [p.reindex fun _ => others.length]) where
  order := h.order
  below := by
    intro q hq
    rw [List.length_append, List.length_singleton]
    rcases List.mem_append.1 hq with hq | hq
    · have := h.below q hq
      omega
    · rw [List.mem_singleton.1 hq]
      show (patterns.length : Int) < _
      omega
  onward := by
    intro i hi
    simp only [List.length_append, List.length_singleton] at hi ⊢
    have := h.onward i (by omega)
    omega
  kept := by
    have hposition : g patterns.length = others.length := by
      have := h.onward patterns.length (Int.le_refl _)
      omega
    have hsame := h.mem_identity_iff p.identity
    -- The identity leaves out the index, so `p` is a repeat in both lists or in neither.
    by_cases hold : p.identity ∈ patterns.map Pattern.identity
    · rw [Combine.dropDuplicates_concat_repeat (hsame.2 hold),
        Combine.dropDuplicates_concat_repeat hold, h.kept]
    · rw [Combine.dropDuplicates_concat_new (mt hsame.1 hold),
        Combine.dropDuplicates_concat_new hold, h.kept, List.map_append, ← hposition]
      rfl
  known := by
    rw [List.map_append]
    intro q hq
    rcases List.mem_cons.1 hq with rfl | hq
    · exact List.mem_append_right _ (List.mem_singleton.2 rfl)
    · exact List.mem_append_left _ (h.known q hq)

/-- The other list goes on with a repeat. -/
theorem again (h : WithRepeats g seen patterns others) (hq : q ∈ seen)
    (heq : p.identity = q.identity) :
    WithRepeats (makeRoom g patterns.length) seen patterns
      (others ++ [p.reindex fun _ => others.length]) where
  order := keepsOrder_makeRoom h.order _
  below := h.below
  onward := by
    intro i hi
    have := h.onward i hi
    rw [List.length_append, List.length_singleton, makeRoom, if_neg (by omega)]
    omega
  kept := by
    have hknown : p.identity ∈ others.map Pattern.identity := heq ▸ h.known q hq
    rw [Combine.dropDuplicates_concat_repeat hknown, h.kept]
    refine List.map_congr_left fun r hr => Pattern.reindex_congr ?_
    -- The positions found so far are below those that move.
    have hbelow := h.below r ((distinctBy_sublist _ patterns).subset hr)
    rw [makeRoom, if_pos hbelow]
  known := by
    intro r hr
    rw [List.map_append]
    exact List.mem_append_left _ (h.known r hr)

end WithRepeats

/-! ## Collectors -/

/-- The limit, and how many diagnostics have been taken. -/
def Collector.load (c : Collector) : Int × Nat :=
  (c.limit, c.errors.length)

theorem Collector.isFull_congr {c c' : Collector} (h : c'.load = c.load) :
    c'.isFull = c.isFull := by
  rcases Prod.mk.inj h with ⟨hlimit, hcount⟩
  rw [isFull, isFull, hlimit, hcount]

theorem Collector.load_add {c c' : Collector} (h : c'.load = c.load) (d d' : Diagnostic) :
    (c'.add d').load = (c.add d).load := by
  rcases Prod.mk.inj h with ⟨hlimit, hcount⟩
  simp [load, add, hlimit, hcount]

/-- Warnings take no room. -/
theorem Collector.load_gather (c : Collector) (warnings : List String) :
    (c.gather [] warnings).load = c.load := by
  simp [load, gather]

namespace Listing

/-! ## Lines -/

/-- The padded list has more lines, of which each is blank, a comment, or has an instruction of a
line before it or of those seen. -/
inductive Padded (reader : Reader) : List Pattern → List String → List String → Prop where
  | done (seen : List Pattern) : Padded reader seen [] []
  | keep {seen : List Pattern} {lines padded : List String} (line : String)
    (h : Padded reader ((instruction? reader line).toList ++ seen) lines padded) :
    Padded reader seen (line :: lines) (line :: padded)
  | comment {seen : List Pattern} {lines padded : List String} {line : String}
    (hline : isBlankOrComment (chomp line) = true) (h : Padded reader seen lines padded) :
    Padded reader seen lines (line :: padded)
  | again {seen : List Pattern} {lines padded : List String} {line : String} {p q : Pattern}
    (hline : instruction? reader line = some p) (hq : q ∈ seen) (heq : p.identity = q.identity)
    (h : Padded reader seen lines padded) : Padded reader seen lines (line :: padded)

/-! ## Readings -/

/-- Reading goes through a padded list if it goes through the list, and finds no more than repeats
and other positions. -/
theorem readFrom_padded {reader : Reader} {seen : List Pattern} {lines padded : List String}
    (h : Padded reader seen lines padded) {g : Int → Int} {n n' : Int}
    {found found' listing : Listing} {c c' : Collector} {journal journal' : Journal}
    (hrepeats : WithRepeats g seen found.patterns found'.patterns) (hload : c'.load = c.load)
    (hread : (readFrom reader n found c journal lines).result = .ok listing) :
    ∃ listing' g' seen', (readFrom reader n' found' c' journal' padded).result = .ok listing' ∧
      WithRepeats g' seen' listing.patterns listing'.patterns := by
  -- On the padding: a line of the list is read in both, an inserted one in the padded list only.
  induction h generalizing g n n' found found' c c' journal journal' with
  | done seen =>
    cases hread
    exact ⟨found', g, seen, rfl, hrepeats⟩
  | keep line h ih =>
    cases hcomment : isBlankOrComment (chomp line) with
    | true =>
      have hnone : instruction? reader line = none := by rw [instruction?, if_pos hcomment]
      rw [readFrom_comment hcomment] at hread ⊢
      rw [hnone] at ih
      exact ih hrepeats hload hread
    | false =>
      cases hline : instruction? reader line with
      | none =>
        rcases exists_fault hcomment hline with ⟨fault, hfault⟩ | ⟨fault, hfault⟩
        · let d := diagnose reader n (chomp line) fault
          let d' := diagnose reader n' (chomp line) fault
          rw [readFrom_malformed hfault] at hread ⊢
          dsimp only at hread ⊢
          -- The two collectors have room for the same number of diagnostics.
          rw [Collector.isFull_congr (Collector.load_add hload d d')]
          rw [hline] at ih
          split at hread
          · cases hread
          · next hstrict =>
            split at hread
            · cases hread
            · next hfull =>
              rw [if_neg hstrict, if_neg hfull]
              refine ih (g := g) ?_ (Collector.load_add hload d d') hread
              exact hrepeats
        · -- The list would not have been read.
          rw [readFrom_overrun hfault] at hread
          cases hread
      | some p =>
        rw [readFrom_instruction hline] at hread ⊢
        rw [hline] at ih
        refine ih (hrepeats.next p) ?_ hread
        rw [Collector.load_gather, Collector.load_gather, hload]
  | comment hline h ih =>
    rw [readFrom_comment hline]
    exact ih hrepeats hload hread
  | again hline hq heq h ih =>
    rw [readFrom_instruction hline]
    refine ih (hrepeats.again hq heq) ?_ hread
    rw [Collector.load_gather, hload]

/-- A padded list is read to the same instructions, repeats and positions apart. -/
theorem read_padded {reader : Reader} {lines padded : List String}
    (h : Padded reader [] lines padded) {listing : Listing} {c : Collector}
    (hread : (read reader lines c).result = .ok listing) :
    ∃ listing' g, (read reader padded c).result = .ok listing' ∧ KeepsOrder g ∧
      Combine.dropDuplicates listing'.patterns =
        (Combine.dropDuplicates listing.patterns).map (Pattern.reindex g) := by
  have hpadded : ∃ listing' g seen, (readFrom reader 1 {} c [] padded).result = .ok listing' ∧
      WithRepeats g seen listing.patterns listing'.patterns :=
    readFrom_padded h .start rfl hread
  rcases hpadded with ⟨listing', g, seen, hread', hrepeats⟩
  exact ⟨listing', g, hread', hrepeats.order, hrepeats.kept⟩

end Listing

end SleighForge
