import Mathlib.Data.List.Basic
import SleighForge.Combine.Rounds

/-!
# The list after a round

A round puts each merged pattern in the place of its first member and takes the other members out.
Up to order, the list before the round holds the members of all merges and the patterns that no
merge has claimed (`perm_members_append`); the list after it holds the merged patterns and again
those that no merge has claimed (`settle_perm`).
-/

namespace SleighForge

namespace Combine

/-- The places of the members. -/
def Merge.slots (m : Merge) : List Nat :=
  m.slot :: m.others

/-- The patterns that no merge has claimed. -/
def unclaimed (merges : List Merge) (patterns : List Pattern) : List Pattern :=
  ((List.range patterns.length).filter (· ∉ claimed merges)).filterMap (patterns[·]?)

/-- Merges claim places of the list, and no place twice. -/
structure Disjoint (merges : List Merge) (patterns : List Pattern) : Prop where
  nodup : (claimed merges).Nodup
  found : ∀ i ∈ claimed merges, i < patterns.length

theorem mem_claimed {merges : List Merge} {i : Nat} :
    i ∈ claimed merges ↔ ∃ m ∈ merges, i ∈ m.slots :=
  List.mem_flatMap

section

variable {merges : List Merge} {patterns : List Pattern}

/-- The unclaimed patterns are those at places that no merge has. -/
theorem mem_unclaimed {p : Pattern} :
    p ∈ unclaimed merges patterns ↔ ∃ i, patterns[i]? = some p ∧ i ∉ claimed merges := by
  simp only [unclaimed, List.mem_filterMap, List.mem_filter, List.mem_range, decide_eq_true_eq]
  constructor
  · rintro ⟨i, ⟨-, hi⟩, hp⟩
    exact ⟨i, hp, hi⟩
  · rintro ⟨i, hp, hi⟩
    exact ⟨i, ⟨(List.getElem?_eq_some_iff.1 hp).1, hi⟩, hp⟩

namespace Disjoint

theorem slots_nodup (h : Disjoint merges patterns) {m : Merge} (hm : m ∈ merges) :
    m.slots.Nodup :=
  (List.pairwise_flatMap.1 h.nodup).1 m hm

theorem pairwise (h : Disjoint merges patterns) :
    merges.Pairwise fun m m' => ∀ i ∈ m.slots, i ∉ m'.slots := by
  refine (List.pairwise_flatMap.1 h.nodup).2.imp ?_
  intro m m' hne i hi hi'
  exact hne i hi i hi' rfl

/-- A place is claimed by one merge only. -/
theorem eq_of_mem_slots (h : Disjoint merges patterns) {m m' : Merge} (hm : m ∈ merges)
    (hm' : m' ∈ merges) {i : Nat} (hi : i ∈ m.slots) (hi' : i ∈ m'.slots) : m = m' := by
  have hpair := h.pairwise
  -- The list of merges gets shorter below, and `Disjoint` says nothing of a shorter list.
  clear h
  induction merges with
  | nil => cases hm
  | cons a merges ih =>
    rcases List.pairwise_cons.1 hpair with ⟨hhead, htail⟩
    rcases List.mem_cons.1 hm with ha | ht <;> rcases List.mem_cons.1 hm' with ha' | ht'
    · rw [ha, ha']
    · exact absurd hi' (hhead m' ht' i (ha ▸ hi))
    · exact absurd hi (hhead m ht i (ha' ▸ hi'))
    · exact ih ht ht' htail

/-- At the slot of a merge this merge is found. -/
theorem find?_slot (h : Disjoint merges patterns) {m : Merge} (hm : m ∈ merges) :
    merges.find? (·.slot = m.slot) = some m := by
  cases hfind : merges.find? (·.slot = m.slot) with
  | none => simpa using List.find?_eq_none.1 hfind m hm
  | some m' =>
    have hslot : m'.slot = m.slot := by simpa using List.find?_some hfind
    have hmem : m.slot ∈ m'.slots := hslot ▸ List.mem_cons_self ..
    rw [h.eq_of_mem_slots (List.mem_of_find?_eq_some hfind) hm hmem (List.mem_cons_self ..)]

/-- At any other place of a merge nothing is found. -/
theorem find?_other (h : Disjoint merges patterns) {m : Merge} (hm : m ∈ merges) {i : Nat}
    (hi : i ∈ m.others) : merges.find? (·.slot = i) = none := by
  apply List.find?_eq_none.2
  intro m' hm'
  simp only [decide_eq_true_eq]
  rintro rfl
  have heq := h.eq_of_mem_slots hm' hm (List.mem_cons_self ..) (List.mem_cons_of_mem _ hi)
  have hnodup := h.slots_nodup hm
  rw [heq] at hi
  exact (List.nodup_cons.1 hnodup).1 hi

/-- Claimed places and the others are all places. -/
theorem perm_range (h : Disjoint merges patterns) :
    (List.range patterns.length).Perm
      (claimed merges ++ (List.range patterns.length).filter (· ∉ claimed merges)) := by
  -- Neither list has a place twice, so it is enough that they have the same places.
  refine (List.perm_ext_iff_of_nodup List.nodup_range ?_).2 fun i => ?_
  · refine List.nodup_append.2 ⟨h.nodup, List.nodup_range.filter _, ?_⟩
    rintro i hi j hj rfl
    simpa [hi] using (List.mem_filter.1 hj).2
  · simp only [List.mem_append, List.mem_filter, List.mem_range, decide_eq_true_eq]
    constructor
    · intro hi
      by_cases hc : i ∈ claimed merges
      · exact .inl hc
      · exact .inr ⟨hi, hc⟩
    · rintro (hc | ⟨hi, -⟩)
      · exact h.found i hc
      · exact hi

end Disjoint

/-! ## Before the round -/

/-- All places together are the list. -/
theorem filterMap_range_getElem? (patterns : List Pattern) :
    (List.range patterns.length).filterMap (patterns[·]?) = patterns := by
  have hmap : (List.range patterns.length).map (patterns[·]?) = patterns.map some := by
    refine List.ext_getElem (by simp) ?_
    intro i hi hi'
    simp_all
  calc (List.range patterns.length).filterMap (patterns[·]?)
      = ((List.range patterns.length).map (patterns[·]?)).filterMap id := by
        rw [List.filterMap_map]
        rfl
    _ = (patterns.map some).filterMap id := by rw [hmap]
    _ = patterns := by simp

/-- The patterns of a list at the places of the members. -/
def Merge.members (m : Merge) (patterns : List Pattern) : List Pattern :=
  m.slots.filterMap (patterns[·]?)

/-- Every pattern is a member of a merge or unclaimed. -/
theorem perm_members_append (h : Disjoint merges patterns) :
    patterns.Perm (merges.flatMap (·.members patterns) ++ unclaimed merges patterns) := by
  have hperm := h.perm_range.filterMap (patterns[·]?)
  rw [filterMap_range_getElem?, List.filterMap_append, claimed, List.filterMap_flatMap] at hperm
  exact hperm

/-! ## After the round -/

/-- What is at a place after the round. -/
def settledAt? (merges : List Merge) (patterns : List Pattern) (i : Nat) : Option Pattern :=
  patterns[i]?.bind (settle? merges · i)

/-- What a round leaves can be told place by place. -/
theorem settle_eq_filterMap_range (merges : List Merge) (patterns : List Pattern) :
    settle merges patterns =
      (List.range patterns.length).filterMap (settledAt? merges patterns) := by
  have hmap : patterns.zipIdx.map (fun x => (some x.1, x.2)) =
      (List.range patterns.length).map fun i => (patterns[i]?, i) := by
    refine List.ext_getElem (by simp) ?_
    intro i hi hi'
    simp_all
  let at? (x : Option Pattern × Nat) : Option Pattern := x.1.bind (settle? merges · x.2)
  calc settle merges patterns
      = (patterns.zipIdx.map fun x => (some x.1, x.2)).filterMap at? := by
        rw [List.filterMap_map]
        rfl
    _ = ((List.range patterns.length).map fun i => (patterns[i]?, i)).filterMap at? := by
        rw [hmap]
    _ = (List.range patterns.length).filterMap (settledAt? merges patterns) := by
        rw [List.filterMap_map]
        rfl

/-- The result of a merge stands at its slot. -/
theorem settledAt?_slot (h : Disjoint merges patterns) {m : Merge} (hm : m ∈ merges) :
    settledAt? merges patterns m.slot = some m.result := by
  have hlt : m.slot < patterns.length :=
    h.found m.slot (mem_claimed.2 ⟨m, hm, List.mem_cons_self ..⟩)
  simp [settledAt?, List.getElem?_eq_getElem hlt, settle?, h.find?_slot hm]

/-- The other places of a merge are gone. -/
theorem settledAt?_other (h : Disjoint merges patterns) {m : Merge} (hm : m ∈ merges) {i : Nat}
    (hi : i ∈ m.others) : settledAt? merges patterns i = none := by
  have hc : i ∈ claimed merges := mem_claimed.2 ⟨m, hm, List.mem_cons_of_mem _ hi⟩
  have hlt := h.found i hc
  simp [settledAt?, List.getElem?_eq_getElem hlt, settle?, h.find?_other hm hi, hc]

/-- An unclaimed pattern stays at its place. -/
theorem settledAt?_unclaimed {i : Nat} (hi : i ∉ claimed merges) :
    settledAt? merges patterns i = patterns[i]? := by
  have hfind : merges.find? (·.slot = i) = none := by
    apply List.find?_eq_none.2
    intro m hm
    simp only [decide_eq_true_eq]
    rintro rfl
    exact hi (mem_claimed.2 ⟨m, hm, List.mem_cons_self ..⟩)
  simp [settledAt?, settle?, hfind, hi]

/-- A round leaves the results and the unclaimed patterns. -/
theorem settle_perm (h : Disjoint merges patterns) :
    (settle merges patterns).Perm (merges.map Merge.result ++ unclaimed merges patterns) := by
  -- Of the places of a merge, the first gives the merged pattern and the others give nothing.
  have hmerged : ∀ m ∈ merges, m.slots.filterMap (settledAt? merges patterns) = [m.result] := by
    intro m hm
    have hothers : m.others.filterMap (settledAt? merges patterns) = [] :=
      List.filterMap_eq_nil_iff.2 fun i hi => settledAt?_other h hm hi
    rw [Merge.slots, List.filterMap_cons_some (settledAt?_slot h hm), hothers]
  have hperm := h.perm_range.filterMap (settledAt? merges patterns)
  rw [← settle_eq_filterMap_range, List.filterMap_append, claimed, List.filterMap_flatMap] at hperm
  have hresults : (merges.flatMap fun m =>
      (m.slot :: m.others).filterMap (settledAt? merges patterns)) = merges.map Merge.result := by
    rw [← List.flatMap_singleton' (merges.map Merge.result), List.flatMap_map]
    exact List.flatMap_congr hmerged
  have hrest : ((List.range patterns.length).filter (· ∉ claimed merges)).filterMap
      (settledAt? merges patterns) = unclaimed merges patterns := by
    refine List.filterMap_congr fun i hi => settledAt?_unclaimed ?_
    simpa using (List.mem_filter.1 hi).2
  rw [hresults] at hperm
  exact hrest ▸ hperm

/-- After the round there are the merged patterns and those that no merge has claimed. -/
theorem mem_settle (h : Disjoint merges patterns) {p : Pattern} :
    p ∈ settle merges patterns ↔
      (∃ m ∈ merges, m.result = p) ∨ ∃ i, patterns[i]? = some p ∧ i ∉ claimed merges := by
  rw [(settle_perm h).mem_iff, List.mem_append, List.mem_map, mem_unclaimed]

end

end Combine

end SleighForge
