import SleighForge.Combine.Immediate

/-!
# Varying bits and windows

The bits in which patterns differ span a slice (`varyingSpan?_eq_some`, `isSpan_cons_iff`), if there
are such bits (`varyingSpan?_eq_none_iff`). The windows that are tried for a field are those that
cover that slice and stay inside the word (`mem_windows_iff`), and the narrowest of them is taken,
of one width the lowest (`findWindow?_least`).
-/

namespace SleighForge

namespace Combine

/-! ## Varying bits -/

/-- The literal bits of two patterns differ at a position. -/
def DiffersAt (p q : Pattern) (i : Nat) : Prop :=
  p.encoding.literalValue.testBit i ≠ q.encoding.literalValue.testBit i

/-- The varying bits are those at which another member differs from the first. -/
theorem testBit_varyingMask {first : Pattern} {rest : List Pattern} {i : Nat} :
    (varyingMask first rest).testBit i = true ↔ ∃ p ∈ rest, DiffersAt p first i := by
  -- The fold starts from any mask, or the induction would not go through.
  have hfold : ∀ mask : Nat,
      (rest.foldl (fun mask p =>
        mask ||| (p.encoding.literalValue ^^^ first.encoding.literalValue)) mask).testBit i = true ↔
      mask.testBit i = true ∨ ∃ p ∈ rest, DiffersAt p first i := by
    induction rest with
    | nil => simp
    | cons p rest ih =>
      intro mask
      rw [List.foldl_cons, ih]
      simp [Nat.testBit_or, Nat.testBit_xor, DiffersAt, or_assoc]
  exact (hfold 0).trans (by simp)

/-- The positions of a mask are those of its ones. -/
theorem mem_bitPositions {mask i : Nat} : i ∈ bitPositions mask ↔ mask.testBit i = true := by
  simp only [bitPositions, List.mem_filter, List.mem_range, and_iff_right_iff_imp]
  intro hbit
  have hpow := Nat.ge_two_pow_of_testBit hbit
  have hne : mask ≠ 0 := by
    rintro rfl
    simp at hbit
  exact Nat.lt_succ_of_le ((Nat.le_log2 hne).2 hpow)

theorem pairwise_bitPositions (mask : Nat) : (bitPositions mask).Pairwise (· < ·) :=
  List.pairwise_lt_range.filter _

/-- The span of the varying bits holds them all, and its highest bit is one of them. -/
theorem varyingSpan?_eq_some {first : Pattern} {rest : List Pattern} {lo hi : Nat}
    (h : varyingSpan? first rest = some (lo, hi)) :
    lo < hi ∧ (∀ p ∈ rest, ∀ i, DiffersAt p first i → lo ≤ i ∧ i < hi) ∧
      ∃ p ∈ rest, DiffersAt p first (hi - 1) := by
  have hsorted := pairwise_bitPositions (varyingMask first rest)
  have hmem : ∀ i, i ∈ bitPositions (varyingMask first rest) ↔ ∃ p ∈ rest, DiffersAt p first i :=
    fun i => mem_bitPositions.trans testBit_varyingMask
  unfold varyingSpan? at h
  dsimp only at h
  split at h
  · next low high hlow hhigh =>
    cases h
    rcases List.head?_eq_some_iff.1 hlow with ⟨above, habove⟩
    rcases List.getLast?_eq_some_iff.1 hhigh with ⟨below, hbelow⟩
    -- The positions ascend, so the first is the least and the last the greatest.
    have hle : ∀ i ∈ bitPositions (varyingMask first rest), lo ≤ i := by
      intro i hi
      rw [habove] at hsorted hi
      rcases List.mem_cons.1 hi with rfl | hi
      · exact Nat.le_refl _
      · exact Nat.le_of_lt ((List.pairwise_cons.1 hsorted).1 i hi)
    have hge : ∀ i ∈ bitPositions (varyingMask first rest), i ≤ high := by
      intro i hi
      rw [hbelow] at hsorted hi
      rcases List.mem_append.1 hi with hi | hi
      · exact Nat.le_of_lt ((List.pairwise_append.1 hsorted).2.2 i hi high (by simp))
      · exact Nat.le_of_eq (List.mem_singleton.1 hi)
    have hin : high ∈ bitPositions (varyingMask first rest) := by rw [hbelow]; simp
    refine ⟨Nat.lt_succ_of_le (hle high hin), ?_, (hmem high).1 hin⟩
    intro p hp i hdiff
    have hi := (hmem i).2 ⟨p, hp, hdiff⟩
    exact ⟨hle i hi, Nat.lt_succ_of_le (hge i hi)⟩
  · cases h

/-- The lowest bit of the span of the varying bits is one of them. -/
theorem exists_differsAt_of_varyingSpan? {first : Pattern} {rest : List Pattern} {lo hi : Nat}
    (h : varyingSpan? first rest = some (lo, hi)) : ∃ p ∈ rest, DiffersAt p first lo := by
  unfold varyingSpan? at h
  dsimp only at h
  split at h
  · next low high hlow hhigh =>
    cases h
    have hmem : lo ∈ bitPositions (varyingMask first rest) := List.mem_of_head? hlow
    exact testBit_varyingMask.1 (mem_bitPositions.1 hmem)
  · cases h

/-- There is no span exactly if no member differs from the first. -/
theorem varyingSpan?_eq_none_iff {first : Pattern} {rest : List Pattern} :
    varyingSpan? first rest = none ↔ ∀ p ∈ rest, ∀ i, ¬ DiffersAt p first i := by
  have hmem : ∀ i, i ∈ bitPositions (varyingMask first rest) ↔ ∃ p ∈ rest, DiffersAt p first i :=
    fun i => mem_bitPositions.trans testBit_varyingMask
  unfold varyingSpan?
  dsimp only
  cases hbits : bitPositions (varyingMask first rest) with
  | nil =>
    refine iff_of_true rfl ?_
    intro p hp i hdiff
    have := (hmem i).2 ⟨p, hp, hdiff⟩
    rw [hbits] at this
    cases this
  | cons i bits =>
    rw [List.head?_cons, List.getLast?_cons]
    refine iff_of_false (by simp) ?_
    intro h
    obtain ⟨p, hp, hdiff⟩ := (hmem i).1 (by rw [hbits]; exact List.mem_cons_self ..)
    exact h p hp i hdiff

/-! ## Groups -/

/-- The literal bits of the members are the same. -/
def SameBits (members : List Pattern) : Prop :=
  ∀ p ∈ members, ∀ q ∈ members, p.encoding.literalValue = q.encoding.literalValue

section

variable {members : List Pattern}

/-- Members have the same bits if no two of them differ anywhere. -/
theorem sameBits_iff :
    SameBits members ↔ ∀ p ∈ members, ∀ q ∈ members, ∀ i, ¬ DiffersAt p q i := by
  constructor
  · intro h p hp q hq i hdiff
    exact hdiff (by rw [h p hp q hq])
  · intro h p hp q hq
    refine Nat.eq_of_testBit_eq ?_
    intro i
    exact Decidable.of_not_not (h p hp q hq i)

theorem SameBits.congr {others : List Pattern} (hmem : ∀ p, p ∈ others ↔ p ∈ members)
    (h : SameBits members) : SameBits others := by
  intro p hp q hq
  exact h p ((hmem p).1 hp) q ((hmem q).1 hq)

/-- If two members differ in a bit, one of them differs there from the first. -/
theorem exists_differsAt_first {first p q : Pattern} {rest : List Pattern} {i : Nat}
    (hp : p ∈ first :: rest) (hq : q ∈ first :: rest) (h : DiffersAt p q i) :
    ∃ r ∈ rest, DiffersAt r first i := by
  by_cases hfirst : DiffersAt p first i
  · rcases List.mem_cons.1 hp with rfl | hrest
    · exact absurd rfl hfirst
    · exact ⟨p, hrest, hfirst⟩
  · have hother : DiffersAt q first i := by
      intro hsame
      exact h ((Decidable.of_not_not hfirst).trans hsame.symm)
    rcases List.mem_cons.1 hq with rfl | hrest
    · exact absurd rfl hother
    · exact ⟨q, hrest, hother⟩

/-- There is no span exactly if all bits are the same. -/
theorem sameBits_cons_iff {first : Pattern} {rest : List Pattern} :
    SameBits (first :: rest) ↔ varyingSpan? first rest = none := by
  rw [varyingSpan?_eq_none_iff, sameBits_iff]
  constructor
  · intro h p hp
    exact h p (List.mem_cons_of_mem _ hp) first (List.mem_cons_self ..)
  · intro h p hp q hq i hdiff
    obtain ⟨r, hr, hfirst⟩ := exists_differsAt_first hp hq hdiff
    exact h r hr i hfirst

/-- The slice is the span of the bits in which the members differ. -/
structure IsSpan (members : List Pattern) (lo hi : Nat) : Prop where
  covers : ∀ p ∈ members, ∀ q ∈ members, ∀ i, DiffersAt p q i → lo ≤ i ∧ i < hi
  low : ∃ p ∈ members, ∃ q ∈ members, DiffersAt p q lo
  high : ∃ p ∈ members, ∃ q ∈ members, DiffersAt p q (hi - 1)

theorem IsSpan.lo_lt_hi {lo hi : Nat} (h : IsSpan members lo hi) : lo < hi := by
  obtain ⟨p, hp, q, hq, hdiff⟩ := h.low
  exact (h.covers p hp q hq lo hdiff).2

theorem IsSpan.not_sameBits {lo hi : Nat} (h : IsSpan members lo hi) : ¬ SameBits members := by
  obtain ⟨p, hp, q, hq, hdiff⟩ := h.low
  exact fun hsame => sameBits_iff.1 hsame p hp q hq lo hdiff

theorem IsSpan.unique {lo hi lo' hi' : Nat} (h : IsSpan members lo hi)
    (h' : IsSpan members lo' hi') : lo = lo' ∧ hi = hi' := by
  have hle {lo hi lo' hi' : Nat} (h : IsSpan members lo hi) (h' : IsSpan members lo' hi') :
      lo ≤ lo' ∧ hi' ≤ hi := by
    obtain ⟨p, hp, q, hq, hlow⟩ := h'.low
    obtain ⟨r, hr, s, hs, hhigh⟩ := h'.high
    have := (h.covers p hp q hq lo' hlow).1
    have := (h.covers r hr s hs (hi' - 1) hhigh).2
    omega
  have := hle h h'
  have := hle h' h
  omega

/-- The span that is computed from the first member is that of the group. -/
theorem isSpan_cons_iff {first : Pattern} {rest : List Pattern} {lo hi : Nat} :
    IsSpan (first :: rest) lo hi ↔ varyingSpan? first rest = some (lo, hi) := by
  have hspan {lo hi : Nat} (h : varyingSpan? first rest = some (lo, hi)) :
      IsSpan (first :: rest) lo hi := by
    obtain ⟨-, hcover, p, hp, hhigh⟩ := varyingSpan?_eq_some h
    obtain ⟨q, hq, hlow⟩ := exists_differsAt_of_varyingSpan? h
    constructor
    · intro p hp q hq i hdiff
      obtain ⟨r, hr, hfirst⟩ := exists_differsAt_first hp hq hdiff
      exact hcover r hr i hfirst
    · exact ⟨q, List.mem_cons_of_mem _ hq, first, List.mem_cons_self .., hlow⟩
    · exact ⟨p, List.mem_cons_of_mem _ hp, first, List.mem_cons_self .., hhigh⟩
  constructor
  · intro h
    cases hcomputed : varyingSpan? first rest with
    | none => exact absurd (sameBits_cons_iff.2 hcomputed) h.not_sameBits
    | some span =>
      obtain ⟨lo', hi'⟩ := span
      obtain ⟨rfl, rfl⟩ := h.unique (hspan hcomputed)
      rfl
  · exact hspan

end

/-! ## Windows -/

/-- The window `[lo, lo + width)` covers `[low, top)` and is inside `[0, total)`. -/
structure Covers (low top total lo width : Nat) : Prop where
  lo_le : lo ≤ low
  le_hi : top ≤ lo + width
  hi_le : lo + width ≤ total

/-- The windows that are tried. -/
theorem mem_windows_iff {low top total lo width : Nat} :
    width ∈ windowWidths low top total ∧ lo ∈ windowPlaces low top total width ↔
      Covers low top total lo width := by
  simp only [windowWidths, windowPlaces, List.mem_range'_1]
  constructor
  · intro h
    exact ⟨by omega, by omega, by omega⟩
  · rintro ⟨hlo, hhi, htotal⟩
    omega

/-- Going through numbers in ascending order finds the least one for which there is a result. -/
theorem findSome?_least {α : Type} {numbers : List Nat} (hsorted : numbers.Pairwise (· < ·))
    {f : Nat → Option α} {a : α} (h : numbers.findSome? f = some a) :
    ∃ n ∈ numbers, f n = some a ∧ ∀ m ∈ numbers, (f m).isSome = true → n ≤ m := by
  obtain ⟨below, n, above, rfl, hn, hbelow⟩ := List.findSome?_eq_some_iff.1 h
  refine ⟨n, by simp, hn, ?_⟩
  intro m hm hsome
  rcases List.mem_append.1 hm with hm | hm
  · rw [hbelow m hm] at hsome
    cases hsome
  · rcases List.mem_cons.1 hm with rfl | hm
    · exact Nat.le_refl m
    · have habove := (List.pairwise_cons.1 (List.pairwise_append.1 hsorted).2.1).1 m hm
      exact Nat.le_of_lt habove

/-- The window that is found is the narrowest with a result, and the lowest of those. -/
theorem findWindow?_least {α : Type} {low top total : Nat} {f : Nat → Nat → Option α} {a : α}
    (h : findWindow? low top total f = some a) :
    ∃ lo width, Covers low top total lo width ∧ f lo width = some a ∧
      ∀ lo' width', Covers low top total lo' width' → (f lo' width').isSome = true →
        width < width' ∨ width = width' ∧ lo ≤ lo' := by
  obtain ⟨width, hwidth, hplace, hnarrow⟩ := findSome?_least List.pairwise_lt_range' h
  obtain ⟨lo, hlo, hresult, hlow⟩ := findSome?_least List.pairwise_lt_range' hplace
  refine ⟨lo, width, mem_windows_iff.1 ⟨hwidth, hlo⟩, hresult, ?_⟩
  intro lo' width' hcovers hsome
  obtain ⟨hwidth', hlo'⟩ := mem_windows_iff.2 hcovers
  have hle : width ≤ width' :=
    hnarrow width' hwidth' (List.findSome?_isSome_iff.2 ⟨lo', hlo', hsome⟩)
  rcases Nat.eq_or_lt_of_le hle with rfl | hlt
  · exact .inr ⟨rfl, hlow lo' hlo' hsome⟩
  · exact .inl hlt

/-- A window that is found covers the span and passes the test. -/
theorem findWindow?_eq_some {α : Type} {low top total : Nat} {f : Nat → Nat → Option α} {a : α}
    (h : findWindow? low top total f = some a) :
    ∃ lo width, Covers low top total lo width ∧ f lo width = some a := by
  obtain ⟨lo, width, hcovers, hresult, -⟩ := findWindow?_least h
  exact ⟨lo, width, hcovers, hresult⟩

/-- If no window is found, none that covers the span passes the test. -/
theorem findWindow?_eq_none {α : Type} {low top total : Nat} {f : Nat → Nat → Option α}
    (h : findWindow? low top total f = none) {lo width : Nat}
    (hcovers : Covers low top total lo width) : f lo width = none := by
  obtain ⟨hwidth, hlo⟩ := mem_windows_iff.2 hcovers
  exact List.findSome?_eq_none_iff.1 (List.findSome?_eq_none_iff.1 h width hwidth) lo hlo

end Combine

end SleighForge
