import SleighForge.Combine.Pass
import SleighForge.Proofs.Combine.Reading

/-!
# The narrowest field over numbers

A field is feasible for a group of numbers if it lies on literal bits, covers the bits in which the
members differ and holds the number of each. The merger over numbers takes the narrowest feasible
field whose pattern agrees with no foreign word, and of those of one width the lowest
(`mergeImmediates_narrowest`). It gives up where each of the feasible fields agrees with one, and
fails where there is none. The order of the members has no part in this.
-/

namespace SleighForge

/-- The field is narrower than another, or as wide and not above it. -/
def BitField.Precedes (f g : BitField) : Prop :=
  f.width < g.width ∨ f.width = g.width ∧ f.lo ≤ g.lo

namespace Combine

/-- The field is over numbers, with a sign if one of them is negative. It lies on literal bits of the
members, covers all bits in which they differ, and holds the number of each, in two's complement if
it is negative. -/
structure Feasible (members : List Pattern) (position : Nat) (f : BitField) : Prop where
  kind : f.kind = .immediate
  signed : f.signed = true ↔ ∃ p ∈ members, ∃ v, valueAt? position p = some v ∧ v < 0
  inside : ∀ p ∈ members, f.hi ≤ p.width
  literal : ∀ p ∈ members, ∀ i, f.lo ≤ i → i < f.hi →
    p.encoding.literalMask.testBit i = true
  covers : ∀ p ∈ members, ∀ q ∈ members, ∀ i, DiffersAt p q i → f.lo ≤ i ∧ i < f.hi
  holds : ∀ p ∈ members, ∀ v, valueAt? position p = some v →
    -2 ^ (f.width - 1) ≤ v ∧ v < 2 ^ f.width ∧
      v % 2 ^ f.width = bitSlice p.encoding.literalValue f.lo f.width

/-- The field is the first, by width and then by place, of those that are feasible and collide with
none of the words. -/
structure Narrowest (members : List Pattern) (position : Nat) (p : Pattern) (foreign : List Int)
    (f : BitField) : Prop where
  feasible : Feasible members position f
  free : ¬ Collides p f foreign
  least : ∀ g, Feasible members position g → ¬ Collides p g foreign → f.Precedes g

/-- The fault of a group whose numbers have no place. It names the bits that differ. -/
def placementFault (first : Pattern) (rest : List Pattern) (position : Nat) : CombineFault :=
  ⟨.immediatePlacement position ((bitPositions (varyingMask first rest)).map Int.ofNat),
    first.mnemonic, (first :: rest).map Pattern.index⟩

/-- How merging over the numbers at a position has to end. -/
inductive Placing (first : Pattern) (rest : List Pattern) (position : Nat) (foreign : List Int) :
    Except CombineFault (Option Pattern) → Prop where
  /-- No bit tells the members from each other, or no field holds the numbers. -/
  | nowhere (h : SameBits (first :: rest) ∨ ∀ f, ¬ Feasible (first :: rest) position f) :
    Placing first rest position foreign (.error (placementFault first rest position))
  /-- Every field that holds the numbers would take in a foreign word. -/
  | blocked (hbits : ¬ SameBits (first :: rest))
    (hsome : ∃ f, Feasible (first :: rest) position f)
    (hall : ∀ f, Feasible (first :: rest) position f → Collides first f foreign) :
    Placing first rest position foreign (.ok none)
  /-- The narrowest of the other fields is taken. -/
  | placed (hbits : ¬ SameBits (first :: rest)) (f : BitField)
    (hnarrowest : Narrowest (first :: rest) position first foreign f)
    (hl : first.encoding.IsLiteral f.lo f.hi) :
    Placing first rest position foreign
      (.ok (some (first.generalize position f hl ((first :: rest).flatMap Pattern.examples))))

/-! ## Feasible fields -/

section

variable {members : List Pattern} {position : Nat} {f g : BitField} {p q : Pattern}
  {foreign : List Int}

/-- Whether a field is feasible depends only on which members there are. -/
theorem Feasible.congr {others : List Pattern} (hmem : ∀ p, p ∈ others ↔ p ∈ members)
    (h : Feasible members position f) : Feasible others position f where
  kind := h.kind
  signed := by simpa only [hmem] using h.signed
  inside p hp := h.inside p ((hmem p).1 hp)
  literal p hp := h.literal p ((hmem p).1 hp)
  covers p hp q hq := h.covers p ((hmem p).1 hp) q ((hmem q).1 hq)
  holds p hp := h.holds p ((hmem p).1 hp)

/-- A feasible field is told by its slice. -/
theorem Feasible.eq (hf : Feasible members position f) (hg : Feasible members position g)
    (hwidth : f.width = g.width) (hlo : f.lo = g.lo) : f = g := by
  have hsigned : f.signed = g.signed := Bool.eq_iff_iff.2 (hf.signed.trans hg.signed.symm)
  have hkind : f.kind = g.kind := hf.kind.trans hg.kind.symm
  have hhi : f.hi = g.hi := by rw [← f.lo_add_width, ← g.lo_add_width, hlo, hwidth]
  cases f
  cases g
  simp_all

/-- There is one narrowest field. -/
theorem Narrowest.unique (hf : Narrowest members position p foreign f)
    (hg : Narrowest members position p foreign g) : f = g := by
  have hfg := hf.least g hg.feasible hg.free
  have hgf := hg.least f hf.feasible hf.free
  unfold BitField.Precedes at hfg hgf
  exact hf.feasible.eq hg.feasible (by omega) (by omega)

theorem Feasible.isLiteral (hf : Feasible members position f) (hp : p ∈ members) :
    p.encoding.IsLiteral f.lo f.hi :=
  (Encoding.isLiteral_iff_testBit p.placed f.lo_lt_hi).2 (hf.literal p hp)

/-- With a feasible field opened in them the members agree with the same words. -/
theorem Feasible.collides_iff (hf : Feasible members position f) (hp : p ∈ members)
    (hq : q ∈ members) (hwidth : p.width = q.width) (hfields : p.fields = q.fields) :
    Collides p f foreign ↔ Collides q f foreign := by
  have hagree : Encoding.AgreeOutside f.lo f.hi p.encoding q.encoding :=
    Encoding.agreeOutside_of_testBit p.placed q.placed hwidth hfields (hf.covers p hp q hq)
  have hsame := hagree.agrees_opened p.placed q.placed (hf.isLiteral hp) (hf.isLiteral hq) hwidth
  simp only [Collides, hsame]

/-- Which field is the narrowest does not depend on the order of the members. -/
theorem Narrowest.congr {others : List Pattern} (hmem : ∀ p, p ∈ others ↔ p ∈ members)
    (hp : p ∈ members) (hq : q ∈ members) (hwidth : p.width = q.width)
    (hfields : p.fields = q.fields) (h : Narrowest members position p foreign f) :
    Narrowest others position q foreign f where
  feasible := h.feasible.congr hmem
  free := mt (h.feasible.collides_iff hp hq hwidth hfields).2 h.free
  least g hg hfree := by
    have hfeasible : Feasible members position g := hg.congr fun r => (hmem r).symm
    exact h.least g hfeasible (mt (hfeasible.collides_iff hp hq hwidth hfields).1 hfree)

end

/-! ## Groups -/

namespace ImmediateGroup

/-- The members have the numbers of the group at its position, and are alike in width and fields. -/
structure Uniform (g : ImmediateGroup) : Prop where
  value : ∀ m ∈ g.members, valueAt? g.position m.1 = some m.2
  width : ∀ m ∈ g.members, m.1.width = g.first.1.width
  fields : ∀ m ∈ g.members, m.1.fields = g.first.1.fields

/-- The members without their numbers. -/
def patterns (g : ImmediateGroup) : List Pattern :=
  g.members.map Prod.fst

variable {g : ImmediateGroup} {low top lo width : Nat} {result : Pattern} {foreign : List Int}

/-- A window that is taken is a feasible field. -/
theorem feasible_of_mergedAt? (hg : g.Uniform)
    (hspan : varyingSpan? g.first.1 (g.rest.map (·.1)) = some (low, top))
    (hc : Covers low top g.first.1.width lo width) (h : g.mergedAt? lo width = some result) :
    ∃ (f : BitField) (hl : g.first.1.encoding.IsLiteral f.lo f.hi), f.lo = lo ∧ f.width = width ∧
      Feasible g.patterns g.position f ∧
      result = g.first.1.generalize g.position f hl (g.members.flatMap (·.1.examples)) := by
  obtain ⟨f, hl, hlo, hhi, hkind, hsigned, hholds, heq⟩ := mergedAt?_eq_some h
  have hcover := (varyingSpan?_eq_some hspan).2.1
  refine ⟨f, hl, hlo, by unfold BitField.width; omega, ?_, heq⟩
  constructor
  · exact hkind
  · rw [hsigned]
    exact signed_iff hg.value
  · intro p hp
    obtain ⟨m, hm, rfl⟩ := List.mem_map.1 hp
    rw [hhi, hg.width m hm]
    exact hc.hi_le
  · intro p hp
    obtain ⟨m, hm, rfl⟩ := List.mem_map.1 hp
    have hliteral := (Encoding.isLiteral_congr (hg.width m hm) (hg.fields m hm) f.lo f.hi).2 hl
    exact (Encoding.isLiteral_iff_testBit m.1.placed f.lo_lt_hi).1 hliteral
  · -- The span lists the bits in which a member differs from the first one, so any two differ
    -- there.
    intro p hp q hq i hdiff
    obtain ⟨r, hr, hfirst⟩ := exists_differsAt_first hp hq hdiff
    have := hcover r hr i hfirst
    have := hc.lo_le
    have := hc.le_hi
    omega
  · intro p hp v hv
    obtain ⟨m, hm, rfl⟩ := List.mem_map.1 hp
    rw [hg.value m hm, Option.some.injEq] at hv
    subst hv
    obtain ⟨hlow, hhigh, hbits⟩ := holds_iff.1 (hholds m hm)
    exact ⟨hlow, hhigh, hbits.symm⟩

/-- A feasible field is one of the windows that are tried, and it is taken. -/
theorem mergedAt?_of_feasible {f : BitField} (hg : g.Uniform)
    (hspan : varyingSpan? g.first.1 (g.rest.map (·.1)) = some (low, top))
    (hf : Feasible g.patterns g.position f) :
    Covers low top g.first.1.width f.lo f.width ∧
      ∃ hl, g.mergedAt? f.lo f.width =
        some (g.first.1.generalize g.position f hl (g.members.flatMap (·.1.examples))) := by
  have hfirst : g.first.1 ∈ g.patterns := List.mem_cons_self ..
  constructor
  · obtain ⟨hlt, -, p, hp, hhigh⟩ := varyingSpan?_eq_some hspan
    obtain ⟨q, hq, hlow⟩ := exists_differsAt_of_varyingSpan? hspan
    have hhigh := hf.covers p (List.mem_cons_of_mem _ hp) _ hfirst _ hhigh
    have hlow := hf.covers q (List.mem_cons_of_mem _ hq) _ hfirst _ hlow
    have hinside := hf.inside _ hfirst
    have hsum := f.lo_add_width
    exact ⟨hlow.1, by omega, by omega⟩
  · refine ⟨hf.isLiteral hfirst, mergedAt?_eq hf.kind ?_ _ ?_⟩
    · exact Bool.eq_iff_iff.2 (hf.signed.trans (signed_iff hg.value).symm)
    · intro m hm
      obtain ⟨hlow, hhigh, hbits⟩ := hf.holds m.1 (List.mem_map_of_mem hm) m.2 (hg.value m hm)
      exact holds_iff.2 ⟨hlow, hhigh, hbits.symm⟩

/-- Whether the pattern of a window is taken depends on the foreign words. -/
theorem free_generalize {p : Pattern} {position : Nat} {f : BitField}
    (hl : p.encoding.IsLiteral f.lo f.hi) (examples : List Example) (foreign : List Int) :
    (!foreign.any (p.generalize position f hl examples).encoding.agrees) = true ↔
      ¬ Collides p f foreign := by
  rw [← any_agrees_generalize hl examples, Bool.not_eq_true', Bool.not_eq_true]

/-- The window of a feasible field that collides with no foreign word is taken. -/
theorem isSome_free_of_feasible {f : BitField} (hg : g.Uniform)
    (hspan : varyingSpan? g.first.1 (g.rest.map (·.1)) = some (low, top))
    (hf : Feasible g.patterns g.position f) (hfree : ¬ Collides g.first.1 f foreign) :
    ((g.mergedAt? f.lo f.width).filter fun p => !foreign.any p.encoding.agrees).isSome = true := by
  obtain ⟨-, hl, hmerged⟩ := mergedAt?_of_feasible hg hspan hf
  rw [hmerged, Option.filter_some, if_pos ((free_generalize hl _ _).2 hfree), Option.isSome_some]

/-- Merging a uniform group ends in one of the three ways. -/
theorem placing_merge (hg : g.Uniform) (foreign : List Int) :
    Placing g.first.1 (g.rest.map Prod.fst) g.position foreign (g.merge foreign) := by
  have hexamples : g.members.flatMap (·.1.examples) = g.patterns.flatMap Pattern.examples :=
    (List.flatMap_map ..).symm
  have hfault : g.fault = placementFault g.first.1 (g.rest.map Prod.fst) g.position := by
    have hindices : g.indices = g.patterns.map Pattern.index := List.map_map.symm
    rw [fault, hindices]
    rfl
  unfold merge
  split
  · next hspan =>
    rw [hfault]
    exact .nowhere (.inl (sameBits_cons_iff.2 hspan))
  · next low top hspan =>
    have hbits : ¬ SameBits g.patterns := by
      rw [patterns, members, List.map_cons, sameBits_cons_iff, hspan]
      exact Option.some_ne_none _
    dsimp only
    -- The first search leaves out the windows that collide, the second does not.
    split
    · next result hfound =>
      obtain ⟨lo, width, hcovers, htaken, hleast⟩ := findWindow?_least hfound
      obtain ⟨hmerged, hfree⟩ := Option.filter_eq_some_iff.1 htaken
      obtain ⟨f, hl, rfl, rfl, hfeasible, rfl⟩ :=
        feasible_of_mergedAt? hg hspan hcovers hmerged
      rw [hexamples]
      refine .placed hbits f ⟨hfeasible, (free_generalize hl _ _).1 hfree, ?_⟩ hl
      intro f' hfeasible' hfree'
      have hcovers' := (mergedAt?_of_feasible hg hspan hfeasible').1
      exact hleast _ _ hcovers' (isSome_free_of_feasible hg hspan hfeasible' hfree')
    · next hnone =>
      split
      · next result hfound =>
        obtain ⟨lo, width, hcovers, hmerged, -⟩ := findWindow?_least hfound
        obtain ⟨f, -, -, -, hfeasible, -⟩ := feasible_of_mergedAt? hg hspan hcovers hmerged
        refine .blocked hbits ⟨f, hfeasible⟩ ?_
        intro f' hfeasible'
        have hcovers' := (mergedAt?_of_feasible hg hspan hfeasible').1
        have hnotaken := findWindow?_eq_none hnone hcovers'
        apply Decidable.of_not_not
        intro hfree'
        have htaken := isSome_free_of_feasible hg hspan hfeasible' hfree'
        rw [hnotaken] at htaken
        cases htaken
      · next hnowhere =>
        rw [hfault]
        refine .nowhere (.inr ?_)
        intro f hfeasible
        obtain ⟨hcovers, hl, hmerged⟩ := mergedAt?_of_feasible hg hspan hfeasible
        rw [findWindow?_eq_none hnowhere hcovers] at hmerged
        cases hmerged

end ImmediateGroup

/-! ## The merger -/

/-- How merging ended: with a fault, without a pattern, or with a pattern and its field at the
position. -/
def ending (position : Nat) (out : Except CombineFault (Option Pattern)) :
    Option (Option (Option BitField)) :=
  out.toOption.map fun merged? => merged?.map (fieldAt? · position)

section

variable {first : Pattern} {rest : List Pattern} {position : Nat} {foreign : List Int}
  {out : Except CombineFault (Option Pattern)}

/-- Merging over numbers ends in one of the three ways. -/
theorem placing_mergeImmediates (hwidth : ∀ p ∈ rest, p.width = first.width)
    (hfields : ∀ p ∈ rest, p.fields = first.fields)
    (hvalues : ∀ p ∈ first :: rest, (valueAt? position p).isSome = true) (foreign : List Int) :
    Placing first rest position foreign (mergeImmediates first rest position foreign) := by
  obtain ⟨v, hv⟩ := Option.isSome_iff_exists.1 (hvalues first (List.mem_cons_self ..))
  obtain ⟨ms, hms⟩ :=
    isSome_mapM_withImmediate? fun p hp => hvalues p (List.mem_cons_of_mem _ hp)
  have hfirst : withImmediate? position first = some (first, v) :=
    withImmediate?_eq_some_iff.2 ⟨rfl, hv⟩
  rw [mergeImmediates, hfirst, hms]
  obtain ⟨rfl, hvs⟩ := mapM_withImmediate? hms
  refine ImmediateGroup.placing_merge (g := ⟨(first, v), ms, position⟩) ?_ foreign
  constructor
  · exact List.forall_mem_cons.2 ⟨hv, hvs⟩
  · exact List.forall_mem_cons.2 ⟨rfl, fun m hm => hwidth m.1 (List.mem_map_of_mem hm)⟩
  · exact List.forall_mem_cons.2 ⟨rfl, fun m hm => hfields m.1 (List.mem_map_of_mem hm)⟩

namespace Placing

/-- There is a fault if no bits differ, or if there is no field for them. -/
theorem eq_error_iff (h : Placing first rest position foreign out) {fault : CombineFault} :
    out = .error fault ↔ fault = placementFault first rest position ∧
      (SameBits (first :: rest) ∨ ∀ f, ¬ Feasible (first :: rest) position f) := by
  cases h with
  | nowhere h =>
    constructor
    · intro heq
      exact ⟨(Except.error.inj heq).symm, h⟩
    · rintro ⟨rfl, -⟩
      rfl
  | blocked hbits hsome hall =>
    refine iff_of_false nofun ?_
    rintro ⟨-, hsame | hnone⟩
    · exact hbits hsame
    · obtain ⟨f, hf⟩ := hsome
      exact hnone f hf
  | placed hbits f hnarrowest hl =>
    refine iff_of_false nofun ?_
    rintro ⟨-, hsame | hnone⟩
    · exact hbits hsame
    · exact hnone f hnarrowest.feasible

/-- Nothing is merged if there are fields, and each of them collides with a foreign word. -/
theorem eq_none_iff (h : Placing first rest position foreign out) :
    out = .ok none ↔ ¬ SameBits (first :: rest) ∧
      (∃ f, Feasible (first :: rest) position f) ∧
      ∀ f, Feasible (first :: rest) position f → Collides first f foreign := by
  cases h with
  | nowhere h =>
    refine iff_of_false nofun ?_
    rintro ⟨hbits, ⟨f, hf⟩, -⟩
    rcases h with hsame | hnone
    · exact hbits hsame
    · exact hnone f hf
  | blocked hbits hsome hall => exact iff_of_true rfl ⟨hbits, hsome, hall⟩
  | placed hbits f hnarrowest hl =>
    refine iff_of_false nofun ?_
    rintro ⟨-, -, hall⟩
    exact hnarrowest.free (hall f hnarrowest.feasible)

/-- Otherwise the field that is opened is the narrowest one. -/
theorem eq_some_iff (h : Placing first rest position foreign out) {result : Pattern} :
    out = .ok (some result) ↔ ¬ SameBits (first :: rest) ∧
      ∃ (f : BitField) (hl : first.encoding.IsLiteral f.lo f.hi),
        Narrowest (first :: rest) position first foreign f ∧
        result = first.generalize position f hl ((first :: rest).flatMap Pattern.examples) := by
  cases h with
  | nowhere h =>
    refine iff_of_false nofun ?_
    rintro ⟨hbits, f, -, hf, -⟩
    rcases h with hsame | hnone
    · exact hbits hsame
    · exact hnone f hf.feasible
  | blocked hbits hsome hall =>
    refine iff_of_false nofun ?_
    rintro ⟨-, f, -, hf, -⟩
    exact hf.free (hall f hf.feasible)
  | placed hbits f hnarrowest hl =>
    constructor
    · intro heq
      exact ⟨hbits, f, hl, hnarrowest, (Option.some.inj (Except.ok.inj heq)).symm⟩
    · rintro ⟨-, f', hl', hnarrowest', rfl⟩
      -- A narrowest field is the only one, and the pattern is made of it.
      obtain rfl := hnarrowest.unique hnarrowest'
      rfl

theorem fieldAt?_generalize {p : Pattern} {position : Nat} {f : BitField}
    (hposition : position < p.operands.length) (hl : p.encoding.IsLiteral f.lo f.hi)
    (examples : List Example) :
    fieldAt? (p.generalize position f hl examples) position = some f := by
  have hop : (p.generalize position f hl examples).operands[position]? = some (.field f) :=
    List.getElem?_set_self hposition
  rw [fieldAt?, hop]
  rfl

/-- Merging ends the same way for members in any order. -/
theorem ending_eq {first' : Pattern} {rest' : List Pattern}
    {out' : Except CombineFault (Option Pattern)}
    (h : Placing first rest position foreign out) (h' : Placing first' rest' position foreign out')
    (hmem : ∀ p, p ∈ first' :: rest' ↔ p ∈ first :: rest) (hwidth : first.width = first'.width)
    (hfields : first.fields = first'.fields)
    (hposition : ∀ p ∈ first :: rest, position < p.operands.length) :
    ending position out' = ending position out := by
  have hfirst : first ∈ first :: rest := List.mem_cons_self ..
  have hfirst' : first' ∈ first :: rest := (hmem first').1 (List.mem_cons_self ..)
  cases h with
  | nowhere h =>
    have hnowhere : SameBits (first' :: rest') ∨ ∀ f, ¬ Feasible (first' :: rest') position f :=
      h.imp (SameBits.congr hmem) fun hnone f hf => hnone f (hf.congr fun p => (hmem p).symm)
    rw [h'.eq_error_iff.2 ⟨rfl, hnowhere⟩]
    rfl
  | blocked hbits hsome hall =>
    have hblocked : out' = .ok none := by
      refine h'.eq_none_iff.2 ⟨?_, ?_, ?_⟩
      · exact mt (SameBits.congr fun p => (hmem p).symm) hbits
      · obtain ⟨f, hf⟩ := hsome
        exact ⟨f, hf.congr hmem⟩
      · intro f hf
        have hfeasible : Feasible (first :: rest) position f := hf.congr fun p => (hmem p).symm
        exact (hfeasible.collides_iff hfirst hfirst' hwidth hfields).1 (hall f hfeasible)
    rw [hblocked]
  | placed hbits f hnarrowest hl =>
    have hl' : first'.encoding.IsLiteral f.lo f.hi := hnarrowest.feasible.isLiteral hfirst'
    rw [h'.eq_some_iff.2 ⟨mt (SameBits.congr fun p => (hmem p).symm) hbits, f, hl',
      hnarrowest.congr hmem hfirst hfirst' hwidth hfields, rfl⟩]
    -- The merged patterns may differ in their mnemonic and examples, not in the field they place.
    show some (some (fieldAt? _ position)) = some (some (fieldAt? _ position))
    rw [fieldAt?_generalize (hposition first' hfirst'),
      fieldAt?_generalize (hposition first hfirst)]

end Placing

/-- Merging over numbers takes the narrowest field that is feasible and collides with no foreign
word. It gives up if all feasible fields collide, and it fails if there is none or if no bit tells
the members from each other. -/
theorem mergeImmediates_narrowest (first : Pattern) (rest : List Pattern) (position : Nat)
    (foreign : List Int)
    (hwidth : ∀ p ∈ rest, p.width = first.width) (hfields : ∀ p ∈ rest, p.fields = first.fields)
    (hvalues : ∀ p ∈ first :: rest, (valueAt? position p).isSome = true) :
    let members := first :: rest
    let out := mergeImmediates first rest position foreign
    (∀ fault, out = .error fault ↔ fault = placementFault first rest position ∧
      (SameBits members ∨ ∀ f, ¬ Feasible members position f)) ∧
    (out = .ok none ↔ ¬ SameBits members ∧ (∃ f, Feasible members position f) ∧
      ∀ f, Feasible members position f → Collides first f foreign) ∧
    (∀ result, out = .ok (some result) ↔ ¬ SameBits members ∧
      ∃ (f : BitField) (hl : first.encoding.IsLiteral f.lo f.hi),
        Narrowest members position first foreign f ∧
        result = first.generalize position f hl (members.flatMap Pattern.examples)) ∧
    (∀ first' rest', (first' :: rest').Perm members →
      ending position (mergeImmediates first' rest' position foreign) = ending position out) ∧
    ((∀ word ∈ foreign, 0 ≤ word ∧ word < 2 ^ first.width) →
      ∀ f, Feasible members position f →
        (Collides first f foreign ↔
          ∃ word ∈ foreign, (first.encoding.opened f).accepts word = true)) := by
  intro members out
  have hplacing : Placing first rest position foreign out :=
    placing_mergeImmediates hwidth hfields hvalues foreign
  have hshape (p : Pattern) (hp : p ∈ members) :
      p.width = first.width ∧ p.fields = first.fields := by
    rcases List.mem_cons.1 hp with rfl | hp
    · exact ⟨rfl, rfl⟩
    · exact ⟨hwidth p hp, hfields p hp⟩
  refine ⟨fun fault => hplacing.eq_error_iff, hplacing.eq_none_iff,
    fun result => hplacing.eq_some_iff, ?_, ?_⟩
  · intro first' rest' hperm
    have hmem (p : Pattern) : p ∈ first' :: rest' ↔ p ∈ members := hperm.mem_iff
    have hfirst' := hshape first' ((hmem first').1 (List.mem_cons_self ..))
    -- The hypotheses compare with the first member, and after a permutation that is another one.
    have hplacing' : Placing first' rest' position foreign
        (mergeImmediates first' rest' position foreign) := by
      refine placing_mergeImmediates ?_ ?_ (fun p hp => hvalues p ((hmem p).1 hp)) foreign
      · intro p hp
        rw [(hshape p ((hmem p).1 (List.mem_cons_of_mem _ hp))).1, hfirst'.1]
      · intro p hp
        rw [(hshape p ((hmem p).1 (List.mem_cons_of_mem _ hp))).2, hfirst'.2]
    refine hplacing.ending_eq hplacing' hmem hfirst'.1.symm hfirst'.2.symm ?_
    intro p hp
    obtain ⟨v, hv⟩ := Option.isSome_iff_exists.1 (hvalues p hp)
    obtain ⟨spelling, hop⟩ := valueAt?_eq_some_iff.1 hv
    exact (List.getElem?_eq_some_iff.1 hop).1
  · intro hwords f hf
    exact collides_iff_accepts (hf.isLiteral (List.mem_cons_self ..)) hwords

end

/-- An addition whose byte is its number. -/
def additionOf (n : Nat) : Pattern :=
  addition (byteWord n) n n

/-- The two lowest bits as a number. -/
def lowPair : BitField :=
  ⟨0, 2, .immediate, false, by decide⟩

/-- Two bits are the narrowest field that is free of the word 0x80, and no field is free of 0. -/
theorem mergeImmediates_narrowest_bytes :
    Narrowest [additionOf 1, additionOf 2] 1 (additionOf 1) [0x80] lowPair ∧
      (∃ f, Feasible [additionOf 1, additionOf 2] 1 f) ∧
      ∀ f, Feasible [additionOf 1, additionOf 2] 1 f → Collides (additionOf 1) f [0] := by
  have hmerge : mergeImmediates (additionOf 1) [additionOf 2] 1 [0x80] =
      .ok (some ((additionOf 1).generalize 1 lowPair (by decide)
        ([additionOf 1, additionOf 2].flatMap Pattern.examples))) := by decide +kernel
  have hblocked : mergeImmediates (additionOf 1) [additionOf 2] 1 [0] = .ok none := by
    decide +kernel
  have hsome := (mergeImmediates_narrowest (additionOf 1) [additionOf 2] 1 [0x80] (by decide)
    (by decide) (by decide)).2.2.1
  have hnone := (mergeImmediates_narrowest (additionOf 1) [additionOf 2] 1 [0] (by decide)
    (by decide) (by decide)).2.1
  obtain ⟨-, f, hl, hnarrowest, heq⟩ := (hsome _).1 hmerge
  have hop := congrArg (fieldAt? · 1) heq
  obtain rfl : lowPair = f := Option.some.inj hop
  exact ⟨hnarrowest, (hnone.1 hblocked).2⟩

/-- The lowest bit as a number. -/
def lowestBit : BitField :=
  ⟨0, 1, .immediate, false, by decide⟩

theorem feasible_lowestBit : Feasible [additionOf 1] 1 lowestBit where
  kind := rfl
  signed := by
    refine iff_of_false (by decide) ?_
    rintro ⟨p, hp, v, hv, hneg⟩
    rw [List.mem_singleton.1 hp] at hv
    obtain rfl : 1 = v := Option.some.inj hv
    omega
  inside := by decide
  literal p hp i _ hhi := by
    obtain rfl : i = 0 := Nat.lt_one_iff.1 hhi
    rw [List.mem_singleton.1 hp]
    decide
  covers p hp q hq i hdiff := by
    rw [List.mem_singleton.1 hp, List.mem_singleton.1 hq] at hdiff
    exact absurd rfl hdiff
  holds p hp v hv := by
    rw [List.mem_singleton.1 hp] at hv ⊢
    obtain rfl : 1 = v := Option.some.inj hv
    decide

/-- A field that holds the number of a lone addition of one takes in the word zero. -/
theorem accepts_zero_of_feasible {f : BitField} (h : Feasible [additionOf 1] 1 f) :
    ((additionOf 1).encoding.opened f).accepts 0 = true := by
  have hmem : additionOf 1 ∈ [additionOf 1] := List.mem_singleton.2 rfl
  have hhi : f.hi ≤ 8 := h.inside _ hmem
  have hlo : f.lo < 8 := Nat.lt_of_lt_of_le f.lo_lt_hi hhi
  have hbits := (h.holds _ hmem 1 rfl).2.2
  have hall : ∀ lo < 8, ∀ hi ≤ 8, ∀ signed, ∀ hlt : lo < hi,
      1 % 2 ^ (hi - lo) = (bitSlice (additionOf 1).encoding.literalValue lo (hi - lo) : Int) →
      ((additionOf 1).encoding.opened ⟨lo, hi, .immediate, signed, hlt⟩).accepts 0 = true := by
    decide +kernel
  obtain ⟨lo, hi, kind, signed, hlt⟩ := f
  obtain rfl : kind = .immediate := h.kind
  exact hall lo hlo hi hhi signed hlt hbits

/-- A lone instruction is no group, although fields hold its number and each of them takes in a
foreign word. A foreign word that is wider than the instructions counts, although none of them
accepts it. -/
theorem lone_and_wide :
    (∃ fault, mergeImmediates (additionOf 1) [] 1 [0] = .error fault) ∧
    (∃ f, Feasible [additionOf 1] 1 f) ∧
    (∀ f, Feasible [additionOf 1] 1 f →
      ∃ word ∈ [0], ((additionOf 1).encoding.opened f).accepts word = true) ∧
    mergeImmediates (additionOf 1) [additionOf 2] 1 [0x100] = .ok none ∧
    ∃ f, Feasible [additionOf 1, additionOf 2] 1 f ∧
      ∀ word ∈ [0x100], ((additionOf 1).encoding.opened f).accepts word = false := by
  have hblocked : mergeImmediates (additionOf 1) [additionOf 2] 1 [0x100] = .ok none := by
    decide +kernel
  have hplacing : Placing (additionOf 1) [additionOf 2] 1 [0x100] (.ok none) :=
    hblocked ▸ placing_mergeImmediates (by decide) (by decide) (by decide) [0x100]
  obtain ⟨-, ⟨f, hf⟩, -⟩ := hplacing.eq_none_iff.1 rfl
  refine ⟨⟨_, rfl⟩, ⟨lowestBit, feasible_lowestBit⟩, ?_, hblocked, f, hf, ?_⟩
  · intro f hf
    exact ⟨0, List.mem_singleton.2 rfl, accepts_zero_of_feasible hf⟩
  · intro word hword
    rw [List.mem_singleton.1 hword, ← Bool.not_eq_true, Encoding.accepts_iff,
      Encoding.width_opened (additionOf 1).placed (hf.isLiteral (List.mem_cons_self ..))]
    rintro ⟨-, hlt, -⟩
    exact absurd hlt (by decide)

end Combine

end SleighForge
