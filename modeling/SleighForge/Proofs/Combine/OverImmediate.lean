import SleighForge.Proofs.Combine.Merged

/-!
# Merging over a number, as a whole

What the merger over numbers does is said once (`mergeImmediates_spec`): the field covers the bits
that vary, holds the number of each pattern, and is signed where one of the numbers is negative. It
fails only for want of a window (`mergeImmediates_fault`).
-/

namespace SleighForge

namespace Combine

/-- The number that a pattern has for its operand at the position. -/
def valueAt? (position : Nat) (p : Pattern) : Option Int :=
  p.operands[position]?.bind Operand.immediate?

theorem valueAt?_eq_some_iff {position : Nat} {p : Pattern} {v : Int} :
    valueAt? position p = some v ↔
      ∃ spelling, p.operands[position]? = some (.immediate v spelling) := by
  rw [valueAt?, Option.bind_eq_some_iff]
  constructor
  · rintro ⟨op, hop, hv⟩
    cases op with
    | immediate v' spelling =>
      cases hv
      exact ⟨spelling, hop⟩
    | _ => cases hv
  · rintro ⟨spelling, hop⟩
    exact ⟨_, hop, rfl⟩

/-- A field over the numbers that patterns have at a position. -/
structure OverImmediate (members : List Pattern) (position : Nat) (f : BitField) : Prop where
  kind : f.kind = .immediate
  holds : ∀ p ∈ members, ∃ v, valueAt? position p = some v ∧ holds p v f.lo f.width = true
  signed : f.signed = true ↔ ∃ p ∈ members, ∃ v, valueAt? position p = some v ∧ v < 0

/-- A slice holds a number that its bits can mean, read with a sign or without. -/
theorem holds_iff {p : Pattern} {v : Int} {lo width : Nat} :
    holds p v lo width = true ↔ -2 ^ (width - 1) ≤ v ∧ v < 2 ^ width ∧
      (bitSlice p.encoding.literalValue lo width : Int) = v % 2 ^ width := by
  have hslice : (bitSlice v 0 width : Int) = v % 2 ^ width := by simp [natCast_bitSlice]
  rw [← hslice, Int.natCast_inj]
  simp [holds, fitsBits, and_assoc]

/-- A field over the numbers of a group shows the number of each member. -/
theorem OverImmediate.merged {first result : Pattern} {rest : List Pattern} {position : Nat}
    {foreign : List Int} {f : BitField} (h : OverImmediate (first :: rest) position f)
    (ho : OpenedBy first rest position foreign f result) (tables : Tables) :
    Merged tables first rest position foreign f result where
  toOpenedBy := ho
  shows p hp := by
    rcases h.holds p hp with ⟨v, hv, hholds⟩
    rcases valueAt?_eq_some_iff.1 hv with ⟨spelling, hop⟩
    exact ⟨_, hop, h.kind, holds_iff.1 hholds⟩
  hasTable id hkind := by
    rw [h.kind] at hkind
    cases hkind
  selected id hkind := by
    rw [h.kind] at hkind
    cases hkind

/-! ## Reading the numbers -/

/-- A pattern is paired with its number. -/
theorem withImmediate?_eq_some_iff {position : Nat} {p : Pattern} {m : Pattern × Int} :
    withImmediate? position p = some m ↔ m.1 = p ∧ valueAt? position p = some m.2 := by
  rw [withImmediate?, Option.map_eq_some_iff]
  constructor
  · rintro ⟨v, hv, rfl⟩
    exact ⟨rfl, hv⟩
  · rintro ⟨rfl, hv⟩
    exact ⟨m.2, hv, rfl⟩

theorem mapM_withImmediate? {position : Nat} {patterns : List Pattern}
    {ms : List (Pattern × Int)} (h : patterns.mapM (withImmediate? position) = some ms) :
    ms.map Prod.fst = patterns ∧ ∀ m ∈ ms, valueAt? position m.1 = some m.2 := by
  induction patterns generalizing ms with
  | nil =>
    cases h
    exact ⟨rfl, by simp⟩
  | cons p patterns ih =>
    simp only [List.mapM_cons, Option.bind_eq_bind, Option.bind_eq_some_iff] at h
    rcases h with ⟨m, hm, ms', hms, heq⟩
    cases heq
    rcases withImmediate?_eq_some_iff.1 hm with ⟨rfl, hv⟩
    rcases ih hms with ⟨hmap, hall⟩
    refine ⟨by rw [List.map_cons, hmap], ?_⟩
    intro m' hm'
    rcases List.mem_cons.1 hm' with rfl | hm'
    · exact hv
    · exact hall m' hm'

theorem isSome_mapM_withImmediate? {position : Nat} {patterns : List Pattern}
    (h : ∀ p ∈ patterns, (valueAt? position p).isSome) :
    ∃ ms, patterns.mapM (withImmediate? position) = some ms := by
  induction patterns with
  | nil => exact ⟨[], rfl⟩
  | cons p patterns ih =>
    rcases Option.isSome_iff_exists.1 (h p (List.mem_cons_self ..)) with ⟨v, hv⟩
    rcases ih fun q hq => h q (List.mem_cons_of_mem _ hq) with ⟨ms, hms⟩
    have hp : withImmediate? position p = some (p, v) := withImmediate?_eq_some_iff.2 ⟨rfl, hv⟩
    exact ⟨(p, v) :: ms, by simp [hp, hms]⟩

/-! ## The merged pattern -/

namespace ImmediateGroup

/-- What is merged at a slice is opened there, and every member's number is held by it. -/
theorem mergedAt?_eq_some {g : ImmediateGroup} {lo width : Nat} {result : Pattern}
    (h : g.mergedAt? lo width = some result) :
    ∃ (f : BitField) (hl : g.first.1.encoding.IsLiteral f.lo f.hi),
      f.lo = lo ∧ f.hi = lo + width ∧ f.kind = .immediate ∧ f.signed = g.signed ∧
      (∀ m ∈ g.members, Combine.holds m.1 m.2 f.lo f.width = true) ∧
      result = g.first.1.generalize g.position f hl (g.members.flatMap (·.1.examples)) := by
  unfold mergedAt? at h
  split at h
  · next hpos =>
    dsimp only at h
    split at h
    · next hl =>
      split at h
      · next hall =>
        cases h
        refine ⟨_, hl, rfl, rfl, rfl, rfl, ?_, rfl⟩
        intro m hm
        have hwidth : lo + width - lo = width := by omega
        simpa [BitField.width, hwidth] using List.all_eq_true.1 hall m hm
      · cases h
    · cases h
  · cases h

/-- The window of a field that holds the numbers is taken. -/
theorem mergedAt?_eq {g : ImmediateGroup} {f : BitField} (hkind : f.kind = .immediate)
    (hsigned : f.signed = g.signed) (hl : g.first.1.encoding.IsLiteral f.lo f.hi)
    (hholds : ∀ m ∈ g.members, Combine.holds m.1 m.2 f.lo f.width = true) :
    g.mergedAt? f.lo f.width =
      some (g.first.1.generalize g.position f hl (g.members.flatMap (·.1.examples))) := by
  obtain ⟨lo, hi, kind, signed, hlt⟩ := f
  obtain ⟨width, rfl⟩ := Nat.exists_eq_add_of_le (Nat.le_of_lt hlt)
  dsimp only at hkind hsigned
  subst hkind hsigned
  have hwidth : (BitField.mk lo (lo + width) .immediate g.signed hlt).width = width :=
    Nat.add_sub_cancel_left ..
  rw [hwidth] at hholds ⊢
  have hpos : 0 < width := by omega
  rw [mergedAt?, dif_pos hpos]
  dsimp only
  rw [dif_pos hl, if_pos (List.all_eq_true.2 hholds)]

/-- The field is signed if one of the numbers is negative. -/
theorem signed_iff {g : ImmediateGroup}
    (hvalues : ∀ m ∈ g.members, valueAt? g.position m.1 = some m.2) :
    g.signed = true ↔
      ∃ p ∈ g.members.map Prod.fst, ∃ v, valueAt? g.position p = some v ∧ v < 0 := by
  rw [signed, List.any_eq_true]
  constructor
  · rintro ⟨m, hm, hneg⟩
    exact ⟨m.1, List.mem_map_of_mem hm, m.2, hvalues m hm, by simpa using hneg⟩
  · rintro ⟨p, hp, v, hv, hneg⟩
    rcases List.mem_map.1 hp with ⟨m, hm, rfl⟩
    rw [hvalues m hm, Option.some.injEq] at hv
    exact ⟨m, hm, by simpa [hv] using hneg⟩

/-- A merge over numbers opens a field of literal bits that holds the number of each member. -/
theorem merge_spec {g : ImmediateGroup} {foreign : List Int} {result : Pattern}
    (hvalues : ∀ m ∈ g.members, valueAt? g.position m.1 = some m.2)
    (h : g.merge foreign = .ok (some result)) :
    ∃ f, OpenedBy g.first.1 (g.rest.map Prod.fst) g.position foreign f result ∧
      OverImmediate (g.members.map Prod.fst) g.position f := by
  unfold merge at h
  split at h
  · cases h
  · next low top hspan =>
    rcases varyingSpan?_eq_some hspan with ⟨-, hcover, hvaries⟩
    dsimp only at h
    split at h
    · next hfound =>
      cases h
      rcases findWindow?_eq_some hfound with ⟨lo, width, hwindow, hmerged⟩
      rcases Option.filter_eq_some_iff.1 hmerged with ⟨hmerged, hfree⟩
      rcases mergedAt?_eq_some hmerged with ⟨f, hl, hlo, hhi, hkind, hsigned, hholds, heq⟩
      have heq' : result = g.first.1.generalize g.position f hl
          ((g.first.1 :: g.rest.map Prod.fst).flatMap Pattern.examples) := by
        rw [heq]
        congr 1
        exact (List.flatMap_map ..).symm
      refine ⟨f, ⟨hl, heq', ?_, ?_, ?_⟩, hkind, ?_, hsigned ▸ signed_iff hvalues⟩
      · intro p hp i hi
        have := hcover p hp i hi
        have := hwindow.lo_le
        have := hwindow.le_hi
        omega
      · rcases hvaries with ⟨p, hp, hdiff⟩
        exact ⟨p, hp, _, hdiff⟩
      · intro word hword
        simp only [Bool.not_eq_true', List.any_eq_false] at hfree
        simpa using hfree word hword
      · intro p hp
        rcases List.mem_map.1 hp with ⟨m, hm, rfl⟩
        exact ⟨m.2, hvalues m hm, hholds m hm⟩
    · -- No window is taken: the group is refused or has no place.
      split at h <;> cases h

/-- There is one fault that a merge over numbers can make. -/
theorem merge_fault {g : ImmediateGroup} {foreign : List Int} {fault : CombineFault}
    (h : g.merge foreign = .error fault) : fault = g.fault := by
  unfold merge at h
  split at h
  · cases h
    rfl
  · dsimp only at h
    split at h
    · cases h
    · split at h
      · cases h
      · cases h
        rfl

end ImmediateGroup

section

variable {first result : Pattern} {rest : List Pattern} {position : Nat} {foreign : List Int}

/-- What the merger over numbers makes of patterns, where it makes one of them. -/
theorem mergeImmediates_spec
    (h : mergeImmediates first rest position foreign = .ok (some result)) :
    ∃ f, OpenedBy first rest position foreign f result ∧
      OverImmediate (first :: rest) position f := by
  unfold mergeImmediates at h
  split at h
  · next m ms hfirst hrest =>
    rcases withImmediate?_eq_some_iff.1 hfirst with ⟨rfl, hv⟩
    rcases mapM_withImmediate? hrest with ⟨rfl, hvs⟩
    refine ImmediateGroup.merge_spec (g := ⟨m, ms, position⟩) ?_ h
    intro m' hm'
    rcases List.mem_cons.1 hm' with rfl | hm'
    · exact hv
    · exact hvs m' hm'
  · cases h

/-- On patterns with numbers, the merger over numbers fails only for want of a window. -/
theorem mergeImmediates_fault {fault : CombineFault}
    (hvalues : ∀ p ∈ first :: rest, (valueAt? position p).isSome)
    (h : mergeImmediates first rest position foreign = .error fault) :
    ∃ varying, fault.cause = .immediatePlacement position varying := by
  rcases Option.isSome_iff_exists.1 (hvalues first (List.mem_cons_self ..)) with ⟨v, hv⟩
  rcases isSome_mapM_withImmediate? fun p hp => hvalues p (List.mem_cons_of_mem _ hp) with ⟨ms, hms⟩
  have hfirst : withImmediate? position first = some (first, v) :=
    withImmediate?_eq_some_iff.2 ⟨rfl, hv⟩
  rw [mergeImmediates, hfirst, hms] at h
  rw [ImmediateGroup.merge_fault h]
  exact ⟨_, rfl⟩

end

end Combine

end SleighForge
