import SleighForge.Combine.Candidate

/-!
# Groups of patterns

A candidate names patterns that differ in one operand only. `IsGroup` says what that means for the
patterns themselves, and `isGroup_of_mem_all` that the patterns of any part of a candidate are such
a group. What the rest of the theory needs of candidates is read off it.
-/

namespace SleighForge

/-- The operand at a position without the spelling of a number. -/
def Pattern.bareAt? (p : Pattern) (position : Nat) : Option Operand :=
  p.operands[position]?.map Operand.bare

/-- Patterns that are the same have the same operands, spelling apart. -/
theorem Pattern.bareAt?_of_identity {p q : Pattern} (h : p.identity = q.identity)
    (position : Nat) : p.bareAt? position = q.bareAt? position := by
  have hops : p.operands.map Operand.bare = q.operands.map Operand.bare :=
    congrArg Pattern.Identity.operands h
  rw [bareAt?, bareAt?, ← List.getElem?_map, ← List.getElem?_map, hops]

/-- Where operands agree, both patterns have one or neither has. -/
theorem Pattern.exists_operand_of_bareAt? {p q : Pattern} {k : Nat} {op : Operand}
    (h : p.bareAt? k = q.bareAt? k) (hop : p.operands[k]? = some op) :
    ∃ op', q.operands[k]? = some op' ∧ op.bare = op'.bare := by
  rw [bareAt?, hop, Option.map_some] at h
  rcases Option.map_eq_some_iff.1 h.symm with ⟨op', hop', hbare⟩
  exact ⟨op', hop', hbare.symm⟩

/-- The operands without the one at a position are the same if they are the same everywhere else. -/
theorem Pattern.others_eq_iff {p q : Pattern} {position : Nat} :
    (p.operands.eraseIdx position).map Operand.bare =
        (q.operands.eraseIdx position).map Operand.bare ↔
      ∀ i, i ≠ position → p.bareAt? i = q.bareAt? i := by
  have hat : ∀ (r : Pattern) (j : Nat), ((r.operands.eraseIdx position).map Operand.bare)[j]? =
      r.bareAt? (if j < position then j else j + 1) := by
    intro r j
    rw [List.getElem?_map, List.getElem?_eraseIdx, bareAt?]
    split <;> rfl
  constructor
  · intro h i hi
    -- Above the position, taking the operand out has moved the others down by one.
    rcases Nat.lt_or_gt_of_ne hi with hlt | hgt
    · have := congrArg (·[i]?) h
      simpa only [hat, if_pos hlt] using this
    · have := congrArg (·[i - 1]?) h
      have hpred : ¬ i - 1 < position := by omega
      have hsucc : i - 1 + 1 = i := by omega
      simpa only [hat, if_neg hpred, hsucc] using this
  · intro h
    apply List.ext_getElem?
    intro j
    rw [hat, hat]
    apply h
    split <;> omega

namespace Combine

/-- Patterns that have an operand of the kind at the position, are otherwise alike, and differ in
that operand. -/
structure IsGroup (kind : OperandKind) (position : Nat) (members : List Pattern) : Prop where
  holds : ∀ p ∈ members, ∃ op, p.operands[position]? = some op ∧ kind.holds op = true
  alike : ∀ p ∈ members, ∀ q ∈ members, Candidate.keyOf p position = Candidate.keyOf q position
  distinct : members.Pairwise fun p q => p.bareAt? position ≠ q.bareAt? position

/-- The patterns at some places of a list, in ascending order, which make a group. -/
structure Gathered (kind : OperandKind) (patterns : List Pattern) (position : Nat)
    (slots : List Nat) (members : List Pattern) : Prop where
  ascending : slots.Pairwise (· < ·)
  found : slots.map (patterns[·]?) = members.map some
  group : IsGroup kind position members

theorem Gathered.nodup {kind : OperandKind} {patterns : List Pattern} {position : Nat}
    {slots : List Nat} {members : List Pattern}
    (h : Gathered kind patterns position slots members) : slots.Nodup :=
  h.ascending.imp Nat.ne_of_lt

/-! ## What members have in common -/

namespace IsGroup

variable {kind : OperandKind} {position : Nat} {members : List Pattern} {p q : Pattern}

theorem width_eq (h : IsGroup kind position members) (hp : p ∈ members) (hq : q ∈ members) :
    p.width = q.width :=
  congrArg GroupKey.width (h.alike p hp q hq)

theorem mnemonic_eq (h : IsGroup kind position members) (hp : p ∈ members) (hq : q ∈ members) :
    p.mnemonic = q.mnemonic :=
  congrArg GroupKey.mnemonic (h.alike p hp q hq)

theorem fields_eq (h : IsGroup kind position members) (hp : p ∈ members) (hq : q ∈ members) :
    p.fields = q.fields :=
  congrArg GroupKey.fields (h.alike p hp q hq)

theorem position_lt (h : IsGroup kind position members) (hp : p ∈ members) :
    position < p.operands.length := by
  rcases h.holds p hp with ⟨op, hop, -⟩
  exact (List.getElem?_eq_some_iff.1 hop).1

private theorem others_eq (h : IsGroup kind position members) (hp : p ∈ members)
    (hq : q ∈ members) : (p.operands.eraseIdx position).map Operand.bare =
      (q.operands.eraseIdx position).map Operand.bare :=
  congrArg GroupKey.others (h.alike p hp q hq)

theorem length_eq (h : IsGroup kind position members) (hp : p ∈ members) (hq : q ∈ members) :
    p.operands.length = q.operands.length := by
  have hlen := congrArg List.length (h.others_eq hp hq)
  have := h.position_lt hp
  have := h.position_lt hq
  rw [List.length_map, List.length_map, List.length_eraseIdx_of_lt (h.position_lt hp),
    List.length_eraseIdx_of_lt (h.position_lt hq)] at hlen
  omega

/-- Away from the position the operands are the same. -/
theorem bareAt?_eq (h : IsGroup kind position members) (hp : p ∈ members) (hq : q ∈ members)
    {i : Nat} (hi : i ≠ position) : p.bareAt? i = q.bareAt? i :=
  Pattern.others_eq_iff.1 (h.others_eq hp hq) i hi

theorem isLiteral_iff (h : IsGroup kind position members) (hp : p ∈ members) (hq : q ∈ members)
    (lo hi : Nat) : p.encoding.IsLiteral lo hi ↔ q.encoding.IsLiteral lo hi := by
  have hw : p.encoding.width = q.encoding.width := h.width_eq hp hq
  have hf : p.encoding.fields = q.encoding.fields := h.fields_eq hp hq
  simp only [Encoding.IsLiteral, Encoding.ClearOf, hw, hf]

end IsGroup

/-! ## Sites -/

/-- The site is an operand of the kind in the list of patterns. -/
def IsSite (kind : OperandKind) (patterns : List Pattern) (s : Site) : Prop :=
  ∃ p op, patterns[s.slot]? = some p ∧ p.operands[s.key.position]? = some op ∧
    kind.holds op = true ∧ s.key = Candidate.keyOf p s.key.position ∧ s.operand = op.bare

/-- What a pattern that is found at a site has at its position. -/
theorem IsSite.of_getElem? {kind : OperandKind} {patterns : List Pattern} {s : Site}
    (h : IsSite kind patterns s) {p : Pattern} (hp : patterns[s.slot]? = some p) :
    ∃ op, p.operands[s.key.position]? = some op ∧ kind.holds op = true ∧
      s.key = Candidate.keyOf p s.key.position ∧ s.operand = op.bare := by
  rcases h with ⟨q, op, hq, hop, hkind, hkey, hbare⟩
  rw [hp, Option.some.injEq] at hq
  subst hq
  exact ⟨op, hop, hkind, hkey, hbare⟩

/-- Sites are the operands of the kind, each with the key of its pattern. -/
theorem mem_sites_iff {kind : OperandKind} {patterns : List Pattern} {s : Site} :
    s ∈ Candidate.sites kind patterns ↔
      ∃ p op, patterns[s.slot]? = some p ∧ p.operands[s.key.position]? = some op ∧
        kind.holds op = true ∧
        s = ⟨s.slot, p.index, Candidate.keyOf p s.key.position, op.bare⟩ := by
  constructor
  · intro h
    rcases List.mem_flatMap.1 h with ⟨⟨p, slot⟩, hp, hs⟩
    rcases List.mem_filterMap.1 hs with ⟨⟨op, position⟩, hop, hsite⟩
    rw [List.mem_zipIdx_iff_getElem?] at hp hop
    simp only [Option.ite_none_right_eq_some, Option.some.injEq] at hsite
    rcases hsite with ⟨hkind, rfl⟩
    exact ⟨p, op, hp, hop, hkind, rfl⟩
  · rintro ⟨p, op, hp, hop, hkind, hs⟩
    refine List.mem_flatMap.2 ⟨(p, s.slot), List.mem_zipIdx_iff_getElem?.2 hp, ?_⟩
    refine List.mem_filterMap.2
      ⟨(op, s.key.position), List.mem_zipIdx_iff_getElem?.2 hop, ?_⟩
    dsimp only
    rw [if_pos hkind, ← hs]

theorem isSite_of_mem_sites {kind : OperandKind} {patterns : List Pattern} {s : Site}
    (h : s ∈ Candidate.sites kind patterns) : IsSite kind patterns s := by
  rcases mem_sites_iff.1 h with ⟨p, op, hp, hop, hkind, hs⟩
  exact ⟨p, op, hp, hop, hkind, congrArg Site.key hs, congrArg Site.operand hs⟩

/-- Sites come in the order of their patterns, and those of one pattern by position. -/
theorem pairwise_sites (kind : OperandKind) (patterns : List Pattern) :
    (Candidate.sites kind patterns).Pairwise fun s t =>
      s.slot < t.slot ∨ s.slot = t.slot ∧ s.key.position < t.key.position := by
  have hplaces : ∀ {α : Type} (xs : List α), xs.zipIdx.Pairwise fun x y => x.2 < y.2 := by
    intro α xs
    rw [← List.pairwise_map (f := Prod.snd), List.zipIdx_map_snd]
    exact List.pairwise_lt_range'
  have hslot : ∀ {p : Pattern} {slot : Nat}, ∀ s ∈ Candidate.sitesOf kind p slot,
      s.slot = slot := by
    intro p slot s hs
    rcases List.mem_filterMap.1 hs with ⟨x, -, hx⟩
    simp only [Option.ite_none_right_eq_some, Option.some.injEq] at hx
    rw [← hx.2]
  -- In one pattern the positions ascend; from pattern to pattern the slots do.
  refine List.pairwise_flatMap.2 ⟨?_, (hplaces patterns).imp ?_⟩
  · rintro ⟨p, slot⟩ -
    refine List.pairwise_filterMap.2 ((hplaces p.operands).imp ?_)
    rintro ⟨op, k⟩ ⟨op', k'⟩ hlt s hs t ht
    simp only [Option.ite_none_right_eq_some, Option.some.injEq] at hs ht
    rw [← hs.2, ← ht.2]
    exact .inr ⟨rfl, hlt⟩
  · rintro ⟨p, slot⟩ ⟨q, slot'⟩ hlt s hs t ht
    rw [hslot s hs, hslot t ht]
    exact .inl hlt

/-- The sites with a key. -/
def peers (kind : OperandKind) (patterns : List Pattern) (key : GroupKey) : List Site :=
  (Candidate.sites kind patterns).filter (·.key = key)

theorem mem_peers {kind : OperandKind} {patterns : List Pattern} {key : GroupKey} {s : Site} :
    s ∈ peers kind patterns key ↔ s ∈ Candidate.sites kind patterns ∧ s.key = key := by
  rw [peers, List.mem_filter, decide_eq_true_eq]

/-- One pattern has one site with the key, so the slots ascend strictly. -/
theorem pairwise_peers (kind : OperandKind) (patterns : List Pattern) (key : GroupKey) :
    (peers kind patterns key).Pairwise fun s t => s.slot < t.slot := by
  refine ((pairwise_sites kind patterns).sublist List.filter_sublist).imp_of_mem ?_
  rintro s t hs ht (hlt | ⟨-, hlt⟩)
  · exact hlt
  · rw [(mem_peers.1 hs).2, (mem_peers.1 ht).2] at hlt
    exact absurd hlt (Nat.lt_irrefl _)

/-- The first site with a key for each operand. -/
def firsts (kind : OperandKind) (patterns : List Pattern) (key : GroupKey) : List Site :=
  distinctBy Site.operand (peers kind patterns key)

theorem firsts_sublist (kind : OperandKind) (patterns : List Pattern) (key : GroupKey) :
    (firsts kind patterns key).Sublist (peers kind patterns key) :=
  distinctBy_sublist _ _

/-! ## Candidates -/

/-- The sites with one key, of which only the first for each operand is kept. -/
theorem exists_sites_of_mem_all {kind : OperandKind} {patterns : List Pattern} {c : Candidate}
    (h : c ∈ Candidate.all kind patterns) :
    ∃ sites : List Site, c.members = sites.map Site.slot ∧
      (∀ s ∈ sites, IsSite kind patterns s ∧ s.key.position = c.position) ∧
      (∀ s ∈ sites, ∀ t ∈ sites, s.key = t.key) ∧
      (sites.Pairwise fun s t => s.operand ≠ t.operand) ∧
      sites.Pairwise fun s t => s.slot < t.slot := by
  rcases List.mem_filterMap.1 h with ⟨key, -, hc⟩
  have hsite : ∀ s ∈ firsts kind patterns key, IsSite kind patterns s ∧ s.key = key := by
    intro s hs
    have hmem := mem_peers.1 ((firsts_sublist kind patterns key).subset hs)
    exact ⟨isSite_of_mem_sites hmem.1, hmem.2⟩
  have hdistinct : (firsts kind patterns key).Pairwise fun s t => s.operand ≠ t.operand :=
    List.pairwise_map.1 (nodup_map_distinctBy Site.operand (peers kind patterns key))
  have hascending := (pairwise_peers kind patterns key).sublist (firsts_sublist kind patterns key)
  unfold Candidate.ofSites? at hc
  -- Fewer than two sites make no candidate.
  split at hc
  · next first second rest heq =>
    cases hc
    change firsts kind patterns key = _ at heq
    rw [heq] at hsite hdistinct hascending
    have hfirst := (hsite first (List.mem_cons_self ..)).2
    refine ⟨first :: second :: rest, rfl, ?_, ?_, hdistinct, hascending⟩
    · intro s hs
      refine ⟨(hsite s hs).1, ?_⟩
      rw [(hsite s hs).2, hfirst]
    · intro s hs t ht
      rw [(hsite s hs).2, (hsite t ht).2]
  · cases hc

theorem map_eq_map_some_filterMap {α β : Type} {f : α → Option β} {xs : List α}
    (h : ∀ x ∈ xs, (f x).isSome) : xs.map f = (xs.filterMap f).map some := by
  induction xs with
  | nil => rfl
  | cons x xs ih =>
    rcases Option.isSome_iff_exists.1 (h x (List.mem_cons_self ..)) with ⟨b, hb⟩
    rw [List.map_cons, ih fun y hy => h y (List.mem_cons_of_mem _ hy), List.filterMap_cons_some hb,
      List.map_cons, hb]

/-- The patterns of any part of a candidate are found, and make a group. -/
theorem gathered_of_mem_all {kind : OperandKind} {patterns : List Pattern} {c : Candidate}
    (h : c ∈ Candidate.all kind patterns) {slots : List Nat} (hs : slots.Sublist c.members) :
    Gathered kind patterns c.position slots (slots.filterMap (patterns[·]?)) := by
  rcases exists_sites_of_mem_all h with ⟨sites, hmembers, hsite, hsame, hdistinct, hascending⟩
  rw [hmembers] at hs
  rcases List.sublist_map_iff.1 hs with ⟨part, hsub, rfl⟩
  have hpair := hdistinct.sublist hsub
  -- Whatever is said of a member below is read off the site at which it is found.
  have hfrom : ∀ p ∈ (part.map Site.slot).filterMap (patterns[·]?),
      ∃ s ∈ part, patterns[s.slot]? = some p := by
    intro p hp
    rcases List.mem_filterMap.1 hp with ⟨i, hi, hpi⟩
    rcases List.mem_map.1 hi with ⟨s, hs, rfl⟩
    exact ⟨s, hs, hpi⟩
  have hat : ∀ s ∈ part, ∀ p, patterns[s.slot]? = some p →
      ∃ op, p.operands[c.position]? = some op ∧ kind.holds op = true ∧
        s.key = Candidate.keyOf p c.position ∧ s.operand = op.bare := by
    intro s hs p hp
    rcases hsite s (hsub.subset hs) with ⟨his, hpos⟩
    rw [← hpos]
    exact his.of_getElem? hp
  have hbare : ∀ s ∈ part, ∀ p, patterns[s.slot]? = some p →
      p.bareAt? c.position = some s.operand := by
    intro s hs p hp
    rcases hat s hs p hp with ⟨op, hop, -, -, hsop⟩
    rw [Pattern.bareAt?, hop, hsop]
    rfl
  refine ⟨List.pairwise_map.2 (hascending.sublist hsub), map_eq_map_some_filterMap ?_, ?_, ?_, ?_⟩
  · intro i hi
    rcases List.mem_map.1 hi with ⟨s, hs, rfl⟩
    rcases (hsite s (hsub.subset hs)).1 with ⟨p, _, hp, -⟩
    exact Option.isSome_iff_exists.2 ⟨p, hp⟩
  · intro p hp
    rcases hfrom p hp with ⟨s, hs, hp⟩
    rcases hat s hs p hp with ⟨op, hop, hkind, -⟩
    exact ⟨op, hop, hkind⟩
  · intro p hp q hq
    rcases hfrom p hp with ⟨s, hs, hp⟩
    rcases hfrom q hq with ⟨t, ht, hq⟩
    rcases hat s hs p hp with ⟨_, -, -, hsk, -⟩
    rcases hat t ht q hq with ⟨_, -, -, htk, -⟩
    rw [← hsk, ← htk, hsame s (hsub.subset hs) t (hsub.subset ht)]
  · refine List.pairwise_filterMap.2 (List.pairwise_map.2 (hpair.imp_of_mem ?_))
    intro s t hs ht hne p hp q hq heq
    rw [hbare s hs p hp, hbare t ht q hq] at heq
    exact hne (Option.some.inj heq)

end Combine

end SleighForge
