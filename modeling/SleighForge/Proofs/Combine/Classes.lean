import Mathlib.Data.List.Sort
import SleighForge.Proofs.Combine.Group
import SleighForge.Proofs.Encoding.LiteralBits

/-!
# Classes that differ in one operand

Two places of a list of patterns are in one class at a position if the patterns there hold an
operand of the kind at the position and agree in everything else (`SameClass`). The candidates of
the list are the classes with two operands or more at the position, each once, in the order in
which they are first met (`all_classes`). The members of a candidate are the first places of its
class for each operand (`Collects`).
-/

namespace SleighForge

namespace Combine

/-! ## Agreement but for one operand -/

/-- Both patterns hold an operand of the kind at the position. They agree in width, mnemonic, fields
and all other operands, where numbers are compared by value. -/
structure AgreeBut (kind : OperandKind) (position : Nat) (p q : Pattern) : Prop where
  left : ∃ op, p.operands[position]? = some op ∧ kind.holds op = true
  right : ∃ op, q.operands[position]? = some op ∧ kind.holds op = true
  width : p.width = q.width
  mnemonic : p.mnemonic = q.mnemonic
  fields : p.fields = q.fields
  others : ∀ i, i ≠ position → p.bareAt? i = q.bareAt? i

namespace AgreeBut

variable {kind : OperandKind} {position : Nat} {p q r : Pattern}

theorem symm (h : AgreeBut kind position p q) : AgreeBut kind position q p where
  left := h.right
  right := h.left
  width := h.width.symm
  mnemonic := h.mnemonic.symm
  fields := h.fields.symm
  others i hi := (h.others i hi).symm

theorem trans (h : AgreeBut kind position p q) (h' : AgreeBut kind position q r) :
    AgreeBut kind position p r where
  left := h.left
  right := h'.right
  width := h.width.trans h'.width
  mnemonic := h.mnemonic.trans h'.mnemonic
  fields := h.fields.trans h'.fields
  others i hi := (h.others i hi).trans (h'.others i hi)

end AgreeBut

/-- Two patterns have one key at a position if they agree in everything else. -/
theorem keyOf_eq_iff {position : Nat} {p q : Pattern} :
    Candidate.keyOf p position = Candidate.keyOf q position ↔
      p.width = q.width ∧ p.mnemonic = q.mnemonic ∧ p.fields = q.fields ∧
        ∀ i, i ≠ position → p.bareAt? i = q.bareAt? i := by
  rw [← Pattern.others_eq_iff, Candidate.keyOf, Candidate.keyOf, GroupKey.mk.injEq]
  constructor
  · rintro ⟨-, hwidth, hmnemonic, hothers, hfields⟩
    exact ⟨hwidth, hmnemonic, hfields, hothers⟩
  · rintro ⟨hwidth, hmnemonic, hfields, hothers⟩
    exact ⟨rfl, hwidth, hmnemonic, hothers, hfields⟩

/-! ## Classes -/

/-- The patterns at two places agree but for an operand of the kind at the position. -/
def SameClass (kind : OperandKind) (patterns : List Pattern) (position i j : Nat) : Prop :=
  ∃ p q, patterns[i]? = some p ∧ patterns[j]? = some q ∧ AgreeBut kind position p q

/-- The operand at a position of the pattern at a place, without the spelling of a number. -/
def operandAt? (patterns : List Pattern) (position i : Nat) : Option Operand :=
  patterns[i]?.bind (·.bareAt? position)

/-- The second place is in the class of the first, and no place before it is that has the same
operand. -/
def IsFirst (kind : OperandKind) (patterns : List Pattern) (position i j : Nat) : Prop :=
  SameClass kind patterns position i j ∧
    ∀ k, k < j → SameClass kind patterns position i k →
      operandAt? patterns position k ≠ operandAt? patterns position j

/-- The class of a place has two different operands. -/
def IsVaried (kind : OperandKind) (patterns : List Pattern) (position i : Nat) : Prop :=
  ∃ j k, SameClass kind patterns position i j ∧ SameClass kind patterns position i k ∧
    operandAt? patterns position j ≠ operandAt? patterns position k

/-- The candidate is the class of a place: its members are the first places of the class for each
operand, in ascending order, and it goes by the position in the source of the first of them. -/
structure Collects (kind : OperandKind) (patterns : List Pattern) (i : Nat) (c : Candidate) :
    Prop where
  ascending : c.members.Pairwise (· < ·)
  mem_iff : ∀ j, j ∈ c.members ↔ IsFirst kind patterns c.position i j
  firstIndex : (c.members.head?.bind (patterns[·]?)).map Pattern.index = some c.firstIndex

/-- The first candidate is met before the second: its first member comes before that of the second
one, or they are one and the position comes before. -/
def FoundBefore (c d : Candidate) : Prop :=
  ∃ i j, c.members.head? = some i ∧ d.members.head? = some j ∧
    (i < j ∨ i = j ∧ c.position < d.position)

section

variable {kind : OperandKind} {patterns : List Pattern} {position i j k : Nat}

namespace SameClass

theorem symm (h : SameClass kind patterns position i j) : SameClass kind patterns position j i := by
  obtain ⟨p, q, hp, hq, hagree⟩ := h
  exact ⟨q, p, hq, hp, hagree.symm⟩

theorem trans (h : SameClass kind patterns position i j)
    (h' : SameClass kind patterns position j k) : SameClass kind patterns position i k := by
  obtain ⟨p, q, hp, hq, hpq⟩ := h
  obtain ⟨q', r, hq', hr, hqr⟩ := h'
  rw [hq, Option.some.injEq] at hq'
  subst hq'
  exact ⟨p, r, hp, hr, hpq.trans hqr⟩

/-- Patterns of one class are in the same classes. -/
theorem left_iff (h : SameClass kind patterns position i j) (k : Nat) :
    SameClass kind patterns position i k ↔ SameClass kind patterns position j k :=
  ⟨h.symm.trans, h.trans⟩

/-- What is the first with its operand in a class is so for all of its patterns. -/
theorem isFirst_iff (h : SameClass kind patterns position i j) (k : Nat) :
    IsFirst kind patterns position i k ↔ IsFirst kind patterns position j k := by
  simp only [IsFirst, h.left_iff]

/-- Whether a class has several operands does not depend on the pattern that it is told by. -/
theorem isVaried_iff (h : SameClass kind patterns position i j) :
    IsVaried kind patterns position i ↔ IsVaried kind patterns position j := by
  simp only [IsVaried, h.left_iff]

end SameClass

namespace Collects

variable {c d : Candidate}

/-- A candidate that collects the class of a pattern collects it for all patterns of the class. -/
theorem congr (h : Collects kind patterns i c) (hij : SameClass kind patterns c.position i j) :
    Collects kind patterns j c where
  ascending := h.ascending
  mem_iff k := (h.mem_iff k).trans (hij.isFirst_iff k)
  firstIndex := h.firstIndex

/-- A class has one candidate. -/
theorem unique (h : Collects kind patterns i c) (h' : Collects kind patterns i d)
    (hposition : c.position = d.position) : c = d := by
  have hmembers : c.members = d.members := by
    apply List.Pairwise.eq_of_mem_iff h.ascending h'.ascending
    intro j
    rw [h.mem_iff, h'.mem_iff, hposition]
  have hindex := h.firstIndex
  rw [hmembers, h'.firstIndex, Option.some.injEq] at hindex
  cases c
  cases d
  simp_all

end Collects

/-! ## Sites -/

variable {s t : Site}

theorem operandAt?_of_mem_sites (hs : s ∈ Candidate.sites kind patterns) :
    operandAt? patterns s.key.position s.slot = some s.operand := by
  obtain ⟨p, op, hp, hop, -, heq⟩ := mem_sites_iff.1 hs
  rw [operandAt?, hp, Option.bind_some, Pattern.bareAt?, hop, Option.map_some, heq]

theorem index_of_mem_sites (hs : s ∈ Candidate.sites kind patterns) :
    patterns[s.slot]?.map Pattern.index = some s.index := by
  obtain ⟨p, op, hp, -, -, heq⟩ := mem_sites_iff.1 hs
  rw [hp, Option.map_some, heq]

/-- Sites have one key if their places are in one class at the position they have in common. -/
theorem key_eq_iff (hs : s ∈ Candidate.sites kind patterns)
    (ht : t ∈ Candidate.sites kind patterns) :
    s.key = t.key ↔ s.key.position = t.key.position ∧
      SameClass kind patterns s.key.position s.slot t.slot := by
  obtain ⟨p, op, hp, hop, hkind, hseq⟩ := mem_sites_iff.1 hs
  obtain ⟨q, op', hq, hop', hkind', hteq⟩ := mem_sites_iff.1 ht
  have hskey : s.key = Candidate.keyOf p s.key.position := congrArg Site.key hseq
  have htkey : t.key = Candidate.keyOf q t.key.position := congrArg Site.key hteq
  constructor
  · intro hkey
    have hposition : s.key.position = t.key.position := congrArg GroupKey.position hkey
    refine ⟨hposition, p, q, hp, hq, ?_⟩
    -- A key also records its position, so two keys are compared only where the positions agree.
    rw [hskey, htkey, ← hposition, keyOf_eq_iff] at hkey
    obtain ⟨hwidth, hmnemonic, hfields, hothers⟩ := hkey
    rw [← hposition] at hop'
    exact ⟨⟨op, hop, hkind⟩, ⟨op', hop', hkind'⟩, hwidth, hmnemonic, hfields, hothers⟩
  · rintro ⟨hposition, p', q', hp', hq', hagree⟩
    rw [hp, Option.some.injEq] at hp'
    rw [hq, Option.some.injEq] at hq'
    subst hp' hq'
    rw [hskey, htkey, ← hposition, keyOf_eq_iff]
    exact ⟨hagree.width, hagree.mnemonic, hagree.fields, hagree.others⟩

/-- A place that is in a class has a site there. -/
theorem SameClass.exists_site (h : SameClass kind patterns position i j) :
    ∃ s ∈ Candidate.sites kind patterns, s.slot = i ∧ s.key.position = position := by
  obtain ⟨p, q, hp, -, hagree⟩ := h
  obtain ⟨op, hop, hkind⟩ := hagree.left
  exact ⟨⟨i, p.index, Candidate.keyOf p position, op.bare⟩,
    mem_sites_iff.2 ⟨p, op, hp, hop, hkind, rfl⟩, rfl, rfl⟩

/-! ## The sites of one class -/

/-- In a list that ascends strictly, the first elements for each value are those whose value does
not come up before them. -/
theorem mem_distinctBy_iff {α β : Type} [DecidableEq β] {f : α → β} {R : α → α → Prop}
    {xs : List α} (hR : xs.Pairwise R) (hasymm : ∀ x y, R x y → ¬ R y x) {x : α} :
    x ∈ distinctBy f xs ↔ x ∈ xs ∧ ∀ y ∈ xs, R y x → f y ≠ f x := by
  constructor
  · intro hx
    have hmem := (distinctBy_sublist f xs).subset hx
    refine ⟨hmem, fun y hy hyx hf => ?_⟩
    obtain ⟨z, hz, hfz, hzy⟩ := exists_mem_distinctBy (f := f) hR hy
    -- Only one element is kept for the value, so it is `x`, which does not come before `y`.
    have hzx : z = x := List.inj_on_of_nodup_map (nodup_map_distinctBy f xs) hz hx (hfz.trans hf)
    subst hzx
    rcases hzy with heq | hlt
    · subst heq
      exact hasymm z z hyx hyx
    · exact hasymm y z hyx hlt
  · rintro ⟨hx, hfirst⟩
    obtain ⟨z, hz, hfz, hzx⟩ := exists_mem_distinctBy (f := f) hR hx
    rcases hzx with heq | hlt
    · exact heq ▸ hz
    · exact absurd hfz (hfirst z ((distinctBy_sublist f xs).subset hz) hlt)

theorem operandAt?_of_mem_peers (ht : t ∈ peers kind patterns s.key) :
    operandAt? patterns s.key.position t.slot = some t.operand := by
  obtain ⟨hmem, hkey⟩ := mem_peers.1 ht
  rw [← hkey]
  exact operandAt?_of_mem_sites hmem

/-- Peers are in one class. -/
theorem sameClass_of_mem_peers (hs : s ∈ Candidate.sites kind patterns)
    (ht : t ∈ peers kind patterns s.key) :
    SameClass kind patterns s.key.position s.slot t.slot := by
  obtain ⟨hmem, hkey⟩ := mem_peers.1 ht
  exact ((key_eq_iff hs hmem).1 hkey.symm).2

/-- Every pattern of the class has a site among the peers. -/
theorem exists_mem_peers (hs : s ∈ Candidate.sites kind patterns)
    (hj : SameClass kind patterns s.key.position s.slot j) :
    ∃ t ∈ peers kind patterns s.key, t.slot = j := by
  obtain ⟨t, ht, rfl, hposition⟩ := hj.symm.exists_site
  exact ⟨t, mem_peers.2 ⟨ht, ((key_eq_iff hs ht).2 ⟨hposition.symm, hj⟩).symm⟩, rfl⟩

/-- The first peers are those with an operand that no peer before them has. -/
theorem mem_firsts : t ∈ firsts kind patterns s.key ↔
    t ∈ peers kind patterns s.key ∧
      ∀ u ∈ peers kind patterns s.key, u.slot < t.slot → u.operand ≠ t.operand :=
  mem_distinctBy_iff (pairwise_peers kind patterns s.key) fun _ _ => Nat.lt_asymm

/-- The first sites for each operand are at the first places of the class. -/
theorem mem_map_firsts (hs : s ∈ Candidate.sites kind patterns) :
    j ∈ (firsts kind patterns s.key).map Site.slot ↔
      IsFirst kind patterns s.key.position s.slot j := by
  rw [List.mem_map]
  constructor
  · rintro ⟨t, ht, rfl⟩
    obtain ⟨htpeer, hfirst⟩ := mem_firsts.1 ht
    refine ⟨sameClass_of_mem_peers hs htpeer, fun k hk hsame heq => ?_⟩
    obtain ⟨u, hu, rfl⟩ := exists_mem_peers hs hsame
    rw [operandAt?_of_mem_peers hu, operandAt?_of_mem_peers htpeer, Option.some.injEq] at heq
    exact hfirst u hu hk heq
  · rintro ⟨hsame, hfirst⟩
    obtain ⟨t, ht, rfl⟩ := exists_mem_peers hs hsame
    refine ⟨t, mem_firsts.2 ⟨ht, fun u hu hlt heq => ?_⟩, rfl⟩
    refine hfirst u.slot hlt (sameClass_of_mem_peers hs hu) ?_
    rw [operandAt?_of_mem_peers hu, operandAt?_of_mem_peers ht, heq]

/-- The operands of the first peers are all operands of the class. -/
theorem mem_map_operand_firsts (hs : s ∈ Candidate.sites kind patterns) {op : Operand} :
    op ∈ (firsts kind patterns s.key).map Site.operand ↔
      ∃ j, SameClass kind patterns s.key.position s.slot j ∧
        operandAt? patterns s.key.position j = some op := by
  rw [firsts, mem_map_distinctBy, List.mem_map]
  constructor
  · rintro ⟨t, ht, rfl⟩
    exact ⟨t.slot, sameClass_of_mem_peers hs ht, operandAt?_of_mem_peers ht⟩
  · rintro ⟨j, hj, hop⟩
    obtain ⟨t, ht, rfl⟩ := exists_mem_peers hs hj
    rw [operandAt?_of_mem_peers ht, Option.some.injEq] at hop
    exact ⟨t, ht, hop⟩

/-- A list without repeats has two elements or more if two of them differ. -/
theorem two_le_length_iff {α : Type} {xs : List α} (h : xs.Nodup) :
    2 ≤ xs.length ↔ ∃ x ∈ xs, ∃ y ∈ xs, x ≠ y := by
  match xs with
  | [] => simp
  | [x] => simp
  | x :: y :: rest =>
    have hne : x ≠ y := by
      rintro rfl
      exact (List.nodup_cons.1 h).1 (List.mem_cons_self ..)
    constructor
    · intro _
      exact ⟨x, by simp, y, by simp, hne⟩
    · intro _
      simp

/-- A class has two operands if two first sites are kept. -/
theorem isVaried_iff_length (hs : s ∈ Candidate.sites kind patterns) :
    IsVaried kind patterns s.key.position s.slot ↔ 2 ≤ (firsts kind patterns s.key).length := by
  have hnodup : ((firsts kind patterns s.key).map Site.operand).Nodup := nodup_map_distinctBy _ _
  rw [← List.length_map (f := Site.operand), two_le_length_iff hnodup]
  constructor
  · rintro ⟨j, k, hj, hk, hne⟩
    obtain ⟨t, ht, rfl⟩ := exists_mem_peers hs hj
    obtain ⟨u, hu, rfl⟩ := exists_mem_peers hs hk
    rw [operandAt?_of_mem_peers ht, operandAt?_of_mem_peers hu] at hne
    exact ⟨t.operand, (mem_map_operand_firsts hs).2 ⟨_, hj, operandAt?_of_mem_peers ht⟩,
      u.operand, (mem_map_operand_firsts hs).2 ⟨_, hk, operandAt?_of_mem_peers hu⟩,
      fun heq => hne (congrArg some heq)⟩
  · rintro ⟨op, hop, op', hop', hne⟩
    obtain ⟨j, hj, hjop⟩ := (mem_map_operand_firsts hs).1 hop
    obtain ⟨k, hk, hkop⟩ := (mem_map_operand_firsts hs).1 hop'
    refine ⟨j, k, hj, hk, ?_⟩
    rw [hjop, hkop]
    exact fun heq => hne (Option.some.inj heq)

/-! ## Candidates -/

/-- The first site for each key. -/
def leaders (kind : OperandKind) (patterns : List Pattern) : List Site :=
  distinctBy Site.key (Candidate.sites kind patterns)

/-- The candidate of the class of a leader. -/
def gather (kind : OperandKind) (patterns : List Pattern) (s : Site) : Candidate where
  position := s.key.position
  members := (firsts kind patterns s.key).map Site.slot
  firstIndex := s.index

theorem mem_sites_of_mem_leaders (hs : s ∈ leaders kind patterns) :
    s ∈ Candidate.sites kind patterns :=
  (distinctBy_sublist _ _).subset hs

theorem exists_leader (hs : s ∈ Candidate.sites kind patterns) :
    ∃ t ∈ leaders kind patterns, t.key = s.key := by
  have hkey : s.key ∈ (leaders kind patterns).map Site.key :=
    mem_map_distinctBy.2 (List.mem_map_of_mem hs)
  exact List.mem_map.1 hkey

/-- A leader is the first of its peers, so it is the first of their first sites. -/
theorem exists_firsts_eq_cons (hs : s ∈ leaders kind patterns) :
    ∃ others, firsts kind patterns s.key = s :: others := by
  have hleads := (mem_distinctBy_iff (f := Site.key) (pairwise_sites kind patterns)
    fun t u => by omega).1 hs
  have hmem : s ∈ peers kind patterns s.key := mem_peers.2 ⟨hleads.1, rfl⟩
  have hascending := pairwise_peers kind patterns s.key
  match hpeers : peers kind patterns s.key with
  | [] =>
    rw [hpeers] at hmem
    cases hmem
  | t :: rest =>
    have ht := mem_peers.1 (hpeers ▸ List.mem_cons_self .. : t ∈ peers kind patterns s.key)
    rw [hpeers] at hmem hascending
    have heq : s = t := by
      rcases List.mem_cons.1 hmem with heq | hlater
      · exact heq
      · exact absurd ht.2 (hleads.2 t ht.1 (.inl ((List.pairwise_cons.1 hascending).1 s hlater)))
    subst heq
    exact ⟨_, by rw [firsts, hpeers, distinctBy_cons]⟩

/-- The peers of a leader make a candidate if two of them have different operands. -/
theorem ofSites?_peers (hs : s ∈ leaders kind patterns) :
    Candidate.ofSites? (peers kind patterns s.key) =
      if 2 ≤ (firsts kind patterns s.key).length then some (gather kind patterns s) else none := by
  obtain ⟨others, hfirsts⟩ := exists_firsts_eq_cons hs
  have hdistinct : distinctBy Site.operand (peers kind patterns s.key) = s :: others := hfirsts
  rw [Candidate.ofSites?, hdistinct, hfirsts, gather, hfirsts]
  cases others with
  | nil => rfl
  | cons t rest => rfl

/-- The candidates are what the leaders gather, in their order. -/
theorem all_eq (kind : OperandKind) (patterns : List Pattern) :
    Candidate.all kind patterns =
      (leaders kind patterns).filterMap fun s =>
        Candidate.ofSites? (peers kind patterns s.key) := by
  rw [Candidate.all, distinct_map_eq, List.filterMap_map]
  rfl

/-- A candidate is found for each leader of a class with several operands, and for no other. -/
theorem mem_all_iff {c : Candidate} :
    c ∈ Candidate.all kind patterns ↔
      ∃ s ∈ leaders kind patterns, IsVaried kind patterns s.key.position s.slot ∧
        gather kind patterns s = c := by
  rw [all_eq, List.mem_filterMap]
  refine exists_congr fun s => and_congr_right fun hs => ?_
  rw [ofSites?_peers hs, Option.ite_none_right_eq_some, Option.some.injEq,
    isVaried_iff_length (mem_sites_of_mem_leaders hs)]

/-- What a leader gathers are the first patterns of its class with each operand. -/
theorem collects_gather (hs : s ∈ leaders kind patterns) :
    Collects kind patterns s.slot (gather kind patterns s) := by
  have hsite := mem_sites_of_mem_leaders hs
  constructor
  · exact List.pairwise_map.2 ((pairwise_peers kind patterns s.key).sublist (firsts_sublist ..))
  · intro j
    exact mem_map_firsts hsite
  · obtain ⟨others, hfirsts⟩ := exists_firsts_eq_cons hs
    rw [gather, hfirsts]
    exact index_of_mem_sites hsite

/-- Candidates stand in the order in which they are found. -/
theorem pairwise_all (kind : OperandKind) (patterns : List Pattern) :
    (Candidate.all kind patterns).Pairwise FoundBefore := by
  rw [all_eq]
  have hleaders := (pairwise_sites kind patterns).sublist
    (distinctBy_sublist Site.key (Candidate.sites kind patterns))
  refine List.pairwise_filterMap.2 (hleaders.imp_of_mem ?_)
  intro s t hs ht hbefore c hc d hd
  rw [ofSites?_peers hs, Option.ite_none_right_eq_some, Option.some.injEq] at hc
  rw [ofSites?_peers ht, Option.ite_none_right_eq_some, Option.some.injEq] at hd
  obtain ⟨others, hsfirsts⟩ := exists_firsts_eq_cons hs
  obtain ⟨others', htfirsts⟩ := exists_firsts_eq_cons ht
  refine ⟨s.slot, t.slot, ?_, ?_, ?_⟩
  · rw [← hc.2, gather, hsfirsts]
    rfl
  · rw [← hd.2, gather, htfirsts]
    rfl
  · rw [← hc.2, ← hd.2]
    exact hbefore

theorem not_foundBefore_self (c : Candidate) : ¬ FoundBefore c c := by
  rintro ⟨i, j, hi, hj, hbefore⟩
  rw [hi, Option.some.injEq] at hj
  omega

/-- The candidates of a list of patterns are its classes of two operands or more. Each class has
one, in the order in which the classes are met, and no place is a member of two at a position. -/
theorem all_classes (kind : OperandKind) (patterns : List Pattern) :
    (∀ c ∈ Candidate.all kind patterns, ∃ i,
      IsVaried kind patterns c.position i ∧ Collects kind patterns i c) ∧
    (∀ position i, IsVaried kind patterns position i →
      ∃! c, c ∈ Candidate.all kind patterns ∧ c.position = position ∧
        Collects kind patterns i c) ∧
    (Candidate.all kind patterns).Pairwise FoundBefore ∧
    (Candidate.all kind patterns).Pairwise fun c d =>
      c.position = d.position → c.members.Disjoint d.members := by
  have hcollects : ∀ c ∈ Candidate.all kind patterns, ∃ i,
      IsVaried kind patterns c.position i ∧ Collects kind patterns i c := by
    intro c hc
    obtain ⟨s, hs, hvaried, rfl⟩ := mem_all_iff.1 hc
    exact ⟨s.slot, hvaried, collects_gather hs⟩
  refine ⟨hcollects, ?_, pairwise_all kind patterns, ?_⟩
  · intro position i hvaried
    -- The class of the place has a leader, whose candidate is that of the place as well.
    have ⟨j, _, hij, _⟩ := hvaried
    obtain ⟨s, hs, rfl, rfl⟩ := hij.exists_site
    obtain ⟨t, ht, hkey⟩ := exists_leader hs
    obtain ⟨hposition, hclass⟩ := (key_eq_iff (mem_sites_of_mem_leaders ht) hs).1 hkey
    have hgather := (collects_gather ht).congr hclass
    refine ⟨gather kind patterns t, ⟨mem_all_iff.2 ⟨t, ht, ?_, rfl⟩, hposition, hgather⟩, ?_⟩
    · rw [hclass.isVaried_iff, hposition]
      exact hvaried
    · rintro c ⟨-, hc, hcollected⟩
      exact hcollected.unique hgather (hc.trans hposition.symm)
  · refine (pairwise_all kind patterns).imp_of_mem ?_
    intro c d hc hd hbefore hposition j hjc hjd
    obtain ⟨i, -, hci⟩ := hcollects c hc
    obtain ⟨i', -, hdi'⟩ := hcollects d hd
    -- A common member puts both candidates in its class, which has only one.
    have hcj := hci.congr ((hci.mem_iff j).1 hjc).1
    have hdj := hdi'.congr ((hdi'.mem_iff j).1 hjd).1
    rw [hcj.unique hdj hposition] at hbefore
    exact not_foundBefore_self d hbefore

end

/-- The fourth move repeats the third, so it is a member of neither group. -/
example : Candidate.all .register
    [.concrete "MOV" [.register "r0", .register "r0"] (byteWord 16) 0,
      .concrete "MOV" [.register "r1", .register "r0"] (byteWord 17) 1,
      .concrete "MOV" [.register "r0", .register "r1"] (byteWord 18) 2,
      .concrete "MOV" [.register "r0", .register "r1"] (byteWord 19) 3] =
    [⟨0, [0, 1], 0⟩, ⟨1, [0, 2], 0⟩] := by
  decide +kernel

end Combine

end SleighForge
