import SleighForge.Proofs.Combine.Excerpt
import SleighForge.Proofs.Combine.Fixpoint
import SleighForge.Proofs.Combine.Outcomes
import SleighForge.Proofs.Combine.TwinMergers

/-!
# Rounds over an excerpt

A round over a list merges the groups of the widths that are kept as a round over an excerpt of the
list does (`mergeRound_excerpt`). The other groups claim places that the excerpt does not have, and
no more than tables comes of them. A group at which the round over the list faults makes a round
over an excerpt with its width fault alike (`mergeRound_excerpt_fault`).
-/

namespace SleighForge

namespace Combine

variable {keep : Nat → Bool} {g : Int → Int} {ts us : Tables} {patterns excerpt : List Pattern}
  {kind : OperandKind}

/-! ## One call of a merger -/

/-- A merged pattern is as wide as its members. -/
theorem width_of_mergerOf {first result p : Pattern} {rest : List Pattern} {position : Nat}
    {foreign : List Int} {b b' : Bench} (hb : b.tables.Numbered)
    (hg : IsGroup kind position (first :: rest)) (hrest : rest ≠ [])
    (hrun : runFrom b (mergerOf kind first rest position foreign) = (.ok (some result), b'))
    (hp : p ∈ first :: rest) : p.width = result.width := by
  rcases mergerOf_cases (b := b) hg hrest with
    ⟨_, _, hcase, -⟩ | ⟨_, hcase, -⟩ | ⟨_, _, f, hcase, hmade⟩
  all_goals
    rw [hrun] at hcase
    cases hcase
  exact ((hmade hb).1.width_eq hg hp).symm

/-- Two calls that fault alike, or refuse, or make twins. -/
def TwinCalls (g : Int → Int) (ts us : Tables)
    (x y : Except CombineFault (Option Pattern) × Bench) : Prop :=
  ExceptRel (fun e e' => e' = e.reindex g)
    (fun r r' => TwinMerges g ts us (r, x.2.tables) (r', y.2.tables)) x.1 y.1

/-- The merger of a pass answers twins with twins, and fails alike. -/
theorem mergerOf_twin {b c : Bench} (hb : b.tables.Interned) (hc : c.tables.Interned)
    {first first' : Pattern} {rest rest' : List Pattern} {position : Nat}
    (hfirst : first.Twin g b.tables c.tables first')
    (hrest : List.Forall₂ (Pattern.Twin g b.tables c.tables) rest rest')
    (hg : IsGroup kind position (first :: rest)) (foreign : List Int) :
    TwinCalls g b.tables c.tables (runFrom b (mergerOf kind first rest position foreign))
      (runFrom c (mergerOf kind first' rest' position foreign)) := by
  cases kind with
  | immediate =>
    rcases runFrom_immediateMerger first rest position foreign b with ⟨journal, hcall⟩
    rcases runFrom_immediateMerger first' rest' position foreign c with ⟨journal', hcall'⟩
    rw [mergerOf, hcall, hcall', TwinCalls]
    rcases exceptRel_cases (mergeImmediates_twin hfirst hrest position foreign) with
      ⟨e, e', hx, hy, he⟩ | ⟨r, r', hx, hy, hr⟩
    · rw [hx, hy]
      exact .error he
    · rw [hx, hy]
      exact .ok ⟨.refl hb hc, hr⟩
  | register =>
    rcases runFrom_registerMerger first rest position foreign b with ⟨journal, hcall⟩
    rcases runFrom_registerMerger first' rest' position foreign c with ⟨journal', hcall'⟩
    have hplain : ∀ p ∈ first :: rest, PlainAt position p := by
      intro p hp op hop
      rcases hg.holds p hp with ⟨op', hop', hkind⟩
      rw [hop, Option.some.injEq] at hop'
      exact plain_of_holds (hop' ▸ hkind)
    rw [mergerOf, hcall, hcall', TwinCalls]
    rcases exceptRel_cases (mergeRegisters_twin hb hc hfirst hrest hplain foreign) with
      ⟨e, e', hx, hy, he⟩ | ⟨r, r', hx, hy, hr⟩
    · rw [hx, hy]
      exact .error he
    · rw [hx, hy]
      exact .ok hr

/-! ## Merges -/

/-- The merges are of matching places, and make twins. -/
structure MergeTwin (keep : Nat → Bool) (g : Int → Int) (ts us : Tables) (patterns : List Pattern)
    (m n : Merge) : Prop where
  slot : Matches keep patterns m.slot n.slot
  others : List.Forall₂ (Matches keep patterns) m.others n.others
  result : m.result.Twin g ts us n.result

/-- A round over a list and one over an excerpt of it, each with its merges so far. -/
structure RoundExcerpt (keep : Nat → Bool) (g : Int → Int) (patterns excerpt : List Pattern)
    (ts us : Tables) (merges merges' : List Merge) : Prop
    extends Excerpt keep g ts us patterns excerpt where
  made : List.Forall₂ (MergeTwin keep g ts us patterns)
    (merges.filter fun m => keep m.result.width) merges'
  uniform : ∀ m ∈ merges, ∀ i ∈ m.slots, ∃ p, patterns[i]? = some p ∧ p.width = m.result.width

namespace RoundExcerpt

variable {ts' us' : Tables} {merges merges' : List Merge}

/-- An excerpt of a round stays one while tables are kept. -/
theorem mono (h : RoundExcerpt keep g patterns excerpt ts us merges merges')
    (hkept : Kept ts us ts' us') : RoundExcerpt keep g patterns excerpt ts' us' merges merges' where
  left := hkept.left
  right := hkept.right
  twins := hkept.twins h.twins
  made := h.made.imp fun _ _ hmn =>
    ⟨hmn.slot, hmn.others, hmn.result.mono hkept.keepsLeft hkept.keepsRight⟩
  uniform := h.uniform

/-- Matching places are claimed in both rounds or in neither. -/
theorem claimed_iff (h : RoundExcerpt keep g patterns excerpt ts us merges merges') {i j : Nat}
    (hij : Matches keep patterns i j) : i ∈ claimed merges ↔ j ∈ claimed merges' := by
  have hslots : List.Forall₂ (Matches keep patterns)
      (claimed (merges.filter fun m => keep m.result.width)) (claimed merges') :=
    List.rel_flatMap h.made fun m n hmn => .cons hmn.slot hmn.others
  have hmem : i ∈ claimed (merges.filter fun m => keep m.result.width) ↔ j ∈ claimed merges' :=
    List.rel_mem (matches_biUnique keep patterns) hij hslots
  rw [← hmem, mem_claimed, mem_claimed]
  rcases hij.getElem? with ⟨p, hp, hkeep⟩
  constructor
  · rintro ⟨m, hm, him⟩
    rcases h.uniform m hm i him with ⟨p', hp', hwidth⟩
    rw [hp, Option.some.injEq] at hp'
    exact ⟨m, List.mem_filter.2 ⟨hm, by rw [← hwidth, ← hp', hkeep]⟩, him⟩
  · rintro ⟨m, hm, him⟩
    exact ⟨m, (List.mem_filter.1 hm).1, him⟩

/-- A merge of places whose patterns have a width that is not kept leaves the excerpt alone. -/
theorem append_other (h : RoundExcerpt keep g patterns excerpt ts us merges merges') {m : Merge}
    (hm : keep m.result.width = false)
    (huniform : ∀ i ∈ m.slots, ∃ p, patterns[i]? = some p ∧ p.width = m.result.width) :
    RoundExcerpt keep g patterns excerpt ts us (merges ++ [m]) merges' where
  __ := h
  made := by
    rw [List.filter_append, List.filter_singleton, hm]
    simpa using h.made
  uniform m' hm' := by
    rcases List.mem_append.1 hm' with hm' | hm'
    · exact h.uniform m' hm'
    · rw [List.mem_singleton.1 hm']
      exact huniform

/-- Matching merges are made on both sides. -/
theorem append (h : RoundExcerpt keep g patterns excerpt ts us merges merges') {m n : Merge}
    (hm : keep m.result.width = true) (hmn : MergeTwin keep g ts us patterns m n)
    (huniform : ∀ i ∈ m.slots, ∃ p, patterns[i]? = some p ∧ p.width = m.result.width) :
    RoundExcerpt keep g patterns excerpt ts us (merges ++ [m]) (merges' ++ [n]) where
  __ := h
  made := by
    rw [List.filter_append, List.filter_singleton, hm]
    exact List.rel_append h.made (.cons hmn .nil)
  uniform m' hm' := by
    rcases List.mem_append.1 hm' with hm' | hm'
    · exact h.uniform m' hm'
    · rw [List.mem_singleton.1 hm']
      exact huniform

end RoundExcerpt

/-! ## Foreign words -/

/-- A group and its match have the same foreign words, as these are of one width. -/
theorem foreignWords_eq (h : Excerpt keep g ts us patterns excerpt) {slots slots' : List Nat}
    (hslots : List.Forall₂ (Matches keep patterns) slots slots') :
    foreignWords excerpt slots' = foreignWords patterns slots := by
  cases hslots with
  | nil => rfl
  | @cons i j slots slots' hij hrest =>
    rcases h.twin_of_matches hij with ⟨p, q, hp, hq, htwin, hkeep⟩
    have hall : List.Forall₂ (Matches keep patterns) (i :: slots) (j :: slots') := .cons hij hrest
    -- Foreign words have the width of the members, and the excerpt keeps whole widths.
    have hfilter : (patterns.zipIdx.filter fun x => x.2 ∉ i :: slots ∧ x.1.width = p.width) =
        (keptPlaces keep patterns).filter fun x => x.2 ∉ i :: slots ∧ x.1.width = p.width := by
      rw [keptPlaces, List.filter_filter]
      refine List.filter_congr fun x _ => ?_
      by_cases hx : x.1.width = p.width
      · simp [hx, hkeep]
      · simp [hx]
    have hforeign : List.Forall₂ (fun x y => x.1.Twin g ts us y.1 ∧ Matches keep patterns x.2 y.2)
        ((keptPlaces keep patterns).filter fun x => x.2 ∉ i :: slots ∧ x.1.width = p.width)
        (excerpt.zipIdx.filter fun y => y.2 ∉ j :: slots' ∧ y.1.width = q.width) := by
      refine List.rel_filter (fun x y hxy => ?_) h.places
      have hmem := List.rel_mem (matches_biUnique keep patterns) hxy.2 hall
      simp only [decide_eq_true_eq, hmem, hxy.1.width_eq, htwin.width_eq]
    simp only [foreignWords, List.head?_cons, Option.bind_some, hp, hq]
    rw [hfilter, List.flatMap_def, List.flatMap_def]
    refine congrArg List.flatten (map_eq_map_of_forall₂ hforeign fun x _ y _ hxy => ?_).symm
    have hexamples : y.1.examples = x.1.examples := hxy.1.examples
    rw [hexamples]

/-! ## One candidate -/

/-- A round tries its first candidate, then the others. -/
theorem mergeRound_cons_eq {ε σ : Type} (merger : Merger ε σ) (patterns : List Pattern)
    (merges : List Merge) (c : Candidate) (cs : List Candidate) :
    mergeRound merger patterns merges (c :: cs) =
      mergeRound merger patterns merges [c] >>= fun more => mergeRound merger patterns more cs := by
  simp only [mergeRound]
  split
  · rw [bind_assoc]
    refine congrArg _ (funext fun result? => ?_)
    cases result? <;> rw [pure_bind]
  · rw [pure_bind]

/-- The rounds end alike: both in faults, or both with merges that match. -/
def TwinRounds (keep : Nat → Bool) (g : Int → Int) (patterns excerpt : List Pattern)
    (x y : Except CombineFault (List Merge) × Bench) : Prop :=
  ExceptRel (fun e e' => e' = e.reindex g)
    (fun merges merges' =>
      RoundExcerpt keep g patterns excerpt x.2.tables y.2.tables merges merges') x.1 y.1

/-- At each place of a group there is a member. -/
theorem Gathered.exists_member {position : Nat} {slots : List Nat} {members : List Pattern}
    (h : Gathered kind patterns position slots members) {i : Nat} (hi : i ∈ slots) :
    ∃ p, patterns[i]? = some p ∧ p ∈ members := by
  have hmem : patterns[i]? ∈ slots.map (patterns[·]?) := List.mem_map_of_mem hi
  rw [h.found] at hmem
  rcases List.mem_map.1 hmem with ⟨p, hp, heq⟩
  exact ⟨p, heq.symm, hp⟩

/-- The places of a group that was merged have patterns as wide as the result. -/
theorem uniform_of_mergerOf {b b' : Bench} (hb : b.tables.Numbered) {position : Nat}
    {slots : List Nat} {first second result : Pattern} {rest : List Pattern} {foreign : List Int}
    (hg : Gathered kind patterns position slots (first :: second :: rest))
    (hrun : runFrom b (mergerOf kind first (second :: rest) position foreign) =
      (.ok (some result), b')) :
    ∀ i ∈ slots, ∃ p, patterns[i]? = some p ∧ p.width = result.width := by
  intro i hi
  rcases hg.exists_member hi with ⟨p, hp, hmem⟩
  exact ⟨p, hp, width_of_mergerOf hb hg.group (List.cons_ne_nil _ _) hrun hmem⟩

/-- All members of a candidate have the width that tells whether it is kept. -/
theorem keepsCandidate_eq {c : Candidate} (hc : c ∈ Candidate.all kind patterns) {i : Nat}
    {p : Pattern} (hi : i ∈ c.members) (hp : patterns[i]? = some p) :
    keepsCandidate keep patterns c = keep p.width := by
  have hg := gathered_of_mem_all hc (List.Sublist.refl c.members)
  have hmem : p ∈ c.members.filterMap (patterns[·]?) := List.mem_filterMap.2 ⟨i, hi, hp⟩
  cases hmembers : c.members with
  | nil =>
    rw [hmembers] at hi
    cases hi
  | cons slot others =>
    rcases hg.exists_member (hmembers ▸ List.mem_cons_self ..) with ⟨q, hq, hqmem⟩
    rw [keepsCandidate, hmembers, List.head?_cons, Option.bind_some, hq, Option.any_some,
      hg.group.width_eq hqmem hmem]

/-- A candidate that is kept comes to the same in an excerpt. -/
theorem mergeRound_kept {b b' : Bench} {merges merges' : List Merge} {c d : Candidate}
    (hc : c ∈ Candidate.all kind patterns) (hcd : CandidateTwin keep g patterns c d)
    (h : RoundExcerpt keep g patterns excerpt b.tables b'.tables merges merges') :
    TwinRounds keep g patterns excerpt (runFrom b (mergeRound (mergerOf kind) patterns merges [c]))
      (runFrom b' (mergeRound (mergerOf kind) excerpt merges' [d])) := by
  have hfree : List.Forall₂ (Matches keep patterns) (c.members.filter (· ∉ claimed merges))
      (d.members.filter (· ∉ claimed merges')) := by
    refine List.rel_filter (fun i j hij => ?_) hcd.members
    simp [h.claimed_iff hij]
  have hmembers := h.members hfree
  have hforeign := foreignWords_eq h.toExcerpt hfree
  have hg := gathered_of_mem_all hc (List.filter_sublist (p := (· ∉ claimed merges)))
  simp only [mergeRound]
  generalize c.members.filter (· ∉ claimed merges) = free at *
  generalize d.members.filter (· ∉ claimed merges') = free' at *
  cases hfree with
  | nil => exact .ok h
  | @cons slot slot' others others' hslot hothers =>
    generalize hat : (slot :: others).filterMap (patterns[·]?) = members at *
    generalize (slot' :: others').filterMap (excerpt[·]?) = members' at *
    cases hmembers with
    | nil => exact .ok h
    | @cons first first' rest rest' hfirst hrest =>
      cases hrest with
      | nil => exact .ok h
      | @cons second second' rest rest' hsecond hrest =>
        dsimp only
        rw [hcd.position, hforeign]
        -- Both call the merger, with twins and the same foreign words.
        have hcall := mergerOf_twin h.left h.right hfirst (.cons hsecond hrest) hg.group
          (foreignWords patterns (slot :: others))
        rw [runFrom_bind, runFrom_bind]
        rcases hrun : runFrom b (mergerOf kind first (second :: rest) c.position
          (foreignWords patterns (slot :: others))) with ⟨r, b₁⟩
        rcases hrun' : runFrom b' (mergerOf kind first' (second' :: rest') c.position
          (foreignWords patterns (slot :: others))) with ⟨r', b₁'⟩
        rw [hrun, hrun'] at hcall
        rcases exceptRel_cases hcall with ⟨e, e', rfl, rfl, he⟩ | ⟨r, r', rfl, rfl, hkept, hr⟩
        · exact .error he
        · have hnext := h.mono hkept
          rcases optionRel_cases hr with ⟨rfl, rfl⟩ | ⟨p, q, rfl, rfl, hpq⟩
          · exact .ok hnext
          · have huniform := uniform_of_mergerOf h.left.toNumbered hg hrun
            have hkeep : keep p.width = true := by
              rcases huniform slot (List.mem_cons_self ..) with ⟨p', hp', hwidth⟩
              rcases hslot.getElem? with ⟨p'', hp'', hkeep⟩
              rw [hp', Option.some.injEq] at hp''
              rw [← hwidth, hp'', hkeep]
            exact .ok (hnext.append hkeep ⟨hslot, hothers, hpq⟩ huniform)

/-- A candidate that is not kept leaves the excerpt alone. -/
theorem mergeRound_other {b b' : Bench} {merges merges' more : List Merge} {c : Candidate}
    (hc : c ∈ Candidate.all kind patterns) (hother : keepsCandidate keep patterns c = false)
    (h : RoundExcerpt keep g patterns excerpt b.tables us merges merges')
    (hrun : runFrom b (mergeRound (mergerOf kind) patterns merges [c]) = (.ok more, b')) :
    RoundExcerpt keep g patterns excerpt b'.tables us more merges' := by
  have hsub := List.filter_sublist (p := (· ∉ claimed merges)) (l := c.members)
  have hg := gathered_of_mem_all hc hsub
  simp only [mergeRound] at hrun
  generalize c.members.filter (· ∉ claimed merges) = free at *
  generalize free.filterMap (patterns[·]?) = members at *
  -- With fewer than two free members nothing is tried.
  rcases free with _ | ⟨slot, others⟩
  · cases hrun
    exact h
  rcases members with _ | ⟨first, _ | ⟨second, rest⟩⟩
  · cases hrun
    exact h
  · cases hrun
    exact h
  · rcases runFrom_bind_eq_ok.1 hrun with ⟨result?, b₁, hcall, hrun⟩
    have hkeeps := keeps_of_mergerOf kind b first (second :: rest) c.position
      (foreignWords patterns (slot :: others)) (.refl h.left)
    rw [hcall] at hkeeps
    have hinterned := hkeeps.interned
    rcases mergerOf_cases (b := b) hg.group (by simp) with
      ⟨_, _, hcase, -⟩ | ⟨_, hcase, hsame⟩ | ⟨result, _, f, hcase, hmade⟩
    all_goals
      rw [hcall] at hcase
      cases hcase
    · cases hrun
      exact h.mono ⟨hinterned, h.right, hsame ▸ fun _ _ => id, fun _ _ => id⟩
    · cases hrun
      rcases hmade h.left.toNumbered with ⟨-, hgrown⟩
      have hnext := h.mono ⟨hinterned, h.right, hgrown.keeps, fun _ _ => id⟩
      have huniform := uniform_of_mergerOf h.left.toNumbered hg hcall
      refine hnext.append_other ?_ huniform
      rcases huniform slot (List.mem_cons_self ..) with ⟨p, hp, hwidth⟩
      have hkeeps : keepsCandidate keep patterns c = keep p.width :=
        keepsCandidate_eq hc (hsub.subset (List.mem_cons_self ..)) hp
      exact (congrArg keep hwidth).symm.trans (hkeeps.symm.trans hother)

/-- A candidate of a kept width that goes well on the one side goes well on the other. -/
theorem mergeRound_kept_ok {b b₁ b' : Bench} {merges merges' more : List Merge} {c d : Candidate}
    (hc : c ∈ Candidate.all kind patterns) (hcd : CandidateTwin keep g patterns c d)
    (h : RoundExcerpt keep g patterns excerpt b.tables b'.tables merges merges')
    (hrun : runFrom b (mergeRound (mergerOf kind) patterns merges [c]) = (.ok more, b₁)) :
    ∃ more' b₁', runFrom b' (mergeRound (mergerOf kind) excerpt merges' [d]) = (.ok more', b₁') ∧
      RoundExcerpt keep g patterns excerpt b₁.tables b₁'.tables more more' := by
  have htwin := mergeRound_kept hc hcd h
  rcases hrun' : runFrom b' (mergeRound (mergerOf kind) excerpt merges' [d]) with ⟨r', b₁'⟩
  rw [hrun, hrun'] at htwin
  rcases exceptRel_cases htwin with ⟨_, _, hfalse, -⟩ | ⟨_, more', heq, rfl, hmore⟩
  · cases hfalse
  · cases heq
    exact ⟨more', b₁', rfl, hmore⟩

/-- A candidate of a kept width that fails on the one side fails alike on the other. -/
theorem mergeRound_kept_fault {b b₁ b' : Bench} {merges merges' : List Merge} {c d : Candidate}
    {e : CombineFault} (hc : c ∈ Candidate.all kind patterns)
    (hcd : CandidateTwin keep g patterns c d)
    (h : RoundExcerpt keep g patterns excerpt b.tables b'.tables merges merges')
    (hrun : runFrom b (mergeRound (mergerOf kind) patterns merges [c]) = (.error e, b₁)) :
    ∃ b₁', runFrom b' (mergeRound (mergerOf kind) excerpt merges' [d]) =
      (.error (e.reindex g), b₁') := by
  have htwin := mergeRound_kept hc hcd h
  rcases hrun' : runFrom b' (mergeRound (mergerOf kind) excerpt merges' [d]) with ⟨r', b₁'⟩
  rw [hrun, hrun'] at htwin
  rcases exceptRel_cases htwin with ⟨_, e', heq, rfl, he⟩ | ⟨_, _, hfalse, -⟩
  · cases heq
    exact ⟨b₁', by rw [he]⟩
  · cases hfalse

/-- A candidate on which a round fails has a width, and is kept where that is. -/
theorem exists_width_of_fault {b b₁ : Bench} {merges : List Merge} {c : Candidate}
    {e : CombineFault} (hc : c ∈ Candidate.all kind patterns)
    (hrun : runFrom b (mergeRound (mergerOf kind) patterns merges [c]) = (.error e, b₁)) :
    ∃ p ∈ patterns, ∀ keep, keepsCandidate keep patterns c = keep p.width := by
  cases hmembers : c.members with
  | nil =>
    rw [mergeRound, hmembers] at hrun
    cases hrun
  | cons slot others =>
    have hslot : slot ∈ c.members := hmembers ▸ List.mem_cons_self ..
    have hg := gathered_of_mem_all hc (List.Sublist.refl c.members)
    rcases hg.exists_member hslot with ⟨p, hp, -⟩
    exact ⟨p, List.mem_of_getElem? hp, fun keep => keepsCandidate_eq hc hslot hp⟩

/-! ## A round -/

/-- What a round does to the patterns that are kept, a round over the excerpt does. -/
theorem mergeRound_excerpt {cs ds : List Candidate}
    (hcs : ∀ c ∈ cs, c ∈ Candidate.all kind patterns)
    (hds : List.Forall₂ (CandidateTwin keep g patterns)
      (cs.filter (keepsCandidate keep patterns)) ds)
    {b b₁ b' : Bench} {merges merges' more : List Merge}
    (h : RoundExcerpt keep g patterns excerpt b.tables b'.tables merges merges')
    (hrun : runFrom b (mergeRound (mergerOf kind) patterns merges cs) = (.ok more, b₁)) :
    ∃ more' b₁', runFrom b' (mergeRound (mergerOf kind) excerpt merges' ds) = (.ok more', b₁') ∧
      RoundExcerpt keep g patterns excerpt b₁.tables b₁'.tables more more' := by
  -- On the candidates of the list; the excerpt has a candidate only for those that are kept.
  induction cs generalizing ds b b' merges merges' with
  | nil =>
    cases hds
    cases hrun
    exact ⟨merges', b', rfl, h⟩
  | cons c cs ih =>
    rw [List.forall_mem_cons] at hcs
    rw [mergeRound_cons_eq, runFrom_bind_eq_ok] at hrun
    rcases hrun with ⟨some', b₂, hone, hrun⟩
    cases hkeep : keepsCandidate keep patterns c with
    | false =>
      rw [List.filter_cons_of_neg (by simp [hkeep])] at hds
      exact ih hcs.2 hds (mergeRound_other hcs.1 hkeep h hone) hrun
    | true =>
      rw [List.filter_cons_of_pos hkeep] at hds
      cases hds with
      | @cons _ d _ ds hcd hds =>
        rcases mergeRound_kept_ok hcs.1 hcd h hone with ⟨next', b₂', hone', hnext⟩
        rcases ih hcs.2 hds hnext hrun with ⟨more', b₁', hrest, hmore⟩
        exact ⟨more', b₁', by rw [mergeRound_cons_eq, runFrom_bind, hone']; exact hrest, hmore⟩

/-- A round fails for the patterns of one width, and with it a round over every excerpt that has
this width. -/
theorem mergeRound_excerpt_fault {cs : List Candidate}
    (hcs : ∀ c ∈ cs, c ∈ Candidate.all kind patterns) {b b₁ : Bench} {merges : List Merge}
    {e : CombineFault}
    (hrun : runFrom b (mergeRound (mergerOf kind) patterns merges cs) = (.error e, b₁)) :
    ∃ p ∈ patterns, ∀ (keep : Nat → Bool) (g : Int → Int) (excerpt : List Pattern) ds
      (b' : Bench) merges', keep p.width = true →
      List.Forall₂ (CandidateTwin keep g patterns) (cs.filter (keepsCandidate keep patterns)) ds →
      RoundExcerpt keep g patterns excerpt b.tables b'.tables merges merges' →
      ∃ b₁', runFrom b' (mergeRound (mergerOf kind) excerpt merges' ds) =
        (.error (e.reindex g), b₁') := by
  induction cs generalizing b merges with
  | nil => cases hrun
  | cons c cs ih =>
    rw [List.forall_mem_cons] at hcs
    rw [mergeRound_cons_eq, runFrom_bind_eq_error] at hrun
    -- The fault is that of the first candidate, whose width is then the one sought, or a later one.
    rcases hrun with hone | ⟨some', b₂, hone, hrun⟩
    · rcases exists_width_of_fault hcs.1 hone with ⟨p, hp, hwidth⟩
      refine ⟨p, hp, fun keep g excerpt ds b' merges' hkeep hds h => ?_⟩
      rw [List.filter_cons_of_pos ((hwidth keep).trans hkeep)] at hds
      cases hds with
      | @cons _ d _ ds hcd hds =>
        rcases mergeRound_kept_fault hcs.1 hcd h hone with ⟨b₁', hone'⟩
        exact ⟨b₁', by rw [mergeRound_cons_eq, runFrom_bind, hone']⟩
    · rcases ih hcs.2 hrun with ⟨p, hp, hall⟩
      refine ⟨p, hp, fun keep g excerpt ds b' merges' hkeep hds h => ?_⟩
      cases hkeep' : keepsCandidate keep patterns c with
      | false =>
        rw [List.filter_cons_of_neg (by simp [hkeep'])] at hds
        exact hall keep g excerpt ds b' merges' hkeep hds (mergeRound_other hcs.1 hkeep' h hone)
      | true =>
        rw [List.filter_cons_of_pos hkeep'] at hds
        cases hds with
        | @cons _ d _ ds hcd hds =>
          rcases mergeRound_kept_ok hcs.1 hcd h hone with ⟨next', b₂', hone', hnext⟩
          rcases hall keep g excerpt ds b₂' next' hkeep hds hnext with ⟨b₁', hrest⟩
          exact ⟨b₁', by rw [mergeRound_cons_eq, runFrom_bind, hone']; exact hrest⟩

end Combine

end SleighForge
