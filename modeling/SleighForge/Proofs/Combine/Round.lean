import SleighForge.Combine.Rounds
import SleighForge.Proofs.Combine.Group
import SleighForge.Proofs.Run

/-!
# Rounds

What a round can do is said once: it offers groups to the merger, one after the other
(`mergeRound_induction`), and it fails only where the merger fails on a group (`mergeRound_fault`).
What every round keeps is kept by all of them (`mergeRounds_induction`).
-/

namespace SleighForge

namespace Combine

variable {ε σ : Type} {kind : OperandKind} {merger : Merger ε σ} {patterns : List Pattern}

/-- A group whose places are free is offered to the merger. -/
structure Offer (kind : OperandKind) (patterns : List Pattern) (merges : List Merge)
    (position slot : Nat) (others : List Nat) (first : Pattern) (rest : List Pattern) :
    Prop where
  gathered : Gathered kind patterns position (slot :: others) (first :: rest)
  free : ∀ i ∈ slot :: others, i ∉ claimed merges
  several : rest ≠ []

/-- A candidate is passed over, or what is free of it is offered to the merger, whatever candidates
come after it. -/
theorem mergeRound_cons (merger : Merger ε σ) {c : Candidate} (hc : c ∈ Candidate.all kind patterns)
    (merges : List Merge) :
    (∀ cs, mergeRound merger patterns merges (c :: cs) = mergeRound merger patterns merges cs) ∨
      ∃ slot others first rest,
        Offer kind patterns merges c.position slot others first rest ∧
        ∀ cs, mergeRound merger patterns merges (c :: cs) =
          (merger first rest c.position (foreignWords patterns (slot :: others)) >>= fun
            | some result =>
              mergeRound merger patterns (merges ++ [⟨slot, others, result⟩]) cs
            | none => mergeRound merger patterns merges cs) := by
  -- Members claimed earlier in the round are left out; the rest are still of one class.
  have hg := gathered_of_mem_all hc (List.filter_sublist (p := (· ∉ claimed merges)))
  have hfree : ∀ i ∈ c.members.filter (· ∉ claimed merges), i ∉ claimed merges := by
    intro i hi
    simpa using (List.mem_filter.1 hi).2
  simp only [mergeRound]
  split
  · next slot others first second rest hslots hmembers =>
    rw [hmembers, hslots] at hg
    rw [hslots] at hfree
    refine .inr ⟨slot, others, first, second :: rest, ⟨hg, hfree, by simp⟩, fun cs => ?_⟩
    exact hslots ▸ rfl
  · exact .inl fun _ => rfl

/-- What the offers of a round keep, the round keeps. -/
theorem mergeRound_induction {I : List Merge → σ → Prop}
    (hmerge : ∀ merges s t position slot others first rest result, I merges s →
      Offer kind patterns merges position slot others first rest →
      runFrom s (merger first rest position (foreignWords patterns (slot :: others)))
        = (.ok (some result), t) →
      I (merges ++ [⟨slot, others, result⟩]) t)
    (hrefuse : ∀ merges s t position slot others first rest, I merges s →
      Offer kind patterns merges position slot others first rest →
      runFrom s (merger first rest position (foreignWords patterns (slot :: others)))
        = (.ok none, t) →
      I merges t)
    {cs : List Candidate} (hcs : ∀ c ∈ cs, c ∈ Candidate.all kind patterns)
    {merges merges' : List Merge} {s t : σ} (hs : I merges s)
    (hrun : runFrom s (mergeRound merger patterns merges cs) = (.ok merges', t)) :
    I merges' t := by
  -- On the candidates, as the round goes; the merges so far and the state vary.
  induction cs generalizing merges s with
  | nil =>
    rw [mergeRound, runFrom_pure] at hrun
    cases hrun
    exact hs
  | cons c cs ih =>
    have ih := fun {merges s} => @ih (fun d hd => hcs d (List.mem_cons_of_mem _ hd)) merges s
    rcases mergeRound_cons merger (hcs c (List.mem_cons_self ..)) merges with
      heq | ⟨slot, others, first, rest, hoffer, heq⟩
    · rw [heq] at hrun
      exact ih hs hrun
    · rw [heq, runFrom_bind_eq_ok] at hrun
      rcases hrun with ⟨result?, u, hcall, hrun⟩
      cases result? with
      | none => exact ih (hrefuse _ _ _ _ _ _ _ _ hs hoffer hcall) hrun
      | some result => exact ih (hmerge _ _ _ _ _ _ _ _ _ hs hoffer hcall) hrun

/-- A round fails only where the merger fails on a group. -/
theorem mergeRound_fault {cs : List Candidate}
    (hcs : ∀ c ∈ cs, c ∈ Candidate.all kind patterns) {merges : List Merge} {s t : σ} {e : ε}
    (hrun : runFrom s (mergeRound merger patterns merges cs) = (.error e, t)) :
    ∃ u merges' position slot others first rest,
      Offer kind patterns merges' position slot others first rest ∧
      runFrom u (merger first rest position (foreignWords patterns (slot :: others)))
        = (.error e, t) := by
  induction cs generalizing merges s with
  | nil =>
    rw [mergeRound, runFrom_pure] at hrun
    cases hrun
  | cons c cs ih =>
    have ih := fun {merges s} => @ih (fun d hd => hcs d (List.mem_cons_of_mem _ hd)) merges s
    rcases mergeRound_cons merger (hcs c (List.mem_cons_self ..)) merges with
      heq | ⟨slot, others, first, rest, hoffer, heq⟩
    · rw [heq] at hrun
      exact ih hrun
    · rw [heq, runFrom_bind_eq_error] at hrun
      rcases hrun with hcall | ⟨result?, u, -, hrun⟩
      · -- The fault is of this call; in the other cases the round goes on to a later one.
        exact ⟨s, merges, _, slot, others, first, rest, hoffer, hcall⟩
      · cases result? with
        | none => exact ih hrun
        | some result => exact ih hrun

/-! ## Rounds in sequence -/

/-- Ranking adds no candidates. -/
theorem mem_all_of_mem_mergeSort {ranking : Ranking} {c : Candidate}
    (h : c ∈ (Candidate.all kind patterns).mergeSort ranking) : c ∈ Candidate.all kind patterns :=
  List.mem_mergeSort.1 h

/-- What every round keeps, all rounds keep. -/
theorem mergeRounds_induction {ranking : Ranking} {I : List Pattern → σ → Prop}
    (hround : ∀ patterns s merges t, I patterns s →
      runFrom s (mergeRound merger patterns []
        ((Candidate.all kind patterns).mergeSort ranking)) = (.ok merges, t) →
      I (settle merges patterns) t)
    {now done : Progress} {s t : σ} (hs : I now.patterns s)
    (hrun : runFrom s (mergeRounds kind ranking merger now) = (.ok done, t)) :
    I done.patterns t := by
  -- On the number of patterns: a next round is made only if this one has left fewer.
  induction hn : now.patterns.length using Nat.strongRecOn generalizing now s with
  | ind n ih =>
    rw [mergeRounds, runFrom_bind_eq_ok] at hrun
    rcases hrun with ⟨merges, u, hfirst, hrun⟩
    have hu := hround _ _ _ _ hs hfirst
    dsimp only at hrun
    split at hrun
    · next hlt => exact ih _ (hn ▸ hlt) hu hrun rfl
    · rw [runFrom_pure] at hrun
      cases hrun
      exact hu

/-- Rounds fail only where the merger fails on a group. -/
theorem mergeRounds_fault {ranking : Ranking} {now : Progress} {s t : σ} {e : ε}
    (hrun : runFrom s (mergeRounds kind ranking merger now) = (.error e, t)) :
    ∃ u patterns merges position slot others first rest,
      Offer kind patterns merges position slot others first rest ∧
      runFrom u (merger first rest position (foreignWords patterns (slot :: others)))
        = (.error e, t) := by
  induction hn : now.patterns.length using Nat.strongRecOn generalizing now s with
  | ind n ih =>
    rw [mergeRounds, runFrom_bind_eq_error] at hrun
    rcases hrun with hfirst | ⟨merges, u, -, hrun⟩
    · rcases mergeRound_fault (fun c => mem_all_of_mem_mergeSort) hfirst with ⟨v, merges, hcall⟩
      exact ⟨v, now.patterns, merges, hcall⟩
    · dsimp only at hrun
      split at hrun
      · next hlt => exact ih _ (hn ▸ hlt) hrun rfl
      · rw [runFrom_pure] at hrun
        cases hrun

end Combine

end SleighForge
