import SleighForge.Proofs.Combine.Change
import SleighForge.Proofs.Combine.Turns

/-!
# Passes end where nothing is left to merge

The last round of a pass claims no place, so it offers every candidate in full, and each is passed
over or refused (`idle_of_mergeRounds`). A refusal depends on the patterns only. So the next pass of
the kind makes one round, in which it refuses the same groups whatever their order
(`runPass_again`).
-/

namespace SleighForge

namespace Combine

/-! ## Refusals -/

/-- A group that is refused is refused from any bench, to which that adds remarks only. -/
theorem mergerOf_refused {kind : OperandKind} {first : Pattern} {rest : List Pattern}
    {position : Nat} {foreign : List Int} {b b' : Bench}
    (h : runFrom b (mergerOf kind first rest position foreign) = (.ok none, b')) (c : Bench) :
    ∃ journal, runFrom c (mergerOf kind first rest position foreign) =
      (.ok none, { c with journal }) := by
  cases kind with
  | immediate =>
    rcases runFrom_immediateMerger first rest position foreign b with ⟨journal, hb⟩
    rcases runFrom_immediateMerger first rest position foreign c with ⟨journal', hc⟩
    rw [mergerOf, hb, Prod.mk.injEq] at h
    exact ⟨journal', by rw [mergerOf, hc, h.1]⟩
  | register =>
    rcases runFrom_registerMerger first rest position foreign b with ⟨journal, hb⟩
    rcases runFrom_registerMerger first rest position foreign c with ⟨journal', hc⟩
    rw [mergerOf, hb] at h
    cases hmerge : mergeRegisters first rest position foreign b.tables with
    | error fault =>
      rw [hmerge] at h
      cases h
    | ok made =>
      rcases made with ⟨merged?, tables⟩
      rw [hmerge] at h
      cases h
      -- A refusal comes before the table is interned, so it does not depend on the tables.
      rw [mergerOf, hc, mergeRegisters_refused hmerge]
      exact ⟨journal', rfl⟩

/-! ## Idle candidates -/

/-- Trying the candidate before others comes to no more than remarks. -/
def Idle (kind : OperandKind) (patterns : List Pattern) (c : Candidate) : Prop :=
  ∀ b cs, ∃ journal, runFrom b (mergeRound (mergerOf kind) patterns [] (c :: cs)) =
    runFrom { b with journal } (mergeRound (mergerOf kind) patterns [] cs)

variable {kind : OperandKind} {patterns : List Pattern}

/-- A round over idle candidates makes remarks only. -/
theorem mergeRound_of_idle {cs : List Candidate} (h : ∀ c ∈ cs, Idle kind patterns c) (b : Bench) :
    ∃ journal, runFrom b (mergeRound (mergerOf kind) patterns [] cs) =
      (.ok [], { b with journal }) := by
  induction cs generalizing b with
  | nil => exact ⟨b.journal, rfl⟩
  | cons c cs ih =>
    rcases h c (List.mem_cons_self ..) b cs with ⟨journal, hfirst⟩
    rcases ih (fun d hd => h d (List.mem_cons_of_mem _ hd)) { b with journal } with
      ⟨journal', hrest⟩
    exact ⟨journal', hfirst.trans hrest⟩

/-- A round has the merges that it began with. -/
theorem ne_nil_of_mergeRound {cs : List Candidate} (hcs : ∀ c ∈ cs, c ∈ Candidate.all kind patterns)
    {merges merges' : List Merge} {b b' : Bench} (hne : merges ≠ [])
    (hrun : runFrom b (mergeRound (mergerOf kind) patterns merges cs) = (.ok merges', b')) :
    merges' ≠ [] := by
  refine mergeRound_induction (I := fun merges _ => merges ≠ []) ?_ ?_ hcs hne hrun
  · intro merges _ _ _ _ _ _ _ _ _ _ _
    simp
  · intro merges _ _ _ _ _ _ _ hne _ _
    exact hne

/-- In a round without merges every candidate is idle. -/
theorem idle_of_mergeRound {cs : List Candidate} (hcs : ∀ c ∈ cs, c ∈ Candidate.all kind patterns)
    {b b' : Bench}
    (hrun : runFrom b (mergeRound (mergerOf kind) patterns [] cs) = (.ok [], b')) :
    ∀ c ∈ cs, Idle kind patterns c := by
  induction cs generalizing b with
  | nil => simp
  | cons c cs ih =>
    have hcs' : ∀ d ∈ cs, d ∈ Candidate.all kind patterns := fun d hd =>
      hcs d (List.mem_cons_of_mem _ hd)
    rw [List.forall_mem_cons]
    rcases mergeRound_cons (mergerOf kind) (hcs c (List.mem_cons_self ..)) [] with
      hskip | ⟨slot, others, first, rest, hoffer, htry⟩
    · refine ⟨fun d ds => ⟨d.journal, by rw [hskip]⟩, ?_⟩
      rw [hskip] at hrun
      exact ih hcs' hrun
    · rw [htry, runFrom_bind_eq_ok] at hrun
      rcases hrun with ⟨result?, b₁, hcall, hrun⟩
      cases result? with
      -- Merges are only ever added to, and the round ends without one.
      | some result => exact absurd rfl (ne_nil_of_mergeRound hcs' (by simp) hrun)
      | none =>
        refine ⟨?_, ih hcs' hrun⟩
        intro d ds
        rcases mergerOf_refused hcall d with ⟨journal, hrefused⟩
        exact ⟨journal, by rw [htry, runFrom_bind, hrefused]⟩

/-! ## The last round -/

/-- Where turns have ended, every candidate is idle. -/
theorem Turns.idle {ranking : Ranking} {b b' : Bench} {turns : List Turn} {left : List Pattern}
    (h : Turns kind ranking (mergerOf kind) patterns b turns left b') :
    ∀ c ∈ Candidate.all kind left, Idle kind left c := by
  induction h with
  | last hmade =>
    intro c hc
    exact idle_of_mergeRound (fun _ => mem_all_of_mem_mergeSort) hmade c (List.mem_mergeSort.2 hc)
  | more _ _ _ ih => exact ih

/-- After the rounds no candidate is left that would be merged. -/
theorem idle_of_mergeRounds {ranking : Ranking} {now done : Progress} {b b' : Bench}
    (hrun : runFrom b (mergeRounds kind ranking (mergerOf kind) now) = (.ok done, b')) :
    ∀ c ∈ Candidate.all kind done.patterns, Idle kind done.patterns c := by
  obtain ⟨turns, hturns, -⟩ := turns_of_mergeRounds hrun
  exact hturns.idle

/-- Where every candidate is idle, rounds end with the first, in any order of the candidates. -/
theorem mergeRounds_of_idle (now : Progress)
    (h : ∀ c ∈ Candidate.all kind now.patterns, Idle kind now.patterns c) (ranking : Ranking)
    (b : Bench) :
    ∃ journal, runFrom b (mergeRounds kind ranking (mergerOf kind) now) =
      (.ok ⟨now.patterns, now.groups, now.rounds + 1⟩, { b with journal }) := by
  have hranked : ∀ c ∈ (Candidate.all kind now.patterns).mergeSort ranking,
      Idle kind now.patterns c := fun c hc => h c (mem_all_of_mem_mergeSort hc)
  rcases mergeRound_of_idle hranked b with ⟨journal, hround⟩
  refine ⟨journal, ?_⟩
  rw [mergeRounds, runFrom_bind, hround]
  dsimp only
  rw [settle_nil, dif_neg (Nat.lt_irrefl _)]
  rfl

/-- Repeats are dropped at once. -/
theorem dropDuplicates_dropDuplicates (patterns : List Pattern) :
    dropDuplicates (dropDuplicates patterns) = dropDuplicates patterns :=
  distinctBy_eq_self (nodup_map_distinctBy Pattern.identity patterns)

/-- A pass over what a pass of its kind has left makes one round and merges nothing. Patterns and
tables stay as they are, whatever the rankings and whatever tables there are. -/
theorem runPass_again (pass : Pass) (ranking : Ranking) (patterns patterns' : List Pattern)
    (stats : PassStats) (b b' : Bench)
    (hrun : runFrom b (runPass pass ranking patterns) = (.ok (patterns', stats), b'))
    (again : Ranking) (c : Bench) :
    ∃ journal, runFrom c (runPass pass again patterns') =
      (.ok (patterns', ⟨pass, patterns'.length, patterns'.length, 0, 1⟩), { c with journal }) := by
  cases pass with
  | duplicates =>
    rw [runPass, runFrom_pure] at hrun
    cases hrun
    refine ⟨c.journal, ?_⟩
    rw [runPass, runFrom_pure, dropDuplicates_dropDuplicates, Nat.sub_self]
  | immediates =>
    rcases runFrom_bind_eq_ok.1 hrun with ⟨done, b₁, hrounds, hrun⟩
    cases hrun
    -- The last round merged nothing, so every candidate left has been refused by its merger.
    have hidle : ∀ c ∈ Candidate.all .immediate done.patterns, Idle .immediate done.patterns c :=
      idle_of_mergeRounds hrounds
    rcases mergeRounds_of_idle ⟨done.patterns, 0, 0⟩ hidle again c with ⟨journal, hagain⟩
    exact ⟨journal, runFrom_bind_eq_ok.2 ⟨_, _, hagain, rfl⟩⟩
  | registers =>
    rcases runFrom_bind_eq_ok.1 hrun with ⟨done, b₁, hrounds, hrun⟩
    cases hrun
    have hidle : ∀ c ∈ Candidate.all .register done.patterns, Idle .register done.patterns c :=
      idle_of_mergeRounds hrounds
    rcases mergeRounds_of_idle ⟨done.patterns, 0, 0⟩ hidle again c with ⟨journal, hagain⟩
    exact ⟨journal, runFrom_bind_eq_ok.2 ⟨_, _, hagain, rfl⟩⟩

/-- Instructions of one byte for examples, of which the moves are merged. -/
def moves : List Pattern :=
  [.concrete "MOV" [.register "r0"] (byteWord 16) 0,
   .concrete "MOV" [.register "r1"] (byteWord 17) 1,
   .concrete "HALT" [] (byteWord 3) 2]

/-- Instructions of one byte for examples. The loads are not merged, as their field would stand for
the halt as well. -/
def blockedLoads : List Pattern :=
  [.concrete "LD" [.register "r1"] (byteWord 1) 0,
   .concrete "LD" [.register "r2"] (byteWord 2) 1,
   .concrete "HALT" [] (byteWord 3) 2]

/-- A registers pass over the patterns merges some groups and leaves some patterns, and the next one
with other rankings leaves all as it is. -/
def SettlesAt (patterns : List Pattern) (groups left : Nat) : Prop :=
  ∃ patterns' stats b' journal,
    runFrom {} (runPass .registers .longestShared patterns) = (.ok (patterns', stats), b') ∧
    stats.groups = groups ∧ patterns'.length = left ∧
    runFrom b' (runPass .registers (.byKey fun c => [c.firstIndex]) patterns') =
      (.ok (patterns', ⟨.registers, left, left, 0, 1⟩), { b' with journal })

/-- One list that a pass changes, and one in which every group is refused. -/
theorem runPass_again_moves : SettlesAt moves 1 2 ∧ SettlesAt blockedLoads 0 3 := by
  have hsettles : ∀ patterns groups left,
      (runFrom {} (runPass .registers .longestShared patterns)).1.toOption.map
        (fun done => (done.2.groups, done.1.length)) = some (groups, left) →
      SettlesAt patterns groups left := by
    intro patterns groups left hstats
    rcases hrun : runFrom ({} : Bench) (runPass .registers .longestShared patterns) with
      ⟨fault | ⟨patterns', stats⟩, b'⟩
    · rw [hrun] at hstats
      cases hstats
    · rw [hrun] at hstats
      obtain ⟨hgroups, hleft⟩ := Prod.mk.inj (Option.some.inj hstats)
      obtain ⟨journal, hagain⟩ :=
        runPass_again _ _ _ _ _ _ _ hrun (.byKey fun c => [c.firstIndex]) b'
      exact ⟨patterns', stats, b', journal, hrun, hgroups, hleft, hleft ▸ hagain⟩
  exact ⟨hsettles moves 1 2 (by decide +kernel), hsettles blockedLoads 0 3 (by decide +kernel)⟩

end Combine

end SleighForge
