import SleighForge.Proofs.Combine.Change
import SleighForge.Proofs.RegisterTable.Twin

/-!
# What passes leave

A pass leaves tables behind also where it ends in a fault. Whatever the outcome, no more has
happened to the tables than that some register lists were interned, so the tables that were there
keep their ids (`keeps_of_runPass`).
-/

namespace SleighForge

/-- Interned tables with all that there was in some other tables. -/
structure Tables.Keeps (ts ts' : Tables) : Prop where
  interned : ts'.Interned
  keeps : ∀ id t, ts.get? id = some t → ts'.get? id = some t

namespace Tables.Keeps

variable {ts ts' ts'' : Tables}

theorem refl (h : ts.Interned) : ts.Keeps ts :=
  ⟨h, fun _ _ => id⟩

theorem trans (h : ts.Keeps ts') (h' : ts'.Keeps ts'') : ts.Keeps ts'' :=
  ⟨h'.interned, fun id t ht => h'.keeps id t (h.keeps id t ht)⟩

/-- Interning a register list leaves all others. -/
theorem intern (h : ts.Interned) (registers : List (Option String)) :
    ts.Keeps (ts.intern registers).2 :=
  ⟨h.intern registers, (intern_grown h.toNumbered registers).1.keeps⟩

end Tables.Keeps

namespace Combine

/-! ## Rounds -/

section

variable {ε σ : Type} {merger : Merger ε σ} {patterns : List Pattern} {I : σ → Prop}

/-- What every call of the merger keeps, whatever comes of it, a round keeps. -/
theorem mergeRound_leaves
    (hcall : ∀ s first rest position foreign, I s →
      I (runFrom s (merger first rest position foreign)).2)
    (cs : List Candidate) (merges : List Merge) {s : σ} (hs : I s) :
    I (runFrom s (mergeRound merger patterns merges cs)).2 := by
  induction cs generalizing merges s with
  | nil => exact hs
  | cons c cs ih =>
    simp only [mergeRound]
    split
    · next slot others first second rest _ _ =>
      have hone := hcall s first (second :: rest) c.position
        (foreignWords patterns (c.members.filter (· ∉ claimed merges))) hs
      rw [runFrom_bind]
      rcases hrun : runFrom s (merger first (second :: rest) c.position
        (foreignWords patterns (c.members.filter (· ∉ claimed merges)))) with ⟨e | result?, t⟩
      · rw [hrun] at hone
        exact hone
      · rw [hrun] at hone
        cases result? with
        | none => exact ih _ hone
        | some result => exact ih _ hone
    · -- Too few members are left, so the merger is not called.
      exact ih _ hs

/-- What every call of the merger keeps, all rounds keep. -/
theorem mergeRounds_leaves
    (hcall : ∀ s first rest position foreign, I s →
      I (runFrom s (merger first rest position foreign)).2)
    (kind : OperandKind) (ranking : Ranking) (now : Progress) {s : σ} (hs : I s) :
    I (runFrom s (mergeRounds kind ranking merger now)).2 := by
  induction hn : now.patterns.length using Nat.strongRecOn generalizing now s with
  | ind n ih =>
    have hround : I (runFrom s (mergeRound merger now.patterns []
        ((Candidate.all kind now.patterns).mergeSort ranking))).2 := mergeRound_leaves hcall _ _ hs
    rw [mergeRounds, runFrom_bind]
    rcases hrun : runFrom s (mergeRound merger now.patterns []
      ((Candidate.all kind now.patterns).mergeSort ranking)) with ⟨e | merges, t⟩
    · rw [hrun] at hround
      exact hround
    · rw [hrun] at hround
      dsimp only
      split
      · next hlt => exact ih _ (hn ▸ hlt) _ hround rfl
      · exact hround

end

/-! ## Tables -/

/-- A merger leaves the tables as they are, or with one register list interned. -/
theorem tables_of_mergerOf (kind : OperandKind) (first : Pattern) (rest : List Pattern)
    (position : Nat) (foreign : List Int) (b : Bench) :
    (runFrom b (mergerOf kind first rest position foreign)).2.tables = b.tables ∨
      ∃ registers, (runFrom b (mergerOf kind first rest position foreign)).2.tables =
        (b.tables.intern registers).2 := by
  cases kind with
  | immediate =>
    rcases runFrom_immediateMerger first rest position foreign b with ⟨journal, hcall⟩
    rw [mergerOf, hcall]
    exact .inl rfl
  | register =>
    rcases runFrom_registerMerger first rest position foreign b with ⟨journal, hcall⟩
    rw [mergerOf, hcall]
    rcases mergeRegisters_cases first rest position foreign b.tables with
      ⟨cause, hmerge, -⟩ | ⟨hmerge, -⟩ | ⟨result, tables, f, selection, hmerge, -, hover⟩
    · rw [hmerge]
      exact .inl rfl
    · rw [hmerge]
      exact .inl rfl
    · rw [hmerge]
      exact .inr ⟨_, hover.tables⟩

/-- A call of the merger leaves the tables that were there, whatever comes of it. -/
theorem keeps_of_mergerOf {ts : Tables} (kind : OperandKind) (b : Bench) (first : Pattern)
    (rest : List Pattern) (position : Nat) (foreign : List Int) (h : ts.Keeps b.tables) :
    ts.Keeps (runFrom b (mergerOf kind first rest position foreign)).2.tables := by
  rcases tables_of_mergerOf kind first rest position foreign b with heq | ⟨registers, heq⟩
  · rw [heq]
    exact h
  · rw [heq]
    exact h.trans (.intern h.interned registers)

/-- A round leaves the tables that were there, whatever comes of it. -/
theorem keeps_of_mergeRound {ts : Tables} (kind : OperandKind) (patterns : List Pattern)
    (cs : List Candidate) {b : Bench} (h : ts.Keeps b.tables) :
    ts.Keeps (runFrom b (mergeRound (mergerOf kind) patterns [] cs)).2.tables :=
  mergeRound_leaves (I := fun c : Bench => ts.Keeps c.tables) (keeps_of_mergerOf kind) cs [] h

/-- Whatever comes of a pass, the tables that were there keep their ids. -/
theorem keeps_of_runPass {ts : Tables} (pass : Pass) (ranking : Ranking) (patterns : List Pattern)
    {b : Bench} (h : ts.Keeps b.tables) :
    ts.Keeps (runFrom b (runPass pass ranking patterns)).2.tables := by
  rcases runPass_cases pass with rfl | ⟨kind, heq⟩
  · exact h
  · have hrounds := mergeRounds_leaves (I := fun c : Bench => ts.Keeps c.tables)
      (keeps_of_mergerOf kind) kind ranking ⟨patterns, 0, 0⟩ h
    rw [heq, runFrom_bind]
    rcases hrun : runFrom b (mergeRounds kind ranking (mergerOf kind) ⟨patterns, 0, 0⟩) with
      ⟨e | done, c⟩
    · rw [hrun] at hrounds
      exact hrounds
    · rw [hrun] at hrounds
      exact hrounds

end Combine

end SleighForge
