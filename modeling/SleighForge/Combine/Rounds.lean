import SleighForge.Combine.Candidate

/-!
# Rounds of merging

A round tries the candidates of a list in the order of a ranking. A candidate is merged from those
of its members that no earlier candidate of the round has claimed; one that is refused claims none.
A merged pattern takes the place of its first member. Rounds follow each other until one merges
nothing. They come to an end because every other round leaves fewer patterns.
-/

namespace SleighForge

namespace Combine

variable {ε σ : Type}

/-- A way to merge patterns: it gets the first pattern, the others, the position where they differ
and the words that the result must not stand for. -/
abbrev Merger (ε σ : Type) :=
  Pattern → List Pattern → Nat → List Int → ExceptT ε (StateM σ) (Option Pattern)

/-- Patterns that are merged. -/
structure Merge where
  /-- The place of the first member, which the result takes. -/
  slot : Nat
  /-- The places of the other members. -/
  others : List Nat
  result : Pattern

/-- The places whose patterns have been merged. -/
def claimed (merges : List Merge) : List Nat :=
  merges.flatMap fun m => m.slot :: m.others

/-- Tries candidates one after the other, after some merges have been made. -/
def mergeRound (merger : Merger ε σ) (patterns : List Pattern) (merges : List Merge) :
    List Candidate → ExceptT ε (StateM σ) (List Merge)
  | [] => pure merges
  | c :: cs =>
    let free := c.members.filter (· ∉ claimed merges)
    match free, free.filterMap (patterns[·]?) with
    | slot :: others, first :: second :: rest => do
      match ← merger first (second :: rest) c.position (foreignWords patterns free) with
      | some result => mergeRound merger patterns (merges ++ [⟨slot, others, result⟩]) cs
      | none => mergeRound merger patterns merges cs
    | _, _ => mergeRound merger patterns merges cs

/-- The pattern at a place after a round. -/
def settle? (merges : List Merge) (p : Pattern) (place : Nat) : Option Pattern :=
  match merges.find? (·.slot = place) with
  | some m => some m.result
  | none => if place ∈ claimed merges then none else some p

/-- The patterns after a round. -/
def settle (merges : List Merge) (patterns : List Pattern) : List Pattern :=
  patterns.zipIdx.filterMap fun (p, place) => settle? merges p place

/-- What rounds have come to. -/
structure Progress where
  patterns : List Pattern
  /-- The number of groups that were merged. -/
  groups : Nat := 0
  /-- The number of rounds, the last of which merged nothing. -/
  rounds : Nat := 0

/-- Goes on with rounds until one merges nothing. -/
def mergeRounds (kind : OperandKind) (ranking : Ranking) (merger : Merger ε σ) (now : Progress) :
    ExceptT ε (StateM σ) Progress := do
  let candidates := (Candidate.all kind now.patterns).mergeSort ranking
  let merges ← mergeRound merger now.patterns [] candidates
  let next : Progress :=
    ⟨settle merges now.patterns, now.groups + merges.length, now.rounds + 1⟩
  if _ : next.patterns.length < now.patterns.length then
    mergeRounds kind ranking merger next
  else return next
termination_by now.patterns.length

end Combine

end SleighForge
