import SleighForge.Combine.Pass
import SleighForge.Proofs.Combine.OverImmediate
import SleighForge.Proofs.Combine.OverRegister
import SleighForge.Proofs.Combine.Round
import SleighForge.Proofs.Combine.Settled

/-!
# What a round makes

A round of either kind turns groups of patterns into merged patterns (`Round`). Each merged pattern
is made from patterns at places of its own and refuses the words of all others as wide
(`Made.not_accepts`). Every round of a pass is such a round (`round_of_mergeRound`).
-/

namespace SleighForge

/-- The fault says that the bits of some patterns have no place for what tells them apart. -/
def CombineFault.IsPlacement (fault : CombineFault) : Prop :=
  (∃ position varying, fault.cause = .immediatePlacement position varying) ∨
    ∃ lo hi conflict, fault.cause = .registerPlacement lo hi conflict

namespace Combine

/-! ## The mergers with their remarks -/

/-- The merger of a kind. -/
def mergerOf : OperandKind → Merger CombineFault Bench
  | .immediate => immediateMerger
  | .register => registerMerger

/-- A note changes nothing but the journal. -/
theorem runFrom_noteDetail (b : Bench) (text : String) :
    runFrom b (noteDetail text) = (.ok ⟨⟩, { b with journal := b.journal ++ [⟨.debug, text⟩] }) :=
  rfl

/-- Merging over numbers leaves the tables. -/
theorem runFrom_immediateMerger (first : Pattern) (rest : List Pattern) (position : Nat)
    (foreign : List Int) (b : Bench) :
    ∃ journal, runFrom b (immediateMerger first rest position foreign) =
      (mergeImmediates first rest position foreign, { b with journal }) := by
  rw [immediateMerger, runFrom_bind, runFrom_mk]
  cases mergeImmediates first rest position foreign with
  | error fault => exact ⟨b.journal, rfl⟩
  | ok merged? =>
    dsimp only
    split
    all_goals
      rw [runFrom_bind, runFrom_noteDetail]
      exact ⟨_, rfl⟩

/-- Merging over registers leaves the tables that `mergeRegisters` gives. -/
theorem runFrom_registerMerger (first : Pattern) (rest : List Pattern) (position : Nat)
    (foreign : List Int) (b : Bench) :
    ∃ journal, runFrom b (registerMerger first rest position foreign) =
      match mergeRegisters first rest position foreign b.tables with
      | .ok (merged?, tables) => (.ok merged?, ⟨tables, journal⟩)
      | .error fault => (.error fault, ⟨b.tables, journal⟩) := by
  rw [registerMerger, runFrom_bind, runFrom_get]
  dsimp only
  rw [runFrom_bind, runFrom_mk]
  cases mergeRegisters first rest position foreign b.tables with
  | error fault => exact ⟨b.journal, rfl⟩
  | ok made =>
    dsimp only
    rw [runFrom_bind, runFrom_modify]
    dsimp only
    split
    all_goals
      rw [runFrom_bind, runFrom_noteDetail]
      exact ⟨_, rfl⟩

section

variable {first : Pattern} {rest : List Pattern} {position : Nat} {foreign : List Int}

/-- What a merger can do with a group: fail for want of a place, refuse, or make a pattern. -/
theorem mergerOf_cases {kind : OperandKind} {b : Bench}
    (hg : IsGroup kind position (first :: rest)) (hrest : rest ≠ []) :
    (∃ fault b', runFrom b (mergerOf kind first rest position foreign) = (.error fault, b') ∧
      fault.IsPlacement) ∨
    (∃ b', runFrom b (mergerOf kind first rest position foreign) = (.ok none, b') ∧
      b'.tables = b.tables) ∨
    ∃ result b' f, runFrom b (mergerOf kind first rest position foreign) = (.ok (some result), b') ∧
      (b.tables.Numbered →
        Merged b'.tables first rest position foreign f result ∧
          Tables.Grown (fun name => ∃ p ∈ first :: rest, .register name ∈ p.operands)
            b.tables b'.tables) := by
  cases kind with
  | immediate =>
    rcases runFrom_immediateMerger first rest position foreign b with ⟨journal, hrun⟩
    rw [mergerOf, hrun]
    cases hmerge : mergeImmediates first rest position foreign with
    | error fault =>
      refine .inl ⟨fault, _, rfl, .inl ⟨position, mergeImmediates_fault ?_ hmerge⟩⟩
      -- A group holds immediates at its position, so a missing value is no cause of the fault.
      intro p hp
      rcases hg.holds p hp with ⟨op, hop, hkind⟩
      rw [valueAt?, hop]
      cases op with
      | immediate v spelling => rfl
      | _ => cases hkind
    | ok merged? =>
      cases merged? with
      | none => exact .inr (.inl ⟨_, rfl, rfl⟩)
      | some result =>
        rcases mergeImmediates_spec hmerge with ⟨f, hopened, hover⟩
        exact .inr (.inr ⟨result, _, f, rfl, fun hn => ⟨hover.merged hopened b.tables, .refl hn⟩⟩)
  | register =>
    rcases runFrom_registerMerger first rest position foreign b with ⟨journal, hrun⟩
    rw [mergerOf, hrun]
    rcases mergeRegisters_cases first rest position foreign b.tables with
      ⟨cause, hmerge, hwhy⟩ | ⟨hmerge, -⟩ |
        ⟨result, tables, f, selection, hmerge, hopened, hover⟩
    · rw [hmerge]
      refine .inl ⟨_, _, rfl, ?_⟩
      rcases hwhy with hnone | ⟨p, hp, hnone⟩ | ⟨lo, hi, conflict, hcause, -⟩
      · -- Two of the three causes cannot occur in a group: too few members, and a member that holds
        -- no register.
        exact absurd hnone hrest
      · rcases hg.holds p hp with ⟨op, hop, hkind⟩
        rw [nameAt?, hop] at hnone
        cases op with
        | register name => cases hnone
        | _ => cases hkind
      · exact .inr ⟨lo, hi, conflict, hcause⟩
    · rw [hmerge]
      exact .inr (.inl ⟨_, rfl, rfl⟩)
    · rw [hmerge]
      exact .inr (.inr ⟨result, _, f, rfl, hover.merged hopened hg⟩)

end

/-! ## Merges -/

/-- A merge is made from a group of the list, whose first member has the place of the merge. -/
structure Made (tables : Tables) (patterns : List Pattern) (m : Merge) (kind : OperandKind)
    (position : Nat) (first : Pattern) (rest : List Pattern) (f : BitField) : Prop where
  gathered : Gathered kind patterns position m.slots (first :: rest)
  merged : Merged tables first rest position (foreignWords patterns m.slots) f m.result

namespace Made

variable {ts ts' : Tables} {patterns : List Pattern} {m : Merge} {kind : OperandKind}
  {position : Nat} {first p : Pattern} {rest : List Pattern} {f : BitField}

/-- What is made of a group stays so while tables are kept. -/
theorem mono (hkeep : ∀ id t, ts.get? id = some t → ts'.get? id = some t)
    (h : Made ts patterns m kind position first rest f) :
    Made ts' patterns m kind position first rest f :=
  ⟨h.gathered, h.merged.mono hkeep⟩

theorem members_eq (h : Made ts patterns m kind position first rest f) :
    m.members patterns = first :: rest := by
  have hfound := congrArg (List.filterMap id) h.gathered.found
  rw [List.filterMap_map, List.filterMap_map] at hfound
  simpa [Merge.members] using hfound

theorem mem_members (h : Made ts patterns m kind position first rest f) :
    p ∈ first :: rest ↔ ∃ i ∈ m.slots, patterns[i]? = some p := by
  rw [← h.members_eq, Merge.members, List.mem_filterMap]

theorem first_eq (h : Made ts patterns m kind position first rest f) :
    patterns[m.slot]? = some first := by
  have hfound := h.gathered.found
  rw [Merge.slots, List.map_cons, List.map_cons, List.cons.injEq] at hfound
  exact hfound.1

/-- A merged pattern accepts no word of a pattern outside of its group that is as wide. -/
theorem not_accepts (h : Made ts patterns m kind position first rest f) {q : Pattern} {i : Nat}
    (hq : patterns[i]? = some q) (hi : i ∉ m.slots) (hw : q.width = m.result.width)
    {e : Example} (he : e ∈ q.examples) : m.result.accepts e.opcode = false := by
  have hwidth := h.merged.width_eq h.gathered.group (List.mem_cons_self ..)
  have hforeign : e.opcode ∈ foreignWords patterns m.slots := by
    simp only [foreignWords, Merge.slots, List.head?_cons, Option.bind_some, h.first_eq]
    refine List.mem_flatMap.2 ⟨(q, i), List.mem_filter.2 ⟨?_, ?_⟩, List.mem_map_of_mem he⟩
    · exact List.mem_zipIdx_iff_getElem?.2 hq
    · simpa [Merge.slots, hw, hwidth] using hi
  have hagree := h.merged.refuses _ hforeign
  simp [Pattern.accepts, Encoding.accepts, hagree]

end Made

/-! ## Rounds -/

/-- A round makes merges from groups that have no pattern in common, and tables for them. -/
structure Round (patterns : List Pattern) (ts ts' : Tables) (merges : List Merge) : Prop where
  disjoint : Disjoint merges patterns
  grown : Tables.Grown (fun name => ∃ p ∈ patterns, .register name ∈ p.operands) ts ts'
  made : ∀ m ∈ merges, ∃ kind position first rest f, Made ts' patterns m kind position first rest f

/-- A pattern after a round is made from a group, or was there before. -/
theorem Round.cases_of_mem_settle {patterns : List Pattern} {ts ts' : Tables} {merges : List Merge}
    (h : Round patterns ts ts' merges) {p : Pattern} (hp : p ∈ settle merges patterns) :
    (∃ m kind position first rest f,
      m.result = p ∧ Made ts' patterns m kind position first rest f) ∨
    ∃ i : Nat, patterns[i]? = some p := by
  rcases (mem_settle h.disjoint).1 hp with ⟨m, hm, hresult⟩ | ⟨i, hi, -⟩
  · rcases h.made m hm with ⟨kind, position, first, rest, f, hmade⟩
    exact .inl ⟨m, kind, position, first, rest, f, hresult, hmade⟩
  · exact .inr ⟨i, hi⟩

theorem disjoint_nil (patterns : List Pattern) : Disjoint [] patterns where
  nodup := List.nodup_nil
  found _ hi := absurd hi List.not_mem_nil

/-- The places of a group are free when it is offered, so its merge claims no place again. -/
theorem Disjoint.append {patterns : List Pattern} {merges : List Merge} {kind : OperandKind}
    {position slot : Nat} {others : List Nat} {first : Pattern} {rest : List Pattern}
    (h : Disjoint merges patterns) (hoffer : Offer kind patterns merges position slot others first rest)
    (result : Pattern) : Disjoint (merges ++ [⟨slot, others, result⟩]) patterns := by
  have hclaimed : claimed (merges ++ [⟨slot, others, result⟩]) =
      claimed merges ++ slot :: others := by
    simp [claimed]
  constructor
  · rw [hclaimed, List.nodup_append]
    refine ⟨h.nodup, hoffer.gathered.nodup, ?_⟩
    rintro i hi j hj rfl
    exact hoffer.free i hj hi
  · rw [hclaimed]
    intro i hi
    rcases List.mem_append.1 hi with hi | hi
    · exact h.found i hi
    · have hsome : patterns[i]? ∈ (slot :: others).map (patterns[·]?) := List.mem_map_of_mem hi
      rw [hoffer.gathered.found] at hsome
      rcases List.mem_map.1 hsome with ⟨p, -, hp⟩
      exact (List.getElem?_eq_some_iff.1 hp.symm).1

/-- A group is merged after some others of its round. -/
theorem Round.append {patterns : List Pattern} {ts ts' ts'' : Tables} {merges : List Merge}
    {kind : OperandKind} {position slot : Nat} {others : List Nat} {first result : Pattern}
    {rest : List Pattern} {f : BitField} (h : Round patterns ts ts' merges)
    (hoffer : Offer kind patterns merges position slot others first rest)
    (hmerged : Merged ts'' first rest position (foreignWords patterns (slot :: others)) f result)
    (hgrown : Tables.Grown (fun name => ∃ p ∈ first :: rest, .register name ∈ p.operands)
      ts' ts'') :
    Round patterns ts ts'' (merges ++ [⟨slot, others, result⟩]) := by
  let m : Merge := ⟨slot, others, result⟩
  have hm : Made ts'' patterns m kind position first rest f := ⟨hoffer.gathered, hmerged⟩
  refine ⟨h.disjoint.append hoffer result, h.grown.trans (hgrown.mono ?_), ?_⟩
  · -- A member is a pattern of the list, so its registers are known.
    rintro name ⟨p, hp, hname⟩
    rcases hm.mem_members.1 hp with ⟨i, -, hi⟩
    exact ⟨p, List.mem_of_getElem? hi, hname⟩
  · intro m' hm'
    rcases List.mem_append.1 hm' with hm' | hm'
    · rcases h.made m' hm' with ⟨kind', position', first', rest', f', hmade⟩
      exact ⟨kind', position', first', rest', f', hmade.mono hgrown.keeps⟩
    · rw [List.mem_singleton.1 hm']
      exact ⟨kind, position, first, rest, f, hm⟩

theorem round_nil {patterns : List Pattern} {ts : Tables} (hn : ts.Numbered) :
    Round patterns ts ts [] where
  disjoint := disjoint_nil patterns
  grown := .refl hn
  made _ hm := absurd hm List.not_mem_nil

/-- What a round of a pass does, where it ends well, is a round. -/
theorem round_of_mergeRound {kind : OperandKind} {patterns : List Pattern} {cs : List Candidate}
    (hcs : ∀ c ∈ cs, c ∈ Candidate.all kind patterns) {b b' : Bench} (hn : b.tables.Numbered)
    {merges : List Merge}
    (hrun : runFrom b (mergeRound (mergerOf kind) patterns [] cs) = (.ok merges, b')) :
    Round patterns b.tables b'.tables merges := by
  -- Of the three ways the merger can go, the outcome at hand leaves one.
  refine mergeRound_induction
    (I := fun merges c => Round patterns b.tables c.tables merges) ?_ ?_ hcs (round_nil hn) hrun
  · intro merges c c' position slot others first rest result hround hoffer hcall
    rcases mergerOf_cases (b := c) hoffer.gathered.group hoffer.several with
      ⟨_, _, hcase, -⟩ | ⟨_, hcase, -⟩ | ⟨_, _, f, hcase, hmade⟩
    all_goals
      rw [hcall] at hcase
      cases hcase
    rcases hmade hround.grown.numbered with ⟨hmerged, hgrown⟩
    exact hround.append hoffer hmerged hgrown
  · intro merges c c' position slot others first rest hround hoffer hcall
    rcases mergerOf_cases (b := c) hoffer.gathered.group hoffer.several with
      ⟨_, _, hcase, -⟩ | ⟨_, hcase, hsame⟩ | ⟨_, _, _, hcase, -⟩
    all_goals
      rw [hcall] at hcase
      cases hcase
    rw [hsame]
    exact hround

/-- Rounds of a pass fail only where a group has no place for what tells its members apart. -/
theorem isPlacement_of_mergeRounds (kind : OperandKind) {ranking : Ranking} {now : Progress}
    {b b' : Bench} {fault : CombineFault}
    (hrun : runFrom b (mergeRounds kind ranking (mergerOf kind) now) = (.error fault, b')) :
    fault.IsPlacement := by
  rcases mergeRounds_fault hrun with
      ⟨c, patterns, merges, position, slot, others, first, rest, hoffer, hcall⟩
  rcases mergerOf_cases (b := c) hoffer.gathered.group hoffer.several with
    ⟨_, _, hcase, hplace⟩ | ⟨_, hcase, -⟩ | ⟨_, _, _, hcase, -⟩
  all_goals
    rw [hcall] at hcase
    cases hcase
  exact hplace

end Combine

end SleighForge
