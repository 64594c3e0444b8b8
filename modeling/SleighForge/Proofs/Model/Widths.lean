import SleighForge.Proofs.Model.Ownership
import SleighForge.Proofs.Model.StageExcerpt

/-!
# Widths are combined apart

What combining makes of the instructions of one width does not depend on those of other widths,
although all widths share one ranking, one table collection and the count of rounds
(`widths_combined_apart`). The instructions of one width are an excerpt of all.
-/

namespace SleighForge

/-! ## Renaming ids -/

/-- The ids of the register tables that the fields of some patterns select from. -/
def usedIds (patterns : List Pattern) : List Int :=
  patterns.flatMap fun p => p.fields.filterMap BitField.table?

/-- The second patterns are the first with other ids. No two ids become one, and each id in use
stands for the same registers as before. -/
structure SameUpToIds (ts us : Tables) (patterns others : List Pattern) (rename : Int → Int) :
    Prop where
  renamed : others = patterns.map (Pattern.mapTable rename)
  apart : ∀ id ∈ usedIds patterns, ∀ id' ∈ usedIds patterns, rename id = rename id' → id = id'
  registers : ∀ id ∈ usedIds patterns, ∃ t u, ts.get? id = some t ∧ us.get? (rename id) = some u ∧
    u.registers = t.registers

/-- The id under which there are the same registers among other tables. -/
def newId (ts us : Tables) (id : Int) : Int :=
  (((ts.get? id).bind fun t => us.find? t.registers).map RegisterTable.id).getD id

section

variable {ts us : Tables}

/-- The new id of a table is that of the table with its registers. -/
theorem newId_eq (hus : us.Interned) {old new : Int} {t u : RegisterTable}
    (ht : ts.get? old = some t) (hu : us.get? new = some u) (hregs : u.registers = t.registers) :
    newId ts us old = new := by
  rw [newId, ht, Option.bind_some]
  rcases hus.get?_eq_some_iff.1 hu with ⟨hmem, hid⟩
  cases hfind : us.find? t.registers with
  | none => simpa [hregs] using List.find?_eq_none.1 hfind u hmem
  | some u' =>
    have hregs' : u'.registers = t.registers := by simpa using List.find?_some hfind
    have heq := List.inj_on_of_nodup_map hus.apart (List.mem_of_find?_eq_some hfind) hmem
      (hregs'.trans hregs.symm)
    rw [Option.map_some, Option.getD_some, heq, hid]

/-- Fields that are alike differ by the renaming. -/
theorem BitField.Alike.eq_mapTable (hus : us.Interned) {f f' : BitField} (h : f.Alike ts us f') :
    f.mapTable (newId ts us) = f' := by
  cases h with
  | immediate hf => exact mapTable_eq_self hf
  | register hf ht hu hregs => rw [mapTable_eq hf, newId_eq hus ht hu hregs]

/-- Alike patterns are the same once the ids are renamed. -/
theorem Pattern.Alike.eq_mapTable (hus : us.Interned) {p q : Pattern} (h : p.Alike ts us q) :
    q = p.mapTable (newId ts us) := by
  have hoperands : p.operands.map (Operand.mapTable (newId ts us)) = q.operands.map id := by
    refine map_eq_map_of_forall₂ h.operands fun op _ op' _ halike => ?_
    cases halike with
    | plain hplain =>
      cases op with
      | field => cases hplain
      | _ => rfl
    | field halike => exact congrArg Operand.field (halike.eq_mapTable hus)
  have hencoding : p.encoding.map (Segment.mapTable (newId ts us)) = q.encoding.map id := by
    refine map_eq_map_of_forall₂ h.encoding fun s _ s' _ halike => ?_
    cases halike with
    | bits => rfl
    | field halike => exact congrArg Segment.field (halike.eq_mapTable hus)
  rw [List.map_id] at hoperands hencoding
  rw [Pattern.mapTable, Pattern.mk.injEq]
  exact ⟨h.mnemonic, hoperands.symm, hencoding.symm, h.index, h.examples⟩

/-- An id in use among some patterns has its registers in the tables of patterns alike. -/
theorem exists_tables_of_mem_usedIds {patterns others : List Pattern}
    (h : List.Forall₂ (Pattern.Alike ts us) patterns others) {id : Int}
    (hid : id ∈ usedIds patterns) : ∃ t u new, ts.get? id = some t ∧ us.get? new = some u ∧
      u.registers = t.registers := by
  rcases List.mem_flatMap.1 hid with ⟨p, hp, hid⟩
  rcases List.mem_filterMap.1 hid with ⟨f, hf, hid⟩
  rcases exists_of_mem_right h.flip hp with ⟨q, -, hpq⟩
  rcases exists_of_mem_right (Encoding.Alike.fields hpq.encoding).flip hf with ⟨f', -, halike⟩
  cases halike with
  | immediate hnone =>
    rw [hnone] at hid
    cases hid
  | register hold ht hu hregs =>
    rw [hold, Option.some.injEq] at hid
    exact ⟨_, _, _, hid ▸ ht, hu, hregs⟩

/-- Patterns that are alike are the same up to a renaming of ids. -/
theorem sameUpToIds_of_alike (hts : ts.Interned) (hus : us.Interned)
    {patterns others : List Pattern} (h : List.Forall₂ (Pattern.Alike ts us) patterns others) :
    SameUpToIds ts us patterns others (newId ts us) := by
  have hregisters : ∀ id ∈ usedIds patterns, ∃ t u, ts.get? id = some t ∧
      us.get? (newId ts us id) = some u ∧ u.registers = t.registers := by
    intro id hid
    rcases exists_tables_of_mem_usedIds h hid with ⟨t, u, new, ht, hu, hregs⟩
    exact ⟨t, u, ht, newId_eq hus ht hu hregs ▸ hu, hregs⟩
  refine ⟨?_, ?_, hregisters⟩
  · have hmap : others.map id = patterns.map (Pattern.mapTable (newId ts us)) :=
      (map_eq_map_of_forall₂ h fun _ _ _ _ hpq => (hpq.eq_mapTable hus).symm).symm
    rwa [List.map_id] at hmap
  · intro id hid id' hid' heq
    rcases hregisters id hid with ⟨t, u, ht, hu, hregs⟩
    rcases hregisters id' hid' with ⟨t', u', ht', hu', hregs'⟩
    rw [heq, hu', Option.some.injEq] at hu
    exact hts.id_eq ht ht' (by rw [← hregs, ← hregs', hu])

end

/-! ## Instructions of one width -/

/-- The instructions of a width, in order. -/
def instructionsOf (width : Nat) (instructions : List Instruction) : List Instruction :=
  instructions.filter fun i => i.word.width = width

/-- The patterns of a width, in order. -/
def patternsOf (width : Nat) (patterns : List Pattern) : List Pattern :=
  patterns.filter fun p => p.width = width

section

variable (config : Config) (catalog : Catalog) (instructions : List Instruction)

/-- The run of all combining passes on some instructions, in the order of the longest shared
beginning. -/
def combined : Except StageFault (List PassStats) × Model :=
  runFrom (Model.ofInstructions config catalog instructions) (Stage.runPasses .longestShared)

/-- What combining makes of the instructions of a width by themselves. -/
theorem combined_excerpt (h : (combined config catalog instructions).1.isOk = true) (width : Nat) :
    (combined config catalog (instructionsOf width instructions)).1.isOk = true ∧
      Excerpt (fun w => w = width) id (combined config catalog instructions).2.tables
        (combined config catalog (instructionsOf width instructions)).2.tables
        (combined config catalog instructions).2.patterns
        (combined config catalog (instructionsOf width instructions)).2.patterns := by
  rcases exists_of_isOk h with ⟨stats, m, hrun⟩
  rcases Stage.passes_excerpt
    (n := Model.ofInstructions config catalog (instructionsOf width instructions))
    (Ranking.longestShared_respects _ KeepsOrder.refl)
    (excerpt_instructions (fun w => w = width) instructions) hrun with ⟨stats', m', hrun', hexcerpt⟩
  have hall : combined config catalog instructions = (.ok stats, m) := hrun
  have hone : combined config catalog (instructionsOf width instructions) = (.ok stats', m') :=
    hrun'
  rw [hall, hone]
  exact ⟨rfl, hexcerpt⟩

/-- Where combining fails, it fails on the instructions of some width by themselves. -/
theorem exists_width_of_fault {fault : StageFault} {m : Model}
    (h : combined config catalog instructions = (.error fault, m)) : ∃ i ∈ instructions,
      (combined config catalog (instructionsOf i.word.width instructions)).1.isOk = false := by
  rcases Stage.passes_excerpt_fault
    (m := Model.ofInstructions config catalog instructions) Tables.numbered_empty h with
    ⟨p, hp, hall⟩
  rcases List.mem_map.1 hp with ⟨i, hi, rfl⟩
  refine ⟨i, hi, ?_⟩
  rcases hall (fun w => w = i.word.width) id
    (Model.ofInstructions config catalog (instructionsOf i.word.width instructions))
    (decide_eq_true (width_pattern i)) (Ranking.longestShared_respects _ KeepsOrder.refl)
    (excerpt_instructions (fun w => w = i.word.width) instructions) with ⟨fault', m', hrun⟩
  have hone : combined config catalog (instructionsOf i.word.width instructions) =
    (.error fault', m') := hrun
  rw [hone]
  rfl

/-- Combining succeeds on some instructions just if it does on those of each width by themselves,
and then makes of those of a width what it makes of them by themselves. -/
theorem widths_combined_apart :
    ((combined config catalog instructions).1.isOk = true ↔ ∀ i ∈ instructions,
      (combined config catalog (instructionsOf i.word.width instructions)).1.isOk = true) ∧
    ((combined config catalog instructions).1.isOk = true → ∀ width, ∃ rename,
      SameUpToIds (combined config catalog instructions).2.tables
        (combined config catalog (instructionsOf width instructions)).2.tables
        (patternsOf width (combined config catalog instructions).2.patterns)
        (combined config catalog (instructionsOf width instructions)).2.patterns rename) := by
  refine ⟨⟨fun h i _ => (combined_excerpt config catalog instructions h i.word.width).1, ?_⟩, ?_⟩
  · intro h
    rcases hrun : combined config catalog instructions with ⟨fault | stats, m⟩
    · -- The instructions that make the run fail would make it fail by themselves.
      rcases exists_width_of_fault config catalog instructions hrun with ⟨i, hi, hfail⟩
      rw [h i hi] at hfail
      cases hfail
    · rfl
  · intro h width
    have hexcerpt := (combined_excerpt config catalog instructions h width).2
    exact ⟨_, sameUpToIds_of_alike hexcerpt.left hexcerpt.right hexcerpt.twins⟩

end

theorem two_bytes_pos : 0 < 16 := by decide

/-- The last two bytes of a number as a word, for examples. -/
def twoByteWord (value : Nat) : BitRun :=
  ⟨value % 2 ^ 16, 16, two_bytes_pos, Nat.mod_lt _ (Nat.two_pow_pos 16)⟩

/-- Instructions of two widths for examples: those of one byte differ in a number, those of two
bytes in a register. -/
def mixedLoads : List Instruction :=
  [⟨"LD", [.text "#", .immediate 5 "5"], byteWord 0x15, 0, by decide⟩,
   ⟨"LD", [.register "r4"], twoByteWord 0x1104, 1, by decide⟩,
   ⟨"LD", [.text "#", .immediate 6 "6"], byteWord 0x16, 2, by decide⟩,
   ⟨"LD", [.register "r5"], twoByteWord 0x1105, 3, by decide⟩]

/-- A list with words of one byte and of two. -/
theorem widths_combined_apart_mixed :
    (combined byteConfig Catalog.common mixedLoads).1.isOk = true ∧
    (combined byteConfig Catalog.common mixedLoads).2.patterns.length = 2 ∧
    ∃ rename, SameUpToIds (combined byteConfig Catalog.common mixedLoads).2.tables
      (combined byteConfig Catalog.common (instructionsOf 16 mixedLoads)).2.tables
      (patternsOf 16 (combined byteConfig Catalog.common mixedLoads).2.patterns)
      (combined byteConfig Catalog.common (instructionsOf 16 mixedLoads)).2.patterns rename := by
  have hok := (widths_combined_apart byteConfig Catalog.common mixedLoads).1.2 (by decide +kernel)
  exact ⟨hok, by decide +kernel,
    (widths_combined_apart byteConfig Catalog.common mixedLoads).2 hok 16⟩

end SleighForge
