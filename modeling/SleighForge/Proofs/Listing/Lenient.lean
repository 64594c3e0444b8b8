import SleighForge.Proofs.Listing.Lines
import SleighForge.Proofs.Text.Spellings

/-!
# Lenient reading

A lenient reading finds what a strict reading finds in the list without its malformed lines, and
tells of each malformed line, until the collector is full (`read_lenient`). The lines are taken with
their numbers, and what a reading has gathered is a function of the lines that it has heard.
-/

namespace SleighForge

namespace Listing

/-! ## What lines say -/

/-- The malformed ones of some numbered lines. -/
def malformed (reader : Reader) (lines : List (String × Nat)) : List (String × Nat) :=
  lines.filter fun x => (fault? reader x.1).isSome

/-- The lines that are left without the malformed ones. -/
def wellFormed (reader : Reader) (lines : List String) : List String :=
  lines.filter fun line => (fault? reader line).isNone

/-- The diagnostics about the malformed ones of some numbered lines. -/
def diagnoses (reader : Reader) (lines : List (String × Nat)) : List Diagnostic :=
  lines.filterMap fun x => (fault? reader x.1).map (diagnose reader x.2 (chomp x.1))

/-- The warnings about the instructions of some numbered lines. -/
def warnings (reader : Reader) (lines : List (String × Nat)) : List String :=
  lines.filterMap fun x => warning? reader x.1 x.2

/-- The instructions of some lines, at positions from the given one on. -/
def placed (reader : Reader) (first : Nat) (lines : List String) : List Pattern :=
  ((lines.filterMap (instruction? reader)).zipIdx first).map fun x => x.1.reindex fun _ => x.2

section

variable {reader : Reader} {line : String} {fault : LineFault} {p : Pattern}

theorem diagnoses_cons (reader : Reader) (x : String × Nat) (lines : List (String × Nat)) :
    diagnoses reader (x :: lines) = diagnoses reader [x] ++ diagnoses reader lines :=
  List.filterMap_append (l := [x])

theorem warnings_cons (reader : Reader) (x : String × Nat) (lines : List (String × Nat)) :
    warnings reader (x :: lines) = warnings reader [x] ++ warnings reader lines :=
  List.filterMap_append (l := [x])

/-- Instructions get consecutive positions, from line to line. -/
theorem placed_cons (reader : Reader) (first : Nat) (line : String) (lines : List String) :
    placed reader first (line :: lines) = placed reader first [line] ++
      placed reader (first + (placed reader first [line]).length) lines := by
  cases h : instruction? reader line <;> simp [placed, h]

theorem diagnoses_of_none (h : fault? reader line = none) (n : Nat) :
    diagnoses reader [(line, n)] = [] := by
  simp [diagnoses, h]

theorem diagnoses_of_some (h : fault? reader line = some fault) (n : Nat) :
    diagnoses reader [(line, n)] = [diagnose reader n (chomp line) fault] := by
  simp [diagnoses, h]

theorem warnings_singleton (reader : Reader) (line : String) (n : Nat) :
    warnings reader [(line, n)] = (warning? reader line n).toList := by
  cases h : warning? reader line n <;> simp [warnings, h]

theorem placed_of_none (h : instruction? reader line = none) (first : Nat) :
    placed reader first [line] = [] := by
  simp [placed, h]

theorem placed_of_some (h : instruction? reader line = some p) (first : Nat) :
    placed reader first [line] = [p.reindex fun _ => first] := by
  simp [placed, h]

theorem length_placed (reader : Reader) (first : Nat) (lines : List String) :
    (placed reader first lines).length = (lines.filterMap (instruction? reader)).length := by
  simp [placed]

/-- Positions count on from the first. -/
theorem index_placed (reader : Reader) (first : Nat) (lines : List String) :
    (placed reader first lines).map Pattern.index =
      (List.range' first (placed reader first lines).length).map Int.ofNat := by
  rw [length_placed, ← List.zipIdx_map_snd first, placed, List.map_map, List.map_map]
  rfl

/-- Malformed lines have no instructions. -/
theorem placed_wellFormed (reader : Reader) (first : Nat) (lines : List String) :
    placed reader first (wellFormed reader lines) = placed reader first lines := by
  have hgood (line : String) : (if (fault? reader line).isNone then instruction? reader line
      else none) = instruction? reader line := by
    cases h : fault? reader line with
    | none => rw [Option.isNone_none, if_pos rfl]
    | some fault => rw [instruction?_of_fault? h, ite_self]
  rw [placed, placed, wellFormed, List.filterMap_filter]
  simp only [hgood]

/-- There is one diagnostic for each malformed line. -/
theorem length_diagnoses (reader : Reader) (lines : List (String × Nat)) :
    (diagnoses reader lines).length = (malformed reader lines).length := by
  rw [diagnoses, malformed, List.length_filterMap_eq_countP, List.countP_eq_length_filter]
  simp only [Option.isSome_map]

/-- Each diagnostic is about the line of its number. -/
theorem location_diagnoses (reader : Reader) (lines : List (String × Nat)) :
    (diagnoses reader lines).map Diagnostic.location =
      (malformed reader lines).map fun x => some ⟨reader.filename, x.2⟩ := by
  induction lines with
  | nil => rfl
  | cons x lines ih =>
    obtain ⟨line, n⟩ := x
    rw [diagnoses_cons, List.map_append, ih]
    cases h : fault? reader line with
    | none => rw [diagnoses_of_none h, malformed, malformed, List.filter_cons_of_neg (by simp [h]),
        List.map_nil, List.nil_append]
    | some fault =>
      rw [diagnoses_of_some h, malformed, malformed, List.filter_cons_of_pos (by simp [h]),
        List.map_cons]
      rfl

theorem malformed_strict (reader : Reader) (b : Bool) :
    malformed { reader with strict := b } = malformed reader := by
  funext lines
  simp only [malformed, fault?_strict]

theorem diagnoses_strict (reader : Reader) (b : Bool) :
    diagnoses { reader with strict := b } = diagnoses reader := by
  funext lines
  have hsame : diagnose { reader with strict := b } = diagnose reader := rfl
  simp only [diagnoses, fault?_strict, hsame]

theorem warnings_strict (reader : Reader) (b : Bool) :
    warnings { reader with strict := b } = warnings reader := by
  funext lines
  simp only [warnings, warning?_strict]

theorem wellFormed_strict (reader : Reader) (b : Bool) :
    wellFormed { reader with strict := b } = wellFormed reader := by
  funext lines
  simp only [wellFormed, fault?_strict]

theorem placed_strict (reader : Reader) (b : Bool) (first : Nat) :
    placed { reader with strict := b } first = placed reader first := by
  funext lines
  have hsame : instruction? { reader with strict := b } = instruction? reader :=
    funext (instruction?_strict reader b)
  rw [placed, placed, hsame]

end

/-! ## Limits -/

/-- No number of the lines exceeds a limit. -/
def WithinLimits (reader : Reader) (lines : List String) : Prop :=
  ∀ line ∈ lines, overrun? reader line = none

/-- Without limits every line is within them. -/
theorem withinLimits_unbounded {reader : Reader} (h : reader.limits = .unbounded)
    (lines : List String) : WithinLimits reader lines :=
  fun _ _ => overrun?_unbounded h

theorem withinLimits_strict {reader : Reader} {b : Bool} {lines : List String} :
    WithinLimits { reader with strict := b } lines ↔ WithinLimits reader lines := by
  simp only [WithinLimits, overrun?_strict]

/-- Leaving lines out exceeds no limit. -/
theorem WithinLimits.wellFormed {reader : Reader} {lines : List String}
    (h : WithinLimits reader lines) : WithinLimits reader (wellFormed reader lines) :=
  fun line hline => h line (List.mem_filter.1 hline).1

/-! ## Readings -/

/-- What has been found once some more lines, from the given number on, have been heard. -/
def extend (reader : Reader) (n : Nat) (found : Listing) (lines : List String) : Listing :=
  ⟨found.patterns ++ placed reader found.patterns.length lines,
    found.skipped + (diagnoses reader (lines.zipIdx n)).length⟩

/-- What has been gathered once some more numbered lines have been heard. -/
def hear (reader : Reader) (c : Collector) (lines : List (String × Nat)) : Collector :=
  c.gather (diagnoses reader lines) (warnings reader lines)

section

variable {reader : Reader} {n : Nat} {found : Listing} {c : Collector} {journal : Journal}

theorem extend_cons (reader : Reader) (n : Nat) (found : Listing) (line : String)
    (lines : List String) : extend reader n found (line :: lines) =
      extend reader (n + 1) (extend reader n found [line]) lines := by
  simp only [extend, List.zipIdx_cons, List.zipIdx_nil, placed_cons reader _ line lines,
    diagnoses_cons reader _ (lines.zipIdx _), List.length_append, List.append_assoc,
    Nat.add_assoc]

/-- Diagnostics are gathered line by line. -/
theorem hear_cons (reader : Reader) (c : Collector) (x : String × Nat)
    (lines : List (String × Nat)) :
    hear reader c (x :: lines) = hear reader (hear reader c [x]) lines := by
  simp only [hear, Collector.gather, diagnoses_cons reader x lines, warnings_cons reader x lines,
    List.append_assoc]

theorem length_errors_hear (reader : Reader) (c : Collector) (lines : List (String × Nat)) :
    (hear reader c lines).errors.length = c.errors.length + (diagnoses reader lines).length :=
  List.length_append

/-- A malformed line is gathered as one error. -/
theorem hear_malformed {line : String} {fault : LineFault} (h : fault? reader line = some fault)
    (c : Collector) (n : Nat) :
    hear reader c [(line, n)] = c.add (diagnose reader n (chomp line) fault) := by
  have hnone := warning?_of_none (instruction?_of_fault? h) n
  simp [hear, diagnoses_of_some h, warnings_singleton, hnone, Collector.gather, Collector.add]

/-- One more line is heard, unless it is malformed and ends a strict reading or fills the collector
of a lenient one. -/
theorem readFrom_hear (found : Listing) (journal : Journal) {line : String}
    (hlimits : overrun? reader line = none)
    (h : fault? reader line = none ∨
      reader.strict = false ∧ (hear reader c [(line, n)]).isFull = false) (lines : List String) :
    ∃ journal', readFrom reader n found c journal (line :: lines) =
      readFrom reader (n + 1 : Nat) (extend reader n found [line]) (hear reader c [(line, n)])
        journal' lines := by
  cases hfault : fault? reader line with
  | some fault =>
    -- A malformed line is passed over only by a lenient reader with room for its warning.
    obtain ⟨hlenient, hopen⟩ := h.resolve_left (by simp [hfault])
    rw [hear_malformed hfault] at hopen ⊢
    refine ⟨journal ++ [skipRemark n (diagnose reader n (chomp line) fault)], ?_⟩
    rw [readFrom_malformed hfault]
    simp [hlenient, hopen, extend, diagnoses_of_some hfault,
      placed_of_none (instruction?_of_fault? hfault)]
  | none =>
    refine ⟨journal, ?_⟩
    cases hline : isBlankOrComment (chomp line) with
    | true =>
      have hnone : instruction? reader line = none := instruction?_comment hline
      rw [readFrom_comment hline]
      simp [extend, hear, Collector.gather, diagnoses_of_none hfault, placed_of_none hnone,
        warnings_singleton, warning?_of_none hnone]
    | false =>
      cases hp : instruction? reader line with
      | none =>
        rcases exists_fault hline hp with ⟨fault, hsome⟩ | ⟨exceeded, hsome⟩
        · rw [hfault] at hsome
          cases hsome
        · rw [hlimits] at hsome
          cases hsome
      | some p =>
        rw [readFrom_instruction hp]
        simp [extend, hear, diagnoses_of_none hfault, placed_of_some hp, warnings_singleton]

/-- A reading goes through the lines if none is malformed, or if it is lenient and the collector has
room for more than the diagnostics about them. -/
theorem readFrom_through (found : Listing) (journal : Journal) {lines : List String}
    (hlimits : WithinLimits reader lines)
    (h : diagnoses reader (lines.zipIdx n) = [] ∨ reader.strict = false ∧
      c.errors.length + (diagnoses reader (lines.zipIdx n)).length < c.limit) :
    ∃ journal', readFrom reader n found c journal lines =
      ⟨.ok (extend reader n found lines), hear reader c (lines.zipIdx n), journal'⟩ := by
  -- On the lines; what has been found and gathered grows by what each of them says.
  induction lines generalizing n found c journal with
  | nil =>
    refine ⟨journal ++ [endRemark reader found], ?_⟩
    simp [readFrom, extend, hear, Collector.gather, diagnoses, warnings, placed]
  | cons line lines ih =>
    rw [List.zipIdx_cons, diagnoses_cons, List.length_append, List.append_eq_nil_iff] at h
    have hcount := length_errors_hear reader c [(line, n)]
    have hlimit : (hear reader c [(line, n)]).limit = c.limit := rfl
    have hline : fault? reader line = none ∨
        reader.strict = false ∧ (hear reader c [(line, n)]).isFull = false := by
      refine h.imp (fun hnone => ?_) fun hroom => ?_
      · cases hfault : fault? reader line with
        | none => rfl
        | some fault => simp [diagnoses_of_some hfault] at hnone
      · obtain ⟨hlenient, hroom⟩ := hroom
        refine ⟨hlenient, decide_eq_false ?_⟩
        omega
    have hlines : diagnoses reader (lines.zipIdx (n + 1)) = [] ∨ reader.strict = false ∧
        (hear reader c [(line, n)]).errors.length +
          (diagnoses reader (lines.zipIdx (n + 1))).length < (hear reader c [(line, n)]).limit := by
      refine h.imp And.right fun hroom => ⟨hroom.1, ?_⟩
      omega
    obtain ⟨hfirst, hrest⟩ := List.forall_mem_cons.1 hlimits
    obtain ⟨journal', hstep⟩ := readFrom_hear found journal hfirst hline lines
    rw [extend_cons, List.zipIdx_cons, hear_cons, hstep]
    exact ih _ _ hrest hlines

/-- A lenient reading stops at the malformed line that fills the collector. -/
theorem readFrom_full (found : Listing) (journal : Journal) {lines : List String}
    (hlimits : WithinLimits reader lines) (hlenient : reader.strict = false) (hroom : c.errors.length < c.limit)
    (hmany : c.limit ≤ c.errors.length + (diagnoses reader (lines.zipIdx n)).length) :
    ∃ heard last unheard journal', lines.zipIdx n = heard ++ last :: unheard ∧
      (fault? reader last.1).isSome = true ∧
      (hear reader c (heard ++ [last])).errors.length = c.limit ∧
      readFrom reader n found c journal lines =
        ⟨.error (.tooMany (hear reader c (heard ++ [last])).overflow),
          hear reader c (heard ++ [last]), journal'⟩ := by
  -- On the lines: the reading stops at the first of them, or goes on with the others.
  induction lines generalizing n found c journal with
  | nil => exact absurd hmany (by simpa [diagnoses] using hroom)
  | cons line lines ih =>
    obtain ⟨hfirst, hrest⟩ := List.forall_mem_cons.1 hlimits
    have hcount := length_errors_hear reader c [(line, n)]
    have hlimit : (hear reader c [(line, n)]).limit = c.limit := rfl
    rw [List.zipIdx_cons] at hmany ⊢
    rw [diagnoses_cons, List.length_append] at hmany
    cases hfull : (hear reader c [(line, n)]).isFull with
    | false =>
      have hopen := of_decide_eq_false hfull
      obtain ⟨journal', hstep⟩ :=
        readFrom_hear found journal hfirst (.inr ⟨hlenient, hfull⟩) lines
      obtain ⟨heard, last, unheard, journal'', hsplit, hlast, hlength, hread⟩ :=
        ih (n := n + 1) (c := hear reader c [(line, n)]) (extend reader n found [line]) journal'
          hrest (by omega) (by omega)
      refine ⟨(line, n) :: heard, last, unheard, journal'', ?_, hlast, ?_, ?_⟩
      · rw [hsplit, List.cons_append]
      · rw [List.cons_append, hear_cons, hlength, hlimit]
      · rw [List.cons_append, hear_cons, hstep, hread]
    | true =>
      have hfilled := of_decide_eq_true hfull
      cases hfault : fault? reader line with
      | none =>
        rw [diagnoses_of_none hfault] at hcount
        simp at hcount
        omega
      | some fault =>
        rw [diagnoses_of_some hfault, List.length_singleton] at hcount
        refine ⟨[], (line, n), lines.zipIdx (n + 1),
          journal ++ [skipRemark n (diagnose reader n (chomp line) fault)], rfl, ?_, ?_, ?_⟩
        · rw [hfault, Option.isSome_some]
        · rw [List.nil_append]
          omega
        · rw [List.nil_append]
          rw [hear_malformed hfault] at hfull ⊢
          rw [readFrom_malformed hfault]
          simp [hlenient, hfull]

/-- A strict reading that ends early ends at the first malformed line. -/
theorem readFrom_strict {lines : List String} {fault : ListingFault}
    (hlimits : WithinLimits reader lines) (hstrict : reader.strict = true)
    (h : (readFrom reader n found c journal lines).result = .error fault) :
    ∃ d, (diagnoses reader (lines.zipIdx n)).head? = some d ∧ fault = .malformed d := by
  induction lines generalizing n found c journal with
  | nil => cases h
  | cons line lines ih =>
    obtain ⟨hfirst, hrest⟩ := List.forall_mem_cons.1 hlimits
    rw [List.zipIdx_cons, diagnoses_cons]
    cases hfault : fault? reader line with
    | some lineFault =>
      rw [readFrom_malformed hfault] at h
      simp only [hstrict, if_true] at h
      -- A strict reader stops at the first malformed line, which is then the first to be diagnosed.
      refine ⟨diagnose reader n (chomp line) lineFault, ?_, (Except.error.inj h).symm⟩
      rw [diagnoses_of_some hfault, List.singleton_append, List.head?_cons]
    | none =>
      obtain ⟨journal', hstep⟩ := readFrom_hear (n := n) (c := c) found journal hfirst
        (.inl hfault) lines
      rw [hstep] at h
      rw [diagnoses_of_none hfault, List.nil_append]
      exact ih hrest h

end

/-! ## Whole lists -/

section

variable (reader : Reader) (lines : List String) {limit : Int}

/-- A lenient reading passes over fewer malformed lines than the collector takes. -/
theorem read_through (hlimits : WithinLimits reader lines) (hlenient : reader.strict = false)
    (hfew : (malformed reader (lines.zipIdx 1)).length < limit) :
    ∃ journal, read reader lines ⟨limit, [], []⟩ =
      ⟨.ok ⟨placed reader 0 lines, (malformed reader (lines.zipIdx 1)).length⟩,
        ⟨limit, diagnoses reader (lines.zipIdx 1), warnings reader (lines.zipIdx 1)⟩,
        journal⟩ := by
  have hroom : ((Collector.mk limit [] []).errors.length : Int) +
      (diagnoses reader (lines.zipIdx 1)).length < limit := by
    rw [length_diagnoses]
    simpa using hfew
  obtain ⟨journal, hread⟩ := readFrom_through {} [] hlimits (.inr ⟨hlenient, hroom⟩)
  refine ⟨journal, hread.trans ?_⟩
  simp [extend, hear, Collector.gather, length_diagnoses]

/-- Any reading goes through the list without its malformed lines. -/
theorem read_wellFormed (hlimits : WithinLimits reader lines) (c : Collector) :
    (read reader (wellFormed reader lines) c).result = .ok ⟨placed reader 0 lines, 0⟩ := by
  have hnone : malformed reader ((wellFormed reader lines).zipIdx 1) = [] := by
    refine List.filter_eq_nil_iff.2 ?_
    intro x hx
    have hgood := (List.mem_filter.1 (List.fst_mem_of_mem_zipIdx hx)).2
    simpa using hgood
  have hclean : diagnoses reader ((wellFormed reader lines).zipIdx 1) = [] := by
    rw [← List.length_eq_zero_iff, length_diagnoses, hnone, List.length_nil]
  obtain ⟨journal, hread⟩ :=
    readFrom_through (c := c) {} [] hlimits.wellFormed (.inl hclean)
  have hresult := congrArg Outcome.result hread
  refine hresult.trans ?_
  simp [extend, hclean, placed_wellFormed]

/-- A lenient reading stops at the last malformed line that the collector takes. -/
theorem read_full (hlimits : WithinLimits reader lines) (hlenient : reader.strict = false)
    (hlimit : 1 ≤ limit)
    (hmany : limit ≤ (malformed reader (lines.zipIdx 1)).length) :
    ∃ heard last unheard journal, lines.zipIdx 1 = heard ++ last :: unheard ∧
      (fault? reader last.1).isSome = true ∧
      (diagnoses reader (heard ++ [last])).length = limit ∧
      read reader lines ⟨limit, [], []⟩ =
        ⟨.error (.tooMany (Collector.overflow ⟨limit, [], []⟩)),
          ⟨limit, diagnoses reader (heard ++ [last]), warnings reader heard⟩, journal⟩ := by
  obtain ⟨heard, last, unheard, journal, hsplit, hlast, hlength, hread⟩ :=
    readFrom_full (n := 1) (c := ⟨limit, [], []⟩) {} [] hlimits hlenient
      (Int.lt_of_lt_of_le Int.zero_lt_one hlimit) (by simpa [length_diagnoses] using hmany)
  -- The line that fills the collector is malformed, and only well-formed lines warn.
  have hsilent : warnings reader [last] = [] := by
    obtain ⟨fault, hfault⟩ := Option.isSome_iff_exists.1 hlast
    simp [warnings, warning?_of_none (instruction?_of_fault? hfault)]
  have hwarnings : warnings reader (heard ++ [last]) = warnings reader heard := by
    rw [warnings, List.filterMap_append, ← warnings, ← warnings, hsilent, List.append_nil]
  have hgathered : hear reader ⟨limit, [], []⟩ (heard ++ [last]) =
      ⟨limit, diagnoses reader (heard ++ [last]), warnings reader heard⟩ := by
    rw [hear, hwarnings]
    rfl
  rw [hgathered] at hlength hread
  exact ⟨heard, last, unheard, journal, hsplit, hlast, hlength, hread⟩

end

end Listing

/-! ## Checks -/

/-- A run of bits can be made again. -/
theorem BitRun.make_eq (r : BitRun) : make r.value r.width = .ok r := by
  have hvalue : fits r.value r.width = true := fits_iff.2 r.value_lt
  simp [make, r.width_pos, hvalue]

/-- The checks of the parts of a concrete instruction pass: its word fits in its width, its
encoding has that width, and the spelling of each of its numbers can be read within the limits. -/
structure Pattern.Checked (limits : Limits) (p : Pattern) : Prop where
  word : ∃ word : BitRun, BitRun.make word.value word.width = .ok word ∧ p.encoding = [.bits word]
  parts : ofParts p.mnemonic p.operands p.encoding p.width p.index p.examples = .ok p
  numbers : ∀ op ∈ p.operands, op.Spelled limits

namespace Listing

/-- Operands that are read are spelled as they were written. -/
theorem spelled_operandsOf {limits : Limits} {catalog : Catalog} {cs : List Char}
    {operands : List Operand} (h : operandsOf limits catalog cs = .ok operands) :
    ∀ op ∈ operands, op.Spelled limits := by
  unfold operandsOf at h
  split at h
  · cases h
    exact fun op hop => absurd hop List.not_mem_nil
  · exact Operand.spelled_read h

/-- Whatever is read from a line passes the checks of its parts, and none of them is made in vain. -/
theorem checked_of_instruction? {reader : Reader} {line : String} {p : Pattern}
    (h : instruction? reader line = some p) : p.Checked reader.limits := by
  obtain ⟨-, wide, hrun⟩ := instruction?_eq_some_iff.1 h
  obtain ⟨c, opcode, operands, -, -, hoperands, rfl, -⟩ := exists_columns_of_instructionOf hrun
  constructor
  · exact ⟨_, BitRun.make_eq _, rfl⟩
  · exact Pattern.ofParts_eq _
  · exact spelled_operandsOf hoperands

/-- A lenient reading finds what a strict reading finds without the malformed lines. Numbers are
unbounded, or none of the list exceeds a limit. -/
theorem read_lenient (reader : Reader) (lines : List String) (limit : Int) (hlimit : 1 ≤ limit)
    (hlimits : reader.limits = .unbounded ∨ WithinLimits reader lines) :
    let bad := malformed reader (lines.zipIdx 1)
    let out := read { reader with strict := false } lines ⟨limit, [], []⟩
    (bad.length < limit → ∃ patterns, out.result = .ok ⟨patterns, bad.length⟩ ∧
      (∀ c, (read { reader with strict := true } (wellFormed reader lines) c).result =
        .ok ⟨patterns, 0⟩) ∧
      patterns.map Pattern.index = (List.range patterns.length).map Int.ofNat ∧
      out.collector =
        ⟨limit, diagnoses reader (lines.zipIdx 1), warnings reader (lines.zipIdx 1)⟩ ∧
      out.collector.errors.map Diagnostic.location =
        bad.map fun x => some ⟨reader.filename, x.2⟩) ∧
    (limit ≤ bad.length → ∃ heard last unheard, lines.zipIdx 1 = heard ++ last :: unheard ∧
      (fault? reader last.1).isSome = true ∧
      out.result = .error (.tooMany out.collector.overflow) ∧
      out.collector = ⟨limit, diagnoses reader (heard ++ [last]), warnings reader heard⟩ ∧
      out.collector.errors.length = limit ∧
      out.collector.errors.map Diagnostic.location =
        (bad.take limit.toNat).map fun x => some ⟨reader.filename, x.2⟩) ∧
    (∀ c fault, (read { reader with strict := true } lines c).result = .error fault →
      ∃ d, (diagnoses reader (lines.zipIdx 1)).head? = some d ∧ fault = .malformed d) ∧
    ∀ line ∈ lines, ∀ p, instruction? reader line = some p → p.Checked reader.limits := by
  intro bad out
  have hwithin : WithinLimits reader lines :=
    hlimits.elim (fun h => withinLimits_unbounded h lines) id
  have hbad : malformed { reader with strict := false } (lines.zipIdx 1) = bad := by
    rw [malformed_strict]
  refine ⟨?_, ?_, ?_, ?_⟩
  · intro hfew
    obtain ⟨journal, hread⟩ := read_through { reader with strict := false } lines
      (withinLimits_strict.2 hwithin) rfl (hbad ▸ hfew)
    rw [hbad, diagnoses_strict, warnings_strict, placed_strict] at hread
    have hout : out = _ := hread
    rw [hout]
    refine ⟨placed reader 0 lines, rfl, ?_, ?_, rfl, location_diagnoses ..⟩
    · intro c
      have hgood := read_wellFormed { reader with strict := true } lines
        (withinLimits_strict.2 hwithin) c
      rwa [wellFormed_strict, placed_strict] at hgood
    · rw [index_placed, List.range_eq_range']
  · intro hmany
    obtain ⟨heard, last, unheard, journal, hsplit, hlast, hlength, hread⟩ :=
      read_full { reader with strict := false } lines (withinLimits_strict.2 hwithin) rfl hlimit
        (hbad ▸ hmany)
    rw [fault?_strict] at hlast
    rw [diagnoses_strict] at hlength
    rw [diagnoses_strict, warnings_strict] at hread
    have hout : out = _ := hread
    rw [hout]
    refine ⟨heard, last, unheard, hsplit, hlast, rfl, rfl, hlength, ?_⟩
    -- The malformed lines that were heard are the first ones.
    have hfirst : bad.take limit.toNat = malformed reader (heard ++ [last]) := by
      have hparts : bad = malformed reader (heard ++ [last]) ++ malformed reader unheard := by
        rw [malformed, malformed, ← List.filter_append, List.append_assoc,
          List.singleton_append, ← hsplit]
        rfl
      rw [length_diagnoses] at hlength
      rw [hparts, List.take_left' (by omega)]
    rw [hfirst]
    exact location_diagnoses ..
  · intro c fault h
    rw [← diagnoses_strict reader true]
    exact readFrom_strict (withinLimits_strict.2 hwithin) rfl h
  · intro line _ p hp
    exact checked_of_instruction? hp

/-- A reading for a processor of eight bits. -/
def byteReader : Reader :=
  ⟨⟨[]⟩, 8, "<input>", true, .standard⟩

/-- A comment, an instruction that is wider than the processor, a malformed line and an
instruction. -/
def mixedLines : List String :=
  ["# words", "0x1FF LD #1", "MOV", "00000010 LD #2"]

/-- The malformed line is below the limit of two errors, and reaches the limit of one. -/
theorem read_lenient_mixedLines :
    (∃ patterns, (read { byteReader with strict := false } mixedLines ⟨2, [], []⟩).result =
        .ok ⟨patterns, 1⟩ ∧
      (read { byteReader with strict := true } (wellFormed byteReader mixedLines) {}).result =
        .ok ⟨patterns, 0⟩ ∧
      patterns.map Pattern.index = [0, 1]) ∧
    (read { byteReader with strict := false } mixedLines ⟨1, [], []⟩).collector =
      ⟨1, [⟨"expected an opcode followed by a mnemonic", some ⟨"<input>", 3⟩, some "MOV",
          some "each line needs an opcode followed by a mnemonic"⟩],
        ["<input>:2: opcode '0x1FF' is 12 bits wide, more than the configured bitness of 8"]⟩ ∧
    ∃ d, (read { byteReader with strict := false } mixedLines ⟨1, [], []⟩).result =
      .error (.tooMany d) := by
  have hbad : (malformed byteReader (mixedLines.zipIdx 1)).length = 1 := by decide +kernel
  have hwithin : WithinLimits byteReader mixedLines := by
    unfold WithinLimits
    decide +kernel
  have hfew := (read_lenient byteReader mixedLines 2 (by decide) (.inr hwithin)).1
  have hmany := (read_lenient byteReader mixedLines 1 (by decide) (.inr hwithin)).2.1
  rw [hbad] at hfew hmany
  obtain ⟨patterns, hresult, hgood, hindex, -⟩ := hfew (by decide)
  obtain ⟨heard, last, unheard, -, -, hfull, -⟩ := hmany (by decide)
  have hlength :
      (read { byteReader with strict := false } mixedLines ⟨2, [], []⟩).result.toOption.map
        (fun listing => listing.patterns.length) = some 2 := by decide +kernel
  rw [hresult] at hlength
  have htwo : patterns.length = 2 := Option.some.inj hlength
  rw [htwo] at hindex
  exact ⟨⟨patterns, hresult, hgood {}, hindex⟩, by decide +kernel, _, hfull⟩

end Listing

end SleighForge
