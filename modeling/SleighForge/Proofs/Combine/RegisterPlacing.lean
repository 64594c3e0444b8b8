import SleighForge.Proofs.Combine.Made
import SleighForge.Proofs.RegisterTable.Twin

/-!
# Placing register fields

Merging over a register has three ends, and what the members are decides between them
(`RegisterPlacing`). If something prevents a field over the bits in which they differ, there is a
fault that says what. If the pattern with the field collides with a foreign word, there is no
pattern. Otherwise there is one, and its table has each register at its selector (`Tabulates`). Only
in this last case do the tables change (`registerMerger_placing`).
-/

namespace SleighForge

namespace Combine

/-- The table has the registers of the members at their selectors and no others. It asks for the
width of the field and ends with a register. -/
structure Tabulates (members : List Pattern) (position : Nat) (f : BitField) (t : RegisterTable) :
    Prop where
  register : ∀ (selector : Nat) (name : String), t.registers[selector]? = some (some name) ↔
    ∃ p ∈ members, IsEntry position f.lo f.width p (selector, name)
  gap : ∀ selector < t.registers.length, t.registers[selector]? = some none ↔
    ∀ p ∈ members, bitSlice p.encoding.literalValue f.lo f.width ≠ selector
  last : ∃ name, t.registers.getLast? = some (some name)
  width : t.selectorWidth = f.width

/-- The table of a selection of some members. -/
theorem tabulates_of_select {first : Pattern} {rest : List Pattern} {position : Nat} {f : BitField}
    {selection : Selection} {t : RegisterTable} (hspan : IsSpan (first :: rest) f.lo f.hi)
    (hselect : select position f.lo f.width (first :: rest) = .ok selection)
    (ht : t.registers = selection.toTable) : Tabulates (first :: rest) position f t := by
  obtain ⟨hone, hentry, hfrom⟩ := select_spec hselect
  -- Every member has an entry, and its selector and name leave no other entry for it.
  have hregister (selector : Nat) (name : String) : t.registers[selector]? = some (some name) ↔
      ∃ p ∈ first :: rest, IsEntry position f.lo f.width p (selector, name) := by
    rw [ht, Selection.getElem?_toTable hone]
    constructor
    · exact hfrom _
    · rintro ⟨p, hp, hname, hselector⟩
      obtain ⟨entry, hmem, hname', hselector'⟩ := hentry p hp
      have heq : entry = (selector, name) :=
        Prod.ext (hselector'.symm.trans hselector) (Option.some.inj (hname'.symm.trans hname))
      exact heq ▸ hmem
  refine ⟨hregister, ?_, ?_, ?_⟩
  · intro selector hlt
    constructor
    · intro hnone p hp hselector
      obtain ⟨entry, -, hname, hselector'⟩ := hentry p hp
      have hsome := (hregister selector entry.2).2 ⟨p, hp, hname, hselector⟩
      rw [hnone] at hsome
      cases hsome
    · intro hunused
      rw [List.getElem?_eq_getElem hlt]
      cases hat : t.registers[selector] with
      | none => rfl
      | some name =>
        obtain ⟨p, hp, -, hselector⟩ :=
          (hregister selector name).1 (by rw [List.getElem?_eq_getElem hlt, hat])
        exact absurd hselector (hunused p hp)
  · have hne : selection ≠ [] := by
      obtain ⟨entry, hmem, -⟩ := hentry first (List.mem_cons_self ..)
      exact List.ne_nil_of_mem hmem
    obtain ⟨entry, hmem, hlast⟩ := Selection.exists_last hne
    refine ⟨entry.2, ?_⟩
    have hplace : selection.toTable.length - 1 = entry.1 := by
      rw [Selection.length_toTable]
      omega
    rw [ht, List.getLast?_eq_getElem?, hplace]
    exact (Selection.getElem?_toTable hone).2 hmem
  · -- Two members differ in the highest bit, so it is one in one of them.
    obtain ⟨p, hp, q, hq, hdiff⟩ := hspan.high
    refine selectorWidth_of_select hselect f.width_pos ?_ ht
    rw [f.lo_add_width]
    exact exists_testBit_of_differsAt hp hq hdiff

/-- The ends of merging over a register, with the tables after it. -/
inductive RegisterPlacing (first : Pattern) (rest : List Pattern) (position : Nat)
    (foreign : List Int) (ts : Tables) : Except CombineFault (Option Pattern) → Tables → Prop
  | prevented {lo hi : Nat} {conflict : RegisterConflict}
    (h : Prevents (first :: rest) position lo hi conflict) :
    RegisterPlacing first rest position foreign ts
      (.error ⟨.registerPlacement lo hi conflict, first.mnemonic,
        (first :: rest).map Pattern.index⟩) ts
  | refused (f : BitField)
    (hfree : ∀ lo hi conflict, ¬ Prevents (first :: rest) position lo hi conflict)
    (hspan : IsSpan (first :: rest) f.lo f.hi) (hl : first.encoding.IsLiteral f.lo f.hi)
    (hcollides : Collides first f foreign) :
    RegisterPlacing first rest position foreign ts (.ok none) ts
  | placed (f : BitField) (t : RegisterTable)
    (hfree : ∀ lo hi conflict, ¬ Prevents (first :: rest) position lo hi conflict)
    (hspan : IsSpan (first :: rest) f.lo f.hi) (hl : first.encoding.IsLiteral f.lo f.hi)
    (hapart : ¬ Collides first f foreign) (hkind : f.kind = .register t.id)
    (hunsigned : f.signed = false) (htable : Tabulates (first :: rest) position f t)
    (ht : (ts.intern t.registers).1 = t) :
    RegisterPlacing first rest position foreign ts
      (.ok (some (first.generalize position f hl ((first :: rest).flatMap Pattern.examples))))
      (ts.intern t.registers).2

section

variable {first : Pattern} {rest : List Pattern} {position : Nat} {foreign : List Int}

/-- The merger over registers comes to such an end. -/
theorem placing_registerMerger (hrest : rest ≠ []) (hwidth : ∀ p ∈ rest, p.width = first.width)
    (hfields : ∀ p ∈ rest, p.fields = first.fields)
    (hnames : ∀ p ∈ first :: rest, (nameAt? position p).isSome = true) (b : Bench) :
    RegisterPlacing first rest position foreign b.tables
      (runFrom b (registerMerger first rest position foreign)).1
      (runFrom b (registerMerger first rest position foreign)).2.tables := by
  obtain ⟨journal, hrun⟩ := runFrom_registerMerger first rest position foreign b
  rw [hrun]
  have hfree {f : BitField} {selection : Selection} (hspan : IsSpan (first :: rest) f.lo f.hi)
      (hl : first.encoding.IsLiteral f.lo f.hi)
      (hselect : select position f.lo f.width (first :: rest) = .ok selection) :
      ∀ lo hi conflict, ¬ Prevents (first :: rest) position lo hi conflict := by
    refine not_prevents hspan ?_ hselect
    intro p hp
    rcases List.mem_cons.1 hp with rfl | hp
    · exact hl
    · exact (Encoding.isLiteral_congr (hwidth p hp) (hfields p hp) f.lo f.hi).2 hl
  rcases mergeRegisters_cases first rest position foreign b.tables with
    ⟨cause, hmerge, hwhy⟩ | ⟨hmerge, f, selection, hspan, hl, hselect, hcollides⟩ |
      ⟨result, tables, f, selection, hmerge, hopened, hover⟩
  · rw [hmerge]
    rcases hwhy with hnone | ⟨p, hp, hnone⟩ | ⟨lo, hi, conflict, rfl, h⟩
    · exact absurd hnone hrest
    · have := hnames p hp
      rw [hnone] at this
      cases this
    · exact .prevented h
  · rw [hmerge]
    exact .refused f (hfree hspan hl hselect) hspan hl hcollides
  · rw [hmerge, hopened.eq]
    let t : RegisterTable := (b.tables.intern selection.toTable).1
    have hregs : t.registers = selection.toTable := Tables.intern_registers ..
    have hapart : ¬ Collides first f foreign := by
      rintro ⟨word, hword, hagrees⟩
      have := hopened.refuses word hword
      rw [hopened.eq] at this
      exact Bool.false_ne_true (this.symm.trans hagrees)
    -- Interning keeps the registers, so the table is found again under its own ones.
    have hplaced : RegisterPlacing first rest position foreign b.tables
        (.ok (some (first.generalize position f hopened.literal
          ((first :: rest).flatMap Pattern.examples)))) (b.tables.intern t.registers).2 :=
      .placed f t (hfree hover.span hopened.literal hover.select) hover.span hopened.literal hapart
        hover.kind hover.unsigned (tabulates_of_select hover.span hover.select hregs) (by rw [hregs])
    rw [hregs, ← hover.tables] at hplaced
    exact hplaced

end

/-- Merging two or more members over a register fails exactly if something prevents a field over the
bits in which they differ, and it says what. Otherwise it gives up exactly if the pattern with that
field collides with a foreign word. Else the table of the field has each register at its selector.
The tables change only with the table of a pattern that is made. -/
theorem registerMerger_placing (first : Pattern) (rest : List Pattern) (position : Nat)
    (foreign : List Int) (b : Bench) (hrest : rest ≠ [])
    (hwidth : ∀ p ∈ rest, p.width = first.width) (hfields : ∀ p ∈ rest, p.fields = first.fields)
    (hregisters : ∀ p ∈ first :: rest, ∃ name, p.operands[position]? = some (.register name))
    (htables : b.tables.Built) :
    let members := first :: rest
    let run := runFrom b (registerMerger first rest position foreign)
    ((∃ fault, run.1 = .error fault) ↔
      ∃ lo hi conflict, Prevents members position lo hi conflict) ∧
    (∀ fault, run.1 = .error fault → run.2.tables = b.tables ∧
      ∃ (lo hi : Nat) (conflict : RegisterConflict), Prevents members position lo hi conflict ∧
        fault = ⟨.registerPlacement lo hi conflict, first.mnemonic, members.map Pattern.index⟩) ∧
    ((∀ lo hi conflict, ¬ Prevents members position lo hi conflict) →
      ∃ (f : BitField) (hl : first.encoding.IsLiteral f.lo f.hi), IsSpan members f.lo f.hi ∧
        (run.1 = .ok none ↔ Collides first f foreign) ∧
        (run.1 = .ok none → run.2.tables = b.tables) ∧
        (¬ Collides first f foreign → ∃ t,
          run.1 = .ok (some
            (first.generalize position f hl (members.flatMap Pattern.examples))) ∧
          f.kind = .register t.id ∧ f.signed = false ∧ Tabulates members position f t ∧
          run.2.tables = (b.tables.intern t.registers).2 ∧ run.2.tables.get? t.id = some t) ∧
        ((∀ word ∈ foreign, 0 ≤ word ∧ word < 2 ^ first.width) →
          (Collides first f foreign ↔
            ∃ word ∈ foreign, (first.encoding.opened f).accepts word = true))) := by
  intro members run
  have hnames : ∀ p ∈ members, (nameAt? position p).isSome = true := by
    intro p hp
    obtain ⟨name, hop⟩ := hregisters p hp
    rw [nameAt?, hop]
    rfl
  have hplacing : RegisterPlacing first rest position foreign b.tables run.1 run.2.tables :=
    placing_registerMerger hrest hwidth hfields hnames b
  -- From here on only the relation is read: the four clauses are a case split on how it ends.
  generalize run.1 = out, run.2.tables = after at hplacing ⊢
  cases hplacing with
  | @prevented lo hi conflict h =>
    refine ⟨iff_of_true ⟨_, rfl⟩ ⟨lo, hi, conflict, h⟩, ?_, ?_⟩
    · rintro fault ⟨⟩
      exact ⟨rfl, lo, hi, conflict, h, rfl⟩
    · intro hfree
      exact absurd h (hfree lo hi conflict)
  | refused f hfree hspan hl hcollides =>
    refine ⟨iff_of_false ?_ ?_, ?_, fun _ => ⟨f, hl, hspan, ?_, ?_, ?_, ?_⟩⟩
    · rintro ⟨fault, ⟨⟩⟩
    · rintro ⟨lo, hi, conflict, h⟩
      exact hfree lo hi conflict h
    · rintro fault ⟨⟩
    · exact iff_of_true rfl hcollides
    · exact fun _ => rfl
    · exact fun hapart => absurd hcollides hapart
    · exact collides_iff_accepts hl
  | placed f t hfree hspan hl hapart hkind hunsigned htable ht =>
    refine ⟨iff_of_false ?_ ?_, ?_, fun _ => ⟨f, hl, hspan, iff_of_false ?_ hapart, ?_, ?_, ?_⟩⟩
    · rintro ⟨fault, ⟨⟩⟩
    · rintro ⟨lo, hi, conflict, h⟩
      exact hfree lo hi conflict h
    · rintro fault ⟨⟩
    · rintro ⟨⟩
    · rintro ⟨⟩
    · intro _
      obtain ⟨-, hget⟩ := Tables.intern_grown htables.interned.toNumbered t.registers
      rw [ht] at hget
      exact ⟨t, rfl, hkind, hunsigned, htable, rfl, hget⟩
    · exact collides_iff_accepts hl

/-- A byte that clears a register. -/
def clearing (name : String) (byte : Nat) : Pattern :=
  .concrete "CLR" [.register name] (byteWord byte) byte

/-- Three groups, one for each way: merged, refused, and with a register in two places. -/
theorem registerMerger_placing_clearing :
    (∃ f t, Tabulates [clearing "r1" 0x11, clearing "r2" 0x12] 0 f t ∧
      (runFrom {} (registerMerger (clearing "r1" 0x11) [clearing "r2" 0x12] 0 [])).2.tables.get?
        t.id = some t) ∧
    (∃ f, IsSpan [clearing "r1" 0x11, clearing "r2" 0x12] f.lo f.hi ∧
      Collides (clearing "r1" 0x11) f [0x10]) ∧
    ∃ lo hi conflict, Prevents [clearing "r1" 0x11, clearing "r1" 0x12] 0 lo hi conflict := by
  have hnames (name : String) : ∀ p ∈ [clearing "r1" 0x11, clearing name 0x12], ∃ name,
      p.operands[0]? = some (.register name) := by
    simp [clearing, Pattern.concrete]
  have hmade := registerMerger_placing (clearing "r1" 0x11) [clearing "r2" 0x12] 0 [] {}
    (by decide) (by decide) (by decide) (hnames "r2") .empty
  have hrefused := registerMerger_placing (clearing "r1" 0x11) [clearing "r2" 0x12] 0 [0x10] {}
    (by decide) (by decide) (by decide) (hnames "r2") .empty
  have hfails := registerMerger_placing (clearing "r1" 0x11) [clearing "r1" 0x12] 0 [] {}
    (by decide) (by decide) (by decide) (hnames "r1") .empty
  have hnone : (runFrom {} (registerMerger (clearing "r1" 0x11) [clearing "r2" 0x12] 0 [0x10])).1 =
      .ok none := by decide +kernel
  -- What prevents a merge does not look at the foreign words, so the refused run rules it out.
  have hfree : ∀ lo hi conflict,
      ¬ Prevents [clearing "r1" 0x11, clearing "r2" 0x12] 0 lo hi conflict := by
    intro lo hi conflict h
    obtain ⟨fault, hfault⟩ := hrefused.1.2 ⟨lo, hi, conflict, h⟩
    rw [hnone] at hfault
    cases hfault
  refine ⟨?_, ?_, ?_⟩
  · obtain ⟨f, hl, -, -, -, hplaced, -⟩ := hmade.2.2 hfree
    obtain ⟨t, -, -, -, htable, -, hget⟩ := hplaced (by rintro ⟨word, ⟨⟩, -⟩)
    exact ⟨f, t, htable, hget⟩
  · obtain ⟨f, -, hspan, hblocked, -⟩ := hrefused.2.2 hfree
    exact ⟨f, hspan, hblocked.1 hnone⟩
  · exact hfails.1.1 ⟨_, rfl⟩

/-- A foreign word that is wider than the instructions counts, although the pattern does not accept
it. -/
theorem wide_word_refused :
    (runFrom {} (registerMerger (clearing "r0" 0x10) [clearing "r1" 0x11] 0 [0x110])).1 =
      .ok none ∧
    (∀ lo hi conflict,
      ¬ Prevents [clearing "r0" 0x10, clearing "r1" 0x11] 0 lo hi conflict) ∧
    ∃ f, IsSpan [clearing "r0" 0x10, clearing "r1" 0x11] f.lo f.hi ∧
      ∀ word ∈ [0x110], ((clearing "r0" 0x10).encoding.opened f).accepts word = false := by
  have hnone : (runFrom {} (registerMerger (clearing "r0" 0x10) [clearing "r1" 0x11] 0
      [0x110])).1 = .ok none := by decide +kernel
  obtain ⟨after, hplacing⟩ : ∃ after, RegisterPlacing (clearing "r0" 0x10) [clearing "r1" 0x11] 0
      [0x110] {} (.ok none) after :=
    ⟨_, hnone ▸ placing_registerMerger (by decide) (by decide) (by decide) (by decide) {}⟩
  cases hplacing with
  | refused f hfree hspan hl hcollides =>
    refine ⟨hnone, hfree, f, hspan, ?_⟩
    intro word hword
    rw [List.mem_singleton.1 hword, ← Bool.not_eq_true, Encoding.accepts_iff,
      Encoding.width_opened (clearing "r0" 0x10).placed hl]
    rintro ⟨-, hlt, -⟩
    exact absurd hlt (by decide)

end Combine

end SleighForge
