import SleighForge.Proofs.Combine.Merged

/-!
# Merging over a register, as a whole

What the merger over registers can do is said once (`mergeRegisters_cases`): where it makes a
pattern, the field spans the bits that vary and its table is the interned selection, and where it
fails, something prevents that field (`Prevents`). The highest bit of the field varies, so the table
asks for exactly the width of the field (`selectorWidth_of_select`).
-/

namespace SleighForge

namespace Combine

/-- A field over the registers that patterns have at a position, with the tables before and after
its own table is interned. -/
structure OverRegister (members : List Pattern) (position : Nat) (tables tables' : Tables)
    (f : BitField) (selection : Selection) : Prop where
  span : IsSpan members f.lo f.hi
  select : select position f.lo f.width members = .ok selection
  kind : f.kind = .register (tables.intern selection.toTable).1.id
  unsigned : f.signed = false
  tables : tables' = (tables.intern selection.toTable).2

/-- Why a group has no register field, and the slice at which that is found: the members have the
same bits, some bit of their span is no literal bit, or two of them are at odds there. -/
inductive Prevents (members : List Pattern) (position : Nat) : Nat → Nat → RegisterConflict → Prop
  | sameEncoding (h : SameBits members) : Prevents members position 0 0 .sameEncoding
  | overlapsField {lo hi i : Nat} {p : Pattern} (hspan : IsSpan members lo hi) (hp : p ∈ members)
    (hlo : lo ≤ i) (hhi : i < hi) (hbit : p.encoding.literalMask.testBit i = false) :
    Prevents members position lo hi .overlapsField
  | conflicting {lo hi : Nat} {conflict : RegisterConflict} (hspan : IsSpan members lo hi)
    (h : Conflicting members position lo (hi - lo) conflict) :
    Prevents members position lo hi conflict

/-- Nothing prevents a field that spans the bits in which the members differ, where these are
literal bits and select the registers. -/
theorem not_prevents {members : List Pattern} {position : Nat} {f : BitField}
    {selection : Selection} (hspan : IsSpan members f.lo f.hi)
    (hliteral : ∀ p ∈ members, p.encoding.IsLiteral f.lo f.hi)
    (hselect : select position f.lo f.width members = .ok selection) (lo hi : Nat)
    (conflict : RegisterConflict) : ¬ Prevents members position lo hi conflict := by
  intro h
  cases h with
  | sameEncoding hsame => exact hspan.not_sameBits hsame
  | @overlapsField lo hi i p hspan' hp hlo hhi hbit =>
    obtain ⟨rfl, rfl⟩ := hspan.unique hspan'
    have hset := (Encoding.isLiteral_iff_testBit p.placed f.lo_lt_hi).1 (hliteral p hp) i hlo hhi
    rw [hbit] at hset
    cases hset
  | conflicting hspan' hconflict =>
    obtain ⟨rfl, rfl⟩ := hspan.unique hspan'
    exact not_conflicting_of_select hselect conflict hconflict

/-! ## The width of the table -/

/-- Where two members differ, one has a one. -/
theorem exists_testBit_of_differsAt {p q : Pattern} {members : List Pattern} {i : Nat}
    (hp : p ∈ members) (hq : q ∈ members) (h : DiffersAt p q i) :
    ∃ m ∈ members, m.encoding.literalValue.testBit i = true := by
  unfold DiffersAt at h
  cases hbit : p.encoding.literalValue.testBit i with
  | true => exact ⟨p, hp, hbit⟩
  | false =>
    rw [hbit] at h
    exact ⟨q, hq, by simpa using h⟩

/-- If the highest bit of a slice is one in some pattern, the table of the selection asks for the
width of the slice. -/
theorem selectorWidth_of_select {position lo width : Nat} {members : List Pattern}
    {selection : Selection} (hselect : select position lo width members = .ok selection)
    (hpos : 0 < width)
    (htop : ∃ p ∈ members, p.encoding.literalValue.testBit (lo + width - 1) = true)
    {t : RegisterTable} (ht : t.registers = selection.toTable) : t.selectorWidth = width := by
  rcases select_spec hselect with ⟨-, hentry, hfrom⟩
  -- One selector has the highest bit, so the size is above `2 ^ (width - 1)` and at most `2 ^ width`.
  have hupper : selection.size ≤ 2 ^ width := by
    apply Selection.size_le_iff.2
    intro entry hmem
    rcases hfrom entry hmem with ⟨p, -, -, hbits⟩
    rw [← hbits]
    exact bitSlice_lt ..
  have hlower : 2 ^ (width - 1) ≤ selection.size - 1 := by
    rcases htop with ⟨p, hp, hbit⟩
    rcases hentry p hp with ⟨entry, hmem, -, hbits⟩
    have hlt := Selection.size_le_iff.1 (Nat.le_refl _) entry hmem
    have hhigh : entry.1.testBit (width - 1) = true := by
      have hsum : lo + (width - 1) = lo + width - 1 := by omega
      have hin : width - 1 < width := by omega
      rw [← hbits, testBit_bitSlice, hsum, hbit]
      simpa using hin
    have hge := Nat.ge_two_pow_of_testBit hhigh
    omega
  have hlog : (selection.size - 1).log2 = width - 1 := by
    have hpow : 0 < 2 ^ (width - 1) := Nat.two_pow_pos _
    have hsucc : width - 1 + 1 = width := by omega
    refine (Nat.log2_eq_iff (by omega)).2 ⟨hlower, ?_⟩
    rw [hsucc]
    omega
  rw [RegisterTable.selectorWidth, ht, Selection.length_toTable, hlog]
  omega

/-- A selection with two selectors gives a table with two registers. -/
theorem two_le_length_members {s : Selection} (hs : s.OneToOne) {e e' : Nat × String}
    (he : e ∈ s) (he' : e' ∈ s) (hne : e ≠ e') {t : RegisterTable}
    (ht : t.registers = s.toTable) : 2 ≤ t.members.length := by
  have hmem : ∀ entry ∈ s, entry.2 ∈ t.members := fun entry hentry => by
    rw [RegisterTable.mem_members, ht]
    exact List.mem_of_getElem? ((Selection.getElem?_toTable hs).2 hentry)
  have hname : e.2 ≠ e'.2 := fun heq => hne (List.inj_on_of_nodup_map hs.names he he' heq)
  have h := hmem e he
  have h' := hmem e' he'
  match hlist : t.members with
  | [] => simp [hlist] at h
  | [name] =>
    rw [hlist, List.mem_singleton] at h h'
    exact absurd (h.trans h'.symm) hname
  | _ :: _ :: _ => simp

/-! ## The merger -/

/-- What the merger over registers can do: fail, refuse, or make a pattern. -/
theorem mergeRegisters_cases (first : Pattern) (rest : List Pattern) (position : Nat)
    (foreign : List Int) (tables : Tables) :
    (∃ cause, mergeRegisters first rest position foreign tables =
        .error ⟨cause, first.mnemonic, (first :: rest).map Pattern.index⟩ ∧
      (rest = [] ∨ (∃ p ∈ first :: rest, nameAt? position p = none) ∨
        ∃ (lo hi : Nat) (conflict : RegisterConflict),
          cause = .registerPlacement lo hi conflict ∧
          Prevents (first :: rest) position lo hi conflict)) ∨
    (mergeRegisters first rest position foreign tables = .ok (none, tables) ∧
      ∃ f selection, IsSpan (first :: rest) f.lo f.hi ∧ first.encoding.IsLiteral f.lo f.hi ∧
        select position f.lo f.width (first :: rest) = .ok selection ∧ Collides first f foreign) ∨
    ∃ result tables' f selection,
      mergeRegisters first rest position foreign tables = .ok (some result, tables') ∧
      OpenedBy first rest position foreign f result ∧
      OverRegister (first :: rest) position tables tables' f selection := by
  unfold mergeRegisters
  dsimp only
  split
  · next hempty => exact .inl ⟨_, rfl, .inl (List.isEmpty_iff.1 hempty)⟩
  · split
    · next hnone =>
      exact .inl ⟨_, rfl, .inr (.inr ⟨0, 0, _, rfl, .sameEncoding (sameBits_cons_iff.2 hnone)⟩)⟩
    · next lo hi hvarying =>
      have hspan : IsSpan (first :: rest) lo hi := isSpan_cons_iff.2 hvarying
      rcases varyingSpan?_eq_some hvarying with ⟨hlt, hcover, p, hp, hdiff⟩
      rw [dif_pos hlt]
      split
      · next hl =>
        split
        · next cause hselect =>
          refine .inl ⟨_, rfl, .inr ?_⟩
          by_cases hnames : ∀ p ∈ first :: rest, (nameAt? position p).isSome
          · rcases select_conflict hnames hselect with ⟨conflict, hcause, hconflict⟩
            have hsum : (lo + (hi - lo : Nat) : Int) = hi := by omega
            rw [hsum] at hcause
            exact .inr ⟨lo, hi, conflict, hcause, .conflicting hspan hconflict⟩
          · simp only [Classical.not_forall] at hnames
            rcases hnames with ⟨p, hp, hnone⟩
            exact .inl ⟨p, hp, Option.not_isSome_iff_eq_none.1 hnone⟩
        · next selection hselect =>
          -- The foreign words are tested before the table has its id.
          let field (id : Int) : BitField := ⟨lo, hi, .register id, false, hlt⟩
          split
          · next hforeign =>
            exact .inr (.inl ⟨rfl, field 0, selection, hspan, hl, hselect,
              (any_agrees_generalize hl _ foreign).1 hforeign⟩)
          · next hfree =>
            refine .inr (.inr ⟨_, _, _, selection, rfl,
              ⟨hl, rfl, hcover, ⟨p, hp, _, hdiff⟩, fun word hword => ?_⟩,
              hspan, hselect, rfl, rfl, rfl⟩)
            simp only [Bool.not_eq_true, List.any_eq_false] at hfree
            have hsame (id : Int) : (first.encoding.opened (field id)).agrees word =
                (first.encoding.opened (field 0)).agrees word :=
              Encoding.agrees_opened_congr first.placed (field 0) (field id) hl rfl rfl word
            exact (hsame _).trans (hfree word hword)
      · next hl =>
        rw [Encoding.isLiteral_iff_testBit first.placed hlt] at hl
        simp only [Classical.not_forall, Bool.not_eq_true] at hl
        rcases hl with ⟨i, hlo, hhi, hbit⟩
        exact .inl ⟨_, rfl, .inr (.inr ⟨lo, hi, _, rfl,
          .overlapsField hspan (List.mem_cons_self ..) hlo hhi hbit⟩)⟩

/-- A group that is refused is refused whatever the tables, as its table is interned last. -/
theorem mergeRegisters_refused {first : Pattern} {rest : List Pattern} {position : Nat}
    {foreign : List Int} {ts ts' : Tables}
    (h : mergeRegisters first rest position foreign ts = .ok (none, ts')) (us : Tables) :
    mergeRegisters first rest position foreign us = .ok (none, us) := by
  unfold mergeRegisters at h ⊢
  dsimp only at h ⊢
  split at h
  · cases h
  · next hrest =>
    rw [if_neg hrest]
    split at h
    · cases h
    · next lo hi hspan =>
      split at h
      · next hlt =>
        split at h
        · next hliteral =>
          split at h
          · cases h
          · split at h
            · -- The one branch that gives no pattern; the tables have not been looked at up to
              -- here.
              next hforeign => rw [dif_pos hlt, dif_pos hliteral, if_pos hforeign]
            · cases h
        · cases h
      · cases h

/-! ## The field -/

theorem nameAt?_eq_some_iff {position : Nat} {p : Pattern}
    (h : ∃ op, p.operands[position]? = some op ∧ OperandKind.register.holds op = true)
    {name : String} :
    nameAt? position p = some name ↔ p.operands[position]? = some (.register name) := by
  rcases h with ⟨op, hop, hkind⟩
  rw [nameAt?, hop]
  cases op with
  | register name' => simp [Operand.name?]
  | _ => cases hkind

/-- A field over the registers of a group shows the register of each member. The tables grow by
registers of the group only. -/
theorem OverRegister.merged {first result : Pattern} {rest : List Pattern} {position : Nat}
    {foreign : List Int} {f : BitField} {ts ts' : Tables} {selection : Selection}
    (h : OverRegister (first :: rest) position ts ts' f selection)
    (ho : OpenedBy first rest position foreign f result)
    (hg : IsGroup .register position (first :: rest)) (hn : ts.Numbered) :
    Merged ts' first rest position foreign f result ∧
      Tables.Grown (fun name => ∃ p ∈ first :: rest, .register name ∈ p.operands) ts ts' := by
  rcases select_spec h.select with ⟨hone, hentry, hfrom⟩
  rcases Tables.intern_grown hn selection.toTable with ⟨hgrown, hget⟩
  have hregs := Tables.intern_registers ts selection.toTable
  rw [← h.tables] at hgrown hget
  have hpos := f.width_pos
  have hsum := f.lo_add_width
  refine ⟨⟨ho, ?_, ?_, ?_⟩, hgrown.mono ?_⟩
  · intro p hp
    rcases hentry p hp with ⟨entry, hmem, hname, hbits⟩
    have hop := (nameAt?_eq_some_iff (hg.holds p hp)).1 hname
    refine ⟨.register entry.2, hop, _, _, h.kind, hget, ?_⟩
    rw [hregs, hbits]
    exact (Selection.getElem?_toTable hone).2 hmem
  · intro id hkind
    rw [h.kind, FieldKind.register.injEq] at hkind
    rcases h.span.high with ⟨p, hp, q, hq, hdiff⟩
    refine ⟨_, hkind ▸ hget, ?_, ?_⟩
    · refine selectorWidth_of_select h.select f.width_pos ?_ hregs
      rw [hsum]
      exact exists_testBit_of_differsAt hp hq hdiff
    · rcases hentry p hp with ⟨e, he, -, hbits⟩
      rcases hentry q hq with ⟨e', he', -, hbits'⟩
      refine two_le_length_members hone he he' ?_ hregs
      intro heq
      -- Equal entries would have equal selectors, and these differ in the highest bit.
      refine bitSlice_ne_of_differsAt hdiff f.lo f.width ?_ ?_ ?_
      · omega
      · omega
      · rw [hbits, hbits', heq]
  · intro id hkind
    rw [h.kind, FieldKind.register.injEq] at hkind
    refine ⟨_, hkind ▸ hget, ?_⟩
    intro i name hi
    rw [hregs] at hi
    rcases hfrom _ ((Selection.getElem?_toTable hone).1 hi) with ⟨p, hp, -, hbits⟩
    exact ⟨p, hp, hbits⟩
  · intro name hname
    rcases List.mem_iff_getElem?.1 hname with ⟨i, hi⟩
    rcases hfrom _ ((Selection.getElem?_toTable hone).1 hi) with ⟨p, hp, hat, -⟩
    exact ⟨p, hp, List.mem_of_getElem? ((nameAt?_eq_some_iff (hg.holds p hp)).1 hat)⟩

end Combine

end SleighForge
