import SleighForge.Proofs.RegisterTable.Twin

/-!
# Where numbering fails

Where all fields have their tables, numbering fails on the first field that selects from fewer than
two registers, and on no other (`ofPatterns_eq_error`). So it fails alike on patterns that are alike
(`ofPatterns_agree`).
-/

namespace SleighForge

namespace BitField

/-- The field selects from fewer than two registers. -/
def isShort (ts : Tables) (f : BitField) : Bool :=
  (f.registers? ts).any fun registers => (registers.filterMap fun r => r).length < 2

/-- The table of the field, if it needs one, exists. -/
def Present (ts : Tables) (f : BitField) : Prop :=
  ∀ id, f.table? = some id → ∃ t, ts.get? id = some t

variable {ts us : Tables} {f g : BitField}

theorem isShort_eq {id : Int} {t : RegisterTable} (hf : f.table? = some id)
    (ht : ts.get? id = some t) : f.isShort ts = decide (t.members.length < 2) := by
  rw [isShort, registers?_eq hf ht]
  rfl

theorem exists_table_of_isShort (h : f.isShort ts = true) :
    ∃ id t, f.table? = some id ∧ ts.get? id = some t ∧ t.members.length < 2 := by
  unfold isShort registers? at h
  cases hid : f.table? with
  | none =>
    rw [hid] at h
    cases h
  | some id =>
    rw [hid, Option.bind_some] at h
    cases ht : ts.get? id with
    | none =>
      rw [ht] at h
      cases h
    | some t =>
      rw [ht] at h
      exact ⟨id, t, rfl, ht, of_decide_eq_true h⟩

/-- A field that is like another has its table. -/
theorem Alike.present (h : f.Alike ts us g) : f.Present ts := by
  intro id hid
  cases h with
  | immediate hnone =>
    rw [hnone] at hid
    cases hid
  | register hf ht hu hregs =>
    rw [hid, Option.some.injEq] at hf
    exact ⟨_, hf ▸ ht⟩

end BitField

namespace Numbering

/-- The fault at a pattern with a field that selects from fewer than two registers. -/
def tooSmall (p : Pattern) : StageFault :=
  .combine ⟨.groupTooSmall, p.mnemonic, [p.index]⟩

/-- The fields of some patterns, each with its pattern. -/
def fieldsOf (patterns : List Pattern) : List (Pattern × BitField) :=
  patterns.flatMap fun p => p.fields.map (p, ·)

theorem mem_fieldsOf {patterns : List Pattern} {x : Pattern × BitField} :
    x ∈ fieldsOf patterns ↔ x.1 ∈ patterns ∧ x.2 ∈ x.1.fields := by
  rw [fieldsOf, List.mem_flatMap]
  constructor
  · rintro ⟨p, hp, hx⟩
    rcases List.mem_map.1 hx with ⟨f, hf, rfl⟩
    exact ⟨hp, hf⟩
  · rintro ⟨hp, hf⟩
    exact ⟨x.1, hp, List.mem_map.2 ⟨x.2, hf, rfl⟩⟩

variable {working : Tables} {n : Numbering}

/-- A field that selects from fewer than two registers cannot have been numbered before, so
numbering fails on it. -/
theorem addField_short (hn : Sound working n) (htwo : ∀ t ∈ n.tables, 2 ≤ t.members.length)
    (p : Pattern) {f : BitField} (hshort : f.isShort working = true) :
    addField working p n f = .error (tooSmall p) := by
  rcases BitField.exists_table_of_isShort hshort with ⟨old, u, hold, hu, hfew⟩
  have hnew : n.ids.lookup old = none := by
    cases hlook : n.ids.lookup old with
    | none => rfl
    | some new =>
      rcases hn.same old new hlook with ⟨u', t, hu', ht, -, hregs⟩
      rw [hu, Option.some.injEq] at hu'
      have hmany := htwo t ht
      rw [RegisterTable.members_congr hregs, ← hu'] at hmany
      exact absurd hmany (Nat.not_le_of_lt hfew)
  simp only [addField, hold, hnew, hu]
  rw [if_neg (by simp), if_pos hfew]
  rfl

/-- A field whose table is there and not short is added. -/
theorem addField_long (p : Pattern) {f : BitField} (hpresent : f.Present working)
    (hlong : f.isShort working = false) : ∃ n', addField working p n f = .ok n' := by
  refine addField_ok ?_
  intro old hold
  rcases hpresent old hold with ⟨u, hu⟩
  rw [BitField.isShort_eq hold hu] at hlong
  exact ⟨u, hu, Nat.le_of_not_lt (of_decide_eq_false hlong)⟩

/-- Numbering fields one after the other fails on the first that selects from fewer than two
registers. -/
theorem addFields_short {xs : List (Pattern × BitField)} (hn : Sound working n)
    (htwo : ∀ t ∈ n.tables, 2 ≤ t.members.length) (hpresent : ∀ x ∈ xs, x.2.Present working)
    {x : Pattern × BitField} (hfind : xs.find? (·.2.isShort working) = some x) :
    xs.foldlM (fun n x => addField working x.1 n x.2) n = .error (tooSmall x.1) := by
  induction xs generalizing n with
  | nil => cases hfind
  | cons y xs ih =>
    rw [List.forall_mem_cons] at hpresent
    rw [List.foldlM_cons]
    cases hshort : y.2.isShort working with
    | true =>
      simp only [List.find?_cons, hshort, Option.some.injEq] at hfind
      rw [addField_short hn htwo y.1 hshort, ← hfind]
      rfl
    | false =>
      simp only [List.find?_cons, hshort] at hfind
      rcases addField_long (n := n) y.1 hpresent.1 hshort with ⟨n', hone⟩
      rw [hone]
      exact ih (addField_spec hn hone).1.sound ((adds_of_addField hone).two_le htwo)
        hpresent.2 hfind

section

variable {patterns patterns' : List Pattern} {ts us : Tables}

/-- Where all tables exist, numbering fails on the first field that selects from fewer than two
registers. -/
theorem ofPatterns_eq_error
    (hpresent : ∀ x ∈ fieldsOf patterns, x.2.Present ts) {x : Pattern × BitField}
    (hfind : (fieldsOf patterns).find? (·.2.isShort ts) = some x) :
    ofPatterns ts patterns = .error (tooSmall x.1) := by
  rw [ofPatterns_eq]
  exact addFields_short (sound_empty ts) (fun _ ht => absurd ht List.not_mem_nil) hpresent hfind

/-- Where all tables exist and no field selects from fewer than two registers, numbering
succeeds. -/
theorem ofPatterns_of_find?_eq_none
    (hpresent : ∀ x ∈ fieldsOf patterns, x.2.Present ts)
    (hfind : (fieldsOf patterns).find? (·.2.isShort ts) = none) :
    ∃ n, ofPatterns ts patterns = .ok n := by
  refine ofPatterns_ok ?_
  intro p hp f hf old hold
  have hmem : (p, f) ∈ fieldsOf patterns := mem_fieldsOf.2 ⟨hp, hf⟩
  rcases hpresent (p, f) hmem old hold with ⟨u, hu⟩
  have hlong := List.find?_eq_none.1 hfind (p, f) hmem
  rw [BitField.isShort_eq hold hu] at hlong
  exact ⟨u, hu, Nat.le_of_not_lt (by simpa using hlong)⟩

/-- The fields of alike patterns, side by side. -/
theorem forall₂_fieldsOf (h : List.Forall₂ (Pattern.Alike ts us) patterns patterns') :
    List.Forall₂ (fun x y => tooSmall y.1 = tooSmall x.1 ∧ x.2.Alike ts us y.2)
      (fieldsOf patterns) (fieldsOf patterns') := by
  refine List.rel_flatMap h fun p q hpq => ?_
  have hfault : tooSmall q = tooSmall p := by
    rw [tooSmall, tooSmall, hpq.mnemonic, hpq.index]
  refine List.rel_map (fun f g hfg => ⟨hfault, hfg⟩) (List.rel_filterMap ?_ hpq.encoding)
  intro s s' hs
  cases hs with
  | bits r => exact .none
  | field h => exact .some h

/-- Numbering fails alike on alike patterns, or brings them to the same form. -/
theorem ofPatterns_agree (hp : ∀ p ∈ patterns, p.RegistersEncoded)
    (hq : ∀ q ∈ patterns', q.RegistersEncoded)
    (halike : List.Forall₂ (Pattern.Alike ts us) patterns patterns') :
    (∃ fault, ofPatterns ts patterns = .error fault ∧ ofPatterns us patterns' = .error fault) ∨
      ∃ n n', ofPatterns ts patterns = .ok n ∧ ofPatterns us patterns' = .ok n' ∧
        n'.toTables = n.toTables ∧
        patterns'.map (Pattern.mapTable n'.apply) = patterns.map (Pattern.mapTable n.apply) := by
  have hfields := forall₂_fieldsOf halike
  have hpresent : ∀ x ∈ fieldsOf patterns, x.2.Present ts := by
    intro x hx
    rcases exists_of_mem_right hfields.flip hx with ⟨y, -, -, hxy⟩
    exact hxy.present
  have hpresent' : ∀ y ∈ fieldsOf patterns', y.2.Present us := by
    intro y hy
    rcases exists_of_mem_right hfields hy with ⟨x, -, -, hxy⟩
    exact hxy.symm.present
  -- All fields are present, so numbering can only fail at the first table with too few registers.
  have hfind : Option.Rel (fun x y => tooSmall y.1 = tooSmall x.1 ∧ x.2.Alike ts us y.2)
      ((fieldsOf patterns).find? (·.2.isShort ts))
      ((fieldsOf patterns').find? (·.2.isShort us)) := by
    refine find?_rel hfields fun x y hxy => ?_
    rw [BitField.isShort, BitField.isShort, hxy.2.registers?_eq]
  rcases optionRel_cases hfind with ⟨hnone, -⟩ | ⟨x, y, hx, hy, hfault, -⟩
  · rcases ofPatterns_of_find?_eq_none hpresent hnone with ⟨n, hn⟩
    rcases ofPatterns_alike hp hq halike hn with ⟨n', hn', htables, hpatterns⟩
    exact .inr ⟨n, n', hn, hn', htables, hpatterns⟩
  · refine .inl ⟨tooSmall x.1, ofPatterns_eq_error hpresent hx, ?_⟩
    rw [← hfault]
    exact ofPatterns_eq_error hpresent' hy

end

end Numbering

end SleighForge
