import SleighForge.Layout
import SleighForge.Proofs.Combine.Merged

/-!
# Layouts that exist

The fields of an encoding lie apart, as each sits at its own slice (`fields_apart`). So the checks
of the layout pass if the operands name fields of the encoding, and a pattern has a layout if in
addition every field has the table it needs (`ofPattern_ok`).
-/

namespace SleighForge

namespace Layout

/-- Two fields of an encoding share no bits. -/
theorem fields_apart {p : Pattern} {f g : BitField} (hf : f ∈ p.fields) (hg : g ∈ p.fields)
    (hne : f ≠ g) : f.hi ≤ g.lo ∨ g.hi ≤ f.lo := by
  have hsorted := Encoding.pairwise_fields p.placed
  change p.fields.Pairwise _ at hsorted
  -- On the list of fields: the rest of the fields is not that of a pattern.
  generalize p.fields = fs at hf hg hsorted
  induction fs with
  | nil => cases hf
  | cons h fs ih =>
    rcases List.pairwise_cons.1 hsorted with ⟨hhead, htail⟩
    rcases List.mem_cons.1 hf with hfh | hft <;> rcases List.mem_cons.1 hg with hgh | hgt
    · exact absurd (hfh.trans hgh.symm) hne
    · exact .inr (hfh ▸ hhead g hgt)
    · exact .inl (hgh ▸ hhead f hft)
    · exact ih hft hgt htail

/-! ## The order of slices -/

theorem sliceLe_iff {a b : BitField} :
    sliceLe a b = true ↔ a.lo < b.lo ∨ a.lo = b.lo ∧ a.hi ≤ b.hi := by
  simp [sliceLe]

theorem pairwise_sliceLe (fs : List BitField) :
    (fs.mergeSort sliceLe).Pairwise fun a b => sliceLe a b = true := by
  refine List.pairwise_mergeSort ?_ ?_ fs
  · intro a b c hab hbc
    rw [sliceLe_iff] at *
    omega
  · intro a b
    rw [Bool.or_eq_true, sliceLe_iff, sliceLe_iff]
    omega

/-- Fields that follow each other do not overlap. -/
theorem overlap?_eq_none {fs : List BitField} (h : fs.Pairwise fun a b => a.hi ≤ b.lo) :
    overlap? fs = none := by
  fun_induction overlap? fs with
  | case1 a b rest hlt =>
    have := (List.pairwise_cons.1 h).1 b (List.mem_cons_self ..)
    omega
  | case2 a b rest _ ih => exact ih (List.pairwise_cons.1 h).2
  | case3 => rfl

/-! ## The checks -/

theorem mem_namedFields {p : Pattern} {f : BitField} :
    f ∈ namedFields p ↔ .field f ∈ p.operands := by
  rw [namedFields, List.mem_filterMap]
  constructor
  · rintro ⟨op, hop, hf⟩
    cases op with
    | field g =>
      cases hf
      exact hop
    | _ => cases hf
  · exact fun hf => ⟨_, hf, rfl⟩

/-- The fields of a pattern pass their check if those among the operands are encoded. -/
theorem checkFields_ok {p : Pattern} (hnamed : ∀ f, .field f ∈ p.operands → f ∈ p.fields) :
    checkFields p = .ok () := by
  have hmem : ∀ f ∈ (distinct (p.fields ++ namedFields p)).mergeSort sliceLe, f ∈ p.fields := by
    intro f hf
    rw [List.mem_mergeSort, mem_distinct, List.mem_append, mem_namedFields] at hf
    exact hf.elim id (hnamed f)
  have hnodup : ((distinct (p.fields ++ namedFields p)).mergeSort sliceLe).Nodup :=
    (List.mergeSort_perm _ _).symm.nodup (nodup_distinct _)
  -- Sorted fields that share no bits lie one above the other.
  have hsorted := (pairwise_sliceLe (distinct (p.fields ++ namedFields p))).and hnodup
  have hoverlap : overlap? ((distinct (p.fields ++ namedFields p)).mergeSort sliceLe) = none := by
    refine overlap?_eq_none (hsorted.imp_of_mem ?_)
    rintro a b ha hb ⟨hle, hne⟩
    have hapart := fields_apart (hmem a ha) (hmem b hb) hne
    have := a.lo_lt_hi
    have := b.lo_lt_hi
    rw [sliceLe_iff] at hle
    omega
  have hencoded : (namedFields p).filter (· ∉ p.fields) = [] := by
    rw [List.filter_eq_nil_iff]
    intro f hf
    simpa using hnamed f (mem_namedFields.1 hf)
  unfold checkFields
  dsimp only
  rw [hoverlap, hencoded]
  rfl

/-! ## The regions -/

/-- A field has its region if it has its table. -/
theorem operandRegion_ok {tables : Tables} {f : BitField} (h : f.HasTable tables)
    (stem : String) : ∃ r, operandRegion tables stem f = .ok r := by
  unfold operandRegion
  split
  · exact ⟨_, rfl⟩
  · next table hkind =>
    rcases h table hkind with ⟨t, ht, hwidth, -⟩
    rw [ht]
    dsimp only
    rw [if_pos hwidth]
    exact ⟨_, rfl⟩

/-- An encoding has its regions if all its fields have their tables. -/
theorem regionsBelow_ok {tables : Tables} {e : Encoding}
    (h : ∀ f ∈ e.fields, f.HasTable tables) (stem : String) (value width : Nat) :
    ∃ rs, regionsBelow tables stem value width e = .ok rs := by
  induction e generalizing value width with
  | nil => exact ⟨_, rfl⟩
  | cons s rest ih =>
    cases s with
    | bits r => exact ih h _ _
    | field f =>
      rw [Encoding.fields_cons_field] at h
      rcases operandRegion_ok (h f (List.mem_cons_self ..)) stem with ⟨region, hregion⟩
      rcases ih (fun g hg => h g (List.mem_cons_of_mem _ hg)) 0 0 with ⟨below, hbelow⟩
      exact ⟨_, by rw [regionsBelow, hregion, hbelow]; rfl⟩

/-- A pattern has a layout if its operands name its fields and these have their tables. -/
theorem ofPattern_ok {tables : Tables} {p : Pattern}
    (hnamed : ∀ f, .field f ∈ p.operands → f ∈ p.fields)
    (htable : ∀ f ∈ p.fields, f.HasTable tables) (stem : String) :
    ∃ l, ofPattern tables stem p = .ok l := by
  rcases regionsBelow_ok htable stem 0 0 with ⟨rs, hrs⟩
  unfold ofPattern
  rw [checkFields_ok hnamed, hrs]
  exact ⟨_, rfl⟩

end Layout

end SleighForge
