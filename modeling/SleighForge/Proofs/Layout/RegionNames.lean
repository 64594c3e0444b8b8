import SleighForge.Model
import SleighForge.Proofs.Layout.Partition

/-!
# Names of regions

The name of a region is made of a stem and of all that tells its field (`Region.Named`). The stems
of two widths differ where there are two, so regions with one name have one field, whichever
patterns they are regions of (`Region.Named.field_eq`).
-/

namespace SleighForge

/-! ## Stems -/

theorem Token.toList_nameOf (width : Int) :
    (nameOf width).toList = ['i', 'n', 's', 't', 'r'] ++ (toString width).toList := by
  simp [nameOf, String.toList_append, toString]

namespace Model

/-- The part of a name that comes from its stem. -/
def stemParts (widths : List Nat) (width : Nat) : List String :=
  if widths.length > 1 then [Token.nameOf width] else []

/-- A stem in front of parts is made of parts itself. -/
theorem stem_append (widths : List Nat) (width : Nat) {parts : List String} (h : parts ≠ []) :
    stem widths width ++ "_".intercalate parts =
      "_".intercalate (stemParts widths width ++ parts) := by
  unfold stem stemParts
  by_cases hmany : widths.length > 1
  · rw [if_pos hmany, if_pos hmany, List.singleton_append, String.intercalate_cons_of_ne_nil h]
  · rw [if_neg hmany, if_neg hmany, List.nil_append, String.empty_append]

theorem isPart_of_mem_stemParts {widths : List Nat} {width : Nat} {s : String}
    (hs : s ∈ stemParts widths width) : Text.IsPart s := by
  unfold stemParts at hs
  by_cases hmany : widths.length > 1
  · rw [if_pos hmany, List.mem_singleton] at hs
    intro c hc
    rw [hs, Token.toList_nameOf, List.mem_append] at hc
    rcases hc with hc | hc
    · have hletters : ∀ c ∈ ['i', 'n', 's', 't', 'r'], c.isAlphanum = true := by simp
      exact .inl (hletters c hc)
    · exact Text.isPart_toString_int _ c hc
  · rw [if_neg hmany] at hs
    cases hs

/-- Where there are several widths, the stem tells the width. -/
theorem eq_of_stemParts_eq {widths : List Nat} {width width' : Nat}
    (h : stemParts widths width = stemParts widths width') (hmany : widths.length > 1) :
    width = width' := by
  unfold stemParts at h
  rw [if_pos hmany, if_pos hmany, List.cons.injEq] at h
  have hlist := congrArg String.toList h.1
  rw [Token.toList_nameOf, Token.toList_nameOf] at hlist
  have hint := Text.toString_int_injective (String.toList_injective (List.append_cancel_left hlist))
  exact Int.ofNat_inj.1 hint

end Model

/-! ## Regions -/

namespace Region

/-- The name is the stem, followed by the parts that tell the field. -/
def Named (stem : String) (r : Region) : Prop :=
  r.field.name = stem ++ "_".intercalate (r.field.role.nameParts r.field.lo r.field.width)

/-- The region of a field is named after the field. -/
theorem named_ofField (stem : String) (f : BitField) : (ofField stem f).Named stem := by
  show stem ++ f.name = _
  rw [f.name_eq]
  rfl

variable {widths : List Nat} {width width' : Nat} {r r' : Region}

theorem isPart_of_mem_parts {f : TokenField} {s : String}
    (hs : s ∈ Model.stemParts widths width ++ f.role.nameParts f.lo f.width) : Text.IsPart s := by
  rcases List.mem_append.1 hs with hs | hs
  · exact Model.isPart_of_mem_stemParts hs
  · exact TokenRole.isPart_of_mem_nameParts hs

/-- The characters of the name of a region. -/
theorem Named.mem_name (h : r.Named (Model.stem widths width)) {c : Char}
    (hc : c ∈ r.field.name.toList) : c.isAlphanum = true ∨ c = '-' ∨ c = '_' := by
  rw [h, Model.stem_append _ _ (TokenRole.nameParts_ne_nil _ _ _)] at hc
  rcases Text.mem_toList_intercalate hc with rfl | ⟨s, hs, hc⟩
  · exact .inr (.inr rfl)
  · exact (isPart_of_mem_parts hs c hc).imp_right .inl

/-- Regions with one name have one field, and the same width where there are several. -/
theorem Named.field_eq (h : r.Named (Model.stem widths width))
    (h' : r'.Named (Model.stem widths width')) (hr : r.field.lo < r.field.hi)
    (hr' : r'.field.lo < r'.field.hi) (hname : r.field.name = r'.field.name) :
    r.field = r'.field ∧ (widths.length > 1 → width = width') := by
  have hparts : Model.stemParts widths width ++
      r.field.role.nameParts r.field.lo r.field.width =
      Model.stemParts widths width' ++ r'.field.role.nameParts r'.field.lo r'.field.width := by
    have hsome (f : TokenField) : f.role.nameParts f.lo f.width ≠ [] :=
      TokenRole.nameParts_ne_nil _ _ _
    -- No part holds an underscore, so the joined name gives its parts back.
    refine Text.eq_of_intercalate_eq (List.append_ne_nil_of_right_ne_nil _ (hsome _))
      (List.append_ne_nil_of_right_ne_nil _ (hsome _)) (fun _ => isPart_of_mem_parts)
      (fun _ => isPart_of_mem_parts) ?_
    rw [← Model.stem_append _ _ (hsome _), ← Model.stem_append _ _ (hsome _), ← h, ← h', hname]
  have hlength : (Model.stemParts widths width).length =
      (Model.stemParts widths width').length := by
    unfold Model.stemParts
    by_cases hmany : widths.length > 1
    · rw [if_pos hmany, if_pos hmany]
      rfl
    · rw [if_neg hmany, if_neg hmany]
  -- A stem has one part or none, the same for all widths: the names split at one place.
  obtain ⟨hstems, hfields⟩ := List.append_inj hparts hlength
  obtain ⟨hrole, hlo, hwidth⟩ := TokenRole.nameParts_injective hfields
  have hhi : r.field.hi = r'.field.hi := by
    unfold TokenField.width at hwidth
    omega
  constructor
  · rcases hf : r.field with ⟨name, lo, hi, role⟩
    rcases hf' : r'.field with ⟨name', lo', hi', role'⟩
    rw [hf, hf'] at hname hlo hhi hrole
    rw [TokenField.mk.injEq]
    exact ⟨hname, hlo, hhi, hrole⟩
  · exact Model.eq_of_stemParts_eq hstems

end Region

namespace Layout

variable {tables : Tables} {stem : String} {rs : List Region}

/-- Regions that cover some bits lie within them. -/
theorem Tiles.within {top : Nat} (h : Tiles top rs) {r : Region} (hr : r ∈ rs) :
    r.field.lo < r.field.hi ∧ r.field.hi ≤ top := by
  induction rs generalizing top with
  | nil => cases hr
  | cons s rs ih =>
    obtain ⟨htop, hlt, hbelow⟩ := h
    rcases List.mem_cons.1 hr with rfl | hr
    · exact ⟨hlt, Nat.le_of_eq htop⟩
    · have := ih hbelow hr
      omega

/-- A region of literal bits is named after its bits. -/
theorem named_of_mem_opcodeRegion {lo value width : Nat} {r : Region}
    (hr : r ∈ opcodeRegion stem lo value width) : r.Named stem ∧ r.field.role = .opcode := by
  unfold opcodeRegion at hr
  by_cases hwidth : width = 0
  · rw [if_pos hwidth] at hr
    cases hr
  · rw [if_neg hwidth, List.mem_singleton] at hr
    have hsub : lo + width - lo = width := Nat.add_sub_cancel_left ..
    rw [hr]
    unfold Region.Named TokenField.width
    dsimp only
    rw [hsub]
    refine ⟨?_, rfl⟩
    simp [TokenRole.nameParts, TokenRole.kindText, TokenRole.tableParts, ← String.toList_inj,
      toString]

/-- A region is one of literal bits or that of a field. -/
theorem mem_regionsBelow {e : Encoding} {value width : Nat}
    (h : regionsBelow tables stem value width e = .ok rs) {r : Region} (hr : r ∈ rs) :
    (∃ lo value width, r ∈ opcodeRegion stem lo value width) ∨
      ∃ f ∈ e.fields, r = Region.ofField stem f := by
  induction e generalizing value width rs with
  | nil =>
    cases h
    exact .inl ⟨_, _, _, hr⟩
  | cons s rest ih =>
    cases s with
    | bits run => exact ih h hr
    | field f =>
      obtain ⟨below, hbelow, rfl⟩ := regionsBelow_field h
      rcases List.mem_append.1 hr with hr | hr
      · exact .inl ⟨_, _, _, hr⟩
      rw [Encoding.fields_cons_field]
      rcases List.mem_cons.1 hr with rfl | hr
      · exact .inr ⟨f, List.mem_cons_self .., rfl⟩
      · refine (ih hbelow hr).imp_right ?_
        rintro ⟨g, hg, heq⟩
        exact ⟨g, List.mem_cons_of_mem _ hg, heq⟩

variable {p : Pattern} {l : Layout}

/-- All regions of a layout are named after what they are. -/
theorem named_of_mem_regions (h : ofPattern tables stem p = .ok l) {r : Region}
    (hr : r ∈ l.regions) : r.Named stem := by
  rcases mem_regionsBelow (regions_of_ofPattern h) hr with ⟨lo, value, width, hr⟩ | ⟨f, -, rfl⟩
  · exact (named_of_mem_opcodeRegion hr).1
  · exact Region.named_ofField stem f

/-- A region that selects from a table is that of a field which does. -/
theorem exists_field_of_register (h : ofPattern tables stem p = .ok l) {r : Region}
    (hr : r ∈ l.regions) {id : Int} (hrole : r.field.role = .register id) :
    ∃ f ∈ p.fields, r = Region.ofField stem f ∧ f.kind = .register id := by
  rcases mem_regionsBelow (regions_of_ofPattern h) hr with ⟨lo, value, width, hr⟩ | ⟨f, hf, rfl⟩
  · rw [(named_of_mem_opcodeRegion hr).2] at hrole
    cases hrole
  · refine ⟨f, hf, rfl, ?_⟩
    have hrole : f.role = .register id := hrole
    unfold BitField.role at hrole
    cases hkind : f.kind with
    | immediate =>
      rw [hkind] at hrole
      cases hrole
    | register table =>
      rw [hkind] at hrole
      cases hrole
      rfl

end Layout

end SleighForge
