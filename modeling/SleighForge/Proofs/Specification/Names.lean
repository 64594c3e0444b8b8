import SleighForge.Proofs.Layout.RegionNames
import SleighForge.Proofs.Model.Stages
import SleighForge.Proofs.SideBySide

/-!
# Declared fields

The tokens of a model that was laid out declare the fields of all regions. A token keeps the first
field of each name and drops the others, but fields with one name are the same, so no field is lost
(`mem_fields_tokenOf`), and no name is declared twice (`nodup_names`).
-/

namespace SleighForge.Model

/-- Every pattern has its layout, and the tokens have been collected from the layouts. -/
structure LaidOut (m : Model) : Prop where
  layouts : List.Forall₂ (fun p l => Layout.ofPattern m.tables (stem m.widths p.width) p = .ok l)
    m.patterns m.layouts
  tokens : m.tokens = m.widths.map (m.tokenOf m.layouts)

/-- The region is in the layout of a pattern of the width. -/
def HasRegion (m : Model) (width : Nat) (r : Region) : Prop :=
  ∃ x ∈ m.patterns.zip m.layouts, x.1.width = width ∧ r ∈ x.2.regions

/-- Laying out leaves layouts and tokens that fit the patterns. -/
theorem laidOut_of_layOut {m m' : Model} (hrun : runFrom m Stage.layOut = (.ok ⟨⟩, m')) :
    m'.LaidOut := by
  obtain ⟨layouts, journal, hall, rfl⟩ := Stage.layOut_inv hrun
  exact ⟨mapM_eq_ok_iff.1 hall, rfl⟩

/-! ## Widths -/

/-- There is one token for each width. -/
theorem nodup_widths (m : Model) : m.widths.Nodup :=
  (List.mergeSort_perm _ _).symm.nodup (nodup_distinct _)

theorem mem_widths {m : Model} {width : Nat} :
    width ∈ m.widths ↔ ∃ p ∈ m.patterns, p.width = width := by
  rw [widths, List.mem_mergeSort, mem_distinct, List.mem_map]

namespace LaidOut

variable {m : Model} {width width' : Nat} {r r' : Region}

/-! ## Regions -/

theorem ofPattern (h : m.LaidOut) {x : Pattern × Layout} (hx : x ∈ m.patterns.zip m.layouts) :
    Layout.ofPattern m.tables (stem m.widths x.1.width) x.1 = .ok x.2 :=
  List.forall₂_zip h.layouts hx

/-- Regions are named after the width of their words, if there are several widths. -/
theorem named (h : m.LaidOut) (hr : m.HasRegion width r) : r.Named (stem m.widths width) := by
  obtain ⟨x, hx, rfl, hmem⟩ := hr
  exact Layout.named_of_mem_regions (h.ofPattern hx) hmem

/-- A region lies in the word. -/
theorem within (h : m.LaidOut) (hr : m.HasRegion width r) :
    r.field.lo < r.field.hi ∧ r.field.hi ≤ width := by
  obtain ⟨x, hx, rfl, hmem⟩ := hr
  have hregions := Layout.regions_of_ofPattern (h.ofPattern hx)
  exact (Layout.partition_regionsBelow x.1.placed Nat.one_pos hregions).tiles.within hmem

theorem mem_widths (hr : m.HasRegion width r) : width ∈ m.widths := by
  obtain ⟨x, hx, hwidth, -⟩ := hr
  exact Model.mem_widths.2 ⟨x.1, (List.of_mem_zip hx).1, hwidth⟩

/-- Regions with one name have one field and are in words of one width. -/
theorem eq_of_name_eq (h : m.LaidOut) (hr : m.HasRegion width r) (hr' : m.HasRegion width' r')
    (hname : r.field.name = r'.field.name) : r.field = r'.field ∧ width = width' := by
  obtain ⟨hfield, hwidth⟩ := (h.named hr).field_eq (h.named hr') (h.within hr).1 (h.within hr').1
    hname
  refine ⟨hfield, ?_⟩
  by_cases hmany : m.widths.length > 1
  · exact hwidth hmany
  · -- There is only one width.
    have hone : m.widths.length ≤ 1 := Nat.le_of_not_lt hmany
    have hin := mem_widths hr
    have hin' := mem_widths hr'
    rcases hlist : m.widths with _ | ⟨w, _ | ⟨w', rest⟩⟩
    · rw [hlist] at hin
      cases hin
    · rw [hlist, List.mem_singleton] at hin hin'
      rw [hin, hin']
    · rw [hlist] at hone
      simp at hone

/-! ## Tokens -/

/-- The fields of a token are those of the regions in words of its width. -/
theorem mem_fields_tokenOf (h : m.LaidOut) {f : TokenField} :
    f ∈ (m.tokenOf m.layouts width).fields ↔ ∃ r, m.HasRegion width r ∧ r.field = f := by
  have hall (g : TokenField) : g ∈ ((m.patterns.zip m.layouts).filter
      (·.1.width = width)).flatMap (fun x => x.2.regions.map Region.field) ↔
      ∃ r, m.HasRegion width r ∧ r.field = g := by
    simp only [List.mem_flatMap, List.mem_filter, List.mem_map, HasRegion, decide_eq_true_eq]
    constructor
    · rintro ⟨x, ⟨hx, hwidth⟩, r, hr, hfield⟩
      exact ⟨r, ⟨x, hx, hwidth, hr⟩, hfield⟩
    · rintro ⟨r, ⟨x, hx, hwidth, hr⟩, hfield⟩
      exact ⟨x, ⟨hx, hwidth⟩, r, hr, hfield⟩
  constructor
  · intro hf
    exact (hall f).1 ((distinctBy_sublist _ _).subset hf)
  · rintro ⟨r, hr, rfl⟩
    -- A field of that name is kept, and it is the same one.
    have hname : r.field.name ∈ (m.tokenOf m.layouts width).fields.map TokenField.name :=
      mem_map_distinctBy.2 (List.mem_map_of_mem ((hall r.field).2 ⟨r, hr, rfl⟩))
    obtain ⟨g, hg, heq⟩ := List.mem_map.1 hname
    obtain ⟨r', hr', rfl⟩ := (hall g).1 ((distinctBy_sublist _ _).subset hg)
    rwa [(h.eq_of_name_eq hr' hr heq).1] at hg

/-- The declared fields are those of all regions. -/
theorem mem_fields (h : m.LaidOut) {f : TokenField} :
    f ∈ m.tokens.flatMap Token.fields ↔ ∃ width r, m.HasRegion width r ∧ r.field = f := by
  rw [h.tokens, List.flatMap_map, List.mem_flatMap]
  constructor
  · rintro ⟨width, -, hf⟩
    exact ⟨width, h.mem_fields_tokenOf.1 hf⟩
  · rintro ⟨width, r, hr, hfield⟩
    exact ⟨width, mem_widths hr, h.mem_fields_tokenOf.2 ⟨r, hr, hfield⟩⟩

/-- No name is declared twice, in one token or in two. -/
theorem nodup_names (h : m.LaidOut) :
    ((m.tokens.flatMap Token.fields).map TokenField.name).Nodup := by
  rw [h.tokens, List.flatMap_map, List.map_flatMap, List.nodup_flatMap]
  constructor
  · intro width _
    exact nodup_map_distinctBy _ _
  · refine m.nodup_widths.imp ?_
    intro width width' hne name hname hname'
    obtain ⟨f, hf, rfl⟩ := List.mem_map.1 hname
    obtain ⟨f', hf', heq⟩ := List.mem_map.1 hname'
    obtain ⟨r, hr, rfl⟩ := h.mem_fields_tokenOf.1 hf
    obtain ⟨r', hr', rfl⟩ := h.mem_fields_tokenOf.1 hf'
    exact hne (h.eq_of_name_eq hr hr' heq.symm).2

end LaidOut

end SleighForge.Model
