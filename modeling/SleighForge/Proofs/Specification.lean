import SleighForge.Proofs.Layout.Partition
import SleighForge.Proofs.Model.Finish
import SleighForge.Proofs.SideBySide
import SleighForge.Specification

/-!
# Specifications that can be written

A specification cannot be written down only where an operand is a field that the layout of its
pattern does not have. The layout of a pattern has all fields of its encoding, so a model that was
laid out has a specification (`render_of_layOut`).
-/

namespace SleighForge

namespace Layout

variable {tables : Tables} {stem : String} {p : Pattern} {l : Layout} {f : BitField}

/-- A layout has the fields of its pattern. -/
theorem ofField_mem_regions (h : ofPattern tables stem p = .ok l) (hf : f ∈ p.fields) :
    Region.ofField stem f ∈ l.regions := by
  have hoperands := (partition_regionsBelow p.placed Nat.one_pos (regions_of_ofPattern h)).operands
  have hmem : Region.ofField stem f ∈ l.regions.filter (·.operand?.isSome) :=
    hoperands ▸ List.mem_map_of_mem hf
  exact (List.mem_filter.1 hmem).1

/-- The layout of a pattern has the field of each of its fields. -/
theorem tokenField?_eq (h : ofPattern tables stem p = .ok l) (hf : f ∈ p.fields) :
    l.tokenField? f = some (Region.ofField stem f).field := by
  have hoperands := (partition_regionsBelow p.placed Nat.one_pos (regions_of_ofPattern h)).operands
  have hoperand : (Region.ofField stem f).operand? = some f := rfl
  rw [tokenField?]
  cases hfind : l.regions.find? (·.operand? = some f) with
  | none =>
    have hnone := List.find?_eq_none.1 hfind _ (ofField_mem_regions h hf)
    simp [hoperand] at hnone
  | some r =>
    -- The region that is found is that of a field, and so that of this one.
    have hr : r.operand? = some f := by simpa using List.find?_some hfind
    have hmem : r ∈ l.regions.filter (·.operand?.isSome) :=
      List.mem_filter.2 ⟨List.mem_of_find?_eq_some hfind, by rw [hr]; rfl⟩
    rw [hoperands, List.mem_map] at hmem
    obtain ⟨g, -, rfl⟩ := hmem
    obtain rfl : g = f := Option.some.inj hr
    rfl

end Layout

namespace Specification

theorem map_ok {ε α β : Type} {x : Except ε α} {f : α → β} (h : ∃ a, x = .ok a) :
    ∃ b, (do return f (← x)) = Except.ok b := by
  rcases h with ⟨a, rfl⟩
  exact ⟨f a, rfl⟩

/-- The layout has the fields among the operands. -/
def Shown (l : Layout) (op : Operand) : Prop :=
  ∀ f, op = .field f → ∃ t, l.tokenField? f = some t

variable {l : Layout}

/-- An operand that is shown has its item. -/
theorem displayItem_ok {op : Operand} (h : Shown l op) : ∃ item, displayItem l op = .ok item := by
  cases op with
  | field f =>
    rcases h f rfl with ⟨t, ht⟩
    exact ⟨t.name, by rw [displayItem, ht]⟩
  | text s =>
    unfold displayItem
    dsimp only
    split
    · exact ⟨_, rfl⟩
    · exact ⟨_, rfl⟩
  | register | immediate => exact ⟨_, rfl⟩

theorem displayAfter_cons {previous op : Operand} {previousItem item text : String}
    {ops : List Operand} (hitem : displayItem l op = .ok item)
    (hrest : displayAfter l op item ops = .ok text) :
    displayAfter l previous previousItem (op :: ops) =
      .ok (separator previous op previousItem item ++ item ++ text) := by
  rw [displayAfter, hitem]
  dsimp only [bind, Except.bind]
  rw [hrest]
  rfl

theorem displayOperands_cons {op : Operand} {item text : String} {ops : List Operand}
    (hitem : displayItem l op = .ok item) (hrest : displayAfter l op item ops = .ok text) :
    displayOperands l (op :: ops) = .ok (" " ++ item ++ text) := by
  rw [displayOperands, hitem]
  dsimp only [bind, Except.bind]
  rw [hrest]
  rfl

theorem displayAfter_ok {ops : List Operand} (h : ∀ op ∈ ops, Shown l op) (previous : Operand)
    (item : String) : ∃ text, displayAfter l previous item ops = .ok text := by
  induction ops generalizing previous item with
  | nil => exact ⟨"", rfl⟩
  | cons op ops ih =>
    rw [List.forall_mem_cons] at h
    rcases displayItem_ok h.1 with ⟨item', hitem⟩
    rcases ih h.2 op item' with ⟨text, hrest⟩
    exact ⟨_, displayAfter_cons hitem hrest⟩

theorem displayText_ok {p : Pattern} (h : ∀ op ∈ p.operands, Shown l op) :
    ∃ text, displayText p l = .ok text := by
  have hoperands : ∃ text, displayOperands l p.operands = .ok text := by
    generalize p.operands = ops at h
    cases ops with
    | nil => exact ⟨"", rfl⟩
    | cons op ops =>
      rw [List.forall_mem_cons] at h
      rcases displayItem_ok h.1 with ⟨item, hitem⟩
      rcases displayAfter_ok h.2 op item with ⟨text, hrest⟩
      exact ⟨_, displayOperands_cons hitem hrest⟩
  rcases hoperands with ⟨text, htext⟩
  exact ⟨_, by rw [displayText, htext]; rfl⟩

theorem constructorLines_ok {c : Config} {p : Pattern} (h : ∀ op ∈ p.operands, Shown l op) :
    ∃ lines, constructorLines c p l = .ok lines := by
  rcases displayText_ok h with ⟨text, htext⟩
  exact ⟨_, by rw [constructorLines, htext]; rfl⟩

/-- A model has a text if the operands of all patterns are shown. -/
theorem render_ok {m : Model}
    (h : ∀ x ∈ m.patterns.zip m.layouts, ∀ op ∈ x.1.operands, Shown x.2 op) :
    ∃ text, render m = .ok text :=
  map_ok (exists_mapM_eq_ok fun x hx => constructorLines_ok (h x hx))

/-- A model that was laid out has a specification. -/
theorem render_of_layOut {m m' : Model} (hm : ∀ p ∈ m.patterns, p.OperandsEncoded)
    (hrun : runFrom m Stage.layOut = (.ok ⟨⟩, m')) : ∃ text, render m' = .ok text := by
  rcases Stage.layOut_inv hrun with ⟨layouts, journal, hall, rfl⟩
  refine render_ok fun x hx op hop f hf => ?_
  have hp : x.1 ∈ m.patterns := (List.of_mem_zip hx).1
  exact ⟨_, Layout.tokenField?_eq (List.forall₂_zip (mapM_eq_ok_iff.1 hall) hx)
    (hm x.1 hp f (hf ▸ hop))⟩

end Specification

end SleighForge
