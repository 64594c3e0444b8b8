import SleighForge.Combine.Pass
import SleighForge.Proofs.Combine.Merged
import SleighForge.Proofs.RegisterTable.Twin

/-!
# Merging twins

A merger that is given twins, and the same foreign words, does the same with both: it faults with
the same cause, refuses both or makes twins (`mergeImmediates_twin`, `mergeRegisters_twin`).
-/

namespace SleighForge

/-- Both fail, with related faults, or both succeed, with related results. -/
inductive ExceptRel {ε ε' α β : Type} (E : ε → ε' → Prop) (R : α → β → Prop) :
    Except ε α → Except ε' β → Prop where
  | error {e : ε} {e' : ε'} (h : E e e') : ExceptRel E R (.error e) (.error e')
  | ok {a : α} {b : β} (h : R a b) : ExceptRel E R (.ok a) (.ok b)

/-- Related results are faults both or values both. -/
theorem exceptRel_cases {ε ε' α β : Type} {E : ε → ε' → Prop} {R : α → β → Prop}
    {x : Except ε α} {y : Except ε' β} (h : ExceptRel E R x y) :
    (∃ e e', x = .error e ∧ y = .error e' ∧ E e e') ∨ ∃ a b, x = .ok a ∧ y = .ok b ∧ R a b := by
  cases h with
  | error h => exact .inl ⟨_, _, rfl, rfl, h⟩
  | ok h => exact .inr ⟨_, _, rfl, rfl, h⟩

/-- The same fault about instructions at changed positions in the source. -/
def CombineFault.reindex (g : Int → Int) (fault : CombineFault) : CombineFault :=
  { fault with indices := fault.indices.map g }

/-- Interned tables with all that there was in some other tables, on either side. -/
structure Kept (ts us ts' us' : Tables) : Prop where
  left : ts'.Interned
  right : us'.Interned
  keepsLeft : ∀ id t, ts.get? id = some t → ts'.get? id = some t
  keepsRight : ∀ id t, us.get? id = some t → us'.get? id = some t

namespace Kept

variable {ts us ts' us' : Tables} {g : Int → Int}

theorem refl (hts : ts.Interned) (hus : us.Interned) : Kept ts us ts us :=
  ⟨hts, hus, fun _ _ => id, fun _ _ => id⟩

/-- Twins stay twins while tables are kept. -/
theorem twins (h : Kept ts us ts' us') {ps qs : List Pattern}
    (htwins : List.Forall₂ (Pattern.Twin g ts us) ps qs) :
    List.Forall₂ (Pattern.Twin g ts' us') ps qs :=
  htwins.imp fun _ _ hpq => hpq.mono h.keepsLeft h.keepsRight

end Kept

namespace Combine

variable {g : Int → Int} {ts us : Tables} {first first' : Pattern} {rest rest' : List Pattern}

/-! ## Varying bits -/

/-- Twins vary at the same bits. -/
theorem varyingMask_congr (hfirst : first'.encoding.literalValue = first.encoding.literalValue)
    (hrest : List.Forall₂ (Pattern.Twin g ts us) rest rest') :
    varyingMask first' rest' = varyingMask first rest := by
  have hvalues : rest'.map (·.encoding.literalValue) = rest.map (·.encoding.literalValue) :=
    (map_eq_map_of_forall₂ hrest fun _ _ _ _ h => h.literalValue_eq.symm).symm
  have hmask : ∀ (p : Pattern) (ps : List Pattern), varyingMask p ps =
      (ps.map (·.encoding.literalValue)).foldl
        (fun mask value => mask ||| (value ^^^ p.encoding.literalValue)) 0 := by
    intro p ps
    rw [List.foldl_map]
    rfl
  rw [hmask, hmask, hvalues, hfirst]

theorem varyingSpan?_congr (hfirst : first'.encoding.literalValue = first.encoding.literalValue)
    (hrest : List.Forall₂ (Pattern.Twin g ts us) rest rest') :
    varyingSpan? first' rest' = varyingSpan? first rest := by
  rw [varyingSpan?, varyingSpan?, varyingMask_congr hfirst hrest]

theorem indices_eq {ps qs : List Pattern} (h : List.Forall₂ (Pattern.Twin g ts us) ps qs) :
    qs.map Pattern.index = (ps.map Pattern.index).map g := by
  rw [List.map_map]
  exact (map_eq_map_of_forall₂ h fun _ _ _ _ hpq => hpq.index.symm).symm

theorem examples_eq {ps qs : List Pattern} (h : List.Forall₂ (Pattern.Twin g ts us) ps qs) :
    qs.flatMap Pattern.examples = ps.flatMap Pattern.examples := by
  rw [List.flatMap_def, List.flatMap_def]
  exact congrArg List.flatten (map_eq_map_of_forall₂ h fun _ _ _ _ hpq => hpq.examples.symm).symm

/-! ## Numbers -/

/-- Twins with the same number. -/
def TwinValues (g : Int → Int) (ts us : Tables) (x y : Pattern × Int) : Prop :=
  x.1.Twin g ts us y.1 ∧ y.2 = x.2

theorem withImmediate?_rel {p q : Pattern} (h : p.Twin g ts us q) (position : Nat) :
    Option.Rel (TwinValues g ts us) (withImmediate? position p) (withImmediate? position q) := by
  rw [withImmediate?, withImmediate?]
  rcases optionRel_cases (h.getElem?_operands position) with ⟨hp, hq⟩ | ⟨op, op', hp, hq, hop⟩
  · rw [hp, hq]
    exact .none
  · rw [hp, hq]
    cases hop with
    | plain =>
      cases op with
      | immediate v spelling => exact .some ⟨h, rfl⟩
      | _ => exact .none
    | field => exact .none

/-- The members of the groups are twins with the same numbers. -/
structure TwinGroups (g : Int → Int) (ts us : Tables) (a b : ImmediateGroup) : Prop where
  first : TwinValues g ts us a.first b.first
  rest : List.Forall₂ (TwinValues g ts us) a.rest b.rest
  position : b.position = a.position

namespace TwinGroups

variable {a b : ImmediateGroup}

theorem members (h : TwinGroups g ts us a b) :
    List.Forall₂ (TwinValues g ts us) a.members b.members :=
  .cons h.first h.rest

theorem twins (h : TwinGroups g ts us a b) :
    List.Forall₂ (Pattern.Twin g ts us) (a.members.map Prod.fst) (b.members.map Prod.fst) :=
  List.rel_map (fun _ _ hxy => hxy.1) h.members

theorem twins_rest (h : TwinGroups g ts us a b) :
    List.Forall₂ (Pattern.Twin g ts us) (a.rest.map Prod.fst) (b.rest.map Prod.fst) :=
  List.rel_map (fun _ _ hxy => hxy.1) h.rest

theorem values_eq (h : TwinGroups g ts us a b) :
    b.members.map Prod.snd = a.members.map Prod.snd :=
  (map_eq_map_of_forall₂ h.members fun _ _ _ _ hxy => hxy.2.symm).symm

theorem signed_eq (h : TwinGroups g ts us a b) : b.signed = a.signed := by
  have hsigned : ∀ c : ImmediateGroup, c.signed = (c.members.map Prod.snd).any (· < 0) := by
    intro c
    rw [List.any_map]
    rfl
  rw [hsigned, hsigned, h.values_eq]

/-- A slice holds the numbers of one group if it holds those of the other. -/
theorem holds_eq (h : TwinGroups g ts us a b) (lo width : Nat) :
    (b.members.all fun x => Combine.holds x.1 x.2 lo width) =
      a.members.all fun x => Combine.holds x.1 x.2 lo width := by
  have hall : ∀ c : ImmediateGroup, (c.members.all fun x => Combine.holds x.1 x.2 lo width) =
      (c.members.map fun x => Combine.holds x.1 x.2 lo width).all id := by
    intro c
    rw [List.all_map]
    rfl
  rw [hall, hall]
  refine congrArg (List.all · id) (map_eq_map_of_forall₂ h.members ?_).symm
  intro x _ y _ hxy
  rw [Combine.holds, Combine.holds, hxy.1.literalValue_eq, hxy.2]

theorem examples_eq (h : TwinGroups g ts us a b) :
    (b.members.flatMap fun x => x.1.examples) = a.members.flatMap fun x => x.1.examples := by
  have hmap : ∀ c : ImmediateGroup, (c.members.flatMap fun x => x.1.examples) =
      (c.members.map Prod.fst).flatMap Pattern.examples := fun _ => (List.flatMap_map ..).symm
  rw [hmap, hmap, Combine.examples_eq h.twins]

/-- Twin groups merge at the same slices, to twins. -/
theorem mergedAt?_rel (h : TwinGroups g ts us a b) (lo width : Nat) :
    Option.Rel (Pattern.Twin g ts us) (a.mergedAt? lo width) (b.mergedAt? lo width) := by
  unfold ImmediateGroup.mergedAt?
  split
  · next hw =>
    have hliteral := h.first.1.encoding_alike.isLiteral_iff lo (lo + width)
    dsimp only
    by_cases hlit : a.first.1.encoding.IsLiteral lo (lo + width)
    · have hlit' := hliteral.2 hlit
      rw [dif_pos hlit, dif_pos hlit', h.holds_eq]
      split
      · have hsigned := h.signed_eq
        refine .some (h.first.1.generalize ?_ h.position h.examples_eq)
        rw [hsigned]
        exact .immediate rfl
      · exact .none
    · rw [dif_neg hlit, dif_neg (mt hliteral.1 hlit)]
      exact .none
  · exact .none

/-- The fault of a twin group names the moved positions. -/
theorem fault_eq (h : TwinGroups g ts us a b) : b.fault = a.fault.reindex g := by
  have hvarying := varyingMask_congr h.first.1.literalValue_eq h.twins_rest
  have hmnemonic : b.first.1.mnemonic = a.first.1.mnemonic := h.first.1.mnemonic
  have hindices : b.indices = a.indices.map g := by
    have hmap : ∀ c : ImmediateGroup, c.indices = (c.members.map Prod.fst).map Pattern.index :=
      fun _ => List.map_map.symm
    rw [hmap, hmap, indices_eq h.twins]
  rw [ImmediateGroup.fault, ImmediateGroup.fault, CombineFault.reindex, hvarying, hmnemonic,
    hindices, h.position]

end TwinGroups

/-- Searches that agree at every window stop at the same one. -/
theorem findWindow?_rel (low top total : Nat) {f f' : Nat → Nat → Option Pattern}
    (h : ∀ lo width, Option.Rel (Pattern.Twin g ts us) (f lo width) (f' lo width)) :
    Option.Rel (Pattern.Twin g ts us) (findWindow? low top total f)
      (findWindow? low top total f') :=
  findSome?_rel fun _ _ => findSome?_rel fun _ _ => h _ _

/-- Windows are free for both twins or for neither. -/
theorem filter_agrees_rel {o o' : Option Pattern} (h : Option.Rel (Pattern.Twin g ts us) o o')
    (foreign : List Int) : Option.Rel (Pattern.Twin g ts us)
      (o.filter fun p => !foreign.any p.encoding.agrees)
      (o'.filter fun p => !foreign.any p.encoding.agrees) := by
  cases h with
  | none => exact .none
  | @some p q hpq =>
    have hagrees : q.encoding.agrees = p.encoding.agrees :=
      funext fun word => hpq.encoding_alike.agrees_eq word
    rw [Option.filter_some, Option.filter_some, hagrees]
    split
    · exact .some hpq
    · exact .none

/-- Twin groups are merged to twins, refused or at fault alike. -/
theorem ImmediateGroup.merge_twin {a b : ImmediateGroup} (h : TwinGroups g ts us a b)
    (foreign : List Int) : ExceptRel (fun e e' => e' = e.reindex g)
      (Option.Rel (Pattern.Twin g ts us)) (a.merge foreign) (b.merge foreign) := by
  have hspan := varyingSpan?_congr h.first.1.literalValue_eq h.twins_rest
  have hwidth := h.first.1.width_eq
  unfold ImmediateGroup.merge
  rw [hspan, hwidth]
  cases varyingSpan? a.first.1 (a.rest.map Prod.fst) with
  | none => exact .error h.fault_eq
  | some span =>
    rcases span with ⟨low, top⟩
    dsimp only
    -- Two searches over the same windows: for one that is free, and for any that holds the values.
    have hfree := findWindow?_rel low top a.first.1.width fun lo width =>
      filter_agrees_rel (h.mergedAt?_rel lo width) foreign
    rcases optionRel_cases hfree with ⟨hp, hq⟩ | ⟨p, q, hp, hq, hpq⟩
    · rw [hp, hq]
      dsimp only
      have hany := findWindow?_rel low top a.first.1.width h.mergedAt?_rel
      rcases optionRel_cases hany with ⟨hp, hq⟩ | ⟨p, q, hp, hq, hpq⟩
      · rw [hp, hq]
        exact .error h.fault_eq
      · rw [hp, hq]
        exact .ok .none
    · rw [hp, hq]
      exact .ok (.some hpq)

/-- Merging twins over numbers gives twins, refuses or fails alike. -/
theorem mergeImmediates_twin (hfirst : first.Twin g ts us first')
    (hrest : List.Forall₂ (Pattern.Twin g ts us) rest rest') (position : Nat)
    (foreign : List Int) : ExceptRel (fun e e' => e' = e.reindex g)
      (Option.Rel (Pattern.Twin g ts us)) (mergeImmediates first rest position foreign)
      (mergeImmediates first' rest' position foreign) := by
  have hmnemonic : first'.mnemonic = first.mnemonic := hfirst.mnemonic
  have hindices := indices_eq (.cons hfirst hrest)
  have hfault : ExceptRel (fun e e' => e' = CombineFault.reindex g e)
      (Option.Rel (Pattern.Twin g ts us))
      (.error ⟨.noOperand position, first.mnemonic, (first :: rest).map Pattern.index⟩)
      (.error ⟨.noOperand position, first'.mnemonic, (first' :: rest').map Pattern.index⟩) := by
    rw [hmnemonic, hindices]
    exact .error rfl
  unfold mergeImmediates
  rcases optionRel_cases (withImmediate?_rel hfirst position) with
    ⟨hp, hq⟩ | ⟨x, y, hp, hq, hxy⟩
  · rw [hp, hq]
    exact hfault
  · rcases optionRel_cases (mapM_rel hrest fun p q hpq => withImmediate?_rel hpq position) with
      ⟨hps, hqs⟩ | ⟨xs, ys, hps, hqs, hall⟩
    · rw [hp, hq, hps, hqs]
      exact hfault
    · rw [hp, hq, hps, hqs]
      have hgroups : TwinGroups g ts us ⟨x, xs, position⟩ ⟨y, ys, position⟩ := ⟨hxy, hall, rfl⟩
      exact ImmediateGroup.merge_twin hgroups foreign

/-! ## Registers -/

/-- No operand at the position is a field. -/
def PlainAt (position : Nat) (p : Pattern) : Prop :=
  ∀ op, p.operands[position]? = some op → op.field? = none

/-- Twins have the same register at a position where there is no field. -/
theorem nameAt?_eq {p q : Pattern} (h : p.Twin g ts us q) {position : Nat}
    (hplain : PlainAt position p) : nameAt? position q = nameAt? position p := by
  rw [nameAt?, nameAt?]
  rcases optionRel_cases (h.getElem?_operands position) with ⟨hp, hq⟩ | ⟨op, op', hp, hq, hop⟩
  · rw [hp, hq]
  · rw [hp, hq, hop.eq_of_plain (hplain op hp)]

/-- Twins select the same registers by the same bits. -/
theorem select_eq {position lo width : Nat} {ps qs : List Pattern}
    (h : List.Forall₂ (Pattern.Twin g ts us) ps qs) (hplain : ∀ p ∈ ps, PlainAt position p) :
    select position lo width qs = select position lo width ps := by
  have hfold : ∀ s : Selection, qs.foldlM (selectOne position lo width) s =
      ps.foldlM (selectOne position lo width) s := by
    induction h with
    | nil => exact fun _ => rfl
    | @cons p q ps qs hpq _ ih =>
      rw [List.forall_mem_cons] at hplain
      intro s
      have hone : selectOne position lo width s q = selectOne position lo width s p := by
        rw [selectOne, selectOne, nameAt?_eq hpq hplain.1, hpq.literalValue_eq]
      rw [List.foldlM_cons, List.foldlM_cons, hone]
      exact congrArg _ (funext (ih hplain.2))
  exact hfold []

/-- The merged patterns are twins over the tables after merging. -/
def TwinMerges (g : Int → Int) (ts us : Tables) (x y : Option Pattern × Tables) : Prop :=
  Kept ts us x.2 y.2 ∧ Option.Rel (Pattern.Twin g x.2 y.2) x.1 y.1

/-- Interning the same registers on both sides gives tables that stand for the same. -/
theorem intern_twin (hts : ts.Interned) (hus : us.Interned) (registers : List (Option String))
    {lo hi : Nat} (hlt : lo < hi) :
    Kept ts us (ts.intern registers).2 (us.intern registers).2 ∧
      BitField.Alike (ts.intern registers).2 (us.intern registers).2
        ⟨lo, hi, .register (ts.intern registers).1.id, false, hlt⟩
        ⟨lo, hi, .register (us.intern registers).1.id, false, hlt⟩ := by
  rcases Tables.intern_grown hts.toNumbered registers with ⟨hgrown, ht⟩
  rcases Tables.intern_grown hus.toNumbered registers with ⟨hgrown', hu⟩
  have hregs : (us.intern registers).1.registers = (ts.intern registers).1.registers := by
    rw [Tables.intern_registers, Tables.intern_registers]
  exact ⟨⟨hts.intern registers, hus.intern registers, hgrown.keeps, hgrown'.keeps⟩,
    .register rfl ht hu hregs⟩

/-- Merging twins over registers gives twins, refuses or fails alike, and keeps the tables in step.
-/
theorem mergeRegisters_twin (hts : ts.Interned) (hus : us.Interned)
    (hfirst : first.Twin g ts us first') (hrest : List.Forall₂ (Pattern.Twin g ts us) rest rest')
    {position : Nat} (hplain : ∀ p ∈ first :: rest, PlainAt position p) (foreign : List Int) :
    ExceptRel (fun e e' => e' = e.reindex g) (TwinMerges g ts us)
      (mergeRegisters first rest position foreign ts)
      (mergeRegisters first' rest' position foreign us) := by
  have hall : List.Forall₂ (Pattern.Twin g ts us) (first :: rest) (first' :: rest') :=
    .cons hfirst hrest
  have hmnemonic : first'.mnemonic = first.mnemonic := hfirst.mnemonic
  have hempty : rest'.isEmpty = rest.isEmpty := by cases hrest <;> rfl
  have hfault : ∀ cause, ExceptRel (fun e e' => e' = CombineFault.reindex g e) (TwinMerges g ts us)
      (.error ⟨cause, first.mnemonic, (first :: rest).map Pattern.index⟩)
      (.error ⟨cause, first'.mnemonic, (first' :: rest').map Pattern.index⟩) := by
    intro cause
    rw [hmnemonic, indices_eq hall]
    exact .error rfl
  unfold mergeRegisters
  dsimp only
  rw [hempty, varyingSpan?_congr hfirst.literalValue_eq hrest]
  split
  · exact hfault _
  · cases varyingSpan? first rest with
    | none => exact hfault _
    | some span =>
      rcases span with ⟨lo, hi⟩
      dsimp only
      split
      · next hlt =>
        have hliteral := hfirst.encoding_alike.isLiteral_iff lo hi
        by_cases hlit : first.encoding.IsLiteral lo hi
        · have hlit' := hliteral.2 hlit
          rw [dif_pos hlit, dif_pos hlit', select_eq hall hplain]
          cases select position lo (hi - lo) (first :: rest) with
          | error cause => exact hfault cause
          | ok selection =>
            dsimp only
            -- Nothing is interned yet: the check for foreign words opens a field of table 0.
            have hagrees : (first'.generalize position ⟨lo, hi, .register 0, false, hlt⟩ hlit'
                  ((first' :: rest').flatMap Pattern.examples)).encoding.agrees =
                (first.generalize position ⟨lo, hi, .register 0, false, hlt⟩ hlit
                  ((first :: rest).flatMap Pattern.examples)).encoding.agrees :=
              funext (hfirst.encoding_alike.agrees_opened first.placed first'.placed hlit)
            rw [hagrees]
            by_cases hany : foreign.any (first.generalize position ⟨lo, hi, .register 0, false, hlt⟩
                hlit ((first :: rest).flatMap Pattern.examples)).encoding.agrees = true
            · rw [if_pos hany, if_pos hany]
              have hrefused : TwinMerges g ts us (none, ts) (none, us) := ⟨.refl hts hus, .none⟩
              exact .ok hrefused
            · rw [if_neg hany, if_neg hany]
              -- Only here do the tables of the two runs change, each by the table selected.
              rcases intern_twin hts hus selection.toTable hlt with ⟨hkept, halike⟩
              have htwin := hfirst.mono hkept.keepsLeft hkept.keepsRight
              have hmade : Option.Rel (Pattern.Twin g _ _)
                  (some (first.generalize position _ hlit _))
                  (some (first'.generalize position _ hlit' _)) :=
                .some (htwin.generalize halike rfl (examples_eq hall))
              exact .ok ⟨hkept, hmade⟩
        · rw [dif_neg hlit, dif_neg (mt hliteral.1 hlit)]
          exact hfault _
      · exact hfault _

end Combine

end SleighForge
