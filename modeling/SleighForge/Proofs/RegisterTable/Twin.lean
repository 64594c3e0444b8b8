import SleighForge.Proofs.RegisterTable.Alike
import SleighForge.Proofs.RegisterTable.Interning
import SleighForge.Proofs.SideBySide

/-!
# Twins

Two patterns are twins if one comes from the other by a change of its position in the source and of
the ids of its register tables, where ids in the same place stand for the same registers. Over
tables that interning has made, no two of which have the same registers, being twins keeps patterns
apart as they are (`Twin.identity_eq_iff`), and twins stay twins where the same field is opened in
both (`Twin.generalize`).
-/

namespace SleighForge

/-! ## Interned tables -/

namespace Tables

/-- Numbered tables, no two of which have the same registers. -/
structure Interned (ts : Tables) : Prop extends Numbered ts where
  apart : (ts.history.map RegisterTable.registers).Nodup

theorem interned_empty : Interned {} where
  toNumbered := numbered_empty
  apart := List.nodup_nil

variable {ts : Tables}

/-- Tables with the same registers are the same. -/
theorem Interned.id_eq (h : ts.Interned) {id id' : Int} {t t' : RegisterTable}
    (ht : ts.get? id = some t) (ht' : ts.get? id' = some t') (hregs : t.registers = t'.registers) :
    id = id' := by
  rcases h.get?_eq_some_iff.1 ht with ⟨hmem, rfl⟩
  rcases h.get?_eq_some_iff.1 ht' with ⟨hmem', rfl⟩
  rw [List.inj_on_of_nodup_map h.apart hmem hmem' hregs]

/-- Interning keeps register lists distinct. -/
theorem Interned.intern (h : ts.Interned) (registers : List (Option String)) :
    (ts.intern registers).2.Interned := by
  refine ⟨(intern_grown h.toNumbered registers).1.numbered, ?_⟩
  unfold Tables.intern
  split
  · exact h.apart
  · next hfind =>
    refine List.nodup_cons.2 ⟨?_, h.apart⟩
    intro hmem
    rcases List.mem_map.1 hmem with ⟨t, ht, hregs⟩
    simpa [hregs] using List.find?_eq_none.1 hfind t ht

/-- Numbered tables are interned: no two of them have the same registers. -/
theorem interned_of_ofPatterns {working : Tables} {patterns : List Pattern} {n : Numbering}
    (h : Numbering.ofPatterns working patterns = .ok n) : n.toTables.Interned where
  toNumbered := (Numbering.ofPatterns_spec h).numbered
  apart := by
    have hregisters := (Numbering.distinguished_of_ofPatterns h).registers
    rwa [Numbering.toTables, List.map_reverse, List.nodup_reverse]

/-- Tables that interning and numbering have made. -/
inductive Built : Tables → Prop where
  | empty : Built {}
  | intern {ts : Tables} (h : Built ts) (registers : List (Option String)) :
    Built (ts.intern registers).2
  | numbered {working : Tables} {patterns : List Pattern} {n : Numbering}
    (h : Numbering.ofPatterns working patterns = .ok n) : Built n.toTables

/-- Tables that were only interned or numbered have distinct register lists. -/
theorem Built.interned {ts : Tables} (h : ts.Built) : ts.Interned := by
  induction h with
  | empty => exact interned_empty
  | intern _ registers ih => exact ih.intern registers
  | numbered h => exact interned_of_ofPatterns h

end Tables

variable {ts us ts' us' : Tables}

/-! ## Fields -/

namespace BitField.Alike

variable {f g : BitField}

theorem symm (h : f.Alike ts us g) : g.Alike us ts f := by
  cases h with
  | immediate hf => exact .immediate hf
  | @register old new t u hf ht hu hregs =>
    have hback : f = { { f with kind := .register new } with kind := .register old } := by
      rw [table?_eq_some_iff] at hf
      rw [← hf]
    have halike : Alike us ts { f with kind := .register new }
        { { f with kind := .register new } with kind := .register old } :=
      .register rfl hu ht hregs.symm
    rwa [← hback] at halike

theorem mono (hts : ∀ id t, ts.get? id = some t → ts'.get? id = some t)
    (hus : ∀ id t, us.get? id = some t → us'.get? id = some t) (h : f.Alike ts us g) :
    f.Alike ts' us' g := by
  cases h with
  | immediate hf => exact .immediate hf
  | register hf ht hu hregs => exact .register hf (hts _ _ ht) (hus _ _ hu) hregs

theorem lo_eq (h : f.Alike ts us g) : g.lo = f.lo := by
  cases h <;> rfl

theorem hi_eq (h : f.Alike ts us g) : g.hi = f.hi := by
  cases h <;> rfl

theorem width_eq (h : f.Alike ts us g) : g.width = f.width := by
  rw [width, width, h.lo_eq, h.hi_eq]

/-- A field is like one field of the other side, since this has each register list once. -/
theorem rightUnique (hus : us.Interned) : Relator.RightUnique (Alike ts us) := by
  intro f g g' h h'
  cases h with
  | immediate hf =>
    cases h' with
    | immediate => rfl
    | register hf' =>
      rw [hf] at hf'
      cases hf'
  | @register old new t u hf ht hu hregs =>
    cases h' with
    | immediate hf' =>
      rw [hf] at hf'
      cases hf'
    | @register old' new' t' u' hf' ht' hu' hregs' =>
      rw [hf, Option.some.injEq] at hf'
      rw [← hf', ht, Option.some.injEq] at ht'
      rw [hus.id_eq hu hu' (by rw [hregs, hregs', ht'])]

/-- Fields that are alike correspond one to one. -/
theorem biUnique (hts : ts.Interned) (hus : us.Interned) : Relator.BiUnique (Alike ts us) :=
  ⟨fun _ _ _ h h' => rightUnique hts h.symm h'.symm, rightUnique hus⟩

end BitField.Alike

/-! ## Operands -/

namespace Operand.Alike

variable {op op' : Operand}

theorem symm (h : op.Alike ts us op') : op'.Alike us ts op := by
  cases h with
  | plain hop => exact .plain hop
  | field h => exact .field h.symm

theorem mono (hts : ∀ id t, ts.get? id = some t → ts'.get? id = some t)
    (hus : ∀ id t, us.get? id = some t → us'.get? id = some t) (h : op.Alike ts us op') :
    op.Alike ts' us' op' := by
  cases h with
  | plain hop => exact .plain hop
  | field h => exact .field (h.mono hts hus)

theorem bare (h : op.Alike ts us op') : op.bare.Alike ts us op'.bare := by
  cases h with
  | plain hop =>
    cases op with
    | field => cases hop
    | _ => exact .plain rfl
  | field h => exact .field h

/-- An operand that is no field is like itself only. -/
theorem eq_of_plain (h : op.Alike ts us op') (hop : op.field? = none) : op' = op := by
  cases h with
  | plain => rfl
  | field => cases hop

theorem rightUnique (hus : us.Interned) : Relator.RightUnique (Alike ts us) := by
  intro op op₁ op₂ h h'
  cases h with
  | plain hop => exact (h'.eq_of_plain hop).symm
  | field h =>
    cases h' with
    | plain hop => cases hop
    | field h' => rw [BitField.Alike.rightUnique hus h h']

theorem biUnique (hts : ts.Interned) (hus : us.Interned) : Relator.BiUnique (Alike ts us) :=
  ⟨fun _ _ _ h h' => rightUnique hts h.symm h'.symm, rightUnique hus⟩

end Operand.Alike

/-! ## Encodings -/

namespace Segment.Alike

variable {s s' : Segment}

theorem symm (h : s.Alike ts us s') : s'.Alike us ts s := by
  cases h with
  | bits r => exact .bits r
  | field h => exact .field h.symm

theorem mono (hts : ∀ id t, ts.get? id = some t → ts'.get? id = some t)
    (hus : ∀ id t, us.get? id = some t → us'.get? id = some t) (h : s.Alike ts us s') :
    s.Alike ts' us' s' := by
  cases h with
  | bits r => exact .bits r
  | field h => exact .field (h.mono hts hus)

theorem width_eq (h : s.Alike ts us s') : s'.width = s.width := by
  cases h with
  | bits r => rfl
  | field h => exact h.width_eq

theorem literalBit?_eq (h : s.Alike ts us s') (i : Nat) : s'.literalBit? i = s.literalBit? i := by
  cases h <;> rfl

theorem rightUnique (hus : us.Interned) : Relator.RightUnique (Alike ts us) := by
  intro s s₁ s₂ h h'
  cases h with
  | bits r =>
    cases h'
    rfl
  | field h =>
    cases h' with
    | field h' => rw [BitField.Alike.rightUnique hus h h']

theorem biUnique (hts : ts.Interned) (hus : us.Interned) : Relator.BiUnique (Alike ts us) :=
  ⟨fun _ _ _ h h' => rightUnique hts h.symm h'.symm, rightUnique hus⟩

end Segment.Alike

namespace Encoding

/-- The segments are the same literal bits or alike fields, one by one. -/
abbrev Alike (ts us : Tables) : Encoding → Encoding → Prop :=
  List.Forall₂ (Segment.Alike ts us)

namespace Alike

variable {e e' : Encoding}

/-- The fields of encodings that are alike are so, one by one. -/
theorem fields (h : Alike ts us e e') :
    List.Forall₂ (BitField.Alike ts us) e.fields e'.fields := by
  refine List.rel_filterMap ?_ h
  intro s s' hs
  cases hs with
  | bits r => exact .none
  | field h => exact .some h

theorem width_eq (h : Alike ts us e e') : e'.width = e.width := by
  induction h with
  | nil => rfl
  | cons hs _ ih => rw [width, width, hs.width_eq, ih]

theorem literalValue_eq (h : Alike ts us e e') : e'.literalValue = e.literalValue := by
  induction h with
  | nil => rfl
  | cons hs hrest ih =>
    cases hs with
    | bits r => rw [literalValue, literalValue, ih, width_eq hrest]
    | field h => exact ih

/-- Encodings that are alike have the same literal bits. -/
theorem literalBit?_eq (h : Alike ts us e e') (i : Nat) : literalBit? e' i = literalBit? e i := by
  induction h with
  | nil => rfl
  | cons hs hrest ih =>
    rw [literalBit?, literalBit?, ih, width_eq hrest, hs.literalBit?_eq]

/-- Words agree with both of two encodings that are alike, or with neither. -/
theorem agrees_eq (h : Alike ts us e e') (word : Int) : e'.agrees word = e.agrees word := by
  rw [Bool.eq_iff_iff, agrees_iff, agrees_iff, h.width_eq]
  simp only [h.literalBit?_eq]

/-- Where one encoding has no fields the other has none. -/
theorem clearOf (h : Alike ts us e e') {lo hi : Nat} (hc : e.ClearOf lo hi) :
    e'.ClearOf lo hi := by
  intro g hg
  rcases exists_of_mem_right h.fields hg with ⟨f, hf, hfg⟩
  rw [hfg.lo_eq, hfg.hi_eq]
  exact hc f hf

theorem symm (h : Alike ts us e e') : Alike us ts e' e :=
  h.flip.imp fun _ _ hs => hs.symm

theorem isLiteral_iff (h : Alike ts us e e') (lo hi : Nat) :
    e'.IsLiteral lo hi ↔ e.IsLiteral lo hi := by
  rw [IsLiteral, IsLiteral, h.width_eq]
  exact and_congr_right fun _ => ⟨h.symm.clearOf, h.clearOf⟩

/-! ### Opening -/

theorem above (h : Alike ts us e e') (k : Nat) : Alike ts us (e.above k) (e'.above k) := by
  induction h with
  | nil => exact .nil
  | cons hs hrest ih =>
    unfold Encoding.above
    simp only [width_eq hrest]
    split
    · exact .cons hs ih
    · cases hs with
      | bits r =>
        dsimp only
        split
        · exact .cons (.bits _) .nil
        · exact .nil
      | field => exact .nil

theorem below (h : Alike ts us e e') (k : Nat) : Alike ts us (e.below k) (e'.below k) := by
  induction h with
  | nil => exact .nil
  | cons hs hrest ih =>
    have hwidth := width_eq hrest
    unfold Encoding.below
    simp only [hwidth, hs.width_eq]
    split
    · split
      · exact .cons hs hrest
      · cases hs with
        | bits r => exact .cons (.bits _) hrest
        | field => exact hrest
    · exact ih

/-- Opening fields that are alike keeps encodings alike. -/
theorem opened (h : Alike ts us e e') {f f' : BitField} (hf : f.Alike ts us f') :
    Alike ts us (e.opened f) (e'.opened f') := by
  rw [Encoding.opened, Encoding.opened, hf.lo_eq, hf.hi_eq]
  exact List.rel_append (h.above _) (.cons (.field hf) (h.below _))

/-- Which words agree after opening a field does not depend on its table. -/
theorem agrees_opened (h : Alike ts us e e') (hp : e.Placed) (hp' : e'.Placed) {f : BitField}
    (hf : e.IsLiteral f.lo f.hi) (word : Int) :
    (e'.opened f).agrees word = (e.opened f).agrees word := by
  have hf' : e'.IsLiteral f.lo f.hi := (h.isLiteral_iff _ _).2 hf
  rw [Bool.eq_iff_iff, agrees_iff, agrees_iff, width_opened hp hf, width_opened hp' hf', h.width_eq]
  simp only [literalBit?_opened hp hf, literalBit?_opened hp' hf', h.literalBit?_eq]

end Alike

end Encoding

/-! ## Patterns -/

/-- Positions in the source stay in their order. -/
def KeepsOrder (g : Int → Int) : Prop :=
  ∀ i j, i < j → g i < g j

namespace KeepsOrder

theorem refl : KeepsOrder id :=
  fun _ _ h => h

theorem lt_iff {g : Int → Int} (h : KeepsOrder g) {i j : Int} : g i < g j ↔ i < j := by
  refine ⟨fun hlt => ?_, h i j⟩
  rcases Int.lt_trichotomy i j with hij | rfl | hij
  · exact hij
  · exact absurd hlt (Int.lt_irrefl _)
  · exact absurd hlt (Int.lt_asymm (h j i hij))

theorem eq_iff {g : Int → Int} (h : KeepsOrder g) {i j : Int} : g i = g j ↔ i = j := by
  refine ⟨fun heq => ?_, congrArg g⟩
  rcases Int.lt_trichotomy i j with hij | hij | hij
  · exact absurd heq (Int.ne_of_lt (h i j hij))
  · exact hij
  · exact absurd heq.symm (Int.ne_of_lt (h j i hij))

end KeepsOrder

namespace Pattern

/-- Changes the position in the source. -/
def reindex (g : Int → Int) (p : Pattern) : Pattern :=
  { p with index := g p.index }

/-- The second pattern is the first at a changed position, up to alike fields. -/
abbrev Twin (g : Int → Int) (ts us : Tables) (p q : Pattern) : Prop :=
  (p.reindex g).Alike ts us q

namespace Twin

variable {g : Int → Int} {p q p' q' : Pattern}

theorem mono (hts : ∀ id t, ts.get? id = some t → ts'.get? id = some t)
    (hus : ∀ id t, us.get? id = some t → us'.get? id = some t) (h : p.Twin g ts us q) :
    p.Twin g ts' us' q where
  mnemonic := h.mnemonic
  operands := h.operands.imp fun _ _ hop => hop.mono hts hus
  encoding := h.encoding.imp fun _ _ hs => hs.mono hts hus
  index := h.index
  examples := h.examples

/-- Twins have encodings that are alike. -/
theorem encoding_alike (h : p.Twin g ts us q) : Encoding.Alike ts us p.encoding q.encoding :=
  h.encoding

theorem width_eq (h : p.Twin g ts us q) : q.width = p.width :=
  h.encoding_alike.width_eq

theorem literalValue_eq (h : p.Twin g ts us q) :
    q.encoding.literalValue = p.encoding.literalValue :=
  h.encoding_alike.literalValue_eq

/-- Twins have operands that are alike, spelling apart. -/
theorem operands_bare (h : p.Twin g ts us q) :
    List.Forall₂ (Operand.Alike ts us) (p.operands.map Operand.bare)
      (q.operands.map Operand.bare) :=
  List.rel_map (fun _ _ hop => hop.bare) h.operands

/-- Operands in one place are alike. -/
theorem getElem?_operands (h : p.Twin g ts us q) (i : Nat) :
    Option.Rel (Operand.Alike ts us) p.operands[i]? q.operands[i]? :=
  getElem?_rel h.operands i

/-- Twins of repeats are repeats, and twins of different patterns are different. -/
theorem identity_eq_iff (hts : ts.Interned) (hus : us.Interned) (h : p.Twin g ts us q)
    (h' : p'.Twin g ts us q') : p.identity = p'.identity ↔ q.identity = q'.identity := by
  have hops := Relator.rel_eq ((Operand.Alike.biUnique hts hus).forall₂)
    h.operands_bare h'.operands_bare
  have henc := Relator.rel_eq ((Segment.Alike.biUnique hts hus).forall₂) h.encoding h'.encoding
  have hmn : q.mnemonic = p.mnemonic := h.mnemonic
  have hmn' : q'.mnemonic = p'.mnemonic := h'.mnemonic
  simp only [identity, Identity.mk.injEq, hmn, hmn']
  exact and_congr_right fun _ => and_congr hops henc

/-- Opening fields that are alike keeps twins twins. -/
theorem generalize (h : p.Twin g ts us q) {f f' : BitField} (hf : f.Alike ts us f')
    {position position' : Nat} (hposition : position' = position)
    {hlit : p.encoding.IsLiteral f.lo f.hi} {hlit' : q.encoding.IsLiteral f'.lo f'.hi}
    {examples examples' : List Example} (hex : examples' = examples) :
    (p.generalize position f hlit examples).Twin g ts us
      (q.generalize position' f' hlit' examples') where
  mnemonic := h.mnemonic
  operands := hposition ▸ forall₂_set h.operands (.field hf) position
  encoding := h.encoding_alike.opened hf
  index := h.index
  examples := hex

end Twin

end Pattern

end SleighForge
