import Mathlib.Data.List.Perm.Basic
import SleighForge.Proofs.Model.UsedRegisters
import SleighForge.Proofs.Specification.Document

/-!
# Closed specifications

The specification of a job that succeeds uses what it declares (`specification_closed`). Its text is
that of a document whose constructors are those of the patterns. Fields are declared in the token of
the width of the constructors that use them, each field that selects from a table is in one
statement, which attaches the registers of the table, and registers are defined that operands or
statements name.
-/

namespace SleighForge

theorem TokenField.table?_eq_some_iff {f : TokenField} {id : Int} :
    f.table? = some id ↔ f.role = .register id := by
  unfold table?
  cases f.role with
  | opcode | immediate => simp
  | register table => simp

namespace Specification

open Document (TokenBlock Attachment)

/-- The block declares the field of a region under its name and with its bits, which lie in the
word. -/
structure Declares (b : TokenBlock) (r : Region) : Prop where
  line : ∃ f ∈ b.fields, f.name = r.field.name ∧ f.lowest = r.field.lo ∧
    f.highest + 1 = r.field.hi ∧ (f.manner = " signed" ↔ r.field.role = .immediate true)
  nonempty : r.field.lo < r.field.hi
  within : r.field.hi ≤ b.width

/-- The statement attaches a table: to fields that select from it, for each value the register, or
an underscore where there is none. -/
structure Attaches (m : Model) (t : RegisterTable) (a : Attachment) : Prop where
  comment : a.comment = t.name
  fields : ∀ name ∈ a.fields, ∃ x ∈ m.patterns.zip m.layouts, ∃ r ∈ x.2.regions,
    r.field.name = name ∧ r.field.role = .register t.id
  length : a.registers.length = 2 ^ t.selectorWidth
  registers : ∀ i < 2 ^ t.selectorWidth, a.registers[i]? = some ((t.registers[i]?.join).getD "_")

/-- What the document of a model uses it declares, and it declares each name once. -/
structure Closed (m : Model) (d : Document) : Prop where
  /-- What stands before the declarations is that of the configuration. -/
  header : d.name = m.config.name ∧ d.family = m.config.family ∧
    d.byteOrder = m.config.byteOrder.name ∧ d.alignment = m.config.alignment ∧
    d.addressBytes = m.config.addressBytes
  /-- There is one token for a width, and it is long enough. -/
  widths : (d.tokens.map TokenBlock.width).Nodup
  padded : ∀ b ∈ d.tokens, b.width ≤ b.bits ∧ b.bits = byteCount b.width * 8
  /-- The constructors are those of the patterns. -/
  constructors : List.Forall₂ (fun x k => ConstructorOf x.1 x.2 k) (m.patterns.zip m.layouts)
    d.constructors
  /-- The fields that a constructor uses are those of its regions, and are declared in the token of
  its width. -/
  declared : List.Forall₂ (fun x k => ∃ b ∈ d.tokens, b.width = x.1.width ∧
    (∀ r ∈ x.2.regions, Declares b r) ∧ ∀ name ∈ k.uses, ∃ r ∈ x.2.regions, r.field.name = name)
    (m.patterns.zip m.layouts) d.constructors
  names : ((d.tokens.flatMap TokenBlock.fields).map Document.Field.name).Nodup
  /-- A name stands for one slice, for one content, and for words of one width. -/
  one : ∀ x ∈ m.patterns.zip m.layouts, ∀ x' ∈ m.patterns.zip m.layouts, ∀ r ∈ x.2.regions,
    ∀ r' ∈ x'.2.regions, r.field.name = r'.field.name →
      r.field = r'.field ∧ x.1.width = x'.1.width
  /-- A field that selects from a table is in one statement, that of the table, which has a register
  for each value of the field. -/
  attached : ∀ x ∈ m.patterns.zip m.layouts, ∀ r ∈ x.2.regions, ∀ id, r.field.role = .register id →
    ∃ t ∈ m.tables.toList, t.id = id ∧ t.selectorWidth = r.field.width ∧
      ∃ a ∈ d.attachments, Attaches m t a ∧ r.field.name ∈ a.fields ∧
        (d.attachments.flatMap Attachment.fields).count r.field.name = 1
  /-- There are no other statements, and their registers are defined. -/
  statements : ∀ a ∈ d.attachments, ∃ t ∈ m.tables.toList, Attaches m t a ∧ a.fields ≠ [] ∧
    ∀ name, some name ∈ t.registers → name ∈ d.registers
  registers : d.registers.Nodup
  /-- The registers among the operands are defined, and two more. -/
  operands : ∀ p ∈ m.patterns, ∀ name, .register name ∈ p.operands → name ∈ d.registers
  pointers : programCounter ∈ d.registers ∧ stackPointer ∈ d.registers

/-! ## Laid out models -/

section

variable {m : Model}

/-- A field that selects from a table is that of a field among the operands, and as wide as the
table asks for. -/
theorem exists_operand_of_register (h : m.LaidOut) (hready : m.Ready) {f : TokenField}
    (hf : f ∈ m.tokens.flatMap Token.fields) {id : Int} (hrole : f.role = .register id) :
    ∃ p ∈ m.patterns, ∃ g, .field g ∈ p.operands ∧ g.kind = .register id ∧
      ∃ t, m.tables.get? id = some t ∧ t.selectorWidth = f.width := by
  obtain ⟨width, r, ⟨x, hx, -, hr⟩, rfl⟩ := h.mem_fields.1 hf
  have hp : x.1 ∈ m.patterns := (List.of_mem_zip hx).1
  obtain ⟨g, hg, rfl, hkind⟩ := Layout.exists_field_of_register (h.ofPattern hx) hr hrole
  obtain ⟨t, ht, hwidth, -⟩ := hready.sound.hasTable x.1 hp g hg id hkind
  exact ⟨x.1, hp, g, hready.displayed x.1 hp g hg, hkind, t, ht, hwidth⟩

/-- A token is long enough for its words. -/
theorem le_byteSize (t : Token) : t.width ≤ t.byteSize * 8 := by
  unfold Token.byteSize byteCount
  omega

/-- Fields for numbers with a sign are declared so, and no others. -/
theorem signed_iff (f : TokenField) : fieldAttribute f = " signed" ↔ f.role = .immediate true := by
  unfold fieldAttribute
  split
  · next h => simp [h]
  · next h => simp [h]
  · next hsigned hhex =>
    refine iff_of_false (by decide) ?_
    exact hsigned

/-! ## Tokens -/

/-- No region is left out of the token for its width. -/
theorem declares_block (h : m.LaidOut) {width : Nat} {r : Region} (hr : m.HasRegion width r) :
    Declares (block (m.tokenOf m.layouts width)) r := by
  obtain ⟨hlt, hle⟩ := h.within hr
  refine ⟨⟨declaration r.field, ?_, rfl, rfl, ?_, signed_iff r.field⟩, hlt, hle⟩
  · exact mem_fields_block.2 ⟨r.field, h.mem_fields_tokenOf.2 ⟨r, hr, rfl⟩, rfl⟩
  · exact Nat.sub_add_cancel (Nat.one_le_of_lt hlt)

/-- Sorting its fields leaves a token with the same names. -/
theorem perm_names (tokens : List Token) :
    (((tokens.map block).flatMap TokenBlock.fields).map Document.Field.name).Perm
      ((tokens.flatMap Token.fields).map TokenField.name) := by
  rw [List.flatMap_map, List.map_flatMap, List.map_flatMap]
  refine List.Perm.flatMap_left tokens fun t _ => ?_
  have hnames : (block t).fields.map Document.Field.name =
      (t.fields.mergeSort fieldLe).map TokenField.name := List.map_map
  rw [hnames]
  exact (List.mergeSort_perm _ _).map _

/-! ## Statements -/

/-- The statement of a table attaches it. -/
theorem attaches_of_attachment? (h : m.LaidOut) {t : RegisterTable} {a : Attachment}
    (ha : attachment? m t = some a) : Attaches m t a := by
  obtain ⟨-, rfl⟩ := attachment?_eq_some_iff.1 ha
  refine ⟨rfl, ?_, length_paddedRegisters t, fun i hi => getElem?_paddedRegisters t hi⟩
  intro name hname
  obtain ⟨f, hf, htable, rfl⟩ := mem_fieldsOfTable.1 (List.mem_mergeSort.1 hname)
  obtain ⟨_, r, ⟨x, hx, -, hr⟩, rfl⟩ := h.mem_fields.1 hf
  exact ⟨x, hx, r, hr, rfl, TokenField.table?_eq_some_iff.1 htable⟩

/-- The statements have the fields of the tables, each as often as these. -/
theorem perm_attached (m : Model) (tables : List RegisterTable) :
    ((tables.filterMap (attachment? m)).flatMap Attachment.fields).Perm
      (tables.flatMap fun t => fieldsOfTable m t.id) := by
  rw [List.filterMap_eq_flatMap_toList, List.flatMap_assoc]
  refine List.Perm.flatMap_left tables fun t _ => ?_
  unfold attachment?
  by_cases hnames : fieldsOfTable m t.id = []
  · rw [if_pos hnames, hnames]
    exact .nil
  · rw [if_neg hnames, Option.toList_some, List.flatMap_singleton]
    exact List.mergeSort_perm _ _

/-- The registers of a table with a field are in use. -/
theorem mem_usedRegisters_of_attachment? (h : m.LaidOut) (hready : m.Ready) {t : RegisterTable}
    (ht : t ∈ m.tables.toList) {a : Attachment} (ha : attachment? m t = some a) {name : String}
    (hname : some name ∈ t.registers) : name ∈ m.usedRegisters := by
  obtain ⟨hsome, -⟩ := attachment?_eq_some_iff.1 ha
  obtain ⟨shown, hshown⟩ := List.exists_mem_of_ne_nil _ hsome
  obtain ⟨f, hf, htable, -⟩ := mem_fieldsOfTable.1 hshown
  obtain ⟨p, hp, g, hop, hkind, -⟩ := exists_operand_of_register h hready hf
    (TokenField.table?_eq_some_iff.1 htable)
  exact Model.mem_usedRegisters.2 ⟨p, hp, .field g, hop, t.id, t, hkind,
    Tables.mem_toList.1 ht, RegisterTable.mem_members.2 hname⟩

/-! ## The document of a model -/

/-- The document of a model, but for its constructors. -/
def documentOf (m : Model) (constructors : List Document.Constructor) : Document where
  name := m.config.name
  family := m.config.family
  byteOrder := m.config.byteOrder.name
  alignment := m.config.alignment
  addressBytes := m.config.addressBytes
  registers := declaredRegisters m
  tokens := m.tokens.map block
  attachments := m.tables.toList.filterMap (attachment? m)
  constructors := constructors

variable {constructors : List Document.Constructor}

/-- The sections of the text follow each other. -/
theorem render_eq (h : List.Forall₂ (fun x k => constructorLines m.config x.1 x.2 = .ok k.lines)
    (m.patterns.zip m.layouts) constructors) :
    render m = .ok (documentOf m constructors).text := by
  have hmap : (m.patterns.zip m.layouts).mapM
      (fun x : Pattern × Layout => constructorLines m.config x.1 x.2) =
        .ok (constructors.map Document.Constructor.lines) :=
    mapM_eq_ok_iff.2 (List.forall₂_map_right_iff.2 h)
  have htokens : m.tokens.flatMap tokenLines = (m.tokens.map block).flatMap TokenBlock.lines := by
    rw [List.flatMap_map, funext tokenLines_eq]
  have hattach : m.tables.toList.flatMap (attachLines m) =
      (m.tables.toList.filterMap (attachment? m)).flatMap Attachment.lines := by
    rw [List.filterMap_eq_flatMap_toList, List.flatMap_assoc, funext (attachLines_eq m)]
  have hsection : attachSection m = (documentOf m constructors).attachmentLines := by
    rw [attachSection, Document.attachmentLines, hattach]
    rfl
  -- The constructors are the one part of the text that can fail; the sections follow in order.
  show Except.bind ((m.patterns.zip m.layouts).mapM
    fun x : Pattern × Layout => constructorLines m.config x.1 x.2) _ = _
  rw [hmap, Document.text, ← hsection]
  show Except.ok ("\n".intercalate (headerLines m ++ m.tokens.flatMap tokenLines ++
    attachSection m ++ (constructors.map Document.Constructor.lines).flatten)) = _
  rw [htokens, ← List.flatMap_def]
  rfl

/-- Every pattern of a laid out model has its constructor. -/
theorem exists_constructors (h : m.LaidOut) (hready : m.Ready) :
    ∃ constructors : List Document.Constructor,
      List.Forall₂ (fun x k => ConstructorOf x.1 x.2 k) (m.patterns.zip m.layouts) constructors ∧
      List.Forall₂ (fun x k => constructorLines m.config x.1 x.2 = .ok k.lines)
        (m.patterns.zip m.layouts) constructors := by
  have heach : ∀ x ∈ m.patterns.zip m.layouts, ∃ k : Document.Constructor,
      ConstructorOf x.1 x.2 k ∧ constructorLines m.config x.1 x.2 = .ok k.lines := by
    intro x hx
    exact exists_constructor m.config (h.ofPattern hx)
      (hready.sound.named x.1 (List.of_mem_zip hx).1)
  obtain ⟨constructors, hall⟩ := exists_forall₂ heach
  exact ⟨constructors, hall.imp fun _ _ hk => hk.1, hall.imp fun _ _ hk => hk.2⟩

/-- A model that was laid out has a closed document. -/
theorem closed_of_laidOut (h : m.LaidOut) (hready : m.Ready)
    (hall : List.Forall₂ (fun x k => ConstructorOf x.1 x.2 k) (m.patterns.zip m.layouts)
      constructors) : Closed m (documentOf m constructors) where
  header := ⟨rfl, rfl, rfl, rfl, rfl⟩
  widths := by
    have hwidths : (m.tokens.map block).map TokenBlock.width = m.widths := by
      rw [h.tokens, List.map_map, List.map_map]
      exact List.map_id _
    show ((m.tokens.map block).map TokenBlock.width).Nodup
    rw [hwidths]
    exact m.nodup_widths
  padded := by
    intro b hb
    obtain ⟨t, -, rfl⟩ := List.mem_map.1 hb
    exact ⟨le_byteSize t, rfl⟩
  constructors := hall
  declared := by
    refine ((List.forall₂_and_left _ _).2 ⟨fun x hx => hx, hall⟩).imp ?_
    rintro x k ⟨hx, hk⟩
    have hwidth : x.1.width ∈ m.widths :=
      Model.mem_widths.2 ⟨x.1, (List.of_mem_zip hx).1, rfl⟩
    -- The block of a constructor is the token of its width, which some pattern has.
    have htoken : m.tokenOf m.layouts x.1.width ∈ m.tokens := by
      rw [h.tokens]
      exact List.mem_map_of_mem hwidth
    refine ⟨_, List.mem_map_of_mem htoken, rfl, ?_, fun _ => hk.exists_region⟩
    intro r hr
    exact declares_block h ⟨x, hx, rfl, hr⟩
  names := (perm_names m.tokens).nodup_iff.2 h.nodup_names
  one := by
    intro x hx x' hx' r hr r' hr' hname
    exact h.eq_of_name_eq ⟨x, hx, rfl, hr⟩ ⟨x', hx', rfl, hr'⟩ hname
  attached := by
    intro x hx r hr id hrole
    have hf : r.field ∈ m.tokens.flatMap Token.fields :=
      h.mem_fields.2 ⟨_, r, ⟨x, hx, rfl, hr⟩, rfl⟩
    -- A register field of a token comes from an operand, and readiness finds its table.
    obtain ⟨p, -, g, -, -, t, ht, hwidth⟩ := exists_operand_of_register h hready hf hrole
    have hid := Tables.id_of_get? ht
    rw [← hid] at ht hrole
    have hmem := Tables.mem_toList.2 ht
    obtain ⟨hin, hcount⟩ := count_fieldsOfTable h hf (TokenField.table?_eq_some_iff.2 hrole) hmem
    have ha := attachment?_eq_some_iff.2 ⟨List.ne_nil_of_mem hin, rfl⟩
    refine ⟨t, hmem, hid, hwidth, _, List.mem_filterMap.2 ⟨t, hmem, ha⟩,
      attaches_of_attachment? h ha, List.mem_mergeSort.2 hin, ?_⟩
    -- The sections are an arrangement of the fields attached, so counting in either is the same.
    rw [← hcount]
    exact (perm_attached m m.tables.toList).count_eq _
  statements := by
    intro a ha
    obtain ⟨t, ht, hsome⟩ := List.mem_filterMap.1 ha
    refine ⟨t, ht, attaches_of_attachment? h hsome, ?_, ?_⟩
    · obtain ⟨hne, rfl⟩ := attachment?_eq_some_iff.1 hsome
      obtain ⟨name, hname⟩ := List.exists_mem_of_ne_nil _ hne
      exact List.ne_nil_of_mem (List.mem_mergeSort.2 hname)
    · intro name hname
      exact mem_distinct.2 (List.mem_append_left _
        (mem_usedRegisters_of_attachment? h hready ht hsome hname))
  registers := nodup_distinct _
  operands := by
    intro p hp name hop
    refine mem_distinct.2 (List.mem_append_left _ ?_)
    exact Model.mem_usedRegisters.2 ⟨p, hp, .register name, hop, rfl⟩
  pointers := by
    constructor
    · exact mem_distinct.2 (List.mem_append_right _ (List.mem_cons_self ..))
    · exact mem_distinct.2 (List.mem_append_right _ (List.mem_cons_of_mem _ (List.mem_cons_self ..)))

end

end Specification

open Specification in
/-- A job that succeeds leaves a model with one layout for each pattern, and its specification can
be written. The text is that of a document, and the document is closed. -/
theorem specification_closed (job : Job) (lines : List String) (c : Collector) (m : Model)
    (stats : List PassStats) (hbuild : (job.build lines c).result = .ok (m, stats)) :
    m.layouts.length = m.patterns.length ∧
    ∃ d : Document, render m = .ok d.text ∧ Closed m d := by
  obtain ⟨m₀, hready₀, hlay⟩ := Job.exists_layOut_of_build hbuild
  have hlaid := Model.laidOut_of_layOut hlay
  have hready : m.Ready := by
    obtain ⟨layouts, journal, -, rfl⟩ := Stage.layOut_inv hlay
    exact ⟨hready₀.sound, hready₀.displayed, hready₀.known⟩
  obtain ⟨constructors, hall, hlines⟩ := exists_constructors hlaid hready
  exact ⟨hlaid.layouts.length_eq.symm, _, render_eq hlines, closed_of_laidOut hlaid hready hall⟩

/-- A list for examples: one more register than a selector of one bit can tell. -/
def selectedMoves : List String :=
  ["00010000 MOV r0", "00010001 MOV r1", "00010010 MOV r2"]

/-- The fourth value of the field has no register. -/
theorem specification_closed_moves : ∃ m stats, ∃ d : Document,
    (byteJob.build selectedMoves {}).result = .ok (m, stats) ∧
    Specification.render m = .ok d.text ∧ Specification.Closed m d ∧
    m.tables.toList.map Specification.paddedRegisters = [["r0", "r1", "r2", "_"]] := by
  have htables : (byteJob.build selectedMoves {}).result.toOption.map
      (fun built => built.1.tables.toList.map Specification.paddedRegisters) =
      some [["r0", "r1", "r2", "_"]] := by decide +kernel
  cases hbuild : (byteJob.build selectedMoves {}).result with
  | error fault =>
    rw [hbuild] at htables
    cases htables
  | ok built =>
    rw [hbuild] at htables
    rcases built with ⟨m, stats⟩
    obtain ⟨-, d, htext, hclosed⟩ :=
      specification_closed byteJob selectedMoves {} m stats hbuild
    exact ⟨m, stats, d, rfl, htext, hclosed, Option.some.inj htables⟩

end SleighForge
