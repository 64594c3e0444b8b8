import SleighForge.Proofs.Specification.Attachments
import SleighForge.Proofs.Specification.Display

/-!
# Documents

A specification as data: the registers that are defined, the tokens with the fields that they
declare, the statements that attach registers to fields, and the constructors with the fields that
they use. Each part says on which lines it is written, and says nothing about where it comes from.
What a specification is to be like can be stated about its document, and the text of a model that
was laid out is that of a document, part by part (`render_eq`).
-/

namespace SleighForge

namespace Document

/-! ## Parts -/

/-- The declaration of a field: its name, its lowest and its highest bit, and how it is shown. -/
structure Field where
  name : String
  lowest : Nat
  highest : Nat
  manner : String

def Field.line (f : Field) : String :=
  s!"  {f.name} = ({f.lowest}, {f.highest}){f.manner}"

/-- The declaration of the token for words of a width. -/
structure TokenBlock where
  width : Nat
  /-- The bits of the token, which may be more than the word has. -/
  bits : Nat
  fields : List Field

/-- The name of the token tells the width. -/
def TokenBlock.name (b : TokenBlock) : String :=
  s!"instr{b.width}"

def TokenBlock.lines (b : TokenBlock) : List String :=
  s!"define token {b.name} ({b.bits})" :: b.fields.map Field.line ++ [";", ""]

/-- The statement that attaches registers to fields, one for each value of the fields, after a
comment. -/
structure Attachment where
  comment : String
  fields : List String
  registers : List String

def Attachment.lines (a : Attachment) : List String :=
  let fields := " ".intercalate a.fields
  let registers := " ".intercalate a.registers
  [s!"# {a.comment}", s!"attach variables [ {fields} ] [ {registers} ];"]

/-- An item of a display section. -/
inductive Item where
  | field (name : String)
  | bare (mark : String)
  | quoted (text : String)

namespace Item

def text : Item → String
  | field name => name
  | bare mark => mark
  | quoted text => "\"" ++ text ++ "\""

/-- The field that the item names. -/
def field? : Item → Option String
  | field name => some name
  | bare _ => none
  | quoted _ => none

end Item

/-- The text of items with what stands before each. -/
def itemsText : List (String × Item) → String
  | [] => ""
  | x :: items => x.1 ++ x.2.text ++ itemsText items

/-- A constructor. -/
structure Constructor where
  comments : List String
  mnemonic : String
  /-- The items of the display section after the mnemonic, with what stands before each. -/
  items : List (String × Item)
  /-- The fields of the pattern section that have to have a value, and the value. -/
  constraints : List (String × Nat)
  /-- The fields of the pattern section that may have any value. -/
  operands : List String

namespace Constructor

def constraintText (x : String × Nat) : String :=
  x.1 ++ "=0x" ++ Text.hexText 0 x.2

def lines (k : Constructor) : List String :=
  let display := k.mnemonic ++ itemsText k.items
  let pattern := " & ".intercalate (k.constraints.map constraintText ++ k.operands)
  k.comments ++ [s!":{display} is {pattern}", "\x7b", "\x7d", ""]

/-- The fields that the constructor uses, in its pattern section and in its display section. -/
def uses (k : Constructor) : List String :=
  k.constraints.map Prod.fst ++ k.operands ++ k.items.filterMap fun x => x.2.field?

end Constructor

end Document

/-- A specification. -/
structure Document where
  name : String
  family : String
  byteOrder : String
  alignment : Nat
  addressBytes : Nat
  registers : List String
  tokens : List Document.TokenBlock
  attachments : List Document.Attachment
  constructors : List Document.Constructor

namespace Document

def headerLines (d : Document) : List String :=
  let registers := " ".intercalate d.registers
  [s!"# {d.name} ({d.family})",
   "# Generated by gpmg",
   "",
   s!"define endian={d.byteOrder};",
   s!"define alignment={d.alignment};",
   "",
   s!"define space ram type=ram_space size={d.addressBytes} default;",
   "define space register type=register_space size=4;",
   "",
   s!"define register offset=0x0000 size={d.addressBytes} [",
   s!"  {registers}",
   "];",
   ""]

/-- The statements, with an empty line after them if there are any. -/
def attachmentLines (d : Document) : List String :=
  match d.attachments.flatMap Attachment.lines with
  | [] => []
  | lines => lines ++ [""]

def text (d : Document) : String :=
  "\n".intercalate (d.headerLines ++ d.tokens.flatMap TokenBlock.lines ++ d.attachmentLines ++
    d.constructors.flatMap Constructor.lines)

end Document

namespace Specification

open Document (Item itemsText)

/-! ## Declarations -/

/-- A token field as it is declared. -/
def declaration (f : TokenField) : Document.Field :=
  ⟨f.name, f.lo, f.hi - 1, fieldAttribute f⟩

/-- A token as it is declared. -/
def block (t : Token) : Document.TokenBlock :=
  ⟨t.width, t.byteSize * 8, (t.fields.mergeSort fieldLe).map declaration⟩

/-- The lines of a token are those of its block. -/
theorem tokenLines_eq (t : Token) : tokenLines t = (block t).lines := by
  rw [tokenLines, Document.TokenBlock.lines, block, List.map_map]
  rfl

/-- A block declares the fields of its token. -/
theorem mem_fields_block {t : Token} {f : Document.Field} :
    f ∈ (block t).fields ↔ ∃ g ∈ t.fields, declaration g = f := by
  rw [block, List.mem_map]
  simp only [List.mem_mergeSort]

/-- The statement of a table, if it has fields. -/
def attachment? (m : Model) (t : RegisterTable) : Option Document.Attachment :=
  if fieldsOfTable m t.id = [] then none
  else some ⟨t.name, (fieldsOfTable m t.id).mergeSort fun a b => a ≤ b, paddedRegisters t⟩

/-- The lines of a table are those of its statement, if it has one. -/
theorem attachLines_eq (m : Model) (t : RegisterTable) :
    attachLines m t = (attachment? m t).toList.flatMap Document.Attachment.lines := by
  unfold attachLines attachment?
  cases hnames : fieldsOfTable m t.id with
  | nil => rfl
  | cons name names =>
    rw [if_neg (List.cons_ne_nil name names), Option.toList_some, List.flatMap_singleton]
    rfl

/-- A table has a statement if fields select from it. -/
theorem attachment?_eq_some_iff {m : Model} {t : RegisterTable} {a : Document.Attachment} :
    attachment? m t = some a ↔ fieldsOfTable m t.id ≠ [] ∧
      (⟨t.name, (fieldsOfTable m t.id).mergeSort fun a b => a ≤ b, paddedRegisters t⟩ :
        Document.Attachment) = a := by
  unfold attachment?
  by_cases hnames : fieldsOfTable m t.id = []
  · rw [if_pos hnames]
    exact iff_of_false nofun fun h => h.1 hnames
  · rw [if_neg hnames, Option.some.injEq, and_iff_right hnames]

/-! ## Constructors -/

/-- The item shows the operand: a field goes by the name of its region, which has the bits of the
field, a bare mark stands as it is, and everything else is quoted. -/
inductive ItemOf (l : Layout) : Operand → Item → Prop
  | field {f : BitField} {r : Region} (hr : r ∈ l.regions) (hoperand : r.operand? = some f)
    (hlo : r.field.lo = f.lo) (hhi : r.field.hi = f.hi) : ItemOf l (.field f) (.field r.field.name)
  | bare {s : String} (h : isBare s = true) : ItemOf l (.text s) (.bare s)
  | quoted {op : Operand} (h : op.field? = none) : ItemOf l op (.quoted (requoted op.display))

/-- The comment tells the opcode of the pattern, an example of it, or how many more there are. -/
inductive CommentOf (p : Pattern) : String → Prop
  | opcode : CommentOf p ("# opcode: " ++ p.encoding.text)
  | example {e : Example} (h : e ∈ p.examples) : CommentOf p ("# example: " ++ e.display)
  | more (hidden : Nat) : CommentOf p ("# ... " ++ toString hidden ++ " more")

/-- The constructor shows the operands of the pattern and constrains the regions of the layout. -/
structure ConstructorOf (p : Pattern) (l : Layout) (k : Document.Constructor) : Prop where
  comments : ∀ line ∈ k.comments, CommentOf p line
  mnemonic : k.mnemonic = p.mnemonic
  items : List.Forall₂ (fun op x => ItemOf l op x.2 ∧ x.1 ∈ ["", " ", "^"]) p.operands k.items
  constraints : k.constraints = l.regions.filterMap fun r => r.value?.map (r.field.name, ·)
  operands : k.operands = l.regions.filterMap fun r => r.operand?.map fun _ => r.field.name

/-- The fields that the constructor uses are those of the regions. -/
theorem ConstructorOf.exists_region {p : Pattern} {l : Layout} {k : Document.Constructor}
    (h : ConstructorOf p l k) {name : String} (hname : name ∈ k.uses) :
    ∃ r ∈ l.regions, r.field.name = name := by
  rw [Document.Constructor.uses, List.mem_append, List.mem_append] at hname
  rcases hname with (hname | hname) | hname
  · rw [h.constraints, List.map_filterMap] at hname
    obtain ⟨r, hr, heq⟩ := List.mem_filterMap.1 hname
    obtain ⟨_, hvalue, rfl⟩ := Option.map_eq_some_iff.1 heq
    obtain ⟨v, -, rfl⟩ := Option.map_eq_some_iff.1 hvalue
    exact ⟨r, hr, rfl⟩
  · rw [h.operands] at hname
    obtain ⟨r, hr, heq⟩ := List.mem_filterMap.1 hname
    obtain ⟨-, -, rfl⟩ := Option.map_eq_some_iff.1 heq
    exact ⟨r, hr, rfl⟩
  · -- An item that names a field is that of an operand, and names the field of its region.
    obtain ⟨⟨gap, item⟩, hx, hfield⟩ := List.mem_filterMap.1 hname
    obtain ⟨op, -, hitem, -⟩ := exists_of_mem_right h.items hx
    cases hitem with
    | field hr =>
      cases hfield
      exact ⟨_, hr, rfl⟩
    | bare hbare => cases hfield
    | quoted hnone => cases hfield

section

variable {l : Layout} {p : Pattern} {stem : String} {tables : Tables}

/-- Every operand has its item. -/
theorem exists_itemOf (h : Layout.ofPattern tables stem p = .ok l) {op : Operand}
    (hop : ∀ f, op = .field f → f ∈ p.fields) :
    ∃ item : Item, ItemOf l op item ∧ displayItem l op = .ok item.text := by
  have hshown : Shown l op := fun f hf => ⟨_, Layout.tokenField?_eq h (hop f hf)⟩
  obtain ⟨text, htext⟩ := displayItem_ok hshown
  rcases displayItem_cases htext with ⟨f, t, rfl, ht, rfl⟩ | ⟨rfl, hbare⟩ | ⟨hnone, rfl⟩
  · have hf := hop f rfl
    rw [Layout.tokenField?_eq h hf, Option.some.injEq] at ht
    subst ht
    exact ⟨_, .field (Layout.ofField_mem_regions h hf) rfl rfl rfl, htext⟩
  · exact ⟨_, .bare hbare, htext⟩
  · exact ⟨_, .quoted hnone, htext⟩

/-- There are three separators. -/
theorem separator_mem (previous op : Operand) (previousItem item : String) :
    separator previous op previousItem item ∈ ["", " ", "^"] := by
  rcases separator_cases previous op previousItem item with h | h | ⟨h, -⟩ <;> simp [h]

/-- The items of operands after an operand, by recursion on the operands as they are displayed. -/
theorem exists_itemsAfter {ops : List Operand}
    (h : ∀ op ∈ ops, ∃ item : Item, ItemOf l op item ∧ displayItem l op = .ok item.text)
    (previous : Operand) (previousItem : String) :
    ∃ items, displayAfter l previous previousItem ops = .ok (itemsText items) ∧
      List.Forall₂ (fun op x => ItemOf l op x.2 ∧ x.1 ∈ ["", " ", "^"]) ops items := by
  induction ops generalizing previous previousItem with
  | nil => exact ⟨[], rfl, .nil⟩
  | cons op ops ih =>
    obtain ⟨⟨item, hitem, htext⟩, hrest⟩ := List.forall_mem_cons.1 h
    obtain ⟨items, hafter, hitems⟩ := ih hrest op item.text
    exact ⟨(separator previous op previousItem item.text, item) :: items,
      displayAfter_cons htext hafter, .cons ⟨hitem, separator_mem ..⟩ hitems⟩

/-- The items of operands, the first of which comes after a space. -/
theorem exists_items {ops : List Operand}
    (h : ∀ op ∈ ops, ∃ item : Item, ItemOf l op item ∧ displayItem l op = .ok item.text) :
    ∃ items, displayOperands l ops = .ok (itemsText items) ∧
      List.Forall₂ (fun op x => ItemOf l op x.2 ∧ x.1 ∈ ["", " ", "^"]) ops items := by
  cases ops with
  | nil => exact ⟨[], rfl, .nil⟩
  | cons op ops =>
    obtain ⟨⟨item, hitem, htext⟩, hrest⟩ := List.forall_mem_cons.1 h
    obtain ⟨items, hafter, hitems⟩ := exists_itemsAfter hrest op item.text
    exact ⟨(" ", item) :: items, displayOperands_cons htext hafter,
      .cons ⟨hitem, by simp⟩ hitems⟩

/-- The pattern section has the regions with values first. -/
theorem constraintsText_eq (l : Layout) : constraintsText l =
    " & ".intercalate (((l.regions.filterMap fun r => r.value?.map (r.field.name, ·)).map
      Document.Constructor.constraintText) ++
        l.regions.filterMap fun r => r.operand?.map fun _ => r.field.name) := by
  rw [List.map_filterMap]
  simp only [Option.map_map]
  rfl

/-- The comments of a constructor are of the three kinds. -/
theorem commentOf {c : Config} {line : String} (h : line ∈ commentLines c p) :
    CommentOf p line := by
  unfold commentLines at h
  rcases List.mem_append.1 h with h | h
  · split at h
    · cases h
    · rw [List.mem_singleton.1 h]
      exact .opcode
  · split at h
    · cases h
    · rcases List.mem_append.1 h with h | h
      · obtain ⟨e, he, rfl⟩ := List.mem_map.1 h
        exact .example (List.mem_of_mem_take he)
      · split at h
        · cases h
        · rw [List.mem_singleton.1 h]
          exact .more (p.examples.length - maxExamples)

/-- The lines of a pattern are those of a constructor of it. -/
theorem exists_constructor (c : Config) (h : Layout.ofPattern tables stem p = .ok l)
    (hops : ∀ f, .field f ∈ p.operands → f ∈ p.fields) :
    ∃ k, ConstructorOf p l k ∧ constructorLines c p l = .ok k.lines := by
  have hitem : ∀ op ∈ p.operands,
      ∃ item : Item, ItemOf l op item ∧ displayItem l op = .ok item.text := by
    intro op hop
    refine exists_itemOf h ?_
    rintro f rfl
    exact hops f hop
  obtain ⟨items, hdisplay, hitems⟩ := exists_items hitem
  refine ⟨⟨commentLines c p, p.mnemonic, items, _, _⟩,
    ⟨fun _ => commentOf, rfl, hitems, rfl, rfl⟩, ?_⟩
  rw [constructorLines, displayText, hdisplay, constraintsText_eq]
  rfl

end

end Specification

end SleighForge
