/-!
# Faults in layout

Why the fields of an instruction cannot be laid out. A fault names the instruction by its position
in the source and by its mnemonic, where it concerns one.
-/

namespace SleighForge

/-- What is wrong with the fields or the registers. -/
inductive LayoutCause where
  /-- Two fields, given by their slices, share bits. -/
  | overlap (first second : Int × Int)
  /-- A slice is not as wide as its register table asks for. -/
  | widthMismatch (slice : Int × Int) (required : Int)
  /-- A register, perhaps of a table, is not in the catalog. -/
  | unknownRegister (register : String) (table : Option String)
  /-- A field selects from a table that does not exist. -/
  | missingTable (field : String) (table : Int)
  /-- An operand is a field that the encoding does not have. -/
  | unencoded (field : String)
  /-- A cause in a caller's words. -/
  | described (text : String)
  deriving DecidableEq, Repr

/-- A slice of bits. -/
def sliceText (slice : Int × Int) : String :=
  s!"[{slice.1}, {slice.2})"

/-- The cause in words. -/
def LayoutCause.message : LayoutCause → String
  | overlap a b => s!"fields {sliceText a} and {sliceText b} overlap"
  | widthMismatch s required =>
    s!"field at bits {sliceText s} is {s.2 - s.1} bits wide but its register table needs {required}"
  | unknownRegister register none => s!"register '{register}' is not a known register"
  | unknownRegister register (some table) =>
    let place := if table.isEmpty then "" else s!" in table '{table}'"
    s!"register '{register}'{place} is not a known register"
  | missingTable field table => s!"field {field} references missing attach table {table}"
  | unencoded field => s!"operand {field} has no bits in the encoding"
  | described text => text

/-- A fault in layout and the instruction that shows it. -/
structure LayoutFault where
  cause : LayoutCause
  index : Option Int := none
  mnemonic : String := ""
  deriving DecidableEq, Repr

/-- The cause, after the instruction if there is one. -/
def LayoutFault.message (f : LayoutFault) : String :=
  match f.index with
  | some i => s!"instruction {i} '{f.mnemonic}': {f.cause.message}"
  | none => f.cause.message

end SleighForge
