import SleighForge.Layout.Fault
import SleighForge.Pattern
import SleighForge.RegisterTable
import SleighForge.Token

/-!
# Layouts

The layout of a pattern cuts its words into regions from the most significant bit down. Each
operand field is a region, and so is each maximal run of literal bits, which has to have a certain
value.
-/

namespace SleighForge

/-- What the bits of a region are. -/
inductive RegionContent where
  /-- Literal bits, as a number. -/
  | opcode (value : Nat)
  | operand (f : BitField)
  deriving DecidableEq, Repr

/-- A part of a layout. -/
structure Region where
  field : TokenField
  content : RegionContent
  deriving DecidableEq, Repr

namespace Region

/-- The value that literal bits have. -/
def value? (r : Region) : Option Nat :=
  match r.content with
  | .opcode v => some v
  | .operand _ => none

/-- The operand field behind a region. -/
def operand? (r : Region) : Option BitField :=
  match r.content with
  | .opcode _ => none
  | .operand f => some f

end Region

/-- The regions of a pattern, the most significant first. -/
structure Layout where
  /-- The name of the token. -/
  token : String
  regions : List Region
  deriving DecidableEq, Repr

namespace Layout

/-- The token field of an operand field. -/
def tokenField? (l : Layout) (f : BitField) : Option TokenField :=
  (l.regions.find? (·.operand? = some f)).map Region.field

/-- The regions of literal bits. -/
def constraints (l : Layout) : List Region :=
  l.regions.filter (·.value?.isSome)

/-! ## Checks -/

/-- The slice of a field, for a fault. -/
def slice (f : BitField) : Int × Int :=
  (f.lo, f.hi)

/-- The lower slice first, and of two with one beginning the shorter. -/
def sliceLe (a b : BitField) : Bool :=
  a.lo < b.lo || (a.lo == b.lo && a.hi ≤ b.hi)

/-- The first two neighbours that share bits, in a list sorted by slice. -/
def overlap? : List BitField → Option (BitField × BitField)
  | a :: b :: rest => if b.lo < a.hi then some (a, b) else overlap? (b :: rest)
  | _ => none

/-- The fields that the operands name. -/
def namedFields (p : Pattern) : List BitField :=
  p.operands.filterMap Operand.field?

/-- The least of some names. -/
def leastName? (names : List String) : Option String :=
  names.foldl
    (fun least name =>
      match least with
      | some other => if name < other then some name else some other
      | none => some name)
    none

/-- The fields of the operands and of the encoding have no bits in common, and those of the
operands occur in the encoding. -/
def checkFields (p : Pattern) : Except LayoutCause Unit :=
  let fields := (distinct (p.fields ++ namedFields p)).mergeSort sliceLe
  match overlap? fields with
  | some (a, b) => .error (.overlap (slice a) (slice b))
  | none =>
    match leastName? (((namedFields p).filter (· ∉ p.fields)).map BitField.name) with
    | some name => .error (.unencoded name)
    | none => .ok ()

/-! ## Regions -/

/-- The region of a run of literal bits, which is none if the run is empty. Names begin with the
stem. -/
def opcodeRegion (stem : String) (lo value width : Nat) : List Region :=
  if width = 0 then []
  else [⟨⟨s!"{stem}op_{lo}_{width}", lo, lo + width, .opcode⟩, .opcode value⟩]

/-- The region of an operand field, whose slice is as wide as its register table asks for. -/
def operandRegion (tables : Tables) (stem : String) (f : BitField) : Except LayoutCause Region :=
  match f.kind with
  | .immediate => .ok ⟨⟨stem ++ f.name, f.lo, f.hi, .immediate f.signed⟩, .operand f⟩
  | .register table =>
    match tables.get? table with
    | none => .error (.missingTable f.name table)
    | some t =>
      if t.selectorWidth = f.width then
        .ok ⟨⟨stem ++ f.name, f.lo, f.hi, .register table⟩, .operand f⟩
      else .error (.widthMismatch (slice f) t.selectorWidth)

/-- The regions of an encoding below a run of literal bits that is still open. -/
def regionsBelow (tables : Tables) (stem : String) (value width : Nat) :
    Encoding → Except LayoutCause (List Region)
  | [] => .ok (opcodeRegion stem 0 value width)
  | .bits r :: rest =>
    regionsBelow tables stem (2 ^ r.width * value + r.value) (width + r.width) rest
  | .field f :: rest => do
    let region ← operandRegion tables stem f
    let below ← regionsBelow tables stem 0 0 rest
    return opcodeRegion stem (Encoding.width rest + f.width) value width ++ region :: below

/-- The layout of a pattern. -/
def ofPattern (tables : Tables) (stem : String) (p : Pattern) : Except LayoutFault Layout :=
  let regions? : Except LayoutCause (List Region) := do
    checkFields p
    regionsBelow tables stem 0 0 p.encoding
  match regions? with
  | .ok regions => .ok ⟨Token.nameOf p.width, regions⟩
  | .error cause => .error ⟨cause, some p.index, p.mnemonic⟩

end Layout

end SleighForge
