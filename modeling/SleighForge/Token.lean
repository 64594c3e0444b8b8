import SleighForge.BitField
import SleighForge.Config
import SleighForge.Distinct

/-!
# Tokens

A token is the instruction word of one width, as the specification declares it, with the fields
that instructions of that width use. Fields of one name are one field.
-/

namespace SleighForge

/-- What a token field holds. -/
inductive TokenRole where
  /-- Literal bits. -/
  | opcode
  | immediate (signed : Bool)
  /-- A selector of the register table of this id. -/
  | register (table : Int)
  deriving DecidableEq, Repr

/-- A named slice `[lo, hi)` of a token. -/
structure TokenField where
  name : String
  lo : Nat
  hi : Nat
  role : TokenRole
  deriving DecidableEq, Repr

namespace TokenField

/-- The number of bits. -/
def width (f : TokenField) : Nat :=
  f.hi - f.lo

/-- The id of the register table of a selector. -/
def table? (f : TokenField) : Option Int :=
  match f.role with
  | .register table => some table
  | _ => none

end TokenField

/-- The instruction word of one width. -/
structure Token where
  width : Nat
  byteOrder : ByteOrder
  /-- The alignment of instructions, in bytes. -/
  alignment : Nat
  fields : List TokenField
  deriving DecidableEq, Repr

namespace Token

/-- The name of the token of a width. -/
def nameOf (width : Int) : String :=
  s!"instr{width}"

/-- The name of the token. -/
def name (t : Token) : String :=
  nameOf t.width

/-- The number of bytes that the token takes. -/
def byteSize (t : Token) : Nat :=
  byteCount t.width

/-- The token of a width with the first field of each name. -/
def ofFields (c : Config) (width : Nat) (fields : List TokenField) : Token :=
  ⟨width, c.byteOrder, c.alignment, distinctBy TokenField.name fields⟩

end Token

end SleighForge
