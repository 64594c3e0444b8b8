import SleighForge.Config
import SleighForge.Distinct

/-!
# Register catalog

The names that are registers in operand text. Names are kept in lower case, in the order in which
they were first given; a name is looked up in any case. An extended catalog holds what the catalog
held and what was added, and nothing else (`mem_names_extend`).
-/

namespace SleighForge

open Text

/-- A letter in lower case, where that is a letter of ASCII. Apart from the ASCII letters only the
Kelvin sign has such a lower case. -/
def lowerChar (c : Char) : Char :=
  if c = '\u212A' then 'k' else c.toLower

/-- A text with its letters in lower case. -/
def lower (s : String) : String :=
  String.ofList (s.toList.map lowerChar)

/-- A character that a register name may begin with. -/
def isRegisterStart (c : Char) : Bool :=
  c.isAlpha || c == '_' || c == '.'

/-- A register name: ASCII letters, digits, underscores and dots, with no digit in front. -/
def isRegisterName (s : String) : Bool :=
  match s.toList with
  | [] => false
  | c :: cs => isRegisterStart c && cs.all fun c => isRegisterStart c || c.isDigit

/-- A name as the catalog keeps it. -/
def registerName (given : String) : Except ConfigFault String :=
  let name := strip given
  if isRegisterName name then .ok (lower name) else .error (.registerName name)

/-- The known register names. -/
structure Catalog where
  names : List String
  deriving DecidableEq, Repr

namespace Catalog

/-- Adds names after those of the catalog. -/
def extend (c : Catalog) (given : List String) : Except ConfigFault Catalog := do
  let more ← given.mapM registerName
  return ⟨distinct (c.names ++ more)⟩

/-- The catalog of the given names. -/
def ofNames (given : List String) : Except ConfigFault Catalog :=
  extend ⟨[]⟩ given

/-- The name as the catalog holds it. -/
def normalize? (c : Catalog) (name : String) : Option String :=
  if lower name ∈ c.names then some (lower name) else none

/-- The name is known, in any case. -/
def contains (c : Catalog) (name : String) : Bool :=
  (c.normalize? name).isSome

/-- A name is looked up in lower case. -/
theorem normalize?_eq_some_iff {c : Catalog} {name reg : String} :
    c.normalize? name = some reg ↔ lower name = reg ∧ reg ∈ c.names := by
  unfold normalize?
  split
  · next h => simp only [Option.some.injEq]; exact ⟨fun e => ⟨e, e ▸ h⟩, fun e => e.1⟩
  · next h => simp only [reduceCtorEq, false_iff]; rintro ⟨rfl, hm⟩; exact h hm

/-- An extended catalog has the names it had and those that were given. -/
theorem mem_names_extend {c d : Catalog} {given more : List String}
    (hm : given.mapM registerName = .ok more) (hd : c.extend given = .ok d) (name : String) :
    name ∈ d.names ↔ name ∈ c.names ∨ name ∈ more := by
  rw [extend, hm] at hd
  cases hd
  simp [mem_distinct]

/-! ## Registers of common processors -/

/-- The names made of a stem and the numbers from `first` on. -/
def numbered (stem : String) (first count : Nat) : List String :=
  (List.range count).map fun n => s!"{stem}{first + n}"

/-- Numbered registers. -/
def genericRegisters : List String :=
  numbered "r" 0 32 ++ numbered "x" 0 32

/-- Registers with a role of their own. -/
def specialRegisters : List String :=
  ["sp", "pc", "lr", "fp", "ip", "sr", "ccr", "psw", "flags", "acc",
   "zero", "ra", "gp", "tp", "hi", "lo", "ix", "iy", "usp", "ssp"]

/-- Names of the RISC-V and MIPS calling conventions. -/
def callingRegisters : List String :=
  numbered "a" 0 8 ++ numbered "s" 0 12 ++ numbered "t" 0 10 ++ numbered "v" 0 2
    ++ numbered "k" 0 2 ++ ["at"]

/-- Registers of the x86 processors. -/
def intelRegisters : List String :=
  ["al", "ah", "ax", "eax", "rax",
   "bl", "bh", "bx", "ebx", "rbx",
   "cl", "ch", "cx", "ecx", "rcx",
   "dl", "dh", "dx", "edx", "rdx",
   "sil", "si", "esi", "rsi",
   "dil", "di", "edi", "rdi",
   "spl", "esp", "rsp",
   "bpl", "bp", "ebp", "rbp",
   "eip", "rip",
   "cs", "ds", "es", "fs", "gs", "ss"]
    ++ (List.range 8).flatMap fun n => ["b", "w", "d"].map fun s => s!"r{n + 8}{s}"

/-- Registers of the ARM processors. -/
def armRegisters : List String :=
  numbered "w" 0 31 ++ ["xzr", "wzr", "cpsr", "spsr", "apsr"]

/-- Registers of the Z80, the 6502, the 6800 and the 8051. -/
def microRegisters : List String :=
  ["a", "b", "c", "d", "e", "f", "h", "l", "i", "r", "x", "y",
   "af", "bc", "de", "hl", "sph",
   "dptr", "p0", "p1", "p2", "p3"]

/-- The catalog in use where the caller gives none. -/
def common : Catalog :=
  ⟨distinct (genericRegisters ++ specialRegisters ++ callingRegisters ++ intelRegisters ++ armRegisters
    ++ microRegisters)⟩

end Catalog

end SleighForge
