import SleighForge.Text.Blank

/-!
# Processor configuration

The settings of the target processor. `Settings` is what a caller asks for; `Config` is what has
been checked.
-/

namespace SleighForge

open Text

/-- The order of the bytes of an instruction word. -/
inductive ByteOrder where
  | big
  | little
  deriving DecidableEq, Repr

namespace ByteOrder

/-- The name of a byte order in settings and in the specification. -/
def name : ByteOrder → String
  | big => "big"
  | little => "little"

/-- The two-letter abbreviation used in language ids. -/
def abbreviation : ByteOrder → String
  | big => "BE"
  | little => "LE"

/-- The byte order of a name. -/
def ofName? (s : String) : Option ByteOrder :=
  if s = "big" then some big
  else if s = "little" then some little
  else none

end ByteOrder

/-- Settings as given, with the defaults for those that are not. -/
structure Settings where
  name : String := "MyProc"
  family : String := "MyProcFamily"
  endian : String := "big"
  alignment : Int := 1
  bitness : Int := 32
  omitOpcodes : Bool := false
  omitExamples : Bool := false

/-- Checked settings. -/
structure Config where
  name : String
  family : String
  byteOrder : ByteOrder
  /-- The alignment of instructions, in bytes. -/
  alignment : Nat
  /-- The width of an instruction word, in bits. -/
  bitness : Nat
  omitOpcodes : Bool
  omitExamples : Bool
  alignment_pos : 0 < alignment
  bitness_pos : 0 < bitness
  name_not_blank : strip name ≠ ""

/-- Why settings or register names are refused. -/
inductive ConfigFault where
  | endian (given : String)
  | alignment (given : Int)
  | bitness (given : Int)
  | blankName
  | registerName (given : String)
  deriving DecidableEq, Repr

/-- The message about settings. -/
def ConfigFault.message : ConfigFault → String
  | endian e => s!"processor endianness must be either big or little, got '{e}'"
  | alignment a => s!"alignment must be positive, got {a}"
  | bitness b => s!"bitness must be positive, got {b}"
  | blankName => "processor name must not be empty"
  | registerName n => s!"invalid register name '{n}'"

/-- The number of bytes that hold the given number of bits. -/
def byteCount (bits : Nat) : Nat :=
  (bits + 7) / 8

namespace Config

/-- Checks settings; the first fault in the order byte order, alignment, bitness, name is told. -/
def ofSettings (s : Settings) : Except ConfigFault Config :=
  match ByteOrder.ofName? s.endian with
  | none => .error (.endian s.endian)
  | some byteOrder =>
    if ha : 0 < s.alignment then
      if hb : 0 < s.bitness then
        if hn : strip s.name ≠ "" then
          .ok {
            name := s.name
            family := s.family
            byteOrder
            alignment := s.alignment.toNat
            bitness := s.bitness.toNat
            omitOpcodes := s.omitOpcodes
            omitExamples := s.omitExamples
            alignment_pos := by omega
            bitness_pos := by omega
            name_not_blank := hn }
        else .error .blankName
      else .error (.bitness s.bitness)
    else .error (.alignment s.alignment)

/-- The size of an address in bytes, at least two. -/
def addressBytes (c : Config) : Nat :=
  max 2 (byteCount c.bitness)

/-- The id of the language, from name, byte order and bitness. -/
def languageId (c : Config) : String :=
  s!"{c.name}:{c.byteOrder.abbreviation}:{c.bitness}:default"

end Config

end SleighForge
