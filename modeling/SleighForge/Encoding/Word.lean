import SleighForge.Encoding.Basic

/-!
# Words of an encoding

An encoding stands for the words that arise when its fields take values. The literal bits give a
mask and a value that decide which words those are; `encode` builds a word from field values and
`decode` reads them back.
-/

namespace SleighForge

/-- Why field values give no word. -/
inductive EncodeFault where
  /-- A field has no value. -/
  | missing (field : String)
  /-- A value is negative or needs more bits than its field has. -/
  | tooWide (field : String) (value : Int)
  deriving DecidableEq, Repr

/-- The message; for a missing value it is the name of the field. -/
def EncodeFault.message : EncodeFault → String
  | missing name => name
  | tooWide name value => s!"value {value} does not fit field {name}"

namespace Encoding

/-- The mask of the literal bits. -/
def literalMask : Encoding → Nat
  | [] => 0
  | .bits r :: rest => 2 ^ width rest * (2 ^ r.width - 1) + literalMask rest
  | .field _ :: rest => literalMask rest

/-- The literal bits in place, with zeros for the fields. -/
def literalValue : Encoding → Nat
  | [] => 0
  | .bits r :: rest => 2 ^ width rest * r.value + literalValue rest
  | .field _ :: rest => literalValue rest

/-- The lowest bits of the word agree with the literal bits. -/
def agrees (e : Encoding) (word : Int) : Bool :=
  (bitSlice word 0 (width e) &&& literalMask e) == literalValue e

/-- The word is made by some values of the fields. -/
def accepts (e : Encoding) (word : Int) : Bool :=
  0 ≤ word && word < 2 ^ width e && agrees e word

/-- The word in which the fields have the values listed under their names. -/
def encode (values : List (String × Int)) : Encoding → Except EncodeFault Nat
  | [] => .ok 0
  | .bits r :: rest => do
    return 2 ^ width rest * r.value + (← encode values rest)
  | .field f :: rest =>
    match values.lookup f.name with
    | none => .error (.missing f.name)
    | some v =>
      if 0 ≤ v ∧ v < 2 ^ f.width then do
        return 2 ^ width rest * v.toNat + (← encode values rest)
      else .error (.tooWide f.name v)

/-- The values of the fields in a word, under their names. -/
def decode (e : Encoding) (word : Int) : List (String × Nat) :=
  (fields e).map fun f => (f.name, f.extract word)

end Encoding

end SleighForge
