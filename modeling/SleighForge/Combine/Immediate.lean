import SleighForge.Combine.Fault
import SleighForge.Pattern

/-!
# Merging over a number

Instructions that differ in one number are merged into a pattern with an immediate field. The field
is the narrowest window of literal bits that covers all bits in which the instructions differ and
holds the number of each; of the windows of one width the lowest is taken. A window is passed over
if the pattern would then also stand for a word of another instruction.
-/

namespace SleighForge

namespace Combine

/-- The bits in which the literal bits of the instructions differ. -/
def varyingMask (first : Pattern) (rest : List Pattern) : Nat :=
  rest.foldl (fun mask p => mask ||| (p.encoding.literalValue ^^^ first.encoding.literalValue)) 0

/-- The positions of the ones, ascending. -/
def bitPositions (mask : Nat) : List Nat :=
  (List.range (mask.log2 + 1)).filter mask.testBit

/-- The span `[lo, hi)` of the bits in which the instructions differ. -/
def varyingSpan? (first : Pattern) (rest : List Pattern) : Option (Nat × Nat) :=
  let bits := bitPositions (varyingMask first rest)
  match bits.head?, bits.getLast? with
  | some low, some high => some (low, high + 1)
  | _, _ => none

/-- The number fits in the bits, in two's complement if it is negative. -/
def fitsBits (value : Int) (width : Nat) : Bool :=
  -2 ^ (width - 1) ≤ value && value < 2 ^ width

/-- The window `[lo, lo + width)` of the literal bits holds the number. -/
def holds (p : Pattern) (value : Int) (lo width : Nat) : Bool :=
  fitsBits value width &&
    bitSlice p.encoding.literalValue lo width == bitSlice value 0 width

/-- The widths of the windows in `[0, total)` that cover `[low, top)`, ascending. -/
def windowWidths (low top total : Nat) : List Nat :=
  List.range' (top - low) (total + 1 - (top - low))

/-- The places of the windows of one width in `[0, total)` that cover `[low, top)`, ascending. -/
def windowPlaces (low top total width : Nat) : List Nat :=
  List.range' (top - width) (min low (total - width) + 1 - (top - width))

/-- The first result for a window in `[0, total)` that covers `[low, top)`: narrow windows come
first, and of one width the low ones. -/
def findWindow? {α : Type} (low top total : Nat) (f : Nat → Nat → Option α) : Option α :=
  (windowWidths low top total).findSome? fun width =>
    (windowPlaces low top total width).findSome? fun lo => f lo width

/-- A group to be merged over a number: the patterns, each with the number it has. -/
structure ImmediateGroup where
  first : Pattern × Int
  rest : List (Pattern × Int)
  position : Nat

namespace ImmediateGroup

/-- The patterns of the group with their numbers, in order. -/
def members (g : ImmediateGroup) : List (Pattern × Int) :=
  g.first :: g.rest

/-- The positions of the members in the source. -/
def indices (g : ImmediateGroup) : List Int :=
  g.members.map (·.1.index)

/-- The field is signed if any of the numbers is negative. -/
def signed (g : ImmediateGroup) : Bool :=
  g.members.any (·.2 < 0)

/-- The pattern with the window as its field, if the window holds the number of each member. -/
def mergedAt? (g : ImmediateGroup) (lo width : Nat) : Option Pattern :=
  if hw : 0 < width then
    let f : BitField := ⟨lo, lo + width, .immediate, g.signed, by omega⟩
    if h : g.first.1.encoding.IsLiteral f.lo f.hi then
      if g.members.all fun (p, v) => holds p v lo width then
        some (g.first.1.generalize g.position f h (g.members.flatMap (·.1.examples)))
      else none
    else none
  else none

/-- What is wrong with a group whose numbers no window holds. -/
def fault (g : ImmediateGroup) : CombineFault :=
  let varying := bitPositions (varyingMask g.first.1 (g.rest.map (·.1)))
  ⟨.immediatePlacement g.position (varying.map Int.ofNat), g.first.1.mnemonic, g.indices⟩

/-- Merges the group. The result is `none` where every possible pattern would stand for one of the
foreign words, and a fault where no window holds the numbers. -/
def merge (g : ImmediateGroup) (foreign : List Int) : Except CombineFault (Option Pattern) :=
  match varyingSpan? g.first.1 (g.rest.map (·.1)) with
  | none => .error g.fault
  | some (low, top) =>
    let total := g.first.1.width
    let free (lo width : Nat) : Option Pattern :=
      (g.mergedAt? lo width).filter fun p => !foreign.any p.encoding.agrees
    match findWindow? low top total free with
    | some p => .ok (some p)
    | none =>
      match findWindow? low top total g.mergedAt? with
      | some _ => .ok none
      | none => .error g.fault

end ImmediateGroup

/-- The pattern with its number at the position. -/
def withImmediate? (position : Nat) (p : Pattern) : Option (Pattern × Int) :=
  (p.operands[position]?.bind Operand.immediate?).map (p, ·)

/-- Merges instructions that differ in the number at one position. -/
def mergeImmediates (first : Pattern) (rest : List Pattern) (position : Nat)
    (foreign : List Int) : Except CombineFault (Option Pattern) :=
  match withImmediate? position first, rest.mapM (withImmediate? position) with
  | some first, some rest => ImmediateGroup.merge ⟨first, rest, position⟩ foreign
  | _, _ =>
    .error ⟨.noOperand position, first.mnemonic, (first :: rest).map Pattern.index⟩

end Combine

end SleighForge
