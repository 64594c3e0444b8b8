import SleighForge.Distinct
import SleighForge.Pattern

/-!
# Candidate groups

Instructions that differ in one operand only are candidates to be merged. A site is a pattern
together with one of its operands; the sites with one key make up a group, of which only the first
for each value of the operand is a member. Groups are ranked before they are merged.
-/

namespace SleighForge

/-- The kinds of operands over which instructions are merged. -/
inductive OperandKind where
  | immediate
  | register
  deriving DecidableEq, Repr

/-- The operand is of the kind. -/
def OperandKind.holds : OperandKind → Operand → Bool
  | immediate, .immediate .. => true
  | register, .register _ => true
  | _, _ => false

/-- What the members of a group have in common. -/
structure GroupKey where
  position : Nat
  width : Nat
  mnemonic : String
  /-- The operands at the other positions. -/
  others : List Operand
  fields : List BitField
  deriving DecidableEq

/-- An operand of a pattern, in a list of patterns. -/
structure Site where
  /-- The position of the pattern in the list. -/
  slot : Nat
  /-- The position of the pattern in the source. -/
  index : Int
  key : GroupKey
  operand : Operand

/-- Patterns that differ only in the operand at one position. -/
structure Candidate where
  position : Nat
  /-- Positions in the list of patterns, ascending. -/
  members : List Nat
  /-- The position of the first member in the source. -/
  firstIndex : Int
  deriving DecidableEq, Repr

namespace Candidate

/-- The key of a pattern for one of its operands. -/
def keyOf (p : Pattern) (position : Nat) : GroupKey where
  position
  width := p.width
  mnemonic := p.mnemonic
  others := (p.operands.eraseIdx position).map Operand.bare
  fields := p.fields

/-- The sites of a pattern. -/
def sitesOf (kind : OperandKind) (p : Pattern) (slot : Nat) : List Site :=
  p.operands.zipIdx.filterMap fun (op, position) =>
    if kind.holds op then some ⟨slot, p.index, keyOf p position, op.bare⟩ else none

/-- The sites of a list of patterns, in order. -/
def sites (kind : OperandKind) (patterns : List Pattern) : List Site :=
  patterns.zipIdx.flatMap fun (p, slot) => sitesOf kind p slot

/-- The group of the sites with one key, if it has two members. -/
def ofSites? (sites : List Site) : Option Candidate :=
  match distinctBy Site.operand sites with
  | first :: second :: rest =>
    some ⟨first.key.position, (first :: second :: rest).map Site.slot, first.index⟩
  | _ => none

/-- The groups of a list of patterns, in the order of their first sites. -/
def all (kind : OperandKind) (patterns : List Pattern) : List Candidate :=
  let sites := sites kind patterns
  (distinct (sites.map Site.key)).filterMap fun key => ofSites? (sites.filter (·.key = key))

end Candidate

/-- An order in which candidates are tried. -/
abbrev Ranking := Candidate → Candidate → Bool

namespace Ranking

/-- The lexicographic order of lists of numbers. -/
def lexLe : List Int → List Int → Bool
  | [], _ => true
  | _ :: _, [] => false
  | a :: as, b :: bs => a < b || (a == b && lexLe as bs)

/-- Ranks by a key, in ascending order. -/
def byKey (key : Candidate → List Int) : Ranking :=
  fun a b => lexLe (key a) (key b)

/-- The longest common beginning of the operands first, then the first in the source. -/
def longestShared : Ranking :=
  byKey fun c => [-c.position, c.firstIndex]

end Ranking

/-- The words of the instructions outside a group that are as wide as its first member. -/
def foreignWords (patterns : List Pattern) (members : List Nat) : List Int :=
  match members.head?.bind (patterns[·]?) with
  | none => []
  | some first =>
    (patterns.zipIdx.filter fun (p, slot) => slot ∉ members ∧ p.width = first.width).flatMap
      fun (p, _) => p.examples.map Example.opcode

end SleighForge
