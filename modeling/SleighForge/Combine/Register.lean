import SleighForge.Combine.Immediate
import SleighForge.RegisterTable

/-!
# Merging over a register

Instructions that differ in one register are merged into a pattern with a register field. The field
spans the bits in which the instructions differ, and its bits in each instruction are the selector
of that instruction's register. Registers and selectors have to go together one to one. The table
of the registers by selector is interned.
-/

namespace SleighForge

namespace Combine

/-- Registers with their selectors, as far as they go together one to one. -/
abbrev Selection := List (Nat × String)

/-- Adds a register with its selector, unless one of them is taken by another. -/
def Selection.add (s : Selection) (selector : Nat) (name : String) :
    Except RegisterConflict Selection :=
  match s.find? (·.1 = selector), s.find? (·.2 = name) with
  | some (_, other), _ =>
    if other = name then .ok s else .error (.sharedSelector other name selector)
  | none, some (other, _) => .error (.splitRegister name other selector)
  | none, none => .ok (s ++ [(selector, name)])

/-- The registers by selector, up to the highest selector. -/
def Selection.toTable (s : Selection) : List (Option String) :=
  (List.range (s.foldl (fun n entry => max n (entry.1 + 1)) 0)).map fun selector =>
    List.lookup selector s

/-- The name of the operand of a pattern at the position. -/
def nameAt? (position : Nat) (p : Pattern) : Option String :=
  p.operands[position]?.bind Operand.name?

/-- The selection that patterns make by the bits `[lo, lo + width)`. -/
def select (position lo width : Nat) (patterns : List Pattern) :
    Except CombineCause Selection :=
  patterns.foldlM
    (fun s p =>
      match nameAt? position p with
      | none => .error (.noOperand position)
      | some name =>
        (s.add (bitSlice p.encoding.literalValue lo width) name).mapError
          (.registerPlacement lo (lo + width)))
    []

/-- Merges instructions that differ in the register at one position. The result is `none`, and the
tables stay as they are, where the pattern would stand for one of the foreign words. -/
def mergeRegisters (first : Pattern) (rest : List Pattern) (position : Nat) (foreign : List Int)
    (tables : Tables) : Except CombineFault (Option Pattern × Tables) :=
  let fault (cause : CombineCause) : CombineFault :=
    ⟨cause, first.mnemonic, (first :: rest).map Pattern.index⟩
  if rest.isEmpty then .error (fault .groupTooSmall)
  else
    match varyingSpan? first rest with
    | none => .error (fault (.registerPlacement 0 0 .sameEncoding))
    | some (lo, hi) =>
      if hlt : lo < hi then
        if h : first.encoding.IsLiteral lo hi then
          match select position lo (hi - lo) (first :: rest) with
          | .error cause => .error (fault cause)
          | .ok selection =>
            let examples := (first :: rest).flatMap Pattern.examples
            let merged (table : Int) : Pattern :=
              first.generalize position ⟨lo, hi, .register table, false, hlt⟩ h examples
            if foreign.any (merged 0).encoding.agrees then .ok (none, tables)
            else
              let (table, tables) := tables.intern selection.toTable
              .ok (some (merged table.id), tables)
        else .error (fault (.registerPlacement lo hi .overlapsField))
      else .error (fault (.registerPlacement lo hi .overlapsField))

end Combine

end SleighForge
