/-!
# Faults in combining

Why instructions that look alike cannot be merged. A fault names the instructions by mnemonic and
by their positions in the source.
-/

namespace SleighForge

/-- Why registers and selectors do not go together. -/
inductive RegisterConflict where
  /-- No bit differs. -/
  | sameEncoding
  /-- Some of the bits between those that differ belong to a field. -/
  | overlapsField
  /-- Two registers have one selector. -/
  | sharedSelector (first second : String) (selector : Nat)
  /-- One register has two selectors. -/
  | splitRegister (name : String) (first second : Nat)
  /-- A conflict in a caller's words. -/
  | described (text : String)
  deriving DecidableEq, Repr

/-- The conflict in words. -/
def RegisterConflict.message : RegisterConflict → String
  | sameEncoding => "all members share one encoding"
  | overlapsField => "varying bits overlap an operand field"
  | sharedSelector a b selector => s!"'{a}' and '{b}' share selector {selector}"
  | splitRegister name a b => s!"'{name}' appears at selectors {a} and {b}"
  | described text => text

/-- What is wrong with a group of instructions. -/
inductive CombineCause where
  /-- No window of literal bits holds the literals. -/
  | immediatePlacement (position : Int) (varying : List Int)
  /-- The bits that differ do not select the registers. -/
  | registerPlacement (lo hi : Int) (conflict : RegisterConflict)
  /-- A table of registers needs two of them. -/
  | groupTooSmall
  /-- Some instruction has no operand of the kind at the position. -/
  | noOperand (position : Nat)
  /-- A cause in a caller's words. -/
  | described (text : String)
  deriving DecidableEq, Repr

/-- Bit positions, the highest first. -/
def bitList (bits : List Int) : String :=
  if bits.isEmpty then "no bits"
  else "bits " ++ ",".intercalate ((bits.mergeSort fun a b => b ≤ a).map toString)

/-- The cause in words. -/
def CombineCause.message : CombineCause → String
  | immediatePlacement position varying =>
    s!"immediate operand {position} is not encoded at a consistent bit slice " ++
      s!"({bitList varying} vary)"
  | registerPlacement lo hi conflict =>
    s!"register selector at bits [{lo}, {hi}) is ambiguous: {conflict.message}"
  | groupTooSmall => "register group needs at least two members"
  | noOperand position => s!"operand {position} is missing"
  | described text => text

/-- A fault in combining and the instructions that show it. -/
structure CombineFault where
  cause : CombineCause
  mnemonic : String := ""
  indices : List Int := []
  deriving DecidableEq, Repr

/-- The cause, followed by what is known of the instructions in parentheses. -/
def CombineFault.message (f : CombineFault) : String :=
  let mnemonic := if f.mnemonic.isEmpty then [] else [s!"mnemonic '{f.mnemonic}'"]
  let indices :=
    if f.indices.isEmpty then []
    else ["instructions " ++ ", ".intercalate (f.indices.map toString)]
  let context := mnemonic ++ indices
  if context.isEmpty then f.cause.message
  else
    let joined := "; ".intercalate context
    s!"{f.cause.message} ({joined})"

end SleighForge
