/-!
# Journal

What a run tells about its progress: remarks of interest to everyone, and details for those who
look for a cause. Lists in a remark are written in brackets, tuples in parentheses.
-/

namespace SleighForge

/-- Whom a remark is for. -/
inductive Severity where
  | debug
  | info
  deriving DecidableEq, Repr

/-- The name that stands before a remark. -/
def Severity.name : Severity → String
  | debug => "DEBUG"
  | info => "INFO"

/-- A remark. -/
structure Remark where
  severity : Severity
  text : String
  deriving DecidableEq, Repr

/-- Remarks in the order in which they were made. -/
abbrev Journal := List Remark

namespace Remark

/-- Numbers in brackets. -/
def bracketed (ns : List Int) : String :=
  "[" ++ ", ".intercalate (ns.map toString) ++ "]"

/-- A name in quotes, or the word for none. -/
def quoted : Option String → String
  | some s => s!"'{s}'"
  | none => "None"

/-- Names in parentheses; one name alone is followed by a comma. -/
def parenthesized (names : List (Option String)) : String :=
  match names with
  | [name] => s!"({quoted name},)"
  | names => "(" ++ ", ".intercalate (names.map quoted) ++ ")"

end Remark

end SleighForge
