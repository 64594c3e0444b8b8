/-!
# Diagnostics

A diagnostic tells what is wrong with a line of the instruction list, in the way a compiler does: a
place and a message, then the line itself, then a hint. A collector gathers diagnostics and
warnings up to a limit, and reports them together.
-/

namespace SleighForge

/-- A line of a source. -/
structure Location where
  file : String
  line : Int
  deriving DecidableEq, Repr

/-- The place, as it stands before a message. -/
def Location.display (l : Location) : String :=
  s!"{l.file}:{l.line}"

/-- What is wrong, and where. -/
structure Diagnostic where
  message : String
  location : Option Location := none
  /-- The text of the line. -/
  source : Option String := none
  hint : Option String := none
  deriving DecidableEq, Repr

/-- The lines of a diagnostic. An empty hint is left out. -/
def Diagnostic.display (d : Diagnostic) : String :=
  let head :=
    match d.location with
    | some l => s!"{l.display}: error: {d.message}"
    | none => s!"error: {d.message}"
  let source := d.source.toList.map ("    " ++ ·)
  let hint := (d.hint.toList.filter (!·.isEmpty)).map ("hint: " ++ ·)
  "\n".intercalate (head :: source ++ hint)

/-- Diagnostics and warnings, in the order in which they came up. -/
structure Collector where
  limit : Int := 100
  errors : List Diagnostic := []
  warnings : List String := []
  deriving DecidableEq, Repr

namespace Collector

/-- Takes a warning. -/
def warn (c : Collector) (message : String) : Collector :=
  { c with warnings := c.warnings ++ [message] }

/-- Takes a diagnostic. -/
def add (c : Collector) (d : Diagnostic) : Collector :=
  { c with errors := c.errors ++ [d] }

/-- No more diagnostics are taken. -/
def isFull (c : Collector) : Bool :=
  c.limit ≤ c.errors.length

/-- What is said when the limit is reached. -/
def overflow (c : Collector) : Diagnostic :=
  ⟨s!"too many errors ({c.limit}), stopping", none, none, none⟩

/-- There is nothing to report. -/
def isEmpty (c : Collector) : Bool :=
  c.errors.isEmpty && c.warnings.isEmpty

/-- A number of things, in words. -/
def counted (n : Nat) (thing : String) : String :=
  if n = 1 then s!"{n} {thing}" else s!"{n} {thing}s"

/-- All diagnostics, each followed by an empty line, then the warnings and the totals. -/
def report (c : Collector) : String :=
  let warnings :=
    if c.warnings.isEmpty then [] else "Warnings:" :: c.warnings.map ("  " ++ ·)
  let errorCount := counted c.errors.length "error"
  let warningCount := counted c.warnings.length "warning"
  let totals := s!"\n{errorCount}, {warningCount}"
  "\n".intercalate (c.errors.flatMap (fun d => [d.display, ""]) ++ warnings ++ [totals])

end Collector

end SleighForge
