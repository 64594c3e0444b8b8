import SleighForge.Cli.Arguments
import SleighForge.Job.Delivery
import SleighForge.Text.ControlSequence
import SleighForge.Text.Lines

/-!
# Running the program

A run reads an instruction list from a file, builds its specification and writes the processor
module. It ends with an exit code: 0 for success, 1 where the instructions have a fault, 2 where
the arguments or the input file have one, 3 where files cannot be written or a number exceeds a
limit.
-/

namespace SleighForge.Cli

open Text

/-- A message on the error output. -/
inductive Notice where
  | line (text : String)
  /-- A remark of the journal. -/
  | remark (text : String)
  /-- Files were refused. What the system says about it follows the label. -/
  | refusal (label : String) (path : String) (fault : FileFault)
  /-- The input file is not text. -/
  | undecodable (path : String)
  deriving DecidableEq, Repr

/-- What a run shows. -/
structure Outcome where
  exitCode : Nat
  output : List String
  notices : List Notice
  deriving DecidableEq, Repr

/-- The message as it is shown where no terminal shows it. A remark stays as it was made. -/
def Notice.plain : Notice → Notice
  | line text => line (withoutControls text)
  | notice => notice

/-- The outcome as it is shown where no terminal shows it. -/
def Outcome.plain (o : Outcome) : Outcome :=
  { o with output := o.output.map withoutControls, notices := o.notices.map Notice.plain }

/-- How a run ends. -/
inductive Ending where
  /-- The arguments are refused, and nothing has been done. -/
  | refused (fault : UsageFault)
  | finished (outcome : Outcome)

/-- The first line of the output. -/
def banner : String := "Ghidra Processor Module Generator (GPMG)"

/-- What the program says about its version. -/
def versionLine : String := s!"gpmg, version {version}"

/-- How to call the program. -/
def usageLines : List String :=
  ["Usage: gpmg [OPTIONS]",
   "",
   "Options:",
   "  -i, --input-file FILE          instruction list, one opcode and instruction a line",
   "  -n, --processor-name TEXT      name of the processor [MyProc]",
   "  -f, --processor-family TEXT    name of its family [MyProcFamily]",
   "  -e, --endian [big|little]      byte order [big]",
   "  -a, --alignment N              instruction alignment in bytes [1]",
   "  -b, --bitness N                bits of an instruction word [32]",
   "  --print-registers-only         show the registers of the list and stop",
   "  --omit-opcodes                 leave opcode comments out",
   "  --omit-example-instructions    leave example comments out",
   "  --skip-instruction-combining   leave every instruction as it is",
   "  --lenient                      skip malformed lines and report them",
   "  --additional-registers NAMES   more register names, repeatable",
   "  -o, --output-dir DIRECTORY     where the module is created [.]",
   "  -v, --verbose                  tell more",
   "  --version                      show the version and stop",
   "  --help                         show this text and stop"]

/-- The remarks of a run, as it shows them. Details are shown on demand only. -/
def remarkNotices (verbose : Bool) (journal : Journal) : List Notice :=
  if verbose then journal.map fun r => .remark s!"{r.severity.name}: {r.text}"
  else (journal.filter (·.severity = .info)).map fun r => .remark s!"[*] {r.text}"

/-- The exit code and the message where files are refused. A file or directory that is missing or
closed to the user is taken for a wrong argument. -/
def refusal (path : String) (fault : FileFault) : Nat × Notice :=
  match fault with
  | .notFound => (2, .refusal "Error" path fault)
  | .notPermitted => (2, .refusal "Error" path fault)
  | .nullCharacter => (3, .line s!"Internal error: {fault.message}")
  | fault => (3, .refusal "Internal error" path fault)

/-- The exit code and the message for a job that failed. Faults in lines say where they are; the
others are marked as errors. What no stage answers for is marked as internal. -/
def faultNotice (moduleDirectory : Path) (fault : JobFault) : Nat × Notice :=
  match fault with
  | .listing (.limit fault) => (3, .line s!"Internal error: {fault.message}")
  | .listing fault => (1, .line fault.message)
  | .stage fault => (1, .line s!"Error: {fault.message}")
  | .specification _ => (3, .line s!"Internal error: {fault.message}")
  | .files fault => refusal moduleDirectory.toText fault

/-- A run that ends early. -/
def failure (exitCode : Nat) (notices : List Notice) : Outcome :=
  ⟨exitCode, [banner], notices⟩

/-- What a run shows whose job failed. -/
def jobFailure {α : Type} (o : Options) (record : JobRecord α) (moduleDirectory : Path)
    (fault : JobFault) : Outcome :=
  let (exitCode, notice) := faultNotice moduleDirectory fault
  failure exitCode (remarkNotices o.verbose record.journal ++ [notice])

/-- What a run that lists registers shows. -/
def registersOutcome (o : Options) (moduleDirectory : Path) (record : JobRecord (List String)) :
    Outcome :=
  match record.result with
  | .error fault => jobFailure o record moduleDirectory fault
  | .ok found =>
    let names := " ".intercalate found
    ⟨0, [banner, s!"Found registers: {names}",
      "If any are missing, pass them with --additional-registers."],
      remarkNotices o.verbose record.journal⟩

/-- The last lines of a run that has written a module. -/
def successLines (moduleDirectory : Path) (m : Model) : List String :=
  [banner,
   s!"Created processor module: {moduleDirectory.toText}",
   s!"{m.patterns.length} constructors, {m.tables.size} attach variables, " ++
    s!"{m.tokens.length} tokens"]

/-- The report of what the collector holds. -/
def reportNotices (c : Collector) : List Notice :=
  if c.isEmpty then [] else [.line c.report]

/-- What a run that writes a module shows. -/
def moduleOutcome (o : Options) (moduleDirectory : Path) (record : JobRecord (Path × Model)) :
    Outcome :=
  match record.result with
  | .error fault => jobFailure o record moduleDirectory fault
  | .ok (directory, model) =>
    ⟨0, successLines directory model,
      remarkNotices o.verbose record.journal ++ reportNotices record.collector⟩

variable {m : Type → Type} [Monad m] [FileSystem m]

/-- Does what the options say with the lines of the input file. -/
def generate (o : Options) (config : Config) (catalog : Catalog) (lines : List String) :
    m Outcome := do
  let job : Job :=
    { config, catalog, skipCombining := o.skipCombining, strict := !o.lenient
      filename := (Path.ofText o.inputFile).toText }
  let output := Path.ofText o.outputDirectory
  let moduleDirectory := ModuleFiles.directory config output
  if o.printRegisters then
    return registersOutcome o moduleDirectory (job.listRegisters lines {})
  else
    return moduleOutcome o moduleDirectory (← job.run lines output {})

/-- Checks the settings, reads the input file and goes on with its lines. -/
def start (o : Options) : m Outcome := do
  let checked : Except ConfigFault (Config × Catalog) := do
    return (← Config.ofSettings o.settings, ← Catalog.common.extend o.additionalRegisters)
  match checked with
  | .error fault => return failure 2 [.line s!"Error: {fault.message}"]
  | .ok (config, catalog) =>
    let path := (Path.ofText o.inputFile).toText
    match ← FileSystem.read path with
    | .error fault =>
      let (exitCode, notice) := refusal path fault
      return failure exitCode [notice]
    | .ok data =>
      match String.fromUTF8? data with
      | none => return failure 2 [.undecodable path]
      | some text => generate o config catalog (lines text)

/-- The first path that cannot be used: the input has to be a file, and the output must not be
one. -/
def unusablePath? (o : Options) : m (Option String) := do
  if (← FileSystem.kind? o.inputFile) ≠ some .file then return some o.inputFile
  if (← FileSystem.kind? o.outputDirectory) = some .file then return some o.outputDirectory
  return none

/-- Runs the program. -/
def run (arguments : List String) : m Ending := do
  match readRequest arguments with
  | .error fault => return .refused fault
  | .ok .version => return .finished ⟨0, [versionLine], []⟩
  | .ok .help => return .finished ⟨0, usageLines, []⟩
  | .ok (.generate o) =>
    match ← unusablePath? o with
    | some path => return .refused (.badPath path)
    | none => return .finished (← start o)

end SleighForge.Cli
