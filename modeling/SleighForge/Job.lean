import SleighForge.FileSystem
import SleighForge.Listing
import SleighForge.Specification

/-!
# Jobs

A job reads an instruction list and brings the model of its instructions to its final form: it
combines the patterns, numbers the register tables and lays out the tokens. What a job leaves
behind, also one that fails, is told by its record.
-/

namespace SleighForge

/-- The version of the generator. -/
def version : String := "1.0.0"

/-- Why a job fails. -/
inductive JobFault where
  /-- The instruction list cannot be read. -/
  | listing (fault : ListingFault)
  /-- The model cannot be brought to its final form. -/
  | stage (fault : StageFault)
  /-- The specification cannot be written down. -/
  | specification (missing : MissingField)
  /-- The files of the module cannot be written. -/
  | files (fault : FileFault)
  deriving DecidableEq, Repr

/-- The message about a job. -/
def JobFault.message : JobFault → String
  | listing fault => fault.message
  | stage fault => fault.message
  | specification missing => s!"'{missing.name}'"
  | files fault => fault.message

/-- What a job is to do. -/
structure Job where
  config : Config
  /-- The common registers are used if it is empty. -/
  catalog : Catalog := ⟨[]⟩
  ranking : Ranking := Ranking.longestShared
  /-- Leave every instruction as it is. -/
  skipCombining : Bool := false
  strict : Bool := true
  filename : String := "<input>"
  limits : Limits := .standard

/-- The result of a job so far, with what it has gathered. -/
structure JobRecord (α : Type) where
  result : Except JobFault α
  collector : Collector
  journal : Journal

namespace Job

/-- The registers that the job knows. -/
def knownRegisters (job : Job) : Catalog :=
  if job.catalog.names.isEmpty then Catalog.common else job.catalog

/-- How the job reads its list. -/
def reader (job : Job) : Reader where
  catalog := job.knownRegisters
  bitness := job.config.bitness
  filename := job.filename
  strict := job.strict
  limits := job.limits

/-- Reads an instruction list into a model. -/
def parse (job : Job) (lines : List String) (collector : Collector) : JobRecord Model :=
  let out := Listing.read job.reader lines collector
  let journal := ⟨.info, "Parsing instructions"⟩ :: out.journal
  match out.result with
  | .error fault => ⟨.error (.listing fault), out.collector, journal⟩
  | .ok listing =>
    let journal := journal ++ [⟨.info, s!"Parsed {listing.patterns.length} instructions"⟩]
    let model : Model :=
      { config := job.config, catalog := job.knownRegisters, patterns := listing.patterns, journal }
    ⟨.ok model, out.collector, journal⟩

/-- Combines the patterns of a model, unless the job is to leave them as they are. -/
def combine (job : Job) : Stage (List PassStats) :=
  if job.skipCombining then do
    Stage.note .info "Skipping instruction combining"
    return []
  else Stage.runPasses job.ranking

/-- Brings a model to its final form. -/
def finish (job : Job) : Stage (List PassStats) := do
  let stats ← job.combine
  Stage.note .info "Computing attach registers"
  Stage.numberTables
  Stage.note .info "Computing token instructions"
  Stage.layOut
  return stats

/-- Reads an instruction list and brings its model to its final form. -/
def build (job : Job) (lines : List String) (collector : Collector) :
    JobRecord (Model × List PassStats) :=
  let parsed := job.parse lines collector
  match parsed.result with
  | .error fault => ⟨.error fault, parsed.collector, parsed.journal⟩
  | .ok model =>
    let (result, model) := job.finish.run.run model
    match result with
    | .error fault => ⟨.error (.stage fault), parsed.collector, model.journal⟩
    | .ok stats => ⟨.ok (model, stats), parsed.collector, model.journal⟩

/-- The registers that the instructions of a list use. -/
def listRegisters (job : Job) (lines : List String) (collector : Collector) :
    JobRecord (List String) :=
  let parsed := job.parse lines collector
  ⟨parsed.result.map Model.usedRegisters, parsed.collector, parsed.journal⟩

end Job

end SleighForge
