import SleighForge.Job
import SleighForge.ModuleFiles

/-!
# Delivering a module

The last step of a job writes the model that it has built as a processor module. No file is written
where the model could not be built.
-/

namespace SleighForge

/-- What the fault of a module is for the job. -/
def JobFault.ofModule : ModuleFault → JobFault
  | .specification missing => .specification missing
  | .files fault => .files fault

namespace Job

variable {m : Type → Type} [Monad m] [FileSystem m]

/-- Writes the module of a model below a directory. The result is the directory of the module. -/
def deliver (output : Path) (model : Model) (collector : Collector) :
    m (JobRecord (Path × Model)) := do
  let (result, journal) ← (ModuleFiles.write model output).run.run model.journal
  match result with
  | .error fault => return ⟨.error (.ofModule fault), collector, journal⟩
  | .ok directory => return ⟨.ok (directory, model), collector, journal⟩

/-- Reads an instruction list, builds its model and writes the module. -/
def run (job : Job) (lines : List String) (output : Path) (collector : Collector) :
    m (JobRecord (Path × Model)) :=
  let built := job.build lines collector
  match built.result with
  | .error fault => return ⟨.error fault, built.collector, built.journal⟩
  | .ok (model, _) => deliver output model built.collector

end Job

end SleighForge
