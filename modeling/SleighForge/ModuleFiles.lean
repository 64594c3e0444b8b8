import SleighForge.FileSystem
import SleighForge.Specification

/-!
# Module files

A processor module is a directory named for the processor. It holds a manifest and, under
`data/languages`, the specification with its definition files.
-/

namespace SleighForge

/-- Why a module is not written. -/
inductive ModuleFault where
  /-- The specification cannot be written down. -/
  | specification (missing : MissingField)
  /-- A file or directory is refused. -/
  | files (fault : FileFault)
  deriving DecidableEq, Repr

namespace ModuleFiles

variable {m : Type → Type} [Monad m] [FileSystem m]

/-- Writing ends in a fault or with a result, and leaves remarks in either case. -/
abbrev Writing (m : Type → Type) := ExceptT ModuleFault (StateT Journal m)

/-- Makes a remark. -/
def note (severity : Severity) (text : String) : Writing m Unit :=
  modify (· ++ [⟨severity, text⟩])

/-- Makes an operation on files a step of writing. -/
def step {α : Type} (op : m (Except FileFault α)) : Writing m α :=
  ExceptT.mk do
    let result ← monadLift op
    return result.mapError .files

/-- The directory of a module. -/
def directory (c : Config) (outputDirectory : Path) : Path :=
  outputDirectory.join (Path.ofText c.name)

/-- The directory of the language files of a module. -/
def languageDirectory (moduleDirectory : Path) : Path :=
  moduleDirectory.join ⟨"", ["data", "languages"]⟩

/-- The manifest, which is empty. -/
def manifest (moduleDirectory : Path) : Path :=
  moduleDirectory.join ⟨"", ["Module.manifest"]⟩

/-- The language files with their texts, in the order in which they are written. -/
def languageFiles (c : Config) (specification : String) : List (String × String) :=
  [(c.name ++ ".slaspec", specification),
   (c.name ++ ".ldefs", LanguageFiles.definition c),
   (c.name ++ ".pspec", LanguageFiles.processorSpecification),
   (c.name ++ ".cspec", LanguageFiles.compilerSpecification)]

/-- The specification of a model. -/
def specificationOf (model : Model) : Writing m String :=
  ExceptT.mk (pure ((Specification.render model).mapError .specification))

/-- Writes a language file, which is given by its name and its text. -/
def writeLanguageFile (languages : Path) (file : String × String) : Writing m Unit := do
  let path := languages.join (Path.ofText file.1)
  step (FileSystem.write path.toText file.2)
  note .debug s!"Wrote {path.toText}"

/-- Writes the module of a model below a directory and returns the directory of the module. The
directories and the manifest are made before the texts. -/
def write (model : Model) (outputDirectory : Path) : Writing m Path := do
  note .info "Generating Ghidra processor specification"
  let moduleDirectory := directory model.config outputDirectory
  let languages := languageDirectory moduleDirectory
  step (FileSystem.makeDirectories languages)
  step (FileSystem.write (manifest moduleDirectory).toText "")
  let specification ← specificationOf model
  (languageFiles model.config specification).forM (writeLanguageFile languages)
  note .info s!"Created processor module {moduleDirectory.toText}"
  return moduleDirectory

end ModuleFiles

end SleighForge
