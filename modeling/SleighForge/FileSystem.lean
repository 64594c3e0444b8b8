import SleighForge.Path

/-!
# File systems

The few operations on files that writing a module needs. A file system may refuse any of them.
Directories are made together with those above them that are missing.
-/

namespace SleighForge

/-- Why an operation on files is refused. -/
inductive FileFault where
  | notFound
  | notDirectory
  | isDirectory
  | alreadyExists
  | nameTooLong
  /-- The path holds a character that no path can hold. -/
  | nullCharacter
  | notPermitted
  /-- Another reason, in the words of the system. -/
  | other (text : String)
  deriving DecidableEq, Repr

/-- The reason in words. -/
def FileFault.message : FileFault → String
  | notFound => "No such file or directory"
  | notDirectory => "Not a directory"
  | isDirectory => "Is a directory"
  | alreadyExists => "File exists"
  | nameTooLong => "File name too long"
  | nullCharacter => "embedded null byte"
  | notPermitted => "Permission denied"
  | other text => text

/-- What a path leads to. -/
inductive FileKind where
  | file
  | directory
  deriving DecidableEq, Repr

/-- Operations on files, which are named by path texts. -/
class FileSystem (m : Type → Type) where
  /-- What the path leads to, if anything. -/
  kind? : String → m (Option FileKind)
  read : String → m (Except FileFault ByteArray)
  /-- Makes one directory. -/
  makeDirectory : String → m (Except FileFault Unit)
  /-- Writes a file, in place of one that is there. -/
  write : String → String → m (Except FileFault Unit)

namespace FileSystem

variable {m : Type → Type} [Monad m] [FileSystem m]

/-- A refusal is no matter where a directory was to be made and is there. -/
def unlessPresent (path : Path) (fault : FileFault) : m (Except FileFault Unit) := do
  match ← FileSystem.kind? path.toText with
  | some .directory => return .ok ()
  | _ => return .error fault

/-- Makes a directory, which may be there already, in one that is there. -/
def makeDirectoryHere (path : Path) : m (Except FileFault Unit) := do
  match ← FileSystem.makeDirectory path.toText with
  | .ok () => return .ok ()
  | .error .notFound => return .error .notFound
  | .error fault => unlessPresent path fault

/-- Makes the directory whose parts are given from the last to the first, and those above it. -/
def makeDirectoriesUp (root : String) : List String → m (Except FileFault Unit)
  | [] => makeDirectoryHere ⟨root, []⟩
  | part :: above => do
    let path : Path := ⟨root, (part :: above).reverse⟩
    match ← FileSystem.makeDirectory path.toText with
    | .ok () => return .ok ()
    | .error .notFound =>
      match ← makeDirectoriesUp root above with
      | .error fault => return .error fault
      | .ok () => makeDirectoryHere path
    | .error fault => unlessPresent path fault

/-- Makes a directory, which may be there already, and those above it. -/
def makeDirectories (path : Path) : m (Except FileFault Unit) :=
  makeDirectoriesUp path.root path.parts.reverse

end FileSystem

end SleighForge
