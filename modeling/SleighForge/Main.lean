import SleighForge.Cli.Run

/-!
# The program

Runs the program on the files of the system.
-/

namespace SleighForge.Main

/-- What the system says, as a fault. -/
def faultOf : IO.Error → FileFault
  | .noFileOrDirectory .. => .notFound
  | .noSuchThing .. => .notFound
  | .inappropriateType .. => .notDirectory
  | .alreadyExists .. => .alreadyExists
  | .permissionDenied .. => .notPermitted
  | error => .other (toString error)

/-- Makes an operation whose failure is told as a fault. -/
def attempt {α : Type} (op : IO α) : IO (Except FileFault α) := do
  match ← op.toBaseIO with
  | .ok a => return .ok a
  | .error error => return .error (faultOf error)

/-- What a path leads to. -/
def kindOf (path : String) : IO (Option FileKind) := do
  let path := (← IO.currentDir) / path
  if ← path.isDir then return some .directory
  else if ← path.pathExists then return some .file
  else return none

instance : FileSystem IO where
  kind? := kindOf
  read path := attempt (IO.FS.readBinFile path)
  makeDirectory path := attempt (IO.FS.createDir path)
  write path text := attempt (IO.FS.writeFile path text)

/-- A message as text. -/
def noticeText : Cli.Notice → String
  | .line text => text
  | .remark text => text
  | .refusal label path fault => s!"{label}: {fault.message}: '{path}'"
  | .undecodable path => s!"Error: the file '{path}' is not UTF-8 text"

end SleighForge.Main

open SleighForge in
def main (arguments : List String) : IO UInt32 := do
  match ← (Cli.run arguments : IO Cli.Ending) with
  | .refused fault =>
    IO.eprintln s!"Error: {fault.message}"
    return 2
  | .finished outcome =>
    let shownErrors := if ← (← IO.getStderr).isTty then outcome else outcome.plain
    let shownOutput := if ← (← IO.getStdout).isTty then outcome else outcome.plain
    for notice in shownErrors.notices do
      IO.eprintln (Main.noticeText notice)
    for line in shownOutput.output do
      IO.println line
    return outcome.exitCode.toUInt32
