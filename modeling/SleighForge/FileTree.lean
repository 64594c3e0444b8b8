import SleighForge.FileSystem

/-!
# File trees

A file tree is a file system held in memory: directories and files under their places below the
root, and a working directory. It refuses what a POSIX system refuses to a user who may do
everything.
-/

namespace SleighForge

/-- What is at a place. -/
inductive FileEntry where
  | directory
  | file (data : ByteArray)

instance decEqFileEntry : DecidableEq FileEntry
  | .directory, .directory => .isTrue rfl
  | .directory, .file _ => .isFalse nofun
  | .file _, .directory => .isFalse nofun
  | .file a, .file b =>
    @decidable_of_decidable_of_iff _ _ (ByteArray.instDecidableEq a b)
      (.of_eq (FileEntry.file.injEq a b).symm)

/-- The names that lead from the root to a file or directory. -/
abbrev Place := List String

/-- Files and directories. -/
structure FileTree where
  workingDirectory : Place
  entries : List (Place × FileEntry) := []

namespace FileTree

/-- The longest name of a file, in bytes. -/
def maxNameBytes : Nat := 255

/-- The longest text of a path, in bytes. -/
def maxPathBytes : Nat := 4095

/-- What is at a place. The root and the working directory with those above it are there. -/
def lookup (t : FileTree) (place : Place) : Option FileEntry :=
  if place.isPrefixOf t.workingDirectory then some .directory else t.entries.lookup place

/-- Puts an entry at a place. -/
def put (t : FileTree) (place : Place) (entry : FileEntry) : FileTree :=
  { t with entries := t.entries.filter (·.1 ≠ place) ++ [(place, entry)] }

/-- Follows the steps of a path from a place. Every step but the last has to lead to a
directory. -/
def walk (t : FileTree) (here : Place) : List String → Except FileFault Place
  | [] => .ok here
  | step :: steps =>
    if t.lookup here ≠ some .directory then .error .notDirectory
    else if step = "" ∨ step = "." then t.walk here steps
    else if step = ".." then t.walk here.dropLast steps
    else if maxNameBytes < step.utf8ByteSize then .error .nameTooLong
    else if (t.lookup (here ++ [step])).isNone then .error .notFound
    else t.walk (here ++ [step]) steps

/-- The place where a path starts and its steps. Some paths are refused for their text. -/
def start (t : FileTree) (path : String) : Except FileFault (Place × List String) :=
  if path.toList.contains '\x00' then .error .nullCharacter
  else if path.isEmpty then .error .notFound
  else if maxPathBytes < path.utf8ByteSize then .error .nameTooLong
  else
    .ok (if path.toList.head? = some '/' then [] else t.workingDirectory,
      (slashParts path.toList).map String.ofList)

/-- The place a path leads to. -/
def resolve (t : FileTree) (path : String) : Except FileFault Place := do
  let (here, steps) ← t.start path
  t.walk here steps

/-- The directory of a path and the last name in it, which is none for a path that ends in dots or
in a slash. -/
def resolveParent (t : FileTree) (path : String) : Except FileFault (Place × Option String) := do
  let (here, steps) ← t.start path
  let parent ← t.walk here steps.dropLast
  if t.lookup parent ≠ some .directory then throw .notDirectory
  match steps.getLast? with
  | none => return (parent, none)
  | some name =>
    if name = "" ∨ name = "." ∨ name = ".." then return (parent, none)
    else if maxNameBytes < name.utf8ByteSize then throw .nameTooLong
    else return (parent, some name)

/-- What a path leads to, if anything. -/
def kind? (t : FileTree) (path : String) : Option FileKind :=
  match t.resolve path with
  | .error _ => none
  | .ok place =>
    (t.lookup place).map fun
      | .directory => .directory
      | .file _ => .file

/-- The contents of a file. -/
def read (t : FileTree) (path : String) : Except FileFault ByteArray := do
  let place ← t.resolve path
  match t.lookup place with
  | some (.file data) => return data
  | some .directory => throw .isDirectory
  | none => throw .notFound

/-- Makes a directory in one that is there. -/
def makeDirectory (t : FileTree) (path : String) : Except FileFault FileTree := do
  match ← t.resolveParent path with
  | (_, none) => throw .alreadyExists
  | (parent, some name) =>
    if (t.lookup (parent ++ [name])).isSome then throw .alreadyExists
    else return t.put (parent ++ [name]) .directory

/-- Writes a text to a file in a directory that is there. -/
def write (t : FileTree) (path text : String) : Except FileFault FileTree := do
  match ← t.resolveParent path with
  | (_, none) => throw .isDirectory
  | (parent, some name) =>
    if t.lookup (parent ++ [name]) = some .directory then throw .isDirectory
    else return t.put (parent ++ [name]) (.file text.toUTF8)

/-- Puts a file at a place, with the directories above it. -/
def putFile (t : FileTree) (place : Place) (data : ByteArray) : FileTree :=
  let above := (List.range place.length).map place.take
  let t := above.foldl (fun t p => if (t.lookup p).isSome then t else t.put p .directory) t
  t.put place (.file data)

/-- The files below the working directory, with the rest of their places. -/
def filesBelow (t : FileTree) : List (Place × ByteArray) :=
  t.entries.filterMap fun (place, entry) =>
    match entry with
    | .file data =>
      if t.workingDirectory.isPrefixOf place then
        some (place.drop t.workingDirectory.length, data)
      else none
    | .directory => none

/-- Makes an operation that changes the tree, unless it is refused. -/
def attempt (change : FileTree → Except FileFault FileTree) :
    StateM FileTree (Except FileFault Unit) := do
  match change (← get) with
  | .ok t => set t; return .ok ()
  | .error fault => return .error fault

instance : FileSystem (StateM FileTree) where
  kind? path := return (← get).kind? path
  read path := return (← get).read path
  makeDirectory path := attempt (·.makeDirectory path)
  write path text := attempt (·.write path text)

end FileTree

end SleighForge
