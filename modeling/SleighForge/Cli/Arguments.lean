import SleighForge.Config
import SleighForge.Text.Numeral

/-!
# Command line arguments

An option is given by a letter after one hyphen or by a name after two. Letters without a value may
stand together, and the value of a letter may follow it at once. A name and its value may be joined
by an equals sign. Nothing but options is taken.
-/

namespace SleighForge.Cli

open Text

/-- The options. -/
inductive Choice where
  | inputFile
  | name
  | family
  | endian
  | alignment
  | bitness
  | printRegisters
  | omitOpcodes
  | omitExamples
  | skipCombining
  | lenient
  | additionalRegisters
  | outputDirectory
  | verbose
  | version
  | help
  deriving DecidableEq, Repr

namespace Choice

/-- The option of a letter. -/
def ofLetter? : Char → Option Choice
  | 'i' => some inputFile
  | 'n' => some name
  | 'f' => some family
  | 'e' => some endian
  | 'a' => some alignment
  | 'b' => some bitness
  | 'o' => some outputDirectory
  | 'v' => some verbose
  | _ => none

/-- The option of a name. -/
def ofName? : String → Option Choice
  | "input-file" => some inputFile
  | "processor-name" => some name
  | "processor-family" => some family
  | "endian" => some endian
  | "alignment" => some alignment
  | "bitness" => some bitness
  | "print-registers-only" => some printRegisters
  | "omit-opcodes" => some omitOpcodes
  | "omit-example-instructions" => some omitExamples
  | "skip-instruction-combining" => some skipCombining
  | "lenient" => some lenient
  | "additional-registers" => some additionalRegisters
  | "output-dir" => some outputDirectory
  | "verbose" => some verbose
  | "version" => some version
  | "help" => some help
  | _ => none

/-- The option is followed by a value. -/
def takesValue : Choice → Bool
  | inputFile | name | family | endian | alignment | bitness | additionalRegisters
  | outputDirectory => true
  | _ => false

end Choice

/-- Why arguments are refused. -/
inductive UsageFault where
  | unknownOption (text : String)
  | missingValue (text : String)
  | unexpectedValue (text : String)
  | extraArgument (text : String)
  | missingInput
  | badValue (option value : String)
  | badPath (path : String)
  deriving DecidableEq, Repr

/-- The message about the arguments. -/
def UsageFault.message : UsageFault → String
  | unknownOption text => s!"no such option: {text}"
  | missingValue text => s!"option {text} requires an argument"
  | unexpectedValue text => s!"option {text} does not take a value"
  | extraArgument text => s!"unexpected extra argument: {text}"
  | missingInput => "missing option -i / --input-file"
  | badValue option value => s!"invalid value for {option}: {value}"
  | badPath path => s!"the path {path} cannot be used"

/-- An option with its value, which is empty where the option takes none. -/
abbrev Given := Choice × String

/-- What one argument says. -/
inductive Reading where
  /-- It is no option. -/
  | positional
  /-- It gives options. -/
  | options (given : List Given)
  /-- It gives options and then one whose value is the next argument. -/
  | wanting (given : List Given) (choice : Choice)
  deriving DecidableEq, Repr

/-- Letters after one hyphen. -/
def readLetters (argument : String) : List Char → Except UsageFault Reading
  | [] => .ok (.options [])
  | c :: cs =>
    match Choice.ofLetter? c with
    | none => .error (.unknownOption argument)
    | some choice =>
      if choice.takesValue then
        .ok (if cs.isEmpty then .wanting [] choice else .options [(choice, String.ofList cs)])
      else
        match readLetters argument cs with
        | .ok (.options given) => .ok (.options ((choice, "") :: given))
        | .ok (.wanting given last) => .ok (.wanting ((choice, "") :: given) last)
        | other => other

/-- A name after two hyphens, perhaps with a value after an equals sign. -/
def readName (argument : String) (cs : List Char) : Except UsageFault Reading :=
  let (name, rest) := cs.span (· != '=')
  match Choice.ofName? (String.ofList name), rest with
  | none, _ => .error (.unknownOption argument)
  | some choice, [] => .ok (if choice.takesValue then .wanting [] choice else .options [(choice, "")])
  | some choice, _ :: value =>
    if choice.takesValue then .ok (.options [(choice, String.ofList value)])
    else .error (.unexpectedValue argument)

/-- Reads one argument. A hyphen alone is no option. -/
def readArgument (argument : String) : Except UsageFault Reading :=
  match argument.toList with
  | '-' :: '-' :: cs => readName argument cs
  | '-' :: c :: cs => readLetters argument (c :: cs)
  | _ => .ok .positional

/-- The options that arguments give, and the arguments that are no options. Two hyphens alone end
the options. -/
def readArguments : List String → Except UsageFault (List Given × List String)
  | [] => .ok ([], [])
  | argument :: rest => do
    if argument = "--" then return ([], rest)
    match ← readArgument argument with
    | .positional =>
      let (given, extra) ← readArguments rest
      return (given, argument :: extra)
    | .options now =>
      let (given, extra) ← readArguments rest
      return (now ++ given, extra)
    | .wanting now choice =>
      match rest with
      | [] => throw (.missingValue argument)
      | value :: rest =>
        let (given, extra) ← readArguments rest
        return (now ++ (choice, value) :: given, extra)

/-- What a run of the program is to do. -/
structure Options where
  inputFile : String
  settings : Settings
  printRegisters : Bool
  skipCombining : Bool
  lenient : Bool
  additionalRegisters : List String
  outputDirectory : String
  verbose : Bool

/-- What the arguments ask for. -/
inductive Request where
  | version
  | help
  | generate (options : Options)

/-- The value of an option that is given last. -/
def last? (given : List Given) (choice : Choice) : Option String :=
  (given.reverse.find? (·.1 = choice)).map (·.2)

/-- The option is given at least once. -/
def isGiven (given : List Given) (choice : Choice) : Bool :=
  given.any (·.1 = choice)

/-- A positive number, or the default where the option is not given. -/
def positive (given : List Given) (choice : Choice) (option : String) (fallback : Int) :
    Except UsageFault Int :=
  match last? given choice with
  | none => .ok fallback
  | some text =>
    match readInt .standard 10 text.toList with
    | .ok n => if 1 ≤ n then .ok n else .error (.badValue option text)
    | .error _ => .error (.badValue option text)

/-- The byte order, or the default where it is not given. -/
def byteOrder (given : List Given) (fallback : String) : Except UsageFault String :=
  match last? given .endian with
  | none => .ok fallback
  | some text =>
    if (ByteOrder.ofName? text).isSome then .ok text else .error (.badValue "--endian" text)

/-- The names in the values of an option, separated by commas and blanks. -/
def listedNames (given : List Given) (choice : Choice) : List String :=
  (given.filter (·.1 = choice)).flatMap fun (_, value) =>
    words (value.map fun c => if c = ',' then ' ' else c)

/-- The options of a run. -/
def toOptions (given : List Given) : Except UsageFault Options := do
  let defaults : Settings := {}
  let some inputFile := last? given .inputFile | throw .missingInput
  let endian ← byteOrder given defaults.endian
  let alignment ← positive given .alignment "--alignment" defaults.alignment
  let bitness ← positive given .bitness "--bitness" defaults.bitness
  return {
    inputFile
    settings := {
      name := (last? given .name).getD defaults.name
      family := (last? given .family).getD defaults.family
      endian
      alignment
      bitness
      omitOpcodes := isGiven given .omitOpcodes
      omitExamples := isGiven given .omitExamples }
    printRegisters := isGiven given .printRegisters
    skipCombining := isGiven given .skipCombining
    lenient := isGiven given .lenient
    additionalRegisters := listedNames given .additionalRegisters
    outputDirectory := (last? given .outputDirectory).getD "."
    verbose := isGiven given .verbose }

/-- Reads the arguments. A request for the version or for help comes before all checks of values;
of the two the first counts. -/
def readRequest (arguments : List String) : Except UsageFault Request := do
  let (given, extra) ← readArguments arguments
  match given.find? fun (choice, _) => choice = .version ∨ choice = .help with
  | some (.version, _) => return .version
  | some _ => return .help
  | none =>
    let options ← toOptions given
    match extra with
    | [] => return .generate options
    | argument :: _ => throw (.extraArgument argument)

end SleighForge.Cli
