import TagScript.Number.Integer

/-! The command line of the runner: one script, and a few options. An option given on the way is
checked when the next argument is understood, so the first fault that is understood is the one
that is told. -/

namespace TagScript.Runner

structure Options where
  script : String
  config : Option String := none
  speed : Option Int := none
  definitions : List String := []
  deriving DecidableEq, Repr

inductive UsageError where
  | unknownArgument
  | missingRequiredArgument
  | invalidValue
  | valueValidation
  | argumentConflict
  | tooManyValues
  | displayHelp
  | displayVersion
  deriving DecidableEq, Repr

def usageLine : String := "Usage: tessera [OPTIONS] <SCRIPT>"

def helpText : String :=
  String.intercalate "\n" [
    "An embeddable runtime for a tag-templated game scripting DSL: tag resolution, "
      ++ "script queues and command dispatch.",
    "",
    usageLine,
    "",
    "Arguments:",
    "  <SCRIPT>  The script file to run",
    "",
    "Options:",
    "  -c, --config <CONFIG>   Engine config file. Defaults to `<config dir>/tessera/tessera.toml`",
    "  -s, --speed <SPEED>     Queue speed in ticks for the fired script. `0` runs it instantly",
    "  -d, --def <NAME=VALUE>  Definitions for the fired queue (e.g., \"name=value\")",
    "  -h, --help              Print help",
    "  -V, --version           Print version",
    ""]

def versionText : String := "tessera 0.3.1-beta\n"

def UsageError.message : UsageError → String
  | .unknownArgument => "unexpected argument found"
  | .missingRequiredArgument => "the following required arguments were not provided:\n  <SCRIPT>"
  | .invalidValue => "a value is required but none was supplied"
  | .valueValidation => "invalid value for '--speed <SPEED>'"
  | .argumentConflict => "an argument cannot be used multiple times"
  | .tooManyValues => "unexpected value; no more were expected"
  | .displayHelp => "help was asked for"
  | .displayVersion => "the version was asked for"

def UsageError.report (error : UsageError) : String :=
  s!"error: {error.message}\n\n{usageLine}\n\nFor more information, try '--help'.\n"

inductive Slot where
  | script
  | config
  | speed
  | definition
  deriving DecidableEq, Repr

structure Given where
  script : Option String := none
  config : Option String := none
  speed : Option Int := none
  definitions : List String := []

namespace Given

def take (slot : Slot) (value : Option String) (given : Given) : Except UsageError Given :=
  match slot, value with
  | _, none => .error .invalidValue
  | .script, some value =>
    if value.isEmpty then .error .invalidValue else .ok { given with script := some value }
  | .config, some value =>
    if given.config.isSome then .error .argumentConflict
    else if value.isEmpty then .error .invalidValue
    else .ok { given with config := some value }
  | .speed, some value =>
    if given.speed.isSome then .error .argumentConflict
    else match Number.signed? value with
      | some ticks => .ok { given with speed := some ticks }
      | none => .error .valueValidation
  | .definition, some value => .ok { given with definitions := given.definitions ++ [value] }

end Given

/-- A command line read up to some argument. -/
structure LineReader where
  given : Given := {}
  pending : Option (Slot × Option String) := none
  hasScript : Bool := false
  plain : Bool := false

namespace LineReader

def resolve (reader : LineReader) : Except UsageError LineReader :=
  match reader.pending with
  | none => .ok reader
  | some (slot, value) => do
    return { reader with given := ← reader.given.take slot value, pending := none }

def attach (slot : Slot) (value : String) (reader : LineReader) : Except UsageError LineReader := do
  let reader ← reader.resolve
  return { reader with given := ← reader.given.take slot (some value) }

def await (slot : Slot) (reader : LineReader) : Except UsageError LineReader := do
  return { ← reader.resolve with pending := some (slot, none) }

def request (error : UsageError) (reader : LineReader) : Except UsageError LineReader := do
  let _ ← reader.resolve
  throw error

def longSlot? (name : String) : Option Slot :=
  match name with
  | "config" => some .config
  | "speed" => some .speed
  | "def" => some .definition
  | _ => none

def shortSlot? (letter : Char) : Option Slot :=
  match letter with
  | 'c' => some .config
  | 's' => some .speed
  | 'd' => some .definition
  | _ => none

def isLongRequest (name : String) : Option UsageError :=
  match name with
  | "help" => some .displayHelp
  | "version" => some .displayVersion
  | _ => none

def isShortRequest (letter : Char) : Option UsageError :=
  match letter with
  | 'h' => some .displayHelp
  | 'V' => some .displayVersion
  | _ => none

def long (name : List Char) (value : Option (List Char)) (reader : LineReader) :
    Except UsageError LineReader :=
  match longSlot? (String.ofList name), isLongRequest (String.ofList name), value with
  | some slot, _, some value => reader.attach slot (String.ofList value)
  | some slot, _, none => reader.await slot
  | none, some _, some _ => .error .tooManyValues
  | none, some error, none => reader.request error
  | none, none, _ => .error .unknownArgument

def short (letters : List Char) (reader : LineReader) : Except UsageError LineReader :=
  match letters with
  | [] => .ok reader
  | letter :: rest =>
    match shortSlot? letter, isShortRequest letter with
    | some slot, _ =>
      match rest with
      | [] => reader.await slot
      | '=' :: value => reader.attach slot (String.ofList value)
      | value => reader.attach slot (String.ofList value)
    | none, some error => reader.request error
    | none, none => .error .unknownArgument

def word (value : String) (reader : LineReader) : Except UsageError LineReader :=
  match reader.pending, reader.plain with
  | some (slot, none), false => .ok { reader with pending := some (slot, some value) }
  | _, _ =>
    if reader.hasScript then .error .unknownArgument
    else do
      return { ← reader.resolve with pending := some (.script, some value), hasScript := true }

def cutEquals (chars : List Char) : List Char × Option (List Char) :=
  match chars.span (· != '=') with
  | (name, _ :: value) => (name, some value)
  | (name, []) => (name, none)

def step (reader : LineReader) (argument : String) : Except UsageError LineReader :=
  if reader.plain then reader.word argument
  else match argument.toList with
    | ['-', '-'] => .ok { reader with plain := true }
    | '-' :: '-' :: rest =>
      let (name, value) := cutEquals rest
      reader.long name value
    | '-' :: letter :: rest => reader.short (letter :: rest)
    | _ => reader.word argument

end LineReader

def parseArguments (arguments : List String) : Except UsageError Options := do
  let reader ← arguments.foldlM LineReader.step {}
  let given := (← reader.resolve).given
  match given.script with
  | none => throw .missingRequiredArgument
  | some script =>
    return { script, config := given.config, speed := given.speed
             definitions := given.definitions }

end TagScript.Runner
