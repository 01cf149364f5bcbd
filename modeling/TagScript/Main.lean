import TagScript.Runner.Session

/-! The program: runs one script file on the real clock. -/

namespace TagScript.Runner

def programBudget : Nat := 1000000000

def fileErrorOf : IO.Error → FileError
  | .noFileOrDirectory .. => .notFound
  | .permissionDenied .. => .denied
  | .alreadyExists .. => .alreadyExists
  | .inappropriateType _ code _ => if code = 21 then .isDirectory else .notDirectory
  | error => .other (toString error)

def attempt {α : Type} (action : IO α) : IO (Except FileError α) := do
  try
    return .ok (← action)
  catch error =>
    return .error (fileErrorOf error)

def directoryOf (path : String) : String :=
  String.intercalate "/" (Text.cutAllText '/' path).dropLast

def systemFiles : FileAccess IO where
  pathExists := fun path => do
    match ← attempt (IO.FS.Handle.mk path .read) with
    | .error .notFound => return false
    | _ => return true
  read := fun path => attempt (IO.FS.readFile path)
  write := fun path content => attempt do
    let directory := directoryOf path
    if !directory.isEmpty then IO.FS.createDirAll directory
    IO.FS.writeFile path content

def standardConfigPath : IO (Option String) := do
  match ← IO.getEnv "XDG_CONFIG_HOME", ← IO.getEnv "HOME" with
  | some directory, home =>
    if Text.startsWith directory "/" then return some (defaultConfigPath directory)
    else return home.map fun home => defaultConfigPath s!"{home}/.config"
  | none, home => return home.map fun home => defaultConfigPath s!"{home}/.config"

abbrev RunState := Tag.Evaluation (World Unit)

def tell (state : RunState) : IO RunState := do
  for event in state.world.events.reverse do
    if let some line := outputLine? event then IO.println line
    if let some line := errorLine? event then IO.eprintln line
  return { state with world.events := [] }

def perform {α : Type} (action : RunM Unit α) (state : RunState) : IO (α × RunState) := do
  match action.run state with
  | none => throw (IO.userError "The script outran its budget.")
  | some (result, state) => return (result, ← tell state)

partial def driveOnClock (plan : Plan) (last : Nat) (state : RunState) :
    IO (RunEnd × RunState) := do
  let now ← IO.monoNanosNow
  let (ending, state) ← perform (turn plan.engine programBudget ⟨now - last⟩ false) state
  match ending with
  | some ending => return (ending, state)
  | none =>
    IO.sleep (plan.rate.nanoseconds / 1000000).toUInt32
    driveOnClock plan now state

def carryOut (plan : Plan) : IO UInt32 := do
  let (fired, state) ← perform (plan.fire programBudget) (plan.engine.start ())
  match fired with
  | .error error =>
    IO.eprint error.report
    return 1
  | .ok fired =>
    let (ending, state) ← driveOnClock plan (← IO.monoNanosNow) state
    let (outcome, _) ← perform (finalOutcome fired) state
    (outcomeLines outcome).forM IO.println
    return ending.exitCode

end TagScript.Runner

open TagScript.Runner in
def main (arguments : List String) : IO UInt32 := do
  match parseArguments arguments with
  | .error error =>
    let report := Report.ofUsage error
    IO.print report.output
    IO.eprint report.errors
    return report.code
  | .ok options =>
    match ← Plan.make systemFiles (← standardConfigPath) options with
    | .error error =>
      IO.eprint error.report
      return 1
    | .ok plan => carryOut plan
