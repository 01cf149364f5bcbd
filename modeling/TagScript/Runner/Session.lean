import TagScript.Runner.Drive
import TagScript.Runner.Load

/-! A session of the runner: from the command line to the exit code. -/

namespace TagScript.Runner

structure Plan where
  engine : Engine Unit
  rate : Duration
  script : Script
  options : FireOptions

def engineFor (host : Host) : Except CommandTableError (Engine Unit) :=
  (({ host } : EngineParts Unit).withBuiltins.withCommand Command.narrate).build

def tickRate (config : Config) : Duration := .ofMillis (max config.tickRateMs 1)

def Plan.make {m : Type → Type} [Monad m] (files : FileAccess m) (standardPath : Option String)
    (options : Options) : ExceptT RunnerError m Plan := do
  let some path := options.config <|> standardPath | throw (.config .noDirectory)
  let config ← ExceptT.mk (loadConfig files path)
  let engine ← ExceptT.mk (pure ((engineFor config.host).mapError .commands))
  let script ← ExceptT.mk (loadScript files options.script)
  let fireOptions ← ExceptT.mk (pure (fireOptions options))
  return { engine, rate := tickRate config, script, options := fireOptions }

def Plan.fire (plan : Plan) (budget : Nat) : RunM Unit (Except RunnerError FireResult) := do
  match ← plan.engine.fire budget ⟨.inline plan.script, plan.options⟩ with
  | .error error => return .error (.fire error)
  | .ok fired =>
    RunM.log .info s!"Started queue '{fired.queueId}'."
    return .ok fired

def outputLine? : Event → Option String
  | .host "narrate" [some queue, some text] => some s!"[{queue}] {text}"
  | _ => none

def errorLine? : Event → Option String
  | .log .error text => some s!"ERROR {text}"
  | _ => none

def outcomeLines (outcome : Option (List String)) : List String :=
  (outcome.getD []).map fun value => s!"determined: {value}"

def RunnerError.report (error : RunnerError) : String := s!"\nError: {error.message}\n"

structure Report where
  code : UInt32 := 0
  output : String := ""
  errors : String := ""

namespace Report

def ofUsage (error : UsageError) : Report :=
  match error with
  | .displayHelp => { output := helpText }
  | .displayVersion => { output := versionText }
  | _ => { code := 2, errors := error.report }

def ofError (error : RunnerError) : Report := { code := 1, errors := error.report }

def lines (texts : List String) : String := String.join (texts.map (· ++ "\n"))

def ofEvents (events : List Event) (ending : RunEnd) (outcome : Option (List String)) : Report :=
  { code := ending.exitCode
    output := lines (events.filterMap outputLine? ++ outcomeLines outcome)
    errors := lines (events.filterMap errorLine?) }

end Report

def hasSaid (text : String) (world : World Unit) : Bool :=
  (world.events.filterMap outputLine?).any fun line => Text.contains line text

def Plan.run (plan : Plan) (budget : Nat) (interruptAt : Option String) : RunM Unit Report := do
  match ← plan.fire budget with
  | .error error => return .ofError error
  | .ok fired =>
    let isInterrupted (world : World Unit) : Bool := interruptAt.any (hasSaid · world)
    let ending ← drive plan.engine budget plan.rate isInterrupted budget .zero
    let outcome ← finalOutcome fired
    return .ofEvents (← RunM.world).events.reverse ending outcome

def session (arguments : List String) (standardPath : Option String) (interruptAt : Option String)
    (budget : Nat) : StateM FileTable (Option Report) := do
  match parseArguments arguments with
  | .error error => return some (.ofUsage error)
  | .ok options =>
    match ← Plan.make FileTable.access standardPath options with
    | .error error => return some (.ofError error)
    | .ok plan => return ((plan.run budget interruptAt).run (plan.engine.start ())).map (·.1)

end TagScript.Runner
