import TagScript.Engine.Basic

/-! Executing one entry: definitions are substituted, tags are filled, blocks and arguments are
sorted out, and then the command runs. A failure is reported and stays with the entry. -/

namespace TagScript

/-- What became of an entry. -/
inductive EntryOutcome where
  | executed
  /-- The command was never executed. -/
  | broken
  /-- Binding or execution went wrong. -/
  | failed
  deriving DecidableEq, Repr

def EntryOutcome.text : EntryOutcome → String
  | .executed => "Executed"
  | .broken => "Broken"
  | .failed => "Failed"

namespace Engine

variable {η : Type}

def saveWord : String := "save"

def substituteArgument (engine : Engine η) (queue : Queue) (entry : Entry) (template : Template) :
    RunM η String := do
  if !template.isSubstituted then return template.raw
  let (text, missing) := Definition.substitute queue.definition? template.raw
  missing.forM fun name =>
    engine.host.error (some queue.id) s!"Unknown definition '%{name}%' in '{entry.text}'."
  return text

def substituteDefinitions (engine : Engine η) (queue : Queue) (entry : Entry) : RunM η Entry := do
  if !entry.hasDefinitions then return entry
  return { entry with arguments := ← entry.templates.mapM (engine.substituteArgument queue entry) }

/-- Offers an undeclared argument to the host. -/
def offerToHost (engine : Engine η) (entry : Entry) (word value : String) : RunM η Bool := do
  let claimed := engine.host.claims entry word value
  if claimed then RunM.emit (.claim entry.text word value)
  return claimed

def bindingFailure (command : Command η) (entry : Entry) (fault : Fault) : String × EntryOutcome :=
  match fault with
  | .invalidArguments message =>
    (s!"Invalid arguments in '{entry.text}': {message}. Usage: {command.usage}", .broken)
  | .crash _ => (s!"Command panicked while binding '{entry.text}': {fault.message}", .failed)
  | _ => (s!"Error while binding '{entry.text}': {fault.message}", .failed)

def executionFailure (command : Command η) (entry : Entry) (fault : Fault) : String :=
  match fault with
  | .invalidArguments message =>
    s!"Invalid arguments in '{entry.text}': {message}. Usage: {command.usage}"
  | .crash _ => s!"Command panicked while executing '{entry.text}': {fault.message}"
  | _ => s!"Error while executing '{entry.text}': {fault.message}"

def runCommand (engine : Engine η) (fire : Firing η) (ref : QueueRef) (command : Command η)
    (invocation : Invocation) (arguments : Arguments) (saveName : Option String) :
    RunM η EntryOutcome := do
  let queueId := invocation.queue
  let entry := invocation.entry
  match command.bind invocation arguments with
  | .error fault =>
    let (message, outcome) := bindingFailure command entry fault
    engine.host.error (some queueId) message
    return outcome
  | .ok (invocation, arguments) =>
    let unread := Text.spaced arguments.unread
    if !arguments.unread.isEmpty then
      RunM.log .debug s!"[{queueId}] '{command.name}' ignored argument(s): {unread}"
    match ← command.execute ⟨engine.host, fire, ref⟩ invocation with
    | .error fault =>
      engine.host.error (some queueId) (executionFailure command entry fault)
      return .failed
    | .ok invocation =>
      saveName.forM fun name =>
        RunM.modifyQueue ref (Queue.save name { invocation with progress := .finished })
      return .executed

/-- Sorts the filled arguments and runs the command if there are enough of them. -/
def invoke (engine : Engine η) (fire : Firing η) (ref : QueueRef) (command : Command η)
    (invocation : Invocation) : RunM η EntryOutcome := do
  let queueId := invocation.queue
  let entry := invocation.entry
  let sorted := Arguments.ofFilled (command.words ++ [saveWord]) entry.arguments
  let (saveName, sorted) := sorted.takePrefixed saveWord
  let arguments ← sorted.offer (engine.offerToHost entry)
  if arguments.size < command.minArgs then
    engine.host.error (some queueId)
      (s!"'{entry.text}' needs at least {command.minArgs} argument(s) but got {arguments.size}. "
        ++ s!"Usage: {command.usage}")
    return .broken
  if entry.waits && !command.holdable then
    RunM.log .warn
      s!"[{queueId}] '~' has no effect on '{command.name}'; it does not hold its queue."
  engine.runCommand fire ref command invocation arguments saveName

/-- The blocks of filled arguments; without an opening brace there are none. -/
def blocksOfFilled (filled : List String) : Except BlockError (List Block) :=
  if filled.contains openBrace then blocksOf filled else .ok []

def executeEntry (engine : Engine η) (fire : Firing η) (ref : QueueRef) (entry : Entry) :
    RunM η EntryOutcome := do
  let queue ← RunM.queue ref
  if engine.host.debug then RunM.emit (engine.host.tellEntry queue.id entry.text)
  let entry ← engine.substituteDefinitions queue entry
  let context ← engine.context (some ref) (some entry)
  let filled ← Tag.underToken false
    (Tag.fillArguments (engine.vocabulary fire) context entry.arguments)
  RunM.jot (.filled ref { entry with arguments := filled })
  match engine.commands.find? entry.command with
  | none =>
    engine.host.error (some queue.id) s!"Unknown command '{entry.command}' in '{entry.text}'."
    return .broken
  | some command =>
    match blocksOfFilled filled with
    | .error error =>
      engine.host.error (some queue.id) s!"Malformed block in '{entry.text}': {error.message}"
      return .broken
    | .ok blocks =>
      engine.invoke fire ref command
        { entry := { entry with arguments := filled }, queue := queue.id, blocks }

end Engine

end TagScript
