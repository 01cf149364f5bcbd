import TagScript.Command.Flow
import TagScript.Command.Record

/-! The command that fires another script, and the list of all built-in commands. -/

namespace TagScript.Command

variable {η : Type}

def definitionPairs (text : String) : List (String × String) :=
  (Text.cutAllText '|' text).filterMap (Text.cutOnceText '=')

def badPair? (text : String) : Option String :=
  (Text.cutAllText '|' text).find? fun pair => !pair.isEmpty && (Text.cutOnceText '=' pair).isNone

/-- Binds the speed, the id and the definitions of a script to be fired. -/
def bindRunOptions (invocation : Invocation) (arguments : Arguments) :
    Except Fault (Invocation × Arguments) := do
  let (speed, arguments) := arguments.prefixed? "speed"
  let invocation ← match speed with
    | none => pure invocation
    | some raw =>
      match Number.signed? raw with
      | none => throw (.invalidArguments s!"'{raw}' is not a tick count")
      | some ticks => pure (invocation.setObject "speed" (toString ticks))
  let (id, arguments) := arguments.prefixed? "id"
  let invocation := id.elim invocation (invocation.setObject "id" ·)
  let (defs, arguments) := arguments.prefixed? "def"
  match defs with
  | none => return (invocation, arguments)
  | some text =>
    match badPair? text with
    | some pair => throw (.invalidArguments s!"definition '{pair}' must look like name=value")
    | none => return (invocation.setObject "defs" text, arguments)

def runOptions (invocation : Invocation) : FireOptions :=
  { id := invocation.object? "id"
    speed := (invocation.object? "speed").bind Number.signed?
    definitions := definitionPairs (invocation.objectD "defs" "") }

def awaitEnd (queue target : QueueRef) : RunM η Unit := do
  RunM.jot (.awaits queue target)
  Queue.atEnd target (.release queue)

def run : Command η where
  name := "run"
  minArgs := 1
  usage := "run <script> (id:<id>) (speed:<ticks>) (def:<name>=<value>|...) (instantly)"
  words := ["id", "speed", "def"]
  holdable := true
  bind := fun invocation arguments =>
    let (atOnce, arguments) := takeKeyword "instantly" arguments
    let invocation := if atOnce then invocation.setObject "speed" "0" else invocation
    let (name, arguments) := arguments.positional? 0
    bindRunOptions (invocation.setObject "script" (name.getD "")) arguments
  execute := fun scene invocation => do
    let name := invocation.objectD "script" ""
    let waits := invocation.entry.waits
    if waits then RunM.modifyQueue scene.queue Queue.hold
    match ← scene.fire ⟨.named name, runOptions invocation⟩ with
    | .error error =>
      if waits then RunM.release scene.queue
      return .error (.execution error.message)
    | .ok result =>
      if waits then awaitEnd scene.queue result.queue
      scene.remark s!"Started '{name}' on queue '{result.queueId}'."
      return .ok (invocation.setObject "created_queue" result.queueId)

def builtins : List (Command η) :=
  [debug, define, determine, inject, queue, repeatBlock, run, stop, wait]

end TagScript.Command
