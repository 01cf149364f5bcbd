import TagScript.Command.Basic

/-! Commands that say or record something: `debug`, `define` and `determine`. -/

namespace TagScript.Command

variable {η : Type}

def takeKeyword (word : String) (arguments : Arguments) : Bool × Arguments :=
  if 1 < arguments.positional.length then arguments.takeFlag word else (false, arguments)

def debug : Command η where
  name := "debug"
  minArgs := 1
  usage := "debug (log|error) <message>"
  bind := fun invocation arguments =>
    let (isError, arguments) := takeKeyword "error" arguments
    let arguments := if isError then arguments else (takeKeyword "log" arguments).2
    let (message, arguments) := arguments.remaining
    let invocation := if isError then invocation.setObject "level" "error" else invocation
    .ok (invocation.setObject "message" message, arguments)
  execute := fun scene invocation => do
    let queue ← scene.queueId
    let message := invocation.objectD "message" ""
    if invocation.object? "level" = some "error" then scene.host.error (some queue) message
    else scene.host.message (some queue) message
    return .ok invocation

/-- The name and value of a definition: two arguments, `name:value`, or a name that is true. -/
def nameAndValue (first : String) (second : Option String) : String × String :=
  match second with
  | some value => (first, value)
  | none => (Text.cutOnceText ':' first).getD (first, "true")

def define : Command η where
  name := "define"
  minArgs := 1
  usage := "define <name> [<value>]"
  bind := fun invocation arguments =>
    let (first, arguments) := arguments.positional? 0
    let (second, arguments) := arguments.positional? 1
    let (name, value) := nameAndValue (first.getD "") second
    if Text.isBlankText name then .error (.invalidArguments "definition name is empty")
    else
      let (rest, arguments) := arguments.remaining
      let value := if rest.isEmpty then value else s!"{value} {rest}"
      .ok ((invocation.setObject "name" name).setObject "value" value, arguments)
  execute := fun scene invocation =>
    match invocation.object? "name", invocation.object? "value" with
    | some name, some value => do
      RunM.modifyQueue scene.queue (Queue.define name value)
      scene.remark s!"Defined '{name}' as '{value}'."
      return .ok invocation
    | _, _ => return .error (.execution "arguments were not bound")

/-- Files a value under the firing of the entry, and stops the queue unless told not to. -/
def determine : Command η where
  name := "determine"
  minArgs := 1
  usage := "determine (passively) <value>"
  bind := fun invocation arguments =>
    let (isPassive, arguments) := takeKeyword "passively" arguments
    let (value, arguments) := arguments.remaining
    let invocation := if isPassive then invocation.setObject "passively" "true" else invocation
    .ok (invocation.setObject "value" value, arguments)
  execute := fun scene invocation => do
    let value := invocation.objectD "value" ""
    let fire := invocation.entry.fire.getD (← RunM.queue scene.queue).fire
    RunM.update (World.record scene.queue fire value)
    scene.remark s!"Determined '{value}'."
    if (invocation.object? "passively").isNone then Queue.stop scene.host scene.queue
    return .ok invocation

end TagScript.Command
