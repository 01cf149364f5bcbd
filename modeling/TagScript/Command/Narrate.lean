import TagScript.Command.Basic

/-! A command that speaks. It is not built in: what is said means something to the host alone. -/

namespace TagScript.Command

variable {η : Type}

def narrateEvent (queue text : String) : Event := .host "narrate" [some queue, some text]

def narrate : Command η where
  name := "narrate"
  aliases := ["echo"]
  usage := "narrate <text>"
  bind := fun invocation arguments =>
    let (text, arguments) := arguments.remaining
    .ok (invocation.setObject "text" text, arguments)
  execute := fun scene invocation => do
    RunM.emit (narrateEvent (← scene.queueId) (invocation.objectD "text" ""))
    return .ok invocation

end TagScript.Command
