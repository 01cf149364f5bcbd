import TagScript.Command.Run
import TagScript.Vocabulary.Value

/-! An engine: a host with commands and tags. It does not change while scripts run. -/

namespace TagScript

structure Engine (η : Type) where
  host : Host
  commands : CommandTable η
  resolvers : List (Tag.Resolver (World η))
  attributes : List (Tag.Attribute (World η))

structure EngineParts (η : Type) where
  host : Host
  commands : List (Command η) := []
  resolvers : List (Tag.Resolver (World η)) := []
  attributes : List (Tag.Attribute (World η)) := []

namespace EngineParts

variable {η : Type}

def withBuiltins (parts : EngineParts η) : EngineParts η :=
  { parts with
    commands := parts.commands ++ Command.builtins
    resolvers := parts.resolvers ++ Vocabulary.resolvers
    attributes := parts.attributes ++ Vocabulary.attributes }

def withCommand (command : Command η) (parts : EngineParts η) : EngineParts η :=
  { parts with commands := parts.commands ++ [command] }

def withResolver (resolver : Tag.Resolver (World η)) (parts : EngineParts η) : EngineParts η :=
  { parts with resolvers := parts.resolvers ++ [resolver] }

def withAttribute (handler : Tag.Attribute (World η)) (parts : EngineParts η) : EngineParts η :=
  { parts with attributes := parts.attributes ++ [handler] }

def text (parts : EngineParts η) : String :=
  Text.shownRecord "RuntimeBuilder"
    [("commands", Text.shownList (parts.commands.map fun command => Text.quoted command.name)),
      ("resolvers", Text.shownList (parts.resolvers.map fun resolver => Text.quoted resolver.name)),
      ("attributes", toString parts.attributes.length)]

def build (parts : EngineParts η) : Except CommandTableError (Engine η) := do
  let commands ← CommandTable.ofList parts.commands
  return { host := parts.host, commands, resolvers := parts.resolvers,
           attributes := parts.attributes }

end EngineParts

namespace Engine

variable {η : Type}

/-- A procedure is a firing at full speed on a queue of its own. -/
def callProcedure (fire : Firing η) (procedure : Tag.Procedure) : RunM η Tag.CallResult := do
  let options : FireOptions := { speed := some 0, definitions := procedure.definitions }
  return (← fire ⟨.named procedure.script, options⟩).map (·.outcome)

def vocabulary (engine : Engine η) (fire : Firing η) : Tag.Vocabulary (World η) where
  resolvers := engine.resolvers
  attributes := engine.attributes
  report := fun context message => engine.host.report context.queueId message
  note := World.log
  call := callProcedure fire
  timeout := engine.host.timeout

def context (engine : Engine η) (queue : Option QueueRef) (entry : Option Entry) :
    RunM η Tag.Context := do
  let world ← RunM.world
  return engine.host.prepare entry
    { queue, queueId := queue.map fun ref => (world.queue ref).id
      entry := entry.map Entry.text, script := entry.bind (·.script) }

def fillText (engine : Engine η) (fire : Firing η) (queue : Option QueueRef) (text : String) :
    RunM η String := do
  let context ← engine.context queue none
  Tag.underToken false (Tag.evaluateBounded (engine.vocabulary fire) context text)

def start (engine : Engine η) (host : η) : Tag.Evaluation (World η) :=
  let fresh : Tag.Evaluation (World η) :=
    { pieces := .empty, chains := .empty, token := false, bound := none, world := .start host }
  let shown := Tag.engineText (engine.vocabulary fun _ => RunM.outOfBudget) fresh
  let built := s!"Built runtime with {engine.commands.size} command name(s) and {shown}."
  { fresh with world := fresh.world.log .debug built }

end Engine

end TagScript
