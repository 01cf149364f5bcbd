import TagScript.Queue.Stop
import TagScript.Script.Argument

/-! Commands: what a script can do. A command first binds its arguments and then executes. -/

namespace TagScript

inductive Fault where
  | invalidArguments (message : String)
  | execution (message : String)
  | other (message : String)
  | crash (message : Option String)
  deriving DecidableEq, Repr

def Fault.message : Fault → String
  | .invalidArguments message => message
  | .execution message => message
  | .other message => message
  | .crash message => message.getD "unknown panic"

abbrev Firing (η : Type) := FireRequest → RunM η (Except FireError FireResult)

structure Scene (η : Type) where
  host : Host
  fire : Firing η
  queue : QueueRef

namespace Scene

variable {η : Type}

def queueId (scene : Scene η) : RunM η String := do return (← RunM.queue scene.queue).id

def remark (scene : Scene η) (text : String) : RunM η Unit := do
  scene.host.remark (← scene.queueId) text

end Scene

structure Background (η : Type) where
  /-- The result of the work; nothing if it crashed. -/
  work : Invocation → Option String
  finish : QueueRef → String → RunM η Bool

structure Command (η : Type) where
  name : String
  aliases : List String := []
  minArgs : Nat := 0
  usage : String
  words : List String := []
  /-- Whether a `~` makes the queue wait for the work of this command. -/
  holdable : Bool := false
  bind : Invocation → Arguments → Except Fault (Invocation × Arguments) :=
    fun invocation arguments => .ok (invocation, arguments)
  execute : Scene η → Invocation → RunM η (Except Fault Invocation)
  background : Option (Background η) := none

inductive CommandTableError where
  | duplicateCommand (name : String)
  deriving DecidableEq, Repr

def CommandTableError.message : CommandTableError → String
  | .duplicateCommand name => s!"A command named '{name}' is already registered."

/-- Commands by their lowercase names and aliases. -/
structure CommandTable (η : Type) where
  commands : Table (Command η)

namespace CommandTable

variable {η : Type}

def empty : CommandTable η := ⟨[]⟩

def namesOf (command : Command η) : List String :=
  (command.name :: command.aliases).map Text.lower

/-- Adds a command under all its names, or none of them if one is taken. -/
def enroll (command : Command η) (table : CommandTable η) :
    Except CommandTableError Unit × CommandTable η :=
  match (namesOf command).find? table.commands.holds with
  | some taken => (.error (.duplicateCommand taken), table)
  | none =>
    (.ok (),
      ⟨(namesOf command).foldl (fun commands name => commands.set name command) table.commands⟩)

def register (command : Command η) (table : CommandTable η) :
    Except CommandTableError (CommandTable η) :=
  let (outcome, table) := table.enroll command
  outcome.map fun _ => table

def ofList (commands : List (Command η)) : Except CommandTableError (CommandTable η) :=
  commands.foldlM (fun table command => table.register command) empty

def find? (name : String) (table : CommandTable η) : Option (Command η) :=
  table.commands.get? (Text.lower name)

def size (table : CommandTable η) : Nat := table.commands.length

def text (table : CommandTable η) : String :=
  Text.shownRecord "CommandRegistry"
    [("commands", Text.shownList ((sortedTexts table.commands.names).map Text.quoted))]

end CommandTable

namespace Command

variable {η : Type}

/-- Hands the background part of an entry to the pool. The queue is held if the entry waits. -/
def runInBackground (scene : Scene η) (invocation : Invocation) : RunM η Unit := do
  let holds := invocation.entry.waits
  if holds then RunM.modifyQueue scene.queue Queue.hold
  RunM.update fun world =>
    { world with scheduler := world.scheduler.spawn (.work ⟨scene.queue, invocation, holds⟩) }
  if holds then RunM.jot (.handed scene.queue)

end Command

end TagScript
