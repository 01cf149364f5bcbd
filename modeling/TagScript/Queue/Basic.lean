import TagScript.Queue.Kind
import TagScript.Scheduler.Basic
import TagScript.Script.Block
import TagScript.Table

/-! Queues: entries that wait to be executed, with the data they share. -/

namespace TagScript

/-- Names a queue among all queues ever made, stopped ones included. -/
structure QueueRef where
  index : Nat
  deriving DecidableEq, Repr, Inhabited

inductive Progress where
  | pending
  | finished
  | broken
  deriving DecidableEq, Repr

/-- An entry on its way through a command: its filled arguments, the values bound from them and its
blocks. -/
structure Invocation where
  entry : Entry
  queue : String
  objects : Table String := []
  blocks : List Block := []
  progress : Progress := .pending

namespace Invocation

def object? (name : String) (invocation : Invocation) : Option String :=
  invocation.objects.get? name

def objectD (name fallback : String) (invocation : Invocation) : String :=
  (invocation.object? name).getD fallback

def setObject (name value : String) (invocation : Invocation) : Invocation :=
  { invocation with objects := invocation.objects.set name value }

def text (invocation : Invocation) : String := invocation.entry.text

end Invocation

inductive Phase where
  | constructing
  | running
  | stopped
  deriving DecidableEq, Repr

inductive StopAction where
  | release (queue : QueueRef)
  | notify (label : String)
  deriving DecidableEq, Repr

inductive Deed where
  | began
  | received (entries : List Entry)
  | started (entry : Entry)
  | executed (entry : Entry)
  | cleared
  | ranDry
  | stopped
  deriving DecidableEq, Repr

structure Queue where
  id : String
  kind : QueueKind
  phase : Phase
  paused : Bool
  /-- The time before which no entry runs. -/
  delayUntil : Option Duration
  /-- How many pieces of work the queue waits for. -/
  holds : Nat
  entries : List Entry
  definitions : Table String
  saved : Table Invocation
  context : Option (Table String)
  fire : FireId
  offMain : Bool
  timer : Option TimerId
  onStop : List StopAction
  history : List Deed

/-- What a queue does next. -/
inductive Step where
  | execute (entry : Entry)
  | wait
  | finish
  | halted

namespace Queue

def make (id : String) (kind : QueueKind) (fire : FireId) : Queue :=
  { id, kind, phase := .constructing, paused := false, delayUntil := none, holds := 0, entries := [],
    definitions := [], saved := [], context := none, fire, offMain := false, timer := none,
    onStop := [], history := [] }

instance : Inhabited Queue := ⟨make "" .instant ⟨0⟩⟩

def note (deed : Deed) (queue : Queue) : Queue := { queue with history := deed :: queue.history }

def isStopped (queue : Queue) : Bool := queue.phase == .stopped

def isDelayed (now : Duration) (queue : Queue) : Bool :=
  queue.delayUntil.any fun deadline => now.nanoseconds < deadline.nanoseconds

/-- Something keeps the queue from running an entry. -/
def isBlocked (now : Duration) (queue : Queue) : Bool :=
  queue.paused || queue.isDelayed now || 0 < queue.holds

/-- Decides what to do next, and takes out the entry to be executed. -/
def nextStep (now : Duration) (queue : Queue) : Step × Queue :=
  if queue.isStopped then (.halted, queue)
  else if queue.isBlocked now then (.wait, queue)
  else match queue.entries with
    | [] => (.finish, queue)
    | entry :: entries => (.execute entry, { queue with entries })

def isFinished (now : Duration) (queue : Queue) : Bool :=
  !queue.isStopped && queue.entries.isEmpty && !queue.isBlocked now

def stateText (now : Duration) (queue : Queue) : String :=
  match queue.phase with
  | .constructing => "constructing"
  | .stopped => "stopped"
  | .running =>
    if queue.paused then "paused" else if queue.isDelayed now then "delayed" else "running"

def Phase.text : Phase → String
  | .constructing => "Constructing"
  | .running => "Running"
  | .stopped => "Stopped"

def addEntries (entries : List Entry) (queue : Queue) : Queue :=
  { queue with entries := queue.entries ++ entries }.note (.received entries)

/-- Splices entries in before the one at the index, or at the end. -/
def injectEntries (index : Nat) (entries : List Entry) (queue : Queue) : Queue :=
  { queue with entries := queue.entries.take index ++ entries ++ queue.entries.drop index }.note
    (.received entries)

def clearEntries (queue : Queue) : Queue := { queue with entries := [] }.note .cleared

def launch (queue : Queue) : Queue := { queue with phase := .running }.note .began

def close (queue : Queue) : Queue :=
  { queue with phase := .stopped, entries := [], timer := none, onStop := [] }.note .stopped

def setPaused (paused : Bool) (queue : Queue) : Queue := { queue with paused }

def setDelay (deadline : Duration) (queue : Queue) : Queue :=
  { queue with delayUntil := some deadline }

def delayFor (duration now : Duration) (queue : Queue) : Queue :=
  queue.setDelay (now.addSaturating duration)

def hold (queue : Queue) : Queue := { queue with holds := queue.holds + 1 }

def release (queue : Queue) : Queue := { queue with holds := queue.holds - 1 }

def define (name value : String) (queue : Queue) : Queue :=
  { queue with definitions := queue.definitions.set (Text.lower name) value }

def definition? (name : String) (queue : Queue) : Option String :=
  queue.definitions.get? (Text.lower name)

def undefine (name : String) (queue : Queue) : Queue :=
  { queue with definitions := queue.definitions.erase (Text.lower name) }

def definitionNames (queue : Queue) : List String := sortedTexts queue.definitions.names

def save (name : String) (invocation : Invocation) (queue : Queue) : Queue :=
  { queue with saved := queue.saved.set (Text.lower name) invocation }

def saved? (name : String) (queue : Queue) : Option Invocation :=
  queue.saved.get? (Text.lower name)

def contextValue? (name : String) (queue : Queue) : Option String :=
  queue.context.bind (·.get? name)

def text (queue : Queue) : String :=
  Text.shownRecord "QueueHandle"
    [("id", Text.quoted queue.id), ("kind", queue.kind.text), ("state", Phase.text queue.phase),
      ("pending", toString queue.entries.length)]

end Queue

end TagScript
