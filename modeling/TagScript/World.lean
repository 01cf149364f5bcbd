import TagScript.Outcome
import TagScript.Scheduler.Tick
import TagScript.Tag.Evaluate

/-! The state of a running engine. Queues are never forgotten: a stopped one is only no longer live.
The host may keep a state `η` of its own. -/

namespace TagScript

structure AsyncWork where
  queue : QueueRef
  invocation : Invocation
  holds : Bool

/-- What is kept of a run for the record alone. A moment in the life of a queue is told by the number
of deeds that were done to the queue before. -/
inductive Mark where
  | fired (fire : FireId) (queue : QueueRef) (deeds : Nat)
  | determined (fire : FireId) (queue : QueueRef) (deeds : Nat) (value : String)
  | dropped (fire : FireId)
  deriving DecidableEq, Repr

/-- What scripts did, in the order in which it happened; kept for the record alone. -/
inductive Note where
  | filled (queue : QueueRef) (entry : Entry)
  | message (queue : Option String) (text : String)
  | error (queue : Option String) (text : String)
  | determined (fire : FireId) (value : String)
  /-- A waiting entry of a queue fired a script on the target. -/
  | awaits (queue target : QueueRef)
  /-- A waiting entry of a queue handed work to the pool. -/
  | handed (queue : QueueRef)
  /-- Work of a waiting entry was reported back. -/
  | reported (queue : QueueRef)
  /-- A queue gave up a hold that it did not have. -/
  | overdrawn (queue : QueueRef)
  deriving DecidableEq, Repr

structure World (η : Type) where
  scheduler : Scheduler QueueRef AsyncWork
  queues : Array Queue
  /-- The live queues by their lowercase ids. -/
  live : Table QueueRef
  counter : Nat
  /-- Scripts by their lowercase names. -/
  scripts : Table Script
  outcomes : OutcomeStore
  /-- How many names for firings were given out. -/
  fires : Nat
  /-- How many procedure calls are under way. -/
  calls : Nat
  events : List Event
  marks : List Mark
  notes : List Note
  host : η

namespace World

variable {η : Type}

def start (host : η) : World η :=
  { scheduler := .empty, queues := #[], live := [], counter := 0, scripts := [],
    outcomes := default, fires := 0, calls := 0, events := [], marks := [], notes := [], host }

def emit (event : Event) (world : World η) : World η :=
  { world with events := event :: world.events }

def log (level : LogLevel) (text : String) (world : World η) : World η :=
  world.emit (.log level text)

def jot (note : Note) (world : World η) : World η :=
  { world with notes := note :: world.notes }

def now (world : World η) : Duration := world.scheduler.time

def queue (ref : QueueRef) (world : World η) : Queue :=
  world.queues[ref.index]?.getD default

def modifyQueue (ref : QueueRef) (change : Queue → Queue) (world : World η) : World η :=
  { world with queues := world.queues.modify ref.index change }

def checkHold (ref : QueueRef) (world : World η) : World η :=
  if ref.index < world.queues.size ∧ (world.queue ref).holds = 0 then world.jot (.overdrawn ref)
  else world

def liveQueue? (id : String) (world : World η) : Option QueueRef :=
  world.live.get? (Text.lower id)

def liveIds (world : World η) : List String :=
  sortedTexts (world.live.map fun (_, ref) => (world.queue ref).id)

def freshFire (world : World η) : FireId × World η :=
  (⟨world.fires⟩, { world with fires := world.fires + 1 })

def makeQueue (id : String) (kind : QueueKind) (world : World η) : QueueRef × World η :=
  let (fire, world) := world.freshFire
  (⟨world.queues.size⟩, { world with queues := world.queues.push (.make id kind fire) })

def queueOrCreate (id : String) (kind : QueueKind) (world : World η) :
    (QueueRef × Bool) × World η :=
  match world.liveQueue? id with
  | some ref => ((ref, false), world)
  | none =>
    let (ref, world) := world.makeQueue id kind
    ((ref, true), { world with live := world.live.set (Text.lower id) ref })

def removeLive (ref : QueueRef) (world : World η) : Bool × World η :=
  let key := Text.lower (world.queue ref).id
  if world.live.get? key = some ref then (true, { world with live := world.live.erase key })
  else (false, world)

/-- Tries numbers above `counter` until one gives an id that no live queue has. -/
def freshIdFrom (live : Table QueueRef) (stem : String) (counter : Nat) : Nat → String × Nat
  | 0 => (s!"{stem}_{counter + 1}", counter + 1)
  | tries + 1 =>
    let candidate := s!"{stem}_{counter + 1}"
    if live.holds (Text.lower candidate) then freshIdFrom live stem (counter + 1) tries
    else (candidate, counter + 1)

/-- A queue id that starts with the stem and is not live. No more numbers are tried than there are
live queues, and one. -/
def freshId (stem : String) (world : World η) : String × World η :=
  let (id, counter) := freshIdFrom world.live stem world.counter world.live.length
  (id, { world with counter })

def script? (name : String) (world : World η) : Option Script :=
  world.scripts.get? (Text.lower name)

def registerScript (script : Script) (world : World η) : World η :=
  (world.log .debug
      s!"Registered script '{script.name}' ({script.entries.length} entries).")
    |> fun world => { world with scripts := world.scripts.set (Text.lower script.name) script }

def logDropped (world : World η) (oldest : FireId) : World η :=
  world.log .debug s!"Dropped unpolled determinations of fire {oldest.number}."

def markFired (ref : QueueRef) (fire : FireId) (world : World η) : World η :=
  { world with marks := .fired fire ref (world.queue ref).history.length :: world.marks }

def record (ref : QueueRef) (fire : FireId) (value : String) (world : World η) : World η :=
  let (dropped, outcomes) := world.outcomes.record fire value
  let mark := .determined fire ref (world.queue ref).history.length value
  dropped.foldl logDropped
    { world with
      outcomes
      marks := mark :: (dropped.map .dropped ++ world.marks)
      notes := .determined fire value :: world.notes }

end World

/-- A computation on the state of an engine; it gives nothing if a script outruns its budget. -/
abbrev RunM (η : Type) := Tag.EvalM (World η)

namespace RunM

variable {η : Type}

def world : RunM η (World η) := Tag.EvalM.world

def update (change : World η → World η) : RunM η Unit := Tag.EvalM.modifyWorld change

def updateGet {α : Type} (change : World η → α × World η) : RunM η α := do
  let (result, world) := change (← world)
  Tag.EvalM.setWorld world
  return result

def emit (event : Event) : RunM η Unit := update (World.emit event)

def log (level : LogLevel) (text : String) : RunM η Unit := update (World.log level text)

def jot (note : Note) : RunM η Unit := update (World.jot note)

def queue (ref : QueueRef) : RunM η Queue := do return (← world).queue ref

def modifyQueue (ref : QueueRef) (change : Queue → Queue) : RunM η Unit :=
  update (World.modifyQueue ref change)

def release (ref : QueueRef) : RunM η Unit := do
  update (World.checkHold ref)
  modifyQueue ref Queue.release

def now : RunM η Duration := do return (← world).now

instance : MonadStateOf (Scheduler QueueRef AsyncWork) (RunM η) where
  get := do return (← world).scheduler
  set scheduler := update ({ · with scheduler })
  modifyGet change := updateGet fun world =>
    let (result, scheduler) := change world.scheduler
    (result, { world with scheduler })

/-- A script outran its budget. -/
def outOfBudget {α : Type} : RunM η α := StateT.lift none

end RunM

end TagScript
