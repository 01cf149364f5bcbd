import TagScript.Scheduler.Tick

/-! Drills: timers that do what they were told when they were set. They exercise a scheduler with one
worker, whose runs can be held at a gate. -/

namespace TagScript.Scheduler

/-- What a drilled timer does when it fires: it passes the gate if it must, reports, sets another
timer, cancels one, posts a callback, and crashes. -/
structure Drill where
  label : String
  delay : Duration
  repeats : Bool
  onWorker : Bool
  gated : Bool
  next : Option Drill
  cancels : Option Nat
  posts : Option String
  crashes : Bool

structure DrillCallback where
  label : String
  crashes : Bool

structure DrillYard where
  scheduler : Scheduler Drill DrillCallback
  timers : List TimerId
  gate : Nat
  events : List Event

namespace DrillYard

def start : DrillYard := ⟨.empty, [], 0, []⟩

def isCancelledAt (index : Nat) (yard : DrillYard) : Bool :=
  (yard.timers[index]?).any fun timer => yard.scheduler.isCancelled timer

end DrillYard

abbrev DrillM := StateM DrillYard

namespace DrillM

instance : MonadStateOf (Scheduler Drill DrillCallback) DrillM where
  get := do return (← getThe DrillYard).scheduler
  set scheduler := modifyThe DrillYard ({ · with scheduler })
  modifyGet change := modifyGetThe DrillYard fun yard =>
    let (result, scheduler) := change yard.scheduler
    (result, { yard with scheduler })

def emit (event : Event) : DrillM Unit :=
  modifyThe DrillYard fun yard => { yard with events := event :: yard.events }

end DrillM

namespace Drill

def plan (drill : Drill) : Schedule Drill :=
  let plan := if drill.repeats then Schedule.repeating drill.delay drill
    else Schedule.once drill.delay drill
  if drill.onWorker then plan.onWorker else plan

def set (drill : Drill) : DrillM TimerId := do
  let yard ← getThe DrillYard
  let (timer, scheduler) := yard.scheduler.schedule drill.plan
  MonadStateOf.set { yard with scheduler, timers := yard.timers ++ [timer] }
  DrillM.emit (.log .trace s!"Scheduled unit #{timer.number} ({drill.plan.timing.text}).")
  return timer

def cancelAt (index : Nat) : DrillM Unit :=
  modifyThe DrillYard fun yard =>
    match yard.timers[index]? with
    | some timer => { yard with scheduler := yard.scheduler.cancel timer }
    | none => yard

def post (callback : DrillCallback) : DrillM Unit :=
  modifyThe DrillYard fun yard =>
    { yard with scheduler := yard.scheduler.post (.callback callback) }

def perform (drill : Drill) : DrillM Bool := do
  if drill.gated then modifyThe DrillYard fun yard => { yard with gate := yard.gate - 1 }
  DrillM.emit (.host "fire" [some drill.label])
  match drill.next with
  | some next => let _ ← next.set
  | none => pure ()
  match drill.cancels with
  | some index => cancelAt index
  | none => pure ()
  match drill.posts with
  | some label => post ⟨label, false⟩
  | none => pure ()
  return !drill.crashes

def handlers : Handlers DrillM Drill DrillCallback where
  perform := perform
  deliver := fun callback => do
    DrillM.emit (.host "posted" [some callback.label])
    return !callback.crashes
  log := fun level text => DrillM.emit (.log level text)

def isHeld (gate : Nat) (job : Job Drill DrillCallback) : Bool :=
  match job with
  | .timer _ drill => drill.gated && gate == 0
  | .work _ => false

def work : Nat → DrillM Unit
  | 0 => return
  | jobs + 1 => do
    let yard ← getThe DrillYard
    match yard.scheduler.takeJob? with
    | none => return
    | some (job, scheduler) =>
      if isHeld yard.gate job then return
      MonadStateOf.set { yard with scheduler }
      runJob handlers job
      work jobs

def settle : DrillM Unit := do
  work (← getThe DrillYard).scheduler.jobs.length

def tick (elapsed : Duration) : DrillM Unit := do
  Scheduler.tick handlers elapsed
  settle

def openGate (runs : Nat) : DrillM Unit := do
  modifyThe DrillYard fun yard => { yard with gate := yard.gate + runs }
  settle

end Drill

end TagScript.Scheduler
