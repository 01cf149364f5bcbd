import TagScript.Duration
import TagScript.Text.Quoted

/-! Timers on a logical clock. The clock moves only when it is ticked; each tick counts every timer
down. What a timer does is of no concern here: it carries an action `α`, and work posted back to
the ticking thread is a callback `β`. -/

namespace TagScript

structure TimerId where
  number : Nat
  deriving DecidableEq, Repr, Inhabited

inductive Timing where
  | once
  | every (period : Duration)
  deriving DecidableEq, Repr

def Timing.text : Timing → String
  | .once => "Once"
  | .every period => s!"Every({period.text})"

/-- Where an action runs: during the tick, or on a worker, one run of a timer at a time. -/
inductive Dispatch where
  | inline
  | worker
  deriving DecidableEq, Repr

def Dispatch.text : Dispatch → String
  | .inline => "Inline"
  | .worker => "Worker"

structure Schedule (α : Type) where
  delay : Duration
  timing : Timing
  dispatch : Dispatch
  action : α

namespace Schedule

variable {α : Type}

def once (delay : Duration) (action : α) : Schedule α := ⟨delay, .once, .inline, action⟩

/-- Fires first after one period. -/
def repeating (period : Duration) (action : α) : Schedule α :=
  ⟨period, .every period, .inline, action⟩

def onWorker (schedule : Schedule α) : Schedule α := { schedule with dispatch := .worker }

def text (schedule : Schedule α) : String :=
  Text.shownRecord "Schedulable"
    [("delay", schedule.delay.text), ("timing", schedule.timing.text),
      ("dispatch", schedule.dispatch.text)]

end Schedule

/-- A timer that is set; it fires once its countdown reaches zero. -/
structure Timer (α : Type) where
  id : TimerId
  countdown : Int
  timing : Timing
  dispatch : Dispatch
  action : α
  cancelled : Bool
  /-- A run of this timer is on a worker and has not been reported back. -/
  inFlight : Bool

/-- A timer that came due, as it was when it did. -/
structure Due (α : Type) where
  id : TimerId
  dispatch : Dispatch
  action : α
  inFlight : Bool

inductive Message (β : Type) where
  | completed (id : TimerId)
  | callback (work : β)

/-- Work for the pool: a run of a timer, or work whose callback is posted at its end. -/
inductive Job (α β : Type) where
  | timer (id : TimerId) (action : α)
  | work (callback : β)

structure Scheduler (α β : Type) where
  timers : List (Timer α)
  nextId : Nat
  /-- Nanoseconds on the clock, which has 64 bits. -/
  now : Nat
  inbox : List (Message β)
  jobs : List (Job α β)

namespace Scheduler

variable {α β : Type}

def empty : Scheduler α β := ⟨[], 1, 0, [], []⟩

instance : Inhabited (Scheduler α β) := ⟨empty⟩

/-- The clock starts over when it runs out of bits. -/
def clockRange : Nat := Nat.pow 2 64

def time (scheduler : Scheduler α β) : Duration := ⟨scheduler.now⟩

def size (scheduler : Scheduler α β) : Nat := scheduler.timers.length

def find? (id : TimerId) (scheduler : Scheduler α β) : Option (Timer α) :=
  scheduler.timers.find? (·.id == id)

def schedule (plan : Schedule α) (scheduler : Scheduler α β) : TimerId × Scheduler α β :=
  let id : TimerId := ⟨scheduler.nextId⟩
  let timer : Timer α :=
    { id, countdown := plan.delay.nanoseconds, timing := plan.timing, dispatch := plan.dispatch,
      action := plan.action, cancelled := false, inFlight := false }
  (id, { scheduler with timers := scheduler.timers ++ [timer], nextId := scheduler.nextId + 1 })

def modifyTimer (id : TimerId) (change : Timer α → Timer α) (scheduler : Scheduler α β) :
    Scheduler α β :=
  { scheduler with
    timers := scheduler.timers.map fun timer => if timer.id = id then change timer else timer }

def cancel (id : TimerId) (scheduler : Scheduler α β) : Scheduler α β :=
  scheduler.modifyTimer id ({ · with cancelled := true })

/-- Whether a timer was cancelled. One that has left the list counts as cancelled. -/
def isCancelled (id : TimerId) (scheduler : Scheduler α β) : Bool :=
  match scheduler.find? id with
  | some timer => timer.cancelled
  | none => true

def post (message : Message β) (scheduler : Scheduler α β) : Scheduler α β :=
  { scheduler with inbox := scheduler.inbox ++ [message] }

def spawn (job : Job α β) (scheduler : Scheduler α β) : Scheduler α β :=
  { scheduler with jobs := scheduler.jobs ++ [job] }

def clear (scheduler : Scheduler α β) : Scheduler α β :=
  { scheduler with timers := [], inbox := [] }

def clipped (elapsed : Duration) : Nat := min elapsed.nanoseconds (clockRange - 1)

def advance (elapsed : Duration) (scheduler : Scheduler α β) : Scheduler α β :=
  { scheduler with now := (scheduler.now + clipped elapsed) % clockRange }

def takeInbox (scheduler : Scheduler α β) : List (Message β) × Scheduler α β :=
  (scheduler.inbox, { scheduler with inbox := [] })

def complete (id : TimerId) (scheduler : Scheduler α β) : Scheduler α β :=
  scheduler.modifyTimer id ({ · with inFlight := false })

end Scheduler

namespace Timer

variable {α : Type}

/-- A timer counted down, and whether it came due. A repeating one starts its next period where the
last one ended. -/
def age (elapsed : Nat) (timer : Timer α) : Timer α × Bool :=
  if timer.cancelled then (timer, false)
  else
    let countdown := timer.countdown - elapsed
    if 0 < countdown then ({ timer with countdown }, false)
    else match timer.timing with
      | .once => ({ timer with countdown, cancelled := true }, true)
      | .every period =>
        ({ timer with countdown := countdown + max period.nanoseconds 1 }, true)

def due (timer : Timer α) : Due α := ⟨timer.id, timer.dispatch, timer.action, timer.inFlight⟩

end Timer

namespace Scheduler

variable {α β : Type}

/-- Counts every timer down; the due ones are given back in order, the cancelled ones leave. -/
def collectDue (elapsed : Nat) (scheduler : Scheduler α β) : List (Due α) × Scheduler α β :=
  let aged := scheduler.timers.map (Timer.age elapsed)
  ((aged.filter (·.2)).map (·.1.due),
    { scheduler with timers := (aged.map (·.1)).filter (!·.cancelled) })

def isBusy (due : Due α) (scheduler : Scheduler α β) : Bool :=
  match scheduler.find? due.id with
  | some timer => timer.inFlight
  | none => due.inFlight

def dispatchToWorker (due : Due α) (scheduler : Scheduler α β) : Scheduler α β :=
  (scheduler.modifyTimer due.id ({ · with inFlight := true })).spawn (.timer due.id due.action)

def takeJob? (scheduler : Scheduler α β) : Option (Job α β × Scheduler α β) :=
  match scheduler.jobs with
  | [] => none
  | job :: jobs => some (job, { scheduler with jobs })

def text (scheduler : Scheduler α β) : String :=
  Text.shownRecord "Scheduler"
    [("units", toString scheduler.size), ("now", scheduler.time.text)]

end Scheduler

end TagScript
