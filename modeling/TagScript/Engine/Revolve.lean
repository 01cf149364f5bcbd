import TagScript.Engine.Execute

/-! Running queues. An instant queue is drained at once; a timed one runs an entry each period. An
instant queue that has to wait goes on as a timed one. -/

namespace TagScript.Engine

variable {η : Type}

def takeStep (ref : QueueRef) : RunM η Step :=
  RunM.updateGet fun world =>
    let (step, queue) := (world.queue ref).nextStep world.now
    (step, world.modifyQueue ref fun _ => queue)

/-- How a queue is revolved: once each period, on a worker if it runs off the main thread. -/
def revolutions (ref : QueueRef) (queue : Queue) : Schedule QueueRef :=
  let plan := Schedule.repeating queue.kind.period ref
  if queue.offMain then plan.onWorker else plan

/-- Sets the timer that revolves a queue, unless it has one or has stopped. -/
def ensureScheduled (ref : QueueRef) : RunM η Unit := do
  let queue ← RunM.queue ref
  if queue.timer.isSome || queue.isStopped then return
  let plan := revolutions ref queue
  let timer ← RunM.updateGet fun world =>
    let (timer, scheduler) := world.scheduler.schedule plan
    (timer, { world with scheduler })
  RunM.log .trace s!"Scheduled unit #{timer.number} ({plan.timing.text})."
  RunM.modifyQueue ref fun queue => { queue with timer := some timer }

def executeTaken (engine : Engine η) (fire : Firing η) (ref : QueueRef) (entry : Entry) :
    RunM η Unit := do
  RunM.modifyQueue ref (Queue.note (.started entry))
  let _ ← engine.executeEntry fire ref entry
  RunM.modifyQueue ref (Queue.note (.executed entry))

def finishQueue (engine : Engine η) (ref : QueueRef) : RunM η Unit := do
  RunM.modifyQueue ref (Queue.note .ranDry)
  Queue.stop engine.host ref

/-- Executes entries until the queue has to wait or is done. -/
def drain (engine : Engine η) (fire : Firing η) (ref : QueueRef) : Nat → RunM η Unit
  | 0 => RunM.outOfBudget
  | budget + 1 => do
    match ← takeStep ref with
    | .execute entry =>
      engine.executeTaken fire ref entry
      drain engine fire ref budget
    | .wait =>
      let queue ← RunM.queue ref
      RunM.log .debug
        s!"Instant queue '{queue.id}' has to wait; continuing on the scheduler."
      RunM.modifyQueue ref fun queue => { queue with kind := .afterWaiting }
      ensureScheduled ref
    | .finish => engine.finishQueue ref
    | .halted => return

def step (engine : Engine η) (fire : Firing η) (ref : QueueRef) : RunM η Unit := do
  match ← takeStep ref with
  | .execute entry =>
    engine.executeTaken fire ref entry
    let world ← RunM.world
    if (world.queue ref).isFinished world.now then engine.finishQueue ref
  | .finish => engine.finishQueue ref
  | .wait | .halted => return

def startQueue (engine : Engine η) (fire : Firing η) (budget : Nat) (ref : QueueRef) :
    RunM η Unit := do
  let queue ← RunM.queue ref
  if queue.phase != .constructing then return
  RunM.modifyQueue ref Queue.launch
  RunM.log .debug s!"Starting queue '{queue.id}' ({queue.kind.text})."
  if queue.kind.isInstant then engine.drain fire ref budget
  else
    engine.step fire ref
    ensureScheduled ref

def revolve (engine : Engine η) (fire : Firing η) (budget : Nat) (ref : QueueRef) :
    RunM η Unit := do
  let queue ← RunM.queue ref
  if queue.phase != .running then return
  if queue.kind.isInstant then engine.drain fire ref budget else engine.step fire ref

end TagScript.Engine
