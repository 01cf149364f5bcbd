import TagScript.Engine.Revolve

/-! Firing scripts, ticking, and shutting down. Scripts may run scripts without end, so these take a
budget: it bounds how deep firings stand in one another and how many entries one drain executes. -/

namespace TagScript.Engine

variable {η : Type}

def findScript (source : ScriptSource) (world : World η) : Except FireError Script :=
  match source with
  | .inline script => .ok script
  | .named name =>
    match world.script? name with
    | some script => .ok script
    | none => .error (.unknownScript name)

/-- The queue for a firing: the live one of that id, or a new one. -/
def queueForFiring (engine : Engine η) (script : Script) (options : FireOptions) :
    RunM η (QueueRef × Bool) := do
  let id ← match options.id with
    | some id => pure id
    | none => RunM.updateGet (World.freshId (Text.lower script.name))
  RunM.updateGet
    (World.queueOrCreate id (.ofSpeed (options.speed.getD engine.host.defaultSpeed)))

/-- Prepares a queue for the entries of a firing. -/
def equip (options : FireOptions) (queue : Queue) : Queue :=
  let queue := options.definitions.foldl (fun queue (name, value) => queue.define name value) queue
  { queue with
    context := options.context <|> queue.context
    offMain := options.offMain || queue.offMain }

/-- Takes the outcome of a firing whose queue has stopped; otherwise only looks at it. -/
def outcomeOf (ref : QueueRef) (fire : FireId) : RunM η (Option (List String)) :=
  RunM.updateGet fun world =>
    if (world.queue ref).isStopped then
      let (outcome, outcomes) := world.outcomes.take fire
      (outcome, { world with outcomes })
    else (world.outcomes.get? fire, world)

/-- Puts the entries of a script on a queue and starts the queue if it is new. Scripts fired on the
way are fired by `inner`. -/
def fireWith (engine : Engine η) (inner : Firing η) (budget : Nat) : Firing η := fun request => do
  match findScript request.source (← RunM.world) with
  | .error error => return .error error
  | .ok script =>
    let (ref, created) ← engine.queueForFiring script request.options
    let fire ← RunM.updateGet World.freshFire
    RunM.update (World.markFired ref fire)
    RunM.modifyQueue ref fun queue =>
      (equip request.options (if created then { queue with fire } else queue)).addEntries
        (script.instantiate (some fire))
    let queueId := (← RunM.queue ref).id
    let made := if created then "new" else "existing"
    RunM.log .debug s!"Fired '{script.name}' on {made} queue '{queueId}'."
    if created then engine.startQueue inner budget ref
    return .ok ⟨ref, queueId, fire, ← outcomeOf ref fire⟩

def fire (engine : Engine η) : Nat → Firing η
  | 0 => fun _ => RunM.outOfBudget
  | budget + 1 => engine.fireWith (fire engine budget) budget

def takeBack (engine : Engine η) (work : AsyncWork) : RunM η Bool := do
  let background := (engine.commands.find? work.invocation.entry.command).bind (·.background)
  match background with
  | none => return true
  | some background =>
    match background.work work.invocation with
    | some value => background.finish work.queue value
    | none => do
      let id := (← RunM.queue work.queue).id
      engine.host.error (some id) s!"Async work for '{work.invocation.text}' panicked."
      return true

/-- Reports background work back to its queue; false if taking its result crashed. -/
def deliver (engine : Engine η) (work : AsyncWork) : RunM η Bool := do
  if work.holds then RunM.jot (.reported work.queue)
  let finished ← engine.takeBack work
  if finished && work.holds then RunM.release work.queue
  return finished

def handlers (engine : Engine η) (budget : Nat) :
    Scheduler.Handlers (RunM η) QueueRef AsyncWork where
  perform := fun ref => do
    engine.revolve (engine.fire budget) budget ref
    return true
  deliver := engine.deliver
  log := RunM.log

def settle (engine : Engine η) (budget : Nat) : Nat → RunM η Unit
  | 0 => RunM.outOfBudget
  | jobs + 1 => do
    match (← RunM.world).scheduler.takeJob? with
    | none => return
    | some (job, scheduler) =>
      set scheduler
      Scheduler.runJob (engine.handlers budget) job
      settle engine budget jobs

/-- Lets time pass. The pool is idle before and after. -/
def tick (engine : Engine η) (budget : Nat) (elapsed : Duration) : RunM η Unit := do
  Scheduler.tick (engine.handlers budget) elapsed
  engine.settle budget budget

def shutdown (engine : Engine η) : RunM η Unit := do
  let live := (← RunM.world).live
  RunM.log .debug s!"Shutting down {live.length} live queue(s)."
  live.forM fun (_, ref) => Queue.stop engine.host ref
  RunM.update fun world => { world with scheduler := world.scheduler.clear }

def text (engine : Engine η) (world : World η) : String :=
  Text.shownRecord "Runtime"
    [("now", world.now.text), ("scheduler", world.scheduler.text),
      ("commands", engine.commands.text),
      ("queues", Text.shownList (world.liveIds.map Text.quoted)),
      ("scripts", toString world.scripts.length)]

end TagScript.Engine
