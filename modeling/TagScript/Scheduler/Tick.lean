import TagScript.Event
import TagScript.Scheduler.Basic

/-! One tick of a scheduler that is part of a larger state: messages first, then the timers that
came due, in the order in which they were set. -/

namespace TagScript.Scheduler

/-- How actions and callbacks are carried out; the answer is false if one crashed. -/
structure Handlers (m : Type → Type) (α β : Type) where
  perform : α → m Bool
  deliver : β → m Bool
  log : LogLevel → String → m Unit

variable {m : Type → Type} {α β : Type} [Monad m] [MonadStateOf (Scheduler α β) m]

def update (change : Scheduler α β → Scheduler α β) : m Unit := do
  set (change (← getThe (Scheduler α β)))

def runTimer (handlers : Handlers m α β) (id : TimerId) (action : α) : m Unit := do
  let finished ← handlers.perform action
  if !finished then handlers.log .error s!"Scheduled unit #{id.number} panicked."

def handle (handlers : Handlers m α β) (message : Message β) : m Unit :=
  match message with
  | .completed id => update (m := m) (α := α) (β := β) (complete id)
  | .callback work => do
    let finished ← handlers.deliver work
    if !finished then handlers.log .error "A scheduler callback panicked; it was discarded."

/-- Fires a due timer: at once, or on the pool unless its last run is still there. -/
def fire (handlers : Handlers m α β) (due : Due α) : m Unit :=
  match due.dispatch with
  | .inline => runTimer handlers due.id due.action
  | .worker => do
    let scheduler ← getThe (Scheduler α β)
    if scheduler.isBusy due then
      handlers.log .trace s!"Unit #{due.id.number} is still running on a worker; skipped."
    else set (scheduler.dispatchToWorker due)

/-- Moves the clock, handles the messages posted before, and fires what came due. -/
def tick (handlers : Handlers m α β) (elapsed : Duration) : m Unit := do
  update (m := m) (α := α) (β := β) (advance elapsed)
  let (messages, emptied) := (← getThe (Scheduler α β)).takeInbox
  set emptied
  messages.forM (handle handlers)
  let (due, aged) := (← getThe (Scheduler α β)).collectDue (clipped elapsed)
  set aged
  due.forM (fire handlers)

def runJob (handlers : Handlers m α β) (job : Job α β) : m Unit :=
  match job with
  | .timer id action => do
    runTimer handlers id action
    update (m := m) (α := α) (β := β) (post (.completed id))
  | .work callback => update (m := m) (α := α) (β := β) (post (.callback callback))

end TagScript.Scheduler
