import Mathlib.Algebra.GroupWithZero.Nat
import TagScript.Scheduler.Tick

/-! Runs of a scheduler by itself. Its actions and callbacks are scripts that do with it whatever
they like; every action carries the terms on which it was set, and a journal tells when it
started. -/

namespace TagScript.Scheduler

/-- The terms on which a timer was set, and what it is to do. -/
structure Appointment (α : Type) where
  id : TimerId
  setAt : Nat
  delay : Duration
  /-- The length of the tick under way, if that tick was still to be counted down. -/
  owed : Nat
  work : α

/-- The time before which the timer should not fire. -/
def Appointment.deadline {α : Type} (appointment : Appointment α) : Nat :=
  appointment.setAt + appointment.delay.nanoseconds

/-- What an action, a callback or the host does, call by call, until it ends or crashes. All of them
share a memory `μ`, and may look at it and at the scheduler to choose what comes next. -/
inductive Script (α β μ : Type) where
  | finish
  | crash
  | set (plan : Schedule α) (next : TimerId → Script α β μ)
  | cancel (id : TimerId) (next : Script α β μ)
  | post (work : β) (next : Script α β μ)
  | spawn (work : β) (next : Script α β μ)
  | clear (next : Script α β μ)
  | look (next : Scheduler (Appointment α) β → μ → Script α β μ)
  | keep (memory : μ) (next : Script α β μ)

structure Program (α β μ : Type) where
  act : α → Script α β μ
  answer : β → Script α β μ

structure Start (α : Type) where
  appointment : Appointment α
  time : Nat

/-- A scheduler under observation, with the starts so far, latest first. -/
structure Journal (α β μ : Type) where
  scheduler : Scheduler (Appointment α) β
  memory : μ
  starts : List (Start α)

abbrev JournalM (α β μ : Type) := StateM (Journal α β μ)

variable {α β μ ρ : Type}

namespace Journal

def empty (memory : μ) : Journal α β μ := ⟨.empty, memory, []⟩

def now (journal : Journal α β μ) : Nat := journal.scheduler.now

def onScheduler (change : Scheduler (Appointment α) β → Scheduler (Appointment α) β)
    (journal : Journal α β μ) : Journal α β μ :=
  { journal with scheduler := change journal.scheduler }

def set (owed : Nat) (plan : Schedule α) (journal : Journal α β μ) :
    TimerId × Journal α β μ :=
  let action : Appointment α :=
    ⟨⟨journal.scheduler.nextId⟩, journal.now, plan.delay, owed, plan.action⟩
  let (id, scheduler) := journal.scheduler.schedule ⟨plan.delay, plan.timing, plan.dispatch, action⟩
  (id, { journal with scheduler })

def start (appointment : Appointment α) (journal : Journal α β μ) : Journal α β μ :=
  { journal with starts := ⟨appointment, journal.now⟩ :: journal.starts }

end Journal

instance : MonadStateOf (Scheduler (Appointment α) β) (JournalM α β μ) where
  get := do return (← getThe (Journal α β μ)).scheduler
  set scheduler := modifyThe (Journal α β μ) ({ · with scheduler })
  modifyGet change := modifyGetThe (Journal α β μ) fun journal =>
    let (result, scheduler) := change journal.scheduler
    (result, { journal with scheduler })

def Script.run (owed : Nat) : Script α β μ → Journal α β μ → Bool × Journal α β μ
  | .finish, journal => (true, journal)
  | .crash, journal => (false, journal)
  | .set plan next, journal =>
    let (id, journal) := journal.set owed plan
    (next id).run owed journal
  | .cancel id next, journal => next.run owed (journal.onScheduler (Scheduler.cancel id))
  | .post work next, journal =>
    next.run owed (journal.onScheduler (Scheduler.post (.callback work)))
  | .spawn work next, journal =>
    next.run owed (journal.onScheduler (Scheduler.spawn (.work work)))
  | .clear next, journal => next.run owed (journal.onScheduler Scheduler.clear)
  | .look next, journal => (next journal.scheduler journal.memory).run owed journal
  | .keep memory next, journal => next.run owed { journal with memory }

def Program.handlers (program : Program α β μ) (elapsed : Nat) :
    Handlers (JournalM α β μ) (Appointment α) β where
  perform appointment := do
    modifyThe (Journal α β μ) (Journal.start appointment)
    modifyGetThe (Journal α β μ) ((program.act appointment.work).run 0)
  deliver work := modifyGetThe (Journal α β μ) ((program.answer work).run elapsed)
  log _ _ := return

inductive Call (α β μ : Type) where
  | tick (elapsed : Duration)
  | use (script : Script α β μ)
  | work

namespace Call

def run (program : Program α β μ) : Call α β μ → JournalM α β μ Unit
  | tick elapsed => Scheduler.tick (program.handlers (clipped elapsed)) elapsed
  | use script => do
    let _ ← modifyGetThe (Journal α β μ) (script.run 0)
  | work => do
    let journal ← getThe (Journal α β μ)
    match journal.scheduler.takeJob? with
    | none => return
    | some (job, scheduler) =>
      MonadStateOf.set { journal with scheduler }
      runJob (program.handlers 0) job

def length : Call α β μ → Nat
  | tick elapsed => clipped elapsed
  | use _ | work => 0

end Call

/-- What a fresh scheduler comes to after the calls. -/
def play (program : Program α β μ) (memory : μ) (calls : List (Call α β μ)) : Journal α β μ :=
  ((calls.forM (Call.run program)).run (.empty memory)).2

def spent (calls : List (Call α β μ)) : Nat := (calls.map Call.length).sum

/-! Each step as a function of the journal. -/

namespace Program

def handled (program : Program α β μ) (owed : Nat) (journal : Journal α β μ) :
    Message β → Journal α β μ
  | .completed id => journal.onScheduler (complete id)
  | .callback work => ((program.answer work).run owed journal).2

def performed (program : Program α β μ) (appointment : Appointment α) (journal : Journal α β μ) :
    Journal α β μ :=
  ((program.act appointment.work).run 0 (journal.start appointment)).2

def fired (program : Program α β μ) (journal : Journal α β μ) (due : Due (Appointment α)) :
    Journal α β μ :=
  match due.dispatch with
  | .inline => program.performed due.action journal
  | .worker =>
    if journal.scheduler.isBusy due then journal else journal.onScheduler (dispatchToWorker due)

def counted (program : Program α β μ) (elapsed : Nat) (journal : Journal α β μ) : Journal α β μ :=
  let (due, aged) := journal.scheduler.collectDue elapsed
  due.foldl program.fired (journal.onScheduler fun _ => aged)

def ticked (program : Program α β μ) (elapsed : Duration) (journal : Journal α β μ) :
    Journal α β μ :=
  let begun := journal.onScheduler fun scheduler => (scheduler.advance elapsed).takeInbox.2
  let answered := journal.scheduler.inbox.foldl (program.handled (clipped elapsed)) begun
  program.counted (clipped elapsed) answered

def worked (program : Program α β μ) (journal : Journal α β μ) :
    Job (Appointment α) β → Journal α β μ
  | .timer id appointment =>
    (program.performed appointment journal).onScheduler (Scheduler.post (.completed id))
  | .work callback => journal.onScheduler (Scheduler.post (.callback callback))

end Program

def Call.after (program : Program α β μ) (journal : Journal α β μ) : Call α β μ → Journal α β μ
  | tick elapsed => program.ticked elapsed journal
  | use script => (script.run 0 journal).2
  | work =>
    match journal.scheduler.takeJob? with
    | none => journal
    | some (job, scheduler) => program.worked { journal with scheduler } job

theorem forM_run (step : ρ → JournalM α β μ Unit) (items : List ρ) (journal : Journal α β μ) :
    ((items.forM step).run journal).2 =
      items.foldl (fun journal item => ((step item).run journal).2) journal := by
  induction items generalizing journal with
  | nil => rfl
  | cons item rest ih => exact ih ((step item).run journal).2

theorem handle_run (program : Program α β μ) (owed : Nat) (message : Message β)
    (journal : Journal α β μ) :
    ((handle (program.handlers owed) message).run journal).2 =
      program.handled owed journal message := by
  cases message with
  | completed id => rfl
  | callback work =>
      simp only [handle, Program.handlers, ite_self]
      rfl

theorem runTimer_run (program : Program α β μ) (owed : Nat) (id : TimerId)
    (appointment : Appointment α) (journal : Journal α β μ) :
    ((runTimer (program.handlers owed) id appointment).run journal).2 =
      program.performed appointment journal := by
  simp only [runTimer, Program.handlers, ite_self]
  rfl

theorem scheduler_bind_run (next : Scheduler (Appointment α) β → JournalM α β μ ρ)
    (journal : Journal α β μ) :
    (getThe (Scheduler (Appointment α) β) >>= next).run journal =
      (next journal.scheduler).run journal :=
  rfl

theorem fire_run (program : Program α β μ) (owed : Nat) (due : Due (Appointment α))
    (journal : Journal α β μ) :
    ((fire (program.handlers owed) due).run journal).2 = program.fired journal due := by
  unfold fire Program.fired
  cases due.dispatch with
  | inline => exact runTimer_run program owed due.id due.action journal
  | worker =>
      rw [scheduler_bind_run]
      split <;> rfl

theorem tick_stages (handlers : Handlers (JournalM α β μ) (Appointment α) β) (elapsed : Duration)
    (journal : Journal α β μ) :
    ((tick handlers elapsed).run journal).2 =
      let begun := journal.onScheduler fun scheduler => (scheduler.advance elapsed).takeInbox.2
      let answered := ((journal.scheduler.inbox.forM (handle handlers)).run begun).2
      let (due, aged) := answered.scheduler.collectDue (clipped elapsed)
      ((due.forM (fire handlers)).run (answered.onScheduler fun _ => aged)).2 :=
  rfl

theorem tick_run (program : Program α β μ) (elapsed : Duration) (journal : Journal α β μ) :
    ((tick (program.handlers (clipped elapsed)) elapsed).run journal).2 =
      program.ticked elapsed journal := by
  simp only [tick_stages, forM_run, handle_run, fire_run]
  rfl

theorem runJob_run (program : Program α β μ) (job : Job (Appointment α) β)
    (journal : Journal α β μ) :
    ((runJob (program.handlers 0) job).run journal).2 = program.worked journal job := by
  cases job with
  | timer id appointment =>
      simp only [Program.worked, ← runTimer_run program 0 id]
      rfl
  | work callback => rfl

theorem Call.run_after (program : Program α β μ) (call : Call α β μ) (journal : Journal α β μ) :
    ((call.run program).run journal).2 = call.after program journal := by
  cases call with
  | tick elapsed => exact tick_run program elapsed journal
  | use script => rfl
  | work =>
      simp only [Call.run, Call.after, ← runJob_run]
      show ((match journal.scheduler.takeJob? with
        | none => return
        | some (job, scheduler) => do
          MonadStateOf.set { journal with scheduler }
          runJob (program.handlers 0) job : JournalM α β μ Unit).run journal).2 = _
      split <;> rfl

theorem play_eq (program : Program α β μ) (memory : μ) (calls : List (Call α β μ)) :
    play program memory calls = calls.foldl (Call.after program) (.empty memory) := by
  simp only [play, forM_run, Call.run_after]

end TagScript.Scheduler
