import TagScript.Proofs.Engine.HoldsBalance
import TagScript.Proofs.Scheduler.Punctuality

/-! Giving a hold back. A waiting entry that hands work to the pool takes a hold of its queue, and the tick
that takes the work up again gives the hold back. The completion of the work comes first: if it breaks
down, the hold stays. -/

namespace TagScript

open Tag.EvalM (run_bind_of_run_some)

variable {η : Type}

namespace World

def HeldOnceLess (ref : QueueRef) (world later : World η) : Prop :=
  (later.queue ref).holds + 1 = (world.queue ref).holds

/-- The queue is held, and nothing is under way but timers that revolve it. -/
structure Stranded (ref : QueueRef) (world : World η) : Prop where
  runs : (world.queue ref).phase = .running
  timed : (world.queue ref).kind.isInstant = false
  held : 0 < (world.queue ref).holds
  inbox : world.scheduler.inbox = []
  jobs : world.scheduler.jobs = []
  timers : ∀ timer ∈ world.scheduler.timers, timer.dispatch = .inline ∧ timer.action = ref

instance (ref : QueueRef) : DecidablePred (@Stranded η ref) := fun _ =>
  decidable_of_iff _
    ⟨fun ⟨runs, timed, held, inbox, jobs, timers⟩ => ⟨runs, timed, held, inbox, jobs, timers⟩,
      fun ⟨runs, timed, held, inbox, jobs, timers⟩ =>
        (⟨runs, timed, held, inbox, jobs, timers⟩ : _ ∧ _ ∧ _ ∧ _ ∧ _ ∧ _)⟩

variable {ref : QueueRef} {world : World η}

theorem holds_release :
    (((world.checkHold ref).modifyQueue ref Queue.release).queue ref).holds =
      (world.queue ref).holds - 1 := by
  have checked : (world.checkHold ref).queue ref = world.queue ref := by
    unfold checkHold
    split <;> rfl
  rcases Nat.lt_or_ge ref.index (world.checkHold ref).queues.size with made | missing
  · rw [queue_modifyQueue_self made, checked]
    rfl
  · -- A queue that was never made has no holds.
    rw [← checked, queue_of_size_le missing, queue_of_size_le (by simpa using missing)]
    rfl

theorem heldOnceLess_hold (made : ref.index < world.queues.size) :
    (world.modifyQueue ref Queue.hold).HeldOnceLess ref world := by
  rw [HeldOnceLess, queue_modifyQueue_self made]
  rfl

theorem Stranded.count (stranded : world.Stranded ref) (elapsed : Duration) :
    let counting := (world.scheduler.advance elapsed).takeInbox.2.collectDue (Scheduler.clipped elapsed)
    (∀ due ∈ counting.1, due.dispatch = .inline ∧ due.action = ref) ∧
      Stranded ref { world with scheduler := counting.2 } := by
  obtain ⟨runs, timed, held, _, jobs, timers⟩ := stranded
  have aged (timer : Timer QueueRef) (listed : timer ∈ world.scheduler.timers) :
      (timer.age (Scheduler.clipped elapsed)).1.dispatch = .inline ∧
        (timer.age (Scheduler.clipped elapsed)).1.action = ref := by
    have revolves := timers timer listed
    rcases timer.age_cases (Scheduler.clipped elapsed) with
      ⟨_, same⟩ | ⟨_, _, same⟩ | ⟨_, _, _, same⟩ | ⟨_, _, _, _, same⟩ <;> simpa [same] using revolves
  refine ⟨fun due member => ?_, ⟨runs, timed, held, rfl, jobs, fun timer member => ?_⟩⟩
  · obtain ⟨result, ripe, rfl⟩ := List.mem_map.1 member
    obtain ⟨timer, listed, rfl⟩ := List.mem_map.1 (List.mem_filter.1 ripe).1
    exact aged timer listed
  · obtain ⟨result, ripe, rfl⟩ := List.mem_map.1 (List.mem_filter.1 member).1
    obtain ⟨timer, listed, rfl⟩ := List.mem_map.1 ripe
    exact aged timer listed

end World

namespace Engine

variable {ref : QueueRef} {engine : Engine η} {budget : Nat} {elapsed : Duration} {work : AsyncWork}
  {command : Command η} {background : Background η} {completed : Bool}
  {start before taken : Tag.Evaluation (World η)}

/-! A tick, seen from one of the messages that were posted before it. -/

def tickUntil (engine : Engine η) (budget : Nat) (elapsed : Duration)
    (early : List (Message AsyncWork)) : RunM η Unit := do
  Scheduler.update fun scheduler : Scheduler QueueRef AsyncWork =>
    (scheduler.advance elapsed).takeInbox.2
  early.forM (Scheduler.handle (engine.handlers budget))

def reporting (work : AsyncWork) (before : Tag.Evaluation (World η)) : Tag.Evaluation (World η) :=
  { before with world := before.world.jot (.reported work.queue) }

def takeUp (engine : Engine η) (budget : Nat) (work : AsyncWork) : RunM η Unit :=
  Scheduler.handle (engine.handlers budget) (.callback work)

theorem tick_split {early late : List (Message AsyncWork)}
    (inbox : start.world.scheduler.inbox = early ++ .callback work :: late) :
    (engine.tick budget elapsed).run start =
      (do
        engine.tickUntil budget elapsed early
        engine.takeUp budget work
        engine.tickFrom budget elapsed late : RunM η Unit).run start := by
  rw [tick_run, inbox]
  simp only [tickUntil, takeUp, tickFrom, List.forM_eq_forM, List.forM_append, List.forM_cons,
    bind_assoc]
  rfl

/-! What becomes of the hold. -/

theorem runInBackground_run {scene : Scene η} (same : scene.queue = work.queue)
    (waits : work.invocation.entry.waits = true) (holds : work.holds = true)
    (made : work.queue.index < start.world.queues.size) :
    ∃ handed, (Command.runInBackground scene work.invocation).run start = some ((), handed) ∧
      handed.world.scheduler = start.world.scheduler.spawn (.work work) ∧
      handed.world.HeldOnceLess work.queue start.world := by
  obtain ⟨queue, invocation, _⟩ := work
  subst same holds
  simp only [Command.runInBackground, show invocation.entry.waits = true from waits, if_true]
  exact ⟨_, rfl, rfl, World.heldOnceLess_hold made⟩

theorem takeBack_eq_finish
    (found : engine.commands.find? work.invocation.entry.command = some command)
    (part : command.background = some background) {value : String}
    (works : background.work work.invocation = some value) :
    engine.takeBack work = background.finish work.queue value := by
  simp only [takeBack, found, Option.bind_some, part, works]

theorem takeBack_of_crash (before : Tag.Evaluation (World η))
    (found : engine.commands.find? work.invocation.entry.command = some command)
    (part : command.background = some background)
    (crashes : background.work work.invocation = none) :
    ∃ taken, (engine.takeBack work).run before = some (true, taken) ∧
      taken.world.queues = before.world.queues := by
  simp only [takeBack, found, Option.bind_some, part, crashes]
  exact ⟨_, rfl, rfl⟩

theorem deliver_run (holds : work.holds = true)
    (taking : (engine.takeBack work).run (reporting work before) = some (completed, taken)) :
    ∃ after, (engine.deliver work).run before = some (completed, after) ∧
      (after.world.queue work.queue).holds =
        if completed then (taken.world.queue work.queue).holds - 1
        else (taken.world.queue work.queue).holds := by
  have reports : (engine.deliver work).run before =
      (do
        let finished ← engine.takeBack work
        if finished && work.holds then RunM.release work.queue
        return finished : RunM η Bool).run (reporting work before) := by
    simp only [deliver, holds, if_true]
    rfl
  rw [reports, run_bind_of_run_some taking]
  cases completed with
  | true =>
      simp only [holds, Bool.and_self, if_true]
      exact ⟨_, rfl, World.holds_release⟩
  | false => exact ⟨_, rfl, rfl⟩

theorem takeUp_run (budget : Nat) (holds : work.holds = true)
    (taking : (engine.takeBack work).run (reporting work before) = some (completed, taken)) :
    ∃ after, (engine.takeUp budget work).run before = some ((), after) ∧
      (after.world.queue work.queue).holds =
        if completed then (taken.world.queue work.queue).holds - 1
        else (taken.world.queue work.queue).holds := by
  obtain ⟨after, delivered, left⟩ := deliver_run holds taking
  have handled : (engine.takeUp budget work).run before =
      (do if !completed then
        RunM.log .error "A scheduler callback panicked; it was discarded." : RunM η Unit).run after :=
    run_bind_of_run_some delivered _
  rw [handled]
  cases completed with
  | true => exact ⟨after, rfl, left⟩
  | false => exact ⟨_, rfl, left⟩

/-! A hold that nothing gives back. -/

theorem revolve_held (runs : (start.world.queue ref).phase = .running)
    (timed : (start.world.queue ref).kind.isInstant = false)
    (held : 0 < (start.world.queue ref).holds) (fire : Firing η) :
    (engine.revolve fire budget ref).run start = some ((), start) := by
  have blocked : (start.world.queue ref).isBlocked start.world.now = true := by
    simp [Queue.isBlocked, held]
  have waits : (start.world.queue ref).nextStep start.world.now = (.wait, start.world.queue ref) := by
    simp [Queue.nextStep, Queue.isStopped, runs, blocked]
  have steps : (takeStep ref).run start = some (.wait, start) := by
    have moved : (takeStep ref).run start =
        some (((start.world.queue ref).nextStep start.world.now).1,
          { start with world := start.world.modifyQueue ref fun _ =>
            ((start.world.queue ref).nextStep start.world.now).2 }) := rfl
    rw [moved, waits, World.modifyQueue_self]
  have goes : (engine.revolve fire budget ref).run start = (engine.step fire ref).run start := by
    simp only [revolve, RunM.queue, bind_assoc, RunM.world, Tag.EvalM.run_world_bind, pure_bind, runs,
      timed]
    rfl
  rw [goes, step, run_bind_of_run_some steps]
  rfl

theorem fire_stranded (stranded : start.world.Stranded ref) {dues : List (Due QueueRef)}
    (revolves : ∀ due ∈ dues, due.dispatch = .inline ∧ due.action = ref) :
    (dues.forM (Scheduler.fire (engine.handlers budget))).run start = some ((), start) := by
  have performs : ((engine.handlers budget).perform ref).run start = some (true, start) :=
    run_bind_of_run_some
      (revolve_held stranded.runs stranded.timed stranded.held (engine.fire budget)) _
  induction dues with
  | nil => rfl
  | cons due rest ih =>
      obtain ⟨⟨inline, action⟩, others⟩ := List.forall_mem_cons.1 revolves
      have fires : (Scheduler.fire (engine.handlers budget) due).run start = some ((), start) := by
        rw [Scheduler.fire, inline]
        simp only [Scheduler.runTimer, action]
        rw [run_bind_of_run_some performs]
        rfl
      rw [List.forM_eq_forM, List.forM_cons, run_bind_of_run_some fires]
      exact ih others

theorem tick_stranded (stranded : start.world.Stranded ref) (budget : Nat) (elapsed : Duration) :
    ∃ finish, (engine.tick (budget + 1) elapsed).run start = some ((), finish) ∧
      finish.world.queue ref = start.world.queue ref ∧ finish.world.Stranded ref := by
  let counting :=
    (start.world.scheduler.advance elapsed).takeInbox.2.collectDue (Scheduler.clipped elapsed)
  let later : Tag.Evaluation (World η) :=
    { start with world := { start.world with scheduler := counting.2 } }
  obtain ⟨revolves, counted⟩ := stranded.count elapsed
  have counts : (engine.tick (budget + 1) elapsed).run start =
      (do
        counting.1.forM (Scheduler.fire (engine.handlers (budget + 1)))
        engine.settle (budget + 1) (budget + 1) : RunM η Unit).run later := by
    rw [tick_run, stranded.inbox]
    rfl
  have fires : (counting.1.forM (Scheduler.fire (engine.handlers (budget + 1)))).run later =
      some ((), later) := fire_stranded counted revolves
  have idle : later.world.scheduler.takeJob? = none := by
    rw [Scheduler.takeJob?, counted.jobs]
  refine ⟨later, ?_, rfl, counted⟩
  rw [counts, run_bind_of_run_some fires, settle, RunM.world, Tag.EvalM.run_world_bind, idle]
  rfl

theorem ticks_stranded (stranded : start.world.Stranded ref) (budget : Nat) (ticks : List Duration) :
    ∃ finish, (ticks.forM (engine.tick (budget + 1))).run start = some ((), finish) ∧
      finish.world.queue ref = start.world.queue ref := by
  induction ticks generalizing start with
  | nil => exact ⟨start, rfl, rfl⟩
  | cons elapsed rest ih =>
      obtain ⟨later, ticked, same, stranded⟩ := tick_stranded stranded budget elapsed
      obtain ⟨finish, went, kept⟩ := ih stranded
      rw [List.forM_eq_forM, List.forM_cons, run_bind_of_run_some ticked]
      exact ⟨finish, went, kept.trans same⟩

/-- A waiting entry that hands work to the pool takes one hold of its queue. The tick that takes the work up
again gives one hold back, just if there is one left: always where the work crashed, and else unless its
completion crashes, whatever the completion did to the holds itself. After such a crash the hold stays. -/
theorem hold_returned_iff
    (found : engine.commands.find? work.invocation.entry.command = some command)
    (part : command.background = some background)
    (waits : work.invocation.entry.waits = true) (holds : work.holds = true) :
    (∀ scene : Scene η, scene.queue = work.queue →
      ∀ start : Tag.Evaluation (World η), work.queue.index < start.world.queues.size →
        ∃ handed, (Command.runInBackground scene work.invocation).run start = some ((), handed) ∧
          handed.world.scheduler = start.world.scheduler.spawn (.work work) ∧
          handed.world.HeldOnceLess work.queue start.world) ∧
    (∀ start, (Scheduler.runJob (engine.handlers budget) (.work work)).run start =
      some ((), { start with world := { start.world with
        scheduler := start.world.scheduler.post (.callback work) } })) ∧
    (∀ elapsed early late, ∀ start : Tag.Evaluation (World η),
      start.world.scheduler.inbox = early ++ .callback work :: late →
        (engine.tick budget elapsed).run start =
          (do
            engine.tickUntil budget elapsed early
            engine.takeUp budget work
            engine.tickFrom budget elapsed late : RunM η Unit).run start) ∧
    (background.work work.invocation = none →
      ∀ before, ∃ after, (engine.takeUp budget work).run before = some ((), after) ∧
        (before.world.HeldOnceLess work.queue after.world ↔
          0 < (before.world.queue work.queue).holds)) ∧
    ∀ value, background.work work.invocation = some value →
      ∀ before completed taken,
        (background.finish work.queue value).run (reporting work before) = some (completed, taken) →
          ∃ after, (engine.takeUp budget work).run before = some ((), after) ∧
            (taken.world.HeldOnceLess work.queue after.world ↔
              completed = true ∧ 0 < (taken.world.queue work.queue).holds) ∧
            (completed = false →
              (after.world.queue work.queue).holds = (taken.world.queue work.queue).holds) := by
  refine ⟨fun scene same start made => runInBackground_run same waits holds made, fun _ => rfl,
    fun elapsed early late start inbox => tick_split inbox, fun crashes before => ?_,
    fun value works before completed taken finished => ?_⟩
  · obtain ⟨taken, taking, queues⟩ := takeBack_of_crash (reporting work before) found part crashes
    obtain ⟨after, handled, left⟩ := takeUp_run budget holds taking
    -- Nothing but the report stands between the holds before and those that are given back.
    have same : taken.world.queue work.queue = before.world.queue work.queue := by
      rw [World.queue, queues]
      rfl
    refine ⟨after, handled, ?_⟩
    rw [World.HeldOnceLess, left, same, if_pos rfl]
    omega
  · rw [← takeBack_eq_finish found part works] at finished
    obtain ⟨after, handled, left⟩ := takeUp_run budget holds finished
    refine ⟨after, handled, ?_, fun crashed => by simp [left, crashed]⟩
    rw [World.HeldOnceLess, left]
    cases completed with
    | true => simp only [if_true, true_and]; omega
    | false => simp

def crashingWork : AsyncWork where
  queue := ⟨0⟩
  invocation := Invocation.setObject "mode" "panic"
    { entry := ⟨"async", ["mode:panic"], true, none, none⟩, queue := "q", blocks := [] }
  holds := true

theorem hold_returned_iff_crashingWork :
    ∃ start handed after : Tag.Evaluation (World Rehearsal.Tally), ∃ scene : Scene Rehearsal.Tally,
      (start.world.queue ⟨0⟩).holds = 0 ∧
      (Command.runInBackground scene crashingWork.invocation).run start = some ((), handed) ∧
      (handed.world.queue ⟨0⟩).holds = 1 ∧
      (Rehearsal.engine.takeUp 0 crashingWork).run handed = some ((), after) ∧
      (after.world.queue ⟨0⟩).holds = 0 := by
  let fresh := Rehearsal.engine.start default
  let start := { fresh with world := (fresh.world.makeQueue "q" .instant).2 }
  let scene : Scene Rehearsal.Tally := ⟨{}, fun _ => RunM.outOfBudget, ⟨0⟩⟩
  have found : Rehearsal.engine.commands.find? crashingWork.invocation.entry.command =
      some Rehearsal.inBackground := by rfl
  obtain ⟨background, part, crashes⟩ : ∃ background,
      (Rehearsal.inBackground : Command Rehearsal.Tally).background = some background ∧
        background.work crashingWork.invocation = none := ⟨_, rfl, by decide⟩
  obtain ⟨takes, _, _, gives, _⟩ := @hold_returned_iff _ _ 0 _ _ _ found part rfl rfl
  obtain ⟨handed, ran, _, taken⟩ := takes scene rfl start (by decide)
  have held : (handed.world.queue ⟨0⟩).holds = 1 := taken.symm
  obtain ⟨after, tookUp, returned⟩ := gives crashes handed
  have left : (after.world.queue ⟨0⟩).holds + 1 = (handed.world.queue ⟨0⟩).holds :=
    returned.2 (held ▸ Nat.one_pos)
  exact ⟨start, handed, after, scene, rfl, ran, held, tookUp, by omega⟩

def brittle : Command η where
  name := "brittle"
  usage := "brittle"
  holdable := true
  execute := fun scene invocation => do
    Command.runInBackground scene invocation
    return .ok invocation
  background := some ⟨fun _ => some "", fun _ _ => return false⟩

def brittleEngine : Engine Unit where
  host := {}
  commands := ⟨[("brittle", brittle)]⟩
  resolvers := []
  attributes := []

/-- The completion crashes, and the hold of the entry is there for ever. -/
theorem hold_outlives_crash :
    ∃ before after : Tag.Evaluation (World Unit),
      brittleEngine.Runs [.fire ⟨.inline ⟨"s", [⟨"brittle", [], true, none, none⟩]⟩, {}⟩, .tick ⟨0⟩]
        (brittleEngine.start ()) before ∧
      before.world.scheduler.inbox.map Message.waiting = [some ⟨0⟩] ∧
      (before.world.queue ⟨0⟩).holds = 1 ∧
      (brittleEngine.tick 3 ⟨0⟩).run before = some ((), after) ∧
      ∀ ticks : List Duration, ∃ finish,
        (ticks.forM (brittleEngine.tick 3)).run after = some ((), finish) ∧
          (finish.world.queue ⟨0⟩).holds = 1 := by
  have answered : ((brittleEngine.answer 3
      [.fire ⟨.inline ⟨"s", [⟨"brittle", [], true, none, none⟩]⟩, {}⟩, .tick ⟨0⟩]
      (brittleEngine.start ())).bind fun before =>
        ((brittleEngine.tick 3 ⟨0⟩).run before).map fun after =>
          (before.world.scheduler.inbox.map Message.waiting, (before.world.queue ⟨0⟩).holds,
            (after.2.world.queue ⟨0⟩).holds, decide (after.2.world.Stranded ⟨0⟩))) =
      some ([some ⟨0⟩], 1, 1, true) := by
    decide +kernel
  obtain ⟨before, fired, told⟩ := Option.bind_eq_some_iff.1 answered
  obtain ⟨⟨_, after⟩, ticked, told⟩ := Option.map_eq_some_iff.1 told
  simp only [Prod.mk.injEq, decide_eq_true_eq] at told
  obtain ⟨posted, held, left, stranded⟩ := told
  refine ⟨before, after, runs_of_answer fired, posted, held, ticked, fun ticks => ?_⟩
  -- All that is left is the timer of the queue, which finds the queue held each time.
  obtain ⟨finish, went, same⟩ := ticks_stranded stranded 2 ticks
  exact ⟨finish, went, same ▸ left⟩

end Engine

end TagScript
