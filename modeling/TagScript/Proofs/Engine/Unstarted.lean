import TagScript.Proofs.Engine.Countdown
import TagScript.Proofs.Engine.Standstill
import TagScript.Proofs.Queue.Registry
import TagScript.Proofs.Queue.Wakeup

/-! Timers turn queues that were started, and no others. Whatever a host asks of an engine, a queue
that is still under construction has no timer, and nothing waits to revolve it. -/

namespace TagScript

variable {η α β : Type}

open RunM (Secures Nudges)

structure Scheduler.Succeeds (later scheduler : Scheduler α β) : Prop where
  nextId : later.nextId = scheduler.nextId
  old : ∀ timer ∈ later.timers, ∃ earlier ∈ scheduler.timers,
    timer.id = earlier.id ∧ timer.action = earlier.action

namespace Scheduler

variable {scheduler later : Scheduler α β}

theorem Succeeds.of_timers (nextId : later.nextId = scheduler.nextId)
    (timers : later.timers = scheduler.timers) : later.Succeeds scheduler :=
  ⟨nextId, timers ▸ fun timer member => ⟨timer, member, rfl, rfl⟩⟩

theorem Succeeds.modifyTimer (id : TimerId) {change : Timer α → Timer α}
    (same : ∀ timer : Timer α, (change timer).id = timer.id ∧ (change timer).action = timer.action) :
    (scheduler.modifyTimer id change).Succeeds scheduler := by
  refine ⟨rfl, fun timer member => ?_⟩
  obtain ⟨earlier, listed, rfl⟩ := List.mem_map.1 member
  refine ⟨earlier, listed, ?_⟩
  split
  · exact same earlier
  · exact ⟨rfl, rfl⟩

theorem age_same (elapsed : Nat) (timer : Timer α) :
    (timer.age elapsed).1.id = timer.id ∧ (timer.age elapsed).1.action = timer.action ∧
      (timer.age elapsed).1.inFlight = timer.inFlight := by
  unfold Timer.age
  split
  · exact ⟨rfl, rfl, rfl⟩
  · dsimp only
    split
    · exact ⟨rfl, rfl, rfl⟩
    · split <;> exact ⟨rfl, rfl, rfl⟩

theorem Succeeds.collectDue (elapsed : Nat) (scheduler : Scheduler α β) :
    (scheduler.collectDue elapsed).2.Succeeds scheduler := by
  refine ⟨rfl, fun timer member => ?_⟩
  obtain ⟨aged, listed, rfl⟩ := List.mem_map.1 (List.mem_filter.1 member).1
  obtain ⟨earlier, held, rfl⟩ := List.mem_map.1 listed
  have same := age_same elapsed earlier
  exact ⟨earlier, held, same.1, same.2.1⟩

theorem takeJob?_eq_some {job : Job α β} (taken : scheduler.takeJob? = some (job, later)) :
    scheduler.jobs = job :: later.jobs ∧ later = { scheduler with jobs := later.jobs } := by
  unfold takeJob? at taken
  split at taken
  · cases taken
  · rename_i first jobs listed
    obtain ⟨rfl, rfl⟩ := Prod.mk.inj (Option.some.inj taken)
    exact ⟨listed, rfl⟩

theorem takeJob?_eq_none (taken : scheduler.takeJob? = none) : scheduler.jobs = [] := by
  unfold takeJob? at taken
  split at taken
  · assumption
  · cases taken

end Scheduler

/-- Names of timers are given out once, and only queues that were started are turned by them. -/
structure World.Geared (world : World η) : Prop where
  fresh : ∀ timer ∈ world.scheduler.timers, timer.id.number < world.scheduler.nextId
  turns : ∀ timer ∈ world.scheduler.timers, world.Launched timer.action
  known : ∀ ref id, (world.queue ref).timer = some id →
    id.number < world.scheduler.nextId ∧ world.Launched ref

theorem World.queue_wind_of_ne {ref other : QueueRef} (different : other ≠ ref)
    (plan : Schedule QueueRef) (world : World η) :
    (world.wind ref plan).queue other = world.queue other :=
  queue_modifyQueue_of_ne different _ _

namespace World.Geared

variable {world other : World η} (geared : world.Geared)

include geared

theorem of_queues (scheduler : other.scheduler = world.scheduler)
    (timer : ∀ ref, (other.queue ref).timer = (world.queue ref).timer)
    (launched : ∀ ref, world.Launched ref → other.Launched ref) : other.Geared where
  fresh := by rw [scheduler]; exact geared.fresh
  turns := by
    rw [scheduler]
    exact fun timer member => launched _ (geared.turns timer member)
  known := by
    intro ref id has
    rw [timer] at has
    obtain ⟨small, begun⟩ := geared.known ref id has
    exact ⟨scheduler ▸ small, launched ref begun⟩

theorem reschedule {scheduler : Scheduler QueueRef AsyncWork}
    (succeeds : scheduler.Succeeds world.scheduler) : Geared { world with scheduler } where
  fresh := by
    intro timer member
    obtain ⟨earlier, listed, id, _⟩ := succeeds.old timer member
    rw [id, succeeds.nextId]
    exact geared.fresh earlier listed
  turns := by
    intro timer member
    obtain ⟨earlier, listed, _, action⟩ := succeeds.old timer member
    rw [action]
    exact geared.turns earlier listed
  known := by
    intro ref id has
    rw [succeeds.nextId]
    exact geared.known ref id has

theorem makeQueue (id : String) (kind : QueueKind) : (world.makeQueue id kind).2.Geared := by
  refine geared.of_queues rfl (fun ref => ?_) fun ref launched => ?_
  · rcases world.queue_makeQueue_cases id kind ref with ⟨unmade, made⟩ | same
    · rw [made, unmade]
      rfl
    · rw [same]
  · rcases world.queue_makeQueue_cases id kind ref with ⟨unmade, _⟩ | same
    · exact absurd (congrArg Queue.phase unmade) launched
    · rw [Launched, same]
      exact launched

theorem halt (ref : QueueRef) (runs : (world.queue ref).isStopped = false) : (world.halt ref).Geared := by
  have launched (other : QueueRef) (begun : world.Launched other) : (world.halt ref).Launched other :=
    Nudge.launched (.halt world ref runs) begun
  constructor
  · intro timer member
    obtain ⟨before, listed, id, _⟩ := mem_timers_halt member
    rw [id, nextId_halt]
    exact geared.fresh before listed
  · intro timer member
    obtain ⟨before, listed, _, _, action, _⟩ := mem_timers_halt member
    rw [action]
    exact launched _ (geared.turns before listed)
  · intro other id has
    rcases world.queue_halt_cases ref other with ⟨_, _, none⟩ | same
    · rw [none] at has
      cases has
    · rw [same] at has
      rw [nextId_halt]
      exact ⟨(geared.known other id has).1, launched other (geared.known other id has).2⟩

theorem wind (ref : QueueRef) (launched : world.Launched ref) :
    (world.wind ref (Engine.revolutions ref (world.queue ref))).Geared := by
  have made : ref.index < world.queues.size := made_of_launched launched
  have kept (other : QueueRef) (begun : world.Launched other) :
      (world.wind ref (Engine.revolutions ref (world.queue ref))).Launched other := by
    by_cases same : other = ref
    · rw [same, Launched, queue_wind made]
      exact launched
    · rw [Launched, queue_wind_of_ne same]
      exact begun
  obtain ⟨added, timers, id, action, _, _⟩ := world.timers_wind_revolutions ref (world.queue ref)
  constructor
  · intro timer member
    rw [timers] at member
    rcases List.mem_append.1 member with old | new
    · exact Nat.lt_succ_of_lt (geared.fresh timer old)
    · rw [List.mem_singleton.1 new, id]
      exact Nat.lt_succ_self _
  · intro timer member
    rw [timers] at member
    rcases List.mem_append.1 member with old | new
    · exact kept _ (geared.turns timer old)
    · rw [List.mem_singleton.1 new, action]
      exact kept ref launched
  · intro other id has
    by_cases same : other = ref
    · rw [same, queue_wind made] at has
      obtain rfl := Option.some.inj has
      exact ⟨Nat.lt_succ_self _, same ▸ kept ref launched⟩
    · rw [queue_wind_of_ne same] at has
      obtain ⟨small, begun⟩ := geared.known other id has
      exact ⟨Nat.lt_succ_of_lt small, kept other begun⟩

theorem nudge (nudge : world.Nudge other) : other.Geared := by
  have launched (ref : QueueRef) : world.Launched ref → other.Launched ref := nudge.launched
  cases nudge with
  | beside same =>
      exact geared.of_queues same.scheduler (fun ref => by rw [queue, queue, same.queues]) launched
  | adjust ref change unturned =>
      refine geared.of_queues rfl (fun other => ?_) launched
      rcases world.queue_modifyQueue_cases ref other change with ⟨rfl, _, changed⟩ | kept
      · rw [changed]
        exact (unturned _).timer
      · rw [kept]
  | launch ref =>
      refine geared.of_queues rfl (fun other => ?_) launched
      rcases world.queue_modifyQueue_cases ref other Queue.launch with ⟨rfl, _, changed⟩ | kept
      · rw [changed]
        rfl
      · rw [kept]
  | enlist id kind =>
      unfold queueOrCreate
      split
      · exact geared
      · have made := geared.makeQueue id kind
        exact made.of_queues rfl (fun _ => rfl) fun _ begun => begun
  | halt ref runs => exact geared.halt ref runs
  | wind ref _ begun => exact geared.wind ref begun

end World.Geared

theorem World.scheduler_queueOrCreate (id : String) (kind : QueueKind) (world : World η) :
    (world.queueOrCreate id kind).2.scheduler = world.scheduler := by
  unfold queueOrCreate
  split <;> rfl

theorem World.Nudge.pool_eq {world later : World η} (nudge : world.Nudge later) :
    later.scheduler.jobs = world.scheduler.jobs ∧ later.scheduler.inbox = world.scheduler.inbox := by
  cases nudge with
  | beside same => rw [same.scheduler]; exact ⟨rfl, rfl⟩
  | adjust | launch | wind => exact ⟨rfl, rfl⟩
  | enlist id kind =>
      rw [scheduler_queueOrCreate]
      exact ⟨rfl, rfl⟩
  | halt ref runs =>
      rw [scheduler_halt]
      cases (world.queue ref).timer <;> exact ⟨rfl, rfl⟩

theorem World.Registered.nudge {world later : World η} (registered : world.Registered)
    (nudge : world.Nudge later) : later.Registered := by
  have changed {ref : QueueRef} {change : Queue → Queue}
      (id : (change (world.queue ref)).id = (world.queue ref).id)
      (isStopped : (change (world.queue ref)).isStopped = (world.queue ref).isStopped) :
      (world.modifyQueue ref change).Registered := registered.same (.modifyQueue id isStopped)
  cases nudge with
  | beside same => exact registered.same (.of_queues same.queues same.live)
  | adjust ref change unturned =>
      have same := unturned (world.queue ref)
      exact changed same.id (by rw [Queue.isStopped, Queue.isStopped, same.phase])
  | launch ref new => exact changed rfl (by rw [Queue.isStopped, Queue.isStopped, new]; rfl)
  | enlist id kind => exact registered.queueOrCreate id kind
  | halt ref runs => exact registered.halt ref
  | wind ref => exact registered.same (.wind _ world)

structure World.Lasting (good : World η → Prop) : Prop where
  nudge : ∀ {world later : World η}, world.Nudge later → good world → good later
  reschedule : ∀ {world : World η} {scheduler : Scheduler QueueRef AsyncWork}, good world →
    scheduler.Succeeds world.scheduler → good { world with scheduler }

namespace World.Lasting

variable {engine : Engine η} {free : Bool} {good : World η → Prop} (lasting : Lasting good)

include lasting

theorem resets {world : World η} {scheduler : Scheduler QueueRef AsyncWork} (held : good world)
    (succeeds : scheduler.Succeeds world.scheduler) :
    Secures (· = world) (set scheduler : RunM η PUnit) fun _ => good :=
  .set fun _ same => same ▸ lasting.reschedule held succeeds

theorem updates {change : Scheduler QueueRef AsyncWork → Scheduler QueueRef AsyncWork}
    (succeeds : ∀ scheduler, (change scheduler).Succeeds scheduler) :
    Secures good (Scheduler.update change : RunM η Unit) fun _ => good :=
  .reschedule fun _ held => lasting.reschedule held (succeeds _)

variable (regular : engine.Regular free) (budget : Nat)

include regular

theorem runTimer (id : TimerId) (actor : QueueRef) :
    Secures good (Scheduler.runTimer (engine.handlers budget) id actor) fun _ => good := by
  refine Nudges.secures (fun origin => ?_) lasting.nudge
  have revolves : Nudges origin (engine.revolve (engine.fire budget) budget actor) :=
    Engine.revolve_nudges regular (Engine.fire_nudges regular budget) budget actor
  exact .bind (.bind revolves fun _ => .pure fun _ held => held) fun _ =>
    .ite (fun _ => Nudges.log _ _) fun _ => .pure fun _ held => held

theorem settle (jobs : Nat) :
    Secures good (engine.settle budget jobs) fun _ world => good world ∧ world.scheduler.jobs = [] := by
  induction jobs with
  | zero => exact .outOfBudget
  | succ jobs ih =>
      refine .each fun world held => .world_bind ?_
      cases taken : world.scheduler.takeJob? with
      | none => exact .pure fun _ same => same ▸ ⟨held, Scheduler.takeJob?_eq_none taken⟩
      | some found =>
          obtain ⟨job, scheduler⟩ := found
          obtain ⟨_, same⟩ := Scheduler.takeJob?_eq_some taken
          have posts (message : Message AsyncWork) : Secures good
              (Scheduler.update (Scheduler.post message) : RunM η Unit) fun _ => good :=
            lasting.updates fun _ => .of_timers rfl rfl
          refine .bind (lasting.resets held ?_) fun _ => .bind ?_ fun _ => ih
          · rw [same]
            exact .of_timers rfl rfl
          · cases job with
            | timer id actor => exact .bind (lasting.runTimer regular budget id actor) fun _ => posts _
            | work callback => exact posts _

theorem tick (elapsed : Duration) :
    Secures good (engine.tick budget elapsed)
      fun _ world => good world ∧ world.scheduler.jobs = [] := by
  have logs (level : LogLevel) (text : String) : Secures good (RunM.log level text) fun _ => good :=
    Nudges.secures (fun _ => .log _ _) lasting.nudge
  have handles (message : Message AsyncWork) :
      Secures good (Scheduler.handle (engine.handlers budget) message) fun _ => good := by
    cases message with
    | completed id => exact lasting.updates fun _ => .modifyTimer id fun _ => ⟨rfl, rfl⟩
    | callback work =>
        exact .bind (Nudges.secures (fun _ => Engine.deliver_nudges regular work) lasting.nudge)
          fun _ => .ite (fun _ => logs _ _) fun _ => .pure fun _ held => held
  have fires (due : Due QueueRef) :
      Secures good (Scheduler.fire (engine.handlers budget) due) fun _ => good := by
    unfold Scheduler.fire
    split
    · exact lasting.runTimer regular budget due.id due.action
    · refine .each fun world held => .scheduler_bind (.ite (fun _ => ?_) fun _ => ?_)
      · exact (logs _ _).weaken (fun _ same => same ▸ held) fun _ _ held => held
      · have succeeds : (world.scheduler.modifyTimer due.id ({ · with inFlight := true })).Succeeds
            world.scheduler := .modifyTimer due.id fun _ => ⟨rfl, rfl⟩
        exact lasting.resets held ⟨succeeds.nextId, succeeds.old⟩
  refine .bind ?_ fun _ => lasting.settle regular budget budget
  refine .bind (lasting.updates fun _ => .of_timers rfl rfl) fun _ =>
    .each fun world held => .scheduler_bind ?_
  refine .bind (lasting.resets held (.of_timers rfl rfl)) fun _ =>
    .bind (.forM _ fun message _ => handles message) fun _ => .each fun later held => .scheduler_bind ?_
  exact .bind (lasting.resets held (.collectDue _ _)) fun _ => .forM _ fun due _ => fires due

end World.Lasting

structure World.Resting (world : World η) : Prop where
  geared : world.Geared
  registered : world.Registered
  idle : world.scheduler.jobs = []

namespace World.Resting

theorem nudge {world later : World η} (nudge : world.Nudge later) (resting : world.Resting) :
    later.Resting :=
  ⟨resting.geared.nudge nudge, resting.registered.nudge nudge, nudge.pool_eq.1.trans resting.idle⟩

end World.Resting

theorem Queue.releaseHold_nudges {origin : World η} (id : String) :
    Nudges origin (releaseHold id : RunM η Bool) := by
  refine .any_world_bind fun world => ?_
  split
  · exact .pure fun _ held => held
  · have releases (target : QueueRef) : Nudges origin (RunM.modifyQueue target Queue.release) :=
      .adjust fun _ => ⟨rfl, rfl, rfl⟩
    exact .bind (releases _) fun _ => .any_queue_bind fun _ => .bind (Nudges.log _ _) fun _ =>
      .pure fun _ held => held

namespace HostCall

variable {engine : Engine η} {free : Bool}

open World (Resting)

theorem run_resting (regular : engine.Regular free) (budget : Nat) {call : HostCall} {world : World η}
    (made : ∀ ref ∈ call.queue?, ref.index < world.queues.size) (resting : world.Resting) :
    Secures (· = world) (call.run engine budget) fun _ => Resting := by
  have fires := Engine.fire_nudges regular budget
  have begins : ∀ later, later = world → later.Resting := fun _ same => same ▸ resting
  have secures {act : RunM η Unit} (nudges : ∀ origin : World η, Nudges origin act) :
      Secures (· = world) act fun _ => Resting :=
    (Nudges.secures nudges Resting.nudge).weaken begins fun _ _ held => held
  have changes {ref : QueueRef} {change : Queue → Queue}
      (unturned : ∀ queue : Queue, queue.Unturned (change queue)) :
      Secures (· = world) (RunM.modifyQueue ref change) fun _ => Resting :=
    secures fun _ => .adjust unturned
  cases call with
  | register script => exact secures fun _ => .beside fun _ => ⟨rfl, rfl, rfl⟩
  | fire request => exact secures fun origin => .bind (fires origin request) fun _ => .pure fun _ held => held
  | tick elapsed =>
      have lasting : World.Lasting fun world : World η => world.Geared ∧ world.Registered :=
        ⟨fun nudge held => ⟨held.1.nudge nudge, held.2.nudge nudge⟩,
          fun held succeeds => ⟨held.1.reschedule succeeds, held.2.same (.of_queues rfl rfl)⟩⟩
      exact (lasting.tick regular budget elapsed).weaken
        (fun _ same => ⟨(begins _ same).geared, (begins _ same).registered⟩)
        fun _ _ held => ⟨held.1.1, held.1.2, held.2⟩
  | fill queue text =>
      refine secures fun origin => .bind ?_ fun _ => .pure fun _ held => held
      exact Engine.fillText_secures origin.nudged_unreported regular.resolvers regular.attributes
        (fun _ procedure => Engine.callProcedure_nudges fires procedure)
        (fun _ _ _ held => held.tail (.beside ⟨rfl, rfl, rfl⟩)) queue text
  | make id kind =>
      refine .bind (.updateGet fun _ same => ?_) fun _ => .pure fun _ held => held
      subst same
      exact ⟨resting.geared.makeQueue id kind, resting.registered.makeQueue id kind, resting.idle⟩
  | enlist id kind =>
      refine secures fun origin => .bind (.updateGet fun world held => ?_) fun _ => .pure fun _ held => held
      exact held.tail (.enlist world id kind)
  | start queue =>
      refine (Engine.startQueue_nudges regular fires budget queue).weaken
        (fun later same => ⟨?_, same ▸ made queue rfl⟩)
        fun _ later nudged => nudged.keeps Resting.nudge resting
      exact same ▸ .refl
  | revolve queue => exact secures fun _ => Engine.revolve_nudges regular fires budget queue
  | add queue entries => exact changes fun _ => ⟨rfl, rfl, rfl⟩
  | inject queue index entries => exact changes fun _ => ⟨rfl, rfl, rfl⟩
  | clear queue => exact changes fun _ => ⟨rfl, rfl, rfl⟩
  | tune queue tuning =>
      refine .any_now_bind fun now => changes fun queue => ?_
      have alike := tuning.alike now queue
      exact ⟨alike.id, alike.phase, alike.timer⟩
  | releaseHold id =>
      exact secures fun _ => .bind (Queue.releaseHold_nudges id) fun _ => .pure fun _ held => held
  | onStop queue label => exact secures fun _ => Queue.atEnd_nudges queue _
  | stop queue => exact secures fun _ => Queue.stop_nudges engine.host queue
  | shutdown =>
      have stops : Secures (· = world) (do
          RunM.log .debug s!"Shutting down {world.live.length} live queue(s)."
          world.live.forM fun named => Queue.stop engine.host named.2 : RunM η Unit) fun _ => Resting :=
        secures fun origin => .bind (Nudges.log _ _) fun _ => .forM _ fun named _ =>
          Queue.stop_nudges engine.host named.2
      refine .world_bind ?_
      rw [← bind_assoc]
      refine .bind stops fun _ => .update fun later held => ?_
      have cleared : later.scheduler.clear.Succeeds later.scheduler :=
        ⟨rfl, fun timer member => absurd member List.not_mem_nil⟩
      exact ⟨held.geared.reschedule cleared, held.registered.same (.of_queues rfl rfl), held.idle⟩

end HostCall

theorem Engine.Runs.resting {engine : Engine η} {free : Bool} (regular : engine.Regular free)
    {calls : List HostCall} {start finish : Tag.Evaluation (World η)}
    (runs : engine.Runs calls start finish) (resting : start.world.Resting) : finish.world.Resting := by
  induction runs with
  | nil => exact resting
  | cons made answered _ ih =>
      exact ih (HostCall.run_resting regular _ made resting _ () _ rfl answered)

theorem World.Resting.start (engine : Engine η) (host : η) : (engine.start host).world.Resting where
  geared := by
    constructor
    · exact fun _ member => absurd member List.not_mem_nil
    · exact fun _ member => absurd member List.not_mem_nil
    · exact fun ref id has => by cases has
  registered := .start engine host
  idle := rfl

end TagScript
