import TagScript.Proofs.Engine.OnePerPeriod

/-! When a queue that runs at a speed executes which of its entries: the first as it starts, and one more
each time that a period is over, as long as nothing unsettles it. -/

namespace TagScript

variable {η : Type}

open RunM (Secures Nudges)

namespace Queue

def executions (entries : List Entry) : List Deed :=
  (entries.flatMap fun entry => [.started entry, .executed entry]).reverse

theorem executions_concat (entries : List Entry) (entry : Entry) :
    executions (entries ++ [entry]) = .executed entry :: .started entry :: executions entries := by
  simp [executions]

structure Ran (base : Queue) (count : Nat) (queue : Queue) : Prop where
  entries : queue.entries = base.entries.drop count
  phase : queue.phase = if count < base.entries.length then .running else .stopped
  history : queue.history = (if count < base.entries.length then [] else [.stopped, .ranDry]) ++
    executions (base.entries.take count) ++ base.history

variable {base queue : Queue} {count : Nat}

theorem Ran.isStopped (ran : base.Ran count queue) :
    queue.isStopped = true ↔ base.entries.length ≤ count := by
  rw [Queue.isStopped, ran.phase]
  split
  · simpa
  · rename_i last
    simpa using Nat.le_of_not_lt last

theorem Ran.revolved (left : count < base.entries.length) (ran : base.Ran count queue) :
    base.Ran (count + 1) queue.revolved := by
  have runs : queue.isStopped = false := by simp [Queue.isStopped, ran.phase, left]
  have waiting : queue.entries = base.entries[count] :: base.entries.drop (count + 1) := by
    rw [ran.entries, List.drop_eq_getElem_cons left]
  have taken : executions (base.entries.take (count + 1)) = .executed base.entries[count] ::
      .started base.entries[count] :: executions (base.entries.take count) := by
    rw [List.take_succ_eq_append_getElem left, executions_concat]
  have history := ran.history
  rw [if_pos left, List.nil_append] at history
  cases rest : base.entries.drop (count + 1) with
  | nil =>
      have last : ¬ count + 1 < base.entries.length := by simpa using rest
      rw [revolved_last runs (waiting.trans (by rw [rest]))]
      exact ⟨rest.symm, (if_neg last).symm, by simp [close, note, history, taken, last]⟩
  | cons next others =>
      have more : count + 1 < base.entries.length := by
        by_contra last
        rw [List.drop_eq_nil_of_le (Nat.le_of_not_lt last)] at rest
        cases rest
      rw [revolved_cons runs (waiting.trans (by rw [rest]))]
      exact ⟨rest.symm, by simp [note, ran.phase, left, more], by simp [note, history, taken, more]⟩

theorem revolved_eq (queue : Queue) : queue.revolved.kind = queue.kind ∧
    (queue.revolved.isStopped = false → queue.revolved.timer = queue.timer) := by
  cases stopped : queue.isStopped with
  | true => rw [revolved_of_isStopped stopped]; exact ⟨rfl, fun _ => rfl⟩
  | false =>
      cases waiting : queue.entries with
      | nil => rw [revolved_nil stopped waiting]; exact ⟨rfl, fun runs => by cases runs⟩
      | cons entry rest =>
          cases rest with
          | nil => rw [revolved_last stopped waiting]; exact ⟨rfl, fun runs => by cases runs⟩
          | cons next rest => rw [revolved_cons stopped waiting]; exact ⟨rfl, fun _ => rfl⟩

end Queue

theorem Timer.age_every {timer : Timer QueueRef} {period : Duration} (set : timer.cancelled = false)
    (repeats : timer.timing = .every period) (elapsed : Nat) :
    timer.age elapsed = if (elapsed : Int) < timer.countdown then
        ({ timer with countdown := timer.countdown - elapsed }, false)
      else ({ timer with countdown := timer.countdown - elapsed + max period.nanoseconds 1 }, true) := by
  unfold Timer.age
  rw [set, repeats]
  by_cases early : (elapsed : Int) < timer.countdown
  · simp [early]
  · simp [early]

theorem div_add_of_le {period elapsed lapse : Nat} (positive : 0 < period) (short : lapse ≤ period) :
    (elapsed + lapse) / period =
      elapsed / period + if (1 + elapsed / period) * period ≤ elapsed + lapse then 1 else 0 := by
  have low := Nat.div_mul_le_self elapsed period
  have high : elapsed < elapsed / period * period + period := Nat.lt_div_mul_add positive
  split
  · refine Nat.div_eq_of_lt_le ?_ ?_
    · rwa [Nat.add_comm _ 1]
    · rw [Nat.add_mul, Nat.add_mul]
      omega
  · refine Nat.div_eq_of_lt_le ?_ ?_
    · rw [Nat.add_zero]
      omega
    · rw [Nat.add_zero, Nat.add_comm _ 1]
      omega

namespace World

/-- A revolution of the queue executed one entry of it, and stopped it with the last one. -/
structure Revolved (ref : QueueRef) (world later : World η) : Prop where
  queue : (world.queue ref).revolved.Tended (later.queue ref)
  live : ∀ key, later.live.get? key = some ref ↔
    (later.queue ref).isStopped = false ∧ world.live.get? key = some ref

/-- Of the entries that the queue had before it was started, so many were executed, in their order, and
nothing else was done to it. It stopped with the last one, and only then it left the live queues. -/
structure Executed (ref : QueueRef) (count : Nat) (world later : World η) : Prop where
  history : (later.queue ref).history =
    (if count = (world.queue ref).entries.length then [.stopped, .ranDry] else []) ++
      Queue.executions ((world.queue ref).entries.take count) ++ .began :: (world.queue ref).history
  left : (later.queue ref).entries = (world.queue ref).entries.drop count
  ended : (later.queue ref).isStopped = true ∧ (∀ key, later.live.get? key ≠ some ref) ↔
    count = (world.queue ref).entries.length
  live : ∀ key, later.live.get? key = some ref ↔
    (later.queue ref).isStopped = false ∧ world.live.get? key = some ref

end World

namespace Engine

/-- So long after its start the queue has executed one entry, and one more for each period that is over
since. Unless it has stopped, its timer comes due when the next one is. -/
structure OnSchedule (engine : Engine η) (ref : QueueRef) (origin : World η) (base : Queue)
    (period elapsed : Nat) (plan : Queue) (world : World η) : Prop where
  clocked : plan.Clocked ref origin
  ran : base.Ran (min base.entries.length (1 + elapsed / period)) plan
  planned : engine.AsPlanned ref origin plan world
  wound : plan.isStopped = false → ∃ timer : Timer QueueRef, timer.cancelled = false ∧
    timer.timing = .every ⟨period⟩ ∧ timer.countdown + elapsed = ((1 + elapsed / period) * period : Nat) ∧
    engine.Ticking ref origin plan timer world

variable {engine : Engine η} {ref : QueueRef} {origin world : World η} {base plan : Queue} {free : Bool}
  {period elapsed : Nat}

namespace OnSchedule

theorem tick_stopped (regular : engine.Regular free) (budget : Nat) (lapse : Duration)
    (stopped : plan.isStopped = true) :
    Secures (engine.OnSchedule ref origin base period elapsed plan) (engine.tick budget lapse)
      fun _ => engine.OnSchedule ref origin base period (elapsed + lapse.nanoseconds) plan := by
  refine .each fun world onTime => ?_
  have watch := AsPlanned.vigil engine ref origin onTime.clocked.unheld
  have revolves := AsPlanned.revolve regular budget budget onTime.clocked
  rw [Queue.revolved_of_isStopped stopped] at revolves
  have ticks := watch.tick regular budget (AsPlanned.fires regular onTime.clocked.unheld budget) revolves
    lapse
  refine ticks.weaken (fun _ same => same ▸ onTime.planned.reschedule _) fun _ later planned => ?_
  have whole : base.entries.length ≤ 1 + elapsed / period :=
    (Nat.le_min.1 (onTime.ran.isStopped.1 stopped)).2
  have later : base.entries.length ≤ 1 + (elapsed + lapse.nanoseconds) / period :=
    whole.trans (Nat.add_le_add_left (Nat.div_le_div_right (Nat.le_add_right _ _)) 1)
  refine ⟨onTime.clocked, ?_, planned, fun runs => absurd (stopped.symm.trans runs) Bool.noConfusion⟩
  rw [Nat.min_eq_left later, ← Nat.min_eq_left whole]
  exact onTime.ran

section Lapse

variable {timer : Timer QueueRef} {lapse : Nat} {later : World η}
  (onTime : engine.OnSchedule ref origin base period elapsed plan world)
  (set : timer.cancelled = false) (repeats : timer.timing = .every ⟨period⟩)
  (countdown : timer.countdown + elapsed = ((1 + elapsed / period) * period : Nat))

include onTime set repeats countdown

theorem waits (positive : 0 < period) (short : lapse ≤ period) (early : (lapse : Int) < timer.countdown)
    (ticking : engine.Ticking ref origin plan { timer with countdown := timer.countdown - lapse } later) :
    engine.OnSchedule ref origin base period (elapsed + lapse) plan later := by
  have count : (elapsed + lapse) / period = elapsed / period := by
    rw [div_add_of_le positive short, if_neg (by omega)]
    rfl
  refine ⟨onTime.clocked, ?_, ticking.planned, fun _ =>
    ⟨{ timer with countdown := timer.countdown - lapse }, set, repeats, ?_, ticking⟩⟩
  · rw [count]
    exact onTime.ran
  · rw [count, ← countdown]
    dsimp only
    omega

theorem revolves (positive : 0 < period) (short : lapse ≤ period)
    (due : ¬ (lapse : Int) < timer.countdown) (runs : plan.isStopped = false)
    (ticking : engine.Ticking ref origin plan.revolved
      { timer with countdown := timer.countdown - lapse + max period 1 } later) :
    engine.OnSchedule ref origin base period (elapsed + lapse) plan.revolved later := by
  have count : (elapsed + lapse) / period = elapsed / period + 1 := by
    rw [div_add_of_le positive short, if_pos (by omega)]
  have left : 1 + elapsed / period < base.entries.length := by
    have notYet : ¬ base.entries.length ≤ min base.entries.length (1 + elapsed / period) :=
      fun done => absurd (runs.symm.trans (onTime.ran.isStopped.2 done)) Bool.noConfusion
    omega
  have ran := onTime.ran
  rw [Nat.min_eq_right left.le] at ran
  rw [Nat.max_eq_left positive] at ticking
  refine ⟨onTime.clocked.revolved, ?_, ticking.planned, fun _ =>
    ⟨{ timer with countdown := timer.countdown - lapse + period }, set, repeats, ?_, ticking⟩⟩
  · rw [count, ← Nat.add_assoc, Nat.min_eq_right (by omega)]
    exact ran.revolved left
  · have whole : (1 + elapsed / period + 1) * period = (1 + elapsed / period) * period + period :=
      Nat.succ_mul _ _
    rw [count, ← Nat.add_assoc, whole]
    dsimp only
    omega

end Lapse

/-- A tick that is no longer than a period executes an entry if a period is over at the end of it. -/
theorem tick (regular : engine.Regular free) (budget : Nat) {lapse : Duration} (positive : 0 < period)
    (small : period < Scheduler.clockRange) (short : lapse.nanoseconds ≤ period) :
    Secures (engine.OnSchedule ref origin base period elapsed plan) (engine.tick budget lapse)
      fun _ => engine.OrAstray ref origin fun world => ∃ plan,
        engine.OnSchedule ref origin base period (elapsed + lapse.nanoseconds) plan world := by
  cases stopped : plan.isStopped with
  | true =>
      exact (tick_stopped regular budget lapse stopped).weaken (fun _ held => held)
        fun _ _ held => .inr ⟨plan, held⟩
  | false =>
      refine .each fun world onTime => ?_
      obtain ⟨timer, set, repeats, countdown, ticking⟩ := onTime.wound stopped
      have clipped : Scheduler.clipped lapse = lapse.nanoseconds := Nat.min_eq_left (by omega)
      have ages := Timer.age_every set repeats lapse.nanoseconds
      have kept : (timer.age (Scheduler.clipped lapse)).1.cancelled = false := by
        rw [clipped, ages]
        split <;> exact set
      have ticks := Ticking.tick regular budget onTime.clocked stopped lapse kept
      rw [clipped, ages] at ticks
      refine ticks.weaken (fun _ same => same ▸ ticking) fun _ later held =>
        held.imp_right fun ticking => ?_
      by_cases early : (lapse.nanoseconds : Int) < timer.countdown
      · rw [if_pos early] at ticking
        exact ⟨plan, onTime.waits set repeats countdown positive short early ticking⟩
      · rw [if_neg early] at ticking
        exact ⟨plan.revolved, onTime.revolves set repeats countdown positive short early stopped ticking⟩

end OnSchedule

structure Starting (engine : Engine η) (ref : QueueRef) (origin : World η) (plan : Queue)
    (world : World η) : Prop where
  planned : engine.AsPlanned ref origin plan world
  geared : world.Geared
  unwound : world.Unwound ref
  idle : world.scheduler.jobs = []

namespace Starting

theorem secures {act : RunM η Unit} {next : Queue} (nudges : ∀ origin : World η, Nudges origin act)
    (planned : Secures (engine.AsPlanned ref origin plan) act fun _ => engine.AsPlanned ref origin next) :
    Secures (engine.Starting ref origin plan) act fun _ => engine.Starting ref origin next := by
  have machine : Secures (fun world => world.Geared ∧ world.Unwound ref ∧ world.scheduler.jobs = []) act
      fun _ world => world.Geared ∧ world.Unwound ref ∧ world.scheduler.jobs = [] :=
    Nudges.secures nudges fun nudge held =>
      ⟨held.1.nudge nudge, held.2.1.nudge nudge, nudge.pool_eq.1.trans held.2.2⟩
  intro start result finish held ran
  obtain ⟨geared, unwound, idle⟩ :=
    machine start result finish ⟨held.geared, held.unwound, held.idle⟩ ran
  exact ⟨planned start result finish held.planned ran, geared, unwound, idle⟩

theorem launch (resting : origin.Resting) (made : ref.index < origin.queues.size)
    (new : (origin.queue ref).phase = .constructing) :
    engine.Starting ref origin (origin.queue ref).launch (origin.modifyQueue ref Queue.launch) := by
  have here : (origin.modifyQueue ref Queue.launch).queue ref = (origin.queue ref).launch :=
    World.queue_modifyQueue_self made _
  have nudge : origin.Nudge (origin.modifyQueue ref Queue.launch) := .launch origin ref new
  have unwound : origin.Unwound ref := by
    intro _ _ timer member acts
    exact resting.geared.turns timer member (acts ▸ new)
  refine ⟨⟨List.suffix_refl _, rfl, ?_, fun _ => ⟨here ▸ .refl _, fun key => ?_⟩⟩,
    resting.geared.nudge nudge, unwound.nudge nudge, resting.idle⟩
  · rw [World.Launched, here]
    exact Phase.noConfusion
  · simp [Queue.isStopped, Queue.launch, Queue.note, World.modifyQueue]

theorem schedule (clocked : plan.Clocked ref origin) (unset : plan.isStopped = false → plan.timer = none)
    (ran : base.Ran (min base.entries.length (1 + 0 / period)) plan)
    (paced : plan.kind.period = ⟨period⟩) :
    Secures (engine.Starting ref origin plan) (ensureScheduled ref)
      fun _ => engine.OrAstray ref origin fun world =>
        ∃ plan, engine.OnSchedule ref origin base period 0 plan world := by
  refine .each fun world starting => ?_
  by_cases unsettled : engine.Unsettled ref origin world.notes
  · exact ((Astray.vigil engine ref origin).ensureScheduled fun _ _ => trivial).weaken
      (fun _ same => same ▸ starting.planned.astray unsettled) fun _ _ held => .inl held
  have same := (starting.planned.met unsettled).1.same
  have isStopped : (world.queue ref).isStopped = plan.isStopped := by rw [same]; rfl
  have timer : (world.queue ref).timer = plan.timer := by rw [same]
  have kind : (world.queue ref).kind = plan.kind := by rw [same]
  cases stopped : plan.isStopped with
  | true =>
      refine .queue_bind (.ite (fun _ => .pure fun _ here => .inr ⟨plan, ?_⟩) fun due => ?_)
      · exact here ▸ ⟨clocked, ran, starting.planned, fun runs =>
          absurd (stopped.symm.trans runs) Bool.noConfusion⟩
      · simp [isStopped, stopped] at due
  | false =>
      have none := timer.trans (unset stopped)
      have wound := starting.unwound.wind starting.geared none starting.planned.launched
        (isStopped.trans stopped)
      refine (ensureScheduled_winds none (isStopped.trans stopped)).weaken (fun _ here => here) ?_
      rintro _ _ ⟨text, rfl⟩
      let next : Queue := { plan with timer := some ⟨world.scheduler.nextId⟩ }
      let later := world.wind ref (revolutions ref (world.queue ref))
      have winds : engine.AsPlanned ref origin next later := by
        refine (starting.planned.reschedule _).modify starting.planned.launched rfl fun tended => ?_
        exact ⟨by rw [tended.same]⟩
      have logs : engine.AsPlanned ref origin next (later.log .trace text) :=
        winds.apart (.of_same rfl rfl rfl rfl rfl)
      have goesOn : next.Clocked ref origin :=
        ⟨⟨clocked.paused, clocked.undelayed, clocked.unheld⟩, clocked.timed, clocked.keyed⟩
      have turning : engine.Turning ref origin next (world.ownTimer ref) [] world.scheduler.inbox
          (later.log .trace text) :=
        ⟨logs, wound.nudge (.beside ⟨rfl, rfl, rfl⟩), congrArg (List.filter _) starting.idle, rfl⟩
      have period_eq : (world.queue ref).kind.period = ⟨period⟩ := by rw [kind, paced]
      refine .inr ⟨next, goesOn, ⟨ran.entries, ran.phase, ran.history⟩, logs, fun _ =>
        ⟨world.ownTimer ref, rfl, congrArg Timing.every period_eq, ?_, false, _, turning, nofun⟩⟩
      simp [World.ownTimer, period_eq]

end Starting

namespace OnSchedule

theorem start (regular : engine.Regular free) (budget : Nat) (resting : origin.Resting)
    (made : ref.index < origin.queues.size) (new : (origin.queue ref).phase = .constructing)
    (unhindered : (origin.queue ref).Unhindered) (timed : (origin.queue ref).kind.isInstant = false)
    (paced : (origin.queue ref).kind.period = ⟨period⟩) (some : (origin.queue ref).entries ≠ []) :
    Secures (· = origin) (engine.startQueue (engine.fire budget) budget ref)
      fun _ => engine.OrAstray ref origin fun world =>
        ∃ plan, engine.OnSchedule ref origin (origin.queue ref).launch period 0 plan world := by
  let base := (origin.queue ref).launch
  have positive : 0 < base.entries.length := List.length_pos_iff.2 some
  have clocked : base.Clocked ref origin := by
    refine ⟨⟨unhindered.paused, unhindered.undelayed, unhindered.unheld⟩, timed, fun key found => ?_⟩
    exact resting.registered.keyed _ (Table.mem_of_get? found)
  have watch := AsPlanned.vigil engine ref origin clocked.unheld
  have launches : Secures (· = origin) (RunM.modifyQueue ref Queue.launch)
      fun _ => engine.Starting ref origin base := by
    refine .update fun _ same => ?_
    subst same
    exact .launch resting made new
  have steps : Secures (engine.Starting ref origin base) (engine.step (engine.fire budget) ref)
      fun _ => engine.Starting ref origin base.revolved :=
    Starting.secures (fun _ => step_nudges regular (fire_nudges regular budget) ref)
      (AsPlanned.step regular budget clocked rfl)
  have first : base.Ran (min base.entries.length (1 + 0 / period)) base.revolved := by
    have begun : base.Ran 0 base :=
      ⟨rfl, by rw [if_pos positive]; rfl, by simp [positive, Queue.executions]⟩
    rw [Nat.zero_div, Nat.min_eq_right positive]
    exact begun.revolved positive
  obtain ⟨speed, timer⟩ := base.revolved_eq
  have unset : base.timer = none := by
    cases has : base.timer with
    | none => rfl
    | some id => exact absurd new (resting.geared.known ref id has).2
  refine .queue_bind (.ite (fun begun => by simp [new] at begun) fun _ => .bind launches fun _ => ?_)
  refine .bind (Starting.secures (fun _ => .log _ _) (watch.log _ _)) fun _ => ?_
  rw [timed]
  refine .ite (fun instant => absurd instant Bool.false_ne_true) fun _ => .bind steps fun _ => ?_
  exact Starting.schedule clocked.revolved (fun runs => (timer runs).trans unset) first (speed ▸ paced)

theorem run (regular : engine.Regular free) (positive : 0 < period) (small : period < Scheduler.clockRange)
    {lapses : List Duration} (short : ∀ lapse ∈ lapses, lapse.nanoseconds ≤ period)
    {start finish : Tag.Evaluation (World η)} (runs : engine.Runs (lapses.map .tick) start finish)
    (onTime : engine.OrAstray ref origin (fun world =>
      ∃ plan, engine.OnSchedule ref origin base period elapsed plan world) start.world) :
    engine.OrAstray ref origin (fun world => ∃ plan, engine.OnSchedule ref origin base period
      (elapsed + (lapses.map Duration.nanoseconds).sum) plan world) finish.world := by
  induction lapses generalizing elapsed start with
  | nil =>
      obtain _ | _ := runs
      exact onTime
  | cons lapse rest ih =>
      cases runs with
      | @cons _ _ budget _ between _ _ answered runs =>
          have ticks : Secures (fun world =>
                ∃ plan, engine.OnSchedule ref origin base period elapsed plan world)
              (engine.tick budget lapse) fun _ => engine.OrAstray ref origin fun world => ∃ plan,
                engine.OnSchedule ref origin base period (elapsed + lapse.nanoseconds) plan world :=
            .each fun _ ⟨_, held⟩ =>
              (tick regular budget positive small (short lapse List.mem_cons_self)).weaken
                (fun _ same => same ▸ held) fun _ _ held => held
          have later := OrAstray.secures (Astray.tick regular budget lapse) ticks start () between onTime
            answered
          rw [List.map_cons, List.sum_cons, ← Nat.add_assoc]
          exact ih (fun other member => short other (List.mem_cons_of_mem _ member)) runs later

theorem executed_of_ran {count : Nat} (bound : count ≤ (origin.queue ref).entries.length)
    (ran : (origin.queue ref).launch.Ran count plan) (tended : plan.Tended (world.queue ref))
    (live : ∀ key, world.live.get? key = some ref ↔
      plan.isStopped = false ∧ origin.live.get? key = some ref) :
    origin.Executed ref count world := by
  have isStopped : (world.queue ref).isStopped = plan.isStopped := by rw [tended.same]; rfl
  have whole : (origin.queue ref).launch.entries.length ≤ count ↔
      count = (origin.queue ref).entries.length :=
    ⟨fun long => Nat.le_antisymm bound long, fun same => same.ge⟩
  have lasts := ran.isStopped
  rw [whole] at lasts
  constructor
  · have history : (world.queue ref).history = plan.history := by rw [tended.same]
    have less : count < (origin.queue ref).launch.entries.length ↔
        ¬ count = (origin.queue ref).entries.length := by rw [← whole, Nat.not_le]
    rw [history, ran.history]
    simp only [less, ite_not]
    rfl
  · rw [tended.same]
    exact ran.entries
  · rw [isStopped, lasts]
    refine ⟨And.left, fun all => ⟨all, fun key found => ?_⟩⟩
    exact absurd ((live key).1 found).1 (by simp [lasts.2 all])
  · rw [isStopped]
    exact live

theorem executed
    (onTime : engine.OnSchedule ref origin (origin.queue ref).launch period elapsed plan world)
    (settled : ¬ engine.Unsettled ref origin world.notes) :
    origin.Executed ref (min (origin.queue ref).entries.length (1 + elapsed / period)) world := by
  obtain ⟨tended, live⟩ := onTime.planned.met settled
  exact executed_of_ran (Nat.min_le_left _ _) onTime.ran tended live

end OnSchedule

section

variable (regular : engine.Regular free)

include regular

theorem revolves_once {depth budget : Nat} {start finish : Tag.Evaluation (World η)}
    (registered : start.world.Registered) (running : (start.world.queue ref).phase = .running)
    (unhindered : (start.world.queue ref).Unhindered)
    (timed : (start.world.queue ref).kind.isInstant = false)
    (ran : (engine.revolve (engine.fire depth) budget ref).run start = some ((), finish))
    (settled : ¬ engine.Unsettled ref start.world finish.world.notes) :
    start.world.Revolved ref finish.world := by
  have clocked : (start.world.queue ref).Clocked ref start.world :=
    ⟨unhindered, timed, fun key found => registered.keyed _ (Table.mem_of_get? found)⟩
  have begins : engine.AsPlanned ref start.world (start.world.queue ref) start.world :=
    .start (by rw [World.Launched, running]; exact Phase.noConfusion)
      (by rw [Queue.isStopped, running]; rfl)
  have planned := AsPlanned.revolve regular depth budget clocked start () finish begins ran
  obtain ⟨tended, live⟩ := planned.met settled
  refine ⟨tended, fun key => (live key).trans ?_⟩
  rw [tended.same]
  exact Iff.rfl

/-- A queue that runs at a speed of so many ticks of fifty milliseconds executes its first entry as it is
started, and one more each time that so many ticks are over, if time passes in steps no longer than that
and nothing unsettles the queue. With the last entry it stops, in the revolution that executed it. -/
theorem one_entry_each_period (ref : QueueRef) :
    (∀ (depth budget : Nat) (start finish : Tag.Evaluation (World η)), start.world.Registered →
      (start.world.queue ref).phase = .running → (start.world.queue ref).Unhindered →
      (start.world.queue ref).kind.isInstant = false →
      (engine.revolve (engine.fire depth) budget ref).run start = some ((), finish) →
      ¬ engine.Unsettled ref start.world finish.world.notes →
      start.world.Revolved ref finish.world) ∧
    ∀ (host : η) (calls : List HostCall) (speed : Int) (lapses : List Duration)
      (start finish : Tag.Evaluation (World η)),
      engine.Runs calls (engine.start host) start →
      (start.world.queue ref).phase = .constructing → (start.world.queue ref).Unhindered →
      (start.world.queue ref).kind = .timed speed → 1 ≤ speed → speed < 2 ^ 32 →
      (start.world.queue ref).entries ≠ [] →
      engine.Runs (.start ref :: lapses.map .tick) start finish →
      (∀ lapse ∈ lapses, lapse.nanoseconds ≤ speed.toNat * 50000000) →
      ¬ engine.Unsettled ref start.world finish.world.notes →
      start.world.Executed ref
        (min (start.world.queue ref).entries.length
          (1 + (lapses.map Duration.nanoseconds).sum / (speed.toNat * 50000000)))
        finish.world := by
  refine ⟨fun depth budget start finish registered running unhindered timed ran settled =>
    revolves_once regular registered running unhindered timed ran settled, ?_⟩
  intro host calls speed lapses start finish runs new unhindered kind positive small some began short
    settled
  have period : (start.world.queue ref).kind.period = ⟨speed.toNat * 50000000⟩ := by
    rw [kind]
    exact if_neg (Int.not_le.2 small)
  have fits : speed.toNat * 50000000 < Scheduler.clockRange := by
    have wide : 214748364800000000 < Scheduler.clockRange := by decide
    omega
  cases began with
  | @cons _ _ budget _ between _ made answered rest =>
      have resting : start.world.Resting := runs.resting regular (.start engine host)
      have timed : (start.world.queue ref).kind.isInstant = false := by
        rw [kind]
        exact decide_eq_false (Int.not_le.2 positive)
      have begins := OnSchedule.start regular budget resting (made ref rfl) new unhindered timed period some
        start () between rfl answered
      have ends := OnSchedule.run regular (by omega) fits short rest begins
      rw [Nat.zero_add] at ends
      rcases ends with astray | ⟨plan, onTime⟩
      · exact absurd astray.unsettled settled
      · exact onTime.executed settled

end

def threeDefinitions : List Entry :=
  [.ofCommand "define" ["a", "1"], .ofCommand "define" ["b", "2"], .ofCommand "define" ["c", "3"]]

def threeTimed : List HostCall := [.enlist "q" (.timed 2), .add ⟨0⟩ threeDefinitions]

theorem one_entry_each_period_drifting :
    let engine : Engine Unit := .builtin {}
    let lapses : List Duration := [⟨70000000⟩, ⟨80000000⟩, ⟨100000000⟩]
    (∃ start finish, engine.Runs (threeTimed ++ [.start ⟨0⟩]) (engine.start ()) start ∧
      (engine.revolve (engine.fire 9) 9 ⟨0⟩).run start = some ((), finish) ∧
      start.world.Revolved ⟨0⟩ finish.world) ∧
    ∃ start finish, engine.Runs threeTimed (engine.start ()) start ∧
      start.world.live.get? "q" = some ⟨0⟩ ∧ (start.world.queue ⟨0⟩).entries.length = 3 ∧
      engine.Runs (.start ⟨0⟩ :: lapses.map .tick) start finish ∧
      start.world.Executed ⟨0⟩ 3 finish.world := by
  intro engine lapses
  have regular : engine.Regular true := builtin_regular true {}
  have period := one_entry_each_period regular ⟨0⟩
  -- Nothing is filled but these entries; the rest of what is on record was told to whoever debugs.
  let defines (note : Note) : Bool :=
    note.isReport || decide (note ∈ threeDefinitions.map (.filled ⟨0⟩))
  have settled (origin : World Unit) {notes : List Note} (told : ∀ note ∈ notes, defines note) :
      ¬ engine.Unsettled ⟨0⟩ origin notes := by
    refine Unsettled.of_names fun actor entry member command found => ?_
    rcases Bool.or_eq_true_iff.1 (told _ member) with report | listed
    · cases report
    · obtain ⟨defined, among, same⟩ := List.mem_map.1 (of_decide_eq_true listed)
      obtain ⟨-, rfl⟩ := Note.filled.inj same
      have named : ∀ entry ∈ threeDefinitions, entry.command = "define" := by decide
      have known : engine.commands.find? "define" = some Command.define := by cbv
      obtain rfl : Command.define = command :=
        Option.some.inj (known.symm.trans (named defined among ▸ found))
      simp [Command.define]
  have once : ((engine.answer 9 (threeTimed ++ [.start ⟨0⟩]) (engine.start ())).bind fun start =>
      ((engine.revolve (engine.fire 9) 9 ⟨0⟩).run start).map fun told =>
        (decide ((start.world.queue ⟨0⟩).phase = .running), (start.world.queue ⟨0⟩).kind.isInstant,
          (start.world.queue ⟨0⟩).paused, decide ((start.world.queue ⟨0⟩).delayUntil = none),
          decide ((start.world.queue ⟨0⟩).holds = 0),
          decide (∀ note ∈ told.2.world.notes, defines note))) =
      some (true, false, false, true, true, true) := by
    decide +kernel
  have drifts : ((engine.answer 9 threeTimed (engine.start ())).bind fun start =>
      (engine.answer 9 (.start ⟨0⟩ :: lapses.map .tick) start).map fun finish =>
        (decide ((start.world.queue ⟨0⟩).phase = .constructing ∧
            (start.world.queue ⟨0⟩).kind = .timed 2 ∧ (start.world.queue ⟨0⟩).entries.length = 3),
          (start.world.queue ⟨0⟩).paused, decide ((start.world.queue ⟨0⟩).delayUntil = none),
          decide ((start.world.queue ⟨0⟩).holds = 0),
          decide (start.world.live.get? "q" = some ⟨0⟩),
          decide (∀ note ∈ finish.world.notes, defines note))) =
      some (true, false, true, true, true, true) := by
    decide +kernel
  obtain ⟨start, answered, told⟩ := Option.bind_eq_some_iff.1 once
  obtain ⟨⟨_, finish⟩, ran, told⟩ := Option.map_eq_some_iff.1 told
  simp only [Prod.mk.injEq, decide_eq_true_eq] at told
  obtain ⟨running, timed, paused, undelayed, unheld, calm⟩ := told
  obtain ⟨first, readied, told⟩ := Option.bind_eq_some_iff.1 drifts
  obtain ⟨last, ticked, told⟩ := Option.map_eq_some_iff.1 told
  simp only [Prod.mk.injEq, decide_eq_true_eq] at told
  obtain ⟨⟨new, kind, three⟩, free, soon, spare, live, quiet⟩ := told
  have runs := runs_of_answer answered
  have readies := runs_of_answer readied
  have ticks := runs_of_answer ticked
  refine ⟨⟨start, finish, runs, ran, ?_⟩, first, last, readies, live, three, ticks, ?_⟩
  · exact period.1 9 9 start finish (runs.resting regular (.start engine ())).registered running
      ⟨paused, undelayed, unheld⟩ timed ran (settled _ calm)
  · have executed := period.2 () threeTimed 2 lapses first last readies new ⟨free, soon, spare⟩ kind
      (by decide) (by decide) (List.length_pos_iff.1 (by omega)) ticks (by decide) (settled _ quiet)
    have counted : min 3 (1 + (lapses.map Duration.nanoseconds).sum / (Int.toNat 2 * 50000000)) = 3 := by
      decide
    rwa [three, counted] at executed

end Engine

end TagScript
