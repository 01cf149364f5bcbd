import TagScript.Proofs.Engine.OneTimer
import TagScript.Proofs.Engine.Undisturbed

/-! One entry each period. A queue that runs at a speed is revolved by its own timer: each tick that the
timer comes due in executes one more entry of it, whether at once or on a worker, and no other does. -/

namespace TagScript

variable {η α : Type}

open RunM (Secures Nudges)

def Job.revolves (ref : QueueRef) : Job QueueRef AsyncWork → Bool
  | .timer _ actor => actor = ref
  | .work _ => false

def Job.report : Job QueueRef AsyncWork → Message AsyncWork
  | .timer id _ => .completed id
  | .work callback => .callback callback

namespace Engine

def OrAstray (engine : Engine η) (ref : QueueRef) (origin : World η) (good : World η → Prop)
    (world : World η) : Prop :=
  engine.Astray ref origin world ∨ good world

/-- The queue has come to be as planned, and the timer revolves it. Of the jobs in the pool just these
are to revolve it, and just that was posted. -/
structure Turning (engine : Engine η) (ref : QueueRef) (origin : World η) (plan : Queue)
    (timer : Timer QueueRef) (pending : List (Job QueueRef AsyncWork))
    (posted : List (Message AsyncWork)) (world : World η) : Prop where
  planned : engine.AsPlanned ref origin plan world
  wound : world.Wound ref timer
  pending : world.scheduler.jobs.filter (Job.revolves ref) = pending
  posted : world.scheduler.inbox = posted

def Owing (engine : Engine η) (ref : QueueRef) (origin : World η) (plan : Queue)
    (timer : Timer QueueRef) (world : World η) : Prop :=
  ∃ now inFlight pending, now.Clocked ref origin ∧
    engine.Turning ref origin now { timer with inFlight } pending [] world ∧
    Queue.revolved^[pending.length] now = plan ∧ (inFlight = true → .timer timer.id ref ∈ pending)

def Ticking (engine : Engine η) (ref : QueueRef) (origin : World η) (plan : Queue)
    (timer : Timer QueueRef) (world : World η) : Prop :=
  ∃ inFlight posted, engine.Turning ref origin plan { timer with inFlight } [] posted world ∧
    (inFlight = true → .completed timer.id ∈ posted)

variable {engine : Engine η} {ref : QueueRef} {origin world : World η} {plan : Queue} {free : Bool}
  {timer : Timer QueueRef} {pending : List (Job QueueRef AsyncWork)} {posted : List (Message AsyncWork)}

theorem OrAstray.secures {act : RunM η α} {good : World η → Prop} {next : α → World η → Prop}
    (astray : Secures (engine.Astray ref origin) act fun _ => engine.Astray ref origin)
    (settled : Secures good act fun result => engine.OrAstray ref origin (next result)) :
    Secures (engine.OrAstray ref origin good) act fun result => engine.OrAstray ref origin (next result) :=
  fun start result finish held ran => held.elim
    (fun held => .inl (astray start result finish held ran))
    fun held => settled start result finish held ran

theorem AsPlanned.reschedule (planned : engine.AsPlanned ref origin plan world)
    (scheduler : Scheduler QueueRef AsyncWork) :
    engine.AsPlanned ref origin plan { world with scheduler } :=
  ⟨planned.goesOn, planned.scripts, planned.launched, planned.met⟩

namespace Astray

variable (regular : engine.Regular free) (budget : Nat)

include regular

theorem fireDue (due : Due QueueRef) :
    Secures (engine.Astray ref origin) (Scheduler.fire (engine.handlers budget) due)
      fun _ => engine.Astray ref origin :=
  (vigil engine ref origin).fireDue regular budget (fires regular budget) (revolve regular budget budget)
    due

theorem settle (jobs : Nat) :
    Secures (engine.Astray ref origin) (engine.settle budget jobs) fun _ => engine.Astray ref origin :=
  (vigil engine ref origin).settle regular budget (fires regular budget) (revolve regular budget budget)
    jobs

theorem tick (elapsed : Duration) :
    Secures (engine.Astray ref origin) (engine.tick budget elapsed) fun _ => engine.Astray ref origin :=
  ((vigil engine ref origin).tick regular budget (fires regular budget) (revolve regular budget budget)
    elapsed).weaken (fun _ astray => ⟨astray.goesOn, astray.scripts, astray.launched, astray.unsettled⟩)
      fun _ _ held => held

end Astray

namespace Turning

theorem secures {act : RunM η α} {next : Queue} (nudges : ∀ origin : World η, Nudges origin act)
    (planned : Secures (engine.AsPlanned ref origin plan) act fun _ => engine.AsPlanned ref origin next) :
    Secures (engine.Turning ref origin plan timer pending posted) act
      fun _ => engine.Turning ref origin next timer pending posted := by
  have wound : Secures (World.Wound ref timer) act fun _ => World.Wound ref timer :=
    Nudges.secures nudges fun nudge wound => wound.nudge nudge
  have pool : Secures (fun world => world.scheduler.jobs.filter (Job.revolves ref) = pending ∧
        world.scheduler.inbox = posted) act fun _ world =>
      world.scheduler.jobs.filter (Job.revolves ref) = pending ∧ world.scheduler.inbox = posted := by
    refine Nudges.secures nudges fun nudge held => ?_
    rw [nudge.pool_eq.1, nudge.pool_eq.2]
    exact held
  exact fun start result finish held ran => ⟨planned start result finish held.planned ran,
    wound start result finish held.wound ran, (pool start result finish ⟨held.pending, held.posted⟩ ran).1,
    (pool start result finish ⟨held.pending, held.posted⟩ ran).2⟩

variable (regular : engine.Regular free) (budget : Nat) (clocked : plan.Clocked ref origin)

include regular clocked

theorem runTimer (id : TimerId) (actor : QueueRef) :
    Secures (engine.Turning ref origin plan timer pending posted)
      (Scheduler.runTimer (engine.handlers budget) id actor)
      fun _ => engine.Turning ref origin (if actor = ref then plan.revolved else plan) timer pending
        posted := by
  have watch := AsPlanned.vigil engine ref origin clocked.unheld
  have fires : (engine.fire budget).Heeds ref (engine.AsPlanned ref origin plan) _ :=
    AsPlanned.fires regular clocked.unheld budget
  have nudges (origin : World η) : Nudges origin (engine.revolve (engine.fire budget) budget actor) :=
    revolve_nudges regular (fire_nudges regular budget) budget actor
  have revolves : Secures (engine.AsPlanned ref origin plan)
      (engine.revolve (engine.fire budget) budget actor)
      fun _ => engine.AsPlanned ref origin (if actor = ref then plan.revolved else plan) := by
    by_cases same : actor = ref
    · subst same
      rw [if_pos rfl]
      exact AsPlanned.revolve regular budget budget clocked
    · rw [if_neg same]
      exact watch.revolve regular fires (fun own => absurd own same) budget
  have later : (if actor = ref then plan.revolved else plan).Clocked ref origin := by
    split
    · exact clocked.revolved
    · exact clocked
  refine .bind (.bind (secures nudges revolves) fun _ => .pure fun _ held => held) fun _ =>
    .ite (fun _ => ?_) fun _ => .pure fun _ held => held
  exact secures (fun _ => .log _ _) ((AsPlanned.vigil engine ref origin later.unheld).log _ _)

theorem messages (messages : List (Message AsyncWork))
    (reported : timer.inFlight = true → .completed timer.id ∈ messages) :
    Secures (engine.Turning ref origin plan timer pending posted)
      (messages.forM (Scheduler.handle (engine.handlers budget)))
      fun _ => engine.Turning ref origin plan { timer with inFlight := false } pending posted := by
  have watch := AsPlanned.vigil engine ref origin clocked.unheld
  induction messages generalizing timer with
  | nil =>
      have idle : { timer with inFlight := false } = timer := by
        cases flies : timer.inFlight with
        | false => rw [← flies]
        | true => exact absurd (reported flies) List.not_mem_nil
      rw [idle]
      exact .pure fun _ held => held
  | cons message rest ih =>
      rw [List.forM_eq_forM, List.forM_cons]
      cases message with
      | completed id =>
          have completes : Secures (engine.Turning ref origin plan timer pending posted)
              (Scheduler.handle (engine.handlers budget) (.completed id)) fun _ =>
              engine.Turning ref origin plan
                (if timer.id = id then { timer with inFlight := false } else timer) pending posted :=
            .reschedule fun world held => ⟨held.planned.reschedule _,
              held.wound.modifyTimer id ({ · with inFlight := false }) (fun _ => ⟨rfl, rfl⟩) rfl rfl,
              held.pending, held.posted⟩
          refine .bind completes fun _ => ?_
          by_cases own : timer.id = id
          · rw [if_pos own]
            exact ih fun flies => absurd flies Bool.false_ne_true
          · rw [if_neg own]
            refine ih fun flies => (List.mem_cons.1 (reported flies)).resolve_left ?_
            exact fun same => own (Message.completed.inj same)
      | callback work =>
          refine .bind (.bind (secures (fun _ => deliver_nudges regular work) (watch.deliver regular work))
            fun _ => .ite (fun _ => secures (fun _ => .log _ _) (watch.log _ _))
              fun _ => .pure fun _ held => held) fun _ => ih fun flies => ?_
          exact (List.mem_cons.1 (reported flies)).resolve_left fun same => by cases same

theorem fire_other {due : Due QueueRef} (different : due.action ≠ ref) (foreign : timer.id ≠ due.id) :
    Secures (engine.Turning ref origin plan timer pending posted)
      (Scheduler.fire (engine.handlers budget) due)
      fun _ => engine.Turning ref origin plan timer pending posted := by
  have watch := AsPlanned.vigil engine ref origin clocked.unheld
  unfold Scheduler.fire
  split
  · have runs : Secures (engine.Turning ref origin plan timer pending posted) _ _ :=
      runTimer regular budget clocked due.id due.action
    rw [if_neg different] at runs
    exact runs
  · refine .each fun world held => .scheduler_bind (.ite (fun _ => ?_) fun _ => .set fun _ same => ?_)
    · exact (secures (fun _ => .log _ _) (watch.log _ _)).weaken (fun _ same => same ▸ held)
        fun _ _ held => held
    · subst same
      have wound := held.wound.modifyTimer due.id ({ · with inFlight := true }) (fun _ => ⟨rfl, rfl⟩)
        (rfl : (Scheduler.dispatchToWorker due _).nextId = _) rfl
      rw [if_neg foreign] at wound
      refine ⟨held.planned.reschedule _, wound, ?_, held.posted⟩
      simp [Scheduler.dispatchToWorker, Scheduler.spawn, Scheduler.modifyTimer, Job.revolves, different,
        held.pending]

theorem runJob (job : Job QueueRef AsyncWork) :
    Secures (engine.Turning ref origin plan timer pending posted)
      (Scheduler.runJob (engine.handlers budget) job)
      fun _ => engine.Turning ref origin (if job.revolves ref then plan.revolved else plan) timer pending
        (posted ++ [job.report]) := by
  have posts (plan : Queue) (message : Message AsyncWork) :
      Secures (engine.Turning ref origin plan timer pending posted)
        (Scheduler.update (Scheduler.post message) : RunM η Unit) fun _ =>
        engine.Turning ref origin plan timer pending (posted ++ [message]) :=
    .reschedule fun world held => ⟨held.planned.reschedule _, held.wound.of_timers rfl rfl,
      held.pending, by rw [← held.posted]; rfl⟩
  cases job with
  | timer id actor =>
      simp only [Job.revolves, decide_eq_true_eq]
      exact .bind (runTimer regular budget clocked id actor) fun _ => posts _ _
  | work callback => exact posts _ _

theorem settle (jobs : Nat) (reported : timer.inFlight = true →
      .timer timer.id ref ∈ pending ∨ .completed timer.id ∈ posted) :
    Secures (engine.Turning ref origin plan timer pending posted) (engine.settle budget jobs)
      fun _ => engine.Ticking ref origin (Queue.revolved^[pending.length] plan) timer := by
  induction jobs generalizing plan pending posted with
  | zero => exact .outOfBudget
  | succ jobs ih =>
      refine .each fun world held => .world_bind ?_
      cases taken : world.scheduler.takeJob? with
      | none =>
          have idle : pending = [] := by rw [← held.pending, Scheduler.takeJob?_eq_none taken]; rfl
          subst idle
          refine .pure fun _ same => ⟨timer.inFlight, posted, same ▸ held, fun flies => ?_⟩
          exact (reported flies).resolve_left List.not_mem_nil
      | some found =>
          obtain ⟨job, scheduler⟩ := found
          obtain ⟨jobs_eq, same⟩ := Scheduler.takeJob?_eq_some taken
          have takes : Secures (· = world) (set scheduler : RunM η PUnit) fun _ =>
              engine.Turning ref origin plan timer (scheduler.jobs.filter (Job.revolves ref)) posted := by
            refine .set fun _ here => ?_
            rw [here, same]
            exact ⟨held.planned.reschedule _, held.wound.of_timers rfl rfl, rfl, held.posted⟩
          have all := held.pending
          rw [jobs_eq, List.filter_cons] at all
          refine .bind takes fun _ => .bind (runJob regular budget clocked job) fun _ => ?_
          by_cases own : job.revolves ref = true
          · rw [if_pos own] at all
            rw [if_pos own, ← all, List.length_cons, Function.iterate_succ_apply]
            refine ih clocked.revolved fun flies => ?_
            rw [← all] at reported
            rcases reported flies with waits | told
            · rcases List.mem_cons.1 waits with rfl | waits
              · exact .inr (List.mem_append_right _ List.mem_cons_self)
              · exact .inl waits
            · exact .inr (List.mem_append_left _ told)
          · rw [if_neg own] at all
            rw [if_neg own, all]
            exact ih clocked fun flies => (reported flies).imp_right (List.mem_append_left _)

theorem fire_own (runs : plan.isStopped = false) (acts : timer.action = ref)
    (idle : timer.inFlight = false) :
    Secures (engine.Turning ref origin plan timer [] [])
      (Scheduler.fire (engine.handlers budget) timer.due)
      fun _ => engine.OrAstray ref origin (engine.Owing ref origin plan.revolved timer) := by
  refine .each fun world held => ?_
  have begins : ∀ later, later = world → engine.Turning ref origin plan timer [] [] later :=
    fun _ same => same ▸ held
  by_cases unsettled : engine.Unsettled ref origin world.notes
  · exact (Astray.fireDue regular budget _).weaken
      (fun _ same => (begins _ same).planned.astray (same ▸ unsettled)) fun _ _ held => .inl held
  unfold Scheduler.fire
  split
  · have same : { timer with inFlight := false } = timer := by rw [← idle]
    have turns := (runTimer regular budget clocked timer.id timer.action).weaken begins
      fun _ _ held => held
    rw [if_pos acts] at turns
    refine turns.weaken (fun _ held => held) fun _ world held => .inr ?_
    exact ⟨plan.revolved, false, [], clocked.revolved, same.symm ▸ held, rfl, fun flies => by cases flies⟩
  · have runs : (world.queue ref).isStopped = false := by
      rw [(held.planned.met unsettled).1.same]
      exact runs
    have free : world.scheduler.isBusy timer.due = false := (held.wound.isBusy runs rfl).trans idle
    refine .scheduler_bind ?_
    rw [free]
    refine .ite (fun busy => absurd busy Bool.false_ne_true) fun _ => .set fun _ same => .inr ?_
    subst same
    have wound := held.wound.modifyTimer timer.id ({ · with inFlight := true }) (fun _ => ⟨rfl, rfl⟩)
      (rfl : (Scheduler.dispatchToWorker timer.due _).nextId = _) rfl
    rw [if_pos rfl] at wound
    refine ⟨plan, true, [.timer timer.id ref], clocked, ⟨held.planned.reschedule _, wound, ?_,
      held.posted⟩, rfl, fun _ => List.mem_cons_self⟩
    simp [Scheduler.dispatchToWorker, Scheduler.spawn, Scheduler.modifyTimer, held.pending, Job.revolves,
      Timer.due, acts]

end Turning

namespace Owing

variable (regular : engine.Regular free) (budget : Nat)

include regular

theorem fire_other {due : Due QueueRef} (different : due.action ≠ ref) (foreign : timer.id ≠ due.id) :
    Secures (engine.Owing ref origin plan timer) (Scheduler.fire (engine.handlers budget) due)
      fun _ => engine.Owing ref origin plan timer := by
  refine .each fun world ⟨now, inFlight, pending, clocked, turning, comes, waits⟩ => ?_
  have fires : Secures (engine.Turning ref origin now { timer with inFlight } pending []) _ _ :=
    Turning.fire_other regular budget clocked different foreign
  exact fires.weaken (fun _ same => same ▸ turning) fun _ _ held =>
    ⟨now, inFlight, pending, clocked, held, comes, waits⟩

theorem settle (jobs : Nat) :
    Secures (engine.Owing ref origin plan timer) (engine.settle budget jobs)
      fun _ => engine.Ticking ref origin plan timer := by
  refine .each fun world ⟨now, inFlight, pending, clocked, turning, comes, waits⟩ => ?_
  have settles : Secures (engine.Turning ref origin now { timer with inFlight } pending []) _ _ :=
    Turning.settle regular budget clocked jobs fun flies => .inl (waits flies)
  exact settles.weaken (fun _ same => same ▸ turning) fun _ _ held => comes ▸ held

end Owing

theorem Turning.fires (regular : engine.Regular free) (budget : Nat) (clocked : plan.Clocked ref origin)
    (runs : plan.isStopped = false) (acts : timer.action = ref) (idle : timer.inFlight = false)
    {dues : List (Due QueueRef)} {isDue : Bool}
    (once : dues.filter (·.action = ref) = if isDue then [timer.due] else [])
    (named : ∀ due ∈ dues, due.id = timer.id → due.action = ref) :
    Secures (engine.Turning ref origin plan timer [] [])
      (dues.forM (Scheduler.fire (engine.handlers budget)))
      fun _ => engine.OrAstray ref origin
        (engine.Owing ref origin (if isDue then plan.revolved else plan) timer) := by
  have foreign {due : Due QueueRef} (member : due ∈ dues) (different : due.action ≠ ref) :
      timer.id ≠ due.id := fun same => different (named due member same.symm)
  cases isDue with
  | false =>
      have others : ∀ due ∈ dues, due.action ≠ ref := by simpa using once
      have same : { timer with inFlight := false } = timer := by rw [← idle]
      refine (Secures.forM dues fun due member => ?_).weaken (fun _ held => held) fun _ world held =>
        .inr ⟨plan, false, [], clocked, same.symm ▸ held, rfl, fun flies => by cases flies⟩
      exact Turning.fire_other regular budget clocked (others due member)
        (foreign member (others due member))
  | true =>
      obtain ⟨before, after, rfl, first, _, last⟩ := List.filter_eq_cons_iff.1 once
      have others : ∀ due ∈ after, due.action ≠ ref := by simpa using last
      rw [List.forM_eq_forM, List.forM_append, List.forM_cons]
      refine .bind (.forM before fun due member => ?_) fun _ =>
        .bind (Turning.fire_own regular budget clocked runs acts idle) fun _ =>
          OrAstray.secures (.forM after fun due _ => Astray.fireDue regular budget due)
            ((Secures.forM after fun due member => ?_).weaken (fun _ held => held)
              fun _ _ held => .inr held)
      · have different : due.action ≠ ref := by simpa using first due member
        exact Turning.fire_other regular budget clocked different
          (foreign (List.mem_append_left _ member) different)
      · exact Owing.fire_other regular budget (others due member)
          (foreign (by simp [member]) (others due member))

theorem Turning.expire (regular : engine.Regular free) (budget : Nat) (clocked : plan.Clocked ref origin)
    (runs : plan.isStopped = false) (idle : timer.inFlight = false) {elapsed : Nat}
    (kept : (timer.age elapsed).1.cancelled = false)
    (held : engine.Turning ref origin plan timer [] [] world) :
    Secures (· = world) (do
        set (world.scheduler.collectDue elapsed).2
        (world.scheduler.collectDue elapsed).1.forM
          (Scheduler.fire (engine.handlers budget)) : RunM η Unit)
      fun _ => engine.OrAstray ref origin (engine.Owing ref origin
        (if (timer.age elapsed).2 then plan.revolved else plan) (timer.age elapsed).1) := by
  have collects : Secures (· = world) (set (world.scheduler.collectDue elapsed).2 : RunM η PUnit)
      fun _ => engine.Turning ref origin plan (timer.age elapsed).1 [] [] := by
    refine .set fun _ same => ?_
    subst same
    exact ⟨held.planned.reschedule _, held.wound.collectDue _ kept, held.pending, held.posted⟩
  by_cases unsettled : engine.Unsettled ref origin world.notes
  · have astray : Secures (· = world) (set (world.scheduler.collectDue elapsed).2 : RunM η PUnit)
        fun _ => engine.Astray ref origin :=
      (Astray.vigil engine ref origin).resets rfl (held.planned.astray unsettled)
    refine Secures.weaken ?_ (fun _ same => same) fun _ _ held => Or.inl held
    exact .bind astray fun _ => .forM _ fun due _ => Astray.fireDue regular budget due
  · have going : (world.queue ref).isStopped = false := by
      rw [(held.planned.met unsettled).1.same]
      exact runs
    obtain ⟨id, action, flight⟩ := Scheduler.age_same elapsed timer
    refine .bind collects fun _ => Turning.fires regular budget clocked runs
      (action.trans (held.wound.mem going).2) (flight.trans idle) (held.wound.due going elapsed) ?_
    exact fun due member named => held.wound.named_due member (named.trans id)

theorem Ticking.planned (ticking : engine.Ticking ref origin plan timer world) :
    engine.AsPlanned ref origin plan world := by
  obtain ⟨_, _, turning, _⟩ := ticking
  exact turning.planned

theorem age_inFlight (elapsed : Nat) (timer : Timer QueueRef) (inFlight : Bool) :
    ({ timer with inFlight }).age elapsed =
      ({ (timer.age elapsed).1 with inFlight }, (timer.age elapsed).2) := by
  unfold Timer.age
  dsimp only
  split
  · rfl
  · split
    · rfl
    · split <;> rfl

theorem Ticking.tick (regular : engine.Regular free) (budget : Nat) (clocked : plan.Clocked ref origin)
    (runs : plan.isStopped = false) (elapsed : Duration)
    (kept : (timer.age (Scheduler.clipped elapsed)).1.cancelled = false) :
    Secures (engine.Ticking ref origin plan timer) (engine.tick budget elapsed)
      fun _ => engine.OrAstray ref origin (engine.Ticking ref origin
        (if (timer.age (Scheduler.clipped elapsed)).2 then plan.revolved else plan)
        (timer.age (Scheduler.clipped elapsed)).1) := by
  let later := if (timer.age (Scheduler.clipped elapsed)).2 then plan.revolved else plan
  have ages := age_inFlight (Scheduler.clipped elapsed) timer false
  have ticks : Secures (engine.Ticking ref origin plan timer)
      (Scheduler.tick (engine.handlers budget) elapsed) fun _ => engine.OrAstray ref origin
        (engine.Owing ref origin later (timer.age (Scheduler.clipped elapsed)).1) := by
    refine .each fun world ⟨inFlight, posted, turning, reported⟩ => ?_
    have advances : Secures (· = world)
        (Scheduler.update (Scheduler.advance elapsed) : RunM η Unit)
        fun _ => engine.Turning ref origin plan { timer with inFlight } [] posted :=
      .reschedule fun _ same => same ▸ ⟨turning.planned.reschedule _, turning.wound.of_timers rfl rfl,
        turning.pending, turning.posted⟩
    refine .bind advances fun _ => .each fun world held => .scheduler_bind ?_
    have empties : Secures (· = world) (set world.scheduler.takeInbox.2 : RunM η PUnit)
        fun _ => engine.Turning ref origin plan { timer with inFlight } [] [] := by
      refine .set fun _ same => ?_
      subst same
      exact ⟨held.planned.reschedule _, held.wound.of_timers rfl rfl, held.pending, rfl⟩
    have told : world.scheduler.inbox = posted := held.posted
    refine .bind empties fun _ => .bind (Turning.messages regular budget clocked world.scheduler.inbox
      (told ▸ reported)) fun _ => .each fun world held => .scheduler_bind ?_
    have expires := Turning.expire regular budget clocked runs rfl (by rw [ages]; exact kept) held
    rw [ages] at expires
    refine expires.weaken (fun _ same => same) fun _ world held => held.imp_right ?_
    rintro ⟨now, inFlight, rest⟩
    exact ⟨now, inFlight, rest⟩
  refine .bind ticks fun _ => OrAstray.secures (Astray.settle regular budget budget) ?_
  exact (Owing.settle regular budget budget).weaken (fun _ held => held) fun _ _ held => .inr held

end Engine

end TagScript
