import TagScript.Proofs.Engine.Speed

/-! Draining a queue, stepping through it and letting time pass: all this does nothing with a queue that
is alone but go on. -/

namespace TagScript.Engine

variable {η α : Type}

section

variable {host : Host} {library : Script → Prop} {ref : QueueRef} {fire : Firing η}
  {start : Tag.Evaluation (World η)}

theorem run_queue_bind (next : Queue → RunM η α) :
    (RunM.queue ref >>= next).run start = (next (start.world.queue ref)).run start := rfl

theorem run_modifyQueue_bind (change : Queue → Queue) (next : Unit → RunM η α) :
    (RunM.modifyQueue ref change >>= next).run start =
      (next ()).run { start with world := start.world.modifyQueue ref change } := rfl

theorem run_takeStep_bind (next : Step → RunM η α) :
    (takeStep ref >>= next).run start =
      (next ((start.world.queue ref).nextStep start.world.now).1).run
        { start with world := start.world.modifyQueue ref fun _ =>
          ((start.world.queue ref).nextStep start.world.now).2 } := rfl

theorem advance_of_dry (engine : Engine η) (fire : Firing η)
    (dry : (start.world.queue ref).entries = []) :
    (engine.advance fire ref).run start = (engine.finishQueue ref).run start := by
  rw [advance, run_queue_bind, dry]

theorem advance_of_waiting (engine : Engine η) (fire : Firing η) {entry : Entry}
    {entries : List Entry} (waiting : (start.world.queue ref).entries = entry :: entries) :
    (engine.advance fire ref).run start = (engine.executeTaken fire ref entry).run
      { start with world :=
        start.world.modifyQueue ref fun _ => { start.world.queue ref with entries } } := by
  rw [advance, run_queue_bind, waiting]
  exact run_modifyQueue_bind _ _

theorem ready_of_isFinished {world : World η} (dry : (world.queue ref).isFinished world.now = true) :
    world.Ready ref ∧ (world.queue ref).entries = [] := by
  obtain ⟨runs, empty, free⟩ := Queue.isFinished_iff.1 dry
  exact ⟨⟨runs, free⟩, empty⟩

theorem ready_of_execute {world : World η} {entry : Entry} {rest : Queue}
    (taken : (world.queue ref).nextStep world.now = (.execute entry, rest)) : world.Ready ref := by
  refine ⟨(Queue.nextStep_execute taken).1, ?_⟩
  cases blocked : (world.queue ref).isBlocked world.now with
  | false => rfl
  | true => simp [Queue.nextStep, (Queue.nextStep_execute taken).1, blocked] at taken

theorem advance_pursues (underway : Underway host library ref start) (ready : start.world.Ready ref) :
    PursuesFrom host ref start ((paceless host).advance fire ref) := by
  intro _ finish ran
  obtain ⟨later, ranAgain, abreast⟩ :=
    advance_abreast ((paceless host).fire 0) underway.alone underway.tame ready ready ran
  exact ⟨1, .advance (.rest underway.alone) ready ranAgain abreast.symm⟩

theorem finishQueue_pursues (underway : Underway host library ref start)
    (dry : (start.world.queue ref).isFinished start.world.now = true) :
    PursuesFrom host ref start ((paceless host).finishQueue ref) := by
  obtain ⟨ready, empty⟩ := ready_of_isFinished dry
  intro result finish ran
  rw [← advance_of_dry _ (fun _ => RunM.outOfBudget) empty] at ran
  exact advance_pursues underway ready _ _ ran

variable (terminating : (paceless host : Engine η).Terminating library)

include terminating

theorem Pursues.takeStep_bind {next : Step → RunM η Unit} {rest : RunM η Unit}
    (halted : next .halted = Pure.pure ()) (waits : Pursues host library ref (next .wait))
    (finishes : next .finish = (paceless host).finishQueue ref)
    (executes : ∀ entry, next (.execute entry) =
      (paceless host).executeTaken fire ref entry >>= fun _ => rest)
    (goesOn : Pursues host library ref rest) :
    Pursues host library ref (takeStep ref >>= next) := by
  intro start underway result finish ran
  rw [run_takeStep_bind] at ran
  rcases (start.world.queue ref).nextStep_cases start.world.now with ⟨_, step⟩ | ⟨_, step⟩ |
    ⟨dry, step⟩ | ⟨entry, entries, _, waiting, step⟩
  · simp only [step, World.modifyQueue_self, halted] at ran
    exact Pursues.pure () start underway _ _ ran
  · simp only [step, World.modifyQueue_self] at ran
    exact waits start underway _ _ ran
  · simp only [step, World.modifyQueue_self, finishes] at ran
    exact finishQueue_pursues underway dry _ _ ran
  · have ready := ready_of_execute step
    simp only [step, executes] at ran
    obtain ⟨_, later, executed, ranRest⟩ := Tag.EvalM.run_bind_eq_some.1 ran
    rw [← advance_of_waiting _ _ waiting] at executed
    obtain ⟨count, advances⟩ := advance_pursues underway ready _ _ executed
    exact Pursues.after terminating advances underway goesOn ranRest

theorem ensureScheduled_pursues : Pursues host library ref (ensureScheduled ref : RunM η Unit) := by
  refine .queue_bind fun queue => .ite (.pure _) ?_
  refine .bind terminating (.updateGet fun world twinned => ?_) fun timer => ?_
  · exact twinned.reschedule ⟨twinned.timing.1, twinned.timing.1⟩
  · exact .bind terminating (.log _ _) fun _ => .modifyQueue fun _ => rfl

theorem drain_pursues (budget : Nat) :
    Pursues host library ref ((paceless host).drain fire ref budget) := by
  induction budget with
  | zero => exact .outOfBudget
  | succ budget ih =>
      refine .takeStep_bind terminating rfl ?_ rfl (fun _ => rfl) ih
      refine .queue_bind fun queue => .bind terminating (.log _ _) fun _ => ?_
      exact .bind terminating (.modifyQueue fun _ => rfl) fun _ => ensureScheduled_pursues terminating

theorem step_pursues : Pursues host library ref ((paceless host).step fire ref) := by
  refine .takeStep_bind terminating rfl (.pure _) rfl (fun _ => rfl) (.world_bind ?_)
  intro start underway
  split
  · exact finishQueue_pursues underway ‹_›
  · exact Pursues.pure _ start underway

theorem revolve_pursues (budget : Nat) (target : QueueRef) :
    Pursues host library ref ((paceless host).revolve fire budget target) := by
  by_cases own : target = ref
  · subst own
    exact .queue_bind fun queue => .ite (.pure _)
      (.ite (drain_pursues terminating budget) (step_pursues terminating))
  · intro start underway
    have missing := underway.alone.world.alone underway.alone.world.known.1 own
    intro result finish ran
    rw [revolve, run_queue_bind, World.queue_of_size_le missing] at ran
    exact Pursues.pure () start underway _ _ ran

end

/-! Letting time pass. -/

theorem works_takeJob {scheduler rest : Scheduler QueueRef AsyncWork} {job : Job QueueRef AsyncWork}
    (none : scheduler.works = []) (taken : scheduler.takeJob? = some (job, rest)) :
    job.waiting = .none ∧ rest.works = [] := by
  unfold Scheduler.takeJob? at taken
  split at taken
  · cases taken
  · rename_i first jobs waiting
    obtain ⟨rfl, rfl⟩ := Prod.mk.inj (Option.some.inj taken)
    obtain ⟨noJobs, noMessages⟩ := List.append_eq_nil_iff.1 none
    rw [waiting, List.filterMap_eq_nil_iff] at noJobs
    refine ⟨noJobs first List.mem_cons_self, List.append_eq_nil_iff.2 ⟨?_, noMessages⟩⟩
    exact List.filterMap_eq_nil_iff.2 fun job member => noJobs job (List.mem_cons_of_mem first member)

section

variable {host : Host} {library : Script → Prop} {ref : QueueRef}
  (terminating : (paceless host : Engine η).Terminating library)

include terminating

theorem runTimer_pursues (budget : Nat) (id : TimerId) (target : QueueRef) :
    Pursues host library ref (Scheduler.runTimer ((paceless host : Engine η).handlers budget) id target) :=
  .bind terminating (.bind terminating (revolve_pursues terminating budget target) fun _ => .pure true)
    fun _ => .ite (.log _ _) (.pure _)

theorem handle_pursues (budget : Nat) {message : Message AsyncWork} (free : message.waiting = none) :
    Pursues host library ref (Scheduler.handle ((paceless host : Engine η).handlers budget) message) := by
  cases message with
  | completed id => exact .scheduler_bind fun scheduler none => .set _ none
  | callback work =>
      have unheld : work.holds = false := by
        cases holds : work.holds with
        | false => rfl
        | true => simp [Message.waiting, AsyncWork.waiting, holds] at free
      have regular : (paceless host : Engine η).Regular false :=
        (builtin_regular false host).withoutTags _
      have delivered : ((paceless host : Engine η).handlers budget).deliver work = pure true := by
        change (paceless host : Engine η).deliver work = pure true
        rw [deliver, takeBack_eq regular, unheld]
        rfl
      refine .bind terminating ?_ fun _ => .ite (.log _ _) (.pure _)
      exact delivered ▸ .pure true

theorem fireDue_pursues (budget : Nat) (due : Due QueueRef) :
    Pursues host library ref (Scheduler.fire ((paceless host : Engine η).handlers budget) due) := by
  unfold Scheduler.fire
  split
  · exact runTimer_pursues terminating budget _ _
  · refine .scheduler_bind fun scheduler none => .ite (.log _ _) (.set _ ?_)
    simpa [Scheduler.works, Scheduler.dispatchToWorker, Scheduler.spawn, Scheduler.modifyTimer,
      Job.waiting] using none

theorem scheduler_tick_pursues (budget : Nat) (elapsed : Duration) :
    Pursues host library ref (Scheduler.tick ((paceless host : Engine η).handlers budget) elapsed) := by
  have advances : Pursues host library ref
      (Scheduler.update (Scheduler.advance elapsed) : RunM η Unit) :=
    .scheduler_bind fun scheduler none => .set _ none
  refine .bind terminating advances fun _ => .scheduler_bind fun scheduler none => ?_
  obtain ⟨noJobs, noMessages⟩ := List.append_eq_nil_iff.1 none
  refine .bind terminating (.set _ (by simpa [Scheduler.works, Scheduler.takeInbox] using noJobs)) ?_
  refine fun _ => .bind terminating (.forM terminating fun message member => ?_) fun _ => ?_
  · exact handle_pursues terminating budget (List.filterMap_eq_nil_iff.1 noMessages message member)
  · refine .scheduler_bind fun scheduler none => .bind terminating (.set _ none) fun _ => ?_
    exact .forM terminating fun due _ => fireDue_pursues terminating budget due

theorem runJob_pursues (budget : Nat) {job : Job QueueRef AsyncWork} (free : job.waiting = none) :
    Pursues host library ref (Scheduler.runJob ((paceless host : Engine η).handlers budget) job) := by
  have posts (message : Message AsyncWork) (free : message.waiting = none) :
      Pursues host library ref (Scheduler.update (Scheduler.post message) : RunM η Unit) :=
    .scheduler_bind fun scheduler none => .set _ (by
      simpa [Scheduler.works, Scheduler.post, free] using none)
  cases job with
  | timer id target =>
      exact .bind terminating (runTimer_pursues terminating budget id target) fun _ =>
        posts (.completed id) rfl
  | work callback => exact posts (.callback callback) free

theorem settle_pursues (budget jobs : Nat) :
    Pursues host library ref ((paceless host : Engine η).settle budget jobs) := by
  induction jobs with
  | zero => exact .outOfBudget
  | succ jobs ih =>
      refine .world_bind fun start underway => ?_
      cases taken : start.world.scheduler.takeJob? with
      | none => exact Pursues.pure () start underway
      | some found =>
          obtain ⟨job, rest⟩ := found
          obtain ⟨free, none⟩ := works_takeJob underway.alone.world.timing.1 taken
          exact Pursues.bind terminating (.set rest none) (fun _ =>
            .bind terminating (runJob_pursues terminating budget free) fun _ => ih) start underway

theorem tick_pursues (budget : Nat) (elapsed : Duration) :
    Pursues host library ref ((paceless host : Engine η).tick budget elapsed) :=
  .bind terminating (scheduler_tick_pursues terminating budget elapsed) fun _ =>
    settle_pursues terminating budget budget

end

end TagScript.Engine
