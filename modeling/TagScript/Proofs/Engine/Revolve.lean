import TagScript.Proofs.Engine.Execute
import TagScript.Proofs.Queue.Turn

/-! Running a queue does nothing but moves: from the first revolution, which leaves the queue
stopped or with a timer, to every later one. So does firing a script, however deep firings stand in
one another. -/

namespace TagScript

variable {η α : Type}

namespace RunM

variable {stage : Stage η} {world : World η} {frames : List Frame} {ref : QueueRef}

theorem Leads.takeStep_bind {next : Step → RunM η α}
    (halted : (world.queue ref).isStopped = true → Leads stage world (next .halted) frames)
    (wait : (world.queue ref).isStopped = false → Leads stage world (next .wait) frames)
    (finish : (world.queue ref).isFinished world.now = true →
      Leads stage world (next .finish) frames)
    (execute : ∀ entry rest, (world.queue ref).nextStep world.now = (.execute entry, rest) →
      Leads stage (world.modifyQueue ref fun _ => rest) (next (.execute entry)) frames) :
    Leads stage world (Engine.takeStep ref >>= next) frames := by
  refine .updateGet_bind ?_
  rcases (world.queue ref).nextStep_cases world.now with ⟨stopped, step⟩ | ⟨runs, step⟩ |
    ⟨dry, step⟩ | ⟨entry, entries, _, _, step⟩
  · simp only [step, World.modifyQueue_self]
    exact halted stopped
  · simp only [step, World.modifyQueue_self]
    exact wait runs
  · simp only [step, World.modifyQueue_self]
    exact finish dry
  · simp only [step]
    exact execute entry _ step

end RunM

namespace Engine

variable {engine : Engine η} {fire : Firing η} {world : World η} {frames : List Frame}
  {ref : QueueRef} {first : Bool}

open RunM (Leads)

theorem stop_leave (host : Host) (made : ref.index < world.queues.size)
    (runs : (world.queue ref).isStopped = false) :
    Leads ⟨⟨ref, first, none⟩ :: frames, world⟩ world (Queue.stop host ref) frames := by
  refine .after (.single (.halt _ world ref runs)) (.finally (Queue.stop_leads host runs _) ?_)
  intro later course
  exact .leave fun _ => .inl (course.isStopped (World.isStopped_halt made))

theorem finishQueue_leave (made : ref.index < world.queues.size)
    (dry : (world.queue ref).isFinished world.now = true) :
    Leads ⟨⟨ref, first, none⟩ :: frames, world⟩ world (engine.finishQueue ref) frames := by
  refine .update_bind (.after (.single (.runDry dry)) ?_)
  refine stop_leave engine.host (by simpa using made) ?_
  rw [World.queue_modifyQueue_self made]
  exact (Queue.isFinished_iff.1 dry).1

theorem finishQueue_leads (dry : (world.queue ref).isFinished world.now = true) :
    Leads ⟨⟨ref, first, none⟩ :: frames, world⟩ world (engine.finishQueue ref)
      (⟨ref, first, none⟩ :: frames) :=
  .update_bind (.after (.single (.runDry dry)) (Queue.stop_orderly engine.host ref _))

theorem ensureScheduled_leave (made : ref.index < world.queues.size) :
    Leads ⟨⟨ref, first, none⟩ :: frames, world⟩ world (ensureScheduled ref) frames := by
  refine .queue_bind ?_
  cases stopped : (world.queue ref).isStopped with
  | true =>
      simp only [Bool.or_true, if_true]
      exact .pure (.single (.leave fun _ => .inl stopped))
  | false =>
      cases timer : (world.queue ref).timer with
      | some id => exact .pure (.single (.leave fun _ => .inr (by rw [timer]; rfl)))
      | none =>
          let plan := revolutions ref (world.queue ref)
          let text := s!"Scheduled unit #{world.scheduler.nextId} ({plan.timing.text})."
          have wound : Course ⟨⟨ref, first, none⟩ :: frames, world⟩
              ⟨⟨ref, first, none⟩ :: frames, (world.wind ref plan).log .trace text⟩ :=
            .tail (.single (.wind timer stopped)) (.beside _ ⟨rfl, rfl, rfl⟩)
          refine .updateGet_bind (.update_bind (.update (wound.tail (.leave fun _ => .inr ?_))))
          exact congrArg (fun queue => queue.timer.isSome) (World.queue_wind made plan)

theorem executeTaken_leads (standard : engine.Standard) (fires : Firing.Orderly fire)
    {entry : Entry} {rest : Queue}
    (taken : (world.queue ref).nextStep world.now = (.execute entry, rest)) :
    Leads ⟨⟨ref, first, none⟩ :: frames, world⟩ (world.modifyQueue ref fun _ => rest)
      (engine.executeTaken fire ref entry) (⟨ref, first, none⟩ :: frames) := by
  refine .update_bind (.after (.single (.take taken)) ?_)
  refine .bind (executeEntry_orderly standard fires ref entry _) fun _ later _ => ?_
  exact .update (.single (.finish frames later ref first entry))

theorem drain_leave (standard : engine.Standard) (fires : Firing.Orderly fire) (budget : Nat)
    (made : ref.index < world.queues.size) :
    Leads ⟨⟨ref, first, none⟩ :: frames, world⟩ world (engine.drain fire ref budget) frames := by
  induction budget generalizing world with
  | zero => exact .outOfBudget
  | succ budget ih =>
      refine .takeStep_bind ?_ ?_ ?_ ?_
      · intro stopped
        exact .pure (.single (.leave fun _ => .inl stopped))
      · intro _
        refine .queue_bind (.bind (RunM.Orderly.log _ _ world) fun _ later logged => ?_)
        refine .bind (RunM.Orderly.adjust ?_ later) fun _ last adjusted => ?_
        · exact fun _ => ⟨rfl, rfl, rfl, rfl, rfl⟩
        · have kept := Course.size_le (logged.trans adjusted)
          exact ensureScheduled_leave (Nat.lt_of_lt_of_le made kept)
      · exact finishQueue_leave made
      · intro entry rest taken
        refine .bind (executeTaken_leads standard fires taken) fun _ later course => ?_
        exact ih (Nat.lt_of_lt_of_le made course.size_le)

theorem step_leads (standard : engine.Standard) (fires : Firing.Orderly fire) :
    Leads ⟨⟨ref, first, none⟩ :: frames, world⟩ world (engine.step fire ref)
      (⟨ref, first, none⟩ :: frames) := by
  refine .takeStep_bind (fun _ => .pure .refl) (fun _ => .pure .refl) finishQueue_leads ?_
  intro entry rest taken
  refine .bind (executeTaken_leads standard fires taken) fun _ later _ => .world_bind ?_
  split
  · rename_i dry
    exact finishQueue_leads dry
  · exact .pure .refl

theorem startQueue_leads (standard : engine.Standard) (fires : Firing.Orderly fire) (budget : Nat)
    (made : ref.index < world.queues.size) :
    Leads ⟨frames, world⟩ world (engine.startQueue fire budget ref) frames := by
  refine .queue_bind ?_
  split
  · exact .pure .refl
  · rename_i new
    have launched : Course ⟨frames, world⟩ ⟨⟨ref, true, none⟩ :: frames,
        (world.modifyQueue ref Queue.launch).log .debug
          s!"Starting queue '{(world.queue ref).id}' ({(world.queue ref).kind.text})."⟩ :=
      .tail (.single (.launch frames world ref made (by simpa using new)))
        (.beside _ ⟨rfl, rfl, rfl⟩)
    have stillMade := Nat.lt_of_lt_of_le made launched.size_le
    refine .update_bind (.update_bind (.after launched ?_))
    split
    · exact drain_leave standard fires budget stillMade
    · refine .bind (step_leads standard fires) fun _ later course => ?_
      exact ensureScheduled_leave (Nat.lt_of_lt_of_le stillMade course.size_le)

theorem revolve_orderly (standard : engine.Standard) (fires : Firing.Orderly fire) (budget : Nat)
    (ref : QueueRef) : RunM.Orderly [] (engine.revolve fire budget ref) := by
  intro world
  refine .queue_bind ?_
  split
  · exact .pure .refl
  · rename_i runs
    have runs : (world.queue ref).phase = .running := by simpa using runs
    refine .after (.single (.revolve world ref runs)) ?_
    split
    · refine drain_leave standard fires budget ?_
      rcases Nat.lt_or_ge ref.index world.queues.size with made | missing
      · exact made
      · rw [World.queue_of_size_le missing] at runs
        cases runs
    · exact .finally (step_leads standard fires) fun _ _ => .leave (by simp)

theorem equip_eq (options : FireOptions) (queue : Queue) :
    ∃ definitions context offMain,
      equip options queue = { queue with definitions, context, offMain } := by
  have defined (pairs : List (String × String)) (later : Queue) : ∃ definitions,
      pairs.foldl (fun queue pair => queue.define pair.1 pair.2) later =
        { later with definitions } := by
    induction pairs generalizing later with
    | nil => exact ⟨later.definitions, rfl⟩
    | cons pair rest ih => exact ih (later.define pair.1 pair.2)
  obtain ⟨definitions, same⟩ := defined options.definitions queue
  refine ⟨definitions, options.context <|> queue.context, options.offMain || queue.offMain, ?_⟩
  exact congrArg (fun later : Queue => { later with
    context := options.context <|> later.context, offMain := options.offMain || later.offMain }) same

theorem equip_alike (options : FireOptions) (queue : Queue) :
    queue.Alike (equip options queue) := by
  obtain ⟨definitions, context, offMain, same⟩ := equip_eq options queue
  rw [same]
  exact ⟨rfl, rfl, rfl, rfl, rfl⟩

theorem outcomeOf_orderly (ref : QueueRef) (fire : FireId) :
    RunM.Orderly frames (outcomeOf ref fire : RunM η _) := by
  refine .updateGet fun world => .beside frames ?_
  split
  · exact ⟨rfl, rfl, rfl⟩
  · exact .refl world

def MadeIfNew (found : QueueRef × Bool) (world : World η) : Prop :=
  found.2 = true → found.1.index < world.queues.size

theorem madeIfNew_queueOrCreate (id : String) (kind : QueueKind) (world : World η) :
    MadeIfNew (world.queueOrCreate id kind).1 (world.queueOrCreate id kind).2 := by
  unfold World.queueOrCreate
  split
  · intro created
    cases created
  · intro _
    simp [World.makeQueue, World.freshFire]

theorem addToQueue_orderly (options : FireOptions) (ref : QueueRef) (prepare : Queue → Queue)
    (alike : ∀ queue : Queue, queue.Alike (prepare queue)) (entries : List Entry) :
    RunM.Orderly frames (RunM.modifyQueue ref fun queue =>
      (equip options (prepare queue)).addEntries entries : RunM η Unit) := by
  intro world
  refine .update ?_
  have equipped : ∀ queue : Queue, queue.Alike (equip options (prepare queue)) := by
    intro queue
    have first := alike queue
    have second := equip_alike options (prepare queue)
    exact ⟨second.id.trans first.id, second.phase.trans first.phase,
      second.entries.trans first.entries, second.timer.trans first.timer,
      second.history.trans first.history⟩
  rw [← World.modifyQueue_modifyQueue ref (fun queue => equip options (prepare queue))
    (Queue.addEntries entries)]
  exact .tail (.single (.adjust frames world ref _ equipped)) (.add frames _ ref entries)

theorem queueForFiring_orderly (engine : Engine η) (script : Script) (options : FireOptions) :
    RunM.Orderly frames (engine.queueForFiring script options) := by
  unfold queueForFiring
  dsimp only
  split
  · exact .bind (.pure _) fun id => .updateGet fun world => .enlist frames world id _
  · exact .bind (.updateGet fun _ => .beside frames ⟨rfl, rfl, rfl⟩) fun id =>
      .updateGet fun world => .enlist frames world id _

theorem queueForFiring_ensures (engine : Engine η) (script : Script) (options : FireOptions) :
    Tag.EvalM.Ensures (fun _ => True) (engine.queueForFiring script options) fun found state =>
      MadeIfNew found state.world := by
  have made (id : String) := RunM.updateGet_ensures fun world : World η =>
    madeIfNew_queueOrCreate id (.ofSpeed (options.speed.getD engine.host.defaultSpeed)) world
  unfold queueForFiring
  dsimp only
  split
  · exact .bind (.pure fun _ _ => trivial) made
  · exact .bind (fun _ _ _ _ _ => trivial) made

theorem fireWith_orderly (standard : engine.Standard) {inner : Firing η}
    (fires : Firing.Orderly inner) (budget : Nat) :
    Firing.Orderly (engine.fireWith inner budget) := by
  intro frames request world
  refine .world_bind ?_
  split
  · exact .pure .refl
  · rename_i script found
    refine .bind_knowing (engine.queueForFiring_orderly script request.options world)
      (engine.queueForFiring_ensures script request.options) fun queue enlisted _ made => ?_
    obtain ⟨ref, created⟩ := queue
    refine .bind (RunM.Orderly.updateGet (fun _ => .beside frames ⟨rfl, rfl, rfl⟩) enlisted)
      fun fire numbered toNumbered => ?_
    have marks : RunM.Orderly frames (RunM.update (World.markFired ref fire) : RunM η Unit) :=
      .update fun _ => .beside frames ⟨rfl, rfl, rfl⟩
    refine .bind (marks numbered) fun _ marked toMarked => ?_
    refine .bind (addToQueue_orderly request.options ref
      (fun queue => if created then { queue with fire } else queue) ?_ _ marked)
      fun _ filled toFilled => ?_
    · intro queue
      split <;> exact ⟨rfl, rfl, rfl, rfl, rfl⟩
    · refine .queue_bind (.bind (RunM.Orderly.log _ _ filled) fun _ logged toLogged => ?_)
      have told : RunM.Orderly frames (do
          let outcome ← outcomeOf ref fire
          return .ok ⟨ref, (filled.queue ref).id, fire, outcome⟩ :
            RunM η (Except FireError FireResult)) :=
        .bind (outcomeOf_orderly ref fire) fun _ => .pure _
      cases created with
      | false => exact told logged
      | true =>
          have stillMade := Nat.lt_of_lt_of_le (made rfl)
            (Course.size_le (((toNumbered.trans toMarked).trans toFilled).trans toLogged))
          exact .bind (startQueue_leads standard fires budget stillMade) fun _ last _ => told last

theorem fire_orderly (standard : engine.Standard) (budget : Nat) :
    Firing.Orderly (engine.fire budget) := by
  induction budget with
  | zero => exact fun _ _ => .outOfBudget
  | succ budget ih => exact fireWith_orderly standard ih budget

end Engine

end TagScript
