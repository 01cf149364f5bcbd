import TagScript.Proofs.Engine.Reachable

/-! What running scripts does to the timers. Queues get timers and lose them, but nothing that is
executed brings a timer on: how long it still has to run is for ticks alone to change. -/

namespace TagScript

variable {η α : Type}

open Relation (ReflTransGen)
open RunM (Secures)

structure Queue.Unturned (queue other : Queue) : Prop where
  id : other.id = queue.id
  phase : other.phase = queue.phase
  timer : other.timer = queue.timer

/-- One thing that is done to a world by what runs in it, as the timers see it. -/
inductive World.Nudge : World η → World η → Prop
  | beside {world other : World η} (same : world.Beside other) : Nudge world other
  | adjust (world : World η) (ref : QueueRef) (change : Queue → Queue)
      (unturned : ∀ queue : Queue, queue.Unturned (change queue)) :
      Nudge world (world.modifyQueue ref change)
  | launch (world : World η) (ref : QueueRef) (new : (world.queue ref).phase = .constructing) :
      Nudge world (world.modifyQueue ref Queue.launch)
  | enlist (world : World η) (id : String) (kind : QueueKind) :
      Nudge world (world.queueOrCreate id kind).2
  | halt (world : World η) (ref : QueueRef) (runs : (world.queue ref).isStopped = false) :
      Nudge world (world.halt ref)
  | wind (world : World η) (ref : QueueRef) (unwound : (world.queue ref).timer = none)
      (launched : (world.queue ref).phase ≠ .constructing)
      (runs : (world.queue ref).isStopped = false) :
      Nudge world (world.wind ref (Engine.revolutions ref (world.queue ref)))

abbrev World.Nudged : World η → World η → Prop := ReflTransGen World.Nudge

abbrev RunM.Nudges (origin : World η) (act : RunM η α) : Prop :=
  Secures origin.Nudged act fun _ => origin.Nudged

abbrev Firing.Nudges (fire : Firing η) : Prop :=
  ∀ (origin : World η) request, RunM.Nudges origin (fire request)

def World.Launched (ref : QueueRef) (world : World η) : Prop := (world.queue ref).phase ≠ .constructing

namespace World

theorem Launched.modifyQueue {ref actor : QueueRef} {world : World η} {change : Queue → Queue}
    (launched : world.Launched ref)
    (goesOn : (world.queue actor).phase ≠ .constructing →
      (change (world.queue actor)).phase ≠ .constructing) :
    (world.modifyQueue actor change).Launched ref := by
  unfold Launched
  rcases world.queue_modifyQueue_cases actor ref change with ⟨rfl, _, same⟩ | same
  · exact same ▸ goesOn launched
  · exact same ▸ launched

theorem Nudge.launched {ref : QueueRef} {world later : World η} (nudge : world.Nudge later)
    (launched : world.Launched ref) : later.Launched ref := by
  cases nudge with
  | beside same =>
      rw [Launched, World.queue, same.queues]
      exact launched
  | adjust _ change unturned =>
      exact launched.modifyQueue fun begun => (unturned (world.queue _)).phase ▸ begun
  | launch => exact launched.modifyQueue fun _ => Phase.noConfusion
  | enlist id kind =>
      rcases world.queue_queueOrCreate_cases id kind ref with ⟨unmade, _⟩ | same
      · exact absurd (congrArg Queue.phase unmade) launched
      · rw [Launched, same]
        exact launched
  | halt actor runs =>
      rw [Launched, queue_halt]
      exact launched.modifyQueue fun _ => Phase.noConfusion
  | wind actor =>
      have wound : Launched ref { world with scheduler := (world.scheduler.schedule
          (Engine.revolutions actor (world.queue actor))).2 } := launched
      exact wound.modifyQueue fun begun => begun

theorem Nudged.keeps {good : World η → Prop} {world later : World η}
    (keeps : ∀ {world later : World η}, world.Nudge later → good world → good later)
    (nudged : world.Nudged later) (held : good world) : good later := by
  induction nudged with
  | refl => exact held
  | tail _ nudge ih => exact keeps nudge ih

theorem Nudge.size_le {world later : World η} (nudge : world.Nudge later) :
    world.queues.size ≤ later.queues.size := by
  cases nudge with
  | beside same => rw [same.queues]
  | adjust | launch => rw [size_modifyQueue]
  | enlist => exact size_le_queueOrCreate _ _ world
  | halt => rw [size_halt]
  | wind => exact (size_modifyQueue _ _ _).ge

theorem nudged_unreported (origin : World η) : Unreported origin.Nudged := by
  rintro world _ ⟨events, spoken, host, _, rfl⟩ nudged
  exact nudged.tail (.beside ⟨rfl, rfl, rfl⟩)

end World

namespace RunM.Nudges

variable {origin : World η}

theorem secures {act : RunM η α} {good : World η → Prop}
    (nudges : ∀ origin : World η, Nudges origin act)
    (keeps : ∀ {world later : World η}, world.Nudge later → good world → good later) :
    Secures good act fun _ => good :=
  fun start result finish held ran =>
    (nudges start.world start result finish .refl ran).keeps keeps held

theorem launched {act : RunM η α} {ref : QueueRef} (nudges : ∀ origin : World η, Nudges origin act) :
    Secures (fun world => origin.Nudged world ∧ world.Launched ref) act
      fun _ world => origin.Nudged world ∧ world.Launched ref :=
  secures nudges fun nudge held => ⟨held.1.tail nudge, nudge.launched held.2⟩

theorem update {change : World η → World η} (nudge : ∀ world : World η, world.Nudge (change world)) :
    Nudges origin (RunM.update change) :=
  Secures.update fun world held => held.tail (nudge world)

theorem beside {change : World η → World η}
    (same : ∀ world : World η, world.Beside (change world)) : Nudges origin (RunM.update change) :=
  update fun world => .beside (same world)

theorem updateGet_beside {change : World η → α × World η}
    (same : ∀ world : World η, world.Beside (change world).2) : Nudges origin (RunM.updateGet change) :=
  .updateGet fun world held => held.tail (.beside (same world))

theorem log (level : LogLevel) (text : String) : Nudges origin (RunM.log level text : RunM η Unit) :=
  beside fun _ => ⟨rfl, rfl, rfl⟩

theorem adjust {ref : QueueRef} {change : Queue → Queue}
    (unturned : ∀ queue : Queue, queue.Unturned (change queue)) :
    Nudges origin (RunM.modifyQueue ref change : RunM η Unit) :=
  update fun world => .adjust world ref change unturned

theorem release (ref : QueueRef) : Nudges origin (RunM.release ref : RunM η Unit) := by
  have checks : Nudges origin (RunM.update (World.checkHold ref) : RunM η Unit) := by
    refine beside fun world => ?_
    unfold World.checkHold
    split <;> exact ⟨rfl, rfl, rfl⟩
  exact .bind checks fun _ => adjust (fun _ => ⟨rfl, rfl, rfl⟩)

end RunM.Nudges

open RunM (Nudges)

variable {origin : World η}

theorem Host.error_nudges (host : Host) (queue : Option String) (text : String) :
    Nudges origin (host.error queue text : RunM η Unit) :=
  error_secures origin.nudged_unreported host queue text

theorem Host.remark_nudges (host : Host) (queue text : String) :
    Nudges origin (host.remark queue text : RunM η Unit) :=
  .ite (fun _ => message_secures origin.nudged_unreported host _ _) fun _ =>
    .pure fun _ held => held

theorem Scene.remark_nudges (scene : Scene η) (text : String) : Nudges origin (scene.remark text) :=
  .bind (.any_queue_bind fun _ => .pure fun _ held => held) fun _ =>
    scene.host.remark_nudges _ _

namespace Queue

theorem carryOut_nudges (action : StopAction) : Nudges origin (carryOut action : RunM η Unit) := by
  cases action with
  | release queue => exact .release queue
  | notify label => exact .beside fun _ => ⟨rfl, rfl, rfl⟩

theorem atEnd_nudges (ref : QueueRef) (action : StopAction) :
    Nudges origin (atEnd ref action : RunM η Unit) :=
  .any_queue_bind fun _ => .ite (fun _ => carryOut_nudges action) fun _ =>
    Nudges.adjust (fun _ => ⟨rfl, rfl, rfl⟩)

theorem stop_halts {good : World η → Prop} (unreported : Unreported good)
    (carries : ∀ action, Secures good (carryOut action) fun _ => good) (host : Host) {ref : QueueRef}
    {world : World η} (runs : (world.queue ref).isStopped = false) (halted : good (world.halt ref)) :
    Secures (· = world) (stop host ref : RunM η Unit) fun _ => good := by
  refine .queue_bind (.ite (fun stopped => absurd (runs.symm.trans stopped) Bool.false_ne_true) fun _ => ?_)
  let closed := world.modifyQueue ref Queue.close
  let silenced := (world.queue ref).timer.elim closed fun timer =>
    { closed with scheduler := closed.scheduler.cancel timer }
  have closes : Secures (· = world) (RunM.modifyQueue ref Queue.close) fun _ later => later = closed :=
    .update fun _ same => same ▸ rfl
  have cancels : Secures (· = closed) ((world.queue ref).timer.forM cancelTimer)
      fun _ later => later = silenced := by
    unfold silenced
    cases (world.queue ref).timer with
    | none => exact .pure fun _ same => same
    | some timer =>
        have cancels : Secures (· = closed) (cancelTimer timer) fun _ later =>
            later = { closed with scheduler := closed.scheduler.cancel timer } :=
          .update fun _ same => same ▸ rfl
        exact cancels
  have halts : Secures (· = silenced) (RunM.updateGet (World.removeLive ref)) fun _ => good :=
    .updateGet fun _ same => same ▸ halted
  have remarks (queue text : String) : Secures good (host.remark queue text) fun _ => good :=
    .ite (fun _ => Host.message_secures unreported host _ _) fun _ => .pure fun _ held => held
  exact .bind closes fun _ => .bind cancels fun _ => .bind halts fun _ =>
    .bind (remarks _ _) fun _ => .forM _ fun action _ => carries action

theorem stop_nudges (host : Host) (ref : QueueRef) : Nudges origin (stop host ref : RunM η Unit) := by
  refine .each fun world held => ?_
  by_cases stopped : (world.queue ref).isStopped = true
  · exact .queue_bind (.ite (fun _ => .pure fun _ same => same ▸ held) fun runs => absurd stopped runs)
  · have runs : (world.queue ref).isStopped = false := Bool.eq_false_iff.2 stopped
    exact stop_halts origin.nudged_unreported carryOut_nudges host runs (held.tail (.halt world ref runs))

end Queue

namespace Command

variable {host : Host} {fire : Firing η} {actor : QueueRef} (bound : Invocation)

theorem debug_nudges : Nudges origin ((debug : Command η).execute ⟨host, fire, actor⟩ bound) := by
  have named : Nudges origin (⟨host, fire, actor⟩ : Scene η).queueId :=
    .any_queue_bind fun _ => .pure fun _ held => held
  refine .bind named fun _ => .ite (fun _ => ?_) fun _ => ?_
  · exact .bind (host.error_nudges _ _) fun _ => .pure fun _ held => held
  · exact .bind (Host.message_secures origin.nudged_unreported _ _ _) fun _ => .pure fun _ held => held

theorem define_nudges : Nudges origin ((define : Command η).execute ⟨host, fire, actor⟩ bound) := by
  unfold define
  dsimp only
  split
  · exact .bind (Nudges.adjust (fun _ => ⟨rfl, rfl, rfl⟩)) fun _ =>
      .bind (Scene.remark_nudges _ _) fun _ => .pure fun _ held => held
  · exact .pure fun _ held => held

theorem determine_nudges : Nudges origin ((determine : Command η).execute ⟨host, fire, actor⟩ bound) := by
  refine .any_queue_bind fun _ => .bind (Nudges.beside (World.record_beside _ _ _)) fun _ => ?_
  exact .bind (Scene.remark_nudges _ _) fun _ =>
    .when (Queue.stop_nudges _ _) (.pure fun _ held => held)

theorem inject_nudges : Nudges origin ((inject : Command η).execute ⟨host, fire, actor⟩ bound) := by
  unfold inject
  dsimp only
  refine .any_world_bind fun _ => ?_
  split
  · exact .pure fun _ held => held
  · exact .bind (Nudges.adjust (fun _ => ⟨rfl, rfl, rfl⟩)) fun _ =>
      .bind (Scene.remark_nudges _ _) fun _ => .pure fun _ held => held

theorem actOnQueue_nudges (target : QueueRef) :
    Nudges origin (actOnQueue (⟨host, fire, actor⟩ : Scene η) bound target) := by
  have changes {change : Queue → Queue} (unturned : ∀ queue : Queue, queue.Unturned (change queue)) :
      Nudges origin (do
        RunM.modifyQueue target change
        return .ok () : RunM η (Except Fault Unit)) :=
    .bind (Nudges.adjust unturned) fun _ => .pure fun _ held => held
  unfold actOnQueue
  split
  · exact changes (fun _ => ⟨rfl, rfl, rfl⟩)
  · exact changes (fun _ => ⟨rfl, rfl, rfl⟩)
  · exact .bind (Queue.stop_nudges _ _) fun _ => .pure fun _ held => held
  · exact changes (fun _ => ⟨rfl, rfl, rfl⟩)
  · split
    · exact .pure fun _ held => held
    · exact .any_now_bind fun now => changes (fun _ => ⟨rfl, rfl, rfl⟩)
  · exact .pure fun _ held => held

theorem queue_nudges : Nudges origin ((queue : Command η).execute ⟨host, fire, actor⟩ bound) := by
  unfold queue
  dsimp only
  refine .any_world_bind fun _ => ?_
  split
  · exact .pure fun _ held => held
  · refine .bind (actOnQueue_nudges bound _) fun outcome => ?_
    split
    · exact .pure fun _ held => held
    · exact .any_queue_bind fun _ => .bind (Scene.remark_nudges _ _) fun _ =>
        .pure fun _ held => held

theorem repeatBlock_nudges :
    Nudges origin ((repeatBlock : Command η).execute ⟨host, fire, actor⟩ bound) := by
  unfold repeatBlock
  dsimp only
  split
  · exact .pure fun _ held => held
  · exact .bind (Nudges.adjust (fun _ => ⟨rfl, rfl, rfl⟩)) fun _ => .pure fun _ held => held

theorem run_nudges (fires : fire.Nudges) :
    Nudges origin ((run : Command η).execute ⟨host, fire, actor⟩ bound) := by
  have awaits (target : QueueRef) : Nudges origin (awaitEnd actor target : RunM η Unit) :=
    .bind (Nudges.beside (fun _ => ⟨rfl, rfl, rfl⟩)) fun _ =>
      Queue.atEnd_nudges target _
  unfold run
  dsimp only
  refine .when (Nudges.adjust (fun _ => ⟨rfl, rfl, rfl⟩))
    (.bind (fires origin _) fun answer => ?_)
  cases answer with
  | error error => exact .when (Nudges.release actor) (.pure fun _ held => held)
  | ok result =>
      exact .when (awaits _) (.bind (Scene.remark_nudges _ _) fun _ =>
        .pure fun _ held => held)

theorem stop_nudges : Nudges origin ((stop : Command η).execute ⟨host, fire, actor⟩ bound) :=
  .bind (Queue.stop_nudges _ _) fun _ => .pure fun _ held => held

theorem wait_nudges : Nudges origin ((wait : Command η).execute ⟨host, fire, actor⟩ bound) := by
  unfold wait
  dsimp only
  split
  · exact .pure fun _ held => held
  · exact .any_now_bind fun now => .bind (Nudges.adjust (fun _ => ⟨rfl, rfl, rfl⟩)) fun _ =>
      .bind (Scene.remark_nudges _ _) fun _ => .pure fun _ held => held

theorem execute_nudges {engine : Engine η} {free : Bool} (regular : engine.Regular free)
    (fires : fire.Nudges) {name : String} {command : Command η}
    (found : engine.commands.find? name = some command) :
    Nudges origin (command.execute ⟨host, fire, actor⟩ bound) := by
  rcases regular.commands name command found with known | harmless
  · simp only [builtins, List.mem_cons, List.not_mem_nil, or_false] at known
    rcases known with rfl | rfl | rfl | rfl | rfl | rfl | rfl | rfl | rfl
    · exact debug_nudges bound
    · exact define_nudges bound
    · exact determine_nudges bound
    · exact inject_nudges bound
    · exact queue_nudges bound
    · exact repeatBlock_nudges bound
    · exact run_nudges bound fires
    · exact stop_nudges bound
    · exact wait_nudges bound
  · obtain ⟨answer, aloof, same⟩ := harmless.execute host actor bound
    rw [same]
    exact .updateGet fun world held => origin.nudged_unreported (aloof world).reported held

end Command

namespace Engine

variable {engine : Engine η} {free : Bool} {fire : Firing η} {actor : QueueRef}

theorem take_nudge (world : World η) (actor : QueueRef) (entries : List Entry) :
    world.Nudge (world.modifyQueue actor ({ · with entries })) :=
  .adjust world actor _ fun _ => ⟨rfl, rfl, rfl⟩

theorem ensureScheduled_winds {world : World η} (unwound : (world.queue actor).timer = none)
    (runs : (world.queue actor).isStopped = false) :
    Secures (· = world) (ensureScheduled actor : RunM η Unit) fun _ later => ∃ text,
      later = (world.wind actor (revolutions actor (world.queue actor))).log .trace text := by
  refine .queue_bind (.ite (fun has => by simp [unwound, runs] at has) fun _ => ?_)
  let plan := revolutions actor (world.queue actor)
  let planned := { world with scheduler := (world.scheduler.schedule plan).2 }
  have schedules : Secures (· = world) (RunM.updateGet fun world : World η =>
      ((world.scheduler.schedule plan).1,
        { world with scheduler := (world.scheduler.schedule plan).2 })) fun timer later =>
        timer = ⟨world.scheduler.nextId⟩ ∧ later = planned := by
    refine .updateGet fun _ same => ?_
    subst same
    exact ⟨rfl, rfl⟩
  refine .bind schedules fun timer => .each fun later reached => ?_
  obtain ⟨rfl, rfl⟩ := reached
  have logs (level : LogLevel) (text : String) : Secures (· = planned) (RunM.log level text)
      fun _ later => later = planned.log level text := .update fun _ same => same ▸ rfl
  refine .bind (logs _ _) fun _ => .update fun _ same => ?_
  subst same
  exact ⟨_, rfl⟩

theorem ensureScheduled_nudges (actor : QueueRef) :
    Secures (fun world => origin.Nudged world ∧ world.Launched actor)
      (ensureScheduled actor : RunM η Unit) fun _ => origin.Nudged := by
  refine .each fun world held => ?_
  by_cases idle : (world.queue actor).timer = none ∧ (world.queue actor).isStopped = false
  · refine (ensureScheduled_winds idle.1 idle.2).weaken (fun _ same => same) ?_
    rintro _ _ ⟨text, rfl⟩
    exact (held.1.tail (.wind world actor idle.1 held.2 idle.2)).tail (.beside ⟨rfl, rfl, rfl⟩)
  · refine .queue_bind (.ite (fun _ => .pure fun _ same => same ▸ held.1) fun due => absurd ?_ idle)
    simpa using due

theorem finishQueue_nudges (engine : Engine η) (actor : QueueRef) :
    Nudges origin (engine.finishQueue actor) :=
  .bind (Nudges.adjust fun _ => ⟨rfl, rfl, rfl⟩) fun _ => Queue.stop_nudges engine.host actor

section

variable (regular : engine.Regular free) (fires : fire.Nudges)

include fires

omit regular in
theorem callProcedure_nudges (procedure : Tag.Procedure) :
    Nudges origin (callProcedure fire procedure) :=
  .bind (fires origin _) fun _ => .pure fun _ held => held

include regular

theorem executeEntry_nudges (actor : QueueRef) (entry : Entry) :
    Nudges origin (engine.executeEntry fire actor entry) := by
  have unspoken : Unspoken origin.Nudged := by
    rintro world _ ⟨events, spoken, host, _, rfl⟩ nudged
    exact nudged.tail (.beside ⟨rfl, rfl, rfl⟩)
  have fills := fillEntry_secures regular.resolvers regular.attributes
    (fun _ procedure => callProcedure_nudges fires procedure)
    (fun _ world calls held => held.tail (.beside ⟨rfl, rfl, rfl⟩)) unspoken actor entry
  rw [executeEntry_eq]
  refine .bind fills fun ready => ?_
  exact dispatch_secures origin.nudged_unreported origin.nudged_unreported (fun _ held => held) ready
    (fun _ bound binds => Command.execute_nudges bound regular fires binds.1)
    fun _ _ => Nudges.adjust fun _ => ⟨rfl, rfl, rfl⟩

theorem executeTaken_nudges (actor : QueueRef) (entry : Entry) :
    Nudges origin (engine.executeTaken fire actor entry) := by
  have notes (deed : Deed) : Nudges origin (RunM.modifyQueue actor (Queue.note deed)) :=
    .adjust fun _ => ⟨rfl, rfl, rfl⟩
  exact .bind (notes _) fun _ => .bind (executeEntry_nudges regular fires actor entry) fun _ => notes _

theorem drain_nudges (budget : Nat) :
    Secures (fun world => origin.Nudged world ∧ world.Launched actor)
      (engine.drain fire actor budget) fun _ => origin.Nudged := by
  have slows (origin : World η) :
      Nudges origin (RunM.modifyQueue actor ({ · with kind := .afterWaiting })) :=
    .adjust fun _ => ⟨rfl, rfl, rfl⟩
  have takes (world : World η) (entries : List Entry)
      (held : origin.Nudged world ∧ world.Launched actor) :
      origin.Nudged (world.modifyQueue actor ({ · with entries })) ∧
        (world.modifyQueue actor ({ · with entries })).Launched actor := by
    have nudge := take_nudge world actor entries
    exact ⟨held.1.tail nudge, nudge.launched held.2⟩
  exact drain_secures (fun world _ entries held _ => takes world entries held)
    (fun entry => Nudges.launched fun _ => executeTaken_nudges regular fires actor entry)
    ((finishQueue_nudges engine actor).weaken (fun _ held => held.1) fun _ _ held => held)
    (fun _ held => held.1) (fun _ _ => Nudges.launched fun _ => .log _ _) (Nudges.launched slows)
    (ensureScheduled_nudges actor) budget

theorem step_nudges (actor : QueueRef) : Nudges origin (engine.step fire actor) :=
  step_secures (fun world _ entries held _ => held.tail (take_nudge world actor entries))
    (executeTaken_nudges regular fires actor) (finishQueue_nudges engine actor) fun _ held => held

theorem revolve_nudges (budget : Nat) (actor : QueueRef) :
    Nudges origin (engine.revolve fire budget actor) := by
  refine .each fun world held => .queue_bind (.ite (fun _ => ?_) fun runs => ?_)
  · exact .pure fun _ same => same ▸ held
  · have launched : world.Launched actor := by
      simp only [bne_iff_ne, ne_eq, Decidable.not_not] at runs
      simp [World.Launched, runs]
    have here : ∀ later, later = world → origin.Nudged later ∧ later.Launched actor :=
      fun _ same => same ▸ ⟨held, launched⟩
    refine .ite (fun _ => ?_) fun _ => ?_
    · exact (drain_nudges regular fires budget).weaken here fun _ _ held => held
    · exact (step_nudges regular fires actor).weaken (fun later same => (here later same).1)
        fun _ _ held => held

theorem startQueue_nudges (budget : Nat) (actor : QueueRef) :
    Secures (fun world => origin.Nudged world ∧ actor.index < world.queues.size)
      (engine.startQueue fire budget actor) fun _ => origin.Nudged := by
  refine .each fun world held => .queue_bind (.ite (fun _ => ?_) fun new => ?_)
  · exact .pure fun _ same => same ▸ held.1
  · have new : (world.queue actor).phase = .constructing := by simpa using new
    have launches : Secures (· = world) (RunM.modifyQueue actor Queue.launch)
        fun _ later => origin.Nudged later ∧ later.Launched actor := by
      refine .update fun _ same => ?_
      subst same
      refine ⟨held.1.tail (.launch _ actor new), ?_⟩
      rw [World.Launched, World.queue_modifyQueue_self held.2]
      exact Phase.noConfusion
    refine .bind launches fun _ => .bind (Nudges.launched fun _ => .log _ _) fun _ => ?_
    refine .ite (fun _ => drain_nudges regular fires budget) fun _ => ?_
    exact .bind (Nudges.launched fun _ => step_nudges regular fires actor) fun _ =>
      ensureScheduled_nudges actor

end

theorem queueForFiring_nudges (engine : Engine η) (script : Script) (options : FireOptions) :
    Secures origin.Nudged (engine.queueForFiring script options) fun found world =>
      origin.Nudged world ∧ (found.2 = true → found.1.index < world.queues.size) := by
  have finds (id : String) (kind : QueueKind) : Secures origin.Nudged
      (RunM.updateGet (World.queueOrCreate id kind)) fun found world =>
        origin.Nudged world ∧ (found.2 = true → found.1.index < world.queues.size) := by
    refine .updateGet fun world held => ⟨held.tail (.enlist world id kind), ?_⟩
    unfold World.queueOrCreate
    split
    · simp
    · simp [World.makeQueue, World.freshFire]
  unfold queueForFiring
  cases options.id with
  | some id =>
      simp only [pure_bind]
      exact finds id _
  | none => exact .bind (Nudges.updateGet_beside fun _ => ⟨rfl, rfl, rfl⟩) fun id => finds id _

section

variable (regular : engine.Regular free)

include regular

theorem fireWith_nudges (fires : fire.Nudges) (budget : Nat) :
    (engine.fireWith fire budget).Nudges := by
  intro origin request
  refine .any_world_bind fun world => ?_
  split
  · exact .pure fun _ held => held
  · rename_i script _
    refine .bind (queueForFiring_nudges engine script request.options) fun found => ?_
    obtain ⟨actor, created⟩ := found
    have made {β : Type} {act : RunM η β} (nudges : ∀ origin : World η, Nudges origin act) :
        Secures (fun world => origin.Nudged world ∧
            (created = true → actor.index < world.queues.size)) act fun _ world =>
          origin.Nudged world ∧ (created = true → actor.index < world.queues.size) :=
      Nudges.secures nudges fun nudge held =>
        ⟨held.1.tail nudge, fun isNew => Nat.lt_of_lt_of_le (held.2 isNew) nudge.size_le⟩
    have receives (fire : FireId) (origin : World η) : Nudges origin (RunM.modifyQueue actor fun queue =>
        (equip request.options (if created then { queue with fire } else queue)).addEntries
          (script.instantiate (some fire))) := by
      refine .adjust fun queue => ?_
      obtain ⟨definitions, context, offMain, same⟩ :=
        equip_eq request.options (if created then { queue with fire } else queue)
      rw [same]
      cases created <;> exact ⟨rfl, rfl, rfl⟩
    have tells (queueId : String) (fire : FireId) : Nudges origin (do
        return .ok ⟨actor, queueId, fire, ← outcomeOf actor fire⟩ :
          RunM η (Except FireError FireResult)) := by
      rw [outcomeOf_eq]
      refine .bind (Nudges.updateGet_beside fun world => ?_) fun _ => .pure fun _ held => held
      obtain ⟨outcomes, same⟩ := world.conclude_eq actor fire
      rw [same]
      exact ⟨rfl, rfl, rfl⟩
    refine .bind (made fun _ => .updateGet_beside fun _ => ⟨rfl, rfl, rfl⟩) fun fire => ?_
    refine .bind (made fun _ => .beside fun _ => ⟨rfl, rfl, rfl⟩) fun _ =>
      .bind (made (receives fire)) fun _ => .any_queue_bind fun _ => .bind (made fun _ => .log _ _) fun _ => ?_
    refine .ite (fun isNew => ?_) fun _ => (tells _ _).weaken (fun _ held => held.1) fun _ _ held => held
    refine .bind ((startQueue_nudges regular fires budget actor).weaken ?_ fun _ _ held => held) fun _ =>
      tells _ _
    exact fun _ held => ⟨held.1, held.2 isNew⟩

theorem fire_nudges (budget : Nat) : (engine.fire budget).Nudges := by
  induction budget with
  | zero => exact fun _ _ => .outOfBudget
  | succ budget ih => exact fireWith_nudges regular ih budget

theorem deliver_nudges (work : AsyncWork) : Nudges origin (engine.deliver work) := by
  unfold deliver
  rw [takeBack_eq regular]
  refine .when (Nudges.beside fun _ => ⟨rfl, rfl, rfl⟩) ?_
  rw [pure_bind]
  exact .when (Nudges.release _) (.pure fun _ held => held)

end

end Engine

end TagScript
