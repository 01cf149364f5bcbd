import TagScript.Proofs.Engine.GoingOn
import TagScript.Proofs.Queue.Fresh

/-! Firing a script on a queue of its own, up to the moment at which the queue runs. -/

namespace TagScript

variable {η α β : Type}

namespace World

def seat (script : Script) (options : FireOptions) (speed : Int) (world : World η) :
    (QueueRef × Bool) × World η :=
  let (id, world) := match options.id with
    | some id => (id, world)
    | none => world.freshId (Text.lower script.name)
  world.queueOrCreate id (.ofSpeed speed)

def handed (ref : QueueRef) (script : Script) (options : FireOptions) (world : World η) : World η :=
  let received := (world.modifyQueue ref fun queue =>
    Engine.equip options { queue with fire := ⟨world.fires⟩ }).enqueue ref script
  let made := "new"
  received.log .debug s!"Fired '{script.name}' on {made} queue '{(received.queue ref).id}'."

def launch (ref : QueueRef) (world : World η) : World η :=
  let queue := world.queue ref
  (world.modifyQueue ref Queue.launch).log .debug
    s!"Starting queue '{queue.id}' ({queue.kind.text})."

theorem queue_handed {ref : QueueRef} {world : World η} (made : ref.index < world.queues.size)
    (script : Script) (options : FireOptions) : (world.handed ref script options).queue ref =
      (Engine.equip options { world.queue ref with fire := ⟨world.fires⟩ }).addEntries
        (script.instantiate (some ⟨world.fires⟩)) := by
  have equipped := queue_modifyQueue_self made fun queue =>
    Engine.equip options { queue with fire := ⟨world.fires⟩ }
  rw [← equipped]
  exact queue_modifyQueue_self (by simpa [freshFire, markFired] using made) _

theorem queueOrCreate_new {id : String} {kind : QueueKind} {world later : World η} {ref : QueueRef}
    (new : world.queueOrCreate id kind = ((ref, true), later)) :
    ref.index < later.queues.size ∧ later.queue ref = .make id kind ⟨world.fires⟩ := by
  unfold queueOrCreate at new
  split at new
  · cases new
  · obtain ⟨same, rfl⟩ := Prod.mk.inj new
    obtain ⟨rfl, _⟩ := Prod.mk.inj same
    simp [queue]

theorem modify_made {world : World η} {queue : Queue} (change : Queue → Queue) :
    (world.queues.push queue).modify world.queues.size change = world.queues.push (change queue) := by
  refine Array.ext (by simp) fun index below _ => ?_
  rw [Array.getElem_modify]
  simp only [Array.getElem_push]
  grind

theorem seat_nameless (script : Script) {options : FireOptions} (nameless : options.id = none)
    (speed : Int) (world : World η) :
    ∃ seated, world.seat script options speed = ((⟨world.queues.size⟩, true), seated) ∧
      seated.queues = world.queues.push
        (.make (world.freshId (Text.lower script.name)).1 (.ofSpeed speed) ⟨world.fires⟩) ∧
      seated.liveQueue? (world.freshId (Text.lower script.name)).1 =
        some ⟨world.queues.size⟩ := by
  unfold seat
  rw [nameless]
  have free := liveQueue?_freshId (Text.lower script.name) world
  simp only [queueOrCreate, free]
  exact ⟨_, rfl, rfl, Table.get?_set _ _ _⟩

theorem seat_new {script : Script} {options : FireOptions} {speed : Int} {world seated : World η}
    {ref : QueueRef} (new : world.seat script options speed = ((ref, true), seated)) :
    ref.index < seated.queues.size ∧
      ∃ id fire, seated.queue ref = .make id (.ofSpeed speed) fire :=
  have ⟨made, same⟩ := queueOrCreate_new new
  ⟨made, _, _, same⟩

theorem seat_passage (terms : Terms) (running : List Running) (script : Script) (options : FireOptions)
    (speed : Int) (world : World η) : Passage terms running world (world.seat script options speed).2 := by
  unfold seat
  cases options.id with
  | some id => exact Engine.queueOrCreate_passage terms running id _ world
  | none =>
      have counted : Passage terms running world (world.freshId (Text.lower script.name)).2 :=
        .single (.aside (.of_live rfl rfl rfl rfl rfl rfl rfl (List.Subset.refl _)))
      exact counted.trans (Engine.queueOrCreate_passage terms running _ _ _)

end World

theorem Engine.Tame.handed {engine : Engine η} {library : Script → Prop} {world : World η}
    (terminating : engine.Terminating library) (tame : engine.Tame library world) (ref : QueueRef)
    {script : Script} (granted : library script) (options : FireOptions) :
    engine.Tame library (world.handed ref script options) := by
  have equipped : engine.Tame library (world.modifyQueue ref fun queue =>
      equip options { queue with fire := ⟨world.fires⟩ }) := by
    refine tame.changed ref fun entry member => ?_
    obtain ⟨definitions, context, offMain, same⟩ :=
      equip_eq options { world.queue ref with fire := ⟨world.fires⟩ }
    rw [same] at member
    exact tame.waiting ref entry member
  have received := equipped.enqueue terminating ref granted
  exact ⟨received.live, received.scripts, received.waiting⟩

theorem Engine.Tame.launch {engine : Engine η} {library : Script → Prop} {world : World η}
    (tame : engine.Tame library world) (ref : QueueRef) : engine.Tame library (world.launch ref) := by
  have launched : engine.Tame library (world.modifyQueue ref Queue.launch) :=
    tame.changed ref fun entry member => tame.waiting ref entry member
  exact ⟨launched.live, launched.scripts, launched.waiting⟩

namespace Engine

variable {fire : Firing η} {budget : Nat} {ref : QueueRef} {start : Tag.Evaluation (World η)}

theorem run_updateGet_bind (change : World η → β × World η) (next : β → RunM η α) :
    (RunM.updateGet change >>= next).run start =
      (next (change start.world).1).run { start with world := (change start.world).2 } := rfl

theorem run_log_bind (level : LogLevel) (text : String) (next : Unit → RunM η α) :
    (RunM.log level text >>= next).run start =
      (next ()).run { start with world := start.world.log level text } := rfl

theorem run_bind_congr {act other : RunM η α} {state : Tag.Evaluation (World η)}
    (same : act.run start = other.run state) (next : α → RunM η β) :
    (act >>= next).run start = (other >>= next).run state := by
  rw [StateT.run_bind, StateT.run_bind, same]

theorem queueForFiring_eq (engine : Engine η) (script : Script) (options : FireOptions) :
    engine.queueForFiring script options = RunM.updateGet (World.seat script options
      (options.speed.getD engine.host.defaultSpeed)) := by
  unfold queueForFiring World.seat
  cases options.id with
  | some id => simp only [pure_bind]
  | none => rfl

theorem equip_similar (options : FireOptions) (fire : FireId) (queue : Queue) :
    queue.Similar (equip options { queue with fire }) :=
  have alike := (equip_alike options { queue with fire }).similar
  ⟨alike.phase, alike.entries, alike.history⟩

theorem run_enqueue_bind {prepare : FireId → Queue → Queue}
    (similar : ∀ fire (queue : Queue), queue.Similar (prepare fire queue)) {script : Script}
    (next : FireId → RunM η α) :
    (do
      let fire ← RunM.updateGet World.freshFire
      RunM.update (World.markFired ref fire)
      RunM.modifyQueue ref fun queue =>
        (prepare fire queue).addEntries (script.instantiate (some fire))
      next fire).run start = (next ⟨start.world.fires⟩).run { start with world :=
        (start.world.modifyQueue ref (prepare ⟨start.world.fires⟩)).enqueue ref script } := by
  rw [World.enqueue_adjust (similar _)]
  rfl

def setOff (engine : Engine η) (fire : Firing η) (budget : Nat) (ref : QueueRef) (kind : QueueKind) :
    RunM η Unit :=
  if kind.isInstant then engine.drain fire ref budget else do
    engine.step fire ref
    ensureScheduled ref

theorem setOff_pursues {host : Host} {library : Script → Prop}
    (terminating : (paceless host : Engine η).Terminating library) (kind : QueueKind) :
    Pursues host library ref ((paceless host).setOff fire budget ref kind) :=
  .ite (drain_pursues terminating budget)
    (.bind terminating (step_pursues terminating) fun _ => ensureScheduled_pursues terminating)

theorem run_startQueue (engine : Engine η) (new : (start.world.queue ref).phase = .constructing) :
    (engine.startQueue fire budget ref).run start =
      (engine.setOff fire budget ref (start.world.queue ref).kind).run
        { start with world := start.world.launch ref } := by
  rw [startQueue, run_queue_bind, new]
  rfl

section

variable {source : ScriptSource} {script : Script} {options : FireOptions} {seated : World η}
  (engine : Engine η) (found : findScript source start.world = .ok script)
  (new : start.world.seat script options (options.speed.getD engine.host.defaultSpeed) =
    ((ref, true), seated))

include found new

theorem fireWith_hands :
    (engine.fireWith fire budget ⟨source, options⟩).run start = (do
        engine.startQueue fire budget ref
        let outcome ← outcomeOf ref ⟨seated.fires⟩
        return .ok ⟨ref, ((seated.handed ref script options).queue ref).id, ⟨seated.fires⟩, outcome⟩ :
          RunM η (Except FireError FireResult)).run
      { start with world := seated.handed ref script options } := by
  rw [fireWith, RunM.world, Tag.EvalM.run_world_bind, found]
  dsimp only
  rw [queueForFiring_eq, run_updateGet_bind, new]
  simp only [↓reduceIte]
  rw [run_enqueue_bind (equip_similar options), run_queue_bind, run_log_bind]
  rfl

theorem fireWith_launches :
    (engine.fireWith fire budget ⟨source, options⟩).run start = (do
        engine.setOff fire budget ref (.ofSpeed (options.speed.getD engine.host.defaultSpeed))
        let outcome ← outcomeOf ref ⟨seated.fires⟩
        return .ok ⟨ref, ((seated.handed ref script options).queue ref).id, ⟨seated.fires⟩, outcome⟩ :
          RunM η (Except FireError FireResult)).run
      { start with world := (seated.handed ref script options).launch ref } := by
  obtain ⟨made, id, number, queue⟩ := World.seat_new new
  obtain ⟨definitions, context, offMain, equipped⟩ :=
    equip_eq options { seated.queue ref with fire := ⟨seated.fires⟩ }
  have received := World.queue_handed made script options
  let handed : Tag.Evaluation (World η) := { start with world := seated.handed ref script options }
  have waits : (handed.world.queue ref).phase = .constructing := by
    rw [received, equipped, queue]
    rfl
  have kind : (handed.world.queue ref).kind =
      .ofSpeed (options.speed.getD engine.host.defaultSpeed) := by
    rw [received, equipped, queue]
    rfl
  rw [fireWith_hands engine found new]
  exact run_bind_congr (kind ▸ run_startQueue engine waits) _

end

end Engine

end TagScript
