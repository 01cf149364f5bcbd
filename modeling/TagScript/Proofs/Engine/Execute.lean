import TagScript.Proofs.Engine.Discreet

/-! Executing an entry does nothing but moves, for every built-in command, as long as the scripts it
fires do nothing else either. -/

namespace TagScript

variable {η : Type} {frames : List Frame}

theorem Command.background_of_builtin {command : Command η} (known : command ∈ builtins) :
    command.background = none := by
  simp only [builtins, List.mem_cons, List.not_mem_nil, or_false] at known
  rcases known with rfl | rfl | rfl | rfl | rfl | rfl | rfl | rfl | rfl <;> rfl

def Firing.Orderly (fire : Firing η) : Prop :=
  ∀ frames request, RunM.Orderly frames (fire request)

structure Command.Orderly (command : Command η) : Prop where
  execute : ∀ (frames : List Frame) (scene : Scene η) (invocation : Invocation),
    Firing.Orderly scene.fire → RunM.Orderly frames (command.execute scene invocation)
  finish : ∀ background ∈ command.background, ∀ frames ref value,
    RunM.Orderly frames (background.finish ref value)

/-- An engine with no commands but built-in ones, and with tags that leave the queues alone. -/
structure Engine.Standard (engine : Engine η) : Prop where
  commands : ∀ name, ∀ command ∈ engine.commands.find? name, command ∈ Command.builtins
  resolvers : ∀ resolver ∈ engine.resolvers, ∀ lookup, (resolver.resolve lookup).Discreet
  attributes : ∀ handler ∈ engine.attributes, ∀ value lookup position,
    (handler.apply value lookup position).Discreet

theorem Host.error_orderly (host : Host) (queue : Option String) (text : String) :
    RunM.Orderly frames (host.error queue text : RunM η Unit) :=
  .update fun _ => .beside frames ⟨rfl, rfl, rfl⟩

theorem Host.message_orderly (host : Host) (queue : Option String) (text : String) :
    RunM.Orderly frames (host.message queue text : RunM η Unit) :=
  .update fun _ => .beside frames ⟨rfl, rfl, rfl⟩

theorem Host.remark_orderly (host : Host) (queue text : String) :
    RunM.Orderly frames (host.remark queue text : RunM η Unit) :=
  .ite (host.message_orderly _ _) (.pure _)

theorem Scene.remark_orderly (scene : Scene η) (text : String) :
    RunM.Orderly frames (scene.remark text) := by
  unfold Scene.remark Scene.queueId
  rw [bind_assoc]
  exact .queue_bind fun queue => by
    rw [pure_bind]
    exact scene.host.remark_orderly _ _

namespace Queue

theorem carryOut_orderly (action : StopAction) :
    RunM.Orderly frames (carryOut action : RunM η Unit) := by
  cases action with
  | release queue => exact .release queue
  | notify label => exact .emit _

theorem atEnd_orderly (ref : QueueRef) (action : StopAction) :
    RunM.Orderly frames (atEnd ref action : RunM η Unit) :=
  .queue_bind fun _ => .ite (carryOut_orderly action) (.adjust fun _ => ⟨rfl, rfl, rfl, rfl, rfl⟩)

theorem stop_leads (host : Host) {ref : QueueRef} {world : World η}
    (runs : (world.queue ref).isStopped = false) (frames : List Frame) :
    RunM.Leads ⟨frames, world.halt ref⟩ world (stop host ref) frames := by
  have told : RunM.Orderly frames (do
      host.remark (world.queue ref).id "Queue completed."
      (world.queue ref).onStop.forM carryOut : RunM η Unit) :=
    .bind (host.remark_orderly _ _) fun _ => .forM carryOut_orderly _
  refine .queue_bind ?_
  rw [runs]
  unfold World.halt
  refine .update_bind ?_
  cases (world.queue ref).timer with
  | none =>
      rw [Option.forM, pure_bind]
      exact .updateGet_bind (told _)
  | some id =>
      rw [Option.forM, cancelTimer]
      exact .update_bind (.updateGet_bind (told _))

theorem stop_orderly (host : Host) (ref : QueueRef) :
    RunM.Orderly frames (stop host ref : RunM η Unit) := by
  intro world
  cases stopped : (world.queue ref).isStopped with
  | true =>
      refine .queue_bind ?_
      rw [stopped]
      exact .pure .refl
  | false =>
      exact .after (.single (.halt frames world ref stopped)) (stop_leads host stopped frames)

end Queue

theorem World.record_beside (ref : QueueRef) (fire : FireId) (value : String) (world : World η) :
    world.Beside (world.record ref fire value) := by
  have logged (dropped : List FireId) (later : World η) (beside : world.Beside later) :
      world.Beside (dropped.foldl logDropped later) := by
    induction dropped generalizing later with
    | nil => exact beside
    | cons oldest rest ih => exact ih _ ⟨beside.queues, beside.live, beside.scheduler⟩
  exact logged _ _ ⟨rfl, rfl, rfl⟩

namespace Command

theorem Orderly.of_execute {command : Command η} (plain : command.background = none)
    (execute : ∀ (frames : List Frame) (scene : Scene η) (invocation : Invocation),
      Firing.Orderly scene.fire → RunM.Orderly frames (command.execute scene invocation)) :
    command.Orderly :=
  ⟨execute, by simp [plain]⟩

theorem debug_orderly : (debug : Command η).Orderly := by
  refine .of_execute rfl fun frames scene invocation _ => ?_
  refine .bind (.queue_bind fun _ => .pure _) fun queue => ?_
  exact .ite (.bind (scene.host.error_orderly _ _) fun _ => .pure _)
    (.bind (scene.host.message_orderly _ _) fun _ => .pure _)

theorem define_orderly : (define : Command η).Orderly := by
  refine .of_execute rfl fun frames scene invocation _ => ?_
  unfold define
  dsimp only
  split
  · exact .bind (.adjust fun _ => ⟨rfl, rfl, rfl, rfl, rfl⟩) fun _ =>
      .bind (scene.remark_orderly _) fun _ => .pure _
  · exact .pure _

theorem determine_orderly : (determine : Command η).Orderly := by
  refine .of_execute rfl fun frames scene invocation _ => ?_
  refine .queue_bind fun queue => ?_
  refine .bind (.update fun world => .beside frames (world.record_beside _ _ _)) fun _ => ?_
  refine .bind (scene.remark_orderly _) fun _ => ?_
  exact .when (Queue.stop_orderly _ _) (.pure _)

theorem inject_orderly : (inject : Command η).Orderly := by
  refine .of_execute rfl fun frames scene invocation _ => ?_
  refine .world_bind fun world => ?_
  split
  · exact .pure _
  · exact .bind (.update fun world => .inject frames world _ _ _) fun _ =>
      .bind (scene.remark_orderly _) fun _ => .pure _

theorem actOnQueue_orderly (scene : Scene η) (invocation : Invocation) (target : QueueRef) :
    RunM.Orderly frames (actOnQueue scene invocation target) := by
  unfold actOnQueue
  split
  · exact .bind (.adjust fun _ => ⟨rfl, rfl, rfl, rfl, rfl⟩) fun _ => .pure _
  · exact .bind (.adjust fun _ => ⟨rfl, rfl, rfl, rfl, rfl⟩) fun _ => .pure _
  · exact .bind (Queue.stop_orderly _ _) fun _ => .pure _
  · exact .bind (.update fun world => .clear frames world target) fun _ => .pure _
  · split
    · exact .pure _
    · exact .now_bind fun now => .bind (.adjust fun _ => ⟨rfl, rfl, rfl, rfl, rfl⟩) fun _ => .pure _
  · exact .pure _

theorem queue_orderly : (queue : Command η).Orderly := by
  refine .of_execute rfl fun frames scene invocation _ => ?_
  unfold queue
  dsimp only
  refine .world_bind fun world => ?_
  split
  · exact .pure _
  · refine .bind (actOnQueue_orderly scene invocation _) fun outcome => ?_
    split
    · exact .pure _
    · exact .queue_bind fun _ => .bind (scene.remark_orderly _) fun _ => .pure _

theorem repeatBlock_orderly : (repeatBlock : Command η).Orderly := by
  refine .of_execute rfl fun frames scene invocation _ => ?_
  unfold repeatBlock
  dsimp only
  split
  · exact .pure _
  · exact .bind (.update fun world => .inject frames world _ _ _) fun _ => .pure _

theorem run_orderly : (run : Command η).Orderly := by
  refine .of_execute rfl fun frames scene invocation fires => ?_
  unfold run
  dsimp only
  refine .when (.adjust fun _ => ⟨rfl, rfl, rfl, rfl, rfl⟩) ?_
  refine .bind (fires frames _) fun outcome => ?_
  split
  · exact .when (.release _) (.pure _)
  · exact .when (.bind (.jot _) fun _ => Queue.atEnd_orderly _ _)
      (.bind (scene.remark_orderly _) fun _ => .pure _)

theorem stop_orderly : (stop : Command η).Orderly :=
  .of_execute rfl fun _ scene _ _ =>
    .bind (Queue.stop_orderly scene.host scene.queue) fun _ => .pure _

theorem wait_orderly : (wait : Command η).Orderly := by
  refine .of_execute rfl fun frames scene invocation _ => ?_
  unfold wait
  dsimp only
  split
  · exact .pure _
  · exact .now_bind fun now => .bind (.adjust fun _ => ⟨rfl, rfl, rfl, rfl, rfl⟩) fun _ =>
      .bind (scene.remark_orderly _) fun _ => .pure _

theorem builtins_orderly (command : Command η) (known : command ∈ builtins) : command.Orderly := by
  simp only [builtins, List.mem_cons, List.not_mem_nil, or_false] at known
  rcases known with rfl | rfl | rfl | rfl | rfl | rfl | rfl | rfl | rfl
  · exact debug_orderly
  · exact define_orderly
  · exact determine_orderly
  · exact inject_orderly
  · exact queue_orderly
  · exact repeatBlock_orderly
  · exact run_orderly
  · exact stop_orderly
  · exact wait_orderly

end Command

namespace Engine

variable {engine : Engine η} {fire : Firing η}

theorem context_orderly (engine : Engine η) (queue : Option QueueRef) (entry : Option Entry) :
    RunM.Orderly frames (engine.context queue entry) := .world_bind fun _ => .pure _

theorem callProcedure_orderly (fires : Firing.Orderly fire) (procedure : Tag.Procedure) :
    RunM.Orderly frames (callProcedure fire procedure) := .bind (fires frames _) fun _ => .pure _

theorem vocabulary_keeps (standard : engine.Standard) (fires : Firing.Orderly fire)
    (origin : Stage η) (frames : List Frame) :
    (engine.vocabulary fire).Keeps (fun state => Course origin ⟨frames, state.world⟩)
      (fun _ => True) := by
  have stays {world later : World η} (beside : world.Beside later)
      (course : Course origin ⟨frames, world⟩) : Course origin ⟨frames, later⟩ :=
    course.tail (.beside frames beside)
  have calls (procedure : Tag.Procedure) : Tag.EvalM.Keeps
      (fun state => Course origin ⟨frames, state.world⟩) (callProcedure fire procedure) :=
    fun start result finish started ran =>
      started.trans (callProcedure_orderly fires procedure _ start result finish rfl ran)
  refine ⟨fun _ _ _ course => course,
    fun _ _ _ course => course.tail (.beside frames ⟨rfl, rfl, rfl⟩),
    fun _ _ _ course => course.tail (.beside frames ⟨rfl, rfl, rfl⟩), ?_, ?_⟩
  · intro resolver known lookup state course
    exact (standard.resolvers resolver known lookup state.world).keeps
      (fun world => Course origin ⟨frames, world⟩) stays calls (by simp) course state
  · intro handler known value lookup position state _ course
    exact (standard.attributes handler known value lookup position state.world).keeps
      (fun world => Course origin ⟨frames, world⟩) stays calls (by simp) course state

theorem fillArguments_orderly (standard : engine.Standard) (fires : Firing.Orderly fire)
    (context : Tag.Context) (words : List String) :
    RunM.Orderly frames (Tag.underToken false
      (Tag.fillArguments (engine.vocabulary fire) context words)) :=
  .of_keeps fun origin => Tag.underToken_keeps (Tag.fillArgumentsFrom_keeps
    (vocabulary_keeps standard fires origin frames) (fun _ _ course => course) context 0 words)
    (fun _ _ course => course) false

theorem fillText_orderly (standard : engine.Standard) (fires : Firing.Orderly fire)
    (queue : Option QueueRef) (text : String) :
    RunM.Orderly frames (engine.fillText fire queue text) :=
  .bind (engine.context_orderly _ _) fun context => .of_keeps fun origin =>
    Tag.underToken_keeps (Tag.evaluateBounded_keeps (vocabulary_keeps standard fires origin frames)
      (fun _ _ course => course) context text) (fun _ _ course => course) false

theorem substituteArgument_orderly (engine : Engine η) (queue : Queue) (entry : Entry)
    (template : Template) :
    RunM.Orderly frames (engine.substituteArgument queue entry template) := by
  refine .ite (.pure _) ?_
  exact .bind (.forM (fun _ => engine.host.error_orderly _ _) _) fun _ => .pure _

theorem substituteDefinitions_orderly (engine : Engine η) (queue : Queue) (entry : Entry) :
    RunM.Orderly frames (engine.substituteDefinitions queue entry) :=
  .ite (.pure _) (.bind (.mapM (engine.substituteArgument_orderly queue entry) _) fun _ => .pure _)

theorem offer_orderly (engine : Engine η) (entry : Entry) (arguments : Arguments) :
    RunM.Orderly frames (arguments.offer (engine.offerToHost entry)) := by
  refine .bind ?_ fun _ => .pure _
  have offered (word value : String) : RunM.Orderly frames (engine.offerToHost entry word value) :=
    .when (.emit _) (.pure _)
  induction arguments.positional with
  | nil => exact .pure _
  | cons argument rest ih =>
      unfold Arguments.unclaimed
      split
      · exact .bind ih fun _ => .pure _
      · exact .bind (offered _ _) fun _ => .bind ih fun _ => .pure _

theorem runCommand_orderly (fires : Firing.Orderly fire) {command : Command η}
    (orderly : command.Orderly) (ref : QueueRef) (invocation : Invocation) (arguments : Arguments)
    (saveName : Option String) :
    RunM.Orderly frames (engine.runCommand fire ref command invocation arguments saveName) := by
  unfold runCommand
  dsimp only
  split
  · exact .bind (engine.host.error_orderly _ _) fun _ => .pure _
  · refine .when (.log _ _) (.bind (orderly.execute frames _ _ fires) fun outcome => ?_)
    split
    · exact .bind (engine.host.error_orderly _ _) fun _ => .pure _
    · refine .bind (.forM_option (fun name => ?_) saveName) fun _ => .pure _
      exact .adjust fun _ => ⟨rfl, rfl, rfl, rfl, rfl⟩

theorem invoke_orderly (fires : Firing.Orderly fire) {command : Command η}
    (orderly : command.Orderly) (ref : QueueRef) (invocation : Invocation) :
    RunM.Orderly frames (engine.invoke fire ref command invocation) := by
  refine .bind (engine.offer_orderly _ _) fun arguments => ?_
  refine .ite (.bind (engine.host.error_orderly _ _) fun _ => .pure _) ?_
  exact .when (.log _ _) (runCommand_orderly fires orderly _ _ _ _)

theorem executeEntry_orderly (standard : engine.Standard) (fires : Firing.Orderly fire)
    (ref : QueueRef) (entry : Entry) :
    RunM.Orderly frames (engine.executeEntry fire ref entry) := by
  refine .queue_bind fun queue => .when (.emit _) ?_
  refine .bind (engine.substituteDefinitions_orderly queue entry) fun entry => ?_
  refine .bind (engine.context_orderly _ _) fun context => ?_
  refine .bind (fillArguments_orderly standard fires context _) fun filled => ?_
  refine .bind (.jot _) fun _ => ?_
  split
  · exact .bind (engine.host.error_orderly _ _) fun _ => .pure _
  · rename_i command found
    have orderly := Command.builtins_orderly command (standard.commands _ command found)
    split
    · exact .bind (engine.host.error_orderly _ _) fun _ => .pure _
    · exact invoke_orderly fires orderly ref _

end Engine

end TagScript
