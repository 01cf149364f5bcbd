import TagScript.Proofs.Engine.Launch

/-! Doing the same in two ways. A fact about two acts that is kept where acts are put together, and that
holds of each single look at the world and each single change of it, holds of all that an engine does:
of its commands, of running queues and of firing scripts. Two engines may differ in their tags if the
fact holds of filling words with them. No look and no change depends on what was logged before, so that
much is known of them. -/

namespace TagScript

variable {η α β : Type}

/-- The world without the events of its log. What scripts did is in its notes, too, and these stay. -/
def World.silent (world : World η) : World η := { world with events := [] }

/-- A fact about two acts that is kept where acts are put together. Of a single look or change it holds
if that does not depend on the log. -/
structure RunM.Congruent (holds : ∀ {α : Type}, RunM η α → RunM η α → Prop) : Prop where
  pure : ∀ {α : Type} (result : α), holds (Pure.pure result) (Pure.pure result)
  bind : ∀ {α β : Type} {act other : RunM η α} {next following : α → RunM η β}, holds act other →
    (∀ result, holds (next result) (following result)) → holds (act >>= next) (other >>= following)
  world_bind : ∀ {α : Type} {next following : World η → RunM η α},
    (∀ world, next world.silent = next world) → (∀ world, holds (next world) (following world)) →
    holds (RunM.world >>= next) (RunM.world >>= following)
  update : ∀ {change : World η → World η},
    (∀ world, (change world.silent).silent = (change world).silent) →
    holds (RunM.update change) (RunM.update change)
  updateGet : ∀ {α : Type} {change : World η → α × World η},
    (∀ world, ((change world.silent).1, (change world.silent).2.silent) =
      ((change world).1, (change world).2.silent)) →
    holds (RunM.updateGet change) (RunM.updateGet change)
  outOfBudget : ∀ {α : Type}, holds (RunM.outOfBudget : RunM η α) RunM.outOfBudget

namespace World

theorem removeLive_silent (ref : QueueRef) (world : World η) :
    world.silent.removeLive ref = ((world.removeLive ref).1, (world.removeLive ref).2.silent) := by
  have same : world.silent.removeLive ref =
      if world.live.get? (Text.lower (world.queue ref).id) = some ref then
        (true, { world.silent with live := world.live.erase (Text.lower (world.queue ref).id) })
      else (false, world.silent) := rfl
  rw [same, removeLive]
  dsimp only
  split <;> rfl

theorem checkHold_silent (ref : QueueRef) (world : World η) :
    world.silent.checkHold ref = (world.checkHold ref).silent := by
  have same : world.silent.checkHold ref =
      if ref.index < world.queues.size ∧ (world.queue ref).holds = 0 then
        world.silent.jot (.overdrawn ref) else world.silent := rfl
  rw [same, checkHold]
  split <;> rfl

theorem record_silent (ref : QueueRef) (fire : FireId) (value : String) (world : World η) :
    (world.silent.record ref fire value).silent = (world.record ref fire value).silent := by
  obtain ⟨_, first⟩ := world.silent.record_eq ref fire value
  obtain ⟨_, second⟩ := world.record_eq ref fire value
  rw [first, second]
  rfl

theorem conclude_silent (ref : QueueRef) (fire : FireId) (world : World η) :
    world.silent.conclude ref fire = (world.conclude ref fire).silent := by
  have same : world.silent.conclude ref fire =
      if (world.queue ref).isStopped then
        { world.silent with outcomes := (world.outcomes.take fire).2 }
      else world.silent := rfl
  rw [same, conclude]
  split <;> rfl

theorem queueOrCreate_silent (id : String) (kind : QueueKind) (world : World η) :
    world.silent.queueOrCreate id kind =
      ((world.queueOrCreate id kind).1, (world.queueOrCreate id kind).2.silent) := by
  have same : world.silent.liveQueue? id = world.liveQueue? id := rfl
  rw [queueOrCreate, queueOrCreate, same]
  split <;> rfl

theorem seat_silent (script : Script) (options : FireOptions) (speed : Int) (world : World η) :
    world.silent.seat script options speed =
      ((world.seat script options speed).1, (world.seat script options speed).2.silent) := by
  unfold seat
  cases options.id with
  | some id => exact queueOrCreate_silent id _ world
  | none => exact queueOrCreate_silent _ _ (world.freshId (Text.lower script.name)).2

end World

def Command.Congruent (holds : ∀ {α : Type}, RunM η α → RunM η α → Prop) (command : Command η) : Prop :=
  ∀ host ref (fire other : Firing η) invocation, (∀ request, holds (fire request) (other request)) →
    holds (command.execute ⟨host, fire, ref⟩ invocation)
      (command.execute ⟨host, other, ref⟩ invocation)

namespace RunM.Congruent

variable {holds : ∀ {α : Type}, RunM η α → RunM η α → Prop} (congruent : Congruent holds)

include congruent

section

variable {ref : QueueRef}

theorem queue_bind {next following : Queue → RunM η α}
    (rest : ∀ queue, holds (next queue) (following queue)) :
    holds (RunM.queue ref >>= next) (RunM.queue ref >>= following) := by
  unfold RunM.queue
  simp only [bind_assoc, pure_bind]
  exact congruent.world_bind (fun _ => rfl) fun _ => rest _

theorem now_bind {next following : Duration → RunM η α}
    (rest : ∀ now, holds (next now) (following now)) :
    holds (RunM.now >>= next) (RunM.now >>= following) := by
  unfold RunM.now
  simp only [bind_assoc, pure_bind]
  exact congruent.world_bind (fun _ => rfl) fun _ => rest _

theorem emit (event : Event) : holds (RunM.emit event : RunM η Unit) (RunM.emit event) :=
  congruent.update fun _ => rfl

theorem log (level : LogLevel) (text : String) :
    holds (RunM.log level text : RunM η Unit) (RunM.log level text) :=
  congruent.update fun _ => rfl

theorem jot (note : Note) : holds (RunM.jot note : RunM η Unit) (RunM.jot note) :=
  congruent.update fun _ => rfl

theorem modifyQueue (change : Queue → Queue) :
    holds (RunM.modifyQueue ref change : RunM η Unit) (RunM.modifyQueue ref change) :=
  congruent.update fun _ => rfl

theorem release : holds (RunM.release ref : RunM η Unit) (RunM.release ref) := by
  refine congruent.bind (congruent.update fun world => ?_) fun _ => congruent.modifyQueue _
  rw [world.checkHold_silent]
  rfl

omit congruent in
theorem ite {test : Prop} [Decidable test] {act other act' other' : RunM η α}
    (yes : holds act other) (no : holds act' other') :
    holds (if test then act else act') (if test then other else other') := by
  split
  · exact yes
  · exact no

theorem when {test : Prop} [Decidable test] {act other : RunM η α} {next following : RunM η β}
    (first : holds act other) (rest : holds next following) :
    holds (if test then act >>= fun _ => next else next)
      (if test then other >>= fun _ => following else following) :=
  ite (congruent.bind first fun _ => rest) rest

theorem forM {each following : α → RunM η PUnit} (every : ∀ item, holds (each item) (following item))
    (items : List α) : holds (items.forM each) (items.forM following) := by
  induction items with
  | nil => exact congruent.pure _
  | cons item rest ih => exact congruent.bind (every item) fun _ => ih

theorem forM_option {each following : α → RunM η PUnit}
    (every : ∀ item, holds (each item) (following item)) (item : Option α) :
    holds (item.forM each) (item.forM following) := by
  cases item with
  | none => exact congruent.pure _
  | some item => exact every item

theorem mapM {each following : α → RunM η β} (every : ∀ item, holds (each item) (following item))
    (items : List α) : holds (items.mapM each) (items.mapM following) := by
  induction items with
  | nil => exact congruent.pure _
  | cons item rest ih =>
      rw [List.mapM_cons, List.mapM_cons]
      exact congruent.bind (every item) fun _ => congruent.bind ih fun _ => congruent.pure _

end

/-! What commands do. -/

theorem error (host : Host) (queue : Option String) (text : String) :
    holds (host.error queue text : RunM η Unit) (host.error queue text) :=
  congruent.update fun _ => rfl

theorem message (host : Host) (queue : Option String) (text : String) :
    holds (host.message queue text : RunM η Unit) (host.message queue text) :=
  congruent.update fun _ => rfl

theorem remark (host : Host) (queue text : String) :
    holds (host.remark queue text : RunM η Unit) (host.remark queue text) :=
  ite (congruent.message host _ _) (congruent.pure _)

theorem scene_remark (host : Host) (fire other : Firing η) (ref : QueueRef) (text : String) :
    holds ((⟨host, fire, ref⟩ : Scene η).remark text) ((⟨host, other, ref⟩ : Scene η).remark text) := by
  unfold Scene.remark Scene.queueId
  simp only [bind_assoc, pure_bind]
  exact congruent.queue_bind fun _ => congruent.remark host _ _

theorem carryOut (action : StopAction) :
    holds (Queue.carryOut action : RunM η Unit) (Queue.carryOut action) := by
  cases action with
  | release queue => exact congruent.release
  | notify label => exact congruent.emit _

theorem atEnd (ref : QueueRef) (action : StopAction) :
    holds (Queue.atEnd ref action : RunM η Unit) (Queue.atEnd ref action) :=
  congruent.queue_bind fun _ => ite (congruent.carryOut action) (congruent.modifyQueue _)

theorem stop (host : Host) (ref : QueueRef) :
    holds (Queue.stop host ref : RunM η Unit) (Queue.stop host ref) := by
  have cancels (timer : TimerId) :
      holds (Queue.cancelTimer timer : RunM η Unit) (Queue.cancelTimer timer) :=
    congruent.update fun _ => rfl
  have leaves : holds (RunM.updateGet (World.removeLive ref) : RunM η Bool)
      (RunM.updateGet (World.removeLive ref)) :=
    congruent.updateGet fun world => by
      rw [world.removeLive_silent]
      rfl
  refine congruent.queue_bind fun queue => ite (congruent.pure _) ?_
  refine congruent.bind (congruent.modifyQueue _) fun _ =>
    congruent.bind (congruent.forM_option cancels _) fun _ => congruent.bind leaves fun _ => ?_
  exact congruent.bind (congruent.remark host _ _) fun _ => congruent.forM congruent.carryOut _

theorem debug : (Command.debug : Command η).Congruent holds := by
  intro host ref fire other invocation _
  unfold Command.debug Scene.queueId
  simp only [bind_assoc, pure_bind]
  refine congruent.queue_bind fun _ => ?_
  exact ite (congruent.bind (congruent.error host _ _) fun _ => congruent.pure _)
    (congruent.bind (congruent.message host _ _) fun _ => congruent.pure _)

theorem define : (Command.define : Command η).Congruent holds := by
  intro host ref fire other invocation _
  unfold Command.define
  dsimp only
  split
  · exact congruent.bind (congruent.modifyQueue _) fun _ =>
      congruent.bind (congruent.scene_remark host fire other ref _) fun _ => congruent.pure _
  · exact congruent.pure _

theorem determine : (Command.determine : Command η).Congruent holds := by
  intro host ref fire other invocation _
  refine congruent.queue_bind fun queue => ?_
  refine congruent.bind (congruent.update fun world => world.record_silent _ _ _) fun _ => ?_
  refine congruent.bind (congruent.scene_remark host fire other ref _) fun _ => ?_
  exact congruent.when (congruent.stop _ _) (congruent.pure _)

theorem inject : (Command.inject : Command η).Congruent holds := by
  intro host ref fire other invocation _
  refine congruent.world_bind (fun _ => rfl) fun world => ?_
  split
  · exact congruent.pure _
  · exact congruent.bind (congruent.modifyQueue _) fun _ =>
      congruent.bind (congruent.scene_remark host fire other ref _) fun _ => congruent.pure _

theorem actOnQueue (host : Host) (fire other : Firing η) (ref : QueueRef) (invocation : Invocation)
    (target : QueueRef) :
    holds (Command.actOnQueue ⟨host, fire, ref⟩ invocation target)
      (Command.actOnQueue ⟨host, other, ref⟩ invocation target) := by
  unfold Command.actOnQueue
  split
  · exact congruent.bind (congruent.modifyQueue _) fun _ => congruent.pure _
  · exact congruent.bind (congruent.modifyQueue _) fun _ => congruent.pure _
  · exact congruent.bind (congruent.stop _ _) fun _ => congruent.pure _
  · exact congruent.bind (congruent.modifyQueue _) fun _ => congruent.pure _
  · split
    · exact congruent.pure _
    · exact congruent.now_bind fun now =>
        congruent.bind (congruent.modifyQueue _) fun _ => congruent.pure _
  · exact congruent.pure _

theorem queue : (Command.queue : Command η).Congruent holds := by
  intro host ref fire other invocation _
  unfold Command.queue
  dsimp only
  refine congruent.world_bind (fun _ => rfl) fun world => ?_
  split
  · exact congruent.pure _
  · refine congruent.bind (congruent.actOnQueue host fire other ref invocation _) fun outcome => ?_
    split
    · exact congruent.pure _
    · exact congruent.queue_bind fun _ =>
        congruent.bind (congruent.scene_remark host fire other ref _) fun _ => congruent.pure _

theorem repeatBlock : (Command.repeatBlock : Command η).Congruent holds := by
  intro host ref fire other invocation _
  unfold Command.repeatBlock
  dsimp only
  split
  · exact congruent.pure _
  · exact congruent.bind (congruent.modifyQueue _) fun _ => congruent.pure _

theorem run : (Command.run : Command η).Congruent holds := by
  intro host ref fire other invocation fires
  unfold Command.run
  dsimp only
  refine congruent.when (congruent.modifyQueue _) (congruent.bind (fires _) fun outcome => ?_)
  split
  · exact congruent.when congruent.release (congruent.pure _)
  · exact congruent.when (congruent.bind (congruent.jot _) fun _ => congruent.atEnd _ _)
      (congruent.bind (congruent.scene_remark host fire other ref _) fun _ => congruent.pure _)

theorem wait : (Command.wait : Command η).Congruent holds := by
  intro host ref fire other invocation _
  unfold Command.wait
  dsimp only
  split
  · exact congruent.pure _
  · exact congruent.now_bind fun now => congruent.bind (congruent.modifyQueue _) fun _ =>
      congruent.bind (congruent.scene_remark host fire other ref _) fun _ => congruent.pure _

theorem builtins (command : Command η) (known : command ∈ Command.builtins) :
    command.Congruent holds := by
  simp only [Command.builtins, List.mem_cons, List.not_mem_nil, or_false] at known
  rcases known with rfl | rfl | rfl | rfl | rfl | rfl | rfl | rfl | rfl
  · exact congruent.debug
  · exact congruent.define
  · exact congruent.determine
  · exact congruent.inject
  · exact congruent.queue
  · exact congruent.repeatBlock
  · exact congruent.run
  · exact fun host ref _ _ _ _ => congruent.bind (congruent.stop host ref) fun _ => congruent.pure _
  · exact congruent.wait

theorem callProcedure {fire other : Firing η} (fires : ∀ request, holds (fire request) (other request))
    (procedure : Tag.Procedure) :
    holds (Engine.callProcedure fire procedure) (Engine.callProcedure other procedure) :=
  congruent.bind (fires _) fun _ => congruent.pure _

/-! What an engine does with an entry. -/

theorem substituteArgument (engine : Engine η) (queue : Queue) (entry : Entry) (template : Template) :
    holds (engine.substituteArgument queue entry template)
      (engine.substituteArgument queue entry template) :=
  ite (congruent.pure _) (congruent.bind (congruent.forM (fun _ => congruent.error _ _ _) _) fun _ =>
    congruent.pure _)

theorem substituteDefinitions (engine : Engine η) (queue : Queue) (entry : Entry) :
    holds (engine.substituteDefinitions queue entry) (engine.substituteDefinitions queue entry) :=
  ite (congruent.pure _) (congruent.bind
    (congruent.mapM (congruent.substituteArgument engine queue entry) _) fun _ => congruent.pure _)

theorem context (engine : Engine η) (queue : Option QueueRef) (entry : Option Entry) :
    holds (engine.context queue entry) (engine.context queue entry) :=
  congruent.world_bind (fun _ => rfl) fun _ => congruent.pure _

theorem offer (engine : Engine η) (entry : Entry) (arguments : Arguments) :
    holds (arguments.offer (engine.offerToHost entry))
      (arguments.offer (engine.offerToHost entry)) := by
  refine congruent.bind ?_ fun _ => congruent.pure _
  have offered (word value : String) : holds (engine.offerToHost entry word value)
      (engine.offerToHost entry word value) := congruent.when (congruent.emit _) (congruent.pure _)
  induction arguments.positional with
  | nil => exact congruent.pure _
  | cons argument rest ih =>
      unfold Arguments.unclaimed
      split
      · exact congruent.bind ih fun _ => congruent.pure _
      · exact congruent.bind (offered _ _) fun _ => congruent.bind ih fun _ => congruent.pure _

theorem finishQueue (engine : Engine η) (ref : QueueRef) :
    holds (engine.finishQueue ref) (engine.finishQueue ref) :=
  congruent.bind (congruent.modifyQueue _) fun _ => congruent.stop _ _

theorem takeStep (ref : QueueRef) :
    holds (Engine.takeStep ref : RunM η Step) (Engine.takeStep ref) :=
  congruent.updateGet fun _ => rfl

theorem ensureScheduled (ref : QueueRef) :
    holds (Engine.ensureScheduled ref : RunM η Unit) (Engine.ensureScheduled ref) :=
  congruent.queue_bind fun _ => ite (congruent.pure _) (congruent.bind
    (congruent.updateGet fun _ => rfl) fun _ => congruent.bind (congruent.log _ _) fun _ =>
      congruent.modifyQueue _)

theorem queueForFiring (engine : Engine η) (script : Script) (options : FireOptions) :
    holds (engine.queueForFiring script options) (engine.queueForFiring script options) := by
  rw [Engine.queueForFiring_eq]
  refine congruent.updateGet fun world => ?_
  rw [world.seat_silent]
  rfl

theorem outcomeOf (ref : QueueRef) (fire : FireId) :
    holds (Engine.outcomeOf ref fire : RunM η (Option (List String))) (Engine.outcomeOf ref fire) := by
  rw [Engine.outcomeOf_eq]
  refine congruent.updateGet fun world => ?_
  rw [world.conclude_silent]
  rfl

end RunM.Congruent

namespace Engine

variable {holds : ∀ {α : Type}, RunM η α → RunM η α → Prop} {engine : Engine η}
  {resolvers : List (Tag.Resolver (World η))} {attributes : List (Tag.Attribute (World η))}
  {inner other : Firing η}

def retagged (resolvers : List (Tag.Resolver (World η)))
    (attributes : List (Tag.Attribute (World η))) (engine : Engine η) : Engine η :=
  { engine with resolvers, attributes }

structure Congruent (holds : ∀ {α : Type}, RunM η α → RunM η α → Prop)
    (resolvers : List (Tag.Resolver (World η))) (attributes : List (Tag.Attribute (World η)))
    (engine : Engine η) : Prop where
  acts : RunM.Congruent holds
  commands : ∀ name, ∀ command ∈ engine.commands.find? name, command.Congruent holds
  fills : ∀ fire other : Firing η, (∀ request, holds (fire request) (other request)) →
    ∀ context words,
    holds (Tag.underToken false (Tag.fillArguments (engine.vocabulary fire) context words))
      (Tag.underToken false (Tag.fillArguments
        ((engine.retagged resolvers attributes).vocabulary other) context words))

namespace Congruent

variable (congruent : engine.Congruent holds resolvers attributes)
  (fires : ∀ request, holds (inner request) (other request))

include congruent fires

theorem runCommand {command : Command η} (runs : command.Congruent holds) (ref : QueueRef)
    (invocation : Invocation) (arguments : Arguments) (saveName : Option String) :
    holds (engine.runCommand inner ref command invocation arguments saveName)
      ((engine.retagged resolvers attributes).runCommand other ref command invocation arguments
        saveName) := by
  have acts := congruent.acts
  unfold Engine.runCommand
  dsimp only
  split
  · exact acts.bind (acts.error engine.host _ _) fun _ => acts.pure _
  · refine acts.when (acts.log _ _) (acts.bind (runs _ _ _ _ _ fires) fun outcome => ?_)
    split
    · exact acts.bind (acts.error engine.host _ _) fun _ => acts.pure _
    · exact acts.bind (acts.forM_option (fun _ => acts.modifyQueue _) saveName) fun _ => acts.pure _

theorem invoke {command : Command η} (runs : command.Congruent holds) (ref : QueueRef)
    (invocation : Invocation) :
    holds (engine.invoke inner ref command invocation)
      ((engine.retagged resolvers attributes).invoke other ref command invocation) := by
  have acts := congruent.acts
  refine acts.bind (acts.offer engine _ _) fun arguments => ?_
  refine RunM.Congruent.ite (acts.bind (acts.error engine.host _ _) fun _ => acts.pure _) ?_
  exact acts.when (acts.log _ _) (congruent.runCommand fires runs _ _ _ _)

theorem executeEntry (ref : QueueRef) (entry : Entry) :
    holds (engine.executeEntry inner ref entry)
      ((engine.retagged resolvers attributes).executeEntry other ref entry) := by
  have acts := congruent.acts
  refine acts.queue_bind fun queue => acts.when (acts.emit _) ?_
  refine acts.bind (acts.substituteDefinitions engine queue entry) fun entry => ?_
  refine acts.bind (acts.context engine _ _) fun context => ?_
  refine acts.bind (congruent.fills inner other fires context _) fun filled => ?_
  refine acts.bind (acts.jot _) fun _ => ?_
  have known : (engine.retagged resolvers attributes).commands.find? entry.command =
      engine.commands.find? entry.command := rfl
  simp only [known]
  cases found : engine.commands.find? entry.command with
  | none => exact acts.bind (acts.error engine.host _ _) fun _ => acts.pure _
  | some command =>
      dsimp only
      split
      · exact acts.bind (acts.error engine.host _ _) fun _ => acts.pure _
      · exact congruent.invoke fires (congruent.commands _ command found) ref _

theorem executeTaken (ref : QueueRef) (entry : Entry) :
    holds (engine.executeTaken inner ref entry)
      ((engine.retagged resolvers attributes).executeTaken other ref entry) :=
  congruent.acts.bind (congruent.acts.modifyQueue _) fun _ =>
    congruent.acts.bind (congruent.executeEntry fires ref entry) fun _ =>
      congruent.acts.modifyQueue _

theorem drain (ref : QueueRef) (budget : Nat) :
    holds (engine.drain inner ref budget)
      ((engine.retagged resolvers attributes).drain other ref budget) := by
  have acts := congruent.acts
  induction budget with
  | zero => exact acts.outOfBudget
  | succ budget ih =>
      refine acts.bind (acts.takeStep ref) fun step => ?_
      cases step with
      | execute entry => exact acts.bind (congruent.executeTaken fires ref entry) fun _ => ih
      | wait =>
          exact acts.queue_bind fun _ => acts.bind (acts.log _ _) fun _ =>
            acts.bind (acts.modifyQueue _) fun _ => acts.ensureScheduled ref
      | finish => exact acts.finishQueue engine ref
      | halted => exact acts.pure _

theorem step (ref : QueueRef) :
    holds (engine.step inner ref) ((engine.retagged resolvers attributes).step other ref) := by
  have acts := congruent.acts
  refine acts.bind (acts.takeStep ref) fun step => ?_
  cases step with
  | execute entry =>
      refine acts.bind (congruent.executeTaken fires ref entry) fun _ => ?_
      exact acts.world_bind (fun _ => rfl) fun _ =>
        RunM.Congruent.ite (acts.finishQueue engine ref) (acts.pure _)
  | wait => exact acts.pure _
  | finish => exact acts.finishQueue engine ref
  | halted => exact acts.pure _

theorem startQueue (budget : Nat) (ref : QueueRef) :
    holds (engine.startQueue inner budget ref)
      ((engine.retagged resolvers attributes).startQueue other budget ref) := by
  have acts := congruent.acts
  refine acts.queue_bind fun queue => RunM.Congruent.ite (acts.pure _) ?_
  refine acts.bind (acts.modifyQueue _) fun _ => acts.bind (acts.log _ _) fun _ => ?_
  exact RunM.Congruent.ite (congruent.drain fires ref budget)
    (acts.bind (congruent.step fires ref) fun _ => acts.ensureScheduled ref)

theorem fireWith (budget : Nat) (request : FireRequest) :
    holds (engine.fireWith inner budget request)
      ((engine.retagged resolvers attributes).fireWith other budget request) := by
  have acts := congruent.acts
  refine acts.world_bind (fun _ => rfl) fun world => ?_
  cases findScript request.source world with
  | error error => exact acts.pure _
  | ok script =>
      refine acts.bind (acts.queueForFiring engine script request.options) fun seat => ?_
      refine acts.bind (acts.updateGet fun _ => rfl) fun number => ?_
      refine acts.bind (acts.update fun _ => rfl) fun _ => acts.bind (acts.modifyQueue _) fun _ => ?_
      refine acts.queue_bind fun queue => acts.bind (acts.log _ _) fun _ => ?_
      exact acts.when (congruent.startQueue fires budget _)
        (acts.bind (acts.outcomeOf _ _) fun _ => acts.pure _)

omit fires in
theorem fire (budget : Nat) (request : FireRequest) :
    holds (engine.fire budget request)
      ((engine.retagged resolvers attributes).fire budget request) := by
  induction budget generalizing request with
  | zero => exact congruent.acts.outOfBudget
  | succ budget ih => exact congruent.fireWith ih budget request

end Congruent

end Engine

end TagScript
