import TagScript.Proofs.Engine.Expansion
import TagScript.Proofs.Engine.Secures

/-! What an entry stands for: a loop for its passes, and an injection for the entries of its script. The
commands that reach no other queue do nothing else with their own than putting this in front of what waits
there, or stopping it. -/

namespace TagScript

variable {η : Type}

open RunM (Secures)

namespace Command

def structural : List (Command η) := [.debug, .define, .determine, .inject, .repeatBlock]

end Command

namespace Engine

/-- The entries that a filled entry stands for where these scripts are known. -/
def unfolding (engine : Engine η) (scripts : Table Script) (ready : FilledEntry) : List Entry :=
  let entry : Entry := { ready.entry with arguments := ready.filled }
  match engine.commands.find? ready.entry.command with
  | none => []
  | some command =>
    if command.name = "repeat" then engine.host.loopEntries entry
    else if command.name = "inject" then engine.host.injectedEntries scripts entry
    else []

end Engine

/-! What stopping a queue keeps. -/

/-- A property of the scripts and of what waits on the queues. It is kept when a queue stops, and by every
change of a queue that touches neither what waits there nor whether it runs. -/
structure Steadfast (calm : World η → Prop) : Prop where
  same : ∀ {world later : World η}, calm world → later.scripts = world.scripts →
    later.queues = world.queues → calm later
  changed : ∀ {world : World η} (ref : QueueRef) {change : Queue → Queue},
    (∀ queue : Queue, (change queue).phase = queue.phase) →
    (∀ queue : Queue, (change queue).entries = queue.entries) → calm world →
    calm (world.modifyQueue ref change)
  closed : ∀ {world : World η} (ref : QueueRef), calm world →
    calm (world.modifyQueue ref Queue.close)

namespace Steadfast

variable {calm : World η → Prop} (steadfast : Steadfast calm)

include steadfast

theorem unspoken : Unspoken calm := by
  rintro world _ ⟨events, spoken, host, _, rfl⟩ held
  exact steadfast.same held rfl rfl

theorem unreported : Unreported calm := Unspoken.unreported steadfast.unspoken

theorem knowing (scripts : Table Script) :
    Steadfast fun world : World η => calm world ∧ world.scripts = scripts where
  same := fun held known queues => ⟨steadfast.same held.1 known queues, known.trans held.2⟩
  changed := fun ref _ phase entries held => ⟨steadfast.changed ref phase entries held.1, held.2⟩
  closed := fun ref held => ⟨steadfast.closed ref held.1, held.2⟩

theorem modifyQueue {ref : QueueRef} {change : Queue → Queue}
    (phase : ∀ queue : Queue, (change queue).phase = queue.phase)
    (entries : ∀ queue : Queue, (change queue).entries = queue.entries) :
    Secures calm (RunM.modifyQueue ref change : RunM η Unit) fun _ => calm :=
  .update fun _ held => steadfast.changed ref phase entries held

theorem record (ref : QueueRef) (fire : FireId) (value : String) :
    Secures calm (RunM.update (World.record ref fire value) : RunM η Unit) fun _ => calm := by
  refine .update fun world held => ?_
  obtain ⟨events, same⟩ := world.record_eq ref fire value
  rw [same]
  exact steadfast.same held rfl rfl

theorem host_remark (host : Host) (queue text : String) :
    Secures calm (host.remark queue text : RunM η Unit) fun _ => calm :=
  .ite (fun _ => host.message_secures steadfast.unreported _ _) fun _ =>
    .pure fun _ held => held

theorem remark (scene : Scene η) (text : String) :
    Secures calm (scene.remark text) fun _ => calm :=
  .bind (.any_queue_bind fun _ => .pure fun _ held => held) fun _ => steadfast.host_remark _ _ _

theorem carryOut (action : StopAction) :
    Secures calm (Queue.carryOut action : RunM η Unit) fun _ => calm := by
  cases action with
  | release queue =>
      have checks : Secures calm (RunM.update (World.checkHold queue) : RunM η Unit) fun _ => calm := by
        refine .update fun world held => ?_
        unfold World.checkHold
        split
        · exact steadfast.same held rfl rfl
        · exact held
      exact .bind checks fun _ => steadfast.modifyQueue (fun _ => rfl) fun _ => rfl
  | notify label => exact .update fun _ held => steadfast.same held rfl rfl

theorem stop (host : Host) (ref : QueueRef) :
    Secures calm (Queue.stop host ref : RunM η Unit) fun _ => calm := by
  have removes : Secures calm (RunM.updateGet (World.removeLive ref) : RunM η Bool) fun _ => calm := by
    refine .updateGet fun world held => ?_
    unfold World.removeLive
    dsimp only
    split
    · exact steadfast.same held rfl rfl
    · exact held
  have cancels (timer : Option TimerId) :
      Secures calm (timer.forM Queue.cancelTimer : RunM η Unit) fun _ => calm :=
    .forM_option timer fun _ _ => .update fun _ held => steadfast.same held rfl rfl
  have closes : Secures calm (RunM.modifyQueue ref Queue.close : RunM η Unit) fun _ => calm :=
    .update fun _ held => steadfast.closed ref held
  refine .any_queue_bind fun queue => .ite (fun _ => .pure fun _ held => held) fun _ => ?_
  refine .bind closes fun _ => .bind (cancels _) fun _ => .bind removes fun _ => ?_
  exact .bind (steadfast.host_remark _ _ _) fun _ => .forM _ fun action _ => steadfast.carryOut action

end Steadfast

/-! Executing an entry. -/

namespace Engine

def Turned {ε α : Type} (before after : World η → Prop) (answer : Except ε α) (world : World η) : Prop :=
  match answer with
  | .ok _ => after world
  | .error _ => before world

variable {engine : Engine η} {before after : World η → Prop} {fire : Firing η} {ref : QueueRef}
  {ready : FilledEntry} {command : Command η} {bound : Invocation} {scripts : Table Script}

section

variable (steadfast : Steadfast before) (steadfastAfter : Steadfast after)
  (known : ∀ world, before world → world.scripts = scripts)
  (keeps : engine.unfolding scripts ready = [] → ∀ world, before world → after world)
  (splices : ∀ world, before world →
    after (world.modifyQueue ref (Queue.injectEntries 0 (engine.unfolding scripts ready))))

include steadfast steadfastAfter known keeps splices

/-- Executing one of these commands splices in what the entry stands for, and does nothing else with what
waits on the queues, unless it stops the queue. -/
theorem execute_unfolds (found : engine.commands.find? ready.entry.command = some command)
    {blocks : List Block} (built : blocksOfFilled ready.filled = .ok blocks) {rest : Arguments}
    (isBound : command.bind
      { entry := { ready.entry with arguments := ready.filled }, queue := ready.queue, blocks }
      (engine.host.argumentsOf command { ready.entry with arguments := ready.filled }) =
        .ok (bound, rest))
    (structural : command ∈ Command.structural) :
    Secures before (command.execute ⟨engine.host, fire, ref⟩ bound) (Turned before after) := by
  let entry : Entry := { ready.entry with arguments := ready.filled }
  have stands : engine.unfolding scripts ready =
      if command.name = "repeat" then engine.host.loopEntries entry
      else if command.name = "inject" then engine.host.injectedEntries scripts entry else [] := by
    rw [unfolding, found]
  have done (nothing : engine.unfolding scripts ready = []) : Secures before
      (pure (.ok bound) : RunM η (Except Fault Invocation)) (Turned before after) :=
    .pure fun world held => keeps nothing world held
  have fails (fault : Fault) : Secures before
      (pure (.error fault) : RunM η (Except Fault Invocation)) (Turned before after) :=
    .pure fun _ held => held
  -- Only an injection and a loop splice. The others do nothing but what a steadfast property outlasts.
  simp only [Command.structural, List.mem_cons, List.not_mem_nil, or_false] at structural
  rcases structural with rfl | rfl | rfl | rfl | rfl
  · have named : Secures before (⟨engine.host, fire, ref⟩ : Scene η).queueId fun _ => before :=
      .any_queue_bind fun _ => .pure fun _ held => held
    refine .bind named fun _ => .ite (fun _ => ?_) fun _ => ?_
    · exact .bind (Host.error_secures steadfast.unreported _ _ _) fun _ => done stands
    · exact .bind (Host.message_secures steadfast.unreported _ _ _) fun _ => done stands
  · unfold Command.define
    dsimp only
    split
    · exact .bind (steadfast.modifyQueue (fun _ => rfl) fun _ => rfl) fun _ =>
        .bind (steadfast.remark _ _) fun _ => done stands
    · exact fails _
  · exact .any_queue_bind fun queue => .bind (steadfast.record ref _ _) fun _ =>
      .bind (steadfast.remark _ _) fun _ => .when (steadfast.stop _ _) (done stands)
  · have stands : engine.unfolding scripts ready = engine.host.injectedEntries scripts entry := stands
    obtain ⟨sameEntry, named⟩ := Command.injected_bind isBound
    unfold Command.inject
    dsimp only
    rw [named, sameEntry]
    refine .each fun world held => .world_bind ?_
    rw [World.script?, known world held]
    rw [Host.injectedEntries] at stands
    cases listed : scripts.get? (Text.lower (engine.host.injectedName entry)) with
    | none => exact .pure fun _ same => same ▸ held
    | some script =>
        rw [listed] at stands
        dsimp only at stands ⊢
        rw [Script.instantiate_eq, ← stands]
        exact .bind (.update fun _ same => same ▸ splices world held) fun _ =>
          .bind (steadfastAfter.remark _ _) fun _ => .pure fun _ held => held
  · have stands : engine.unfolding scripts ready = engine.host.loopEntries entry := stands
    rw [repeatBlock_splices built isBound, ← stands]
    exact .bind (.update splices) fun _ => .pure fun _ held => held

theorem dispatch_unfolds (structural : ∀ command ∈ engine.commands.find? ready.entry.command,
      command ∈ Command.structural) :
    Secures before (engine.dispatch fire ref ready (blocksOfFilled ready.filled))
      fun outcome world => if outcome = .executed then after world else before world := by
  let entry : Entry := { ready.entry with arguments := ready.filled }
  have fails (queue message : String) {outcome : EntryOutcome} (wrong : outcome ≠ .executed) :
      Secures before (do engine.host.error (some queue) message; return outcome : RunM η EntryOutcome)
        fun outcome world => if outcome = .executed then after world else before world :=
    .bind (Host.error_secures steadfast.unreported _ _ _) fun _ => .pure fun _ held => by
      rwa [if_neg wrong]
  have saves (name : String) (invocation : Invocation) :
      Secures after (RunM.modifyQueue ref (Queue.save name invocation)) fun _ => after :=
    steadfastAfter.modifyQueue (fun _ => rfl) fun _ => rfl
  unfold dispatch
  cases found : engine.commands.find? ready.entry.command with
  | none => exact fails _ _ (by decide)
  | some command =>
      cases built : blocksOfFilled ready.filled with
      | error error => exact fails _ _ (by decide)
      | ok blocks =>
          have offers (arguments : Arguments) := (offer_secures steadfast.unreported engine entry
            arguments).and (.of_gives (engine.offer_gives entry arguments))
          refine .bind (offers _) fun arguments => .each fun world offered => ?_
          obtain ⟨held, rfl⟩ := offered
          refine .weaken (.ite (fun _ => fails _ _ (by decide)) fun _ =>
            .when (RunM.emit_secures steadfast.unreported _) ?_) (fun _ same => same ▸ held)
              fun _ _ held => held
          unfold runCommand
          dsimp only
          split
          · rename_i fault _
            exact fails _ _ (by unfold bindingFailure; split <;> simp)
          · rename_i bound rest isBound
            refine .when (RunM.emit_secures steadfast.unreported _) ?_
            refine .bind (execute_unfolds steadfast steadfastAfter known keeps splices found built isBound
              (structural command found)) fun answer => ?_
            cases answer with
            | error fault => exact fails _ _ (by decide)
            | ok finished =>
                exact .bind (.forM_option _ fun name _ => saves name _) fun _ =>
                  .pure fun _ held => held

end

end Engine

end TagScript
