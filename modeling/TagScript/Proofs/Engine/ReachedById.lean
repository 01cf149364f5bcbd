import TagScript.Proofs.Engine.HostCalls
import TagScript.Proofs.Queue.Apart

/-! Watching over a queue while others are at work. An entry of another queue reaches it only by asking
for it by its id, as `queue` and `run` can; whatever else happens gives up its holds at most. -/

namespace TagScript

variable {η α : Type}

open RunM (Secures)

namespace Invocation

def Targets (ref : QueueRef) (world : World η) (bound : Invocation) : Prop :=
  ∃ id, bound.object? "target" = some id ∧ world.liveQueue? id = some ref

def Joins (ref : QueueRef) (world : World η) (bound : Invocation) : Prop :=
  ∃ id, bound.object? "id" = some id ∧ world.liveQueue? id = some ref ∧
    (world.script? (bound.objectD "script" "")).isSome = true

def SetsDelay (bound : Invocation) : Prop := bound.object? "action" = some "delay"

theorem Targets.apart {ref : QueueRef} {world other : World η} {bound : Invocation}
    (apart : world.Apart ref other) (targets : bound.Targets ref other) :
    bound.Targets ref world := by
  obtain ⟨id, asked, found⟩ := targets
  exact ⟨id, asked, (apart.liveQueue? id).1 found⟩

theorem Joins.apart {ref : QueueRef} {world other : World η} {bound : Invocation}
    (apart : world.Apart ref other) (joins : bound.Joins ref other) : bound.Joins ref world := by
  obtain ⟨id, asked, found, known⟩ := joins
  rw [apart.script?] at known
  exact ⟨id, asked, (apart.liveQueue? id).1 found, known⟩

end Invocation

namespace Engine

def Binds (engine : Engine η) (command : Command η) (entry : Entry) (bound : Invocation) : Prop :=
  engine.commands.find? entry.command = some command ∧ ∃ queue blocks rest,
    command.bind { entry, queue, blocks } (engine.host.argumentsOf command entry) =
      .ok (bound, rest)

def AsksFor (engine : Engine η) (ref : QueueRef) (world : World η) (entry : Entry) : Prop :=
  ∃ bound, (engine.Binds .queue entry bound ∧ bound.Targets ref world) ∨
    (engine.Binds .run entry bound ∧ bound.Joins ref world)

def Delays (engine : Engine η) (ref : QueueRef) (world : World η) (entry : Entry) : Prop :=
  ∃ bound, engine.Binds .queue entry bound ∧ bound.Targets ref world ∧ bound.SetsDelay

structure Grants (engine : Engine η) (ref : QueueRef) (licensed : List Note → Prop)
    (delaying : World η → Prop) (entry : Entry) (world : World η) : Prop where
  asks : engine.AsksFor ref world entry → licensed world.notes
  delays : engine.Delays ref world entry → delaying world

end Engine

theorem Engine.dispatch_secures {engine : Engine η} {fire : Firing η} {actor : QueueRef}
    {kept calm : World η → Prop} (unreported : Unreported kept) (calmly : Unreported calm)
    (weakly : ∀ world, kept world → calm world) (ready : Engine.FilledEntry)
    (executes : ∀ command bound, engine.Binds command { ready.entry with arguments := ready.filled } bound →
      Secures kept (command.execute ⟨engine.host, fire, actor⟩ bound) fun _ => calm)
    (saves : ∀ name invocation,
      Secures calm (RunM.modifyQueue actor (Queue.save name invocation)) fun _ => calm) :
    Secures kept (engine.dispatch fire actor ready (Engine.blocksOfFilled ready.filled))
      fun _ => calm := by
  have fails (queue message : String) (outcome : EntryOutcome) : Secures kept
      (do engine.host.error (some queue) message; return outcome : RunM η EntryOutcome)
      fun _ => calm :=
    .bind (Host.error_secures unreported _ _ _) fun _ => .pure weakly
  unfold Engine.dispatch
  split
  · exact fails _ _ _
  · rename_i command found
    split
    · exact fails _ _ _
    · rename_i blocks built
      have offers (arguments : Arguments) := (Engine.offer_secures unreported engine
        { ready.entry with arguments := ready.filled } arguments).and
          (.of_gives (engine.offer_gives _ arguments))
      refine .bind (offers _) fun arguments => .each fun world offered => ?_
      obtain ⟨held, rfl⟩ := offered
      have begins : ∀ later, later = world → kept later := fun _ same => same ▸ held
      refine .weaken (.ite (fun _ => fails _ _ _) fun _ => .when (RunM.emit_secures unreported _) ?_)
        begins fun _ _ held => held
      unfold Engine.runCommand
      dsimp only
      split
      · exact fails _ _ _
      · rename_i bound rest isBound
        refine .when (RunM.emit_secures unreported _) ?_
        refine .bind (executes command bound ⟨found, ready.queue, blocks, rest, isBound⟩) fun outcome => ?_
        cases outcome with
        | error fault =>
            exact .bind (Host.error_secures calmly _ _ _) fun _ => .pure fun _ held => held
        | ok finished =>
            exact .bind (.forM_option _ fun _ _ => saves _ _) fun _ => .pure fun _ held => held

/-- A property of worlds that others cannot end unless they are licensed to reach the queue. The
licence to reach it at all is given by what is on record, and there is one of its own for setting the
delay. -/
structure Vigil (engine : Engine η) (ref : QueueRef) (calm : World η → Prop)
    (licensed : List Note → Prop) (delaying : World η → Prop) : Prop where
  goesOn : ∀ {notes more}, Silent ref more → licensed notes → licensed (more ++ notes)
  alsoGoesOn : ∀ {world other : World η}, world.Apart ref other → delaying world → delaying other
  apart : ∀ {world other : World η}, world.Apart ref other → calm world → calm other
  release : ∀ {world : World η}, calm world → calm (world.modifyQueue ref Queue.release)
  deal : ∀ {world : World η} {change : Queue → Queue}, licensed world.notes →
    (∀ queue : Queue, queue.Onward (change queue)) → calm world →
    calm (world.modifyQueue ref change)
  delay : ∀ {world : World η} (duration : Duration), delaying world → calm world →
    calm (world.modifyQueue ref (Queue.delayFor duration world.now))
  unlist : ∀ {world : World η} (key : String), licensed world.notes → calm world →
    calm { world with live := world.live.erase key }
  create : ∀ {world : World η} (id : String) (kind : QueueKind), world.queues.size = ref.index →
    calm world → calm (world.queueOrCreate id kind).2 ∧ ∀ notes, licensed notes
  noted : ∀ {world : World η} {actor : QueueRef} {entry : Entry}, actor ≠ ref → calm world →
    engine.Grants ref licensed delaying entry (world.jot (.filled actor entry))

structure Lax (ref : QueueRef) (calm : World η → Prop) (licensed : List Note → Prop)
    (delaying : World η → Prop) : Prop where
  licence : ∀ notes, licensed notes
  delays : ∀ world, delaying world
  fills : ∀ {world : World η} {entry : Entry}, calm world →
    calm (world.jot (.filled ref entry))

def FireRequest.Granted (ref : QueueRef) (licensed : List Note → Prop) (world : World η)
    (request : FireRequest) : Prop :=
  ∀ id ∈ request.options.id, world.liveQueue? id = some ref →
    (∃ script, Engine.findScript request.source world = .ok script) → licensed world.notes

theorem Invocation.granted {ref : QueueRef} {licensed : List Note → Prop} {world : World η}
    {bound : Invocation} (joins : bound.Joins ref world → licensed world.notes) :
    FireRequest.Granted ref licensed world
      ⟨.named (bound.objectD "script" ""), Command.runOptions bound⟩ := by
  intro id asked found known
  refine joins ⟨id, asked, found, ?_⟩
  obtain ⟨script, known⟩ := known
  simp only [Engine.findScript] at known
  split at known
  · rename_i same
    rw [same, Option.isSome_some]
  · cases known

def Firing.Heeds (ref : QueueRef) (calm : World η → Prop) (licensed : List Note → Prop)
    (fire : Firing η) : Prop :=
  ∀ request, Secures (fun world => calm world ∧ request.Granted ref licensed world) (fire request)
    fun answer world => calm world ∧
      ∀ result, answer = .ok result → result.queue = ref → licensed world.notes

section

variable {engine : Engine η} {ref : QueueRef} {calm : World η → Prop}
  {licensed : List Note → Prop} {delaying : World η → Prop}
  (vigil : Vigil engine ref calm licensed delaying)

include vigil

namespace Vigil

theorem licensed_apart {world other : World η} (apart : world.Apart ref other)
    (granted : licensed world.notes) : licensed other.notes := by
  obtain ⟨more, silent, same⟩ := apart.notes
  rw [same]
  exact vigil.goesOn silent granted

theorem grants_apart {entry : Entry} {world other : World η} (apart : world.Apart ref other)
    (grants : engine.Grants ref licensed delaying entry world) :
    engine.Grants ref licensed delaying entry other := by
  constructor
  · rintro ⟨bound, targets | joins⟩
    · exact vigil.licensed_apart apart (grants.asks ⟨bound, .inl ⟨targets.1, targets.2.apart apart⟩⟩)
    · exact vigil.licensed_apart apart (grants.asks ⟨bound, .inr ⟨joins.1, joins.2.apart apart⟩⟩)
  · rintro ⟨bound, binds, targets, sets⟩
    exact vigil.alsoGoesOn apart (grants.delays ⟨bound, binds, targets.apart apart, sets⟩)

theorem unreported : Unreported calm := fun reported held => vigil.apart (.reported reported) held

theorem modify {actor : QueueRef} {change : Queue → Queue} {world : World η}
    (onward : ∀ queue : Queue, queue.Onward (change queue))
    (own : actor = ref → licensed world.notes) (held : calm world) :
    calm (world.modifyQueue actor change) := by
  by_cases same : actor = ref
  · subst same
    exact vigil.deal (own rfl) onward held
  · exact vigil.apart (.modifyQueue same change world) held

theorem update {change : World η → World η} (apart : ∀ world : World η, world.Apart ref (change world)) :
    Secures calm (RunM.update change) fun _ => calm :=
  .update fun world held => vigil.apart (apart world) held

theorem updateGet {change : World η → α × World η}
    (apart : ∀ world : World η, world.Apart ref (change world).2) :
    Secures calm (RunM.updateGet change) fun _ => calm :=
  .updateGet fun world held => vigil.apart (apart world) held

theorem log (level : LogLevel) (text : String) :
    Secures calm (RunM.log level text : RunM η Unit) fun _ => calm :=
  vigil.update fun _ => .of_same rfl rfl rfl rfl rfl

theorem release_secures (actor : QueueRef) :
    Secures calm (RunM.release actor : RunM η Unit) fun _ => calm := by
  refine .bind (vigil.update fun world => .checkHold actor world) fun _ => .update fun world held => ?_
  by_cases same : actor = ref
  · subst same
    exact vigil.release held
  · exact vigil.apart (.modifyQueue same _ world) held

theorem carryOut (action : StopAction) :
    Secures calm (Queue.carryOut action : RunM η Unit) fun _ => calm := by
  cases action with
  | release queue => exact vigil.release_secures queue
  | notify label => exact vigil.update fun _ => .of_same rfl rfl rfl rfl rfl

theorem remark (host : Host) (queue text : String) :
    Secures calm (host.remark queue text : RunM η Unit) fun _ => calm :=
  .ite (fun _ => Host.message_secures vigil.unreported host _ _) fun _ => .pure fun _ held => held

theorem scene_remark (scene : Scene η) (text : String) :
    Secures calm (scene.remark text) fun _ => calm :=
  .bind (.any_queue_bind fun _ => .pure fun _ held => held) fun _ => vigil.remark _ _ _

theorem stop (host : Host) (actor : QueueRef) :
    Secures (fun world => calm world ∧ (actor = ref → licensed world.notes))
      (Queue.stop host actor : RunM η Unit) fun _ => calm := by
  refine .each fun world held => .queue_bind ?_
  refine .ite (fun _ => .pure fun _ same => same ▸ held.1) fun _ => ?_
  let kept (later : World η) := calm later ∧ (actor = ref → licensed later.notes)
  have closes : Secures (· = world) (RunM.modifyQueue actor Queue.close) fun _ => kept := by
    refine .update fun _ same => ?_
    subst same
    exact ⟨vigil.modify (fun _ => ⟨rfl, fun _ => Phase.noConfusion, rfl, List.suffix_cons _ _⟩)
      held.2 held.1, held.2⟩
  refine .bind closes fun _ => .bind (.forM_option _ fun timer _ => ?_) fun _ => ?_
  · refine .update fun later held => ⟨vigil.apart ?_ held.1, held.2⟩
    exact .reschedule rfl
  · have removes : Secures kept (RunM.updateGet (World.removeLive actor)) fun _ => calm := by
      refine .updateGet fun later held => ?_
      by_cases same : actor = ref
      · unfold World.removeLive
        dsimp only
        split
        · exact vigil.unlist _ (held.2 same) held.1
        · exact held.1
      · exact vigil.apart (.removeLive same later) held.1
    exact .bind removes fun _ => .bind (vigil.remark _ _ _) fun _ =>
      .forM _ fun action _ => vigil.carryOut action

theorem atEnd (target : QueueRef) (action : StopAction) :
    Secures (fun world => calm world ∧ (target = ref → licensed world.notes))
      (Queue.atEnd target action : RunM η Unit) fun _ => calm := by
  refine .any_queue_bind fun queue => .ite (fun _ => ?_) fun _ => ?_
  · exact (vigil.carryOut action).weaken (fun _ held => held.1) fun _ _ held => held
  · exact .update fun world held =>
      vigil.modify (fun _ => ⟨rfl, id, rfl, List.suffix_refl _⟩) held.2 held.1

theorem delayFor {actor : QueueRef} {world : World η} (duration : Duration) (held : calm world)
    (granted : actor = ref → delaying world) :
    Secures (· = world) (RunM.modifyQueue actor (Queue.delayFor duration world.now)) fun _ => calm := by
  refine .update fun _ same => ?_
  subst same
  by_cases same : actor = ref
  · subst same
    exact vigil.delay duration (granted rfl) held
  · exact vigil.apart (.modifyQueue same _ _) held

section

variable {actor : QueueRef} (own : actor = ref → ∀ notes, licensed notes)

include own

theorem change {change : Queue → Queue} (onward : ∀ queue : Queue, queue.Onward (change queue)) :
    Secures calm (RunM.modifyQueue actor change : RunM η Unit) fun _ => calm :=
  .update fun _ held => vigil.modify onward (fun same => own same _) held

theorem stop_own (host : Host) :
    Secures calm (Queue.stop host actor : RunM η Unit) fun _ => calm :=
  (vigil.stop host actor).weaken (fun _ held => ⟨held, fun same => own same _⟩)
    fun _ _ held => held

theorem takes {world : World η} (held : calm world) (entries : List Entry) :
    calm (world.modifyQueue actor ({ · with entries })) :=
  vigil.modify (fun _ => ⟨rfl, id, rfl, List.suffix_refl _⟩) (fun same => own same _) held

theorem ensureScheduled : Secures calm (Engine.ensureScheduled actor : RunM η Unit) fun _ => calm := by
  refine .any_queue_bind fun queue => .ite (fun _ => .pure fun _ held => held) fun _ => ?_
  refine .bind (vigil.updateGet fun world => .reschedule rfl) fun timer => ?_
  exact .bind (vigil.log _ _) fun _ => vigil.change own fun _ => ⟨rfl, id, rfl, List.suffix_refl _⟩

theorem slows : Secures calm (RunM.modifyQueue actor ({ · with kind := .afterWaiting }) : RunM η Unit)
    fun _ => calm :=
  vigil.change own fun _ => ⟨rfl, id, rfl, List.suffix_refl _⟩

theorem finishQueue : Secures calm (engine.finishQueue actor) fun _ => calm :=
  .bind (vigil.change own fun _ => ⟨rfl, id, rfl, List.suffix_cons _ _⟩) fun _ =>
    vigil.stop_own own engine.host

variable {host : Host} {fire : Firing η} (bound : Invocation)

omit own in
theorem debug : Secures calm ((Command.debug : Command η).execute ⟨host, fire, actor⟩ bound)
    fun _ => calm := by
  have named : Secures calm (⟨host, fire, actor⟩ : Scene η).queueId fun _ => calm :=
    .any_queue_bind fun _ => .pure fun _ held => held
  refine .bind named fun _ => .ite (fun _ => ?_) fun _ => ?_
  · exact .bind (Host.error_secures vigil.unreported _ _ _) fun _ => .pure fun _ held => held
  · exact .bind (Host.message_secures vigil.unreported _ _ _) fun _ => .pure fun _ held => held

theorem define : Secures calm ((Command.define : Command η).execute ⟨host, fire, actor⟩ bound)
    fun _ => calm := by
  unfold Command.define
  dsimp only
  split
  · exact .bind (vigil.change own fun _ => ⟨rfl, id, rfl, List.suffix_refl _⟩) fun _ =>
      .bind (vigil.scene_remark _ _) fun _ => .pure fun _ held => held
  · exact .pure fun _ held => held

theorem determine : Secures calm ((Command.determine : Command η).execute ⟨host, fire, actor⟩ bound)
    fun _ => calm := by
  refine .any_queue_bind fun queue => .bind (vigil.update (.record _ _ _)) fun _ => ?_
  exact .bind (vigil.scene_remark _ _) fun _ =>
    .when (vigil.stop_own own host) (.pure fun _ held => held)

theorem inject : Secures calm ((Command.inject : Command η).execute ⟨host, fire, actor⟩ bound)
    fun _ => calm := by
  unfold Command.inject
  dsimp only
  refine .any_world_bind fun world => ?_
  split
  · exact .pure fun _ held => held
  · exact .bind (vigil.change own fun _ => ⟨rfl, id, rfl, List.suffix_cons _ _⟩) fun _ =>
      .bind (vigil.scene_remark _ _) fun _ => .pure fun _ held => held

theorem repeatBlock :
    Secures calm ((Command.repeatBlock : Command η).execute ⟨host, fire, actor⟩ bound)
      fun _ => calm := by
  unfold Command.repeatBlock
  dsimp only
  split
  · exact .pure fun _ held => held
  · exact .bind (vigil.change own fun _ => ⟨rfl, id, rfl, List.suffix_cons _ _⟩) fun _ =>
      .pure fun _ held => held

theorem stopCommand : Secures calm ((Command.stop : Command η).execute ⟨host, fire, actor⟩ bound)
    fun _ => calm :=
  .bind (vigil.stop_own own host) fun _ => .pure fun _ held => held

omit own in
theorem wait (delays : actor = ref → ∀ world, delaying world) :
    Secures calm ((Command.wait : Command η).execute ⟨host, fire, actor⟩ bound) fun _ => calm := by
  unfold Command.wait
  dsimp only
  split
  · exact .pure fun _ held => held
  · refine .each fun world held => .now_bind ?_
    exact .bind (vigil.delayFor _ held fun same => delays same _) fun _ =>
      .bind (vigil.scene_remark _ _) fun _ => .pure fun _ held => held

omit own in
theorem actOnQueue (target : QueueRef) :
    Secures (fun world => calm world ∧ (target = ref → licensed world.notes) ∧
        (target = ref → bound.SetsDelay → delaying world))
      (Command.actOnQueue ⟨host, fire, actor⟩ bound target) fun _ => calm := by
  have changes {change : Queue → Queue} (onward : ∀ queue : Queue, queue.Onward (change queue)) :
      Secures (fun world => calm world ∧ (target = ref → licensed world.notes) ∧
          (target = ref → bound.SetsDelay → delaying world)) (do
        RunM.modifyQueue target change
        return .ok () : RunM η (Except Fault Unit)) fun _ => calm :=
    .bind (.update fun _ held => vigil.modify onward held.2.1 held.1) fun _ =>
      .pure fun _ held => held
  unfold Command.actOnQueue
  split
  · exact changes fun _ => ⟨rfl, id, rfl, List.suffix_refl _⟩
  · exact changes fun _ => ⟨rfl, id, rfl, List.suffix_refl _⟩
  · refine .bind ((vigil.stop _ _).weaken ?_ fun _ _ held => held) fun _ => .pure fun _ held => held
    exact fun _ held => ⟨held.1, held.2.1⟩
  · exact changes fun _ => ⟨rfl, id, rfl, List.suffix_cons _ _⟩
  · rename_i action
    have sets : bound.SetsDelay := by
      unfold Invocation.objectD at action
      cases asked : bound.object? "action" with
      | none => simp [asked] at action
      | some text => simpa [Invocation.SetsDelay, asked] using action
    split
    · exact .pure fun _ held => held.1
    · refine .each fun world held => .now_bind (.bind ?_ fun _ => .pure fun _ held => held)
      exact vigil.delayFor _ held.1 fun same => held.2.2 same sets
  · exact .pure fun _ held => held.1

theorem queue (delays : actor = ref → ∀ world, delaying world) :
    Secures (fun world => calm world ∧ (bound.Targets ref world → licensed world.notes ∧
        (bound.SetsDelay → delaying world)))
    ((Command.queue : Command η).execute ⟨host, fire, actor⟩ bound) fun _ => calm := by
  unfold Command.queue
  dsimp only
  refine .each fun world held => .world_bind ?_
  split
  · exact .pure fun _ same => same ▸ held.1
  · rename_i target found
    have granted (same : target = ref) :
        licensed world.notes ∧ (bound.SetsDelay → delaying world) := by
      cases asked : bound.object? "target" with
      | none =>
          rw [asked] at found
          obtain rfl := Option.some.inj (Prod.mk.inj found).2
          exact ⟨own same _, fun _ => delays same _⟩
      | some id =>
          rw [asked] at found
          exact held.2 ⟨id, asked, same ▸ (Prod.mk.inj found).2⟩
    have acts : Secures (· = world) (Command.actOnQueue ⟨host, fire, actor⟩ bound target)
        fun _ => calm := by
      refine (vigil.actOnQueue bound target).weaken ?_ fun _ _ held => held
      rintro _ rfl
      exact ⟨held.1, fun same => (granted same).1, fun same => (granted same).2⟩
    refine .bind acts fun outcome => ?_
    split
    · exact .pure fun _ held => held
    · exact .any_queue_bind fun _ => .bind (vigil.scene_remark _ _) fun _ => .pure fun _ held => held

theorem run (fires : fire.Heeds ref calm licensed) :
    Secures (fun world => calm world ∧ (bound.Joins ref world → licensed world.notes))
      ((Command.run : Command η).execute ⟨host, fire, actor⟩ bound) fun _ => calm := by
  have awaits (target : QueueRef) :
      Secures (fun world => calm world ∧ (target = ref → licensed world.notes))
        (Command.awaitEnd actor target : RunM η Unit) fun _ => calm := by
    have jots : Secures (fun world => calm world ∧ (target = ref → licensed world.notes))
        (RunM.jot (.awaits actor target)) fun _ world =>
          calm world ∧ (target = ref → licensed world.notes) := by
      refine .update fun world held => ?_
      have apart : world.Apart ref (world.jot (.awaits actor target)) := .jot (by simp) world
      exact ⟨vigil.apart apart held.1, fun same => vigil.licensed_apart apart (held.2 same)⟩
    exact .bind jots fun _ => vigil.atEnd target _
  have holds : Secures (fun world => calm world ∧ (bound.Joins ref world → licensed world.notes))
      (RunM.modifyQueue actor Queue.hold) fun _ world =>
        calm world ∧ (bound.Joins ref world → licensed world.notes) :=
    .update fun world held => ⟨vigil.modify (fun _ => ⟨rfl, id, rfl, List.suffix_refl _⟩)
      (fun same => own same _) held.1, held.2⟩
  unfold Command.run
  dsimp only
  refine .when holds (.bind ((fires _).weaken ?_ fun _ _ held => held) fun answer => ?_)
  · exact fun world held => ⟨held.1, Invocation.granted held.2⟩
  · cases answer with
    | error error =>
        refine .weaken (.when (vigil.release_secures actor) (.pure fun _ held => held))
          (fun _ held => held.1) fun _ _ held => held
    | ok result =>
        have tells (name : String) : Secures calm (do
            (⟨host, fire, actor⟩ : Scene η).remark
              s!"Started '{name}' on queue '{result.queueId}'."
            return .ok (bound.setObject "created_queue" result.queueId) :
              RunM η (Except Fault Invocation)) fun _ => calm :=
          .bind (vigil.scene_remark _ _) fun _ => .pure fun _ held => held
        refine .ite (fun _ => .bind ((awaits result.queue).weaken ?_ fun _ _ held => held) fun _ =>
          tells _) fun _ => (tells _).weaken (fun _ held => held.1) fun _ _ held => held
        exact fun world held => ⟨held.1, held.2 result rfl⟩

theorem execute {free : Bool} (delays : actor = ref → ∀ world, delaying world)
    (regular : engine.Regular free) (fires : fire.Heeds ref calm licensed)
    {command : Command η} {entry : Entry} (binds : engine.Binds command entry bound) :
    Secures (fun world => calm world ∧ engine.Grants ref licensed delaying entry world)
      (command.execute ⟨engine.host, fire, actor⟩ bound) fun _ => calm := by
  have aside {act : RunM η (Except Fault Invocation)} (secures : Secures calm act fun _ => calm) :
      Secures (fun world => calm world ∧ engine.Grants ref licensed delaying entry world) act
        fun _ => calm := secures.weaken (fun _ held => held.1) fun _ _ held => held
  rcases regular.commands _ command binds.1 with known | harmless
  · simp only [Command.builtins, List.mem_cons, List.not_mem_nil, or_false] at known
    rcases known with rfl | rfl | rfl | rfl | rfl | rfl | rfl | rfl | rfl
    · exact aside (vigil.debug bound)
    · exact aside (vigil.define own bound)
    · exact aside (vigil.determine own bound)
    · exact aside (vigil.inject own bound)
    · refine (vigil.queue own bound delays).weaken (fun world held => ⟨held.1, fun targets => ?_⟩)
        fun _ _ held => held
      exact ⟨held.2.asks ⟨bound, .inl ⟨binds, targets⟩⟩,
        fun sets => held.2.delays ⟨bound, binds, targets, sets⟩⟩
    · exact aside (vigil.repeatBlock own bound)
    · refine (vigil.run own bound fires).weaken (fun world held => ⟨held.1, fun joins => ?_⟩)
        fun _ _ held => held
      exact held.2.asks ⟨bound, .inr ⟨binds, joins⟩⟩
    · exact aside (vigil.stopCommand own bound)
    · exact aside (vigil.wait bound delays)
  · obtain ⟨answer, aloof, same⟩ := harmless.execute engine.host actor bound
    rw [same]
    exact aside (vigil.updateGet fun world => .reported (aloof world).reported)

end

section

variable {free : Bool} (regular : engine.Regular free) {fire : Firing η}
  (fires : fire.Heeds ref calm licensed)

include fires

omit vigil in
theorem procedures (procedure : Tag.Procedure) :
    Secures calm (Engine.callProcedure fire procedure) fun _ => calm := by
  refine .bind ((fires _).weaken ?_ fun _ _ held => held) fun answer => .pure fun _ held => held.1
  exact fun world held => ⟨held, by simp [FireRequest.Granted]⟩

include regular

theorem fillEntry (actor : QueueRef) (entry : Entry) :
    Secures calm (engine.fillEntry fire actor entry) fun ready later => ∃ world, calm world ∧
      later = world.jot (.filled actor { ready.entry with arguments := ready.filled }) := by
  refine Engine.fillEntry_jots vigil.unreported regular.resolvers regular.attributes
    (fun _ => procedures fires) (fun _ world calls held => ?_) actor entry
  have apart : world.Apart ref { world with calls } := .of_same rfl rfl rfl rfl rfl
  exact vigil.apart apart held

theorem dispatch {actor : QueueRef}
    (own : actor = ref → ∀ notes, licensed notes) (delays : actor = ref → ∀ world, delaying world)
    (ready : Engine.FilledEntry) :
    Secures (fun world => calm world ∧ engine.Grants ref licensed delaying
        { ready.entry with arguments := ready.filled } world)
      (engine.dispatch fire actor ready (Engine.blocksOfFilled ready.filled)) fun _ => calm := by
  refine Engine.dispatch_secures (fun reported held => ?_) vigil.unreported (fun _ held => held.1) ready
    (fun _ bound binds => vigil.execute own bound delays regular fires binds) fun _ _ =>
      vigil.change own fun _ => ⟨rfl, id, rfl, List.suffix_refl _⟩
  exact ⟨vigil.unreported reported held.1, vigil.grants_apart (.reported reported) held.2⟩

theorem executeEntry {actor : QueueRef} (lax : actor = ref → Lax ref calm licensed delaying)
    (entry : Entry) : Secures calm (engine.executeEntry fire actor entry) fun _ => calm := by
  rw [Engine.executeEntry_eq]
  refine .bind (vigil.fillEntry regular fires actor entry) fun ready => ?_
  refine (vigil.dispatch regular fires (fun same => (lax same).licence)
    (fun same => (lax same).delays) ready).weaken ?_
    fun _ _ held => held
  rintro _ ⟨world, held, rfl⟩
  by_cases same : actor = ref
  · subst same
    exact ⟨(lax rfl).fills held, fun _ => (lax rfl).licence _, fun _ => (lax rfl).delays _⟩
  · have apart : world.Apart ref
        (world.jot (.filled actor { ready.entry with arguments := ready.filled })) :=
      .jot (by simp [same]) world
    exact ⟨vigil.apart apart held, vigil.noted same held⟩

/-! Queues are run. -/

variable {actor : QueueRef} (lax : actor = ref → Lax ref calm licensed delaying)

include lax

theorem executeTaken (entry : Entry) :
    Secures calm (engine.executeTaken fire actor entry) fun _ => calm := by
  have notes (deed : Deed) : Secures calm (RunM.modifyQueue actor (Queue.note deed)) fun _ => calm :=
    vigil.change (fun same => (lax same).licence) fun _ => ⟨rfl, id, rfl, List.suffix_cons _ _⟩
  exact .bind (notes _) fun _ => .bind (vigil.executeEntry regular fires lax entry) fun _ => notes _

theorem drain (budget : Nat) : Secures calm (engine.drain fire actor budget) fun _ => calm := by
  have own (same : actor = ref) := (lax same).licence
  exact Engine.drain_secures (fun _ _ entries held _ => vigil.takes own held entries)
    (vigil.executeTaken regular fires lax) (vigil.finishQueue own) (fun _ held => held) vigil.log
    (vigil.slows own) (vigil.ensureScheduled own) budget

theorem step : Secures calm (engine.step fire actor) fun _ => calm := by
  have own (same : actor = ref) := (lax same).licence
  exact Engine.step_secures (fun _ _ entries held _ => vigil.takes own held entries)
    (vigil.executeTaken regular fires lax) (vigil.finishQueue own) fun _ held => held

theorem revolve (budget : Nat) :
    Secures calm (engine.revolve fire budget actor) fun _ => calm :=
  .any_queue_bind fun _ => .ite (fun _ => .pure fun _ held => held) fun _ =>
    .ite (fun _ => vigil.drain regular fires lax budget) fun _ => vigil.step regular fires lax

theorem startQueue (budget : Nat) :
    Secures calm (engine.startQueue fire budget actor) fun _ => calm := by
  have own (same : actor = ref) := (lax same).licence
  refine .any_queue_bind fun _ => .ite (fun _ => .pure fun _ held => held) fun _ => ?_
  refine .bind (vigil.change own fun _ => ⟨rfl, fun _ => Phase.noConfusion, rfl,
    List.suffix_cons _ _⟩) fun _ => .bind (vigil.log _ _) fun _ => ?_
  refine .ite (fun _ => vigil.drain regular fires lax budget) fun _ => ?_
  exact .bind (vigil.step regular fires lax) fun _ => vigil.ensureScheduled own

end

def Found (ref : QueueRef) (licensed : List Note → Prop) (found : QueueRef × Bool) (world : World η) :
    Prop :=
  found.1 = ref → licensed world.notes ∧ (found.2 = true → ∀ notes, licensed notes)

theorem queueForFiring (script : Script) (options : FireOptions) :
    Secures (fun world => calm world ∧
        ∀ id ∈ options.id, world.liveQueue? id = some ref → licensed world.notes)
      (engine.queueForFiring script options) fun found world =>
        calm world ∧ Found ref licensed found world := by
  have finds (id : String) (kind : QueueKind) : Secures
      (fun world => calm world ∧ (world.liveQueue? id = some ref → licensed world.notes))
      (RunM.updateGet (World.queueOrCreate id kind)) fun found world =>
        calm world ∧ Found ref licensed found world := by
    refine .updateGet fun world held => ?_
    by_cases new : world.queues.size = ref.index
    · obtain ⟨calm, granted⟩ := vigil.create id kind new held.1
      exact ⟨calm, fun _ => ⟨granted _, fun _ => granted⟩⟩
    · refine ⟨vigil.apart (.queueOrCreate new id kind) held.1, fun same => ?_⟩
      unfold World.queueOrCreate at same ⊢
      split at same
      · rename_i found
        exact ⟨held.2 (found.trans (congrArg some same)), by simp⟩
      · exact absurd (congrArg QueueRef.index same) new
  unfold Engine.queueForFiring
  cases asked : options.id with
  | some id =>
      simp only [pure_bind]
      exact (finds id _).weaken (fun world held => ⟨held.1, held.2 id rfl⟩) fun _ _ held => held
  | none =>
      have names : Secures (fun world => calm world ∧ ∀ id ∈ (none : Option String),
            world.liveQueue? id = some ref → licensed world.notes)
          (RunM.updateGet (World.freshId (Text.lower script.name)))
          fun id world => calm world ∧ world.liveQueue? id = none := by
        refine .updateGet fun world held => ?_
        have apart : world.Apart ref (world.freshId (Text.lower script.name)).2 :=
          .of_same rfl rfl rfl rfl rfl
        exact ⟨vigil.apart apart held.1, World.liveQueue?_freshId _ world⟩
      refine .bind names fun id => (finds id _).weaken (fun world held => ?_) fun _ _ held => held
      exact ⟨held.1, fun found => by simp [held.2] at found⟩

section

variable {free : Bool} (regular : engine.Regular free)

include regular

theorem fireWith {fire : Firing η} (fires : fire.Heeds ref calm licensed) (budget : Nat)
    (starts : Secures calm (engine.startQueue fire budget ref) fun _ => calm) :
    (engine.fireWith fire budget).Heeds ref calm licensed := by
  intro request
  refine .each fun world held => .world_bind ?_
  split
  · exact .pure fun _ same => ⟨same ▸ held.1, fun _ failed => by cases failed⟩
  · rename_i script known
    have finds := (vigil.queueForFiring script request.options).weaken
      (fun later (same : later = world) => by
        subst same
        exact ⟨held.1, fun id asked live => held.2 id asked live ⟨script, known⟩⟩)
      fun _ _ held => held
    refine .bind finds fun found => .each fun world held => ?_
    obtain ⟨actor, created⟩ := found
    obtain ⟨held, granted⟩ := held
    let kept (later : World η) := calm later ∧ (actor = ref → licensed later.notes)
    have aside {β : Type} {change : World η → β × World η}
        (apart : ∀ world : World η, world.Apart ref (change world).2) :
        Secures kept (RunM.updateGet change) fun _ => kept :=
      .updateGet fun world held => ⟨vigil.apart (apart world) held.1,
        fun same => vigil.licensed_apart (apart world) (held.2 same)⟩
    have changes {change : World η → World η} (apart : ∀ world : World η, world.Apart ref (change world)) :
        Secures kept (RunM.update change) fun _ => kept :=
      .update fun world held => ⟨vigil.apart (apart world) held.1,
        fun same => vigil.licensed_apart (apart world) (held.2 same)⟩
    have logs (level : LogLevel) (text : String) :
        Secures kept (RunM.log level text) fun _ => kept :=
      changes fun _ => .of_same rfl rfl rfl rfl rfl
    have marks (fire : FireId) : Secures kept (RunM.update (World.markFired actor fire)) fun _ => kept :=
      changes fun _ => .of_same rfl rfl rfl rfl rfl
    have receives {change : Queue → Queue} (onward : ∀ queue : Queue, queue.Onward (change queue)) :
        Secures kept (RunM.modifyQueue actor change) fun _ => kept :=
      .update fun world held => ⟨vigil.modify onward held.2 held.1, held.2⟩
    have begins (isNew : created = true) : Secures kept (engine.startQueue fire budget actor)
        fun _ => kept := by
      by_cases same : actor = ref
      · refine Secures.weaken (same ▸ starts) (fun _ held => held.1) fun _ world held => ⟨held, ?_⟩
        exact fun _ => (granted same).2 isNew world.notes
      · exact (vigil.startQueue regular fires (fun own => absurd own same) budget).weaken
          (fun _ held => held.1) fun _ world held => ⟨held, fun own => absurd own same⟩
    have tells (queueId : String) (fire : FireId) : Secures kept (do
        return .ok ⟨actor, queueId, fire, ← Engine.outcomeOf actor fire⟩ :
          RunM η (Except FireError FireResult)) fun answer later => calm later ∧
        ∀ result, answer = .ok result → result.queue = ref → licensed later.notes := by
      rw [Engine.outcomeOf_eq]
      refine .bind (aside fun world => ?_) fun outcome => .pure fun later held => ⟨held.1, ?_⟩
      · obtain ⟨outcomes, same⟩ := world.conclude_eq actor fire
        rw [same]
        exact .of_same rfl rfl rfl rfl rfl
      · rintro _ ⟨⟩
        exact held.2
    refine .weaken ?_ (fun later (same : later = world) => (same ▸ ⟨held, fun own => (granted own).1⟩ :
      kept later)) fun _ _ held => held
    refine .bind (aside fun _ => .of_same rfl rfl rfl rfl rfl) fun fire =>
      .bind (marks fire) fun _ => .bind (receives fun queue => ?_) fun _ => ?_
    · obtain ⟨definitions, context, offMain, same⟩ :=
        Engine.equip_eq request.options (if created then { queue with fire } else queue)
      rw [same]
      cases created <;> exact ⟨rfl, id, rfl, List.suffix_cons _ _⟩
    · refine .any_queue_bind fun queue => .bind (logs _ _) fun _ => .ite (fun isNew => ?_) fun _ => ?_
      · exact .bind (begins isNew) fun _ => tells _ _
      · exact tells _ _

theorem fire (starts : ∀ budget : Nat, (engine.fire budget).Heeds ref calm licensed →
      Secures calm (engine.startQueue (engine.fire budget) budget ref) fun _ => calm) (budget : Nat) :
    (engine.fire budget).Heeds ref calm licensed := by
  induction budget with
  | zero => exact fun _ => .outOfBudget
  | succ budget ih => exact vigil.fireWith regular ih budget (starts budget ih)

theorem fire_lax (lax : Lax ref calm licensed delaying) (budget : Nat) :
    (engine.fire budget).Heeds ref calm licensed :=
  vigil.fire regular (fun budget heeds => vigil.startQueue regular heeds (fun _ => lax) budget) budget

theorem fire_launched (launched : ∀ world, calm world → (world.queue ref).phase ≠ .constructing)
    (budget : Nat) : (engine.fire budget).Heeds ref calm licensed := by
  refine vigil.fire regular (fun budget _ => ?_) budget
  refine .each fun world held => .queue_bind (.ite (fun _ => ?_) fun starts => ?_)
  · exact .pure fun _ same => same ▸ held
  · exact absurd (launched world held) (by simpa using starts)

theorem deliver (work : AsyncWork) : Secures calm (engine.deliver work) fun _ => calm := by
  unfold Engine.deliver
  rw [Engine.takeBack_eq regular]
  refine .when (vigil.update fun world => .jot (by simp) world) ?_
  rw [pure_bind]
  exact .when (vigil.release_secures _) (.pure fun _ held => held)

end

end Vigil

end

end TagScript
