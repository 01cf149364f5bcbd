import TagScript.Proofs.Engine.ExecutePassage
import TagScript.Proofs.Engine.Indistinct

/-! Two worlds side by side that differ in one queue, and in their schedulers. What an entry does is the
same in both: on any other queue, and on this one too, if its two states stay alike under what entries do
to their queues. -/

namespace TagScript

variable {η α β : Type}

open Tag.EvalM (Parallel)

inductive Queue.Ordinary : (Queue → Queue) → Prop
  | define (name value : String) : Ordinary (Queue.define name value)
  | save (name : String) (invocation : Invocation) : Ordinary (Queue.save name invocation)
  | splice (entries : List Entry) : Ordinary (Queue.injectEntries 0 entries)
  | close : Ordinary Queue.close
  | note (deed : Deed) : Ordinary (Queue.note deed)

def Scheduler.without (timer : Option TimerId) (scheduler : Scheduler QueueRef AsyncWork) :
    Scheduler QueueRef AsyncWork :=
  timer.elim scheduler fun id => scheduler.cancel id

/-- How two worlds are alike where they may differ, in a queue and in the scheduler, and what is known of
how many queues there are and of what was told. -/
structure Likeness where
  own : Queue → Queue → Prop
  timing : Scheduler QueueRef AsyncWork → Scheduler QueueRef AsyncWork → Prop
  known : Nat → List Note → Prop
  told : ∀ {size notes} note, known size notes → known size (note :: notes)

structure Likeness.Lawful (likeness : Likeness) : Prop where
  face : ∀ {queue other}, likeness.own queue other → queue.face = other.face
  release : ∀ {queue other}, likeness.own queue other → likeness.own queue.release other.release
  cancel : ∀ id {scheduler other}, likeness.timing scheduler other →
    likeness.timing (scheduler.cancel id) (other.cancel id)

structure Likeness.Pliant (likeness : Likeness) : Prop where
  change : ∀ {change}, Queue.Ordinary change → ∀ {queue other}, likeness.own queue other →
    likeness.own (change queue) (change other)
  halt : ∀ {queue other scheduler other'}, likeness.own queue other →
    likeness.timing scheduler other' →
    likeness.timing (scheduler.without queue.timer) (other'.without other.timer)

namespace World

def elsewhere (ref : QueueRef) (world : World η) : World η :=
  { world with
    queues := world.queues.modify ref.index fun _ => default
    scheduler := .empty
    events := []
    marks := [] }

structure Twinned (ref : QueueRef) (likeness : Likeness) (left right : World η) : Prop where
  made : ref.index < left.queues.size
  elsewhere : left.elsewhere ref = right.elsewhere ref
  own : likeness.own (left.queue ref) (right.queue ref)
  timing : likeness.timing left.scheduler right.scheduler
  known : likeness.known left.queues.size left.notes

def shut (ref : QueueRef) (timer : Option TimerId) (world : World η) : World η :=
  { world.modifyQueue ref Queue.close with scheduler := world.scheduler.without timer }

theorem elsewhere_modifyQueue (ref : QueueRef) (change : Queue → Queue) (world : World η) :
    (world.modifyQueue ref change).elsewhere ref = world.elsewhere ref := by
  have same := world.modifyQueue_modifyQueue ref change fun _ => default
  exact congrArg (fun later : World η =>
    { later with scheduler := .empty, events := [], marks := [] }) same

theorem elsewhere_modifyQueue_of_ne {ref other : QueueRef} (apart : other ≠ ref)
    (change : Queue → Queue) (world : World η) :
    (world.modifyQueue other change).elsewhere ref =
      (world.elsewhere ref).modifyQueue other change := by
  have different : other.index ≠ ref.index := fun same => apart (by cases ref; cases other; simp_all)
  have same : (world.queues.modify other.index change).modify ref.index (fun _ => default) =
      (world.queues.modify ref.index fun _ => default).modify other.index change := by
    apply Array.ext
    · simp
    · intro index _ _
      simp only [Array.getElem_modify]
      by_cases here : ref.index = index
      · subst here
        simp [different]
      · simp [here]
  simp only [elsewhere, modifyQueue, same]

theorem queue_elsewhere {ref other : QueueRef} (apart : other ≠ ref) (world : World η) :
    (world.elsewhere ref).queue other = world.queue other :=
  queue_modifyQueue_of_ne apart (fun _ => default) world

namespace Twinned

variable {ref : QueueRef} {likeness : Likeness} {left right : World η}

section

variable (twinned : left.Twinned ref likeness right)

include twinned

theorem size : left.queues.size = right.queues.size := by
  have same := congrArg (fun world : World η => world.queues.size) twinned.elsewhere
  simpa [World.elsewhere] using same

theorem madeToo : ref.index < right.queues.size := twinned.size ▸ twinned.made

theorem queue {other : QueueRef} (apart : other ≠ ref) : left.queue other = right.queue other := by
  rw [← queue_elsewhere apart left, twinned.elsewhere, queue_elsewhere apart right]

theorem sees {γ : Type} (part : World η → γ)
    (blind : ∀ world : World η, part (world.elsewhere ref) = part world) : part left = part right := by
  rw [← blind left, twinned.elsewhere, blind right]

theorem setting : left.setting = right.setting := twinned.sees _ fun _ => rfl

theorem notes : left.notes = right.notes := twinned.sees _ fun _ => rfl

theorem scripts : left.scripts = right.scripts := twinned.sees _ fun _ => rfl

theorem live : left.live = right.live := twinned.sees _ fun _ => rfl

theorem outcomes : left.outcomes = right.outcomes := twinned.sees _ fun _ => rfl

theorem emit (event : Event) : (left.emit event).Twinned ref likeness right ∧
    left.Twinned ref likeness (right.emit event) :=
  ⟨⟨twinned.made, twinned.elsewhere, twinned.own, twinned.timing, twinned.known⟩,
    ⟨twinned.made, twinned.elsewhere, twinned.own, twinned.timing, twinned.known⟩⟩

theorem emits (event : Event) : (left.emit event).Twinned ref likeness (right.emit event) :=
  (twinned.emit event).1.emit event |>.2

theorem jot (note : Note) : (left.jot note).Twinned ref likeness (right.jot note) where
  made := twinned.made
  elsewhere := congrArg (World.jot note) twinned.elsewhere
  own := twinned.own
  timing := twinned.timing
  known := likeness.told note twinned.known

theorem change {own : Queue → Queue → Prop} {first second : Queue → Queue}
    (alike : own (first (left.queue ref)) (second (right.queue ref))) :
    (left.modifyQueue ref first).Twinned ref { likeness with own }
      (right.modifyQueue ref second) where
  made := by simpa using twinned.made
  elsewhere := by
    rw [elsewhere_modifyQueue, elsewhere_modifyQueue]
    exact twinned.elsewhere
  own := by
    rw [queue_modifyQueue_self twinned.made, queue_modifyQueue_self twinned.madeToo]
    exact alike
  timing := twinned.timing
  known := by
    rw [size_modifyQueue]
    exact twinned.known

theorem changeElsewhere {other : QueueRef} (apart : other ≠ ref) (change : Queue → Queue) :
    (left.modifyQueue other change).Twinned ref likeness (right.modifyQueue other change) where
  made := by simpa using twinned.made
  elsewhere := by
    rw [elsewhere_modifyQueue_of_ne apart, elsewhere_modifyQueue_of_ne apart, twinned.elsewhere]
  own := by
    rw [queue_modifyQueue_of_ne (Ne.symm apart), queue_modifyQueue_of_ne (Ne.symm apart)]
    exact twinned.own
  timing := twinned.timing
  known := by
    rw [size_modifyQueue]
    exact twinned.known

theorem reschedule {timing : Scheduler QueueRef AsyncWork → Scheduler QueueRef AsyncWork → Prop}
    {scheduler other : Scheduler QueueRef AsyncWork} (alike : timing scheduler other) :
    Twinned ref { likeness with timing } { left with scheduler } { right with scheduler := other } :=
  ⟨twinned.made, twinned.elsewhere, twinned.own, alike, twinned.known⟩

theorem record (target : QueueRef) (fire : FireId) (value : String) :
    (left.record target fire value).Twinned ref likeness (right.record target fire value) := by
  obtain ⟨events, first⟩ := left.record_eq target fire value
  obtain ⟨events', second⟩ := right.record_eq target fire value
  have same := congrArg (fun world : World η =>
    { world with
      outcomes := (world.outcomes.record fire value).2
      notes := .determined fire value :: world.notes }) twinned.elsewhere
  rw [first, second]
  exact ⟨twinned.made, same, twinned.own, twinned.timing, likeness.told _ twinned.known⟩

end

variable (lawful : likeness.Lawful) (twinned : left.Twinned ref likeness right)

include lawful twinned

theorem face (other : QueueRef) : (left.queue other).face = (right.queue other).face := by
  by_cases here : other = ref
  · rw [here]
    exact lawful.face twinned.own
  · rw [twinned.queue here]

theorem reads {γ : Type} (part : Queue → γ) (blind : ∀ queue : Queue, part queue.face = part queue)
    (other : QueueRef) : part (left.queue other) = part (right.queue other) := by
  rw [← blind (left.queue other), twinned.face lawful, blind]

theorem release (other : QueueRef) :
    (left.modifyQueue other Queue.release).Twinned ref likeness
      (right.modifyQueue other Queue.release) := by
  by_cases here : other = ref
  · rw [here]
    exact twinned.change (lawful.release twinned.own)
  · exact twinned.changeElsewhere here _

omit lawful in
theorem modifyQueue {other : QueueRef} (pliant : other = ref → likeness.Pliant)
    {change : Queue → Queue} (ordinary : Queue.Ordinary change) :
    (left.modifyQueue other change).Twinned ref likeness (right.modifyQueue other change) := by
  by_cases here : other = ref
  · have change := (pliant here).change ordinary twinned.own
    rw [here]
    exact twinned.change change
  · exact twinned.changeElsewhere here change

theorem shut {other : QueueRef} (pliant : other = ref → likeness.Pliant) :
    (left.shut other (left.queue other).timer).Twinned ref likeness
      (right.shut other (right.queue other).timer) := by
  refine (twinned.modifyQueue pliant .close).reschedule ?_
  by_cases here : other = ref
  · have halt := (pliant here).halt twinned.own twinned.timing
    rw [here]
    exact halt
  · rw [twinned.queue here]
    cases (right.queue other).timer with
    | none => exact twinned.timing
    | some id => exact lawful.cancel id twinned.timing

theorem removeLive (other : QueueRef) :
    (left.removeLive other).1 = (right.removeLive other).1 ∧
      (left.removeLive other).2.Twinned ref likeness (right.removeLive other).2 := by
  have id := twinned.reads lawful Queue.id (fun _ => rfl) other
  unfold World.removeLive
  dsimp only
  rw [id, twinned.live]
  split
  · have same := congrArg (fun world : World η =>
      { world with live := right.live.erase (Text.lower (right.queue other).id) }) twinned.elsewhere
    exact ⟨rfl, twinned.made, same, twinned.own, twinned.timing, twinned.known⟩
  · exact ⟨rfl, twinned⟩

theorem checkHold (other : QueueRef) :
    (left.checkHold other).Twinned ref likeness (right.checkHold other) := by
  unfold World.checkHold
  rw [twinned.size, twinned.reads lawful Queue.holds (fun _ => rfl) other]
  split
  · exact twinned.jot _
  · exact twinned

end Twinned

end World

namespace Tag.EvalM.Parallel

variable {before after : World η → World η → Prop}

theorem here {act other : RunM η α} {left right : World η} (parallel : Parallel before act other after)
    (held : before left right) :
    Parallel (fun world world' => world = left ∧ world' = right) act other after :=
  parallel.weaken (fun _ _ same => same.1 ▸ same.2 ▸ held) fun _ _ kept => kept

theorem queue_bind {next following : Queue → RunM η α} {ref : QueueRef}
    (rest : ∀ left right, before left right →
      Parallel (fun world world' => world = left ∧ world' = right) (next (left.queue ref))
        (following (right.queue ref)) after) :
    Parallel before (RunM.queue ref >>= next) (RunM.queue ref >>= following) after := by
  unfold RunM.queue
  simp only [bind_assoc, pure_bind]
  exact world_bind rest

theorem updateGet {change other : World η → α × World η}
    (holds : ∀ left right, before left right →
      (change left).1 = (other right).1 ∧ after (change left).2 (other right).2) :
    Parallel before (RunM.updateGet change) (RunM.updateGet other) after :=
  fun left right paired => .some ⟨(holds _ _ paired.world).1,
    paired.with_world (holds left.world right.world paired.world).2⟩

theorem forM_option {each following : α → RunM η PUnit} {related : World η → World η → Prop}
    (keeps : ∀ item, Parallel related (each item) (following item) related) (item : Option α) :
    Parallel related (item.forM each) (item.forM following) related := by
  cases item with
  | none => exact done _
  | some found => exact keeps found

end Tag.EvalM.Parallel

section

variable {ref : QueueRef} {likeness : Likeness}

abbrev RunM.Twins (ref : QueueRef) (likeness : Likeness) (act : RunM η α) : Prop :=
  Parallel (World.Twinned ref likeness) act act (World.Twinned ref likeness)

theorem RunM.emit_twins (event : Event) : RunM.Twins ref likeness (RunM.emit event : RunM η Unit) :=
  .modifyWorld fun _ _ twinned => twinned.emits event

theorem Host.message_twins (host : Host) (queue : Option String) (text : String) :
    RunM.Twins ref likeness (host.message queue text : RunM η Unit) :=
  .modifyWorld fun _ _ twinned => (twinned.emits _).jot _

theorem Host.error_twins (host : Host) (queue : Option String) (text : String) :
    RunM.Twins ref likeness (host.error queue text : RunM η Unit) :=
  .modifyWorld fun _ _ twinned => (twinned.emits _).jot _

theorem Host.remark_twins (host : Host) (queue text : String) :
    RunM.Twins ref likeness (host.remark queue text : RunM η Unit) :=
  .ite (fun _ => host.message_twins _ _) fun _ => .done _

theorem RunM.modifyQueue_twins {target : QueueRef} (pliant : target = ref → likeness.Pliant)
    {change : Queue → Queue} (ordinary : Queue.Ordinary change) :
    RunM.Twins ref likeness (RunM.modifyQueue target change : RunM η Unit) :=
  .modifyWorld fun _ _ twinned => twinned.modifyQueue pliant ordinary

variable (lawful : likeness.Lawful)

include lawful

theorem RunM.queue_bind_twins {target : QueueRef} {next following : Queue → RunM η α}
    (blind : ∀ queue, next queue = next queue.face)
    (rest : ∀ queue, Parallel (World.Twinned ref likeness) (next queue) (following queue)
      (World.Twinned ref likeness)) :
    Parallel (World.Twinned ref likeness) (RunM.queue target >>= next)
      (RunM.queue target >>= following) (World.Twinned ref likeness) := by
  refine .queue_bind fun left right twinned => ?_
  rw [blind (left.queue target), twinned.face lawful, ← blind]
  exact (rest _).here twinned

namespace Queue

theorem carryOut_twins (action : StopAction) :
    RunM.Twins ref likeness (carryOut action : RunM η Unit) := by
  cases action with
  | release queue =>
      exact .bind (.modifyWorld fun _ _ twinned => twinned.checkHold lawful queue) fun _ =>
        .modifyWorld fun _ _ twinned => twinned.release lawful queue
  | notify label => exact RunM.emit_twins _

theorem stop_twins (host : Host) {target : QueueRef} (pliant : target = ref → likeness.Pliant) :
    RunM.Twins ref likeness (stop host target : RunM η Unit) := by
  have shut (timer : Option TimerId) (rest : RunM η Unit) : (do
      RunM.modifyQueue target Queue.close
      timer.forM cancelTimer
      rest) = RunM.update (World.shut target timer) >>= fun _ => rest := by
    cases timer <;> rfl
  refine .queue_bind fun left right twinned => ?_
  simp only [shut, twinned.reads lawful Queue.isStopped (fun _ => rfl) target,
    twinned.reads lawful Queue.id (fun _ => rfl) target,
    twinned.reads lawful Queue.onStop (fun _ => rfl) target]
  refine .ite (fun _ => .pure fun _ _ same => same.1 ▸ same.2 ▸ twinned) fun _ => ?_
  have closes : Parallel (fun world world' => world = left ∧ world' = right)
      (RunM.update (World.shut target (left.queue target).timer))
      (RunM.update (World.shut target (right.queue target).timer)) (World.Twinned ref likeness) :=
    .modifyWorld fun world world' same => by
      obtain ⟨rfl, rfl⟩ := same
      exact twinned.shut lawful pliant
  refine .bind closes fun _ => .bind (.updateGet fun _ _ shut => shut.removeLive lawful target) ?_
  exact fun _ => .bind (host.remark_twins _ _) fun _ => .forM (carryOut_twins lawful) _

end Queue

theorem Scene.remark_twins (host : Host) (fire fire' : Firing η) (target : QueueRef)
    (text : String) :
    Parallel (World.Twinned ref likeness) ((⟨host, fire, target⟩ : Scene η).remark text)
      ((⟨host, fire', target⟩ : Scene η).remark text) (World.Twinned ref likeness) := by
  unfold Scene.remark Scene.queueId
  simp only [bind_assoc, pure_bind]
  exact RunM.queue_bind_twins lawful (fun _ => rfl) fun _ => host.remark_twins _ _

/-! The commands that leave other queues than their own alone. -/

def Command.Twins (ref : QueueRef) (likeness : Likeness) (target : QueueRef) (command : Command η) :
    Prop :=
  ∀ host fire fire' invocation,
    Parallel (World.Twinned ref likeness) (command.execute ⟨host, fire, target⟩ invocation)
      (command.execute ⟨host, fire', target⟩ invocation) (World.Twinned ref likeness)

namespace Command

theorem debug_twins (target : QueueRef) : (debug : Command η).Twins ref likeness target := by
  intro host fire fire' invocation
  unfold debug Scene.queueId
  simp only [bind_assoc, pure_bind]
  refine RunM.queue_bind_twins lawful (fun _ => rfl) fun _ => ?_
  exact .ite (fun _ => .bind (host.error_twins _ _) fun _ => .done _) fun _ =>
    .bind (host.message_twins _ _) fun _ => .done _

variable {target : QueueRef} (pliant : target = ref → likeness.Pliant)

include pliant

theorem define_twins : (define : Command η).Twins ref likeness target := by
  intro host fire fire' invocation
  unfold define
  dsimp only
  split
  · exact .bind (RunM.modifyQueue_twins pliant (.define _ _)) fun _ =>
      .bind (Scene.remark_twins lawful host fire fire' target _) fun _ => .done _
  · exact .done _

theorem determine_twins : (determine : Command η).Twins ref likeness target := by
  intro host fire fire' invocation
  unfold determine
  dsimp only
  refine RunM.queue_bind_twins lawful (fun _ => rfl) fun queue => ?_
  refine .bind (.modifyWorld fun _ _ twinned => twinned.record target _ _) fun _ => ?_
  exact .bind (Scene.remark_twins lawful host fire fire' target _) fun _ =>
    .when (Queue.stop_twins lawful host pliant) (.done _)

theorem inject_twins : (inject : Command η).Twins ref likeness target := by
  intro host fire fire' invocation
  unfold inject
  dsimp only
  refine .any_world_bind fun left right twinned => ?_
  have same (name : String) : left.script? name = right.script? name := by
    rw [World.script?, World.script?, twinned.scripts]
  rw [same]
  split
  · exact .done _
  · exact .bind (RunM.modifyQueue_twins pliant (.splice _)) fun _ =>
      .bind (Scene.remark_twins lawful host fire fire' target _) fun _ => .done _

omit lawful in
theorem repeatBlock_twins : (repeatBlock : Command η).Twins ref likeness target := by
  intro host fire fire' invocation
  unfold repeatBlock
  dsimp only
  split
  · exact .done _
  · exact .bind (RunM.modifyQueue_twins pliant (.splice _)) fun _ => .done _

theorem stop_twins : (stop : Command η).Twins ref likeness target :=
  fun host _ _ _ => .bind (Queue.stop_twins lawful host pliant) fun _ => .done _

end Command

/-! Executing an entry. -/

namespace Engine

variable {engine : Engine η} {fire fire' : Firing η}

omit lawful in
theorem offer_twins (entry : Entry) (arguments : Arguments) :
    RunM.Twins ref likeness (arguments.offer (engine.offerToHost entry)) := by
  refine .bind ?_ fun _ => .done _
  have offered (word value : String) : RunM.Twins ref likeness (engine.offerToHost entry word value) :=
    .when (RunM.emit_twins _) (.done _)
  induction arguments.positional with
  | nil => exact .done _
  | cons argument rest ih =>
      unfold Arguments.unclaimed
      split
      · exact .bind ih fun _ => .done _
      · exact .bind (offered _ _) fun _ => .bind ih fun _ => .done _

variable {target : QueueRef} (pliant : target = ref → likeness.Pliant)

include pliant

omit lawful in
theorem runCommand_twins {command : Command η} (twins : command.Twins ref likeness target)
    (invocation : Invocation) (arguments : Arguments)
    (saveName : Option String) :
    Parallel (World.Twinned ref likeness)
      (engine.runCommand fire target command invocation arguments saveName)
      (engine.runCommand fire' target command invocation arguments saveName)
      (World.Twinned ref likeness) := by
  unfold runCommand
  dsimp only
  split
  · exact .bind (engine.host.error_twins _ _) fun _ => .done _
  · refine .when (RunM.emit_twins _) (.bind (twins _ _ _ _) fun outcome => ?_)
    cases outcome with
    | error fault => exact .bind (engine.host.error_twins _ _) fun _ => .done _
    | ok finished =>
        exact .bind (.forM_option (fun name => RunM.modifyQueue_twins pliant (.save name _)) _)
          fun _ => .done _

omit lawful in
theorem invoke_twins {command : Command η} (twins : command.Twins ref likeness target)
    (invocation : Invocation) :
    Parallel (World.Twinned ref likeness) (engine.invoke fire target command invocation)
      (engine.invoke fire' target command invocation) (World.Twinned ref likeness) := by
  unfold invoke
  dsimp only
  refine .bind (offer_twins _ _) fun arguments => .ite (fun _ => ?_) fun _ => ?_
  · exact .bind (engine.host.error_twins _ _) fun _ => .done _
  · exact .when (RunM.emit_twins _) (runCommand_twins pliant twins _ _ _)

omit lawful in
theorem dispatch_twins (ready : FilledEntry) (blocks : Except BlockError (List Block))
    (twins : ∀ command ∈ engine.commands.find? ready.entry.command,
      command.Twins ref likeness target) :
    Parallel (World.Twinned ref likeness) (engine.dispatch fire target ready blocks)
      (engine.dispatch fire' target ready blocks) (World.Twinned ref likeness) := by
  unfold dispatch
  split
  · exact .bind (engine.host.error_twins _ _) fun _ => .done _
  · rename_i command found
    split
    · exact .bind (engine.host.error_twins _ _) fun _ => .done _
    · exact invoke_twins pliant (twins command found) _

end Engine

end

namespace Engine

variable {related : World η → World η → Prop} {hidden : Tag.Lookup → Bool} {host : Host}
  {fire fire' : Firing η} (indistinct : ∀ context, Indistinct related hidden context)

include indistinct

theorem substituteDefinitions_parallel (engine : Engine η) {queue other : Queue}
    (same : queue.face = other.face) (entry : Entry) :
    Parallel related (engine.substituteDefinitions queue entry)
      (engine.substituteDefinitions other entry) related := by
  have faces (queue : Queue) : engine.substituteDefinitions queue entry =
      engine.substituteDefinitions queue.face entry := rfl
  have reported (queue : Option String) (text : String) : Parallel related
      (engine.host.error queue text : RunM η Unit) (engine.host.error queue text) related :=
    .modifyWorld fun _ _ held => (indistinct {}).report engine.host _ _ held
  have substituted (template : Template) : Parallel related
      (engine.substituteArgument other entry template)
      (engine.substituteArgument other entry template) related :=
    .ite (fun _ => .done _) fun _ => .bind (.forM (fun _ => reported _ _) _) fun _ => .done _
  rw [faces queue, same, ← faces]
  exact .ite (fun _ => .done _) fun _ => .bind (.mapM substituted _) fun _ => .done _

theorem context_parallel (engine : Engine η) (target : QueueRef) (entry : Entry) :
    Parallel related (engine.context (some target) (some entry))
      (engine.context (some target) (some entry)) related := by
  refine .any_world_bind fun left right held => ?_
  have id : (left.queue target).face.id = (right.queue target).face.id := by
    rw [(indistinct {}).face held]
  have id : (left.queue target).id = (right.queue target).id := id
  simp only [Option.map_some, id]
  exact .done _

theorem fillEntry_parallel
    (calls : CallsMatch related hidden (callProcedure fire) (callProcedure fire'))
    (target : QueueRef) (entry : Entry) :
    Parallel related (((builtin host).withoutTags hidden).fillEntry fire target entry)
      (((builtin host).withoutTags hidden).fillEntry fire' target entry) related := by
  have fills (context : Tag.Context) (words : List String) : Parallel related
      (Tag.underToken false (Tag.fillArguments
        (((builtin host).withoutTags hidden).vocabulary fire) context words))
      (Tag.underToken false (Tag.fillArguments
        (((builtin host).withoutTags hidden).vocabulary fire') context words)) related :=
    Tag.underToken_parallel (Tag.fillArgumentsFrom_parallel
      (builtin_matching (indistinct context) host calls fire) 0 words) false
  refine .queue_bind fun left right held => ?_
  have face := (indistinct {}).face held target
  have id : (left.queue target).face.id = (right.queue target).face.id := by rw [face]
  have id : (left.queue target).id = (right.queue target).id := id
  rw [id]
  refine .here (.when (.modifyWorld fun _ _ held => ?_) ?_) held
  · exact ((indistinct {}).emit _ ((indistinct {}).emit _ held).1).2
  · refine .bind (substituteDefinitions_parallel indistinct _ face entry) fun substituted => ?_
    refine .bind (context_parallel indistinct _ target substituted) fun context => ?_
    exact .bind (fills context _) fun filled =>
      .bind (.modifyWorld fun _ _ held => (indistinct {}).jot _ held) fun _ => .done _

end Engine

end TagScript
