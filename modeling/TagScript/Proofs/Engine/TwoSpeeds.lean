import TagScript.Proofs.Engine.Termination
import TagScript.Proofs.Engine.Twin
import TagScript.Proofs.Queue.Holds

/-! A queue alone in its world, at two speeds. Entries do the same in both worlds, whatever time it is
there, and leave the queues alike but for their speeds, their delays and their timers. -/

namespace TagScript

variable {η α : Type}

open Tag (Lookup)
open Tag.EvalM (Parallel)

namespace Tag.Lookup

def asksFor (property : String) (lookup : Lookup) : Bool :=
  lookup.keyIs 0 "queue" && lookup.keyIs 1 property

/-- A tag that calls a procedure or tells the speed of a queue. Where no clock is within reach of tags,
the state of a queue tells of its delays too. -/
def tellsPace (lookup : Lookup) : Bool :=
  lookup.isProcedure || lookup.asksFor "speed" ||
    (lookup.asksFor "state" && !lookup.context.attached)

end Tag.Lookup

def Queue.unpaced (queue : Queue) : Queue :=
  { queue with kind := .instant, delayUntil := none, timer := none }

namespace Queue

theorem reads_unpaced {γ : Type} (part : Queue → γ)
    (blind : ∀ queue : Queue, part queue.unpaced = part queue) {queue other : Queue}
    (same : queue.unpaced = other.unpaced) : part queue = part other := by
  rw [← blind queue, same, blind]

theorem unpaced_ordinary {change : Queue → Queue} (ordinary : Ordinary change) (queue : Queue) :
    (change queue).unpaced = (change queue.unpaced).unpaced := by
  cases ordinary <;> rfl

end Queue

namespace Likeness

def pacing (told : List Note) : Likeness where
  own := fun queue other => queue.unpaced = other.unpaced
  timing := fun scheduler other => scheduler.works = [] ∧ other.works = []
  known := fun size notes => size = 1 ∧ told <:+ notes
  told := fun _ known => ⟨known.1, known.2.trans (List.suffix_cons _ _)⟩

def ready (told : List Note) (now now' : Duration) : Likeness :=
  { pacing told with
    own := fun queue other => queue.unpaced = other.unpaced ∧ queue.isDelayed now = false ∧
      other.isDelayed now' = false
    timing := fun scheduler other => (scheduler.works = [] ∧ other.works = []) ∧
      scheduler.time = now ∧ other.time = now' }

theorem pacing_lawful (told : List Note) : (pacing told).Lawful where
  face := fun {_ _} same => Queue.reads_unpaced Queue.face (fun _ => rfl) same
  release := fun {_ _} same =>
    Queue.reads_unpaced (fun queue => queue.release.unpaced) (fun _ => rfl) same
  cancel := fun _ {_ _} idle => idle

theorem pacing_pliant (told : List Note) : (pacing told).Pliant where
  change := fun {change} ordinary {_ _} same =>
    Queue.reads_unpaced (fun queue => (change queue).unpaced)
      (fun queue => (Queue.unpaced_ordinary ordinary queue).symm) same
  halt := fun {queue other scheduler other'} _ idle => by
    have kept (timer : Option TimerId) (scheduler : Scheduler QueueRef AsyncWork) :
        (scheduler.without timer).works = scheduler.works := by
      cases timer <;> rfl
    exact ⟨(kept _ _).trans idle.1, (kept _ _).trans idle.2⟩

end Likeness

open Likeness (pacing ready pacing_lawful pacing_pliant)

/-! What tags see of such a queue. -/

theorem Vocabulary.queueProperty?_paced {queue other : Queue} (same : queue.unpaced = other.unpaced)
    {now now' : Duration} {property : String} (speed : Text.sameWord property "speed" = false)
    (state : Text.sameWord property "state" = true → queue.stateText now = other.stateText now') :
    queueProperty? now queue property = queueProperty? now' other property := by
  have id := Queue.reads_unpaced Queue.id (fun _ => rfl) same
  have entries := Queue.reads_unpaced Queue.entries (fun _ => rfl) same
  have names := Queue.reads_unpaced Queue.definitionNames (fun _ => rfl) same
  unfold queueProperty?
  split
  · rw [id]
  · rw [entries]
  · rename_i asked
    simp [Text.sameWord, asked, show Text.asciiLower "speed" = "speed" by decide] at speed
  · rename_i asked
    rw [state (by simp [Text.sameWord, asked, show Text.asciiLower "state" = "state" by decide])]
  · rw [names]
  · rfl

theorem Queue.stateText_paced {queue other : Queue} (same : queue.unpaced = other.unpaced)
    {now now' : Duration} (free : queue.isDelayed now = false) (free' : other.isDelayed now' = false) :
    queue.stateText now = other.stateText now' := by
  unfold stateText
  rw [reads_unpaced Queue.phase (fun _ => rfl) same, reads_unpaced Queue.paused (fun _ => rfl) same,
    free, free']

namespace World.Twinned

variable {ref : QueueRef} {told : List Note} {left right : World η}

theorem alone {likeness : Likeness} (twinned : left.Twinned ref likeness right)
    (single : left.queues.size = 1) {target : QueueRef} (apart : target ≠ ref) :
    left.queues.size ≤ target.index := by
  have made := twinned.made
  have different : target.index ≠ ref.index := fun same => apart (by cases target; cases ref; simp_all)
  omega

end World.Twinned

theorem ready_indistinct (ref : QueueRef) (told : List Note) (now now' : Duration)
    (context : Tag.Context) :
    Indistinct (World.Twinned (η := η) ref (ready told now now')) Lookup.tellsPace context where
  face := fun twinned target => by
    by_cases here : target = ref
    · rw [here]
      exact (pacing_lawful told).face twinned.own.1
    · rw [twinned.queue here]
  setting := fun twinned => twinned.setting
  emit := fun event twinned => twinned.emit event
  jot := fun note twinned => twinned.jot note
  property := fun {left right sooner later} twinned following lookup here shown asks target => by
    cases named : lookup.key? 1 with
    | none => rfl
    | some property =>
        have keyIs (word : String) : lookup.keyIs 1 word = Text.sameWord property word := by
          simp [Lookup.keyIs, named]
        simp only [Lookup.tellsPace, Lookup.asksFor, asks, Bool.true_and, keyIs, Bool.or_eq_false_iff,
          Bool.and_eq_false_iff, Bool.not_eq_false'] at shown
        obtain ⟨⟨_, speed⟩, state⟩ := shown
        rw [Option.bind_some, Option.bind_some]
        by_cases own : target = ref
        · subst own
          refine Vocabulary.queueProperty?_paced twinned.own.1 speed fun asked => ?_
          have attached : context.attached = true := by
            rcases state with other | attached
            · rw [asked] at other
              cases other
            · rwa [here] at attached
          have clocks : clock context sooner = now ∧ clock context later = now' := by
            simp only [clock, attached, ↓reduceIte]
            exact following.timing.2
          rw [clocks.1, clocks.2]
          exact Queue.stateText_paced twinned.own.1 twinned.own.2.1 twinned.own.2.2
        · have missing := twinned.alone twinned.known.1 own
          rw [World.queue_of_size_le missing, World.queue_of_size_le (twinned.size ▸ missing)]
          exact Vocabulary.queueProperty?_paced rfl speed fun _ => rfl

/-! The commands that change the pace of a queue. -/

namespace Queue

def Alongside (change other : Queue → Queue) : Prop :=
  ∀ queue queue' : Queue, queue.unpaced = queue'.unpaced →
    (change queue).unpaced = (other queue').unpaced

end Queue

section

variable {ref : QueueRef} {told : List Note}

theorem World.Twinned.paced {left right : World η} (twinned : left.Twinned ref (pacing told) right)
    (target : QueueRef) {change other : Queue → Queue} (alongside : Queue.Alongside change other) :
    (left.modifyQueue target change).Twinned ref (pacing told) (right.modifyQueue target other) := by
  by_cases own : target = ref
  · subst own
    exact twinned.change (alongside _ _ twinned.own)
  · have missing := twinned.alone twinned.known.1 own
    rw [World.modifyQueue_of_size_le missing, World.modifyQueue_of_size_le (twinned.size ▸ missing)]
    exact twinned

theorem RunM.modifyQueue_paced (target : QueueRef) {change : Queue → Queue}
    (alongside : Queue.Alongside change change) :
    RunM.Twins ref (pacing told) (RunM.modifyQueue target change : RunM η Unit) :=
  .modifyWorld fun _ _ twinned => twinned.paced target alongside

namespace Command

theorem delay_twins (target : QueueRef) (duration : Duration) :
    RunM.Twins ref (pacing told) (do
      RunM.modifyQueue target (Queue.delayFor duration (← RunM.now)) : RunM η Unit) :=
  fun _ _ paired => .some ⟨rfl, paired.with_world
    (paired.world.paced target fun _ _ same => Queue.reads_unpaced Queue.unpaced (fun _ => rfl) same)⟩

theorem delay_bind (target : QueueRef) (duration : Duration) {next following : Unit → RunM η α}
    (rest : ∀ done, Parallel (World.Twinned ref (pacing told)) (next done) (following done)
      (World.Twinned ref (pacing told))) :
    Parallel (World.Twinned ref (pacing told))
      (RunM.now >>= fun now => RunM.modifyQueue target (Queue.delayFor duration now) >>= next)
      (RunM.now >>= fun now => RunM.modifyQueue target (Queue.delayFor duration now) >>= following)
      (World.Twinned ref (pacing told)) := by
  have whole := Parallel.bind (delay_twins target duration) rest
  simpa only [bind_assoc] using whole

theorem wait_twins (target : QueueRef) : (wait : Command η).Twins ref (pacing told) target := by
  intro host fire fire' invocation
  unfold wait
  dsimp only
  split
  · exact .done _
  · exact delay_bind target _ fun _ =>
      .bind (Scene.remark_twins (pacing_lawful told) host fire fire' target _) fun _ => .done _

theorem actOnQueue_twins (host : Host) (fire fire' : Firing η) (scene invocation : _)
    (target : QueueRef) :
    Parallel (World.Twinned ref (pacing told)) (actOnQueue ⟨host, fire, scene⟩ invocation target)
      (actOnQueue ⟨host, fire', scene⟩ invocation target) (World.Twinned ref (pacing told)) := by
  unfold actOnQueue
  split
  · exact .bind (RunM.modifyQueue_paced target fun _ _ same =>
      Queue.reads_unpaced (fun queue => (queue.setPaused true).unpaced) (fun _ => rfl) same)
      fun _ => .done _
  · exact .bind (RunM.modifyQueue_paced target fun _ _ same =>
      Queue.reads_unpaced (fun queue => (queue.setPaused false).unpaced) (fun _ => rfl) same)
      fun _ => .done _
  · exact .bind (Queue.stop_twins (pacing_lawful told) host fun _ => pacing_pliant told) fun _ =>
      .done _
  · exact .bind (RunM.modifyQueue_paced target fun _ _ same =>
      Queue.reads_unpaced (fun queue => queue.clearEntries.unpaced) (fun _ => rfl) same)
      fun _ => .done _
  · split
    · exact .done _
    · exact delay_bind target _ fun _ => .done _
  · exact .done _

theorem queue_twins (target : QueueRef) : (queue : Command η).Twins ref (pacing told) target := by
  intro host fire fire' invocation
  unfold queue
  dsimp only
  refine .any_world_bind fun left right twinned => ?_
  have live (id : String) : left.liveQueue? id = right.liveQueue? id := by
    rw [World.liveQueue?, World.liveQueue?, twinned.live]
  simp only [live]
  split
  · exact .done _
  · refine .bind (actOnQueue_twins host fire fire' target invocation _) fun outcome => ?_
    cases outcome with
    | error fault => exact .done _
    | ok _ =>
        refine RunM.queue_bind_twins (pacing_lawful told) (fun _ => rfl) fun _ => ?_
        exact .bind (Scene.remark_twins (pacing_lawful told) host fire fire' target _) fun _ =>
          .done _

end Command

theorem Command.builtins_twin {command : Command η} (known : command ∈ Command.builtins)
    (other : command ≠ Command.run) (target : QueueRef) :
    command.Twins ref (pacing told) target := by
  have lawful := pacing_lawful told
  have pliant := pacing_pliant told
  simp only [Command.builtins, List.mem_cons, List.not_mem_nil, or_false] at known
  rcases known with rfl | rfl | rfl | rfl | rfl | rfl | rfl | rfl | rfl
  · exact Command.debug_twins lawful target
  · exact Command.define_twins lawful fun _ => pliant
  · exact Command.determine_twins lawful fun _ => pliant
  · exact Command.inject_twins lawful fun _ => pliant
  · exact Command.queue_twins target
  · exact Command.repeatBlock_twins fun _ => pliant
  · exact absurd rfl other
  · exact Command.stop_twins lawful fun _ => pliant
  · exact Command.wait_twins target

namespace Engine

abbrev paceless (host : Host) : Engine η := (builtin host).withoutTags Lookup.tellsPace

variable {host : Host} {fire fire' : Firing η}

theorem executeEntry_paced {entry : Entry}
    (runs : (paceless host : Engine η).commands.find? entry.command ≠ some Command.run)
    (now now' : Duration) :
    Parallel (World.Twinned ref (ready told now now'))
      ((paceless host).executeEntry fire ref entry) ((paceless host).executeEntry fire' ref entry)
      (World.Twinned ref (pacing told)) := by
  have calls : CallsMatch (World.Twinned ref (ready told now now')) Lookup.tellsPace
      (callProcedure fire) (callProcedure fire') :=
    .inl fun lookup calls => by simp [Lookup.tellsPace, calls]
  rw [executeEntry_eq, executeEntry_eq]
  refine .bind_knowing (fillEntry_parallel (ready_indistinct ref told now now') calls ref entry)
    (fillEntry_filled _ _ _ _) fun filled known => ?_
  obtain ⟨⟨arguments, same⟩, _⟩ := known
  refine (dispatch_twins (fun _ => pacing_pliant told) filled _ fun command found => ?_).weaken
    (fun _ _ twinned => ⟨twinned.made, twinned.elsewhere, twinned.own.1, twinned.timing.1,
      twinned.known⟩) fun _ _ kept => kept
  rw [same] at found
  refine Command.builtins_twin ((builtin_standard host).commands _ command found) ?_ ref
  rintro rfl
  exact runs found

end Engine

end

/-! What a queue does next as soon as nothing keeps it from going on. -/

namespace World

structure Ready (ref : QueueRef) (world : World η) : Prop where
  runs : (world.queue ref).isStopped = false
  free : (world.queue ref).isBlocked world.now = false

theorem Ready.undelayed {ref : QueueRef} {world : World η} (ready : world.Ready ref) :
    (world.queue ref).isDelayed world.now = false := by
  have free := ready.free
  simp only [Queue.isBlocked, Bool.or_eq_false_iff] at free
  exact free.1.2

end World

namespace Engine

def advance (engine : Engine η) (fire : Firing η) (ref : QueueRef) : RunM η Unit := do
  let queue ← RunM.queue ref
  match queue.entries with
  | [] => engine.finishQueue ref
  | entry :: entries =>
    RunM.modifyQueue ref fun _ => { queue with entries }
    engine.executeTaken fire ref entry

variable {host : Host} {library : Script → Prop} {ref : QueueRef} {told : List Note}

theorem advance_paced (fire fire' : Firing η) :
    Parallel (fun left right => left.Twinned ref (pacing told) right ∧ left.Ready ref ∧
        right.Ready ref ∧ (paceless host : Engine η).Tame library left)
      ((paceless host).advance fire ref) ((paceless host).advance fire' ref)
      (World.Twinned ref (pacing told)) := by
  have pliant : ref = ref → (pacing told).Pliant := fun _ => pacing_pliant told
  refine .queue_bind fun left right held => ?_
  obtain ⟨twinned, here, there, tame⟩ := held
  have same : (left.queue ref).entries = (right.queue ref).entries :=
    Queue.reads_unpaced Queue.entries (fun _ => rfl) twinned.own
  rw [← same]
  cases waiting : (left.queue ref).entries with
  | nil =>
      have finishes : RunM.Twins ref (pacing told) ((paceless host : Engine η).finishQueue ref) :=
        .bind (RunM.modifyQueue_twins pliant (.note .ranDry)) fun _ =>
          Queue.stop_twins (pacing_lawful told) host pliant
      exact finishes.here twinned
  | cons entry entries =>
      obtain ⟨runs, _⟩ := tame.waiting ref entry (by simp [waiting])
      let own := (ready told left.now right.now).own
      have changed : (left.modifyQueue ref fun _ => { left.queue ref with entries }).Twinned ref
          { pacing told with own } (right.modifyQueue ref fun _ => { right.queue ref with entries }) :=
        twinned.change ⟨Queue.reads_unpaced (fun queue => { queue with entries }.unpaced)
          (fun _ => rfl) twinned.own, here.undelayed, there.undelayed⟩
      have starts : Parallel (fun world world' => world = left ∧ world' = right)
          (RunM.modifyQueue ref fun _ => { left.queue ref with entries } : RunM η Unit)
          (RunM.modifyQueue ref fun _ => { right.queue ref with entries })
          (World.Twinned ref (ready told left.now right.now)) :=
        .modifyWorld fun world world' same => by
          obtain ⟨rfl, rfl⟩ := same
          exact ⟨changed.made, changed.elsewhere, changed.own, ⟨twinned.timing, rfl, rfl⟩,
            changed.known⟩
      have notes : RunM.Twins ref (ready told left.now right.now)
          (RunM.modifyQueue ref (Queue.note (.started entry)) : RunM η Unit) :=
        .modifyWorld fun _ _ twinned => twinned.change ⟨Queue.reads_unpaced
          (fun queue => (queue.note (.started entry)).unpaced) (fun _ => rfl) twinned.own.1,
          twinned.own.2⟩
      refine .bind starts fun _ => .bind notes fun _ => ?_
      exact .bind (executeEntry_paced runs _ _) fun _ =>
        RunM.modifyQueue_twins pliant (.note (.executed entry))

theorem advance_tame (terminating : (paceless host : Engine η).Terminating library) (budget : Nat)
    {start later : Tag.Evaluation (World η)} (ready : start.world.Ready ref)
    (tame : (paceless host : Engine η).Tame library start.world)
    (ran : ((paceless host).advance ((paceless host).fire budget) ref).run start =
      some ((), later)) :
    (paceless host : Engine η).Tame library later.world := by
  let charter : Charter η Unit := .tame terminating .single (Vocabulary.callLimit + 1)
  have fit : charter.fit start.world := ⟨tame, by omega⟩
  have regular : (paceless host : Engine η).Regular false :=
    (builtin_regular false host).withoutTags Lookup.tellsPace
  have commands : Commands charter (paceless host) := commands_tame terminating regular
  have fires : charter.Fires fun _ : Unit => (paceless host).fire budget :=
    fire_within rfl regular commands budget
  have executes := executes_of_fires regular commands fires []
  have goesOn : Tag.Yields .single
      (fun _ : Unit => (paceless host).advance ((paceless host).fire budget) ref) start
      fun _ later => charter.fit later.world := by
    refine .queue_bind ?_
    cases waiting : (start.world.queue ref).entries with
    | nil =>
        have finishes : Steady charter [] fun _ => (paceless host).finishQueue ref :=
          finishQueue_steady _ ref
        exact (finishes start fit).weaken fun _ _ passage => charter.passes passage fit
    | cons entry entries =>
        have taken : (start.world.queue ref).nextStep start.world.now =
            (.execute entry, { start.world.queue ref with entries }) := by
          simp [Queue.nextStep, ready.runs, ready.free, waiting]
        exact .update_bind ((executeTaken_yields executes fit taken).weaken fun _ _ executed =>
          charter.passes executed.passage fit)
  exact (goesOn.ran ran).1

end Engine

end TagScript
