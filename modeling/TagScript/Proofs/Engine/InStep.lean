import TagScript.Proofs.Engine.Launch
import TagScript.Proofs.Engine.Structured
import TagScript.Proofs.Queue.Fresh

/-! Two worlds that differ in what is left to run on one queue. Filling an entry comes to the same in
both, with all the procedures that it calls: these run on queues of their own. -/

namespace TagScript

variable {η α β : Type}

open Tag (Lookup Procedure)
open Tag.EvalM (Parallel)
open RunM (Secures)

def Queue.unlisted (queue : Queue) : Queue := { queue with entries := [], history := [] }

namespace Queue

theorem reads_unlisted {γ : Type} (part : Queue → γ)
    (blind : ∀ queue : Queue, part queue.unlisted = part queue) {queue other : Queue}
    (same : queue.unlisted = other.unlisted) : part queue = part other := by
  rw [← blind queue, same, blind]

theorem unlisted_ordinary {change : Queue → Queue} (ordinary : Ordinary change) (queue : Queue) :
    (change queue).unlisted = (change queue.unlisted).unlisted := by
  cases ordinary <;> rfl

end Queue

namespace Likeness

def unlisted (fit : Queue → Prop) : Likeness where
  own := fun queue other => queue.unlisted = other.unlisted ∧ fit queue
  timing := Eq
  known := fun _ _ => True
  told := fun _ _ => trivial

theorem unlisted_lawful {fit : Queue → Prop} (releases : ∀ queue, fit queue → fit queue.release) :
    (unlisted fit).Lawful where
  face := fun {_ _} alike => Queue.reads_unlisted Queue.face (fun _ => rfl) alike.1
  release := fun {_ _} alike =>
    ⟨Queue.reads_unlisted (fun queue => queue.release.unlisted) (fun _ => rfl) alike.1,
      releases _ alike.2⟩
  cancel := fun id {_ _} same => congrArg (Scheduler.cancel id) same

theorem unlisted_pliant {fit : Queue → Prop}
    (keeps : ∀ {change}, Queue.Ordinary change → ∀ queue, fit queue → fit (change queue)) :
    (unlisted fit).Pliant where
  change := fun {change} ordinary {_ _} alike =>
    ⟨Queue.reads_unlisted (fun queue => (change queue).unlisted)
      (fun queue => (Queue.unlisted_ordinary ordinary queue).symm) alike.1, keeps ordinary _ alike.2⟩
  halt := fun {queue other scheduler other'} alike same => by
    have timer := Queue.reads_unlisted Queue.timer (fun _ => rfl) alike.1
    exact timer ▸ congrArg (Scheduler.without queue.timer) same

end Likeness

theorem Vocabulary.queueProperty?_unlisted {queue other : Queue} (same : queue.unlisted = other.unlisted)
    (now : Duration) {property : String} (size : Text.sameWord property "size" = false) :
    queueProperty? now queue property = queueProperty? now other property := by
  have id := Queue.reads_unlisted Queue.id (fun _ => rfl) same
  have kind := Queue.reads_unlisted Queue.kind (fun _ => rfl) same
  have state := Queue.reads_unlisted (Queue.stateText now) (fun _ => rfl) same
  have names := Queue.reads_unlisted Queue.definitionNames (fun _ => rfl) same
  unfold queueProperty?
  split
  · rw [id]
  · rename_i asked
    simp [Text.sameWord, asked, show Text.asciiLower "size" = "size" by decide] at size
  · rw [kind]
  · rw [state]
  · rw [names]
  · rfl

namespace Tag.EvalM.Parallel

variable {before between after : World η → World η → Prop}

theorem updateGet_bind {change other : World η → α × World η} {next following : α → RunM η β}
    {left right : World η} (same : (change left).1 = (other right).1)
    (held : between (change left).2 (other right).2)
    (rest : Parallel between (next (change left).1) (following (change left).1) after) :
    Parallel (fun world world' => world = left ∧ world' = right) (RunM.updateGet change >>= next)
      (RunM.updateGet other >>= following) after := by
  intro first second paired
  obtain ⟨rfl, rfl⟩ := paired.world
  rw [Engine.run_updateGet_bind, Engine.run_updateGet_bind, ← same]
  exact rest _ _ (paired.with_world held)

end Tag.EvalM.Parallel

namespace Engine

/-- Two worlds that differ at most in what is left to run on a queue, and where nothing else is about to
run than entries of scripts that keep to their queues. -/
structure InStep (engine : Engine η) (library : Script → Prop) (ref : QueueRef)
    (fit : Queue → Prop) (left right : World η) : Prop where
  twinned : left.Twinned ref (.unlisted fit) right
  furnished : engine.Furnished library left

abbrev KeepsStep (engine : Engine η) (library : Script → Prop) (ref : QueueRef)
    (fit : Queue → Prop) (act : RunM η α) : Prop :=
  Parallel (engine.InStep library ref fit) act act (engine.InStep library ref fit)

variable {engine : Engine η} {library : Script → Prop} {ref target : QueueRef}
  {fit : Queue → Prop}

theorem KeepsStep.of_twins {act : RunM η α} (twins : RunM.Twins ref (.unlisted fit) act)
    (furnishes : engine.Furnishes library act) : engine.KeepsStep library ref fit act := by
  intro left right paired
  have both := twins left right (paired.weaken fun _ _ held => held.twinned)
  have kept := furnishes left
  revert both kept
  cases act.run left with
  | none =>
      cases act.run right with
      | none => exact fun _ _ => .none
      | some outcome => nofun
  | some found =>
      cases act.run right with
      | none => nofun
      | some outcome =>
          rintro ⟨same, later⟩ kept
          exact .some ⟨same, later.here, later.there, later.token, later.bound, later.world,
            kept _ _ paired.world.furnished rfl⟩

namespace InStep

variable {left right : World η} (held : engine.InStep library ref fit left right)

include held

theorem clock (context : Tag.Context) : clock context left = clock context right := by
  have now : left.now = right.now := congrArg Scheduler.time held.twinned.timing
  rw [TagScript.clock, TagScript.clock, now]

theorem counted (calls : Nat) :
    engine.InStep library ref fit { left with calls } { right with calls } where
  twinned := ⟨held.twinned.made, congrArg (fun world : World η => { world with calls })
    held.twinned.elsewhere, held.twinned.own, held.twinned.timing, trivial⟩
  furnished := held.furnished.of_same rfl rfl

theorem conclude (apart : target ≠ ref) (fire : FireId) :
    engine.InStep library ref fit (left.conclude target fire) (right.conclude target fire) := by
  unfold World.conclude
  rw [held.twinned.queue apart, held.twinned.outcomes]
  split
  · exact ⟨⟨held.twinned.made, congrArg (fun world : World η =>
      { world with outcomes := (right.outcomes.take fire).2 }) held.twinned.elsewhere, held.twinned.own,
      held.twinned.timing, trivial⟩, held.furnished.of_same rfl rfl⟩
  · exact held

end InStep

section

variable (lawful : (Likeness.unlisted fit).Lawful)

include lawful

theorem inStep_indistinct (context : Tag.Context) :
    Indistinct (engine.InStep library ref fit) (Lookup.asksFor "size") context where
  face := fun held target => held.twinned.face lawful target
  setting := fun held => held.twinned.setting
  emit := fun event held => ⟨⟨(held.twinned.emit event).1, held.furnished.of_same rfl rfl⟩,
    ⟨(held.twinned.emit event).2, held.furnished⟩⟩
  jot := fun note held =>
    ⟨held.twinned.jot note, held.furnished.of_same rfl rfl⟩
  property := fun {left right sooner later} held following lookup here shown asks target => by
    cases named : lookup.key? 1 with
    | none => rfl
    | some property =>
        have size : Text.sameWord property "size" = false := by
          rw [Lookup.asksFor, asks, Bool.true_and, Lookup.keyIs, named] at shown
          exact shown
        rw [Option.bind_some, Option.bind_some, following.clock]
        by_cases own : target = ref
        · subst own
          exact Vocabulary.queueProperty?_unlisted held.twinned.own.1 _ size
        · rw [held.twinned.queue own]

theorem fillEntry_inStep {host : Host} {fire : Firing η}
    (calls : ∀ procedure, engine.KeepsStep library ref fit (callProcedure fire procedure))
    (target : QueueRef) (entry : Entry) : engine.KeepsStep library ref fit
      (((builtin host).withoutTags (Lookup.asksFor "size")).fillEntry fire target entry) :=
  fillEntry_parallel (inStep_indistinct lawful) (.inr ⟨fun _ _ calls held => held.counted calls, calls⟩)
    target entry

end

/-! Other queues run alike. -/

theorem queue_bind_inStep (apart : target ≠ ref) {next : Queue → RunM η α}
    (rest : ∀ queue, engine.KeepsStep library ref fit (next queue)) :
    engine.KeepsStep library ref fit (RunM.queue target >>= next) :=
  .queue_bind fun left right held => by
    rw [held.twinned.queue apart]
    exact (rest _).here held

theorem modifyQueue_inStep (apart : target ≠ ref) {change : Queue → Queue}
    (furnishes : engine.Furnishes library (RunM.modifyQueue target change)) :
    engine.KeepsStep library ref fit (RunM.modifyQueue target change) :=
  .of_twins (.modifyWorld fun _ _ twinned => twinned.changeElsewhere apart change) furnishes

theorem log_inStep (level : LogLevel) (text : String) :
    engine.KeepsStep library ref fit (RunM.log level text) :=
  .of_twins (RunM.emit_twins _) (log_furnishes level text)

theorem takeStep_bind_inStep (apart : target ≠ ref) {next : Step → RunM η α}
    (executes : ∀ entry, engine.Structured library entry →
      engine.KeepsStep library ref fit (next (.execute entry)))
    (waits : engine.KeepsStep library ref fit (next .wait))
    (finishes : engine.KeepsStep library ref fit (next .finish))
    (halts : engine.KeepsStep library ref fit (next .halted)) :
    engine.KeepsStep library ref fit (takeStep target >>= next) := by
  intro left right paired
  have held := paired.world
  have now : left.world.now = right.world.now := congrArg Scheduler.time held.twinned.timing
  have same := held.twinned.queue apart
  have there : (right.world.modifyQueue target fun _ => left.world.queue target) = right.world := by
    rw [same, World.modifyQueue_self]
  rw [run_takeStep_bind, run_takeStep_bind, ← now, ← same]
  rcases (left.world.queue target).nextStep_cases left.world.now with ⟨_, step⟩ | ⟨_, step⟩ |
    ⟨_, step⟩ | ⟨entry, entries, _, waiting, step⟩
  · simp only [step, World.modifyQueue_self, there]
    exact halts _ _ paired
  · simp only [step, World.modifyQueue_self, there]
    exact waits _ _ paired
  · simp only [step, World.modifyQueue_self, there]
    exact finishes _ _ paired
  · have structured := held.furnished.waiting target
    rw [waiting] at structured
    rw [step]
    refine executes entry (structured entry List.mem_cons_self) _ _ (paired.with_world ?_)
    exact ⟨held.twinned.changeElsewhere apart _, held.furnished.changed target fun item member =>
      structured item (List.mem_cons_of_mem entry member)⟩

theorem ensureScheduled_inStep (apart : target ≠ ref) :
    engine.KeepsStep library ref fit (ensureScheduled target) := by
  refine queue_bind_inStep apart fun queue => .ite (fun _ => .done _) fun _ => ?_
  have schedules : engine.KeepsStep library ref fit (RunM.updateGet fun world : World η =>
      let scheduled := world.scheduler.schedule (revolutions target queue)
      (scheduled.1, { world with scheduler := scheduled.2 })) := by
    refine .updateGet fun left right held => ?_
    have same := held.twinned.timing
    dsimp only
    rw [← same]
    exact ⟨rfl, held.twinned.reschedule rfl, held.furnished.of_same rfl rfl⟩
  exact .bind schedules fun _ => .bind (log_inStep _ _) fun _ =>
    modifyQueue_inStep apart (modifyQueue_furnishes target fun _ => List.Subset.refl _)

section

variable (lawful : (Likeness.unlisted fit).Lawful)

include lawful

theorem finishQueue_inStep (apart : target ≠ ref) :
    engine.KeepsStep library ref fit (engine.finishQueue target) :=
  .of_twins (.bind (.modifyWorld fun _ _ twinned => twinned.changeElsewhere apart _) fun _ =>
    Queue.stop_twins lawful _ fun same => absurd same apart) (finishQueue_furnishes target)

end

abbrev sizeless (host : Host) : Engine η := (builtin host).withoutTags (Lookup.asksFor "size")

section

variable {host : Host} {fire : Firing η} (lawful : (Likeness.unlisted fit).Lawful)
  (calls : ∀ procedure, (sizeless host).KeepsStep library ref fit (callProcedure fire procedure))

include lawful

theorem structural_twins (pliant : target = ref → (Likeness.unlisted fit).Pliant) {command : Command η}
    (structural : command ∈ Command.structural) : command.Twins ref (.unlisted fit) target := by
  simp only [Command.structural, List.mem_cons, List.not_mem_nil, or_false] at structural
  rcases structural with rfl | rfl | rfl | rfl | rfl
  · exact Command.debug_twins lawful target
  · exact Command.define_twins lawful pliant
  · exact Command.determine_twins lawful pliant
  · exact Command.inject_twins lawful pliant
  · exact Command.repeatBlock_twins pliant

theorem dispatch_inStep (pliant : target = ref → (Likeness.unlisted fit).Pliant) {entry : Entry}
    {ready : FilledEntry} (structured : (sizeless host : Engine η).Structured library entry)
    (fills : Fills entry ready) : (sizeless host).KeepsStep library ref fit
      ((sizeless host).dispatch fire target ready (blocksOfFilled ready.filled)) := by
  have twins : RunM.Twins ref (.unlisted fit)
      ((sizeless host).dispatch fire target ready (blocksOfFilled ready.filled)) :=
    dispatch_twins pliant ready _ fun command found => by
      obtain ⟨arguments, same⟩ := fills.1
      rw [same] at found
      exact structural_twins lawful pliant (structured.known command found)
  exact KeepsStep.of_twins twins (dispatch_furnishes structured fills)

include calls

theorem executeTaken_inStep (apart : target ≠ ref) {entry : Entry}
    (structured : (sizeless host : Engine η).Structured library entry) :
    (sizeless host).KeepsStep library ref fit ((sizeless host).executeTaken fire target entry) := by
  have notes (deed : Deed) : (sizeless host : Engine η).KeepsStep library ref fit
      (RunM.modifyQueue target (Queue.note deed)) :=
    modifyQueue_inStep apart (modifyQueue_furnishes target fun _ => List.Subset.refl _)
  refine .bind (notes _) fun _ => .bind ?_ fun _ => notes _
  rw [executeEntry_eq]
  refine .bind_knowing (fillEntry_inStep lawful calls target entry) (fillEntry_filled _ _ _ _)
    fun ready fills => ?_
  exact dispatch_inStep lawful (fun same => absurd same apart) structured fills

theorem drain_inStep (apart : target ≠ ref) (budget : Nat) :
    (sizeless host).KeepsStep library ref fit ((sizeless host).drain fire target budget) := by
  induction budget with
  | zero => exact fun _ _ _ => .none
  | succ budget ih =>
      refine takeStep_bind_inStep apart (fun entry structured => ?_) ?_
        (finishQueue_inStep lawful apart) (.done _)
      · exact .bind (executeTaken_inStep lawful calls apart structured) fun _ => ih
      · exact queue_bind_inStep apart fun queue => .bind (log_inStep _ _) fun _ =>
          .bind (modifyQueue_inStep apart (modifyQueue_furnishes target fun _ => List.Subset.refl _))
            fun _ => ensureScheduled_inStep apart

theorem step_inStep (apart : target ≠ ref) :
    (sizeless host).KeepsStep library ref fit ((sizeless host).step fire target) := by
  refine takeStep_bind_inStep apart (fun entry structured => ?_) (.done _)
    (finishQueue_inStep lawful apart) (.done _)
  refine .bind (executeTaken_inStep lawful calls apart structured) fun _ =>
    .any_world_bind fun left right held => ?_
  have now : left.now = right.now := congrArg Scheduler.time held.twinned.timing
  rw [held.twinned.queue apart, now]
  exact .ite (fun _ => finishQueue_inStep lawful apart) fun _ => .done _

theorem startQueue_inStep (apart : target ≠ ref) (budget : Nat) :
    (sizeless host).KeepsStep library ref fit ((sizeless host).startQueue fire budget target) := by
  refine queue_bind_inStep apart fun queue => .ite (fun _ => .done _) fun _ => ?_
  refine .bind (modifyQueue_inStep apart (modifyQueue_furnishes target fun _ => List.Subset.refl _))
    fun _ => .bind (log_inStep _ _) fun _ => ?_
  exact .ite (fun _ => drain_inStep lawful calls apart budget) fun _ =>
    .bind (step_inStep lawful calls apart) fun _ => ensureScheduled_inStep apart

end

/-! A script that is fired for a procedure runs on a queue of its own. -/

end Engine

namespace World

def housed (counter : Nat) (id : String) (kind : QueueKind) (world : World η) : World η :=
  { world with
    counter
    queues := world.queues.push (.make id kind ⟨world.fires⟩)
    live := world.live.set (Text.lower id) ⟨world.queues.size⟩
    fires := world.fires + 1 }

theorem seat_fresh {options : FireOptions} (fresh : options.id = none) (script : Script) (speed : Int)
    (world : World η) : ∃ counter id,
      freshIdFrom world.live (Text.lower script.name) world.counter world.live.length = (id, counter) ∧
      world.seat script options speed =
        ((⟨world.queues.size⟩, true), world.housed counter id (.ofSpeed speed)) := by
  have free := liveQueue?_freshId (Text.lower script.name) world
  refine ⟨_, _, rfl, ?_⟩
  rw [seat, fresh]
  dsimp only
  rw [queueOrCreate, free]
  rfl

theorem Twinned.housed {ref : QueueRef} {likeness : Likeness} {left right : World η}
    (twinned : left.Twinned ref likeness right) (counter : Nat) (id : String) (kind : QueueKind)
    (known : likeness.known (left.queues.size + 1) left.notes) :
    (left.housed counter id kind).Twinned ref likeness (right.housed counter id kind) := by
  have own (world : World η) (made : ref.index < world.queues.size) :
      (world.housed counter id kind).queue ref = world.queue ref := by
    simp [World.housed, World.queue, Array.getElem?_push_lt made, made]
  have elsewhere (world : World η) (made : ref.index < world.queues.size) :
      (world.housed counter id kind).elsewhere ref = (world.elsewhere ref).housed counter id kind := by
    have pushed (queue : Queue) : (world.queues.push queue).modify ref.index (fun _ => default) =
        (world.queues.modify ref.index fun _ => default).push queue := by
      apply Array.ext
      · simp
      · intro index _ _
        simp only [Array.getElem_modify, Array.getElem_push, Array.size_modify]
        split <;> split <;> first | rfl | omega
    simp only [World.elsewhere, World.housed, pushed, Array.size_modify]
  exact ⟨by simpa [World.housed] using Nat.lt_succ_of_lt twinned.made,
    by rw [elsewhere _ twinned.made, elsewhere _ twinned.madeToo, twinned.elsewhere],
    by rw [own _ twinned.made, own _ twinned.madeToo]; exact twinned.own, twinned.timing,
    by simpa [World.housed] using known⟩

end World

namespace Engine

variable {engine : Engine η} {library : Script → Prop} {ref target : QueueRef}
  {fit : Queue → Prop}

theorem Furnished.seat {world : World η} (furnished : engine.Furnished library world)
    (script : Script) (options : FireOptions) (speed : Int) :
    engine.Furnished library (world.seat script options speed).2 := by
  unfold World.seat
  cases options.id with
  | some id => exact furnished.queueOrCreate id _
  | none =>
      have counted : engine.Furnished library (world.freshId (Text.lower script.name)).2 :=
        furnished.of_same rfl rfl
      exact counted.queueOrCreate _ _

theorem InStep.seat {left right : World η} (held : engine.InStep library ref fit left right)
    {options : FireOptions} (fresh : options.id = none) (script : Script) (speed : Int) :
    (left.seat script options speed).1 = (right.seat script options speed).1 ∧
      (left.seat script options speed).1.1 ≠ ref ∧
      engine.InStep library ref fit (left.seat script options speed).2
        (right.seat script options speed).2 := by
  obtain ⟨counter, id, tried, seated⟩ := left.seat_fresh fresh script speed
  obtain ⟨counter', id', triedToo, seatedToo⟩ := right.seat_fresh fresh script speed
  have count : left.counter = right.counter := held.twinned.sees _ fun _ => rfl
  rw [← held.twinned.live, ← count, tried] at triedToo
  obtain ⟨rfl, rfl⟩ := Prod.mk.inj triedToo
  have made := held.twinned.made
  have furnished := held.furnished.seat script options speed
  rw [seated] at furnished
  rw [seated, seatedToo, held.twinned.size]
  refine ⟨rfl, fun same => ?_, held.twinned.housed _ _ _ trivial, furnished⟩
  rw [← same, held.twinned.size] at made
  exact Nat.lt_irrefl _ made

section

variable {host : Host} {fire : Firing η} (lawful : (Likeness.unlisted fit).Lawful)
  (structuring : (sizeless host : Engine η).Structuring library)

include lawful structuring

theorem fireWith_inStep
    (calls : ∀ procedure, (sizeless host).KeepsStep library ref fit (callProcedure fire procedure))
    (name : String) {options : FireOptions} (fresh : options.id = none) (budget : Nat) :
    (sizeless host).KeepsStep library ref fit
      ((sizeless host).fireWith fire budget ⟨.named name, options⟩) := by
  refine .world_bind fun left right held => ?_
  have scripts : findScript (.named name) right = findScript (.named name) left := by
    rw [findScript, findScript, World.script?, World.script?, held.twinned.scripts]
  rw [scripts]
  cases found : findScript (.named name) left with
  | error error => exact .pure fun _ _ same => same.1 ▸ same.2 ▸ held
  | ok script =>
      have granted : library script := by
        unfold findScript at found
        dsimp only at found
        split at found
        · rename_i known
          obtain rfl := Except.ok.inj found
          exact (held.furnished.script known).1
        · cases found
      obtain ⟨same, apart, seated⟩ :=
        held.seat fresh script (options.speed.getD (sizeless host : Engine η).host.defaultSpeed)
      dsimp only
      rw [queueForFiring_eq]
      refine .updateGet_bind same seated ?_
      generalize (left.seat script options _).1 = found at apart
      have numbers : (sizeless host).KeepsStep library ref fit
          (RunM.updateGet World.freshFire : RunM η FireId) := by
        refine .updateGet fun left right held => ?_
        have fires : left.fires = right.fires := held.twinned.sees _ fun _ => rfl
        refine ⟨congrArg FireId.mk fires, ⟨held.twinned.made, ?_, held.twinned.own, held.twinned.timing,
          trivial⟩, held.furnished.of_same rfl rfl⟩
        exact congrArg (fun world : World η => { world with fires := world.fires + 1 })
          held.twinned.elsewhere
      have marks (fire : FireId) : (sizeless host).KeepsStep library ref fit
          (RunM.update (World.markFired found.1 fire) : RunM η Unit) :=
        .modifyWorld fun left right held => ⟨⟨held.twinned.made, held.twinned.elsewhere,
          held.twinned.own, held.twinned.timing, trivial⟩, held.furnished.of_same rfl rfl⟩
      have tells (queueId : String) (number : FireId) : (sizeless host).KeepsStep library ref fit
          (do return .ok ⟨found.1, queueId, number, ← outcomeOf found.1 number⟩ :
            RunM η (Except FireError FireResult)) := by
        rw [outcomeOf_eq]
        refine .bind (.updateGet fun left right held => ⟨?_, held.conclude apart number⟩) fun _ => .done _
        rw [held.twinned.outcomes]
      refine .bind numbers fun number => .bind (marks number) fun _ => ?_
      refine .bind (modifyQueue_inStep apart (receive_furnishes structuring granted _ _ _ _)) fun _ => ?_
      refine queue_bind_inStep apart fun queue => .bind (log_inStep _ _) fun _ => ?_
      exact .ite (fun _ => .bind (startQueue_inStep lawful calls apart budget) fun _ => tells _ _)
        fun _ => tells _ _

theorem callProcedure_inStep (budget : Nat) (procedure : Procedure) :
    (sizeless host : Engine η).KeepsStep library ref fit
      (callProcedure ((sizeless host).fire budget) procedure) := by
  refine .bind ?_ fun _ => .done _
  induction budget generalizing procedure with
  | zero => exact fun _ _ _ => .none
  | succ budget ih =>
      have calls (procedure : Procedure) : (sizeless host : Engine η).KeepsStep library ref fit
          (callProcedure ((sizeless host).fire budget) procedure) :=
        .bind (ih procedure) fun _ => .done _
      exact fireWith_inStep lawful structuring calls procedure.script rfl budget

end

end Engine

end TagScript
