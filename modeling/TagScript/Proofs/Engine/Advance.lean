import TagScript.Proofs.Engine.ExecutePassage
import TagScript.Proofs.Engine.Revolve
import TagScript.Proofs.Queue.Fresh

/-! Running queues and firing scripts come to passages, as long as executing entries does. -/

namespace TagScript

variable {η μ α : Type}

open Tag (Regime Yields)

namespace Tag.Yields

variable {regime : Regime μ} {start : Evaluation (World η)} {after : α → Evaluation (World η) → Prop}
  {ref : QueueRef}

theorem takeStep_bind {next : μ → Step → RunM η α}
    (halted : (start.world.queue ref).isStopped = true →
      Yields regime (fun way => next way .halted) start after)
    (wait : Yields regime (fun way => next way .wait) start after)
    (finish : Yields regime (fun way => next way .finish) start after)
    (execute : ∀ entry rest,
      (start.world.queue ref).nextStep start.world.now = (.execute entry, rest) →
      Yields regime (fun way => next way (.execute entry))
        { start with world := start.world.modifyQueue ref fun _ => rest } after) :
    Yields regime (fun way => Engine.takeStep ref >>= next way) start after := by
  refine .updateGet_bind ?_
  rcases (start.world.queue ref).nextStep_cases start.world.now with ⟨stopped, step⟩ |
    ⟨_, step⟩ | ⟨_, step⟩ | ⟨entry, entries, _, _, step⟩
  · simp only [step, World.modifyQueue_self]
    exact halted stopped
  · simp only [step, World.modifyQueue_self]
    exact wait
  · simp only [step, World.modifyQueue_self]
    exact finish
  · simp only [step]
    exact execute entry _ step

end Tag.Yields

def Executed (terms : Terms) (running : List Running) (ref : QueueRef) (entry : Entry)
    (world later : World η) : Prop :=
  ∃ rest inside, (world.queue ref).nextStep world.now = (.execute entry, rest) ∧
    Passage terms (⟨ref, entry⟩ :: running) (world.takeUp ref entry rest) inside ∧
    later = inside.modifyQueue ref (Queue.note (.executed entry))

theorem Executed.passage {terms : Terms} {running : List Running} {ref : QueueRef} {entry : Entry}
    {world later : World η} (executed : Executed terms running ref entry world later) :
    Passage terms running world later := by
  obtain ⟨rest, inside, taken, passage, rfl⟩ := executed
  exact .execute (.refl running world) taken passage

def Fired (terms : Terms) (running : List Running) (world : World η)
    (answer : Except FireError FireResult) (later : World η) : Prop :=
  match answer with
  | .error _ => later = world
  | .ok result => ∃ between inside script, Passage terms running world between ∧
    terms.script script ∧ result.queue.index < between.queues.size ∧
    (terms.sharing = true ∨ running = [] ∨ (between.queue result.queue).phase = .constructing) ∧
    Passage terms running (between.enqueue result.queue script) inside ∧
    result.fire = ⟨between.fires⟩ ∧ result.outcome = inside.outcomes.get? result.fire ∧
    later = inside.conclude result.queue result.fire

theorem Fired.passage {terms : Terms} {running : List Running} {world later : World η}
    {answer : Except FireError FireResult} (fired : Fired terms running world answer later) :
    Passage terms running world later := by
  cases answer with
  | error error =>
      obtain rfl := fired
      exact .refl running _
  | ok result =>
      obtain ⟨between, inside, script, before, granted, made, joins, within, fire, _, rfl⟩ := fired
      rw [fire]
      exact .fire before granted made joins within

namespace World

def Started (ref : QueueRef) (world : World η) : Prop :=
  ref.index < world.queues.size → (world.queue ref).phase ≠ .constructing

theorem enqueue_adjust {change : Queue → Queue} (similar : ∀ queue : Queue, queue.Similar (change queue))
    (ref : QueueRef) (script : Script) (world : World η) :
    (world.modifyQueue ref change).enqueue ref script =
      (world.freshFire.2.markFired ref ⟨world.fires⟩).modifyQueue ref fun queue =>
        (change queue).addEntries (script.instantiate (some ⟨world.fires⟩)) := by
  have history : ((world.modifyQueue ref change).queue ref).history =
      (world.queue ref).history := by
    rcases world.queue_modifyQueue_cases ref ref change with ⟨_, _, changed⟩ | same
    · rw [changed, (similar _).history]
    · rw [same]
  rw [← modifyQueue_modifyQueue ref change]
  simp only [enqueue, freshFire, markFired, modifyQueue, queue] at history ⊢
  rw [history]

end World

section

variable {charter : Charter η μ} {running : List Running} {engine : Engine η} {fire : μ → Firing η}

namespace Engine

def Executes (charter : Charter η μ) (engine : Engine η) (fire : μ → Firing η)
    (running : List Running) : Prop :=
  ∀ world ref entry rest, charter.fit world →
    (world.queue ref).nextStep world.now = (.execute entry, rest) →
    Steady charter (⟨ref, entry⟩ :: running) fun way => engine.executeEntry (fire way) ref entry

def Drains (charter : Charter η μ) (engine : Engine η) (fire : μ → Firing η)
    (running : List Running) (budget : μ → Nat) (ref : QueueRef) : Prop :=
  ∀ start : Tag.Evaluation (World η), charter.fit start.world → start.world.Started ref →
    Yields charter.regime (fun way => engine.drain (fire way) ref (budget way)) start fun _ later =>
      Passage charter.terms running start.world later.world

theorem executeTaken_yields (executes : Executes charter engine fire running)
    {start : Tag.Evaluation (World η)} (started : charter.fit start.world) {ref : QueueRef}
    {entry : Entry} {rest : Queue}
    (taken : (start.world.queue ref).nextStep start.world.now = (.execute entry, rest)) :
    Yields charter.regime (fun way => engine.executeTaken (fire way) ref entry)
      { start with world := start.world.modifyQueue ref fun _ => rest } fun _ later =>
        Executed charter.terms running ref entry start.world later.world := by
  refine .update_bind (.bind (executes _ ref entry rest started taken _
    (charter.takes started taken)) fun _ later inside => ?_)
  exact .of_run (fun _ => rfl) ⟨rest, later.world, taken, inside, rfl⟩

theorem ensureScheduled_steady (ref : QueueRef) :
    Steady charter running fun _ => (ensureScheduled ref : RunM η Unit) := by
  refine .queue_bind fun queue => .ite (.pure _) ?_
  refine .bind (.updateGet fun world => .single (.aside ?_)) fun timer => ?_
  · exact .of_live rfl rfl rfl rfl rfl rfl rfl (List.Subset.refl _)
  · exact .bind (.log _ _) fun _ => .adjust fun _ => ⟨rfl, rfl, rfl⟩

theorem finishQueue_steady (engine : Engine η) (ref : QueueRef) :
    Steady charter running fun _ => engine.finishQueue ref :=
  .bind (.stride fun world => .dry running world ref) fun _ => Queue.stop_steady engine.host ref

def drainOnce (engine : Engine η) (fire : Firing η) (ref : QueueRef) (rest : RunM η Unit) :
    RunM η Unit := do
  match ← takeStep ref with
  | .execute entry =>
    engine.executeTaken fire ref entry
    rest
  | .wait =>
    let queue ← RunM.queue ref
    RunM.log .debug s!"Instant queue '{queue.id}' has to wait; continuing on the scheduler."
    RunM.modifyQueue ref fun queue => { queue with kind := .afterWaiting }
    ensureScheduled ref
  | .finish => engine.finishQueue ref
  | .halted => return

theorem drain_succ (engine : Engine η) (fire : Firing η) (ref : QueueRef) (budget : Nat) :
    engine.drain fire ref (budget + 1) =
      engine.drainOnce fire ref (engine.drain fire ref budget) := rfl

theorem drainOnce_yields (executes : Executes charter engine fire running) {ref : QueueRef}
    {rest : μ → RunM η Unit} {start : Tag.Evaluation (World η)}
    (started : charter.fit start.world)
    (goesOn : ∀ entry later, Executed charter.terms running ref entry start.world later.world →
      Yields charter.regime rest later fun _ last =>
        Passage charter.terms running start.world last.world) :
    Yields charter.regime (fun way => engine.drainOnce (fire way) ref (rest way)) start
      fun _ later => Passage charter.terms running start.world later.world := by
  have waits : Steady charter running fun _ => (do
      let queue ← RunM.queue ref
      RunM.log .debug s!"Instant queue '{queue.id}' has to wait; continuing on the scheduler."
      RunM.modifyQueue ref fun queue => { queue with kind := .afterWaiting }
      ensureScheduled ref : RunM η Unit) :=
    .queue_bind fun _ => .bind (.log _ _) fun _ => .bind (.adjust fun _ => ⟨rfl, rfl, rfl⟩) fun _ =>
      ensureScheduled_steady ref
  refine .takeStep_bind (fun _ => .pure (.refl running _)) (waits start started)
    (engine.finishQueue_steady ref start started) fun entry left taken => ?_
  exact .bind (executeTaken_yields executes started taken) fun _ later executed =>
    goesOn entry later executed

theorem step_steady (executes : Executes charter engine fire running) (ref : QueueRef) :
    Steady charter running fun way => engine.step (fire way) ref := by
  intro start started
  refine .takeStep_bind (fun _ => .pure (.refl running _)) (.pure (.refl running _))
    (engine.finishQueue_steady ref start started) fun entry left taken => ?_
  have ends : Steady charter running fun _ => (do
      let world ← RunM.world
      if (world.queue ref).isFinished world.now then engine.finishQueue ref : RunM η Unit) :=
    .world_bind fun _ _ => .ite (engine.finishQueue_steady ref) (.pure _)
  exact .bind (executeTaken_yields executes started taken) fun _ later executed =>
    ends.after executed.passage started

theorem startQueue_steady (executes : Executes charter engine fire running) (budget : μ → Nat)
    {ref : QueueRef} (drains : Drains charter engine fire running budget ref) :
    Steady charter running fun way => engine.startQueue (fire way) (budget way) ref := by
  intro start started
  refine .queue_bind ?_
  by_cases new : (start.world.queue ref).phase = .constructing
  · let launched := start.world.modifyQueue ref Queue.launch
    have reached (event : Event) : Passage charter.terms running start.world (launched.emit event) :=
      .step (.single (.launch running _ ref new)) (.aside (World.emit_aloof event launched).aside)
    have runs (event : Event) : (launched.emit event).Started ref := by
      intro made
      have bound : ref.index < start.world.queues.size := by
        simpa [launched, World.emit] using made
      change (launched.queue ref).phase ≠ .constructing
      rw [World.queue_modifyQueue_self bound]
      exact Phase.noConfusion
    simp only [new, bne_self_eq_false, Bool.false_eq_true, ↓reduceIte]
    refine .update_bind (.update_bind ?_)
    split
    · exact (drains _ (charter.passes (reached _) started) (runs _)).weaken fun _ _ last =>
        (reached _).trans last
    · exact (Steady.bind (step_steady executes ref) fun _ => ensureScheduled_steady ref).after
        (reached _) started
  · simp only [bne_iff_ne, ne_eq, new, not_false_eq_true, ↓reduceIte]
    exact .pure (.refl running _)

theorem revolve_steady (executes : Executes charter engine fire running) (budget : μ → Nat)
    {ref : QueueRef} (drains : Drains charter engine fire running budget ref) :
    Steady charter running fun way => engine.revolve (fire way) (budget way) ref := by
  intro start started
  refine .queue_bind ?_
  by_cases runs : (start.world.queue ref).phase = .running
  · simp only [runs, bne_self_eq_false, Bool.false_eq_true, ↓reduceIte]
    split
    · exact drains start started fun _ => by rw [runs]; exact Phase.noConfusion
    · exact step_steady executes ref start started
  · simp only [bne_iff_ne, ne_eq, runs, not_false_eq_true, ↓reduceIte]
    exact .pure (.refl running _)

def Provided (options : FireOptions) (found : QueueRef × Bool) (world : World η) : Prop :=
  found.1.index < world.queues.size ∧
    (options.id = none → (world.queue found.1).phase = .constructing)

theorem queueOrCreate_passage (terms : Terms) (running : List Running) (id : String)
    (kind : QueueKind) (world : World η) :
    Passage terms running world (world.queueOrCreate id kind).2 := by
  unfold World.queueOrCreate
  split
  · exact .refl running world
  · refine .step (.single (.make running world id kind)) (.aside ?_)
    refine ⟨rfl, rfl, rfl, rfl, rfl, rfl, rfl, fun named member => ?_⟩
    rcases Table.mem_set member with rfl | member
    · exact .inr (by simp [World.makeQueue, World.freshFire])
    · exact .inl member

theorem queueOrCreate_made {world : World η}
    (live : ∀ named ∈ world.live, named.2.index < world.queues.size) (id : String)
    (kind : QueueKind) :
    (world.queueOrCreate id kind).1.1.index < (world.queueOrCreate id kind).2.queues.size := by
  unfold World.queueOrCreate
  split
  · rename_i ref found
    obtain ⟨before, after, split, _⟩ := List.lookup_eq_some_iff.1 found
    exact live _ (by rw [split]; exact List.mem_append_right before List.mem_cons_self)
  · simp [World.makeQueue, World.freshFire]

theorem queueForFiring_yields (running : List Running) (engine : Engine η) (script : Script)
    (options : FireOptions) {start : Tag.Evaluation (World η)}
    (started : charter.fit start.world) :
    Yields charter.regime (fun _ => engine.queueForFiring script options) start
      fun found later => Passage charter.terms running start.world later.world ∧
        Provided options found later.world := by
  unfold queueForFiring
  cases asked : options.id with
  | some id =>
      simp only [pure_bind]
      refine .updateGet ⟨queueOrCreate_passage _ running id _ _, ?_, by simp [asked]⟩
      exact queueOrCreate_made (charter.live started) id _
  | none =>
      let named := start.world.freshId (Text.lower script.name)
      have counted : Passage charter.terms running start.world named.2 :=
        .single (.aside (.of_live rfl rfl rfl rfl rfl rfl rfl (List.Subset.refl _)))
      refine .updateGet_bind (.updateGet ⟨counted.trans (queueOrCreate_passage _ running _ _ _), ?_⟩)
      refine ⟨queueOrCreate_made (charter.live (charter.passes counted started)) named.1 _, fun _ => ?_⟩
      have new := World.liveQueue?_freshId (Text.lower script.name) start.world
      have phase (kind : QueueKind) :
          ((named.2.queueOrCreate named.1 kind).2.queue
            (named.2.queueOrCreate named.1 kind).1.1).phase = .constructing := by
        rw [World.queueOrCreate, new]
        simp [World.makeQueue, World.freshFire, World.queue, Queue.make]
      exact phase _

theorem outcomeOf_eq (ref : QueueRef) (fire : FireId) :
    (outcomeOf ref fire : RunM η _) = RunM.updateGet fun world =>
      (world.outcomes.get? fire, world.conclude ref fire) := by
  unfold outcomeOf World.conclude
  congr
  funext world
  split <;> rfl

theorem enqueue_bind {prepare : FireId → Queue → Queue}
    (similar : ∀ fire (queue : Queue), queue.Similar (prepare fire queue)) {ref : QueueRef}
    {script : Script} {next : μ → FireId → RunM η α} {start : Tag.Evaluation (World η)}
    {after : α → Tag.Evaluation (World η) → Prop}
    (rest : Yields charter.regime (fun way => next way ⟨start.world.fires⟩)
      { start with world :=
        (start.world.modifyQueue ref (prepare ⟨start.world.fires⟩)).enqueue ref script } after) :
    Yields charter.regime (fun way => do
      let fire ← RunM.updateGet World.freshFire
      RunM.update (World.markFired ref fire)
      RunM.modifyQueue ref fun queue =>
        (prepare fire queue).addEntries (script.instantiate (some fire))
      next way fire) start after := by
  rw [World.enqueue_adjust (similar _)] at rest
  exact rest

theorem fireWith_yields {inner : μ → Firing η} (budget : μ → Nat)
    (starts : ∀ ref, Steady charter running fun way => engine.startQueue (inner way) (budget way) ref)
    {request : FireRequest} {start : Tag.Evaluation (World η)} (started : charter.fit start.world)
    (granted : ∀ script, findScript request.source start.world = .ok script →
      charter.terms.script script)
    (joins : charter.terms.sharing = true ∨ running = [] ∨ request.options.id = none) :
    Yields charter.regime (fun way => engine.fireWith (inner way) (budget way) request) start
      fun answer later => Fired charter.terms running start.world answer later.world := by
  refine .world_bind ?_
  cases found : findScript request.source start.world with
  | error error => exact .pure rfl
  | ok script =>
      refine .bind (queueForFiring_yields running engine script request.options started) ?_
      rintro ⟨ref, created⟩ enlisted ⟨reached, made, new⟩
      let prepare (fire : FireId) (queue : Queue) : Queue :=
        equip request.options (if created then { queue with fire } else queue)
      have similar (fire : FireId) (queue : Queue) : queue.Similar (prepare fire queue) := by
        have alike := (equip_alike request.options
          (if created then { queue with fire } else queue)).similar
        cases created <;> exact ⟨alike.phase, alike.entries, alike.history⟩
      let fire : FireId := ⟨enlisted.world.fires⟩
      let prepared := enlisted.world.modifyQueue ref (prepare fire)
      have toPrepared : Passage charter.terms running start.world prepared :=
        reached.step (.adjust running _ ref _ (similar fire))
      have allowed := granted script found
      have fit := charter.fires ref (charter.passes toPrepared started) allowed
      have phase : (prepared.queue ref).phase = (enlisted.world.queue ref).phase := by
        rw [World.queue_modifyQueue_self made, (similar fire _).phase]
      have told (queueId : String) (inside : Tag.Evaluation (World η))
          (within : Passage charter.terms running (prepared.enqueue ref script) inside.world) :
          Yields charter.regime (fun _ => (do
            return .ok ⟨ref, queueId, fire, ← outcomeOf ref fire⟩ :
              RunM η (Except FireError FireResult))) inside
            fun answer later => Fired charter.terms running start.world answer later.world := by
        rw [outcomeOf_eq]
        refine .updateGet_bind (.pure ⟨prepared, inside.world, script, toPrepared, allowed, ?_, ?_,
          within, rfl, rfl, rfl⟩)
        · simpa [prepared] using made
        · exact joins.imp_right (.imp_right fun unnamed => phase.trans (new unnamed))
      refine enqueue_bind similar (.queue_bind ?_)
      have logs (level : LogLevel) (text : String) :
          Steady charter running fun _ => (RunM.log level text : RunM η Unit) := .log level text
      refine .bind (logs _ _ _ fit) fun _ logged toLogged => ?_
      cases created with
      | false => exact told _ logged toLogged
      | true =>
          exact .bind ((starts ref).after toLogged fit) fun _ inside within =>
            told _ inside within

end Engine

def Charter.Fires (charter : Charter η μ) (fire : μ → Firing η) : Prop :=
  ∀ running name options, (charter.terms.sharing = true ∨ options.id = none) →
    Steady charter running fun way => fire way ⟨.named name, options⟩

def Engine.Commands (charter : Charter η μ) (engine : Engine η) : Prop :=
  ∀ fire, charter.Fires fire → ∀ running world ref entry rest, charter.fit world →
    (world.queue ref).nextStep world.now = (.execute entry, rest) →
    ∀ command ∈ engine.commands.find? entry.command,
      command.Steadies charter running engine.host fire ref entry

theorem Charter.Fires.answers (fires : charter.Fires fire) (running : List Running) (free : Bool) :
    charter.Answers running free fun way => Engine.callProcedure (fire way) := by
  have called (procedure : Tag.Procedure) :
      Steady charter running fun way => Engine.callProcedure (fire way) procedure :=
    .bind (fires running _ _ (.inr rfl)) fun _ => .pure _
  exact ⟨fun _ => called, fun procedure start started _ => called procedure _ (charter.calls started)⟩

theorem Engine.findScript_granted {world : World η} (fit : charter.fit world) {name : String}
    {script : Script} (found : findScript (.named name) world = .ok script) :
    charter.terms.script script := by
  rw [findScript] at found
  split at found
  · rename_i known
    obtain rfl := Except.ok.inj found
    exact charter.script fit known
  · cases found

/-! Within a fixed budget it does not matter what comes of a script that outruns it. -/

section

variable {free : Bool} (lenient : charter.regime.strict = false) (regular : engine.Regular free)
  (commands : engine.Commands charter)

include regular commands

namespace Engine

theorem executes_of_fires (fires : charter.Fires fire) (running : List Running) :
    Executes charter engine fire running :=
  fun world ref entry rest fit taken => executeEntry_steady regular (fires.answers _ free)
    (commands fire fires running world ref entry rest fit taken)

include lenient

theorem drain_within (fires : charter.Fires fire) (running : List Running) (ref : QueueRef)
    (budget : Nat) : Steady charter running fun way => engine.drain (fire way) ref budget := by
  induction budget with
  | zero => exact .outOfBudget lenient
  | succ budget ih =>
      intro start started
      exact drainOnce_yields (executes_of_fires regular commands fires running) started
        fun entry later executed => ih.after executed.passage started

theorem startQueue_within (fires : charter.Fires fire) (running : List Running) (budget : Nat)
    (ref : QueueRef) :
    Steady charter running fun way => engine.startQueue (fire way) budget ref :=
  startQueue_steady (executes_of_fires regular commands fires running) (fun _ => budget)
    fun start fit _ => drain_within lenient regular commands fires running ref budget start fit

theorem revolve_within (fires : charter.Fires fire) (running : List Running) (budget : Nat)
    (ref : QueueRef) :
    Steady charter running fun way => engine.revolve (fire way) budget ref :=
  revolve_steady (executes_of_fires regular commands fires running) (fun _ => budget)
    fun start fit _ => drain_within lenient regular commands fires running ref budget start fit

theorem fireWith_within (fires : charter.Fires fire) (running : List Running) (budget : Nat)
    {request : FireRequest} {start : Tag.Evaluation (World η)} (started : charter.fit start.world)
    (granted : ∀ script, findScript request.source start.world = .ok script →
      charter.terms.script script)
    (joins : charter.terms.sharing = true ∨ running = [] ∨ request.options.id = none) :
    Yields charter.regime (fun way => engine.fireWith (fire way) budget request) start
      fun answer later => Fired charter.terms running start.world answer later.world :=
  fireWith_yields (fun _ => budget) (startQueue_within lenient regular commands fires running budget)
    started granted joins

theorem fire_within (budget : Nat) : charter.Fires fun _ => engine.fire budget := by
  induction budget with
  | zero => exact fun _ _ _ _ => .outOfBudget lenient
  | succ budget ih =>
      intro running name options joins start started
      exact (fireWith_within lenient regular commands ih running budget started
        (fun _ found => findScript_granted started found)
        (joins.imp_right .inr)).weaken fun _ _ fired => fired.passage

theorem fire_fired (budget : Nat) {request : FireRequest} {start : Tag.Evaluation (World η)}
    (started : charter.fit start.world)
    (granted : ∀ script, findScript request.source start.world = .ok script →
      charter.terms.script script) :
    Yields charter.regime (fun _ => engine.fire budget request) start
      fun answer later => Fired charter.terms [] start.world answer later.world := by
  cases budget with
  | zero => exact ⟨none, .of_forall fun _ => rfl, lenient⟩
  | succ budget =>
      exact fireWith_within lenient regular commands
        (fire_within lenient regular commands budget) [] budget started granted (.inr (.inl rfl))

end Engine

end

end

end TagScript
