import TagScript.Proofs.Engine.Plain
import TagScript.Proofs.Queue.Turn
import TagScript.Proofs.Tag.Yield

/-! What happens in an engine from one moment to another, told with the entries that are under
execution. A stride is one small change. A passage is made of strides and of whole executions of
entries, calls of procedures and firings, each of which is a passage within. -/

namespace TagScript

variable {η μ α β γ : Type}

structure Queue.Similar (queue other : Queue) : Prop where
  phase : other.phase = queue.phase
  entries : other.entries = queue.entries
  history : other.history = queue.history

theorem Queue.Alike.similar {queue other : Queue} (alike : queue.Alike other) :
    queue.Similar other :=
  ⟨alike.phase, alike.entries, alike.history⟩

structure Running where
  queue : QueueRef
  entry : Entry

/-- What the engine is held to: which scripts are fired, what an entry may put in its own place, and
whether a script fired on the way may join a queue that was started before. -/
structure Terms where
  script : Script → Prop
  splice : Entry → List Entry → Prop
  sharing : Bool

namespace World

structure Aside (world other : World η) : Prop where
  queues : other.queues = world.queues
  scripts : other.scripts = world.scripts
  outcomes : other.outcomes = world.outcomes
  fires : other.fires = world.fires
  calls : other.calls = world.calls
  marks : other.marks = world.marks
  jobs : other.scheduler.jobs = world.scheduler.jobs
  live : ∀ named ∈ other.live, named ∈ world.live ∨ named.2.index < world.queues.size

theorem Aside.of_live {world other : World η} (queues : other.queues = world.queues)
    (scripts : other.scripts = world.scripts) (outcomes : other.outcomes = world.outcomes)
    (fires : other.fires = world.fires) (calls : other.calls = world.calls)
    (marks : other.marks = world.marks) (jobs : other.scheduler.jobs = world.scheduler.jobs)
    (live : other.live ⊆ world.live) : world.Aside other :=
  ⟨queues, scripts, outcomes, fires, calls, marks, jobs, fun _ member => .inl (live member)⟩

theorem Aloof.aside {world other : World η} (aloof : world.Aloof other) : world.Aside other := by
  obtain ⟨events, host, rfl⟩ := aloof
  exact .of_live rfl rfl rfl rfl rfl rfl rfl (List.Subset.refl _)

theorem report_aside (host : Host) (queue : Option String) (text : String) (world : World η) :
    world.Aside (host.report queue text world) :=
  .of_live rfl rfl rfl rfl rfl rfl rfl (List.Subset.refl _)

theorem checkHold_aside (ref : QueueRef) (world : World η) : world.Aside (world.checkHold ref) := by
  unfold checkHold
  split <;> exact .of_live rfl rfl rfl rfl rfl rfl rfl (List.Subset.refl _)

theorem tell_aside (host : Host) (queue : Option String) (text : String) (world : World η) :
    world.Aside (host.tell queue text world) :=
  .of_live rfl rfl rfl rfl rfl rfl rfl (List.Subset.refl _)

def takeUp (ref : QueueRef) (entry : Entry) (rest : Queue) (world : World η) : World η :=
  (world.modifyQueue ref fun _ => rest).modifyQueue ref (Queue.note (.started entry))

def enqueue (ref : QueueRef) (script : Script) (world : World η) : World η :=
  let (fire, world) := world.freshFire
  (world.markFired ref fire).modifyQueue ref (Queue.addEntries (script.instantiate (some fire)))

def conclude (ref : QueueRef) (fire : FireId) (world : World η) : World η :=
  if (world.queue ref).isStopped then { world with outcomes := (world.outcomes.take fire).2 }
  else world

end World

/-- One small change, with these entries under execution, the innermost first. -/
inductive Stride (terms : Terms) : List Running → World η → World η → Prop
  | aside {running : List Running} {world other : World η} (aside : world.Aside other) :
      Stride terms running world other
  | adjust (running : List Running) (world : World η) (ref : QueueRef) (change : Queue → Queue)
      (similar : ∀ queue : Queue, queue.Similar (change queue)) :
      Stride terms running world (world.modifyQueue ref change)
  | make (running : List Running) (world : World η) (id : String) (kind : QueueKind) :
      Stride terms running world (world.makeQueue id kind).2
  | clear (running : List Running) (world : World η) (ref : QueueRef) :
      Stride terms running world (world.modifyQueue ref Queue.clearEntries)
  | close (running : List Running) (world : World η) (ref : QueueRef)
      (runs : (world.queue ref).isStopped = false) :
      Stride terms running world (world.modifyQueue ref Queue.close)
  | launch (running : List Running) (world : World η) (ref : QueueRef)
      (new : (world.queue ref).phase = .constructing) :
      Stride terms running world (world.modifyQueue ref Queue.launch)
  | dry (running : List Running) (world : World η) (ref : QueueRef) :
      Stride terms running world (world.modifyQueue ref (Queue.note .ranDry))
  /-- The innermost entry puts others in its place. -/
  | splice (running : List Running) (world : World η) (ref : QueueRef) {entry : Entry}
      {entries : List Entry} (allowed : terms.splice entry entries) :
      Stride terms (⟨ref, entry⟩ :: running) world
        (world.modifyQueue ref (Queue.injectEntries 0 entries))
  | record (running : List Running) (world : World η) (ref : QueueRef) (entry : Entry)
      (value : String) :
      Stride terms (⟨ref, entry⟩ :: running) world
        (world.record ref (entry.fire.getD (world.queue ref).fire) value)

/-- What happens between two moments with the same entries under execution. -/
inductive Passage (terms : Terms) : List Running → World η → World η → Prop
  | refl (running : List Running) (world : World η) : Passage terms running world world
  | step {running : List Running} {world between later : World η}
      (passage : Passage terms running world between) (stride : Stride terms running between later) :
      Passage terms running world later
  | execute {running : List Running} {world between later : World η} {ref : QueueRef}
      {entry : Entry} {rest : Queue} (passage : Passage terms running world between)
      (taken : (between.queue ref).nextStep between.now = (.execute entry, rest))
      (inside : Passage terms (⟨ref, entry⟩ :: running) (between.takeUp ref entry rest) later) :
      Passage terms running world (later.modifyQueue ref (Queue.note (.executed entry)))
  /-- A procedure is called and counted. -/
  | call {running : List Running} {world between later : World η}
      (passage : Passage terms running world between) (few : between.calls < Vocabulary.callLimit)
      (inside : Passage terms running { between with calls := between.calls + 1 } later) :
      Passage terms running world { later with calls := later.calls - 1 }
  /-- A script is fired, up to the telling of its outcome. -/
  | fire {running : List Running} {world between later : World η} {ref : QueueRef}
      {script : Script} (passage : Passage terms running world between)
      (granted : terms.script script) (made : ref.index < between.queues.size)
      (joins : terms.sharing = true ∨ running = [] ∨ (between.queue ref).phase = .constructing)
      (inside : Passage terms running (between.enqueue ref script) later) :
      Passage terms running world (later.conclude ref ⟨between.fires⟩)

theorem World.record_eq (ref : QueueRef) (fire : FireId) (value : String) (world : World η) :
    ∃ events, world.record ref fire value =
      { world with
        events
        outcomes := (world.outcomes.record fire value).2
        marks := .determined fire ref (world.queue ref).history.length value ::
          ((world.outcomes.record fire value).1.map .dropped ++ world.marks)
        notes := .determined fire value :: world.notes } := by
  have logged (dropped : List FireId) (later : World η) :
      ∃ events, dropped.foldl logDropped later = { later with events } := by
    induction dropped generalizing later with
    | nil => exact ⟨later.events, rfl⟩
    | cons oldest rest ih =>
        obtain ⟨events, same⟩ := ih (later.logDropped oldest)
        exact ⟨events, same⟩
  exact logged _ _

namespace Stride

variable {terms : Terms} {running : List Running} {world later : World η}

theorem size_le (stride : Stride terms running world later) :
    world.queues.size ≤ later.queues.size := by
  cases stride with
  | aside aside => rw [aside.queues]
  | adjust | clear | close | launch | dry | splice => rw [World.size_modifyQueue]
  | make => exact World.size_le_makeQueue _ _ world
  | record =>
      obtain ⟨events, same⟩ := world.record_eq _ _ _
      rw [same]

theorem jobs_eq (stride : Stride terms running world later) :
    later.scheduler.jobs = world.scheduler.jobs := by
  cases stride with
  | aside aside => exact aside.jobs
  | adjust | clear | close | launch | dry | splice | make => rfl
  | record =>
      obtain ⟨events, same⟩ := world.record_eq _ _ _
      rw [same]

theorem calls_eq (stride : Stride terms running world later) : later.calls = world.calls := by
  cases stride with
  | aside aside => exact aside.calls
  | adjust | clear | close | launch | dry | splice | make => rfl
  | record =>
      obtain ⟨events, same⟩ := world.record_eq _ _ _
      rw [same]

theorem live_subset (stride : Stride terms running world later) :
    ∀ named ∈ later.live, named ∈ world.live ∨ named.2.index < world.queues.size := by
  cases stride with
  | aside aside => exact aside.live
  | adjust | clear | close | launch | dry | splice | make => exact fun _ member => .inl member
  | record =>
      obtain ⟨events, same⟩ := world.record_eq _ _ _
      rw [same]
      exact fun _ member => .inl member

end Stride

namespace World

theorem conclude_eq (ref : QueueRef) (fire : FireId) (world : World η) :
    ∃ outcomes, world.conclude ref fire = { world with outcomes } := by
  unfold conclude
  split
  · exact ⟨_, rfl⟩
  · exact ⟨world.outcomes, rfl⟩

@[simp]
theorem size_takeUp (ref : QueueRef) (entry : Entry) (rest : Queue) (world : World η) :
    (world.takeUp ref entry rest).queues.size = world.queues.size := by
  rw [takeUp, size_modifyQueue, size_modifyQueue]

@[simp]
theorem size_enqueue (ref : QueueRef) (script : Script) (world : World η) :
    (world.enqueue ref script).queues.size = world.queues.size := size_modifyQueue _ _ _

def LiveMade (world : World η) : Prop :=
  ∀ named ∈ world.live, named.2.index < world.queues.size

theorem LiveMade.takeUp {world : World η} (made : world.LiveMade) {ref : QueueRef} {entry : Entry}
    {rest : Queue} : (world.takeUp ref entry rest).LiveMade :=
  fun named member => by simpa using made named member

theorem LiveMade.enqueue {world : World η} (made : world.LiveMade) {ref : QueueRef}
    {script : Script} : (world.enqueue ref script).LiveMade :=
  fun named member => by simpa using made named member

end World

namespace Passage

variable {terms : Terms} {running : List Running} {world between later : World η}

theorem single (stride : Stride terms running world later) : Passage terms running world later :=
  .step (.refl running world) stride

theorem trans (first : Passage terms running world between)
    (second : Passage terms running between later) : Passage terms running world later := by
  induction second with
  | refl => exact first
  | step _ stride ih => exact .step (ih first) stride
  | execute _ taken inside ih _ => exact .execute (ih first) taken inside
  | call _ few inside ih _ => exact .call (ih first) few inside
  | fire _ granted made joins inside ih _ => exact .fire (ih first) granted made joins inside

/-- What every stride keeps is kept by every passage, if it is also kept where entries are taken out
and finished, where calls are counted, and where scripts are fired. -/
theorem keeps {holds : World η → Prop}
    (step : ∀ {running : List Running} {world later : World η},
      Stride terms running world later → holds world → holds later)
    (taken : ∀ {world : World η} {ref : QueueRef} {entry : Entry} {rest : Queue},
      (world.queue ref).nextStep world.now = (.execute entry, rest) → holds world →
      holds (world.takeUp ref entry rest))
    (finished : ∀ {world : World η} (ref : QueueRef) (entry : Entry), holds world →
      holds (world.modifyQueue ref (Queue.note (.executed entry))))
    (counted : ∀ {world : World η} (calls : Nat), holds world → holds { world with calls })
    (fired : ∀ {world : World η} {script : Script} (ref : QueueRef), terms.script script →
      holds world → holds (world.enqueue ref script))
    (told : ∀ {world : World η} (outcomes : OutcomeStore), holds world →
      holds { world with outcomes })
    (passage : Passage terms running world later) (start : holds world) : holds later := by
  induction passage with
  | refl => exact start
  | step _ stride ih => exact step stride (ih start)
  | execute _ takes _ ih inside => exact finished _ _ (inside (taken takes (ih start)))
  | call _ _ _ ih inside => exact counted _ (inside (counted _ (ih start)))
  | fire _ granted _ _ _ ih inside =>
      obtain ⟨outcomes, same⟩ := World.conclude_eq _ _ _
      rw [same]
      exact told outcomes (inside (fired _ granted (ih start)))

theorem jobs_eq (passage : Passage terms running world later) :
    later.scheduler.jobs = world.scheduler.jobs :=
  passage.keeps (fun stride same => stride.jobs_eq.trans same) (fun _ same => same)
    (fun _ _ same => same) (fun _ same => same) (fun _ _ same => same) (fun _ same => same) rfl

theorem calls_eq (passage : Passage terms running world later) : later.calls = world.calls := by
  induction passage with
  | refl => rfl
  | step _ stride ih => exact stride.calls_eq.trans ih
  | execute _ _ _ ih inside => exact inside.trans ih
  | call _ _ _ ih inside =>
      rw [← ih]
      simp only [inside, Nat.add_sub_cancel]
  | fire _ _ _ _ _ ih inside =>
      obtain ⟨outcomes, same⟩ := World.conclude_eq _ _ _
      rw [same]
      exact inside.trans ih

theorem liveMade (passage : Passage terms running world later) (made : world.LiveMade) :
    later.LiveMade := by
  refine passage.keeps ?_ ?_ ?_ ?_ ?_ ?_ made
  · intro running world later stride made named member
    have bound : named.2.index < world.queues.size :=
      (stride.live_subset named member).elim (made named) id
    exact Nat.lt_of_lt_of_le bound stride.size_le
  · exact fun _ made => made.takeUp
  · exact fun _ _ made named member => by simpa using made named member
  · exact fun _ made => made
  · exact fun _ _ made => made.enqueue
  · exact fun _ made => made

end Passage

open Tag (Regime Serves Yields)

namespace Tag.Yields

variable {regime : Regime μ} {start : Evaluation (World η)} {after : β → Evaluation (World η) → Prop}

theorem queue_bind {next : μ → Queue → RunM η β} {ref : QueueRef}
    (rest : Yields regime (fun way => next way (start.world.queue ref)) start after) :
    Yields regime (fun way => RunM.queue ref >>= next way) start after := rest

theorem update_bind {change : World η → World η} {next : μ → Unit → RunM η β}
    (rest : Yields regime (fun way => next way ())
      { start with world := change start.world } after) :
    Yields regime (fun way => RunM.update change >>= next way) start after := rest

theorem updateGet_bind {change : World η → γ × World η} {next : μ → γ → RunM η β}
    (rest : Yields regime (fun way => next way (change start.world).1)
      { start with world := (change start.world).2 } after) :
    Yields regime (fun way => RunM.updateGet change >>= next way) start after := rest

theorem updateGet {change : World η → β × World η}
    (holds : after (change start.world).1 { start with world := (change start.world).2 }) :
    Yields regime (fun _ => RunM.updateGet change) start after :=
  .of_run (fun _ => rfl) holds

end Tag.Yields

/-- In what regime an engine is looked at, what it is held to, and what holds of its world at every
moment. -/
structure Charter (η μ : Type) where
  regime : Regime μ
  terms : Terms
  fit : World η → Prop
  live : ∀ {world : World η}, fit world → ∀ named ∈ world.live,
    named.2.index < world.queues.size
  script : ∀ {world : World η} {name : String} {script : Script}, fit world →
    world.script? name = some script → terms.script script
  passes : ∀ {running : List Running} {world later : World η},
    Passage terms running world later → fit world → fit later
  takes : ∀ {world : World η} {ref : QueueRef} {entry : Entry} {rest : Queue}, fit world →
    (world.queue ref).nextStep world.now = (.execute entry, rest) →
    fit (world.takeUp ref entry rest)
  calls : ∀ {world : World η}, fit world → fit { world with calls := world.calls + 1 }
  fires : ∀ {world : World η} {script : Script} (ref : QueueRef), fit world →
    terms.script script → fit (world.enqueue ref script)
  reschedules : ∀ {world : World η} (scheduler : Scheduler QueueRef AsyncWork), fit world →
    fit { world with scheduler }
  registers : ∀ {world : World η} {script : Script}, fit world → terms.script script →
    fit (world.registerScript script)

def Steady (charter : Charter η μ) (running : List Running) (act : μ → RunM η α) : Prop :=
  ∀ start, charter.fit start.world → Yields charter.regime act start fun _ later =>
    Passage charter.terms running start.world later.world

namespace Steady

variable {charter : Charter η μ} {running : List Running} {act : μ → RunM η α}
  {next : μ → α → RunM η β}

theorem pure (result : α) :
    Steady charter running fun _ => (Pure.pure result : RunM η α) :=
  fun _ _ => .pure (.refl running _)

theorem after {origin : World η} {start : Tag.Evaluation (World η)}
    (passage : Passage charter.terms running origin start.world) (fit : charter.fit origin)
    (steady : Steady charter running act) :
    Yields charter.regime act start fun _ later =>
      Passage charter.terms running origin later.world :=
  (steady start (charter.passes passage fit)).weaken fun _ _ last => passage.trans last

theorem bind_knowing {known : α → Prop} (first : Steady charter running act)
    (knows : ∀ way start result later, (act way).run start = some (result, later) → known result)
    (rest : ∀ result, known result → Steady charter running fun way => next way result) :
    Steady charter running fun way => act way >>= next way := by
  intro start started
  have yields := (first start started).knowing fun way => knows way start
  exact .bind yields fun result later reached => (rest result reached.2).after reached.1 started

theorem bind (first : Steady charter running act)
    (rest : ∀ result, Steady charter running fun way => next way result) :
    Steady charter running fun way => act way >>= next way :=
  first.bind_knowing (fun _ _ _ _ _ => trivial) fun result _ => rest result

theorem world_bind {next : μ → World η → RunM η β}
    (rest : ∀ world, charter.fit world → Steady charter running fun way => next way world) :
    Steady charter running fun way => RunM.world >>= next way :=
  fun start started => .world_bind (rest start.world started start started)

theorem queue_bind {next : μ → Queue → RunM η β} {ref : QueueRef}
    (rest : ∀ queue, Steady charter running fun way => next way queue) :
    Steady charter running fun way => RunM.queue ref >>= next way :=
  fun start started => rest (start.world.queue ref) start started

theorem now_bind {next : μ → Duration → RunM η β}
    (rest : ∀ now, Steady charter running fun way => next way now) :
    Steady charter running fun way => RunM.now >>= next way :=
  fun start started => rest start.world.now start started

theorem stride {change : World η → World η}
    (strides : ∀ world, Stride charter.terms running world (change world)) :
    Steady charter running fun _ => RunM.update change :=
  fun start _ => .of_run (fun _ => rfl) (.single (strides start.world))

theorem updateGet {change : World η → γ × World η}
    (passes : ∀ world, Passage charter.terms running world (change world).2) :
    Steady charter running fun _ => RunM.updateGet change :=
  fun start _ => .of_run (fun _ => rfl) (passes start.world)

theorem aloof {change : World η → World η} (aloof : ∀ world : World η, world.Aloof (change world)) :
    Steady charter running fun _ => RunM.update change :=
  stride fun world => .aside (aloof world).aside

theorem emit (event : Event) : Steady charter running fun _ => (RunM.emit event : RunM η Unit) :=
  aloof (World.emit_aloof event)

theorem log (level : LogLevel) (text : String) :
    Steady charter running fun _ => (RunM.log level text : RunM η Unit) :=
  emit _

theorem written {change : World η → World η}
    (aside : ∀ world : World η, world.Aside (change world)) :
    Steady charter running fun _ => RunM.update change :=
  stride fun world => .aside (aside world)

theorem jot (note : Note) : Steady charter running fun _ => (RunM.jot note : RunM η Unit) :=
  written fun _ => .of_live rfl rfl rfl rfl rfl rfl rfl (List.Subset.refl _)

theorem adjust {ref : QueueRef} {change : Queue → Queue}
    (similar : ∀ queue : Queue, queue.Similar (change queue)) :
    Steady charter running fun _ => (RunM.modifyQueue ref change : RunM η Unit) :=
  stride fun world => .adjust running world ref change similar

theorem release (ref : QueueRef) :
    Steady charter running fun _ => (RunM.release ref : RunM η Unit) :=
  bind (written fun world => world.checkHold_aside ref) fun _ => adjust fun _ => ⟨rfl, rfl, rfl⟩

theorem ite {test : Prop} [Decidable test] {act other : μ → RunM η α}
    (yes : Steady charter running act) (no : Steady charter running other) :
    Steady charter running fun way => if test then act way else other way := by
  split
  · exact yes
  · exact no

theorem when {test : Prop} [Decidable test] {rest : μ → RunM η β} (first : Steady charter running act)
    (following : Steady charter running rest) :
    Steady charter running fun way => if test then act way >>= fun _ => rest way else rest way :=
  ite (bind first fun _ => following) following

theorem forM {each : μ → α → RunM η PUnit}
    (steady : ∀ item, Steady charter running fun way => each way item) (items : List α) :
    Steady charter running fun way => items.forM (each way) := by
  induction items with
  | nil => exact pure _
  | cons item rest ih =>
      simp only [List.forM_eq_forM, List.forM_cons]
      exact bind (steady item) fun _ => ih

theorem forM_option {each : α → RunM η PUnit}
    (steady : ∀ item, Steady charter running fun _ => each item) (item : Option α) :
    Steady charter running fun _ => item.forM each := by
  cases item with
  | none => exact pure _
  | some found => exact steady found

theorem mapM {each : α → RunM η β}
    (steady : ∀ item, Steady charter running fun _ => each item) (items : List α) :
    Steady charter running fun _ => items.mapM each := by
  induction items with
  | nil =>
      simp only [List.mapM_nil]
      exact pure _
  | cons item rest ih =>
      simp only [List.mapM_cons]
      exact bind (steady item) fun _ => bind ih fun _ => pure _

theorem outOfBudget (lenient : charter.regime.strict = false) :
    Steady charter running fun _ => (RunM.outOfBudget : RunM η α) :=
  fun _ _ => ⟨none, .of_forall fun _ => rfl, lenient⟩

theorem of_serves (serves : ∀ origin, charter.fit origin → Serves charter.regime
      (fun state => Passage charter.terms running origin state.world) act) :
    Steady charter running act :=
  fun start started => serves start.world started start (.refl running _)

theorem serves (steady : Steady charter running act) {origin : World η}
    (fit : charter.fit origin) :
    Serves charter.regime (fun state => Passage charter.terms running origin state.world) act :=
  fun _ reached => steady.after reached fit

end Steady

end TagScript
