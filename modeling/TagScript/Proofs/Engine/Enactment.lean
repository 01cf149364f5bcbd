import TagScript.Proofs.Engine.InStep
import TagScript.Proofs.Engine.Performance

/-! Executing entries one inside another: what an entry stands for is executed to its end before what
comes after the entry, and nothing ever waits on the queue. A queue on which all of it waits, with what an
entry stands for put in front of all else, executes the same entries in the same order. -/

namespace TagScript

variable {η : Type}

open RunM (Secures)

namespace Engine

def executeFilled (engine : Engine η) (fire : Firing η) (ref : QueueRef) (entry : Entry) :
    RunM η (FilledEntry × EntryOutcome) := do
  let ready ← engine.fillEntry fire ref entry
  let outcome ← engine.dispatch fire ref ready (blocksOfFilled ready.filled)
  return (ready, outcome)

theorem executeEntry_eq_map (engine : Engine η) (fire : Firing η) (ref : QueueRef) (entry : Entry) :
    engine.executeEntry fire ref entry = Prod.snd <$> engine.executeFilled fire ref entry := by
  rw [executeEntry_eq, executeFilled]
  simp only [map_bind, map_pure, bind_pure]

/-- What an executed entry stands for, which its filled words alone tell. One that went wrong stands for
nothing. -/
def offspring (engine : Engine η) (scripts : Table Script) (executed : FilledEntry × EntryOutcome) :
    List Entry :=
  if executed.2 = .executed then engine.unfolding scripts executed.1 else []

/-- Executes an entry of a queue on which nothing waits, and then what it stands for, entry after entry
in the same way. A queue that has stopped executes nothing. -/
def nest (engine : Engine η) (fire : Firing η) (ref : QueueRef) : Nat → Entry → RunM η Unit
  | 0, _ => RunM.outOfBudget
  | depth + 1, entry => do
    if (← RunM.queue ref).isStopped then return
    let executed ← engine.executeFilled fire ref entry
    RunM.modifyQueue ref Queue.clearEntries
    let scripts := (← RunM.world).scripts
    (engine.offspring scripts executed).forM (nest engine fire ref depth)

/-- Fires a script on a queue whose entries are executed one inside another. -/
def enact (engine : Engine η) (fire : Firing η) (depth : Nat) (script : Script)
    (options : FireOptions) : RunM η Unit := do
  let found ← engine.queueForFiring script options
  let number ← RunM.updateGet World.freshFire
  RunM.modifyQueue found.1 fun queue => (equip options { queue with fire := number }).launch
  (script.entries.map (script.issue (some number))).forM (engine.nest fire found.1 depth)
  Queue.stop engine.host found.1

end Engine

structure Queue.Unhindered (queue : Queue) : Prop where
  paused : queue.paused = false
  undelayed : queue.delayUntil = none
  unheld : queue.holds = 0

structure Queue.Lined (entries : List Entry) (queue : Queue) : Prop extends queue.Unhindered where
  waiting : queue.isStopped = true ∨ queue.entries = entries

namespace Queue

variable {queue : Queue} {entries : List Entry}

theorem Unhindered.release (unhindered : queue.Unhindered) : queue.release.Unhindered where
  paused := unhindered.paused
  undelayed := unhindered.undelayed
  unheld := by simp [Queue.release, unhindered.unheld]

theorem Unhindered.ordinary {change : Queue → Queue} (ordinary : Ordinary change)
    (unhindered : queue.Unhindered) : (change queue).Unhindered := by
  cases ordinary <;> exact ⟨unhindered.paused, unhindered.undelayed, unhindered.unheld⟩

theorem Unhindered.isBlocked (unhindered : queue.Unhindered) (now : Duration) :
    queue.isBlocked now = false := by
  simp [Queue.isBlocked, isDelayed, unhindered.paused, unhindered.undelayed, unhindered.unheld]

theorem Lined.release (lined : queue.Lined entries) : queue.release.Lined entries :=
  ⟨lined.toUnhindered.release, lined.waiting⟩

end Queue

namespace Likeness

theorem lined_lawful (entries : List Entry) : (unlisted (Queue.Lined entries)).Lawful :=
  unlisted_lawful fun _ => Queue.Lined.release

theorem unhindered_lawful : (unlisted Queue.Unhindered).Lawful :=
  unlisted_lawful fun _ => Queue.Unhindered.release

theorem unhindered_pliant : (unlisted Queue.Unhindered).Pliant :=
  unlisted_pliant fun ordinary _ => Queue.Unhindered.ordinary ordinary

end Likeness

structure World.Lined (ref : QueueRef) (entries : List Entry) (world : World η) : Prop where
  made : ref.index < world.queues.size
  waiting : (world.queue ref).isStopped = true ∨ (world.queue ref).entries = entries

namespace World.Lined

variable {ref : QueueRef} {entries : List Entry} {world : World η}

theorem steadfast : Steadfast (World.Lined (η := η) ref entries) where
  same := fun {world later} lined _ queues => by
    have here : later.queue ref = world.queue ref := by rw [World.queue, queues, World.queue]
    exact ⟨queues ▸ lined.made, here ▸ lined.waiting⟩
  changed := fun {world} target {change} phase same lined => by
    refine ⟨by simpa using lined.made, ?_⟩
    rcases world.queue_modifyQueue_cases target ref change with ⟨_, _, changed⟩ | kept
    · rw [changed, Queue.isStopped, phase, same]
      exact lined.waiting
    · rw [kept]
      exact lined.waiting
  closed := fun {world} target lined => by
    refine ⟨by simpa using lined.made, ?_⟩
    rcases world.queue_modifyQueue_cases target ref Queue.close with ⟨_, _, changed⟩ | kept
    · rw [changed]
      exact .inl rfl
    · rw [kept]
      exact lined.waiting

theorem spliced (lined : world.Lined ref entries) (items : List Entry) :
    (world.modifyQueue ref (Queue.injectEntries 0 items)).Lined ref (items ++ entries) where
  made := by simpa using lined.made
  waiting := by
    rw [World.queue_modifyQueue_self lined.made]
    refine lined.waiting.imp id fun same => ?_
    simp [Queue.injectEntries, Queue.note, same]

end World.Lined

theorem Tag.EvalM.Parallel.follows {α σ : Type} {before after : σ → σ → Prop} {act other : EvalM σ α}
    {left right later : Evaluation σ} {result : α} (parallel : Parallel before act other after)
    (paired : left.Paired before right) (ran : act.run left = some (result, later)) :
    ∃ later', other.run right = some (result, later') ∧ later.Paired after later' := by
  have both := parallel left right paired
  rw [ran] at both
  revert both
  cases other.run right with
  | none => nofun
  | some found =>
      rintro ⟨rfl, paired⟩
      exact ⟨found.2, rfl, paired⟩

namespace Engine

variable {host : Host} {library : Script → Prop} {ref : QueueRef} {fire : Firing η}
  {entries : List Entry} {left right later : Tag.Evaluation (World η)}

theorem InStep.refit {engine : Engine η} {fit weaker : Queue → Prop} {world other : World η}
    (held : engine.InStep library ref fit world other) (fits : weaker (world.queue ref)) :
    engine.InStep library ref weaker world other :=
  ⟨⟨held.twinned.made, held.twinned.elsewhere, ⟨held.twinned.own.1, fits⟩, held.twinned.timing, trivial⟩,
    held.furnished⟩

theorem InStep.lined {engine : Engine η} {world other : World η}
    (held : engine.InStep library ref (Queue.Lined entries) world other) : world.Lined ref entries :=
  ⟨held.twinned.made, held.twinned.own.2.waiting⟩

theorem InStep.adjust {engine : Engine η} {fit weaker : Queue → Prop} {world other : World η}
    (held : engine.InStep library ref fit world other) {change : Queue → Queue}
    (same : (change (world.queue ref)).unlisted = (world.queue ref).unlisted)
    (waiting : ∀ entry ∈ (change (world.queue ref)).entries, engine.Structured library entry)
    (fits : weaker (change (world.queue ref))) :
    engine.InStep library ref weaker (world.modifyQueue ref change) other := by
  have alike : (Likeness.unlisted weaker).own (change (world.queue ref)) (id (other.queue ref)) :=
    ⟨same.trans held.twinned.own.1, fits⟩
  have twinned := held.twinned.change alike
  rw [World.modifyQueue_id] at twinned
  exact ⟨twinned, held.furnished.changed ref waiting⟩

theorem InStep.adjustOther {engine : Engine η} {fit : Queue → Prop} {world other : World η}
    (held : engine.InStep library ref fit world other) {change : Queue → Queue}
    (same : (change (other.queue ref)).unlisted = (other.queue ref).unlisted) :
    engine.InStep library ref fit world (other.modifyQueue ref change) := by
  have alike : (Likeness.unlisted fit).own (id (world.queue ref)) (change (other.queue ref)) :=
    ⟨held.twinned.own.1.trans same.symm, held.twinned.own.2⟩
  have twinned := held.twinned.change alike
  rw [World.modifyQueue_id] at twinned
  exact ⟨twinned, held.furnished⟩

variable (calls : ∀ entries procedure, (sizeless host).KeepsStep library ref (Queue.Lined entries)
  (callProcedure fire procedure))

include calls

theorem executeFilled_inStep {entry : Entry} {executed : FilledEntry × EntryOutcome}
    (structured : (sizeless host : Engine η).Structured library entry)
    (paired : left.Paired ((sizeless host).InStep library ref (Queue.Lined entries)) right)
    (ran : ((sizeless host).executeFilled fire ref entry).run left = some (executed, later)) :
    ∃ later', ((sizeless host).executeFilled fire ref entry).run right = some (executed, later') ∧
      later.Paired ((sizeless host).InStep library ref
        (Queue.Lined ((sizeless host : Engine η).offspring later.world.scripts executed ++ entries)))
        later' := by
  obtain ⟨ready, between, ranFill, ran⟩ := Tag.EvalM.run_bind_eq_some.1 ran
  obtain ⟨outcome, finish, ranDispatch, ran⟩ := Tag.EvalM.run_bind_eq_some.1 ran
  obtain ⟨rfl, rfl⟩ := Tag.EvalM.run_pure_eq_some.1 ran
  have fills : Fills entry ready := (sizeless host).fillEntry_filled fire ref entry _ _ _ ranFill
  obtain ⟨between', ranFill', filled⟩ :=
    (fillEntry_inStep (Likeness.lined_lawful entries) (calls entries) ref entry).follows paired ranFill
  -- Carrying out the entry changes what waits, so for that the queue is only known to be unhindered.
  have unhindered : between.Paired ((sizeless host).InStep library ref Queue.Unhindered) between' :=
    filled.weaken fun _ _ held => held.refit held.twinned.own.2.toUnhindered
  obtain ⟨later', ranDispatch', carried⟩ :=
    (dispatch_inStep Likeness.unhindered_lawful (fun _ => Likeness.unhindered_pliant) structured
      fills).follows unhindered ranDispatch
  refine ⟨later', Tag.EvalM.run_bind_eq_some.2 ⟨ready, between', ranFill',
    Tag.EvalM.run_bind_eq_some.2 ⟨outcome, later', ranDispatch', rfl⟩⟩, ?_⟩
  have spliced := @dispatch_unfolds _ (sizeless host) _ _ fire ref ready between.world.scripts
    (World.Lined.steadfast.knowing _) (World.Lined.steadfast.knowing _) (fun _ held => held.2)
    (fun nothing _ held => by rw [nothing]; exact held)
    (fun world held => ⟨held.1.spliced _, held.2⟩) (fills.known structured) _ _ _
    ⟨filled.world.lined, rfl⟩ ranDispatch
  have waits : finish.world.Lined ref
      ((sizeless host : Engine η).offspring finish.world.scripts (ready, outcome) ++ entries) := by
    by_cases done : outcome = .executed
    · simp only [done, ↓reduceIte] at spliced
      simp only [offspring, done, ↓reduceIte, spliced.2]
      exact spliced.1
    · simp only [done, ↓reduceIte] at spliced
      simp only [offspring, done, ↓reduceIte]
      exact spliced.1
  exact ⟨carried.here, carried.there, carried.token, carried.bound,
    carried.world.refit ⟨carried.world.twinned.own.2, waits.waiting⟩⟩

theorem drain_takes {budget : Nat} {entry : Entry} {finish : Tag.Evaluation (World η)}
    (paired : left.Paired ((sizeless host).InStep library ref (Queue.Lined (entry :: entries))) right)
    (runs : (left.world.queue ref).isStopped = false)
    (ran : ((sizeless host).drain fire ref (budget + 1)).run left = some ((), finish)) :
    ∃ executed later right',
      ((sizeless host).executeFilled fire ref entry).run right = some (executed, right') ∧
      later.Paired ((sizeless host).InStep library ref
        (Queue.Lined ((sizeless host : Engine η).offspring later.world.scripts executed ++ entries)))
        right' ∧
      ((sizeless host).drain fire ref budget).run later = some ((), finish) := by
  have held := paired.world
  have lined := held.twinned.own.2
  have waiting : (left.world.queue ref).entries = entry :: entries := by
    simpa [runs] using lined.waiting
  have structured := held.furnished.waiting ref
  rw [waiting] at structured
  have step : (left.world.queue ref).nextStep left.world.now =
      (.execute entry, { left.world.queue ref with entries }) := by
    simp [Queue.nextStep, runs, lined.isBlocked, waiting]
  rw [drain, run_takeStep_bind, step] at ran
  obtain ⟨_, later, ranTaken, ran⟩ := Tag.EvalM.run_bind_eq_some.1 ran
  rw [executeTaken, executeEntry_eq_map, run_modifyQueue_bind, bind_map_left] at ranTaken
  obtain ⟨executed, between, ranFilled, ranTaken⟩ := Tag.EvalM.run_bind_eq_some.1 ranTaken
  obtain ⟨_, rfl⟩ := Prod.mk.inj (Option.some.inj ranTaken)
  rw [World.modifyQueue_modifyQueue] at ranFilled
  let started (queue : Queue) : Queue := { queue with entries }.note (.started entry)
  -- To the other world, where the entry is not taken from anywhere, this makes no difference.
  have taken : (sizeless host).InStep library ref (Queue.Lined entries)
      (left.world.modifyQueue ref fun _ => started (left.world.queue ref)) right.world :=
    held.adjust rfl (fun item member => structured item (List.mem_cons_of_mem entry member))
      ⟨⟨lined.paused, lined.undelayed, lined.unheld⟩, .inr rfl⟩
  obtain ⟨right', ranOther, kept⟩ := executeFilled_inStep calls (structured entry List.mem_cons_self)
    (paired.with_world taken) ranFilled
  have fits := kept.world.twinned.own.2
  refine ⟨executed, _, right', ranOther, ?_, ran⟩
  exact kept.with_world (kept.world.adjust rfl (kept.world.furnished.waiting ref)
    ⟨⟨fits.paused, fits.undelayed, fits.unheld⟩, fits.waiting⟩)

omit calls in
theorem forM_nest_of_stopped {engine : Engine η} (depth : Nat) {state : Tag.Evaluation (World η)}
    (stopped : (state.world.queue ref).isStopped = true) (block : List Entry) :
    (block.forM (engine.nest fire ref (depth + 1))).run state = some ((), state) := by
  induction block with
  | nil => rfl
  | cons entry rest ih =>
      rw [List.forM_eq_forM, List.forM_cons, nest]
      simp only [bind_assoc]
      rw [run_queue_bind, stopped]
      exact ih

omit calls in
theorem nest_of_executed {engine : Engine η} {depth : Nat} {entry : Entry}
    {executed : FilledEntry × EntryOutcome} {start between finish : Tag.Evaluation (World η)}
    (runs : (start.world.queue ref).isStopped = false)
    (ran : (engine.executeFilled fire ref entry).run start = some (executed, between))
    (ranInside : ((engine.offspring between.world.scripts executed).forM (engine.nest fire ref depth)).run
      { between with world := between.world.modifyQueue ref Queue.clearEntries } = some ((), finish)) :
    (engine.nest fire ref (depth + 1) entry).run start = some ((), finish) := by
  rw [nest, run_queue_bind, runs]
  exact Tag.EvalM.run_bind_eq_some.2 ⟨executed, between, ran, ranInside⟩

/-- Draining a queue on which a block of entries waits in front of others comes to the point where just
the others wait, and until then it executes what the block stands for, one entry inside another. -/
theorem drain_nests {budget depth : Nat} (enough : budget ≤ depth) {block rest : List Entry}
    {finish : Tag.Evaluation (World η)}
    (paired : left.Paired ((sizeless host).InStep library ref (Queue.Lined (block ++ rest))) right)
    (ran : ((sizeless host).drain fire ref budget).run left = some ((), finish)) :
    ∃ less left' right', less ≤ budget ∧
      (block.forM ((sizeless host).nest fire ref depth)).run right = some ((), right') ∧
      left'.Paired ((sizeless host).InStep library ref (Queue.Lined rest)) right' ∧
      ((sizeless host).drain fire ref less).run left' = some ((), finish) := by
  -- What an entry stands for waits in front of the rest of its block, and is a block itself.
  induction budget using Nat.strongRecOn generalizing depth block rest left right with
  | ind budget ih =>
      cases budget with
      | zero => cases ran
      | succ budget =>
          obtain ⟨depth, rfl⟩ : ∃ less, depth = less + 1 := ⟨depth - 1, by omega⟩
          have held := paired.world
          have same : (left.world.queue ref).isStopped = (right.world.queue ref).isStopped :=
            Queue.reads_unlisted Queue.isStopped (fun _ => rfl) held.twinned.own.1
          cases stopped : (left.world.queue ref).isStopped with
          | true =>
              have lined := held.twinned.own.2
              exact ⟨budget + 1, left, right, Nat.le_refl _,
                forM_nest_of_stopped depth (same ▸ stopped) block,
                paired.with_world (held.refit ⟨lined.toUnhindered, .inl stopped⟩), ran⟩
          | false =>
              cases block with
              | nil => exact ⟨budget + 1, left, right, Nat.le_refl _, rfl, paired, ran⟩
              | cons entry tail =>
                  obtain ⟨executed, later, right', ranOther, kept, ran⟩ :=
                    drain_takes calls paired stopped ran
                  have cleared := kept.with_world (kept.world.adjustOther
                    (@rfl _ (right'.world.queue ref).clearEntries.unlisted))
                  -- First what the entry stands for, then the rest of the block it stood in.
                  obtain ⟨less, inner, inner', fewer, ranInner, pairedInner, ran⟩ :=
                    ih budget (Nat.lt_succ_self _) (Nat.le_of_succ_le_succ enough) cleared ran
                  have enoughLeft : less ≤ depth + 1 := by omega
                  obtain ⟨last, outer, outer', fewerLast, ranOuter, pairedOuter, ran⟩ :=
                    ih less (by omega) enoughLeft pairedInner ran
                  refine ⟨last, outer, outer', by omega, ?_, pairedOuter, ran⟩
                  rw [kept.world.twinned.scripts] at ranInner
                  rw [List.forM_eq_forM, List.forM_cons]
                  exact Tag.EvalM.run_bind_eq_some.2
                    ⟨(), inner', nest_of_executed (same ▸ stopped) ranOther ranInner, ranOuter⟩

omit calls in
theorem drain_stops {budget : Nat} {finish : Tag.Evaluation (World η)}
    (paired : left.Paired ((sizeless host).InStep library ref (Queue.Lined [])) right)
    (ran : ((sizeless host).drain fire ref budget).run left = some ((), finish)) :
    ∃ finish', (Queue.stop host ref).run right = some ((), finish') ∧
      finish'.world.notes = finish.world.notes := by
  have held := paired.world
  have lined := held.twinned.own.2
  have stops {world : World η} (twinned : world.Twinned ref (.unlisted Queue.Unhindered) right.world)
      (ran : (Queue.stop host ref).run { left with world } = some ((), finish)) :
      ∃ finish', (Queue.stop host ref).run right = some ((), finish') ∧
        finish'.world.notes = finish.world.notes := by
    obtain ⟨finish', ranToo, same⟩ := (Queue.stop_twins Likeness.unhindered_lawful host fun _ =>
      Likeness.unhindered_pliant).follows (paired.with_world twinned) ran
    exact ⟨finish', ranToo, same.world.notes.symm⟩
  cases budget with
  | zero => cases ran
  | succ budget =>
      rw [drain, run_takeStep_bind] at ran
      cases stopped : (left.world.queue ref).isStopped with
      | true =>
          have step : (left.world.queue ref).nextStep left.world.now =
              (.halted, left.world.queue ref) := by simp [Queue.nextStep, stopped]
          rw [step, World.modifyQueue_self] at ran
          refine stops (held.refit lined.toUnhindered).twinned ?_
          rw [Queue.stop, run_queue_bind, stopped]
          exact ran
      | false =>
          have dry : (left.world.queue ref).entries = [] := by simpa [stopped] using lined.waiting
          have step : (left.world.queue ref).nextStep left.world.now =
              (.finish, left.world.queue ref) := by
            simp [Queue.nextStep, stopped, lined.isBlocked, dry]
          rw [step, World.modifyQueue_self] at ran
          refine stops (held.adjust rfl (held.furnished.waiting ref) ?_).twinned ran
          exact ⟨lined.paused, lined.undelayed, lined.unheld⟩

theorem drain_enacts {budget depth : Nat} (enough : budget ≤ depth) {finish : Tag.Evaluation (World η)}
    (paired : left.Paired ((sizeless host).InStep library ref (Queue.Lined entries)) right)
    (ran : ((sizeless host).drain fire ref budget).run left = some ((), finish)) :
    ∃ finish', (do
        entries.forM ((sizeless host).nest fire ref depth)
        Queue.stop host ref : RunM η Unit).run right = some ((), finish') ∧
      finish'.world.notes = finish.world.notes := by
  rw [← List.append_nil entries] at paired
  obtain ⟨less, last, last', _, ranNest, pairedLast, ran⟩ := drain_nests calls enough paired ran
  obtain ⟨finish', ranStop, same⟩ := drain_stops pairedLast ran
  exact ⟨finish', Tag.EvalM.run_bind_eq_some.2 ⟨(), last', ranNest, ranStop⟩, same⟩

end Engine

/-! Firing a script. -/

namespace World

def readied (ref : QueueRef) (options : FireOptions) (world : World η) : World η :=
  world.freshFire.2.modifyQueue ref fun queue =>
    (Engine.equip options { queue with fire := ⟨world.fires⟩ }).launch

theorem elsewhere_handed (ref : QueueRef) (script : Script) (options : FireOptions) (world : World η) :
    ((world.handed ref script options).launch ref).elsewhere ref =
      (world.readied ref options).elsewhere ref := by
  let equipped := world.modifyQueue ref fun queue =>
    Engine.equip options { queue with fire := ⟨world.fires⟩ }
  let numbered := equipped.freshFire.2.markFired ref ⟨equipped.fires⟩
  calc ((world.handed ref script options).launch ref).elsewhere ref
      = (world.handed ref script options).elsewhere ref := elsewhere_modifyQueue ref Queue.launch _
    _ = numbered.elsewhere ref :=
        elsewhere_modifyQueue ref (Queue.addEntries (script.instantiate (some ⟨world.fires⟩))) numbered
    _ = world.freshFire.2.elsewhere ref :=
        congrArg (fun world : World η => { world with fires := world.fires + 1 })
          (elsewhere_modifyQueue ref _ world)
    _ = (world.readied ref options).elsewhere ref := (elsewhere_modifyQueue ref _ _).symm

end World

namespace Engine

variable {engine : Engine η} {library : Script → Prop} {ref : QueueRef} {fire : Firing η}
  {script : Script} {options : FireOptions} {start : Tag.Evaluation (World η)} {seated : World η}

theorem run_enact {depth : Nat}
    (new : start.world.seat script options (options.speed.getD engine.host.defaultSpeed) =
      ((ref, true), seated)) :
    (engine.enact fire depth script options).run start = (do
        (script.instantiate (some ⟨seated.fires⟩)).forM (engine.nest fire ref depth)
        Queue.stop engine.host ref : RunM η Unit).run
      { start with world := seated.readied ref options } := by
  rw [enact, queueForFiring_eq, run_updateGet_bind, new]
  rfl

theorem Furnished.handed (furnished : engine.Furnished library seated)
    (structuring : engine.Structuring library) (granted : library script) (ref : QueueRef)
    (options : FireOptions) : engine.Furnished library (seated.handed ref script options) := by
  let equipped := seated.modifyQueue ref fun queue => equip options { queue with fire := ⟨seated.fires⟩ }
  have equips : engine.Furnished library equipped := by
    obtain ⟨definitions, context, offMain, same⟩ :=
      equip_eq options { seated.queue ref with fire := ⟨seated.fires⟩ }
    exact furnished.changed ref (by rw [same]; exact furnished.waiting ref)
  have marks : engine.Furnished library (equipped.freshFire.2.markFired ref ⟨equipped.fires⟩) :=
    equips.of_same rfl rfl
  have receives : engine.Furnished library (equipped.enqueue ref script) := by
    refine marks.changed ref fun item member => ?_
    rcases List.mem_append.1 member with old | new
    · exact equips.waiting ref item old
    · obtain ⟨source, listed, rfl⟩ := List.mem_map.1 new
      exact (structuring script granted source listed).like ⟨rfl, rfl⟩
  exact receives.of_same rfl rfl

theorem Furnished.launch (furnished : engine.Furnished library seated) (ref : QueueRef) :
    engine.Furnished library (seated.launch ref) := by
  have launched : engine.Furnished library (seated.modifyQueue ref Queue.launch) :=
    furnished.changed ref (furnished.waiting ref)
  exact launched.of_same rfl rfl

theorem launch_inStep (furnished : engine.Furnished library seated) (made : ref.index < seated.queues.size)
    {id : String} {kind : QueueKind} {fire : FireId} (queue : seated.queue ref = .make id kind fire)
    (structuring : engine.Structuring library) (granted : library script) :
    engine.InStep library ref (Queue.Lined (script.instantiate (some ⟨seated.fires⟩)))
      ((seated.handed ref script options).launch ref) (seated.readied ref options) := by
  obtain ⟨definitions, context, offMain, equipped⟩ :=
    equip_eq options { seated.queue ref with fire := ⟨seated.fires⟩ }
  have madeToo : ref.index < (seated.handed ref script options).queues.size := by
    simpa [World.handed, World.enqueue, World.log, World.emit, World.freshFire, World.markFired] using made
  have here : ((seated.handed ref script options).launch ref).queue ref =
      ((equip options { seated.queue ref with fire := ⟨seated.fires⟩ }).addEntries
        (script.instantiate (some ⟨seated.fires⟩))).launch := by
    rw [← World.queue_handed made]
    exact World.queue_modifyQueue_self madeToo Queue.launch
  have there : (seated.readied ref options).queue ref =
      (equip options { seated.queue ref with fire := ⟨seated.fires⟩ }).launch :=
    World.queue_modifyQueue_self made _
  rw [equipped, queue] at here there
  refine ⟨⟨by simpa [World.launch, World.log, World.emit] using madeToo, ?_, ?_, rfl, trivial⟩,
    (furnished.handed structuring granted ref options).launch ref⟩
  · exact seated.elsewhere_handed ref script options
  · rw [here, there]
    exact ⟨rfl, ⟨rfl, rfl, rfl⟩, .inr rfl⟩

theorem seat_of_fresh (fresh : ∀ id ∈ options.id, start.world.liveQueue? id = none) (script : Script)
    (speed : Int) : ∃ ref seated, start.world.seat script options speed = ((ref, true), seated) := by
  unfold World.seat
  cases asked : options.id with
  | some id =>
      have free := fresh id asked
      simp only [World.queueOrCreate, free]
      exact ⟨_, _, rfl⟩
  | none => exact ⟨_, _, Prod.ext (World.queueOrCreate_freshId _ _ start.world) rfl⟩

section

variable {host : Host} (structuring : (sizeless host : Engine η).Structuring library)

include structuring

/-- Firing a script on an instant queue of its own tells what the entries of the script tell when they are
executed one inside another. -/
theorem fire_enacts {budget : Nat} {source : ScriptSource} (faithful : start.Faithful)
    (furnished : (sizeless host).Furnished library start.world)
    (found : findScript source start.world = .ok script) (granted : library script)
    (fresh : ∀ id ∈ options.id, start.world.liveQueue? id = none)
    (instant : (QueueKind.ofSpeed (options.speed.getD host.defaultSpeed)).isInstant = true)
    {answer : Except FireError FireResult} {finish : Tag.Evaluation (World η)}
    (ran : ((sizeless host).fire (budget + 1) ⟨source, options⟩).run start = some (answer, finish)) :
    ∃ finish', ((sizeless host).enact ((sizeless host).fire budget) budget script options).run start =
      some ((), finish') ∧ finish'.world.trace = finish.world.trace := by
  obtain ⟨ref, seated, new⟩ := seat_of_fresh fresh script (options.speed.getD host.defaultSpeed)
  obtain ⟨made, id, number, queue⟩ := World.seat_new new
  have settled := furnished.seat script options (options.speed.getD host.defaultSpeed)
  rw [new] at settled
  have held : (sizeless host).InStep library ref
      (Queue.Lined (script.instantiate (some ⟨seated.fires⟩)))
      ((seated.handed ref script options).launch ref) (seated.readied ref options) :=
    launch_inStep settled made queue structuring granted
  have calls (entries : List Entry) (procedure : Tag.Procedure) :
      (sizeless host : Engine η).KeepsStep library ref (Queue.Lined entries)
        (callProcedure ((sizeless host).fire budget) procedure) :=
    callProcedure_inStep (Likeness.lined_lawful entries) structuring budget procedure
  have sameHost : (sizeless host : Engine η).host = host := rfl
  rw [fire, fireWith_launches _ found new, setOff, sameHost, if_pos instant] at ran
  obtain ⟨_, drained, ranDrain, ran⟩ := Tag.EvalM.run_bind_eq_some.1 ran
  have atFirst : start.Paired Eq start := ⟨faithful, faithful, rfl, rfl, rfl⟩
  obtain ⟨finish', ranToo, same⟩ :=
    drain_enacts calls (Nat.le_refl budget) (atFirst.with_world held) ranDrain
  rw [outcomeOf_eq] at ran
  obtain ⟨_, rfl⟩ := Prod.mk.inj (Option.some.inj ran)
  refine ⟨finish', (run_enact new).trans ranToo, ?_⟩
  obtain ⟨outcomes, concluded⟩ := drained.world.conclude_eq ref ⟨seated.fires⟩
  change finish'.world.notes.reverse = (drained.world.conclude ref ⟨seated.fires⟩).notes.reverse
  rw [same, concluded]

end

end Engine

end TagScript
