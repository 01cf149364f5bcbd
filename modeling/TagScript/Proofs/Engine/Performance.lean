import TagScript.Proofs.Engine.Loopless
import TagScript.Proofs.Engine.Tagless

/-! A script that is fired on its own while time passes, at this speed or that. -/

namespace TagScript

variable {η α : Type}

open Filter (atTop)
open Likeness (pacing)

namespace World

/-- What scripts did, in the order in which it happened. -/
def trace (world : World η) : List Note := world.notes.reverse

structure Unused (world : World η) : Prop where
  queues : world.queues = #[]
  live : world.live = []
  idle : world.scheduler.works = []

namespace Unused

variable {world : World η} (unused : world.Unused)

include unused

theorem queueOrCreate (id : String) (kind : QueueKind) :
    world.queueOrCreate id kind = ((⟨0⟩, true), { world with
      queues := #[.make id kind ⟨world.fires⟩]
      live := [(Text.lower id, ⟨0⟩)]
      fires := world.fires + 1 }) := by
  simp [World.queueOrCreate, liveQueue?, unused.live, Table.get?, makeQueue, freshFire, unused.queues,
    Table.set]

theorem seat (script : Script) (options : FireOptions) : ∃ id counter live fires, ∀ speed : Int,
    world.seat script { options with speed := some speed } speed = ((⟨0⟩, true), { world with
      counter, live, fires, queues := #[.make id (.ofSpeed speed) ⟨world.fires⟩] }) := by
  unfold World.seat
  cases options.id with
  | some id =>
      refine ⟨id, world.counter, [(Text.lower id, ⟨0⟩)], world.fires + 1, fun speed => ?_⟩
      exact unused.queueOrCreate id (.ofSpeed speed)
  | none =>
      let named := world.freshId (Text.lower script.name)
      have numbered : named.2.Unused := ⟨unused.queues, unused.live, unused.idle⟩
      refine ⟨named.1, named.2.counter, [(Text.lower named.1, ⟨0⟩)], world.fires + 1, fun speed => ?_⟩
      exact numbered.queueOrCreate named.1 (.ofSpeed speed)

theorem tame (engine : Engine η) {library : Script → Prop}
    (granted : ∀ named ∈ world.scripts, library named.2 ∧ named.1 = Text.lower named.2.name) :
    engine.Tame library world where
  live := fun named member => absurd (unused.live ▸ member) List.not_mem_nil
  scripts := granted
  waiting := fun ref entry member => by
    rw [queue_of_size_le (by simp [unused.queues])] at member
    exact absurd member List.not_mem_nil

end Unused

end World

namespace Engine

theorem equip_paced {queue other : Queue} (same : queue.unpaced = other.unpaced)
    (options : FireOptions) (speed : Option Int) :
    (equip options queue).unpaced = (equip { options with speed } other).unpaced := by
  have folds (queue : Queue) : (equip options queue).unpaced = (equip options queue.unpaced).unpaced := by
    have defined (pairs : List (String × String)) (queue : Queue) :
        (pairs.foldl (fun queue pair => queue.define pair.1 pair.2) queue).unpaced =
          pairs.foldl (fun queue pair => queue.define pair.1 pair.2) queue.unpaced := by
      induction pairs generalizing queue with
      | nil => rfl
      | cons pair rest ih => exact ih _
    have equipped := congrArg (fun later : Queue => ({ later with
      context := options.context <|> later.context
      offMain := options.offMain || later.offMain } : Queue).unpaced) (defined options.definitions queue)
    exact equipped
  rw [folds, same, ← folds]
  rfl

end Engine

namespace World.Twinned

variable {ref : QueueRef} {left right : World η} (twinned : left.Twinned ref (pacing []) right)

include twinned

theorem beside (outcomes : OutcomeStore) :
    { left with outcomes }.Twinned ref (pacing []) { right with outcomes } where
  made := twinned.made
  elsewhere := congrArg (fun world : World η => { world with outcomes }) twinned.elsewhere
  own := twinned.own
  timing := twinned.timing
  known := twinned.known

theorem enqueue (script : Script) :
    (left.enqueue ref script).Twinned ref (pacing []) (right.enqueue ref script) := by
  have fires : left.fires = right.fires := twinned.sees _ fun _ => rfl
  have numbered : (left.freshFire.2.markFired ref ⟨left.fires⟩).Twinned ref (pacing [])
      (right.freshFire.2.markFired ref ⟨right.fires⟩) :=
    ⟨twinned.made, congrArg (fun world : World η => { world with fires := world.fires + 1 })
      twinned.elsewhere, twinned.own, twinned.timing, twinned.known⟩
  refine numbered.change ?_
  rw [fires]
  exact Queue.reads_unpaced (fun queue => (queue.addEntries _).unpaced) (fun _ => rfl) twinned.own

theorem handed (script : Script) (options : FireOptions) (speed : Option Int) :
    (left.handed ref script options).Twinned ref (pacing [])
      (right.handed ref script { options with speed }) := by
  have fires : left.fires = right.fires := twinned.sees _ fun _ => rfl
  have equipped : (left.modifyQueue ref fun queue =>
        Engine.equip options { queue with fire := ⟨left.fires⟩ }).Twinned ref (pacing [])
      (right.modifyQueue ref fun queue =>
        Engine.equip { options with speed } { queue with fire := ⟨right.fires⟩ }) := by
    refine twinned.change (Engine.equip_paced ?_ options speed)
    rw [← fires]
    exact Queue.reads_unpaced (fun queue => { queue with fire := ⟨left.fires⟩ }.unpaced)
      (fun _ => rfl) twinned.own
  exact ((equipped.enqueue script).emit _).1.emit _ |>.2

theorem launch : (left.launch ref).Twinned ref (pacing []) (right.launch ref) := by
  have launched : (left.modifyQueue ref Queue.launch).Twinned ref (pacing [])
      (right.modifyQueue ref Queue.launch) :=
    twinned.change (Queue.reads_unpaced (fun queue => queue.launch.unpaced) (fun _ => rfl) twinned.own)
  exact (launched.emit _).1.emit _ |>.2

end World.Twinned

def FireRequest.atSpeed (speed : Int) (request : FireRequest) : FireRequest :=
  { request with options := { request.options with speed := some speed } }

namespace Engine

def perform (engine : Engine η) (budget : Nat) (request : FireRequest) (ticks : List Duration) :
    RunM η (Except FireError FireResult) := do
  match ← engine.fire budget request with
  | .error error => return .error error
  | .ok fired =>
    let ended := (← RunM.queue fired.queue).isStopped
    ticks.forM (engine.tick budget)
    let later := (← RunM.world).outcomes.get? fired.fire
    return .ok { fired with outcome := if ended then fired.outcome else later }

theorem perform_unknown {engine : Engine η} {budget : Nat} {request : FireRequest}
    {ticks : List Duration} {start finish : Tag.Evaluation (World η)}
    {answer : Except FireError FireResult} {error : FireError}
    (found : findScript request.source start.world = .error error)
    (ran : (engine.perform budget request ticks).run start = some (answer, finish)) :
    answer = .error error ∧ finish = start := by
  cases budget with
  | zero => cases ran
  | succ budget =>
      have refused : (engine.fire (budget + 1) request).run start = some (.error error, start) := by
        rw [fire, fireWith, RunM.world, Tag.EvalM.run_world_bind, found]
        rfl
      rw [perform, StateT.run_bind, refused] at ran
      obtain ⟨rfl, rfl⟩ := Prod.mk.inj (Option.some.inj ran)
      exact ⟨rfl, rfl⟩

section

variable {host : Host} {library : Script → Prop} {ref : QueueRef} {start : Tag.Evaluation (World η)}
  (terminating : (paceless host : Engine η).Terminating library)

include terminating

theorem ticks_advance {budget : Nat} {ticks : List Duration} {number : FireId}
    {finish : Tag.Evaluation (World η)} (underway : Underway host library ref start)
    (ran : (ticks.forM ((paceless host).tick budget)).run
      { start with world := start.world.conclude ref number } = some ((), finish)) :
    ∃ count outcomes,
      Advances host ref start count { finish with world := { finish.world with outcomes } } ∧
      (if (start.world.queue ref).isStopped then start.world.outcomes.get? number
        else finish.world.outcomes.get? number) = outcomes.get? number := by
  have pursues : Pursues host library ref (ticks.forM ((paceless host : Engine η).tick budget)) :=
    .forM terminating fun elapsed _ => tick_pursues terminating budget elapsed
  cases stopped : (start.world.queue ref).isStopped with
  | false =>
      rw [World.conclude, stopped] at ran
      obtain ⟨count, advances⟩ := pursues start underway _ _ ran
      exact ⟨count, finish.world.outcomes, advances, rfl⟩
  | true =>
      rw [World.conclude, stopped] at ran
      let outcomes := (start.world.outcomes.take number).2
      have told : Underway host library ref { start with world := { start.world with outcomes } } :=
        ⟨underway.alone.with_world (underway.alone.world.beside outcomes), underway.tame.live,
          underway.tame.scripts, underway.tame.waiting⟩
      obtain ⟨count, advances⟩ := pursues _ told _ _ ran
      have ended := advances.halted stopped
      exact ⟨0, start.world.outcomes,
        .rest (ended.with_world (ended.world.beside start.world.outcomes)), rfl⟩

theorem perform_advances {source : ScriptSource} {script : Script} {options : FireOptions}
    {seated : World η} {budget : Nat} {ticks : List Duration} {answer : Except FireError FireResult}
    {finish : Tag.Evaluation (World η)} (found : findScript source start.world = .ok script)
    (new : start.world.seat script options (options.speed.getD host.defaultSpeed) =
      ((ref, true), seated))
    (underway : Underway host library ref
      { start with world := (seated.handed ref script options).launch ref })
    (ran : ((paceless host).perform budget ⟨source, options⟩ ticks).run start =
      some (answer, finish)) :
    ∃ count outcomes,
      answer = .ok ⟨ref, ((seated.handed ref script options).queue ref).id, ⟨seated.fires⟩,
        outcomes.get? ⟨seated.fires⟩⟩ ∧
      Advances host ref { start with world := (seated.handed ref script options).launch ref } count
        { finish with world := { finish.world with outcomes } } := by
  obtain ⟨fired, told, ranFire, ranTicks⟩ := Tag.EvalM.run_bind_eq_some.1 ran
  cases budget with
  | zero => cases ranFire
  | succ budget =>
      have ranFire := (fireWith_launches (paceless host) found new).symm.trans ranFire
      obtain ⟨_, later, ranSet, ranOutcome⟩ := Tag.EvalM.run_bind_eq_some.1 ranFire
      rw [outcomeOf_eq] at ranOutcome
      obtain ⟨rfl, rfl⟩ := Prod.mk.inj (Option.some.inj ranOutcome)
      obtain ⟨count, reached⟩ := setOff_pursues terminating _ _ underway _ _ ranSet
      dsimp only at ranTicks
      rw [run_queue_bind] at ranTicks
      obtain ⟨_, last, ranAll, ranEnd⟩ := Tag.EvalM.run_bind_eq_some.1 ranTicks
      obtain ⟨rfl, rfl⟩ := Prod.mk.inj (Option.some.inj ranEnd)
      obtain ⟨more, outcomes, goesOn, same⟩ :=
        ticks_advance terminating (reached.underway terminating underway) ranAll
      refine ⟨_, outcomes, ?_, reached.trans goesOn⟩
      obtain ⟨kept, concluded⟩ := later.world.conclude_eq ref ⟨seated.fires⟩
      dsimp only
      rw [← same, concluded]
      rfl

end

/-! In a tame world every performance comes to its end. -/

section

variable {engine : Engine η} {library : Script → Prop} (terminating : engine.Terminating library)
  (regular : engine.Regular false) {start : Tag.Evaluation (World η)}

include terminating regular

theorem ticks_return (tame : engine.Tame library start.world) (ticks : List Duration) :
    ∃ finish, ∀ᶠ budget in atTop, (ticks.forM (engine.tick budget)).run start = some ((), finish) := by
  induction ticks generalizing start with
  | nil => exact ⟨start, .of_forall fun _ => rfl⟩
  | cons elapsed ticks ih =>
      obtain ⟨later, returns, _, errands⟩ := call_returns terminating regular tame
        (show (HostCall.tick elapsed).placesEntries = false from rfl)
        (by simp [HostCall.script?])
      let charter : Charter η Unit := .tame terminating .single (Vocabulary.callLimit + 1)
      have fit : charter.fit start.world := ⟨tame, by omega⟩
      obtain ⟨finish, goesOn⟩ := ih (charter.errands errands fit).1
      refine ⟨finish, (returns.and goesOn).mono fun budget ran => ?_⟩
      simp only [List.forM_eq_forM, List.forM_cons]
      exact Tag.EvalM.run_bind_eq_some.2 ⟨(), later, ran.1, ran.2⟩

theorem perform_returns (tame : engine.Tame library start.world) (request : FireRequest)
    (granted : ∀ script, findScript request.source start.world = .ok script → library script)
    (ticks : List Duration) : ∃ answer finish, ∀ᶠ budget in atTop,
      (engine.perform budget request ticks).run start = some (answer, finish) := by
  have fit : (plenty terminating Vocabulary.callLimit).fit start.world := ⟨tame, by omega⟩
  obtain ⟨answer, later, returns, came⟩ := (fire_tame regular (answering regular _) fit granted
    (.inl rfl)).returns rfl
  have returns := eventually_budget returns false
  cases answer with
  | error error =>
      exact ⟨.error error, later, returns.mono fun budget ran =>
        Tag.EvalM.run_bind_eq_some.2 ⟨_, later, ran, rfl⟩⟩
  | ok fired =>
      obtain ⟨finish, goesOn⟩ := ticks_return terminating regular
        (tame.passed terminating came.passage) ticks
      let outcome := if (later.world.queue fired.queue).isStopped then fired.outcome
        else finish.world.outcomes.get? fired.fire
      refine ⟨.ok { fired with outcome }, finish, (returns.and goesOn).mono fun budget ran =>
        Tag.EvalM.run_bind_eq_some.2 ⟨.ok fired, later, ran.1, ?_⟩⟩
      dsimp only
      rw [run_queue_bind]
      exact Tag.EvalM.run_bind_eq_some.2 ⟨(), finish, ran.2, rfl⟩

end

def stocked (engine : Engine η) (scripts : List Script) (host : η) : Tag.Evaluation (World η) :=
  let fresh := engine.start host
  { fresh with world := scripts.foldl (fun world script => world.registerScript script) fresh.world }

theorem stocked_keeps {holds : World η → Prop} (engine : Engine η) {scripts : List Script} (host : η)
    (start : holds (engine.start host).world)
    (registers : ∀ world, ∀ script ∈ scripts, holds world → holds (world.registerScript script)) :
    holds (engine.stocked scripts host).world := by
  unfold stocked
  dsimp only
  generalize (engine.start host).world = world at start
  induction scripts generalizing world with
  | nil => exact start
  | cons script rest ih =>
      exact ih (fun world found member => registers world found (List.mem_cons_of_mem script member)) _
        (registers world script List.mem_cons_self start)

section

variable {engine : Engine η} {library : Script → Prop} {scripts : List Script}
  (registered : ∀ script ∈ scripts, library script) (host : η)

theorem findScript_library {other : Engine η} {world : World η} (tame : other.Tame library world)
    {source : ScriptSource} (handed : ∀ script, source = .inline script → library script)
    {script : Script} (found : findScript source world = .ok script) : library script := by
  cases source with
  | inline given =>
      obtain rfl := Except.ok.inj found
      exact handed given rfl
  | named name =>
      dsimp only [findScript] at found
      split at found
      · rename_i known
        obtain rfl := Except.ok.inj found
        exact (tame.script known).1
      · cases found

theorem stocked_unused : (engine.stocked scripts host).world.Unused :=
  stocked_keeps engine host ⟨rfl, rfl, rfl⟩ fun _ _ _ unused => ⟨unused.queues, unused.live, unused.idle⟩

theorem stocked_faithful : (engine.stocked scripts host).Faithful := ⟨.empty _, .empty _⟩

include registered

theorem stocked_tame (other : Engine η) : other.Tame library (engine.stocked scripts host).world := by
  refine stocked_keeps engine host ?_ fun world script member tame => tame.register (registered script member)
  exact World.Unused.tame ⟨rfl, rfl, rfl⟩ other fun _ member => absurd member List.not_mem_nil

end

/-- Two performances of a script, each with its answer and the state in which it ends. One of them tells
a part of what the other one tells, and if the queues of both have stopped, both have come to the same. -/
structure Agree (left right : Except FireError FireResult × Tag.Evaluation (World η)) : Prop where
  part : left.2.world.trace <+: right.2.world.trace ∨ right.2.world.trace <+: left.2.world.trace
  whole : ∀ fired fired', left.1 = .ok fired → right.1 = .ok fired' →
    (left.2.world.queue fired.queue).isStopped = true →
    (right.2.world.queue fired'.queue).isStopped = true →
    left.2.world.trace = right.2.world.trace ∧
      (left.2.world.queue fired.queue).definitions = (right.2.world.queue fired'.queue).definitions ∧
      fired.outcome = fired'.outcome

theorem Agree.symm {left right : Except FireError FireResult × Tag.Evaluation (World η)}
    (agree : Agree left right) : Agree right left where
  part := agree.part.symm
  whole := fun fired fired' first second ended endedToo =>
    have ⟨trace, definitions, outcome⟩ := agree.whole fired' fired second first endedToo ended
    ⟨trace.symm, definitions.symm, outcome.symm⟩

section

variable {host : Host} {library : Script → Prop} {start : Tag.Evaluation (World η)}
  (terminating : (paceless host : Engine η).Terminating library)

include terminating

theorem Advances.agree {ref : QueueRef} {number : FireId} {queueId queueId' : String}
    {first second finish finish' : Tag.Evaluation (World η)} {count more : Nat}
    {outcomes outcomes' : OutcomeStore} (fewer : count ≤ more)
    (advances : Advances host ref first count
      { finish with world := { finish.world with outcomes } })
    (further : Advances host ref second more
      { finish' with world := { finish'.world with outcomes := outcomes' } })
    (abreast : Abreast ref first second) (underway : Underway host library ref first) :
    Agree (.ok ⟨ref, queueId, number, outcomes.get? number⟩, finish)
      (.ok ⟨ref, queueId', number, outcomes'.get? number⟩, finish') := by
  obtain ⟨tells, ends⟩ := advances.behind terminating further abreast underway fewer
  refine ⟨.inl (List.reverse_prefix.2 tells), ?_⟩
  rintro _ _ ⟨rfl⟩ ⟨rfl⟩ stopped _
  have same := (ends stopped).world
  exact ⟨congrArg List.reverse same.notes,
    Queue.reads_unpaced Queue.definitions (fun _ => rfl) same.own,
    congrArg (OutcomeStore.get? number) same.outcomes⟩

theorem performances_agree {request : FireRequest} {speed speed' : Int} {ticks ticks' : List Duration}
    {budget budget' : Nat} {left right : Except FireError FireResult × Tag.Evaluation (World η)}
    (faithful : start.Faithful) (unused : start.world.Unused)
    (tame : (paceless host).Tame library start.world)
    (granted : ∀ script, findScript request.source start.world = .ok script → library script)
    (ran : ((paceless host).perform budget (request.atSpeed speed) ticks).run start = some left)
    (ranToo : ((paceless host).perform budget' (request.atSpeed speed') ticks').run start =
      some right) : Agree left right := by
  obtain ⟨source, options⟩ := request
  obtain ⟨answer, finish⟩ := left
  obtain ⟨answer', finish'⟩ := right
  cases found : findScript source start.world with
  | error error =>
      obtain ⟨rfl, rfl⟩ := perform_unknown found ran
      obtain ⟨rfl, rfl⟩ := perform_unknown found ranToo
      exact ⟨.inl (List.prefix_refl _), nofun⟩
  | ok script =>
      obtain ⟨id, counter, live, fires, seated⟩ := unused.seat script options
      let seat (speed : Int) : World η := { start.world with
        counter, live, fires, queues := #[.make id (.ofSpeed speed) ⟨start.world.fires⟩] }
      let launched (speed : Int) : Tag.Evaluation (World η) :=
        { start with world :=
          ((seat speed).handed ⟨0⟩ script { options with speed := some speed }).launch ⟨0⟩ }
      have twinned (speed speed' : Int) : (seat speed).Twinned ⟨0⟩ (pacing []) (seat speed') :=
        ⟨by simp [seat], by simp [seat, World.elsewhere], rfl, ⟨unused.idle, unused.idle⟩, rfl,
          List.nil_suffix⟩
      have abreast (speed speed' : Int) : Abreast ⟨0⟩ (launched speed) (launched speed') :=
        ⟨⟨faithful.pieces, faithful.chains⟩, ⟨faithful.pieces, faithful.chains⟩, rfl, rfl,
          ((twinned speed speed').handed script { options with speed := some speed }
            (some speed')).launch⟩
      have underway (speed : Int) : Underway host library ⟨0⟩ (launched speed) := by
        have seats := start.world.seat_passage ((paceless host : Engine η).descent library) [] script
          { options with speed := some speed } speed
        rw [seated] at seats
        have seated := tame.passed terminating seats
        exact ⟨abreast speed speed,
          (seated.handed terminating ⟨0⟩ (granted script found) _).launch ⟨0⟩⟩
      obtain ⟨count, outcomes, rfl, advances⟩ :=
        perform_advances terminating found (seated speed) (underway speed) ran
      obtain ⟨more, outcomes', rfl, further⟩ :=
        perform_advances terminating found (seated speed') (underway speed') ranToo
      rcases Nat.le_total count more with fewer | fewer
      · exact advances.agree terminating fewer further (abreast speed speed') (underway speed)
      · exact (further.agree terminating fewer advances (abreast speed' speed) (underway speed')).symm

end

/-- Within all budgets that are large enough, a performance comes to this. -/
def Performs (engine : Engine η) (request : FireRequest) (ticks : List Duration)
    (start : Tag.Evaluation (World η))
    (outcome : Except FireError FireResult × Tag.Evaluation (World η)) : Prop :=
  ∀ᶠ budget in atTop, (engine.perform budget request ticks).run start = some outcome

/-- A performance makes no use of these tags: without them it is the same. -/
def DoesWithout (engine : Engine η) (hidden : Tag.Lookup → Bool) (request : FireRequest)
    (ticks : List Duration) (start : Tag.Evaluation (World η)) : Prop :=
  ∀ᶠ budget in atTop, (engine.perform budget request ticks).run start =
    ((engine.withoutTags hidden).perform budget request ticks).run start

/-- The speed of a script does not matter for what it does. Whatever its entries and those that they put
in their place come to, if they fire no scripts, call no procedures and ask for no speed, then at any two
speeds and with any ticks one performance tells a part of what the other one tells, and two that have
come to the end of their queues end alike. -/
theorem speed_is_immaterial (host : Host) {library : Script → Prop}
    (terminating : (builtin host : Engine η).Terminating library) {scripts : List Script}
    (registered : ∀ script ∈ scripts, library script) {request : FireRequest}
    (handed : ∀ script, request.source = .inline script → library script) (state : η)
    {speed speed' : Int} {ticks ticks' : List Duration}
    (plain : (builtin host).DoesWithout Tag.Lookup.tellsPace (request.atSpeed speed) ticks
      ((builtin host).stocked scripts state))
    (plainToo : (builtin host).DoesWithout Tag.Lookup.tellsPace (request.atSpeed speed') ticks'
      ((builtin host).stocked scripts state)) : ∃ outcome outcome',
    (builtin host).Performs (request.atSpeed speed) ticks
      ((builtin host).stocked scripts state) outcome ∧
    (builtin host).Performs (request.atSpeed speed') ticks'
      ((builtin host).stocked scripts state) outcome' ∧ Agree outcome outcome' := by
  let start : Tag.Evaluation (World η) := (builtin host).stocked scripts state
  have granted : ∀ script, findScript request.source start.world = .ok script → library script :=
    fun _ found => findScript_library (stocked_tame registered state (builtin host)) handed found
  have returns (speed : Int) (ticks : List Duration) : ∃ outcome,
      (builtin host).Performs (request.atSpeed speed) ticks start outcome := by
    obtain ⟨answer, finish, returns⟩ : ∃ answer finish,
        (builtin host).Performs (request.atSpeed speed) ticks start (answer, finish) :=
      perform_returns terminating (builtin_regular false host)
        (stocked_tame registered state (builtin host)) (request.atSpeed speed) granted ticks
    exact ⟨(answer, finish), returns⟩
  obtain ⟨outcome, performs⟩ := returns speed ticks
  obtain ⟨outcome', performsToo⟩ := returns speed' ticks'
  refine ⟨outcome, outcome', performs, performsToo, ?_⟩
  obtain ⟨budget, ran, same⟩ := (performs.and plain).exists
  obtain ⟨budget', ranToo, sameToo⟩ := (performsToo.and plainToo).exists
  exact performances_agree (terminating.withoutTags _) (stocked_faithful state)
    (stocked_unused state) (stocked_tame registered state _) granted (same.symm.trans ran)
    (sameToo.symm.trans ranToo)

section

variable {engine : Engine η} {ref : QueueRef} {request : FireRequest} {ticks : List Duration}
  {start : Tag.Evaluation (World η)} {count : Nat}

/-- In the performance nothing but entries without tags is executed, no more than so many at a time. -/
structure PerformsLiterally (engine : Engine η) (ref : QueueRef) (count : Nat) (request : FireRequest)
    (ticks : List Duration) (start : Tag.Evaluation (World η)) : Prop where
  fired : ∃ script seated, findScript request.source start.world = .ok script ∧
    start.world.seat script request.options (request.options.speed.getD engine.host.defaultSpeed) =
      ((ref, true), seated) ∧
    engine.Recites ref count
      { start with world := (seated.handed ref script request.options).launch ref }
  ticked : ((engine.fire (count + 2) request).run start).all (fun fired =>
    engine.recitalTicks ref count ticks fired.2) = true

variable (standard : engine.Standard) (named : engine.commands.Named)
  (literal : engine.PerformsLiterally ref count request ticks start)

include standard named literal

theorem PerformsLiterally.perform_eq (hidden : Tag.Lookup → Bool) {budget budget' : Nat}
    (enough : count + 1 < budget) (enoughToo : count + 1 < budget') :
    (engine.perform budget request ticks).run start =
      ((engine.withoutTags hidden).perform budget' request ticks).run start := by
  obtain ⟨⟨script, seated, found, new, recites⟩, ticked⟩ := literal
  obtain ⟨_, rfl⟩ := Nat.exists_eq_add_of_lt enough
  obtain ⟨more, rfl⟩ := Nat.exists_eq_add_of_lt enoughToo
  have fires {budget : Nat} (enough : count < budget) : (engine.fire (budget + 1) request).run start =
      ((engine.withoutTags hidden).fire (count + 1 + more + 1) request).run start :=
    fire_of_recites hidden found new recites enough (Nat.lt_of_succ_lt_succ enoughToo)
  rw [fires (Nat.lt_succ_self count)] at ticked
  rw [perform, perform, StateT.run_bind, StateT.run_bind, fires (Nat.lt_of_succ_lt_succ enough)]
  refine Option.bind_congr fun fired ran => ?_
  obtain ⟨answer, later⟩ := fired
  cases answer with
  | error error => rfl
  | ok fired =>
      have recited : engine.recitalTicks ref count ticks later = true := by simpa [ran] using ticked
      dsimp only
      rw [run_queue_bind, run_queue_bind]
      exact run_bind_congr (ticks_of_recital hidden standard named recited (Nat.lt_of_succ_lt enough)
        (Nat.lt_of_succ_lt enoughToo)) _

theorem PerformsLiterally.doesWithout (hidden : Tag.Lookup → Bool) :
    engine.DoesWithout hidden request ticks start :=
  (Filter.eventually_gt_atTop (count + 1)).mono fun _ enough =>
    literal.perform_eq standard named hidden enough enough

theorem PerformsLiterally.eq_of_performs {outcome : Except FireError FireResult × Tag.Evaluation (World η)}
    (performs : engine.Performs request ticks start outcome) :
    (engine.perform (count + 2) request ticks).run start = some outcome := by
  obtain ⟨budget, ran, enough⟩ := (performs.and (Filter.eventually_gt_atTop (count + 1))).exists
  have none : Tag.Lookup → Bool := fun _ => false
  rw [literal.perform_eq standard named none (Nat.lt_succ_self _) enough,
    ← literal.perform_eq standard named none enough enough, ran]

end

/-- The script was fired, and its queue has stopped. -/
def Ended (outcome : Except FireError FireResult × Tag.Evaluation (World η)) : Prop :=
  ∃ fired, outcome.1 = .ok fired ∧ (outcome.2.world.queue fired.queue).isStopped = true

def greeting : Script where
  name := "greeting"
  entries := [.ofCommand "debug" ["hello"], .ofCommand "determine" ["done"]]

theorem greeting_loopless : (builtin {} : Engine Unit).LooplessScript greeting := by
  have foreign {name : String} {command : Command Unit} :
      Text.lower name ∉ CommandTable.namesOf command →
        (builtin {}).commands.find? name ≠ some command := find?_ne (builtin_named {})
  intro entry member
  simp only [greeting, List.mem_cons, List.not_mem_nil, or_false] at member
  rcases member with rfl | rfl
  · exact .intro (foreign (by decide)) (foreign (by decide)) fun repeats =>
      absurd repeats (foreign (by decide))
  · exact .intro (foreign (by decide)) (foreign (by decide)) fun repeats =>
      absurd repeats (foreign (by decide))

def greetingStart : Tag.Evaluation (World Unit) := (builtin {} : Engine Unit).stocked [greeting] ()

def greet (speed : Int) : FireRequest := .atSpeed speed ⟨.named "greeting", {}⟩

theorem greeting_literal {speed : Int} {ticks : List Duration}
    (known : speed = 0 ∧ ticks = [] ∨ speed = 3 ∧ ticks = [.ofTicks 3]) :
    (builtin {} : Engine Unit).PerformsLiterally ⟨0⟩ 2 (greet speed) ticks greetingStart where
  fired := by
    let seated := greetingStart.world.seat greeting { speed := some speed } speed
    refine ⟨greeting, seated.2, rfl, Prod.ext ?_ rfl,
      recites_of_recital (builtin_standard {}) (builtin_named {}) ?_⟩
    all_goals rcases known with ⟨rfl, rfl⟩ | ⟨rfl, rfl⟩ <;> decide +kernel
  ticked := by
    rcases known with ⟨rfl, rfl⟩ | ⟨rfl, rfl⟩ <;> decide +kernel

theorem greeting_ended {speed : Int} {ticks : List Duration}
    (known : speed = 0 ∧ ticks = [] ∨ speed = 3 ∧ ticks = [.ofTicks 3])
    {outcome : Except FireError FireResult × Tag.Evaluation (World Unit)}
    (performs : (builtin {}).Performs (greet speed) ticks greetingStart outcome) : Ended outcome := by
  have ran := (greeting_literal known).eq_of_performs (builtin_standard {}) (builtin_named {}) performs
  have ends : (((builtin {}).perform 4 (greet speed) ticks).run greetingStart).all (fun outcome =>
      match outcome.1 with
      | .ok fired => (outcome.2.world.queue fired.queue).isStopped
      | .error _ => false) = true := by
    rcases known with ⟨rfl, rfl⟩ | ⟨rfl, rfl⟩ <;> decide +kernel
  rw [ran, Option.all_some] at ends
  obtain ⟨answer, finish⟩ := outcome
  cases answer with
  | error error => cases ends
  | ok fired => exact ⟨fired, rfl, ends⟩

theorem speed_is_immaterial_greeting : ∃ outcome outcome',
    (builtin {}).Performs (greet 0) [] greetingStart outcome ∧
    (builtin {}).Performs (greet 3) [.ofTicks 3] greetingStart outcome' ∧
    Agree outcome outcome' ∧ Ended outcome ∧ Ended outcome' := by
  have without {speed : Int} {ticks : List Duration}
      (known : speed = 0 ∧ ticks = [] ∨ speed = 3 ∧ ticks = [.ofTicks 3]) :
      (builtin {}).DoesWithout Tag.Lookup.tellsPace (greet speed) ticks greetingStart :=
    (greeting_literal known).doesWithout (builtin_standard {}) (builtin_named {}) _
  obtain ⟨outcome, outcome', performs, performsToo, agree⟩ :=
    speed_is_immaterial {} (looplessScript_terminating (builtin_named {}))
      (List.forall_mem_singleton.2 greeting_loopless) (by simp) () (without (.inl ⟨rfl, rfl⟩))
      (without (.inr ⟨rfl, rfl⟩))
  exact ⟨outcome, outcome', performs, performsToo, agree,
    greeting_ended (.inl ⟨rfl, rfl⟩) performs, greeting_ended (.inr ⟨rfl, rfl⟩) performsToo⟩

end Engine

end TagScript
