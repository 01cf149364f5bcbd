import TagScript.Proofs.Engine.Advance
import TagScript.Proofs.Engine.Run

/-! What a host asks of an engine, call after call. Each call is made of passages with no entry under
execution, of scripts that are registered, and of what the scheduler does on its own. -/

namespace TagScript

variable {η μ α β : Type}

open Relation (ReflTransGen)
open Tag (Regime Yields)

/-- Something that happens while no entry is under execution. -/
inductive Errand (terms : Terms) : World η → World η → Prop
  | passage {world later : World η} (passage : Passage terms [] world later) :
      Errand terms world later
  | reschedule (world : World η) (scheduler : Scheduler QueueRef AsyncWork) :
      Errand terms world { world with scheduler }
  | register (world : World η) {script : Script} (granted : terms.script script) :
      Errand terms world (world.registerScript script)

abbrev Errands (terms : Terms) : World η → World η → Prop := ReflTransGen (Errand terms)

theorem Charter.errands (charter : Charter η μ) {world later : World η}
    (errands : Errands charter.terms world later) (fit : charter.fit world) :
    charter.fit later := by
  induction errands with
  | refl => exact fit
  | tail _ errand ih =>
      cases errand with
      | passage passage => exact charter.passes passage ih
      | reschedule scheduler => exact charter.reschedules scheduler ih
      | register granted => exact charter.registers ih granted

theorem Errands.calls_eq {terms : Terms} {world later : World η} (errands : Errands terms world later) :
    later.calls = world.calls := by
  induction errands with
  | refl => rfl
  | tail _ errand ih =>
      cases errand with
      | passage passage => exact passage.calls_eq.trans ih
      | reschedule | register => exact ih

def Attends (charter : Charter η μ) (act : μ → RunM η α) : Prop :=
  ∀ start, charter.fit start.world → Yields charter.regime act start fun _ later =>
    Errands charter.terms start.world later.world

section

variable {charter : Charter η μ} {act : μ → RunM η α} {next : μ → α → RunM η β}

theorem Steady.attends (steady : Steady charter [] act) : Attends charter act :=
  fun start started => (steady start started).weaken fun _ _ passage => .single (.passage passage)

namespace Attends

theorem after {origin : World η} {start : Tag.Evaluation (World η)}
    (errands : Errands charter.terms origin start.world) (fit : charter.fit origin)
    (attends : Attends charter act) :
    Yields charter.regime act start fun _ later => Errands charter.terms origin later.world :=
  (attends start (charter.errands errands fit)).weaken fun _ _ last => errands.trans last

theorem pure (result : α) : Attends charter fun _ => (Pure.pure result : RunM η α) :=
  (Steady.pure result).attends

theorem bind (first : Attends charter act)
    (rest : ∀ result, Attends charter fun way => next way result) :
    Attends charter fun way => act way >>= next way :=
  fun start started => .bind (first start started) fun result _ reached =>
    (rest result).after reached started

theorem ite {test : Prop} [Decidable test] {act other : μ → RunM η α}
    (yes : Attends charter act) (no : Attends charter other) :
    Attends charter fun way => if test then act way else other way := by
  split
  · exact yes
  · exact no

theorem forM {each : μ → α → RunM η PUnit}
    (attends : ∀ item, Attends charter fun way => each way item) (items : List α) :
    Attends charter fun way => items.forM (each way) := by
  induction items with
  | nil => exact pure _
  | cons item rest ih =>
      simp only [List.forM_eq_forM, List.forM_cons]
      exact bind (attends item) fun _ => ih

theorem log (level : LogLevel) (text : String) :
    Attends charter fun _ => (RunM.log level text : RunM η Unit) :=
  (Steady.log level text).attends

theorem world_bind {next : μ → World η → RunM η β}
    (rest : ∀ world, Attends charter fun way => next way world) :
    Attends charter fun way => RunM.world >>= next way :=
  fun start started => .world_bind (rest start.world start started)

theorem scheduler_bind {next : μ → Scheduler QueueRef AsyncWork → RunM η β}
    (rest : ∀ scheduler, Attends charter fun way => next way scheduler) :
    Attends charter fun way => getThe (Scheduler QueueRef AsyncWork) >>= next way :=
  fun start started => rest start.world.scheduler start started

theorem set_bind {scheduler : Scheduler QueueRef AsyncWork} {next : μ → Unit → RunM η β}
    (rest : Attends charter fun way => next way ()) :
    Attends charter fun way => set scheduler >>= next way := by
  intro start started
  refine Yields.update_bind ?_
  exact rest.after (.single (.reschedule start.world scheduler)) started

theorem set (scheduler : Scheduler QueueRef AsyncWork) :
    Attends charter fun _ => (MonadStateOf.set scheduler : RunM η Unit) :=
  fun start _ => .of_run (fun _ => rfl) (.single (.reschedule start.world scheduler))

theorem update (change : Scheduler QueueRef AsyncWork → Scheduler QueueRef AsyncWork) :
    Attends charter fun _ => (Scheduler.update change : RunM η Unit) :=
  scheduler_bind fun scheduler => set (change scheduler)

end Attends

end

namespace Engine

def handlersWith (engine : Engine η) (fire : Firing η) (budget : Nat) :
    Scheduler.Handlers (RunM η) QueueRef AsyncWork where
  perform := fun ref => do
    engine.revolve fire budget ref
    return true
  deliver := engine.deliver
  log := RunM.log

def settleOnce (handlers : Scheduler.Handlers (RunM η) QueueRef AsyncWork) (rest : RunM η Unit) :
    RunM η Unit := do
  match (← RunM.world).scheduler.takeJob? with
  | none => return
  | some (job, scheduler) =>
    set scheduler
    Scheduler.runJob handlers job
    rest

def settleBy (handlers : Scheduler.Handlers (RunM η) QueueRef AsyncWork) : Nat → RunM η Unit
  | 0 => RunM.outOfBudget
  | jobs + 1 => settleOnce handlers (settleBy handlers jobs)

theorem settle_eq (engine : Engine η) (budget jobs : Nat) :
    engine.settle budget jobs = settleBy (engine.handlers budget) jobs := by
  induction jobs with
  | zero => rfl
  | succ jobs ih =>
      rw [settleBy, ← ih]
      rfl

def tickBy (handlers : Scheduler.Handlers (RunM η) QueueRef AsyncWork) (jobs : Nat)
    (elapsed : Duration) : RunM η Unit := do
  Scheduler.tick handlers elapsed
  settleBy handlers jobs

theorem tick_eq (engine : Engine η) (budget : Nat) (elapsed : Duration) :
    engine.tick budget elapsed = tickBy (engine.handlers budget) budget elapsed := by
  rw [tickBy, ← settle_eq]
  rfl

def tickFrom (engine : Engine η) (budget : Nat) (elapsed : Duration)
    (late : List (Message AsyncWork)) : RunM η Unit := do
  late.forM (Scheduler.handle (engine.handlers budget))
  let (due, aged) := (← getThe (Scheduler QueueRef AsyncWork)).collectDue (Scheduler.clipped elapsed)
  set aged
  due.forM (Scheduler.fire (engine.handlers budget))
  engine.settle budget budget

theorem tick_run (engine : Engine η) (budget : Nat) (elapsed : Duration)
    (start : Tag.Evaluation (World η)) : (engine.tick budget elapsed).run start =
      (engine.tickFrom budget elapsed start.world.scheduler.inbox).run
        { start with world := { start.world with
          scheduler := (start.world.scheduler.advance elapsed).takeInbox.2 } } := by
  simp only [tick, Scheduler.tick, tickFrom, bind_assoc]
  rfl

variable {charter : Charter η μ} {engine : Engine η} {free : Bool} {fire : μ → Firing η}
  {budget : μ → Nat}

theorem takeBack_eq (regular : engine.Regular free) (work : AsyncWork) :
    engine.takeBack work = pure true := by
  have quiet : (engine.commands.find? work.invocation.entry.command).bind (·.background) = none := by
    cases found : engine.commands.find? work.invocation.entry.command with
    | none => rfl
    | some command =>
        rcases regular.commands _ command found with known | harmless
        · exact Command.background_of_builtin known
        · exact harmless.background
  rw [takeBack, quiet]

theorem deliver_steady (regular : engine.Regular free) (work : AsyncWork) :
    Steady charter [] fun _ => engine.deliver work := by
  unfold deliver
  rw [takeBack_eq regular]
  exact .when (.jot _) (.bind (.pure _) fun _ => .when (.release _) (.pure _))

theorem handle_attends (regular : engine.Regular free) (message : Message AsyncWork) :
    Attends charter fun way =>
      Scheduler.handle (engine.handlersWith (fire way) (budget way)) message := by
  cases message with
  | completed id => exact .update _
  | callback work =>
      exact .bind (deliver_steady regular work).attends fun _ => .ite (.log _ _) (.pure _)

section

variable (revolves : ∀ ref, Steady charter [] fun way => engine.revolve (fire way) (budget way) ref)

include revolves

theorem runTimer_steady (id : TimerId) (ref : QueueRef) :
    Steady charter [] fun way =>
      Scheduler.runTimer (engine.handlersWith (fire way) (budget way)) id ref :=
  .bind (.bind (revolves ref) fun _ => .pure true) fun _ => .ite (.log _ _) (.pure _)

theorem fireDue_attends (due : Due QueueRef) :
    Attends charter fun way =>
      Scheduler.fire (engine.handlersWith (fire way) (budget way)) due := by
  unfold Scheduler.fire
  split
  · exact (runTimer_steady revolves due.id due.action).attends
  · exact .scheduler_bind fun scheduler => .ite (.log _ _) (.set _)

theorem scheduler_tick_attends (regular : engine.Regular free) (elapsed : Duration) :
    Attends charter fun way =>
      Scheduler.tick (engine.handlersWith (fire way) (budget way)) elapsed := by
  refine .bind (.update _) fun _ => .scheduler_bind fun scheduler => .set_bind ?_
  refine .bind (.forM (handle_attends regular) _) fun _ => ?_
  exact .scheduler_bind fun scheduler => .set_bind (.forM (fireDue_attends revolves) _)

theorem runJob_yields {start : Tag.Evaluation (World η)} (started : charter.fit start.world)
    (job : Job QueueRef AsyncWork) :
    Yields charter.regime
      (fun way => Scheduler.runJob (engine.handlersWith (fire way) (budget way)) job) start
      fun _ later => Errands charter.terms start.world later.world ∧
        later.world.scheduler.jobs = start.world.scheduler.jobs := by
  cases job with
  | work callback =>
      exact .of_run (fun _ => rfl) ⟨.single (.reschedule start.world _), rfl⟩
  | timer id ref =>
      refine .bind (runTimer_steady revolves id ref start started) fun _ later passage => ?_
      exact .of_run (fun _ => rfl)
        ⟨.tail (.single (.passage passage)) (.reschedule later.world _), passage.jobs_eq⟩

theorem settleOnce_yields {rest : μ → RunM η Unit} {start : Tag.Evaluation (World η)}
    (started : charter.fit start.world)
    (goesOn : ∀ later, Errands charter.terms start.world later.world →
      later.world.scheduler.jobs.length < start.world.scheduler.jobs.length →
      Yields charter.regime rest later fun _ last =>
        Errands charter.terms start.world last.world) :
    Yields charter.regime
      (fun way => settleOnce (engine.handlersWith (fire way) (budget way)) (rest way)) start
      fun _ later => Errands charter.terms start.world later.world := by
  refine .world_bind ?_
  cases taken : start.world.scheduler.takeJob? with
  | none => exact .pure .refl
  | some found =>
      obtain ⟨job, scheduler⟩ := found
      have fewer : scheduler.jobs.length < start.world.scheduler.jobs.length := by
        unfold Scheduler.takeJob? at taken
        split at taken
        · cases taken
        · rename_i jobs
          obtain ⟨_, rfl⟩ := Prod.mk.inj (Option.some.inj taken)
          simp [jobs]
      refine .update_bind ?_
      refine .bind (runJob_yields revolves (charter.reschedules scheduler started) job) ?_
      rintro _ later ⟨errands, jobs⟩
      refine goesOn later (.head (.reschedule start.world scheduler) errands) ?_
      rw [jobs]
      exact fewer

end

theorem shutdown_attends (engine : Engine η) : Attends charter fun _ => engine.shutdown := by
  intro start started
  have stops : Steady charter [] fun _ => (do
      RunM.log .debug s!"Shutting down {start.world.live.length} live queue(s)."
      start.world.live.forM fun named => Queue.stop engine.host named.2 : RunM η Unit) := by
    refine .bind (.log _ _) fun _ => .forM ?_ _
    intro named
    exact Queue.stop_steady engine.host named.2
  rw [shutdown, RunM.world]
  refine .world_bind ?_
  rw [← bind_assoc]
  refine .bind (stops start started) fun _ later passage => .of_run (fun _ => rfl) ?_
  exact .tail (.single (.passage passage)) (.reschedule later.world _)

section

variable (lenient : charter.regime.strict = false) (regular : engine.Regular free)
  (commands : engine.Commands charter)

include lenient regular commands

theorem settle_within (budget jobs : Nat) :
    Attends charter fun _ => settleBy (engine.handlers budget) jobs := by
  have revolves (ref : QueueRef) := revolve_within lenient regular commands
    (fire_within lenient regular commands budget) [] budget ref
  induction jobs with
  | zero => exact (Steady.outOfBudget lenient).attends
  | succ jobs ih =>
      intro start started
      exact settleOnce_yields revolves started fun later errands _ => ih.after errands started

theorem tick_within (budget : Nat) (elapsed : Duration) :
    Attends charter fun _ => engine.tick budget elapsed := by
  simp only [tick_eq]
  exact .bind (scheduler_tick_attends (fun ref => revolve_within lenient regular commands
    (fire_within lenient regular commands budget) [] budget ref) regular elapsed) fun _ =>
    settle_within lenient regular commands budget budget

end

end Engine

namespace HostCall

def placesEntries : HostCall → Bool
  | .add _ _ | .inject _ _ _ => true
  | _ => false

def script? : HostCall → Option Script
  | .register script | .fire ⟨.inline script, _⟩ => some script
  | _ => none

end HostCall

namespace HostCall

/-- The same work with scripts fired in other ways: by the host, and by whatever runs for it. -/
def runBy (engine : Engine η) (fire inner : Firing η) (budget : Nat) : HostCall → RunM η Unit
  | .fire request => do let _ ← fire request
  | .tick elapsed => Engine.tickBy (engine.handlersWith inner budget) budget elapsed
  | .fill queue text => do let _ ← engine.fillText inner queue text
  | .start queue => engine.startQueue inner budget queue
  | .revolve queue => engine.revolve inner budget queue
  | call => call.run engine budget

theorem run_eq (engine : Engine η) (budget : Nat) (call : HostCall) :
    call.run engine budget = call.runBy engine (engine.fire budget) (engine.fire budget) budget := by
  cases call with
  | tick elapsed => exact engine.tick_eq budget elapsed
  | _ => rfl

variable {charter : Charter η μ} {engine : Engine η} {free : Bool} {fire inner : μ → Firing η}
  {budget : μ → Nat}

theorem runBy_attends (regular : engine.Regular free)
    (fires : ∀ request (start : Tag.Evaluation (World η)), charter.fit start.world →
      (∀ script, Engine.findScript request.source start.world = .ok script →
        charter.terms.script script) →
      Yields charter.regime (fun way => fire way request) start fun answer later =>
        Fired charter.terms [] start.world answer later.world)
    (answers : charter.Answers [] free fun way => Engine.callProcedure (inner way))
    (starts : ∀ ref, Steady charter [] fun way => engine.startQueue (inner way) (budget way) ref)
    (revolves : ∀ ref, Steady charter [] fun way => engine.revolve (inner way) (budget way) ref)
    (settles : Attends charter fun way =>
      Engine.settleBy (engine.handlersWith (inner way) (budget way)) (budget way))
    {call : HostCall} (native : call.placesEntries = false)
    (granted : ∀ script ∈ call.script?, charter.terms.script script) :
    Attends charter fun way => call.runBy engine (fire way) (inner way) (budget way) := by
  cases call with
  | register script =>
      exact fun start _ => .of_run (fun _ => rfl)
        (.single (.register start.world (granted script rfl)))
  | fire request =>
      intro start started
      have allowed (script : Script)
          (found : Engine.findScript request.source start.world = .ok script) :
          charter.terms.script script := by
        obtain ⟨source, options⟩ := request
        cases source with
        | inline given =>
            obtain rfl := Except.ok.inj found
            exact granted _ rfl
        | named name => exact Engine.findScript_granted started found
      exact .bind (fires request start started allowed)
        fun _ _ fired => .pure (.single (.passage fired.passage))
  | tick elapsed =>
      exact .bind (Engine.scheduler_tick_attends revolves regular elapsed) fun _ => settles
  | fill queue text =>
      exact (Steady.bind (Engine.fillText_steady regular answers queue text)
        fun _ => .pure _).attends
  | make id kind =>
      exact (Steady.bind (.updateGet fun world => .single (.make [] world id kind))
        fun _ => .pure _).attends
  | enlist id kind =>
      exact (Steady.bind (.updateGet fun world => Engine.queueOrCreate_passage _ [] id kind world)
        fun _ => .pure _).attends
  | start queue => exact (starts queue).attends
  | revolve queue => exact (revolves queue).attends
  | add queue entries => cases native
  | inject queue index entries => cases native
  | clear queue => exact (Steady.stride fun world => .clear [] world queue).attends
  | tune queue tuning =>
      exact (Steady.now_bind fun now => .adjust fun held => (tuning.alike now held).similar).attends
  | releaseHold id =>
      refine (Steady.bind (.world_bind fun world _ => ?_) fun _ => .pure _).attends
      split
      · exact .pure _
      · exact .bind (.adjust fun _ => ⟨rfl, rfl, rfl⟩) fun _ => .queue_bind fun _ =>
          .bind (.log _ _) fun _ => .pure _
  | onStop queue label => exact (Queue.atEnd_steady queue (.notify label)).attends
  | stop queue => exact (Queue.stop_steady engine.host queue).attends
  | shutdown => exact engine.shutdown_attends

end HostCall

section

variable {charter : Charter η μ} {engine : Engine η} {free : Bool}
  (lenient : charter.regime.strict = false) (regular : engine.Regular free)
  (commands : engine.Commands charter)

include lenient regular commands

theorem HostCall.run_attends (budget : Nat) {call : HostCall}
    (native : call.placesEntries = false)
    (granted : ∀ script ∈ call.script?, charter.terms.script script) :
    Attends charter fun _ => call.run engine budget := by
  have fires := Engine.fire_within lenient regular commands budget
  simp only [run_eq]
  exact runBy_attends regular
    (fun _ _ started allowed => Engine.fire_fired lenient regular commands budget started allowed)
    (fires.answers [] free) (Engine.startQueue_within lenient regular commands fires [] budget)
    (Engine.revolve_within lenient regular commands fires [] budget)
    (Engine.settle_within lenient regular commands budget budget) native granted

/-- A run in which the host puts no entries of its own on queues is made of errands. -/
theorem Engine.Runs.errands {calls : List HostCall} {start finish : Tag.Evaluation (World η)}
    (runs : engine.Runs calls start finish) (native : ∀ call ∈ calls, call.placesEntries = false)
    (granted : ∀ call ∈ calls, ∀ script ∈ call.script?, charter.terms.script script)
    (started : charter.fit start.world) : Errands charter.terms start.world finish.world := by
  induction runs with
  | nil state => exact .refl
  | cons made answered rest ih =>
      rw [List.forall_mem_cons] at native granted
      have first := (HostCall.run_attends lenient regular commands _ native.1 granted.1 _
        started).ran answered
      exact first.trans (ih native.2 granted.2 (charter.errands first started))

end

theorem Engine.builtin_regular (free : Bool) (host : Host) :
    (builtin host : Engine η).Regular free where
  commands := fun name command found => .inl ((builtin_standard host).commands name command found)
  resolvers := Vocabulary.resolvers_plain free
  attributes := Vocabulary.attributes_plain free true

end TagScript
