import Mathlib
import TagScript.Proofs.Engine.Revolve
import TagScript.Proofs.Table

/-! Runs of an engine: what the host asks of it, call after call. Between calls no revolution is
under way, and every call does nothing but moves, apart from making a queue that is not live and from
shutting down, which also drops every timer. -/

namespace TagScript

variable {η α : Type}

namespace RunM

variable {stage : Stage η} {world : World η} {frames : List Frame}

theorem Leads.scheduler_bind {next : Scheduler QueueRef AsyncWork → RunM η α}
    (rest : Leads stage world (next world.scheduler) frames) :
    Leads stage world (getThe (Scheduler QueueRef AsyncWork) >>= next) frames := by
  have unfolded : (getThe (Scheduler QueueRef AsyncWork) : RunM η _) =
      RunM.world >>= fun world => Pure.pure world.scheduler := rfl
  rw [unfolded, bind_assoc]
  simpa only [pure_bind] using Leads.world_bind rest

theorem Leads.set_bind {scheduler : Scheduler QueueRef AsyncWork} {next : Unit → RunM η α}
    (rest : Leads stage { world with scheduler } (next ()) frames) :
    Leads stage world (set scheduler >>= next) frames :=
  .update_bind rest

theorem Orderly.shift {change : Scheduler QueueRef AsyncWork → Scheduler QueueRef AsyncWork}
    (shifts : ∀ scheduler, Scheduler.Shift scheduler (change scheduler)) :
    Orderly frames (Scheduler.update change : RunM η Unit) :=
  fun world => .scheduler_bind (.update (.single (.shift frames (shifts world.scheduler))))

end RunM

namespace Engine

variable {engine : Engine η}

theorem takeBack_orderly (standard : engine.Standard) (work : AsyncWork) :
    RunM.Orderly [] (engine.takeBack work) := by
  unfold takeBack
  dsimp only
  split
  · exact .pure _
  · rename_i background found
    obtain ⟨command, known, part⟩ := Option.bind_eq_some_iff.1 found
    have orderly := Command.builtins_orderly command (standard.commands _ command known)
    split
    · exact orderly.finish background part [] _ _
    · exact .queue_bind fun _ => .bind (engine.host.error_orderly _ _) fun _ => .pure _

theorem deliver_orderly (standard : engine.Standard) (work : AsyncWork) :
    RunM.Orderly [] (engine.deliver work) :=
  .when (.jot _) (.bind (takeBack_orderly standard work) fun _ => .when (.release _) (.pure _))

variable {budget : Nat}

theorem runTimer_orderly (standard : engine.Standard) (id : TimerId) (ref : QueueRef) :
    RunM.Orderly [] (Scheduler.runTimer (engine.handlers budget) id ref) := by
  refine .bind (.bind (revolve_orderly standard (fire_orderly standard budget) budget ref) fun _ =>
    .pure true) fun finished => ?_
  exact .ite (.log _ _) (.pure _)

theorem handle_orderly (standard : engine.Standard) (message : Message AsyncWork) :
    RunM.Orderly [] (Scheduler.handle (engine.handlers budget) message) := by
  cases message with
  | completed id => exact .shift fun scheduler => .complete id scheduler
  | callback work =>
      exact .bind (deliver_orderly standard work) fun _ => .ite (.log _ _) (.pure _)

theorem fireDue_orderly (standard : engine.Standard) (due : Due QueueRef) :
    RunM.Orderly [] (Scheduler.fire (engine.handlers budget) due) := by
  unfold Scheduler.fire
  split
  · exact runTimer_orderly standard due.id due.action
  · intro world
    refine .scheduler_bind ?_
    split
    · exact RunM.Orderly.log _ _ world
    · exact .update (.single (.shift [] (.dispatch due world.scheduler)))

theorem scheduler_tick_orderly (standard : engine.Standard) (elapsed : Duration) :
    RunM.Orderly [] (Scheduler.tick (engine.handlers budget) elapsed) := by
  refine .bind (.shift fun scheduler => .advance elapsed scheduler) fun _ world => ?_
  refine .scheduler_bind (.set_bind ?_)
  refine .after (.single (.shift [] (.takeInbox world.scheduler))) ?_
  refine .bind (RunM.Orderly.forM (handle_orderly standard) _ _) fun _ later _ => ?_
  refine .scheduler_bind (.set_bind ?_)
  refine .after (.single (.shift [] (.collectDue (Scheduler.clipped elapsed) later.scheduler))) ?_
  exact RunM.Orderly.forM (fireDue_orderly standard) _ _

theorem settle_orderly (standard : engine.Standard) (jobs : Nat) :
    RunM.Orderly [] (engine.settle budget jobs) := by
  induction jobs with
  | zero => exact .outOfBudget
  | succ jobs ih =>
      intro world
      refine .world_bind ?_
      split
      · exact .pure .refl
      · rename_i job rest taken
        refine .set_bind (.after (.single (.shift [] (.takeJob taken))) ?_)
        refine .bind ?_ fun _ later _ => ih later
        cases job with
        | timer id ref =>
            exact .bind (runTimer_orderly standard id ref _) fun _ later _ =>
              RunM.Orderly.shift (fun scheduler => .post _ scheduler) later
        | work callback => exact RunM.Orderly.shift (fun scheduler => .post _ scheduler) _

theorem tick_orderly (standard : engine.Standard) (elapsed : Duration) :
    RunM.Orderly [] (engine.tick budget elapsed) :=
  .bind (scheduler_tick_orderly standard elapsed) fun _ => settle_orderly standard budget

end Engine

inductive Tuning where
  | setPaused (paused : Bool)
  | delayFor (duration : Duration)
  | delayUntil (deadline : Duration)
  | hold
  | release
  | setKind (kind : QueueKind)
  | setOffMain (offMain : Bool)
  | setContext (context : Table String)
  | define (name value : String)
  | undefine (name : String)

def Tuning.apply (now : Duration) (tuning : Tuning) (queue : Queue) : Queue :=
  match tuning with
  | .setPaused paused => queue.setPaused paused
  | .delayFor duration => queue.delayFor duration now
  | .delayUntil deadline => queue.setDelay deadline
  | .hold => queue.hold
  | .release => queue.release
  | .setKind kind => { queue with kind }
  | .setOffMain offMain => { queue with offMain }
  | .setContext context => { queue with context := some context }
  | .define name value => queue.define name value
  | .undefine name => queue.undefine name

theorem Tuning.alike (now : Duration) (tuning : Tuning) (queue : Queue) :
    queue.Alike (tuning.apply now queue) := by
  cases tuning <;> exact ⟨rfl, rfl, rfl, rfl, rfl⟩

inductive HostCall where
  | register (script : Script)
  | fire (request : FireRequest)
  | tick (elapsed : Duration)
  | fill (queue : Option QueueRef) (text : String)
  | make (id : String) (kind : QueueKind)
  | enlist (id : String) (kind : QueueKind)
  | start (queue : QueueRef)
  | revolve (queue : QueueRef)
  | add (queue : QueueRef) (entries : List Entry)
  | inject (queue : QueueRef) (index : Nat) (entries : List Entry)
  | clear (queue : QueueRef)
  | tune (queue : QueueRef) (tuning : Tuning)
  | releaseHold (id : String)
  | onStop (queue : QueueRef) (label : String)
  | stop (queue : QueueRef)
  | shutdown

namespace HostCall

def queue? : HostCall → Option QueueRef
  | .fill queue _ => queue
  | .start queue | .revolve queue | .add queue _ | .inject queue _ _ | .clear queue
  | .tune queue _ | .onStop queue _ | .stop queue => some queue
  | _ => none

/-- The engine at work on a call; the budget bounds it as it bounds firing. -/
def run (engine : Engine η) (budget : Nat) : HostCall → RunM η Unit
  | .register script => RunM.update (World.registerScript script)
  | .fire request => do let _ ← engine.fire budget request
  | .tick elapsed => engine.tick budget elapsed
  | .fill queue text => do let _ ← engine.fillText (engine.fire budget) queue text
  | .make id kind => do let _ ← RunM.updateGet (World.makeQueue id kind)
  | .enlist id kind => do let _ ← RunM.updateGet (World.queueOrCreate id kind)
  | .start queue => engine.startQueue (engine.fire budget) budget queue
  | .revolve queue => engine.revolve (engine.fire budget) budget queue
  | .add queue entries => RunM.modifyQueue queue (Queue.addEntries entries)
  | .inject queue index entries => RunM.modifyQueue queue (Queue.injectEntries index entries)
  | .clear queue => RunM.modifyQueue queue Queue.clearEntries
  | .tune queue tuning => do RunM.modifyQueue queue (tuning.apply (← RunM.now))
  | .releaseHold id => do let _ ← Queue.releaseHold id
  | .onStop queue label => Queue.atEnd queue (.notify label)
  | .stop queue => Queue.stop engine.host queue
  | .shutdown => engine.shutdown

variable {engine : Engine η}

theorem releaseHold_orderly (id : String) :
    RunM.Orderly [] (Queue.releaseHold id : RunM η Bool) := by
  refine .world_bind fun world => ?_
  split
  · exact .pure _
  · exact .bind (.adjust fun _ => ⟨rfl, rfl, rfl, rfl, rfl⟩) fun _ => .queue_bind fun _ =>
      .bind (.log _ _) fun _ => .pure _

theorem run_leads (standard : engine.Standard) (budget : Nat) {call : HostCall}
    (lively : ∀ id kind, call ≠ .make id kind) (lasting : call ≠ .shutdown) {world : World η}
    (made : ∀ ref ∈ call.queue?, ref.index < world.queues.size) :
    RunM.Leads ⟨[], world⟩ world (call.run engine budget) [] := by
  have fires := Engine.fire_orderly standard budget
  cases call with
  | register script => exact .update (.single (.beside [] ⟨rfl, rfl, rfl⟩))
  | fire request => exact .bind (fires [] request world) fun _ _ _ => .pure .refl
  | tick elapsed => exact Engine.tick_orderly standard elapsed world
  | fill queue text =>
      exact .bind (Engine.fillText_orderly standard fires queue text world) fun _ _ _ => .pure .refl
  | make id kind => exact absurd rfl (lively id kind)
  | enlist id kind => exact .updateGet_bind (.pure (.single (.enlist [] world id kind)))
  | start queue => exact Engine.startQueue_leads standard fires budget (made queue rfl)
  | revolve queue => exact Engine.revolve_orderly standard fires budget queue world
  | add queue entries => exact .update (.single (.add [] world queue entries))
  | inject queue index entries => exact .update (.single (.inject [] world queue index entries))
  | clear queue => exact .update (.single (.clear [] world queue))
  | tune queue tuning =>
      exact .now_bind (.update (.single (.adjust [] world queue _ (tuning.alike world.now))))
  | releaseHold id => exact .bind (releaseHold_orderly id world) fun _ _ _ => .pure .refl
  | onStop queue label => exact Queue.atEnd_orderly queue (.notify label) world
  | stop queue => exact Queue.stop_orderly engine.host queue world
  | shutdown => exact absurd rfl lasting

theorem shutdown_course (engine : Engine η) {start finish : Tag.Evaluation (World η)}
    (ran : engine.shutdown.run start = some ((), finish)) :
    ∃ world, Course ⟨[], start.world⟩ ⟨[], world⟩ ∧
      finish.world = { world with scheduler := world.scheduler.clear } := by
  have stops : RunM.Orderly [] (do
      RunM.log .debug s!"Shutting down {start.world.live.length} live queue(s)."
      start.world.live.forM fun named => Queue.stop engine.host named.2 : RunM η Unit) := by
    refine .bind (.log _ _) fun _ => .forM ?_ _
    intro named
    exact Queue.stop_orderly engine.host named.2
  rw [Engine.shutdown, RunM.world, Tag.EvalM.run_world_bind, ← bind_assoc] at ran
  obtain ⟨_, later, stopped, cleared⟩ := Tag.EvalM.run_bind_eq_some.1 ran
  obtain ⟨_, rfl⟩ := Prod.mk.inj (Option.some.inj cleared)
  exact ⟨later.world, stops start.world start _ later rfl stopped, rfl⟩

theorem run_cases (standard : engine.Standard) {budget : Nat} {call : HostCall}
    {start finish : Tag.Evaluation (World η)}
    (made : ∀ ref ∈ call.queue?, ref.index < start.world.queues.size)
    (answered : (call.run engine budget).run start = some ((), finish)) :
    ((∀ id kind, call ≠ .make id kind) ∧ call ≠ .shutdown ∧
        Course ⟨[], start.world⟩ ⟨[], finish.world⟩) ∨
      (∃ id kind, call = .make id kind ∧ finish.world = (start.world.makeQueue id kind).2) ∨
      (call = .shutdown ∧ ∃ world, Course ⟨[], start.world⟩ ⟨[], world⟩ ∧
        finish.world = { world with scheduler := world.scheduler.clear }) := by
  by_cases last : call = .shutdown
  · subst last
    exact .inr (.inr ⟨rfl, shutdown_course engine answered⟩)
  · by_cases makes : ∃ id kind, call = .make id kind
    · obtain ⟨id, kind, rfl⟩ := makes
      obtain ⟨_, rfl⟩ := Prod.mk.inj (Option.some.inj answered)
      exact .inr (.inl ⟨id, kind, rfl, rfl⟩)
    · have lively : ∀ id kind, call ≠ .make id kind := fun id kind same => makes ⟨id, kind, same⟩
      exact .inl ⟨lively, last, run_leads standard budget lively last made _ _ _ rfl answered⟩

end HostCall

/-- The engine answers calls one after another, each within some budget. The host names only queues
that were made. -/
inductive Engine.Runs (engine : Engine η) :
    List HostCall → Tag.Evaluation (World η) → Tag.Evaluation (World η) → Prop
  | nil (state : Tag.Evaluation (World η)) : Runs engine [] state state
  | cons {call : HostCall} {calls : List HostCall} {budget : Nat}
      {start between finish : Tag.Evaluation (World η)}
      (made : ∀ ref ∈ call.queue?, ref.index < start.world.queues.size)
      (answered : (call.run engine budget).run start = some ((), between))
      (rest : Runs engine calls between finish) : Runs engine (call :: calls) start finish

def Engine.answer (engine : Engine η) (budget : Nat) :
    List HostCall → Tag.Evaluation (World η) → Option (Tag.Evaluation (World η))
  | [], state => some state
  | call :: calls, state =>
    if call.queue?.all (·.index < state.world.queues.size) then
      ((call.run engine budget).run state).bind fun (_, later) => answer engine budget calls later
    else none

theorem Engine.runs_of_answer {engine : Engine η} {budget : Nat} {calls : List HostCall}
    {start finish : Tag.Evaluation (World η)}
    (answered : engine.answer budget calls start = some finish) :
    engine.Runs calls start finish := by
  induction calls generalizing start with
  | nil =>
      cases answered
      exact .nil _
  | cons call calls ih =>
      rw [answer] at answered
      split at answered
      · rename_i made
        obtain ⟨⟨_, later⟩, ran, answered⟩ := Option.bind_eq_some_iff.1 answered
        refine .cons (fun ref named => ?_) ran (ih answered)
        simpa [Option.mem_def.1 named] using made
      · cases answered

namespace Engine.Runs

variable {engine : Engine η} {calls : List HostCall} {start finish : Tag.Evaluation (World η)}

theorem append {more : List HostCall} {last : Tag.Evaluation (World η)}
    (runs : engine.Runs calls start finish) (goesOn : engine.Runs more finish last) :
    engine.Runs (calls ++ more) start last := by
  induction runs with
  | nil state => exact goesOn
  | cons made answered rest ih => exact .cons made answered (ih goesOn)

/-- What moves keep is kept by every run, if making queues and, at the end, dropping the timers keep
it too. -/
theorem keeps (standard : engine.Standard) (holds : Stage η → Prop)
    (step : ∀ {stage later : Stage η}, Move stage later → holds stage → holds later)
    (made : ∀ (world : World η) id kind, holds ⟨[], world⟩ →
      holds ⟨[], (world.makeQueue id kind).2⟩)
    (cleared : .shutdown ∈ calls → ∀ world : World η, holds ⟨[], world⟩ →
      holds ⟨[], { world with scheduler := world.scheduler.clear }⟩)
    (runs : engine.Runs calls start finish) (started : holds ⟨[], start.world⟩) :
    holds ⟨[], finish.world⟩ := by
  induction runs with
  | nil state => exact started
  | cons known answered rest ih =>
      refine ih (fun ended => cleared (List.mem_cons_of_mem _ ended)) ?_
      rcases HostCall.run_cases standard known answered with
        ⟨_, _, course⟩ | ⟨id, kind, _, same⟩ | ⟨rfl, world, course, ended⟩
      · exact Course.keeps holds step course started
      · rw [same]
        exact made _ id kind started
      · rw [ended]
        exact cleared List.mem_cons_self world (Course.keeps holds step course started)

end Engine.Runs

/-- The engine with all built-in commands and tags and no others. -/
def Engine.builtin (host : Host) : Engine η where
  host
  commands := ⟨Command.builtins.map fun command => (command.name, command)⟩
  resolvers := Vocabulary.resolvers
  attributes := Vocabulary.attributes

theorem Engine.build_withBuiltins (host : Host) :
    (EngineParts.withBuiltins { host } : EngineParts η).build = .ok (builtin host) := by
  cbv

theorem Engine.builtin_standard (host : Host) : (builtin host : Engine η).Standard where
  commands := by
    intro name command found
    obtain ⟨known, listed, same⟩ := List.mem_map.1 (Table.mem_of_get? found)
    exact (Prod.mk.inj same).2 ▸ listed
  resolvers := Vocabulary.resolvers_discreet
  attributes := Vocabulary.attributes_discreet

end TagScript
