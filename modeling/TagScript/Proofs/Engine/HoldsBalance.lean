import TagScript.Proofs.Engine.HoldsKept
import TagScript.Proofs.Engine.HostCalls
import TagScript.Proofs.Engine.Parts
import TagScript.Rehearsal

/-! Holds over whole runs. Between revolutions nothing is owed and nothing is in hand, so the holds of
every queue are those of what it waits for. Ticking is watched for that: it comes to the same when every
action and every callback stands between two looks at the books. -/

namespace TagScript

variable {η α β : Type}

open RunM (Secures)
open Tag (Regime Yields)

/-- How much of the work that the queue waits for was not reported back. -/
def World.unreported (ref : QueueRef) (world : World η) : Nat :=
  world.notes.count (.handed ref) - world.notes.count (.reported ref)

def Note.isOverdrawn : Note → Bool
  | .overdrawn _ => true
  | _ => false

/-- Every hold is there for something that its queue waits for, and none was given up that was not
there. -/
structure World.Balanced (world : World η) : Prop where
  holds : ∀ index < world.queues.size,
    (world.queue ⟨index⟩).holds = world.awaited ⟨index⟩ + world.unreported ⟨index⟩
  reported : ∀ index < world.queues.size,
    world.notes.count (.reported ⟨index⟩) ≤ world.notes.count (.handed ⟨index⟩)
  sound : ∀ note ∈ world.notes, note.isOverdrawn = false

instance : DecidablePred (@World.Balanced η) := fun _ =>
  decidable_of_iff _ ⟨fun ⟨holds, reported, sound⟩ => ⟨holds, reported, sound⟩,
    fun ⟨holds, reported, sound⟩ => (⟨holds, reported, sound⟩ : _ ∧ _ ∧ _)⟩

theorem Books.balanced {known hands : List QueueRef} {world : World η}
    (books : Books known [] hands world) : world.Balanced := by
  constructor
  · intro index _
    have balance := books.holds ⟨index⟩
    have enough := books.hands ⟨index⟩
    rw [List.count_nil] at balance
    rw [World.unreported]
    omega
  · intro index _
    have enough := books.hands ⟨index⟩
    omega
  · intro note member
    cases note with
    | overdrawn queue => exact absurd member (books.sound queue)
    | _ => rfl

def RunM.ensure (right : World η → Prop) [DecidablePred right] : RunM η Unit := do
  if right (← world) then return else outOfBudget

theorem RunM.run_ensure {right : World η → Prop} [DecidablePred right]
    {start : Tag.Evaluation (World η)} (holds : right start.world) :
    (ensure right).run start = some ((), start) := by
  rw [ensure, world, Tag.EvalM.run_world_bind, if_pos holds]
  rfl

def Scheduler.Handlers.watched {m : Type → Type} [Monad m] (look : m Unit)
    (handlers : Handlers m α β) : Handlers m α β where
  perform := fun action => do
    look
    let finished ← handlers.perform action
    look
    return finished
  deliver := fun work => do
    look
    let finished ← handlers.deliver work
    look
    return finished
  log := handlers.log

/-- Lets time pass with a look at the world between any two revolutions; nothing comes of it if the
world is not as it has to be there. -/
def Engine.tickWatched (engine : Engine η) (right : World η → Prop) [DecidablePred right]
    (budget : Nat) (elapsed : Duration) : RunM η Unit :=
  tickBy ((engine.handlers budget).watched (RunM.ensure right)) budget elapsed

def Engine.handlersFor (engine : Engine η) (budget : Nat) (watching : Bool) :
    Scheduler.Handlers (RunM η) QueueRef AsyncWork :=
  if watching then (engine.handlers budget).watched (RunM.ensure World.Balanced)
  else engine.handlers budget

def Tag.Regime.either : Regime Bool := ⟨⊤, inferInstance, false⟩

def RunM.Concurs (before : World η → Prop) (act : Bool → RunM η α)
    (after : α → World η → Prop) : Prop :=
  ∀ start, before start.world → Yields .either act start fun result later => after result later.world

namespace RunM

variable {before : World η → Prop} {act : Bool → RunM η α} {next : Bool → α → RunM η β}
  {after : α → World η → Prop} {last : β → World η → Prop}

theorem Secures.concurs {act : RunM η α} (secures : Secures before act after) :
    Concurs before (fun _ => act) after := by
  intro start started
  refine ⟨act.run start, .of_forall fun _ => rfl, ?_⟩
  cases ran : act.run start with
  | none => rfl
  | some outcome => exact secures start outcome.1 outcome.2 started ran

namespace Concurs

theorem secures (concurs : Concurs before act after) (way : Bool) :
    Secures before (act way) after := by
  intro start result finish started ran
  obtain ⟨outcome, runs, holds⟩ := concurs start started
  rw [← Filter.eventually_top.1 runs way, ran] at holds
  exact holds

theorem same (concurs : Concurs before act after) {start : Tag.Evaluation (World η)}
    (started : before start.world) : (act true).run start = (act false).run start := by
  obtain ⟨outcome, runs, _⟩ := concurs start started
  have runs := Filter.eventually_top.1 runs
  rw [runs true, runs false]

theorem bind (first : Concurs before act after)
    (rest : ∀ result, Concurs (after result) (fun way => next way result) last) :
    Concurs before (fun way => act way >>= next way) last :=
  fun start started => Yields.bind (first start started) fun result later => rest result later

theorem scheduler_bind {next : Bool → Scheduler QueueRef AsyncWork → RunM η β}
    (rest : ∀ world, before world → Concurs (· = world) (fun way => next way world.scheduler) last) :
    Concurs before (fun way => getThe (Scheduler QueueRef AsyncWork) >>= next way) last :=
  fun start started => rest start.world started start rfl

theorem world_bind {next : Bool → World η → RunM η β}
    (rest : ∀ world, before world → Concurs (· = world) (fun way => next way world) last) :
    Concurs before (fun way => RunM.world >>= next way) last :=
  fun start started => .world_bind (rest start.world started start rfl)

theorem forM {holds : World η → Prop} {each : Bool → α → RunM η PUnit}
    (keeps : ∀ item, Concurs holds (fun way => each way item) fun _ => holds) (items : List α) :
    Concurs holds (fun way => items.forM (each way)) fun _ => holds := by
  induction items with
  | nil =>
      have ends : Secures holds (Pure.pure () : RunM η PUnit) fun _ => holds :=
        .pure fun _ held => held
      exact ends.concurs
  | cons item rest ih =>
      simp only [List.forM_eq_forM, List.forM_cons]
      exact .bind (keeps item) fun _ => ih

theorem watched {right : World η → Prop} [DecidablePred right]
    (secures : Secures before (act false) after)
    (looks : act true = do
      ensure right
      let result ← act false
      ensure right
      return result)
    (starts : ∀ world, before world → right world)
    (ends : ∀ result world, after result world → right world) : Concurs before act after := by
  intro start started
  refine Yields.congr (secures.concurs start started) (.of_forall fun watching => ?_)
  cases watching with
  | false => rfl
  | true =>
      rw [looks, StateT.run_bind, run_ensure (starts _ started)]
      cases ran : (act false).run start with
      | none => simp [ran]
      | some outcome =>
          have right := ends _ _ (secures start outcome.1 outcome.2 started ran)
          simp [ran, run_ensure right]

end Concurs

end RunM

open RunM (Concurs)

namespace Engine

variable {engine : Engine η} {hands : List QueueRef}

theorem takeBack_books (accountable : engine.Accountable) {known debts : List QueueRef}
    (work : AsyncWork) :
    Secures (Books known debts hands) (engine.takeBack work) fun finished later =>
      finished = true ∧ Books known debts hands later := by
  unfold takeBack
  dsimp only
  split
  · exact .pure fun _ books => ⟨rfl, books⟩
  · rename_i background found
    obtain ⟨command, named, part⟩ := Option.bind_eq_some_iff.1 found
    rcases accountable.commands _ command named with builtin | reliable
    · rw [Command.background_of_builtin builtin] at part
      cases part
    · split
      · obtain ⟨⟨host, dutiful⟩, succeeds⟩ := reliable.finish background part work.queue _
        exact .and (.of_gives succeeds) (dutiful.books (by simp) (by simp))
      · exact .any_queue_bind fun _ => .bind (engine.host.error_books _ _) fun _ =>
          .pure fun _ books => ⟨rfl, books⟩

theorem deliver_books (accountable : engine.Accountable) (work : AsyncWork) :
    Secures (Books [] [] (work.waiting.toList ++ hands)) (engine.deliver work)
      fun finished later => finished = true ∧ Books [] [] hands later := by
  have takes (debts : List QueueRef) : Secures (Books [] debts hands) (engine.takeBack work)
      fun finished later => finished = true ∧ Books [] debts hands later :=
    takeBack_books accountable work
  unfold deliver AsyncWork.waiting
  cases work.holds with
  | false =>
      refine .bind (takes []) fun finished => .each fun world kept => ?_
      obtain ⟨rfl, books⟩ := kept
      exact .pure fun _ same => same ▸ ⟨rfl, books⟩
  | true =>
      -- The hold is owed from the report on.
      have reports : Secures (Books [] [] ([work.queue] ++ hands)) (RunM.jot (.reported work.queue))
          fun _ => Books (η := η) [] [work.queue] hands :=
        .update fun _ books => books.report
      refine .bind reports fun _ => .bind (takes [work.queue]) fun finished => .each fun world kept => ?_
      obtain ⟨rfl, books⟩ := kept
      refine .bind ((RunM.release_books work.queue).weaken ?_ fun _ _ books => books) fun _ =>
        .pure fun _ books => ⟨rfl, books⟩
      exact fun _ same => same ▸ books

theorem update_books {more : List QueueRef}
    {change : Scheduler QueueRef AsyncWork → Scheduler QueueRef AsyncWork}
    (works : ∀ scheduler ref, (change scheduler).works.count ref + more.count ref ≤
      scheduler.works.count ref + hands.count ref) :
    Secures (Books [] [] hands) (Scheduler.update change : RunM η Unit)
      fun _ => Books [] [] more := by
  intro start _ _ books ran
  obtain ⟨_, rfl⟩ := Prod.mk.inj (Option.some.inj ran)
  exact books.pass (works start.world.scheduler)

theorem set_books {more : List QueueRef} {world : World η} (books : Books [] [] hands world)
    {scheduler : Scheduler QueueRef AsyncWork}
    (works : ∀ ref, scheduler.works.count ref + more.count ref ≤
      world.scheduler.works.count ref + hands.count ref) :
    Secures (· = world) (set scheduler : RunM η PUnit) fun _ => Books [] [] more := by
  refine .update fun _ same => ?_
  subst same
  exact books.pass works

section

variable (accountable : engine.Accountable) (budget : Nat)

include accountable

theorem perform_books (ref : QueueRef) :
    Concurs (Books [] [] hands) (fun watching => (engine.handlersFor budget watching).perform ref)
      fun _ => Books [] [] hands :=
  .watched (.bind (revolve_books accountable (fire_books accountable budget) ref budget) fun _ =>
    .pure fun _ books => books) rfl (fun _ books => books.balanced) fun _ _ books => books.balanced

omit accountable in
theorem handlersFor_log (watching : Bool) :
    (engine.handlersFor budget watching).log = RunM.log := by
  cases watching <;> rfl

omit accountable in
theorem logUnless_books (finished : Bool) (level : LogLevel) (text : String) :
    Secures (Books [] [] hands)
      (do if !finished then RunM.log level text : RunM η Unit) fun _ => Books [] [] hands :=
  .ite (fun _ => RunM.log_books level text) fun _ => .pure fun _ books => books

theorem handle_books (message : Message AsyncWork) :
    Concurs (Books [] [] (message.waiting.toList ++ hands))
      (fun watching => Scheduler.handle (engine.handlersFor budget watching) message)
      fun _ => Books [] [] hands := by
  cases message with
  | completed id =>
      have completes : Secures (Books [] [] hands) (Scheduler.update (Scheduler.complete id))
          fun _ => Books (η := η) [] [] hands := update_books fun _ _ => Nat.le_refl _
      exact completes.concurs
  | callback work =>
      have delivers : Concurs (Books [] [] (work.waiting.toList ++ hands))
          (fun watching => (engine.handlersFor budget watching).deliver work)
          fun _ => Books [] [] hands :=
        .watched ((deliver_books accountable work).weaken (fun _ books => books)
          fun _ _ kept => kept.2) rfl (fun _ books => books.balanced) fun _ _ books => books.balanced
      simp only [Scheduler.handle, handlersFor_log]
      exact .bind delivers fun finished => (logUnless_books finished _ _).concurs

theorem handles_books (messages : List (Message AsyncWork)) :
    Concurs (Books [] [] (messages.filterMap Message.waiting ++ hands))
      (fun watching => messages.forM (Scheduler.handle (engine.handlersFor budget watching)))
      fun _ => Books [] [] hands := by
  induction messages with
  | nil =>
      have ends : Secures (Books [] [] hands) (pure () : RunM η PUnit) fun _ => Books [] [] hands :=
        .pure fun _ books => books
      exact ends.concurs
  | cons message rest ih =>
      have hands_eq : (message :: rest).filterMap Message.waiting ++ hands =
          message.waiting.toList ++ (rest.filterMap Message.waiting ++ hands) := by
        cases waiting : message.waiting <;> simp [waiting]
      simp only [List.forM_eq_forM, List.forM_cons, hands_eq]
      exact .bind (handle_books accountable budget message) fun _ => ih

theorem runTimer_books (id : TimerId) (ref : QueueRef) :
    Concurs (Books [] [] hands)
      (fun watching => Scheduler.runTimer (engine.handlersFor budget watching) id ref)
      fun _ => Books [] [] hands := by
  simp only [Scheduler.runTimer, handlersFor_log]
  exact .bind (perform_books accountable budget ref) fun finished => (logUnless_books finished _ _).concurs

theorem fireDue_books (due : Due QueueRef) :
    Concurs (Books [] [] hands)
      (fun watching => Scheduler.fire (engine.handlersFor budget watching) due)
      fun _ => Books [] [] hands := by
  unfold Scheduler.fire
  split
  · exact runTimer_books accountable budget due.id due.action
  · refine .scheduler_bind fun world books => ?_
    simp only [handlersFor_log]
    refine Secures.concurs (.ite (fun _ => ?_) fun _ => ?_)
    · exact (RunM.log_books _ _).weaken (fun _ same => same ▸ books) fun _ _ books => books
    · refine set_books books fun other => ?_
      rw [Scheduler.dispatchToWorker, Scheduler.count_works_spawn]
      exact Nat.le_refl _

theorem scheduler_tick_books (elapsed : Duration) :
    Concurs (Books [] [] [])
      (fun watching => Scheduler.tick (engine.handlersFor budget watching) elapsed)
      fun _ => Books [] [] [] := by
  have advances : Secures (Books [] [] []) (Scheduler.update (Scheduler.advance elapsed))
      fun _ => Books (η := η) [] [] [] := update_books fun _ _ => Nat.le_refl _
  refine .bind advances.concurs fun _ => .scheduler_bind fun world books => ?_
  -- The posted messages are in hand until they are handled.
  let posted := world.scheduler.inbox.filterMap Message.waiting
  have takes : Secures (· = world) (set world.scheduler.takeInbox.2 : RunM η PUnit)
      fun _ => Books [] [] (posted ++ []) :=
    set_books books fun other => by simp [Scheduler.takeInbox, Scheduler.works, posted]
  refine .bind takes.concurs fun _ => .bind (handles_books accountable budget _) fun _ => ?_
  refine .scheduler_bind fun later books => ?_
  have ages : Secures (· = later)
      (set (later.scheduler.collectDue (Scheduler.clipped elapsed)).2 : RunM η PUnit)
      fun _ => Books [] [] [] := set_books books fun _ => Nat.le_refl _
  exact .bind ages.concurs fun _ => .forM (fireDue_books accountable budget) _

theorem runJob_books (job : Job QueueRef AsyncWork) :
    Concurs (Books [] [] (job.waiting.toList))
      (fun watching => Scheduler.runJob (engine.handlersFor budget watching) job)
      fun _ => Books [] [] [] := by
  have posts (message : Message AsyncWork) :
      Secures (Books [] [] message.waiting.toList) (Scheduler.update (Scheduler.post message))
        fun _ => Books (η := η) [] [] [] :=
    update_books fun scheduler other => by simp [Scheduler.count_works_post]
  cases job with
  | timer id ref =>
      exact .bind (runTimer_books accountable budget id ref) fun _ => (posts (.completed id)).concurs
  | work callback => exact (posts (.callback callback)).concurs

theorem settle_books (jobs : Nat) :
    Concurs (Books [] [] []) (fun watching => settleBy (engine.handlersFor budget watching) jobs)
      fun _ => Books [] [] [] := by
  induction jobs with
  | zero => exact Secures.outOfBudget.concurs
  | succ jobs ih =>
      refine .world_bind fun world books => ?_
      cases taken : world.scheduler.takeJob? with
      | none => exact (Secures.pure fun _ same => same ▸ books).concurs
      | some found =>
          obtain ⟨job, scheduler⟩ := found
          have takes : Secures (· = world) (set scheduler : RunM η PUnit)
              fun _ => Books [] [] job.waiting.toList :=
            set_books books fun other => Nat.le_of_eq (Scheduler.count_works_takeJob other taken)
          exact .bind takes.concurs fun _ => .bind (runJob_books accountable budget job) fun _ => ih

/-- A tick comes to the same when it is watched, and leaves the books in order. -/
theorem tick_books (elapsed : Duration) :
    Concurs (Books [] [] [])
      (fun watching => if watching then engine.tickWatched World.Balanced budget elapsed
        else engine.tick budget elapsed) fun _ => Books [] [] [] := by
  have same : (fun watching => if watching then engine.tickWatched World.Balanced budget elapsed
      else engine.tick budget elapsed) =
        fun watching => tickBy (engine.handlersFor budget watching) budget elapsed := by
    funext watching
    cases watching with
    | false => exact engine.tick_eq budget elapsed
    | true => rfl
  rw [same]
  exact .bind (scheduler_tick_books accountable budget elapsed) fun _ =>
    settle_books accountable budget budget

end

end Engine

namespace HostCall

def movesHolds : HostCall → Bool
  | .tune _ .hold | .tune _ .release | .releaseHold _ => true
  | _ => false

theorem tune_books {known debts hands : List QueueRef} (queue : QueueRef) {tuning : Tuning}
    (aloof : (HostCall.tune queue tuning).movesHolds = false) (now : Duration) :
    Secures (Books known debts hands) (RunM.modifyQueue queue (tuning.apply now) : RunM η Unit)
      fun _ => Books known debts hands := by
  refine RunM.modifyQueue_books queue fun held => ?_
  cases tuning <;> first | cases aloof; done | exact ⟨rfl, rfl, fun _ => rfl⟩

theorem run_books {engine : Engine η} (accountable : engine.Accountable) (budget : Nat)
    {call : HostCall} (aloof : call.movesHolds = false) :
    Secures (Books [] [] []) (call.run engine budget) fun _ => Books [] [] [] := by
  have fires := Engine.fire_books accountable budget
  cases call with
  | register script =>
      exact RunM.update_books fun _ => .of_same rfl rfl rfl (List.Subset.refl _)
  | fire request =>
      exact .bind (fires request [] [] []) fun _ => .pure fun _ kept => kept.1
  | tick elapsed => exact (Engine.tick_books accountable budget elapsed).secures false
  | fill queue text =>
      exact .bind (Engine.fillText_books accountable fires queue text) fun _ =>
        .pure fun _ books => books
  | make id kind =>
      exact .bind (RunM.updateGet_books (.makeQueue id kind)) fun _ => .pure fun _ books => books
  | enlist id kind =>
      exact .bind (RunM.updateGet_books (Engine.queueOrCreate_offBooks id kind)) fun _ =>
        .pure fun _ books => books
  | start queue => exact Engine.startQueue_books accountable fires queue budget
  | revolve queue => exact Engine.revolve_books accountable fires queue budget
  | add queue entries | inject queue index entries | clear queue =>
      exact RunM.modifyQueue_books queue fun _ => ⟨rfl, rfl, fun _ => rfl⟩
  | tune queue tuning => exact .any_now_bind (tune_books queue aloof)
  | releaseHold id => cases aloof
  | onStop queue label =>
      refine .any_queue_bind fun held => .ite (fun _ => ?_) fun _ => ?_
      · exact RunM.update_books fun _ => .of_same rfl rfl rfl (List.Subset.refl _)
      · exact RunM.modifyQueue_books queue fun _ => ⟨rfl, rfl, fun _ => by simp⟩
  | stop queue => exact Queue.stop_books engine.host queue
  | shutdown =>
      refine .any_world_bind fun world => .bind (RunM.log_books _ _) fun _ => ?_
      refine .bind (.forM _ fun _ _ => Queue.stop_books engine.host _) fun _ => ?_
      refine RunM.update_books fun _ => .reschedule fun other => ?_
      simp [Scheduler.clear, Scheduler.works]

end HostCall

/-! The engine of a rehearsal keeps the books, with its commands that fail and that work on the
pool. -/

namespace Command.Dutiful

variable {host : Host} {scene : Option (Scene η)}

theorem update {change : World η → World η}
    (same : ∀ world : World η, world.OffBooks (change world)) :
    Dutiful host scene (RunM.update change) :=
  have acts : Dutiful host scene (RunM.updateGet fun world => ((), change world)) := .act same
  acts

theorem emit (event : Event) : Dutiful host scene (RunM.emit event : RunM η Unit) :=
  update fun world => .spoke (world.emit_aloof event).spoke

theorem queue (ref : QueueRef) : Dutiful host scene (RunM.queue ref : RunM η Queue) :=
  have acts : Dutiful host scene (RunM.updateGet fun world : World η => (world.queue ref, world)) :=
    .act .refl
  acts

theorem queueId (found : Scene η) : Dutiful host scene found.queueId :=
  .bind (queue found.queue) fun _ => .pure _

end Command.Dutiful

namespace Rehearsal

open Tag (Lookup)
open Command (Dutiful)

def engine : Engine Tally where
  host := {}
  commands := ⟨(Command.builtins.map fun command => (command.name, command)) ++
    [("narrate", Command.narrate), ("echo", Command.narrate), ("strict", strict),
      ("async", inBackground)]⟩
  resolvers := Vocabulary.resolvers ++ [tags]
  attributes := Vocabulary.attributes ++ [attributes]

theorem build_parts : (Settings.parts {} {}).build = .ok engine := by
  cbv

theorem tags_plain (lookup : Lookup) : (tags.resolve lookup).Plain true := by
  refine .bind (.ofOption _) fun key => ?_
  split
  · exact .bind (.lift .cancel) fun _ => .pure _
  · exact .bind (.ofOption _) fun _ => .pure _
  · exact .bind .world fun _ => .bind (.lift (.tell fun _ => ⟨_, _, rfl⟩)) fun _ => .pure _
  · exact .bind (.bracket 0) fun _ => .bind (.bracket 0) fun _ => .pure _
  · exact .pure _
  · exact .pure _
  · exact .pure _
  · exact .bind (.lift .isCancelled) fun _ => .pure _
  · exact .failure

theorem attributes_plain (value : String) (lookup : Lookup) (position : Nat) :
    (attributes.apply value lookup position).Plain true := by
  refine .bind (.ofOption _) fun key => ?_
  split
  · exact .bind (.lift (.bracket position)) fun _ => .pure _
  · exact .pure _
  · exact .pure _
  · exact .pure _
  · exact .failure

theorem narrate_reliable : (Command.narrate : Command η).Reliable where
  execute := fun scene _ => .bind (.queueId scene) fun _ => .bind (.emit _) fun _ => .pure _
  finish := fun _ part => by cases part

theorem strict_reliable : (strict : Command η).Reliable where
  execute := by
    intro scene invocation
    unfold strict
    dsimp only
    split
    case h_7 => exact .bind (.queueId scene) fun _ => .bind (.emit _) fun _ => .pure _
    all_goals exact .pure _
  finish := fun _ part => by cases part

theorem inBackground_reliable : (inBackground : Command η).Reliable where
  execute := fun _ invocation => .bind (.background invocation) fun _ => .pure _
  finish := by
    rintro _ ⟨⟩ queue value
    refine ⟨⟨{}, ?_⟩, ?_⟩
    · exact .bind (.queue _) fun _ => .bind (.emit _) fun _ =>
        .bind (.update fun _ => .modifyQueue _ ⟨rfl, rfl, fun _ => rfl⟩) fun _ => .pure _
    · intro start result finish ran
      cases ran
      rfl

theorem accountable : engine.Accountable where
  commands := by
    intro name command found
    have listed := ((EngineParts.build_eq_ok build_parts).1.find? found).1
    rcases List.mem_append.1 (show command ∈ Command.builtins ++ [.narrate, strict, inBackground] from
      listed) with builtin | own
    · exact .inl builtin
    · simp only [List.mem_cons, List.not_mem_nil, or_false] at own
      rcases own with rfl | rfl | rfl
      · exact .inr narrate_reliable
      · exact .inr strict_reliable
      · exact .inr inBackground_reliable
  resolvers := by
    intro resolver member lookup
    rcases List.mem_append.1 member with known | own
    · exact Vocabulary.resolvers_plain true resolver known lookup
    · obtain rfl := List.mem_singleton.1 own
      exact tags_plain lookup
  attributes := by
    intro handler member value lookup position
    rcases List.mem_append.1 member with known | own
    · exact Vocabulary.attributes_plain true true handler known value lookup position
    · obtain rfl := List.mem_singleton.1 own
      exact attributes_plain value lookup position

end Rehearsal

namespace Engine.Runs

variable {engine : Engine η} {calls : List HostCall}

theorem books (accountable : engine.Accountable) {start finish : Tag.Evaluation (World η)}
    (runs : engine.Runs calls start finish) (aloof : ∀ call ∈ calls, call.movesHolds = false)
    (books : Books [] [] [] start.world) : Books [] [] [] finish.world := by
  induction runs with
  | nil => exact books
  | cons _ answered _ ih =>
      rw [List.forall_mem_cons] at aloof
      exact ih aloof.2 (HostCall.run_books accountable _ aloof.1 _ _ _ books answered)

/-- After any calls of a host that leaves holds alone, every queue is held for just what it waits for,
and so it is between any two revolutions of a tick. -/
theorem holds_balance (accountable : engine.Accountable) {host : η}
    {finish : Tag.Evaluation (World η)} (runs : engine.Runs calls (engine.start host) finish)
    (aloof : ∀ call ∈ calls, call.movesHolds = false) :
    finish.world.Balanced ∧ ∀ budget elapsed,
      (engine.tickWatched World.Balanced budget elapsed).run finish =
        (engine.tick budget elapsed).run finish := by
  have books := runs.books accountable aloof (.start engine host)
  exact ⟨books.balanced, fun budget elapsed => (tick_books accountable budget elapsed).same books⟩

def overlappingWaits : List HostCall :=
  [.register ⟨"child", [⟨"async", ["text"], true, none, none⟩]⟩,
    .fire ⟨.inline ⟨"parent", [⟨"run", ["nobody"], true, none, none⟩,
      ⟨"run", ["child"], true, none, none⟩]⟩, {}⟩]

theorem holds_balance_overlappingWaits :
    ∃ finish, Rehearsal.engine.Runs overlappingWaits (Rehearsal.engine.start default) finish ∧
      (∀ call ∈ overlappingWaits, call.movesHolds = false) ∧
      [0, 1].map (fun index => (finish.world.queue ⟨index⟩).holds) = [1, 1] ∧
      finish.world.awaited ⟨0⟩ = 1 ∧ finish.world.unreported ⟨1⟩ = 1 ∧
      finish.world.Balanced ∧ ∀ budget elapsed,
        (Rehearsal.engine.tickWatched World.Balanced budget elapsed).run finish =
          (Rehearsal.engine.tick budget elapsed).run finish := by
  have answered : ((Rehearsal.engine.answer 5 overlappingWaits (Rehearsal.engine.start default)).map
      fun finish => ([0, 1].map fun index => (finish.world.queue ⟨index⟩).holds,
        finish.world.awaited ⟨0⟩, finish.world.unreported ⟨1⟩)) = some ([1, 1], 1, 1) := by
    decide +kernel
  obtain ⟨finish, answered, told⟩ := Option.map_eq_some_iff.1 answered
  obtain ⟨holds, told⟩ := Prod.mk.inj told
  obtain ⟨awaited, unreported⟩ := Prod.mk.inj told
  have runs := Engine.runs_of_answer answered
  have aloof : ∀ call ∈ overlappingWaits, call.movesHolds = false := by
    simp [overlappingWaits, HostCall.movesHolds]
  exact ⟨finish, runs, aloof, holds, awaited, unreported,
    holds_balance Rehearsal.accountable runs aloof⟩

end Engine.Runs

end TagScript
