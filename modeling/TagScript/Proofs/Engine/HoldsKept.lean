import TagScript.Proofs.Engine.Advance
import TagScript.Proofs.Queue.Holds

/-! The engine keeps the books on holds: whatever scripts do, in every revolution and every firing,
each hold that is taken is given up for what it was taken for, and no other. -/

namespace TagScript

variable {η α : Type}

open RunM (Secures)

def Firing.Accounts (fire : Firing η) : Prop :=
  ∀ request known debts hands, Secures (Books known debts hands) (fire request) fun answer later =>
    Books known debts hands later ∧
      ∀ result, answer = .ok result → result.queue.index < later.queues.size

section

variable {known debts hands : List QueueRef}

theorem RunM.log_books (level : LogLevel) (text : String) :
    Secures (Books known debts hands) (RunM.log level text : RunM η Unit)
      fun _ => Books known debts hands :=
  update_books fun _ => .of_same rfl rfl rfl (List.Subset.refl _)

theorem Host.error_books (host : Host) (queue : Option String) (text : String) :
    Secures (Books known debts hands) (host.error queue text : RunM η Unit)
      fun _ => Books known debts hands :=
  host.error_secures (fun reported books => books.offBooks (.spoke reported.spoke)) queue text

theorem Host.message_books (host : Host) (queue : Option String) (text : String) :
    Secures (Books known debts hands) (host.message queue text : RunM η Unit)
      fun _ => Books known debts hands :=
  host.message_secures (fun reported books => books.offBooks (.spoke reported.spoke)) queue text

theorem Scene.queueId_books (scene : Scene η) :
    Secures (Books known debts hands) scene.queueId fun _ => Books known debts hands :=
  .any_queue_bind fun _ => .pure fun _ books => books

theorem Scene.remark_books (scene : Scene η) (text : String) :
    Secures (Books known debts hands) (scene.remark text) fun _ => Books known debts hands :=
  .bind scene.queueId_books fun _ => scene.host.remark_books _ _

namespace Command

theorem awaitEnd_books {queue target : QueueRef} (member : target ∈ known) :
    Secures (Books known (queue :: debts) hands) (awaitEnd queue target : RunM η Unit)
      fun _ => Books known debts hands := by
  refine .each fun world books => ?_
  have jots : Secures (· = world) (RunM.jot (.awaits queue target))
      fun _ => (· = world.jot (.awaits queue target)) :=
    .update fun _ same => congrArg _ same
  refine .bind jots fun _ => .queue_bind (.ite (fun stopped => ?_) fun runs => ?_)
  · refine .weaken (RunM.release_books queue) ?_ fun _ _ books => books
    exact fun _ same => same ▸ books.awaitStopped stopped
  · refine .update fun _ same => same ▸ books.awaitRunning (books.known target member) ?_
    exact Bool.eq_false_of_not_eq_true runs

theorem runInBackground_books {scene : Scene η} (member : scene.queue ∈ known)
    (invocation : Invocation) :
    Secures (Books known debts hands) (runInBackground scene invocation)
      fun _ => Books known debts hands := by
  unfold runInBackground
  dsimp only
  cases waits : invocation.entry.waits with
  | false =>
      simp only [Bool.false_eq_true, if_false]
      refine .bind (RunM.update_books fun world => .reschedule fun other => ?_) fun _ =>
        .pure fun _ books => books
      simp [Scheduler.count_works_spawn, Job.waiting, AsyncWork.waiting]
  | true =>
      have holds : Secures (Books known debts hands) (RunM.modifyQueue scene.queue Queue.hold)
          fun _ => Books (η := η) known (scene.queue :: debts) hands :=
        .update fun _ books => books.hold member
      simp only [if_true]
      refine .bind holds fun _ => .each fun world books => ?_
      let scheduler := world.scheduler.spawn (.work ⟨scene.queue, invocation, true⟩)
      have spawns : Secures (· = world) (RunM.update fun world =>
            { world with scheduler := world.scheduler.spawn (.work ⟨scene.queue, invocation, true⟩) })
          fun _ => (· = { world with scheduler }) := .update fun _ same => by rw [same]
      refine .bind spawns fun _ => .update fun _ same => same ▸ books.handOver fun other => ?_
      simp [scheduler, Scheduler.count_works_spawn, Job.waiting, AsyncWork.waiting, List.count_cons]

inductive Dutiful (host : Host) : Option (Scene η) → {α : Type} → RunM η α → Prop
  | pure {scene : Option (Scene η)} {α : Type} (result : α) : Dutiful host scene (pure result)
  | bind {scene : Option (Scene η)} {α β : Type} {act : RunM η α} {next : α → RunM η β}
      (first : Dutiful host scene act) (rest : ∀ result, Dutiful host scene (next result)) :
      Dutiful host scene (act >>= next)
  | act {scene : Option (Scene η)} {α : Type} {change : World η → α × World η}
      (same : ∀ world : World η, world.OffBooks (change world).2) :
      Dutiful host scene (RunM.updateGet change)
  | stop {scene : Option (Scene η)} (ref : QueueRef) : Dutiful host scene (Queue.stop host ref)
  | fire {scene : Scene η} (request : FireRequest) : Dutiful host (some scene) (scene.fire request)
  | background {scene : Scene η} (invocation : Invocation) :
      Dutiful host (some scene) (runInBackground scene invocation)

theorem Dutiful.books {host : Host} {scene : Option (Scene η)} {act : RunM η α}
    (dutiful : Dutiful host scene act) (fires : ∀ found ∈ scene, found.fire.Accounts)
    (member : ∀ found ∈ scene, found.queue ∈ known) :
    Secures (Books known debts hands) act fun _ => Books known debts hands := by
  induction dutiful with
  | pure result => exact .pure fun _ books => books
  | bind _ _ first rest => exact .bind (first fires member) fun result => rest result fires member
  | act same => exact RunM.updateGet_books same
  | stop ref => exact Queue.stop_books host ref
  | fire request =>
      exact (fires _ rfl request known debts hands).weaken (fun _ books => books) fun _ _ kept => kept.1
  | background invocation => exact runInBackground_books (member _ rfl) invocation

def Accounts (command : Command η) : Prop :=
  ∀ scene invocation, scene.fire.Accounts → ∀ known debts hands, scene.queue ∈ known →
    Secures (Books known debts hands) (command.execute scene invocation)
      fun _ => Books known debts hands

theorem debug_accounts : (debug : Command η).Accounts := by
  intro scene invocation _ known debts hands _
  refine .bind scene.queueId_books fun _ => ?_
  split
  · exact .bind (scene.host.error_books _ _) fun _ => .pure fun _ books => books
  · exact .bind (scene.host.message_books _ _) fun _ => .pure fun _ books => books

theorem define_accounts : (define : Command η).Accounts := by
  intro scene invocation _ known debts hands _
  unfold define
  dsimp only
  split
  · exact .bind (RunM.modifyQueue_books _ fun _ => ⟨rfl, rfl, fun _ => rfl⟩) fun _ =>
      .bind (scene.remark_books _) fun _ => .pure fun _ books => books
  · exact .pure fun _ books => books

theorem record_offBooks (ref : QueueRef) (fire : FireId) (value : String) (world : World η) :
    world.OffBooks (world.record ref fire value) := by
  obtain ⟨events, same⟩ := world.record_eq ref fire value
  rw [same]
  exact ⟨Nat.le_refl _, fun _ member => .inl member, fun _ => .refl _,
    ⟨[.determined fire value], by simp [Note.isAccount], rfl⟩, fun _ => Nat.le_refl _⟩

theorem determine_accounts : (determine : Command η).Accounts := by
  intro scene invocation _ known debts hands _
  refine .any_queue_bind fun queue => .bind (RunM.update_books (record_offBooks _ _ _)) fun _ => ?_
  exact .bind (scene.remark_books _) fun _ =>
    .when (Queue.stop_books _ _) (.pure fun _ books => books)

theorem inject_accounts : (inject : Command η).Accounts := by
  intro scene invocation _ known debts hands _
  unfold inject
  dsimp only
  refine .any_world_bind fun world => ?_
  split
  · exact .pure fun _ books => books
  · exact .bind (RunM.modifyQueue_books _ fun _ => ⟨rfl, rfl, fun _ => rfl⟩) fun _ =>
      .bind (scene.remark_books _) fun _ => .pure fun _ books => books

theorem actOnQueue_books (scene : Scene η) (invocation : Invocation) (target : QueueRef) :
    Secures (Books known debts hands) (actOnQueue scene invocation target)
      fun _ => Books known debts hands := by
  unfold actOnQueue
  split
  · exact .bind (RunM.modifyQueue_books _ fun _ => ⟨rfl, rfl, fun _ => rfl⟩) fun _ => .pure fun _ books => books
  · exact .bind (RunM.modifyQueue_books _ fun _ => ⟨rfl, rfl, fun _ => rfl⟩) fun _ => .pure fun _ books => books
  · exact .bind (Queue.stop_books _ _) fun _ => .pure fun _ books => books
  · exact .bind (RunM.modifyQueue_books _ fun _ => ⟨rfl, rfl, fun _ => rfl⟩) fun _ => .pure fun _ books => books
  · split
    · exact .pure fun _ books => books
    · exact .any_now_bind fun _ => .bind (RunM.modifyQueue_books _ fun _ => ⟨rfl, rfl, fun _ => rfl⟩)
        fun _ => .pure fun _ books => books
  · exact .pure fun _ books => books

theorem queue_accounts : (queue : Command η).Accounts := by
  intro scene invocation _ known debts hands _
  unfold queue
  dsimp only
  refine .any_world_bind fun world => ?_
  split
  · exact .pure fun _ books => books
  · refine .bind (actOnQueue_books scene invocation _) fun outcome => ?_
    split
    · exact .pure fun _ books => books
    · exact .any_queue_bind fun _ => .bind (scene.remark_books _) fun _ => .pure fun _ books => books

theorem repeatBlock_accounts : (repeatBlock : Command η).Accounts := by
  intro scene invocation _ known debts hands _
  unfold repeatBlock
  dsimp only
  split
  · exact .pure fun _ books => books
  · exact .bind (RunM.modifyQueue_books _ fun _ => ⟨rfl, rfl, fun _ => rfl⟩) fun _ => .pure fun _ books => books

theorem stop_accounts : (stop : Command η).Accounts :=
  fun scene _ _ _ _ _ _ => .bind (Queue.stop_books scene.host scene.queue) fun _ =>
    .pure fun _ books => books

theorem wait_accounts : (wait : Command η).Accounts := by
  intro scene invocation _ known debts hands _
  unfold wait
  dsimp only
  split
  · exact .pure fun _ books => books
  · exact .any_now_bind fun _ => .bind (RunM.modifyQueue_books _ fun _ => ⟨rfl, rfl, fun _ => rfl⟩) fun _ =>
      .bind (scene.remark_books _) fun _ => .pure fun _ books => books

theorem run_accounts : (run : Command η).Accounts := by
  intro scene invocation fires known debts hands member
  have ends (result : FireResult) (name : String) : Secures (Books known debts hands) (do
      scene.remark s!"Started '{name}' on queue '{result.queueId}'."
      return .ok (invocation.setObject "created_queue" result.queueId) :
        RunM η (Except Fault Invocation)) fun _ => Books known debts hands :=
    .bind (scene.remark_books _) fun _ => .pure fun _ books => books
  unfold run
  dsimp only
  cases waits : invocation.entry.waits with
  | false =>
      refine .bind (fires _ known debts hands) fun answer => ?_
      cases answer with
      | error error => exact .pure fun _ kept => kept.1
      | ok result => exact (ends result _).weaken (fun _ kept => kept.1) fun _ _ books => books
  | true =>
      have holds : Secures (Books known debts hands) (RunM.modifyQueue scene.queue Queue.hold)
          fun _ => Books (η := η) known (scene.queue :: debts) hands :=
        .update fun _ books => books.hold member
      refine .bind holds fun _ => .bind (fires _ known (scene.queue :: debts) hands) fun answer => ?_
      cases answer with
      | error error =>
          refine .bind ((RunM.release_books scene.queue).weaken ?_ fun _ _ books => books) fun _ =>
            .pure fun _ books => books
          exact fun _ kept => kept.1
      | ok result =>
          have awaits : Secures (Books (result.queue :: known) (scene.queue :: debts) hands)
              (awaitEnd scene.queue result.queue : RunM η Unit)
              fun _ => Books (result.queue :: known) debts hands :=
            awaitEnd_books List.mem_cons_self
          refine .bind (awaits.weaken ?_ fun _ _ books => books.forget) fun _ => ends result _
          exact fun _ kept => kept.1.remember (kept.2 result rfl)

theorem builtins_account {command : Command η} (known : command ∈ builtins) : command.Accounts := by
  simp only [builtins, List.mem_cons, List.not_mem_nil, or_false] at known
  rcases known with rfl | rfl | rfl | rfl | rfl | rfl | rfl | rfl | rfl
  · exact debug_accounts
  · exact define_accounts
  · exact determine_accounts
  · exact inject_accounts
  · exact queue_accounts
  · exact repeatBlock_accounts
  · exact run_accounts
  · exact stop_accounts
  · exact wait_accounts

end Command

/-- A command of the host whose work and completion never break down. -/
structure Command.Reliable (command : Command η) : Prop where
  execute : ∀ scene invocation,
    Dutiful scene.host (some scene) (command.execute scene invocation)
  finish : ∀ background ∈ command.background, ∀ queue value,
    (∃ host, Dutiful host none (background.finish queue value)) ∧
      Tag.EvalM.Gives (background.finish queue value) (· = true)

/-- An engine with built-in and reliable commands and with plain tags. -/
structure Engine.Accountable (engine : Engine η) : Prop where
  commands : ∀ name, ∀ command ∈ engine.commands.find? name,
    command ∈ Command.builtins ∨ command.Reliable
  resolvers : ∀ resolver ∈ engine.resolvers, ∀ lookup, (resolver.resolve lookup).Plain true
  attributes : ∀ handler ∈ engine.attributes, ∀ value lookup position,
    (handler.apply value lookup position).Plain true

namespace Engine

variable {engine : Engine η} (accountable : engine.Accountable)

include accountable

theorem Accountable.accounts {name : String} {command : Command η}
    (found : engine.commands.find? name = some command) : command.Accounts := by
  rcases accountable.commands name command found with known | reliable
  · exact Command.builtins_account known
  · intro scene invocation fires known debts hands member
    refine (reliable.execute scene invocation).books ?_ ?_
    · rintro _ ⟨⟩
      exact fires
    · rintro _ ⟨⟩
      exact member

section

variable {fire : Firing η} (fires : fire.Accounts)

include fires

theorem fillEntry_books (ref : QueueRef) (entry : Entry) :
    Secures (Books known debts hands) (engine.fillEntry fire ref entry)
      fun _ => Books known debts hands :=
  fillEntry_secures accountable.resolvers accountable.attributes
    (fun _ _ => .bind (fires _ known debts hands) fun _ => .pure fun _ kept => kept.1)
    (fun _ _ _ books => books.offBooks (.of_same rfl rfl rfl (List.Subset.refl _)))
    (fun spoke books => books.offBooks (.spoke spoke)) ref entry

theorem fillText_books (queue : Option QueueRef) (text : String) :
    Secures (Books known debts hands) (engine.fillText fire queue text)
      fun _ => Books known debts hands :=
  fillText_secures (fun reported books => books.offBooks (.spoke reported.spoke))
    accountable.resolvers accountable.attributes
    (fun _ _ => .bind (fires _ known debts hands) fun _ => .pure fun _ kept => kept.1)
    (fun _ _ _ books => books.offBooks (.of_same rfl rfl rfl (List.Subset.refl _))) queue text

omit accountable fires in
theorem error_then_books (host : Host) (queue message : String) (outcome : EntryOutcome) :
    Secures (Books known debts hands)
      (do host.error (some queue) message; return outcome : RunM η EntryOutcome)
      fun _ => Books known debts hands :=
  .bind (host.error_books _ _) fun _ => .pure fun _ books => books

omit accountable in
theorem runCommand_books {ref : QueueRef} (member : ref ∈ known) {command : Command η}
    (accounts : command.Accounts) (invocation : Invocation) (arguments : Arguments)
    (saveName : Option String) :
    Secures (Books known debts hands)
      (engine.runCommand fire ref command invocation arguments saveName)
      fun _ => Books known debts hands := by
  unfold runCommand
  dsimp only
  split
  · exact error_then_books _ _ _ _
  · rename_i bound rest _
    refine .when (RunM.log_books _ _) ?_
    refine .bind (accounts ⟨engine.host, fire, ref⟩ bound fires known debts hands member) ?_
    intro outcome
    cases outcome with
    | error fault => exact error_then_books _ _ _ _
    | ok finished =>
        refine .bind (.forM_option _ fun name _ => ?_) fun _ => .pure fun _ books => books
        exact RunM.modifyQueue_books ref fun _ => ⟨rfl, rfl, fun _ => rfl⟩

theorem executeEntry_books {ref : QueueRef} (member : ref ∈ known) (entry : Entry) :
    Secures (Books known debts hands) (engine.executeEntry fire ref entry)
      fun _ => Books known debts hands := by
  rw [executeEntry_eq]
  refine .bind (fillEntry_books accountable fires ref entry) fun ready => ?_
  unfold dispatch
  split
  · exact error_then_books _ _ _ _
  · rename_i command found
    split
    · exact error_then_books _ _ _ _
    · refine .bind (engine.offer_secures (fun reported books => books.offBooks (.spoke reported.spoke))
        _ _) fun arguments => .ite (fun _ => ?_) fun _ => ?_
      · exact error_then_books _ _ _ _
      · exact .when (RunM.log_books _ _) (runCommand_books fires member (accountable.accounts found) _ _ _)

theorem executeTaken_books {ref : QueueRef} (member : ref ∈ known) (entry : Entry) :
    Secures (Books known debts hands) (engine.executeTaken fire ref entry)
      fun _ => Books known debts hands :=
  .bind (RunM.modifyQueue_books ref fun _ => ⟨rfl, rfl, fun _ => rfl⟩) fun _ =>
    .bind (executeEntry_books accountable fires member entry) fun _ =>
      RunM.modifyQueue_books ref fun _ => ⟨rfl, rfl, fun _ => rfl⟩

omit accountable fires in
theorem take_books {world : World η} {ref : QueueRef} {entry : Entry} {entries : List Entry}
    (books : Books known debts hands world)
    (taken : (world.queue ref).nextStep world.now = (.execute entry, { world.queue ref with entries })) :
    Books (ref :: known) debts hands (world.modifyQueue ref ({ · with entries })) := by
  have made : ref.index < world.queues.size := by
    obtain ⟨_, _, split, _⟩ := Queue.nextStep_execute taken
    by_contra missing
    rw [World.queue_of_size_le (Nat.le_of_not_lt missing)] at split
    cases split
  exact (books.offBooks (.modifyQueue ref ⟨rfl, rfl, fun _ => rfl⟩)).remember
    (by rwa [World.size_modifyQueue])

omit accountable fires in
theorem ensureScheduled_books (ref : QueueRef) :
    Secures (Books known debts hands) (ensureScheduled ref : RunM η Unit)
      fun _ => Books known debts hands := by
  refine .any_queue_bind fun queue => .ite (fun _ => .pure fun _ books => books) fun _ => ?_
  refine .bind (RunM.updateGet_books fun world => .reschedule fun _ => Nat.le_refl _) fun timer => ?_
  exact .bind (RunM.log_books _ _) fun _ => RunM.modifyQueue_books ref fun _ => ⟨rfl, rfl, fun _ => rfl⟩

omit accountable fires in
theorem finishQueue_books (engine : Engine η) (ref : QueueRef) :
    Secures (Books known debts hands) (engine.finishQueue ref) fun _ => Books known debts hands :=
  .bind (RunM.modifyQueue_books ref fun _ => ⟨rfl, rfl, fun _ => rfl⟩) fun _ => Queue.stop_books engine.host ref

theorem executeTaken_forgets (ref : QueueRef) (entry : Entry) :
    Secures (Books (ref :: known) debts hands) (engine.executeTaken fire ref entry)
      fun _ => Books known debts hands :=
  (executeTaken_books accountable fires List.mem_cons_self entry).weaken (fun _ books => books)
    fun _ _ books => books.forget

theorem drain_books (ref : QueueRef) (budget : Nat) :
    Secures (Books known debts hands) (engine.drain fire ref budget)
      fun _ => Books known debts hands :=
  drain_secures (fun _ _ _ books taken => take_books books taken)
    (executeTaken_forgets accountable fires ref) (engine.finishQueue_books ref) (fun _ books => books)
    RunM.log_books (RunM.modifyQueue_books ref fun _ => ⟨rfl, rfl, fun _ => rfl⟩)
    (ensureScheduled_books ref) budget

theorem step_books (ref : QueueRef) :
    Secures (Books known debts hands) (engine.step fire ref) fun _ => Books known debts hands :=
  step_secures (fun _ _ _ books taken => take_books books taken)
    (executeTaken_forgets accountable fires ref) (engine.finishQueue_books ref) fun _ books => books

theorem startQueue_books (ref : QueueRef) (budget : Nat) :
    Secures (Books known debts hands) (engine.startQueue fire budget ref)
      fun _ => Books known debts hands := by
  refine .each fun world books => .queue_bind (.ite (fun _ => ?_) fun new => ?_)
  · exact .pure fun _ same => same ▸ books
  · have launches : Secures (· = world) (RunM.modifyQueue ref Queue.launch)
        fun _ => Books (η := η) known debts hands := by
      refine .update fun _ same => same ▸ books.offBooks (.modifyQueue ref ⟨rfl, ?_, fun _ => rfl⟩)
      have new : (world.queue ref).phase = .constructing := by simpa using new
      rw [Queue.isStopped, Queue.isStopped, new]
      rfl
    refine .bind launches fun _ => .bind (RunM.log_books _ _) fun _ => .ite (fun _ => ?_) fun _ => ?_
    · exact drain_books accountable fires ref budget
    · exact .bind (step_books accountable fires ref) fun _ => ensureScheduled_books ref

theorem revolve_books (ref : QueueRef) (budget : Nat) :
    Secures (Books known debts hands) (engine.revolve fire budget ref)
      fun _ => Books known debts hands := by
  refine .any_queue_bind fun queue => .ite (fun _ => .pure fun _ books => books) fun _ => ?_
  exact .ite (fun _ => drain_books accountable fires ref budget) fun _ =>
    step_books accountable fires ref

omit accountable fires in
theorem queueOrCreate_offBooks (id : String) (kind : QueueKind) (world : World η) :
    world.OffBooks (world.queueOrCreate id kind).2 := by
  unfold World.queueOrCreate
  split
  · exact .refl world
  · have made := World.OffBooks.makeQueue id kind world
    refine ⟨made.size, fun named member => ?_, made.queues, made.notes, made.works⟩
    rcases Table.mem_set member with rfl | old
    · exact .inr (by simp [World.makeQueue, World.freshFire])
    · exact .inl old

omit accountable fires in
theorem queueForFiring_books (engine : Engine η) (script : Script) (options : FireOptions) :
    Secures (Books known debts hands) (engine.queueForFiring script options) fun found =>
      Books (found.1 :: known) debts hands := by
  have finds (id : String) : Secures (Books known debts hands)
      (RunM.updateGet (World.queueOrCreate id (.ofSpeed (options.speed.getD engine.host.defaultSpeed))))
      fun found => Books (η := η) (found.1 :: known) debts hands :=
    .updateGet fun world books => (books.offBooks (queueOrCreate_offBooks _ _ world)).remember
      (queueOrCreate_made books.live _ _)
  unfold queueForFiring
  dsimp only
  split
  · exact .bind (.pure fun _ books => books) finds
  · refine .bind (RunM.updateGet_books fun world => ?_) finds
    exact .of_same rfl rfl rfl (List.Subset.refl _)

theorem fireWith_books (budget : Nat) : (engine.fireWith fire budget).Accounts := by
  intro request known debts hands
  refine .any_world_bind fun world => ?_
  split
  · exact .pure fun _ books => ⟨books, fun _ failed => by cases failed⟩
  · rename_i script _
    refine .bind (queueForFiring_books engine script request.options) fun found => ?_
    obtain ⟨ref, created⟩ := found
    refine .bind (RunM.updateGet_books fun _ => .of_same rfl rfl rfl (List.Subset.refl _)) fun fire => ?_
    refine .bind (RunM.update_books fun _ => .of_same rfl rfl rfl (List.Subset.refl _)) fun _ => ?_
    refine .bind (RunM.modifyQueue_books ref fun queue => ?_) fun _ => ?_
    · obtain ⟨definitions, context, offMain, same⟩ :=
        equip_eq request.options (if created then { queue with fire } else queue)
      rw [same]
      cases created <;> exact ⟨rfl, rfl, fun _ => rfl⟩
    · refine .any_queue_bind fun queue => .bind (RunM.log_books _ _) fun _ => ?_
      have tells : Secures (Books (ref :: known) debts hands) (do
          return .ok ⟨ref, queue.id, fire, ← outcomeOf ref fire⟩ :
            RunM η (Except FireError FireResult)) fun answer later =>
          Books known debts hands later ∧
            ∀ result, answer = .ok result → result.queue.index < later.queues.size := by
        refine .bind (RunM.updateGet_books fun world => ?_) fun outcome => .pure fun later books => ?_
        · split <;> exact .of_same rfl rfl rfl (List.Subset.refl _)
        · refine ⟨books.forget, ?_⟩
          rintro _ ⟨⟩
          exact books.known ref List.mem_cons_self
      exact .when (startQueue_books accountable fires ref budget) tells

end

theorem fire_books (budget : Nat) : (engine.fire budget).Accounts := by
  induction budget with
  | zero => exact fun _ _ _ _ => .outOfBudget
  | succ budget ih => exact fireWith_books accountable ih budget

end Engine

end

end TagScript
