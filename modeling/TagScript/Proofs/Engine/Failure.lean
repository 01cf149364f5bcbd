import TagScript.Proofs.Engine.Run
import TagScript.Proofs.Engine.Secures
import TagScript.Proofs.Engine.Without

/-! Entries that fail. Whatever goes wrong once the arguments are filled is reported once and leaves
no other trace. -/

namespace TagScript

variable {η α : Type}

open RunM (Secures)
open Tag.EvalM (Gives)

def Event.isAside : Event → Bool
  | .log _ _ | .claim _ _ _ => true
  | _ => false

namespace World

def Remarked (world other : World η) : Prop :=
  ∃ told, (∀ event ∈ told, Event.isAside event = true) ∧
    other = { world with events := told ++ world.events }

/-- One error was reported for a queue, and nothing else happened but telling along the way. -/
def Complained (host : Host) (queue : String) (world other : World η) : Prop :=
  ∃ message told, (∀ event ∈ told, Event.isAside event = true) ∧
    other = host.report (some queue) message { world with events := told ++ world.events }

theorem Remarked.refl (world : World η) : world.Remarked world := ⟨[], by simp, rfl⟩

theorem Remarked.emit {world other : World η} (remarked : world.Remarked other) {event : Event}
    (aside : event.isAside = true) : world.Remarked (other.emit event) := by
  obtain ⟨told, allAside, rfl⟩ := remarked
  refine ⟨event :: told, fun found member => ?_, rfl⟩
  rcases List.mem_cons.1 member with rfl | member
  · exact aside
  · exact allAside found member

theorem Remarked.report {world other : World η} (remarked : world.Remarked other) (host : Host)
    (queue message : String) :
    world.Complained host queue (host.report (some queue) message other) := by
  obtain ⟨told, allAside, rfl⟩ := remarked
  exact ⟨message, told, allAside, rfl⟩

theorem Complained.spoke {host : Host} {queue : String} {world other : World η}
    (complained : world.Complained host queue other) : world.Spoke other := by
  obtain ⟨message, told, _, rfl⟩ := complained
  have remarked : world.Spoke { world with events := told ++ world.events } :=
    ⟨_, [], world.host, by simp, rfl⟩
  exact remarked.trans (World.report_spoke host (some queue) message _)

end World

def RunM.Refuses {ε : Type} (act : RunM η (Except ε α)) : Prop :=
  ∀ world, Secures (· = world) act fun result later =>
    ∀ error, result = .error error → later = world

theorem RunM.Secures.of_ok {ε : Type} {act : RunM η (Except ε α)} {before after : World η → Prop}
    (gives : Gives act fun result => ∃ value, result = .ok value) :
    Secures before act fun result later => ∀ error, result = .error error → after later := by
  refine (Secures.of_gives gives).weaken (fun _ held => held) fun result later done error wrong => ?_
  obtain ⟨value, rfl⟩ := done
  cases wrong

namespace RunM.Refuses

variable {ε : Type} {act : RunM η (Except ε α)}

theorem of_ok (gives : Gives act fun result => ∃ value, result = .ok value) : Refuses act :=
  fun _ => .of_ok gives

theorem pure (result : Except ε α) : Refuses (Pure.pure result : RunM η (Except ε α)) :=
  fun _ => .pure fun _ same _ _ => same

theorem world_bind {next : World η → RunM η (Except ε α)} (rest : ∀ world, Refuses (next world)) :
    Refuses (RunM.world >>= next) :=
  fun world => .world_bind (rest world world)

end RunM.Refuses

open RunM (Refuses)

theorem Engine.fire_refuses (engine : Engine η) (budget : Nat) (request : FireRequest) :
    Refuses (engine.fire budget request) := by
  cases budget with
  | zero => exact fun _ => .outOfBudget
  | succ budget =>
      refine .world_bind fun world => ?_
      split
      · exact .pure _
      · refine .of_ok (.after fun found => .after fun fire => .after fun _ => .after fun _ =>
          .after fun queue => .after fun _ => ?_)
        exact .when (.after fun outcome => .pure ⟨_, rfl⟩)

namespace Command

variable {scene : Scene η}

theorem debug_refuses (invocation : Invocation) :
    Refuses ((debug : Command η).execute scene invocation) :=
  .of_ok (.after fun _ => .ite (.after fun _ => .pure ⟨_, rfl⟩) (.after fun _ => .pure ⟨_, rfl⟩))

theorem define_refuses (invocation : Invocation) :
    Refuses ((define : Command η).execute scene invocation) := by
  unfold define
  dsimp only
  split
  · exact .of_ok (.after fun _ => .after fun _ => .pure ⟨_, rfl⟩)
  · exact .pure _

theorem determine_refuses (invocation : Invocation) :
    Refuses ((determine : Command η).execute scene invocation) :=
  .of_ok (.after fun _ => .after fun _ => .after fun _ => .when (.pure ⟨_, rfl⟩))

theorem inject_refuses (invocation : Invocation) :
    Refuses ((inject : Command η).execute scene invocation) := by
  refine .world_bind fun world => ?_
  split
  · exact .pure _
  · exact .of_ok (.after fun _ => .after fun _ => .pure ⟨_, rfl⟩)

theorem repeatBlock_refuses (invocation : Invocation) :
    Refuses ((repeatBlock : Command η).execute scene invocation) := by
  unfold repeatBlock
  dsimp only
  split
  · exact .pure _
  · exact .of_ok (.after fun _ => .pure ⟨_, rfl⟩)

theorem stop_refuses (invocation : Invocation) :
    Refuses ((stop : Command η).execute scene invocation) :=
  .of_ok (.after fun _ => .pure ⟨_, rfl⟩)

theorem wait_refuses (invocation : Invocation) :
    Refuses ((wait : Command η).execute scene invocation) := by
  unfold wait
  dsimp only
  split
  · exact .pure _
  · exact .of_ok (.after fun _ => .after fun _ => .after fun _ => .pure ⟨_, rfl⟩)

theorem actOnQueue_refuses (invocation : Invocation) (target : QueueRef) :
    Refuses (actOnQueue scene invocation target) := by
  unfold actOnQueue
  split
  · exact .of_ok (.after fun _ => .pure ⟨_, rfl⟩)
  · exact .of_ok (.after fun _ => .pure ⟨_, rfl⟩)
  · exact .of_ok (.after fun _ => .pure ⟨_, rfl⟩)
  · exact .of_ok (.after fun _ => .pure ⟨_, rfl⟩)
  · split
    · exact .pure _
    · exact .of_ok (.after fun _ => .after fun _ => .pure ⟨_, rfl⟩)
  · exact .pure _

theorem queue_refuses (invocation : Invocation) :
    Refuses ((queue : Command η).execute scene invocation) := by
  unfold queue
  dsimp only
  refine .world_bind fun world => ?_
  split
  · exact .pure _
  · refine fun world => .bind (actOnQueue_refuses invocation _ world) fun outcome => ?_
    split
    · rename_i fault
      exact .pure fun later refused _ _ => refused fault rfl
    · exact .of_ok (.after fun _ => .after fun _ => .pure ⟨_, rfl⟩)

theorem checkHold_hold (ref : QueueRef) (world : World η) :
    (world.modifyQueue ref Queue.hold).checkHold ref = world.modifyQueue ref Queue.hold := by
  rw [World.checkHold, if_neg]
  rintro ⟨made, none⟩
  rw [World.size_modifyQueue] at made
  rw [World.queue_modifyQueue_self made] at none
  exact absurd none (Nat.succ_ne_zero _)

theorem release_hold (ref : QueueRef) (world : World η) :
    Secures (· = world.modifyQueue ref Queue.hold) (RunM.release ref) fun _ later => later = world := by
  have checks : Secures (· = world.modifyQueue ref Queue.hold) (RunM.update (World.checkHold ref))
      fun _ later => later = world.modifyQueue ref Queue.hold :=
    .update fun _ held => by rw [held, checkHold_hold]
  have same : (fun queue : Queue => queue.hold.release) = id := rfl
  refine .bind checks fun _ => .update fun _ checked => ?_
  rw [checked, World.modifyQueue_modifyQueue, same, World.modifyQueue_id]

theorem run_refuses (fires : ∀ request, Refuses (scene.fire request)) (invocation : Invocation) :
    Refuses ((run : Command η).execute scene invocation) := by
  unfold run
  dsimp only
  cases waits : invocation.entry.waits with
  | false =>
      refine fun world => .bind (fires _ world) fun outcome => ?_
      cases outcome with
      | error error => exact .pure fun later refused _ _ => refused error rfl
      | ok result => exact .of_ok (.when (.after fun _ => .pure ⟨_, rfl⟩))
  | true =>
      intro world
      refine .bind (.update fun _ same => congrArg _ same) fun _ => .bind (fires _ _) fun outcome => ?_
      cases outcome with
      | error error =>
          refine .bind ((release_hold scene.queue world).weaken ?_ fun _ _ same => same) fun _ =>
            .pure fun later same _ _ => same
          exact fun later refused => refused error rfl
      | ok result => exact .of_ok (.when (.after fun _ => .pure ⟨_, rfl⟩))

theorem builtins_refuse (scene : Scene η) (fires : ∀ request, Refuses (scene.fire request))
    {command : Command η}
    (known : command ∈ builtins) (invocation : Invocation) :
    Refuses (command.execute scene invocation) := by
  simp only [builtins, List.mem_cons, List.not_mem_nil, or_false] at known
  rcases known with rfl | rfl | rfl | rfl | rfl | rfl | rfl | rfl | rfl
  · exact debug_refuses invocation
  · exact define_refuses invocation
  · exact determine_refuses invocation
  · exact inject_refuses invocation
  · exact queue_refuses invocation
  · exact repeatBlock_refuses invocation
  · exact run_refuses fires invocation
  · exact stop_refuses invocation
  · exact wait_refuses invocation

end Command

namespace Engine

variable {engine : Engine η} {fire : Firing η}

def Fails (host : Host) (queue : String) (act : RunM η EntryOutcome) : Prop :=
  ∀ origin : World η, Secures origin.Remarked act fun outcome later =>
    outcome ≠ .executed → origin.Complained host queue later

theorem fails_of_error (host : Host) (queue message : String) (outcome : EntryOutcome) :
    Fails host queue (do host.error (some queue) message; return outcome : RunM η EntryOutcome) :=
  fun _ => .bind (.update fun _ remarked => remarked.report host queue message) fun _ =>
    .pure fun _ complained _ => complained

theorem log_remarked (origin : World η) (level : LogLevel) (text : String) :
    Secures origin.Remarked (RunM.log level text : RunM η Unit) fun _ => origin.Remarked :=
  .update fun _ remarked => remarked.emit rfl

theorem offer_remarked (origin : World η) (engine : Engine η) (entry : Entry)
    (arguments : Arguments) :
    Secures origin.Remarked (arguments.offer (engine.offerToHost entry)) fun _ =>
      origin.Remarked := by
  refine .bind ?_ fun _ => .pure fun _ remarked => remarked
  have offered (word value : String) : Secures origin.Remarked
      (engine.offerToHost entry word value) fun _ => origin.Remarked :=
    .when (.update fun _ remarked => remarked.emit rfl) (.pure fun _ remarked => remarked)
  induction arguments.positional with
  | nil => exact .pure fun _ remarked => remarked
  | cons argument rest ih =>
      unfold Arguments.unclaimed
      split
      · exact .bind ih fun _ => .pure fun _ remarked => remarked
      · exact .bind (offered _ _) fun _ => .bind ih fun _ => .pure fun _ remarked => remarked

theorem runCommand_fails {ref : QueueRef} {command : Command η}
    (refuses : ∀ invocation, Refuses (command.execute ⟨engine.host, fire, ref⟩ invocation))
    (invocation : Invocation) (arguments : Arguments) (saveName : Option String) :
    Fails engine.host invocation.queue
      (engine.runCommand fire ref command invocation arguments saveName) := by
  unfold runCommand
  dsimp only
  split
  · exact fails_of_error engine.host invocation.queue _ _
  · rename_i bound rest _
    intro origin
    refine .when (log_remarked origin _ _) (.each fun world remarked => ?_)
    refine .bind (refuses bound world) fun outcome => ?_
    cases outcome with
    | error fault =>
        refine (fails_of_error engine.host invocation.queue _ .failed origin).weaken ?_
          fun _ _ complained => complained
        exact fun later refused => refused fault rfl ▸ remarked
    | ok finished =>
        have executed : Gives (do
            saveName.forM fun name =>
              RunM.modifyQueue ref (Queue.save name { finished with progress := .finished })
            return .executed : RunM η EntryOutcome) (· = .executed) := .after fun _ => .pure rfl
        exact (Secures.of_gives executed).weaken (fun _ held => held)
          fun _ _ done failed => absurd done failed

theorem invoke_fails {ref : QueueRef} {command : Command η}
    (refuses : ∀ invocation, Refuses (command.execute ⟨engine.host, fire, ref⟩ invocation))
    (invocation : Invocation) :
    Fails engine.host invocation.queue (engine.invoke fire ref command invocation) := by
  intro origin
  refine .bind (offer_remarked origin engine _ _) fun arguments => .ite (fun _ => ?_) fun _ => ?_
  · exact fails_of_error engine.host invocation.queue _ _ origin
  · exact .when (log_remarked origin _ _) (runCommand_fails refuses invocation _ _ origin)

theorem dispatch_fails (fires : ∀ request, Refuses (fire request)) {ref : QueueRef}
    {ready : FilledEntry}
    (known : ∀ command ∈ engine.commands.find? ready.entry.command, command ∈ Command.builtins)
    (blocks : Except BlockError (List Block)) :
    Fails engine.host ready.queue (engine.dispatch fire ref ready blocks) := by
  unfold dispatch
  split
  · exact fails_of_error engine.host ready.queue _ _
  · rename_i command found
    split
    · exact fails_of_error engine.host ready.queue _ _
    · exact invoke_fails (fun invocation =>
        Command.builtins_refuse ⟨engine.host, fire, ref⟩ fires (known command found) invocation) _

/-- A built-in entry, or one of an unknown command, that fails leaves every queue, the live ones, the
scheduler, the scripts, all counters and the determinations as they were, if filling its arguments
called no procedure. Once they are filled, one error is reported. -/
theorem failing_entry_changes_nothing (uncalling : engine.Uncalling) {budget : Nat}
    {ref : QueueRef} {entry : Entry}
    (known : ∀ command ∈ engine.commands.find? entry.command, command ∈ Command.builtins)
    {start later : Tag.Evaluation (World η)} {outcome : EntryOutcome}
    (unused : (engine.fillEntry (engine.fire budget) ref entry).run start =
      ((engine.withoutTags Tag.Lookup.isProcedure).fillEntry (engine.fire budget) ref entry).run start)
    (ran : (engine.executeEntry (engine.fire budget) ref entry).run start = some (outcome, later))
    (failed : outcome ≠ .executed) :
    (∃ events notes host, later.world = { start.world with events, notes, host }) ∧
      ∃ ready filled, (engine.fillEntry (engine.fire budget) ref entry).run start =
          some (ready, filled) ∧
        filled.world.Complained engine.host ready.queue later.world := by
  rw [executeEntry_eq] at ran
  obtain ⟨ready, filled, ranFill, ranDispatch⟩ := Tag.EvalM.run_bind_eq_some.1 ran
  obtain ⟨⟨arguments, same⟩, _⟩ := engine.fillEntry_filled _ ref entry start ready filled ranFill
  have complained : filled.world.Complained engine.host ready.queue later.world :=
    dispatch_fails (engine.fire_refuses budget) (by rwa [same]) _ filled.world filled outcome
      later (.refl _) ranDispatch failed
  have spoke : start.world.Spoke filled.world :=
    fillEntry_secures uncalling.withoutTags uncalling.attributes (by simp) (by simp)
      (World.Spoke.unspoken start.world) ref entry start ready filled (.refl _)
      (unused.symm.trans ranFill)
  obtain ⟨events, spoken, host, _, ended⟩ := spoke.trans complained.spoke
  exact ⟨⟨events, _, host, ended⟩, ready, filled, ranFill, complained⟩

theorem builtin_uncalling (host : Host) : (builtin host : Engine η).Uncalling where
  resolvers := fun _ known _ other => Vocabulary.resolvers_plain_of_not_proc known other
  attributes := Vocabulary.attributes_plain false false

def withQueue : Tag.Evaluation (World Unit) :=
  ⟨.empty, .empty, false, none,
    { World.start () with queues := #[{ Queue.make "q" .instant ⟨0⟩ with phase := .running }] }⟩

def waitingRun : Entry := ⟨"run", ["nobody"], true, none, none⟩

theorem failing_entry_changes_nothing_waiting_run : ∃ later,
    ((builtin {}).executeEntry ((builtin {}).fire 1) ⟨0⟩ waitingRun).run withQueue =
        some (.failed, later) ∧
      ∃ events notes host, later.world = { withQueue.world with events, notes, host } := by
  have shown : (((builtin {}).executeEntry ((builtin {}).fire 1) ⟨0⟩ waitingRun).run
      withQueue).map (·.1) = some .failed := by
    decide +kernel
  obtain ⟨⟨outcome, later⟩, ran, rfl⟩ := Option.map_eq_some_iff.1 shown
  let engine : Engine Unit := builtin {}
  have unused := engine.fillEntry_of_tagless (engine.withoutTags Tag.Lookup.isProcedure) rfl
    (engine.fire 1) (engine.fire 1) ⟨0⟩ (show waitingRun.hasDefinitions = false by decide) (by decide)
  exact ⟨later, ran, (failing_entry_changes_nothing (builtin_uncalling {})
    ((builtin_standard {}).commands waitingRun.command) (by rw [unused]) ran
    (by decide)).1⟩

end Engine

end TagScript
