import TagScript.Proofs.Engine.Launch
import TagScript.Proofs.Engine.Loopless

/-! Entries without tags do the same in engines with other tags. -/

namespace TagScript

variable {η α : Type}

def Command.Unfiring (command : Command η) : Prop :=
  ∀ host fire fire' ref invocation,
    command.execute ⟨host, fire, ref⟩ invocation = command.execute ⟨host, fire', ref⟩ invocation

theorem Command.builtins_unfiring {command : Command η} (known : command ∈ Command.builtins)
    (other : command ≠ Command.run) : command.Unfiring := by
  simp only [Command.builtins, List.mem_cons, List.not_mem_nil, or_false] at known
  rcases known with rfl | rfl | rfl | rfl | rfl | rfl | rfl | rfl | rfl
  case inr.inr.inr.inr.inr.inr.inl => exact absurd rfl other
  all_goals exact fun _ _ _ _ _ => rfl

namespace Engine

structure Literal (engine : Engine η) (entry : Entry) : Prop where
  plain : entry.hasDefinitions = false
  tagless : ∀ word ∈ entry.arguments, Tag.mayHoldTags word = false
  unfiring : ∀ command ∈ engine.commands.find? entry.command, command.Unfiring

def isLiteral (entry : Entry) : Bool :=
  !entry.hasDefinitions && entry.arguments.all (fun word => !Tag.mayHoldTags word) &&
    !(CommandTable.namesOf (Command.run : Command Unit)).contains (Text.lower entry.command)

theorem literal_of_isLiteral {engine : Engine η} (standard : engine.Standard)
    (named : engine.commands.Named) {entry : Entry} (literal : isLiteral entry = true) :
    engine.Literal entry := by
  simp only [isLiteral, Bool.and_eq_true, Bool.not_eq_true', List.all_eq_true] at literal
  obtain ⟨⟨plain, tagless⟩, foreign⟩ := literal
  have unfired : Text.lower entry.command ∉ CommandTable.namesOf (Command.run : Command Unit) := by
    simpa using foreign
  refine ⟨plain, tagless, fun command known => ?_⟩
  refine Command.builtins_unfiring (standard.commands _ command known) ?_
  rintro rfl
  exact find?_ne named unfired known

variable {engine : Engine η} (hidden : Tag.Lookup → Bool) (fire fire' : Firing η) {ref : QueueRef}

theorem dispatch_of_unfiring {ready : FilledEntry}
    (unfiring : ∀ command ∈ engine.commands.find? ready.entry.command, command.Unfiring)
    (blocks : Except BlockError (List Block)) :
    engine.dispatch fire ref ready blocks =
      (engine.withoutTags hidden).dispatch fire' ref ready blocks := by
  have sameTable : (engine.withoutTags hidden).commands = engine.commands := rfl
  unfold dispatch
  rw [sameTable]
  cases found : engine.commands.find? ready.entry.command with
  | none => rfl
  | some command =>
      cases blocks with
      | error error => rfl
      | ok blocks =>
          have same := unfiring command found engine.host fire fire' ref
          dsimp only
          unfold invoke runCommand
          simp only [same]
          rfl

theorem executeEntry_of_literal {entry : Entry} (literal : engine.Literal entry)
    (start : Tag.Evaluation (World η)) :
    (engine.executeEntry fire ref entry).run start =
      ((engine.withoutTags hidden).executeEntry fire' ref entry).run start := by
  rw [executeEntry_eq, executeEntry_eq, ← engine.fillEntry_of_tagless (engine.withoutTags hidden) rfl
    fire fire' ref literal.plain literal.tagless, StateT.run_bind, StateT.run_bind]
  cases ran : (engine.fillEntry fire ref entry).run start with
  | none => rfl
  | some found =>
      obtain ⟨⟨arguments, same⟩, _⟩ := engine.fillEntry_filled fire ref entry start _ _ ran
      refine congrFun (congrArg StateT.run ?_) _
      exact dispatch_of_unfiring hidden fire fire' (by rw [same]; exact literal.unfiring) _

theorem executeTaken_of_literal {entry : Entry} (literal : engine.Literal entry)
    (start : Tag.Evaluation (World η)) :
    (engine.executeTaken fire ref entry).run start =
      ((engine.withoutTags hidden).executeTaken fire' ref entry).run start := by
  unfold executeTaken
  rw [run_modifyQueue_bind, run_modifyQueue_bind, StateT.run_bind, StateT.run_bind,
    executeEntry_of_literal hidden fire fire' literal]

/-- All that the queue will do is executing such entries, one after another and no more than so many. -/
inductive Recites (engine : Engine η) (ref : QueueRef) : Nat → Tag.Evaluation (World η) → Prop
  | dry {count : Nat} {state : Tag.Evaluation (World η)} (dry : (state.world.queue ref).entries = []) :
      Recites engine ref count state
  | next {count : Nat} {state : Tag.Evaluation (World η)} {entry : Entry} {entries : List Entry}
      (waiting : (state.world.queue ref).entries = entry :: entries) (literal : engine.Literal entry)
      (rest : ∀ later, (engine.advance (fun _ => RunM.outOfBudget) ref).run state = some ((), later) →
        Recites engine ref count later) : Recites engine ref (count + 1) state

def recital (engine : Engine η) (ref : QueueRef) : Nat → Tag.Evaluation (World η) → Bool
  | 0, state => (state.world.queue ref).entries.isEmpty
  | count + 1, state =>
    match (state.world.queue ref).entries with
    | [] => true
    | entry :: _ => isLiteral entry &&
        ((engine.advance (fun _ => RunM.outOfBudget) ref).run state).all fun later =>
          recital engine ref count later.2

theorem recites_of_recital (standard : engine.Standard) (named : engine.commands.Named) {count : Nat}
    {state : Tag.Evaluation (World η)} (recited : engine.recital ref count state = true) :
    engine.Recites ref count state := by
  induction count generalizing state with
  | zero => exact .dry (List.isEmpty_iff.1 recited)
  | succ count ih =>
      rw [recital] at recited
      split at recited
      · exact .dry ‹_›
      · rw [Bool.and_eq_true] at recited
        refine .next ‹_› (literal_of_isLiteral standard named recited.1) fun later ran => ih ?_
        rw [ran] at recited
        exact recited.2

section

variable {count budget budget' : Nat} {start : Tag.Evaluation (World η)}

theorem Recites.takeStep_bind (recites : engine.Recites ref count start)
    {next following : Step → RunM η α} {rest goesOn : RunM η α}
    (waits : next .wait = following .wait) (finishes : next .finish = following .finish)
    (halts : next .halted = following .halted)
    (executes : ∀ entry, next (.execute entry) = engine.executeTaken fire ref entry >>= fun _ => rest)
    (executesToo : ∀ entry, following (.execute entry) =
      (engine.withoutTags hidden).executeTaken fire' ref entry >>= fun _ => goesOn)
    (same : (start.world.queue ref).entries ≠ [] → ∀ later,
      (engine.advance (fun _ => RunM.outOfBudget) ref).run start = some ((), later) →
      rest.run later = goesOn.run later) :
    (takeStep ref >>= next).run start = (takeStep ref >>= following).run start := by
  rw [run_takeStep_bind, run_takeStep_bind]
  rcases (start.world.queue ref).nextStep_cases start.world.now with ⟨_, step⟩ | ⟨_, step⟩ |
    ⟨_, step⟩ | ⟨entry, entries, _, waiting, step⟩
  · rw [step, halts]
  · rw [step, waits]
  · rw [step, finishes]
  · cases recites with
    | dry dry => simp [dry] at waiting
    | next found literal _ =>
        obtain ⟨rfl, _⟩ := List.cons.inj (found.symm.trans waiting)
        have same := same (by simp [waiting])
        rw [advance_of_waiting engine _ waiting,
          executeTaken_of_literal hidden (fun _ => RunM.outOfBudget) fire' literal] at same
        rw [step]
        dsimp only
        rw [executes, executesToo, StateT.run_bind, StateT.run_bind,
          executeTaken_of_literal hidden fire fire' literal]
        exact Option.bind_congr fun outcome ran => same outcome.2 ran

/-- Draining the queue comes to the same with and without the tags, in all budgets that are large
enough for its entries. -/
theorem drain_of_recites (recites : engine.Recites ref count start) (enough : count < budget)
    (enoughToo : count < budget') : (engine.drain fire ref budget).run start =
      ((engine.withoutTags hidden).drain fire' ref budget').run start := by
  induction recites generalizing budget budget' with
  | dry dry =>
      obtain ⟨_, rfl⟩ := Nat.exists_eq_add_of_lt enough
      obtain ⟨_, rfl⟩ := Nat.exists_eq_add_of_lt enoughToo
      exact Recites.takeStep_bind hidden fire fire' (.dry dry : engine.Recites ref 0 _) rfl rfl rfl
        (fun _ => rfl) (fun _ => rfl) fun waiting => absurd dry waiting
  | next waiting literal rest ih =>
      obtain ⟨_, rfl⟩ := Nat.exists_eq_add_of_lt enough
      obtain ⟨_, rfl⟩ := Nat.exists_eq_add_of_lt enoughToo
      exact Recites.takeStep_bind hidden fire fire' (.next waiting literal rest) rfl rfl rfl
        (fun _ => rfl) (fun _ => rfl) fun _ later ran =>
          ih later ran (Nat.lt_of_succ_lt_succ enough) (Nat.lt_of_succ_lt_succ enoughToo)

theorem step_of_recites (recites : engine.Recites ref count start) :
    (engine.step fire ref).run start = ((engine.withoutTags hidden).step fire' ref).run start :=
  recites.takeStep_bind hidden fire fire' rfl rfl rfl (fun _ => rfl) (fun _ => rfl) fun _ _ _ => rfl

theorem setOff_of_recites (recites : engine.Recites ref count start) (enough : count < budget)
    (enoughToo : count < budget') (kind : QueueKind) : (engine.setOff fire budget ref kind).run start =
      ((engine.withoutTags hidden).setOff fire' budget' ref kind).run start := by
  unfold setOff
  split
  · exact drain_of_recites hidden fire fire' recites enough enoughToo
  · exact run_bind_congr (step_of_recites hidden fire fire' recites) _

theorem revolve_of_recites (recites : engine.Recites ref count start) (enough : count < budget)
    (enoughToo : count < budget') : (engine.revolve fire budget ref).run start =
      ((engine.withoutTags hidden).revolve fire' budget' ref).run start := by
  unfold revolve
  rw [run_queue_bind, run_queue_bind]
  split
  · rfl
  · split
    · exact drain_of_recites hidden fire fire' recites enough enoughToo
    · exact step_of_recites hidden fire fire' recites

theorem fire_of_recites {source : ScriptSource} {script : Script} {options : FireOptions}
    {seated : World η} (found : findScript source start.world = .ok script)
    (new : start.world.seat script options (options.speed.getD engine.host.defaultSpeed) =
      ((ref, true), seated))
    (recites : engine.Recites ref count
      { start with world := (seated.handed ref script options).launch ref })
    (enough : count < budget) (enoughToo : count < budget') :
    (engine.fire (budget + 1) ⟨source, options⟩).run start =
      ((engine.withoutTags hidden).fire (budget' + 1) ⟨source, options⟩).run start := by
  rw [fire, fire, fireWith_launches engine found new,
    fireWith_launches (engine.withoutTags hidden) found new]
  exact run_bind_congr (setOff_of_recites hidden _ _ recites enough enoughToo _) _

end

/-! Ticks in which nothing happens but that the queue goes on. -/

def aged (elapsed : Duration) (state : Tag.Evaluation (World η)) : Tag.Evaluation (World η) :=
  { state with world := { state.world with scheduler :=
    ((state.world.scheduler.advance elapsed).takeInbox.2.collectDue (Scheduler.clipped elapsed)).2 } }

def recitalTick (engine : Engine η) (ref : QueueRef) (count : Nat) (elapsed : Duration)
    (state : Tag.Evaluation (World η)) : Bool :=
  let scheduler := (state.world.scheduler.advance elapsed).takeInbox.2
  let due := (scheduler.collectDue (Scheduler.clipped elapsed)).1
  state.world.scheduler.inbox.isEmpty &&
    due.map (fun due => (due.dispatch, due.action)) == [(.inline, ref)] &&
    engine.recital ref count (aged elapsed state) &&
    ((engine.revolve (fun _ => RunM.outOfBudget) (count + 1) ref).run (aged elapsed state)).all
      fun later => later.2.world.scheduler.jobs.isEmpty

section

variable {count budget budget' : Nat} {elapsed : Duration} {start : Tag.Evaluation (World η)}

theorem tick_of_due (quiet : start.world.scheduler.inbox = []) {only : Due QueueRef}
    (inline : only.dispatch = .inline) (own : only.action = ref)
    (due : ((start.world.scheduler.advance elapsed).takeInbox.2.collectDue
      (Scheduler.clipped elapsed)).1 = [only]) :
    (engine.tick budget elapsed).run start = (do
      engine.revolve (engine.fire budget) budget ref
      engine.settle budget budget : RunM η Unit).run (aged elapsed start) := by
  have turn : Scheduler.fire (engine.handlers budget) only =
      engine.revolve (engine.fire budget) budget ref := by
    rw [Scheduler.fire, inline, own]
    simp only [Scheduler.runTimer, handlers, bind_assoc, pure_bind]
    exact bind_pure _
  have counted : (engine.tickFrom budget elapsed []).run { start with world := { start.world with
      scheduler := (start.world.scheduler.advance elapsed).takeInbox.2 } } = (do
        ((start.world.scheduler.advance elapsed).takeInbox.2.collectDue
          (Scheduler.clipped elapsed)).1.forM (Scheduler.fire (engine.handlers budget))
        engine.settle budget budget : RunM η Unit).run (aged elapsed start) := rfl
  rw [tick_run, quiet, counted, due, List.forM_eq_forM, List.forM_cons, List.forM_nil, turn, bind_pure_unit]

theorem settle_of_idle (idle : start.world.scheduler.jobs = []) (jobs : Nat) :
    (engine.settle budget (jobs + 1)).run start = some ((), start) := by
  have none : start.world.scheduler.takeJob? = none := by simp [Scheduler.takeJob?, idle]
  rw [settle, RunM.world, Tag.EvalM.run_world_bind, none]
  rfl

theorem tick_of_recital (standard : engine.Standard) (named : engine.commands.Named)
    (recited : engine.recitalTick ref count elapsed start = true) (enough : count < budget)
    (enoughToo : count < budget') : (engine.tick budget elapsed).run start =
      ((engine.withoutTags hidden).tick budget' elapsed).run start := by
  simp only [recitalTick, Bool.and_eq_true, List.isEmpty_iff, beq_iff_eq] at recited
  obtain ⟨⟨⟨quiet, due⟩, recital⟩, idle⟩ := recited
  obtain ⟨only, due, only_eq⟩ := List.map_eq_singleton_iff.1 due
  obtain ⟨inline, own⟩ := Prod.mk.inj only_eq
  have recites := recites_of_recital standard named recital
  obtain ⟨more, rfl⟩ := Nat.exists_eq_add_of_lt enough
  obtain ⟨more', rfl⟩ := Nat.exists_eq_add_of_lt enoughToo
  rw [tick_of_due quiet inline own due, tick_of_due quiet inline own due, StateT.run_bind,
    StateT.run_bind, revolve_of_recites hidden _ _ recites enough enoughToo]
  rw [revolve_of_recites hidden _ ((engine.withoutTags hidden).fire (count + more' + 1)) recites
    (Nat.lt_succ_self count) enoughToo] at idle
  refine Option.bind_congr fun revolved ran => ?_
  have idle : revolved.2.world.scheduler.jobs = [] := by simpa [ran] using idle
  exact (settle_of_idle idle _).trans (settle_of_idle idle _).symm

def recitalTicks (engine : Engine η) (ref : QueueRef) (count : Nat) :
    List Duration → Tag.Evaluation (World η) → Bool
  | [], _ => true
  | elapsed :: ticks, state => engine.recitalTick ref count elapsed state &&
      ((engine.tick (count + 1) elapsed).run state).all fun later =>
        recitalTicks engine ref count ticks later.2

theorem ticks_of_recital (standard : engine.Standard) (named : engine.commands.Named)
    {ticks : List Duration} (recited : engine.recitalTicks ref count ticks start = true)
    (enough : count < budget) (enoughToo : count < budget') :
    (ticks.forM (engine.tick budget)).run start =
      (ticks.forM ((engine.withoutTags hidden).tick budget')).run start := by
  induction ticks generalizing start with
  | nil => simp only [List.forM_eq_forM, List.forM_nil]
  | cons elapsed ticks ih =>
      rw [recitalTicks, Bool.and_eq_true] at recited
      obtain ⟨first, others⟩ := recited
      have same {budget : Nat} (enough : count < budget) : (engine.tick budget elapsed).run start =
          ((engine.withoutTags hidden).tick budget' elapsed).run start :=
        tick_of_recital hidden standard named first enough enoughToo
      rw [same (Nat.lt_succ_self count)] at others
      simp only [List.forM_eq_forM, List.forM_cons] at ih ⊢
      rw [StateT.run_bind, StateT.run_bind, same enough]
      refine Option.bind_congr fun ticked ran => ih ?_
      rw [ran] at others
      exact others

end

end Engine

end TagScript
