import TagScript.Proofs.Engine.Counter

/-! The passes of a loop. What a loop stands for is spliced in front of what waits on its queue, and as
long as the entries of the block neither stop nor clear the queue, the passes run one after another, each
behind an entry that counts it. -/

namespace TagScript

variable {η : Type}

open Command (counter passesFrom)

def Queue.counted (entry : Entry) (behind : List Entry) (name : String) (number : Nat)
    (queue : Queue) : Queue :=
  (({ queue with entries := behind }.note (.started entry)).define name (toString number)).note
    (.executed entry)

namespace Engine

variable {engine : Engine η} {ref : QueueRef} {name : String} {parent entry : Entry}
  {block rest left behind : List Entry} {start finish : Tag.Evaluation (World η)}

/-- The queue takes out its next entry and executes it. -/
def Takes (engine : Engine η) (ref : QueueRef) (entry : Entry)
    (start finish : Tag.Evaluation (World η)) : Prop :=
  ∃ fire between, (takeStep ref).run start = some (.execute entry, between) ∧
    (engine.executeTaken fire ref entry).run between = some ((), finish)

/-- The queue gets from one state to another, in which just `left` waits on it. It executes the entries
in front of `rest`, and whatever they put in front of the others, and loses none of the others; what
comes in behind the others on the way is left, too. In between anything may happen that leaves its
definitions and saved entries alone and at most puts more entries behind those that wait. -/
inductive Reaches (engine : Engine η) (ref : QueueRef) : List Entry → List Entry →
    Tag.Evaluation (World η) → Tag.Evaluation (World η) → Prop
  | here {rest : List Entry} {start : Tag.Evaluation (World η)}
      (waiting : (start.world.queue ref).entries = rest) : Reaches engine ref rest rest start start
  | turn {rest behind more added left : List Entry} {entry : Entry}
      {start between finish : Tag.Evaluation (World η)}
      (waiting : (start.world.queue ref).entries = entry :: behind) (kept : rest <:+ behind)
      (takes : engine.Takes ref entry start between)
      (spliced : (between.world.queue ref).entries = more ++ (behind ++ added))
      (on : Reaches engine ref (rest ++ added) left between finish) :
      Reaches engine ref rest left start finish
  | meanwhile {rest added left : List Entry} {start between finish : Tag.Evaluation (World η)}
      (entries : (between.world.queue ref).entries = (start.world.queue ref).entries ++ added)
      (definitions : (between.world.queue ref).definitions = (start.world.queue ref).definitions)
      (saved : (between.world.queue ref).saved = (start.world.queue ref).saved)
      (on : Reaches engine ref (rest ++ added) left between finish) :
      Reaches engine ref rest left start finish

/-- So many passes of a loop are run, from the one with this number on, up to a state in which just
`left` waits: `rest`, and what came in behind it on the way. Each pass starts with its number as the
definition of the name; counting it does nothing else but that, and what else becomes of the queue is
done by the entries of the block. -/
inductive Counted (engine : Engine η) (ref : QueueRef) (parent : Entry) (name : String)
    (block : List Entry) : List Entry → List Entry → Nat → Nat →
      Tag.Evaluation (World η) → Tag.Evaluation (World η) → Prop
  | over {rest left : List Entry} {number : Nat} {start finish : Tag.Evaluation (World η)}
      (waiting : (start.world.queue ref).entries = rest)
      (on : engine.Reaches ref rest left start finish) :
      Counted engine ref parent name block rest left number 0 start finish
  | pass {rest early late left : List Entry} {number times : Nat}
      {start before pass after finish : Tag.Evaluation (World η)}
      (waits : engine.Reaches ref (passesFrom parent name block number (times + 1) ++ rest)
        (passesFrom parent name block number (times + 1) ++ (rest ++ early)) start before)
      (takes : engine.Takes ref (counter parent name number) before pass)
      (counted : pass.world.queue ref = (before.world.queue ref).counted
        (counter parent name number) (block.map (Command.repeated parent) ++
          (passesFrom parent name block (number + 1) times ++ (rest ++ early))) name number)
      (known : (pass.world.queue ref).definition? name = some (toString number))
      (runs : engine.Reaches ref (passesFrom parent name block (number + 1) times ++ (rest ++ early))
        (passesFrom parent name block (number + 1) times ++ (rest ++ early ++ late)) pass after)
      (on : Counted engine ref parent name block (rest ++ early ++ late) left (number + 1) times
        after finish) :
      Counted engine ref parent name block rest left number (times + 1) start finish

namespace Reaches

theorem waiting (reaches : engine.Reaches ref rest left start finish) :
    (finish.world.queue ref).entries = left := by
  induction reaches with
  | here waiting => exact waiting
  | turn _ _ _ _ _ ih => exact ih
  | meanwhile _ _ _ _ ih => exact ih

/-- On the way to what is left at the end, the entries behind the first ones are left once. -/
theorem split {front middle : List Entry} (reaches : engine.Reaches ref rest left start finish)
    (waiting : (start.world.queue ref).entries = front ++ (middle ++ rest)) :
    ∃ added between, engine.Reaches ref (middle ++ rest) (middle ++ (rest ++ added)) start between ∧
      engine.Reaches ref (rest ++ added) left between finish := by
  induction reaches generalizing front with
  | @here rest start last =>
      have lengths := congrArg List.length (last.symm.trans waiting)
      simp only [List.length_append] at lengths
      obtain rfl := List.length_eq_zero_iff.1 (show middle.length = 0 by omega)
      exact ⟨[], start, by simpa using .here last, by simpa using .here last⟩
  | @turn rest behind more added left entry start between finish first kept takes spliced on ih =>
      cases front with
      | nil =>
          exact ⟨[], start, by simpa using .here waiting,
            by simpa using .turn first kept takes spliced on⟩
      | cons item front =>
          obtain ⟨rfl, rfl⟩ := List.cons.inj (first.symm.trans waiting)
          have waiting : (between.world.queue ref).entries =
              (more ++ front) ++ (middle ++ (rest ++ added)) := by
            simpa only [List.append_eq, List.append_assoc] using spliced
          obtain ⟨later, between, reaches, on⟩ := ih waiting
          rw [← List.append_assoc middle rest added] at reaches
          rw [List.append_assoc rest added later] at reaches on
          exact ⟨added ++ later, between,
            .turn first (List.suffix_append _ _) takes spliced reaches, on⟩
  | @meanwhile rest added left start between finish entries definitions saved _ ih =>
      have waiting : (between.world.queue ref).entries = front ++ (middle ++ (rest ++ added)) := by
        simpa only [waiting, List.append_assoc] using entries
      obtain ⟨later, between, reaches, on⟩ := ih waiting
      rw [← List.append_assoc middle rest added] at reaches
      rw [List.append_assoc rest added later] at reaches on
      exact ⟨added ++ later, between, .meanwhile entries definitions saved reaches, on⟩

/-- The entry in front is taken once. What it puts in front of the others and behind them is there
afterwards. -/
theorem first (reaches : engine.Reaches ref rest left start finish)
    (waiting : (start.world.queue ref).entries = entry :: behind) (kept : rest <:+ behind) :
    ∃ early before after more added,
      engine.Reaches ref (entry :: behind) (entry :: (behind ++ early)) start before ∧
      engine.Takes ref entry before after ∧
      (after.world.queue ref).entries = more ++ (behind ++ early ++ added) ∧
      engine.Reaches ref (rest ++ early ++ added) left after finish := by
  induction reaches generalizing behind with
  | here last =>
      have lengths := congrArg List.length (last.symm.trans waiting)
      have shorter := kept.length_le
      rw [List.length_cons] at lengths
      omega
  | @turn rest others more added left other start between finish next _ takes spliced on _ =>
      obtain ⟨rfl, rfl⟩ := List.cons.inj (next.symm.trans waiting)
      exact ⟨[], start, between, more, added, by simpa using .here waiting, takes, by simpa using spliced,
        by simpa using on⟩
  | @meanwhile rest added left start between finish entries definitions saved _ ih =>
      obtain ⟨front, rfl⟩ := kept
      have waiting : (between.world.queue ref).entries = entry :: (front ++ rest ++ added) := by
        rw [entries, waiting, List.cons_append]
      obtain ⟨early, before, after, more, late, reaches, takes, spliced, on⟩ :=
        ih waiting ⟨front, (List.append_assoc _ _ _).symm⟩
      rw [List.append_assoc (front ++ rest) added early] at reaches spliced
      rw [List.append_assoc rest added early] at on
      exact ⟨added ++ early, before, after, more, late,
        .meanwhile entries definitions saved reaches, takes, spliced, on⟩

end Reaches

theorem made_of_waiting {world : World η} (waiting : (world.queue ref).entries = entry :: behind) :
    ref.index < world.queues.size := by
  by_contra unmade
  rw [World.queue, Array.getElem?_eq_none (Nat.not_lt.1 unmade)] at waiting
  cases waiting

theorem run_takeStep (ref : QueueRef) (state : Tag.Evaluation (World η)) :
    (takeStep ref).run state =
      let step := (state.world.queue ref).nextStep state.world.now
      some (step.1, { state with world := state.world.modifyQueue ref fun _ => step.2 }) := rfl

theorem taken_of_waiting {other : Entry} {between : Tag.Evaluation (World η)}
    (waiting : (start.world.queue ref).entries = entry :: behind)
    (taken : (takeStep ref).run start = some (.execute other, between)) :
    other = entry ∧ between = { start with
      world := start.world.modifyQueue ref fun _ => { start.world.queue ref with
        entries := behind } } := by
  rw [run_takeStep] at taken
  cases step : (start.world.queue ref).nextStep start.world.now with
  | mk found rest =>
      rw [step] at taken
      obtain ⟨rfl, rfl⟩ := Prod.mk.inj (Option.some.inj taken)
      obtain ⟨_, entries, split, rfl⟩ := Queue.nextStep_execute step
      obtain ⟨rfl, rfl⟩ := List.cons.inj (split.symm.trans waiting)
      exact ⟨rfl, rfl⟩

section

variable (defines : engine.commands.find? "define" = some .define) (inert : engine.Inert name)

include defines inert

theorem executeTaken_counter (fire : Firing η) (parent : Entry) (number : Nat)
    (state : Tag.Evaluation (World η)) (made : ref.index < state.world.queues.size) :
    ∃ later, (engine.executeTaken fire ref (counter parent name number)).run state =
        some ((), later) ∧
      later.world.queue ref = (((state.world.queue ref).note
        (.started (counter parent name number))).define name (toString number)).note
          (.executed (counter parent name number)) := by
  let begun : Tag.Evaluation (World η) := { state with
    world := state.world.modifyQueue ref (Queue.note (.started (counter parent name number))) }
  have executed : ∃ later, (engine.executeEntry fire ref (counter parent name number)).run begun =
      some (.executed, later) ∧ later.world.queues =
        (begun.world.modifyQueue ref (Queue.define name (toString number))).queues :=
    executeEntry_counter defines inert rfl rfl rfl begun
  obtain ⟨later, ran, same⟩ := executed
  refine ⟨{ later with world :=
      later.world.modifyQueue ref (Queue.note (.executed (counter parent name number))) },
    Tag.EvalM.run_bind_eq_some.2 ⟨(), _, rfl,
      Tag.EvalM.run_bind_eq_some.2 ⟨.executed, later, ran, rfl⟩⟩, ?_⟩
  have counted : later.world.queue ref = ((state.world.queue ref).note
      (.started (counter parent name number))).define name (toString number) := by
    rw [World.queue, same, ← World.queue, World.queue_modifyQueue_self (by rwa [World.size_modifyQueue]),
      World.queue_modifyQueue_self made]
  rw [World.queue_modifyQueue_self, counted]
  rw [same, World.size_modifyQueue, World.size_modifyQueue]
  exact made

theorem Takes.counted {number : Nat}
    (takes : engine.Takes ref (counter parent name number) start finish)
    (waiting : (start.world.queue ref).entries = counter parent name number :: behind) :
    finish.world.queue ref =
      (start.world.queue ref).counted (counter parent name number) behind name number := by
  obtain ⟨fire, between, taken, executed⟩ := takes
  have made := made_of_waiting waiting
  obtain ⟨_, rfl⟩ := taken_of_waiting waiting taken
  obtain ⟨later, ran, counted⟩ := executeTaken_counter defines inert fire parent number
    { start with world := start.world.modifyQueue ref fun _ =>
      { start.world.queue ref with entries := behind } }
    (by rwa [World.size_modifyQueue])
  obtain rfl : later = finish := (Prod.mk.inj (Option.some.inj (ran.symm.trans executed))).2
  rw [counted, World.queue_modifyQueue_self made]
  rfl

theorem takes_counter {number : Nat}
    (waiting : (start.world.queue ref).entries = counter parent name number :: behind)
    (runs : (start.world.queue ref).isStopped = false)
    (free : (start.world.queue ref).isBlocked start.world.now = false) :
    ∃ pass, engine.Takes ref (counter parent name number) start pass := by
  have step : (start.world.queue ref).nextStep start.world.now =
      (.execute (counter parent name number), { start.world.queue ref with entries := behind }) := by
    simp [Queue.nextStep, runs, free, waiting]
  obtain ⟨later, ran, _⟩ := executeTaken_counter defines inert (fun _ => RunM.outOfBudget) parent number
    { start with world := start.world.modifyQueue ref fun _ =>
      { start.world.queue ref with entries := behind } }
    (by rw [World.size_modifyQueue]; exact made_of_waiting waiting)
  refine ⟨later, fun _ => RunM.outOfBudget, _, ?_, ran⟩
  rw [run_takeStep, step]

theorem Reaches.counted {number times : Nat} (reaches : engine.Reaches ref rest left start finish)
    (waiting : (start.world.queue ref).entries =
      passesFrom parent name block number times ++ rest) :
    engine.Counted ref parent name block rest left number times start finish := by
  induction times generalizing number start rest with
  | zero => exact .over waiting reaches
  | succ times ih =>
      rw [passesFrom, List.cons_append, List.append_assoc] at waiting
      obtain ⟨early, before, pass, more, added, waits, takes, spliced, on⟩ := reaches.first waiting
        ((List.suffix_append _ _).trans (List.suffix_append _ _))
      have counted := takes.counted defines inert waits.waiting
      have entries : (pass.world.queue ref).entries = block.map (Command.repeated parent) ++
          (passesFrom parent name block (number + 1) times ++ rest) ++ early := by rw [counted]; rfl
      -- Counting puts nothing before or behind the others.
      have lengths := congrArg List.length (entries.symm.trans spliced)
      simp only [List.length_append] at lengths
      obtain rfl := List.length_eq_zero_iff.1 (show added.length = 0 by omega)
      rw [List.append_nil] at on
      rw [List.append_assoc, List.append_assoc] at entries counted
      obtain ⟨late, after, runs, on⟩ := on.split entries
      refine .pass ?_ takes counted ?_ runs (ih on runs.waiting)
      · simpa only [passesFrom, List.cons_append, List.append_assoc] using waits
      · rw [counted]
        exact Table.get?_set _ _ _

end

/-! The entry of the loop. -/

theorem run_offer (engine : Engine η) (entry : Entry) (arguments : Arguments)
    (state : Tag.Evaluation (World η)) :
    ∃ later, (arguments.offer (engine.offerToHost entry)).run state =
        some (engine.host.unclaimed entry arguments, later) ∧
      later.world.queues = state.world.queues := by
  have offered (items : List Argument) (state : Tag.Evaluation (World η)) : ∃ kept later,
      (Arguments.unclaimed (engine.offerToHost entry) items).run state = some (kept, later) ∧
        later.world.queues = state.world.queues := by
    induction items generalizing state with
    | nil => exact ⟨[], state, rfl, rfl⟩
    | cons argument items ih =>
        unfold Arguments.unclaimed
        split
        · obtain ⟨kept, later, ran, same⟩ := ih state
          exact ⟨_, later, Tag.EvalM.run_bind_eq_some.2 ⟨kept, later, ran, rfl⟩, same⟩
        · rename_i word value _
          have told : ∃ answer later, (engine.offerToHost entry word value).run state =
              some (answer, later) ∧ later.world.queues = state.world.queues := by
            unfold offerToHost
            cases engine.host.claims entry word value with
            | true => exact ⟨_, _, rfl, rfl⟩
            | false => exact ⟨_, _, rfl, rfl⟩
          obtain ⟨answer, between, answered, untouched⟩ := told
          obtain ⟨kept, later, ran, same⟩ := ih between
          exact ⟨_, later, Tag.EvalM.run_bind_eq_some.2 ⟨answer, between, answered,
            Tag.EvalM.run_bind_eq_some.2 ⟨kept, later, ran, rfl⟩⟩, same.trans untouched⟩
  obtain ⟨kept, later, ran, same⟩ := offered arguments.positional state
  have ran : (arguments.offer (engine.offerToHost entry)).run state =
      some ({ arguments with positional := kept }, later) :=
    Tag.EvalM.run_bind_eq_some.2 ⟨kept, later, ran, rfl⟩
  rw [← engine.offer_gives entry arguments _ _ _ ran]
  exact ⟨later, ran, same⟩

theorem run_log_if (test : Prop) [Decidable test] (level : LogLevel) (text : String)
    (state : Tag.Evaluation (World η)) :
    ∃ between : Tag.Evaluation (World η), (∀ rest : RunM η EntryOutcome,
        (if test then RunM.log level text >>= fun _ => rest else rest).run state = rest.run between) ∧
      between.world.queues = state.world.queues := by
  split
  · exact ⟨_, fun _ => rfl, rfl⟩
  · exact ⟨_, fun _ => rfl, rfl⟩

theorem runCommand_of_bound {fire : Firing η} {command : Command η} {invocation bound : Invocation}
    {arguments unread : Arguments} {change : Queue → Queue}
    (isBound : command.bind invocation arguments = .ok (bound, unread))
    (executes : ∀ state, ∃ later, (command.execute ⟨engine.host, fire, ref⟩ bound).run state =
        some (.ok bound, later) ∧
      later.world.queues = (state.world.modifyQueue ref change).queues)
    (state : Tag.Evaluation (World η)) :
    ∃ finish, (engine.runCommand fire ref command invocation arguments none).run state =
        some (.executed, finish) ∧
      finish.world.queues = (state.world.modifyQueue ref change).queues := by
  unfold runCommand
  rw [isBound]
  dsimp only
  obtain ⟨between, told, same⟩ := run_log_if ((!unread.unread.isEmpty) = true) .debug
    s!"[{invocation.queue}] '{command.name}' ignored argument(s): {Text.spaced unread.unread}" state
  obtain ⟨finish, executed, changed⟩ := executes between
  refine ⟨finish, (told _).trans (Tag.EvalM.run_bind_of_run_some executed _), changed.trans ?_⟩
  rw [World.modifyQueue, World.modifyQueue, same]

theorem executeEntry_of_bound {fire : Firing η} {command : Command η}
    {filled : Tag.Evaluation (World η)} {ready : FilledEntry} {blocks : List Block}
    {bound : Invocation} {unread : Arguments} {change : Queue → Queue}
    (named : engine.commands.find? ready.entry.command = some command)
    (ran : (engine.fillEntry fire ref entry).run start = some (ready, filled))
    (built : blocksOfFilled ready.filled = .ok blocks)
    (isBound : command.bind
      { entry := { ready.entry with arguments := ready.filled }, queue := ready.queue, blocks }
      (engine.host.argumentsOf command { ready.entry with arguments := ready.filled }) =
        .ok (bound, unread))
    (enough : command.minArgs ≤ (engine.host.argumentsOf command
      { ready.entry with arguments := ready.filled }).size)
    (unsaved : ((Arguments.ofFilled (command.words ++ [saveWord]) ready.filled).takePrefixed
      saveWord).1 = none)
    (executes : ∀ state, ∃ later, (command.execute ⟨engine.host, fire, ref⟩ bound).run state =
        some (.ok bound, later) ∧
      later.world.queues = (state.world.modifyQueue ref change).queues) :
    ∃ finish, (engine.executeEntry fire ref entry).run start = some (.executed, finish) ∧
      finish.world.queues = (filled.world.modifyQueue ref change).queues := by
  let invocation : Invocation :=
    { entry := { ready.entry with arguments := ready.filled }, queue := ready.queue, blocks }
  obtain ⟨offered, offers, first⟩ := run_offer engine invocation.entry ((Arguments.ofFilled
    (command.words ++ [saveWord]) ready.filled).takePrefixed saveWord).2 filled
  obtain ⟨warned, warns, second⟩ := run_log_if
    ((invocation.entry.waits && !command.holdable) = true) .warn
    s!"[{ready.queue}] '~' has no effect on '{command.name}'; it does not hold its queue." offered
  obtain ⟨finish, finished, changed⟩ := runCommand_of_bound isBound executes warned
  refine ⟨finish, ?_, changed.trans ?_⟩
  · rw [executeEntry_eq, Tag.EvalM.run_bind_of_run_some ran, built, dispatch, named]
    dsimp only
    unfold invoke
    dsimp only
    rw [unsaved, Tag.EvalM.run_bind_of_run_some offers]
    exact (congrArg (StateT.run · offered) (if_neg (Nat.not_lt.2 enough))).trans
      ((warns _).trans finished)
  · rw [World.modifyQueue, World.modifyQueue, second, first]

theorem size_pos_of_positional {arguments : Arguments} {value : String}
    (first : (arguments.positional? 0).1 = some value) : 1 ≤ arguments.size := by
  unfold Arguments.positional? at first
  cases found : arguments.positional[0]? with
  | none =>
      rw [found] at first
      cases first
  | some argument =>
      obtain ⟨some, _⟩ := List.getElem?_eq_some_iff.1 found
      exact Nat.le_trans some (Nat.le_add_right _ _)

/-- The filled entry stands for so many passes of a block, counted under a name, and is not saved. -/
structure Loops (engine : Engine η) (ready : FilledEntry) (name : String) (times : Nat)
    (block : List Entry) : Prop where
  command : engine.commands.find? ready.entry.command = some .repeatBlock
  braced : ∃ key others, blocksOfFilled ready.filled = .ok (⟨key, block⟩ :: others)
  times : ((engine.host.argumentsOf (.repeatBlock : Command η)
    { ready.entry with arguments := ready.filled }).positional? 0).1.bind Number.count? = some times
  name : loopName (engine.host.argumentsOf (.repeatBlock : Command η)
    { ready.entry with arguments := ready.filled }) = name
  unsaved : ((Arguments.ofFilled ["as", saveWord] ready.filled).takePrefixed saveWord).1 = none

/-- A loop defines its counter under the name it was given, if nothing is read into that name:
executing it puts its passes in front of what waits on the queue; a pass that is next starts as soon as
nothing keeps the queue; and if no entry of the block stops or clears the queue, the passes run one
after another, each with its number as the definition of the name. -/
theorem loop_counts {fire : Firing η} {filled : Tag.Evaluation (World η)} {ready : FilledEntry}
    {times : Nat} (defines : engine.commands.find? "define" = some .define)
    (ran : (engine.fillEntry fire ref entry).run start = some (ready, filled))
    (made : ref.index < filled.world.queues.size) (loops : engine.Loops ready name times block)
    (inert : engine.Inert name) :
    let origin : Entry := { ready.entry with arguments := ready.filled }
    let rest := (filled.world.queue ref).entries
    (∃ looped, (engine.executeEntry fire ref entry).run start = some (.executed, looped) ∧
      looped.world.queue ref =
        (filled.world.queue ref).injectEntries 0 (passesFrom origin name block 1 times) ∧
      ∀ left finish, engine.Reaches ref rest left looped finish →
        engine.Counted ref origin name block rest left 1 times looped finish) ∧
    ∀ number behind state,
      (state.world.queue ref).entries = counter origin name number :: behind →
      (state.world.queue ref).isStopped = false →
      (state.world.queue ref).isBlocked state.world.now = false →
      ∃ pass, engine.Takes ref (counter origin name number) state pass := by
  intro origin rest
  refine ⟨?_, fun number behind state waiting runs free =>
    takes_counter defines inert waiting runs free⟩
  obtain ⟨key, others, built⟩ := loops.braced
  let invocation : Invocation :=
    { entry := origin, queue := ready.queue, blocks := ⟨key, block⟩ :: others }
  obtain ⟨raw, first, count⟩ := Option.bind_eq_some_iff.1 loops.times
  have counts : ∃ unread, (Command.repeatBlock : Command η).bind invocation _ =
      .ok ((invocation.setObject "times" _).setObject "as" _, unread) :=
    Command.repeatBlock_bind_of_count rfl loops.times
  obtain ⟨unread, isBound⟩ := counts
  rw [loops.name] at isBound
  have enough := size_pos_of_positional first
  have splices : ∃ looped, (engine.executeEntry fire ref entry).run start = some (.executed, looped) ∧
      looped.world.queues = (filled.world.modifyQueue ref
        (Queue.injectEntries 0 (passesFrom origin name block 1 times))).queues := by
    refine executeEntry_of_bound loops.command ran built isBound enough loops.unsaved fun state => ?_
    have blocks : invocation.blocks = ⟨key, block⟩ :: others := rfl
    rw [repeatBlock_execute blocks (Number.le_maxCount count)]
    exact ⟨_, rfl, rfl⟩
  obtain ⟨looped, executed, changed⟩ := splices
  have spliced : looped.world.queue ref =
      (filled.world.queue ref).injectEntries 0 (passesFrom origin name block 1 times) := by
    rw [World.queue, changed, ← World.queue, World.queue_modifyQueue_self made]
  refine ⟨looped, executed, spliced, fun left finish reaches => reaches.counted defines inert ?_⟩
  rw [spliced]
  rfl

/-- Whether the queue executes so many entries until just `rest` waits, and what comes in behind it with
each of them. -/
def runsDown (engine : Engine η) (fire : Firing η) (ref : QueueRef) (rest : List Entry) :
    List (List Entry) → Tag.Evaluation (World η) → Bool
  | [], state => (state.world.queue ref).entries == rest
  | added :: others, state =>
    match (state.world.queue ref).entries, (takeStep ref).run state with
    | _ :: behind, some (.execute entry, between) =>
      rest.isSuffixOf behind && ((engine.executeTaken fire ref entry).run between).any fun later =>
        (behind ++ added).isSuffixOf (later.2.world.queue ref).entries &&
          runsDown engine fire ref (rest ++ added) others later.2
    | _, _ => false

theorem reaches_of_runsDown {fire : Firing η} {added : List (List Entry)}
    (down : engine.runsDown fire ref rest added start = true) :
    ∃ finish, engine.Reaches ref rest (rest ++ added.flatten) start finish := by
  induction added generalizing start rest with
  | nil =>
      refine ⟨start, ?_⟩
      rw [List.flatten_nil, List.append_nil]
      exact .here (beq_iff_eq.1 down)
  | cons added others ih =>
      rw [runsDown] at down
      split at down
      · rename_i first behind other between waiting taken
        obtain ⟨rfl, _⟩ := taken_of_waiting waiting taken
        rw [Bool.and_eq_true, Option.any_eq_true] at down
        obtain ⟨kept, ⟨_, later⟩, executed, checked⟩ := down
        rw [Bool.and_eq_true] at checked
        obtain ⟨more, spliced⟩ := List.isSuffixOf_iff_suffix.1 checked.1
        obtain ⟨finish, on⟩ := ih checked.2
        rw [List.append_assoc] at on
        exact ⟨finish, .turn waiting (List.isSuffixOf_iff_suffix.1 kept)
          ⟨fire, between, taken, executed⟩ spliced.symm on⟩
      · cases down

def looper : Engine Unit where
  host := {}
  commands := ⟨[("define", .define), ("repeat", .repeatBlock), ("run", .run)]⟩
  resolvers := []
  attributes := []

def echo : Script where
  name := "echo"
  entries := [.ofCommand "define" ["heard", "yes"]]

def looping (words : List String) : Tag.Evaluation (World Unit) :=
  ⟨.empty, .empty, false, none, { World.start () with
    queues := #[{ Queue.make "q" .instant ⟨0⟩ with
      phase := .running, entries := [.ofCommand "repeat" words] }]
    live := [("q", ⟨0⟩)]
    scripts := [("echo", echo)] }⟩

def laps (name : String) (lap : List String) : List String :=
  ["2", name, openBrace, "-"] ++ lap ++ [closeBrace]

/-- A lap that puts an entry behind all that waits on the queue. -/
def echoes : List String := laps "as:lap" ["run", "echo", "id:q"]

theorem loops_laps : looper.Loops ⟨"q", .ofCommand "repeat" echoes, echoes⟩ "lap" 2
    [.ofCommand "run" ["echo", "id:q"]] where
  command := rfl
  braced := ⟨"2 as:lap", [], by decide +kernel⟩
  times := by decide +kernel
  name := by decide +kernel
  unsaved := by decide +kernel

theorem loop_counts_laps : ∃ origin looped finish,
    (looper.executeEntry (looper.fire 2) ⟨0⟩ (.ofCommand "repeat" echoes)).run (looping echoes) =
        some (.executed, looped) ∧
      looper.Counted ⟨0⟩ origin "lap" [.ofCommand "run" ["echo", "id:q"]]
        [.ofCommand "repeat" echoes]
        (.ofCommand "repeat" echoes :: (echo.instantiate (some ⟨0⟩) ++ echo.instantiate (some ⟨1⟩)))
        1 2 looped finish := by
  have shown : ((looper.fillEntry (looper.fire 2) ⟨0⟩ (.ofCommand "repeat" echoes)).run
      (looping echoes)).map (fun ran => (ran.1.queue, ran.1.entry, ran.1.filled,
        ran.2.world.queues.size, (ran.2.world.queue ⟨0⟩).entries)) =
      some ("q", .ofCommand "repeat" echoes, echoes, 1, [.ofCommand "repeat" echoes]) := by
    decide +kernel
  obtain ⟨⟨⟨queue, entry, words⟩, filled⟩, ran, same⟩ := Option.map_eq_some_iff.1 shown
  simp only [Prod.mk.injEq] at same
  obtain ⟨rfl, rfl, rfl, size, waiting⟩ := same
  have inert : looper.Inert "lap" :=
    inert_of_fixed ⟨by unfold Changeable; decide, by decide⟩ (by decide)
      (by unfold IsBrace; decide) (by decide) fun _ => rfl
  obtain ⟨⟨looped, executed, _, counts⟩, _⟩ := loop_counts rfl ran (by rw [size]; exact Nat.one_pos)
    loops_laps inert
  have down : ((looper.executeEntry (looper.fire 2) ⟨0⟩ (.ofCommand "repeat" echoes)).run
      (looping echoes)).all (fun ended =>
        looper.runsDown (looper.fire 2) ⟨0⟩ [.ofCommand "repeat" echoes]
          [[], echo.instantiate (some ⟨0⟩), [], echo.instantiate (some ⟨1⟩)] ended.2) = true := by
    decide +kernel
  rw [executed] at down
  obtain ⟨finish, reaches⟩ := reaches_of_runsDown down
  rw [← waiting] at reaches
  have counted := counts _ finish reaches
  rw [waiting] at counted
  exact ⟨_, looped, finish, executed, counted⟩

/-- A name that starts like a saved entry is lost: each pass defines its number, and is saved. -/
theorem saved_counter_is_lost :
    ((looper.drain (fun _ => RunM.outOfBudget) ⟨0⟩ 10).run
      (looping (laps "as:save:lap" ["define", "seen", "yes"]))).map
        (fun ended => ((ended.2.world.queue ⟨0⟩).definitions,
          (ended.2.world.queue ⟨0⟩).saved.names)) =
          some ([("1", "true"), ("seen", "yes"), ("2", "true")], ["lap"]) := by
  decide +kernel

end Engine

end TagScript
