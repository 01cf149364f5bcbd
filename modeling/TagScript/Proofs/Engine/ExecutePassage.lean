import TagScript.Proofs.Engine.Filled
import TagScript.Proofs.Engine.Passage
import TagScript.Proofs.Table

/-! Executing an entry comes to a passage, whatever regime the engine is looked at in, as long as the
scripts that are fired on the way and the procedures that are called come to passages. -/

namespace TagScript

variable {η μ σ α : Type}

open Tag (Regime Serves Yields)

namespace Tag

variable {regime : Regime μ} {fill : μ → String → EvalM σ String}

theorem readBracket_serves {calm : Evaluation σ → Prop}
    (fills : ∀ text, Serves regime calm fun way => fill way text) (lookup : Lookup) (memo : Memo)
    (position : Nat) : Serves regime calm fun way => readBracket (fill way) lookup memo position := by
  unfold readBracket
  split
  · exact .pure _
  · split
    · exact .pure _
    · exact .bind (fills _) fun _ => .pure _

theorem Acting.Plain.serves {calm : Evaluation (World η) → Prop} {vocabulary : Vocabulary (World η)}
    {call : μ → Procedure → EvalM (World η) CallResult}
    {fill : μ → String → EvalM (World η) String} {free counting : Bool} {lookup : Lookup}
    (tells : ∀ state world, state.world.Aloof world → calm state → calm { state with world })
    (cancels : ∀ state, calm state → calm state.cancel)
    (calls : free = true → ∀ procedure, Serves regime calm fun way => call way procedure)
    (counted : counting = true → ∀ procedure memo, Serves regime calm fun way =>
      ask (vocabulary.calling (call way)) (fill way) lookup (Vocabulary.callCounted procedure) memo)
    (fills : ∀ text, Serves regime calm fun way => fill way text)
    {act : Acting (World η) α} (plain : act.Plain free counting) (memo : Memo) :
    Serves regime calm fun way =>
      ask (vocabulary.calling (call way)) (fill way) lookup act memo := by
  induction plain generalizing memo with
  | pure result => exact .pure _
  | bind _ _ first rest =>
      simp only [ask_bind]
      exact .bind (first memo) fun outcome => rest outcome.1 outcome.2
  | world => exact fun start started => .of_run (fun _ => rfl) started
  | tell aloof =>
      exact fun start started => .of_run (fun _ => rfl) (tells start _ (aloof start.world) started)
  | bracket position =>
      simp only [ask_bracket]
      exact readBracket_serves fills lookup memo position
  | call procedure isFree =>
      simp only [ask_call]
      exact .bind (calls isFree procedure) fun _ => .pure _
  | counted procedure counts => exact counted counts procedure memo
  | cancel =>
      simp only [ask_cancel]
      exact fun start started => .of_run (fun _ => rfl) (cancels start started)
  | isCancelled => exact fun start started => .of_run (fun _ => rfl) started

theorem ask_ite {test : Prop} [Decidable test] (vocabulary : Vocabulary σ)
    (fill : String → EvalM σ String) (lookup : Lookup) (act other : Acting σ α) (memo : Memo) :
    ask vocabulary fill lookup (if test then act else other) memo =
      if test then ask vocabulary fill lookup act memo
      else ask vocabulary fill lookup other memo := by
  split <;> rfl

end Tag

structure Charter.Answers (charter : Charter η μ) (running : List Running) (free : Bool)
    (call : μ → Tag.Procedure → RunM η Tag.CallResult) : Prop where
  free : free = true → ∀ procedure, Steady charter running fun way => call way procedure
  counted : ∀ procedure (start : Tag.Evaluation (World η)), charter.fit start.world →
    start.world.calls < Vocabulary.callLimit →
    let world := { start.world with calls := start.world.calls + 1 }
    Yields charter.regime (fun way => call way procedure) { start with world } fun _ later =>
      Passage charter.terms running world later.world

theorem callCounted_steady {charter : Charter η μ} {running : List Running} {free : Bool}
    {call : μ → Tag.Procedure → RunM η Tag.CallResult} (answers : charter.Answers running free call)
    (vocabulary : Tag.Vocabulary (World η)) (fill : μ → String → RunM η String)
    (lookup : Tag.Lookup) (procedure : Tag.Procedure) (memo : Tag.Memo) :
    Steady charter running fun way => Tag.ask (vocabulary.calling (call way)) (fill way) lookup
      (Vocabulary.callCounted procedure) memo := by
  intro start started
  simp only [Vocabulary.callCounted, Tag.ask_bind, Tag.ask_world, Tag.ask_ite, Tag.ask_modify,
    Tag.ask_call, bind_assoc, pure_bind]
  refine .world_bind ?_
  by_cases many : Vocabulary.callLimit ≤ start.world.calls
  · simp only [many, ↓reduceIte]
    exact .of_run (fun _ => rfl) (.single (.aside (World.emit_aloof _ _).aside))
  · simp only [many, ↓reduceIte]
    refine .modifyWorld_bind (.bind (answers.counted procedure start started (by omega)) ?_)
    intro result later inside
    refine .modifyWorld_bind ?_
    have called := Passage.call (.refl running start.world) (by omega) inside
    cases result with
    | ok outcome => exact .pure called
    | error error =>
        exact .of_run (fun _ => rfl) (called.step (.aside (World.emit_aloof _ _).aside))

/-- A command of the host that only speaks, or changes the host's own state, all at once. -/
structure Command.Harmless (command : Command η) : Prop where
  background : command.background = none
  execute : ∀ host ref invocation, ∃ answer : World η → Except Fault Invocation × World η,
    (∀ world : World η, world.Aloof (answer world).2) ∧
      ∀ fire, command.execute ⟨host, fire, ref⟩ invocation = RunM.updateGet answer

/-- An engine with no commands but built-in and harmless ones, and with plain tags. -/
structure Engine.Regular (free : Bool) (engine : Engine η) : Prop where
  commands : ∀ name, ∀ command ∈ engine.commands.find? name,
    command ∈ Command.builtins ∨ command.Harmless
  resolvers : ∀ resolver ∈ engine.resolvers, ∀ lookup, (resolver.resolve lookup).Plain free
  attributes : ∀ handler ∈ engine.attributes, ∀ value lookup position,
    (handler.apply value lookup position).Plain free

section

variable {charter : Charter η μ} {running : List Running} {engine : Engine η} {free : Bool}
  {fire : μ → Firing η}

namespace Engine

theorem plain_serving {regime : Regime μ} {calm : World η → Prop} {free counting : Bool}
    (resolvers : ∀ resolver ∈ engine.resolvers, ∀ lookup,
      (resolver.resolve lookup).Plain free counting)
    (attributes : ∀ handler ∈ engine.attributes, ∀ value lookup position,
      (handler.apply value lookup position).Plain free counting)
    (tells : ∀ {world other : World η}, world.Aloof other → calm world → calm other)
    (reports : ∀ {world : World η} queue text, calm world →
      calm (engine.host.report queue text world))
    (calls : free = true → ∀ procedure, Serves regime
      (fun state : Tag.Evaluation (World η) => calm state.world)
      fun way => callProcedure (fire way) procedure) (outside : Firing η)
    (counted : counting = true → ∀ (fill : μ → String → RunM η String) lookup procedure memo,
      Serves regime (fun state : Tag.Evaluation (World η) => calm state.world) fun way =>
        Tag.ask ((engine.vocabulary outside).calling (callProcedure (fire way))) (fill way) lookup
          (Vocabulary.callCounted procedure) memo) :
    (engine.vocabulary outside).Serving regime (fun state => calm state.world)
      (fun way => callProcedure (fire way)) := by
  have cancels (state : Tag.Evaluation (World η)) (kept : calm state.world) :
      calm state.cancel.world := by
    unfold Tag.Evaluation.cancel
    split <;> exact kept
  refine ⟨fun _ _ _ kept => kept, fun state context message kept => reports _ _ kept,
    fun state level text kept => tells (World.emit_aloof _ _) kept, ?_, ?_⟩
  · intro resolver known fill fills lookup memo
    exact (resolvers resolver known lookup).serves (fun _ _ => tells) cancels calls
      (fun counts => counted counts fill lookup) fills memo
  · intro handler known fill fills value lookup position memo
    exact (attributes handler known value lookup position).serves (fun _ _ => tells) cancels calls
      (fun counts => counted counts fill lookup) fills memo

theorem vocabulary_serving (regular : engine.Regular free)
    (answers : charter.Answers running free fun way => callProcedure (fire way))
    {origin : World η} (fit : charter.fit origin) (outside : Firing η) :
    (engine.vocabulary outside).Serving charter.regime
      (fun state => Passage charter.terms running origin state.world)
      (fun way => callProcedure (fire way)) :=
  plain_serving regular.resolvers regular.attributes
    (fun aloof reached => reached.step (.aside aloof.aside))
    (fun queue text reached => reached.step (.aside (World.report_aside engine.host queue text _)))
    (fun isFree procedure => (answers.free isFree procedure).serves fit) outside
    fun _ fill lookup procedure memo =>
      (callCounted_steady answers (engine.vocabulary outside) fill lookup procedure memo).serves fit

theorem vocabulary_calling (engine : Engine η) (fire outside : Firing η) :
    engine.vocabulary fire = (engine.vocabulary outside).calling (callProcedure fire) := rfl

theorem fillArguments_steady (regular : engine.Regular free)
    (answers : charter.Answers running free fun way => callProcedure (fire way))
    (context : Tag.Context) (words : List String) :
    Steady charter running fun way =>
      Tag.underToken false (Tag.fillArguments (engine.vocabulary (fire way)) context words) := by
  have same (way : μ) := engine.vocabulary_calling (fire way) fun _ => RunM.outOfBudget
  simp only [same]
  exact .of_serves fun _ fit => Tag.underToken_serves (Tag.fillArgumentsFrom_serves
    (vocabulary_serving regular answers fit _) (fun _ _ reached => reached) context 0 words)
    (fun _ _ reached => reached) false

theorem context_steady (engine : Engine η) (queue : Option QueueRef) (entry : Option Entry) :
    Steady charter running fun _ => engine.context queue entry :=
  .world_bind fun _ _ => .pure _

theorem fillText_steady (regular : engine.Regular free)
    (answers : charter.Answers running free fun way => callProcedure (fire way))
    (queue : Option QueueRef) (text : String) :
    Steady charter running fun way => engine.fillText (fire way) queue text := by
  have same (way : μ) := engine.vocabulary_calling (fire way) fun _ => RunM.outOfBudget
  unfold fillText
  simp only [same]
  exact .bind (engine.context_steady queue none) fun context => .of_serves fun _ fit =>
    Tag.underToken_serves (Tag.evaluateBounded_serves (vocabulary_serving regular answers fit _)
      (fun _ _ reached => reached) context text) (fun _ _ reached => reached) false

end Engine

theorem Host.error_steady (host : Host) (queue : Option String) (text : String) :
    Steady charter running fun _ => (host.error queue text : RunM η Unit) :=
  .written (World.report_aside host queue text)

theorem Host.message_steady (host : Host) (queue : Option String) (text : String) :
    Steady charter running fun _ => (host.message queue text : RunM η Unit) :=
  .written (World.tell_aside host queue text)

theorem Host.remark_steady (host : Host) (queue text : String) :
    Steady charter running fun _ => (host.remark queue text : RunM η Unit) :=
  .ite (host.message_steady _ _) (.pure _)

namespace Queue

theorem carryOut_steady (action : StopAction) :
    Steady charter running fun _ => (carryOut action : RunM η Unit) := by
  cases action with
  | release queue => exact .release queue
  | notify label => exact .emit _

theorem atEnd_steady (ref : QueueRef) (action : StopAction) :
    Steady charter running fun _ => (atEnd ref action : RunM η Unit) :=
  .queue_bind fun _ => .ite (carryOut_steady action) (.adjust fun _ => ⟨rfl, rfl, rfl⟩)

theorem removeLive_aside (ref : QueueRef) (world : World η) :
    world.Aside (world.removeLive ref).2 := by
  unfold World.removeLive
  dsimp only
  split
  · exact .of_live rfl rfl rfl rfl rfl rfl rfl List.filter_sublist.subset
  · exact .of_live rfl rfl rfl rfl rfl rfl rfl (List.Subset.refl _)

theorem stop_steady (host : Host) (ref : QueueRef) :
    Steady charter running fun _ => (stop host ref : RunM η Unit) := by
  intro start started
  have told : Steady charter running fun _ => (do
      (start.world.queue ref).timer.forM cancelTimer
      let _ ← RunM.updateGet (World.removeLive ref)
      host.remark (start.world.queue ref).id "Queue completed."
      (start.world.queue ref).onStop.forM carryOut : RunM η Unit) := by
    refine .bind (.forM_option (fun timer => ?_) _) fun _ => ?_
    · exact .stride fun world =>
        .aside (.of_live rfl rfl rfl rfl rfl rfl rfl (List.Subset.refl _))
    · exact .bind (.updateGet fun world => .single (.aside (removeLive_aside ref world))) fun _ =>
        .bind (host.remark_steady _ _) fun _ => .forM carryOut_steady _
  refine .queue_bind ?_
  cases stopped : (start.world.queue ref).isStopped with
  | true => exact .pure (.refl running _)
  | false =>
      have closed : Passage charter.terms running start.world
          (start.world.modifyQueue ref Queue.close) := .single (.close running _ ref stopped)
      exact .update_bind (told.after closed started)

end Queue

/-! The built-in commands, executed on the queue of the innermost entry. -/

theorem Scene.remark_steady (host : Host) (ref : QueueRef) (text : String) :
    Steady charter running fun way => (⟨host, fire way, ref⟩ : Scene η).remark text :=
  .bind (.queue_bind fun _ => .pure _) fun _ => host.remark_steady _ _

def Host.claimed (host : Host) (entry : Entry) (argument : Argument) : Bool :=
  match Arguments.cutWord? argument.value with
  | none => false
  | some (word, value) => host.claims entry word value

def Host.unclaimed (host : Host) (entry : Entry) (arguments : Arguments) : Arguments :=
  { arguments with positional := arguments.positional.filter (!host.claimed entry ·) }

/-- The arguments that a command finds in a filled entry. -/
def Host.argumentsOf (host : Host) (command : Command η) (entry : Entry) : Arguments :=
  host.unclaimed entry ((Arguments.ofFilled (command.words ++ [Engine.saveWord])
    entry.arguments).takePrefixed Engine.saveWord).2

def Host.injectedName (host : Host) (entry : Entry) : String :=
  ((host.argumentsOf (Command.inject : Command Unit) entry).positional? 0).1.getD ""

structure Handed (entry : Entry) (invocation : Invocation) : Prop where
  same : invocation.entry = { entry with arguments := invocation.entry.arguments }
  filled : FilledFrom 0 entry.arguments invocation.entry.arguments
  blocks : Engine.blocksOfFilled invocation.entry.arguments = .ok invocation.blocks

theorem Handed.fire_eq {entry : Entry} {invocation : Invocation}
    (handed : Handed entry invocation) : invocation.entry.fire = entry.fire := by rw [handed.same]

def Command.Steadies (charter : Charter η μ) (running : List Running) (host : Host)
    (fire : μ → Firing η) (ref : QueueRef) (entry : Entry) (command : Command η) : Prop :=
  ∀ invocation bound rest, Handed entry invocation →
    command.bind invocation (host.argumentsOf command invocation.entry) = .ok (bound, rest) →
    Steady charter (⟨ref, entry⟩ :: running) fun way => command.execute ⟨host, fire way, ref⟩ bound

namespace Command

variable {host : Host} {ref : QueueRef} {entry : Entry}

theorem debug_steadies : (debug : Command η).Steadies charter running host fire ref entry := by
  intro invocation bound rest _ _
  exact .bind (.queue_bind fun _ => .pure _) fun queue =>
    .ite (.bind (host.error_steady _ _) fun _ => .pure _)
      (.bind (host.message_steady _ _) fun _ => .pure _)

theorem define_steadies : (define : Command η).Steadies charter running host fire ref entry := by
  intro invocation bound rest _ _
  unfold define
  dsimp only
  split
  · exact .bind (.adjust fun _ => ⟨rfl, rfl, rfl⟩) fun _ =>
      .bind (Scene.remark_steady host ref _) fun _ => .pure _
  · exact .pure _

theorem stop_steadies : (stop : Command η).Steadies charter running host fire ref entry :=
  fun _ _ _ _ _ => .bind (Queue.stop_steady host ref) fun _ => .pure _

theorem wait_steadies : (wait : Command η).Steadies charter running host fire ref entry := by
  intro invocation bound rest _ _
  unfold wait
  dsimp only
  split
  · exact .pure _
  · exact .now_bind fun now => .bind (.adjust fun _ => ⟨rfl, rfl, rfl⟩) fun _ =>
      .bind (Scene.remark_steady host ref _) fun _ => .pure _

theorem actOnQueue_steady (invocation : Invocation) (target : QueueRef) :
    Steady charter running fun way => actOnQueue ⟨host, fire way, ref⟩ invocation target := by
  unfold actOnQueue
  split
  · exact .bind (.adjust fun _ => ⟨rfl, rfl, rfl⟩) fun _ => .pure _
  · exact .bind (.adjust fun _ => ⟨rfl, rfl, rfl⟩) fun _ => .pure _
  · exact .bind (Queue.stop_steady _ _) fun _ => .pure _
  · exact .bind (.stride fun world => .clear running world target) fun _ => .pure _
  · split
    · exact .pure _
    · exact .now_bind fun now => .bind (.adjust fun _ => ⟨rfl, rfl, rfl⟩) fun _ => .pure _
  · exact .pure _

theorem queue_steadies : (queue : Command η).Steadies charter running host fire ref entry := by
  intro invocation bound rest _ _
  unfold queue
  dsimp only
  refine .world_bind fun world _ => ?_
  split
  · exact .pure _
  · refine .bind (actOnQueue_steady bound _) fun outcome => ?_
    split
    · exact .pure _
    · exact .queue_bind fun _ => .bind (Scene.remark_steady host ref _) fun _ => .pure _

theorem determine_bind {invocation bound : Invocation} {arguments rest : Arguments}
    (isBound : (determine : Command η).bind invocation arguments = .ok (bound, rest)) :
    bound.entry = invocation.entry := by
  obtain ⟨rfl, _⟩ := Prod.mk.inj (Except.ok.inj isBound)
  dsimp only
  split <;> rfl

theorem determine_steadies : (determine : Command η).Steadies charter running host fire ref entry := by
  intro invocation bound rest handed isBound start started
  have fires : bound.entry.fire = entry.fire := by rw [determine_bind isBound, handed.fire_eq]
  have filed : Passage charter.terms (⟨ref, entry⟩ :: running) start.world
      (start.world.record ref (bound.entry.fire.getD (start.world.queue ref).fire)
        (bound.objectD "value" "")) := by
    rw [fires]
    exact .single (.record running start.world ref entry _)
  have told (value : String) : Steady charter (⟨ref, entry⟩ :: running) fun way => (do
      (⟨host, fire way, ref⟩ : Scene η).remark s!"Determined '{value}'."
      if (bound.object? "passively").isNone then Queue.stop host ref
      return .ok bound : RunM η (Except Fault Invocation)) :=
    .bind (Scene.remark_steady host ref _) fun _ => .when (Queue.stop_steady host ref) (.pure _)
  unfold determine
  dsimp only
  refine .queue_bind ?_
  exact .update_bind ((told _).after filed started)

theorem repeatBlock_bind {invocation bound : Invocation} {arguments rest : Arguments}
    (isBound : (repeatBlock : Command η).bind invocation arguments = .ok (bound, rest)) :
    bound.entry = invocation.entry ∧ bound.blocks = invocation.blocks := by
  unfold repeatBlock at isBound
  dsimp only at isBound
  split at isBound
  · cases isBound
  · split at isBound
    · cases isBound
    · obtain ⟨rfl, _⟩ := Prod.mk.inj (Except.ok.inj isBound)
      exact ⟨rfl, rfl⟩

theorem repeatBlock_steadies (allowed : ∀ invocation, Handed entry invocation →
      ∀ block ∈ invocation.blocks, ∀ name times, charter.terms.splice entry
        ((passes name block.entries times).map (inheritOrigin invocation.entry))) :
    (repeatBlock : Command η).Steadies charter running host fire ref entry := by
  intro invocation bound rest handed isBound
  have same := repeatBlock_bind isBound
  unfold repeatBlock
  dsimp only
  split
  · exact .pure _
  · rename_i block others blocks
    refine .bind (.stride fun world => .splice running world ref ?_) fun _ => .pure _
    rw [same.1]
    exact allowed invocation handed block (by rw [← same.2, blocks]; simp) _ _

theorem injected_bind {invocation bound : Invocation} {rest : Arguments}
    (isBound : (inject : Command η).bind invocation
      (host.argumentsOf (inject : Command η) invocation.entry) = .ok (bound, rest)) :
    bound.entry = invocation.entry ∧
      bound.objectD "script" "" = host.injectedName invocation.entry := by
  obtain ⟨rfl, _⟩ := Prod.mk.inj (Except.ok.inj isBound)
  refine ⟨rfl, ?_⟩
  rw [Invocation.objectD, Invocation.object?, Invocation.setObject, Table.get?_set]
  rfl

theorem inject_steadies (allowed : ∀ world, charter.fit world → ∀ invocation,
      Handed entry invocation → ∀ script,
      world.script? (host.injectedName invocation.entry) = some script →
      charter.terms.splice entry (script.instantiate entry.fire)) :
    (inject : Command η).Steadies charter running host fire ref entry := by
  intro invocation bound rest handed isBound
  obtain ⟨sameEntry, named⟩ := injected_bind isBound
  unfold inject
  dsimp only
  rw [named, sameEntry]
  refine .world_bind fun world fit => ?_
  cases found : world.script? (host.injectedName invocation.entry) with
  | none => exact .pure _
  | some script =>
      refine .bind (.stride fun later => .splice running later ref ?_) fun _ =>
        .bind (Scene.remark_steady host ref _) fun _ => .pure _
      rw [handed.fire_eq]
      exact allowed world fit invocation handed script found

theorem run_steadies (fires : ∀ name options, Steady charter (⟨ref, entry⟩ :: running) fun way =>
      fire way ⟨.named name, options⟩) :
    (run : Command η).Steadies charter running host fire ref entry := by
  intro invocation bound rest _ _
  unfold run
  dsimp only
  refine .when (.adjust fun _ => ⟨rfl, rfl, rfl⟩) ?_
  refine .bind (fires _ _) fun outcome => ?_
  split
  · exact .when (.release ref) (.pure _)
  · exact .when (.bind (.jot _) fun _ => Queue.atEnd_steady _ _)
      (.bind (Scene.remark_steady host ref _) fun _ => .pure _)

theorem steadies_or_brings {command : Command η} (known : command ∈ builtins) :
    command.Steadies charter running host fire ref entry ∨
      command = inject ∨ command = repeatBlock ∨ command = run := by
  simp only [builtins, List.mem_cons, List.not_mem_nil, or_false] at known
  rcases known with rfl | rfl | rfl | rfl | rfl | rfl | rfl | rfl | rfl
  · exact .inl debug_steadies
  · exact .inl define_steadies
  · exact .inl determine_steadies
  · exact .inr (.inl rfl)
  · exact .inl queue_steadies
  · exact .inr (.inr (.inl rfl))
  · exact .inr (.inr (.inr rfl))
  · exact .inl stop_steadies
  · exact .inl wait_steadies

theorem Harmless.steadies {command : Command η} (harmless : command.Harmless) :
    command.Steadies charter running host fire ref entry := by
  intro invocation bound rest _ _
  obtain ⟨answer, aloof, same⟩ := harmless.execute host ref bound
  simp only [same]
  exact .updateGet fun world => .single (.aside (aloof world).aside)

end Command

namespace Engine

theorem substituteArgument_steady (engine : Engine η) (queue : Queue) (entry : Entry)
    (template : Template) :
    Steady charter running fun _ => engine.substituteArgument queue entry template :=
  .ite (.pure _) (.bind (.forM (fun _ => engine.host.error_steady _ _) _) fun _ => .pure _)

theorem substituteDefinitions_steady (engine : Engine η) (queue : Queue) (entry : Entry) :
    Steady charter running fun _ => engine.substituteDefinitions queue entry :=
  .ite (.pure _) (.bind (.mapM (engine.substituteArgument_steady queue entry) _) fun _ => .pure _)

theorem fillEntry_steady (regular : engine.Regular free)
    (answers : charter.Answers running free fun way => callProcedure (fire way)) (ref : QueueRef)
    (entry : Entry) :
    Steady charter running fun way => engine.fillEntry (fire way) ref entry := by
  refine .queue_bind fun queue => .when (.emit _) ?_
  refine .bind (engine.substituteDefinitions_steady queue entry) fun entry => ?_
  refine .bind (engine.context_steady _ _) fun context => ?_
  exact .bind (fillArguments_steady regular answers context _) fun _ => .bind (.jot _) fun _ =>
    .pure _

theorem offer_steady (engine : Engine η) (entry : Entry) (arguments : Arguments) :
    Steady charter running fun _ => arguments.offer (engine.offerToHost entry) := by
  refine .bind ?_ fun _ => .pure _
  have offered (word value : String) :
      Steady charter running fun _ => engine.offerToHost entry word value :=
    .when (.emit _) (.pure _)
  induction arguments.positional with
  | nil => exact .pure _
  | cons argument rest ih =>
      unfold Arguments.unclaimed
      split
      · exact .bind ih fun _ => .pure _
      · exact .bind (offered _ _) fun _ => .bind ih fun _ => .pure _

theorem offer_gives (engine : Engine η) (entry : Entry) (arguments : Arguments) :
    Tag.EvalM.Gives (arguments.offer (engine.offerToHost entry))
      (· = engine.host.unclaimed entry arguments) := by
  have offered (word value : String) : Tag.EvalM.Gives (engine.offerToHost entry word value)
      (· = engine.host.claims entry word value) := .when (.pure rfl)
  have kept (items : List Argument) :
      Tag.EvalM.Gives (Arguments.unclaimed (engine.offerToHost entry) items)
        (· = items.filter (!engine.host.claimed entry ·)) := by
    induction items with
    | nil => exact .pure rfl
    | cons argument rest ih =>
        unfold Arguments.unclaimed
        split
        · rename_i uncut
          have free : engine.host.claimed entry argument = false := by rw [Host.claimed, uncut]
          exact .bind ih fun others same => .pure (by simp [free, same])
        · rename_i word value cut
          have claimed : engine.host.claimed entry argument =
              engine.host.claims entry word value := by rw [Host.claimed, cut]
          refine .bind (offered word value) fun answer told => .bind ih fun others same => .pure ?_
          rw [List.filter_cons, claimed, ← told, same]
          cases answer <;> rfl
  exact .bind (kept arguments.positional) fun positional same => .pure (by rw [same]; rfl)

variable {ref : QueueRef} {entry : Entry}

theorem runCommand_steady {command : Command η}
    (steadies : command.Steadies charter running engine.host fire ref entry)
    {invocation : Invocation} (handed : Handed entry invocation) (saveName : Option String) :
    Steady charter (⟨ref, entry⟩ :: running) fun way =>
      engine.runCommand (fire way) ref command invocation
        (engine.host.argumentsOf command invocation.entry) saveName := by
  unfold runCommand
  dsimp only
  split
  · exact .bind (engine.host.error_steady _ _) fun _ => .pure _
  · rename_i bound rest isBound
    have executed := steadies invocation bound rest handed isBound
    refine .when (.log _ _) (.bind executed fun outcome => ?_)
    cases outcome with
    | error fault => exact .bind (engine.host.error_steady _ _) fun _ => .pure _
    | ok finished =>
        refine .bind (.forM_option (fun name => ?_) saveName) fun _ => .pure _
        exact .adjust fun _ => ⟨rfl, rfl, rfl⟩

theorem invoke_steady {command : Command η}
    (steadies : command.Steadies charter running engine.host fire ref entry)
    {invocation : Invocation} (handed : Handed entry invocation) :
    Steady charter (⟨ref, entry⟩ :: running) fun way =>
      engine.invoke (fire way) ref command invocation := by
  refine .bind_knowing (engine.offer_steady _ _) (fun _ => engine.offer_gives _ _) ?_
  rintro _ rfl
  refine .ite (.bind (engine.host.error_steady _ _) fun _ => .pure _) ?_
  exact .when (.log _ _) (runCommand_steady steadies handed _)

theorem executeEntry_steady (regular : engine.Regular free)
    (answers : charter.Answers (⟨ref, entry⟩ :: running) free fun way => callProcedure (fire way))
    (steadies : ∀ command ∈ engine.commands.find? entry.command,
      command.Steadies charter running engine.host fire ref entry) :
    Steady charter (⟨ref, entry⟩ :: running) fun way =>
      engine.executeEntry (fire way) ref entry := by
  simp only [executeEntry_eq]
  refine .bind_knowing (fillEntry_steady regular answers ref entry)
    (fun way => engine.fillEntry_filled (fire way) ref entry) fun ready known => ?_
  obtain ⟨⟨arguments, same⟩, filled⟩ := known
  unfold dispatch
  rw [same]
  split
  · exact .bind (engine.host.error_steady _ _) fun _ => .pure _
  · rename_i command found
    split
    · exact .bind (engine.host.error_steady _ _) fun _ => .pure _
    · rename_i blocks built
      exact invoke_steady (steadies command found) ⟨rfl, filled, built⟩

end Engine

end

end TagScript
