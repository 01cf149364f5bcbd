import TagScript.Proofs.Engine.Parts
import TagScript.Proofs.Outcome.Determination
import TagScript.Runner.Session

/-! What the runner tells of determinations at the end of a run. -/

namespace TagScript

theorem Command.narrate_harmless {η : Type} : (narrate : Command η).Harmless where
  background := rfl
  execute := fun _ ref invocation =>
    ⟨fun world => (.ok invocation, world.emit (narrateEvent (world.queue ref).id
      (invocation.objectD "text" ""))), fun world => World.emit_aloof _ world, fun _ => rfl⟩

namespace Runner

open Tag (Regime Yields)

theorem engineFor_regular {host : Host} {engine : Engine Unit} (free : Bool)
    (built : engineFor host = .ok engine) : engine.Regular free := by
  refine EngineParts.build_regular (fun command member => ?_) ?_ ?_ built
  · rcases List.mem_append.1 member with known | last
    · exact .inl known
    · obtain rfl := List.mem_singleton.1 last
      exact .inr Command.narrate_harmless
  · exact Vocabulary.resolvers_plain free
  · exact Vocabulary.attributes_plain free true

section

variable {η μ : Type} {charter : Charter η μ} {engine : Engine η} {free : Bool}
  (lenient : charter.regime.strict = false) (regular : engine.Regular free)
  (commands : engine.Commands charter)

include lenient regular commands

theorem turn_attends (budget : Nat) (elapsed : Duration) (interrupted : Bool) :
    Attends charter fun _ => turn engine budget elapsed interrupted := by
  refine .world_bind fun world => .ite (.pure _) (.ite ?_ ?_)
  · refine .bind (.world_bind fun world => ?_) fun _ => .pure _
    exact .bind (.log _ _) fun _ => engine.shutdown_attends
  · exact .bind (Engine.tick_within lenient regular commands budget elapsed) fun _ => .pure _

theorem drive_attends (budget : Nat) (rate : Duration) (isInterrupted : World η → Bool)
    (turns : Nat) (elapsed : Duration) :
    Attends charter fun _ => drive engine budget rate isInterrupted turns elapsed := by
  induction turns generalizing elapsed with
  | zero => exact (Steady.outOfBudget lenient).attends
  | succ turns ih =>
      refine .world_bind fun world => .bind (turn_attends lenient regular commands budget _ _) ?_
      intro ending
      cases ending with
      | some ending => exact .pure _
      | none => exact ih rate

end

theorem run_bind_ok {ε σ α β : Type} {act : ExceptT ε (StateM σ) α}
    {next : α → ExceptT ε (StateM σ) β} {state later : σ} {result : β}
    (ran : (act >>= next).run.run state = (.ok result, later)) :
    ∃ first between, act.run.run state = (.ok first, between) ∧
      (next first).run.run between = (.ok result, later) := by
  rw [ExceptT.run_bind, StateT.run_bind] at ran
  generalize done : act.run.run state = outcome at ran
  obtain ⟨answer, between⟩ := outcome
  cases answer with
  | error error => cases ran
  | ok first => exact ⟨first, between, rfl, ran⟩

theorem Plan.make_engine {files : FileAccess (StateM FileTable)} {standardPath : Option String}
    {options : Options} {table later : FileTable} {plan : Plan}
    (made : (Plan.make files standardPath options).run.run table = (.ok plan, later)) :
    ∃ host, engineFor host = .ok plan.engine := by
  unfold Plan.make at made
  split at made
  · obtain ⟨config, _, _, made⟩ := run_bind_ok made
    obtain ⟨engine, _, built, made⟩ := run_bind_ok made
    obtain ⟨script, _, _, made⟩ := run_bind_ok made
    obtain ⟨fired, _, _, made⟩ := run_bind_ok made
    obtain rfl := Except.ok.inj (Prod.mk.inj made).1
    refine ⟨config.host, ?_⟩
    have same := (Prod.mk.inj built).1
    cases found : engineFor config.host with
    | error error =>
        rw [found] at same
        cases same
    | ok other =>
        rw [found] at same
        obtain rfl := Except.ok.inj same
        rfl
  · cases made

theorem Plan.fire_run {plan : Plan} {budget : Nat} {start begun : Tag.Evaluation (World Unit)}
    {fired : FireResult} (ran : (plan.fire budget).run start = some (.ok fired, begun)) :
    ∃ later, (plan.engine.fire budget ⟨.inline plan.script, plan.options⟩).run start =
        some (.ok fired, later) ∧
      begun.world = later.world.log .info s!"Started queue '{fired.queueId}'." := by
  obtain ⟨answer, later, first, rest⟩ := Tag.EvalM.run_bind_eq_some.1 ran
  cases answer with
  | error error => cases rest
  | ok result =>
      obtain ⟨same, rfl⟩ := Prod.mk.inj (Option.some.inj rest)
      obtain rfl := Except.ok.inj same
      exact ⟨later, first, rfl⟩

theorem finalOutcome_run (fired : FireResult) (state : Tag.Evaluation (World Unit)) :
    ∃ outcomes, (finalOutcome fired).run state =
      some (fired.outcome <|> state.world.outcomes.get? fired.fire,
        { state with world := { state.world with outcomes } }) := by
  unfold finalOutcome
  cases fired.outcome with
  | some values => exact ⟨state.world.outcomes, rfl⟩
  | none => exact ⟨_, rfl⟩

section

variable {arguments : List String} {standardPath interruptAt : Option String} {budget : Nat}
  {files written : FileTable} {options : Options} {plan : Plan} {fired : FireResult} {ending : RunEnd}
  {begun ended : Tag.Evaluation (World Unit)}
  (starts : (plan.fire budget).run (plan.engine.start ()) = some (.ok fired, begun))
  (ends : (drive plan.engine budget plan.rate (fun world => interruptAt.any (hasSaid · world))
    budget .zero).run begun = some (ending, ended))

include starts ends

theorem session_run (asked : parseArguments arguments = .ok options)
    (made : (Plan.make FileTable.access standardPath options).run.run files = (.ok plan, written)) :
    (session arguments standardPath interruptAt budget).run files =
      (some (.ofEvents ended.world.events.reverse ending
        (fired.outcome <|> ended.world.outcomes.get? fired.fire)), written) := by
  obtain ⟨outcomes, told⟩ := finalOutcome_run fired ended
  have ran : (plan.run budget interruptAt).run (plan.engine.start ()) =
      some (.ofEvents ended.world.events.reverse ending
        (fired.outcome <|> ended.world.outcomes.get? fired.fire),
        { ended with world := { ended.world with outcomes } }) := by
    refine Tag.EvalM.run_bind_eq_some.2 ⟨_, _, starts, ?_⟩
    refine Tag.EvalM.run_bind_eq_some.2 ⟨_, _, ends, ?_⟩
    exact Tag.EvalM.run_bind_eq_some.2 ⟨_, _, told, rfl⟩
  unfold session
  rw [asked]
  dsimp only
  rw [StateT.run_bind]
  have same : StateT.run (Plan.make FileTable.access standardPath options) files =
      (.ok plan, written) := made
  rw [same]
  change (((plan.run budget interruptAt).run (plan.engine.start ())).map (·.1), written) = _
  rw [ran]
  rfl

theorem told_of_run (regular : plan.engine.Regular true)
    (kept : .dropped fired.fire ∉ ended.world.marks) :
    fired.outcome = listed (begun.world.determinedBy fired.fire) ∧
      (fired.outcome = none →
        ended.world.outcomes.get? fired.fire = listed (ended.world.determinedBy fired.fire)) := by
  have lenient : (Charter.faithful : Charter Unit Unit).regime.strict = false := rfl
  have inherit {entry : Entry} {entries : List Entry} (allowed : Terms.faithful.splice entry entries) :
      ∀ item ∈ entries, item.fire = entry.fire := allowed
  have started : (Charter.faithful : Charter Unit Unit).fit (plan.engine.start ()).world :=
    fun _ member => absurd member List.not_mem_nil
  obtain ⟨later, ran, logged⟩ := Plan.fire_run starts
  have fires := (Engine.fire_fired lenient regular regular.faithful budget started
    fun _ _ => trivial).ran ran
  have logs : Passage Terms.faithful [] later.world begun.world := by
    rw [logged]
    exact .single (.aside (World.emit_aloof _ _).aside)
  have reached := Charter.faithful.passes (fires.passage.trans logs) started
  have errands := (drive_attends lenient regular regular.faithful budget _ _ _ _ _ reached).ran ends
  have attributed := Attributed.start plan.engine ()
  have fired_attributed := (Accounts.of_passage inherit fires.passage attributed).attributed
  have noted := Accounts.of_passage inherit logs fired_attributed
  have rest := Accounts.of_errands inherit errands noted.attributed
  have kept_before : .dropped fired.fire ∉ later.world.marks := fun dropped =>
    kept (rest.marks (noted.marks dropped))
  obtain ⟨_, outcome, _, stopped, goes⟩ := fires.accounts attributed kept_before
  have filed : later.world.filedUnder fired.fire = begun.world.filedUnder fired.fire := by
    rw [logged]
    rfl
  rw [← noted.attributed.filedUnder_eq, ← rest.attributed.filedUnder_eq]
  refine ⟨by rw [outcome, filed], fun nothing => ?_⟩
  cases ended_early : (later.world.queue fired.queue).isStopped with
  | true =>
      obtain ⟨still, sameNoted⟩ := noted.spent _ (stopped ended_early)
      obtain ⟨gone, sameRest⟩ := rest.spent _ still
      rw [gone.gone, sameRest, sameNoted, ← outcome, nothing]
  | false =>
      obtain ⟨holds, known⟩ := goes ended_early
      have kept_noted : .dropped fired.fire ∉ begun.world.marks := fun dropped =>
        kept (rest.marks dropped)
      exact rest.holds _ (Nat.lt_of_lt_of_le known noted.fires) kept
        (noted.holds _ known kept_noted holds)

end

/-- A session whose run ends by itself tells of all determinations of its script exactly if none was
made before the firing returned or none after. -/
theorem session_reports_all_iff {arguments : List String} {standardPath interruptAt : Option String}
    {budget : Nat} {files written : FileTable} {options : Options} {plan : Plan}
    {fired : FireResult} {begun ended : Tag.Evaluation (World Unit)}
    (asked : parseArguments arguments = .ok options)
    (made : (Plan.make FileTable.access standardPath options).run.run files = (.ok plan, written))
    (starts : (plan.fire budget).run (plan.engine.start ()) = some (.ok fired, begun))
    (idles : (drive plan.engine budget plan.rate (fun world => interruptAt.any (hasSaid · world))
      budget .zero).run begun = some (.idle, ended))
    (kept : .dropped fired.fire ∉ ended.world.marks) :
    ∃ printed, (session arguments standardPath interruptAt budget).run files =
        (some (.ofEvents ended.world.events.reverse .idle (listed printed)), written) ∧
      (printed = ended.world.determinedBy fired.fire ↔
        fired.outcome = none ∨
          ended.world.determinedBy fired.fire = begun.world.determinedBy fired.fire) := by
  obtain ⟨host, built⟩ := Plan.make_engine made
  obtain ⟨early, late⟩ := told_of_run starts idles (engineFor_regular true built) kept
  rw [session_run starts idles asked made]
  cases outcome : fired.outcome with
  | some values =>
      refine ⟨begun.world.determinedBy fired.fire, ?_, ?_⟩
      · rw [← early, outcome]
        rfl
      · simp [eq_comm]
  | none =>
      refine ⟨ended.world.determinedBy fired.fire, ?_, by simp⟩
      rw [← late outcome]
      rfl

/-- How a session went whose run ended by itself. -/
structure SessionRun where
  plan : Plan
  fired : FireResult
  begun : Tag.Evaluation (World Unit)
  ended : Tag.Evaluation (World Unit)

def sessionRun? (arguments : List String) (standardPath interruptAt : Option String) (budget : Nat)
    (files : FileTable) : Option SessionRun := do
  let options ← (parseArguments arguments).toOption
  let plan ← ((Plan.make FileTable.access standardPath options).run.run files).1.toOption
  let (answer, begun) ← (plan.fire budget).run (plan.engine.start ())
  let fired ← answer.toOption
  let (ending, ended) ← (drive plan.engine budget plan.rate
    (fun world => interruptAt.any (hasSaid · world)) budget .zero).run begun
  if ending = .idle then some ⟨plan, fired, begun, ended⟩ else none

theorem sessionRun?_eq_some {arguments : List String} {standardPath interruptAt : Option String}
    {budget : Nat} {files : FileTable} {run : SessionRun}
    (goes : sessionRun? arguments standardPath interruptAt budget files = some run) :
    ∃ options written, parseArguments arguments = .ok options ∧
      (Plan.make FileTable.access standardPath options).run.run files = (.ok run.plan, written) ∧
      (run.plan.fire budget).run (run.plan.engine.start ()) = some (.ok run.fired, run.begun) ∧
      (drive run.plan.engine budget run.plan.rate (fun world => interruptAt.any (hasSaid · world))
        budget .zero).run run.begun = some (.idle, run.ended) := by
  have known {ε α : Type} {answer : Except ε α} {result : α}
      (same : answer.toOption = some result) : answer = .ok result := by
    cases answer <;> simp_all [Except.toOption]
  obtain ⟨options, asked, goes⟩ := Option.bind_eq_some_iff.1 goes
  obtain ⟨found, made, goes⟩ := Option.bind_eq_some_iff.1 goes
  obtain ⟨⟨answer, first⟩, starts, goes⟩ := Option.bind_eq_some_iff.1 goes
  obtain ⟨result, answered, goes⟩ := Option.bind_eq_some_iff.1 goes
  obtain ⟨⟨ending, last⟩, ends, goes⟩ := Option.bind_eq_some_iff.1 goes
  dsimp only at goes
  split at goes
  · rename_i idle
    cases goes
    subst idle
    rw [known answered] at starts
    exact ⟨options, _, known asked, Prod.ext (known made) rfl, starts, ends⟩
  · cases goes

/-- A script that determines once before it waits and once after. -/
theorem session_hides_later_determination :
    let files := FileTable.ofPairs [("a.tsc", "determine passively a\nwait 1t\ndetermine b")]
    ∃ run report, sessionRun? ["a.tsc"] (some "tessera.toml") none 6 files = some run ∧
      .dropped run.fired.fire ∉ run.ended.world.marks ∧
      run.ended.world.determinedBy run.fired.fire = ["a", "b"] ∧
      ((session ["a.tsc"] (some "tessera.toml") none 6).run files).1 = some report ∧
      report.output = "determined: a\n" := by
  intro files
  have goes : ((sessionRun? ["a.tsc"] (some "tessera.toml") none 6 files).map fun run =>
      (decide (.dropped run.fired.fire ∉ run.ended.world.marks),
        run.ended.world.determinedBy run.fired.fire, run.fired.outcome,
        run.ended.world.events.reverse.filterMap outputLine?)) =
      some (true, ["a", "b"], some ["a"], []) := by
    decide +kernel
  obtain ⟨run, goes, told⟩ := Option.map_eq_some_iff.1 goes
  obtain ⟨kept, told⟩ := Prod.mk.inj told
  obtain ⟨all, told⟩ := Prod.mk.inj told
  obtain ⟨outcome, said⟩ := Prod.mk.inj told
  obtain ⟨options, written, asked, made, starts, ends⟩ := sessionRun?_eq_some goes
  have report := session_run starts ends asked made
  refine ⟨run, _, goes, of_decide_eq_true kept, all, congrArg Prod.fst report, ?_⟩
  have lines : Report.lines (outcomeLines (some ["a"])) = "determined: a\n" := by decide
  rw [outcome, Report.ofEvents, said]
  exact lines

theorem session_reports_all_iff_wait_first :
    let files := FileTable.ofPairs [("a.tsc", "wait 1t\ndetermine passively a\ndetermine b")]
    ∃ run, sessionRun? ["a.tsc"] (some "tessera.toml") none 6 files = some run ∧
      .dropped run.fired.fire ∉ run.ended.world.marks ∧ run.fired.outcome = none ∧
      run.begun.world.determinedBy run.fired.fire = [] ∧
      ∃ written, (session ["a.tsc"] (some "tessera.toml") none 6).run files =
        (some (.ofEvents run.ended.world.events.reverse .idle (some ["a", "b"])), written) := by
  intro files
  have goes : ((sessionRun? ["a.tsc"] (some "tessera.toml") none 6 files).map fun run =>
      (decide (.dropped run.fired.fire ∉ run.ended.world.marks), run.fired.outcome,
        run.begun.world.determinedBy run.fired.fire,
        run.ended.world.determinedBy run.fired.fire)) = some (true, none, [], ["a", "b"]) := by
    decide +kernel
  obtain ⟨run, goes, told⟩ := Option.map_eq_some_iff.1 goes
  obtain ⟨kept, outcome, early, all⟩ := by simpa using told
  obtain ⟨options, written, asked, made, starts, ends⟩ := sessionRun?_eq_some goes
  obtain ⟨printed, report, iff⟩ := session_reports_all_iff asked made starts ends kept
  rw [iff.2 (.inl outcome), all] at report
  exact ⟨run, goes, kept, outcome, early, written, report⟩

end Runner

end TagScript
