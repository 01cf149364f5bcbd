import TagScript.Proofs.Engine.DrainEnds

/-! In a tame world every call to the engine returns. Budgets only have to be large enough, and however
large they are, the engine does the same. Calls of procedures stand in one another no deeper than the
limit: firing that deep is enough. -/

namespace TagScript

variable {η μ : Type}

open Filter (Tendsto atTop)
open Tag (Regime Yields)

namespace Tag

def Regime.ample : Regime (Nat × Bool) := ⟨atTop ×ˢ ⊤, inferInstance, true⟩

theorem Yields.along {α σ : Type} {regime : Regime μ} {act : μ → EvalM σ α}
    {start : Evaluation σ} {after : α → Evaluation σ → Prop} {shift : μ → μ}
    (yields : Yields regime act start after) (tends : Tendsto shift regime.among regime.among) :
    Yields regime (fun way => act (shift way)) start after := by
  obtain ⟨outcome, runs, holds⟩ := yields
  exact ⟨outcome, tends.eventually runs, holds⟩

end Tag

namespace Engine

/-- Firing scripts where calls can stand in one another only so deep. What goes deeper outruns its
budget. -/
def fireNested (engine : Engine η) (budget : Nat) : Nat → Firing η
  | 0 => fun _ => RunM.outOfBudget
  | depth + 1 => engine.fireWith (fireNested engine budget depth) budget

def fireTo (engine : Engine η) (depth : Nat) (way : Nat × Bool) : Firing η :=
  if way.2 then engine.fireNested way.1 depth else engine.fire way.1

def handlersTo (engine : Engine η) (depth : Nat) (way : Nat × Bool) :
    Scheduler.Handlers (RunM η) QueueRef AsyncWork :=
  engine.handlersWith (engine.fireTo depth way) way.1

def inward (way : Nat × Bool) : Nat × Bool := (if way.2 then way.1 else way.1 - 1, way.2)

theorem fireTo_succ (engine : Engine η) (depth : Nat) {way : Nat × Bool} (enough : 1 ≤ way.1) :
    engine.fireTo (depth + 1) way = engine.fireWith (engine.fireTo depth (inward way)) (inward way).1 := by
  obtain ⟨budget, nested⟩ := way
  cases nested with
  | true => rfl
  | false =>
      cases budget with
      | zero => exact absurd enough (by decide)
      | succ budget => rfl

theorem budgets_grow : Tendsto Prod.fst Regime.ample.among atTop := Filter.tendsto_fst

theorem inward_tends : Tendsto inward Regime.ample.among Regime.ample.among := by
  refine .prodMk ?_ Filter.tendsto_top
  refine Filter.tendsto_atTop_mono (fun way => ?_) ((Filter.tendsto_sub_atTop_nat 1).comp budgets_grow)
  dsimp only [Function.comp]
  split <;> omega

theorem eventually_enough : ∀ᶠ way in Regime.ample.among, 1 ≤ way.1 :=
  budgets_grow.eventually_ge_atTop 1

section

variable {engine : Engine η} {library : Script → Prop} {running : List Running} {entry : Entry}

theorem Ends.steadies (regular : engine.Regular false) (ends : engine.Ends library entry)
    {terminating : engine.Terminating library} {regime : Regime μ} {calls : Nat}
    {fire : μ → Firing η} {ref : QueueRef} :
    ∀ command ∈ engine.commands.find? entry.command,
      command.Steadies (.tame terminating regime calls) running engine.host fire ref entry := by
  intro command found
  have found : engine.commands.find? entry.command = some command := found
  obtain ⟨runs, inside⟩ := ends
  have begotten {child : Entry} (begets : engine.Begets library entry child) :
      engine.Ends library child ∧ engine.rank library child < engine.rank library entry :=
    ⟨inside child begets, rank_lt (.intro runs inside) begets⟩
  rcases regular.commands _ command found with known | harmless
  · rcases Command.steadies_or_brings known with steadies | rfl | rfl | rfl
    · exact steadies
    · refine Command.inject_steadies fun world fit invocation handed script known item member => ?_
      obtain ⟨source, listed, rfl⟩ := List.mem_map.1 member
      have granted := fit.1.script known
      refine begotten (.inject found ?_ handed.filled granted.1 granted.2 listed ⟨rfl, rfl⟩)
      rw [handed.same]
    · refine Command.repeatBlock_steadies fun invocation handed block known name times item member => ?_
      obtain ⟨source, made, rfl⟩ := List.mem_map.1 member
      obtain ⟨index, _, passed⟩ := List.mem_flatMap.1 made
      rcases List.mem_cons.1 passed with rfl | inBlock
      · exact begotten (.counter found ⟨rfl, rfl⟩)
      · exact begotten (.pass found handed.filled handed.blocks known inBlock ⟨rfl, rfl⟩)
    · exact absurd found runs
  · exact harmless.steadies

theorem executes_tame (regular : engine.Regular false) {terminating : engine.Terminating library}
    {regime : Regime μ} {calls : Nat} {fire : μ → Firing η}
    (answers : ∀ running, (Charter.tame terminating regime calls).Answers running false fun way =>
      callProcedure (fire way)) :
    Executes (.tame terminating regime calls) engine fire running :=
  fun _ _ _ _ fit taken => executeEntry_steady regular (answers _)
    ((fit.1.ends taken).steadies regular)

end

/-! With every counted call the limit is nearer, and firing may be one level shallower. -/

section

variable {engine : Engine η} {library : Script → Prop} (terminating : engine.Terminating library)

abbrev plenty (depth : Nat) : Charter η (Nat × Bool) := .tame terminating .ample (depth + 1)

def Answering (engine : Engine η) (terminating : engine.Terminating library) (depth : Nat) : Prop :=
  ∀ running, (plenty terminating depth).Answers running false fun way =>
    callProcedure (engine.fireTo depth way)

variable {terminating} (regular : engine.Regular false) {depth : Nat}
  (answers : engine.Answering terminating depth)

include regular answers

theorem startQueue_tame (running : List Running) (ref : QueueRef) :
    Steady (plenty terminating depth) running fun way =>
      engine.startQueue (engine.fireTo depth way) way.1 ref :=
  startQueue_steady (executes_tame regular answers) Prod.fst
    (drains_tame (executes_tame regular answers) ref budgets_grow)

theorem revolve_tame (running : List Running) (ref : QueueRef) :
    Steady (plenty terminating depth) running fun way =>
      engine.revolve (engine.fireTo depth way) way.1 ref :=
  revolve_steady (executes_tame regular answers) Prod.fst
    (drains_tame (executes_tame regular answers) ref budgets_grow)

theorem fire_tame {running : List Running} {request : FireRequest}
    {start : Tag.Evaluation (World η)} (started : (plenty terminating depth).fit start.world)
    (granted : ∀ script, findScript request.source start.world = .ok script → library script)
    (joins : running = [] ∨ request.options.id = none) :
    Yields .ample (fun way => engine.fireTo (depth + 1) way request) start fun answer later =>
      Fired (engine.descent library) running start.world answer later.world := by
  have fires : Yields (plenty terminating depth).regime
      (fun way => engine.fireWith (engine.fireTo depth way) way.1 request) start fun answer later =>
        Fired (engine.descent library) running start.world answer later.world :=
    fireWith_yields Prod.fst (startQueue_tame regular answers running) started granted (.inr joins)
  refine .congr (fires.along inward_tends) (eventually_enough.mono fun way enough => ?_)
  rw [engine.fireTo_succ depth enough]

theorem settle_tame :
    Attends (plenty terminating depth) fun way =>
      settleBy (engine.handlersTo depth way) way.1 := by
  -- The jobs of the pool become fewer, and the budget for them is counted apart from the other.
  suffices settles : ∀ (count : Nat) (jobs : Nat × Bool → Nat), Tendsto jobs Regime.ample.among atTop →
      ∀ start : Tag.Evaluation (World η), start.world.scheduler.jobs.length = count →
      (plenty terminating depth).fit start.world →
      Yields .ample (fun way => settleBy (engine.handlersTo depth way) (jobs way)) start
        fun _ later => Errands (engine.descent library) start.world later.world from
    fun start started => settles _ Prod.fst budgets_grow start rfl started
  intro count
  induction count using Nat.strongRecOn with
  | ind count ih =>
      intro jobs grows start same started
      have turns : ∀ᶠ way in Regime.ample.among,
          (settleBy (engine.handlersTo depth way) (jobs way)).run start =
            (settleOnce (engine.handlersTo depth way)
              (settleBy (engine.handlersTo depth way) (jobs way - 1))).run start := by
        refine (grows.eventually_ge_atTop 1).mono fun way enough => ?_
        rw [← Nat.sub_add_cancel enough]
        rfl
      refine .congr (settleOnce_yields (revolve_tame regular answers []) started
        fun later errands fewer => ?_) turns
      have fit := (plenty terminating depth).errands errands started
      exact (ih _ (same ▸ fewer) _ ((Filter.tendsto_sub_atTop_nat 1).comp grows) later rfl
        fit).weaken fun _ _ last => errands.trans last

omit answers in
theorem answering (depth : Nat) : engine.Answering terminating depth := by
  induction depth with
  | zero =>
      refine fun running => ⟨fun isFree => absurd isFree Bool.false_ne_true, ?_⟩
      intro procedure start fit few
      have deep := fit.2
      omega
  | succ depth ih =>
      refine fun running => ⟨fun isFree => absurd isFree Bool.false_ne_true, ?_⟩
      intro procedure start fit few
      have counted : (plenty terminating depth).fit { start.world with calls := start.world.calls + 1 } :=
        ⟨⟨fit.1.live, fit.1.scripts, fit.1.waiting⟩, by have := fit.2; dsimp only; omega⟩
      refine .bind (fire_tame regular ih counted ?_ (.inr rfl)) fun _ _ fired => .pure fired.passage
      exact fun script found => findScript_granted counted found

end

/-! What is true of all ways that count is true of large budgets, in both ways of firing. -/

theorem eventually_budget {holds : Nat × Bool → Prop} (often : ∀ᶠ way in Regime.ample.among, holds way)
    (nested : Bool) : ∀ᶠ budget in atTop, holds (budget, nested) :=
  (Tendsto.prodMk Filter.tendsto_id Filter.tendsto_top).eventually often

section

variable {engine : Engine η} {library : Script → Prop} (terminating : engine.Terminating library)
  (regular : engine.Regular false)

include terminating regular

theorem commands_tame {regime : Regime μ} {calls : Nat} :
    engine.Commands (.tame terminating regime calls) :=
  fun _ _ _ _ _ _ _ fit taken => (fit.1.ends taken).steadies regular

/-- A counted call returns once budgets are large enough, and then no call is counted that was not
before. With the calls that are under way already, it leads no deeper than the limit. -/
theorem callCounted_returns {state : Tag.Evaluation (World η)} (tame : engine.Tame library state.world)
    (few : state.world.calls ≤ Vocabulary.callLimit) (fill : String → RunM η String)
    (lookup : Tag.Lookup) (procedure : Tag.Procedure) (memo : Tag.Memo) :
    ∃ answer later,
      (∀ᶠ budget in atTop, (Tag.ask (engine.vocabulary (engine.fire budget)) fill lookup
        (Vocabulary.callCounted procedure) memo).run state = some (answer, later)) ∧
      (∀ᶠ budget in atTop, (Tag.ask (engine.vocabulary
        (engine.fireNested budget (Vocabulary.callLimit - state.world.calls))) fill lookup
        (Vocabulary.callCounted procedure) memo).run state = some (answer, later)) ∧
      later.world.calls = state.world.calls ∧ engine.Tame library later.world := by
  let depth := Vocabulary.callLimit - state.world.calls
  have fit : (plenty terminating depth).fit state.world := ⟨tame, by omega⟩
  have called := callCounted_steady (answering regular depth [])
    (engine.vocabulary fun _ => RunM.outOfBudget) (fun _ => fill) lookup procedure memo state fit
  obtain ⟨answer, later, ran, passage⟩ := called.returns rfl
  refine ⟨answer, later, eventually_budget ran false, eventually_budget ran true, passage.calls_eq,
    tame.passed terminating passage⟩

theorem call_returns {state : Tag.Evaluation (World η)} (tame : engine.Tame library state.world)
    {call : HostCall} (native : call.placesEntries = false)
    (granted : ∀ script ∈ call.script?, library script) :
    ∃ finish,
      (∀ᶠ budget in atTop, (call.run engine budget).run state = some ((), finish)) ∧
      (∀ᶠ budget in atTop, (call.runBy engine
        (engine.fireNested budget (Vocabulary.callLimit + 1))
        (engine.fireNested budget Vocabulary.callLimit) budget).run state = some ((), finish)) ∧
      Errands (engine.descent library) state.world finish.world := by
  have fit : (plenty terminating Vocabulary.callLimit).fit state.world := ⟨tame, by omega⟩
  have answers : engine.Answering terminating Vocabulary.callLimit := answering regular _
  have attends := HostCall.runBy_attends regular
    (fun _ _ started allowed => fire_tame regular answers started allowed (.inl rfl))
    (answers []) (startQueue_tame regular answers []) (revolve_tame regular answers [])
    (settle_tame regular answers) native granted
  obtain ⟨_, finish, ran, errands⟩ := (attends state fit).returns rfl
  refine ⟨finish, ?_, eventually_budget ran true, errands⟩
  refine (eventually_budget ran false).mono fun budget same => ?_
  rw [call.run_eq engine budget]
  exact same

theorem tame_of_runs {host : η} {calls : List HostCall} {state : Tag.Evaluation (World η)}
    (ran : engine.Runs calls (engine.start host) state)
    (native : ∀ call ∈ calls, call.placesEntries = false)
    (granted : ∀ call ∈ calls, ∀ script ∈ call.script?, library script) :
    engine.Tame library state.world ∧ state.world.calls = 0 := by
  let charter : Charter η Unit := .tame terminating .single (Vocabulary.callLimit + 1)
  have fit : charter.fit (engine.start host).world := ⟨.start engine library host, by omega⟩
  have errands : Errands charter.terms (engine.start host).world state.world :=
    ran.errands rfl regular (commands_tame terminating regular) native granted fit
  exact ⟨(charter.errands errands fit).1, errands.calls_eq⟩

end

end Engine

end TagScript
