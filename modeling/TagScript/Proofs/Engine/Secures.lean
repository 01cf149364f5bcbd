import TagScript.Proofs.Engine.ExecutePassage

/-! What an act secures: where something holds of the world at its start, something holds of what it
comes to. Filling an entry keeps whatever does not depend on what was told, as long as the calls of
procedures do. -/

namespace TagScript

variable {η α β γ : Type}

open Tag (Regime Serves Yields)

def Note.isSpoken : Note → Bool
  | .filled _ _ | .message _ _ | .error _ _ => true
  | _ => false

def Note.isReport : Note → Bool
  | .message _ _ | .error _ _ => true
  | _ => false

namespace World

def Spoke (world other : World η) : Prop :=
  ∃ events spoken host, (∀ note ∈ spoken, Note.isSpoken note = true) ∧
    other = { world with events, notes := spoken ++ world.notes, host }

def Reported (world other : World η) : Prop :=
  ∃ events spoken host, (∀ note ∈ spoken, Note.isReport note = true) ∧
    other = { world with events, notes := spoken ++ world.notes, host }

theorem Reported.spoke {world other : World η} (reported : world.Reported other) :
    world.Spoke other := by
  obtain ⟨events, spoken, host, reports, rfl⟩ := reported
  refine ⟨events, spoken, host, fun note member => ?_, rfl⟩
  have report := reports note member
  cases note <;> first | rfl | cases report

theorem Spoke.refl (world : World η) : world.Spoke world :=
  ⟨world.events, [], world.host, by simp, rfl⟩

theorem Spoke.trans {world between later : World η} (first : world.Spoke between)
    (second : between.Spoke later) : world.Spoke later := by
  obtain ⟨_, spoken, _, allSpoken, rfl⟩ := first
  obtain ⟨events, more, host, moreSpoken, rfl⟩ := second
  refine ⟨events, more ++ spoken, host, fun note member => ?_, ?_⟩
  · exact (List.mem_append.1 member).elim (moreSpoken note) (allSpoken note)
  · rw [List.append_assoc]

theorem Aloof.reported {world other : World η} (aloof : world.Aloof other) :
    world.Reported other := by
  obtain ⟨events, host, rfl⟩ := aloof
  exact ⟨events, [], host, by simp, rfl⟩

theorem Aloof.spoke {world other : World η} (aloof : world.Aloof other) : world.Spoke other :=
  aloof.reported.spoke

theorem report_reported (host : Host) (queue : Option String) (text : String) (world : World η) :
    world.Reported (host.report queue text world) :=
  ⟨_, [.error queue text], world.host, by simp [Note.isReport], rfl⟩

theorem report_spoke (host : Host) (queue : Option String) (text : String) (world : World η) :
    world.Spoke (host.report queue text world) := (world.report_reported host queue text).spoke

theorem tell_reported (host : Host) (queue : Option String) (text : String) (world : World η) :
    world.Reported (host.tell queue text world) :=
  ⟨_, [.message queue text], world.host, by simp [Note.isReport], rfl⟩

theorem jot_spoke {note : Note} (spoken : note.isSpoken = true) (world : World η) :
    world.Spoke (world.jot note) :=
  ⟨world.events, [note], world.host, by simpa using spoken, rfl⟩

end World

namespace RunM

def Secures (before : World η → Prop) (act : RunM η α) (after : α → World η → Prop) : Prop :=
  ∀ start result finish, before start.world → act.run start = some (result, finish) →
    after result finish.world

namespace Secures

variable {before : World η → Prop} {act : RunM η α} {next : α → RunM η β}
  {after : α → World η → Prop} {last : β → World η → Prop}

theorem pure {result : α} (holds : ∀ world, before world → after result world) :
    Secures before (Pure.pure result) after := by
  intro start found finish started ran
  obtain ⟨rfl, rfl⟩ := Tag.EvalM.run_pure_eq_some.1 ran
  exact holds start.world started

theorem bind (first : Secures before act after)
    (rest : ∀ result, Secures (after result) (next result) last) :
    Secures before (act >>= next) last := by
  intro start result finish started ran
  obtain ⟨found, later, ranFirst, ranRest⟩ := Tag.EvalM.run_bind_eq_some.1 ran
  exact rest found later result finish (first start found later started ranFirst) ranRest

theorem weaken {stronger : World η → Prop} {weaker : α → World η → Prop}
    (secures : Secures before act after) (strong : ∀ world, stronger world → before world)
    (weak : ∀ result world, after result world → weaker result world) :
    Secures stronger act weaker :=
  fun start result finish started ran =>
    weak _ _ (secures start result finish (strong _ started) ran)

theorem and {also : α → World η → Prop} (secures : Secures before act after)
    (too : Secures before act also) :
    Secures before act fun result world => after result world ∧ also result world :=
  fun start result finish started ran =>
    ⟨secures start result finish started ran, too start result finish started ran⟩

theorem each (secures : ∀ world, before world → Secures (· = world) act after) :
    Secures before act after :=
  fun start result finish started ran => secures start.world started start result finish rfl ran

theorem of_gives {good : α → Prop} (gives : Tag.EvalM.Gives act good) :
    Secures before act fun result _ => good result :=
  fun start result finish _ ran => gives start result finish ran

theorem outOfBudget : Secures before (RunM.outOfBudget : RunM η α) after := by
  intro start result finish _ ran
  exact absurd ran (by simp [RunM.outOfBudget, StateT.run_lift])

theorem world_bind {next : World η → RunM η β} {world : World η}
    (rest : Secures (· = world) (next world) last) :
    Secures (· = world) (RunM.world >>= next) last := by
  intro start result finish started ran
  rw [RunM.world, Tag.EvalM.run_world_bind, started] at ran
  exact rest start result finish started ran

theorem queue_bind {next : Queue → RunM η β} {world : World η} {ref : QueueRef}
    (rest : Secures (· = world) (next (world.queue ref)) last) :
    Secures (· = world) (RunM.queue ref >>= next) last := by
  rw [RunM.queue, bind_assoc]
  simpa only [pure_bind] using world_bind rest

theorem now_bind {next : Duration → RunM η β} {world : World η}
    (rest : Secures (· = world) (next world.now) last) :
    Secures (· = world) (RunM.now >>= next) last := by
  rw [RunM.now, bind_assoc]
  simpa only [pure_bind] using world_bind rest

theorem update {change : World η → World η} {after : Unit → World η → Prop}
    (holds : ∀ world, before world → after () (change world)) :
    Secures before (RunM.update change) after :=
  fun start _ _ started ran => (Prod.mk.inj (Option.some.inj ran)).2 ▸ holds start.world started

theorem updateGet {change : World η → α × World η}
    (holds : ∀ world, before world → after (change world).1 (change world).2) :
    Secures before (RunM.updateGet change) after := by
  intro start result finish started ran
  obtain ⟨rfl, rfl⟩ := Prod.mk.inj (Option.some.inj ran)
  exact holds start.world started

theorem ite {test : Prop} [Decidable test] {other : RunM η α}
    (yes : test → Secures before act after) (no : ¬ test → Secures before other after) :
    Secures before (if test then act else other) after := by
  split
  · exact yes ‹_›
  · exact no ‹_›

section

variable {holds : World η → Prop}

theorem any_world_bind {next : World η → RunM η β}
    (rest : ∀ world, Secures before (next world) last) :
    Secures before (RunM.world >>= next) last :=
  .each fun world started => .world_bind ((rest world).weaken (fun _ same => same ▸ started)
    fun _ _ secured => secured)

theorem any_queue_bind {next : Queue → RunM η β} {ref : QueueRef}
    (rest : ∀ queue, Secures before (next queue) last) :
    Secures before (RunM.queue ref >>= next) last :=
  .each fun _ started => .queue_bind ((rest _).weaken (fun _ same => same ▸ started)
    fun _ _ secured => secured)

theorem any_now_bind {next : Duration → RunM η β}
    (rest : ∀ now, Secures before (next now) last) :
    Secures before (RunM.now >>= next) last := by
  rw [RunM.now, bind_assoc]
  simpa only [pure_bind] using any_world_bind fun world => rest world.now

theorem when {test : Prop} [Decidable test] {rest : RunM η β}
    (first : Secures holds act fun _ => holds) (following : Secures holds rest last) :
    Secures holds (if test then act >>= fun _ => rest else rest) last :=
  .ite (fun _ => .bind first fun _ => following) fun _ => following

theorem forM {each : α → RunM η PUnit} (items : List α)
    (keeps : ∀ item ∈ items, Secures holds (each item) fun _ => holds) :
    Secures holds (items.forM each) fun _ => holds := by
  induction items with
  | nil => exact .pure fun _ held => held
  | cons item rest ih =>
      rw [List.forM_eq_forM, List.forM_cons]
      exact .bind (keeps item List.mem_cons_self) fun _ =>
        ih fun other member => keeps other (List.mem_cons_of_mem item member)

theorem forM_option {each : α → RunM η PUnit} (item : Option α)
    (keeps : ∀ found ∈ item, Secures holds (each found) fun _ => holds) :
    Secures holds (item.forM each) fun _ => holds := by
  cases item with
  | none => exact .pure fun _ held => held
  | some found => exact keeps found rfl

theorem mapM {each : α → RunM η β}
    (keeps : ∀ item, Secures holds (each item) fun _ => holds) (items : List α) :
    Secures holds (items.mapM each) fun _ => holds := by
  induction items with
  | nil =>
      rw [List.mapM_nil]
      exact .pure fun _ held => held
  | cons item rest ih =>
      rw [List.mapM_cons]
      exact .bind (keeps item) fun _ => .bind ih fun _ => .pure fun _ held => held

theorem of_serves
    (serves : Serves Regime.single (fun state => holds state.world) fun _ => act) :
    Secures holds act fun _ => holds :=
  fun start _ _ started ran => (serves start started).ran ran

theorem serves (secures : Secures holds act fun _ => holds) :
    Serves Regime.single (fun state => holds state.world) fun _ => act := by
  intro start started
  refine ⟨act.run start, .of_forall fun _ => rfl, ?_⟩
  cases ran : act.run start with
  | none => rfl
  | some outcome => exact secures start outcome.1 outcome.2 started ran

end

end Secures

end RunM

open RunM (Secures)

theorem Engine.context_secures {calm : World η → Prop} (engine : Engine η)
    (queue : Option QueueRef) (entry : Option Entry) :
    Secures calm (engine.context queue entry) fun _ => calm :=
  .any_world_bind fun _ => .pure fun _ held => held

/-! Running a queue, act by act. -/

namespace Engine

theorem takeStep_secures {before : World η → Prop} {after : Step → World η → Prop} {ref : QueueRef}
    (stays : ∀ world step, before world → (∀ entry, step ≠ .execute entry) → after step world)
    (takes : ∀ world entry entries, before world →
      (world.queue ref).nextStep world.now = (.execute entry, { world.queue ref with entries }) →
      after (.execute entry) (world.modifyQueue ref ({ · with entries }))) :
    Secures before (takeStep ref) after := by
  refine .updateGet fun world held => ?_
  rcases (world.queue ref).nextStep_cases world.now with ⟨_, step⟩ | ⟨_, step⟩ | ⟨_, step⟩ |
    ⟨entry, entries, _, _, step⟩
  · simpa only [step, World.modifyQueue_self] using stays world .halted held nofun
  · simpa only [step, World.modifyQueue_self] using stays world .wait held nofun
  · simpa only [step, World.modifyQueue_self] using stays world .finish held nofun
  · have same : (world.modifyQueue ref fun _ => { world.queue ref with entries }) =
        world.modifyQueue ref ({ · with entries }) := World.modifyQueue_congr rfl
    simpa only [step, same] using takes world entry entries held step

section

variable {engine : Engine η} {fire : Firing η} {ref : QueueRef} {before after : World η → Prop}
  {taken : Entry → World η → Prop}
  (takes : ∀ world entry entries, before world →
    (world.queue ref).nextStep world.now = (.execute entry, { world.queue ref with entries }) →
    taken entry (world.modifyQueue ref ({ · with entries })))

include takes

theorem takeStep_splits : Secures before (takeStep ref) fun step world =>
    match step with
    | .execute entry => taken entry world
    | _ => before world := by
  refine takeStep_secures (fun world step held none => ?_) takes
  cases step with
  | execute entry => exact absurd rfl (none entry)
  | wait | finish | halted => exact held

variable (executes : ∀ entry, Secures (taken entry) (engine.executeTaken fire ref entry) fun _ => before)
  (finishes : Secures before (engine.finishQueue ref) fun _ => after)
  (halts : ∀ world, before world → after world)

include executes finishes halts

theorem drain_secures (logs : ∀ level text, Secures before (RunM.log level text) fun _ => before)
    (slows : Secures before (RunM.modifyQueue ref ({ · with kind := .afterWaiting })) fun _ => before)
    (schedules : Secures before (ensureScheduled ref) fun _ => after) (budget : Nat) :
    Secures before (engine.drain fire ref budget) fun _ => after := by
  induction budget with
  | zero => exact .outOfBudget
  | succ budget ih =>
      refine .bind (takeStep_splits takes) fun step => ?_
      cases step with
      | execute entry => exact .bind (executes entry) fun _ => ih
      | wait =>
          exact .any_queue_bind fun _ => .bind (logs _ _) fun _ => .bind slows fun _ => schedules
      | finish => exact finishes
      | halted => exact .pure halts

theorem step_secures : Secures before (engine.step fire ref) fun _ => after := by
  refine .bind (takeStep_splits takes) fun step => ?_
  cases step with
  | execute entry =>
      exact .bind (executes entry) fun _ =>
        .any_world_bind fun _ => .ite (fun _ => finishes) fun _ => .pure halts
  | finish => exact finishes
  | wait | halted => exact .pure halts

end

end Engine

def Unspoken (calm : World η → Prop) : Prop :=
  ∀ {world other : World η}, world.Spoke other → calm world → calm other

def Unreported (calm : World η → Prop) : Prop :=
  ∀ {world other : World η}, world.Reported other → calm world → calm other

theorem Unspoken.unreported {calm : World η → Prop} (unspoken : Unspoken calm) : Unreported calm :=
  fun reported held => unspoken reported.spoke held

theorem World.Spoke.unspoken (origin : World η) : Unspoken origin.Spoke :=
  fun spoke reached => reached.trans spoke

section

variable {calm : World η → Prop} (unreported : Unreported calm)

include unreported

theorem Host.error_secures (host : Host) (queue : Option String) (text : String) :
    Secures calm (host.error queue text : RunM η Unit) fun _ => calm :=
  .update fun world held => unreported (world.report_reported host queue text) held

theorem Host.message_secures (host : Host) (queue : Option String) (text : String) :
    Secures calm (host.message queue text : RunM η Unit) fun _ => calm :=
  .update fun world held => unreported (world.tell_reported host queue text) held

theorem RunM.emit_secures (event : Event) :
    Secures calm (RunM.emit event : RunM η Unit) fun _ => calm :=
  .update fun world held => unreported (world.emit_aloof event).reported held

namespace Engine

variable {engine : Engine η} {fire : Firing η} {free counting : Bool}

theorem substituteArgument_secures (engine : Engine η) (queue : Queue) (entry : Entry)
    (template : Template) :
    Secures calm (engine.substituteArgument queue entry template) fun _ => calm :=
  .ite (fun _ => .pure fun _ held => held) fun _ =>
    .bind (.forM _ fun _ _ => Host.error_secures unreported _ _ _) fun _ => .pure fun _ held => held

theorem substituteDefinitions_secures (engine : Engine η) (queue : Queue) (entry : Entry) :
    Secures calm (engine.substituteDefinitions queue entry) fun _ => calm :=
  .ite (fun _ => .pure fun _ held => held) fun _ =>
    .bind (.mapM (engine.substituteArgument_secures unreported queue entry) _) fun _ =>
      .pure fun _ held => held

theorem offer_secures (engine : Engine η) (entry : Entry) (arguments : Arguments) :
    Secures calm (arguments.offer (engine.offerToHost entry)) fun _ => calm := by
  refine .bind ?_ fun _ => .pure fun _ held => held
  have offered (word value : String) :
      Secures calm (engine.offerToHost entry word value) fun _ => calm :=
    .when (RunM.emit_secures unreported _) (.pure fun _ held => held)
  induction arguments.positional with
  | nil => exact .pure fun _ held => held
  | cons argument rest ih =>
      unfold Arguments.unclaimed
      split
      · exact .bind ih fun _ => .pure fun _ held => held
      · exact .bind (offered _ _) fun _ => .bind ih fun _ => .pure fun _ held => held

variable (resolvers : ∀ resolver ∈ engine.resolvers, ∀ lookup,
    (resolver.resolve lookup).Plain free counting)
  (attributes : ∀ handler ∈ engine.attributes, ∀ value lookup position,
    (handler.apply value lookup position).Plain free counting)
  (calls : free = true ∨ counting = true → ∀ procedure,
    Secures calm (callProcedure fire procedure) fun _ => calm)
  (counts : counting = true → ∀ (world : World η) (calls : Nat), calm world →
    calm { world with calls })

include resolvers attributes calls counts

theorem vocabulary_secures (outside : Firing η) :
    (engine.vocabulary outside).Serving Regime.single (fun state => calm state.world)
      fun _ => callProcedure fire := by
  refine plain_serving resolvers attributes (fun aloof held => unreported aloof.reported held)
    (fun queue text held => unreported (World.report_reported engine.host queue text _) held)
    (fun isFree procedure => (calls (.inl isFree) procedure).serves) outside ?_
  intro counting fill lookup procedure memo start started
  simp only [Vocabulary.callCounted, Tag.ask_bind, Tag.ask_world, Tag.ask_ite, Tag.ask_modify,
    Tag.ask_call, bind_assoc, pure_bind]
  refine .world_bind ?_
  by_cases many : Vocabulary.callLimit ≤ start.world.calls
  · simp only [many, ↓reduceIte]
    exact .of_run (fun _ => rfl) (unreported (World.emit_aloof _ _).reported started)
  · simp only [many, ↓reduceIte]
    refine .modifyWorld_bind (.bind ((calls (.inr counting) procedure).serves _
      (counts counting _ _ started)) fun result later kept => .modifyWorld_bind ?_)
    have counted := counts counting _ (later.world.calls - 1) kept
    cases result with
    | ok outcome => exact .pure counted
    | error error =>
        exact .of_run (fun _ => rfl) (unreported (World.emit_aloof _ _).reported counted)

theorem fillText_secures (queue : Option QueueRef) (text : String) :
    Secures calm (engine.fillText fire queue text) fun _ => calm := by
  have serving := vocabulary_secures unreported resolvers attributes calls counts fun _ =>
    RunM.outOfBudget
  unfold fillText
  rw [engine.vocabulary_calling fire fun _ => RunM.outOfBudget]
  refine .bind (engine.context_secures queue none) fun context => .of_serves ?_
  exact Tag.underToken_serves (Tag.evaluateBounded_serves serving (fun _ _ held => held) context text)
    (fun _ _ held => held) false

theorem fillEntry_jots (ref : QueueRef) (entry : Entry) :
    Secures calm (engine.fillEntry fire ref entry) fun ready later => ∃ world, calm world ∧
      later = world.jot (.filled ref { ready.entry with arguments := ready.filled }) := by
  have serving := vocabulary_secures unreported resolvers attributes calls counts fun _ =>
    RunM.outOfBudget
  have fills (context : Tag.Context) (words : List String) : Secures calm
      (Tag.underToken false (Tag.fillArguments (engine.vocabulary fire) context words))
      fun _ => calm := by
    rw [engine.vocabulary_calling fire fun _ => RunM.outOfBudget]
    exact .of_serves (Tag.underToken_serves (Tag.fillArgumentsFrom_serves serving
      (fun _ _ held => held) context 0 words) (fun _ _ held => held) false)
  refine .any_queue_bind fun queue => .when (RunM.emit_secures unreported _) ?_
  refine .bind (engine.substituteDefinitions_secures unreported queue entry) fun entry => ?_
  refine .bind (engine.context_secures _ _) fun context => .bind (fills context _) fun filled => ?_
  have jots : Secures calm (RunM.jot (.filled ref { entry with arguments := filled })) fun _ later =>
      ∃ world, calm world ∧ later = world.jot (.filled ref { entry with arguments := filled }) :=
    .update fun world held => ⟨world, held, rfl⟩
  exact .bind jots fun _ => .pure fun _ jotted => jotted

omit unreported in
theorem fillEntry_secures (unspoken : Unspoken calm) (ref : QueueRef) (entry : Entry) :
    Secures calm (engine.fillEntry fire ref entry) fun _ => calm := by
  refine (fillEntry_jots unspoken.unreported resolvers attributes calls counts ref entry).weaken
    (fun _ held => held) ?_
  rintro ready _ ⟨world, held, rfl⟩
  exact unspoken (World.jot_spoke rfl world) held

end Engine

end

end TagScript
