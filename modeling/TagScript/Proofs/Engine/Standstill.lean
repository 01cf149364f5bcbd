import TagScript.Proofs.Engine.ReachedById

/-! A queue that has to wait stands still: until it is revolved with nothing to wait for, neither time
nor the work of other queues changes what is left for it to do, unless they reach it by its id. -/

namespace TagScript

variable {η α β : Type}

open RunM (Secures)

/-- The same queue, but for holds that were given up, and for what is done when an instant queue has to
wait. -/
structure Queue.Still (queue other : Queue) : Prop where
  same : other = { queue with kind := other.kind, timer := other.timer, holds := other.holds }
  holds : other.holds ≤ queue.holds
  kind : other.kind = queue.kind ∨ other.kind = .afterWaiting
  timer : queue.timer ≠ none → other.timer = queue.timer

theorem Queue.Still.refl (queue : Queue) : queue.Still queue :=
  ⟨rfl, Nat.le_refl _, .inl rfl, fun _ => rfl⟩

theorem Queue.Still.trans {queue between later : Queue} (first : queue.Still between)
    (second : between.Still later) : queue.Still later where
  same := by rw [second.same, first.same]
  holds := Nat.le_trans second.holds first.holds
  kind := second.kind.elim (fun same => same ▸ first.kind) .inr
  timer := fun set => (second.timer (first.timer set ▸ set)).trans (first.timer set)

/-- The queue stands still and keeps its place among the live ones. -/
structure World.Frozen (ref : QueueRef) (world other : World η) : Prop where
  queue : (world.queue ref).Still (other.queue ref)
  live : ∀ key, other.live.get? key = some ref ↔ world.live.get? key = some ref

theorem World.Frozen.refl (ref : QueueRef) (world : World η) : world.Frozen ref world :=
  ⟨.refl _, fun _ => Iff.rfl⟩

/-- The queue goes on where it was: with its next entry, or to its end if there is none. -/
def Queue.Resumes (queue later : Queue) : Prop :=
  match queue.entries with
  | [] => later.isStopped = true ∧ .ranDry :: queue.history <:+ later.history
  | entry :: _ => ∃ inside,
      .executed entry :: inside ++ .started entry :: queue.history <:+ later.history

theorem World.made_of_launched {ref : QueueRef} {world : World η}
    (launched : (world.queue ref).phase ≠ .constructing) : ref.index < world.queues.size := by
  rcases Nat.lt_or_ge ref.index world.queues.size with made | missing
  · exact made
  · exact absurd (congrArg Queue.phase (queue_of_size_le missing)) launched

namespace Engine

def Disturbed (engine : Engine η) (ref : QueueRef) (origin : World η) (notes : List Note) : Prop :=
  ∃ later actor entry earlier, notes = later ++ .filled actor entry :: earlier ∧
    origin.notes <:+ earlier ∧ actor ≠ ref ∧ engine.AsksFor ref origin entry

/-- The queue has stood still since that world, unless it was disturbed. -/
structure Resting (engine : Engine η) (ref : QueueRef) (origin world : World η) : Prop where
  goesOn : origin.notes <:+ world.notes
  scripts : world.scripts = origin.scripts
  launched : (world.queue ref).phase ≠ .constructing
  still : ¬ engine.Disturbed ref origin world.notes → origin.Frozen ref world

variable {engine : Engine η} {ref : QueueRef} {origin world other : World η} {free : Bool}
  {fire : Firing η}

theorem Disturbed.append {notes : List Note} (disturbed : engine.Disturbed ref origin notes)
    (more : List Note) : engine.Disturbed ref origin (more ++ notes) := by
  obtain ⟨later, actor, entry, earlier, rfl, since, others⟩ := disturbed
  exact ⟨more ++ later, actor, entry, earlier, by simp, since, others⟩

theorem Disturbed.mem {more : List Note}
    (disturbed : engine.Disturbed ref origin (more ++ origin.notes)) :
    ∃ actor entry, .filled actor entry ∈ more := by
  obtain ⟨later, actor, entry, earlier, same, ⟨since, rfl⟩, _⟩ := disturbed
  have told : more = later ++ .filled actor entry :: since :=
    List.append_cancel_right (same.trans (by simp))
  exact ⟨actor, entry, by simp [told]⟩

theorem AsksFor.frozen {entry : Entry} (frozen : world.Frozen ref other)
    (scripts : other.scripts = world.scripts) (asks : engine.AsksFor ref other entry) :
    engine.AsksFor ref world entry := by
  obtain ⟨bound, ⟨binds, id, asked, found⟩ | ⟨binds, id, asked, found, known⟩⟩ := asks
  · exact ⟨bound, .inl ⟨binds, id, asked, (frozen.live _).1 found⟩⟩
  · rw [World.script?, scripts] at known
    exact ⟨bound, .inr ⟨binds, id, asked, (frozen.live _).1 found, known⟩⟩

namespace Resting

theorem start (launched : (origin.queue ref).phase ≠ .constructing) :
    engine.Resting ref origin origin :=
  ⟨List.suffix_refl _, rfl, launched, fun _ => .refl ref origin⟩

theorem apart (resting : engine.Resting ref origin world) (apart : world.Apart ref other) :
    engine.Resting ref origin other := by
  obtain ⟨more, _, notes⟩ := apart.notes
  constructor
  · exact notes ▸ resting.goesOn.trans (List.suffix_append _ _)
  · exact apart.scripts.trans resting.scripts
  · exact apart.queue ▸ resting.launched
  · intro calm
    have frozen := resting.still fun disturbed => calm (notes ▸ disturbed.append more)
    exact ⟨apart.queue ▸ frozen.queue, fun key => (apart.live key).trans (frozen.live key)⟩

theorem modify {change : Queue → Queue} (resting : engine.Resting ref origin world)
    (still : (world.queue ref).Still (change (world.queue ref))) :
    engine.Resting ref origin (world.modifyQueue ref change) := by
  rcases world.queue_modifyQueue_cases ref ref change with ⟨_, _, same⟩ | same
  · refine ⟨resting.goesOn, resting.scripts, ?_, fun calm => ?_⟩
    · rw [same, still.same]
      exact resting.launched
    · have frozen := resting.still calm
      exact ⟨same ▸ frozen.queue.trans still, frozen.live⟩
  · exact ⟨resting.goesOn, resting.scripts, same ▸ resting.launched, fun calm =>
      ⟨same ▸ (resting.still calm).queue, (resting.still calm).live⟩⟩

theorem changed (resting : engine.Resting ref origin world)
    (disturbed : engine.Disturbed ref origin world.notes) {change : Queue → Queue}
    (launched : ∀ queue : Queue, queue.phase ≠ .constructing → (change queue).phase ≠ .constructing) :
    engine.Resting ref origin (world.modifyQueue ref change) := by
  refine ⟨resting.goesOn, resting.scripts, ?_, fun calm => absurd disturbed calm⟩
  rcases world.queue_modifyQueue_cases ref ref change with ⟨_, _, same⟩ | same
  · exact same ▸ launched _ resting.launched
  · exact same ▸ resting.launched

theorem vigil (engine : Engine η) (ref : QueueRef) (origin : World η) :
    Vigil engine ref (engine.Resting ref origin) (engine.Disturbed ref origin)
      fun world => engine.Disturbed ref origin world.notes where
  goesOn := fun _ disturbed => disturbed.append _
  alsoGoesOn := by
    intro world other apart disturbed
    obtain ⟨more, _, notes⟩ := apart.notes
    exact notes ▸ disturbed.append more
  apart := fun apart resting => resting.apart apart
  release := fun resting => resting.modify ⟨rfl, Nat.sub_le _ _, .inl rfl, fun _ => rfl⟩
  deal := fun disturbed onward resting => resting.changed disturbed fun queue =>
    (onward queue).launched
  delay := fun _ disturbed resting => resting.changed disturbed fun _ => id
  unlist := fun _ disturbed resting =>
    ⟨resting.goesOn, resting.scripts, resting.launched, fun calm => absurd disturbed calm⟩
  create := by
    intro world id kind new resting
    have unmade : world.queue ref = default := World.queue_of_size_le (Nat.le_of_eq new)
    exact absurd (congrArg Queue.phase unmade) resting.launched
  noted := by
    intro world actor entry different resting
    have asked (asks : engine.AsksFor ref world entry) :
        engine.Disturbed ref origin (.filled actor entry :: world.notes) := by
      by_cases disturbed : engine.Disturbed ref origin world.notes
      · exact disturbed.append [_]
      · exact ⟨[], actor, entry, world.notes, rfl, resting.goesOn, different,
          asks.frozen (resting.still disturbed) resting.scripts⟩
    exact ⟨asked, fun ⟨bound, binds, targets, _⟩ => asked ⟨bound, .inl ⟨binds, targets⟩⟩⟩

theorem fires (regular : engine.Regular free) (budget : Nat) :
    (engine.fire budget).Heeds ref (engine.Resting ref origin) (engine.Disturbed ref origin) :=
  (vigil engine ref origin).fire_launched regular (fun _ resting => resting.launched) budget

end Resting

theorem ensureScheduled_resting :
    Secures (engine.Resting ref origin) (Engine.ensureScheduled ref)
      fun _ => engine.Resting ref origin := by
  have watch := Resting.vigil engine ref origin
  refine .each fun world resting => .queue_bind (.ite (fun _ => ?_) fun due => ?_)
  · exact .pure fun _ same => same ▸ resting
  · let unset (later : World η) := engine.Resting ref origin later ∧ (later.queue ref).timer = none
    have isUnset : unset world := by
      simp only [Bool.or_eq_true, not_or, Option.not_isSome_iff_eq_none] at due
      exact ⟨resting, due.1⟩
    have logs (level : LogLevel) (text : String) : Secures unset (RunM.log level text)
        fun _ => unset :=
      .update fun later held =>
        ⟨held.1.apart (.of_same rfl rfl rfl rfl rfl : later.Apart ref (later.log level text)), held.2⟩
    refine .bind (.updateGet fun later same => ?_) fun timer =>
      .bind (logs _ _) fun _ => .update fun later held => ?_
    · subst same
      exact ⟨watch.apart (.reschedule rfl) isUnset.1, isUnset.2⟩
    · exact held.1.modify ⟨rfl, Nat.le_refl _, .inl rfl, fun set => absurd held.2 set⟩

theorem revolve_resting (budget : Nat)
    (waits : (world.queue ref).isBlocked world.now = true) (resting : engine.Resting ref origin world) :
    Secures (· = world) (engine.revolve fire budget ref) fun _ => engine.Resting ref origin := by
  have watch := Resting.vigil engine ref origin
  refine .queue_bind (.ite (fun _ => .pure fun _ same => same ▸ resting) fun runs => ?_)
  have runs : (world.queue ref).isStopped = false := by
    simp only [bne_iff_ne, ne_eq, Decidable.not_not] at runs
    simp [Queue.isStopped, runs]
  have steps : Secures (· = world) (takeStep ref) fun step later => step = .wait ∧ later = world := by
    refine .updateGet fun _ same => ?_
    subst same
    simp [Queue.nextStep, runs, waits, World.modifyQueue_self]
  refine .ite (fun _ => ?_) fun _ => ?_
  · cases budget with
    | zero => exact .outOfBudget
    | succ budget =>
        refine .bind steps fun step => .each fun later reached => ?_
        obtain ⟨rfl, rfl⟩ := reached
        have slows : Secures (engine.Resting ref origin)
            (RunM.modifyQueue ref ({ · with kind := .afterWaiting }))
            fun _ => engine.Resting ref origin :=
          .update fun _ held => held.modify ⟨rfl, Nat.le_refl _, .inr rfl, fun _ => rfl⟩
        refine .any_queue_bind fun queue => .weaken (.bind (watch.log _ _) fun _ => .bind slows fun _ =>
          ensureScheduled_resting) (fun _ same => same ▸ resting) fun _ _ held => held
  · refine .bind steps fun step => .each fun later reached => ?_
    obtain ⟨rfl, rfl⟩ := reached
    exact .pure fun _ same => same ▸ resting

/-! Whatever comes later, what was done to a queue stays on record. -/

def Recounts (ref : QueueRef) (told : List Deed → Prop) (world : World η) : Prop :=
  told (world.queue ref).history

section

variable {told : List Deed → Prop}
  (goesOn : ∀ {history later : List Deed}, history <:+ later → told history → told later)

include goesOn

theorem Recounts.modify {change : Queue → Queue} (recounts : Recounts ref told world)
    (grows : ∀ queue : Queue, queue.history <:+ (change queue).history) (actor : QueueRef) :
    Recounts ref told (world.modifyQueue actor change) := by
  rcases world.queue_modifyQueue_cases actor ref change with ⟨rfl, _, same⟩ | same
  · exact goesOn (same ▸ grows _) recounts
  · exact goesOn (same ▸ List.suffix_refl _) recounts

theorem Recounts.vigil (engine : Engine η) (ref : QueueRef) :
    Vigil engine ref (Recounts ref told) (fun _ => True) fun _ => True where
  goesOn := fun _ granted => granted
  alsoGoesOn := fun _ granted => granted
  apart := fun apart recounts => goesOn (apart.queue ▸ List.suffix_refl _) recounts
  release := by
    intro world recounts
    refine recounts.modify goesOn ?_ ref
    exact fun _ => List.suffix_refl _
  deal := fun _ onward recounts => recounts.modify goesOn (fun queue => (onward queue).history) ref
  delay := by
    intro world duration _ recounts
    refine recounts.modify goesOn ?_ ref
    exact fun _ => List.suffix_refl _
  unlist := fun _ _ recounts => recounts
  create := by
    intro world id kind new recounts
    refine ⟨goesOn ?_ recounts, fun _ => trivial⟩
    rw [World.queue_of_size_le (Nat.le_of_eq new)]
    exact List.nil_suffix
  noted := fun _ _ => ⟨fun _ => trivial, fun _ => trivial⟩

omit goesOn in
theorem Recounts.lax : Lax ref (Recounts (η := η) ref told) (fun _ => True) fun _ => True where
  licence := fun _ => trivial
  delays := fun _ => trivial
  fills := fun recounts => recounts

theorem Recounts.fires (regular : engine.Regular free) (budget : Nat) :
    (engine.fire budget).Heeds ref (Recounts ref told) fun _ => True :=
  (vigil goesOn engine ref).fire_lax regular lax budget

end

def Recorded (ref : QueueRef) (deeds : List Deed) : World η → Prop := Recounts ref (deeds <:+ ·)

def Done (ref : QueueRef) (entry : Entry) (deeds : List Deed) : World η → Prop :=
  Recounts ref fun history =>
    ∃ inside, .executed entry :: inside ++ .started entry :: deeds <:+ history

section

variable (regular : engine.Regular free) (depth budget : Nat) {entry : Entry} {deeds : List Deed}

theorem Recorded.goesOn {history later : List Deed} (grows : history <:+ later)
    (recorded : deeds <:+ history) : deeds <:+ later := recorded.trans grows

theorem Done.goesOn {history later : List Deed} (grows : history <:+ later)
    (done : ∃ inside, .executed entry :: inside ++ .started entry :: deeds <:+ history) :
    ∃ inside, .executed entry :: inside ++ .started entry :: deeds <:+ later :=
  done.imp fun _ recorded => recorded.trans grows

theorem Recorded.made {deed : Deed} (recorded : Recorded ref (deed :: deeds) world) :
    ref.index < world.queues.size := by
  rcases Nat.lt_or_ge ref.index world.queues.size with made | missing
  · exact made
  · rw [Recorded, Recounts, World.queue_of_size_le missing] at recorded
    exact absurd (List.suffix_nil.1 recorded) (List.cons_ne_nil _ _)

include regular

theorem executeTaken_done (made : ref.index < world.queues.size)
    (same : (world.queue ref).history = deeds) :
    Secures (· = world) (engine.executeTaken (engine.fire depth) ref entry)
      fun _ => Done ref entry deeds := by
  have begins : Secures (· = world) (RunM.modifyQueue ref (Queue.note (.started entry)))
      fun _ => Recorded ref (.started entry :: deeds) := by
    refine .update fun _ here => ?_
    subst here
    rw [Recorded, Recounts, World.queue_modifyQueue_self made, Queue.note, same]
  have executes : Secures (Recorded ref (.started entry :: deeds))
      (engine.executeEntry (engine.fire depth) ref entry)
      fun _ => Recorded ref (.started entry :: deeds) :=
    (Recounts.vigil Recorded.goesOn engine ref).executeEntry regular
      (Recounts.fires Recorded.goesOn regular depth) (fun _ => Recounts.lax) entry
  refine .bind begins fun _ => .bind executes fun _ => .update fun later recorded => ?_
  obtain ⟨inside, recorded⟩ := id recorded
  refine ⟨inside, ?_⟩
  rw [World.queue_modifyQueue_self (Recorded.made ⟨inside, recorded⟩), Queue.note, ← recorded]
  exact List.suffix_refl _

omit regular in
theorem finishQueue_ends (made : ref.index < world.queues.size)
    (runs : (world.queue ref).isStopped = false) (same : (world.queue ref).history = deeds) :
    Secures (· = world) (engine.finishQueue ref) fun _ later =>
      (later.queue ref).isStopped = true ∧ Recorded ref (.ranDry :: deeds) later := by
  let dry := world.modifyQueue ref (Queue.note .ranDry)
  have isDry : dry.queue ref = (world.queue ref).note .ranDry := World.queue_modifyQueue_self made _
  have dries : Secures (· = world) (RunM.modifyQueue ref (Queue.note .ranDry)) fun _ later =>
      later = dry := .update fun _ here => here ▸ rfl
  have stops : Secures (· = dry) (Queue.stop engine.host ref) fun _ later =>
      (later.queue ref).isStopped = true := by
    intro start _ finish here ran
    have course := Queue.stop_leads engine.host (isDry ▸ runs : (dry.queue ref).isStopped = false) []
      start () finish here ran
    exact course.isStopped (World.isStopped_halt (by rwa [World.size_modifyQueue]))
  have records : Secures (· = dry) (Queue.stop engine.host ref) fun _ => Recorded ref (.ranDry :: deeds) := by
    refine ((Recounts.vigil Recorded.goesOn engine ref).stop_own
      (fun _ _ => trivial) engine.host).weaken ?_ fun _ _ held => held
    rintro _ rfl
    rw [Recounts, isDry, Queue.note, same]
  exact .bind dries fun _ => stops.and records

section

variable (runs : (world.queue ref).phase = .running)
  (unblocked : (world.queue ref).isBlocked world.now = false)

include runs unblocked

omit regular in
theorem takeStep_ends (empty : (world.queue ref).entries = []) :
    Secures (· = world) (takeStep ref) fun step later => step = .finish ∧ later = world := by
  refine .updateGet fun _ same => ?_
  subst same
  simp [Queue.nextStep, Queue.isStopped, runs, unblocked, empty, World.modifyQueue_self]

omit regular in
theorem takeStep_takes {rest : List Entry} (waiting : (world.queue ref).entries = entry :: rest) :
    Secures (· = world) (takeStep ref) fun step later => step = .execute entry ∧
      later = world.modifyQueue ref fun _ => { world.queue ref with entries := rest } := by
  refine .updateGet fun _ same => ?_
  subst same
  simp [Queue.nextStep, Queue.isStopped, runs, unblocked, waiting]

omit regular in
theorem revolve_ends (empty : (world.queue ref).entries = []) :
    Secures (· = world) (engine.revolve fire budget ref) fun _ later =>
      (later.queue ref).isStopped = true ∧
        Recorded ref (.ranDry :: (world.queue ref).history) later := by
  have steps := takeStep_ends runs unblocked empty
  have ends : Secures (· = world) (engine.finishQueue ref) fun _ later =>
      (later.queue ref).isStopped = true ∧
        Recorded ref (.ranDry :: (world.queue ref).history) later :=
    finishQueue_ends (World.made_of_launched (by simp [runs])) (by simp [Queue.isStopped, runs]) rfl
  refine .queue_bind (.ite (fun stands => by simp [runs] at stands) fun _ => .ite (fun _ => ?_) fun _ => ?_)
  · cases budget with
    | zero => exact .outOfBudget
    | succ budget =>
        refine .bind steps fun step => .each fun later reached => ?_
        obtain ⟨rfl, rfl⟩ := reached
        exact ends
  · refine .bind steps fun step => .each fun later reached => ?_
    obtain ⟨rfl, rfl⟩ := reached
    exact ends

theorem revolve_takes {rest : List Entry} (waiting : (world.queue ref).entries = entry :: rest) :
    Secures (· = world) (engine.revolve (engine.fire depth) budget ref)
      fun _ => Done ref entry (world.queue ref).history := by
  have steps := takeStep_takes runs unblocked waiting
  let taken := world.modifyQueue ref fun _ => { world.queue ref with entries := rest }
  have made : ref.index < world.queues.size := World.made_of_launched (by simp [runs])
  have isTaken : taken.queue ref = { world.queue ref with entries := rest } :=
    World.queue_modifyQueue_self made _
  have executes : Secures (· = taken) (engine.executeTaken (engine.fire depth) ref entry)
      fun _ => Done ref entry (world.queue ref).history :=
    executeTaken_done regular depth (by rwa [World.size_modifyQueue]) (by rw [isTaken])
  have watch : Vigil engine ref (Done ref entry (world.queue ref).history) (fun _ => True)
      fun _ => True := Recounts.vigil Done.goesOn engine ref
  have fires : (engine.fire depth).Heeds ref (Done ref entry (world.queue ref).history)
      fun _ => True := Recounts.fires Done.goesOn regular depth
  refine .queue_bind (.ite (fun stands => by simp [runs] at stands) fun _ => .ite (fun _ => ?_) fun _ => ?_)
  · cases budget with
    | zero => exact .outOfBudget
    | succ budget =>
        refine .bind steps fun step => .each fun later reached => ?_
        obtain ⟨rfl, rfl⟩ := reached
        exact .bind executes fun _ => watch.drain regular fires (fun _ => Recounts.lax) budget
  · refine .bind steps fun step => .each fun later reached => ?_
    obtain ⟨rfl, rfl⟩ := reached
    exact .bind executes fun _ => .any_world_bind fun _ =>
      .ite (fun _ => watch.finishQueue fun _ _ => trivial) fun _ => .pure fun _ held => held

theorem revolve_resumes :
    Secures (· = world) (engine.revolve (engine.fire depth) budget ref)
      fun _ later => (world.queue ref).Resumes (later.queue ref) := by
  unfold Queue.Resumes
  cases entries : (world.queue ref).entries with
  | nil => exact revolve_ends budget runs unblocked entries
  | cons entry rest => exact revolve_takes regular depth budget runs unblocked entries

end

end

end Engine

/-! Ticks with an eye on one queue. -/

/-- The first revolution of a queue in which nothing keeps it from going on: the worlds before it and
after it. -/
abbrev Resumption (η : Type) := Option (World η × World η)

namespace Engine

variable (engine : Engine η) (ref : QueueRef) (budget : Nat)

def revolveNoting (actor : QueueRef) : StateT (Resumption η) (RunM η) Unit := do
  let before ← (RunM.world : RunM η (World η))
  engine.revolve (engine.fire budget) budget actor
  let after ← (RunM.world : RunM η (World η))
  if actor = ref ∧ (before.queue ref).isBlocked before.now = false then
    modify fun seen => seen <|> some (before, after)

def handlersNoting :
    Scheduler.Handlers (StateT (Resumption η) (RunM η)) QueueRef AsyncWork where
  perform := fun actor => do
    engine.revolveNoting ref budget actor
    return true
  deliver := fun work => engine.deliver work
  log := fun level text => (RunM.log level text : RunM η Unit)

def settleNoting : Nat → StateT (Resumption η) (RunM η) Unit
  | 0 => StateT.lift RunM.outOfBudget
  | jobs + 1 => do
    match (← getThe (Scheduler QueueRef AsyncWork)).takeJob? with
    | none => return
    | some (job, scheduler) =>
      set scheduler
      Scheduler.runJob (engine.handlersNoting ref budget) job
      settleNoting jobs

def tickNoting (elapsed : Duration) : StateT (Resumption η) (RunM η) Unit := do
  Scheduler.tick (engine.handlersNoting ref budget) elapsed
  engine.settleNoting ref budget budget

end Engine

def RunM.Notes {γ : Type} (before : γ → World η → Prop) (noting : StateT γ (RunM η) α)
    (act : RunM η α) (after : γ → World η → Prop) : Prop :=
  ∀ seen start result finish, before seen start.world → act.run start = some (result, finish) →
    ∃ later, (noting.run seen).run start = some ((result, later), finish) ∧ after later finish.world

namespace RunM.Notes

variable {γ : Type} {before after last : γ → World η → Prop} {noting : StateT γ (RunM η) α}
  {act : RunM η α} {next : α → StateT γ (RunM η) β} {rest : α → RunM η β}

theorem pure (result : α) :
    Notes before (Pure.pure result : StateT γ (RunM η) α) (Pure.pure result) before := by
  intro seen start found finish held ran
  obtain ⟨rfl, rfl⟩ := Tag.EvalM.run_pure_eq_some.1 ran
  exact ⟨seen, rfl, held⟩

theorem bind (first : Notes before noting act after)
    (following : ∀ result, Notes after (next result) (rest result) last) :
    Notes before (noting >>= next) (act >>= rest) last := by
  intro seen start result finish held ran
  obtain ⟨found, between, ranFirst, ranRest⟩ := Tag.EvalM.run_bind_eq_some.1 ran
  obtain ⟨later, noted, kept⟩ := first seen start found between held ranFirst
  obtain ⟨latest, alsoNoted, ended⟩ := following found later between result finish kept ranRest
  refine ⟨latest, ?_, ended⟩
  rw [StateT.run_bind]
  exact Tag.EvalM.run_bind_eq_some.2 ⟨_, _, noted, alsoNoted⟩

theorem lift (secures : ∀ seen, Secures (before seen) act fun _ => after seen) :
    Notes before (StateT.lift act : StateT γ (RunM η) α) act after := by
  intro seen start result finish held ran
  refine ⟨seen, ?_, secures seen start result finish held ran⟩
  rw [StateT.run_lift]
  exact Tag.EvalM.run_bind_eq_some.2 ⟨_, _, ran, rfl⟩

theorem forM {each : α → StateT γ (RunM η) PUnit} {plain : α → RunM η PUnit}
    (keeps : ∀ item, Notes before (each item) (plain item) before) (items : List α) :
    Notes before (items.forM each) (items.forM plain) before := by
  induction items with
  | nil => exact pure _
  | cons item rest ih =>
      simp only [List.forM_eq_forM, List.forM_cons]
      exact bind (keeps item) fun _ => ih

theorem ite {test : Prop} [Decidable test] {noting' : StateT γ (RunM η) α} {act' : RunM η α}
    (yes : Notes before noting act after) (no : Notes before noting' act' after) :
    Notes before (if test then noting else noting') (if test then act else act') after := by
  split
  · exact yes
  · exact no

theorem scheduler_bind {next : Scheduler QueueRef AsyncWork → StateT γ (RunM η) β}
    {rest : Scheduler QueueRef AsyncWork → RunM η β}
    (following : ∀ scheduler, Notes before (next scheduler) (rest scheduler) after) :
    Notes before (getThe (Scheduler QueueRef AsyncWork) >>= next)
      (getThe (Scheduler QueueRef AsyncWork) >>= rest) after :=
  fun seen start result finish held ran =>
    following start.world.scheduler seen start result finish held ran

theorem world_bind {next : Scheduler QueueRef AsyncWork → StateT γ (RunM η) β}
    {rest : World η → RunM η β}
    (following : ∀ world, Notes before (next world.scheduler) (rest world) after) :
    Notes before (getThe (Scheduler QueueRef AsyncWork) >>= next) (RunM.world >>= rest) after :=
  fun seen start result finish held ran =>
    following start.world seen start result finish held ran

theorem set (scheduler : Scheduler QueueRef AsyncWork)
    (holds : ∀ seen world, before seen world → after seen { world with scheduler }) :
    Notes before (MonadStateOf.set scheduler : StateT γ (RunM η) PUnit)
      (MonadStateOf.set scheduler : RunM η PUnit) after :=
  lift fun seen => .update fun world held => holds seen world held

end RunM.Notes

open RunM (Notes)

namespace Engine

def Resumed (engine : Engine η) (ref : QueueRef) (origin before after : World η) : Prop :=
  (before.queue ref).isBlocked before.now = false ∧
    (¬ engine.Disturbed ref origin before.notes →
      origin.Frozen ref before ∧ (before.queue ref).Resumes (after.queue ref))

def Rests (engine : Engine η) (ref : QueueRef) (origin : World η) (seen : Resumption η)
    (world : World η) : Prop :=
  match seen with
  | none => engine.Resting ref origin world
  | some (before, after) => engine.Resumed ref origin before after

variable {engine : Engine η} {ref : QueueRef} {origin : World η} {free : Bool}

theorem Rests.secures {act : RunM η α}
    (secures : Secures (engine.Resting ref origin) act fun _ => engine.Resting ref origin)
    (seen : Resumption η) :
    Secures (engine.Rests ref origin seen) act fun _ => engine.Rests ref origin seen := by
  cases seen with
  | none => exact secures
  | some => exact fun _ _ _ held _ => held

theorem Rests.reschedule {seen : Resumption η} {world : World η}
    (rests : engine.Rests ref origin seen world) (scheduler : Scheduler QueueRef AsyncWork) :
    engine.Rests ref origin seen { world with scheduler } := by
  cases seen with
  | none =>
      exact ⟨rests.goesOn, rests.scripts, rests.launched, fun calm =>
        ⟨(rests.still calm).queue, (rests.still calm).live⟩⟩
  | some => exact rests

theorem Rests.lift {act : RunM η α}
    (secures : Secures (engine.Resting ref origin) act fun _ => engine.Resting ref origin) :
    Notes (engine.Rests ref origin) (StateT.lift act) act (engine.Rests ref origin) :=
  .lift (Rests.secures secures)

theorem Rests.set (scheduler : Scheduler QueueRef AsyncWork) :
    Notes (engine.Rests ref origin) (MonadStateOf.set scheduler) (MonadStateOf.set scheduler : RunM η PUnit)
      (engine.Rests ref origin) :=
  .set scheduler fun _ _ rests => rests.reschedule scheduler

theorem Rests.update (change : Scheduler QueueRef AsyncWork → Scheduler QueueRef AsyncWork) :
    Notes (engine.Rests ref origin) (Scheduler.update change) (Scheduler.update change : RunM η Unit)
      (engine.Rests ref origin) :=
  .scheduler_bind fun scheduler => Rests.set (change scheduler)

theorem revolveNoting_run {budget : Nat} {actor : QueueRef} {seen : Resumption η}
    {start finish : Tag.Evaluation (World η)}
    (ran : (engine.revolve (engine.fire budget) budget actor).run start = some ((), finish)) :
    ((engine.revolveNoting ref budget actor).run seen).run start = some (((),
      if actor = ref ∧ (start.world.queue ref).isBlocked start.world.now = false then
        seen <|> some (start.world, finish.world) else seen), finish) := by
  rw [revolveNoting, StateT.run_bind]
  refine Tag.EvalM.run_bind_eq_some.2 ⟨(start.world, seen), start, rfl, ?_⟩
  rw [StateT.run_bind]
  refine Tag.EvalM.run_bind_eq_some.2 ⟨((), seen), finish, ?_, ?_⟩
  · have kept : (do
        let result ← engine.revolve (engine.fire budget) budget actor
        return (result, seen) : RunM η (Unit × Resumption η)).run start = some (((), seen), finish) :=
      Tag.EvalM.run_bind_eq_some.2 ⟨(), finish, ran, rfl⟩
    exact kept
  · rw [StateT.run_bind]
    refine Tag.EvalM.run_bind_eq_some.2 ⟨(finish.world, seen), finish, rfl, ?_⟩
    dsimp only
    split <;> rfl

section

variable (regular : engine.Regular free) (budget : Nat)

include regular

theorem revolveNoting_notes (runs : (origin.queue ref).phase = .running) (actor : QueueRef) :
    Notes (engine.Rests ref origin) (engine.revolveNoting ref budget actor)
      (engine.revolve (engine.fire budget) budget actor) (engine.Rests ref origin) := by
  intro seen start _ finish rests ran
  refine ⟨_, revolveNoting_run ran, ?_⟩
  cases seen with
  | some seen => split <;> exact rests
  | none =>
      split
      · rename_i resumes
        obtain ⟨rfl, unblocked⟩ := resumes
        refine ⟨unblocked, fun calm => ?_⟩
        have frozen := rests.still calm
        have goes : (start.world.queue actor).phase = .running := by
          rw [frozen.queue.same]
          exact runs
        exact ⟨frozen, revolve_resumes regular budget budget goes unblocked start () finish rfl ran⟩
      · rename_i stays
        by_cases same : actor = ref
        · subst same
          have waits : (start.world.queue actor).isBlocked start.world.now = true := by
            simpa using stays
          exact revolve_resting budget waits rests start () finish rfl ran
        · exact (Resting.vigil engine ref origin).revolve regular (Resting.fires regular budget)
            (fun own => absurd own same) budget start () finish rests ran

theorem handle_notes (message : Message AsyncWork) :
    Notes (engine.Rests ref origin)
      (Scheduler.handle (engine.handlersNoting ref budget) message)
      (Scheduler.handle (engine.handlers budget) message) (engine.Rests ref origin) := by
  cases message with
  | completed id => exact Rests.update _
  | callback work =>
      exact .bind (Rests.lift ((Resting.vigil engine ref origin).deliver regular work)) fun _ =>
        .ite (Rests.lift ((Resting.vigil engine ref origin).log _ _)) (.pure ())

variable (runs : (origin.queue ref).phase = .running)

include runs

theorem runTimer_notes (id : TimerId) (actor : QueueRef) :
    Notes (engine.Rests ref origin)
      (Scheduler.runTimer (engine.handlersNoting ref budget) id actor)
      (Scheduler.runTimer (engine.handlers budget) id actor) (engine.Rests ref origin) :=
  .bind (.bind (revolveNoting_notes regular budget runs actor) fun _ => .pure true) fun _ =>
    .ite (Rests.lift ((Resting.vigil engine ref origin).log _ _)) (.pure ())

theorem fireDue_notes (due : Due QueueRef) :
    Notes (engine.Rests ref origin) (Scheduler.fire (engine.handlersNoting ref budget) due)
      (Scheduler.fire (engine.handlers budget) due) (engine.Rests ref origin) := by
  unfold Scheduler.fire
  split
  · exact runTimer_notes regular budget runs due.id due.action
  · exact .scheduler_bind fun scheduler =>
      .ite (Rests.lift ((Resting.vigil engine ref origin).log _ _)) (Rests.set _)

theorem scheduler_tick_notes (elapsed : Duration) :
    Notes (engine.Rests ref origin) (Scheduler.tick (engine.handlersNoting ref budget) elapsed)
      (Scheduler.tick (engine.handlers budget) elapsed) (engine.Rests ref origin) :=
  .bind (Rests.update _) fun _ => .scheduler_bind fun _ => .bind (Rests.set _) fun _ =>
    .bind (.forM (handle_notes regular budget) _) fun _ => .scheduler_bind fun _ =>
      .bind (Rests.set _) fun _ => .forM (fireDue_notes regular budget runs) _

theorem settle_notes (jobs : Nat) :
    Notes (engine.Rests ref origin) (engine.settleNoting ref budget jobs)
      (engine.settle budget jobs) (engine.Rests ref origin) := by
  induction jobs with
  | zero => exact Rests.lift .outOfBudget
  | succ jobs ih =>
      refine .world_bind fun world => ?_
      cases world.scheduler.takeJob? with
      | none => exact .pure ()
      | some found =>
          refine .bind (Rests.set _) fun _ => .bind ?_ fun _ => ih
          cases found.1 with
          | timer id actor =>
              exact .bind (runTimer_notes regular budget runs id actor) fun _ => Rests.update _
          | work callback => exact Rests.update _

theorem tick_notes (elapsed : Duration) :
    Notes (engine.Rests ref origin) (engine.tickNoting ref budget elapsed)
      (engine.tick budget elapsed) (engine.Rests ref origin) :=
  .bind (scheduler_tick_notes regular budget runs elapsed) fun _ =>
    settle_notes regular budget runs budget

end

/-- What is seen of a queue in a run between those worlds: it stood still for all of it, or it went on
with what was next as soon as it was revolved with nothing to wait for. -/
def StandsUntil (engine : Engine η) (ref : QueueRef) (origin last : World η)
    (seen : Resumption η) : Prop :=
  match seen with
  | none => ¬ engine.Disturbed ref origin last.notes → origin.Frozen ref last
  | some (before, after) => engine.Resumed ref origin before after

/-- Through ticks of any lengths a queue stands still until it is revolved with nothing to wait for, and
then it starts with what is next. -/
theorem stands_still (regular : engine.Regular free) {ticks : List (Nat × Duration)}
    {start finish : Tag.Evaluation (World η)} (runs : (start.world.queue ref).phase = .running)
    (ran : (ticks.forM fun tick => engine.tick tick.1 tick.2).run start = some ((), finish)) :
    ∃ seen, ((ticks.forM fun tick => engine.tickNoting ref tick.1 tick.2).run none).run start =
        some (((), seen), finish) ∧ engine.StandsUntil ref start.world finish.world seen := by
  have resting : engine.Rests ref start.world none start.world := .start (by simp [runs])
  have notes : Notes (engine.Rests ref start.world)
      (ticks.forM fun tick => engine.tickNoting ref tick.1 tick.2)
      (ticks.forM fun tick => engine.tick tick.1 tick.2) (engine.Rests ref start.world) := by
    refine .forM ?_ ticks
    intro tick
    exact tick_notes regular tick.1 runs tick.2
  obtain ⟨seen, noted, rests⟩ := notes none start () finish resting ran
  refine ⟨seen, noted, ?_⟩
  cases seen with
  | none => exact rests.still
  | some seen => exact rests

end Engine

end TagScript
