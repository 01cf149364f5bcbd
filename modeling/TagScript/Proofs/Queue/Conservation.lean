import TagScript.Proofs.Engine.Run

/-! Entries are neither lost nor executed twice. The history of a queue tells what was received,
what was started and what was executed, and every deed in it was lawful at the moment it was done.
-/

namespace TagScript

variable {η : Type}

namespace Deed

def incoming : Deed → List Entry
  | .received entries => entries
  | _ => []

def begun : Deed → List Entry
  | .started entry => [entry]
  | _ => []

def ended : Deed → List Entry
  | .executed entry => [entry]
  | _ => []

def receivedIn (history : List Deed) : List Entry := history.flatMap incoming

def startedIn (history : List Deed) : List Entry := history.flatMap begun

def executedIn (history : List Deed) : List Entry := history.flatMap ended

@[simp]
theorem receivedIn_nil : receivedIn [] = [] := rfl

@[simp]
theorem startedIn_nil : startedIn [] = [] := rfl

@[simp]
theorem executedIn_nil : executedIn [] = [] := rfl

@[simp]
theorem receivedIn_cons (deed : Deed) (history : List Deed) :
    receivedIn (deed :: history) = deed.incoming ++ receivedIn history := rfl

@[simp]
theorem startedIn_cons (deed : Deed) (history : List Deed) :
    startedIn (deed :: history) = deed.begun ++ startedIn history := rfl

@[simp]
theorem executedIn_cons (deed : Deed) (history : List Deed) :
    executedIn (deed :: history) = deed.ended ++ executedIn history := rfl

def Lawful (before : List Deed) : Deed → Prop
  | .began => .stopped ∉ before
  | .started entry =>
    .stopped ∉ before ∧ (startedIn before).count entry < (receivedIn before).count entry
  | .ranDry =>
    .stopped ∉ before ∧ (.cleared ∉ before → (startedIn before).Perm (receivedIn before))
  | .stopped => .stopped ∉ before
  | _ => True

def AllLawful : List Deed → Prop
  | [] => True
  | deed :: before => deed.Lawful before ∧ AllLawful before

theorem AllLawful.split {later before : List Deed} {deed : Deed}
    (lawful : AllLawful (later ++ deed :: before)) : deed.Lawful before := by
  induction later with
  | nil => exact lawful.1
  | cons _ _ ih => exact ih lawful.2

theorem AllLawful.suffix {later before : List Deed} (lawful : AllLawful (later ++ before)) :
    AllLawful before := by
  induction later with
  | nil => exact lawful
  | cons _ _ ih => exact ih lawful.2

theorem AllLawful.count_le {history : List Deed} (lawful : AllLawful history) (entry : Entry) :
    (startedIn history).count entry ≤ (receivedIn history).count entry := by
  induction history with
  | nil => simp
  | cons deed before ih =>
      have bound := ih lawful.2
      rw [startedIn_cons, receivedIn_cons, List.count_append, List.count_append]
      cases deed with
      | started first =>
          have allowed := lawful.1.2
          by_cases same : first = entry
          · subst same
            simp only [begun, incoming, List.count_singleton_self, List.count_nil]
            omega
          · simp only [begun, incoming, List.count_singleton, beq_iff_eq, same, if_false,
              List.count_nil]
            omega
      | _ =>
          simp only [begun, List.count_nil]
          omega

theorem AllLawful.after_stopped {later before : List Deed}
    (lawful : AllLawful (later ++ .stopped :: before)) :
    startedIn later = [] ∧ .began ∉ later ∧ .ranDry ∉ later ∧ .stopped ∉ later := by
  induction later with
  | nil => simp
  | cons deed rest ih =>
      obtain ⟨noStart, noBegin, notDry, noStop⟩ := ih lawful.2
      have allowed := lawful.1
      cases deed with
      | began => exact absurd allowed (by simp [Lawful])
      | started entry => exact absurd allowed.1 (by simp)
      | ranDry => exact absurd allowed.1 (by simp)
      | stopped => exact absurd allowed (by simp [Lawful])
      | received entries => simp [begun, noStart, noBegin, notDry, noStop]
      | executed entry => simp [begun, noStart, noBegin, notDry, noStop]
      | cleared => simp [begun, noStart, noBegin, notDry, noStop]

theorem AllLawful.startedIn_append {later history : List Deed}
    (lawful : AllLawful (later ++ history)) (stopped : .stopped ∈ history) :
    startedIn (later ++ history) = startedIn history := by
  obtain ⟨between, before, rfl⟩ := List.append_of_mem stopped
  rw [← List.append_assoc] at lawful
  have nothing := lawful.after_stopped.1
  rw [startedIn, List.flatMap_append, List.append_eq_nil_iff] at nothing
  rw [startedIn, List.flatMap_append, nothing.1, List.nil_append, startedIn]

end Deed

open Deed (receivedIn startedIn executedIn AllLawful)

/-- The books of a queue: what it received is waiting, was started, or was dropped, and it drops
entries only when it is cleared or stops. -/
structure Queue.Accounted (queue : Queue) : Prop where
  stopped : queue.isStopped = true ↔ .stopped ∈ queue.history
  within : ∀ entry, (startedIn queue.history).count entry + queue.entries.count entry ≤
    (receivedIn queue.history).count entry
  whole : .cleared ∉ queue.history → .stopped ∉ queue.history → ∀ entry,
    (startedIn queue.history).count entry + queue.entries.count entry =
      (receivedIn queue.history).count entry
  lawful : AllLawful queue.history

namespace Queue.Accounted

variable {queue other : Queue}

theorem make (id : String) (kind : QueueKind) (fire : FireId) :
    (Queue.make id kind fire).Accounted where
  stopped := by simp [Queue.make, Queue.isStopped]
  within := by simp [Queue.make]
  whole := by simp [Queue.make]
  lawful := trivial

theorem of_same (accounted : queue.Accounted) (stopped : other.isStopped = queue.isStopped)
    (entries : other.entries = queue.entries) (history : other.history = queue.history) :
    other.Accounted where
  stopped := by rw [stopped, history]; exact accounted.stopped
  within := by rw [entries, history]; exact accounted.within
  whole := by rw [entries, history]; exact accounted.whole
  lawful := by rw [history]; exact accounted.lawful

theorem not_stopped_mem (accounted : queue.Accounted) (runs : queue.isStopped = false) :
    .stopped ∉ queue.history := by
  rw [← accounted.stopped, runs]
  simp

theorem note (accounted : queue.Accounted) {deed : Deed} (noEntry : deed.incoming = [])
    (noStart : deed.begun = []) (notStopped : deed ≠ .stopped)
    (lawful : deed.Lawful queue.history) : (queue.note deed).Accounted where
  stopped := by
    have kept : .stopped ∈ (queue.note deed).history ↔ .stopped ∈ queue.history := by
      simp [Queue.note, Ne.symm notStopped]
    rw [kept]
    exact accounted.stopped
  within := by simpa [Queue.note, noEntry, noStart] using accounted.within
  whole := by
    intro noClear noStop entry
    simp only [Queue.note, List.mem_cons, not_or] at noClear noStop
    simpa [Queue.note, noEntry, noStart] using accounted.whole noClear.2 noStop.2 entry
  lawful := ⟨lawful, accounted.lawful⟩

theorem receive (accounted : queue.Accounted) {entries waiting : List Entry}
    (put : ∀ entry, waiting.count entry = queue.entries.count entry + entries.count entry) :
    ({ queue with entries := waiting }.note (.received entries)).Accounted where
  stopped := by simpa [Queue.note, Queue.isStopped] using accounted.stopped
  within := by
    intro entry
    have bound := accounted.within entry
    simp only [Queue.note, Deed.receivedIn_cons, Deed.startedIn_cons, Deed.incoming, Deed.begun,
      List.nil_append, List.count_append, put]
    omega
  whole := by
    intro noClear noStop entry
    simp only [Queue.note, List.mem_cons, not_or] at noClear noStop
    have balance := accounted.whole noClear.2 noStop.2 entry
    simp only [Queue.note, Deed.receivedIn_cons, Deed.startedIn_cons, Deed.incoming, Deed.begun,
      List.nil_append, List.count_append, put]
    omega
  lawful := ⟨trivial, accounted.lawful⟩

theorem start (accounted : queue.Accounted) (runs : queue.isStopped = false) {entry : Entry}
    {entries : List Entry} (split : queue.entries = entry :: entries) :
    ({ queue with entries }.note (.started entry)).Accounted where
  stopped := by simpa [Queue.note, Queue.isStopped] using accounted.stopped
  within := by
    intro other
    have bound := accounted.within other
    simp only [split, Queue.note, Deed.receivedIn_cons, Deed.startedIn_cons, Deed.incoming,
      Deed.begun, List.nil_append, List.cons_append, List.count_cons] at bound ⊢
    omega
  whole := by
    intro noClear noStop other
    simp only [Queue.note, List.mem_cons, not_or] at noClear noStop
    have balance := accounted.whole noClear.2 noStop.2 other
    simp only [split, Queue.note, Deed.receivedIn_cons, Deed.startedIn_cons, Deed.incoming,
      Deed.begun, List.nil_append, List.cons_append, List.count_cons] at balance ⊢
    omega
  lawful := by
    have bound := accounted.within entry
    rw [split, List.count_cons_self] at bound
    have fewer : (startedIn queue.history).count entry < (receivedIn queue.history).count entry := by
      omega
    exact ⟨⟨accounted.not_stopped_mem runs, fewer⟩, accounted.lawful⟩

theorem drop (accounted : queue.Accounted) {deed : Deed} (noEntry : deed.incoming = [])
    (noStart : deed.begun = []) (entry : Entry) :
    (startedIn (deed :: queue.history)).count entry + ([] : List Entry).count entry ≤
      (receivedIn (deed :: queue.history)).count entry := by
  have bound := accounted.within entry
  rw [Deed.startedIn_cons, Deed.receivedIn_cons, noEntry, noStart, List.nil_append, List.nil_append,
    List.count_nil]
  omega

theorem clear (accounted : queue.Accounted) : queue.clearEntries.Accounted where
  stopped := by simpa [Queue.clearEntries, Queue.note, Queue.isStopped] using accounted.stopped
  within := accounted.drop rfl rfl
  whole := by simp [Queue.clearEntries, Queue.note]
  lawful := ⟨trivial, accounted.lawful⟩

theorem close (accounted : queue.Accounted) (runs : queue.isStopped = false) :
    queue.close.Accounted where
  stopped := by simp [Queue.close, Queue.note, Queue.isStopped]
  within := accounted.drop rfl rfl
  whole := by simp [Queue.close, Queue.note]
  lawful := ⟨accounted.not_stopped_mem runs, accounted.lawful⟩

theorem lawful_ranDry (accounted : queue.Accounted) {now : Duration}
    (dry : queue.isFinished now = true) : Deed.Lawful queue.history .ranDry := by
  obtain ⟨runs, nothingWaits, _⟩ := Queue.isFinished_iff.1 dry
  have noStop := accounted.not_stopped_mem runs
  refine ⟨noStop, fun noClear => List.perm_iff_count.2 fun entry => ?_⟩
  have balance := accounted.whole noClear noStop entry
  simpa [nothingWaits] using balance

theorem turn (turn : queue.Turn other) (accounted : queue.Accounted) : other.Accounted := by
  cases turn with
  | alike same =>
      exact accounted.of_same (by simp [Queue.isStopped, same.phase]) same.entries same.history
  | make id kind fire => exact .make id kind fire
  | add entries => exact accounted.receive (by simp)
  | inject index entries =>
      refine accounted.receive fun entry => ?_
      have whole := congrArg (List.count entry) (queue.entries.take_append_drop index)
      rw [List.count_append] at whole
      simp only [List.count_append]
      omega
  | clear => exact accounted.clear
  | launch new =>
      have runs : queue.isStopped = false := by rw [Queue.isStopped, new]; rfl
      have running : ({ queue with phase := .running } : Queue).Accounted :=
        accounted.of_same (by rw [runs]; rfl) rfl rfl
      exact running.note rfl rfl (by simp) (accounted.not_stopped_mem runs)
  | start taken =>
      obtain ⟨runs, entries, split, rfl⟩ := Queue.nextStep_execute taken
      exact accounted.start runs split
  | finish entry => exact accounted.note rfl rfl (by simp) trivial
  | runDry dry => exact accounted.note rfl rfl (by simp) (accounted.lawful_ranDry dry)
  | wind timer runs => exact accounted.of_same rfl rfl rfl
  | close runs => exact accounted.close runs

end Queue.Accounted

def executing (ref : QueueRef) (frames : List Frame) : List Entry :=
  frames.flatMap fun frame => if frame.queue = ref then frame.entry.toList else []

theorem executing_cons_self (ref : QueueRef) (first : Bool) (entry : Option Entry)
    (frames : List Frame) :
    executing ref (⟨ref, first, entry⟩ :: frames) = entry.toList ++ executing ref frames := by
  simp [executing]

theorem executing_cons_of_ne {ref other : QueueRef} (different : other ≠ ref) (first : Bool)
    (entry : Option Entry) (frames : List Frame) :
    executing other (⟨ref, first, entry⟩ :: frames) = executing other frames := by
  simp [executing, Ne.symm different]

theorem executing_cons_none (ref other : QueueRef) (first : Bool) (frames : List Frame) :
    executing other (⟨ref, first, none⟩ :: frames) = executing other frames := by
  simp [executing]

theorem executing_of_not_mem {ref : QueueRef} {frames : List Frame}
    (absent : ref ∉ frames.map (·.queue)) : executing ref frames = [] := by
  simp only [executing, List.flatMap_eq_nil_iff]
  intro frame member
  rw [if_neg]
  rintro rfl
  exact absent (List.mem_map_of_mem member)

def Deed.DriesSettled : List Deed → Prop
  | [] => True
  | deed :: before =>
    (deed = .ranDry → executedIn before = startedIn before) ∧ DriesSettled before

theorem Deed.DriesSettled.split {later before : List Deed}
    (settled : DriesSettled (later ++ .ranDry :: before)) :
    executedIn before = startedIn before := by
  induction later with
  | nil => exact settled.1 rfl
  | cons _ _ ih => exact ih settled.2

structure Queue.Squared (executing : List Entry) (queue : Queue) : Prop where
  square : startedIn queue.history = executing ++ executedIn queue.history
  settled : Deed.DriesSettled queue.history

theorem Queue.Squared.of_history {executing : List Entry} {queue other : Queue}
    (squared : queue.Squared executing) (same : other.history = queue.history) :
    other.Squared executing where
  square := by rw [same]; exact squared.square
  settled := by rw [same]; exact squared.settled

theorem Queue.Squared.record {executing : List Entry} {queue other : Queue}
    (squared : queue.Squared executing) (deed : Deed)
    (recorded : other.history = deed :: queue.history) (noStart : deed.begun = [])
    (noEnd : deed.ended = []) (notDry : deed ≠ .ranDry) : other.Squared executing where
  square := by simpa [recorded, noStart, noEnd] using squared.square
  settled := by
    rw [recorded]
    exact ⟨fun dry => absurd dry notDry, squared.settled⟩

structure Stage.Squared (stage : Stage η) : Prop where
  nested : stage.Nested
  queues : ∀ ref, (stage.world.queue ref).Squared (executing ref stage.frames)

namespace Stage.Squared

variable {frames : List Frame} {world : World η} {ref : QueueRef}

theorem modifyQueue (squared : Stage.Squared ⟨frames, world⟩) {change : Queue → Queue}
    (kept : ∀ {executing}, (world.queue ref).Squared executing →
      (change (world.queue ref)).Squared executing) (other : QueueRef) :
    ((world.modifyQueue ref change).queue other).Squared (executing other frames) := by
  rcases world.queue_modifyQueue_cases ref other change with ⟨rfl, _, changed⟩ | same
  · rw [changed]
    exact kept (squared.queues other)
  · rw [same]
    exact squared.queues other

theorem executing_top {first : Bool} {entry : Option Entry}
    (squared : Stage.Squared ⟨⟨ref, first, entry⟩ :: frames, world⟩) :
    executing ref frames = [] := by
  have apart := squared.nested.apart
  rw [List.map_cons, List.nodup_cons] at apart
  exact executing_of_not_mem apart.1

theorem changeTop {first : Bool} {entry : Option Entry}
    (squared : Stage.Squared ⟨⟨ref, first, entry⟩ :: frames, world⟩) (next : Option Entry)
    {change : Queue → Queue}
    (changed : (change (world.queue ref)).Squared next.toList) (other : QueueRef) :
    ((world.modifyQueue ref change).queue other).Squared
      (executing other (⟨ref, first, next⟩ :: frames)) := by
  by_cases same : other = ref
  · subst same
    rw [World.queue_modifyQueue_self squared.nested.made_top, executing_cons_self, squared.executing_top,
      List.append_nil]
    exact changed
  · rw [World.queue_modifyQueue_of_ne same, executing_cons_of_ne same]
    simpa only [executing_cons_of_ne same] using squared.queues other

theorem queue_top {first : Bool} {entry : Option Entry}
    (squared : Stage.Squared ⟨⟨ref, first, entry⟩ :: frames, world⟩) :
    (world.queue ref).Squared entry.toList := by
  have whole := squared.queues ref
  rwa [executing_cons_self, squared.executing_top, List.append_nil] at whole

theorem make (squared : Stage.Squared ⟨[], world⟩) (id : String) (kind : QueueKind) :
    Stage.Squared ⟨[], (world.makeQueue id kind).2⟩ := by
  refine ⟨.idle _, fun ref => ?_⟩
  have before := squared.queues ref
  rcases world.queue_makeQueue_cases id kind ref with ⟨new, made⟩ | same
  · rw [new] at before
    exact made ▸ before.of_history rfl
  · exact same ▸ before

theorem move {stage later : Stage η} (move : Move stage later) (squared : stage.Squared) :
    later.Squared := by
  refine ⟨.move move squared.nested, ?_⟩
  cases move with
  | beside frames same =>
      intro ref
      simpa only [World.queue, same.queues] using squared.queues ref
  | adjust frames world other change alike =>
      exact squared.modifyQueue fun kept => kept.of_history (alike _).history
  | add frames world other entries =>
      exact squared.modifyQueue fun kept => kept.record (.received entries) rfl rfl rfl (by simp)
  | inject frames world other index entries =>
      exact squared.modifyQueue fun kept => kept.record (.received entries) rfl rfl rfl (by simp)
  | clear frames world other =>
      exact squared.modifyQueue fun kept => kept.record .cleared rfl rfl rfl (by simp)
  | enlist frames world id kind =>
      intro ref
      have before := squared.queues ref
      rcases world.queue_queueOrCreate_cases id kind ref with ⟨new, made⟩ | same
      · rw [new] at before
        exact made ▸ before.of_history rfl
      · exact same ▸ before
  | halt frames world other runs =>
      intro ref
      rw [World.queue_halt]
      exact squared.modifyQueue (fun kept => kept.record .stopped rfl rfl rfl (by simp)) ref
  | launch frames world other made new =>
      intro ref
      rw [executing_cons_none]
      exact squared.modifyQueue (fun kept => kept.record .began rfl rfl rfl (by simp)) ref
  | revolve world other runs =>
      intro ref
      rw [executing_cons_none]
      exact squared.queues ref
  | @take frames world other first entry rest taken =>
      obtain ⟨_, entries, _, rfl⟩ := Queue.nextStep_execute taken
      rw [World.modifyQueue_modifyQueue]
      have before := squared.queue_top
      refine squared.changeTop (some entry) ⟨?_, fun dry => ?_, before.settled⟩
      · simpa [Queue.note, Deed.begun, Deed.ended] using before.square
      · cases dry
  | finish frames world other first entry =>
      have before := squared.queue_top
      refine squared.changeTop none ⟨?_, fun dry => ?_, before.settled⟩
      · simpa [Queue.note, Deed.begun, Deed.ended] using before.square
      · cases dry
  | runDry dry =>
      have before := squared.queue_top
      refine squared.changeTop none ⟨?_, fun _ => ?_, before.settled⟩
      · simpa [Queue.note, Deed.begun, Deed.ended] using before.square
      · exact before.square.symm
  | wind unwound runs => exact squared.modifyQueue fun kept => kept.of_history rfl
  | leave settled =>
      intro ref
      simpa only [executing_cons_none] using squared.queues ref
  | shift frames shift => exact squared.queues

end Stage.Squared

theorem Queue.Turn.history_suffix {queue other : Queue} (turn : queue.Turn other) :
    queue.history <:+ other.history := by
  cases turn with
  | alike same => exact same.history ▸ List.suffix_refl _
  | make id kind fire => exact List.suffix_refl _
  | start taken =>
      obtain ⟨_, _, _, rfl⟩ := Queue.nextStep_execute taken
      exact List.suffix_cons _ _
  | wind timer runs => exact List.suffix_refl _
  | _ => exact List.suffix_cons _ _

structure Stage.Accounted (stage : Stage η) : Prop where
  queues : ∀ ref, (stage.world.queue ref).Accounted
  squared : stage.Squared

theorem Stage.Accounted.move {stage later : Stage η} (move : Move stage later)
    (accounted : stage.Accounted) : later.Accounted :=
  ⟨fun ref => .turn (move.turn ref) (accounted.queues ref), .move move accounted.squared⟩

theorem Stage.Accounted.make {world : World η} (accounted : Stage.Accounted ⟨[], world⟩)
    (id : String) (kind : QueueKind) : Stage.Accounted ⟨[], (world.makeQueue id kind).2⟩ :=
  ⟨fun ref => .turn (.makeQueue id kind world ref) (accounted.queues ref),
    accounted.squared.make id kind⟩

theorem Stage.Accounted.fresh (engine : Engine η) (host : η) :
    Stage.Accounted ⟨[], (engine.start host).world⟩ where
  queues := fun _ => .make "" .instant ⟨0⟩
  squared := ⟨.idle _, fun _ => ⟨rfl, trivial⟩⟩

namespace Engine.Runs

variable {engine : Engine η} {calls : List HostCall} {start finish : Tag.Evaluation (World η)}

theorem accounted (standard : engine.Standard) {host : η}
    (runs : engine.Runs calls (engine.start host) finish) :
    Stage.Accounted ⟨[], finish.world⟩ :=
  runs.keeps standard Stage.Accounted .move (fun _ id kind kept => kept.make id kind)
    (fun _ _ kept => ⟨kept.queues, .idle _, kept.squared.queues⟩)
    (.fresh engine host)

/-- Nothing that was done to a queue is ever forgotten. -/
theorem history_suffix (standard : engine.Standard) (runs : engine.Runs calls start finish)
    (ref : QueueRef) :
    (start.world.queue ref).history <:+ (finish.world.queue ref).history :=
  runs.keeps standard
    (fun stage => (start.world.queue ref).history <:+ (stage.world.queue ref).history)
    (fun move kept => kept.trans (move.turn ref).history_suffix)
    (fun world id kind kept => kept.trans (Queue.Turn.makeQueue id kind world ref).history_suffix)
    (fun _ _ kept => kept) (List.suffix_refl _)

/-- In every run, however it goes on, and for every queue: at no moment was an entry started more
often than it was received; a queue that has stopped stays so and starts nothing more; and when a
queue ran dry that nobody had cleared, all it had received was executed, each entry as often as it
was received. -/
theorem conserves_entries (standard : engine.Standard) {host : η} {more : List HostCall}
    {state : Tag.Evaluation (World η)} (runs : engine.Runs calls (engine.start host) state)
    (goesOn : engine.Runs more state finish) (ref : QueueRef) :
    (∀ later before, (state.world.queue ref).history = later ++ before → ∀ entry,
        (startedIn before).count entry ≤ (receivedIn before).count entry) ∧
      executedIn (state.world.queue ref).history = startedIn (state.world.queue ref).history ∧
      ((state.world.queue ref).phase = .stopped → (finish.world.queue ref).phase = .stopped ∧
        startedIn (finish.world.queue ref).history = startedIn (state.world.queue ref).history) ∧
      (∀ later before, (state.world.queue ref).history = later ++ .stopped :: before →
        startedIn later = [] ∧ .began ∉ later ∧ .ranDry ∉ later ∧ .stopped ∉ later) ∧
      (∀ later before, (state.world.queue ref).history = later ++ .ranDry :: before →
        .cleared ∉ before → (executedIn before).Perm (receivedIn before)) := by
  obtain ⟨accounted, squared⟩ := runs.accounted standard
  have lawful := (accounted ref).lawful
  refine ⟨?_, ?_, ?_, ?_, ?_⟩
  · intro later before split
    rw [split] at lawful
    exact lawful.suffix.count_le
  · exact (squared.queues ref).square.symm
  · intro stopped
    have wasStopped : (state.world.queue ref).isStopped = true := by
      rw [Queue.isStopped, stopped]
      rfl
    -- the stop is recorded, and what is recorded stays at the end of every later history
    have recorded := (accounted ref).stopped.1 wasStopped
    have last := ((runs.append goesOn).accounted standard).queues ref
    obtain ⟨later, split⟩ := goesOn.history_suffix standard ref
    have lastLawful := last.lawful
    rw [← split] at lastLawful
    refine ⟨?_, ?_⟩
    · have stillRecorded : .stopped ∈ (finish.world.queue ref).history := by
        rw [← split]
        exact List.mem_append_right later recorded
      simpa [Queue.isStopped] using last.stopped.2 stillRecorded
    · rw [← split]
      exact lastLawful.startedIn_append recorded
  · intro later before split
    rw [split] at lawful
    exact lawful.after_stopped
  · intro later before split notCleared
    have settled := (squared.queues ref).settled
    rw [split] at lawful settled
    rw [settled.split]
    exact lawful.split.2 notCleared

theorem conserves_entries_define :
    let entry := Entry.ofCommand "define" ["name", "value"]
    let engine : Engine Unit := .builtin {}
    ∃ state finish, engine.Runs [.make "q" .instant, .add ⟨0⟩ [entry], .start ⟨0⟩] (engine.start ()) state ∧
      engine.Runs [.add ⟨0⟩ [entry]] state finish ∧
      (state.world.queue ⟨0⟩).history =
        [.stopped, .ranDry, .executed entry, .started entry, .began, .received [entry]] ∧
      (finish.world.queue ⟨0⟩).phase = .stopped ∧
      startedIn (finish.world.queue ⟨0⟩).history = [entry] ∧
      (executedIn [.executed entry, .started entry, .began, .received [entry]]).Perm [entry] := by
  intro entry engine
  have answered : ((engine.answer 3 [.make "q" .instant, .add ⟨0⟩ [entry], .start ⟨0⟩]
      (engine.start ())).bind fun state => (engine.answer 3 [.add ⟨0⟩ [entry]] state).map fun finish =>
        ((state.world.queue ⟨0⟩).history, (state.world.queue ⟨0⟩).phase)) =
      some ([.stopped, .ranDry, .executed entry, .started entry, .began, .received [entry]],
        .stopped) := by
    decide +kernel
  obtain ⟨state, first, answered⟩ := Option.bind_eq_some_iff.1 answered
  obtain ⟨finish, second, told⟩ := Option.map_eq_some_iff.1 answered
  obtain ⟨history, phase⟩ := Prod.mk.inj told
  have runs := Engine.runs_of_answer first
  have goesOn := Engine.runs_of_answer second
  obtain ⟨_, _, stays, _, dry⟩ := conserves_entries (Engine.builtin_standard {}) runs goesOn ⟨0⟩
  refine ⟨state, finish, runs, goesOn, history, (stays phase).1, ?_, ?_⟩
  · rw [(stays phase).2, history]
    rfl
  · exact dry [.stopped] _ history (by simp)

end Engine.Runs

end TagScript
