import TagScript.Proofs.Engine.Secures

/-! The books on holds. Every hold of a queue is there for something that the queue waits for: a script
that it fired and that has not stopped, or work on the pool that was not reported back. Inside a
revolution there may be debts besides, holds that were taken or are about to be given up. -/

namespace TagScript

variable {η α β : Type}

open RunM (Secures)

def Note.isAwait (ref : QueueRef) (stopped : QueueRef → Bool) : Note → Bool
  | .awaits queue target => queue = ref && !stopped target
  | _ => false

def Note.isAccount : Note → Bool
  | .awaits _ _ | .handed _ | .reported _ | .overdrawn _ => true
  | _ => false

def AsyncWork.waiting (work : AsyncWork) : Option QueueRef :=
  if work.holds then some work.queue else none

def Job.waiting : Job QueueRef AsyncWork → Option QueueRef
  | .work callback => callback.waiting
  | .timer _ _ => none

def Message.waiting : Message AsyncWork → Option QueueRef
  | .callback work => work.waiting
  | .completed _ => none

def Scheduler.works (scheduler : Scheduler QueueRef AsyncWork) : List QueueRef :=
  scheduler.jobs.filterMap Job.waiting ++ scheduler.inbox.filterMap Message.waiting

namespace Scheduler

variable (ref : QueueRef) (scheduler : Scheduler QueueRef AsyncWork)

theorem count_works_spawn (job : Job QueueRef AsyncWork) :
    (scheduler.spawn job).works.count ref =
      scheduler.works.count ref + job.waiting.toList.count ref := by
  cases waiting : job.waiting <;> simp [works, spawn, waiting, List.count_cons]
  omega

theorem count_works_takeJob {job : Job QueueRef AsyncWork}
    {rest scheduler : Scheduler QueueRef AsyncWork} (taken : scheduler.takeJob? = some (job, rest)) :
    rest.works.count ref + job.waiting.toList.count ref = scheduler.works.count ref := by
  unfold takeJob? at taken
  split at taken
  · cases taken
  · rename_i first jobs same
    obtain ⟨rfl, rfl⟩ := Prod.mk.inj (Option.some.inj taken)
    cases waiting : first.waiting <;> simp [works, same, waiting, List.count_cons]

theorem count_works_post (message : Message AsyncWork) :
    (scheduler.post message).works.count ref =
      scheduler.works.count ref + message.waiting.toList.count ref := by
  cases waiting : message.waiting <;> simp [works, post, waiting]
  omega

end Scheduler

/-- How many running queues the queue waits for. -/
def World.awaited (ref : QueueRef) (world : World η) : Nat :=
  world.notes.countP (Note.isAwait ref fun target => (world.queue target).isStopped)

/-- The books, with queues that are known to have been made, holds that are owed, and queues whose work
was taken from the inbox and will be reported next. -/
structure Books (known debts hands : List QueueRef) (world : World η) : Prop where
  known : ∀ ref ∈ known, ref.index < world.queues.size
  live : world.LiveMade
  holds : ∀ ref, (world.queue ref).holds + world.notes.count (.reported ref) =
    world.awaited ref + world.notes.count (.handed ref) + debts.count ref
  hands : ∀ ref, world.scheduler.works.count ref + hands.count ref +
    world.notes.count (.reported ref) ≤ world.notes.count (.handed ref)
  due : ∀ ref target, (world.queue target).isStopped = false →
    (world.queue target).onStop.count (.release ref) = world.notes.count (.awaits ref target)
  sound : ∀ ref, .overdrawn ref ∉ world.notes

structure Queue.OffBooks (queue other : Queue) : Prop where
  holds : other.holds = queue.holds
  isStopped : other.isStopped = queue.isStopped
  onStop : ∀ ref, other.onStop.count (.release ref) = queue.onStop.count (.release ref)

structure World.OffBooks (world other : World η) : Prop where
  size : world.queues.size ≤ other.queues.size
  live : ∀ named ∈ other.live, named ∈ world.live ∨ named.2.index < other.queues.size
  queues : ∀ ref, (world.queue ref).OffBooks (other.queue ref)
  notes : ∃ told, (∀ note ∈ told, Note.isAccount note = false) ∧ other.notes = told ++ world.notes
  works : ∀ ref, other.scheduler.works.count ref ≤ world.scheduler.works.count ref

theorem Queue.OffBooks.refl (queue : Queue) : queue.OffBooks queue := ⟨rfl, rfl, fun _ => rfl⟩

theorem Note.count_append {told notes : List Note} (private_ : ∀ note ∈ told, isAccount note = false)
    {note : Note} (account : note.isAccount = true) : (told ++ notes).count note = notes.count note := by
  have absent : note ∉ told := fun member => by simp [private_ note member] at account
  rw [List.count_append, List.count_eq_zero.2 absent, Nat.zero_add]

theorem Note.countP_isAwait_stop {stopped stops : QueueRef → Bool} {target : QueueRef}
    (runs : stopped target = false)
    (stop : ∀ other, stops other = (stopped other || decide (other = target))) (ref : QueueRef)
    (notes : List Note) :
    notes.countP (isAwait ref stopped) =
      notes.countP (isAwait ref stops) + notes.count (.awaits ref target) := by
  induction notes with
  | nil => rfl
  | cons note rest ih =>
      rw [List.countP_cons, List.countP_cons, List.count_cons, ih]
      cases note with
      | awaits queue other =>
          by_cases same : other = target
          · subst same
            by_cases own : queue = ref
            · simp [isAwait, stop, runs, own]
              omega
            · simp [isAwait, own]
          · simp [isAwait, stop, same]
            omega
      | _ => simp [isAwait]

def StopAction.releases (actions : List StopAction) : List QueueRef :=
  actions.filterMap fun
    | .release queue => some queue
    | .notify _ => none

theorem StopAction.count_releases (actions : List StopAction) (ref : QueueRef) :
    (releases actions).count ref = actions.count (.release ref) := by
  induction actions with
  | nil => rfl
  | cons action rest ih =>
      unfold releases at ih ⊢
      cases action with
      | release queue => simp [List.count_cons, ih]
      | notify label => simp [ih]

namespace World

variable {world other later : World η}

@[simp]
theorem queues_jot (note : Note) (world : World η) : (world.jot note).queues = world.queues := rfl

@[simp]
theorem queue_jot (note : Note) (ref : QueueRef) (world : World η) :
    (world.jot note).queue ref = world.queue ref := rfl

@[simp]
theorem notes_jot (note : Note) (world : World η) : (world.jot note).notes = note :: world.notes := rfl

@[simp]
theorem scheduler_jot (note : Note) (world : World η) :
    (world.jot note).scheduler = world.scheduler := rfl

@[simp]
theorem notes_modifyQueue (ref : QueueRef) (change : Queue → Queue) (world : World η) :
    (world.modifyQueue ref change).notes = world.notes := rfl

@[simp]
theorem scheduler_modifyQueue (ref : QueueRef) (change : Queue → Queue) (world : World η) :
    (world.modifyQueue ref change).scheduler = world.scheduler := rfl

theorem awaited_jot (note : Note) (ref : QueueRef) (world : World η) :
    (world.jot note).awaited ref = world.awaited ref +
      if Note.isAwait ref (fun target => (world.queue target).isStopped) note then 1 else 0 :=
  List.countP_cons

namespace OffBooks

theorem of_same (queues : other.queues = world.queues) (notes : other.notes = world.notes)
    (scheduler : other.scheduler = world.scheduler) (live : other.live ⊆ world.live) :
    world.OffBooks other := by
  refine ⟨by rw [queues], fun _ member => .inl (live member), fun ref => ?_, ⟨[], by simp, notes⟩,
    fun ref => by rw [scheduler]⟩
  rw [queue, queue, queues]
  exact .refl _

theorem refl (world : World η) : world.OffBooks world := of_same rfl rfl rfl (List.Subset.refl _)

theorem modifyQueue (ref : QueueRef) {change : Queue → Queue}
    (same : (world.queue ref).OffBooks (change (world.queue ref))) :
    world.OffBooks (world.modifyQueue ref change) := by
  refine ⟨by rw [size_modifyQueue], fun _ member => .inl member, fun other => ?_,
    ⟨[], by simp, rfl⟩, fun _ => Nat.le_refl _⟩
  rcases world.queue_modifyQueue_cases ref other change with ⟨rfl, _, changed⟩ | kept
  · rw [changed]
    exact same
  · rw [kept]
    exact .refl _

theorem makeQueue (id : String) (kind : QueueKind) (world : World η) :
    world.OffBooks (world.makeQueue id kind).2 := by
  refine ⟨size_le_makeQueue id kind world, fun _ member => .inl member, fun ref => ?_,
    ⟨[], by simp, rfl⟩, fun _ => Nat.le_refl _⟩
  rcases world.queue_makeQueue_cases id kind ref with ⟨missing, made⟩ | kept
  · rw [missing, made]
    exact ⟨rfl, rfl, fun _ => rfl⟩
  · rw [kept]
    exact .refl _

theorem reschedule {scheduler : Scheduler QueueRef AsyncWork}
    (works : ∀ ref, scheduler.works.count ref ≤ world.scheduler.works.count ref) :
    world.OffBooks { world with scheduler } :=
  ⟨Nat.le_refl _, fun _ member => .inl member, fun _ => .refl _, ⟨[], by simp, rfl⟩, works⟩

theorem spoke (spoke : world.Spoke other) : world.OffBooks other := by
  obtain ⟨events, spoken, host, allSpoken, rfl⟩ := spoke
  refine ⟨Nat.le_refl _, fun _ member => .inl member, fun _ => .refl _,
    ⟨spoken, fun note member => ?_, rfl⟩, fun _ => Nat.le_refl _⟩
  have spoken := allSpoken note member
  cases note <;> first | rfl | cases spoken

end OffBooks

end World

namespace Books

variable {known debts hands : List QueueRef} {world later : World η} {ref : QueueRef}

theorem start (engine : Engine η) (host : η) : Books [] [] [] (engine.start host).world where
  known := by simp
  live := fun _ member => absurd member List.not_mem_nil
  holds := fun _ => rfl
  hands := fun _ => Nat.le_refl _
  due := fun _ _ _ => rfl
  sound := fun _ member => absurd member List.not_mem_nil

theorem offBooks (books : Books known debts hands world) (same : world.OffBooks later) :
    Books known debts hands later := by
  obtain ⟨told, unseen, notes⟩ := same.notes
  have count {note : Note} (account : note.isAccount = true) :
      later.notes.count note = world.notes.count note := by
    rw [notes, Note.count_append unseen account]
  have awaited (ref : QueueRef) : later.awaited ref = world.awaited ref := by
    have stopped : (fun target => (later.queue target).isStopped) =
        fun target => (world.queue target).isStopped := funext fun target => (same.queues target).isStopped
    have silent : told.countP (Note.isAwait ref fun target => (world.queue target).isStopped) = 0 := by
      refine List.countP_eq_zero.2 fun note member => ?_
      have unseen := unseen note member
      cases note <;> first | exact Bool.false_ne_true | cases unseen
    rw [World.awaited, stopped, notes, List.countP_append, silent, Nat.zero_add, World.awaited]
  constructor
  · exact fun ref member => Nat.lt_of_lt_of_le (books.known ref member) same.size
  · intro named member
    refine (same.live named member).elim (fun old => ?_) id
    exact Nat.lt_of_lt_of_le (books.live named old) same.size
  · intro ref
    rw [(same.queues ref).holds, awaited, count rfl, count rfl]
    exact books.holds ref
  · intro ref
    have kept := books.hands ref
    have fewer := same.works ref
    rw [count rfl, count rfl]
    omega
  · intro ref target runs
    rw [(same.queues target).isStopped] at runs
    rw [(same.queues target).onStop ref, count rfl]
    exact books.due ref target runs
  · intro ref member
    rw [notes] at member
    rcases List.mem_append.1 member with new | old
    · exact absurd (unseen _ new) Bool.noConfusion
    · exact books.sound ref old

theorem forget (books : Books (ref :: known) debts hands world) : Books known debts hands world :=
  { books with known := fun other member => books.known other (List.mem_cons_of_mem _ member) }

theorem remember (books : Books known debts hands world) (made : ref.index < world.queues.size) :
    Books (ref :: known) debts hands world :=
  { books with known := List.forall_mem_cons.2 ⟨made, books.known⟩ }

theorem transfer {owed : List QueueRef} {change : Queue → Queue}
    (books : Books known debts hands world)
    (isStopped : ∀ queue : Queue, (change queue).isStopped = queue.isStopped)
    (onStop : ∀ queue : Queue, (change queue).onStop = queue.onStop)
    (balance : ∀ other, ((world.modifyQueue ref change).queue other).holds + debts.count other =
      (world.queue other).holds + owed.count other) :
    Books known owed hands (world.modifyQueue ref change) := by
  have kept (target : QueueRef) :
      ((world.modifyQueue ref change).queue target).isStopped = (world.queue target).isStopped ∧
        ((world.modifyQueue ref change).queue target).onStop = (world.queue target).onStop := by
    rcases world.queue_modifyQueue_cases ref target change with ⟨_, _, same⟩ | same
    · rw [same]
      exact ⟨isStopped _, onStop _⟩
    · rw [same]
      exact ⟨rfl, rfl⟩
  constructor
  · simpa using books.known
  · exact fun named member => by simpa using books.live named member
  · intro other
    have awaited : (world.modifyQueue ref change).awaited other = world.awaited other := by
      simp only [World.awaited, (kept _).1, World.notes_modifyQueue]
    have before := books.holds other
    have after := balance other
    rw [awaited, World.notes_modifyQueue]
    omega
  · exact books.hands
  · intro other target runs
    rw [(kept target).1] at runs
    rw [(kept target).2]
    exact books.due other target runs
  · exact books.sound

theorem hold (books : Books known debts hands world) (member : ref ∈ known) :
    Books known (ref :: debts) hands (world.modifyQueue ref Queue.hold) := by
  refine books.transfer (fun _ => rfl) (fun _ => rfl) fun other => ?_
  by_cases same : other = ref
  · subst same
    rw [World.queue_modifyQueue_self (books.known _ member), List.count_cons_self]
    simp only [Queue.hold]
    omega
  · rw [World.queue_modifyQueue_of_ne same, List.count_cons_of_ne (Ne.symm same)]

theorem owed (books : Books known (ref :: debts) hands world) : 0 < (world.queue ref).holds := by
  have balance := books.holds ref
  have enough := books.hands ref
  rw [List.count_cons_self] at balance
  omega

theorem checkHold (books : Books known (ref :: debts) hands world) : world.checkHold ref = world := by
  rw [World.checkHold, if_neg]
  exact fun short => absurd short.2 (Nat.ne_of_gt books.owed)

theorem release (books : Books known (ref :: debts) hands world) :
    Books known debts hands (world.modifyQueue ref Queue.release) := by
  have held := books.owed
  have made : ref.index < world.queues.size := by
    by_contra missing
    rw [World.queue_of_size_le (Nat.le_of_not_lt missing)] at held
    exact absurd held (Nat.lt_irrefl 0)
  refine books.transfer (fun _ => rfl) (fun _ => rfl) fun other => ?_
  by_cases same : other = ref
  · subst same
    rw [World.queue_modifyQueue_self made, List.count_cons_self]
    simp only [Queue.release]
    omega
  · rw [World.queue_modifyQueue_of_ne same, List.count_cons_of_ne (Ne.symm same)]

theorem awaitStopped {target : QueueRef} (books : Books known debts hands world)
    (stopped : (world.queue target).isStopped = true) :
    Books known debts hands (world.jot (.awaits ref target)) := by
  constructor
  · exact books.known
  · exact books.live
  · intro other
    have before := books.holds other
    simpa [World.awaited_jot, Note.isAwait, stopped] using before
  · intro other
    simpa using books.hands other
  · intro other running runs
    have apart : Note.awaits ref target ≠ .awaits other running := by
      rintro ⟨⟩
      rw [World.queue_jot] at runs
      rw [runs] at stopped
      cases stopped
    rw [World.notes_jot, List.count_cons_of_ne apart]
    exact books.due other running runs
  · intro other
    simpa using books.sound other

theorem awaitRunning {target : QueueRef} (books : Books known (ref :: debts) hands world)
    (made : target.index < world.queues.size) (runs : (world.queue target).isStopped = false) :
    Books known debts hands ((world.jot (.awaits ref target)).modifyQueue target fun queue =>
      { queue with onStop := queue.onStop ++ [.release ref] }) := by
  let change (queue : Queue) : Queue := { queue with onStop := queue.onStop ++ [.release ref] }
  let asked := (world.jot (.awaits ref target)).modifyQueue target change
  have others (other : QueueRef) : (asked.queue other).holds = (world.queue other).holds ∧
      (asked.queue other).isStopped = (world.queue other).isStopped ∧
      (asked.queue other).onStop = (world.queue other).onStop ++
        if other = target then [.release ref] else [] := by
    by_cases same : other = target
    · subst same
      have changed : asked.queue other = change (world.queue other) :=
        World.queue_modifyQueue_self made change
      simp [changed, change, Queue.isStopped]
    · have kept : asked.queue other = world.queue other :=
        World.queue_modifyQueue_of_ne same change _
      simp [kept, same]
  have notes : asked.notes = .awaits ref target :: world.notes := rfl
  constructor
  · simpa using books.known
  · exact fun named member => by simpa using books.live named member
  · intro other
    have before := books.holds other
    have awaited : asked.awaited other = (world.jot (.awaits ref target)).awaited other := by
      simp only [World.awaited, (others _).2.1]
      rfl
    rw [(others other).1, awaited, World.awaited_jot, notes]
    by_cases same : other = ref
    · subst same
      simp [Note.isAwait, runs] at before ⊢
      omega
    · simp [Note.isAwait, Ne.symm same] at before ⊢
      exact before
  · intro other
    simpa using books.hands other
  · intro other running unstopped
    rw [(others running).2.1] at unstopped
    have before := books.due other running unstopped
    rw [(others running).2.2, notes, List.count_append, before]
    by_cases same : other = ref ∧ running = target
    · obtain ⟨rfl, rfl⟩ := same
      simp
    · have apart : Note.awaits ref target ≠ .awaits other running := by
        rintro ⟨⟩
        exact same ⟨rfl, rfl⟩
      rw [List.count_cons_of_ne apart]
      by_cases here : running = target
      · have different : ref ≠ other := fun equal => same ⟨equal.symm, here⟩
        simp [here, different]
      · simp [here]
  · intro other
    rw [notes]
    simpa using books.sound other

theorem handOver {scheduler : Scheduler QueueRef AsyncWork}
    (books : Books known (ref :: debts) hands world)
    (works : ∀ other, scheduler.works.count other =
      world.scheduler.works.count other + if ref = other then 1 else 0) :
    Books known debts hands (World.jot (.handed ref) { world with scheduler }) := by
  constructor
  · exact books.known
  · exact books.live
  · intro other
    have before := books.holds other
    have awaited : (World.jot (.handed ref) { world with scheduler }).awaited other =
        world.awaited other := World.awaited_jot (.handed ref) other _
    rw [awaited, World.notes_jot]
    simp only [List.count_cons] at before ⊢
    simp only [beq_iff_eq, Note.handed.injEq, reduceCtorEq, if_false] at before ⊢
    change (world.queue other).holds + _ = _
    omega
  · intro other
    have before := books.hands other
    have after := works other
    rw [World.notes_jot, World.scheduler_jot]
    simp only [List.count_cons, beq_iff_eq, Note.handed.injEq, reduceCtorEq, if_false]
    omega
  · intro other target runs
    rw [World.notes_jot, List.count_cons_of_ne Note.noConfusion]
    exact books.due other target runs
  · intro other
    simpa using books.sound other

theorem pass {more : List QueueRef} {scheduler : Scheduler QueueRef AsyncWork}
    (books : Books known debts hands world)
    (works : ∀ ref, scheduler.works.count ref + more.count ref ≤
      world.scheduler.works.count ref + hands.count ref) :
    Books known debts more { world with scheduler } := by
  refine ⟨books.known, books.live, books.holds, fun other => ?_, books.due, books.sound⟩
  have before := books.hands other
  have after := works other
  change scheduler.works.count other + more.count other + world.notes.count (.reported other) ≤
    world.notes.count (.handed other)
  omega

theorem report (books : Books known debts (ref :: hands) world) :
    Books known (ref :: debts) hands (world.jot (.reported ref)) := by
  constructor
  · exact books.known
  · exact books.live
  · intro other
    have before := books.holds other
    have awaited : (world.jot (.reported ref)).awaited other = world.awaited other :=
      World.awaited_jot (.reported ref) other _
    rw [awaited, World.notes_jot, World.queue_jot]
    simp only [List.count_cons, beq_iff_eq, Note.reported.injEq, reduceCtorEq, if_false]
    omega
  · intro other
    have before := books.hands other
    rw [World.notes_jot, World.scheduler_jot]
    simp only [List.count_cons, beq_iff_eq, Note.reported.injEq, reduceCtorEq, if_false] at before ⊢
    omega
  · intro other target runs
    rw [World.notes_jot, List.count_cons_of_ne Note.noConfusion]
    exact books.due other target runs
  · intro other
    simpa using books.sound other

theorem close {target : QueueRef} (books : Books known debts hands world)
    (runs : (world.queue target).isStopped = false) :
    Books known (StopAction.releases (world.queue target).onStop ++ debts) hands
      (world.modifyQueue target Queue.close) := by
  rcases Nat.lt_or_ge target.index world.queues.size with made | missing
  · let closed := world.modifyQueue target Queue.close
    have others (other : QueueRef) : (closed.queue other).holds = (world.queue other).holds ∧
        (closed.queue other).isStopped = ((world.queue other).isStopped || decide (other = target)) ∧
        (other ≠ target → (closed.queue other).onStop = (world.queue other).onStop) := by
      by_cases same : other = target
      · subst same
        have changed : closed.queue other = (world.queue other).close :=
          World.queue_modifyQueue_self made _
        simp [changed, Queue.close, Queue.note, Queue.isStopped]
      · have kept : closed.queue other = world.queue other := World.queue_modifyQueue_of_ne same _ _
        simp [kept, same]
    constructor
    · simpa using books.known
    · exact fun named member => by simpa using books.live named member
    · intro other
      have before := books.holds other
      have waiting : world.awaited other =
          (world.modifyQueue target Queue.close).awaited other +
            world.notes.count (.awaits other target) :=
        Note.countP_isAwait_stop runs (fun other => (others other).2.1) other world.notes
      rw [(others other).1, World.notes_modifyQueue, List.count_append, StopAction.count_releases,
        books.due other target runs]
      omega
    · exact books.hands
    · intro other running unstopped
      rw [(others running).2.1, Bool.or_eq_false_iff, decide_eq_false_iff_not] at unstopped
      rw [(others running).2.2 unstopped.2]
      exact books.due other running unstopped.1
    · exact books.sound
  · have nothing : (world.queue target).onStop = [] := by
      rw [World.queue_of_size_le missing]
      rfl
    rw [nothing]
    refine books.offBooks ⟨by simp, fun _ member => .inl member, fun other => ?_,
      ⟨[], by simp, rfl⟩, fun _ => Nat.le_refl _⟩
    rcases world.queue_modifyQueue_cases target other Queue.close with ⟨_, made, _⟩ | same
    · exact absurd made (Nat.not_lt_of_le missing)
    · rw [same]
      exact .refl _

end Books

/-! What the engine does to the books when holds are taken and given up. -/

section

variable {known debts hands : List QueueRef}

theorem Host.remark_books (host : Host) (queue text : String) :
    Secures (Books known debts hands) (host.remark queue text : RunM η Unit)
      fun _ => Books known debts hands :=
  .ite (fun _ => Host.message_secures (fun told books => books.offBooks (.spoke told.spoke)) host _ _)
    fun _ => .pure fun _ books => books

namespace RunM

theorem update_books {change : World η → World η}
    (same : ∀ world : World η, world.OffBooks (change world)) :
    Secures (Books known debts hands) (RunM.update change) fun _ => Books known debts hands :=
  .update fun world books => books.offBooks (same world)

theorem updateGet_books {change : World η → α × World η}
    (same : ∀ world : World η, world.OffBooks (change world).2) :
    Secures (Books known debts hands) (RunM.updateGet change) fun _ => Books known debts hands :=
  .updateGet fun world books => books.offBooks (same world)

theorem modifyQueue_books (ref : QueueRef) {change : Queue → Queue}
    (same : ∀ queue : Queue, queue.OffBooks (change queue)) :
    Secures (Books known debts hands) (RunM.modifyQueue ref change : RunM η Unit)
      fun _ => Books known debts hands :=
  update_books fun _ => .modifyQueue ref (same _)

theorem release_books (ref : QueueRef) :
    Secures (Books known (ref :: debts) hands) (RunM.release ref : RunM η Unit)
      fun _ => Books known debts hands := by
  have checks : Secures (Books known (ref :: debts) hands) (RunM.update (World.checkHold ref))
      fun _ => Books (η := η) known (ref :: debts) hands :=
    .update fun _ books => books.checkHold.symm ▸ books
  exact .bind checks fun _ => .update fun _ books => books.release

end RunM

namespace Queue

theorem carryOut_books (actions : List StopAction) :
    Secures (Books known (StopAction.releases actions ++ debts) hands)
      (actions.forM carryOut : RunM η Unit) fun _ => Books known debts hands := by
  induction actions with
  | nil => exact .pure fun _ books => books
  | cons action rest ih =>
      rw [List.forM_eq_forM, List.forM_cons]
      cases action with
      | release queue => exact .bind (RunM.release_books queue) fun _ => ih
      | notify label =>
          exact .bind (RunM.update_books fun world => .of_same rfl rfl rfl (List.Subset.refl _))
            fun _ => ih

theorem removeLive_offBooks (ref : QueueRef) (world : World η) :
    world.OffBooks (world.removeLive ref).2 := by
  unfold World.removeLive
  dsimp only
  split
  · exact .of_same rfl rfl rfl List.filter_sublist.subset
  · exact .refl world

theorem stop_books (host : Host) (ref : QueueRef) :
    Secures (Books known debts hands) (stop host ref : RunM η Unit) fun _ => Books known debts hands := by
  refine .each fun world books => .queue_bind ?_
  cases stopped : (world.queue ref).isStopped with
  | true => exact .pure fun _ same => same ▸ books
  | false =>
      let debts := StopAction.releases (world.queue ref).onStop ++ debts
      have closes : Secures (· = world) (RunM.modifyQueue ref Queue.close)
          fun _ => Books (η := η) known debts hands :=
        .update fun _ same => same ▸ books.close stopped
      have cancels : Secures (Books known debts hands) ((world.queue ref).timer.forM cancelTimer)
          fun _ => Books (η := η) known debts hands :=
        .forM_option _ fun timer _ => RunM.update_books fun world => .reschedule fun _ => Nat.le_refl _
      refine .bind closes fun _ => .bind cancels fun _ => ?_
      exact .bind (RunM.updateGet_books (removeLive_offBooks ref)) fun _ =>
        .bind (host.remark_books _ _) fun _ => carryOut_books _

end Queue

end

end TagScript
