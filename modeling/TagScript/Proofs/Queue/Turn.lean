import TagScript.Proofs.Engine.Moves

/-! What a move can do to one queue. Each queue goes through turns of its own: it is made, launched
and closed once, and in between entries come and go. -/

namespace TagScript

variable {η : Type}

namespace World

theorem queue_of_size_le {ref : QueueRef} {world : World η}
    (missing : world.queues.size ≤ ref.index) :
    world.queue ref = default := by
  rw [queue, Array.getElem?_eq_none missing, Option.getD_none]

@[simp]
theorem size_modifyQueue (ref : QueueRef) (change : Queue → Queue) (world : World η) :
    (world.modifyQueue ref change).queues.size = world.queues.size := Array.size_modify

theorem queue_modifyQueue_self {ref : QueueRef} {world : World η}
    (made : ref.index < world.queues.size) (change : Queue → Queue) :
    (world.modifyQueue ref change).queue ref = change (world.queue ref) := by
  simp [queue, modifyQueue, Array.getElem_modify, made]

theorem queue_modifyQueue_of_ne {ref other : QueueRef} (different : other ≠ ref)
    (change : Queue → Queue) (world : World η) :
    (world.modifyQueue ref change).queue other = world.queue other := by
  have apart : ref.index ≠ other.index := by
    intro same
    exact different (by cases ref; cases other; simp_all)
  simp [queue, modifyQueue, Array.getElem?_modify, apart]

theorem queue_modifyQueue_cases (ref other : QueueRef) (change : Queue → Queue) (world : World η) :
    (other = ref ∧ ref.index < world.queues.size ∧
        (world.modifyQueue ref change).queue other = change (world.queue other)) ∨
      (world.modifyQueue ref change).queue other = world.queue other := by
  by_cases same : other = ref
  · subst same
    rcases Nat.lt_or_ge other.index world.queues.size with made | missing
    · exact .inl ⟨rfl, made, queue_modifyQueue_self made change⟩
    · refine .inr ?_
      rw [queue_of_size_le missing, queue_of_size_le (by simpa using missing)]
  · exact .inr (queue_modifyQueue_of_ne same change world)

theorem modifyQueue_self (ref : QueueRef) (world : World η) :
    (world.modifyQueue ref fun _ => world.queue ref) = world := by
  have same : world.queues.modify ref.index (fun _ => world.queue ref) = world.queues := by
    apply Array.ext
    · simp
    · intro index _ bound
      rw [Array.getElem_modify]
      split
      · rename_i found
        subst found
        simp [queue, Array.getElem?_eq_getElem bound]
      · rfl
  rw [modifyQueue, same]

theorem modifyQueue_of_size_le {ref : QueueRef} {world : World η}
    (missing : world.queues.size ≤ ref.index) (change : Queue → Queue) :
    world.modifyQueue ref change = world := by
  have same : world.queues.modify ref.index change = world.queues := by
    apply Array.ext
    · simp
    · intro index _ bound
      have apart : ref.index ≠ index := by omega
      simp [Array.getElem_modify, apart]
  rw [modifyQueue, same]

theorem modifyQueue_congr {ref : QueueRef} {world : World η} {value : Queue}
    {change : Queue → Queue} (same : value = change (world.queue ref)) :
    (world.modifyQueue ref fun _ => value) = world.modifyQueue ref change := by
  have kept : world.queues.modify ref.index (fun _ => value) =
      world.queues.modify ref.index change := by
    apply Array.ext
    · simp
    · intro index _ bound
      simp only [Array.getElem_modify]
      split
      · rename_i found
        subst found
        simpa [queue, Array.getElem?_eq_getElem (by simpa using bound)] using same
      · rfl
  rw [modifyQueue, modifyQueue, kept]

theorem modifyQueue_modifyQueue (ref : QueueRef) (first second : Queue → Queue) (world : World η) :
    (world.modifyQueue ref first).modifyQueue ref second =
      world.modifyQueue ref fun queue => second (first queue) := by
  have same : (world.queues.modify ref.index first).modify ref.index second =
      world.queues.modify ref.index fun queue => second (first queue) := by
    apply Array.ext
    · simp
    · intro index _ _
      simp only [Array.getElem_modify]
      split <;> rfl
  rw [modifyQueue, modifyQueue, modifyQueue, same]

theorem modifyQueue_id (ref : QueueRef) (world : World η) : world.modifyQueue ref id = world := by
  have same : world.queues.modify ref.index id = world.queues := by
    apply Array.ext
    · simp
    · intro index _ _
      simp [Array.getElem_modify]
  rw [modifyQueue, same]

theorem queue_removeLive (ref other : QueueRef) (world : World η) :
    (world.removeLive ref).2.queue other = world.queue other := by
  unfold removeLive
  dsimp only
  split <;> rfl

theorem queue_halt (ref other : QueueRef) (world : World η) :
    (world.halt ref).queue other = (world.modifyQueue ref Queue.close).queue other := by
  unfold halt
  dsimp only
  rw [queue_removeLive]
  cases (world.queue ref).timer <;> rfl

theorem size_halt (ref : QueueRef) (world : World η) :
    (world.halt ref).queues.size = world.queues.size := by
  unfold halt removeLive
  dsimp only
  cases (world.queue ref).timer <;> split <;> exact size_modifyQueue _ _ _

theorem queue_wind {ref : QueueRef} {world : World η} (made : ref.index < world.queues.size)
    (plan : Schedule QueueRef) :
    (world.wind ref plan).queue ref =
      { world.queue ref with timer := some ⟨world.scheduler.nextId⟩ } := by
  unfold wind
  exact queue_modifyQueue_self made _

theorem queue_makeQueue_cases (id : String) (kind : QueueKind) (other : QueueRef)
    (world : World η) :
    (world.queue other = default ∧ (world.makeQueue id kind).2.queue other =
        .make id kind ⟨world.fires⟩) ∨
      (world.makeQueue id kind).2.queue other = world.queue other := by
  simp only [makeQueue, freshFire, queue, Array.getElem?_push]
  split
  · rename_i last
    simp [last]
  · exact .inr rfl

theorem queue_queueOrCreate_cases (id : String) (kind : QueueKind) (other : QueueRef)
    (world : World η) :
    (world.queue other = default ∧ (world.queueOrCreate id kind).2.queue other =
        .make id kind ⟨world.fires⟩) ∨
      (world.queueOrCreate id kind).2.queue other = world.queue other := by
  unfold queueOrCreate
  split
  · exact .inr rfl
  · exact queue_makeQueue_cases id kind other world

theorem size_le_makeQueue (id : String) (kind : QueueKind) (world : World η) :
    world.queues.size ≤ (world.makeQueue id kind).2.queues.size := by
  simp [makeQueue, freshFire]

theorem size_le_queueOrCreate (id : String) (kind : QueueKind) (world : World η) :
    world.queues.size ≤ (world.queueOrCreate id kind).2.queues.size := by
  unfold queueOrCreate
  split
  · exact Nat.le_refl _
  · exact size_le_makeQueue id kind world

end World

/-- What can happen to a queue at one moment of a run. -/
inductive Queue.Turn : Queue → Queue → Prop
  | alike {queue other : Queue} (same : queue.Alike other) : Turn queue other
  | make (id : String) (kind : QueueKind) (fire : FireId) : Turn default (.make id kind fire)
  | add (entries : List Entry) (queue : Queue) : Turn queue (queue.addEntries entries)
  | inject (index : Nat) (entries : List Entry) (queue : Queue) :
      Turn queue (queue.injectEntries index entries)
  | clear (queue : Queue) : Turn queue queue.clearEntries
  | launch {queue : Queue} (new : queue.phase = .constructing) : Turn queue queue.launch
  | start {queue rest : Queue} {now : Duration} {entry : Entry}
      (taken : queue.nextStep now = (.execute entry, rest)) :
      Turn queue (rest.note (.started entry))
  | finish (entry : Entry) (queue : Queue) : Turn queue (queue.note (.executed entry))
  | runDry {queue : Queue} {now : Duration} (dry : queue.isFinished now = true) :
      Turn queue (queue.note .ranDry)
  | wind (timer : TimerId) {queue : Queue} (runs : queue.isStopped = false) :
      Turn queue { queue with timer := some timer }
  | close {queue : Queue} (runs : queue.isStopped = false) : Turn queue queue.close

theorem Queue.Turn.refl (queue : Queue) : queue.Turn queue := .alike ⟨rfl, rfl, rfl, rfl, rfl⟩

theorem Queue.Turn.of_eq {queue other : Queue} (same : other = queue) : queue.Turn other :=
  same ▸ .refl queue

theorem Queue.Turn.modifyQueue {ref : QueueRef} {change : Queue → Queue} {world : World η}
    (turn : (world.queue ref).Turn (change (world.queue ref))) (other : QueueRef) :
    (world.queue other).Turn ((world.modifyQueue ref change).queue other) := by
  rcases world.queue_modifyQueue_cases ref other change with ⟨rfl, _, changed⟩ | kept
  · rw [changed]
    exact turn
  · exact .of_eq kept

theorem Queue.Turn.makeQueue (id : String) (kind : QueueKind) (world : World η) (ref : QueueRef) :
    (world.queue ref).Turn ((world.makeQueue id kind).2.queue ref) := by
  rcases world.queue_makeQueue_cases id kind ref with ⟨new, made⟩ | kept
  · rw [new, made]
    exact .make id kind _
  · exact .of_eq kept

theorem Move.turn {stage later : Stage η} (move : Move stage later) (ref : QueueRef) :
    (stage.world.queue ref).Turn (later.world.queue ref) := by
  cases move with
  | beside frames same =>
      refine .of_eq ?_
      simp only [World.queue, same.queues]
  | adjust frames world other change alike => exact .modifyQueue (.alike (alike _)) ref
  | add frames world other entries => exact .modifyQueue (.add entries _) ref
  | inject frames world other index entries => exact .modifyQueue (.inject index entries _) ref
  | clear frames world other => exact .modifyQueue (.clear _) ref
  | enlist frames world id kind =>
      rcases world.queue_queueOrCreate_cases id kind ref with ⟨new, made⟩ | kept
      · rw [new, made]
        exact .make id kind _
      · exact .of_eq kept
  | halt frames world other runs =>
      rw [World.queue_halt]
      exact .modifyQueue (.close runs) ref
  | launch frames world other made new => exact .modifyQueue (.launch new) ref
  | revolve world other runs => exact .refl _
  | take taken =>
      have turn := Queue.Turn.start taken
      rw [World.modifyQueue_modifyQueue]
      exact .modifyQueue turn ref
  | finish frames world other first entry => exact .modifyQueue (.finish entry _) ref
  | runDry dry => exact .modifyQueue (.runDry dry) ref
  | wind unwound runs => exact .modifyQueue (.wind _ runs) ref
  | leave settled => exact .refl _
  | shift frames shift => exact .refl _

theorem Move.size_le {stage later : Stage η} (move : Move stage later) :
    stage.world.queues.size ≤ later.world.queues.size := by
  cases move with
  | beside frames same => exact Nat.le_of_eq (by rw [same.queues])
  | enlist frames world id kind => exact world.size_le_queueOrCreate id kind
  | halt frames world other runs => exact Nat.le_of_eq (world.size_halt other).symm
  | _ => simp [World.wind]

theorem Course.size_le {stage later : Stage η} (course : Course stage later) :
    stage.world.queues.size ≤ later.world.queues.size := by
  induction course with
  | refl => exact Nat.le_refl _
  | tail _ move ih => exact Nat.le_trans ih move.size_le

namespace Queue

theorem nextStep_cases (now : Duration) (queue : Queue) :
    (queue.isStopped = true ∧ queue.nextStep now = (.halted, queue)) ∨
      (queue.isStopped = false ∧ queue.nextStep now = (.wait, queue)) ∨
      (queue.isFinished now = true ∧ queue.nextStep now = (.finish, queue)) ∨
      ∃ entry entries, queue.isStopped = false ∧ queue.entries = entry :: entries ∧
        queue.nextStep now = (.execute entry, { queue with entries }) := by
  unfold nextStep isFinished
  cases stopped : queue.isStopped with
  | true => exact .inl ⟨rfl, rfl⟩
  | false =>
      cases queue.isBlocked now with
      | true => exact .inr (.inl ⟨rfl, rfl⟩)
      | false =>
          cases split : queue.entries with
          | nil => exact .inr (.inr (.inl ⟨rfl, rfl⟩))
          | cons entry entries => exact .inr (.inr (.inr ⟨entry, entries, rfl, rfl, rfl⟩))

theorem nextStep_execute {queue rest : Queue} {now : Duration} {entry : Entry}
    (taken : queue.nextStep now = (.execute entry, rest)) :
    queue.isStopped = false ∧ ∃ entries, queue.entries = entry :: entries ∧
      rest = { queue with entries } := by
  rcases queue.nextStep_cases now with ⟨_, step⟩ | ⟨_, step⟩ | ⟨_, step⟩ |
    ⟨found, entries, runs, split, step⟩
  · simp [step] at taken
  · simp [step] at taken
  · simp [step] at taken
  · rw [step] at taken
    obtain ⟨same, rfl⟩ := Prod.mk.inj taken
    cases same
    exact ⟨runs, entries, split, rfl⟩

theorem unblocked_of_execute {queue rest : Queue} {now : Duration} {entry : Entry}
    (taken : queue.nextStep now = (.execute entry, rest)) : queue.isBlocked now = false := by
  cases blocked : queue.isBlocked now with
  | false => rfl
  | true => cases stopped : queue.isStopped <;> simp [nextStep, stopped, blocked] at taken

theorem isFinished_iff {queue : Queue} {now : Duration} :
    queue.isFinished now = true ↔
      queue.isStopped = false ∧ queue.entries = [] ∧ queue.isBlocked now = false := by
  simp [isFinished, and_assoc]

theorem Turn.isStopped {queue later : Queue} (turn : queue.Turn later)
    (stopped : queue.isStopped = true) : later.isStopped = true := by
  cases turn with
  | alike same => simpa [Queue.isStopped, same.phase] using stopped
  | launch new => simp [Queue.isStopped, new] at stopped
  | start taken => simp [nextStep_execute taken] at stopped
  | close runs => rfl
  | make id kind fire => simp [Queue.isStopped, default, Queue.make] at stopped
  | _ => exact stopped

end Queue

theorem Course.isStopped {stage later : Stage η} (course : Course stage later) {ref : QueueRef}
    (stopped : (stage.world.queue ref).isStopped = true) :
    (later.world.queue ref).isStopped = true := by
  induction course with
  | refl => exact stopped
  | tail _ move ih => exact (move.turn ref).isStopped ih

theorem World.isStopped_halt {ref : QueueRef} {world : World η}
    (made : ref.index < world.queues.size) : ((world.halt ref).queue ref).isStopped = true := by
  rw [World.queue_halt, World.queue_modifyQueue_self made]
  rfl

theorem Queue.Turn.launched {queue other : Queue} (turn : queue.Turn other)
    (launched : queue.phase ≠ .constructing) : other.phase ≠ .constructing := by
  cases turn with
  | alike same => rwa [same.phase]
  | make id kind fire => exact absurd rfl launched
  | start taken =>
      obtain ⟨_, _, _, rfl⟩ := Queue.nextStep_execute taken
      exact launched
  | launch new => simp [Queue.launch, Queue.note]
  | close runs => simp [Queue.close, Queue.note]
  | _ => exact launched

structure Stage.Nested (stage : Stage η) : Prop where
  apart : (stage.frames.map (·.queue)).Nodup
  launched : ∀ ref ∈ stage.frames.map (·.queue), (stage.world.queue ref).phase ≠ .constructing

namespace Stage.Nested

theorem idle (world : World η) : Stage.Nested ⟨[], world⟩ := ⟨List.nodup_nil, by simp⟩

theorem made_top {frames : List Frame} {world : World η} {ref : QueueRef} {first : Bool}
    {entry : Option Entry} (nested : Stage.Nested ⟨⟨ref, first, entry⟩ :: frames, world⟩) :
    ref.index < world.queues.size := by
  rcases Nat.lt_or_ge ref.index world.queues.size with made | missing
  · exact made
  · have launched := nested.launched ref List.mem_cons_self
    exact absurd (congrArg Queue.phase (World.queue_of_size_le missing)) launched

theorem move {stage later : Stage η} (move : Move stage later) (nested : stage.Nested) :
    later.Nested := by
  have launched (ref : QueueRef) (revolves : ref ∈ stage.frames.map (·.queue)) :
      (later.world.queue ref).phase ≠ .constructing :=
    (move.turn ref).launched (nested.launched ref revolves)
  cases move with
  | launch frames world other made new =>
      refine ⟨?_, ?_⟩
      · rw [List.map_cons, List.nodup_cons]
        exact ⟨fun revolves => nested.launched other revolves new, nested.apart⟩
      · intro ref revolves
        rcases List.mem_cons.1 revolves with rfl | revolves
        · rw [World.queue_modifyQueue_self made]
          simp [Queue.launch, Queue.note]
        · exact launched ref revolves
  | revolve world other runs => exact ⟨by simp, by simp [runs]⟩
  | leave settled =>
      refine ⟨(List.nodup_cons.1 nested.apart).2, fun ref revolves => ?_⟩
      exact launched ref (List.mem_cons_of_mem _ revolves)
  | _ => exact ⟨nested.apart, launched⟩

end Stage.Nested

end TagScript
