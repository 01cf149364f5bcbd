import TagScript.Proofs.Engine.Secures
import TagScript.Proofs.Queue.Fresh

/-! What happens apart from one queue: whatever is done to other queues and whatever is told, that
queue and its place among the live ones stay. -/

namespace TagScript

variable {η : Type}

structure Queue.Onward (queue other : Queue) : Prop where
  id : other.id = queue.id
  launched : queue.phase ≠ .constructing → other.phase ≠ .constructing
  delayUntil : other.delayUntil = queue.delayUntil
  history : queue.history <:+ other.history

def Silent (ref : QueueRef) (notes : List Note) : Prop := ∀ entry, .filled ref entry ∉ notes

structure World.Apart (ref : QueueRef) (world other : World η) : Prop where
  queue : other.queue ref = world.queue ref
  made : ref.index < other.queues.size ↔ ref.index < world.queues.size
  live : ∀ key, other.live.get? key = some ref ↔ world.live.get? key = some ref
  scripts : other.scripts = world.scripts
  now : other.now = world.now
  notes : ∃ more, Silent ref more ∧ other.notes = more ++ world.notes

namespace World.Apart

variable {ref : QueueRef} {world other later : World η}

theorem of_same (queues : other.queues = world.queues) (live : other.live = world.live)
    (scripts : other.scripts = world.scripts) (now : other.now = world.now)
    (notes : other.notes = world.notes) : world.Apart ref other where
  queue := by rw [World.queue, World.queue, queues]
  made := by rw [queues]
  live := by simp [live]
  scripts := scripts
  now := now
  notes := ⟨[], by simp [Silent], notes⟩

theorem refl (ref : QueueRef) (world : World η) : world.Apart ref world :=
  of_same rfl rfl rfl rfl rfl

theorem liveQueue? (apart : world.Apart ref other) (id : String) :
    other.liveQueue? id = some ref ↔ world.liveQueue? id = some ref := apart.live _

theorem script? (apart : world.Apart ref other) (name : String) :
    other.script? name = world.script? name := by rw [World.script?, World.script?, apart.scripts]

theorem reported (reported : world.Reported other) : world.Apart ref other := by
  obtain ⟨events, spoken, host, reports, rfl⟩ := reported
  refine ⟨rfl, Iff.rfl, fun _ => Iff.rfl, rfl, rfl, spoken, fun entry member => ?_, rfl⟩
  cases reports _ member

theorem jot {note : Note} (silent : ∀ entry, note ≠ .filled ref entry) (world : World η) :
    world.Apart ref (world.jot note) := by
  refine ⟨rfl, Iff.rfl, fun _ => Iff.rfl, rfl, rfl, [note], fun entry member => ?_, rfl⟩
  exact silent entry (List.mem_singleton.1 member).symm

theorem modifyQueue {actor : QueueRef} (different : actor ≠ ref) (change : Queue → Queue)
    (world : World η) : world.Apart ref (world.modifyQueue actor change) where
  queue := queue_modifyQueue_of_ne (Ne.symm different) change world
  made := by rw [size_modifyQueue]
  live := fun _ => Iff.rfl
  scripts := rfl
  now := rfl
  notes := ⟨[], by simp [Silent], rfl⟩

theorem checkHold (actor : QueueRef) (world : World η) :
    world.Apart ref (world.checkHold actor) := by
  unfold World.checkHold
  split
  · exact jot (fun _ => by simp) world
  · exact refl ref world

theorem removeLive {actor : QueueRef} (different : actor ≠ ref) (world : World η) :
    world.Apart ref (world.removeLive actor).2 := by
  unfold World.removeLive
  dsimp only
  split
  · rename_i found
    refine ⟨rfl, Iff.rfl, fun key => ?_, rfl, rfl, [], by simp [Silent], rfl⟩
    by_cases same : key = Text.lower (world.queue actor).id
    · subst same
      simp [Table.get?_erase, found, different]
    · rw [Table.get?_erase_of_ne same]
  · exact refl ref world

theorem record (actor : QueueRef) (fire : FireId) (value : String) (world : World η) :
    world.Apart ref (world.record actor fire value) := by
  obtain ⟨events, same⟩ := world.record_eq actor fire value
  rw [same]
  exact ⟨rfl, Iff.rfl, fun _ => Iff.rfl, rfl, rfl, [.determined fire value], by simp [Silent], rfl⟩

theorem makeQueue (other : world.queues.size ≠ ref.index) (id : String) (kind : QueueKind) :
    world.Apart ref (world.makeQueue id kind).2 where
  queue := by
    have different : ¬ ref.index = world.queues.size := Ne.symm other
    simp [World.makeQueue, World.freshFire, World.queue, Array.getElem?_push, different]
  made := by
    simp only [World.makeQueue, World.freshFire, Array.size_push]
    omega
  live := fun _ => Iff.rfl
  scripts := rfl
  now := rfl
  notes := ⟨[], by simp [Silent], rfl⟩

theorem queueOrCreate (other : world.queues.size ≠ ref.index) (id : String) (kind : QueueKind) :
    world.Apart ref (world.queueOrCreate id kind).2 := by
  unfold World.queueOrCreate
  split
  · exact refl ref world
  · rename_i absent
    have apart := makeQueue other id kind
    refine { apart with live := fun key => ?_ }
    by_cases same : key = Text.lower id
    · subst same
      have new : (⟨world.queues.size⟩ : QueueRef) ≠ ref := by
        intro same
        exact other (congrArg QueueRef.index same)
      have absent : world.live.get? (Text.lower id) = none := absent
      have made : (world.makeQueue id kind).1 = ⟨world.queues.size⟩ := rfl
      simp [Table.get?_set, absent, made, new]
    · rw [Table.get?_set_of_ne same]
      exact apart.live key

theorem reschedule {scheduler : Scheduler QueueRef AsyncWork}
    (now : scheduler.now = world.scheduler.now) :
    world.Apart ref { world with scheduler } :=
  of_same rfl rfl rfl (congrArg Duration.mk now) rfl

end World.Apart

end TagScript
