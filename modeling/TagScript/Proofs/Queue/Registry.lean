import TagScript.Proofs.Engine.Run

/-! The table of live queues. A queue gets into it when it is made under an id that no live queue
has, and leaves it when it stops. Other queues of that id have no bearing on it, since a queue is
taken out only where it stands itself. -/

namespace TagScript

variable {η : Type}

namespace World

def key (ref : QueueRef) (world : World η) : String := Text.lower (world.queue ref).id

def IsLive (ref : QueueRef) (world : World η) : Prop := ref ∈ world.live.map (·.2)

def Lists (ref : QueueRef) (world : World η) : Prop :=
  world.liveQueue? (world.queue ref).id = some ref

/-- Whoever is live was made, has not stopped and stands under the lowercase id, alone. -/
structure Registered (world : World η) : Prop where
  unique : world.live.names.Nodup
  keyed : ∀ named ∈ world.live, named.1 = world.key named.2
  made : ∀ named ∈ world.live, named.2.index < world.queues.size
  runs : ∀ named ∈ world.live, (world.queue named.2).isStopped = false

def Settled (ref : QueueRef) (world : World η) : Prop :=
  ref.index < world.queues.size → (world.Lists ref ↔ (world.queue ref).isStopped = false)

structure SameRegistry (world other : World η) : Prop where
  live : other.live = world.live
  size : other.queues.size = world.queues.size
  id : ∀ ref, (other.queue ref).id = (world.queue ref).id
  isStopped : ∀ ref, (other.queue ref).isStopped = (world.queue ref).isStopped

variable {world other : World η} {ref : QueueRef}

namespace Registered

theorem start (engine : Engine η) (host : η) : (engine.start host).world.Registered where
  unique := List.nodup_nil
  keyed := fun _ member => absurd member List.not_mem_nil
  made := fun _ member => absurd member List.not_mem_nil
  runs := fun _ member => absurd member List.not_mem_nil

theorem lists (registered : world.Registered) {named : String × QueueRef}
    (member : named ∈ world.live) : world.Lists named.2 := by
  have found := Table.get?_of_mem registered.unique member
  rwa [registered.keyed named member] at found

theorem isLive_iff (registered : world.Registered) : world.IsLive ref ↔ world.Lists ref := by
  constructor
  · intro live
    obtain ⟨named, member, rfl⟩ := List.mem_map.1 live
    exact registered.lists member
  · intro lists
    exact List.mem_map_of_mem (Table.mem_of_get? lists)

theorem key_inj (registered : world.Registered) {other : QueueRef} (live : world.IsLive ref)
    (otherLive : world.IsLive other) (same : world.key ref = world.key other) : ref = other := by
  have lists : world.live.get? (world.key ref) = some ref := registered.isLive_iff.1 live
  have otherLists : world.live.get? (world.key other) = some other :=
    registered.isLive_iff.1 otherLive
  rw [same, otherLists] at lists
  exact (Option.some.inj lists).symm

theorem same (registered : world.Registered) (same : world.SameRegistry other) :
    other.Registered where
  unique := by rw [same.live]; exact registered.unique
  keyed := by
    intro named member
    rw [same.live] at member
    rw [key, same.id]
    exact registered.keyed named member
  made := by rw [same.live, same.size]; exact registered.made
  runs := by
    intro named member
    rw [same.live] at member
    rw [same.isStopped]
    exact registered.runs named member

end Registered

theorem Settled.same (settled : world.Settled ref) (same : world.SameRegistry other) :
    other.Settled ref := by
  intro made
  rw [same.size] at made
  rw [Lists, liveQueue?, same.live, same.id, same.isStopped]
  exact settled made

namespace SameRegistry

theorem refl (world : World η) : world.SameRegistry world := ⟨rfl, rfl, fun _ => rfl, fun _ => rfl⟩

theorem of_queues (queues : other.queues = world.queues) (live : other.live = world.live) :
    world.SameRegistry other where
  live := live
  size := by rw [queues]
  id := fun ref => by rw [queue, queue, queues]
  isStopped := fun ref => by rw [queue, queue, queues]

theorem modifyQueue {change : Queue → Queue}
    (id : (change (world.queue ref)).id = (world.queue ref).id)
    (isStopped : (change (world.queue ref)).isStopped = (world.queue ref).isStopped) :
    world.SameRegistry (world.modifyQueue ref change) where
  live := rfl
  size := size_modifyQueue ref change world
  id := by
    intro other
    rcases world.queue_modifyQueue_cases ref other change with ⟨rfl, _, changed⟩ | kept
    · rw [changed, id]
    · rw [kept]
  isStopped := by
    intro other
    rcases world.queue_modifyQueue_cases ref other change with ⟨rfl, _, changed⟩ | kept
    · rw [changed, isStopped]
    · rw [kept]

theorem wind (plan : Schedule QueueRef) (world : World η) :
    world.SameRegistry (world.wind ref plan) := by
  have kept : SameRegistry { world with scheduler := (world.scheduler.schedule plan).2 }
      (world.wind ref plan) := .modifyQueue rfl rfl
  exact ⟨kept.live, kept.size, kept.id, kept.isStopped⟩

theorem checkHold (ref : QueueRef) (world : World η) : world.SameRegistry (world.checkHold ref) := by
  unfold World.checkHold
  split
  · exact .of_queues rfl rfl
  · exact .refl world

theorem trans {last : World η} (first : world.SameRegistry other)
    (second : other.SameRegistry last) : world.SameRegistry last where
  live := second.live.trans first.live
  size := second.size.trans first.size
  id := fun ref => (second.id ref).trans (first.id ref)
  isStopped := fun ref => (second.isStopped ref).trans (first.isStopped ref)

end SameRegistry

theorem Lists.same (lists : world.Lists ref) (same : world.SameRegistry other) :
    other.Lists ref := by
  rw [Lists, liveQueue?, same.live, same.id]
  exact lists

/-! What making and stopping a queue do to the table. -/

@[simp]
theorem size_makeQueue (id : String) (kind : QueueKind) (world : World η) :
    (world.makeQueue id kind).2.queues.size = world.queues.size + 1 :=
  Array.size_push _

theorem queue_makeQueue_new (id : String) (kind : QueueKind) (world : World η) :
    (world.makeQueue id kind).2.queue ⟨world.queues.size⟩ = .make id kind ⟨world.fires⟩ := by
  simp [makeQueue, freshFire, queue]

theorem queue_makeQueue_of_lt (id : String) (kind : QueueKind)
    (made : ref.index < world.queues.size) :
    (world.makeQueue id kind).2.queue ref = world.queue ref := by
  simp only [makeQueue, freshFire, queue, Array.getElem?_push, Nat.ne_of_lt made, if_false]

theorem Registered.makeQueue (registered : world.Registered) (id : String) (kind : QueueKind) :
    (world.makeQueue id kind).2.Registered where
  unique := registered.unique
  keyed := by
    intro named member
    rw [key, queue_makeQueue_of_lt id kind (registered.made named member)]
    exact registered.keyed named member
  made := by
    intro named member
    rw [size_makeQueue]
    exact Nat.lt_succ_of_lt (registered.made named member)
  runs := by
    intro named member
    rw [queue_makeQueue_of_lt id kind (registered.made named member)]
    exact registered.runs named member

theorem Settled.makeQueue (settled : world.Settled ref) (made : ref.index < world.queues.size)
    (id : String) (kind : QueueKind) : (world.makeQueue id kind).2.Settled ref := by
  intro _
  rw [Lists, liveQueue?, queue_makeQueue_of_lt id kind made]
  exact settled made

theorem queueOrCreate_cases (id : String) (kind : QueueKind) (world : World η) :
    (world.queueOrCreate id kind).2 = world ∨
      (world.live.get? (Text.lower id) = none ∧ (world.queueOrCreate id kind).2 =
        { (world.makeQueue id kind).2 with
          live := world.live.set (Text.lower id) ⟨world.queues.size⟩ }) := by
  unfold queueOrCreate liveQueue?
  split
  · exact .inl rfl
  · rename_i absent
    exact .inr ⟨absent, rfl⟩

theorem Registered.queueOrCreate (registered : world.Registered) (id : String) (kind : QueueKind) :
    (world.queueOrCreate id kind).2.Registered := by
  rcases world.queueOrCreate_cases id kind with kept | ⟨_, made⟩
  · rw [kept]
    exact registered
  · have grown := registered.makeQueue id kind
    have new := world.queue_makeQueue_new id kind
    rw [made]
    refine ⟨Table.nodup_set registered.unique, fun named member => ?_, fun named member => ?_,
      fun named member => ?_⟩
    · rcases Table.mem_set member with rfl | old
      · change Text.lower id = Text.lower ((world.makeQueue id kind).2.queue _).id
        rw [new]
        rfl
      · exact grown.keyed named old
    · rcases Table.mem_set member with rfl | old
      · simp
      · exact grown.made named old
    · rcases Table.mem_set member with rfl | old
      · exact congrArg Queue.isStopped new
      · exact grown.runs named old

theorem Settled.queueOrCreate (settled : world.Settled ref) (id : String) (kind : QueueKind) :
    (world.queueOrCreate id kind).2.Settled ref := by
  rcases world.queueOrCreate_cases id kind with kept | ⟨absent, made⟩
  · rw [kept]
    exact settled
  · rw [made]
    intro inRange
    rcases Nat.lt_succ_iff_lt_or_eq.1 (size_makeQueue id kind world ▸ inRange) with old | last
    · have known := queue_makeQueue_of_lt id kind old
      have before := settled old
      change Table.get? (Text.lower ((world.makeQueue id kind).2.queue ref).id) _ = _ ↔
        ((world.makeQueue id kind).2.queue ref).isStopped = false
      rw [known]
      by_cases same : Text.lower (world.queue ref).id = Text.lower id
      · -- the id was free, so the older queue of that id has stopped
        rw [Lists, liveQueue?, same, absent] at before
        rw [same, Table.get?_set, ← before]
        have apart : (⟨world.queues.size⟩ : QueueRef) ≠ ref := by
          rintro rfl
          exact Nat.lt_irrefl _ old
        simp [apart]
      · rw [Table.get?_set_of_ne same]
        exact before
    · obtain rfl : ref = ⟨world.queues.size⟩ := by
        cases ref
        exact congrArg QueueRef.mk last
      have new := world.queue_makeQueue_new id kind
      change Table.get? (Text.lower ((world.makeQueue id kind).2.queue _).id) _ = _ ↔
        ((world.makeQueue id kind).2.queue _).isStopped = false
      rw [new]
      exact iff_of_true (Table.get?_set _ _ _) rfl

theorem live_halt_cases (ref : QueueRef) (world : World η) :
    (world.Lists ref ∧ (world.halt ref).live = world.live.erase (world.key ref)) ∨
      (¬ world.Lists ref ∧ (world.halt ref).live = world.live) := by
  have removed (other : World η) (live : other.live = world.live)
      (id : (other.queue ref).id = (world.queue ref).id) :
      (world.Lists ref ∧ (other.removeLive ref).2.live = world.live.erase (world.key ref)) ∨
        (¬ world.Lists ref ∧ (other.removeLive ref).2.live = world.live) := by
    rw [removeLive, live, id]
    by_cases lists : world.live.get? (Text.lower (world.queue ref).id) = some ref
    · exact .inl ⟨lists, by rw [if_pos lists]; rfl⟩
    · exact .inr ⟨lists, by rw [if_neg lists]; exact live⟩
  have id : ((world.modifyQueue ref Queue.close).queue ref).id = (world.queue ref).id := by
    rcases world.queue_modifyQueue_cases ref ref Queue.close with ⟨_, _, changed⟩ | kept
    · rw [changed]
      rfl
    · rw [kept]
  unfold halt
  cases (world.queue ref).timer with
  | none => exact removed _ rfl id
  | some timer => exact removed _ rfl id

theorem queue_halt_of_ne {other : QueueRef} (different : other ≠ ref) :
    (world.halt ref).queue other = world.queue other := by
  rw [queue_halt, queue_modifyQueue_of_ne different]

theorem Lists.halt {other : QueueRef} (lists : world.Lists ref) (different : other ≠ ref) :
    (world.halt other).Lists ref := by
  rw [Lists, liveQueue?, queue_halt_of_ne (Ne.symm different)]
  rcases world.live_halt_cases other with ⟨otherLists, erased⟩ | ⟨_, kept⟩
  · have apart : world.key ref ≠ world.key other := by
      intro same
      have found : world.live.get? (world.key other) = some other := otherLists
      rw [← same] at found
      exact different (Option.some.inj (found.symm.trans lists))
    rw [erased]
    exact (Table.get?_erase_of_ne apart world.live).trans lists
  · rw [kept]
    exact lists

theorem Registered.halt (registered : world.Registered) (ref : QueueRef) :
    (world.halt ref).Registered := by
  -- whoever is still live is not the queue that was stopped
  have stays (named : String × QueueRef) (member : named ∈ (world.halt ref).live) :
      named ∈ world.live ∧ named.2 ≠ ref := by
    rcases world.live_halt_cases ref with ⟨_, erased⟩ | ⟨absent, kept⟩
    · rw [erased] at member
      obtain ⟨old, other⟩ := List.mem_filter.1 member
      refine ⟨old, ?_⟩
      rintro rfl
      simp [registered.keyed named old] at other
    · rw [kept] at member
      refine ⟨member, ?_⟩
      rintro rfl
      exact absent (registered.lists member)
  refine ⟨?_, fun named member => ?_, fun named member => ?_, fun named member => ?_⟩
  · rcases world.live_halt_cases ref with ⟨_, erased⟩ | ⟨_, kept⟩
    · rw [erased]
      exact Table.nodup_erase registered.unique
    · rw [kept]
      exact registered.unique
  · rw [key, queue_halt_of_ne (stays named member).2]
    exact registered.keyed named (stays named member).1
  · rw [size_halt]
    exact registered.made named (stays named member).1
  · rw [queue_halt_of_ne (stays named member).2]
    exact registered.runs named (stays named member).1

theorem Settled.halt (settled : world.Settled ref) (other : QueueRef) :
    (world.halt other).Settled ref := by
  intro made
  rw [size_halt] at made
  by_cases same : other = ref
  · subst same
    have id : ((world.halt other).queue other).id = (world.queue other).id := by
      rw [queue_halt, queue_modifyQueue_self made]
      rfl
    rw [Lists, liveQueue?, id, isStopped_halt made]
    rcases world.live_halt_cases other with ⟨_, erased⟩ | ⟨absent, kept⟩
    · rw [erased, key, Table.get?_erase]
      simp
    · rw [kept]
      exact iff_of_false absent (by simp)
  · rw [queue_halt_of_ne (Ne.symm same), ← settled made]
    refine ⟨fun lists => ?_, fun lists => lists.halt same⟩
    rw [Lists, liveQueue?, queue_halt_of_ne (Ne.symm same)] at lists
    rcases world.live_halt_cases other with ⟨_, erased⟩ | ⟨_, kept⟩
    · rw [erased] at lists
      by_cases apart : world.key ref = world.key other
      · rw [← apart, key, Table.get?_erase] at lists
        cases lists
      · exact (Table.get?_erase_of_ne apart world.live).symm.trans lists
    · rwa [kept] at lists

end World

/-- A move makes a queue live, stops one, or has no bearing on the table of live queues. -/
theorem Move.registry_cases {stage later : Stage η} (move : Move stage later) :
    stage.world.SameRegistry later.world ∨
      (∃ id kind, later.world = (stage.world.queueOrCreate id kind).2) ∨
      ∃ ref, later.world = stage.world.halt ref := by
  cases move with
  | beside frames same => exact .inl (.of_queues same.queues same.live)
  | adjust frames world ref change alike =>
      have stopped : (change (world.queue ref)).isStopped = (world.queue ref).isStopped := by
        rw [Queue.isStopped, Queue.isStopped, (alike _).phase]
      exact .inl (.modifyQueue (alike _).id stopped)
  | enlist frames world id kind => exact .inr (.inl ⟨id, kind, rfl⟩)
  | halt frames world ref runs => exact .inr (.inr ⟨ref, rfl⟩)
  | launch frames world ref made new =>
      refine .inl (.modifyQueue rfl ?_)
      simp [Queue.isStopped, Queue.launch, Queue.note, new]
  | take taken =>
      obtain ⟨_, entries, _, rfl⟩ := Queue.nextStep_execute taken
      rw [World.modifyQueue_modifyQueue]
      exact .inl (.modifyQueue rfl rfl)
  | wind unwound runs => exact .inl (.wind _ _)
  | revolve world ref runs => exact .inl (.refl world)
  | leave settled => exact .inl (.refl _)
  | shift frames shift => exact .inl (.of_queues rfl rfl)
  | _ => exact .inl (.modifyQueue rfl rfl)

theorem World.Registered.move {stage later : Stage η} (move : Move stage later)
    (registered : stage.world.Registered) : later.world.Registered := by
  rcases move.registry_cases with same | ⟨id, kind, made⟩ | ⟨ref, halted⟩
  · exact registered.same same
  · exact made ▸ registered.queueOrCreate id kind
  · exact halted ▸ registered.halt ref

theorem World.Settled.move {stage later : Stage η} {ref : QueueRef} (move : Move stage later)
    (settled : stage.world.Settled ref) : later.world.Settled ref := by
  rcases move.registry_cases with same | ⟨id, kind, made⟩ | ⟨other, halted⟩
  · exact settled.same same
  · exact made ▸ settled.queueOrCreate id kind
  · exact halted ▸ settled.halt other

namespace Queue

theorem carryOut_returns (action : StopAction) (start : Tag.Evaluation (World η)) :
    ∃ finish, (carryOut action).run start = some ((), finish) ∧
      start.world.SameRegistry finish.world := by
  cases action with
  | release ref => exact ⟨_, rfl, .trans (.checkHold ref start.world) (.modifyQueue rfl rfl)⟩
  | notify label => exact ⟨_, rfl, .of_queues rfl rfl⟩

theorem carryOut_all_returns (actions : List StopAction) (start : Tag.Evaluation (World η)) :
    ∃ finish, (actions.forM carryOut : RunM η Unit).run start = some ((), finish) ∧
      start.world.SameRegistry finish.world := by
  induction actions generalizing start with
  | nil => exact ⟨start, rfl, .refl start.world⟩
  | cons action rest ih =>
      obtain ⟨between, done, first⟩ := carryOut_returns action start
      obtain ⟨finish, ended, later⟩ := ih between
      refine ⟨finish, ?_, first.trans later⟩
      rw [List.forM_eq_forM, List.forM_cons]
      exact Tag.EvalM.run_bind_eq_some.2 ⟨(), between, done, ended⟩

theorem stop_returns (host : Host) (ref : QueueRef) (start : Tag.Evaluation (World η)) :
    ∃ finish, (stop host ref).run start = some ((), finish) ∧
      World.SameRegistry
        (if (start.world.queue ref).isStopped then start.world else start.world.halt ref)
        finish.world := by
  have told (queue : Queue) (start : Tag.Evaluation (World η)) :
      ∃ finish, (do
          host.remark queue.id "Queue completed."
          queue.onStop.forM carryOut : RunM η Unit).run start = some ((), finish) ∧
        start.world.SameRegistry finish.world := by
    obtain ⟨between, done, first⟩ : ∃ between,
        (host.remark queue.id "Queue completed." : RunM η Unit).run start = some ((), between) ∧
          start.world.SameRegistry between.world := by
      unfold Host.remark
      split
      · exact ⟨_, rfl, .of_queues rfl rfl⟩
      · exact ⟨_, rfl, .refl start.world⟩
    obtain ⟨finish, ended, later⟩ := carryOut_all_returns queue.onStop between
    exact ⟨finish, Tag.EvalM.run_bind_eq_some.2 ⟨(), between, done, ended⟩, first.trans later⟩
  unfold stop
  rw [RunM.queue, bind_assoc, RunM.world, Tag.EvalM.run_world_bind, pure_bind]
  cases (start.world.queue ref).isStopped with
  | true => exact ⟨start, rfl, .refl start.world⟩
  | false =>
      rw [if_neg Bool.false_ne_true, if_neg Bool.false_ne_true, RunM.modifyQueue, RunM.update,
        Tag.EvalM.run_modifyWorld_bind, World.halt]
      cases (start.world.queue ref).timer with
      | none => exact told _ _
      | some timer => exact told _ _

end Queue

/-- A call of the run made the queue, and did not make it as one that is not live. -/
def Engine.Enlists (engine : Engine η) (calls : List HostCall)
    (start finish : Tag.Evaluation (World η)) (ref : QueueRef) : Prop :=
  ∃ early call late before after, calls = early ++ call :: late ∧
    (∀ id kind, call ≠ .make id kind) ∧ engine.Runs early start before ∧
    engine.Runs [call] before after ∧ engine.Runs late after finish ∧
    before.world.queues.size ≤ ref.index ∧ ref.index < after.world.queues.size

namespace Engine.Runs

variable {engine : Engine η} {calls : List HostCall} {start finish : Tag.Evaluation (World η)}

theorem registered (standard : engine.Standard) (runs : engine.Runs calls start finish)
    (registered : start.world.Registered) : finish.world.Registered :=
  runs.keeps standard (fun stage => stage.world.Registered) .move
    (fun _ id kind kept => kept.makeQueue id kind) (fun _ _ kept => kept.same (.of_queues rfl rfl))
    registered

/-- Once a queue was made, nothing but its own stop takes it out of the live ones. -/
theorem settled (standard : engine.Standard) (runs : engine.Runs calls start finish)
    {ref : QueueRef} (made : ref.index < start.world.queues.size)
    (settled : start.world.Settled ref) :
    ref.index < finish.world.queues.size ∧ finish.world.Settled ref := by
  refine runs.keeps standard
    (fun stage => ref.index < stage.world.queues.size ∧ stage.world.Settled ref) ?_ ?_ ?_
    ⟨made, settled⟩
  · intro stage later move kept
    exact ⟨Nat.lt_of_lt_of_le kept.1 move.size_le, kept.2.move move⟩
  · intro world id kind kept
    exact ⟨Nat.lt_of_lt_of_le kept.1 (world.size_le_makeQueue id kind),
      kept.2.makeQueue kept.1 id kind⟩
  · intro _ world kept
    exact ⟨kept.1, kept.2.same (.of_queues rfl rfl)⟩

theorem settled_call (standard : engine.Standard) {call : HostCall}
    (lively : ∀ id kind, call ≠ .make id kind) (runs : engine.Runs [call] start finish)
    {ref : QueueRef} (new : start.world.queues.size ≤ ref.index) : finish.world.Settled ref := by
  have unmade : start.world.Settled ref := fun made => absurd new (Nat.not_le.2 made)
  cases runs with
  | cons known answered rest =>
      cases rest
      rcases HostCall.run_cases standard known answered with
        ⟨_, _, course⟩ | ⟨id, kind, same, _⟩ | ⟨_, world, course, ended⟩
      · exact course.keeps (fun stage => stage.world.Settled ref) (fun move kept => kept.move move)
          unmade
      · exact absurd same (lively id kind)
      · rw [ended]
        exact (course.keeps (fun stage => stage.world.Settled ref)
          (fun move kept => kept.move move) unmade).same (.of_queues rfl rfl)

theorem settled_of_enlists (standard : engine.Standard) {ref : QueueRef}
    (enlists : engine.Enlists calls start finish ref) :
    ref.index < finish.world.queues.size ∧ finish.world.Settled ref := by
  obtain ⟨_, call, _, _, _, _, lively, _, made, later, new, old⟩ := enlists
  exact later.settled standard old (made.settled_call standard lively new)

/-- Between calls the live queues stand each under the lowercase id, no two under one id; a queue
that was made as a live one is live until it has stopped; and stopping a queue leaves every other
one live, whatever the ids. -/
theorem registry_consistent (standard : engine.Standard) {host : η}
    (runs : engine.Runs calls (engine.start host) finish) :
    (∀ named ∈ finish.world.live, named.1 = Text.lower (finish.world.queue named.2).id) ∧
      (∀ ref, engine.Enlists calls (engine.start host) finish ref →
        (finish.world.IsLive ref ↔ (finish.world.queue ref).phase ≠ .stopped)) ∧
      (∀ ref other, finish.world.IsLive ref → finish.world.IsLive other →
        Text.lower (finish.world.queue ref).id = Text.lower (finish.world.queue other).id →
          ref = other) ∧
      ∀ ref other, finish.world.IsLive ref → other ≠ ref →
        ∃ later, (Queue.stop engine.host other).run finish = some ((), later) ∧
          later.world.IsLive ref ∧
          later.world.liveQueue? (finish.world.queue ref).id = some ref := by
  have registered := runs.registered standard (.start engine host)
  refine ⟨registered.keyed, ?_, fun ref other => registered.key_inj, ?_⟩
  · intro ref enlists
    obtain ⟨made, settled⟩ := settled_of_enlists standard enlists
    rw [registered.isLive_iff, settled made, Queue.isStopped, beq_eq_false_iff_ne]
  · intro ref other live different
    have lists := registered.isLive_iff.1 live
    obtain ⟨later, stopped, same⟩ := Queue.stop_returns engine.host other finish
    have kept : later.world.Lists ref ∧
        (later.world.queue ref).id = (finish.world.queue ref).id := by
      split at same
      · exact ⟨lists.same same, same.id ref⟩
      · refine ⟨(lists.halt different).same same, ?_⟩
        rw [same.id, World.queue_halt_of_ne (Ne.symm different)]
    refine ⟨later, stopped, List.mem_map_of_mem (Table.mem_of_get? kept.1), ?_⟩
    rw [← kept.2]
    exact kept.1

theorem registry_consistent_reused :
    let engine : Engine Unit := .builtin {}
    let calls : List HostCall := [.enlist "q" (.timed 1), .stop ⟨0⟩, .enlist "Q" (.timed 1),
      .make "q" .instant]
    ∃ state, engine.Runs calls (engine.start ()) state ∧
      state.world.live = [("q", ⟨1⟩)] ∧ ¬ state.world.IsLive ⟨0⟩ ∧
      ∀ other ∈ [(⟨0⟩ : QueueRef), ⟨2⟩],
        ∃ later, (Queue.stop engine.host other).run state = some ((), later) ∧
          later.world.liveQueue? "Q" = some ⟨1⟩ := by
  intro engine calls
  have answered : ((engine.answer 1 [.enlist "q" (.timed 1)] (engine.start ())).bind
      fun first => (engine.answer 1 calls.tail first).map fun state =>
        (first.world.queues.size, state.world.live, (state.world.queue ⟨0⟩).phase,
          (state.world.queue ⟨1⟩).id)) =
      some (1, [("q", ⟨1⟩)], .stopped, "Q") := by
    decide +kernel
  obtain ⟨first, made, answered⟩ := Option.bind_eq_some_iff.1 answered
  obtain ⟨state, later, told⟩ := Option.map_eq_some_iff.1 answered
  simp only [Prod.mk.injEq] at told
  obtain ⟨size, live, stopped, id⟩ := told
  have runs := Engine.runs_of_answer made
  have goesOn := Engine.runs_of_answer later
  have enlists : engine.Enlists calls (engine.start ()) state ⟨0⟩ :=
    ⟨[], _, _, _, first, rfl, fun _ _ => nofun, .nil _, runs, goesOn, Nat.le_refl _, by simp [size]⟩
  obtain ⟨_, liveness, _, stays⟩ :=
    registry_consistent (Engine.builtin_standard {}) (runs.append goesOn)
  refine ⟨state, runs.append goesOn, live, ?_, fun other member => ?_⟩
  · rw [liveness ⟨0⟩ enlists, stopped]
    simp
  · have isLive : state.world.IsLive ⟨1⟩ := by simp [World.IsLive, live]
    have different : other ≠ ⟨1⟩ := by
      rintro rfl
      simp at member
    obtain ⟨finish, ended, _, found⟩ := stays ⟨1⟩ other isLive different
    exact ⟨finish, ended, id ▸ found⟩

end Engine.Runs

end TagScript
