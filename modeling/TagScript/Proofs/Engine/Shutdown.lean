import TagScript.Proofs.Engine.HostCalls
import TagScript.Proofs.Queue.Registry

/-! Shutting down. Two queues can be stopped in either order: stopping one changes nothing of another
but its holds, and holds can be given up in any order, before a queue stops or after. So whatever the
order in which the live queues are visited, shutting down ends in one state, and nothing comes of
later ticks. -/

namespace TagScript

variable {η : Type}

def Queue.less (count : Nat) (queue : Queue) : Queue := { queue with holds := queue.holds - count }

theorem Queue.less_less (first second : Nat) (queue : Queue) :
    (queue.less first).less second = queue.less (first + second) := by
  simp [Queue.less, Nat.sub_sub]

theorem Queue.less_default (count : Nat) : (default : Queue).less count = default := by
  change { (default : Queue) with holds := 0 - count } = default
  rw [Nat.zero_sub]
  rfl

namespace World

def withdraw (key : String) (ref : QueueRef) (live : Table QueueRef) : Table QueueRef :=
  if live.get? key = some ref then live.erase key else live

def settleQueues (queues : Array Queue) : StopAction → Array Queue
  | .release ref => queues.modify ref.index Queue.release
  | .notify _ => queues

def retire (world : World η) (ref : QueueRef) : World η :=
  let queue := world.queue ref
  if queue.isStopped then world
  else
    { world with
      queues := queue.onStop.foldl settleQueues (world.queues.modify ref.index Queue.close)
      live := withdraw (Text.lower queue.id) ref world.live
      scheduler := queue.timer.elim world.scheduler fun timer => world.scheduler.cancel timer }

/-- The world apart from what was told and put on record. -/
def hushed (world : World η) : World η := { world with events := [], notes := [] }

variable {world : World η} {first second : QueueRef}

/-! Either order. -/

theorem getElem?_settleQueues (actions : List StopAction) (queues : Array Queue) (index : Nat) :
    (actions.foldl settleQueues queues)[index]? =
      queues[index]?.map (Queue.less (actions.count (.release ⟨index⟩))) := by
  induction actions generalizing queues with
  | nil => cases found : queues[index]? <;> simp [found, Queue.less]
  | cons action rest ih =>
      rw [List.foldl_cons, ih]
      cases action with
      | notify label => rw [List.count_cons_of_ne (by simp)]; rfl
      | release ref =>
          by_cases same : ref.index = index
          · obtain rfl : ref = ⟨index⟩ := by cases ref; exact congrArg QueueRef.mk same
            rw [List.count_cons_self, settleQueues, Array.getElem?_modify, if_pos rfl, Option.map_map]
            congr 1
            funext queue
            exact (queue.less_less 1 _).trans (congrArg (queue.less ·) (Nat.add_comm 1 _))
          · have apart : StopAction.release ref ≠ .release ⟨index⟩ := by
              rintro ⟨rfl⟩
              exact same rfl
            rw [List.count_cons_of_ne apart, settleQueues, Array.getElem?_modify, if_neg same]

theorem getElem?_retire (runs : (world.queue first).isStopped = false) (index : Nat) :
    (world.retire first).queues[index]? = world.queues[index]?.map fun queue =>
      (if first.index = index then queue.close else queue).less
        ((world.queue first).onStop.count (.release ⟨index⟩)) := by
  rw [retire, runs, if_neg Bool.false_ne_true, getElem?_settleQueues, Array.getElem?_modify]
  split <;> cases world.queues[index]? <;> rfl

theorem live_retire (runs : (world.queue first).isStopped = false) :
    (world.retire first).live = withdraw (Text.lower (world.queue first).id) first world.live := by
  rw [retire, runs, if_neg Bool.false_ne_true]

theorem scheduler_retire (runs : (world.queue first).isStopped = false) :
    (world.retire first).scheduler =
      (world.queue first).timer.elim world.scheduler fun timer => world.scheduler.cancel timer := by
  rw [retire, runs, if_neg Bool.false_ne_true]

theorem size_settleQueues (actions : List StopAction) (queues : Array Queue) :
    (actions.foldl settleQueues queues).size = queues.size := by
  induction actions generalizing queues with
  | nil => rfl
  | cons action rest ih =>
      rw [List.foldl_cons, ih]
      cases action with
      | release ref => exact Array.size_modify
      | notify label => rfl

theorem retire_of_isStopped (stopped : (world.queue first).isStopped = true) :
    world.retire first = world := by
  rw [retire, stopped]
  rfl

theorem halt_eq (world : World η) (ref : QueueRef) :
    world.halt ref = { world with
      queues := world.queues.modify ref.index Queue.close
      live := withdraw (Text.lower (world.queue ref).id) ref world.live
      scheduler :=
        (world.queue ref).timer.elim world.scheduler fun timer => world.scheduler.cancel timer } := by
  have id : ((world.modifyQueue ref Queue.close).queue ref).id = (world.queue ref).id := by
    rcases world.queue_modifyQueue_cases ref ref Queue.close with ⟨_, _, changed⟩ | kept
    · rw [changed]
      rfl
    · rw [kept]
  have removed (silenced : World η) (same : silenced.queues = (world.modifyQueue ref Queue.close).queues) :
      (silenced.removeLive ref).2 =
        { silenced with live := withdraw (Text.lower (world.queue ref).id) ref silenced.live } := by
    have key : (silenced.queue ref).id = (world.queue ref).id := by
      rw [queue, same]
      exact id
    rw [removeLive, key, withdraw]
    split <;> rfl
  unfold halt
  cases (world.queue ref).timer <;> exact removed _ rfl

theorem retire_eq (runs : (world.queue first).isStopped = false) :
    world.retire first = { world.halt first with
      queues := (world.queue first).onStop.foldl settleQueues (world.halt first).queues } := by
  rw [retire, runs, if_neg Bool.false_ne_true, halt_eq]

theorem queue_settled (actions : List StopAction) (world : World η) (ref : QueueRef) :
    World.queue ref { world with queues := actions.foldl settleQueues world.queues } =
      (world.queue ref).less (actions.count (.release ref)) := by
  rw [queue, getElem?_settleQueues]
  change _ = (world.queues[ref.index]?.getD default).less _
  cases world.queues[ref.index]? with
  | none => exact (Queue.less_default _).symm
  | some queue => rfl

theorem queue_retire (world : World η) (different : first ≠ second) :
    ∃ fewer, (world.retire first).queue second = (world.queue second).less fewer := by
  cases stopped : (world.queue first).isStopped with
  | true => exact ⟨0, by rw [retire_of_isStopped stopped]; rfl⟩
  | false =>
      refine ⟨(world.queue first).onStop.count (.release second), ?_⟩
      rw [retire_eq stopped, queue_settled, queue_halt_of_ne different.symm]

theorem isStopped_retire_of_ne (world : World η) (different : first ≠ second) :
    ((world.retire first).queue second).isStopped = (world.queue second).isStopped := by
  obtain ⟨fewer, behind⟩ := world.queue_retire different
  rw [behind]
  rfl

theorem withdraw_comm (key other : String) (different : first ≠ second) (live : Table QueueRef) :
    withdraw other second (withdraw key first live) =
      withdraw key first (withdraw other second live) := by
  by_cases same : key = other
  · subst same
    -- under one key stands at most one of the two
    by_cases isFirst : live.get? key = some first
    · simp [withdraw, isFirst, Table.get?_erase, different]
    · by_cases isSecond : live.get? key = some second
      · simp [withdraw, isSecond, Table.get?_erase, different.symm]
      · simp [withdraw, isFirst, isSecond]
  · have erased := Table.get?_erase_of_ne same live
    have erased' := Table.get?_erase_of_ne (Ne.symm same) live
    have either : Table.erase other (Table.erase key live) = Table.erase key (Table.erase other live) := by
      simp only [Table.erase, List.filter_filter]
      exact List.filter_congr fun _ _ => Bool.and_comm _ _
    by_cases isFirst : live.get? key = some first <;>
      by_cases isSecond : live.get? other = some second <;>
      simp [withdraw, isFirst, isSecond, erased, erased', either]

theorem cancel_comm (scheduler : Scheduler QueueRef AsyncWork) (timer other : TimerId) :
    (scheduler.cancel timer).cancel other = (scheduler.cancel other).cancel timer := by
  simp only [Scheduler.cancel, Scheduler.modifyTimer, List.map_map]
  congr 1
  apply List.map_congr_left
  intro held _
  simp only [Function.comp_apply]
  split <;> split <;> simp_all

theorem queues_retire_comm (world : World η) (different : first ≠ second)
    (firstRuns : (world.queue first).isStopped = false)
    (secondRuns : (world.queue second).isStopped = false) :
    ((world.retire first).retire second).queues = ((world.retire second).retire first).queues := by
  have apart : first.index ≠ second.index := by
    intro same
    exact different (by cases first; cases second; exact congrArg QueueRef.mk same)
  obtain ⟨fewer, behindFirst⟩ := world.queue_retire different
  obtain ⟨fewer', behindSecond⟩ := world.queue_retire different.symm
  have stillRuns := (world.isStopped_retire_of_ne different).trans secondRuns
  have stillRuns' := (world.isStopped_retire_of_ne different.symm).trans firstRuns
  apply Array.ext_getElem?
  intro index
  rw [getElem?_retire stillRuns, getElem?_retire firstRuns, getElem?_retire stillRuns',
    getElem?_retire secondRuns, behindFirst, behindSecond, Option.map_map, Option.map_map]
  congr 1
  funext queue
  -- holds given up before a queue stops and after, for the one queue and for the other
  simp only [Function.comp_apply]
  by_cases isFirst : first.index = index <;> by_cases isSecond : second.index = index
  · exact absurd (isFirst.trans isSecond.symm) apart
  all_goals simp [isFirst, isSecond, Queue.less, Queue.close, Queue.note, Nat.sub_right_comm]

theorem size_retire (world : World η) (ref : QueueRef) :
    (world.retire ref).queues.size = world.queues.size := by
  unfold retire
  dsimp only
  split
  · rfl
  · rw [size_settleQueues, Array.size_modify]

theorem retire_frame (world : World η) (ref : QueueRef) :
    ∃ queues live scheduler, world.retire ref = { world with queues, live, scheduler } := by
  unfold retire
  dsimp only
  split
  · exact ⟨world.queues, world.live, world.scheduler, rfl⟩
  · exact ⟨_, _, _, rfl⟩

theorem retire_comm_of_runs (world : World η) (different : first ≠ second)
    (firstRuns : (world.queue first).isStopped = false)
    (secondRuns : (world.queue second).isStopped = false) :
    (world.retire first).retire second = (world.retire second).retire first := by
  obtain ⟨fewer, behindFirst⟩ := world.queue_retire different
  obtain ⟨fewer', behindSecond⟩ := world.queue_retire different.symm
  have stillRuns := (world.isStopped_retire_of_ne different).trans secondRuns
  have stillRuns' := (world.isStopped_retire_of_ne different.symm).trans firstRuns
  have queues := queues_retire_comm world different firstRuns secondRuns
  have live : ((world.retire first).retire second).live =
      ((world.retire second).retire first).live := by
    rw [live_retire stillRuns, live_retire firstRuns, live_retire stillRuns',
      live_retire secondRuns, behindFirst, behindSecond]
    exact withdraw_comm _ _ different world.live
  have scheduler : ((world.retire first).retire second).scheduler =
      ((world.retire second).retire first).scheduler := by
    rw [scheduler_retire stillRuns, scheduler_retire firstRuns, scheduler_retire stillRuns',
      scheduler_retire secondRuns, behindFirst, behindSecond]
    change Option.elim (world.queue second).timer _ _ = Option.elim (world.queue first).timer _ _
    cases (world.queue first).timer with
    | none => rfl
    | some timer =>
        cases (world.queue second).timer with
        | none => rfl
        | some other => exact cancel_comm world.scheduler timer other
  obtain ⟨_, _, _, left⟩ := retire_frame world first
  obtain ⟨_, _, _, left'⟩ := retire_frame (world.retire first) second
  obtain ⟨_, _, _, right⟩ := retire_frame world second
  obtain ⟨_, _, _, right'⟩ := retire_frame (world.retire second) first
  rw [left', right'] at queues live scheduler ⊢
  cases queues
  cases live
  cases scheduler
  rw [left, right]

theorem retire_comm (world : World η) (first second : QueueRef) :
    (world.retire first).retire second = (world.retire second).retire first := by
  by_cases same : first = second
  · rw [same]
  cases firstStopped : (world.queue first).isStopped with
  | true =>
      have still := (world.isStopped_retire_of_ne (Ne.symm same)).trans firstStopped
      rw [retire_of_isStopped firstStopped, retire_of_isStopped still]
  | false =>
      cases secondStopped : (world.queue second).isStopped with
      | true =>
          have still := (world.isStopped_retire_of_ne same).trans secondStopped
          rw [retire_of_isStopped secondStopped, retire_of_isStopped still]
      | false => exact retire_comm_of_runs world same firstStopped secondStopped

theorem foldl_retire_perm {order other : List QueueRef} (same : order.Perm other)
    (world : World η) : order.foldl retire world = other.foldl retire world :=
  same.foldl_eq' (fun first _ second _ world => retire_comm world first second) world

theorem hushed_retire (world : World η) (ref : QueueRef) :
    (world.retire ref).hushed = world.hushed.retire ref := by
  unfold retire
  dsimp only [hushed, queue]
  split <;> rfl

theorem halt_sameRegistry_retire (runs : (world.queue first).isStopped = false) :
    (world.halt first).SameRegistry (world.retire first) := by
  refine ⟨?_, ?_, fun ref => ?_, fun ref => ?_⟩
  · rw [live_retire runs, halt_eq]
  · rw [size_halt, size_retire]
  · rw [retire_eq runs, queue_settled]
    rfl
  · rw [retire_eq runs, queue_settled]
    rfl

theorem Registered.retire (registered : world.Registered) (ref : QueueRef) :
    (world.retire ref).Registered := by
  cases stopped : (world.queue ref).isStopped with
  | true => rwa [retire_of_isStopped stopped]
  | false => exact (registered.halt ref).same (halt_sameRegistry_retire stopped)

theorem isStopped_retire (made : first.index < world.queues.size) :
    ((world.retire first).queue first).isStopped = true := by
  cases stopped : (world.queue first).isStopped with
  | true => rwa [retire_of_isStopped stopped]
  | false => rw [(halt_sameRegistry_retire stopped).isStopped, isStopped_halt made]

theorem isStopped_retire_of_isStopped (stopped : (world.queue second).isStopped = true) :
    ((world.retire first).queue second).isStopped = true := by
  by_cases same : first = second
  · subst same
    rwa [retire_of_isStopped stopped]
  · exact (world.isStopped_retire_of_ne same).trans stopped

theorem live_retire_subset (world : World η) (ref : QueueRef) :
    (world.retire ref).live ⊆ world.live := by
  cases stopped : (world.queue ref).isStopped with
  | true =>
      rw [retire_of_isStopped stopped]
      exact List.Subset.refl _
  | false =>
      rw [live_retire stopped, withdraw]
      split
      · exact List.filter_subset_self _
      · exact List.Subset.refl _

theorem jobs_retire (world : World η) (ref : QueueRef) :
    (world.retire ref).scheduler.jobs = world.scheduler.jobs := by
  cases stopped : (world.queue ref).isStopped with
  | true => rw [retire_of_isStopped stopped]
  | false =>
      rw [scheduler_retire stopped]
      cases (world.queue ref).timer <;> rfl

theorem retired_all (order : List QueueRef) (registered : world.Registered)
    (made : ∀ ref ∈ order, ref.index < world.queues.size) :
    (order.foldl World.retire world).Registered ∧
      (order.foldl World.retire world).live ⊆ world.live ∧
      (order.foldl World.retire world).scheduler.jobs = world.scheduler.jobs ∧
      ∀ ref, ref ∈ order ∨ (world.queue ref).isStopped = true →
        ((order.foldl World.retire world).queue ref).isStopped = true := by
  induction order generalizing world with
  | nil => exact ⟨registered, List.Subset.refl _, rfl, fun ref => by simp⟩
  | cons first rest ih =>
      obtain ⟨kept, fewer, jobs, stopped⟩ := ih (registered.retire first) fun ref member => by
        rw [size_retire]
        exact made ref (List.mem_cons_of_mem _ member)
      refine ⟨kept, List.Subset.trans fewer (world.live_retire_subset first),
        jobs.trans (world.jobs_retire first),
        fun ref which => stopped ref ?_⟩
      rcases which with member | before
      · rcases List.mem_cons.1 member with rfl | later
        · exact .inr (isStopped_retire (made ref member))
        · exact .inl later
      · exact .inr (isStopped_retire_of_isStopped before)

theorem live_retired_all {order : List QueueRef} (registered : world.Registered)
    (all : order.Perm (world.live.map (·.2))) : (order.foldl World.retire world).live = [] := by
  have made : ∀ ref ∈ order, ref.index < world.queues.size := by
    intro ref member
    obtain ⟨named, isLive, rfl⟩ := List.mem_map.1 (all.mem_iff.1 member)
    exact registered.made named isLive
  obtain ⟨kept, fewer, _, stopped⟩ := retired_all order registered made
  rw [List.eq_nil_iff_forall_not_mem]
  intro named still
  have visited : named.2 ∈ order := all.mem_iff.2 (List.mem_map_of_mem (fewer still))
  have runs := kept.runs named still
  rw [stopped named.2 (.inl visited)] at runs
  cases runs

theorem hushed_checkHold (ref : QueueRef) (world : World η) :
    (world.checkHold ref).hushed = world.hushed := by
  unfold checkHold
  split <;> rfl

end World

/-! What stopping queues comes to. -/

namespace Queue

theorem carryOut_settles (actions : List StopAction) (start : Tag.Evaluation (World η)) :
    ∃ world, (actions.forM carryOut : RunM η Unit).run start = some ((), { start with world }) ∧
      world.hushed = World.hushed { start.world with
        queues := actions.foldl World.settleQueues start.world.queues } := by
  induction actions generalizing start with
  | nil => exact ⟨start.world, rfl, rfl⟩
  | cons action rest ih =>
      obtain ⟨between, first, same⟩ : ∃ between,
          (carryOut action : RunM η Unit).run start = some ((), { start with world := between }) ∧
            between.hushed = World.hushed { start.world with
              queues := World.settleQueues start.world.queues action } := by
        cases action with
        | release ref =>
            refine ⟨(start.world.checkHold ref).modifyQueue ref Queue.release, rfl, ?_⟩
            change (start.world.checkHold ref).hushed.modifyQueue ref Queue.release = _
            rw [World.hushed_checkHold]
            rfl
        | notify label => exact ⟨_, rfl, rfl⟩
      obtain ⟨world, later, settled⟩ := ih { start with world := between }
      refine ⟨world, ?_, ?_⟩
      · rw [List.forM_eq_forM, List.forM_cons]
        exact Tag.EvalM.run_bind_eq_some.2 ⟨(), _, first, later⟩
      · calc world.hushed
          _ = { between.hushed with
              queues := rest.foldl World.settleQueues between.hushed.queues } := settled
          _ = _ := by rw [same]; rfl

theorem stop_retires (host : Host) (ref : QueueRef) (start : Tag.Evaluation (World η)) :
    ∃ world, (stop host ref).run start = some ((), { start with world }) ∧
      world.hushed = start.world.hushed.retire ref := by
  have told (queue : Queue) (start : Tag.Evaluation (World η)) :
      ∃ world, (do
          host.remark queue.id "Queue completed."
          queue.onStop.forM carryOut : RunM η Unit).run start = some ((), { start with world }) ∧
        world.hushed = World.hushed { start.world with
          queues := queue.onStop.foldl World.settleQueues start.world.queues } := by
    obtain ⟨between, remarked, same⟩ : ∃ between,
        (host.remark queue.id "Queue completed." : RunM η Unit).run start =
          some ((), { start with world := between }) ∧ between.hushed = start.world.hushed := by
      unfold Host.remark
      split
      · exact ⟨_, rfl, rfl⟩
      · exact ⟨start.world, rfl, rfl⟩
    obtain ⟨world, settled, later⟩ := carryOut_settles queue.onStop { start with world := between }
    refine ⟨world, Tag.EvalM.run_bind_eq_some.2 ⟨(), _, remarked, settled⟩, ?_⟩
    calc world.hushed
      _ = { between.hushed with
          queues := queue.onStop.foldl World.settleQueues between.hushed.queues } := later
      _ = _ := by rw [same]; rfl
  rw [← World.hushed_retire]
  unfold stop
  rw [RunM.queue, bind_assoc, RunM.world, Tag.EvalM.run_world_bind, pure_bind]
  cases runs : (start.world.queue ref).isStopped with
  | true =>
      rw [World.retire_of_isStopped runs]
      exact ⟨start.world, rfl, rfl⟩
  | false =>
      rw [if_neg Bool.false_ne_true, RunM.modifyQueue, RunM.update, Tag.EvalM.run_modifyWorld_bind]
      rw [World.retire_eq runs]
      have closing := told (start.world.queue ref) { start with world := start.world.halt ref }
      unfold World.halt at closing ⊢
      cases timer : (start.world.queue ref).timer with
      | none =>
          rw [timer] at closing
          exact closing
      | some number =>
          rw [timer] at closing
          exact closing

theorem stops_retire (host : Host) (order : List QueueRef) (start : Tag.Evaluation (World η)) :
    ∃ world, (order.forM (stop host)).run start = some ((), { start with world }) ∧
      world.hushed = order.foldl World.retire start.world.hushed := by
  induction order generalizing start with
  | nil => exact ⟨start.world, rfl, rfl⟩
  | cons first rest ih =>
      obtain ⟨between, stopped, retired⟩ := stop_retires host first start
      obtain ⟨world, later, same⟩ := ih { start with world := between }
      refine ⟨world, ?_, same.trans (by rw [retired]; rfl)⟩
      rw [List.forM_eq_forM, List.forM_cons]
      exact Tag.EvalM.run_bind_eq_some.2 ⟨(), _, stopped, later⟩

end Queue

structure Scheduler.Idle {α β : Type} (scheduler : Scheduler α β) : Prop where
  timers : scheduler.timers = []
  inbox : scheduler.inbox = []
  jobs : scheduler.jobs = []

def World.later (ticks : List Duration) (world : World η) : World η :=
  { world with
    scheduler := ticks.foldl (fun scheduler elapsed => scheduler.advance elapsed) world.scheduler }

namespace Engine

theorem tickBy_idle {state : Tag.Evaluation (World η)} (idle : state.world.scheduler.Idle)
    (handlers : Scheduler.Handlers (RunM η) QueueRef AsyncWork) (jobs : Nat) (elapsed : Duration) :
    (tickBy handlers (jobs + 1) elapsed).run state =
      some ((), { state with world := state.world.later [elapsed] }) := by
  obtain ⟨pieces, chains, token, bound, world⟩ := state
  obtain ⟨⟨timers, nextId, now, inbox, pool⟩, queues⟩ := world
  obtain ⟨rfl, rfl, rfl⟩ := idle
  rfl

theorem ticksBy_idle {state : Tag.Evaluation (World η)} (idle : state.world.scheduler.Idle)
    (handlers : Scheduler.Handlers (RunM η) QueueRef AsyncWork) (jobs : Nat) (ticks : List Duration) :
    (ticks.forM (tickBy handlers (jobs + 1))).run state =
      some ((), { state with world := state.world.later ticks }) := by
  induction ticks generalizing state with
  | nil => rfl
  | cons elapsed rest ih =>
      rw [List.forM_eq_forM, List.forM_cons]
      refine Tag.EvalM.run_bind_eq_some.2 ⟨(), _, tickBy_idle idle handlers jobs elapsed, ?_⟩
      exact ih ⟨idle.timers, idle.inbox, idle.jobs⟩

variable {engine : Engine η}

/-- Shuts down, the live queues being visited in that order. -/
def shutdownIn (engine : Engine η) (order : List QueueRef) : RunM η Unit := do
  RunM.log .debug s!"Shutting down {order.length} live queue(s)."
  order.forM (Queue.stop engine.host)
  RunM.update fun world => { world with scheduler := world.scheduler.clear }

theorem run_shutdown (engine : Engine η) (state : Tag.Evaluation (World η)) :
    engine.shutdown.run state = (engine.shutdownIn (state.world.live.map (·.2))).run state := by
  rw [shutdown, RunM.world, Tag.EvalM.run_world_bind, shutdownIn, List.length_map,
    List.forM_eq_forM, List.forM_eq_forM, List.forM_map]

theorem shutdownIn_retires (engine : Engine η) (order : List QueueRef)
    (state : Tag.Evaluation (World η)) :
    ∃ world, (engine.shutdownIn order).run state = some ((), { state with world }) ∧
      world.hushed = { order.foldl World.retire state.world.hushed with
        scheduler := (order.foldl World.retire state.world.hushed).scheduler.clear } := by
  obtain ⟨world, stopped, retired⟩ := Queue.stops_retire engine.host order
    { state with
      world := state.world.log .debug s!"Shutting down {order.length} live queue(s)." }
  refine ⟨{ world with scheduler := world.scheduler.clear }, ?_, ?_⟩
  · rw [shutdownIn, RunM.log, RunM.update, Tag.EvalM.run_modifyWorld_bind]
    exact Tag.EvalM.run_bind_eq_some.2 ⟨(), _, stopped, rfl⟩
  · calc World.hushed { world with scheduler := world.scheduler.clear }
      _ = { world.hushed with scheduler := world.hushed.scheduler.clear } := rfl
      _ = _ := by rw [retired]; rfl

/-- Shutting down between calls, with no job left in the pool, ends in the same world in whatever
order the live queues are visited, what is told and put on record apart. All of them have stopped, no
queue is live and nothing is to be done by and by: as long as nobody asks for anything new, time that
passes does nothing but move the clock. -/
theorem shutdown_complete (standard : engine.Standard) {calls : List HostCall} {host : η}
    {state : Tag.Evaluation (World η)} (runs : engine.Runs calls (engine.start host) state)
    (free : state.world.scheduler.jobs = []) :
    engine.shutdown.run state = (engine.shutdownIn (state.world.live.map (·.2))).run state ∧
      ∃ ended : World η,
        (∀ named ∈ state.world.live, (ended.queue named.2).phase = .stopped) ∧
        ended.live = [] ∧ ended.scheduler.timers = [] ∧ ended.scheduler.inbox = [] ∧
        ∀ order : List QueueRef, order.Perm (state.world.live.map (·.2)) →
          ∃ world, (engine.shutdownIn order).run state = some ((), { state with world }) ∧
            world.hushed = ended ∧
            (∀ handlers jobs ticks, (ticks.forM (tickBy handlers (jobs + 1))).run
              { state with world } = some ((), { state with world := world.later ticks })) ∧
            ∀ budget ticks, (ticks.forM (engine.tick (budget + 1))).run
              { state with world } = some ((), { state with world := world.later ticks }) := by
  have registered : state.world.hushed.Registered :=
    (runs.registered standard (.start engine host)).same (.of_queues rfl rfl)
  let refs := state.world.live.map (·.2)
  let retired := refs.foldl World.retire state.world.hushed
  obtain ⟨_, _, jobs, stopped⟩ := World.retired_all refs registered fun ref member => by
    obtain ⟨named, isLive, rfl⟩ := List.mem_map.1 member
    exact registered.made named isLive
  refine ⟨engine.run_shutdown state, { retired with scheduler := retired.scheduler.clear },
    fun named isLive => ?_, World.live_retired_all registered (.refl _), rfl, rfl, fun order same => ?_⟩
  · have visited := stopped named.2 (.inl (List.mem_map_of_mem isLive))
    exact eq_of_beq visited
  · obtain ⟨world, ended, hushed⟩ := engine.shutdownIn_retires order state
    rw [World.foldl_retire_perm same] at hushed
    have scheduler : world.scheduler = retired.scheduler.clear := congrArg World.scheduler hushed
    have idle : world.scheduler.Idle := by
      rw [scheduler]
      exact ⟨rfl, rfl, jobs.trans free⟩
    refine ⟨world, ended, hushed, @ticksBy_idle _ { state with world } idle, ?_⟩
    intro budget ticks
    rw [show engine.tick (budget + 1) = tickBy (engine.handlers (budget + 1)) (budget + 1) from
      funext (engine.tick_eq (budget + 1))]
    exact @ticksBy_idle _ { state with world } idle _ budget ticks

def waitingForOther : List HostCall :=
  [.register ⟨"child", [⟨"wait", ["5t"], false, none, none⟩]⟩,
    .fire ⟨.inline ⟨"parent", [⟨"run", ["child"], true, none, none⟩]⟩, {}⟩]

theorem shutdown_complete_waitingForOther :
    let engine : Engine Unit := .builtin {}
    ∃ state, engine.Runs waitingForOther (engine.start ()) state ∧
      state.world.scheduler.jobs = [] ∧
      state.world.live = [("parent_1", ⟨0⟩), ("child_2", ⟨1⟩)] ∧
      (state.world.queue ⟨0⟩).holds = 1 ∧ (state.world.queue ⟨1⟩).onStop = [.release ⟨0⟩] ∧
      ∃ ended : World Unit, ended.live = [] ∧
        ∀ order ∈ [[(⟨0⟩ : QueueRef), ⟨1⟩], [⟨1⟩, ⟨0⟩]],
          ∃ world, (engine.shutdownIn order).run state = some ((), { state with world }) ∧
            world.hushed = ended := by
  intro engine
  have answered : (engine.answer 5 waitingForOther (engine.start ())).map (fun state =>
      (state.world.scheduler.jobs.isEmpty, state.world.live, (state.world.queue ⟨0⟩).holds,
        (state.world.queue ⟨1⟩).onStop)) =
      some (true, [("parent_1", ⟨0⟩), ("child_2", ⟨1⟩)], 1, [.release ⟨0⟩]) := by
    decide +kernel
  obtain ⟨state, answered, told⟩ := Option.map_eq_some_iff.1 answered
  simp only [Prod.mk.injEq, List.isEmpty_iff] at told
  obtain ⟨free, live, holds, onStop⟩ := told
  have runs := runs_of_answer answered
  obtain ⟨_, ended, _, none, _, _, orders⟩ :=
    shutdown_complete (Engine.builtin_standard {}) runs free
  refine ⟨state, runs, free, live, holds, onStop, ended, none, fun order member => ?_⟩
  have same : order.Perm (state.world.live.map (·.2)) := by
    rw [live]
    simp only [List.mem_cons, List.not_mem_nil, or_false] at member
    rcases member with rfl | rfl
    · exact .refl _
    · exact .swap _ _ _
  obtain ⟨world, shut, hushed, _⟩ := orders order same
  exact ⟨world, shut, hushed⟩

end Engine

end TagScript
