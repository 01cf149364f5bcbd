import TagScript.Proofs.Engine.Unstarted

/-! The one timer that revolves a queue. Whatever runs, it stays the timer of that queue as long as the
queue does, and nothing but ticks and the pool change it. -/

namespace TagScript

variable {η α β : Type}

namespace World

/-- The timer that revolves the queue. Until the queue stops, the timer is its own, and no other timer
revolves it. -/
structure Wound (ref : QueueRef) (timer : Timer QueueRef) (world : World η) : Prop where
  fresh : timer.id.number < world.scheduler.nextId
  named : ∀ listed ∈ world.scheduler.timers, listed.id = timer.id → listed.action = ref
  foreign : ∀ other, (world.queue other).timer = some timer.id → other = ref
  own : (world.queue ref).isStopped = false → (world.queue ref).timer = some timer.id
  alone : (world.queue ref).isStopped = false →
    world.scheduler.timers.filter (·.action = ref) = [timer]

def Unwound (ref : QueueRef) (world : World η) : Prop :=
  (world.queue ref).timer = none → (world.queue ref).isStopped = false →
    ∀ timer ∈ world.scheduler.timers, timer.action ≠ ref

def ownTimer (ref : QueueRef) (world : World η) : Timer QueueRef :=
  let queue := world.queue ref
  { id := ⟨world.scheduler.nextId⟩, countdown := queue.kind.period.nanoseconds,
    timing := .every queue.kind.period, dispatch := if queue.offMain then .worker else .inline,
    action := ref, cancelled := false, inFlight := false }

theorem timers_wind_ownTimer (ref : QueueRef) (world : World η) :
    (world.wind ref (Engine.revolutions ref (world.queue ref))).scheduler.timers =
      world.scheduler.timers ++ [world.ownTimer ref] := by
  unfold ownTimer World.wind Engine.revolutions
  dsimp only
  split <;> rfl

theorem filter_timers_halt {ref actor : QueueRef} {world : World η}
    (foreign : ∀ timer ∈ world.scheduler.timers.filter (·.action = ref),
      (world.queue actor).timer ≠ some timer.id) :
    (world.halt actor).scheduler.timers.filter (·.action = ref) =
      world.scheduler.timers.filter (·.action = ref) := by
  have same (timer : Timer QueueRef) : (if (world.queue actor).timer = some timer.id then
      { timer with cancelled := true } else timer).action = timer.action := by split <;> rfl
  rw [timers_halt, List.filter_map]
  simp only [Function.comp_def, same]
  exact (List.map_congr_left fun timer member => if_neg (foreign timer member)).trans (List.map_id' _)

theorem isStopped_halt_self {ref : QueueRef} {world : World η} {id : TimerId}
    (has : (world.queue ref).timer = some id) : ((world.halt ref).queue ref).isStopped = true := by
  simp [Queue.isStopped, (queue_halt_of_timer has).1]

theorem queue_wind_cases (ref other : QueueRef) (plan : Schedule QueueRef) (world : World η) :
    (other = ref ∧ (world.wind ref plan).queue other =
        { world.queue other with timer := some ⟨world.scheduler.nextId⟩ }) ∨
      (world.wind ref plan).queue other = world.queue other := by
  rcases ({ world with scheduler := (world.scheduler.schedule plan).2 }).queue_modifyQueue_cases ref other
    ({ · with timer := some ⟨world.scheduler.nextId⟩ }) with ⟨same, _, changed⟩ | kept
  · exact .inl ⟨same, changed⟩
  · exact .inr kept

namespace Wound

variable {ref : QueueRef} {timer : Timer QueueRef} {world other : World η} (wound : world.Wound ref timer)

include wound

theorem of_queues (scheduler : other.scheduler = world.scheduler)
    (timers : ∀ actor, (other.queue actor).timer = (world.queue actor).timer)
    (isStopped : (other.queue ref).isStopped = (world.queue ref).isStopped) :
    other.Wound ref timer := by
  constructor
  · rw [scheduler]
    exact wound.fresh
  · rw [scheduler]
    exact wound.named
  · intro actor
    rw [timers]
    exact wound.foreign actor
  · rw [timers, isStopped]
    exact wound.own
  · rw [scheduler, isStopped]
    exact wound.alone

theorem modifyQueue {actor : QueueRef} {change : Queue → Queue}
    (timer_eq : (change (world.queue actor)).timer = (world.queue actor).timer)
    (stopped_eq : (change (world.queue actor)).isStopped = (world.queue actor).isStopped) :
    (world.modifyQueue actor change).Wound ref timer := by
  refine wound.of_queues rfl (fun other => ?_) ?_
  · rcases world.queue_modifyQueue_cases actor other change with ⟨rfl, _, changed⟩ | kept
    · rw [changed, timer_eq]
    · rw [kept]
  · rcases world.queue_modifyQueue_cases actor ref change with ⟨rfl, _, changed⟩ | kept
    · rw [changed, stopped_eq]
    · rw [kept]

theorem enlist (id : String) (kind : QueueKind) : (world.queueOrCreate id kind).2.Wound ref timer := by
  refine wound.of_queues (world.scheduler_queueOrCreate id kind) (fun actor => ?_) ?_
  · rcases world.queue_queueOrCreate_cases id kind actor with ⟨unmade, made⟩ | same
    · rw [made, unmade]
      rfl
    · rw [same]
  · rcases world.queue_queueOrCreate_cases id kind ref with ⟨unmade, made⟩ | same
    · rw [made, unmade]
      rfl
    · rw [same]

theorem halt {actor : QueueRef} (runs : (world.queue actor).isStopped = false) :
    (world.halt actor).Wound ref timer := by
  -- Stopping a queue cancels its own timer; that is this one only where the queue itself stops.
  have others (going : ((world.halt actor).queue ref).isStopped = false) :
      (world.halt actor).queue ref = world.queue ref ∧ (world.queue ref).isStopped = false ∧
        actor ≠ ref := by
    by_cases same : actor = ref
    · subst same
      exact absurd going (by simp [isStopped_halt_self (wound.own runs)])
    · have kept : (world.halt actor).queue ref = world.queue ref := queue_halt_of_ne (Ne.symm same)
      exact ⟨kept, kept ▸ going, same⟩
  constructor
  · rw [nextId_halt]
    exact wound.fresh
  · intro listed member named
    obtain ⟨before, found, id, _, action, _⟩ := mem_timers_halt member
    exact action.trans (wound.named before found (id.symm.trans named))
  · intro other has
    rcases world.queue_halt_cases actor other with ⟨_, _, none⟩ | same
    · rw [none] at has
      cases has
    · exact wound.foreign other (same ▸ has)
  · intro going
    obtain ⟨kept, before, _⟩ := others going
    rw [kept]
    exact wound.own before
  · intro going
    obtain ⟨_, before, different⟩ := others going
    have alone := wound.alone before
    rw [filter_timers_halt, alone]
    intro listed member has
    rw [alone, List.mem_singleton] at member
    exact different (wound.foreign actor (member ▸ has))

theorem wind {actor : QueueRef} (unwound : (world.queue actor).timer = none)
    (runs : (world.queue actor).isStopped = false) :
    (world.wind actor (Engine.revolutions actor (world.queue actor))).Wound ref timer := by
  have different : actor ≠ ref := by
    rintro rfl
    rw [wound.own runs] at unwound
    cases unwound
  have timers := world.timers_wind_ownTimer actor
  have here := queue_wind_of_ne different.symm (Engine.revolutions actor (world.queue actor)) world
  constructor
  · exact Nat.lt_succ_of_lt wound.fresh
  · intro listed member named
    rw [timers] at member
    rcases List.mem_append.1 member with old | new
    · exact wound.named listed old named
    · -- a new timer has a name of its own
      rw [List.mem_singleton.1 new] at named
      exact absurd wound.fresh (by rw [← named]; exact Nat.lt_irrefl _)
  · intro other has
    rcases world.queue_wind_cases actor other (Engine.revolutions actor (world.queue actor)) with
      ⟨_, same⟩ | same
    · rw [same] at has
      exact absurd wound.fresh (by rw [← Option.some.inj has]; exact Nat.lt_irrefl _)
    · exact wound.foreign other (same ▸ has)
  · rw [here]
    exact wound.own
  · rw [here, timers, List.filter_append, List.filter_singleton]
    intro going
    rw [wound.alone going]
    simp [ownTimer, different]

theorem nudge (nudge : world.Nudge other) : other.Wound ref timer := by
  cases nudge with
  | beside same =>
      have queues (actor : QueueRef) : other.queue actor = world.queue actor := by
        rw [queue, queue, same.queues]
      exact wound.of_queues same.scheduler (fun actor => by rw [queues]) (by rw [queues])
  | adjust actor change unturned =>
      have same := unturned (world.queue actor)
      exact wound.modifyQueue same.timer (by rw [Queue.isStopped, Queue.isStopped, same.phase])
  | launch actor new =>
      exact wound.modifyQueue rfl (by rw [Queue.isStopped, Queue.isStopped, new]; rfl)
  | enlist id kind => exact wound.enlist id kind
  | halt actor runs => exact wound.halt runs
  | wind actor unwound _ runs => exact wound.wind unwound runs

theorem reschedule {scheduler : Scheduler QueueRef AsyncWork} (change : Timer QueueRef → Timer QueueRef)
    (stays : Timer QueueRef → Bool)
    (same : ∀ listed, (change listed).id = listed.id ∧ (change listed).action = listed.action)
    (nextId : scheduler.nextId = world.scheduler.nextId)
    (timers : scheduler.timers = (world.scheduler.timers.map change).filter stays)
    (kept : stays (change timer) = true) : Wound ref (change timer) { world with scheduler } := by
  have id := (same timer).1
  constructor
  · rw [id, nextId]
    exact wound.fresh
  · intro listed member named
    rw [timers] at member
    obtain ⟨earlier, found, rfl⟩ := List.mem_map.1 (List.mem_filter.1 member).1
    rw [id, (same earlier).1] at named
    rw [(same earlier).2]
    exact wound.named earlier found named
  · rw [id]
    exact wound.foreign
  · rw [id]
    exact wound.own
  · intro going
    rw [timers, List.filter_comm, List.filter_map]
    simp only [Function.comp_def, (same _).2]
    rw [wound.alone going, List.map_singleton, List.filter_singleton, kept]
    rfl

theorem of_timers {scheduler : Scheduler QueueRef AsyncWork}
    (nextId : scheduler.nextId = world.scheduler.nextId)
    (timers : scheduler.timers = world.scheduler.timers) : Wound ref timer { world with scheduler } :=
  ⟨nextId ▸ wound.fresh, timers ▸ wound.named, wound.foreign, wound.own, timers ▸ wound.alone⟩

theorem modifyTimer (id : TimerId) (change : Timer QueueRef → Timer QueueRef)
    {scheduler : Scheduler QueueRef AsyncWork}
    (same : ∀ listed, (change listed).id = listed.id ∧ (change listed).action = listed.action)
    (nextId : scheduler.nextId = world.scheduler.nextId)
    (timers : scheduler.timers = (world.scheduler.modifyTimer id change).timers) :
    Wound ref (if timer.id = id then change timer else timer) { world with scheduler } := by
  refine wound.reschedule (fun listed => if listed.id = id then change listed else listed)
    (fun _ => true) (fun listed => ?_) nextId ?_ rfl
  · split
    · exact same listed
    · exact ⟨rfl, rfl⟩
  · rw [timers, List.filter_true]
    rfl

theorem collectDue (elapsed : Nat) (kept : (timer.age elapsed).1.cancelled = false) :
    Wound ref (timer.age elapsed).1
      { world with scheduler := (world.scheduler.collectDue elapsed).2 } := by
  refine wound.reschedule (fun listed => (listed.age elapsed).1) (!·.cancelled)
    (fun listed => ?_) rfl ?_ (by rw [kept]; rfl)
  · have same := Scheduler.age_same elapsed listed
    exact ⟨same.1, same.2.1⟩
  · simp only [Scheduler.collectDue, List.map_map, Function.comp_def]

variable (runs : (world.queue ref).isStopped = false)

include runs

theorem mem : timer ∈ world.scheduler.timers ∧ timer.action = ref := by
  have listed : timer ∈ world.scheduler.timers.filter (·.action = ref) := by simp [wound.alone runs]
  simpa using listed

theorem due (elapsed : Nat) :
    (world.scheduler.collectDue elapsed).1.filter (·.action = ref) =
      if (timer.age elapsed).2 then [(timer.age elapsed).1.due] else [] := by
  have same (listed : Timer QueueRef) : (listed.age elapsed).1.due.action = listed.action :=
    (Scheduler.age_same elapsed listed).2.1
  simp only [Scheduler.collectDue, List.filter_map, List.map_map, Function.comp_def, same]
  rw [List.filter_comm, wound.alone runs, List.filter_singleton]
  cases (timer.age elapsed).2 <;> rfl

omit runs in
theorem named_due {elapsed : Nat} {due : Due QueueRef}
    (member : due ∈ (world.scheduler.collectDue elapsed).1) (named : due.id = timer.id) :
    due.action = ref := by
  obtain ⟨aged, listed, rfl⟩ := List.mem_map.1 member
  obtain ⟨earlier, found, rfl⟩ := List.mem_map.1 (List.mem_filter.1 listed).1
  obtain ⟨id, action, _⟩ := Scheduler.age_same elapsed earlier
  exact action.trans (wound.named earlier found (id.symm.trans named))

theorem isBusy {due : Due QueueRef} (named : due.id = timer.id) :
    world.scheduler.isBusy due = timer.inFlight := by
  obtain ⟨member, _⟩ := wound.mem runs
  unfold Scheduler.isBusy Scheduler.find?
  cases found : world.scheduler.timers.find? (·.id == due.id) with
  | none => exact absurd (List.find?_eq_none.1 found timer member) (by simp [named])
  | some listed =>
      have id : listed.id = timer.id := by simpa [named] using List.find?_some found
      have there := List.mem_of_find?_eq_some found
      have only : listed ∈ world.scheduler.timers.filter (·.action = ref) := by
        simp [there, wound.named listed there id]
      rw [wound.alone runs, List.mem_singleton] at only
      rw [only]

end Wound

theorem Unwound.nudge {ref : QueueRef} {world other : World η} (unwound : world.Unwound ref)
    (nudge : world.Nudge other) : other.Unwound ref := by
  intro none runs
  cases nudge with
  | beside same =>
      rw [queue, same.queues] at none runs
      rw [same.scheduler]
      exact unwound none runs
  | adjust actor change unturned =>
      rcases world.queue_modifyQueue_cases actor ref change with ⟨rfl, _, changed⟩ | kept
      · have same := unturned (world.queue ref)
        rw [changed] at none runs
        rw [Queue.isStopped, same.phase] at runs
        exact unwound (same.timer.symm.trans none) runs
      · rw [kept] at none runs
        exact unwound none runs
  | launch actor new =>
      rcases world.queue_modifyQueue_cases actor ref Queue.launch with ⟨rfl, _, changed⟩ | kept
      · rw [changed] at none
        exact unwound none (by rw [Queue.isStopped, new]; rfl)
      · rw [kept] at none runs
        exact unwound none runs
  | enlist id kind =>
      rw [scheduler_queueOrCreate]
      rcases world.queue_queueOrCreate_cases id kind ref with ⟨unmade, _⟩ | same
      · exact unwound (congrArg Queue.timer unmade) (by rw [unmade]; rfl)
      · rw [same] at none runs
        exact unwound none runs
  | halt actor runsFirst =>
      rcases world.queue_halt_cases actor ref with ⟨_, stopped, _⟩ | same
      · exact absurd runs (by simp [Queue.isStopped, stopped])
      · rw [same] at none runs
        intro timer member
        obtain ⟨before, listed, _, _, action, _⟩ := mem_timers_halt member
        rw [action]
        exact unwound none runs before listed
  | wind actor _ launched =>
      by_cases same : actor = ref
      · rw [same, queue_wind (made_of_launched (same ▸ launched))] at none
        cases none
      · rw [queue_wind_of_ne (Ne.symm same)] at none runs
        rw [timers_wind_ownTimer]
        intro timer member
        rcases List.mem_append.1 member with old | new
        · exact unwound none runs timer old
        · rw [List.mem_singleton.1 new]
          exact same

theorem Unwound.wind {ref : QueueRef} {world : World η} (unwound : world.Unwound ref)
    (geared : world.Geared) (none : (world.queue ref).timer = none)
    (launched : world.Launched ref) (runs : (world.queue ref).isStopped = false) :
    (world.wind ref (Engine.revolutions ref (world.queue ref))).Wound ref (world.ownTimer ref) := by
  have here := queue_wind (made_of_launched launched) (Engine.revolutions ref (world.queue ref))
  have timers := world.timers_wind_ownTimer ref
  constructor
  · exact Nat.lt_succ_self _
  · intro listed member named
    rw [timers] at member
    rcases List.mem_append.1 member with old | new
    · exact absurd (geared.fresh listed old) (by rw [named]; exact Nat.lt_irrefl _)
    · rw [List.mem_singleton.1 new]
      rfl
  · intro other has
    rcases world.queue_wind_cases ref other (Engine.revolutions ref (world.queue ref)) with
      ⟨same, _⟩ | same
    · exact same
    · rw [same] at has
      exact absurd (geared.known other _ has).1 (Nat.lt_irrefl _)
  · rw [here]
    exact fun _ => rfl
  · intro _
    rw [timers, List.filter_append]
    have old : world.scheduler.timers.filter (·.action = ref) = [] := by
      simpa using unwound none runs
    simp [old, ownTimer]

end World

end TagScript
