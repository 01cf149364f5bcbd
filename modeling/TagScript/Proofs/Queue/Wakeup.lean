import Mathlib.Data.List.Nodup
import TagScript.Proofs.Engine.Run

/-! No queue sleeps for ever. A queue that runs is revolved by one timer, which is set before its
first revolution is over and cancelled when it stops. -/

namespace TagScript

variable {η α β : Type}

structure Timer.Twin (timer other : Timer α) : Prop where
  id : other.id = timer.id
  timing : other.timing = timer.timing
  action : other.action = timer.action
  cancelled : other.cancelled = timer.cancelled

theorem Timer.Twin.refl (timer : Timer α) : timer.Twin timer := ⟨rfl, rfl, rfl, rfl⟩

structure Scheduler.Carries (scheduler later : Scheduler α β) : Prop where
  nextId : later.nextId = scheduler.nextId
  ids : (later.timers.map (·.id)).Sublist (scheduler.timers.map (·.id))
  old : ∀ timer ∈ later.timers, ∃ earlier ∈ scheduler.timers, earlier.Twin timer
  kept : ∀ timer ∈ scheduler.timers, timer.cancelled = false →
    ∃ same ∈ later.timers, timer.Twin same

namespace Scheduler

variable {scheduler later : Scheduler α β}

theorem Carries.of_timers (nextId : later.nextId = scheduler.nextId)
    (timers : later.timers = scheduler.timers) : scheduler.Carries later where
  nextId := nextId
  ids := by rw [timers]
  old := by rw [timers]; exact fun timer member => ⟨timer, member, .refl timer⟩
  kept := by rw [timers]; exact fun timer member _ => ⟨timer, member, .refl timer⟩

theorem Carries.of_map (change : Timer α → Timer α) (stays : Timer α → Bool)
    (nextId : later.nextId = scheduler.nextId)
    (timers : later.timers = (scheduler.timers.map change).filter stays)
    (twin : ∀ timer ∈ scheduler.timers, timer.Twin (change timer))
    (uncancelled : ∀ timer, timer.cancelled = false → stays timer = true) :
    scheduler.Carries later where
  nextId := nextId
  ids := by
    have same : (scheduler.timers.map change).map (·.id) = scheduler.timers.map (·.id) := by
      rw [List.map_map]
      exact List.map_congr_left fun timer member => (twin timer member).id
    rw [timers, ← same]
    exact (List.filter_sublist).map _
  old := by
    intro timer member
    rw [timers] at member
    obtain ⟨earlier, listed, rfl⟩ := List.mem_map.1 (List.mem_filter.1 member).1
    exact ⟨earlier, listed, twin earlier listed⟩
  kept := by
    intro timer member running
    have same := twin timer member
    refine ⟨change timer, ?_, same⟩
    rw [timers]
    exact List.mem_filter.2 ⟨List.mem_map_of_mem member, uncancelled _ (same.cancelled.trans running)⟩

theorem Carries.modifyTimer (id : TimerId) {change : Timer α → Timer α}
    (twin : ∀ timer : Timer α, timer.Twin (change timer)) :
    scheduler.Carries (scheduler.modifyTimer id change) := by
  refine .of_map _ (fun _ => true) rfl (List.filter_eq_self.2 fun _ _ => rfl).symm ?_ fun _ _ => rfl
  intro timer _
  split
  · exact twin timer
  · exact .refl timer

theorem age_twin (elapsed : Nat) {timer : Timer α} {period : Duration}
    (repeats : timer.timing = .every period) : timer.Twin (timer.age elapsed).1 := by
  unfold Timer.age
  split
  · exact .refl timer
  · dsimp only
    split
    · exact ⟨rfl, rfl, rfl, rfl⟩
    · rw [repeats]
      exact ⟨rfl, repeats.symm, rfl, rfl⟩

theorem Shift.carries (shift : scheduler.Shift later)
    (repeats : ∀ timer ∈ scheduler.timers, ∃ period, timer.timing = .every period) :
    scheduler.Carries later := by
  cases shift with
  | advance elapsed => exact .of_timers rfl rfl
  | takeInbox => exact .of_timers rfl rfl
  | complete id => exact .modifyTimer id fun _ => ⟨rfl, rfl, rfl, rfl⟩
  | collectDue elapsed =>
      refine .of_map (fun timer => (timer.age elapsed).1) (!·.cancelled) rfl ?_ ?_ (by simp)
      · simp only [Scheduler.collectDue, List.map_map, Function.comp_def]
      · intro timer member
        obtain ⟨period, timing⟩ := repeats timer member
        exact age_twin elapsed timing
  | dispatch due =>
      have carried : scheduler.Carries
          (scheduler.modifyTimer due.id ({ · with inFlight := true })) :=
        .modifyTimer due.id fun _ => ⟨rfl, rfl, rfl, rfl⟩
      exact ⟨carried.nextId, carried.ids, carried.old, carried.kept⟩
  | takeJob taken =>
      unfold takeJob? at taken
      split at taken
      · cases taken
      · cases taken
        exact .of_timers rfl rfl
  | post message => exact .of_timers rfl rfl

end Scheduler

def starting (frames : List Frame) : List QueueRef :=
  frames.flatMap fun frame => if frame.first then [frame.queue] else []

/-- Timers and queues belong together: each timer that was not cancelled is the timer of its queue,
the queue of a cancelled one has stopped, and each timer of a queue is set. A queue that runs has a
timer, or its first revolution is under way. -/
structure Stage.Wired (stage : Stage η) : Prop where
  fresh : ∀ timer ∈ stage.world.scheduler.timers, timer.id.number < stage.world.scheduler.nextId
  apart : (stage.world.scheduler.timers.map (·.id)).Nodup
  repeats : ∀ timer ∈ stage.world.scheduler.timers, ∃ period, timer.timing = .every period
  owned : ∀ timer ∈ stage.world.scheduler.timers, timer.cancelled = false →
    (stage.world.queue timer.action).timer = some timer.id
  ended : ∀ timer ∈ stage.world.scheduler.timers, timer.cancelled = true →
    (stage.world.queue timer.action).phase = .stopped
  wound : ∀ ref id, (stage.world.queue ref).timer = some id →
    (stage.world.queue ref).phase = .running ∧
      ∃ timer ∈ stage.world.scheduler.timers,
        timer.id = id ∧ timer.action = ref ∧ timer.cancelled = false
  awake : ∀ ref, (stage.world.queue ref).phase = .running →
    (stage.world.queue ref).timer.isSome = true ∨ ref ∈ starting stage.frames

structure Queue.SamePace (queue other : Queue) : Prop where
  phase : other.phase = queue.phase
  timer : other.timer = queue.timer

theorem World.samePace_modifyQueue {ref : QueueRef} {change : Queue → Queue} {world : World η}
    (same : (world.queue ref).SamePace (change (world.queue ref))) (other : QueueRef) :
    (world.queue other).SamePace ((world.modifyQueue ref change).queue other) := by
  rcases world.queue_modifyQueue_cases ref other change with ⟨rfl, _, changed⟩ | kept
  · rw [changed]
    exact same
  · rw [kept]
    exact ⟨rfl, rfl⟩

theorem World.scheduler_halt (ref : QueueRef) (world : World η) :
    (world.halt ref).scheduler =
      (world.queue ref).timer.elim world.scheduler world.scheduler.cancel := by
  have unlisted (other : World η) : (other.removeLive ref).2.scheduler = other.scheduler := by
    unfold World.removeLive
    dsimp only
    split <;> rfl
  unfold World.halt
  dsimp only
  rw [unlisted]
  cases (world.queue ref).timer <;> rfl

theorem World.timers_halt (ref : QueueRef) (world : World η) :
    (world.halt ref).scheduler.timers = world.scheduler.timers.map fun timer =>
      if (world.queue ref).timer = some timer.id then { timer with cancelled := true }
      else timer := by
  rw [World.scheduler_halt]
  cases (world.queue ref).timer with
  | none => simp
  | some id => simp [Scheduler.cancel, Scheduler.modifyTimer, eq_comm]

theorem World.nextId_halt (ref : QueueRef) (world : World η) :
    (world.halt ref).scheduler.nextId = world.scheduler.nextId := by
  rw [World.scheduler_halt]
  cases (world.queue ref).timer <;> rfl

theorem World.mem_timers_halt {ref : QueueRef} {world : World η} {timer : Timer QueueRef}
    (member : timer ∈ (world.halt ref).scheduler.timers) :
    ∃ before ∈ world.scheduler.timers, timer.id = before.id ∧ timer.timing = before.timing ∧
      timer.action = before.action ∧
      (((world.queue ref).timer = some before.id ∧ timer.cancelled = true) ∨
        ((world.queue ref).timer ≠ some before.id ∧ timer.cancelled = before.cancelled)) := by
  rw [World.timers_halt] at member
  obtain ⟨before, listed, rfl⟩ := List.mem_map.1 member
  refine ⟨before, listed, ?_⟩
  split
  · rename_i has
    exact ⟨rfl, rfl, rfl, .inl ⟨has, rfl⟩⟩
  · rename_i foreign
    exact ⟨rfl, rfl, rfl, .inr ⟨foreign, rfl⟩⟩

theorem World.map_id_timers_halt (ref : QueueRef) (world : World η) :
    (world.halt ref).scheduler.timers.map (·.id) = world.scheduler.timers.map (·.id) := by
  rw [World.timers_halt, List.map_map]
  refine List.map_congr_left fun timer _ => ?_
  simp only [Function.comp_apply]
  split <;> rfl

theorem World.queue_halt_cases (ref other : QueueRef) (world : World η) :
    (other = ref ∧ ((world.halt ref).queue other).phase = .stopped ∧
        ((world.halt ref).queue other).timer = none) ∨
      (world.halt ref).queue other = world.queue other := by
  rw [World.queue_halt]
  rcases world.queue_modifyQueue_cases ref other Queue.close with ⟨same, _, changed⟩ | kept
  · rw [changed]
    exact .inl ⟨same, rfl, rfl⟩
  · exact .inr kept

theorem World.queue_halt_of_timer {ref : QueueRef} {world : World η} {id : TimerId}
    (has : (world.queue ref).timer = some id) :
    ((world.halt ref).queue ref).phase = .stopped ∧
      ((world.halt ref).queue ref).timer = none := by
  rcases Nat.lt_or_ge ref.index world.queues.size with made | missing
  · rw [World.queue_halt, World.queue_modifyQueue_self made]
    exact ⟨rfl, rfl⟩
  · rw [World.queue_of_size_le missing] at has
    cases has

theorem World.timers_wind_revolutions (ref : QueueRef) (queue : Queue) (world : World η) :
    ∃ added : Timer QueueRef,
      (world.wind ref (Engine.revolutions ref queue)).scheduler.timers =
        world.scheduler.timers ++ [added] ∧
      added.id = ⟨world.scheduler.nextId⟩ ∧ added.action = ref ∧
      added.timing = .every queue.kind.period ∧ added.cancelled = false := by
  refine ⟨_, rfl, rfl, ?_, ?_, rfl⟩
  · simp only [Engine.revolutions]
    split <;> rfl
  · simp only [Engine.revolutions]
    split <;> rfl

theorem Stage.Nested.running_top {frames : List Frame} {world : World η} {ref : QueueRef}
    {first : Bool} {entry : Option Entry}
    (nested : Stage.Nested ⟨⟨ref, first, entry⟩ :: frames, world⟩)
    (runs : (world.queue ref).isStopped = false) : (world.queue ref).phase = .running := by
  have launched := nested.launched ref List.mem_cons_self
  cases phase : (world.queue ref).phase with
  | constructing => exact absurd phase launched
  | running => rfl
  | stopped => simp [Queue.isStopped, phase] at runs

namespace Stage.Wired

variable {frames : List Frame} {world later : World η} {ref : QueueRef}

theorem fresh_world (engine : Engine η) (host : η) :
    Stage.Wired ⟨[], (engine.start host).world⟩ where
  fresh := by intro timer member; cases member
  apart := List.nodup_nil
  repeats := by intro timer member; cases member
  owned := by intro timer member; cases member
  ended := by intro timer member; cases member
  wound := by intro ref id wound; cases wound
  awake := by intro ref runs; cases runs

theorem eq_of_id (wired : Stage.Wired ⟨frames, world⟩) {timer other : Timer QueueRef}
    (member : timer ∈ world.scheduler.timers) (listed : other ∈ world.scheduler.timers)
    (same : timer.id = other.id) : timer = other :=
  List.inj_on_of_nodup_map wired.apart member listed same

theorem of_samePace (wired : Stage.Wired ⟨frames, world⟩)
    (scheduler : later.scheduler = world.scheduler)
    (same : ∀ ref, (world.queue ref).SamePace (later.queue ref)) :
    Stage.Wired ⟨frames, later⟩ where
  fresh := by rw [scheduler]; exact wired.fresh
  apart := by rw [scheduler]; exact wired.apart
  repeats := by rw [scheduler]; exact wired.repeats
  owned := by
    simp only [scheduler, (same _).timer]
    exact wired.owned
  ended := by
    simp only [scheduler, (same _).phase]
    exact wired.ended
  wound := by
    simp only [scheduler, (same _).timer, (same _).phase]
    exact wired.wound
  awake := by
    simp only [(same _).timer, (same _).phase]
    exact wired.awake

theorem of_carries {scheduler : Scheduler QueueRef AsyncWork}
    (wired : Stage.Wired ⟨frames, world⟩) (carries : world.scheduler.Carries scheduler) :
    Stage.Wired ⟨frames, { world with scheduler }⟩ where
  fresh := by
    intro timer member
    obtain ⟨earlier, listed, twin⟩ := carries.old timer member
    rw [twin.id, carries.nextId]
    exact wired.fresh earlier listed
  apart := carries.ids.nodup wired.apart
  repeats := by
    intro timer member
    obtain ⟨earlier, listed, twin⟩ := carries.old timer member
    rw [twin.timing]
    exact wired.repeats earlier listed
  owned := by
    intro timer member running
    obtain ⟨earlier, listed, twin⟩ := carries.old timer member
    rw [twin.id, twin.action]
    exact wired.owned earlier listed (twin.cancelled.symm.trans running)
  ended := by
    intro timer member cancelled
    obtain ⟨earlier, listed, twin⟩ := carries.old timer member
    rw [twin.action]
    exact wired.ended earlier listed (twin.cancelled.symm.trans cancelled)
  wound := by
    intro ref id has
    obtain ⟨runs, timer, member, rfl, acts, running⟩ := wired.wound ref id has
    obtain ⟨same, listed, twin⟩ := carries.kept timer member running
    exact ⟨runs, same, listed, twin.id, twin.action.trans acts, twin.cancelled.trans running⟩
  awake := wired.awake

theorem modifyQueue (wired : Stage.Wired ⟨frames, world⟩) {change : Queue → Queue}
    (same : (world.queue ref).SamePace (change (world.queue ref))) :
    Stage.Wired ⟨frames, world.modifyQueue ref change⟩ :=
  wired.of_samePace rfl (World.samePace_modifyQueue same)

theorem with_frames (wired : Stage.Wired ⟨frames, world⟩) {others : List Frame}
    (awake : ∀ ref, (world.queue ref).phase = .running →
      (world.queue ref).timer.isSome = true ∨ ref ∈ starting others) :
    Stage.Wired ⟨others, world⟩ :=
  ⟨wired.fresh, wired.apart, wired.repeats, wired.owned, wired.ended, wired.wound, awake⟩

theorem action_of_timer (wired : Stage.Wired ⟨frames, world⟩) {timer : Timer QueueRef}
    (member : timer ∈ world.scheduler.timers)
    (has : (world.queue ref).timer = some timer.id) : timer.action = ref := by
  obtain ⟨_, same, listed, id, acts, _⟩ := wired.wound ref timer.id has
  rw [wired.eq_of_id member listed id.symm]
  exact acts

theorem halt (wired : Stage.Wired ⟨frames, world⟩) (ref : QueueRef) :
    Stage.Wired ⟨frames, world.halt ref⟩ where
  fresh := by
    intro timer member
    obtain ⟨before, listed, id, _⟩ := World.mem_timers_halt member
    rw [id, World.nextId_halt]
    exact wired.fresh before listed
  apart := by
    rw [World.map_id_timers_halt]
    exact wired.apart
  repeats := by
    intro timer member
    obtain ⟨before, listed, _, timing, _⟩ := World.mem_timers_halt member
    rw [timing]
    exact wired.repeats before listed
  owned := by
    intro timer member running
    obtain ⟨before, listed, id, _, action, ⟨_, cancelled⟩ | ⟨foreign, same⟩⟩ :=
      World.mem_timers_halt member
    · rw [cancelled] at running
      cases running
    · have owned := wired.owned before listed (same.symm.trans running)
      rw [id, action]
      rcases world.queue_halt_cases ref before.action with ⟨same, _⟩ | kept
      · rw [same] at owned
        exact absurd owned foreign
      · rw [kept]
        exact owned
  ended := by
    intro timer member cancelled
    obtain ⟨before, listed, _, _, action, ⟨has, _⟩ | ⟨_, same⟩⟩ := World.mem_timers_halt member
    · rw [action, wired.action_of_timer listed has]
      exact (World.queue_halt_of_timer has).1
    · rw [action]
      rcases world.queue_halt_cases ref before.action with ⟨_, stopped, _⟩ | kept
      · exact stopped
      · rw [kept]
        exact wired.ended before listed (same.symm.trans cancelled)
  wound := by
    intro other id has
    rcases world.queue_halt_cases ref other with ⟨_, _, none⟩ | kept
    · rw [none] at has
      cases has
    · rw [kept] at has ⊢
      obtain ⟨runs, timer, member, named, acts, running⟩ := wired.wound other id has
      refine ⟨runs, timer, ?_, named, acts, running⟩
      -- a queue that kept its timer is not the one that stopped
      have foreign : (world.queue ref).timer ≠ some timer.id := by
        intro same
        have unset := (World.queue_halt_of_timer same).2
        rw [acts.symm.trans (wired.action_of_timer member same)] at kept has
        rw [kept, has] at unset
        cases unset
      rw [World.timers_halt]
      exact List.mem_map.2 ⟨timer, member, if_neg foreign⟩
  awake := by
    intro other runs
    rcases world.queue_halt_cases ref other with ⟨_, stopped, _⟩ | kept
    · rw [stopped] at runs
      cases runs
    · rw [kept] at runs ⊢
      exact wired.awake other runs

theorem action_ne_of_unwound (wired : Stage.Wired ⟨frames, world⟩)
    (unwound : (world.queue ref).timer = none) (goes : (world.queue ref).phase ≠ .stopped)
    {timer : Timer QueueRef} (member : timer ∈ world.scheduler.timers) : timer.action ≠ ref := by
  rintro rfl
  cases cancelled : timer.cancelled with
  | true => exact goes (wired.ended timer member cancelled)
  | false =>
      have has := wired.owned timer member cancelled
      rw [unwound] at has
      cases has

theorem launch (wired : Stage.Wired ⟨frames, world⟩) (made : ref.index < world.queues.size)
    (new : (world.queue ref).phase = .constructing) :
    Stage.Wired ⟨⟨ref, true, none⟩ :: frames, world.modifyQueue ref Queue.launch⟩ := by
  have launched : (world.modifyQueue ref Queue.launch).queue ref = (world.queue ref).launch :=
    World.queue_modifyQueue_self made _
  have others {other : QueueRef} (different : other ≠ ref) :
      (world.modifyQueue ref Queue.launch).queue other = world.queue other :=
    World.queue_modifyQueue_of_ne different _ _
  have unwound : (world.queue ref).timer = none := by
    cases timer : (world.queue ref).timer with
    | none => rfl
    | some id =>
        have runs := (wired.wound ref id timer).1
        rw [new] at runs
        cases runs
  have foreign {timer : Timer QueueRef} (member : timer ∈ world.scheduler.timers) :
      timer.action ≠ ref := wired.action_ne_of_unwound unwound (by simp [new]) member
  constructor
  case fresh => exact wired.fresh
  case apart => exact wired.apart
  case repeats => exact wired.repeats
  case owned =>
    intro timer member running
    rw [others (foreign member)]
    exact wired.owned timer member running
  case ended =>
    intro timer member cancelled
    rw [others (foreign member)]
    exact wired.ended timer member cancelled
  case wound =>
    intro other id has
    by_cases same : other = ref
    · rw [same, launched] at has
      exact absurd (unwound.symm.trans has) (by simp)
    · rw [others same] at has ⊢
      exact wired.wound other id has
  case awake =>
    intro other runs
    by_cases same : other = ref
    · exact .inr (by simp [starting, same])
    · rw [others same] at runs ⊢
      refine (wired.awake other runs).imp_right fun begins => ?_
      exact List.mem_cons_of_mem _ begins

theorem wind {first : Bool} (wired : Stage.Wired ⟨⟨ref, first, none⟩ :: frames, world⟩)
    (nested : Stage.Nested ⟨⟨ref, first, none⟩ :: frames, world⟩)
    (unwound : (world.queue ref).timer = none) (runs : (world.queue ref).isStopped = false) :
    Stage.Wired ⟨⟨ref, first, none⟩ :: frames,
      world.wind ref (Engine.revolutions ref (world.queue ref))⟩ := by
  obtain ⟨added, timers, id, acts, repeating, uncancelled⟩ :=
    world.timers_wind_revolutions ref (world.queue ref)
  have running := nested.running_top runs
  have wound := World.queue_wind nested.made_top (Engine.revolutions ref (world.queue ref))
  have others {other : QueueRef} (different : other ≠ ref) :
      (world.wind ref (Engine.revolutions ref (world.queue ref))).queue other =
        world.queue other :=
    World.queue_modifyQueue_of_ne different _ _
  have either {timer : Timer QueueRef} (member : timer ∈
      (world.wind ref (Engine.revolutions ref (world.queue ref))).scheduler.timers) :
      timer ∈ world.scheduler.timers ∨ timer = added := by
    simpa [timers] using member
  have foreign {timer : Timer QueueRef} (member : timer ∈ world.scheduler.timers) :
      timer.action ≠ ref := wired.action_ne_of_unwound unwound (by simp [running]) member
  constructor
  case fresh =>
    intro timer member
    rcases either member with listed | rfl
    · exact Nat.lt_succ_of_lt (wired.fresh timer listed)
    · rw [id]
      exact Nat.lt_succ_self _
  case apart =>
    -- every earlier name is below the next one, which the new timer gets
    rw [timers, List.map_append]
    refine List.Nodup.append wired.apart (List.nodup_singleton _) ?_
    rintro _ listed new
    obtain ⟨timer, member, rfl⟩ := List.mem_map.1 listed
    have below := wired.fresh timer member
    have named : timer.id = ⟨world.scheduler.nextId⟩ := (List.mem_singleton.1 new).trans id
    rw [named] at below
    exact absurd below (Nat.lt_irrefl _)
  case repeats =>
    intro timer member
    rcases either member with listed | rfl
    · exact wired.repeats timer listed
    · exact ⟨_, repeating⟩
  case owned =>
    intro timer member set
    rcases either member with listed | rfl
    · rw [others (foreign listed)]
      exact wired.owned timer listed set
    · rw [acts, wound, id]
  case ended =>
    intro timer member cancelled
    rcases either member with listed | rfl
    · rw [others (foreign listed)]
      exact wired.ended timer listed cancelled
    · rw [uncancelled] at cancelled
      cases cancelled
  case wound =>
    intro other id' has
    by_cases same : other = ref
    · subst same
      rw [wound] at has ⊢
      refine ⟨running, added, ?_, id.trans (Option.some.inj has), acts, uncancelled⟩
      rw [timers]
      simp
    · rw [others same] at has ⊢
      obtain ⟨goes, timer, member, rest⟩ := wired.wound other id' has
      refine ⟨goes, timer, ?_, rest⟩
      rw [timers]
      exact List.mem_append_left _ member
  case awake =>
    intro other goes
    by_cases same : other = ref
    · subst same
      rw [wound]
      exact .inl rfl
    · rw [others same] at goes ⊢
      exact wired.awake other goes

theorem make (wired : Stage.Wired ⟨frames, world⟩) (id : String) (kind : QueueKind) :
    Stage.Wired ⟨frames, (world.makeQueue id kind).2⟩ := by
  refine wired.of_samePace rfl fun ref => ?_
  rcases world.queue_makeQueue_cases id kind ref with ⟨new, made⟩ | same
  · rw [new, made]
    exact ⟨rfl, rfl⟩
  · rw [same]
    exact ⟨rfl, rfl⟩

theorem move {stage later : Stage η} (move : Move stage later) (nested : stage.Nested)
    (wired : stage.Wired) : later.Wired := by
  cases move with
  | beside frames same =>
      refine wired.of_samePace same.scheduler fun ref => ?_
      simp only [World.queue, same.queues]
      exact ⟨rfl, rfl⟩
  | adjust frames world other change alike =>
      exact wired.modifyQueue ⟨(alike _).phase, (alike _).timer⟩
  | add frames world other entries =>
      exact wired.modifyQueue ⟨rfl, rfl⟩
  | inject frames world other index entries =>
      exact wired.modifyQueue ⟨rfl, rfl⟩
  | clear frames world other =>
      exact wired.modifyQueue ⟨rfl, rfl⟩
  | enlist frames world id kind =>
      refine wired.of_samePace ?_ fun ref => ?_
      · unfold World.queueOrCreate
        split <;> rfl
      · rcases world.queue_queueOrCreate_cases id kind ref with ⟨new, made⟩ | same
        · rw [new, made]
          exact ⟨rfl, rfl⟩
        · rw [same]
          exact ⟨rfl, rfl⟩
  | halt frames world other runs => exact wired.halt other
  | launch frames world other made new => exact wired.launch made new
  | revolve world other runs => exact wired.with_frames wired.awake
  | @take frames world other first entry rest taken =>
      obtain ⟨_, _, _, rfl⟩ := Queue.nextStep_execute taken
      have executing : Stage.Wired ⟨⟨other, first, some entry⟩ :: frames, world⟩ :=
        wired.with_frames wired.awake
      rw [World.modifyQueue_modifyQueue]
      exact executing.modifyQueue ⟨rfl, rfl⟩
  | finish frames world other first entry =>
      have executed : Stage.Wired ⟨⟨other, first, none⟩ :: frames, world⟩ :=
        wired.with_frames wired.awake
      exact executed.modifyQueue ⟨rfl, rfl⟩
  | runDry dry => exact wired.modifyQueue ⟨rfl, rfl⟩
  | wind unwound runs => exact wired.wind nested unwound runs
  | @leave frames world other first settled =>
      refine wired.with_frames fun ref runs => ?_
      rcases wired.awake ref runs with timer | begins
      · exact .inl timer
      · -- only the first revolution of a queue makes up for a timer
        cases first with
        | false => exact .inr begins
        | true =>
            rcases List.mem_cons.1 begins with rfl | begins
            · rcases settled rfl with stopped | timer
              · rw [Queue.isStopped, runs] at stopped
                cases stopped
              · exact .inl timer
            · exact .inr begins
  | shift frames shift => exact wired.of_carries (shift.carries wired.repeats)

theorem timers_of_queue (wired : Stage.Wired ⟨frames, world⟩) {timer : Timer QueueRef}
    (member : timer ∈ world.scheduler.timers) (acts : timer.action = ref)
    (only : ∀ other ∈ world.scheduler.timers, other.action = ref → other.id = timer.id) :
    world.scheduler.timers.filter (·.action = ref) = [timer] := by
  have apart : ((world.scheduler.timers.filter (·.action = ref)).map (·.id)).Nodup :=
    (List.filter_sublist.map _).nodup wired.apart
  have listed : timer ∈ world.scheduler.timers.filter (·.action = ref) := by simp [member, acts]
  have named : ∀ other ∈ world.scheduler.timers.filter (·.action = ref), other.id = timer.id := by
    intro other found
    rw [List.mem_filter, decide_eq_true_eq] at found
    exact only other found.1 found.2
  revert apart listed named
  generalize world.scheduler.timers.filter (·.action = ref) = found
  intro apart listed named
  match found with
  | [] => cases listed
  | [last] => rw [List.mem_singleton.1 listed]
  | first :: second :: rest =>
      have same : first.id = second.id :=
        (named first (by simp)).trans (named second (by simp)).symm
      simp [same] at apart

theorem isCancelled_eq_false (wired : Stage.Wired ⟨frames, world⟩) {timer : Timer QueueRef}
    (member : timer ∈ world.scheduler.timers) (set : timer.cancelled = false) :
    world.scheduler.isCancelled timer.id = false := by
  unfold Scheduler.isCancelled Scheduler.find?
  cases found : world.scheduler.timers.find? (·.id == timer.id) with
  | none => exact absurd (List.find?_eq_none.1 found timer member) (by simp)
  | some other =>
      have named : other.id = timer.id := by simpa using List.find?_some found
      rw [wired.eq_of_id (List.mem_of_find?_eq_some found) member named]
      exact set

end Stage.Wired

namespace Engine.Runs

variable {engine : Engine η} {calls : List HostCall} {state : Tag.Evaluation (World η)}

theorem wired (standard : engine.Standard) {host : η}
    (runs : engine.Runs calls (engine.start host) state) (lasting : .shutdown ∉ calls) :
    Stage.Wired ⟨[], state.world⟩ := by
  have both := runs.keeps standard (fun stage : Stage η => stage.Nested ∧ stage.Wired)
    (fun move kept => ⟨.move move kept.1, .move move kept.1 kept.2⟩)
    (fun _ id kind kept => ⟨.idle _, kept.2.make id kind⟩) (fun ended => absurd ended lasting)
    ⟨.idle _, .fresh_world engine host⟩
  exact both.2

/-- Between calls every queue that runs has a timer that was not cancelled, and it is the only
timer by which the queue is revolved; a queue that has stopped has none, and no timer by which it
was revolved is left that was not cancelled. -/
theorem wound_while_running (standard : engine.Standard) {host : η}
    (runs : engine.Runs calls (engine.start host) state) (lasting : .shutdown ∉ calls)
    (ref : QueueRef) :
    ((state.world.queue ref).phase = .running →
        ∃ timer, (state.world.queue ref).timer = some timer.id ∧
          state.world.scheduler.isCancelled timer.id = false ∧
          state.world.scheduler.timers.filter (·.action = ref) = [timer]) ∧
      ((state.world.queue ref).phase = .stopped → (state.world.queue ref).timer = none ∧
        ∀ timer ∈ state.world.scheduler.timers, timer.action = ref → timer.cancelled = true) := by
  have wired := runs.wired standard lasting
  refine ⟨fun running => ?_, fun stopped => ⟨?_, ?_⟩⟩
  · -- no first revolution is under way, so a queue that runs has a timer
    have awake := wired.awake ref running
    rw [starting, List.flatMap_nil, or_iff_left List.not_mem_nil] at awake
    obtain ⟨id, has⟩ := Option.isSome_iff_exists.1 awake
    obtain ⟨_, timer, member, rfl, acts, set⟩ := wired.wound ref id has
    refine ⟨timer, has, wired.isCancelled_eq_false member set, wired.timers_of_queue member acts ?_⟩
    intro other listed same
    cases cancelled : other.cancelled with
    | true =>
        have ended := wired.ended other listed cancelled
        rw [same, running] at ended
        cases ended
    | false =>
        have owned := wired.owned other listed cancelled
        rw [same, has] at owned
        exact (Option.some.inj owned).symm
  · cases timer : (state.world.queue ref).timer with
    | none => rfl
    | some id =>
        have running := (wired.wound ref id timer).1
        rw [stopped] at running
        cases running
  · intro timer member acts
    cases cancelled : timer.cancelled with
    | true => rfl
    | false =>
        have has := wired.owned timer member cancelled
        have running := (wired.wound timer.action timer.id has).1
        rw [acts, stopped] at running
        cases running

theorem wound_while_running_timed :
    let entry := Entry.ofCommand "define" ["name", "value"]
    let engine : Engine Unit := .builtin {}
    let calls : List HostCall := [.make "q" (.timed 1), .add ⟨0⟩ [entry, entry], .start ⟨0⟩]
    ∃ state, engine.Runs calls (engine.start ()) state ∧
      (state.world.queue ⟨0⟩).entries = [entry] ∧
      ∃ timer, (state.world.queue ⟨0⟩).timer = some timer.id ∧
        state.world.scheduler.isCancelled timer.id = false ∧
        state.world.scheduler.timers.filter (·.action = ⟨0⟩) = [timer] := by
  intro entry engine calls
  have answered : ((engine.answer 1 calls (engine.start ())).map fun state =>
      ((state.world.queue ⟨0⟩).phase, (state.world.queue ⟨0⟩).entries)) = some (.running, [entry]) := by
    decide +kernel
  obtain ⟨state, answered, told⟩ := Option.map_eq_some_iff.1 answered
  obtain ⟨running, waiting⟩ := Prod.mk.inj told
  have runs := Engine.runs_of_answer answered
  have woken := wound_while_running (Engine.builtin_standard {}) runs (by simp [calls]) ⟨0⟩
  exact ⟨state, runs, waiting, woken.1 running⟩

end Engine.Runs

end TagScript
