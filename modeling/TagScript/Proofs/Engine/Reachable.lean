import TagScript.Proofs.Engine.ReachedById

/-! A vigil over a queue through whatever a host asks of an engine, in the case that anybody may reach
the queue. What is left to show is that running the queue itself keeps what is watched. -/

namespace TagScript

variable {η α β : Type}

open RunM (Secures)

namespace RunM.Secures

variable {before : World η → Prop} {after : β → World η → Prop}

theorem scheduler_bind {next : Scheduler QueueRef AsyncWork → RunM η β} {world : World η}
    (rest : Secures (· = world) (next world.scheduler) after) :
    Secures (· = world) (getThe (Scheduler QueueRef AsyncWork) >>= next) after := by
  intro start result finish started ran
  subst started
  exact rest start result finish rfl ran

theorem set {scheduler : Scheduler QueueRef AsyncWork} {after : PUnit → World η → Prop}
    (holds : ∀ world, before world → after () { world with scheduler }) :
    Secures before (MonadStateOf.set scheduler : RunM η PUnit) after := .update holds

theorem reschedule {change : Scheduler QueueRef AsyncWork → Scheduler QueueRef AsyncWork}
    {after : Unit → World η → Prop}
    (holds : ∀ world, before world → after () { world with scheduler := change world.scheduler }) :
    Secures before (Scheduler.update change : RunM η Unit) after :=
  .each fun world held => .scheduler_bind (.set fun _ same => same ▸ holds world held)

end RunM.Secures

def World.advance (elapsed : Duration) (world : World η) : World η :=
  { world with scheduler := world.scheduler.advance elapsed }

namespace Vigil

variable {engine : Engine η} {ref : QueueRef} {calm : World η → Prop}
  {licensed : List Note → Prop} {delaying : World η → Prop} {free : Bool}
  (vigil : Vigil engine ref calm licensed delaying) (regular : engine.Regular free) (budget : Nat)

include vigil

theorem retimed {world : World η} {scheduler : Scheduler QueueRef AsyncWork}
    (now : scheduler.now = world.scheduler.now) (held : calm world) :
    calm { world with scheduler } := by
  have apart : world.Apart ref { world with scheduler } := .reschedule now
  exact vigil.apart apart held

theorem resets {world : World η} {scheduler : Scheduler QueueRef AsyncWork}
    (now : scheduler.now = world.scheduler.now) (held : calm world) :
    Secures (· = world) (set scheduler : RunM η PUnit) fun _ => calm :=
  .set fun _ same => same ▸ vigil.retimed now (same ▸ held)

include regular

theorem handle (message : Message AsyncWork) :
    Secures calm (Scheduler.handle (engine.handlers budget) message) fun _ => calm := by
  cases message with
  | completed id => exact .reschedule fun world held => vigil.retimed rfl held
  | callback work =>
      exact .bind (vigil.deliver regular work) fun _ =>
        .ite (fun _ => vigil.log _ _) fun _ => .pure fun _ held => held

variable (fires : (engine.fire budget).Heeds ref calm licensed)
  (revolves : Secures calm (engine.revolve (engine.fire budget) budget ref) fun _ => calm)

include fires revolves

theorem revolve_any (actor : QueueRef) :
    Secures calm (engine.revolve (engine.fire budget) budget actor) fun _ => calm := by
  by_cases same : actor = ref
  · exact same ▸ revolves
  · exact vigil.revolve regular fires (fun own => absurd own same) budget

theorem runTimer (id : TimerId) (actor : QueueRef) :
    Secures calm (Scheduler.runTimer (engine.handlers budget) id actor) fun _ => calm :=
  .bind (.bind (vigil.revolve_any regular budget fires revolves actor) fun _ =>
    .pure fun _ held => held) fun _ => .ite (fun _ => vigil.log _ _) fun _ => .pure fun _ held => held

theorem fireDue (due : Due QueueRef) :
    Secures calm (Scheduler.fire (engine.handlers budget) due) fun _ => calm := by
  unfold Scheduler.fire
  split
  · exact vigil.runTimer regular budget fires revolves due.id due.action
  · refine .each fun world held => .scheduler_bind (.ite (fun _ => ?_) fun _ => ?_)
    · exact (vigil.log _ _).weaken (fun _ same => same ▸ held) fun _ _ held => held
    · exact vigil.resets rfl held

theorem scheduler_tick (elapsed : Duration) :
    Secures (fun world => calm (world.advance elapsed))
      (Scheduler.tick (engine.handlers budget) elapsed) fun _ => calm := by
  have advances : Secures (fun world => calm (world.advance elapsed))
      (Scheduler.update (Scheduler.advance elapsed) : RunM η Unit) fun _ => calm :=
    .reschedule fun _ held => held
  refine .bind advances fun _ => .each fun world held => .scheduler_bind ?_
  refine .bind (vigil.resets rfl held) fun _ =>
    .bind (.forM _ fun message _ => vigil.handle regular budget message)
      fun _ => .each fun later held => .scheduler_bind ?_
  exact .bind (vigil.resets rfl held) fun _ =>
    .forM _ fun due _ => vigil.fireDue regular budget fires revolves due

theorem settle (jobs : Nat) : Secures calm (engine.settle budget jobs) fun _ => calm := by
  induction jobs with
  | zero => exact .outOfBudget
  | succ jobs ih =>
      refine .each fun world held => .world_bind ?_
      cases taken : world.scheduler.takeJob? with
      | none => exact .pure fun _ same => same ▸ held
      | some found =>
          obtain ⟨job, scheduler⟩ := found
          have now : scheduler.now = world.scheduler.now := by
            unfold Scheduler.takeJob? at taken
            split at taken
            · cases taken
            · obtain ⟨_, rfl⟩ := Prod.mk.inj (Option.some.inj taken)
              rfl
          have posts (message : Message AsyncWork) : Secures calm
              (Scheduler.update (Scheduler.post message) : RunM η Unit) fun _ => calm :=
            .reschedule fun world held => vigil.retimed rfl held
          refine .bind (vigil.resets now held) fun _ => .bind ?_ fun _ => ih
          cases job with
          | timer id actor =>
              exact .bind (vigil.runTimer regular budget fires revolves id actor) fun _ => posts _
          | work callback => exact posts _

theorem tick (elapsed : Duration) :
    Secures (fun world => calm (world.advance elapsed)) (engine.tick budget elapsed) fun _ => calm :=
  .bind (vigil.scheduler_tick regular budget fires revolves elapsed) fun _ =>
    vigil.settle regular budget fires revolves budget

end Vigil

def HostCall.redelays (ref : QueueRef) : HostCall → Prop
  | .tune queue (.delayFor _) | .tune queue (.delayUntil _) => queue = ref
  | _ => False

def HostCall.tickFirst : HostCall → World η → World η
  | .tick elapsed, world => world.advance elapsed
  | _, world => world

namespace Vigil

variable {engine : Engine η} {ref : QueueRef} {calm : World η → Prop}
  {licensed : List Note → Prop} {delaying : World η → Prop} {free : Bool}
  (vigil : Vigil engine ref calm licensed delaying) (regular : engine.Regular free) (budget : Nat)
  (everybody : ∀ notes, licensed notes)

include vigil everybody

theorem tune {tuning : Tuning} {queue : QueueRef}
    (keeps : ¬ (HostCall.tune queue tuning).redelays ref) (now : Duration) :
    Secures calm (RunM.modifyQueue queue (tuning.apply now) : RunM η Unit) fun _ => calm := by
  have changes (onward : ∀ queue : Queue, queue.Onward (tuning.apply now queue)) :
      Secures calm (RunM.modifyQueue queue (tuning.apply now) : RunM η Unit) fun _ => calm :=
    .update fun _ held => vigil.modify onward (fun _ => everybody _) held
  cases tuning with
  | delayFor | delayUntil => exact .update fun _ held => vigil.apart (.modifyQueue keeps _ _) held
  | _ => exact changes fun _ => ⟨rfl, id, rfl, List.suffix_refl _⟩

theorem releaseHold (id : String) :
    Secures calm (Queue.releaseHold id : RunM η Bool) fun _ => calm := by
  refine .any_world_bind fun world => ?_
  split
  · exact .pure fun _ held => held
  · rename_i target _
    have releases : Secures calm (RunM.modifyQueue target Queue.release : RunM η Unit) fun _ => calm :=
      .update fun _ held => vigil.modify (fun _ => ⟨rfl, fun launched => launched, rfl, List.suffix_refl _⟩)
        (fun _ => everybody _) held
    exact .bind releases fun _ => .any_queue_bind fun _ => .bind (vigil.log _ _) fun _ =>
      .pure fun _ held => held

theorem shutdown : Secures calm engine.shutdown fun _ => calm := by
  have stops (actor : QueueRef) : Secures calm (Queue.stop engine.host actor) fun _ => calm :=
    (vigil.stop engine.host actor).weaken (fun _ held => ⟨held, fun _ => everybody _⟩) fun _ _ held => held
  refine .any_world_bind fun world => .bind (vigil.log _ _) fun _ => ?_
  refine .bind (.forM _ fun _ _ => stops _) fun _ => .update fun _ held => vigil.retimed rfl held

variable (fires : (engine.fire budget).Heeds ref calm licensed)
  (revolves : Secures calm (engine.revolve (engine.fire budget) budget ref) fun _ => calm)
  (starts : Secures calm (engine.startQueue (engine.fire budget) budget ref) fun _ => calm)
  (makes : ∀ (world : World η) id kind, calm world → calm (world.makeQueue id kind).2)
  (registers : ∀ (world : World η) script, calm world → calm (world.registerScript script))

include regular fires revolves starts makes registers

theorem run_call {call : HostCall} (keeps : ¬ call.redelays ref) :
    Secures (fun world => calm (call.tickFirst world)) (call.run engine budget) fun _ => calm := by
  have changes {queue : QueueRef} {change : Queue → Queue}
      (onward : ∀ queue : Queue, queue.Onward (change queue)) :
      Secures calm (RunM.modifyQueue queue change : RunM η Unit) fun _ => calm :=
    .update fun _ held => vigil.modify onward (fun _ => everybody _) held
  have enlists (id : String) (kind : QueueKind) :
      Secures calm (RunM.updateGet (World.queueOrCreate id kind)) fun _ => calm := by
    refine .updateGet fun world held => ?_
    by_cases new : world.queues.size = ref.index
    · exact (vigil.create id kind new held).1
    · exact vigil.apart (.queueOrCreate new id kind) held
  cases call with
  | register script => exact .update fun world held => registers world script held
  | fire request =>
      refine .bind ((fires request).weaken ?_ fun _ _ held => held.1) fun _ => .pure fun _ held => held
      exact fun world held => ⟨held, fun _ _ _ _ => everybody _⟩
  | tick elapsed => exact vigil.tick regular budget fires revolves elapsed
  | fill queue text =>
      have fills := Engine.fillText_secures vigil.unreported regular.resolvers regular.attributes
        (fun _ => procedures fires) (fun _ world calls held => ?_) queue text
      · exact .bind fills fun _ => .pure fun _ held => held
      · have apart : world.Apart ref { world with calls } := .of_same rfl rfl rfl rfl rfl
        exact vigil.apart apart held
  | make id kind =>
      have made : Secures calm (RunM.updateGet (World.makeQueue id kind)) fun _ => calm :=
        .updateGet fun world held => makes world id kind held
      exact .bind made fun _ => .pure fun _ held => held
  | enlist id kind => exact .bind (enlists id kind) fun _ => .pure fun _ held => held
  | start queue =>
      by_cases same : queue = ref
      · exact same ▸ starts
      · exact vigil.startQueue regular fires (fun own => absurd own same) budget
  | revolve queue => exact vigil.revolve_any regular budget fires revolves queue
  | add queue entries => exact changes fun _ => ⟨rfl, id, rfl, List.suffix_cons _ _⟩
  | inject queue index entries => exact changes fun _ => ⟨rfl, id, rfl, List.suffix_cons _ _⟩
  | clear queue => exact changes fun _ => ⟨rfl, id, rfl, List.suffix_cons _ _⟩
  | tune queue tuning => exact .any_now_bind (vigil.tune everybody keeps)
  | releaseHold id => exact .bind (vigil.releaseHold everybody id) fun _ => .pure fun _ held => held
  | onStop queue label =>
      exact (vigil.atEnd queue _).weaken (fun _ held => ⟨held, fun _ => everybody _⟩) fun _ _ held => held
  | stop queue =>
      exact (vigil.stop engine.host queue).weaken (fun _ held => ⟨held, fun _ => everybody _⟩)
        fun _ _ held => held
  | shutdown => exact vigil.shutdown everybody

end Vigil

theorem Vigil.clock (engine : Engine η) (ref : QueueRef) (time : Duration) :
    Vigil engine ref (fun world => world.now = time) (fun _ => True) fun _ => True where
  goesOn := fun _ granted => granted
  alsoGoesOn := fun _ granted => granted
  apart := fun apart held => apart.now.trans held
  release := fun held => held
  deal := fun _ _ held => held
  delay := fun _ _ held => held
  unlist := fun _ _ held => held
  create := by
    intro world id kind _ held
    refine ⟨?_, fun _ => trivial⟩
    unfold World.queueOrCreate
    split <;> exact held
  noted := fun _ _ => ⟨fun _ => trivial, fun _ => trivial⟩

namespace HostCall

def elapsed : HostCall → Nat
  | .tick elapsed => Scheduler.clipped elapsed
  | _ => 0

theorem notes_of_redelays {engine : Engine η} {ref : QueueRef} {call : HostCall} {budget : Nat}
    {start finish : Tag.Evaluation (World η)} (redelays : call.redelays ref)
    (answered : (call.run engine budget).run start = some ((), finish)) :
    finish.world.notes = start.world.notes := by
  unfold HostCall.redelays at redelays
  split at redelays
  · obtain ⟨_, rfl⟩ := Prod.mk.inj (Option.some.inj answered)
    rfl
  · obtain ⟨_, rfl⟩ := Prod.mk.inj (Option.some.inj answered)
    rfl
  · cases redelays

theorem exists_spared (call : HostCall) : ∃ ref, ¬ call.redelays ref := by
  refine ⟨⟨call.queue?.elim 0 (·.index + 1)⟩, ?_⟩
  unfold redelays
  split
  · exact fun same => absurd (congrArg QueueRef.index same) (by simp [queue?])
  · exact fun same => absurd (congrArg QueueRef.index same) (by simp [queue?])
  · exact id

theorem now_tickFirst (call : HostCall) {world : World η}
    (noWrap : world.now.nanoseconds + call.elapsed < Scheduler.clockRange) :
    (call.tickFirst world).now.nanoseconds = world.now.nanoseconds + call.elapsed := by
  cases call with
  | tick elapsed => exact Nat.mod_eq_of_lt noWrap
  | _ => rfl

theorem run_clock {engine : Engine η} {free : Bool} (regular : engine.Regular free) {budget : Nat}
    {call : HostCall} {start finish : Tag.Evaluation (World η)}
    (answered : (call.run engine budget).run start = some ((), finish)) :
    finish.world.now = (call.tickFirst start.world).now := by
  obtain ⟨ref, keeps⟩ := call.exists_spared
  have clock := Vigil.clock engine ref (call.tickFirst start.world).now
  have lax : Lax ref (fun world : World η => world.now = (call.tickFirst start.world).now)
      (fun _ => True) fun _ => True := ⟨fun _ => trivial, fun _ => trivial, fun held => held⟩
  have fires := clock.fire_lax regular lax budget
  exact clock.run_call regular budget (fun _ => trivial) fires
    (clock.revolve regular fires (fun _ => lax) budget)
    (clock.startQueue regular fires (fun _ => lax) budget)
    (fun _ _ _ held => held) (fun _ _ held => held) keeps start () finish rfl answered

end HostCall

theorem Engine.Runs.clock {engine : Engine η} {free : Bool} (regular : engine.Regular free)
    {calls : List HostCall} {start finish : Tag.Evaluation (World η)}
    (runs : engine.Runs calls start finish)
    (noWrap : start.world.now.nanoseconds + (calls.map HostCall.elapsed).sum < Scheduler.clockRange) :
    finish.world.now.nanoseconds =
      start.world.now.nanoseconds + (calls.map HostCall.elapsed).sum := by
  induction runs with
  | nil => simp
  | @cons call calls budget start between finish made answered rest ih =>
      rw [List.map_cons, List.sum_cons] at noWrap ⊢
      have inRange : start.world.now.nanoseconds + call.elapsed < Scheduler.clockRange := by omega
      have moved := call.now_tickFirst inRange
      rw [← HostCall.run_clock regular answered] at moved
      rw [ih (by omega)]
      omega

end TagScript
