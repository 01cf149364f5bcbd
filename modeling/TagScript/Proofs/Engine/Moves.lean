import Mathlib.Logic.Relation
import TagScript.Engine.Fire
import TagScript.Proofs.Tag.Filling

/-! What an engine can do to its world, one move at a time. A stage is a world with the revolutions
that are under way in it, and a course is a sequence of moves between stages. Whatever every move
keeps holds at the end of every run. -/

namespace TagScript

open Relation (ReflTransGen)

variable {η α β γ : Type}

structure Queue.Alike (queue other : Queue) : Prop where
  id : other.id = queue.id
  phase : other.phase = queue.phase
  entries : other.entries = queue.entries
  timer : other.timer = queue.timer
  history : other.history = queue.history

inductive Scheduler.Shift : Scheduler α β → Scheduler α β → Prop
  | advance (elapsed : Duration) (scheduler : Scheduler α β) :
      Shift scheduler (scheduler.advance elapsed)
  | takeInbox (scheduler : Scheduler α β) : Shift scheduler scheduler.takeInbox.2
  | complete (id : TimerId) (scheduler : Scheduler α β) : Shift scheduler (scheduler.complete id)
  | collectDue (elapsed : Nat) (scheduler : Scheduler α β) :
      Shift scheduler (scheduler.collectDue elapsed).2
  | dispatch (due : Due α) (scheduler : Scheduler α β) :
      Shift scheduler (scheduler.dispatchToWorker due)
  | takeJob {scheduler rest : Scheduler α β} {job : Job α β}
      (taken : scheduler.takeJob? = some (job, rest)) : Shift scheduler rest
  | post (message : Message β) (scheduler : Scheduler α β) :
      Shift scheduler (scheduler.post message)

namespace World

structure Beside (world other : World η) : Prop where
  queues : other.queues = world.queues
  live : other.live = world.live
  scheduler : other.scheduler = world.scheduler

def halt (ref : QueueRef) (world : World η) : World η :=
  let closed := world.modifyQueue ref Queue.close
  let silenced := (world.queue ref).timer.elim closed fun timer =>
    { closed with scheduler := closed.scheduler.cancel timer }
  (silenced.removeLive ref).2

def wind (ref : QueueRef) (plan : Schedule QueueRef) (world : World η) : World η :=
  let (timer, scheduler) := world.scheduler.schedule plan
  { world with scheduler }.modifyQueue ref ({ · with timer := some timer })

end World

structure Frame where
  queue : QueueRef
  first : Bool
  entry : Option Entry

/-- A world with the revolutions under way, the innermost first. -/
structure Stage (η : Type) where
  frames : List Frame
  world : World η

/-- Everything that can happen while the engine is at work. It makes no queue that is not live. -/
inductive Move : Stage η → Stage η → Prop
  | beside (frames : List Frame) {world other : World η} (same : world.Beside other) :
      Move ⟨frames, world⟩ ⟨frames, other⟩
  | adjust (frames : List Frame) (world : World η) (ref : QueueRef) (change : Queue → Queue)
      (alike : ∀ queue : Queue, queue.Alike (change queue)) :
      Move ⟨frames, world⟩ ⟨frames, world.modifyQueue ref change⟩
  | add (frames : List Frame) (world : World η) (ref : QueueRef) (entries : List Entry) :
      Move ⟨frames, world⟩ ⟨frames, world.modifyQueue ref (Queue.addEntries entries)⟩
  | inject (frames : List Frame) (world : World η) (ref : QueueRef) (index : Nat)
      (entries : List Entry) :
      Move ⟨frames, world⟩ ⟨frames, world.modifyQueue ref (Queue.injectEntries index entries)⟩
  | clear (frames : List Frame) (world : World η) (ref : QueueRef) :
      Move ⟨frames, world⟩ ⟨frames, world.modifyQueue ref Queue.clearEntries⟩
  | enlist (frames : List Frame) (world : World η) (id : String) (kind : QueueKind) :
      Move ⟨frames, world⟩ ⟨frames, (world.queueOrCreate id kind).2⟩
  | halt (frames : List Frame) (world : World η) (ref : QueueRef)
      (runs : (world.queue ref).isStopped = false) :
      Move ⟨frames, world⟩ ⟨frames, world.halt ref⟩
  | launch (frames : List Frame) (world : World η) (ref : QueueRef)
      (made : ref.index < world.queues.size) (new : (world.queue ref).phase = .constructing) :
      Move ⟨frames, world⟩ ⟨⟨ref, true, none⟩ :: frames, world.modifyQueue ref Queue.launch⟩
  /-- A queue is revolved, which happens only between other doings. -/
  | revolve (world : World η) (ref : QueueRef) (runs : (world.queue ref).phase = .running) :
      Move ⟨[], world⟩ ⟨[⟨ref, false, none⟩], world⟩
  | take {frames : List Frame} {world : World η} {ref : QueueRef} {first : Bool} {entry : Entry}
      {rest : Queue} (taken : (world.queue ref).nextStep world.now = (.execute entry, rest)) :
      Move ⟨⟨ref, first, none⟩ :: frames, world⟩
        ⟨⟨ref, first, some entry⟩ :: frames,
          (world.modifyQueue ref fun _ => rest).modifyQueue ref (Queue.note (.started entry))⟩
  | finish (frames : List Frame) (world : World η) (ref : QueueRef) (first : Bool) (entry : Entry) :
      Move ⟨⟨ref, first, some entry⟩ :: frames, world⟩
        ⟨⟨ref, first, none⟩ :: frames, world.modifyQueue ref (Queue.note (.executed entry))⟩
  | runDry {frames : List Frame} {world : World η} {ref : QueueRef} {first : Bool}
      (dry : (world.queue ref).isFinished world.now = true) :
      Move ⟨⟨ref, first, none⟩ :: frames, world⟩
        ⟨⟨ref, first, none⟩ :: frames, world.modifyQueue ref (Queue.note .ranDry)⟩
  | wind {frames : List Frame} {world : World η} {ref : QueueRef} {first : Bool}
      (unwound : (world.queue ref).timer = none) (runs : (world.queue ref).isStopped = false) :
      Move ⟨⟨ref, first, none⟩ :: frames, world⟩
        ⟨⟨ref, first, none⟩ :: frames,
          world.wind ref (Engine.revolutions ref (world.queue ref))⟩
  /-- A revolution is over. A queue that it started has stopped or is revolved by a timer. -/
  | leave {frames : List Frame} {world : World η} {ref : QueueRef} {first : Bool}
      (settled : first = true →
        (world.queue ref).isStopped = true ∨ (world.queue ref).timer.isSome = true) :
      Move ⟨⟨ref, first, none⟩ :: frames, world⟩ ⟨frames, world⟩
  | shift (frames : List Frame) {world : World η} {scheduler : Scheduler QueueRef AsyncWork}
      (shift : world.scheduler.Shift scheduler) :
      Move ⟨frames, world⟩ ⟨frames, { world with scheduler }⟩

abbrev Course : Stage η → Stage η → Prop := ReflTransGen Move

/-- What every move keeps is kept by every course. -/
theorem Course.keeps (holds : Stage η → Prop)
    (step : ∀ {stage later : Stage η}, Move stage later → holds stage → holds later)
    {stage later : Stage η} (course : Course stage later) (start : holds stage) : holds later := by
  induction course with
  | refl => exact start
  | tail _ move ih => exact step move ih

namespace RunM

def Leads (stage : Stage η) (world : World η) (act : RunM η α) (frames : List Frame) : Prop :=
  ∀ start result finish, start.world = world → act.run start = some (result, finish) →
    Course stage ⟨frames, finish.world⟩

def Orderly (frames : List Frame) (act : RunM η α) : Prop :=
  ∀ world, Leads ⟨frames, world⟩ world act frames

section Rules

variable {stage : Stage η} {world : World η} {act : RunM η α} {next : α → RunM η β}
  {frames : List Frame}

theorem Leads.pure {result : α} (course : Course stage ⟨frames, world⟩) :
    Leads stage world (Pure.pure result) frames := by
  intro start found finish started ran
  obtain ⟨rfl, rfl⟩ := Tag.EvalM.run_pure_eq_some.1 ran
  rw [started]
  exact course

theorem Leads.outOfBudget : Leads stage world (outOfBudget : RunM η α) frames := by
  intro start result finish started ran
  exact absurd ran (by simp [RunM.outOfBudget, StateT.run_lift])

theorem Leads.after {earlier : Stage η} (course : Course earlier stage)
    (leads : Leads stage world act frames) : Leads earlier world act frames :=
  fun start result finish started ran => course.trans (leads start result finish started ran)

theorem Leads.bind {between : List Frame} (first : Leads stage world act between)
    (rest : ∀ result later, Course stage ⟨between, later⟩ →
      Leads ⟨between, later⟩ later (next result) frames) :
    Leads stage world (act >>= next) frames := by
  intro start result finish started ran
  obtain ⟨found, later, ranFirst, ranRest⟩ := Tag.EvalM.run_bind_eq_some.1 ran
  have course := first start found later started ranFirst
  exact course.trans (rest found later.world course later result finish rfl ranRest)

theorem Leads.bind_knowing {between : List Frame} {known : α → World η → Prop}
    (first : Leads stage world act between)
    (knows : Tag.EvalM.Ensures (fun _ => True) act fun result state => known result state.world)
    (rest : ∀ result later, Course stage ⟨between, later⟩ → known result later →
      Leads ⟨between, later⟩ later (next result) frames) :
    Leads stage world (act >>= next) frames := by
  intro start result finish started ran
  obtain ⟨found, later, ranFirst, ranRest⟩ := Tag.EvalM.run_bind_eq_some.1 ran
  have course := first start found later started ranFirst
  have fact := knows start found later trivial ranFirst
  exact course.trans (rest found later.world course fact later result finish rfl ranRest)

theorem updateGet_ensures {change : World η → γ × World η} {known : γ → World η → Prop}
    (holds : ∀ world, known (change world).1 (change world).2) :
    Tag.EvalM.Ensures (fun _ => True) (RunM.updateGet change)
      fun result state => known result state.world := by
  intro start result finish _ ran
  obtain ⟨rfl, rfl⟩ := Prod.mk.inj (Option.some.inj ran)
  exact holds start.world

theorem Leads.finally {between : List Frame} (leads : Leads stage world act between)
    (last : ∀ later, Course stage ⟨between, later⟩ → Move ⟨between, later⟩ ⟨frames, later⟩) :
    Leads stage world act frames := by
  intro start result finish started ran
  have course := leads start result finish started ran
  exact course.tail (last finish.world course)

theorem Leads.world_bind {next : World η → RunM η β}
    (rest : Leads stage world (next world) frames) :
    Leads stage world (RunM.world >>= next) frames := by
  intro start result finish started ran
  rw [RunM.world, Tag.EvalM.run_world_bind, started] at ran
  exact rest start result finish started ran

theorem Leads.queue_bind {next : Queue → RunM η β} {ref : QueueRef}
    (rest : Leads stage world (next (world.queue ref)) frames) :
    Leads stage world (RunM.queue ref >>= next) frames := by
  rw [RunM.queue, bind_assoc]
  simpa only [pure_bind] using Leads.world_bind rest

theorem Leads.now_bind {next : Duration → RunM η β}
    (rest : Leads stage world (next world.now) frames) :
    Leads stage world (RunM.now >>= next) frames := by
  rw [RunM.now, bind_assoc]
  simpa only [pure_bind] using Leads.world_bind rest

theorem Leads.update_bind {change : World η → World η} {next : Unit → RunM η β}
    (rest : Leads stage (change world) (next ()) frames) :
    Leads stage world (update change >>= next) frames := by
  intro start result finish started ran
  rw [update, Tag.EvalM.run_modifyWorld_bind, started] at ran
  exact rest _ result finish rfl ran

theorem Leads.updateGet_bind {change : World η → γ × World η} {next : γ → RunM η β}
    (rest : Leads stage (change world).2 (next (change world).1) frames) :
    Leads stage world (updateGet change >>= next) frames := by
  rw [updateGet, bind_assoc]
  refine Leads.world_bind ?_
  intro start result finish started ran
  rw [bind_assoc, Tag.EvalM.run_setWorld_bind, pure_bind] at ran
  exact rest _ result finish rfl ran

theorem Leads.update {change : World η → World η} (course : Course stage ⟨frames, change world⟩) :
    Leads stage world (RunM.update change) frames := by
  rw [← bind_pure (RunM.update change)]
  exact .update_bind (.pure course)

theorem Leads.updateGet {change : World η → γ × World η}
    (course : Course stage ⟨frames, (change world).2⟩) :
    Leads stage world (RunM.updateGet change) frames := by
  rw [← bind_pure (RunM.updateGet change)]
  exact .updateGet_bind (.pure course)

end Rules

namespace Orderly

variable {frames : List Frame} {act : RunM η α} {next : α → RunM η β}

theorem pure (result : α) : Orderly frames (Pure.pure result : RunM η α) := fun _ => .pure .refl

theorem outOfBudget : Orderly frames (RunM.outOfBudget : RunM η α) := fun _ => .outOfBudget

theorem bind (first : Orderly frames act) (rest : ∀ result, Orderly frames (next result)) :
    Orderly frames (act >>= next) :=
  fun world => .bind (first world) fun result later _ => rest result later

theorem world_bind {next : World η → RunM η β} (rest : ∀ world, Orderly frames (next world)) :
    Orderly frames (RunM.world >>= next) :=
  fun world => .world_bind (rest world world)

theorem queue_bind {next : Queue → RunM η β} {ref : QueueRef}
    (rest : ∀ queue, Orderly frames (next queue)) : Orderly frames (RunM.queue ref >>= next) :=
  fun world => .queue_bind (rest _ world)

theorem now_bind {next : Duration → RunM η β} (rest : ∀ now, Orderly frames (next now)) :
    Orderly frames (RunM.now >>= next) :=
  fun world => .now_bind (rest _ world)

theorem update {change : World η → World η}
    (moves : ∀ world, Move ⟨frames, world⟩ ⟨frames, change world⟩) :
    Orderly frames (RunM.update change) :=
  fun world => .update (.single (moves world))

theorem updateGet {change : World η → γ × World η}
    (moves : ∀ world, Move ⟨frames, world⟩ ⟨frames, (change world).2⟩) :
    Orderly frames (RunM.updateGet change) :=
  fun world => .updateGet (.single (moves world))

theorem of_keeps (keeps : ∀ origin : Stage η,
    Tag.EvalM.Keeps (fun state => Course origin ⟨frames, state.world⟩) act) : Orderly frames act :=
  fun world start result finish started ran =>
    keeps ⟨frames, world⟩ start result finish (started ▸ .refl) ran

theorem emit (event : Event) : Orderly frames (RunM.emit event : RunM η Unit) :=
  update fun _ => .beside frames ⟨rfl, rfl, rfl⟩

theorem log (level : LogLevel) (text : String) :
    Orderly frames (RunM.log level text : RunM η Unit) :=
  emit _

theorem jot (note : Note) : Orderly frames (RunM.jot note : RunM η Unit) :=
  update fun _ => .beside frames ⟨rfl, rfl, rfl⟩

theorem adjust {ref : QueueRef} {change : Queue → Queue}
    (alike : ∀ queue : Queue, queue.Alike (change queue)) :
    Orderly frames (RunM.modifyQueue ref change : RunM η Unit) :=
  update fun world => .adjust frames world ref change alike

theorem release (ref : QueueRef) : Orderly frames (RunM.release ref : RunM η Unit) := by
  refine .bind (.update fun world => .beside frames ?_) fun _ =>
    .adjust fun _ => ⟨rfl, rfl, rfl, rfl, rfl⟩
  unfold World.checkHold
  split <;> exact ⟨rfl, rfl, rfl⟩

theorem ite {test : Prop} [Decidable test] {other : RunM η α} (yes : Orderly frames act)
    (no : Orderly frames other) : Orderly frames (if test then act else other) := by
  split
  · exact yes
  · exact no

theorem when {test : Prop} [Decidable test] {rest : RunM η β} (first : Orderly frames act)
    (following : Orderly frames rest) :
    Orderly frames (if test then act >>= fun _ => rest else rest) :=
  ite (bind first fun _ => following) following

theorem forM {each : α → RunM η PUnit} (orderly : ∀ item, Orderly frames (each item))
    (items : List α) :
    Orderly frames (items.forM each) := by
  induction items with
  | nil => exact pure _
  | cons item rest ih =>
      rw [List.forM_eq_forM, List.forM_cons]
      exact bind (orderly item) fun _ => ih

theorem forM_option {each : α → RunM η PUnit} (orderly : ∀ item, Orderly frames (each item))
    (item : Option α) : Orderly frames (item.forM each) := by
  cases item with
  | none => exact pure _
  | some found => exact orderly found

theorem mapM {each : α → RunM η β} (orderly : ∀ item, Orderly frames (each item)) (items : List α) :
    Orderly frames (items.mapM each) := by
  induction items with
  | nil => exact pure _
  | cons item rest ih =>
      rw [List.mapM_cons]
      exact bind (orderly item) fun _ => bind ih fun _ => pure _

end Orderly

end RunM

end TagScript
