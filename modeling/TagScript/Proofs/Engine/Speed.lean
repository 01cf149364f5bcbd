import TagScript.Proofs.Engine.TwoSpeeds

/-! The speed of a queue says when its entries are executed, not what they do. Whatever the engine does
with a queue that is alone, it does nothing but go on so many times, and going on is the same at any
speed. -/

namespace TagScript

variable {η α β : Type}

open Likeness (pacing ready pacing_lawful)

namespace World.Twinned

variable {ref : QueueRef} {left right other : World η}

theorem symm (twinned : left.Twinned ref (pacing []) right) :
    right.Twinned ref (pacing []) left where
  made := twinned.madeToo
  elsewhere := twinned.elsewhere.symm
  own := twinned.own.symm
  timing := twinned.timing.symm
  known := ⟨twinned.size ▸ twinned.known.1, List.nil_suffix⟩

theorem trans (first : left.Twinned ref (pacing []) right)
    (second : right.Twinned ref (pacing []) other) : left.Twinned ref (pacing []) other where
  made := first.made
  elsewhere := first.elsewhere.trans second.elsewhere
  own := first.own.trans second.own
  timing := ⟨first.timing.1, second.timing.2⟩
  known := first.known

theorem tame {engine : Engine η} {library : Script → Prop}
    (twinned : left.Twinned ref (pacing []) right) (tame : engine.Tame library left) :
    engine.Tame library right where
  live := by
    rw [LiveMade, ← twinned.live, ← twinned.size]
    exact tame.live
  scripts := twinned.scripts ▸ tame.scripts
  waiting := fun target => by
    have same : (left.queue target).entries = (right.queue target).entries := by
      by_cases own : target = ref
      · rw [own]
        exact Queue.reads_unpaced Queue.entries (fun _ => rfl) twinned.own
      · rw [twinned.queue own]
    exact same ▸ tame.waiting target

theorem isStopped (twinned : left.Twinned ref (pacing []) right) :
    (left.queue ref).isStopped = (right.queue ref).isStopped :=
  Queue.reads_unpaced Queue.isStopped (fun _ => rfl) twinned.own

end World.Twinned

namespace Engine

abbrev Abreast (ref : QueueRef) (left right : Tag.Evaluation (World η)) : Prop :=
  left.Paired (World.Twinned ref (pacing [])) right

namespace Abreast

variable {ref : QueueRef} {left right other : Tag.Evaluation (World η)}

theorem symm (abreast : Abreast ref left right) : Abreast ref right left :=
  ⟨abreast.there, abreast.here, abreast.token.symm, abreast.bound.symm, abreast.world.symm⟩

theorem trans (first : Abreast ref left right) (second : Abreast ref right other) :
    Abreast ref left other :=
  ⟨first.here, second.there, first.token.trans second.token, first.bound.trans second.bound,
    first.world.trans second.world⟩

end Abreast

/-- The queue goes on so many times, and meanwhile nothing happens but what has to do with its pace. -/
inductive Advances (host : Host) (ref : QueueRef) (start : Tag.Evaluation (World η)) :
    Nat → Tag.Evaluation (World η) → Prop
  | rest {finish : Tag.Evaluation (World η)} (abreast : Abreast ref start finish) :
      Advances host ref start 0 finish
  | advance {count : Nat} {before later finish : Tag.Evaluation (World η)}
      (advances : Advances host ref start count before) (ready : before.world.Ready ref)
      (ran : ((paceless host).advance ((paceless host).fire 0) ref).run before = some ((), later))
      (abreast : Abreast ref later finish) : Advances host ref start (count + 1) finish

/-- A state in which the queue is alone and everything that it could run comes to an end. -/
structure Underway (host : Host) (library : Script → Prop) (ref : QueueRef)
    (state : Tag.Evaluation (World η)) : Prop where
  alone : Abreast ref state state
  tame : (paceless host).Tame library state.world

section

variable {host : Host} {library : Script → Prop} {ref : QueueRef}
  {start between finish other : Tag.Evaluation (World η)} {count more : Nat}

theorem advance_abreast {fire : Firing η} (fire' : Firing η) (abreast : Abreast ref start other)
    (tame : (paceless host).Tame library start.world) (ready : start.world.Ready ref)
    (readyToo : other.world.Ready ref)
    (ran : ((paceless host).advance fire ref).run start = some ((), finish)) :
    ∃ later, ((paceless host).advance fire' ref).run other = some ((), later) ∧
      Abreast ref finish later := by
  have both := @advance_paced η host library ref [] fire fire' start other
    ⟨abreast.here, abreast.there, abreast.token, abreast.bound,
      abreast.world, ready, readyToo, tame⟩
  rw [ran] at both
  revert both
  cases ranToo : ((paceless host).advance fire' ref).run other with
  | none => nofun
  | some found =>
      rintro ⟨_, later⟩
      exact ⟨found.2, rfl, later⟩

theorem advance_tells {later : Tag.Evaluation (World η)} {fire : Firing η} (alone : Abreast ref start start)
    (tame : (paceless host).Tame library start.world) (ready : start.world.Ready ref)
    (ran : ((paceless host).advance fire ref).run start = some ((), later)) :
    start.world.notes <:+ later.world.notes := by
  have held : start.world.Twinned ref (pacing start.world.notes) start.world :=
    ⟨alone.world.made, rfl, rfl, alone.world.timing, alone.world.known.1, List.suffix_refl _⟩
  have both := @advance_paced η host library ref start.world.notes fire fire start start
    ⟨alone.here, alone.there, rfl, rfl, held, ready, ready, tame⟩
  rw [ran] at both
  obtain ⟨_, same⟩ := both
  exact same.world.known.2

namespace Advances

theorem alone (advances : Advances host ref start count finish) : Abreast ref finish finish := by
  cases advances with
  | rest abreast => exact abreast.symm.trans abreast
  | advance _ _ _ abreast => exact abreast.symm.trans abreast

theorem settle (advances : Advances host ref start count between)
    (abreast : Abreast ref between finish) : Advances host ref start count finish := by
  cases advances with
  | rest same => exact .rest (same.trans abreast)
  | advance advances ready ran same => exact .advance advances ready ran (same.trans abreast)

theorem trans (first : Advances host ref start count between)
    (second : Advances host ref between more finish) :
    Advances host ref start (count + more) finish := by
  induction second with
  | rest abreast => exact first.settle abreast
  | advance _ ready ran abreast ih => exact .advance ih ready ran abreast

section

variable (terminating : (paceless host : Engine η).Terminating library)

include terminating

theorem underway (advances : Advances host ref start count finish)
    (underway : Underway host library ref start) : Underway host library ref finish := by
  refine ⟨advances.alone, ?_⟩
  induction advances with
  | rest abreast => exact abreast.world.tame underway.tame
  | advance _ ready ran abreast ih =>
      exact abreast.world.tame (advance_tame terminating 0 ready ih ran)

theorem same (advances : Advances host ref start count between)
    (advancesToo : Advances host ref other count finish) (abreast : Abreast ref start other)
    (underway : Underway host library ref start) : Abreast ref between finish := by
  induction advances generalizing finish with
  | rest here =>
      cases advancesToo with
      | rest there => exact here.symm.trans (abreast.trans there)
  | advance first ready ran here ih =>
      cases advancesToo with
      | advance second readyToo ranToo there =>
          have before := ih second
          obtain ⟨later, ranAgain, later_abreast⟩ := advance_abreast ((paceless host).fire 0) before
            (first.underway terminating underway).tame ready readyToo ran
          obtain ⟨_, rfl⟩ := Prod.mk.inj (Option.some.inj (ranAgain.symm.trans ranToo))
          exact here.symm.trans (later_abreast.trans there)

theorem tells (advances : Advances host ref start count finish)
    (underway : Underway host library ref start) : start.world.notes <:+ finish.world.notes := by
  induction advances with
  | rest abreast => rw [abreast.world.notes]
  | advance first ready ran abreast ih =>
      have before := first.underway terminating underway
      rw [← abreast.world.notes]
      exact ih.trans (advance_tells before.alone before.tame ready ran)

omit terminating

theorem split (advances : Advances host ref start (count + more) finish) :
    ∃ between, Advances host ref start count between ∧
      Advances host ref between more finish := by
  induction more generalizing finish with
  | zero => exact ⟨finish, advances, .rest advances.alone⟩
  | succ more ih =>
      cases advances with
      | advance first ready ran abreast =>
          obtain ⟨between, reached, goesOn⟩ := ih first
          exact ⟨between, reached, .advance goesOn ready ran abreast⟩

theorem halted (advances : Advances host ref start count finish)
    (stopped : (start.world.queue ref).isStopped = true) : Abreast ref start finish := by
  induction advances with
  | rest abreast => exact abreast
  | advance _ ready _ _ ih =>
      have runs := ready.runs
      rw [← ih.world.isStopped, stopped] at runs
      cases runs

include terminating

/-- Of two runs of the same queue the one that goes on less often tells a part of what the other one
tells, and if it has come to the end of the queue, the other one comes to the same. -/
theorem behind (advances : Advances host ref start count between)
    (further : Advances host ref other more finish) (abreast : Abreast ref start other)
    (underway : Underway host library ref start) (fewer : count ≤ more) :
    between.world.notes <:+ finish.world.notes ∧
      ((between.world.queue ref).isStopped = true → Abreast ref between finish) := by
  obtain ⟨rest, rfl⟩ := Nat.exists_eq_add_of_le fewer
  obtain ⟨reached, first, second⟩ := further.split
  have met := advances.same terminating first abreast underway
  have there : Underway host library ref other :=
    ⟨abreast.symm.trans abreast, abreast.world.tame underway.tame⟩
  refine ⟨?_, fun stopped => met.trans (second.halted (met.world.isStopped ▸ stopped))⟩
  rw [met.world.notes]
  exact second.tells terminating (first.underway terminating there)

end

end Advances

end

/-! What the engine does with such a queue. -/

def PursuesFrom (host : Host) (ref : QueueRef) (start : Tag.Evaluation (World η))
    (act : RunM η α) : Prop :=
  ∀ result finish, act.run start = some (result, finish) →
    ∃ count, Advances host ref start count finish

def Pursues (host : Host) (library : Script → Prop) (ref : QueueRef) (act : RunM η α) : Prop :=
  ∀ start, Underway host library ref start → PursuesFrom host ref start act

section

variable {host : Host} {library : Script → Prop} {ref : QueueRef}
  {start : Tag.Evaluation (World η)} {act : RunM η α} {next : α → RunM η β}

def Idle (ref : QueueRef) (change : World η → World η) : Prop :=
  ∀ world : World η, world.Twinned ref (pacing []) world →
    world.Twinned ref (pacing []) (change world)

namespace Pursues

theorem pure (result : α) : Pursues host library ref (Pure.pure result : RunM η α) := by
  rintro start underway _ _ ran
  obtain ⟨_, rfl⟩ := Prod.mk.inj (Option.some.inj ran)
  exact ⟨0, .rest underway.alone⟩

theorem outOfBudget : Pursues host library ref (RunM.outOfBudget : RunM η α) := by
  rintro _ _ _ _ ⟨⟩

theorem updateGet {change : World η → α × World η}
    (idle : Idle ref fun world => (change world).2) :
    Pursues host library ref (RunM.updateGet change) := by
  rintro start underway _ _ ran
  obtain ⟨_, rfl⟩ := Prod.mk.inj (Option.some.inj ran)
  exact ⟨0, .rest (underway.alone.with_world (idle _ underway.alone.world))⟩

theorem update {change : World η → World η} (idle : Idle ref change) :
    Pursues host library ref (RunM.update change) := by
  have same : RunM.update change = RunM.updateGet fun world => ((), change world) := rfl
  exact same ▸ updateGet idle

theorem modifyQueue {change : Queue → Queue}
    (pace : ∀ queue : Queue, (change queue).unpaced = queue.unpaced) :
    Pursues host library ref (RunM.modifyQueue ref change : RunM η Unit) := by
  refine update fun world twinned => ?_
  have changed : (world.modifyQueue ref id).Twinned ref (pacing []) (world.modifyQueue ref change) :=
    twinned.change (pace (world.queue ref)).symm
  rwa [World.modifyQueue_id] at changed

theorem log (level : LogLevel) (text : String) :
    Pursues host library ref (RunM.log level text : RunM η Unit) :=
  update fun _ twinned => (twinned.emit _).2

theorem world_bind {next : World η → RunM η β}
    (rest : ∀ start, Underway host library ref start →
      PursuesFrom host ref start (next start.world)) :
    Pursues host library ref (RunM.world >>= next) :=
  rest

theorem queue_bind {next : Queue → RunM η β} {target : QueueRef}
    (rest : ∀ queue, Pursues host library ref (next queue)) :
    Pursues host library ref (RunM.queue target >>= next) :=
  fun start underway => rest (start.world.queue target) start underway

theorem scheduler_bind {next : Scheduler QueueRef AsyncWork → RunM η β}
    (rest : ∀ scheduler, scheduler.works = [] → Pursues host library ref (next scheduler)) :
    Pursues host library ref (getThe (Scheduler QueueRef AsyncWork) >>= next) :=
  fun start underway => rest start.world.scheduler underway.alone.world.timing.1 start underway

theorem ite {test : Prop} [Decidable test] {act other : RunM η α}
    (yes : Pursues host library ref act) (no : Pursues host library ref other) :
    Pursues host library ref (if test then act else other) := by
  split
  · exact yes
  · exact no

theorem set (scheduler : Scheduler QueueRef AsyncWork) (none : scheduler.works = []) :
    Pursues host library ref (MonadStateOf.set scheduler : RunM η Unit) :=
  update fun _ twinned => twinned.reschedule ⟨twinned.timing.1, none⟩

variable (terminating : (paceless host : Engine η).Terminating library)

include terminating

theorem after {later : Tag.Evaluation (World η)} {count : Nat}
    (advances : Advances host ref start count later) (underway : Underway host library ref start)
    (pursues : Pursues host library ref act) {result : α} {finish : Tag.Evaluation (World η)}
    (ran : act.run later = some (result, finish)) :
    ∃ count, Advances host ref start count finish := by
  obtain ⟨more, goesOn⟩ := pursues later (advances.underway terminating underway) _ _ ran
  exact ⟨_, advances.trans goesOn⟩

theorem from_bind (first : PursuesFrom host ref start act)
    (rest : ∀ result, Pursues host library ref (next result))
    (underway : Underway host library ref start) : PursuesFrom host ref start (act >>= next) := by
  intro _ _ ran
  obtain ⟨result, later, ranFirst, ranRest⟩ := Tag.EvalM.run_bind_eq_some.1 ran
  obtain ⟨count, advances⟩ := first _ _ ranFirst
  exact after terminating advances underway (rest result) ranRest

theorem bind (first : Pursues host library ref act)
    (rest : ∀ result, Pursues host library ref (next result)) :
    Pursues host library ref (act >>= next) :=
  fun start underway => from_bind terminating (first start underway) rest underway

theorem forM {each : α → RunM η PUnit} {items : List α}
    (pursues : ∀ item ∈ items, Pursues host library ref (each item)) :
    Pursues host library ref (items.forM each) := by
  induction items with
  | nil => exact pure _
  | cons item rest ih =>
      simp only [List.forM_eq_forM, List.forM_cons]
      exact bind terminating (pursues item List.mem_cons_self) fun _ =>
        ih fun found member => pursues found (List.mem_cons_of_mem item member)

end Pursues

end

end Engine

end TagScript
