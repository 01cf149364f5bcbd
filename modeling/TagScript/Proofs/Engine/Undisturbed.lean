import TagScript.Proofs.Engine.Enactment
import TagScript.Proofs.Engine.Unstarted

/-! A queue that nothing unsettles. As long as its own entries neither stop it, make it wait nor put
others on it, and nobody else reaches it by its id, each revolution executes the next of its entries and
nothing else happens to it. -/

namespace TagScript

variable {η α : Type}

open RunM (Secures)

structure Queue.Tended (queue other : Queue) : Prop where
  same : other = { queue with definitions := other.definitions, saved := other.saved }

namespace Queue

theorem Tended.refl (queue : Queue) : queue.Tended queue := ⟨rfl⟩

theorem Tended.trans {queue between later : Queue} (first : queue.Tended between)
    (second : between.Tended later) : queue.Tended later :=
  ⟨by rw [second.same, first.same]⟩

section

variable {queue other : Queue} (tended : queue.Tended other)

include tended

theorem Tended.note (deed : Deed) : (queue.note deed).Tended (other.note deed) :=
  ⟨by rw [tended.same]; rfl⟩

theorem Tended.close : queue.close.Tended other.close := ⟨by rw [tended.same]; rfl⟩

theorem Tended.unhindered (unhindered : queue.Unhindered) : other.Unhindered := by
  rw [tended.same]
  exact ⟨unhindered.paused, unhindered.undelayed, unhindered.unheld⟩

end

def revolved (queue : Queue) : Queue :=
  if queue.isStopped then queue
  else match queue.entries with
    | [] => (queue.note .ranDry).close
    | entry :: entries =>
      let executed := ({ queue with entries }.note (.started entry)).note (.executed entry)
      if entries.isEmpty then (executed.note .ranDry).close else executed

section

variable {queue : Queue}

theorem revolved_of_isStopped (stopped : queue.isStopped = true) : queue.revolved = queue := by
  simp [revolved, stopped]

variable (runs : queue.isStopped = false)

include runs

theorem revolved_nil (dry : queue.entries = []) : queue.revolved = (queue.note .ranDry).close := by
  simp [revolved, runs, dry]

theorem revolved_last {entry : Entry} (waiting : queue.entries = [entry]) : queue.revolved =
    ((({ queue with entries := [] }.note (.started entry)).note (.executed entry)).note .ranDry).close := by
  unfold revolved
  rw [runs, waiting]
  rfl

theorem revolved_cons {entry next : Entry} {rest : List Entry}
    (waiting : queue.entries = entry :: next :: rest) : queue.revolved =
      ({ queue with entries := next :: rest }.note (.started entry)).note (.executed entry) := by
  unfold revolved
  rw [runs, waiting]
  rfl

end

end Queue

structure Queue.Clocked (ref : QueueRef) (origin : World η) (queue : Queue) : Prop
    extends queue.Unhindered where
  timed : queue.kind.isInstant = false
  keyed : ∀ key, origin.live.get? key = some ref → key = Text.lower queue.id

theorem Queue.Clocked.revolved {ref : QueueRef} {origin : World η} {queue : Queue}
    (clocked : queue.Clocked ref origin) : queue.revolved.Clocked ref origin := by
  obtain ⟨⟨paused, undelayed, unheld⟩, timed, keyed⟩ := clocked
  unfold Queue.revolved
  split
  · exact ⟨⟨paused, undelayed, unheld⟩, timed, keyed⟩
  · split
    · exact ⟨⟨paused, undelayed, unheld⟩, timed, keyed⟩
    · dsimp only
      split <;> exact ⟨⟨paused, undelayed, unheld⟩, timed, keyed⟩

theorem World.notes_halt (ref : QueueRef) (world : World η) :
    (world.halt ref).notes = world.notes ∧ (world.halt ref).scripts = world.scripts := by
  unfold World.halt World.removeLive
  dsimp only
  cases (world.queue ref).timer <;> split <;> exact ⟨rfl, rfl⟩

namespace Engine

/-- A filled entry of the queue keeps it from simply going on with what it has: it stops it, makes it
wait, clears it or puts entries on it. -/
inductive Unsettles (engine : Engine η) (ref : QueueRef) (world : World η) (entry : Entry) : Prop
  | stops {bound : Invocation} (binds : engine.Binds .stop entry bound)
  | delays {bound : Invocation} (binds : engine.Binds .wait entry bound)
  | loops {bound : Invocation} (binds : engine.Binds .repeatBlock entry bound)
  | injects {bound : Invocation} (binds : engine.Binds .inject entry bound)
      (known : (world.script? (bound.objectD "script" "")).isSome = true)
  | determines {bound : Invocation} (binds : engine.Binds .determine entry bound)
      (stops : bound.object? "passively" = none)
  | acts {bound : Invocation} (binds : engine.Binds .queue entry bound)
      (own : bound.object? "target" = none ∨ bound.Targets ref world)
      (action : bound.objectD "action" "" ≠ "resume")
  | awaits {bound : Invocation} (binds : engine.Binds .run entry bound)
      (waits : bound.entry.waits = true)
  | joins {bound : Invocation} (binds : engine.Binds .run entry bound)
      (joins : bound.Joins ref world)

/-- After that world an entry of the queue unsettled it, or another queue went about an entry that asks
for the queue by its id. -/
def Unsettled (engine : Engine η) (ref : QueueRef) (origin : World η) (notes : List Note) : Prop :=
  ∃ later actor entry earlier, notes = later ++ .filled actor entry :: earlier ∧
    origin.notes <:+ earlier ∧
    (actor = ref ∧ engine.Unsettles ref origin entry ∨ actor ≠ ref ∧ engine.AsksFor ref origin entry)

/-- Since that world the queue has come to be as planned, unless it was unsettled. -/
structure AsPlanned (engine : Engine η) (ref : QueueRef) (origin : World η) (plan : Queue)
    (world : World η) : Prop where
  goesOn : origin.notes <:+ world.notes
  scripts : world.scripts = origin.scripts
  launched : world.Launched ref
  met : ¬ engine.Unsettled ref origin world.notes → plan.Tended (world.queue ref) ∧
    ∀ key, world.live.get? key = some ref ↔
      plan.isStopped = false ∧ origin.live.get? key = some ref

structure Astray (engine : Engine η) (ref : QueueRef) (origin world : World η) : Prop where
  goesOn : origin.notes <:+ world.notes
  scripts : world.scripts = origin.scripts
  launched : world.Launched ref
  unsettled : engine.Unsettled ref origin world.notes

variable {engine : Engine η} {ref : QueueRef} {origin world other : World η} {plan : Queue}
  {free : Bool} {fire : Firing η}

theorem Unsettled.append {notes : List Note} (unsettled : engine.Unsettled ref origin notes)
    (more : List Note) : engine.Unsettled ref origin (more ++ notes) := by
  obtain ⟨later, actor, entry, earlier, rfl, since, how⟩ := unsettled
  exact ⟨more ++ later, actor, entry, earlier, by simp, since, how⟩

theorem Unsettled.of_names {notes : List Note}
    (calm : ∀ actor entry, .filled actor entry ∈ notes →
      ∀ command, engine.commands.find? entry.command = some command →
        command.name ∉ ["stop", "wait", "repeat", "inject", "determine", "queue", "run"]) :
    ¬ engine.Unsettled ref origin notes := by
  rintro ⟨later, actor, entry, earlier, rfl, -, how⟩
  have calm := calm actor entry (List.mem_append_right _ List.mem_cons_self)
  rcases how with ⟨-, unsettles⟩ | ⟨-, bound, ⟨binds, -⟩ | ⟨binds, -⟩⟩
  · cases unsettles with
    | stops binds | delays binds | loops binds | injects binds | determines binds | acts binds
    | awaits binds | joins binds =>
        refine calm _ binds.1 ?_
        simp [Command.stop, Command.wait, Command.repeatBlock, Command.inject, Command.determine,
          Command.queue, Command.run]
  · exact calm _ binds.1 (by simp [Command.queue])
  · exact calm _ binds.1 (by simp [Command.run])

theorem Unsettles.of_live {entry : Entry}
    (live : ∀ key, other.live.get? key = some ref → world.live.get? key = some ref)
    (scripts : other.scripts = world.scripts) (unsettles : engine.Unsettles ref other entry) :
    engine.Unsettles ref world entry := by
  have known (name : String) : other.script? name = world.script? name := by
    rw [World.script?, World.script?, scripts]
  cases unsettles with
  | stops binds => exact .stops binds
  | delays binds => exact .delays binds
  | loops binds => exact .loops binds
  | injects binds found => exact .injects binds (known _ ▸ found)
  | determines binds stops => exact .determines binds stops
  | acts binds own action =>
      refine .acts binds (own.imp_right ?_) action
      rintro ⟨id, asked, found⟩
      exact ⟨id, asked, live _ found⟩
  | awaits binds waits => exact .awaits binds waits
  | joins binds joins =>
      obtain ⟨id, asked, found, script⟩ := joins
      exact .joins binds ⟨id, asked, live _ found, known _ ▸ script⟩

theorem AsksFor.of_live {entry : Entry}
    (live : ∀ key, other.live.get? key = some ref → world.live.get? key = some ref)
    (scripts : other.scripts = world.scripts) (asks : engine.AsksFor ref other entry) :
    engine.AsksFor ref world entry := by
  obtain ⟨bound, ⟨binds, id, asked, found⟩ | ⟨binds, id, asked, found, known⟩⟩ := asks
  · exact ⟨bound, .inl ⟨binds, id, asked, live _ found⟩⟩
  · rw [World.script?, scripts] at known
    exact ⟨bound, .inr ⟨binds, id, asked, live _ found, known⟩⟩

namespace Astray

theorem asPlanned (astray : engine.Astray ref origin world) (plan : Queue) :
    engine.AsPlanned ref origin plan world :=
  ⟨astray.goesOn, astray.scripts, astray.launched, fun settled => absurd astray.unsettled settled⟩

theorem modify (astray : engine.Astray ref origin world) {change : Queue → Queue}
    (launched : ∀ queue : Queue, queue.phase ≠ .constructing → (change queue).phase ≠ .constructing) :
    engine.Astray ref origin (world.modifyQueue ref change) :=
  ⟨astray.goesOn, astray.scripts, astray.launched.modifyQueue (launched _), astray.unsettled⟩

theorem vigil (engine : Engine η) (ref : QueueRef) (origin : World η) :
    Vigil engine ref (engine.Astray ref origin) (fun _ => True) fun _ => True where
  goesOn := fun _ granted => granted
  alsoGoesOn := fun _ granted => granted
  apart := by
    intro world other apart astray
    obtain ⟨more, _, notes⟩ := apart.notes
    constructor
    · exact notes ▸ astray.goesOn.trans (List.suffix_append _ _)
    · exact apart.scripts.trans astray.scripts
    · rw [World.Launched, apart.queue]
      exact astray.launched
    · exact notes ▸ astray.unsettled.append more
  release := fun astray => astray.modify fun _ => id
  deal := fun _ onward astray => astray.modify fun queue => (onward queue).launched
  delay := fun _ _ astray => astray.modify fun _ => id
  unlist := fun _ _ astray => ⟨astray.goesOn, astray.scripts, astray.launched, astray.unsettled⟩
  create := by
    intro world id kind new astray
    have unmade : world.queue ref = default := World.queue_of_size_le (Nat.le_of_eq new)
    exact absurd (congrArg Queue.phase unmade) astray.launched
  noted := fun _ _ => ⟨fun _ => trivial, fun _ => trivial⟩

theorem lax : Lax ref (engine.Astray ref origin) (fun _ => True) fun _ => True where
  licence := fun _ => trivial
  delays := fun _ => trivial
  fills := fun astray => ⟨astray.goesOn.trans (List.suffix_cons _ _), astray.scripts, astray.launched,
    astray.unsettled.append [_]⟩

theorem fires (regular : engine.Regular free) (budget : Nat) :
    (engine.fire budget).Heeds ref (engine.Astray ref origin) fun _ => True :=
  (vigil engine ref origin).fire_lax regular lax budget

theorem revolve (regular : engine.Regular free) (depth budget : Nat) :
    Secures (engine.Astray ref origin) (engine.revolve (engine.fire depth) budget ref)
      fun _ => engine.Astray ref origin :=
  (vigil engine ref origin).revolve regular (fires regular depth) (fun _ => lax) budget

end Astray

namespace AsPlanned

theorem start (launched : origin.Launched ref) (runs : (origin.queue ref).isStopped = false) :
    engine.AsPlanned ref origin (origin.queue ref) origin :=
  ⟨List.suffix_refl _, rfl, launched, fun _ => ⟨.refl _, fun _ => by simp [runs]⟩⟩

theorem astray (planned : engine.AsPlanned ref origin plan world)
    (unsettled : engine.Unsettled ref origin world.notes) : engine.Astray ref origin world :=
  ⟨planned.goesOn, planned.scripts, planned.launched, unsettled⟩

theorem secures {act : RunM η α} {after : α → World η → Prop}
    (settled : ∀ world, engine.AsPlanned ref origin plan world →
      ¬ engine.Unsettled ref origin world.notes → Secures (· = world) act after)
    (astray : Secures (engine.Astray ref origin) act after) :
    Secures (engine.AsPlanned ref origin plan) act after := by
  refine .each fun world planned => ?_
  by_cases unsettled : engine.Unsettled ref origin world.notes
  · exact astray.weaken (fun _ same => same ▸ planned.astray unsettled) fun _ _ held => held
  · exact settled world planned unsettled

theorem apart (planned : engine.AsPlanned ref origin plan world) (apart : world.Apart ref other) :
    engine.AsPlanned ref origin plan other := by
  obtain ⟨more, _, notes⟩ := apart.notes
  constructor
  · exact notes ▸ planned.goesOn.trans (List.suffix_append _ _)
  · exact apart.scripts.trans planned.scripts
  · rw [World.Launched, apart.queue]
    exact planned.launched
  · intro settled
    obtain ⟨tended, live⟩ := planned.met fun unsettled => settled (notes ▸ unsettled.append more)
    exact ⟨apart.queue ▸ tended, fun key => (apart.live key).trans (live key)⟩

theorem modify {change : Queue → Queue} {next : Queue}
    (planned : engine.AsPlanned ref origin plan world)
    (launched : (change (world.queue ref)).phase ≠ .constructing)
    (lives : next.isStopped = plan.isStopped)
    (alike : plan.Tended (world.queue ref) → next.Tended (change (world.queue ref))) :
    engine.AsPlanned ref origin next (world.modifyQueue ref change) := by
  have made : ref.index < world.queues.size := World.made_of_launched planned.launched
  have changed := World.queue_modifyQueue_self made change
  refine ⟨planned.goesOn, planned.scripts, ?_, fun settled => ?_⟩
  · rw [World.Launched, changed]
    exact launched
  · obtain ⟨tended, live⟩ := planned.met settled
    exact ⟨changed ▸ alike tended, fun key => by rw [lives]; exact live key⟩

theorem changed (planned : engine.AsPlanned ref origin plan world)
    (unsettled : engine.Unsettled ref origin world.notes) {change : Queue → Queue}
    (launched : ∀ queue : Queue, queue.phase ≠ .constructing → (change queue).phase ≠ .constructing) :
    engine.AsPlanned ref origin plan (world.modifyQueue ref change) :=
  ((planned.astray unsettled).modify launched).asPlanned plan

theorem asks (planned : engine.AsPlanned ref origin plan world)
    (settled : ¬ engine.Unsettled ref origin world.notes) (key : String)
    (found : world.live.get? key = some ref) : origin.live.get? key = some ref :=
  (((planned.met settled).2 key).1 found).2

theorem vigil (engine : Engine η) (ref : QueueRef) (origin : World η) (unheld : plan.holds = 0) :
    Vigil engine ref (engine.AsPlanned ref origin plan) (engine.Unsettled ref origin)
      fun world => engine.Unsettled ref origin world.notes where
  goesOn := fun _ unsettled => unsettled.append _
  alsoGoesOn := by
    intro world other apart unsettled
    obtain ⟨more, _, notes⟩ := apart.notes
    exact notes ▸ unsettled.append more
  apart := fun apart planned => planned.apart apart
  release := by
    intro world planned
    refine planned.modify planned.launched rfl fun tended => ⟨?_⟩
    rw [Queue.release, tended.same, unheld]
  deal := fun unsettled onward planned => planned.changed unsettled fun queue => (onward queue).launched
  delay := fun _ unsettled planned => planned.changed unsettled fun _ => id
  unlist := fun _ unsettled planned =>
    ⟨planned.goesOn, planned.scripts, planned.launched, fun settled => absurd unsettled settled⟩
  create := by
    intro world id kind new planned
    have unmade : world.queue ref = default := World.queue_of_size_le (Nat.le_of_eq new)
    exact absurd (congrArg Queue.phase unmade) planned.launched
  noted := by
    intro world actor entry different planned
    have asked (asks : engine.AsksFor ref world entry) :
        engine.Unsettled ref origin (.filled actor entry :: world.notes) := by
      by_cases unsettled : engine.Unsettled ref origin world.notes
      · exact unsettled.append [_]
      · exact ⟨[], actor, entry, world.notes, rfl, planned.goesOn,
          .inr ⟨different, asks.of_live (planned.asks unsettled) planned.scripts⟩⟩
    refine ⟨asked, ?_⟩
    rintro ⟨bound, binds, targets, _⟩
    exact asked ⟨bound, .inl ⟨binds, targets⟩⟩

theorem fires (regular : engine.Regular free) (unheld : plan.holds = 0) (budget : Nat) :
    (engine.fire budget).Heeds ref (engine.AsPlanned ref origin plan) (engine.Unsettled ref origin) :=
  (vigil engine ref origin unheld).fire_launched regular (fun _ planned => planned.launched) budget

/-! The queue executes an entry of its own. -/

section

variable (unhindered : plan.Unhindered)

theorem tend {change : Queue → Queue} (tended : ∀ queue : Queue, queue.Tended (change queue))
    (phase : ∀ queue : Queue, (change queue).phase = queue.phase) :
    Secures (engine.AsPlanned ref origin plan) (RunM.modifyQueue ref change)
      fun _ => engine.AsPlanned ref origin plan :=
  .update fun _ planned => planned.modify (by rw [phase]; exact planned.launched) rfl
    fun held => held.trans (tended _)

include unhindered

theorem define (host : Host) (bound : Invocation) :
    Secures (engine.AsPlanned ref origin plan)
      ((Command.define : Command η).execute ⟨host, fire, ref⟩ bound)
      fun _ => engine.AsPlanned ref origin plan := by
  have watch := vigil engine ref origin unhindered.unheld
  unfold Command.define
  dsimp only
  split
  · exact .bind (tend (fun _ => ⟨rfl⟩) fun _ => rfl) fun _ => .bind (watch.scene_remark _ _) fun _ =>
      .pure fun _ held => held
  · exact .pure fun _ held => held

theorem determine (host : Host) {bound : Invocation} (passive : bound.object? "passively" ≠ none) :
    Secures (engine.AsPlanned ref origin plan)
      ((Command.determine : Command η).execute ⟨host, fire, ref⟩ bound)
      fun _ => engine.AsPlanned ref origin plan := by
  have watch := vigil engine ref origin unhindered.unheld
  refine .any_queue_bind fun queue => .bind (watch.update (.record _ _ _)) fun _ => ?_
  refine .bind (watch.scene_remark _ _) fun _ => .ite (fun stops => ?_) fun _ => .pure fun _ held => held
  exact absurd (Option.isNone_iff_eq_none.1 stops) passive

omit unhindered in
theorem inject (host : Host) {bound : Invocation}
    (unknown : world.script? (bound.objectD "script" "") = none)
    (planned : engine.AsPlanned ref origin plan world) :
    Secures (· = world) ((Command.inject : Command η).execute ⟨host, fire, ref⟩ bound)
      fun _ => engine.AsPlanned ref origin plan := by
  unfold Command.inject
  dsimp only
  refine .world_bind ?_
  rw [unknown]
  exact .pure fun _ same => same ▸ planned

theorem resume {host : Host} {bound : Invocation} (resumes : bound.objectD "action" "" = "resume") :
    Secures (engine.AsPlanned ref origin plan)
      (Command.actOnQueue (⟨host, fire, ref⟩ : Scene η) bound ref)
      fun _ => engine.AsPlanned ref origin plan := by
  unfold Command.actOnQueue
  rw [resumes]
  refine .bind (.update fun world planned => ?_) fun _ => .pure fun _ held => held
  refine planned.modify planned.launched rfl fun tended => ⟨?_⟩
  rw [Queue.setPaused, tended.same, unhindered.paused]

theorem queue {bound : Invocation}
    (spares : bound.object? "target" = none ∨ bound.Targets ref world →
      bound.objectD "action" "" = "resume")
    (planned : engine.AsPlanned ref origin plan world) :
    Secures (· = world) ((Command.queue : Command η).execute ⟨engine.host, fire, ref⟩ bound)
      fun _ => engine.AsPlanned ref origin plan := by
  have watch := vigil engine ref origin unhindered.unheld
  unfold Command.queue
  dsimp only
  refine .world_bind ?_
  split
  · exact .pure fun _ same => same ▸ planned
  · rename_i target found
    have acts : Secures (engine.AsPlanned ref origin plan)
        (Command.actOnQueue (⟨engine.host, fire, ref⟩ : Scene η) bound target)
        fun _ => engine.AsPlanned ref origin plan := by
      by_cases own : target = ref
      · subst own
        refine resume unhindered (spares ?_)
        cases asked : bound.object? "target" with
        | none => exact .inl rfl
        | some id =>
            rw [asked] at found
            exact .inr ⟨id, asked, (Prod.mk.inj found).2⟩
      · exact (watch.actOnQueue bound target).weaken (fun _ held =>
          ⟨held, fun same => absurd same own, fun same => absurd same own⟩) fun _ _ held => held
    refine .bind (acts.weaken (fun _ same => same ▸ planned) fun _ _ held => held) fun outcome => ?_
    split
    · exact .pure fun _ held => held
    · exact .any_queue_bind fun _ => .bind (watch.scene_remark _ _) fun _ => .pure fun _ held => held

theorem run (fires : fire.Heeds ref (engine.AsPlanned ref origin plan) (engine.Unsettled ref origin))
    {bound : Invocation} (atOnce : bound.entry.waits = false) (foreign : ¬ bound.Joins ref world)
    (planned : engine.AsPlanned ref origin plan world) (host : Host) :
    Secures (· = world) ((Command.run : Command η).execute ⟨host, fire, ref⟩ bound)
      fun _ => engine.AsPlanned ref origin plan := by
  have watch := vigil engine ref origin unhindered.unheld
  unfold Command.run
  dsimp only
  rw [atOnce]
  refine .ite (fun waits => absurd waits Bool.false_ne_true) fun _ => ?_
  refine .bind ((fires _).weaken ?_ fun _ _ held => held) fun answer => ?_
  · rintro _ rfl
    exact ⟨planned, Invocation.granted fun joins => absurd joins foreign⟩
  cases answer with
  | error error =>
      exact .ite (fun waits => absurd waits Bool.false_ne_true) fun _ => .pure fun _ held => held.1
  | ok result =>
      refine .ite (fun waits => absurd waits Bool.false_ne_true) fun _ => ?_
      refine Secures.weaken ?_ (fun _ held => held.1) fun _ _ held => held
      exact .bind (watch.scene_remark _ _) fun _ => .pure fun _ held => held

theorem execute (regular : engine.Regular free)
    (fires : fire.Heeds ref (engine.AsPlanned ref origin plan) (engine.Unsettled ref origin))
    {command : Command η} {entry : Entry} {bound : Invocation} (binds : engine.Binds command entry bound)
    (spares : ¬ engine.Unsettles ref world entry) (planned : engine.AsPlanned ref origin plan world) :
    Secures (· = world) (command.execute ⟨engine.host, fire, ref⟩ bound)
      fun _ => engine.AsPlanned ref origin plan := by
  have watch := vigil engine ref origin unhindered.unheld
  have aside {act : RunM η (Except Fault Invocation)}
      (secures : Secures (engine.AsPlanned ref origin plan) act
        fun _ => engine.AsPlanned ref origin plan) :
      Secures (· = world) act fun _ => engine.AsPlanned ref origin plan :=
    secures.weaken (fun _ same => same ▸ planned) fun _ _ held => held
  rcases regular.commands _ command binds.1 with known | harmless
  · simp only [Command.builtins, List.mem_cons, List.not_mem_nil, or_false] at known
    rcases known with rfl | rfl | rfl | rfl | rfl | rfl | rfl | rfl | rfl
    · exact aside (watch.debug bound)
    · exact aside (define unhindered _ bound)
    · exact aside (determine unhindered _ fun stops => spares (.determines binds stops))
    · refine inject _ (Option.not_isSome_iff_eq_none.1 ?_) planned
      exact fun found => spares (.injects binds found)
    · refine queue unhindered (fun own => ?_) planned
      by_contra action
      exact spares (.acts binds own action)
    · exact absurd (.loops binds) spares
    · refine run unhindered fires ?_ (fun joins => spares (.joins binds joins)) planned _
      exact Bool.eq_false_iff.2 fun waits => spares (.awaits binds waits)
    · exact absurd (.stops binds) spares
    · exact absurd (.delays binds) spares
  · obtain ⟨answer, aloof, same⟩ := harmless.execute engine.host ref bound
    rw [same]
    exact aside (watch.updateGet fun world => .reported (aloof world).reported)

theorem dispatch (regular : engine.Regular free) (depth : Nat) (ready : FilledEntry) :
    Secures (fun world => engine.AsPlanned ref origin plan world ∧
        (engine.Unsettles ref world { ready.entry with arguments := ready.filled } →
          engine.Unsettled ref origin world.notes))
      (engine.dispatch (engine.fire depth) ref ready (blocksOfFilled ready.filled))
      fun _ => engine.AsPlanned ref origin plan := by
  have watch := vigil engine ref origin unhindered.unheld
  refine dispatch_secures (fun reported held => ?_) watch.unreported (fun _ held => held.1) ready
    (fun command bound binds => .each fun world held => ?_) fun _ _ => tend (fun _ => ⟨rfl⟩) fun _ => rfl
  · have apart : World.Apart ref _ _ := .reported reported
    refine ⟨held.1.apart apart, fun unsettles => watch.alsoGoesOn apart (held.2 ?_)⟩
    exact unsettles.of_live (fun key => (apart.live key).1) apart.scripts
  · by_cases unsettled : engine.Unsettled ref origin world.notes
    · refine ((Astray.vigil engine ref origin).execute (fun _ _ => trivial) bound (fun _ _ => trivial)
        regular (Astray.fires regular depth) binds).weaken ?_ fun _ _ astray => astray.asPlanned plan
      rintro _ rfl
      exact ⟨held.1.astray unsettled, fun _ => trivial, fun _ => trivial⟩
    · exact execute unhindered regular (fires regular unhindered.unheld depth) binds
        (fun unsettles => unsettled (held.2 unsettles)) held.1

theorem executeEntry (regular : engine.Regular free) (depth : Nat) (entry : Entry) :
    Secures (engine.AsPlanned ref origin plan) (engine.executeEntry (engine.fire depth) ref entry)
      fun _ => engine.AsPlanned ref origin plan := by
  have watch := vigil engine ref origin unhindered.unheld
  rw [executeEntry_eq]
  refine .bind (watch.fillEntry regular (fires regular unhindered.unheld depth) ref entry) fun ready =>
    (dispatch unhindered regular depth ready).weaken ?_ fun _ _ held => held
  rintro _ ⟨world, planned, rfl⟩
  let filled : Entry := { ready.entry with arguments := ready.filled }
  have goesOn : origin.notes <:+ (world.jot (.filled ref filled)).notes :=
    planned.goesOn.trans (List.suffix_cons _ _)
  refine ⟨⟨goesOn, planned.scripts, planned.launched, fun settled => planned.met fun unsettled =>
    settled (unsettled.append [_])⟩, fun unsettles => ?_⟩
  by_cases unsettled : engine.Unsettled ref origin world.notes
  · exact unsettled.append [_]
  · have before : engine.Unsettles ref origin filled := by
      refine Unsettles.of_live ?_ ?_ unsettles
      · exact planned.asks unsettled
      · exact planned.scripts
    exact ⟨[], ref, filled, world.notes, rfl, planned.goesOn, .inl ⟨rfl, before⟩⟩

theorem executeTaken (regular : engine.Regular free) (depth : Nat) (entry : Entry) :
    Secures (engine.AsPlanned ref origin plan) (engine.executeTaken (engine.fire depth) ref entry)
      fun _ => engine.AsPlanned ref origin ((plan.note (.started entry)).note (.executed entry)) := by
  have notes (deed : Deed) (plan : Queue) : Secures (engine.AsPlanned ref origin plan)
      (RunM.modifyQueue ref (Queue.note deed)) fun _ => engine.AsPlanned ref origin (plan.note deed) :=
    .update fun _ planned => planned.modify planned.launched rfl fun tended => tended.note deed
  have started : (plan.note (.started entry)).Unhindered :=
    ⟨unhindered.paused, unhindered.undelayed, unhindered.unheld⟩
  exact .bind (notes _ _) fun _ => .bind (executeEntry started regular depth entry) fun _ => notes _ _

end

section

variable (unhindered : plan.Unhindered) (runs : plan.isStopped = false)
  (keyed : ∀ key, origin.live.get? key = some ref → key = Text.lower plan.id)

include runs keyed

omit runs in
theorem halt (planned : engine.AsPlanned ref origin plan world)
    (settled : ¬ engine.Unsettled ref origin world.notes) :
    engine.AsPlanned ref origin plan.close (world.halt ref) := by
  obtain ⟨notes, scripts⟩ := world.notes_halt ref
  obtain ⟨tended, live⟩ := planned.met settled
  have closed : (world.halt ref).queue ref = (world.queue ref).close :=
    (world.queue_halt ref ref).trans
      (World.queue_modifyQueue_self (World.made_of_launched planned.launched) _)
  refine ⟨notes ▸ planned.goesOn, scripts.trans planned.scripts, ?_, fun _ => ⟨?_, fun key => ?_⟩⟩
  · rw [World.Launched, closed]
    exact Phase.noConfusion
  · exact closed ▸ tended.close
  · have here : world.key ref = Text.lower plan.id := by rw [World.key, tended.same]
    have gone : (world.halt ref).live.get? key ≠ some ref := by
      intro found
      rcases world.live_halt_cases ref with ⟨_, erased⟩ | ⟨absent, same⟩
      · rw [erased, here] at found
        by_cases own : key = Text.lower plan.id
        · rw [own, Table.get?_erase] at found
          cases found
        · rw [Table.get?_erase_of_ne own] at found
          exact own (keyed key ((live key).1 found).2)
      · rw [same] at found
        refine absent ?_
        have own := keyed key ((live key).1 found).2
        rw [own, ← here] at found
        exact found
    exact iff_of_false gone fun held => absurd held.1 (by simp [Queue.isStopped, Queue.close, Queue.note])

include unhindered

theorem finishQueue : Secures (engine.AsPlanned ref origin plan) (engine.finishQueue ref)
    fun _ => engine.AsPlanned ref origin (plan.note .ranDry).close := by
  have astray : Secures (engine.Astray ref origin) (Queue.stop engine.host ref) fun _ =>
      engine.AsPlanned ref origin (plan.note .ranDry).close :=
    ((Astray.vigil engine ref origin).stop_own (fun _ _ => trivial) engine.host).weaken
      (fun _ held => held) fun _ _ held => held.asPlanned _
  have notes : Secures (engine.AsPlanned ref origin plan) (RunM.modifyQueue ref (Queue.note .ranDry))
      fun _ => engine.AsPlanned ref origin (plan.note .ranDry) :=
    .update fun _ planned => planned.modify planned.launched rfl fun tended => tended.note _
  refine .bind notes fun _ => secures (fun world planned settled => ?_) astray
  have watch : Vigil engine ref (engine.AsPlanned ref origin (plan.note .ranDry).close) _ _ :=
    vigil engine ref origin unhindered.unheld
  refine Queue.stop_halts watch.unreported watch.carryOut engine.host ?_
    (planned.halt keyed settled)
  rw [(planned.met settled).1.same]
  exact runs

theorem finishWhenDry (running : plan.phase = .running) :
    Secures (engine.AsPlanned ref origin plan) (do
        let world ← RunM.world
        if (world.queue ref).isFinished world.now then engine.finishQueue ref : RunM η Unit)
      fun _ => engine.AsPlanned ref origin
        (if plan.entries.isEmpty then (plan.note .ranDry).close else plan) := by
  have watch := Astray.vigil engine ref origin
  refine secures (fun world planned settled => .world_bind ?_) ?_
  · -- Only the plan tells whether this was the last entry; the queue has just the same ones left.
    have dry : (world.queue ref).isFinished world.now = plan.entries.isEmpty := by
      rw [(planned.met settled).1.same]
      simp [Queue.isFinished, Queue.isStopped, Queue.isBlocked, Queue.isDelayed, running,
        unhindered.paused, unhindered.undelayed, unhindered.unheld]
    rw [dry]
    refine .ite (fun last => ?_) fun more => ?_
    · rw [if_pos last]
      exact (finishQueue unhindered runs keyed).weaken (fun _ same => same ▸ planned)
        fun _ _ held => held
    · rw [if_neg more]
      exact .pure fun _ same => same ▸ planned
  · refine .any_world_bind fun _ => .ite (fun _ => ?_) fun _ => .pure fun _ held => held.asPlanned _
    exact (watch.finishQueue fun _ _ => trivial).weaken (fun _ held => held)
      fun _ _ held => held.asPlanned _

end

theorem step (regular : engine.Regular free) (depth : Nat) (clocked : plan.Clocked ref origin)
    (running : plan.phase = .running) :
    Secures (engine.AsPlanned ref origin plan) (engine.step (engine.fire depth) ref)
      fun _ => engine.AsPlanned ref origin plan.revolved := by
  obtain ⟨unhindered, _, keyed⟩ := clocked
  have watch := Astray.vigil engine ref origin
  have astray : Secures (engine.Astray ref origin) (engine.step (engine.fire depth) ref)
      fun _ => engine.AsPlanned ref origin plan.revolved :=
    (watch.step regular (Astray.fires regular depth) fun _ => Astray.lax).weaken (fun _ held => held)
      fun _ _ held => held.asPlanned _
  have runs : plan.isStopped = false := by rw [Queue.isStopped, running]; rfl
  refine secures (fun world planned settled => ?_) astray
  obtain ⟨tended, _⟩ := planned.met settled
  have goes : (world.queue ref).phase = .running := by rw [tended.same]; exact running
  have unblocked := (tended.unhindered unhindered).isBlocked world.now
  have waiting : (world.queue ref).entries = plan.entries := by rw [tended.same]
  cases entries : plan.entries with
  | nil =>
      refine .bind (takeStep_ends goes unblocked (waiting.trans entries)) fun step =>
        .each fun later reached => ?_
      obtain ⟨rfl, rfl⟩ := reached
      rw [Queue.revolved_nil runs entries]
      exact (finishQueue unhindered runs keyed).weaken (fun _ same => same ▸ planned)
        fun _ _ held => held
  | cons entry rest =>
      let taken : Queue := { plan with entries := rest }
      let executed := (taken.note (.started entry)).note (.executed entry)
      have free : taken.Unhindered := ⟨unhindered.paused, unhindered.undelayed, unhindered.unheld⟩
      have executes : Secures (engine.AsPlanned ref origin taken)
          (engine.executeTaken (engine.fire depth) ref entry)
          fun _ => engine.AsPlanned ref origin executed := executeTaken free regular depth entry
      refine .bind (takeStep_takes goes unblocked (waiting.trans entries)) fun step =>
        .each fun later reached => ?_
      obtain ⟨rfl, rfl⟩ := reached
      have takes : engine.AsPlanned ref origin taken
          (world.modifyQueue ref fun _ => { world.queue ref with entries := rest }) :=
        planned.modify planned.launched rfl fun _ => ⟨by rw [tended.same]⟩
      have finishes : Secures (engine.AsPlanned ref origin executed) _ _ :=
        finishWhenDry ⟨free.paused, free.undelayed, free.unheld⟩ runs keyed running
      refine .bind (executes.weaken (fun _ same => same ▸ takes) fun _ _ held => held) fun _ => ?_
      cases rest with
      | nil =>
          rw [Queue.revolved_last runs entries]
          exact finishes
      | cons next rest =>
          rw [Queue.revolved_cons runs entries]
          exact finishes

theorem revolve (regular : engine.Regular free) (depth budget : Nat) (clocked : plan.Clocked ref origin) :
    Secures (engine.AsPlanned ref origin plan) (engine.revolve (engine.fire depth) budget ref)
      fun _ => engine.AsPlanned ref origin plan.revolved := by
  have astray : Secures (engine.Astray ref origin) (engine.revolve (engine.fire depth) budget ref)
      fun _ => engine.AsPlanned ref origin plan.revolved :=
    (Astray.revolve regular depth budget).weaken (fun _ held => held) fun _ _ held => held.asPlanned _
  refine secures (fun world planned settled => .queue_bind ?_) astray
  have same := (planned.met settled).1.same
  have phase : (world.queue ref).phase = plan.phase := by rw [same]
  have kind : (world.queue ref).kind = plan.kind := by rw [same]
  have begins : ∀ later, later = world → engine.AsPlanned ref origin plan later :=
    fun _ same => same ▸ planned
  rw [phase, kind, clocked.timed]
  refine .ite (fun rests => .pure fun _ same => ?_) fun runs => ?_
  · have stopped : plan.isStopped = true := by
      have launched : (world.queue ref).phase ≠ .constructing := planned.launched
      rw [phase] at launched
      cases found : plan.phase with
      | constructing => exact absurd found launched
      | running => simp [found] at rests
      | stopped => simp [Queue.isStopped, found]
    rw [Queue.revolved_of_isStopped stopped]
    exact begins _ same
  · refine .ite (fun instant => absurd instant Bool.false_ne_true) fun _ => ?_
    exact (step regular depth clocked (by simpa using runs)).weaken begins fun _ _ held => held

end AsPlanned

end Engine

end TagScript
