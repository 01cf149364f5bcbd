import Mathlib.Logic.Relation
import TagScript.Proofs.Engine.Termination
import TagScript.Proofs.Engine.Unfolding

/-! Entries that keep to their own queue: they say something, keep a value, or put others in their own
place. Where nothing else waits, carrying out such an entry leaves it so. -/

namespace TagScript

variable {η α : Type}

open RunM (Secures)

namespace Engine

def Structured (engine : Engine η) (library : Script → Prop) (entry : Entry) : Prop :=
  ∀ item, Relation.ReflTransGen (engine.Begets library) entry item →
    ∀ command ∈ engine.commands.find? item.command, command ∈ Command.structural

/-- All scripts are of the library, and nothing waits but such entries. -/
structure Furnished (engine : Engine η) (library : Script → Prop) (world : World η) : Prop where
  scripts : ∀ named ∈ world.scripts, library named.2 ∧ named.1 = Text.lower named.2.name
  waiting : ∀ ref, ∀ entry ∈ (world.queue ref).entries, engine.Structured library entry

/-- Every entry of a script in the library is such an entry. -/
def Structuring (engine : Engine η) (library : Script → Prop) : Prop :=
  ∀ script, library script → ∀ entry ∈ script.entries, engine.Structured library entry

variable {engine : Engine η} {library : Script → Prop} {entry other : Entry}

namespace Structured

theorem known (structured : engine.Structured library entry) :
    ∀ command ∈ engine.commands.find? entry.command, command ∈ Command.structural :=
  structured entry .refl

theorem inside (structured : engine.Structured library entry)
    (begets : engine.Begets library entry other) : engine.Structured library other :=
  fun item reached => structured item (.head begets reached)

theorem intro
    (known : ∀ command ∈ engine.commands.find? entry.command, command ∈ Command.structural)
    (inside : ∀ child, engine.Begets library entry child → engine.Structured library child) :
    engine.Structured library entry := by
  intro item reached
  cases reached.cases_head with
  | inl same => exact same ▸ known
  | inr further =>
      obtain ⟨child, begets, reached⟩ := further
      exact inside child begets item reached

theorem like (structured : engine.Structured library entry) (like : entry.Like other) :
    engine.Structured library other :=
  intro (like.command ▸ structured.known) fun _ begets => structured.inside (begets.like like)

end Structured

namespace Furnished

variable {world later : World η}

theorem of_same (furnished : engine.Furnished library world)
    (scripts : later.scripts = world.scripts) (queues : later.queues = world.queues) :
    engine.Furnished library later where
  scripts := scripts ▸ furnished.scripts
  waiting := fun ref => by
    rw [World.queue, queues]
    exact furnished.waiting ref

theorem changed (furnished : engine.Furnished library world) (ref : QueueRef)
    {change : Queue → Queue}
    (waiting : ∀ entry ∈ (change (world.queue ref)).entries, engine.Structured library entry) :
    engine.Furnished library (world.modifyQueue ref change) where
  scripts := furnished.scripts
  waiting := fun target entry member => by
    rcases world.queue_modifyQueue_cases ref target change with ⟨rfl, _, same⟩ | same
    · rw [same] at member
      exact waiting entry member
    · rw [same] at member
      exact furnished.waiting target entry member

theorem script (furnished : engine.Furnished library world) {name : String} {script : Script}
    (found : world.script? name = some script) :
    library script ∧ Text.lower script.name = Text.lower name := by
  obtain ⟨before, after, split, _⟩ := List.lookup_eq_some_iff.1 found
  obtain ⟨granted, key⟩ := furnished.scripts (Text.lower name, script) (by rw [split]; simp)
  exact ⟨granted, key.symm⟩

theorem steadfast : Steadfast (engine.Furnished library) where
  same := of_same
  changed := fun ref _ _ entries furnished =>
    furnished.changed ref (by rw [entries]; exact furnished.waiting ref)
  closed := fun ref furnished => furnished.changed ref fun _ member => absurd member List.not_mem_nil

theorem queueOrCreate (furnished : engine.Furnished library world) (id : String) (kind : QueueKind) :
    engine.Furnished library (world.queueOrCreate id kind).2 := by
  unfold World.queueOrCreate
  split
  · exact furnished
  · refine ⟨furnished.scripts, fun ref entry member => ?_⟩
    rcases world.queue_makeQueue_cases id kind ref with ⟨_, made⟩ | same
    · exact absurd ((congrArg Queue.entries made) ▸ member) List.not_mem_nil
    · exact furnished.waiting ref entry ((congrArg Queue.entries same) ▸ member)

end Furnished

/-! Acts that leave it so. -/

abbrev Furnishes (engine : Engine η) (library : Script → Prop) (act : RunM η α) :
    Prop :=
  Secures (engine.Furnished library) act fun _ => engine.Furnished library

theorem modifyQueue_furnishes (ref : QueueRef) {change : Queue → Queue}
    (fewer : ∀ queue : Queue, (change queue).entries ⊆ queue.entries) :
    engine.Furnishes library (RunM.modifyQueue ref change) :=
  .update fun _ furnished => furnished.changed ref fun entry member =>
    furnished.waiting ref entry (fewer _ member)

theorem log_furnishes (level : LogLevel) (text : String) :
    engine.Furnishes library (RunM.log level text) :=
  .update fun _ furnished => furnished.of_same rfl rfl

/-! Executing an entry. -/

def Fills (entry : Entry) (ready : FilledEntry) : Prop :=
  (∃ arguments, ready.entry = { entry with arguments }) ∧ FilledFrom 0 entry.arguments ready.filled

section

variable {ready : FilledEntry} {scripts : Table Script}

theorem unfolding_begets (structural : ∀ command ∈ engine.commands.find? entry.command,
      command ∈ Command.structural) (fills : Fills entry ready)
    (granted : ∀ named ∈ scripts, library named.2 ∧ named.1 = Text.lower named.2.name) :
    ∀ item ∈ engine.unfolding scripts ready, engine.Begets library entry item := by
  obtain ⟨⟨arguments, same⟩, filled⟩ := fills
  intro item member
  unfold unfolding at member
  split at member
  · exact absurd member List.not_mem_nil
  · rename_i command found
    rw [same] at found member
    have known := structural command found
    simp only [Command.structural, List.mem_cons, List.not_mem_nil, or_false] at known
    rcases known with rfl | rfl | rfl | rfl | rfl
    · exact absurd member List.not_mem_nil
    · exact absurd member List.not_mem_nil
    · exact absurd member List.not_mem_nil
    · let ready : Entry := { entry with arguments := ready.filled }
      change item ∈ engine.host.injectedEntries scripts ready at member
      unfold Host.injectedEntries at member
      split at member
      · exact absurd member List.not_mem_nil
      · rename_i script known
        obtain ⟨source, listed, rfl⟩ := List.mem_map.1 member
        obtain ⟨inLibrary, key⟩ := granted _ (Table.mem_of_get? known)
        exact @Begets.inject _ _ _ _ _ ready source script found rfl filled inLibrary key.symm listed
          ⟨rfl, rfl⟩
    · rcases Host.mem_loopEntries member with ⟨name, number, rfl⟩ |
        ⟨blocks, built, block, isBlock, source, inBlock, rfl⟩
      · exact @Begets.counter _ _ _ _ _ [name, toString number] found ⟨rfl, rfl⟩
      · exact .pass found filled built isBlock inBlock ⟨rfl, rfl⟩

end

theorem Fills.known {ready : FilledEntry} (fills : Fills entry ready)
    (structured : engine.Structured library entry) :
    ∀ command ∈ engine.commands.find? ready.entry.command, command ∈ Command.structural := by
  obtain ⟨⟨arguments, same⟩, _⟩ := fills
  rw [same]
  exact structured.known

theorem dispatch_furnishes {fire : Firing η} {ref : QueueRef} {ready : FilledEntry}
    (structured : engine.Structured library entry) (fills : Fills entry ready) :
    engine.Furnishes library (engine.dispatch fire ref ready (blocksOfFilled ready.filled)) := by
  refine .each fun world furnished => ?_
  have begotten := unfolding_begets structured.known fills furnished.scripts
  have splices (later : World η)
      (held : engine.Furnished library later ∧ later.scripts = world.scripts) : engine.Furnished library
        (later.modifyQueue ref (Queue.injectEntries 0 (engine.unfolding world.scripts ready))) := by
    refine held.1.changed ref fun item member => ?_
    rcases List.mem_append.1 member with new | old
    · exact structured.inside (begotten item (by simpa using new))
    · exact held.1.waiting ref item old
  have dispatched := @dispatch_unfolds _ _ _ _ fire _ _ _ (Furnished.steadfast.knowing world.scripts)
    Furnished.steadfast (fun _ held => held.2) (fun _ _ held => held.1) splices (fills.known structured)
  refine dispatched.weaken ?_ fun outcome later held => ?_
  · rintro _ rfl
    exact ⟨furnished, rfl⟩
  split at held
  · exact held
  · exact held.1

theorem finishQueue_furnishes (ref : QueueRef) : engine.Furnishes library (engine.finishQueue ref) :=
  .bind (modifyQueue_furnishes ref fun _ => List.Subset.refl _) fun _ => Furnished.steadfast.stop _ _

theorem receive_furnishes (structuring : engine.Structuring library) {script : Script}
    (granted : library script) (options : FireOptions) (ref : QueueRef) (created : Bool)
    (number : FireId) : engine.Furnishes library (RunM.modifyQueue ref fun queue =>
      (equip options (if created then { queue with fire := number } else queue)).addEntries
        (script.instantiate (some number))) := by
  refine .update fun world furnished => furnished.changed ref fun item member => ?_
  obtain ⟨definitions, context, offMain, same⟩ := equip_eq options
    (if created then { world.queue ref with fire := number } else world.queue ref)
  rcases List.mem_append.1 member with old | new
  · refine furnished.waiting ref item ?_
    rw [same] at old
    cases created <;> exact old
  · obtain ⟨source, listed, rfl⟩ := List.mem_map.1 new
    exact (structuring script granted source listed).like ⟨rfl, rfl⟩

end Engine

end TagScript
