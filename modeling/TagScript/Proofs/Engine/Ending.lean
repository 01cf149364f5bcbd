import Mathlib.SetTheory.Ordinal.Rank
import TagScript.Proofs.Engine.HostCalls
import TagScript.Proofs.Engine.Without

/-! Entries that come to an end. An entry may put others in its own place: the passes of a loop, or the
entries of a script. Where that cannot go on for ever, every entry has a rank, and what it puts in its
place ranks below it. -/

namespace TagScript

variable {η μ : Type}

structure Entry.Like (entry other : Entry) : Prop where
  command : other.command = entry.command
  arguments : other.arguments = entry.arguments

namespace Engine

def Repeats (engine : Engine η) (entry : Entry) : Prop :=
  engine.commands.find? entry.command = some Command.repeatBlock

def Injects (engine : Engine η) (entry : Entry) : Prop :=
  engine.commands.find? entry.command = some Command.inject

/-- An entry may put another in its place, whatever its words come to and whichever script of the
library it names. -/
inductive Begets (engine : Engine η) (library : Script → Prop) (entry child : Entry) : Prop
  | counter {arguments : List String} (repeats : engine.Repeats entry)
      (like : (Entry.ofCommand "define" arguments).Like child)
  | pass {filled : List String} {blocks : List Block} {block : Block} {item : Entry}
      (repeats : engine.Repeats entry) (fills : FilledFrom 0 entry.arguments filled)
      (built : blocksOfFilled filled = .ok blocks) (known : block ∈ blocks)
      (member : item ∈ block.entries) (like : item.Like child)
  | inject {source item : Entry} {script : Script} (injects : engine.Injects entry)
      (command : source.command = entry.command)
      (fills : FilledFrom 0 entry.arguments source.arguments) (granted : library script)
      (named : Text.lower script.name = Text.lower (engine.host.injectedName source))
      (member : item ∈ script.entries) (like : item.Like child)

/-- The entry fires no script, and no more do the entries that it may put in its place, those that they
may put in theirs, and so on, which comes to an end. -/
inductive Ends (engine : Engine η) (library : Script → Prop) : Entry → Prop
  | intro {entry : Entry} (runs : engine.commands.find? entry.command ≠ some Command.run)
      (inside : ∀ child, engine.Begets library entry child → Ends engine library child) :
      Ends engine library entry

/-- Every entry of a script in the library comes to an end. -/
def Terminating (engine : Engine η) (library : Script → Prop) : Prop :=
  ∀ script, library script → ∀ entry ∈ script.entries, engine.Ends library entry

open Classical in
noncomputable def rank (engine : Engine η) (library : Script → Prop) (entry : Entry) : Ordinal.{0} :=
  if ends : Acc (fun child parent => engine.Begets library parent child) entry then ends.rank else 0

variable {engine : Engine η} {library : Script → Prop} {entry other child : Entry}

theorem Begets.like (begets : engine.Begets library other child) (like : entry.Like other) :
    engine.Begets library entry child := by
  obtain ⟨command, arguments⟩ := like
  cases begets with
  | counter repeats same => exact .counter (by rwa [Repeats, ← command]) same
  | pass repeats fills built known member same =>
      exact .pass (by rwa [Repeats, ← command]) (arguments ▸ fills) built known member same
  | inject injects sameCommand fills granted named member same =>
      exact .inject (by rwa [Injects, ← command]) (sameCommand.trans command) (arguments ▸ fills)
        granted named member same

theorem Ends.like (ends : engine.Ends library entry) (like : entry.Like other) :
    engine.Ends library other := by
  obtain ⟨runs, inside⟩ := ends
  exact .intro (like.command ▸ runs) fun child begets => inside child (begets.like like)

theorem Ends.acc (ends : engine.Ends library entry) :
    Acc (fun child parent => engine.Begets library parent child) entry := by
  induction ends with
  | intro _ _ ih => exact .intro _ fun child begets => ih child begets

theorem rank_lt (ends : engine.Ends library entry) (begets : engine.Begets library entry child) :
    engine.rank library child < engine.rank library entry := by
  have above := ends.acc
  have below := above.inv begets
  rw [rank, rank, dif_pos above, dif_pos below]
  exact Acc.rank_lt_of_rel above begets

def descent (engine : Engine η) (library : Script → Prop) : Terms where
  script := library
  splice := fun entry entries => ∀ item ∈ entries, engine.Ends library item ∧
    engine.rank library item < engine.rank library entry
  sharing := false

/-- Everything that a script could run in this world comes to an end. -/
structure Tame (engine : Engine η) (library : Script → Prop) (world : World η) : Prop where
  live : world.LiveMade
  scripts : ∀ named ∈ world.scripts, library named.2 ∧ named.1 = Text.lower named.2.name
  waiting : ∀ ref, ∀ entry ∈ (world.queue ref).entries, engine.Ends library entry

namespace Tame

variable {world later : World η} {running : List Running}

theorem start (engine : Engine η) (library : Script → Prop) (host : η) :
    engine.Tame library (engine.start host).world where
  live := fun _ member => absurd member List.not_mem_nil
  scripts := fun _ member => absurd member List.not_mem_nil
  waiting := fun _ _ member => absurd member List.not_mem_nil

theorem changed (tame : engine.Tame library world) (ref : QueueRef) {change : Queue → Queue}
    (waiting : ∀ entry ∈ (change (world.queue ref)).entries, engine.Ends library entry) :
    engine.Tame library (world.modifyQueue ref change) := by
  refine ⟨fun named member => by simpa using tame.live named member, tame.scripts, ?_⟩
  intro other entry member
  rcases world.queue_modifyQueue_cases ref other change with ⟨rfl, _, changed⟩ | kept
  · rw [changed] at member
    exact waiting entry member
  · rw [kept] at member
    exact tame.waiting other entry member

theorem strode (tame : engine.Tame library world)
    (stride : Stride (engine.descent library) running world later) : engine.Tame library later := by
  have waits := tame.waiting
  have live := (Passage.single stride).liveMade tame.live
  cases stride with
  | aside aside =>
      refine ⟨live, ?_, ?_⟩
      · rw [aside.scripts]
        exact tame.scripts
      · intro ref
        rw [World.queue, aside.queues]
        exact waits ref
  | adjust _ _ ref change similar =>
      exact tame.changed ref (by rw [(similar _).entries]; exact waits ref)
  | make _ _ id kind =>
      refine ⟨live, tame.scripts, fun ref entry member => ?_⟩
      rcases world.queue_makeQueue_cases id kind ref with ⟨_, made⟩ | kept
      · rw [made] at member
        exact absurd member List.not_mem_nil
      · rw [kept] at member
        exact waits ref entry member
  | clear _ _ ref | close _ _ ref => exact tame.changed ref fun _ member => absurd member List.not_mem_nil
  | launch _ _ ref | dry _ _ ref => exact tame.changed ref (waits ref)
  | splice _ _ ref allowed =>
      refine tame.changed ref fun entry member => ?_
      rcases List.mem_append.1 member with new | old
      · exact (allowed entry (by simpa using new)).1
      · exact waits ref entry old
  | record _ _ ref entry value =>
      obtain ⟨events, same⟩ := world.record_eq ref (entry.fire.getD (world.queue ref).fire) value
      rw [same]
      exact ⟨tame.live, tame.scripts, waits⟩

theorem takeUp (tame : engine.Tame library world) {ref : QueueRef} {entry : Entry} {rest : Queue}
    (taken : (world.queue ref).nextStep world.now = (.execute entry, rest)) :
    engine.Tame library (world.takeUp ref entry rest) := by
  obtain ⟨_, entries, split, rfl⟩ := Queue.nextStep_execute taken
  rw [World.takeUp, World.modifyQueue_modifyQueue]
  refine tame.changed ref fun item member => tame.waiting ref item ?_
  rw [split]
  exact List.mem_cons_of_mem entry member

theorem ends (tame : engine.Tame library world) {ref : QueueRef} {entry : Entry} {rest : Queue}
    (taken : (world.queue ref).nextStep world.now = (.execute entry, rest)) :
    engine.Ends library entry := by
  obtain ⟨_, entries, split, _⟩ := Queue.nextStep_execute taken
  exact tame.waiting ref entry (by simp [split])

variable (terminating : engine.Terminating library)

include terminating

theorem enqueue (tame : engine.Tame library world) (ref : QueueRef) {script : Script}
    (granted : library script) : engine.Tame library (world.enqueue ref script) := by
  have marked : engine.Tame library (world.freshFire.2.markFired ref ⟨world.fires⟩) :=
    ⟨tame.live, tame.scripts, tame.waiting⟩
  refine marked.changed ref fun entry member => ?_
  rcases List.mem_append.1 member with old | new
  · exact tame.waiting ref entry old
  · obtain ⟨source, known, rfl⟩ := List.mem_map.1 new
    exact (terminating script granted source known).like ⟨rfl, rfl⟩

theorem passed (tame : engine.Tame library world)
    (passage : Passage (engine.descent library) running world later) :
    engine.Tame library later := by
  refine passage.keeps (fun stride tame => strode tame stride) (fun taken tame => takeUp tame taken)
    ?_ ?_ (fun ref granted tame => enqueue terminating tame ref granted) ?_ tame
  · exact fun ref entry tame => tame.changed ref (tame.waiting ref)
  · exact fun _ tame => ⟨tame.live, tame.scripts, tame.waiting⟩
  · exact fun _ tame => ⟨tame.live, tame.scripts, tame.waiting⟩

omit terminating in
theorem register (tame : engine.Tame library world) {script : Script} (granted : library script) :
    engine.Tame library (world.registerScript script) := by
  refine ⟨tame.live, fun named member => ?_, tame.waiting⟩
  rcases Table.mem_set member with rfl | old
  · exact ⟨granted, rfl⟩
  · exact tame.scripts named old

omit terminating in
theorem script (tame : engine.Tame library world) {name : String} {script : Script}
    (found : world.script? name = some script) :
    library script ∧ Text.lower script.name = Text.lower name := by
  obtain ⟨before, after, split, _⟩ := List.lookup_eq_some_iff.1 found
  obtain ⟨granted, key⟩ := tame.scripts (Text.lower name, script) (by rw [split]; simp)
  exact ⟨granted, key.symm⟩

end Tame

/-! Entries come to an end with or without some of the tags. -/

section

variable {engine : Engine η} {library : Script → Prop} (hidden : Tag.Lookup → Bool)

theorem Regular.withoutTags {free : Bool} (regular : engine.Regular free) :
    (engine.withoutTags hidden).Regular free where
  commands := regular.commands
  resolvers := by
    intro resolver known lookup
    obtain ⟨whole, member, rfl⟩ := List.mem_map.1 known
    unfold Tag.Resolver.except
    dsimp only
    split
    · exact .failure
    · exact regular.resolvers whole member lookup
  attributes := regular.attributes

theorem Begets.of_withoutTags {entry child : Entry}
    (begets : (engine.withoutTags hidden).Begets library entry child) :
    engine.Begets library entry child := by
  cases begets with
  | counter repeats like => exact .counter repeats like
  | pass repeats fills built known member like => exact .pass repeats fills built known member like
  | inject injects command fills granted named member like =>
      exact .inject injects command fills granted named member like

theorem Ends.withoutTags {entry : Entry} (ends : engine.Ends library entry) :
    (engine.withoutTags hidden).Ends library entry := by
  induction ends with
  | intro runs _ ih => exact .intro runs fun child begets => ih child (begets.of_withoutTags hidden)

theorem Terminating.withoutTags (terminating : engine.Terminating library) :
    (engine.withoutTags hidden).Terminating library :=
  fun script granted entry member => (terminating script granted entry member).withoutTags hidden

end

end Engine

def Charter.tame {engine : Engine η} {library : Script → Prop}
    (terminating : engine.Terminating library) (regime : Tag.Regime μ) (calls : Nat) : Charter η μ where
  regime
  terms := engine.descent library
  fit := fun world => engine.Tame library world ∧ Vocabulary.callLimit < world.calls + calls
  live := fun fit => fit.1.live
  script := fun fit found => (fit.1.script found).1
  passes := fun passage fit => ⟨fit.1.passed terminating passage, by rw [passage.calls_eq]; exact fit.2⟩
  takes := fun fit taken => ⟨fit.1.takeUp taken, fit.2⟩
  calls := fun fit => ⟨⟨fit.1.live, fit.1.scripts, fit.1.waiting⟩, by have := fit.2; dsimp only; omega⟩
  fires := fun ref fit granted => ⟨fit.1.enqueue terminating ref granted, fit.2⟩
  reschedules := fun _ fit => ⟨⟨fit.1.live, fit.1.scripts, fit.1.waiting⟩, fit.2⟩
  registers := fun fit granted => ⟨fit.1.register granted, fit.2⟩

end TagScript
