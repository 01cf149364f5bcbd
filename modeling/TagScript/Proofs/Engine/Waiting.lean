import TagScript.Proofs.Engine.Reachable
import TagScript.Proofs.Engine.Standstill
import TagScript.Proofs.Queue.Registry

/-! A queue that was told to wait: until its time is over it executes nothing, unless its delay is set
again. -/

namespace TagScript

variable {η α β : Type}

open RunM (Secures)

def Since (base : List Note) (holds : List Note → Prop) (notes : List Note) : Prop :=
  ∀ above, notes = above ++ base → holds above

theorem Silent.split {ref : QueueRef} {entry : Entry} {more notes above earlier : List Note}
    (silent : Silent ref more) (same : more ++ notes = above ++ .filled ref entry :: earlier) :
    ∃ rest, above = more ++ rest ∧ notes = rest ++ .filled ref entry :: earlier := by
  rcases List.append_eq_append_iff.1 same with ⟨rest, rfl, behind⟩ | ⟨rest, rfl, behind⟩
  · exact ⟨rest, rfl, behind⟩
  · cases rest with
    | nil => exact ⟨[], by simp, by simpa using behind.symm⟩
    | cons note rest =>
        obtain ⟨rfl, _⟩ := List.cons.inj behind
        exact absurd (by simp) (silent entry)

theorem Since.silent {ref : QueueRef} {entry : Entry} {more notes earlier : List Note}
    {holds : List Note → Prop} (silent : Silent ref more)
    (goesOn : ∀ above, holds above → holds (more ++ above))
    (since : Since (.filled ref entry :: earlier) holds notes) :
    Since (.filled ref entry :: earlier) holds (more ++ notes) := by
  intro above same
  obtain ⟨rest, rfl, split⟩ := silent.split same
  exact goesOn rest (since rest split)

namespace Engine

structure Waits (engine : Engine η) (entry : Entry) (duration : Duration) : Prop where
  found : engine.commands.find? entry.command = some .wait
  built : ∃ blocks, blocksOfFilled entry.arguments = .ok blocks
  read : ((engine.host.argumentsOf (.wait : Command η) entry).positional? 0).1.bind Duration.parse? =
    some duration

def Redelays (engine : Engine η) (ref : QueueRef) (origin : World η) (id : String)
    (notes : List Note) : Prop :=
  ∃ actor entry bound target, .filled actor entry ∈ notes ∧ engine.Binds .queue entry bound ∧
    bound.SetsDelay ∧ bound.object? "target" = some target ∧
    (origin.liveQueue? target = some ref ∨
      origin.queues.size ≤ ref.index ∧ Text.lower target = Text.lower id)

/-- Whenever an entry of the queue was filled, its delay had been set before. -/
def Excused (engine : Engine η) (ref : QueueRef) (origin : World η) (id : String)
    (notes : List Note) : Prop :=
  ∀ later entry earlier, notes = later ++ .filled ref entry :: earlier →
    engine.Redelays ref origin id earlier

variable {engine : Engine η} {ref : QueueRef} {origin : World η} {id : String}
  {notes more : List Note}

theorem Redelays.append (redelays : engine.Redelays ref origin id notes) (more : List Note) :
    engine.Redelays ref origin id (more ++ notes) := by
  obtain ⟨actor, entry, bound, target, member, rest⟩ := redelays
  exact ⟨actor, entry, bound, target, List.mem_append_right _ member, rest⟩

theorem Excused.nil : engine.Excused ref origin id [] := by simp [Excused]

theorem Excused.append (silent : Silent ref more) (excused : engine.Excused ref origin id notes) :
    engine.Excused ref origin id (more ++ notes) := by
  intro later entry earlier same
  obtain ⟨rest, _, split⟩ := silent.split same
  exact excused rest entry earlier split

theorem Excused.filled (excused : engine.Excused ref origin id notes)
    (redelays : engine.Redelays ref origin id notes) (entry : Entry) :
    engine.Excused ref origin id (.filled ref entry :: notes) := by
  intro later other earlier same
  cases later with
  | nil =>
      obtain ⟨_, rfl⟩ := List.cons.inj same
      exact redelays
  | cons note later => exact excused later other earlier (List.cons.inj same).2

/-- What is watched of a queue that waits: the time, the ids by which it is known, and what is on record
since an entry of it was filled. -/
structure Watched (ref : QueueRef) (origin : World η) (base : List Note)
    (told : String → Option Duration → List Note → Prop) (opening : Prop) (now : Duration)
    (world : World η) : Prop where
  clock : world.now = now
  first : opening ∨ base <:+ world.notes
  known : ∀ key, world.live.get? key = some ref → origin.live.get? key = some ref ∨
    ref.index < world.queues.size ∧ origin.queues.size ≤ ref.index ∧
      key = Text.lower (world.queue ref).id
  unmade : world.queues.size ≤ ref.index → origin.queues.size ≤ ref.index ∧ ¬ base <:+ world.notes
  told : Since base (told (world.queue ref).id (world.queue ref).delayUntil) world.notes

variable {base earlier : List Note} {entry : Entry} {world other : World η} {opening : Prop} {now : Duration}
  {told : String → Option Duration → List Note → Prop}

namespace Watched

theorem apart
    (goesOn : ∀ {id delay more above}, Silent ref more → told id delay above → told id delay (more ++ above))
    (watched : Watched ref origin (.filled ref entry :: earlier) told opening now world)
    (apart : world.Apart ref other) :
    Watched ref origin (.filled ref entry :: earlier) told opening now other := by
  obtain ⟨more, silent, notes⟩ := apart.notes
  constructor
  · exact apart.now.trans watched.clock
  · exact watched.first.imp_right fun seen => notes ▸ seen.trans (List.suffix_append _ _)
  · intro key found
    rw [apart.made, apart.queue]
    exact watched.known key ((apart.live key).1 found)
  · intro missing
    have missing : world.queues.size ≤ ref.index :=
      Nat.le_of_not_lt fun made => absurd (apart.made.2 made) (by omega)
    refine ⟨(watched.unmade missing).1, fun ⟨above, same⟩ => (watched.unmade missing).2 ?_⟩
    obtain ⟨rest, _, split⟩ := silent.split (notes ▸ same.symm)
    exact ⟨rest, split.symm⟩
  · rw [apart.queue, notes]
    exact watched.told.silent silent fun _ => goesOn silent

theorem retell {told' : String → Option Duration → List Note → Prop}
    (watched : Watched ref origin base told opening now world)
    (tells : Since base (told' (world.queue ref).id (world.queue ref).delayUntil) world.notes) :
    Watched ref origin base told' opening now world :=
  ⟨watched.clock, watched.first, watched.known, watched.unmade, tells⟩

theorem changed {told' : String → Option Duration → List Note → Prop} {change : Queue → Queue}
    (watched : Watched ref origin base told opening now world) (made : ref.index < world.queues.size)
    (id : (change (world.queue ref)).id = (world.queue ref).id)
    (tells : Since base (told' (world.queue ref).id (change (world.queue ref)).delayUntil) world.notes) :
    Watched ref origin base told' opening now (world.modifyQueue ref change) := by
  have same := World.queue_modifyQueue_self made change
  refine ⟨watched.clock, watched.first, fun key found => ?_, fun missing => ?_, ?_⟩
  · rw [same, id, World.size_modifyQueue]
    exact watched.known key found
  · rw [World.size_modifyQueue] at missing
    omega
  · rw [same, id]
    exact tells

theorem modify {change : Queue → Queue} (watched : Watched ref origin base told opening now world)
    (id : (change (world.queue ref)).id = (world.queue ref).id)
    (tells : Since base (told (world.queue ref).id (change (world.queue ref)).delayUntil) world.notes) :
    Watched ref origin base told opening now (world.modifyQueue ref change) := by
  rcases Nat.lt_or_ge ref.index world.queues.size with made | missing
  · exact watched.changed made id tells
  · rwa [World.modifyQueue_of_size_le missing]

theorem tickFirst (watched : Watched ref origin base told opening now world) (call : HostCall) :
    Watched ref origin base told opening (call.tickFirst world).now (call.tickFirst world) := by
  cases call <;> exact ⟨rfl, watched.first, watched.known, watched.unmade, watched.told⟩

section

variable (watched : Watched ref origin base told opening now world) (new : world.queues.size = ref.index)

include watched new

theorem known_unmade {key : String} (found : world.live.get? key = some ref) :
    origin.live.get? key = some ref := by
  rcases watched.known key found with before | ⟨made, _⟩
  · exact before
  · omega

theorem make (id : String) (kind : QueueKind) :
    Watched ref origin base told opening now (world.makeQueue id kind).2 := by
  refine ⟨watched.clock, watched.first, fun key found => .inl (watched.known_unmade new found),
    fun missing => ?_, ?_⟩
  · rw [World.size_makeQueue] at missing
    omega
  · exact fun above same => absurd ⟨above, same.symm⟩ (watched.unmade (Nat.le_of_eq new)).2

theorem create (id : String) (kind : QueueKind) :
    Watched ref origin base told opening now (world.queueOrCreate id kind).2 := by
  rcases world.queueOrCreate_cases id kind with kept | ⟨_, made⟩
  · rwa [kept]
  · have grown := watched.make new id kind
    have same : (⟨world.queues.size⟩ : QueueRef) = ref := congrArg QueueRef.mk new
    rw [made]
    refine ⟨grown.clock, grown.first, fun key found => ?_, grown.unmade, grown.told⟩
    by_cases taken : key = Text.lower id
    · refine .inr ⟨?_, (watched.unmade (Nat.le_of_eq new)).1, ?_⟩
      · change ref.index < (world.makeQueue id kind).2.queues.size
        rw [World.size_makeQueue]
        omega
      · change key = Text.lower ((world.makeQueue id kind).2.queue ref).id
        rw [← same, World.queue_makeQueue_new]
        exact taken
    · exact .inl (watched.known_unmade new (by rwa [Table.get?_set_of_ne taken] at found))

end

theorem vigil (engine : Engine η) (ref : QueueRef) (origin : World η) (opening : Prop) (now : Duration)
    (goesOn : ∀ {id delay more above}, Silent ref more → told id delay above →
      told id delay (more ++ above))
    (resets : ∀ {id delay above} other, told id delay above → engine.Redelays ref origin id above →
      told id other above) :
    Vigil engine ref (Watched ref origin (.filled ref entry :: earlier) told opening now) (fun _ => True)
      fun world => Since (.filled ref entry :: earlier)
        (engine.Redelays ref origin (world.queue ref).id) world.notes where
  goesOn := fun _ granted => granted
  alsoGoesOn := by
    intro world other apart delaying
    obtain ⟨more, silent, notes⟩ := apart.notes
    rw [notes, apart.queue]
    exact delaying.silent silent fun _ redelays => redelays.append more
  apart := fun apart watched => watched.apart goesOn apart
  release := fun watched => watched.modify rfl watched.told
  deal := by
    intro world change _ onward watched
    refine watched.modify (onward _).id ?_
    rw [(onward _).delayUntil]
    exact watched.told
  delay := fun _ delaying watched => watched.modify rfl fun above same =>
    resets _ (watched.told above same) (delaying above same)
  unlist := by
    intro world key _ watched
    refine ⟨watched.clock, watched.first, fun other found => watched.known other ?_, watched.unmade,
      watched.told⟩
    by_cases same : other = key
    · exact absurd found (by simp [same, Table.get?_erase])
    · exact (Table.get?_erase_of_ne same _).symm.trans found
  create := fun id kind new watched => ⟨watched.create new id kind, fun _ => trivial⟩
  noted := by
    intro world actor entry different watched
    refine ⟨fun _ => trivial, ?_⟩
    rintro ⟨bound, binds, ⟨target, asked, found⟩, sets⟩ above same
    have here : Silent ref [.filled actor entry] := by simp [Silent, Ne.symm different]
    obtain ⟨rest, rfl, _⟩ := here.split same
    refine ⟨actor, entry, bound, target, by simp, binds, sets, asked, ?_⟩
    rcases watched.known _ found with known | ⟨_, unmade, key⟩
    · exact .inl known
    · exact .inr ⟨unmade, key⟩

end Watched

end Engine

namespace Vigil

variable {engine : Engine η} {ref : QueueRef} {calm : World η → Prop} {licensed : List Note → Prop}
  {delaying : World η → Prop} (vigil : Vigil engine ref calm licensed delaying)

include vigil

theorem launched :
    Vigil engine ref (fun world => calm world ∧ (world.queue ref).phase ≠ .constructing) licensed
      delaying where
  goesOn := vigil.goesOn
  alsoGoesOn := vigil.alsoGoesOn
  apart := fun apart held => ⟨vigil.apart apart held.1, by rw [apart.queue]; exact held.2⟩
  release := by
    intro world held
    refine ⟨vigil.release held.1, ?_⟩
    rcases world.queue_modifyQueue_cases ref ref Queue.release with ⟨_, _, same⟩ | same
    all_goals rw [same]; exact held.2
  deal := by
    intro world change granted onward held
    refine ⟨vigil.deal granted onward held.1, ?_⟩
    rcases world.queue_modifyQueue_cases ref ref change with ⟨_, _, same⟩ | same
    · rw [same]
      exact (onward _).launched held.2
    · rw [same]
      exact held.2
  delay := by
    intro world duration granted held
    refine ⟨vigil.delay duration granted held.1, ?_⟩
    rcases world.queue_modifyQueue_cases ref ref (Queue.delayFor duration world.now) with
      ⟨_, _, same⟩ | same
    all_goals rw [same]; exact held.2
  unlist := fun key granted held => ⟨vigil.unlist key granted held.1, held.2⟩
  create := by
    intro world id kind new held
    have unmade : world.queue ref = default := World.queue_of_size_le (Nat.le_of_eq new)
    exact absurd (congrArg Queue.phase unmade) held.2
  noted := fun different held => vigil.noted different held.1

theorem undelayed (anyway : ∀ world, calm world → delaying world) :
    Vigil engine ref calm licensed fun _ => True where
  goesOn := vigil.goesOn
  alsoGoesOn := fun _ _ => trivial
  apart := vigil.apart
  release := vigil.release
  deal := vigil.deal
  delay := fun duration _ held => vigil.delay duration (anyway _ held) held
  unlist := vigil.unlist
  create := vigil.create
  noted := fun different held => ⟨(vigil.noted different held).asks, fun _ => trivial⟩

end Vigil

namespace Engine

variable {engine : Engine η} {ref : QueueRef} {fire : Firing η}

theorem wait_bind (invocation : Invocation) {arguments : Arguments} {duration : Duration}
    (read : (arguments.positional? 0).1.bind Duration.parse? = some duration) :
    ∃ bound rest, (Command.wait : Command η).bind invocation arguments = .ok (bound, rest) ∧
      (bound.object? "duration").bind Duration.parse? = some duration := by
  obtain ⟨raw, found, parsed⟩ := Option.bind_eq_some_iff.1 read
  refine ⟨invocation.setObject "duration" raw, (arguments.positional? 0).2, ?_, ?_⟩
  · simp [Command.wait, found, parsed]
  · simp [Invocation.object?, Invocation.setObject, Table.get?_set, parsed]

theorem Waits.minArgs {entry : Entry} {duration : Duration} (waits : engine.Waits entry duration) :
    ¬ (engine.host.argumentsOf (.wait : Command η) entry).size < 1 := by
  intro few
  have none : (engine.host.argumentsOf (.wait : Command η) entry).positional[0]? = none := by
    rw [List.getElem?_eq_none_iff]
    unfold Arguments.size at few
    omega
  have read := waits.read
  simp [Arguments.positional?, none] at read

section

variable {before after : World η → Prop} (unreported : Unreported before)
  (alsoUnreported : Unreported after) {duration : Duration}
  (delays : ∀ world, before world → after (world.modifyQueue ref (Queue.delayFor duration world.now)))

include alsoUnreported delays

theorem execute_waits {bound : Invocation} (host : Host)
    (bound_to : (bound.object? "duration").bind Duration.parse? = some duration) :
    Secures before ((Command.wait : Command η).execute ⟨host, fire, ref⟩ bound) fun _ => after := by
  unfold Command.wait
  dsimp only
  rw [bound_to]
  have sets (world : World η) (held : before world) : Secures (· = world)
      (RunM.modifyQueue ref (Queue.delayFor duration world.now)) fun _ => after :=
    .update fun _ same => same ▸ delays world held
  have named : Secures after (⟨host, fire, ref⟩ : Scene η).queueId fun _ => after :=
    .any_queue_bind fun _ => .pure fun _ held => held
  refine .each fun world held => .now_bind (.bind (sets world held) fun _ => .bind (.bind named fun _ =>
    .ite (fun _ => Host.message_secures alsoUnreported host _ _) fun _ => .pure fun _ held => held)
      fun _ => .pure fun _ held => held)

include unreported

theorem dispatch_waits {ready : FilledEntry}
    (waits : engine.Waits { ready.entry with arguments := ready.filled } duration)
    (saves : ∀ world name invocation, after world →
      after (world.modifyQueue ref (Queue.save name invocation))) :
    Secures before (engine.dispatch fire ref ready (blocksOfFilled ready.filled)) fun _ => after := by
  obtain ⟨blocks, built⟩ := waits.built
  have found : engine.commands.find? ready.entry.command = some .wait := waits.found
  have built : blocksOfFilled ready.filled = .ok blocks := built
  rw [dispatch, found, built]
  dsimp only
  let entry : Entry := { ready.entry with arguments := ready.filled }
  have offers (arguments : Arguments) := (offer_secures unreported engine entry arguments).and
    (.of_gives (engine.offer_gives entry arguments))
  refine .bind (offers _) fun arguments => .each fun world offered => ?_
  obtain ⟨held, rfl⟩ := offered
  let invocation : Invocation := { entry, queue := ready.queue, blocks }
  obtain ⟨bound, rest, isBound, read⟩ := wait_bind invocation waits.read
  have runs (name : Option String) : Secures before
      (engine.runCommand fire ref .wait invocation
        (engine.host.argumentsOf (.wait : Command η) entry) name) fun _ => after := by
    unfold runCommand
    rw [isBound]
    refine .when (RunM.emit_secures unreported _)
      (.bind (execute_waits alsoUnreported delays _ read) fun outcome => ?_)
    cases outcome with
    | error fault =>
        exact .bind (Host.error_secures alsoUnreported _ _ _) fun _ => .pure fun _ held => held
    | ok finished =>
        refine .bind (.forM_option _ fun name _ => ?_) fun _ => .pure fun _ held => held
        exact .update fun world held => saves world name _ held
  exact .ite (fun few => absurd few waits.minArgs) fun _ =>
    (Secures.when (RunM.emit_secures unreported _) (runs _)).weaken (fun _ same => same ▸ held)
      fun _ _ held => held

end

def OnTime (engine : Engine η) (ref : QueueRef) (origin : World η) (deadline : Duration) (id : String)
    (delay : Option Duration) (above : List Note) : Prop :=
  engine.Excused ref origin id above ∧ (engine.Redelays ref origin id above ∨ delay = some deadline)

def Redelayed (engine : Engine η) (ref : QueueRef) (origin : World η) (id : String)
    (_ : Option Duration) (above : List Note) : Prop :=
  engine.Excused ref origin id above ∧ engine.Redelays ref origin id above

section

variable {origin : World η} {entry : Entry} {earlier : List Note} {deadline now duration : Duration}
  {opening : Prop} {free : Bool}

def Waiting (engine : Engine η) (ref : QueueRef) (origin : World η) (base : List Note)
    (deadline : Duration) (opening : Prop) (now : Duration) : World η → Prop :=
  Watched ref origin base (engine.OnTime ref origin deadline) opening now

def Going (engine : Engine η) (ref : QueueRef) (origin : World η) (base : List Note)
    (opening : Prop) (now : Duration) (world : World η) : Prop :=
  Watched ref origin base (engine.Redelayed ref origin) opening now world ∧
    (world.queue ref).phase ≠ .constructing

theorem Waiting.vigil (engine : Engine η) (ref : QueueRef) (origin : World η) (entry : Entry)
    (earlier : List Note) (deadline : Duration) (opening : Prop) (now : Duration) :
    Vigil engine ref (engine.Waiting ref origin (.filled ref entry :: earlier) deadline opening now)
      (fun _ => True) fun world => Since (.filled ref entry :: earlier)
        (engine.Redelays ref origin (world.queue ref).id) world.notes :=
  Watched.vigil engine ref origin opening now
    (fun silent told => ⟨told.1.append silent, told.2.imp_left fun redelays => redelays.append _⟩)
    (fun _ told redelays => ⟨told.1, .inl redelays⟩)

theorem Going.vigil (engine : Engine η) (ref : QueueRef) (origin : World η) (entry : Entry)
    (earlier : List Note) (opening : Prop) (now : Duration) :
    Vigil engine ref (engine.Going ref origin (.filled ref entry :: earlier) opening now)
      (fun _ => True) fun _ => True :=
  (Watched.vigil engine ref origin opening now
    (fun silent told => ⟨told.1.append silent, told.2.append _⟩)
    (fun _ told _ => told)).launched.undelayed fun _ held above same => (held.1.told above same).2

theorem Going.waiting {base : List Note} {world : World η}
    (going : engine.Going ref origin base opening now world) (deadline : Duration) :
    engine.Waiting ref origin base deadline opening now world :=
  going.1.retell fun above same => (going.1.told above same).imp_right .inl

theorem Going.fires (regular : engine.Regular free) (budget : Nat) :
    (engine.fire budget).Heeds ref (engine.Going ref origin (.filled ref entry :: earlier) opening now)
      fun _ => True :=
  (Going.vigil engine ref origin entry earlier opening now).fire_launched regular
    (fun _ going => going.2) budget

theorem Going.filled {world : World η} {taken : Entry}
    (going : engine.Going ref origin (.filled ref entry :: earlier) opening now world) :
    (world.jot (.filled ref taken)).notes = .filled ref entry :: earlier ∨
      engine.Going ref origin (.filled ref entry :: earlier) opening now
        (world.jot (.filled ref taken)) := by
  by_cases last : (world.jot (.filled ref taken)).notes = .filled ref entry :: earlier
  · exact .inl last
  · have made := World.made_of_launched going.2
    refine .inr ⟨⟨going.1.clock, going.1.first.imp_right fun seen => seen.trans (List.suffix_cons _ _),
      going.1.known, fun missing => absurd made (Nat.not_lt.2 missing), ?_⟩, going.2⟩
    intro above same
    cases above with
    | nil => exact absurd same last
    | cons note above =>
        obtain ⟨rfl, split⟩ := List.cons.inj same
        have told := going.1.told above split
        exact ⟨told.1.filled told.2 _, told.2.append [_]⟩

theorem Going.dispatch_last {ready : FilledEntry} {world : World η}
    (going : engine.Going ref origin (.filled ref entry :: earlier) opening now world)
    (same : { ready.entry with arguments := ready.filled } = entry) (last : world.notes = earlier)
    (waits : engine.Waits entry duration) (due : opening → deadline = now.addSaturating duration) :
    Secures (· = world.jot (.filled ref entry))
      (engine.dispatch fire ref ready (blocksOfFilled ready.filled)) fun _ later =>
        engine.Waiting ref origin (.filled ref entry :: earlier) deadline opening now later ∧
          (later.queue ref).phase ≠ .constructing := by
  let untold (id : String) (_ : Option Duration) (above : List Note) :=
    engine.Excused ref origin id above
  let before (later : World η) :=
    Watched ref origin (.filled ref entry :: earlier) untold opening now later ∧
      (later.queue ref).phase ≠ .constructing
  have watch : Vigil engine ref before (fun _ => True) _ :=
    (Watched.vigil engine ref origin opening now (fun silent told => told.append silent)
      (fun _ told _ => told)).launched
  have alsoWatch := (Waiting.vigil engine ref origin entry earlier deadline opening now).launched
  have opens : opening := going.1.first.resolve_right fun seen => by
    have shorter := seen.length_le
    simp [last] at shorter
  have begins : before (world.jot (.filled ref entry)) := by
    have made := World.made_of_launched going.2
    refine ⟨⟨going.1.clock, .inl opens, going.1.known, fun missing => absurd made (Nat.not_lt.2 missing),
      ?_⟩, going.2⟩
    intro above split
    rw [World.jot, last] at split
    obtain rfl := List.self_eq_append_left.1 split
    exact Excused.nil
  refine (dispatch_waits watch.unreported alsoWatch.unreported (fun later held => ?_) (same ▸ waits)
    fun later name invocation held => ?_).weaken (fun _ here => here ▸ begins) fun _ _ held => held
  · have made := World.made_of_launched held.2
    refine ⟨held.1.changed made rfl fun above split => ⟨held.1.told above split, .inr ?_⟩, ?_⟩
    · rw [held.1.clock, due opens]
      rfl
    · rw [World.queue_modifyQueue_self made]
      exact held.2
  · exact alsoWatch.deal trivial (fun _ => ⟨rfl, id, rfl, List.suffix_refl _⟩) held

def Pending (engine : Engine η) (ref : QueueRef) (origin : World η) (base : List Note)
    (deadline : Duration) (opening : Prop) (now : Duration) (world : World η) : Prop :=
  engine.Waiting ref origin base deadline opening now world ∧ (world.queue ref).phase ≠ .constructing

section

variable (regular : engine.Regular free) (budget : Nat) (waits : engine.Waits entry duration)
  (due : opening → deadline = now.addSaturating duration)

include regular waits due

theorem Going.executeEntry (taken : Entry) :
    Secures (engine.Going ref origin (.filled ref entry :: earlier) opening now)
      (engine.executeEntry (engine.fire budget) ref taken)
      fun _ => engine.Pending ref origin (.filled ref entry :: earlier) deadline opening now := by
  have going := Going.vigil engine ref origin entry earlier opening now
  have fires : (engine.fire budget).Heeds ref
      (engine.Going ref origin (.filled ref entry :: earlier) opening now) fun _ => True :=
    Going.fires regular budget
  rw [Engine.executeEntry_eq]
  refine .bind (going.fillEntry regular fires ref taken) fun ready => .each fun _ jotted => ?_
  obtain ⟨world, held, rfl⟩ := jotted
  rcases held.filled with last | goesOn
  · obtain ⟨same, split⟩ := List.cons.inj last
    have same : { ready.entry with arguments := ready.filled } = entry := (Note.filled.inj same).2
    rw [same]
    exact Going.dispatch_last held same split waits due
  · refine (going.dispatch regular fires (fun _ _ => trivial) (fun _ _ => trivial) ready).weaken ?_
      fun _ _ held => ⟨Going.waiting held _, held.2⟩
    rintro _ rfl
    exact ⟨goesOn, fun _ => trivial, fun _ => trivial⟩

theorem Going.executeTaken (taken : Entry) :
    Secures (engine.Going ref origin (.filled ref entry :: earlier) opening now)
      (engine.executeTaken (engine.fire budget) ref taken)
      fun _ => engine.Pending ref origin (.filled ref entry :: earlier) deadline opening now := by
  have pending := (Waiting.vigil engine ref origin entry earlier deadline opening now).launched
  have going := Going.vigil engine ref origin entry earlier opening now
  exact .bind (going.change (fun _ _ => trivial) fun _ => ⟨rfl, id, rfl, List.suffix_cons _ _⟩) fun _ =>
    .bind (Going.executeEntry regular budget waits due taken) fun _ =>
      pending.change (fun _ _ => trivial) fun _ => ⟨rfl, id, rfl, List.suffix_cons _ _⟩

variable (early : now.nanoseconds < deadline.nanoseconds)

include early

omit regular waits due in
theorem Pending.going {base : List Note} {world : World η}
    (pending : engine.Pending ref origin base deadline opening now world)
    (unblocked : (world.queue ref).isBlocked world.now = false) :
    engine.Going ref origin base opening now world := by
  refine ⟨pending.1.retell fun above same => ?_, pending.2⟩
  obtain ⟨excused, redelays | stands⟩ := pending.1.told above same
  · exact ⟨excused, redelays⟩
  · simp [Queue.isBlocked, Queue.isDelayed, stands, pending.1.clock, early] at unblocked

omit regular waits due in
theorem Pending.take {world : World η} {taken : Entry} {entries : List Entry}
    (pending : engine.Pending ref origin (.filled ref entry :: earlier) deadline opening now world)
    (step : (world.queue ref).nextStep world.now =
      (.execute taken, { world.queue ref with entries })) :
    engine.Going ref origin (.filled ref entry :: earlier) opening now
      (world.modifyQueue ref ({ · with entries })) :=
  (Going.vigil engine ref origin entry earlier opening now).takes (fun _ _ => trivial)
    (Pending.going early pending (Queue.unblocked_of_execute step)) entries

theorem Pending.drain (steps : Nat) :
    Secures (engine.Pending ref origin (.filled ref entry :: earlier) deadline opening now)
      (engine.drain (engine.fire budget) ref steps)
      fun _ => engine.Pending ref origin (.filled ref entry :: earlier) deadline opening now := by
  have pending := (Waiting.vigil engine ref origin entry earlier deadline opening now).launched
  exact drain_secures (fun _ _ _ held step => Pending.take early held step)
    (Going.executeTaken regular budget waits due) (pending.finishQueue fun _ _ => trivial)
    (fun _ held => held) pending.log (pending.slows fun _ _ => trivial)
    (pending.ensureScheduled fun _ _ => trivial) steps

theorem Pending.step :
    Secures (engine.Pending ref origin (.filled ref entry :: earlier) deadline opening now)
      (engine.step (engine.fire budget) ref)
      fun _ => engine.Pending ref origin (.filled ref entry :: earlier) deadline opening now := by
  have pending := (Waiting.vigil engine ref origin entry earlier deadline opening now).launched
  exact step_secures (fun _ _ _ held step => Pending.take early held step)
    (Going.executeTaken regular budget waits due) (pending.finishQueue fun _ _ => trivial)
    fun _ held => held

theorem Waiting.revolve :
    Secures (engine.Waiting ref origin (.filled ref entry :: earlier) deadline opening now)
      (engine.revolve (engine.fire budget) budget ref)
      fun _ => engine.Waiting ref origin (.filled ref entry :: earlier) deadline opening now := by
  refine .each fun world held => .queue_bind (.ite (fun _ => .pure fun _ same => same ▸ held) fun runs => ?_)
  have pending : engine.Pending ref origin (.filled ref entry :: earlier) deadline opening now world := by
    refine ⟨held, ?_⟩
    simp only [bne_iff_ne, ne_eq, Decidable.not_not] at runs
    simp [runs]
  refine .ite (fun _ => ?_) fun _ => ?_
  · exact (Pending.drain regular budget waits due early budget).weaken (fun _ same => same ▸ pending)
      fun _ _ held => held.1
  · exact (Pending.step regular budget waits due early).weaken (fun _ same => same ▸ pending)
      fun _ _ held => held.1

omit regular waits due early in
theorem Waiting.startQueue_unmade {fire : Firing η} {world : World η}
    (held : engine.Waiting ref origin (.filled ref entry :: earlier) deadline opening now world)
    (unmade : world.queues.size ≤ ref.index) :
    Secures (· = world) (engine.startQueue fire budget ref)
      fun _ => engine.Waiting ref origin (.filled ref entry :: earlier) deadline opening now := by
  have waiting := Waiting.vigil engine ref origin entry earlier deadline opening now
  let kept (later : World η) := engine.Waiting ref origin (.filled ref entry :: earlier) deadline opening
    now later ∧ later.queues.size ≤ ref.index
  have launches : Secures (· = world) (RunM.modifyQueue ref Queue.launch) fun _ => kept := by
    refine .update fun _ same => ?_
    subst same
    rw [World.modifyQueue_of_size_le unmade]
    exact ⟨held, unmade⟩
  have logs (level : LogLevel) (text : String) : Secures kept (RunM.log level text) fun _ => kept :=
    .update fun later kept => ⟨waiting.apart (.of_same rfl rfl rfl rfl rfl :
      later.Apart ref (later.log level text)) kept.1, kept.2⟩
  have steps : Secures kept (takeStep ref) fun step later => step = .finish ∧
      engine.Waiting ref origin (.filled ref entry :: earlier) deadline opening now later := by
    refine .updateGet fun later kept => ?_
    dsimp only
    rw [World.queue_of_size_le kept.2, World.modifyQueue_of_size_le kept.2]
    exact ⟨rfl, kept.1⟩
  have ends : Secures (engine.Waiting ref origin (.filled ref entry :: earlier) deadline opening now)
      (engine.finishQueue ref)
      fun _ => engine.Waiting ref origin (.filled ref entry :: earlier) deadline opening now :=
    waiting.finishQueue fun _ _ => trivial
  refine .queue_bind (.ite (fun _ => .pure fun _ same => same ▸ held) fun _ => .bind launches fun _ =>
    .bind (logs _ _) fun _ => .ite (fun _ => ?_) fun _ => .bind ?_ fun _ =>
      waiting.ensureScheduled fun _ _ => trivial)
  · cases budget with
    | zero => exact .outOfBudget
    | succ budget =>
        refine .bind steps fun step => .each fun later reached => ?_
        obtain ⟨rfl, held⟩ := reached
        exact ends.weaken (fun _ same => same ▸ held) fun _ _ held => held
  · refine .bind steps fun step => .each fun later reached => ?_
    obtain ⟨rfl, held⟩ := reached
    exact ends.weaken (fun _ same => same ▸ held) fun _ _ held => held

theorem Waiting.startQueue :
    Secures (engine.Waiting ref origin (.filled ref entry :: earlier) deadline opening now)
      (engine.startQueue (engine.fire budget) budget ref)
      fun _ => engine.Waiting ref origin (.filled ref entry :: earlier) deadline opening now := by
  have waiting := Waiting.vigil engine ref origin entry earlier deadline opening now
  refine .each fun world held => ?_
  rcases Nat.lt_or_ge ref.index world.queues.size with made | missing
  · have launches : Secures (· = world) (RunM.modifyQueue ref Queue.launch)
        fun _ => engine.Pending ref origin (.filled ref entry :: earlier) deadline opening now := by
      refine .update fun _ same => ?_
      subst same
      refine ⟨waiting.deal trivial (fun _ => ⟨rfl, fun _ => Phase.noConfusion, rfl,
        List.suffix_cons _ _⟩) held, ?_⟩
      rw [World.queue_modifyQueue_self made]
      exact Phase.noConfusion
    have pending := waiting.launched
    refine .queue_bind (.ite (fun _ => .pure fun _ same => same ▸ held) fun _ => .bind launches fun _ =>
      .bind (pending.log _ _) fun _ => .ite (fun _ => ?_) fun _ => ?_)
    · exact (Pending.drain regular budget waits due early budget).weaken (fun _ held => held)
        fun _ _ held => held.1
    · refine .bind (Pending.step regular budget waits due early) fun _ => ?_
      exact (pending.ensureScheduled fun _ _ => trivial).weaken (fun _ held => held)
        fun _ _ held => held.1
  · exact Waiting.startQueue_unmade budget held missing

theorem Waiting.fires (steps : Nat) :
    (engine.fire steps).Heeds ref
      (engine.Waiting ref origin (.filled ref entry :: earlier) deadline opening now) fun _ => True :=
  (Waiting.vigil engine ref origin entry earlier deadline opening now).fire regular
    (fun budget _ => Waiting.startQueue regular budget waits due early) steps

theorem Waiting.call {call : HostCall} (keeps : ¬ call.redelays ref) :
    Secures (fun world => engine.Waiting ref origin (.filled ref entry :: earlier) deadline opening now
        (call.tickFirst world)) (call.run engine budget)
      fun _ => engine.Waiting ref origin (.filled ref entry :: earlier) deadline opening now := by
  have waiting := Waiting.vigil engine ref origin entry earlier deadline opening now
  refine waiting.run_call regular budget (fun _ => trivial) (Waiting.fires regular waits due early budget)
    (Waiting.revolve regular budget waits due early) (Waiting.startQueue regular budget waits due early)
    (fun world id kind held => ?_) (fun world script held => ?_) keeps
  · by_cases new : world.queues.size = ref.index
    · exact Watched.make held new id kind
    · exact waiting.apart (.makeQueue new id kind) held
  · exact ⟨held.clock, held.first, held.known, held.unmade, held.told⟩

end

theorem Waiting.runs {base : List Note} {calls : List HostCall} {start finish : Tag.Evaluation (World η)}
    (regular : engine.Regular free) (waits : engine.Waits entry duration)
    (isBase : base = .filled ref entry :: earlier) (runs : engine.Runs calls start finish)
    (waiting : engine.Waiting ref origin base deadline False start.world.now start.world)
    (noWrap : start.world.now.nanoseconds + (calls.map HostCall.elapsed).sum < Scheduler.clockRange)
    (early : start.world.now.nanoseconds + (calls.map HostCall.elapsed).sum < deadline.nanoseconds)
    (keeps : ∀ call ∈ calls, ¬ call.redelays ref) :
    engine.Waiting ref origin base deadline False finish.world.now finish.world := by
  subst isBase
  induction runs with
  | nil => exact waiting
  | @cons call calls budget start between finish made answered rest ih =>
      rw [List.map_cons, List.sum_cons] at noWrap early
      rw [List.forall_mem_cons] at keeps
      have inRange : start.world.now.nanoseconds + call.elapsed < Scheduler.clockRange := by omega
      have moved := call.now_tickFirst inRange
      have next := Waiting.call regular budget waits (fun opens => absurd opens id)
        (by omega) keeps.1 start () between (Watched.tickFirst waiting call) answered
      have clock := HostCall.run_clock regular answered
      rw [← clock] at next moved
      exact ih (by omega) (by omega) keeps.2 next

theorem Watched.opens {base : List Note} {told : String → Option Duration → List Note → Prop}
    (new : ¬ base <:+ origin.notes) (call : HostCall) :
    Watched ref origin base told True (call.tickFirst origin).now (call.tickFirst origin) := by
  have tells : Since base (told (origin.queue ref).id (origin.queue ref).delayUntil) origin.notes :=
    fun above same => absurd ⟨above, same.symm⟩ new
  cases call <;> exact ⟨rfl, .inl trivial, fun _ => .inl, fun missing => ⟨missing, new⟩, tells⟩

/-- Once a queue has executed a wait, its next entry comes after the time is over or after its delay was
set again. -/
theorem waits_out {call : HostCall} {calls : List HostCall}
    {start between finish : Tag.Evaluation (World η)} {later : List Note}
    (regular : engine.Regular free) (first : engine.Runs [call] start between)
    (rest : engine.Runs calls between finish)
    (filled : finish.world.notes = later ++ .filled ref entry :: earlier)
    (before : start.world.notes <:+ earlier)
    (after : .filled ref entry :: earlier <:+ between.world.notes)
    (waits : engine.Waits entry duration)
    (noWrap : between.world.now.nanoseconds + (calls.map HostCall.elapsed).sum <
      Scheduler.clockRange)
    (early : finish.world.now.nanoseconds < between.world.now.nanoseconds + duration.nanoseconds)
    (keeps : ∀ call ∈ calls, ¬ call.redelays ref) :
    engine.Excused ref start.world (finish.world.queue ref).id later := by
  obtain _ | ⟨made, answered, ⟨⟩⟩ := first
  have new : ¬ .filled ref entry :: earlier <:+ start.world.notes := fun seen => by
    have shorter := (seen.trans before).length_le
    simp at shorter
  have spared : ¬ call.redelays ref := fun redelays =>
    new (HostCall.notes_of_redelays redelays answered ▸ after)
  have clock := HostCall.run_clock regular answered
  have passed := rest.clock regular noWrap
  have inTime : between.world.now.nanoseconds + (calls.map HostCall.elapsed).sum <
      (between.world.now.addSaturating duration).nanoseconds := by
    have wide : Scheduler.clockRange ≤ Duration.longest.nanoseconds := by decide
    simp only [Duration.addSaturating]
    omega
  have due : True → between.world.now.addSaturating duration =
      (call.tickFirst start.world).now.addSaturating duration := fun _ => by rw [clock]
  have soon : (call.tickFirst start.world).now.nanoseconds <
      (between.world.now.addSaturating duration).nanoseconds := by
    rw [← clock]
    omega
  have waiting := Waiting.call regular _ waits due soon spared start () between
    (Watched.opens new call) answered
  rw [← clock] at waiting
  have ended := Waiting.runs regular waits rfl rest { waiting with first := .inr after } noWrap inTime keeps
  exact (ended.told later filled).1

/-- A queue that has to wait is frozen and loses nothing: through ticks of any lengths it stands still
until it is revolved with nothing to wait for, and then it starts with what is next. Once it has executed
a wait, its next entry comes after the time is over or after its delay was set again. -/
theorem obstacles_freeze (regular : engine.Regular free) (ref : QueueRef) :
    (∀ (ticks : List (Nat × Duration)) (start finish : Tag.Evaluation (World η)),
      (start.world.queue ref).phase = .running →
      (ticks.forM fun tick => engine.tick tick.1 tick.2).run start = some ((), finish) →
      ∃ seen, ((ticks.forM fun tick => engine.tickNoting ref tick.1 tick.2).run none).run start =
          some (((), seen), finish) ∧ engine.StandsUntil ref start.world finish.world seen) ∧
    ∀ (call : HostCall) (calls : List HostCall) (start between finish : Tag.Evaluation (World η))
      (entry : Entry) (duration : Duration) (earlier later : List Note),
      engine.Runs [call] start between → engine.Runs calls between finish →
      finish.world.notes = later ++ .filled ref entry :: earlier → start.world.notes <:+ earlier →
      .filled ref entry :: earlier <:+ between.world.notes → engine.Waits entry duration →
      between.world.now.nanoseconds + (calls.map HostCall.elapsed).sum < Scheduler.clockRange →
      finish.world.now.nanoseconds < between.world.now.nanoseconds + duration.nanoseconds →
      (∀ call ∈ calls, ¬ call.redelays ref) →
      engine.Excused ref start.world (finish.world.queue ref).id later :=
  ⟨fun _ _ _ runs ran => stands_still regular runs ran,
    fun _ _ _ _ _ _ _ _ _ first rest filled before after waits noWrap early keeps =>
      waits_out regular first rest filled before after waits noWrap early keeps⟩

end

def overlappingObstacles : List HostCall :=
  [.register ⟨"child", [⟨"wait", ["3t"], false, none, none⟩]⟩,
    .fire ⟨.inline ⟨"main", [⟨"run", ["child"], true, none, none⟩,
      ⟨"debug", ["done"], false, none, none⟩]⟩, { speed := some 0 }⟩,
    .tune ⟨0⟩ (.delayFor ⟨100000000⟩)]

def shortenedWait : List HostCall :=
  [.fire ⟨.inline ⟨"nap", [⟨"wait", ["9t"], false, none, none⟩, ⟨"debug", ["up"], false, none, none⟩]⟩,
      { id := "nap", speed := some 0 }⟩,
    .fire ⟨.inline ⟨"alarm", [⟨"queue", ["nap", "delay:1t"], false, none, none⟩]⟩, {}⟩,
    .tick ⟨50000000⟩]

theorem nap_waits :
    (builtin {} : Engine Unit).Waits ⟨"wait", ["9t"], false, some "nap", some ⟨1⟩⟩ ⟨450000000⟩ where
  found := by cbv
  built := ⟨[], by cbv⟩
  read := by decide +kernel

theorem obstacles_freeze_overlapping :
    let engine : Engine Unit := .builtin {}
    let ticks : List (Nat × Duration) := List.replicate 4 (9, ⟨50000000⟩)
    (∃ start finish before after, engine.Runs overlappingObstacles (engine.start ()) start ∧
      (start.world.queue ⟨0⟩).phase = .running ∧ (start.world.queue ⟨0⟩).holds = 1 ∧
      (start.world.queue ⟨0⟩).delayUntil = some ⟨100000000⟩ ∧
      ((ticks.forM fun tick => engine.tickNoting ⟨0⟩ tick.1 tick.2).run none).run start =
        some (((), some (before, after)), finish) ∧
      before.now = ⟨150000000⟩ ∧ start.world.Frozen ⟨0⟩ before ∧
      (before.queue ⟨0⟩).Resumes (after.queue ⟨0⟩)) ∧
    ∃ between finish later, engine.Runs (shortenedWait.take 1) (engine.start ()) between ∧
      engine.Runs (shortenedWait.drop 1) between finish ∧
      finish.world.notes = later ++ [.filled ⟨0⟩ ⟨"wait", ["9t"], false, some "nap", some ⟨1⟩⟩] ∧
      .filled ⟨0⟩ ⟨"debug", ["up"], false, some "nap", some ⟨1⟩⟩ ∈ later ∧
      between.world.now = ⟨0⟩ ∧ finish.world.now = ⟨50000000⟩ ∧
      engine.Excused ⟨0⟩ (engine.start ()).world (finish.world.queue ⟨0⟩).id later := by
  intro engine ticks
  have freezes := obstacles_freeze (builtin_regular true {} : engine.Regular true) ⟨0⟩
  have delayed : ((engine.answer 9 overlappingObstacles (engine.start ())).map fun start =>
      (decide ((start.world.queue ⟨0⟩).phase = .running), decide ((start.world.queue ⟨0⟩).holds = 1),
        decide ((start.world.queue ⟨0⟩).delayUntil = some ⟨100000000⟩),
        ((ticks.forM fun tick => engine.tick tick.1 tick.2).run start).isSome,
        (((ticks.forM fun tick => engine.tickNoting ⟨0⟩ tick.1 tick.2).run none).run start).any
          fun told => told.1.2.any fun seen => decide (seen.1.now = ⟨150000000⟩) &&
            decide (seen.1.notes = .message (some "child_2") "Queue completed." :: start.world.notes))) =
      some (true, true, true, true, true) := by
    decide +kernel
  have naps : ((engine.answer 9 (shortenedWait.take 1) (engine.start ())).bind fun between =>
      (engine.answer 9 (shortenedWait.drop 1) between).map fun finish =>
        (decide (between.world.now = ⟨0⟩), decide (finish.world.now = ⟨50000000⟩),
          decide (between.world.notes.getLast? =
            some (.filled ⟨0⟩ ⟨"wait", ["9t"], false, some "nap", some ⟨1⟩⟩)),
          decide (finish.world.notes = finish.world.notes.dropLast ++
            [.filled ⟨0⟩ ⟨"wait", ["9t"], false, some "nap", some ⟨1⟩⟩]),
          decide (.filled ⟨0⟩ ⟨"debug", ["up"], false, some "nap", some ⟨1⟩⟩ ∈
            finish.world.notes.dropLast))) = some (true, true, true, true, true) := by
    decide +kernel
  obtain ⟨start, answered, told⟩ := Option.map_eq_some_iff.1 delayed
  simp only [Prod.mk.injEq, decide_eq_true_eq, Option.isSome_iff_exists, Option.any_eq_true,
    Bool.and_eq_true] at told
  obtain ⟨runs, holds, delay, ⟨⟨_, finish⟩, ran⟩, ⟨⟨_, _⟩, last⟩, noted, ⟨before, after⟩, rfl,
    now, notes⟩ := told
  obtain ⟨told, shown, stands⟩ := freezes.1 ticks start finish runs ran
  have same := noted.symm.trans shown
  simp only [Option.some.injEq, Prod.mk.injEq] at same
  obtain ⟨⟨_, rfl⟩, _⟩ := same
  obtain ⟨_, resumes⟩ := stands
  obtain ⟨frozen, resumes⟩ := resumes fun disturbed => by
    rw [notes, ← List.singleton_append] at disturbed
    simpa using disturbed.mem
  obtain ⟨between, first, told⟩ := Option.bind_eq_some_iff.1 naps
  obtain ⟨woken, rest, told⟩ := Option.map_eq_some_iff.1 told
  simp only [Prod.mk.injEq, decide_eq_true_eq] at told
  obtain ⟨early, late, known, split, woke⟩ := told
  refine ⟨⟨start, last, before, after, runs_of_answer answered, runs, holds, delay, noted, now, frozen,
    resumes⟩, between, woken, _, runs_of_answer first, runs_of_answer rest, split, woke, early, late, ?_⟩
  refine freezes.2 _ _ _ _ _ _ _ _ _ (runs_of_answer first) (runs_of_answer rest) split
    (List.suffix_refl _) ?_ nap_waits ?_ ?_ ?_
  · obtain ⟨more, same⟩ := List.getLast?_eq_some_iff.1 known
    exact ⟨more, same.symm⟩
  · rw [early]
    decide
  · rw [early, late]
    decide
  · simp [shortenedWait, HostCall.redelays]

end Engine

end TagScript
