import TagScript.Proofs.Engine.Launch
import TagScript.Proofs.Queue.Registry

/-! Ids that are generated. Numbers are tried until one is free, the counter never goes back, and a
number can be read off the end of an id; so no id is generated twice, and a firing without an id gets
a queue of its own. -/

namespace TagScript

variable {η : Type}

namespace World

inductive Search (live : Table QueueRef) (stem : String) : Nat → Nat → String → Nat → Prop
  | free {counter : Nat} (free : live.holds (Text.lower s!"{stem}_{counter + 1}") = false) :
      Search live stem counter 1 s!"{stem}_{counter + 1}" (counter + 1)
  | taken {counter tries last : Nat} {id : String}
      (taken : live.holds (Text.lower s!"{stem}_{counter + 1}") = true)
      (later : Search live stem (counter + 1) tries id last) :
      Search live stem counter (tries + 1) id last

/-- A stretch in the life of the registry, with the ids that were generated in it. Otherwise anything
may happen that leaves the counter alone: queues get into the table and out of it. -/
inductive Lifetime (start : World η) : List String → World η → Prop
  | start : Lifetime start [] start
  | generate {ids : List String} {later : World η} (life : Lifetime start ids later) (stem : String) :
      Lifetime start (ids ++ [(later.freshId stem).1]) (later.freshId stem).2
  | pass {ids : List String} {later other : World η} (life : Lifetime start ids later)
      (same : other.counter = later.counter) : Lifetime start ids other

/-- The world has one more queue, under an id generated for the script. It is live and has the entries
of the script; all other queues are as they were. -/
structure Seats (script : Script) (fire : FireId) (world later : World η) : Prop where
  queues : ∃ queue : Queue, later.queues = world.queues.push queue ∧
    queue.id = (world.freshId (Text.lower script.name)).1 ∧
    queue.entries = script.instantiate (some fire)
  live : later.liveQueue? (world.freshId (Text.lower script.name)).1 = some ⟨world.queues.size⟩

variable {world : World η} {live : Table QueueRef} {stem : String}

/-! The search. -/

theorem Search.unique {counter tries last otherTries otherLast : Nat} {id other : String}
    (search : Search live stem counter tries id last)
    (again : Search live stem counter otherTries other otherLast) :
    tries = otherTries ∧ id = other ∧ last = otherLast := by
  induction search generalizing otherTries other otherLast with
  | free free =>
      cases again with
      | free => exact ⟨rfl, rfl, rfl⟩
      | taken taken => exact absurd (free.symm.trans taken) Bool.false_ne_true
  | taken taken _ ih =>
      cases again with
      | free free => exact absurd (free.symm.trans taken) Bool.false_ne_true
      | taken _ later =>
          obtain ⟨rfl, rfl, rfl⟩ := ih later
          exact ⟨rfl, rfl, rfl⟩

theorem Search.numbered {counter tries last : Nat} {id : String}
    (search : Search live stem counter tries id last) :
    id = s!"{stem}_{last}" ∧ last = counter + tries ∧ 0 < tries := by
  induction search with
  | free => exact ⟨rfl, rfl, Nat.one_pos⟩
  | taken _ _ ih =>
      obtain ⟨rfl, rfl, _⟩ := ih
      exact ⟨rfl, by omega, Nat.succ_pos _⟩

theorem search_freshIdFrom {counter tries : Nat}
    (free : live.holds (Text.lower (freshIdFrom live stem counter tries).1) = false) :
    ∃ tried ≤ tries + 1, Search live stem counter tried (freshIdFrom live stem counter tries).1
      (freshIdFrom live stem counter tries).2 := by
  induction tries generalizing counter with
  | zero => exact ⟨1, Nat.le_refl _, .free free⟩
  | succ tries ih =>
      rw [freshIdFrom] at free ⊢
      split at free
      next taken =>
        obtain ⟨tried, few, later⟩ := ih free
        rw [if_pos taken]
        exact ⟨tried + 1, Nat.succ_le_succ few, .taken taken later⟩
      next untaken =>
        rw [if_neg untaken]
        exact ⟨1, Nat.le_add_left _ _, .free free⟩

theorem search_freshId (stem : String) (world : World η) :
    ∃ tries ≤ world.live.length + 1,
      Search world.live stem world.counter tries (world.freshId stem).1 (world.freshId stem).2.counter :=
  search_freshIdFrom (Option.isSome_eq_false_iff.2
    (Option.isNone_iff_eq_none.2 (liveQueue?_freshId stem world)))

theorem freshId_numbered (stem : String) (world : World η) :
    (world.freshId stem).1 = s!"{stem}_{(world.freshId stem).2.counter}" ∧
      world.counter < (world.freshId stem).2.counter := by
  obtain ⟨tries, _, search⟩ := search_freshId stem world
  obtain ⟨numbered, counted, some⟩ := search.numbered
  exact ⟨numbered, by omega⟩

/-! The life of the registry. -/

theorem Lifetime.numbered {ids : List String} {later : World η} (life : world.Lifetime ids later) :
    world.counter ≤ later.counter ∧
      (∀ id ∈ ids, ∃ (stem : String) (number : Nat), id = s!"{stem}_{number}" ∧ number ≤ later.counter) ∧
      (ids.map Text.lower).Nodup := by
  induction life with
  | start => exact ⟨Nat.le_refl _, fun _ member => absurd member List.not_mem_nil, List.nodup_nil⟩
  | @generate ids later _ stem ih =>
      obtain ⟨grown, numbered, distinct⟩ := ih
      obtain ⟨shown, above⟩ := freshId_numbered stem later
      refine ⟨by omega, fun id member => ?_, ?_⟩
      · rcases List.mem_append.1 member with old | last
        · obtain ⟨stem, number, same, below⟩ := numbered id old
          exact ⟨stem, number, same, by omega⟩
        · rw [List.mem_singleton.1 last]
          exact ⟨stem, _, shown, Nat.le_refl _⟩
      · rw [List.map_append, List.map_singleton, List.nodup_append]
        refine ⟨distinct, List.pairwise_singleton _ _, ?_⟩
        rintro _ member _ last rfl
        obtain ⟨id, old, same⟩ := List.mem_map.1 member
        obtain ⟨stem, number, rfl, below⟩ := numbered id old
        rw [List.mem_singleton.1 last, shown] at same
        have := Text.lower_numbered_inj same
        omega
  | pass _ same ih => exact ⟨same ▸ ih.1, same ▸ ih.2.1, ih.2.2⟩

/-! Firings without an id. -/

theorem handed_seats {script : Script} (options : FireOptions) {speed : Int} {seated : World η}
    (made : seated.queues = world.queues.push
      (.make (world.freshId (Text.lower script.name)).1 (.ofSpeed speed) ⟨world.fires⟩))
    (live : seated.liveQueue? (world.freshId (Text.lower script.name)).1 =
      some ⟨world.queues.size⟩) :
    world.Seats script ⟨seated.fires⟩ (seated.handed ⟨world.queues.size⟩ script options) := by
  let bare : Queue := .make (world.freshId (Text.lower script.name)).1 (.ofSpeed speed) ⟨world.fires⟩
  obtain ⟨definitions, context, offMain, equipped⟩ :=
    Engine.equip_eq options { bare with fire := ⟨seated.fires⟩ }
  refine ⟨⟨(Engine.equip options { bare with fire := ⟨seated.fires⟩ }).addEntries
    (script.instantiate (some ⟨seated.fires⟩)), ?_, ?_, ?_⟩, live⟩
  · change (seated.queues.modify _ _).modify _ _ = _
    rw [made, modify_made, modify_made]
    rfl
  · rw [equipped]
    rfl
  · rw [equipped]
    rfl

end World

namespace Engine

variable (engine : Engine η) (inner : Firing η) (budget : Nat)
  {start : Tag.Evaluation (World η)} {script : Script}

theorem fireWith_seats (request : FireRequest) (nameless : request.options.id = none)
    (found : findScript request.source start.world = .ok script) :
    ∃ fire later, start.world.Seats script fire later ∧
      (engine.fireWith inner budget request).run start = (do
        engine.startQueue inner budget ⟨start.world.queues.size⟩
        let outcome ← outcomeOf ⟨start.world.queues.size⟩ fire
        return .ok ⟨⟨start.world.queues.size⟩, (start.world.freshId (Text.lower script.name)).1,
          fire, outcome⟩ : RunM η (Except FireError FireResult)).run { start with world := later } := by
  obtain ⟨source, options⟩ := request
  obtain ⟨seated, new, made, live⟩ := start.world.seat_nameless script nameless
    (options.speed.getD engine.host.defaultSpeed)
  have seats := World.handed_seats options made live
  have ⟨⟨queue, queues, id, _⟩, _⟩ := seats
  have named : (World.queue ⟨start.world.queues.size⟩
      (seated.handed ⟨start.world.queues.size⟩ script options)).id =
        (start.world.freshId (Text.lower script.name)).1 := by
    rw [World.queue, queues, Array.getElem?_push_size]
    exact id
  refine ⟨⟨seated.fires⟩, _, seats, ?_⟩
  rw [fireWith_hands engine found new, named]

theorem callProcedure_seats (procedure : Tag.Procedure)
    (registered : start.world.script? procedure.script = some script) :
    ∃ fire later, start.world.Seats script fire later ∧
      (callProcedure (engine.fireWith inner budget) procedure).run start = (do
        engine.startQueue inner budget ⟨start.world.queues.size⟩
        return .ok (← outcomeOf ⟨start.world.queues.size⟩ fire) : RunM η Tag.CallResult).run
          { start with world := later } := by
  have found : findScript (.named procedure.script) start.world = .ok script := by
    rw [findScript, registered]
  obtain ⟨fire, later, seats, fired⟩ := fireWith_seats engine inner budget
    ⟨_, { speed := some 0, definitions := procedure.definitions }⟩ rfl found
  refine ⟨fire, later, seats, ?_⟩
  rw [callProcedure, run_bind_congr fired]
  simp only [bind_assoc, pure_bind]
  rfl

end Engine

namespace World

/-- Generating an id ends with the first number that makes a free one, after trying no more numbers
than there are live queues, and one. No live queue has the id, in any case, and no id is ever
generated twice, in any case, for whatever stems. So a firing without an id, and a procedure call
too, makes a queue of its own and leaves all others as they are. -/
theorem generated_ids_fresh (world : World η) (stem : String) :
    (∃ tries ≤ world.live.length + 1, ∀ tried id last,
      Search world.live stem world.counter tried id last ↔ tried = tries ∧
        id = (world.freshId stem).1 ∧ last = (world.freshId stem).2.counter) ∧
    (world.freshId stem).2.liveQueue? (world.freshId stem).1 = none ∧
    (world.Registered → ∀ ref, world.IsLive ref →
      Text.lower (world.queue ref).id ≠ Text.lower (world.freshId stem).1) ∧
    (∀ ids later, world.Lifetime ids later → (ids.map Text.lower).Nodup) ∧
    ∀ (engine : Engine η) (inner : Firing η) (budget : Nat) (start : Tag.Evaluation (World η))
      (script : Script), start.world = world →
      (∀ request : FireRequest, request.options.id = none →
        Engine.findScript request.source world = .ok script →
        ∃ fire later, world.Seats script fire later ∧
          (engine.fireWith inner budget request).run start = (do
            engine.startQueue inner budget ⟨world.queues.size⟩
            let outcome ← Engine.outcomeOf ⟨world.queues.size⟩ fire
            return .ok ⟨⟨world.queues.size⟩, (world.freshId (Text.lower script.name)).1, fire,
              outcome⟩ : RunM η (Except FireError FireResult)).run { start with world := later }) ∧
      ∀ procedure : Tag.Procedure, world.script? procedure.script = some script →
        ∃ fire later, world.Seats script fire later ∧
          (Engine.callProcedure (engine.fireWith inner budget) procedure).run start = (do
            engine.startQueue inner budget ⟨world.queues.size⟩
            return .ok (← Engine.outcomeOf ⟨world.queues.size⟩ fire) : RunM η Tag.CallResult).run
              { start with world := later } := by
  have free := liveQueue?_freshId stem world
  obtain ⟨tries, few, search⟩ := search_freshId stem world
  refine ⟨⟨tries, few, fun tried id last => ?_⟩, free, fun registered ref live same => ?_,
    fun ids later life => life.numbered.2.2, ?_⟩
  · constructor
    · exact fun again => again.unique search
    · rintro ⟨rfl, rfl, rfl⟩
      exact search
  · have lists : world.live.get? (Text.lower (world.queue ref).id) = some ref :=
      registered.isLive_iff.1 live
    rw [same] at lists
    exact Option.some_ne_none ref (lists.symm.trans free)
  · rintro engine inner budget start script rfl
    exact ⟨fun request nameless found => engine.fireWith_seats inner budget request nameless found,
      fun procedure registered => engine.callProcedure_seats inner budget procedure registered⟩

example : (((start ()).queueOrCreate "Job_1" .instant).2.freshId "job").1 = "job_2" := by
  decide +kernel

end World

end TagScript
