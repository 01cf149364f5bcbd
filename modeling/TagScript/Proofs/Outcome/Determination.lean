import TagScript.Proofs.Engine.HostCalls
import TagScript.Proofs.Outcome.Lineage

/-! Determinations reach the firing that they descend from. What is filed under a firing is what its
entries determined, in order; and it is all there when the firing tells its outcome. -/

namespace TagScript

variable {η : Type}

def listed (values : List String) : Option (List String) :=
  if values.isEmpty then none else some values

namespace World

def Holds (fire : FireId) (world : World η) : Prop :=
  world.outcomes.get? fire = listed (world.filedUnder fire)

structure Spent (running : List Running) (fire : FireId) (world : World η) : Prop where
  known : fire.number < world.fires
  gone : world.outcomes.get? fire = none
  stopped : ∀ ref deeds, .fired fire ref deeds ∈ world.marks → (world.queue ref).isStopped = true
  idle : ∀ item ∈ running, item.entry.fire ≠ some fire

theorem filedUnder_record (ref : QueueRef) (fire other : FireId) (value : String)
    (world : World η) : (world.record ref fire value).filedUnder other =
      world.filedUnder other ++ if fire = other then [value] else [] := by
  have dropped (fires : List FireId) :
      (fires.map Mark.dropped).reverse.filterMap (Mark.filed? other) = [] := by
    refine List.filterMap_eq_nil_iff.2 fun mark member => ?_
    obtain ⟨_, _, rfl⟩ := List.mem_map.1 (List.mem_reverse.1 member)
    rfl
  rw [filedUnder, marks_record, List.reverse_cons, List.reverse_append, List.filterMap_append,
    List.filterMap_append, dropped, List.append_nil]
  by_cases same : fire = other
  · simp [filedUnder, Mark.filed?, same]
  · simp [filedUnder, Mark.filed?, same]

theorem Holds.recorded {world : World η} {fire other : FireId} (holds : world.Holds other)
    (ref : QueueRef) (value : String)
    (kept : .dropped other ∉ (world.record ref fire value).marks) :
    (world.record ref fire value).Holds other := by
  rw [Holds, outcomes_record, filedUnder_record]
  by_cases same : other = fire
  · subst same
    rw [OutcomeStore.get?_record_self, if_pos rfl, holds, listed, listed]
    cases filed : world.filedUnder other with
    | nil => rfl
    | cons first rest => rfl
  · have stays : other ∉ (world.outcomes.record fire value).1 := by
      intro dropped
      refine kept ?_
      rw [marks_record]
      exact List.mem_cons_of_mem _ (List.mem_append_left _ (List.mem_map_of_mem dropped))
    rw [OutcomeStore.get?_record_of_ne same stays, if_neg (Ne.symm same), List.append_nil]
    exact holds

end World

/-- What becomes of firings from one moment to another: new ones are numbered on; of the old ones the
store has all, or goes on having nothing. -/
structure Accounts (running : List Running) (world later : World η) : Prop where
  attributed : Attributed running later
  fires : world.fires ≤ later.fires
  marks : world.marks ⊆ later.marks
  fresh : ∀ fire ref deeds, .fired fire ref deeds ∈ later.marks →
    .fired fire ref deeds ∈ world.marks ∨ world.fires ≤ fire.number
  holds : ∀ fire, fire.number < world.fires → .dropped fire ∉ later.marks → world.Holds fire →
    later.Holds fire
  spent : ∀ fire, world.Spent running fire →
    later.Spent running fire ∧ later.filedUnder fire = world.filedUnder fire
  settled : ∀ fire ref deeds, world.fires ≤ fire.number → .fired fire ref deeds ∈ later.marks →
    .dropped fire ∉ later.marks → later.Holds fire ∨ later.Spent running fire

namespace Accounts

variable {terms : Terms} {running : List Running} {world between later : World η}

theorem unfiled (attributed : Attributed running world) (after : Attributed running later)
    (fires : world.fires ≤ later.fires) (marks : later.marks = world.marks)
    (outcomes : later.outcomes = world.outcomes)
    (stopped : ∀ ref, (world.queue ref).isStopped = true → (later.queue ref).isStopped = true) :
    Accounts running world later := by
  refine ⟨after, fires, marks ▸ List.Subset.refl _, fun _ _ _ member => .inl (marks ▸ member), ?_,
    ?_, ?_⟩
  · intro fire _ _ holds
    rwa [World.Holds, World.filedUnder, outcomes, marks]
  · intro fire spent
    refine ⟨⟨Nat.lt_of_lt_of_le spent.known fires, by rw [outcomes]; exact spent.gone, ?_,
      spent.idle⟩, by rw [World.filedUnder, World.filedUnder, marks]⟩
    exact fun ref deeds member => stopped ref (spent.stopped ref deeds (marks ▸ member))
  · intro fire ref deeds new member
    rw [marks] at member
    exact absurd (attributed.fired fire ref deeds member).1 (Nat.not_lt_of_le new)

theorem refl (attributed : Attributed running world) : Accounts running world world :=
  unfiled attributed attributed (Nat.le_refl _) rfl rfl fun _ stopped => stopped

theorem trans (first : Accounts running world between) (second : Accounts running between later) :
    Accounts running world later where
  attributed := second.attributed
  fires := first.fires.trans second.fires
  marks := List.Subset.trans first.marks second.marks
  fresh := by
    intro fire ref deeds member
    rcases second.fresh fire ref deeds member with old | new
    · exact first.fresh fire ref deeds old
    · exact .inr (first.fires.trans new)
  holds := by
    intro fire old kept holds
    exact second.holds fire (Nat.lt_of_lt_of_le old first.fires) kept
      (first.holds fire old (fun dropped => kept (second.marks dropped)) holds)
  spent := by
    intro fire spent
    obtain ⟨still, same⟩ := first.spent fire spent
    obtain ⟨stays, unchanged⟩ := second.spent fire still
    exact ⟨stays, unchanged.trans same⟩
  settled := by
    intro fire ref deeds new member kept
    rcases second.fresh fire ref deeds member with old | fresh
    · have settled := first.settled fire ref deeds new old fun dropped =>
        kept (second.marks dropped)
      have known := (first.attributed.fired fire ref deeds old).1
      exact settled.imp (second.holds fire known kept) fun spent => (second.spent fire spent).1
    · exact second.settled fire ref deeds fresh member kept

end Accounts

theorem Stride.stopped {terms : Terms} {running : List Running} {world later : World η}
    (stride : Stride terms running world later) (ref : QueueRef)
    (stopped : (world.queue ref).isStopped = true) : (later.queue ref).isStopped = true := by
  have changed (other : QueueRef) (change : Queue → Queue)
      (keeps : (world.queue other).isStopped = true → (change (world.queue other)).isStopped = true) :
      ((world.modifyQueue other change).queue ref).isStopped = true := by
    rcases world.queue_modifyQueue_cases other ref change with ⟨rfl, _, changed⟩ | kept
    · rw [changed]
      exact keeps stopped
    · rwa [kept]
  cases stride with
  | aside aside => rwa [World.queue, aside.queues]
  | adjust _ _ other change similar =>
      refine changed other change fun stopped => ?_
      rwa [Queue.isStopped, (similar _).phase]
  | make _ _ id kind =>
      rcases world.queue_makeQueue_cases id kind ref with ⟨new, _⟩ | kept
      · rw [new] at stopped
        cases stopped
      · rwa [kept]
  | clear | dry | splice => exact changed _ _ fun stopped => stopped
  | close => exact changed _ _ fun _ => rfl
  | launch _ _ other new =>
      refine changed other _ fun stopped => ?_
      rw [Queue.isStopped, new] at stopped
      cases stopped
  | record => rwa [World.queue_record]

namespace Accounts

variable {terms : Terms} {running : List Running} {world between later : World η} {ref : QueueRef}

theorem recorded {entry : Entry} (attributed : Attributed (⟨ref, entry⟩ :: running) world)
    (value : String) :
    Accounts (⟨ref, entry⟩ :: running) world
      (world.record ref (entry.fire.getD (world.queue ref).fire) value) := by
  have after := attributed.recorded value
  obtain ⟨fire, _, carried, _⟩ := attributed.executing _ List.mem_cons_self
  rw [carried, Option.getD_some] at after ⊢
  have old {other : FireId} {queue : QueueRef} {deeds : Nat}
      (member : .fired other queue deeds ∈ (world.record ref fire value).marks) :
      .fired other queue deeds ∈ world.marks := by
    simpa [World.marks_record] using member
  refine ⟨after, Nat.le_of_eq (World.fires_record ..).symm, ?_, fun _ _ _ member => .inl (old member),
    ?_, ?_, ?_⟩
  · intro mark member
    rw [World.marks_record]
    exact List.mem_cons_of_mem _ (List.mem_append_right _ member)
  · exact fun other _ kept holds => holds.recorded ref value kept
  · intro other spent
    have different : other ≠ fire := by
      rintro rfl
      exact spent.idle _ List.mem_cons_self carried
    refine ⟨⟨by rw [World.fires_record]; exact spent.known, ?_, ?_, spent.idle⟩, ?_⟩
    · rw [World.outcomes_record]
      exact OutcomeStore.get?_record_none different value spent.gone
    · intro queue deeds member
      rw [World.queue_record]
      exact spent.stopped queue deeds (old member)
    · rw [World.filedUnder_record, if_neg (Ne.symm different), List.append_nil]
  · intro other queue deeds new member
    exact absurd (attributed.fired other queue deeds (old member)).1 (Nat.not_lt_of_le new)

theorem taken_spent {entry : Entry} {rest : Queue} (attributed : Attributed running world)
    (takes : (world.queue ref).nextStep world.now = (.execute entry, rest)) {fire : FireId}
    (spent : world.Spent running fire) :
    (world.takeUp ref entry rest).Spent (⟨ref, entry⟩ :: running) fire := by
  obtain ⟨runs, entries, split, rfl⟩ := Queue.nextStep_execute takes
  refine ⟨spent.known, spent.gone, fun queue deeds member => ?_, List.forall_mem_cons.2 ⟨?_, spent.idle⟩⟩
  · have stopped := spent.stopped queue deeds member
    have different : queue ≠ ref := by
      rintro rfl
      exact absurd (runs.symm.trans stopped) (by decide)
    rw [World.takeUp, World.queue_modifyQueue_of_ne different,
      World.queue_modifyQueue_of_ne different]
    exact stopped
  · intro carried
    obtain ⟨brought, deeds, same, member⟩ := attributed.waiting ref entry (by simp [split])
    obtain rfl : fire = brought := Option.some.inj (carried.symm.trans same)
    exact absurd (runs.symm.trans (spent.stopped ref deeds member)) (by decide)

theorem finished_spent {entry : Entry} {fire : FireId}
    (spent : world.Spent (⟨ref, entry⟩ :: running) fire) :
    (world.modifyQueue ref (Queue.note (.executed entry))).Spent running fire := by
  refine ⟨spent.known, spent.gone, fun queue deeds member => ?_,
    (List.forall_mem_cons.1 spent.idle).2⟩
  have stopped := spent.stopped queue deeds member
  rcases world.queue_modifyQueue_cases ref queue (Queue.note (.executed entry)) with
    ⟨rfl, _, changed⟩ | kept
  · rwa [changed]
  · rwa [kept]

theorem executed {entry : Entry} {rest : Queue} (attributed : Attributed running world)
    (takes : (world.queue ref).nextStep world.now = (.execute entry, rest))
    (inside : Accounts (⟨ref, entry⟩ :: running) (world.takeUp ref entry rest) later) :
    Accounts running world (later.modifyQueue ref (Queue.note (.executed entry))) where
  attributed := inside.attributed.finished
  fires := inside.fires
  marks := inside.marks
  fresh := inside.fresh
  holds := inside.holds
  spent := by
    intro fire spent
    obtain ⟨still, same⟩ := inside.spent fire (taken_spent attributed takes spent)
    exact ⟨finished_spent still, same⟩
  settled := by
    intro fire ref deeds new member kept
    exact (inside.settled fire ref deeds new member kept).imp_right finished_spent

theorem enqueued_holds (attributed : Attributed running world) (ref : QueueRef) (script : Script) :
    (world.enqueue ref script).Holds ⟨world.fires⟩ := by
  have nothing : (world.enqueue ref script).filedUnder ⟨world.fires⟩ = [] := by
    refine List.filterMap_eq_nil_iff.2 fun mark member => ?_
    cases mark with
    | fired | dropped => rfl
    | determined fire queue deeds value =>
        have old : .determined fire queue deeds value ∈ world.marks := by
          simpa [World.marks_enqueue] using member
        refine if_neg ?_
        rintro rfl
        exact Nat.lt_irrefl _ (attributed.determined _ queue deeds value old).1
  rw [World.Holds, nothing]
  by_contra known
  exact Nat.lt_irrefl _ (attributed.stored _ known)

theorem enqueued (attributed : Attributed running world) (made : ref.index < world.queues.size)
    (script : Script) : Accounts running world (world.enqueue ref script) := by
  have filed (fire : FireId) :
      (world.enqueue ref script).filedUnder fire = world.filedUnder fire := by
    simp [World.filedUnder, World.marks_enqueue, Mark.filed?]
  have stopped (queue : QueueRef) (stopped : (world.queue queue).isStopped = true) :
      ((world.enqueue ref script).queue queue).isStopped = true := by
    by_cases here : queue = ref
    · subst here
      rwa [World.queue_enqueue_self made]
    · rwa [World.queue_enqueue_of_ne here]
  refine ⟨attributed.enqueued made script, Nat.le_succ _, List.subset_cons_self _ _, ?_, ?_, ?_, ?_⟩
  · intro fire queue deeds member
    rcases List.mem_cons.1 member with new | old
    · exact .inr (Nat.le_of_eq (congrArg FireId.number (Mark.fired.inj new).1).symm)
    · exact .inl old
  · intro fire _ _ holds
    rw [World.Holds, filed]
    exact holds
  · intro fire spent
    refine ⟨⟨Nat.lt_succ_of_lt spent.known, spent.gone, ?_, spent.idle⟩, filed fire⟩
    intro queue deeds member
    rcases List.mem_cons.1 member with new | old
    · obtain rfl := (Mark.fired.inj new).1
      exact absurd spent.known (Nat.lt_irrefl _)
    · exact stopped queue (spent.stopped queue deeds old)
  · intro fire queue deeds new member _
    rcases List.mem_cons.1 member with first | old
    · obtain rfl := (Mark.fired.inj first).1
      exact .inl (enqueued_holds attributed ref script)
    · exact absurd (attributed.fired fire queue deeds old).1 (Nat.not_lt_of_le new)

theorem takenOut (accounts : Accounts running world later) {fire : FireId}
    (new : world.fires ≤ fire.number)
    (done : { later with outcomes := (later.outcomes.take fire).2 }.Spent running fire) :
    Accounts running world { later with outcomes := (later.outcomes.take fire).2 } := by
  let told : World η := { later with outcomes := (later.outcomes.take fire).2 }
  have holds {other : FireId} (different : other ≠ fire) (holds : later.Holds other) :
      told.Holds other := by
    refine Eq.trans ?_ holds
    rw [OutcomeStore.get?_take, if_neg different]
  have spent {other : FireId} (spent : later.Spent running other) : told.Spent running other := by
    refine ⟨spent.known, ?_, spent.stopped, spent.idle⟩
    rw [OutcomeStore.get?_take, spent.gone, ite_self]
  refine ⟨?_, accounts.fires, accounts.marks, accounts.fresh, ?_, ?_, ?_⟩
  · refine accounts.attributed.same (fun _ => rfl) (fun _ => rfl) rfl (Nat.le_refl _) ?_
    intro other held
    rw [OutcomeStore.get?_take] at held
    split at held
    · exact absurd rfl held
    · exact held
  · intro other old kept before
    refine holds ?_ (accounts.holds other old kept before)
    rintro rfl
    exact absurd old (Nat.not_lt_of_le new)
  · intro other before
    obtain ⟨still, unchanged⟩ := accounts.spent other before
    exact ⟨spent still, unchanged⟩
  · intro other ref deeds fresh member kept
    by_cases here : other = fire
    · subst here
      exact .inr done
    · exact (accounts.settled other ref deeds fresh member kept).imp (holds here) spent

theorem concluded_spent {script : Script} (attributed : Attributed running world)
    (inside : Accounts running (world.enqueue ref script) later)
    (ended : (later.queue ref).isStopped = true) :
    { later with outcomes := (later.outcomes.take ⟨world.fires⟩).2 }.Spent running
      ⟨world.fires⟩ := by
  refine ⟨inside.fires, ?_, fun queue deeds member => ?_, fun item member carried => ?_⟩
  · rw [OutcomeStore.get?_take, if_pos rfl]
  · rcases inside.fresh _ queue deeds member with before | later
    · rcases List.mem_cons.1 before with new | old
      · obtain ⟨_, rfl, _⟩ := Mark.fired.inj new
        exact ended
      · exact absurd (attributed.fired _ queue deeds old).1 (Nat.lt_irrefl _)
    · exact absurd later (Nat.not_succ_le_self _)
  · obtain ⟨fire, deeds, same, brought⟩ := attributed.executing item member
    obtain rfl : ⟨world.fires⟩ = fire := Option.some.inj (carried.symm.trans same)
    exact absurd (attributed.fired _ _ deeds brought).1 (Nat.lt_irrefl _)

theorem concluded {script : Script} (attributed : Attributed running world)
    (made : ref.index < world.queues.size)
    (inside : Accounts running (world.enqueue ref script) later) :
    Accounts running world (later.conclude ref ⟨world.fires⟩) := by
  have accounts := (enqueued attributed made script).trans inside
  unfold World.conclude
  split
  · exact accounts.takenOut (Nat.le_refl _) (concluded_spent attributed inside ‹_›)
  · exact accounts

theorem counted (attributed : Attributed running world) (calls : Nat) :
    Accounts running world { world with calls } :=
  unfiled attributed
    (attributed.same (fun _ => rfl) (fun _ => rfl) rfl (Nat.le_refl _) fun _ known => known)
    (Nat.le_refl _) rfl rfl fun _ stopped => stopped

variable (inherit : ∀ {entry : Entry} {entries : List Entry}, terms.splice entry entries →
    ∀ item ∈ entries, item.fire = entry.fire)

include inherit

theorem strode (attributed : Attributed running world) (stride : Stride terms running world later) :
    Accounts running world later := by
  have after := attributed.strode inherit stride
  have stopped := stride.stopped
  cases stride with
  | aside aside =>
      exact unfiled attributed after (Nat.le_of_eq aside.fires.symm) aside.marks aside.outcomes stopped
  | adjust | clear | close | launch | dry | splice =>
      exact unfiled attributed after (Nat.le_refl _) rfl rfl stopped
  | make => exact unfiled attributed after (Nat.le_succ _) rfl rfl stopped
  | record _ _ ref entry value => exact recorded attributed value

theorem of_passage (passage : Passage terms running world later)
    (attributed : Attributed running world) : Accounts running world later := by
  induction passage with
  | refl => exact refl attributed
  | step _ stride ih =>
      have before := ih attributed
      exact before.trans (strode inherit before.attributed stride)
  | execute _ takes _ ih inside =>
      have before := ih attributed
      exact before.trans (executed before.attributed takes (inside (before.attributed.taken takes)))
  | @call running world between later _ _ _ ih inside =>
      have before := ih attributed
      have called := before.trans (counted before.attributed (between.calls + 1))
      have within := called.trans (inside called.attributed)
      exact within.trans (counted within.attributed _)
  | fire _ _ made _ _ ih inside =>
      have before := ih attributed
      exact before.trans (concluded before.attributed made (inside (before.attributed.enqueued made _)))

theorem of_errands (errands : Errands terms world later) (attributed : Attributed [] world) :
    Accounts [] world later := by
  induction errands with
  | refl => exact refl attributed
  | tail _ errand ih =>
      refine ih.trans ?_
      cases errand with
      | passage passage => exact of_passage inherit passage ih.attributed
      | reschedule | register =>
          exact unfiled ih.attributed
            (ih.attributed.same (fun _ => rfl) (fun _ => rfl) rfl (Nat.le_refl _) fun _ known => known)
            (Nat.le_refl _) rfl rfl fun _ stopped => stopped

end Accounts

def Terms.faithful : Terms where
  script := fun _ => True
  splice := fun entry entries => ∀ item ∈ entries, item.fire = entry.fire
  sharing := true

def Charter.faithful : Charter η Unit where
  regime := .single
  terms := .faithful
  fit := World.LiveMade
  live := fun made => made
  script := fun _ _ => trivial
  passes := Passage.liveMade
  takes := fun made _ => made.takeUp
  calls := fun made => made
  fires := fun _ made _ => made.enqueue
  reschedules := fun _ made => made
  registers := fun made _ => made

theorem Engine.Regular.faithful {engine : Engine η} {free : Bool} (regular : engine.Regular free) :
    engine.Commands .faithful := by
  intro fire fires running world ref entry rest _ _ command found
  rcases regular.commands _ command found with known | harmless
  · rcases Command.steadies_or_brings known with steadies | rfl | rfl | rfl
    · exact steadies
    · refine Command.inject_steadies fun _ _ _ _ script _ item member => ?_
      obtain ⟨_, _, rfl⟩ := List.mem_map.1 member
      rfl
    · refine Command.repeatBlock_steadies fun invocation handed block _ name times item member => ?_
      obtain ⟨_, _, rfl⟩ := List.mem_map.1 member
      exact handed.fire_eq
    · exact Command.run_steadies fun name options => fires _ name options (.inl rfl)
  · exact harmless.steadies

/-- A firing tells all that was filed under it. Then it is over, or the store goes on having it. -/
theorem Fired.accounts {world later : World η} {result : FireResult}
    (fired : Fired .faithful [] world (.ok result) later) (attributed : Attributed [] world)
    (kept : .dropped result.fire ∉ later.marks) :
    Accounts [] world later ∧ result.outcome = listed (later.filedUnder result.fire) ∧
      (∃ deeds, .fired result.fire result.queue deeds ∈ later.marks) ∧
      ((later.queue result.queue).isStopped = true → later.Spent [] result.fire) ∧
      ((later.queue result.queue).isStopped = false →
        later.Holds result.fire ∧ result.fire.number < later.fires) := by
  obtain ⟨between, inside, script, before, _, made, _, within, fire, outcome, rfl⟩ := fired
  obtain ⟨ref, queueId, told, values⟩ := result
  dsimp only at made within fire outcome kept ⊢
  subst fire
  have inherit {entry : Entry} {entries : List Entry} (allowed : Terms.faithful.splice entry entries) :
      ∀ item ∈ entries, item.fire = entry.fire := allowed
  have reached := Accounts.of_passage inherit before attributed
  have inner := Accounts.of_passage inherit within (reached.attributed.enqueued made script)
  have all := reached.trans (Accounts.concluded reached.attributed made inner)
  have brought : .fired ⟨between.fires⟩ ref (between.queue ref).history.length ∈ inside.marks :=
    inner.marks List.mem_cons_self
  have holds (kept : .dropped ⟨between.fires⟩ ∉ inside.marks) : inside.Holds ⟨between.fires⟩ :=
    inner.holds _ (Nat.lt_succ_self _) kept (Accounts.enqueued_holds reached.attributed ref script)
  refine ⟨all, ?_⟩
  cases ended : (inside.queue ref).isStopped with
  | true =>
      rw [World.conclude, if_pos ended] at kept ⊢
      exact ⟨outcome.trans (holds kept), ⟨_, brought⟩,
        fun _ => Accounts.concluded_spent reached.attributed inner ended,
        fun runs => absurd (runs.symm.trans ended) (by decide)⟩
  | false =>
      rw [World.conclude, if_neg (by simp [ended])] at kept ⊢
      exact ⟨outcome.trans (holds kept), ⟨_, brought⟩,
        fun stopped => absurd (stopped.symm.trans ended) (by decide),
        fun _ => ⟨holds kept, inner.fires⟩⟩

/-- What is filed under a firing is what the entries that go back to it determined, in order, and the
store has all of it until the firing is over. A firing of the host tells all of it. If the queue has
stopped by then, the store is left with nothing of it and nothing is added any more. -/
theorem Engine.Runs.determinations_reach_firing {engine : Engine η} {free : Bool}
    (regular : engine.Regular free) {host : η} {calls : List HostCall}
    {state : Tag.Evaluation (World η)} (runs : engine.Runs calls (engine.start host) state)
    (native : ∀ call ∈ calls, call.placesEntries = false) :
    (∀ fire, state.world.filedUnder fire = state.world.determinedBy fire) ∧
      (∀ fire ref deeds, .fired fire ref deeds ∈ state.world.marks →
        .dropped fire ∉ state.world.marks →
        state.world.outcomes.get? fire = listed (state.world.determinedBy fire) ∨
          state.world.outcomes.get? fire = none ∧ (state.world.queue ref).isStopped = true) ∧
      ∀ budget request result later,
        (engine.fire budget request).run state = some (.ok result, later) →
        .dropped result.fire ∉ later.world.marks →
        result.outcome = listed (later.world.determinedBy result.fire) ∧
          (∃ deeds, .fired result.fire result.queue deeds ∈ later.world.marks) ∧
          ∀ more last, engine.Runs more later last →
            (∀ call ∈ more, call.placesEntries = false) →
            if (later.world.queue result.queue).isStopped then
              last.world.outcomes.get? result.fire = none ∧
                last.world.determinedBy result.fire = later.world.determinedBy result.fire
            else .dropped result.fire ∉ last.world.marks →
              last.world.outcomes.get? result.fire =
                listed (last.world.determinedBy result.fire) := by
  have lenient : (Charter.faithful : Charter η Unit).regime.strict = false := rfl
  have inherit {entry : Entry} {entries : List Entry} (allowed : Terms.faithful.splice entry entries) :
      ∀ item ∈ entries, item.fire = entry.fire := allowed
  have started : (Charter.faithful : Charter η Unit).fit (engine.start host).world :=
    fun _ member => absurd member List.not_mem_nil
  have errands := runs.errands lenient regular regular.faithful native (fun _ _ _ _ => trivial) started
  have fit := Charter.faithful.errands errands started
  have accounts := Accounts.of_errands inherit errands (Attributed.start engine host)
  refine ⟨accounts.attributed.filedUnder_eq, fun fire ref deeds member kept => ?_, ?_⟩
  · rw [← accounts.attributed.filedUnder_eq]
    exact (accounts.settled fire ref deeds (Nat.zero_le _) member kept).imp id fun spent =>
      ⟨spent.gone, spent.stopped ref deeds member⟩
  · intro budget request result later ran kept
    have fired := (fire_fired lenient regular regular.faithful budget fit
      fun _ _ => trivial).ran ran
    obtain ⟨after, outcome, brought, ended, goes⟩ := fired.accounts accounts.attributed kept
    rw [← after.attributed.filedUnder_eq]
    refine ⟨outcome, brought, fun more last goesOn honest => ?_⟩
    have further := goesOn.errands lenient regular regular.faithful honest
      (fun _ _ _ _ => trivial) (Charter.faithful.passes fired.passage fit)
    have final := Accounts.of_errands inherit further after.attributed
    rw [← final.attributed.filedUnder_eq]
    split
    · rename_i stopped
      obtain ⟨spent, same⟩ := final.spent result.fire (ended stopped)
      exact ⟨spent.gone, same⟩
    · rename_i runs
      obtain ⟨holds, known⟩ := goes (Bool.eq_false_of_not_eq_true runs)
      exact fun stays => final.holds result.fire known stays holds

theorem Engine.Runs.determinations_reach_firing_shared :
    let engine : Engine Unit := .builtin {}
    let inner : Script := ⟨"inner", [.ofCommand "determine" ["passively", "inside"]]⟩
    let outer (value : String) : Script := ⟨"outer",
      [.ofCommand "repeat" ["2", "\x7b", "-", "determine", "passively", value, "\x7d"],
        .ofCommand "inject" ["inner"]]⟩
    let calls : List HostCall := [.register inner,
      .fire ⟨.inline (outer "a"), { id := some "q", speed := some 1 }⟩,
      .fire ⟨.inline (outer "b"), { id := some "q" }⟩] ++ List.replicate 13 (.tick (.ofMillis 50))
    ∃ state result later, engine.Runs calls (engine.start ()) state ∧
      (engine.fire 9 ⟨.inline (outer "c"), {}⟩).run state = some (.ok result, later) ∧
      state.world.filedUnder ⟨1⟩ = ["a", "a", "inside"] ∧
      state.world.filedUnder ⟨2⟩ = ["b", "b", "inside"] ∧
      result.outcome = some ["c", "c", "inside"] ∧ later.world.outcomes.get? result.fire = none := by
  intro engine inner outer calls
  have answered : ((engine.answer 9 calls (engine.start ())).bind fun state =>
      ((engine.fire 9 ⟨.inline (outer "c"), {}⟩).run state).bind fun (answer, later) =>
        answer.toOption.map fun result =>
          (state.world.determinedBy ⟨1⟩, state.world.determinedBy ⟨2⟩,
            later.world.determinedBy result.fire,
            decide (.dropped result.fire ∉ later.world.marks),
            (later.world.queue result.queue).isStopped)) =
      some (["a", "a", "inside"], ["b", "b", "inside"], ["c", "c", "inside"], true, true) := by
    decide +kernel
  obtain ⟨state, reached, answered⟩ := Option.bind_eq_some_iff.1 answered
  obtain ⟨⟨answer, later⟩, ran, answered⟩ := Option.bind_eq_some_iff.1 answered
  obtain ⟨result, same, told⟩ := Option.map_eq_some_iff.1 answered
  obtain ⟨first, second, third, kept, stopped⟩ := by simpa using told
  obtain rfl : answer = .ok result := by cases answer <;> simp_all [Except.toOption]
  have runs := Engine.runs_of_answer reached
  obtain ⟨filed, _, fires⟩ := determinations_reach_firing (builtin_regular true {}) runs
    (by simp [calls, HostCall.placesEntries])
  obtain ⟨outcome, _, after⟩ := fires 9 _ result later ran kept
  have gone := after [] later (.nil later) (by simp)
  rw [if_pos stopped] at gone
  exact ⟨state, result, later, runs, ran, (filed ⟨1⟩).trans first, (filed ⟨2⟩).trans second,
    by rw [outcome, third]; rfl, gone.1⟩

end TagScript
