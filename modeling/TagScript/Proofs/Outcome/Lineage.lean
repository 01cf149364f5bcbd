import Mathlib.Data.List.Basic
import TagScript.Proofs.Engine.Passage
import TagScript.Proofs.Outcome.Store

/-! Where the entries of a queue come from. The history of a queue tells which entries a firing put
there and which ones an entry under execution put in its own place; so every entry goes back to one
firing, and the firing that entries carry along is that one. -/

namespace TagScript

variable {η : Type}

/-- The firings that the entries of a queue go back to: of those that wait, in order, and of those
under execution, the innermost first. -/
structure Lineage where
  waiting : List (Option FireId)
  running : List (Option FireId)

namespace Lineage

def current (lineage : Lineage) : Option FireId := lineage.running.head?.join

def after (fired : Option FireId) (lineage : Lineage) : Deed → Lineage
  | .received entries =>
    match fired with
    | some fire =>
      { lineage with
        waiting := lineage.waiting ++ List.replicate entries.length (some fire) }
    | none =>
      { lineage with
        waiting := List.replicate entries.length lineage.current ++ lineage.waiting }
  | .started _ =>
    match lineage.waiting with
    | [] => lineage
    | origin :: waiting => ⟨waiting, origin :: lineage.running⟩
  | .executed _ => { lineage with running := lineage.running.tail }
  | .cleared | .stopped => { lineage with waiting := [] }
  | .began | .ranDry => lineage

def ofHistory (fired : Nat → Option FireId) : List Deed → Lineage
  | [] => ⟨[], []⟩
  | deed :: earlier => (ofHistory fired earlier).after (fired earlier.length) deed

theorem ofHistory_congr {fired other : Nat → Option FireId} {history : List Deed}
    (same : ∀ deeds < history.length, fired deeds = other deeds) :
    ofHistory fired history = ofHistory other history := by
  induction history with
  | nil => rfl
  | cons deed earlier ih =>
      rw [ofHistory, ofHistory, same _ (Nat.lt_succ_self _)]
      rw [ih fun deeds below => same deeds (Nat.lt_succ_of_lt below)]

end Lineage

def Mark.firedAt? (ref : QueueRef) (deeds : Nat) : Mark → Option FireId
  | .fired fire queue before => if queue = ref ∧ before = deeds then some fire else none
  | _ => none

def Mark.filed? (fire : FireId) : Mark → Option String
  | .determined under _ _ value => if under = fire then some value else none
  | _ => none

namespace World

def firedAt (ref : QueueRef) (world : World η) (deeds : Nat) : Option FireId :=
  world.marks.findSome? (Mark.firedAt? ref deeds)

def lineageAt (ref : QueueRef) (deeds : Nat) (world : World η) : Lineage :=
  let history := (world.queue ref).history
  .ofHistory (world.firedAt ref) (history.drop (history.length - deeds))

def lineage (ref : QueueRef) (world : World η) : Lineage :=
  .ofHistory (world.firedAt ref) (world.queue ref).history

/-- The values that were filed under a firing, in order. -/
def filedUnder (fire : FireId) (world : World η) : List String :=
  world.marks.reverse.filterMap (Mark.filed? fire)

def determined? (fire : FireId) (world : World η) : Mark → Option String
  | .determined _ ref deeds value =>
    if (world.lineageAt ref deeds).current = some fire then some value else none
  | _ => none

/-- The values that were determined by entries which go back to a firing, in order. -/
def determinedBy (fire : FireId) (world : World η) : List String :=
  world.marks.reverse.filterMap (world.determined? fire)

def Came (ref : QueueRef) (entry : Entry) (world : World η) : Prop :=
  ∃ fire deeds, entry.fire = some fire ∧ .fired fire ref deeds ∈ world.marks

structure Extends (world later : World η) : Prop where
  history : ∀ ref, (world.queue ref).history <:+ (later.queue ref).history
  fired : ∀ ref, ∀ deeds < (world.queue ref).history.length,
    later.firedAt ref deeds = world.firedAt ref deeds

theorem lineageAt_length (ref : QueueRef) (world : World η) :
    world.lineageAt ref (world.queue ref).history.length = world.lineage ref := by
  rw [lineageAt, lineage, Nat.sub_self, List.drop_zero]

theorem Extends.past {world later : World η} (longer : world.Extends later) (ref : QueueRef) :
    Lineage.ofHistory (later.firedAt ref) (world.queue ref).history = world.lineage ref :=
  Lineage.ofHistory_congr (longer.fired ref)

theorem Extends.lineageAt_eq {world later : World η} (longer : world.Extends later) {ref : QueueRef}
    {deeds : Nat} (past : deeds ≤ (world.queue ref).history.length) :
    later.lineageAt ref deeds = world.lineageAt ref deeds := by
  obtain ⟨recent, split⟩ := longer.history ref
  have dropped : (later.queue ref).history.drop ((later.queue ref).history.length - deeds) =
      (world.queue ref).history.drop ((world.queue ref).history.length - deeds) := by
    rw [← split, List.length_append, Nat.add_sub_assoc past]
    simp [List.drop_append]
  rw [lineageAt, lineageAt, dropped]
  refine Lineage.ofHistory_congr fun before below => longer.fired ref before ?_
  rw [List.length_drop] at below
  omega

section

variable (ref other : QueueRef) (fire : FireId) (value : String) (world : World η)

theorem queue_record : (world.record ref fire value).queue other = world.queue other := by
  obtain ⟨events, same⟩ := world.record_eq ref fire value
  rw [same]
  rfl

theorem fires_record : (world.record ref fire value).fires = world.fires := by
  obtain ⟨events, same⟩ := world.record_eq ref fire value
  rw [same]

theorem outcomes_record :
    (world.record ref fire value).outcomes = (world.outcomes.record fire value).2 := by
  obtain ⟨events, same⟩ := world.record_eq ref fire value
  rw [same]

theorem marks_record : (world.record ref fire value).marks =
    .determined fire ref (world.queue ref).history.length value ::
      ((world.outcomes.record fire value).1.map .dropped ++ world.marks) := by
  obtain ⟨events, same⟩ := world.record_eq ref fire value
  rw [same]

theorem firedAt_record : (world.record ref fire value).firedAt other = world.firedAt other := by
  funext deeds
  have dropped : ((world.outcomes.record fire value).1.map Mark.dropped).findSome?
      (Mark.firedAt? other deeds) = none := by
    refine List.findSome?_eq_none_iff.2 fun mark member => ?_
    obtain ⟨_, _, rfl⟩ := List.mem_map.1 member
    rfl
  rw [firedAt, marks_record, List.findSome?_cons, List.findSome?_append, dropped]
  rfl

end

theorem marks_enqueue (ref : QueueRef) (script : Script) (world : World η) :
    (world.enqueue ref script).marks =
      .fired ⟨world.fires⟩ ref (world.queue ref).history.length :: world.marks := rfl

theorem queue_enqueue_self {ref : QueueRef} {world : World η}
    (made : ref.index < world.queues.size) (script : Script) :
    (world.enqueue ref script).queue ref =
      (world.queue ref).addEntries (script.instantiate (some ⟨world.fires⟩)) :=
  queue_modifyQueue_self made _

theorem queue_enqueue_of_ne {ref other : QueueRef} (different : other ≠ ref) (script : Script)
    (world : World η) : (world.enqueue ref script).queue other = world.queue other :=
  queue_modifyQueue_of_ne different _ _

theorem firedAt_enqueue (ref other : QueueRef) (script : Script) (world : World η) (deeds : Nat) :
    (world.enqueue ref script).firedAt other deeds =
      if ref = other ∧ (world.queue ref).history.length = deeds then some ⟨world.fires⟩
      else world.firedAt other deeds := by
  rw [firedAt, marks_enqueue, List.findSome?_cons, Mark.firedAt?]
  by_cases here : ref = other ∧ (world.queue ref).history.length = deeds
  · rw [if_pos here, if_pos here]
  · rw [if_neg here, if_neg here]
    rfl

end World

def origins (running : List Running) (ref : QueueRef) : List (Option FireId) :=
  (running.filter (·.queue = ref)).map (·.entry.fire)

theorem origins_cons_self (ref : QueueRef) (entry : Entry) (running : List Running) :
    origins (⟨ref, entry⟩ :: running) ref = entry.fire :: origins running ref := by
  simp [origins]

theorem origins_cons_of_ne {ref other : QueueRef} (different : other ≠ ref) (entry : Entry)
    (running : List Running) : origins (⟨ref, entry⟩ :: running) other = origins running other := by
  simp [origins, Ne.symm different]

/-- Entries carry along the firing that they go back to, and so does what they filed. -/
structure Attributed (running : List Running) (world : World η) : Prop where
  lineage : ∀ ref, world.lineage ref =
    ⟨(world.queue ref).entries.map Entry.fire, origins running ref⟩
  waiting : ∀ ref, ∀ entry ∈ (world.queue ref).entries, world.Came ref entry
  executing : ∀ item ∈ running, world.Came item.queue item.entry
  fired : ∀ fire ref deeds, .fired fire ref deeds ∈ world.marks →
    fire.number < world.fires ∧ deeds < (world.queue ref).history.length
  determined : ∀ fire ref deeds value, .determined fire ref deeds value ∈ world.marks →
    fire.number < world.fires ∧ deeds ≤ (world.queue ref).history.length ∧
      (world.lineageAt ref deeds).current = some fire
  stored : ∀ fire, world.outcomes.get? fire ≠ none → fire.number < world.fires

namespace Attributed

variable {running later : List Running} {world other : World η} {ref : QueueRef}

theorem start (engine : Engine η) (host : η) : Attributed [] (engine.start host).world where
  lineage := fun ref => rfl
  waiting := by simp [Engine.start, World.start, World.log, World.emit, World.queue, Queue.make,
    default]
  executing := by simp
  fired := by simp [Engine.start, World.start, World.log, World.emit]
  determined := by simp [Engine.start, World.start, World.log, World.emit]
  stored := by
    simp [Engine.start, World.start, World.log, World.emit, OutcomeStore.get?, default,
      OutcomeStore.withCapacity]

/-- What was filed under a firing is what its entries determined. -/
theorem filedUnder_eq (attributed : Attributed running world) (fire : FireId) :
    world.filedUnder fire = world.determinedBy fire := by
  refine List.filterMap_congr fun mark member => ?_
  cases mark with
  | fired | dropped => rfl
  | determined under ref deeds value =>
      have known := attributed.determined under ref deeds value (List.mem_reverse.1 member)
      simp only [Mark.filed?, World.determined?, known.2.2, Option.some.injEq]

theorem firedAt_length (attributed : Attributed running world) (ref : QueueRef) :
    world.firedAt ref (world.queue ref).history.length = none := by
  refine List.findSome?_eq_none_iff.2 fun mark member => ?_
  cases mark with
  | determined | dropped => rfl
  | fired fire queue deeds =>
      have past := (attributed.fired fire queue deeds member).2
      refine if_neg ?_
      rintro ⟨rfl, rfl⟩
      exact Nat.lt_irrefl _ past

theorem same (attributed : Attributed running world)
    (entries : ∀ ref, (other.queue ref).entries = (world.queue ref).entries)
    (history : ∀ ref, (other.queue ref).history = (world.queue ref).history)
    (marks : other.marks = world.marks) (fires : world.fires ≤ other.fires)
    (stored : ∀ fire, other.outcomes.get? fire ≠ none → world.outcomes.get? fire ≠ none) :
    Attributed running other := by
  have firedAt (ref : QueueRef) : other.firedAt ref = world.firedAt ref := by
    funext deeds
    rw [World.firedAt, World.firedAt, marks]
  refine ⟨fun ref => ?_, fun ref entry member => ?_, fun item member => ?_, ?_, ?_, ?_⟩
  · rw [World.lineage, history, firedAt, entries]
    exact attributed.lineage ref
  · rw [entries] at member
    rw [World.Came, marks]
    exact attributed.waiting ref entry member
  · rw [World.Came, marks]
    exact attributed.executing item member
  · intro fire ref deeds member
    rw [marks] at member
    rw [history]
    exact (attributed.fired fire ref deeds member).imp_left fun below => Nat.lt_of_lt_of_le below fires
  · intro fire ref deeds value member
    rw [marks] at member
    rw [World.lineageAt, history, firedAt]
    exact (attributed.determined fire ref deeds value member).imp_left fun below =>
      Nat.lt_of_lt_of_le below fires
  · exact fun fire known => Nat.lt_of_lt_of_le (attributed.stored fire (stored fire known)) fires

theorem noted (attributed : Attributed running world) {change : Queue → Queue} {deed : Deed}
    (made : ref.index < world.queues.size)
    (history : (change (world.queue ref)).history = deed :: (world.queue ref).history)
    (lineage : (world.lineage ref).after none deed =
      ⟨(change (world.queue ref)).entries.map Entry.fire, origins later ref⟩)
    (others : ∀ other ≠ ref, origins later other = origins running other)
    (waiting : ∀ entry ∈ (change (world.queue ref)).entries, world.Came ref entry)
    (executing : ∀ item ∈ later, world.Came item.queue item.entry) :
    Attributed later (world.modifyQueue ref change) := by
  have changed := world.queue_modifyQueue_self made change
  have kept {other : QueueRef} (different : other ≠ ref) :=
    world.queue_modifyQueue_of_ne different change
  have longer : world.Extends (world.modifyQueue ref change) := by
    refine ⟨fun other => ?_, fun _ _ _ => rfl⟩
    by_cases here : other = ref
    · subst here
      rw [changed, history]
      exact List.suffix_cons deed _
    · simp only [kept here, List.suffix_rfl]
  have length_le (other : QueueRef) := (longer.history other).length_le
  refine ⟨fun other => ?_, fun other => ?_, executing, ?_, ?_, attributed.stored⟩
  · by_cases here : other = ref
    · subst here
      rw [World.lineage, changed, history, ← lineage, ← attributed.firedAt_length other]
      rfl
    · rw [others other here, World.lineage, kept here]
      exact attributed.lineage other
  · by_cases here : other = ref
    · subst here
      rw [changed]
      exact waiting
    · rw [kept here]
      exact attributed.waiting other
  · exact fun fire other deeds member => (attributed.fired fire other deeds member).imp_right
      fun past => Nat.lt_of_lt_of_le past (length_le other)
  · intro fire other deeds value member
    obtain ⟨below, past, current⟩ := attributed.determined fire other deeds value member
    exact ⟨below, past.trans (length_le other), by rw [longer.lineageAt_eq past]; exact current⟩

theorem recorded {entry : Entry} (attributed : Attributed (⟨ref, entry⟩ :: running) world)
    (value : String) :
    Attributed (⟨ref, entry⟩ :: running)
      (world.record ref (entry.fire.getD (world.queue ref).fire) value) := by
  obtain ⟨fire, _, carried, brought⟩ := attributed.executing _ List.mem_cons_self
  have below := (attributed.fired fire ref _ brought).1
  rw [carried, Option.getD_some]
  have keeps {mark : Mark} (member : mark ∈ world.marks) :
      mark ∈ (world.record ref fire value).marks := by
    rw [World.marks_record]
    exact List.mem_cons_of_mem _ (List.mem_append_right _ member)
  refine ⟨fun queue => ?_, fun queue item member => ?_, fun item member => ?_, ?_, ?_, ?_⟩
  · rw [World.lineage, World.firedAt_record, World.queue_record]
    exact attributed.lineage queue
  · rw [World.queue_record] at member
    exact (attributed.waiting queue item member).imp fun _ => .imp fun _ => .imp_right keeps
  · exact (attributed.executing item member).imp fun _ => .imp fun _ => .imp_right keeps
  · intro other queue deeds member
    rw [World.queue_record, World.fires_record]
    refine attributed.fired other queue deeds ?_
    simpa [World.marks_record] using member
  · intro other queue deeds filed member
    rw [World.queue_record, World.fires_record, World.lineageAt, World.firedAt_record,
      World.queue_record]
    simp only [World.marks_record, List.mem_cons, List.mem_append, List.mem_map, reduceCtorEq,
      and_false, exists_false, false_or] at member
    rcases member with new | old
    · obtain ⟨rfl, rfl, rfl, rfl⟩ := Mark.determined.inj new
      refine ⟨below, Nat.le_refl _, ?_⟩
      have current : (world.lineage queue).current = some other := by
        rw [attributed.lineage, Lineage.current, origins_cons_self, carried]
        rfl
      rwa [← World.lineageAt_length] at current
    · exact attributed.determined other queue deeds filed old
  · intro other known
    rw [World.outcomes_record] at known
    rw [World.fires_record]
    by_cases same : other = fire
    · exact same ▸ below
    · refine attributed.stored other fun absent => known ?_
      exact OutcomeStore.get?_record_none same value absent

theorem enqueued (attributed : Attributed running world) (made : ref.index < world.queues.size)
    (script : Script) : Attributed running (world.enqueue ref script) := by
  let fire : FireId := ⟨world.fires⟩
  have changed := World.queue_enqueue_self made script
  have kept {other : QueueRef} (different : other ≠ ref) :=
    world.queue_enqueue_of_ne different script
  have longer : world.Extends (world.enqueue ref script) := by
    refine ⟨fun other => ?_, fun other deeds past => ?_⟩
    · by_cases here : other = ref
      · subst here
        rw [changed]
        exact List.suffix_cons _ _
      · simp only [kept here, List.suffix_rfl]
    · rw [World.firedAt_enqueue, if_neg]
      rintro ⟨rfl, rfl⟩
      exact Nat.lt_irrefl _ past
  have length_le (other : QueueRef) := (longer.history other).length_le
  have keeps {mark : Mark} (member : mark ∈ world.marks) :
      mark ∈ (world.enqueue ref script).marks := List.mem_cons_of_mem _ member
  have brought : .fired fire ref (world.queue ref).history.length ∈
      (world.enqueue ref script).marks := List.mem_cons_self
  refine ⟨fun other => ?_, fun other item member => ?_, fun item member => ?_, ?_, ?_, ?_⟩
  · by_cases here : other = ref
    · subst here
      have fires : (script.instantiate (some fire)).map Entry.fire =
          List.replicate (script.instantiate (some fire)).length (some fire) := by
        simp [Script.instantiate, Function.comp_def, List.map_const']
      have new : (world.enqueue other script).lineage other = (world.lineage other).after (some fire)
          (.received (script.instantiate (some fire))) := by
        rw [World.lineage, changed, Queue.addEntries, Queue.note, Lineage.ofHistory, longer.past,
          World.firedAt_enqueue, if_pos ⟨rfl, rfl⟩]
      rw [new, attributed.lineage, changed, Queue.addEntries, Queue.note, List.map_append, fires]
      rfl
    · rw [World.lineage, kept here, longer.past]
      exact attributed.lineage other
  · by_cases here : other = ref
    · subst here
      rw [changed] at member
      rcases List.mem_append.1 member with old | new
      · exact (attributed.waiting other item old).imp fun _ => .imp fun _ => .imp_right keeps
      · obtain ⟨entry, _, rfl⟩ := List.mem_map.1 new
        exact ⟨fire, _, rfl, brought⟩
    · rw [kept here] at member
      exact (attributed.waiting other item member).imp fun _ => .imp fun _ => .imp_right keeps
  · exact (attributed.executing item member).imp fun _ => .imp fun _ => .imp_right keeps
  · intro other queue deeds member
    rcases List.mem_cons.1 member with new | old
    · obtain ⟨rfl, rfl, rfl⟩ := Mark.fired.inj new
      rw [changed]
      exact ⟨Nat.lt_succ_self _, Nat.lt_succ_self _⟩
    · obtain ⟨below, past⟩ := attributed.fired other queue deeds old
      exact ⟨Nat.lt_succ_of_lt below, Nat.lt_of_lt_of_le past (length_le queue)⟩
  · intro other queue deeds value member
    rcases List.mem_cons.1 member with new | old
    · cases new
    · obtain ⟨below, past, current⟩ := attributed.determined other queue deeds value old
      rw [longer.lineageAt_eq past]
      exact ⟨Nat.lt_succ_of_lt below, past.trans (length_le queue), current⟩
  · exact fun other known => Nat.lt_succ_of_lt (attributed.stored other known)

theorem made_of_came (attributed : Attributed running world) {entry : Entry}
    (came : world.Came ref entry) : ref.index < world.queues.size := by
  obtain ⟨fire, deeds, _, brought⟩ := came
  have past := (attributed.fired fire ref deeds brought).2
  by_contra missing
  rw [World.queue_of_size_le (Nat.le_of_not_lt missing)] at past
  exact absurd past (Nat.not_lt_zero _)

theorem changed (attributed : Attributed running world) {change : Queue → Queue} {deed : Deed}
    (history : (change (world.queue ref)).history = deed :: (world.queue ref).history)
    (lineage : (world.lineage ref).after none deed =
      ⟨(change (world.queue ref)).entries.map Entry.fire, origins running ref⟩)
    (waiting : ∀ entry ∈ (change (world.queue ref)).entries, world.Came ref entry) :
    Attributed running (world.modifyQueue ref change) := by
  by_cases made : ref.index < world.queues.size
  · exact attributed.noted made history lineage (fun _ _ => rfl) waiting attributed.executing
  · have kept (other : QueueRef) : (world.modifyQueue ref change).queue other = world.queue other := by
      rcases world.queue_modifyQueue_cases ref other change with ⟨_, found, _⟩ | kept
      · exact absurd found made
      · exact kept
    exact attributed.same (fun other => by rw [kept]) (fun other => by rw [kept]) rfl (Nat.le_refl _)
      fun _ known => known

theorem taken (attributed : Attributed running world) {entry : Entry} {rest : Queue}
    (takes : (world.queue ref).nextStep world.now = (.execute entry, rest)) :
    Attributed (⟨ref, entry⟩ :: running) (world.takeUp ref entry rest) := by
  obtain ⟨_, entries, split, rfl⟩ := Queue.nextStep_execute takes
  have came (item : Entry) (member : item ∈ entry :: entries) : world.Came ref item :=
    attributed.waiting ref item (by rw [split]; exact member)
  rw [World.takeUp, World.modifyQueue_modifyQueue]
  refine attributed.noted (attributed.made_of_came (came entry List.mem_cons_self)) rfl ?_ ?_ ?_ ?_
  · rw [attributed.lineage, split, origins_cons_self]
    rfl
  · exact fun other different => origins_cons_of_ne different entry running
  · exact fun item member => came item (List.mem_cons_of_mem entry member)
  · exact List.forall_mem_cons.2 ⟨came entry List.mem_cons_self, attributed.executing⟩

theorem finished {entry : Entry} (attributed : Attributed (⟨ref, entry⟩ :: running) world) :
    Attributed running (world.modifyQueue ref (Queue.note (.executed entry))) := by
  have executing := List.forall_mem_cons.1 attributed.executing
  refine attributed.noted (attributed.made_of_came executing.1) rfl ?_ ?_ (attributed.waiting ref)
    executing.2
  · rw [attributed.lineage, origins_cons_self]
    rfl
  · exact fun other different => (origins_cons_of_ne different entry running).symm

theorem spliced {entry : Entry} (attributed : Attributed (⟨ref, entry⟩ :: running) world)
    {entries : List Entry} (inherit : ∀ item ∈ entries, item.fire = entry.fire) :
    Attributed (⟨ref, entry⟩ :: running)
      (world.modifyQueue ref (Queue.injectEntries 0 entries)) := by
  have fires : entries.map Entry.fire = List.replicate entries.length entry.fire :=
    List.map_eq_replicate_iff.2 inherit
  refine attributed.changed rfl ?_ fun item member => ?_
  · rw [attributed.lineage, Lineage.after, Lineage.current, origins_cons_self,
      Queue.injectEntries, Queue.note]
    simp [fires]
  · rcases List.mem_append.1 member with new | old
    · obtain ⟨fire, deeds, carried, brought⟩ := attributed.executing _ List.mem_cons_self
      exact ⟨fire, deeds, (inherit item (by simpa using new)).trans carried, brought⟩
    · exact attributed.waiting ref item old

theorem strode {terms : Terms} (inherit : ∀ {entry : Entry} {entries : List Entry},
      terms.splice entry entries → ∀ item ∈ entries, item.fire = entry.fire)
    (stride : Stride terms running world other) (attributed : Attributed running world) :
    Attributed running other := by
  cases stride with
  | aside aside =>
      have same (ref : QueueRef) : other.queue ref = world.queue ref := by
        rw [World.queue, World.queue, aside.queues]
      exact attributed.same (fun ref => by rw [same]) (fun ref => by rw [same]) aside.marks
        (Nat.le_of_eq aside.fires.symm) fun fire known => by rwa [aside.outcomes] at known
  | adjust _ _ ref change similar =>
      have same (other : QueueRef) :
          (world.queue other).Similar ((world.modifyQueue ref change).queue other) := by
        rcases world.queue_modifyQueue_cases ref other change with ⟨_, _, changed⟩ | kept
        · rw [changed]
          exact similar _
        · rw [kept]
          exact ⟨rfl, rfl, rfl⟩
      exact attributed.same (fun other => (same other).entries) (fun other => (same other).history)
        rfl (Nat.le_refl _) fun _ known => known
  | make _ _ id kind =>
      have same (ref : QueueRef) :
          ((world.makeQueue id kind).2.queue ref).entries = (world.queue ref).entries ∧
            ((world.makeQueue id kind).2.queue ref).history = (world.queue ref).history := by
        rcases world.queue_makeQueue_cases id kind ref with ⟨new, made⟩ | kept
        · rw [new, made]
          exact ⟨rfl, rfl⟩
        · rw [kept]
          exact ⟨rfl, rfl⟩
      exact attributed.same (fun ref => (same ref).1) (fun ref => (same ref).2) rfl
        (Nat.le_succ _) fun _ known => known
  | clear _ _ ref | close _ _ ref =>
      exact attributed.changed rfl (by rw [attributed.lineage]; rfl)
        fun item member => absurd member List.not_mem_nil
  | launch _ _ ref | dry _ _ ref =>
      exact attributed.changed rfl (by rw [attributed.lineage]; rfl) (attributed.waiting ref)
  | splice _ _ ref allowed => exact attributed.spliced (inherit allowed)
  | record _ _ ref entry value => exact attributed.recorded value

end Attributed

end TagScript
