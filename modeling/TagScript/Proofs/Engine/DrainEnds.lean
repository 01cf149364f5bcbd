import Mathlib.Data.Multiset.DershowitzManna
import TagScript.Proofs.Engine.Ending

/-! Draining a queue comes to an end. The load of a queue is what its entries rank, counted as often as
they stand there. Executing an entry takes away its rank and brings in none but lower ones, however many,
so that loads cannot fall for ever. -/

namespace TagScript

variable {η μ : Type}

namespace Engine

noncomputable def load (engine : Engine η) (library : Script → Prop) (ref : QueueRef)
    (world : World η) : Multiset Ordinal.{0} :=
  (world.queue ref).entries.map (engine.rank library)

def Lightens (light heavy : Multiset Ordinal.{0}) : Prop :=
  light = heavy ∨ light.IsDershowitzMannaLT heavy

namespace Lightens

variable {light between heavy extra : Multiset Ordinal.{0}}

theorem refl (light : Multiset Ordinal.{0}) : Lightens light light := .inl rfl

theorem trans (first : Lightens light between) (second : Lightens between heavy) :
    Lightens light heavy := by
  rcases first with rfl | first
  · exact second
  · rcases second with rfl | second
    · exact .inr first
    · exact .inr (first.trans second)

theorem add_right (lightens : Lightens light heavy) (extra : Multiset Ordinal.{0}) :
    Lightens (light + extra) (heavy + extra) := by
  rcases lightens with rfl | ⟨common, fewer, more, some_, rfl, rfl, below⟩
  · exact .refl _
  · refine .inr ⟨common + extra, fewer, more, some_, ?_, ?_, below⟩
    · exact add_right_comm common fewer extra
    · exact add_right_comm common more extra

theorem of_zero (heavy : Multiset Ordinal.{0}) : Lightens 0 heavy := by
  by_cases empty : heavy = 0
  · exact .inl empty.symm
  · exact .inr ⟨0, 0, heavy, empty, by simp, by simp, by simp⟩

theorem replace {gone : Ordinal.{0}} (lightens : Lightens light (heavy + extra))
    (below : ∀ rank ∈ extra, rank < gone) :
    light.IsDershowitzMannaLT (gone ::ₘ heavy) := by
  have lighter : (heavy + extra).IsDershowitzMannaLT (gone ::ₘ heavy) := by
    refine ⟨heavy, extra, {gone}, by simp, rfl, ?_, fun rank member => ⟨gone, by simp, below rank member⟩⟩
    rw [← Multiset.singleton_add, add_comm]
  rcases lightens with rfl | lightens
  · exact lighter
  · exact lightens.trans lighter

end Lightens

variable {engine : Engine η} {library : Script → Prop} {running : List Running}
  {world later : World η} {ref : QueueRef}

theorem load_congr {entries : List Entry} (same : (world.queue ref).entries = entries) :
    engine.load library ref world = (entries.map (engine.rank library) : List Ordinal.{0}) := by
  rw [load, same]

structure Begun (ref : QueueRef) (world : World η) : Prop where
  made : ref.index < world.queues.size
  past : (world.queue ref).phase ≠ .constructing

namespace Begun

theorem changed (begun : Begun ref world) (other : QueueRef) {change : Queue → Queue}
    (keeps : ∀ queue : Queue, queue.phase ≠ .constructing → (change queue).phase ≠ .constructing) :
    Begun ref (world.modifyQueue other change) := by
  refine ⟨by simpa using begun.made, ?_⟩
  rcases world.queue_modifyQueue_cases other ref change with ⟨_, _, same⟩ | same
  · rw [same]
    exact keeps _ begun.past
  · rw [same]
    exact begun.past

theorem strode {terms : Terms} (begun : Begun ref world)
    (stride : Stride terms running world later) : Begun ref later := by
  cases stride with
  | aside aside =>
      refine ⟨by rw [aside.queues]; exact begun.made, ?_⟩
      rw [World.queue, aside.queues]
      exact begun.past
  | adjust _ _ _ change similar =>
      exact begun.changed _ fun queue old => (similar queue).phase ▸ old
  | make _ _ id kind =>
      refine ⟨Nat.lt_of_lt_of_le begun.made (World.size_le_makeQueue id kind world), ?_⟩
      rcases world.queue_makeQueue_cases id kind ref with ⟨missing, _⟩ | same
      · exact absurd (congrArg Queue.phase missing) begun.past
      · rw [same]
        exact begun.past
  | clear | dry | splice => exact begun.changed _ fun _ old => old
  | close | launch => exact begun.changed _ fun _ _ => Phase.noConfusion
  | record _ _ other entry value =>
      obtain ⟨events, same⟩ := world.record_eq other (entry.fire.getD (world.queue other).fire) value
      rw [same]
      exact ⟨begun.made, begun.past⟩

theorem takeUp (begun : Begun ref world) {other : QueueRef} {entry : Entry} {rest : Queue}
    (taken : (world.queue other).nextStep world.now = (.execute entry, rest)) :
    Begun ref (world.takeUp other entry rest) := by
  obtain ⟨_, entries, _, rfl⟩ := Queue.nextStep_execute taken
  rw [World.takeUp, World.modifyQueue_modifyQueue]
  refine ⟨by simpa using begun.made, ?_⟩
  rcases world.queue_modifyQueue_cases other ref (fun _ =>
    Queue.note (.started entry) { world.queue other with entries }) with ⟨rfl, _, same⟩ | same
  · rw [same]
    exact begun.past
  · rw [same]
    exact begun.past

theorem enqueue (begun : Begun ref world) (other : QueueRef) (script : Script) :
    Begun ref (world.enqueue other script) := by
  have marked : Begun ref (world.freshFire.2.markFired other ⟨world.fires⟩) :=
    ⟨begun.made, begun.past⟩
  exact marked.changed other fun _ old => old

theorem passed {terms : Terms} (begun : Begun ref world)
    (passage : Passage terms running world later) : Begun ref later := by
  refine passage.keeps (fun stride begun => begun.strode stride)
    (fun taken begun => begun.takeUp taken) ?_ ?_ (fun other _ begun => begun.enqueue other _) ?_ begun
  · exact fun other _ begun => begun.changed other fun _ old => old
  · exact fun _ begun => ⟨begun.made, begun.past⟩
  · exact fun _ begun => ⟨begun.made, begun.past⟩

end Begun

def Beneath (engine : Engine η) (library : Script → Prop) (ref : QueueRef) (running : List Running)
    (extra : Multiset Ordinal.{0}) : Prop :=
  ∀ rank ∈ extra, ∃ entry outer, running = ⟨ref, entry⟩ :: outer ∧ rank < engine.rank library entry

def Burdens (engine : Engine η) (library : Script → Prop) (ref : QueueRef) (running : List Running)
    (world later : World η) : Prop :=
  ∃ extra, engine.Beneath library ref running extra ∧
    Lightens (engine.load library ref later) (engine.load library ref world + extra)

namespace Burdens

theorem of_lightens
    (lightens : Lightens (engine.load library ref later) (engine.load library ref world)) :
    engine.Burdens library ref running world later :=
  ⟨0, by simp [Beneath], by rwa [add_zero]⟩

theorem of_same (same : (later.queue ref).entries = (world.queue ref).entries) :
    engine.Burdens library ref running world later :=
  of_lightens (.inl (by rw [load, load, same]))

theorem trans {between : World η} (first : engine.Burdens library ref running world between)
    (second : engine.Burdens library ref running between later) :
    engine.Burdens library ref running world later := by
  obtain ⟨extra, below, lighter⟩ := first
  obtain ⟨more, alsoBelow, alsoLighter⟩ := second
  refine ⟨extra + more, fun rank member => ?_, ?_⟩
  · exact (Multiset.mem_add.1 member).elim (below rank) (alsoBelow rank)
  · rw [← add_assoc]
    exact alsoLighter.trans (lighter.add_right more)

theorem changed (other : QueueRef) {change : Queue → Queue}
    (fewer : ∀ queue : Queue, (change queue).entries = queue.entries ∨ (change queue).entries = []) :
    engine.Burdens library ref running world (world.modifyQueue other change) := by
  rcases world.queue_modifyQueue_cases other ref change with ⟨_, _, same⟩ | same
  · rcases fewer (world.queue ref) with kept | gone
    · exact of_same (by rw [same, kept])
    · refine of_lightens ?_
      rw [load_congr (by rw [same, gone] : _ = [])]
      exact .of_zero _
  · exact of_same (by rw [same])

theorem strode (begun : Begun ref world)
    (stride : Stride (engine.descent library) running world later) :
    engine.Burdens library ref running world later := by
  cases stride with
  | aside aside => exact of_same (by rw [World.queue, aside.queues]; rfl)
  | adjust _ _ _ change similar => exact changed _ fun queue => .inl (similar queue).entries
  | make _ _ id kind =>
      rcases world.queue_makeQueue_cases id kind ref with ⟨missing, _⟩ | same
      · exact absurd (congrArg Queue.phase missing) begun.past
      · exact of_same (by rw [same])
  | clear | close => exact changed _ fun _ => .inr rfl
  | launch | dry => exact changed _ fun _ => .inl rfl
  | @splice running _ other entry entries allowed =>
      rcases world.queue_modifyQueue_cases other ref (Queue.injectEntries 0 entries) with
        ⟨rfl, _, same⟩ | same
      · refine ⟨entries.map (engine.rank library), fun rank member => ?_, .inl ?_⟩
        · obtain ⟨item, known, rfl⟩ := List.mem_map.1 (Multiset.mem_coe.1 member)
          exact ⟨entry, running, rfl, (allowed item known).2⟩
        · rw [load, load, same, Multiset.coe_add, Multiset.coe_eq_coe]
          simpa [Queue.injectEntries, Queue.note] using List.perm_append_comm
      · exact of_same (by rw [same])
  | record _ _ other entry value =>
      obtain ⟨events, same⟩ := world.record_eq other (entry.fire.getD (world.queue other).fire) value
      exact of_same (by rw [same]; rfl)

end Burdens

theorem load_executed {other : QueueRef} {entry : Entry} {rest : Queue}
    (made : ref.index < world.queues.size)
    (taken : (world.queue other).nextStep world.now = (.execute entry, rest))
    (burdens : engine.Burdens library ref (⟨other, entry⟩ :: running)
      (world.takeUp other entry rest) later) :
    Lightens (engine.load library ref later) (engine.load library ref world) ∧
      (other = ref →
        (engine.load library ref later).IsDershowitzMannaLT (engine.load library ref world)) := by
  obtain ⟨_, entries, found, rfl⟩ := Queue.nextStep_execute taken
  rw [World.takeUp, World.modifyQueue_modifyQueue] at burdens
  obtain ⟨extra, below, lighter⟩ := burdens
  by_cases same : other = ref
  · subst same
    have lower : ∀ rank ∈ extra, rank < engine.rank library entry := by
      intro rank member
      obtain ⟨_, _, split, lower⟩ := below rank member
      cases split
      exact lower
    have falls := lighter.replace lower
    have left := congrArg Queue.entries (World.queue_modifyQueue_self made fun _ =>
      Queue.note (.started entry) { world.queue other with entries })
    rw [load_congr left] at falls
    rw [load_congr found, List.map_cons, ← Multiset.cons_coe]
    exact ⟨.inr falls, fun _ => falls⟩
  · have nothing : extra = 0 := by
      refine Multiset.eq_zero_of_forall_notMem fun rank member => ?_
      obtain ⟨_, _, split, _⟩ := below rank member
      cases split
      exact same rfl
    rw [nothing, add_zero, load, load, World.queue_modifyQueue_of_ne (Ne.symm same)] at lighter
    exact ⟨lighter, fun equal => absurd equal same⟩

theorem Burdens.passed (passage : Passage (engine.descent library) running world later)
    (inner : running ≠ []) (begun : Begun ref world) :
    engine.Burdens library ref running world later := by
  induction passage with
  | refl => exact .of_same rfl
  | step passage stride ih => exact (ih inner begun).trans (.strode (begun.passed passage) stride)
  | @execute running world between later other entry rest passage taken inside ih within =>
      have there := begun.passed passage
      have lightens := load_executed there.made taken (within (by simp) (there.takeUp taken))
      exact (ih inner begun).trans ((of_lightens lightens.1).trans (changed other fun _ => .inl rfl))
  | call passage few inside ih within =>
      have there := begun.passed passage
      exact (ih inner begun).trans (within inner ⟨there.made, there.past⟩)
  | @fire running world between later other script passage granted made joins inside ih within =>
      have there := begun.passed passage
      have apart : ref ≠ other := by
        rintro rfl
        rcases joins with sharing | outer | new
        · cases sharing
        · exact inner outer
        · exact there.past new
      have untouched : (between.enqueue other script).queue ref = between.queue ref :=
        World.queue_modifyQueue_of_ne apart _ _
      obtain ⟨outcomes, told⟩ := later.conclude_eq other ⟨between.fires⟩
      have ended : engine.Burdens library ref running later (later.conclude other ⟨between.fires⟩) :=
        of_same (by rw [told]; rfl)
      exact (((ih inner begun).trans (of_same (by rw [untouched]))).trans
        (within inner (there.enqueue other script))).trans ended

theorem executed_lighter {entry : Entry} (begun : Begun ref world)
    (executed : Executed (engine.descent library) running ref entry world later) :
    (engine.load library ref later).IsDershowitzMannaLT (engine.load library ref world) := by
  obtain ⟨rest, inside, taken, passage, rfl⟩ := executed
  have burdens := Burdens.passed passage (by simp) (begun.takeUp taken)
  have lighter := (load_executed begun.made taken burdens).2 rfl
  have same : engine.load library ref (inside.modifyQueue ref (Queue.note (.executed entry))) =
      engine.load library ref inside := by
    rw [load, load, World.queue_modifyQueue_self]
    · rfl
    · exact (begun.takeUp taken |>.passed passage).made
  rwa [same]

open Filter in
theorem drains_tame {terminating : engine.Terminating library} {regime : Tag.Regime μ} {calls : Nat}
    {fire : μ → Firing η}
    (executes : Executes (.tame terminating regime calls) engine fire running) (ref : QueueRef)
    {budget : μ → Nat} (grows : Tendsto budget regime.among atTop) :
    Drains (.tame terminating regime calls) engine fire running budget ref := by
  intro start fit started
  have descends : WellFounded fun light heavy : Multiset Ordinal.{0} =>
    light.IsDershowitzMannaLT heavy := Multiset.wellFounded_isDershowitzMannaLT
  generalize heavy : engine.load library ref start.world = load
  induction load using descends.induction generalizing start budget with
  | h load ih =>
      have turns : ∀ᶠ way in regime.among, (engine.drain (fire way) ref (budget way)).run start =
          (engine.drainOnce (fire way) ref (engine.drain (fire way) ref (budget way - 1))).run start := by
        refine (grows.eventually_ge_atTop 1).mono fun way enough => ?_
        rw [← engine.drain_succ, Nat.sub_add_cancel enough]
      refine .congr (drainOnce_yields executes fit fun entry later executed => ?_) turns
      obtain ⟨rest, inside, taken, passage, same⟩ := executed
      obtain ⟨_, entries, found, _⟩ := Queue.nextStep_execute taken
      have made : ref.index < start.world.queues.size := by
        by_contra missing
        rw [World.queue_of_size_le (Nat.le_of_not_lt missing)] at found
        cases found
      have begun : Begun ref start.world := ⟨made, started made⟩
      have executed : Executed (engine.descent library) running ref entry start.world later.world :=
        ⟨rest, inside, taken, passage, same⟩
      have reached : Passage (engine.descent library) running start.world later.world :=
        executed.passage
      have fewer : Tendsto (fun way => budget way - 1) regime.among atTop :=
        (tendsto_sub_atTop_nat 1).comp grows
      exact (ih _ (heavy ▸ executed_lighter begun executed) fewer later
        ((Charter.tame terminating regime calls).passes reached fit)
        (fun _ => (begun.passed reached).past) rfl).weaken fun _ _ last => reached.trans last

end Engine

end TagScript
