import TagScript.Proofs.Scheduler.Journal

/-! When an action may start. A timer fires after its delay, less the length of the tick under way
if a callback of that very tick set it: the tick is counted down after its callbacks have run.
Timers set between ticks or by actions are never early. -/

namespace TagScript

open Scheduler (Appointment Journal JournalM Script Program Call Handlers clipped clockRange)

variable {α β μ : Type}

structure Scheduler.Appointment.Ripe (appointment : Appointment α) (time : Nat) : Prop where
  owed_le : appointment.owed ≤ appointment.setAt
  setAt_le : appointment.setAt ≤ time
  deadline_le : appointment.deadline ≤ time + appointment.owed

structure Timer.Patient (time owed : Nat) (timer : Timer (Appointment α)) : Prop where
  owed_le : timer.action.owed ≤ timer.action.setAt
  setAt_le : timer.action.setAt ≤ time
  deadline_le : timer.action.deadline + owed ≤ time + timer.countdown + timer.action.owed

theorem Scheduler.Appointment.Ripe.later {appointment : Appointment α} {time later : Nat}
    (ripe : appointment.Ripe time) (after : time ≤ later) : appointment.Ripe later := by
  obtain ⟨owed_le, setAt_le, deadline_le⟩ := ripe
  exact ⟨owed_le, by omega, by omega⟩

theorem Timer.age_cases (elapsed : Nat) (timer : Timer α) :
    (timer.cancelled = true ∧ timer.age elapsed = (timer, false)) ∨
    (timer.cancelled = false ∧ elapsed < timer.countdown ∧
      timer.age elapsed = ({ timer with countdown := timer.countdown - elapsed }, false)) ∨
    (timer.cancelled = false ∧ timer.countdown ≤ elapsed ∧ timer.timing = .once ∧
      timer.age elapsed =
        ({ timer with countdown := timer.countdown - elapsed, cancelled := true }, true)) ∨
    (∃ period, timer.cancelled = false ∧ timer.countdown ≤ elapsed ∧
      timer.timing = .every period ∧
      timer.age elapsed =
        ({ timer with countdown := timer.countdown - elapsed + max period.nanoseconds 1 },
          true)) := by
  cases cancelled : timer.cancelled with
  | true => exact .inl ⟨rfl, by simp [Timer.age, cancelled]⟩
  | false =>
      by_cases waits : elapsed < timer.countdown
      · exact .inr (.inl ⟨rfl, waits, by simp [Timer.age, cancelled, waits]⟩)
      · cases timing : timer.timing with
        | once =>
            refine .inr (.inr (.inl ⟨rfl, by omega, rfl, ?_⟩))
            simp [Timer.age, cancelled, timing, waits]
        | every period =>
            refine .inr (.inr (.inr ⟨period, rfl, by omega, rfl, ?_⟩))
            simp [Timer.age, cancelled, timing, waits]

namespace Timer.Patient

theorem advance {timer : Timer (Appointment α)} {time elapsed : Nat}
    (patient : timer.Patient time 0) : timer.Patient (time + elapsed) elapsed := by
  obtain ⟨owed_le, setAt_le, deadline_le⟩ := patient
  exact ⟨owed_le, by omega, by omega⟩

theorem age {timer : Timer (Appointment α)} {time elapsed : Nat}
    (patient : timer.Patient time elapsed) :
    (timer.age elapsed).1.cancelled = true ∨ (timer.age elapsed).1.Patient time 0 := by
  obtain ⟨owed_le, setAt_le, deadline_le⟩ := patient
  rcases timer.age_cases elapsed with
    ⟨cancelled, aged⟩ | ⟨_, _, aged⟩ | ⟨_, _, _, aged⟩ | ⟨period, _, _, _, aged⟩
  · rw [aged]
    exact .inl cancelled
  · rw [aged]
    exact .inr ⟨owed_le, setAt_le, by simp only; omega⟩
  · rw [aged]
    exact .inl rfl
  · rw [aged]
    exact .inr ⟨owed_le, setAt_le, by simp only; omega⟩

theorem age_ripe {timer : Timer (Appointment α)} {time elapsed : Nat}
    (patient : timer.Patient time elapsed) (due : (timer.age elapsed).2 = true) :
    (timer.age elapsed).1.action.Ripe time := by
  obtain ⟨owed_le, setAt_le, deadline_le⟩ := patient
  rcases timer.age_cases elapsed with
    ⟨_, aged⟩ | ⟨_, _, aged⟩ | ⟨_, ended, _, aged⟩ | ⟨period, _, ended, _, aged⟩
  · simp [aged] at due
  · simp [aged] at due
  · rw [aged]
    exact ⟨owed_le, setAt_le, by simp only; omega⟩
  · rw [aged]
    exact ⟨owed_le, setAt_le, by simp only; omega⟩

end Timer.Patient

namespace Scheduler

/-- At that time, with that much of a tick still to be counted down, no timer is hasty, what the
pool has to do may be done, and nothing has started too soon. -/
structure Journal.Sound (time owed : Nat) (journal : Journal α β μ) : Prop where
  now : journal.now = time
  owed_le : owed ≤ time
  timers : ∀ timer ∈ journal.scheduler.timers, timer.Patient time owed
  jobs : ∀ id appointment, Job.timer id appointment ∈ journal.scheduler.jobs →
    appointment.Ripe time
  starts : ∀ start ∈ journal.starts, start.appointment.Ripe start.time ∧ start.time ≤ time

namespace Journal.Sound

variable {time owed : Nat} {journal : Journal α β μ}

theorem empty (memory : μ) : (Journal.empty memory : Journal α β μ).Sound 0 0 where
  now := rfl
  owed_le := Nat.le_refl 0
  timers := by simp [Journal.empty, Scheduler.empty]
  jobs := by simp [Journal.empty, Scheduler.empty]
  starts := by simp [Journal.empty]

theorem onScheduler (sound : journal.Sound time owed)
    (change : Scheduler (Appointment α) β → Scheduler (Appointment α) β)
    (now : (change journal.scheduler).now = journal.scheduler.now)
    (timers : ∀ timer ∈ (change journal.scheduler).timers,
      ∃ earlier ∈ journal.scheduler.timers,
        timer.action = earlier.action ∧ timer.countdown = earlier.countdown)
    (jobs : ∀ id appointment, Job.timer id appointment ∈ (change journal.scheduler).jobs →
      Job.timer id appointment ∈ journal.scheduler.jobs) :
    (journal.onScheduler change).Sound time owed where
  now := now.trans sound.now
  owed_le := sound.owed_le
  timers := by
    intro timer member
    obtain ⟨earlier, known, action, countdown⟩ := timers timer member
    obtain ⟨owed_le, setAt_le, deadline_le⟩ := sound.timers earlier known
    rw [← action] at owed_le setAt_le deadline_le
    rw [← countdown] at deadline_le
    exact ⟨owed_le, setAt_le, deadline_le⟩
  jobs := fun id appointment member => sound.jobs id appointment (jobs id appointment member)
  starts := sound.starts

theorem modifyTimer (sound : journal.Sound time owed) (id : TimerId)
    (change : Timer (Appointment α) → Timer (Appointment α))
    (action : ∀ timer, (change timer).action = timer.action)
    (countdown : ∀ timer, (change timer).countdown = timer.countdown) :
    (journal.onScheduler (Scheduler.modifyTimer id change)).Sound time owed := by
  refine sound.onScheduler _ rfl ?_ (fun _ _ member => member)
  intro timer member
  obtain ⟨earlier, known, rfl⟩ := List.mem_map.mp member
  refine ⟨earlier, known, ?_⟩
  split
  · exact ⟨action earlier, countdown earlier⟩
  · exact ⟨rfl, rfl⟩

theorem set (sound : journal.Sound time owed) (plan : Schedule α) :
    (journal.set owed plan).2.Sound time owed where
  now := sound.now
  owed_le := sound.owed_le
  timers := by
    intro timer member
    rcases List.mem_append.mp member with known | new
    · exact sound.timers timer known
    · -- a new timer is set at this time, and owes what is owed
      obtain rfl := List.mem_singleton.mp new
      have now : journal.now = time := sound.now
      have owed_le := sound.owed_le
      refine ⟨?_, ?_, ?_⟩ <;> simp only [Appointment.deadline, now] <;> omega
  jobs := sound.jobs
  starts := sound.starts

theorem start (sound : journal.Sound time owed) {appointment : Appointment α}
    (ripe : appointment.Ripe time) : (journal.start appointment).Sound time owed where
  now := sound.now
  owed_le := sound.owed_le
  timers := sound.timers
  jobs := sound.jobs
  starts := by
    intro start member
    rcases List.mem_cons.mp member with rfl | known
    · have now : journal.now = time := sound.now
      simp only [now]
      exact ⟨ripe, Nat.le_refl time⟩
    · exact sound.starts start known

theorem run (script : Script α β μ) (sound : journal.Sound time owed) :
    (script.run owed journal).2.Sound time owed := by
  induction script generalizing journal with
  | finish => exact sound
  | crash => exact sound
  | set plan next ih => exact ih _ (sound.set plan)
  | cancel id next ih => exact ih (sound.modifyTimer id _ (fun _ => rfl) (fun _ => rfl))
  | post work next ih =>
      exact ih (sound.onScheduler _ rfl (fun timer member => ⟨timer, member, rfl, rfl⟩)
        (fun _ _ member => member))
  | spawn work next ih =>
      refine ih (sound.onScheduler _ rfl (fun timer member => ⟨timer, member, rfl, rfl⟩) ?_)
      intro id appointment member
      simpa [Scheduler.spawn] using member
  | clear next ih =>
      exact ih (sound.onScheduler _ rfl (by simp [Scheduler.clear]) (fun _ _ member => member))
  | look next ih => exact ih _ _ sound
  | keep memory next ih =>
      exact ih ⟨sound.now, sound.owed_le, sound.timers, sound.jobs, sound.starts⟩

theorem begin (sound : journal.Sound time 0) (elapsed : Duration)
    (fits : time + clipped elapsed < clockRange) :
    (journal.onScheduler fun scheduler => (scheduler.advance elapsed).takeInbox.2).Sound
      (time + clipped elapsed) (clipped elapsed) where
  now := by
    have now : journal.scheduler.now = time := sound.now
    simp only [Journal.now, Journal.onScheduler, takeInbox, advance, now]
    exact Nat.mod_eq_of_lt fits
  owed_le := Nat.le_add_left _ _
  timers := fun timer member => (sound.timers timer member).advance
  jobs := fun id appointment member => (sound.jobs id appointment member).later (by omega)
  starts := by
    intro start member
    obtain ⟨ripe, before⟩ := sound.starts start member
    exact ⟨ripe, by omega⟩

theorem handled (program : Program α β μ) (sound : journal.Sound time owed) (message : Message β) :
    (program.handled owed journal message).Sound time owed := by
  cases message with
  | completed id => exact sound.modifyTimer id _ (fun _ => rfl) (fun _ => rfl)
  | callback work => exact sound.run (program.answer work)

theorem aged {elapsed : Nat} (sound : journal.Sound time elapsed) :
    (journal.onScheduler fun _ => (journal.scheduler.collectDue elapsed).2).Sound time 0 where
  now := sound.now
  owed_le := Nat.zero_le time
  timers := by
    intro timer member
    simp only [Journal.onScheduler, collectDue, List.mem_filter, List.map_map, List.mem_map,
      Function.comp_apply] at member
    obtain ⟨⟨earlier, known, rfl⟩, open_⟩ := member
    rcases (sound.timers earlier known).age with cancelled | patient
    · simp [cancelled] at open_
    · exact patient
  jobs := sound.jobs
  starts := sound.starts

theorem due_ripe {elapsed : Nat} (sound : journal.Sound time elapsed) {due : Due (Appointment α)}
    (member : due ∈ (journal.scheduler.collectDue elapsed).1) : due.action.Ripe time := by
  simp only [collectDue, List.mem_map, List.mem_filter] at member
  obtain ⟨_, ⟨⟨timer, known, rfl⟩, ended⟩, rfl⟩ := member
  exact (sound.timers timer known).age_ripe ended

theorem performed (program : Program α β μ) (sound : journal.Sound time 0)
    {appointment : Appointment α} (ripe : appointment.Ripe time) :
    (program.performed appointment journal).Sound time 0 :=
  (sound.start ripe).run (program.act appointment.work)

theorem fired (program : Program α β μ) (sound : journal.Sound time 0)
    {due : Due (Appointment α)} (ripe : due.action.Ripe time) :
    (program.fired journal due).Sound time 0 := by
  unfold Program.fired
  split
  · exact sound.performed program ripe
  · split
    · exact sound
    · have marked := sound.modifyTimer due.id ({ · with inFlight := true }) (fun _ => rfl)
        (fun _ => rfl)
      refine ⟨sound.now, sound.owed_le, marked.timers, ?_, sound.starts⟩
      intro id appointment member
      rcases List.mem_append.mp member with known | new
      · exact sound.jobs id appointment known
      · cases List.mem_singleton.mp new
        exact ripe

theorem counted (program : Program α β μ) {elapsed : Nat} (sound : journal.Sound time elapsed) :
    (program.counted elapsed journal).Sound time 0 :=
  List.foldlRecOn _ program.fired sound.aged
    (fun _ later _ member => later.fired program (sound.due_ripe member))

theorem ticked (program : Program α β μ) (sound : journal.Sound time 0) (elapsed : Duration)
    (fits : time + clipped elapsed < clockRange) :
    (program.ticked elapsed journal).Sound (time + clipped elapsed) 0 := by
  have answered := List.foldlRecOn journal.scheduler.inbox (program.handled (clipped elapsed))
    (sound.begin elapsed fits) (fun _ sound message _ => sound.handled program message)
  exact answered.counted program

theorem worked (program : Program α β μ) (sound : journal.Sound time 0)
    {job : Job (Appointment α) β}
    (ripe : ∀ id appointment, job = .timer id appointment → appointment.Ripe time) :
    (program.worked journal job).Sound time 0 := by
  cases job with
  | timer id appointment =>
      exact (sound.performed program (ripe id appointment rfl)).onScheduler _ rfl
        (fun timer member => ⟨timer, member, rfl, rfl⟩) (fun _ _ member => member)
  | work callback =>
      exact sound.onScheduler _ rfl (fun timer member => ⟨timer, member, rfl, rfl⟩)
        (fun _ _ member => member)

theorem call (program : Program α β μ) (sound : journal.Sound time 0) (call : Call α β μ)
    (fits : time + call.length < clockRange) :
    (call.after program journal).Sound (time + call.length) 0 := by
  cases call with
  | tick elapsed => exact sound.ticked program elapsed fits
  | use script => exact sound.run script
  | work =>
      cases waiting : journal.scheduler.jobs with
      | nil =>
          simp only [Call.after, takeJob?, waiting]
          exact sound
      | cons job rest =>
          simp only [Call.after, takeJob?, waiting]
          have jobs := sound.jobs
          simp only [waiting, List.mem_cons] at jobs
          refine worked program ?_ (fun id appointment same => jobs id appointment (.inl same.symm))
          exact ⟨sound.now, sound.owed_le, sound.timers,
            fun id appointment member => jobs id appointment (.inr member), sound.starts⟩

/-- What a whole run preserves, as long as the clock does not start over. -/
theorem calls (program : Program α β μ) (sound : journal.Sound time 0) (calls : List (Call α β μ))
    (fits : time + spent calls < clockRange) :
    (calls.foldl (Call.after program) journal).Sound (time + spent calls) 0 := by
  induction calls generalizing time journal with
  | nil => exact sound
  | cons call rest ih =>
      simp only [spent, List.map_cons, List.sum_cons] at fits ⊢
      rw [← Nat.add_assoc] at fits ⊢
      exact ih (sound.call program call (by omega)) fits

end Journal.Sound

theorem play_sound (program : Program α β μ) (memory : μ) (calls : List (Call α β μ))
    (fits : spent calls < clockRange) :
    (play program memory calls).Sound (spent calls) 0 := by
  have sound := (Journal.Sound.empty memory).calls program calls (by omega)
  rwa [Nat.zero_add, ← play_eq] at sound

def hasty (delay : Nat) : Program Unit Unit Unit where
  act _ := .finish
  answer _ := .set (.once ⟨delay⟩ ()) fun _ => .finish

def hastyCalls (owed delay : Nat) : List (Call Unit Unit Unit) :=
  [.use (.post () .finish), .tick ⟨owed⟩, .tick ⟨delay - owed⟩]

def hastyJournal (time owed delay : Nat) (countdown : Int) : Journal Unit Unit Unit :=
  let appointment : Appointment Unit := ⟨⟨1⟩, owed, ⟨delay⟩, owed, ()⟩
  ⟨⟨[⟨⟨1⟩, countdown, .once, .inline, appointment, false, false⟩], 2, time, [], []⟩, (), []⟩

theorem clipped_of_lt {elapsed : Nat} (fits : elapsed < clockRange) :
    clipped ⟨elapsed⟩ = elapsed := by
  simp only [clipped]
  omega

theorem hasty_counted_ended (time owed delay elapsed : Nat) {countdown : Int}
    (ended : countdown ≤ elapsed) :
    (hasty delay).counted elapsed (hastyJournal time owed delay countdown) =
      ⟨⟨[], 2, time, [], []⟩, (), [⟨⟨⟨1⟩, owed, ⟨delay⟩, owed, ()⟩, time⟩]⟩ := by
  have reached : ¬ (elapsed : Int) < countdown := Int.not_lt.mpr ended
  simp [Program.counted, hastyJournal, collectDue, Timer.age, reached, hasty, Program.fired,
    Program.performed, Script.run, Timer.due, Journal.start, Journal.onScheduler, Journal.now]

theorem hasty_counted_waits (time owed delay elapsed : Nat) {countdown : Int}
    (waits : elapsed < countdown) :
    (hasty delay).counted elapsed (hastyJournal time owed delay countdown) =
      hastyJournal time owed delay (countdown - elapsed) := by
  simp [Program.counted, hastyJournal, collectDue, Timer.age, waits, Journal.onScheduler]

theorem hasty_ticked_first (delay : Nat) {owed : Nat} (fits : owed < clockRange) :
    (hasty delay).ticked ⟨owed⟩ (Script.run 0 (.post () .finish) (Journal.empty ())).2 =
      (hasty delay).counted owed (hastyJournal owed owed delay delay) := by
  simp [Program.ticked, clipped_of_lt fits, Nat.mod_eq_of_lt fits, hastyJournal, hasty,
    Program.handled, Script.run, Schedule.once, schedule, Scheduler.post, advance, takeInbox,
    Journal.empty, Scheduler.empty, Journal.set, Journal.onScheduler, Journal.now]

theorem hasty_ticked_later (owed delay : Nat) {time elapsed : Nat} (countdown : Int)
    (fits : time + elapsed < clockRange) :
    (hasty delay).ticked ⟨elapsed⟩ (hastyJournal time owed delay countdown) =
      (hasty delay).counted elapsed (hastyJournal (time + elapsed) owed delay countdown) := by
  have whole : clipped ⟨elapsed⟩ = elapsed := clipped_of_lt (by omega)
  simp [Program.ticked, whole, Nat.mod_eq_of_lt fits, hastyJournal, Journal.onScheduler, advance,
    takeInbox]

theorem hasty_starts {owed delay : Nat} (owed_lt : owed < clockRange)
    (delay_lt : delay < clockRange) :
    (play (hasty delay) () (hastyCalls owed delay)).starts =
      [⟨⟨⟨1⟩, owed, ⟨delay⟩, owed, ()⟩, max owed delay⟩] := by
  simp only [play_eq, hastyCalls, List.foldl_cons, List.foldl_nil, Call.after,
    hasty_ticked_first delay owed_lt]
  by_cases within : delay ≤ owed
  · -- it fires in the tick it was set in, and the list is empty from then on
    rw [hasty_counted_ended owed owed delay owed (by omega), Nat.max_eq_left within]
    rfl
  · rw [hasty_counted_waits owed owed delay owed (by omega),
      hasty_ticked_later owed delay _ (by omega),
      hasty_counted_ended _ owed delay _ (by omega)]
    simp only [List.cons.injEq, Start.mk.injEq, true_and, and_true]
    omega

/-- Timers of one delay, set while so much of a tick was owed, are never early in any run in which
the clock does not start over, just if nothing was owed or there was nothing to wait for. Only
callbacks of a tick set timers while it is owed. -/
theorem never_early_iff (owed delay : Nat) :
    (∀ (α β μ : Type) (program : Program α β μ) (memory : μ) (calls : List (Call α β μ)),
      spent calls < clockRange → ∀ start ∈ (play program memory calls).starts,
        start.appointment.owed = owed → start.appointment.delay = ⟨delay⟩ →
          start.appointment.deadline ≤ start.time) ↔
      owed = 0 ∨ delay = 0 ∨ clockRange ≤ owed ∨ clockRange ≤ delay := by
  constructor
  · intro punctual
    refine Decidable.byContradiction fun hurried => ?_
    have early := punctual Unit Unit Unit (hasty delay) () (hastyCalls owed delay)
    have owed_lt : owed < clockRange := by omega
    have delay_lt : delay < clockRange := by omega
    simp only [hasty_starts owed_lt delay_lt, List.mem_singleton, forall_eq, Appointment.deadline,
      forall_const] at early
    have fits : spent (hastyCalls owed delay) < clockRange := by
      simp only [spent, hastyCalls, List.map_cons, List.map_nil, List.sum_cons, List.sum_nil,
        Call.length, clipped]
      omega
    have := early fits
    omega
  · intro exempt α β μ program memory calls fits start member owes waits
    obtain ⟨⟨owed_le, setAt_le, deadline_le⟩, before⟩ :=
      (play_sound program memory calls fits).starts start member
    simp only [Appointment.deadline, waits, owes] at owed_le deadline_le ⊢
    omega

/-- A callback asks for one nanosecond in a tick of five. -/
theorem hasty_early :
    spent (hastyCalls 5 1) < clockRange ∧
      ∃ start ∈ (play (hasty 1) () (hastyCalls 5 1)).starts,
        start.time < start.appointment.deadline := by
  refine ⟨by decide, ⟨⟨⟨1⟩, 5, ⟨1⟩, 5, ()⟩, 5⟩, ?_, by decide⟩
  rw [hasty_starts (by decide) (by decide)]
  exact List.mem_singleton.mpr rfl

end Scheduler

end TagScript
