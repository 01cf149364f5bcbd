import Mathlib.Data.List.Induction
import TagScript.Proofs.Scheduler.Interleaving
import TagScript.Proofs.Scheduler.Punctuality
import TagScript.Queue.Basic

/-! The limits of time. The clock takes 64 bits: until the ticks have filled them it never goes back,
and a delay that is over stays over; then it starts anew. A countdown takes 128 bits with a sign, and
needs no more of them in fewer than `2 ^ 60` ticks. -/

namespace TagScript

open Scheduler (clipped clockRange)

variable {α β : Type}

def wideRange : Nat := Nat.pow 2 127

def wide? (number : Int) : Option Int :=
  if -wideRange ≤ number ∧ number < wideRange then some number else none

theorem wide?_eq_some {number : Int} (low : -wideRange ≤ number) (high : number < wideRange) :
    wide? number = some number :=
  if_pos ⟨low, high⟩

theorem wideRange_eq : wideRange = 2 ^ 127 := rfl

/-- The timer is to be set on terms that lengths of time can express. -/
structure Schedule.Admitted (plan : Schedule α) : Prop where
  delay : plan.delay.nanoseconds ≤ Duration.longest.nanoseconds
  period : ∀ period, plan.timing = .every period →
    period.nanoseconds ≤ Duration.longest.nanoseconds

namespace Timer

def age? (elapsed : Nat) (timer : Timer α) : Option (Timer α × Bool) :=
  if timer.cancelled then some (timer, false)
  else do
    let countdown ← wide? (timer.countdown - elapsed)
    if 0 < countdown then return ({ timer with countdown }, false)
    else match timer.timing with
      | .once => return ({ timer with countdown, cancelled := true }, true)
      | .every period => do
        let period ← wide? period.nanoseconds
        let countdown ← wide? (countdown + max period 1)
        return ({ timer with countdown }, true)

structure Moderate (spent owed : Nat) (timer : Timer α) : Prop where
  low : owed ≤ timer.countdown + spent
  high : timer.countdown ≤ Duration.longest.nanoseconds
  period : ∀ period, timer.timing = .every period →
    period.nanoseconds ≤ Duration.longest.nanoseconds

namespace Moderate

variable {timer : Timer α} {spent owed : Nat}

theorem begin (moderate : timer.Moderate spent 0) (elapsed : Nat) :
    timer.Moderate (spent + elapsed) elapsed := by
  obtain ⟨low, high, period⟩ := moderate
  exact ⟨by omega, high, period⟩

theorem age (moderate : timer.Moderate spent owed) : (timer.age owed).1.Moderate spent 0 := by
  obtain ⟨low, high, period⟩ := moderate
  have positive : 1 ≤ Duration.longest.nanoseconds := by decide
  rcases timer.age_cases owed with
    ⟨_, aged⟩ | ⟨_, _, aged⟩ | ⟨_, _, _, aged⟩ | ⟨length, _, ended, timing, aged⟩
  · rw [aged]
    exact ⟨by simp only; omega, high, period⟩
  · rw [aged]
    exact ⟨by simp only; omega, by simp only; omega, period⟩
  · rw [aged]
    exact ⟨by simp only; omega, by simp only; omega, period⟩
  · rw [aged]
    have bound := period length timing
    exact ⟨by simp only; omega, by simp only; omega, period⟩

theorem age?_eq (moderate : timer.Moderate spent owed) (room : spent ≤ 2 ^ 124) :
    timer.age? owed = some (timer.age owed) := by
  obtain ⟨low, high, period⟩ := moderate
  have longest_lt : Duration.longest.nanoseconds < 2 ^ 126 := by decide
  have range := wideRange_eq
  have left : wide? (timer.countdown - owed) = some (timer.countdown - owed) :=
    wide?_eq_some (by omega) (by omega)
  rcases timer.age_cases owed with
    ⟨cancelled, aged⟩ | ⟨stands, waits, aged⟩ | ⟨stands, ended, timing, aged⟩ |
      ⟨length, stands, ended, timing, aged⟩
  · simp [age?, aged, cancelled]
  · simp [age?, aged, stands, left, waits]
  · have expired : ¬ 0 < timer.countdown - (owed : Int) := by omega
    simp only [age?, aged, stands, left, expired, timing, Option.bind_eq_bind, Option.bind_some,
      Bool.false_eq_true, if_false]
    rfl
  · have expired : ¬ 0 < timer.countdown - (owed : Int) := by omega
    have bound := period length timing
    have whole : wide? length.nanoseconds = some (length.nanoseconds : Int) :=
      wide?_eq_some (by omega) (by omega)
    have added : max (length.nanoseconds : Int) 1 = (max length.nanoseconds 1 : Nat) := by omega
    have anew : wide? (timer.countdown - owed + (max length.nanoseconds 1 : Nat)) =
        some (timer.countdown - owed + (max length.nanoseconds 1 : Nat)) :=
      wide?_eq_some (by omega) (by omega)
    simp only [age?, aged, stands, left, expired, timing, whole, added, anew, Option.bind_eq_bind,
      Option.bind_some, Bool.false_eq_true, if_false]
    rfl

end Moderate

theorem mapM_age?_eq {timers : List (Timer α)} {spent owed : Nat}
    (moderate : ∀ timer ∈ timers, timer.Moderate spent owed) (room : spent ≤ 2 ^ 124) :
    timers.mapM (age? owed) = some (timers.map (Timer.age owed)) := by
  induction timers with
  | nil => rfl
  | cons timer rest ih =>
      obtain ⟨first, others⟩ := List.forall_mem_cons.1 moderate
      simp [List.mapM_cons, first.age?_eq room, ih others]

end Timer

namespace Scheduler

def schedule? (plan : Schedule α) (scheduler : Scheduler α β) :
    Option (TimerId × Scheduler α β) :=
  (wide? plan.delay.nanoseconds).map fun _ => scheduler.schedule plan

def collectDue? (elapsed : Nat) (scheduler : Scheduler α β) :
    Option (List (Due α) × Scheduler α β) := do
  let aged ← scheduler.timers.mapM (Timer.age? elapsed)
  return ((aged.filter (·.2)).map (·.1.due),
    { scheduler with timers := (aged.map (·.1)).filter (!·.cancelled) })

end Scheduler

theorem Queue.isDelayed_later {queue : Queue} {now later : Duration}
    (forward : now.nanoseconds ≤ later.nanoseconds) (past : queue.isDelayed now = false) :
    queue.isDelayed later = false := by
  unfold Queue.isDelayed at past ⊢
  cases deadline : queue.delayUntil with
  | none => rfl
  | some deadline =>
      simp only [deadline, Option.any_some, decide_eq_false_iff_not, Nat.not_lt] at past ⊢
      exact Nat.le_trans past forward

namespace Scheduler

/-! The clock. -/

def Happening.elapsed : Happening α β → Nat
  | .began elapsed => clipped elapsed
  | _ => 0

def elapsedIn (happenings : List (Happening α β)) : Nat := (happenings.map Happening.elapsed).sum

variable {first last : Workshop α β} {happening : Happening α β}
  {happenings : List (Happening α β)}

theorem elapsedIn_append (early late : List (Happening α β)) :
    elapsedIn (early ++ late) = elapsedIn early + elapsedIn late := by
  simp [elapsedIn]

theorem elapsedIn_cons (happening : Happening α β) (rest : List (Happening α β)) :
    elapsedIn (happening :: rest) = happening.elapsed + elapsedIn rest := by
  simp [elapsedIn]

theorem clipped_lt (elapsed : Duration) : clipped elapsed < clockRange := by
  have positive : 0 < clockRange := by decide
  simp only [clipped]
  omega

theorem Happening.elapsed_lt (happening : Happening α β) : happening.elapsed < clockRange := by
  cases happening with
  | began elapsed => exact clipped_lt elapsed
  | _ => exact (show 0 < clockRange by decide)

theorem elapsedIn_le (happenings : List (Happening α β)) :
    elapsedIn happenings ≤ happenings.countP Happening.isBegin * clockRange := by
  induction happenings with
  | nil => exact Nat.zero_le _
  | cons happening rest ih =>
      rw [elapsedIn_cons, List.countP_cons, Nat.add_mul]
      cases happening with
      | began elapsed =>
          have bound := (Happening.began elapsed : Happening α β).elapsed_lt
          simp only [Happening.isBegin, if_true, Nat.one_mul]
          omega
      | _ => simpa [Happening.elapsed, Happening.isBegin] using ih

theorem Step.now_eq (step : Step first happening last) (fits : first.scheduler.now < clockRange) :
    last.scheduler.now = (first.scheduler.now + happening.elapsed) % clockRange := by
  have stays : first.scheduler.now = (first.scheduler.now + 0) % clockRange :=
    (Nat.mod_eq_of_lt fits).symm
  cases step with
  | began elapsed scheduler pool => rfl
  | asked ask scheduler thread pool => cases ask <;> exact stays
  | _ => exact stays

theorem Runs.now_eq (runs : Runs first happenings last) (fits : first.scheduler.now < clockRange) :
    last.scheduler.now = (first.scheduler.now + elapsedIn happenings) % clockRange := by
  induction runs with
  | nil workshop => exact (Nat.mod_eq_of_lt fits).symm
  | cons step _ ih =>
      have moved := step.now_eq fits
      have positive : 0 < clockRange := by decide
      rw [ih (moved ▸ Nat.mod_lt _ positive), moved, Nat.mod_add_mod, elapsedIn_cons, Nat.add_assoc]

theorem Runs.now_start (runs : Runs .start happenings last) :
    last.scheduler.now = elapsedIn happenings % clockRange := by
  have positive : 0 < clockRange := by decide
  have now := runs.now_eq positive
  rwa [show (Workshop.start : Workshop α β).scheduler.now = 0 from rfl, Nat.zero_add] at now

theorem exists_overrun (long : clockRange ≤ elapsedIn happenings) :
    ∃ early happening late, happenings = early ++ happening :: late ∧
      elapsedIn early < clockRange ∧ clockRange ≤ elapsedIn early + happening.elapsed := by
  -- From the end, so that the tick that is found is the first one too many.
  induction happenings using List.reverseRecOn with
  | nil => exact absurd long (Nat.not_le_of_lt (show 0 < clockRange by decide))
  | append_singleton early happening ih =>
      by_cases sooner : clockRange ≤ elapsedIn early
      · obtain ⟨before, overrun, late, rfl, within, full⟩ := ih sooner
        exact ⟨before, overrun, late ++ [happening], by simp, within, full⟩
      · rw [elapsedIn_append] at long
        exact ⟨early, happening, [], rfl, Nat.lt_of_not_le sooner, long⟩

/-! Countdowns. -/

def Thread.owed : Thread α β → Nat
  | answering elapsed _ | inCallback elapsed _ => elapsed
  | idle | firing _ | inAction _ => 0

def Happening.Admitted : Happening α β → Prop
  | .asked (.set plan) => plan.Admitted
  | _ => True

/-- The countdowns that are set or changed come out in 128 bits as they do without a limit. -/
def Happening.Exact (before : Workshop α β) : Happening α β → Prop
  | .asked (.set plan) => before.scheduler.schedule? plan = some (before.scheduler.schedule plan)
  | .counted => before.scheduler.collectDue? before.thread.owed =
      some (before.scheduler.collectDue before.thread.owed)
  | _ => True

structure Workshop.Moderate (spent : Nat) (workshop : Workshop α β) : Prop where
  owed_le : workshop.thread.owed ≤ spent
  timers : ∀ timer ∈ workshop.scheduler.timers, timer.Moderate spent workshop.thread.owed

namespace Workshop.Moderate

variable {spent : Nat}

theorem start : (start : Workshop α β).Moderate 0 :=
  ⟨Nat.le_refl 0, fun _ member => absurd member List.not_mem_nil⟩

theorem modifyTimer (moderate : first.Moderate spent) (id : TimerId) {change : Timer α → Timer α}
    (keeps : ∀ timer, (change timer).countdown = timer.countdown ∧ (change timer).timing = timer.timing)
    (owed : last.thread.owed = first.thread.owed)
    (timers : last.scheduler.timers = (first.scheduler.modifyTimer id change).timers) :
    last.Moderate spent := by
  refine ⟨owed ▸ moderate.owed_le, fun timer member => ?_⟩
  rw [timers] at member
  obtain ⟨earlier, known, rfl⟩ := List.mem_map.1 member
  rw [owed]
  split
  · obtain ⟨low, high, period⟩ := moderate.timers earlier known
    obtain ⟨countdown, timing⟩ := keeps earlier
    exact ⟨countdown ▸ low, countdown ▸ high, timing ▸ period⟩
  · exact moderate.timers earlier known

theorem asked (moderate : first.Moderate spent) {ask : Ask α β}
    (admitted : (Happening.asked ask).Admitted) :
    Moderate spent { first with scheduler := ask.apply first.scheduler } := by
  cases ask with
  | set plan =>
      refine ⟨moderate.owed_le, fun timer member => ?_⟩
      rcases List.mem_append.1 member with known | new
      · exact moderate.timers timer known
      · obtain rfl := List.mem_singleton.1 new
        have owed_le := moderate.owed_le
        have delay := admitted.delay
        exact ⟨by simp only; omega, by simp only; omega, admitted.period⟩
  | cancel id => exact moderate.modifyTimer id (by simp) rfl rfl
  | clear => exact ⟨moderate.owed_le, fun _ member => absurd member List.not_mem_nil⟩
  | _ => exact ⟨moderate.owed_le, moderate.timers⟩

theorem counted {scheduler : Scheduler α β} {elapsed : Nat} {pool : List (Job α β)}
    (moderate : Moderate spent ⟨scheduler, .answering elapsed [], pool⟩) :
    Moderate spent
      ⟨(scheduler.collectDue elapsed).2, .firing (scheduler.collectDue elapsed).1, pool⟩ := by
  refine ⟨Nat.zero_le _, fun timer member => ?_⟩
  obtain ⟨listed, _⟩ := List.mem_filter.1 member
  obtain ⟨result, known, rfl⟩ := List.mem_map.1 listed
  obtain ⟨earlier, old, rfl⟩ := List.mem_map.1 known
  exact (moderate.timers earlier old).age

theorem step (moderate : first.Moderate spent) (admitted : happening.Admitted)
    (step : Step first happening last) : last.Moderate (spent + happening.elapsed) := by
  cases step with
  | asked ask scheduler thread pool => exact moderate.asked admitted
  | began elapsed scheduler pool =>
      exact ⟨Nat.le_add_left _ _, fun timer member => (moderate.timers timer member).begin _⟩
  | completed id scheduler elapsed left pool =>
      exact moderate.modifyTimer id (by simp) rfl rfl
  | counted scheduler elapsed pool => exact moderate.counted
  | @dispatched due scheduler worker free left pool =>
      exact moderate.modifyTimer due.id (by simp) rfl rfl
  | _ => exact ⟨moderate.owed_le, moderate.timers⟩

theorem runs (moderate : first.Moderate spent) (runs : Runs first happenings last)
    (admitted : ∀ happening ∈ happenings, happening.Admitted) :
    last.Moderate (spent + elapsedIn happenings) := by
  induction runs generalizing spent with
  | nil workshop => exact moderate
  | cons taken _ ih =>
      obtain ⟨now, later⟩ := List.forall_mem_cons.1 admitted
      rw [elapsedIn_cons, ← Nat.add_assoc]
      exact ih (moderate.step now taken) later

theorem exact_of_admitted (moderate : first.Moderate spent) (room : spent ≤ 2 ^ 124)
    (admitted : happening.Admitted) : happening.Exact first := by
  unfold Happening.Exact
  split
  · rename_i plan
    have longest_lt : Duration.longest.nanoseconds < 2 ^ 126 := by decide
    have range := wideRange_eq
    have delay := Schedule.Admitted.delay admitted
    rw [schedule?, wide?_eq_some (by omega) (by omega)]
    rfl
  · rw [collectDue?, Timer.mapM_age?_eq moderate.timers room]
    rfl
  · trivial

end Workshop.Moderate

/-- In a run of a scheduler the clock never goes back, and no delay that was over is on again, just if
the ticks of the run take less time in all than the clock can tell. In fewer than `2 ^ 60` ticks no
countdown exceeds 128 bits, however long the delays, the periods and the ticks are. -/
theorem Runs.clock_forward_iff (runs : Runs .start happenings last) :
    ((∀ early middle late, happenings = early ++ middle ++ late →
        ∀ before after, Runs .start early before → Runs before middle after →
          before.scheduler.now ≤ after.scheduler.now ∧
          ∀ queue : Queue, queue.isDelayed before.scheduler.time = false →
            queue.isDelayed after.scheduler.time = false) ↔
      elapsedIn happenings < clockRange) ∧
    (happenings.countP Happening.isBegin < 2 ^ 60 →
      (∀ happening ∈ happenings, happening.Admitted) →
      ∀ early happening late, happenings = early ++ happening :: late →
        ∀ before, Runs .start early before → happening.Exact before) := by
  refine ⟨⟨fun forward => ?_, fun short early middle late split before after goes goesOn => ?_⟩, ?_⟩
  · -- The tick at which the clock starts anew ends earlier than it began.
    by_contra long
    obtain ⟨early, happening, late, split, within, full⟩ := exists_overrun (Nat.le_of_not_lt long)
    subst split
    obtain ⟨before, after, goes, step, _⟩ := runs.split_cons
    have kept := (forward early [happening] late (by simp) before after goes (.single step)).1
    have now : before.scheduler.now = elapsedIn early := by
      rw [goes.now_start, Nat.mod_eq_of_lt within]
    have bound := happening.elapsed_lt
    have anew : after.scheduler.now = elapsedIn early + happening.elapsed - clockRange := by
      rw [step.now_eq (now ▸ within), now, Nat.mod_eq_sub_mod full, Nat.mod_eq_of_lt (by omega)]
    omega
  · subst split
    rw [elapsedIn_append, elapsedIn_append] at short
    have now : before.scheduler.now = elapsedIn early := by
      rw [goes.now_start, Nat.mod_eq_of_lt (by omega)]
    have later : after.scheduler.now = elapsedIn early + elapsedIn middle := by
      rw [(goes.append goesOn).now_start, elapsedIn_append, Nat.mod_eq_of_lt (by omega)]
    have kept : before.scheduler.now ≤ after.scheduler.now := by omega
    exact ⟨kept, fun queue past => Queue.isDelayed_later kept past⟩
  · -- No countdown is further below zero than ticks have taken from it, and `2 ^ 124` leaves room for that.
    intro few admitted early happening late split before goes
    have room : elapsedIn early ≤ 2 ^ 124 := by
      have whole := elapsedIn_le happenings
      have parts : elapsedIn happenings = elapsedIn early + elapsedIn (happening :: late) := by
        rw [split, elapsedIn_append]
      rw [show clockRange = 2 ^ 64 from rfl] at whole
      omega
    have known (other : Happening α β) (member : other ∈ early) : other.Admitted :=
      admitted other (split ▸ List.mem_append_left _ member)
    have moderate := Workshop.Moderate.start.runs goes known
    rw [Nat.zero_add] at moderate
    exact moderate.exact_of_admitted room (admitted happening (by simp [split]))

def fullTicks : List (Happening Unit Unit) :=
  let due : Due Unit := ⟨⟨1⟩, .inline, (), false⟩
  [.asked (.set (.repeating ⟨1⟩ ())), .began ⟨clockRange - 2⟩, .counted, .started due,
    .returned false, .ended, .began ⟨1⟩, .counted]

theorem fullTicks_runs : ∃ last, Runs .start fullTicks last := by
  let due : Due Unit := ⟨⟨1⟩, .inline, (), false⟩
  let ticking : Scheduler Unit Unit := (Ask.set (.repeating ⟨1⟩ ())).apply .empty
  let long := (ticking.advance ⟨clockRange - 2⟩).takeInbox.2
  let aged := (long.collectDue (clipped ⟨clockRange - 2⟩)).2
  let short := (aged.advance ⟨1⟩).takeInbox.2
  have fires : (long.collectDue (clipped ⟨clockRange - 2⟩)).1 = [due] := by rfl
  have start : Runs .start [.asked (.set (.repeating ⟨1⟩ ())), .began ⟨clockRange - 2⟩, .counted]
      ⟨aged, .firing [due], []⟩ :=
    fires ▸ .cons (.asked _ _ _ _) (.cons (.began _ _ _) (.single (.counted long _ _)))
  have again : Runs ⟨aged, .firing [due], []⟩
      [.started due, .returned false, .ended, .began ⟨1⟩, .counted]
      ⟨(short.collectDue 1).2, .firing (short.collectDue 1).1, []⟩ :=
    .cons (.started rfl _ _ _) (.cons (.actionReturned false _ _ _) (.cons (.ended _ _)
      (.cons (.began _ _ _) (.single (.counted short _ _)))))
  exact ⟨_, start.append again⟩

theorem clock_forward_iff_fullTicks :
    (∃ last, Runs .start fullTicks last) ∧ elapsedIn fullTicks = clockRange - 1 ∧
      (∀ early middle late, fullTicks = early ++ middle ++ late →
        ∀ before after, Runs .start early before → Runs before middle after →
          before.scheduler.now ≤ after.scheduler.now ∧
          ∀ queue : Queue, queue.isDelayed before.scheduler.time = false →
            queue.isDelayed after.scheduler.time = false) ∧
      ∀ early happening late, fullTicks = early ++ happening :: late →
        ∀ before, Runs .start early before → happening.Exact before := by
  obtain ⟨last, runs⟩ := fullTicks_runs
  have elapsed : elapsedIn fullTicks = clockRange - 1 := by decide
  have plan : (Schedule.repeating ⟨1⟩ ()).Admitted :=
    ⟨by decide, fun period timing => by cases timing; decide⟩
  have admitted : ∀ happening ∈ fullTicks, happening.Admitted := by
    simpa [fullTicks, Happening.Admitted] using plan
  have limits := runs.clock_forward_iff
  exact ⟨⟨last, runs⟩, elapsed, limits.1.2 (by decide), limits.2 (by decide) admitted⟩

theorem Runs.tick_unused {scheduler : Scheduler α β} (timers : scheduler.timers = [])
    (inbox : scheduler.inbox = []) (elapsed : Duration) :
    Runs ⟨scheduler, .idle, []⟩ [.began elapsed, .counted, .ended]
      ⟨scheduler.advance elapsed, .idle, []⟩ := by
  obtain ⟨_, _, _, _, _⟩ := scheduler
  subst timers inbox
  exact .cons (.began _ _ _) (.cons (.counted _ _ _) (.single (.ended _ _)))

/-- Once the clock has one nanosecond left, a tick of one nanosecond starts it anew: a queue whose delay was
over is delayed again. -/
theorem clock_starts_anew :
    ∃ before after : Workshop Unit Unit, ∃ queue : Queue,
      Runs .start [.began ⟨clockRange - 1⟩, .counted, .ended] before ∧
      Runs before [.began ⟨1⟩, .counted, .ended] after ∧
      before.scheduler.now = clockRange - 1 ∧ after.scheduler.now = 0 ∧
      queue.delayUntil = some ⟨5⟩ ∧ queue.isDelayed before.scheduler.time = false ∧
      queue.isDelayed after.scheduler.time = true :=
  ⟨⟨Scheduler.empty.advance ⟨clockRange - 1⟩, .idle, []⟩,
    ⟨(Scheduler.empty.advance ⟨clockRange - 1⟩).advance ⟨1⟩, .idle, []⟩,
    (Queue.make "q" .instant ⟨0⟩).setDelay ⟨5⟩,
    .tick_unused rfl rfl _, .tick_unused rfl rfl _, by decide, by decide, rfl, by decide, by decide⟩

end Scheduler

end TagScript
