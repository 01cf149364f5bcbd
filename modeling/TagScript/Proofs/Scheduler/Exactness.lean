import TagScript.Proofs.Scheduler.Punctuality
import TagScript.Proofs.Scheduler.Request

/-! How often and when a timer fires. What is left of its countdown depends on the lengths of the
ticks alone, so it fires without drift, at most once in a tick, and in the order in which timers
were set. -/

namespace TagScript

open Scheduler (Appointment Journal Script Program Call Request Attended Sets clipped)

variable {α β μ : Type}

theorem Timer.age_id (elapsed : Nat) (timer : Timer α) : (timer.age elapsed).1.id = timer.id := by
  rcases timer.age_cases elapsed with
    ⟨_, aged⟩ | ⟨_, _, aged⟩ | ⟨_, _, _, aged⟩ | ⟨_, _, _, _, aged⟩ <;> rw [aged]

theorem Timer.age_action (elapsed : Nat) (timer : Timer α) :
    (timer.age elapsed).1.action = timer.action := by
  rcases timer.age_cases elapsed with
    ⟨_, aged⟩ | ⟨_, _, aged⟩ | ⟨_, _, _, aged⟩ | ⟨_, _, _, _, aged⟩ <;> rw [aged]

namespace Scheduler

def Job.appointment? : Job (Appointment α) β → Option (Appointment α)
  | .timer _ appointment => some appointment
  | .work _ => none

def leftAfter (timing : Timing) (elapsed : Nat) : Option Int → Option Int
  | none => none
  | some countdown =>
    if elapsed < countdown then some (countdown - elapsed)
    else match timing with
      | .once => none
      | .every period => some (countdown - elapsed + max period.nanoseconds 1)

def firesIn (elapsed : Nat) : Option Int → Nat
  | none => 0
  | some countdown => if elapsed < countdown then 0 else 1

namespace Journal

def started (journal : Journal α β μ) : List TimerId := journal.starts.map (·.appointment.id)

def timerJobs (journal : Journal α β μ) : List (Appointment α) :=
  journal.scheduler.jobs.filterMap Job.appointment?

def dues (elapsed : Nat) (journal : Journal α β μ) : List (Due (Appointment α)) :=
  (journal.scheduler.collectDue elapsed).1

def Rests (id : TimerId) (timing : Timing) : Option Int → Journal α β μ → Prop
  | some countdown, journal => journal.Holds id timing countdown
  | none, journal => journal.timersOf id = []

variable {journal : Journal α β μ}

/-! Counting down. -/

theorem ids_dues (elapsed : Nat) (journal : Journal α β μ) :
    ((journal.dues elapsed).map (·.id)).Sublist (journal.scheduler.timers.map (·.id)) := by
  have ids : (journal.scheduler.timers.map (Timer.age elapsed)).map (·.1.id) =
      journal.scheduler.timers.map (·.id) := by
    simp only [List.map_map]
    exact List.map_congr_left fun timer _ => timer.age_id elapsed
  rw [← ids, dues, collectDue, List.map_map]
  exact List.filter_sublist.map _

theorem Tidy.dues_named (tidy : journal.Tidy) {elapsed : Nat} {due : Due (Appointment α)}
    (member : due ∈ journal.dues elapsed) : due.action.id = due.id := by
  simp only [dues, collectDue, List.mem_map, List.mem_filter] at member
  obtain ⟨_, ⟨⟨timer, known, rfl⟩, _⟩, rfl⟩ := member
  simp only [Timer.due, Timer.age_action, Timer.age_id]
  exact tidy.named timer known

theorem Tidy.dues_below (tidy : journal.Tidy) {elapsed : Nat} {due : Due (Appointment α)}
    (member : due ∈ journal.dues elapsed) : due.action.id.number < journal.nextId := by
  have listed : due.id ∈ journal.scheduler.timers.map (·.id) :=
    (journal.ids_dues elapsed).mem (List.mem_map_of_mem member)
  obtain ⟨timer, known, same⟩ := List.mem_map.mp listed
  rw [tidy.dues_named member, ← same]
  exact tidy.below timer known

theorem Tidy.aged (tidy : journal.Tidy) (elapsed : Nat) :
    (Program.aged elapsed journal).Tidy := by
  refine tidy.of_sublist (fun timer => (timer.age elapsed).1) (Timer.age_id elapsed)
    (Timer.age_action elapsed) ?_ rfl
  simp only [Program.aged, onScheduler, collectDue, List.map_map, Function.comp_def]
  exact List.filter_sublist

theorem timersOf_aged (id : TimerId) (elapsed : Nat) (journal : Journal α β μ) :
    (Program.aged elapsed journal).timersOf id =
      ((journal.timersOf id).map fun timer => (timer.age elapsed).1).filter (!·.cancelled) := by
  simp only [timersOf, Program.aged, onScheduler, collectDue, List.map_map, List.filter_filter,
    List.filter_map, Function.comp_def, Timer.age_id, Bool.and_comm]

theorem filter_dues (id : TimerId) (elapsed : Nat) (journal : Journal α β μ) :
    (journal.dues elapsed).filter (·.id = id) =
      (((journal.timersOf id).map (Timer.age elapsed)).filter (·.2)).map (·.1.due) := by
  simp only [timersOf, dues, collectDue, List.filter_filter, List.filter_map, Function.comp_def,
    Timer.due, Timer.age_id, Bool.and_comm]

theorem Rests.aged {id : TimerId} {timing : Timing} {left : Option Int}
    (rests : journal.Rests id timing left) (elapsed : Nat) :
    (Program.aged elapsed journal).Rests id timing (leftAfter timing elapsed left) ∧
      ((journal.dues elapsed).filter (·.id = id)).length = firesIn elapsed left ∧
      ∀ due ∈ (journal.dues elapsed).filter (·.id = id), due.dispatch = .inline := by
  rw [filter_dues]
  cases left with
  | none =>
      have none : journal.timersOf id = [] := rests
      simp only [leftAfter, firesIn, Rests, timersOf_aged, none]
      simp
  | some countdown =>
      obtain ⟨timer, only, open_, timing_eq, inline, countdown_eq⟩ := rests
      subst timing_eq countdown_eq
      rw [only]
      rcases timer.age_cases elapsed with
        ⟨cancelled, _⟩ | ⟨_, waits, aged⟩ | ⟨_, ended, timing, aged⟩ |
          ⟨period, _, ended, timing, aged⟩
      · rw [open_] at cancelled
        contradiction
      · simp [leftAfter, firesIn, Rests, Holds, timersOf_aged, only, aged, waits, open_, inline]
      · have reached : ¬ (elapsed : Int) < timer.countdown := Int.not_lt.mpr ended
        simp [leftAfter, firesIn, Rests, timersOf_aged, only, aged, reached, timing, inline,
          Timer.due]
      · have reached : ¬ (elapsed : Int) < timer.countdown := Int.not_lt.mpr ended
        simp [leftAfter, firesIn, Rests, Holds, timersOf_aged, only, aged, reached, timing, open_,
          inline, Timer.due]

theorem Rests.attended {id : TimerId} {timing : Timing} {left : Option Int} {after : Journal α β μ}
    {requests : List (Request α)} (rests : journal.Rests id timing left)
    (attended : Attended journal after requests) (known : id.number < journal.nextId)
    (spared : ∀ request ∈ requests, request.Spares id) : after.Rests id timing left := by
  cases left with
  | none => exact attended.gone id known rests
  | some countdown => exact attended.spared id timing countdown known rests spared

end Journal

/-! What scripts, callbacks and fired timers leave of the journal of starts and of the pool. -/

structure Journal.Quiescent (journal after : Journal α β μ) : Prop where
  starts : after.starts = journal.starts
  timerJobs : after.timerJobs = journal.timerJobs

theorem Journal.Quiescent.trans {journal between after : Journal α β μ}
    (first : journal.Quiescent between) (second : between.Quiescent after) : journal.Quiescent after :=
  ⟨second.starts.trans first.starts, second.timerJobs.trans first.timerJobs⟩

theorem Script.run_quiescent (owed : Nat) (script : Script α β μ) (journal : Journal α β μ) :
    journal.Quiescent (script.run owed journal).2 := by
  induction script generalizing journal with
  | finish | crash => exact ⟨rfl, rfl⟩
  | set plan next ih => exact ⟨(ih _ _).starts, (ih _ _).timerJobs⟩
  | cancel id next ih | post work next ih | clear next ih | keep memory next ih =>
      exact ⟨(ih _).starts, (ih _).timerJobs⟩
  | spawn work next ih =>
      refine ⟨(ih _).starts, (ih _).timerJobs.trans ?_⟩
      simp [Journal.timerJobs, Journal.onScheduler, Scheduler.spawn, Job.appointment?]
  | look next ih => exact ih _ _ journal

theorem Script.run_starts (owed : Nat) (script : Script α β μ) (journal : Journal α β μ) :
    (script.run owed journal).2.starts = journal.starts := (script.run_quiescent owed journal).starts

theorem Script.run_timerJobs (owed : Nat) (script : Script α β μ) (journal : Journal α β μ) :
    (script.run owed journal).2.timerJobs = journal.timerJobs :=
  (script.run_quiescent owed journal).timerJobs

namespace Program

variable (program : Program α β μ)

theorem handled_quiescent (owed : Nat) (journal : Journal α β μ) (message : Message β) :
    journal.Quiescent (program.handled owed journal message) := by
  cases message with
  | completed id => exact ⟨rfl, rfl⟩
  | callback work => exact (program.answer work).run_quiescent owed journal

theorem answered_quiescent (elapsed : Duration) (journal : Journal α β μ) :
    journal.Quiescent (program.answered elapsed journal) :=
  List.foldlRecOn (motive := journal.Quiescent) journal.scheduler.inbox
    (program.handled (clipped elapsed)) (⟨rfl, rfl⟩ : journal.Quiescent (begun elapsed journal))
    fun later before message _ => before.trans (program.handled_quiescent _ later message)

theorem performed_started (appointment : Appointment α) (journal : Journal α β μ) :
    (program.performed appointment journal).started = appointment.id :: journal.started := by
  rw [Journal.started, performed, Script.run_starts]
  rfl

theorem performed_timerJobs (appointment : Appointment α) (journal : Journal α β μ) :
    (program.performed appointment journal).timerJobs = journal.timerJobs :=
  Script.run_timerJobs 0 _ _

theorem fired_started (journal : Journal α β μ) (due : Due (Appointment α)) :
    (program.fired journal due).started =
      (if due.dispatch = .inline then [due.action.id] else []) ++ journal.started := by
  unfold fired
  cases dispatch : due.dispatch with
  | inline => exact program.performed_started due.action journal
  | worker =>
      simp only
      split <;> rfl

theorem fired_timerJobs {journal : Journal α β μ} {due : Due (Appointment α)}
    {appointment : Appointment α} (member : appointment ∈ (program.fired journal due).timerJobs) :
    appointment ∈ journal.timerJobs ∨ (due.dispatch = .worker ∧ appointment = due.action) := by
  unfold fired at member
  cases dispatch : due.dispatch with
  | inline =>
      simp only [dispatch, performed_timerJobs] at member
      exact .inl member
  | worker =>
      simp only [dispatch] at member
      split at member
      · exact .inl member
      · simp only [Journal.timerJobs, Journal.onScheduler, dispatchToWorker, Scheduler.spawn,
          modifyTimer, List.filterMap_append, List.mem_append] at member
        rcases member with known | new
        · exact .inl known
        · exact .inr ⟨rfl, by simpa [Job.appointment?] using new⟩

theorem foldl_fired_started (journal : Journal α β μ) (dues : List (Due (Appointment α))) :
    (dues.foldl program.fired journal).started =
      ((dues.filter (·.dispatch = .inline)).map (·.action.id)).reverse ++ journal.started := by
  induction dues generalizing journal with
  | nil => rfl
  | cons due rest ih =>
      rw [List.foldl_cons, ih, fired_started]
      by_cases inline : due.dispatch = .inline
      · simp [inline]
      · simp [inline]

theorem ticked_started (elapsed : Duration) (journal : Journal α β μ) :
    (program.ticked elapsed journal).started =
      ((((program.answered elapsed journal).dues (clipped elapsed)).filter
        (·.dispatch = .inline)).map (·.action.id)).reverse ++ journal.started := by
  have before : (aged (clipped elapsed) (program.answered elapsed journal)).started =
      journal.started := by
    rw [Journal.started, Journal.started, ← (program.answered_quiescent elapsed journal).starts]
    rfl
  rw [← before]
  exact program.foldl_fired_started _ _

theorem ticked_timerJobs {elapsed : Duration} {journal : Journal α β μ}
    {appointment : Appointment α}
    (member : appointment ∈ (program.ticked elapsed journal).timerJobs) :
    appointment ∈ journal.timerJobs ∨
      ∃ due ∈ (program.answered elapsed journal).dues (clipped elapsed),
        due.dispatch = .worker ∧ appointment = due.action := by
  have folded : ∀ (dues : List (Due (Appointment α))) (later : Journal α β μ),
      appointment ∈ (dues.foldl program.fired later).timerJobs →
        appointment ∈ later.timerJobs ∨
          ∃ due ∈ dues, due.dispatch = .worker ∧ appointment = due.action := by
    intro dues
    induction dues with
    | nil => exact fun later known => .inl known
    | cons due rest ih =>
        intro later member
        rcases ih _ member with known | ⟨other, listed, spawned⟩
        · rcases program.fired_timerJobs known with earlier | spawned
          · exact .inl earlier
          · exact .inr ⟨due, List.mem_cons_self, spawned⟩
        · exact .inr ⟨other, List.mem_cons_of_mem _ listed, spawned⟩
  rw [← (program.answered_quiescent elapsed journal).timerJobs]
  exact folded _ (aged (clipped elapsed) (program.answered elapsed journal)) member

end Program

/-! Timers that are known: what has started and what the pool has to do was set before. -/

structure Journal.Known (journal : Journal α β μ) : Prop where
  tidy : journal.Tidy
  jobs : ∀ appointment ∈ journal.timerJobs, appointment.id.number < journal.nextId
  started : ∀ id ∈ journal.started, id.number < journal.nextId

namespace Call

variable (program : Program α β μ)

theorem numbers (journal : Journal α β μ) (call : Call α β μ) :
    ∃ count, (call.after program journal).nextId = journal.nextId + count ∧
      (call.requests program journal).filterMap Request.number? =
        List.range' journal.nextId count := by
  cases call with
  | tick elapsed =>
      obtain ⟨first, nextId, numbers⟩ := (Attended.answered program elapsed journal).numbers
      obtain ⟨second, nextId', numbers'⟩ := (Attended.actions program elapsed journal).numbers
      have same : (Program.aged (clipped elapsed) (program.answered elapsed journal)).nextId =
        (program.answered elapsed journal).nextId := rfl
      refine ⟨first + second, by omega, ?_⟩
      rw [requests, List.filterMap_append, numbers, numbers', same, nextId, List.range'_append_1]
  | use script => exact (Attended.script 0 script journal).numbers
  | work => exact (Attended.work program journal).numbers

theorem nextId_le (journal : Journal α β μ) (call : Call α β μ) :
    journal.nextId ≤ (call.after program journal).nextId := by
  obtain ⟨count, nextId, _⟩ := call.numbers program journal
  omega

theorem tidy {journal : Journal α β μ} (tidy : journal.Tidy) (call : Call α β μ) :
    (call.after program journal).Tidy := by
  cases call with
  | tick elapsed =>
      have answered := (Attended.answered program elapsed journal).tidy tidy
      exact (Attended.actions program elapsed journal).tidy (answered.aged (clipped elapsed))
  | use script => exact (Attended.script 0 script journal).tidy tidy
  | work => exact (Attended.work program journal).tidy tidy

theorem work_cases (journal : Journal α β μ) :
    (Call.work.after program journal).started = journal.started ∧
        (Call.work.after program journal).timerJobs ⊆ journal.timerJobs ∨
      ∃ appointment ∈ journal.timerJobs,
        (Call.work.after program journal).started = appointment.id :: journal.started ∧
        (Call.work.after program journal).timerJobs ⊆ journal.timerJobs := by
  cases waiting : journal.scheduler.jobs with
  | nil =>
      simp only [Call.after, takeJob?, waiting, true_and]
      exact .inl (List.Subset.refl _)
  | cons job rest =>
      simp only [Call.after, takeJob?, waiting]
      have fewer : rest.filterMap Job.appointment? ⊆ journal.timerJobs := by
        rw [Journal.timerJobs, waiting]
        exact ((List.sublist_cons_self job rest).filterMap _).subset
      cases job with
      | timer id appointment =>
          refine .inr ⟨appointment, ?_, ?_, ?_⟩
          · simp [Journal.timerJobs, waiting, Job.appointment?]
          · exact program.performed_started appointment _
          · exact (program.performed_timerJobs appointment _).symm ▸ fewer
      | work callback => exact .inl ⟨rfl, fewer⟩

theorem dues_below {journal : Journal α β μ} (tidy : journal.Tidy) {elapsed : Duration}
    {due : Due (Appointment α)}
    (member : due ∈ (program.answered elapsed journal).dues (clipped elapsed)) :
    due.action.id.number < ((Call.tick elapsed).after program journal).nextId := by
  have answered := (Attended.answered program elapsed journal).tidy tidy
  have below := answered.dues_below member
  exact Nat.lt_of_lt_of_le below (Attended.actions program elapsed journal).nextId_le

theorem known {journal : Journal α β μ} (known : journal.Known) (call : Call α β μ) :
    (call.after program journal).Known := by
  have grows := call.nextId_le program journal
  have jobs_lt : ∀ appointment ∈ journal.timerJobs,
      appointment.id.number < (call.after program journal).nextId := fun appointment member =>
    Nat.lt_of_lt_of_le (known.jobs appointment member) grows
  have started_lt : ∀ id ∈ journal.started,
      id.number < (call.after program journal).nextId := fun id member =>
    Nat.lt_of_lt_of_le (known.started id member) grows
  refine ⟨call.tidy program known.tidy, ?_, ?_⟩
  · intro appointment member
    cases call with
    | tick elapsed =>
        rcases program.ticked_timerJobs member with earlier | ⟨due, listed, _, rfl⟩
        · exact jobs_lt appointment earlier
        · exact dues_below program known.tidy listed
    | use script =>
        simp only [after, Script.run_timerJobs] at member
        exact jobs_lt appointment member
    | work =>
        rcases work_cases program journal with ⟨_, fewer⟩ | ⟨_, _, _, fewer⟩
        · exact jobs_lt appointment (fewer member)
        · exact jobs_lt appointment (fewer member)
  · intro id member
    cases call with
    | tick elapsed =>
        simp only [after, Program.ticked_started, List.mem_append, List.mem_reverse, List.mem_map,
          List.mem_filter] at member
        rcases member with ⟨due, ⟨listed, _⟩, rfl⟩ | earlier
        · exact dues_below program known.tidy listed
        · exact started_lt id earlier
    | use script =>
        simp only [after, Journal.started, Script.run_starts] at member
        exact started_lt id member
    | work =>
        rcases work_cases program journal with ⟨same, _⟩ | ⟨appointment, waiting, same, _⟩
        · rw [same] at member
          exact started_lt id member
        · rw [same] at member
          rcases List.mem_cons.mp member with rfl | earlier
          · exact jobs_lt appointment waiting
          · exact started_lt id earlier

theorem foldl_known {journal : Journal α β μ} (known : journal.Known) (calls : List (Call α β μ)) :
    (calls.foldl (Call.after program) journal).Known :=
  List.foldlRecOn calls (Call.after program) known fun _ known call _ => call.known program known

end Call

/-- What there is to know of one timer that runs during ticks: what is left of its countdown, and
how often it has fired. The pool has no run of it. -/
structure Journal.Follows (id : TimerId) (timing : Timing) (left : Option Int) (fired : Nat)
    (journal : Journal α β μ) : Prop where
  tidy : journal.Tidy
  given : id.number < journal.nextId
  rests : journal.Rests id timing left
  jobs : ∀ appointment ∈ journal.timerJobs, appointment.id ≠ id
  started : journal.started.count id = fired

namespace Call

variable (program : Program α β μ) {journal : Journal α β μ} {id : TimerId}

theorem follows_of_sets (known : journal.Known) {plan : Schedule α}
    (inline : plan.dispatch = .inline) (call : Call α β μ)
    (sets : Sets id plan (call.actionRequests program journal)) :
    (call.after program journal).Follows id plan.timing (some plan.delay.nanoseconds) 0 := by
  have tidy := call.tidy program known.tidy
  have differs {other : TimerId} {next : Nat} (below : other.number < next)
      (above : next ≤ id.number) : other ≠ id := by
    rintro rfl
    omega
  have unstarted {later : Journal α β μ} (others : ∀ other ∈ later.started, other ≠ id) :
      later.started.count id = 0 := List.count_eq_zero.mpr fun member => others id member rfl
  cases call with
  | tick elapsed =>
      have actions := Attended.actions program elapsed journal
      have answered := Attended.answered program elapsed journal
      have answeredTidy := answered.tidy known.tidy
      obtain ⟨above, below⟩ := actions.number_of_sets sets
      have above' : journal.nextId ≤ id.number := Nat.le_trans answered.nextId_le above
      refine ⟨tidy, below, actions.set id plan inline (answeredTidy.aged _) sets, ?_, unstarted ?_⟩
      · intro appointment member
        rcases program.ticked_timerJobs member with earlier | ⟨due, listed, _, rfl⟩
        · exact differs (known.jobs appointment earlier) above'
        · exact differs (answeredTidy.dues_below listed) above
      · intro other member
        simp only [after, Program.ticked_started, List.mem_append, List.mem_reverse, List.mem_map,
          List.mem_filter] at member
        rcases member with ⟨due, ⟨listed, _⟩, rfl⟩ | earlier
        · exact differs (answeredTidy.dues_below listed) above
        · exact differs (known.started other earlier) above'
  | use script =>
      have attended := Attended.script 0 script journal
      obtain ⟨above, below⟩ := attended.number_of_sets sets
      refine ⟨tidy, below, attended.set id plan inline known.tidy sets, ?_, unstarted ?_⟩
      · intro appointment member
        simp only [after, Script.run_timerJobs] at member
        exact differs (known.jobs appointment member) above
      · intro other member
        simp only [after, Journal.started, Script.run_starts] at member
        exact differs (known.started other member) above
  | work =>
      have attended := Attended.work program journal
      obtain ⟨above, below⟩ := attended.number_of_sets sets
      refine ⟨tidy, below, attended.set id plan inline known.tidy sets, ?_, unstarted ?_⟩
      · intro appointment member
        rcases work_cases program journal with ⟨_, fewer⟩ | ⟨_, _, _, fewer⟩
        · exact differs (known.jobs appointment (fewer member)) above
        · exact differs (known.jobs appointment (fewer member)) above
      · intro other member
        rcases work_cases program journal with ⟨same, _⟩ | ⟨appointment, waiting, same, _⟩
        · rw [same] at member
          exact differs (known.started other member) above
        · rw [same] at member
          rcases List.mem_cons.mp member with rfl | earlier
          · exact differs (known.jobs appointment waiting) above
          · exact differs (known.started other earlier) above

def left (timing : Timing) (left : Option Int) : Call α β μ → Option Int
  | tick elapsed => leftAfter timing (clipped elapsed) left
  | use _ | work => left

def firings (left : Option Int) : Call α β μ → Nat
  | tick elapsed => firesIn (clipped elapsed) left
  | use _ | work => 0

theorem count_ticked (elapsed : Duration) {timing : Timing} {rest : Option Int}
    (tidy : (program.answered elapsed journal).Tidy)
    (rests : (program.answered elapsed journal).Rests id timing rest) :
    (program.ticked elapsed journal).started.count id =
      journal.started.count id + firesIn (clipped elapsed) rest := by
  obtain ⟨_, length, inline⟩ := rests.aged (clipped elapsed)
  rw [Program.ticked_started, List.count_append, List.count_reverse, Nat.add_comm, ← length]
  congr 1
  rw [List.count_eq_countP, List.countP_map, List.countP_filter, List.countP_eq_length_filter]
  refine congrArg List.length (List.filter_congr fun due member => ?_)
  have named := tidy.dues_named member
  by_cases same : due.id = id
  · have runs : due.dispatch = .inline := inline due (by simp [member, same])
    simp [named, same, runs]
  · simp [named, same]

theorem follows {timing : Timing} {rest : Option Int} {fired : Nat}
    (follows : journal.Follows id timing rest fired) (call : Call α β μ)
    (spared : ∀ request ∈ call.requests program journal, request.Spares id) :
    (call.after program journal).Follows id timing (call.left timing rest)
      (fired + call.firings rest) := by
  have tidy := call.tidy program follows.tidy
  have given := Nat.lt_of_lt_of_le follows.given (call.nextId_le program journal)
  have callbacks : ∀ request ∈ call.callbackRequests program journal, request.Spares id :=
    fun request member => spared request (List.mem_append_left _ member)
  have actions : ∀ request ∈ call.actionRequests program journal, request.Spares id :=
    fun request member => spared request (List.mem_append_right _ member)
  cases call with
  | tick elapsed =>
      have answered := Attended.answered program elapsed journal
      have fires := Attended.actions program elapsed journal
      have answeredTidy := answered.tidy follows.tidy
      have answeredGiven := Nat.lt_of_lt_of_le follows.given answered.nextId_le
      have answeredRests := follows.rests.attended answered follows.given callbacks
      obtain ⟨agedRests, _, inline⟩ := answeredRests.aged (clipped elapsed)
      refine ⟨tidy, given, agedRests.attended fires answeredGiven actions, ?_, ?_⟩
      · intro appointment member
        rcases program.ticked_timerJobs member with earlier | ⟨due, listed, worker, rfl⟩
        · exact follows.jobs appointment earlier
        · intro same
          rw [answeredTidy.dues_named listed] at same
          have runs := inline due (by simp [listed, same])
          rw [runs] at worker
          contradiction
      · rw [← follows.started]
        exact count_ticked program elapsed answeredTidy answeredRests
  | use script =>
      have attended := Attended.script 0 script journal
      refine ⟨tidy, given, follows.rests.attended attended follows.given actions, ?_, ?_⟩
      · simp only [after, Script.run_timerJobs]
        exact follows.jobs
      · simp only [after, Journal.started, Script.run_starts]
        exact follows.started
  | work =>
      have attended := Attended.work program journal
      refine ⟨tidy, given, follows.rests.attended attended follows.given actions, ?_, ?_⟩
      · intro appointment member
        rcases work_cases program journal with ⟨_, fewer⟩ | ⟨_, _, _, fewer⟩
        · exact follows.jobs appointment (fewer member)
        · exact follows.jobs appointment (fewer member)
      · rcases work_cases program journal with ⟨same, _⟩ | ⟨appointment, waiting, same, _⟩
        · rw [same]
          exact follows.started
        · rw [same, List.count_cons_of_ne (follows.jobs appointment waiting)]
          exact follows.started

def isTick : Call α β μ → Bool
  | tick _ => true
  | use _ | work => false

theorem length_of_not_isTick {call : Call α β μ} (other : call.isTick = false) :
    call.length = 0 := by
  cases call with
  | tick elapsed => contradiction
  | use script => rfl
  | work => rfl

theorem left_every (period : Duration) (countdown : Int) (call : Call α β μ) :
    call.left (.every period) (some countdown) =
      some (countdown + call.firings (some countdown) * (max period.nanoseconds 1 : Nat) -
        call.length) := by
  cases call with
  | tick elapsed =>
      simp only [left, leftAfter, firings, firesIn, length]
      split
      · simp
      · simp only [Option.some.injEq]
        push_cast
        omega
  | use script => simp [left, firings, length]
  | work => simp [left, firings, length]

end Call

variable (program : Program α β μ) {journal : Journal α β μ} {id : TimerId}

theorem spent_of_not_isTick {calls : List (Call α β μ)} (none : calls.any Call.isTick = false) :
    spent calls = 0 := by
  induction calls with
  | nil => rfl
  | cons call rest ih =>
      simp only [List.any_cons, Bool.or_eq_false_iff] at none
      simp only [spent, List.map_cons, List.sum_cons] at ih ⊢
      rw [Call.length_of_not_isTick none.1, ih none.2]

/-- Along a run the countdown is the delay with all periods so far, less the time spent. As long as
no tick is longer than the period, it stays above zero and within one period. -/
theorem follows_every {period : Duration} {countdown : Int} {fired : Nat}
    (follows : journal.Follows id (.every period) (some countdown) fired)
    (calls : List (Call α β μ))
    (spared : ∀ request ∈ requestsOf program journal calls, request.Spares id) :
    ∃ (more : Nat) (rest : Int),
      rest = countdown + more * (max period.nanoseconds 1 : Nat) - spent calls ∧
      (calls.foldl (Call.after program) journal).Follows id (.every period) (some rest)
        (fired + more) ∧
      ((∀ call ∈ calls, call.length ≤ period.nanoseconds) → 0 < countdown →
        countdown ≤ period.nanoseconds → 0 < rest ∧ rest ≤ period.nanoseconds) := by
  induction calls generalizing journal countdown fired with
  | nil => exact ⟨0, countdown, by simp [spent], follows, fun _ low high => ⟨low, high⟩⟩
  | cons call later ih =>
      simp only [requestsOf, gather, List.mem_append] at spared
      have step := call.follows program follows fun request member => spared request (.inl member)
      rw [Call.left_every] at step
      obtain ⟨more, rest, rest_eq, run, bounded⟩ := ih step fun request member =>
        spared request (.inr member)
      refine ⟨call.firings (some countdown) + more, rest, ?_, ?_, ?_⟩
      · rw [rest_eq]
        simp only [spent, List.map_cons, List.sum_cons]
        rw [Int.natCast_add, Int.natCast_add, Int.add_mul]
        omega
      · rw [← Nat.add_assoc]
        exact run
      · intro short low high
        have fits := short call List.mem_cons_self
        refine bounded (fun other member => short other (List.mem_cons_of_mem _ member)) ?_ ?_
        all_goals
          cases call with
          | tick elapsed =>
              simp only [Call.firings, firesIn, Call.length] at fits ⊢
              split <;> omega
          | use script => simpa [Call.firings, Call.length]
          | work => simpa [Call.firings, Call.length]

theorem follows_gone {timing : Timing} {fired : Nat}
    (follows : journal.Follows id timing none fired) (calls : List (Call α β μ))
    (spared : ∀ request ∈ requestsOf program journal calls, request.Spares id) :
    (calls.foldl (Call.after program) journal).Follows id timing none fired := by
  induction calls generalizing journal with
  | nil => exact follows
  | cons call later ih =>
      simp only [requestsOf, gather, List.mem_append] at spared
      have step := call.follows program follows fun request member => spared request (.inl member)
      have stays : call.left timing none = none ∧ call.firings none = 0 := by
        cases call <;> exact ⟨rfl, rfl⟩
      rw [stays.1, stays.2] at step
      exact ih step fun request member => spared request (.inr member)

theorem follows_once {countdown : Int} (follows : journal.Follows id .once (some countdown) 0)
    (calls : List (Call α β μ))
    (spared : ∀ request ∈ requestsOf program journal calls, request.Spares id) :
    if calls.any Call.isTick ∧ countdown ≤ spent calls then
      (calls.foldl (Call.after program) journal).Follows id .once none 1
    else
      (calls.foldl (Call.after program) journal).Follows id .once
        (some (countdown - spent calls)) 0 := by
  induction calls generalizing journal countdown with
  | nil => simpa [spent] using follows
  | cons call later ih =>
      simp only [requestsOf, gather, List.mem_append] at spared
      have step := call.follows program follows fun request member => spared request (.inl member)
      have rest : ∀ request ∈ requestsOf program (call.after program journal) later,
          request.Spares id := fun request member => spared request (.inr member)
      by_cases ends : call.isTick ∧ countdown ≤ call.length
      · have whole : (call :: later).any Call.isTick ∧ countdown ≤ spent (call :: later) := by
          simp only [List.any_cons, ends.1, Bool.true_or, true_and, spent, List.map_cons,
            List.sum_cons]
          omega
        rw [if_pos whole]
        cases call with
        | tick elapsed =>
            have reached : ¬ (clipped elapsed : Int) < countdown := Int.not_lt.mpr ends.2
            simp only [Call.left, leftAfter, Call.firings, firesIn, reached, if_false] at step
            exact follows_gone program step later rest
        | use script => simp [Call.isTick] at ends
        | work => simp [Call.isTick] at ends
      · have waits : call.left .once (some countdown) = some (countdown - call.length) ∧
            call.firings (some countdown) = 0 := by
          cases call with
          | tick elapsed =>
              have early : (clipped elapsed : Int) < countdown := by
                simpa [Call.isTick, Call.length] using ends
              simp [Call.left, leftAfter, Call.firings, firesIn, early, Call.length]
          | use script => simp [Call.left, Call.firings, Call.length]
          | work => simp [Call.left, Call.firings, Call.length]
        rw [waits.1, waits.2] at step
        have run := ih step rest
        have total : spent (call :: later) = call.length + spent later := by
          simp only [spent, List.map_cons, List.sum_cons]
        have same : ((call :: later).any Call.isTick ∧ countdown ≤ spent (call :: later)) ↔
            (later.any Call.isTick ∧ countdown - call.length ≤ spent later) := by
          rw [total, List.any_cons]
          cases ticks : later.any Call.isTick with
          | true =>
              simp only [Bool.or_true, true_and]
              omega
          | false =>
              -- without a tick no more time is spent, and the time so far did not do
              have nothing := spent_of_not_isTick ticks
              simp only [Bool.or_false, Bool.false_eq_true, false_and, iff_false, nothing]
              exact ends
        have left_eq : countdown - spent (call :: later) =
            countdown - call.length - spent later := by
          rw [total]
          omega
        rw [left_eq]
        simpa only [same, List.foldl_cons] using run

theorem requestsOf_numbers (journal : Journal α β μ) (calls : List (Call α β μ)) :
    ∃ count, (requestsOf program journal calls).filterMap Request.number? =
      List.range' journal.nextId count := by
  induction calls generalizing journal with
  | nil => exact ⟨0, rfl⟩
  | cons call rest ih =>
      obtain ⟨first, nextId, numbers⟩ := call.numbers program journal
      obtain ⟨second, later⟩ := ih (call.after program journal)
      simp only [requestsOf] at later
      refine ⟨first + second, ?_⟩
      rw [requestsOf, gather, List.filterMap_append, numbers, later, nextId, List.range'_append_1]

theorem started_tick (tidy : journal.Tidy) (elapsed : Duration) :
    ∃ new, ((Call.tick elapsed).after program journal).started = new ++ journal.started ∧
      new.Pairwise fun later earlier => earlier.number < later.number := by
  refine ⟨_, program.ticked_started elapsed journal, ?_⟩
  have answered := (Attended.answered program elapsed journal).tidy tidy
  have listed : ((program.answered elapsed journal).scheduler.timers.map (·.id)).Pairwise
      fun first second => first.number < second.number := List.pairwise_map.mpr answered.ordered
  have ascending := listed.sublist (Journal.ids_dues (clipped elapsed) _)
  rw [List.pairwise_reverse]
  have named : ∀ due ∈ ((program.answered elapsed journal).dues (clipped elapsed)).filter
      (·.dispatch = .inline), due.action.id = due.id := fun due member =>
    answered.dues_named (List.mem_filter.mp member).1
  rw [List.map_congr_left named]
  exact ascending.sublist (List.filter_sublist.map _)

/-- How often the timer has fired after the calls. -/
def firedAfter (program : Program α β μ) (journal : Journal α β μ) (id : TimerId)
    (calls : List (Call α β μ)) : Nat :=
  (calls.foldl (Call.after program) journal).started.count id

/-- Nobody cancels the timer or clears the scheduler in these calls. -/
def SparedBy (program : Program α β μ) (journal : Journal α β μ) (id : TimerId)
    (calls : List (Call α β μ)) : Prop :=
  ∀ request ∈ requestsOf program journal calls, request.Spares id

/-- From the journal on, which is that of the moment when the timer has just been set, it fires at
the ticks at which it has to, and at no others. -/
structure FiresExactly (program : Program α β μ) (journal : Journal α β μ) (id : TimerId)
    (plan : Schedule α) : Prop where
  every : ∀ period calls elapsed, plan.timing = .every period →
    SparedBy program journal id (calls ++ [.tick elapsed]) →
    firedAfter program journal id (calls ++ [.tick elapsed]) =
      firedAfter program journal id calls +
        if plan.delay.nanoseconds + firedAfter program journal id calls * max period.nanoseconds 1 ≤
          spent (calls ++ [.tick elapsed]) then 1 else 0
  undrifting : ∀ period calls, plan.timing = .every period → plan.delay = period →
    0 < period.nanoseconds → (∀ call ∈ calls, call.length ≤ period.nanoseconds) →
    SparedBy program journal id calls →
    firedAfter program journal id calls = spent calls / period.nanoseconds
  once : ∀ calls, plan.timing = .once → SparedBy program journal id calls →
    firedAfter program journal id calls =
      if calls.any Call.isTick ∧ plan.delay.nanoseconds ≤ spent calls then 1 else 0
  leaves : ∀ calls, plan.timing = .once → SparedBy program journal id calls →
    firedAfter program journal id calls = 1 →
    ∀ timer ∈ (calls.foldl (Call.after program) journal).scheduler.timers, timer.id ≠ id
  inOrder : ∀ calls elapsed, ∃ new,
    ((calls ++ [.tick elapsed]).foldl (Call.after program) journal).started =
      new ++ (calls.foldl (Call.after program) journal).started ∧
    new.Pairwise fun later earlier => earlier.number < later.number

theorem FiresExactly.of_follows {plan : Schedule α}
    (follows : journal.Follows id plan.timing (some plan.delay.nanoseconds) 0) :
    FiresExactly program journal id plan where
  every := by
    intro period calls elapsed timing spared
    rw [timing] at follows
    simp only [SparedBy, requestsOf, gather_append, List.mem_append] at spared
    obtain ⟨more, rest, rest_eq, run, _⟩ := follows_every program follows calls
      fun request member => spared request (.inl member)
    have step := (Call.tick elapsed).follows program run fun request member =>
      spared request (.inr (List.mem_append_left _ member))
    rw [Nat.zero_add] at run step
    have before : firedAfter program journal id calls = more := run.started
    have after : firedAfter program journal id (calls ++ [.tick elapsed]) =
        more + firesIn (clipped elapsed) (some rest) := by
      rw [firedAfter, List.foldl_append]
      exact step.started
    have total : spent (calls ++ [.tick elapsed]) = spent calls + clipped elapsed := by
      simp [spent, Call.length]
    rw [before, after, total, firesIn]
    have same : (clipped elapsed : Int) < rest ↔
        ¬ plan.delay.nanoseconds + more * max period.nanoseconds 1 ≤
          spent calls + clipped elapsed := by
      rw [rest_eq, ← Int.natCast_mul]
      omega
    by_cases reached : plan.delay.nanoseconds + more * max period.nanoseconds 1 ≤
        spent calls + clipped elapsed
    · rw [if_pos reached, if_neg (fun early => same.mp early reached)]
    · rw [if_neg reached, if_pos (same.mpr reached)]
  undrifting := by
    intro period calls timing delay positive short spared
    rw [timing, delay] at follows
    obtain ⟨more, rest, rest_eq, run, bounded⟩ := follows_every program follows calls spared
    obtain ⟨low, high⟩ := bounded short (by omega) (by omega)
    have fired : firedAfter program journal id calls = more := by
      rw [← Nat.zero_add more]
      exact run.started
    rw [fired]
    have whole : max period.nanoseconds 1 = period.nanoseconds := Nat.max_eq_left positive
    rw [rest_eq, whole, ← Int.natCast_mul] at low high
    -- so many whole periods are over, and the next one is not
    refine (Nat.div_eq_of_lt_le ?_ ?_).symm
    · omega
    · rw [Nat.add_mul]
      omega
  once := by
    intro calls timing spared
    rw [timing] at follows
    have run := follows_once program follows calls spared
    by_cases ended : calls.any Call.isTick ∧ plan.delay.nanoseconds ≤ spent calls
    · rw [if_pos (by simpa using ended)] at run
      rw [if_pos ended]
      exact run.started
    · rw [if_neg (by simpa using ended)] at run
      rw [if_neg ended]
      exact run.started
  leaves := by
    intro calls timing spared fired timer member same
    rw [timing] at follows
    have run := follows_once program follows calls spared
    by_cases ended : calls.any Call.isTick ∧ plan.delay.nanoseconds ≤ spent calls
    · rw [if_pos (by simpa using ended)] at run
      have gone : (calls.foldl (Call.after program) journal).timersOf id = [] := run.rests
      exact List.filter_eq_nil_iff.mp gone timer member (by simpa using same)
    · rw [if_neg (by simpa using ended)] at run
      have unfired : firedAfter program journal id calls = 0 := run.started
      omega
  inOrder := by
    intro calls elapsed
    rw [List.foldl_append]
    have tidy : (calls.foldl (Call.after program) journal).Tidy :=
      List.foldlRecOn calls (Call.after program) follows.tidy fun _ tidy call _ =>
        call.tidy program tidy
    exact started_tick program tidy elapsed

theorem play_known (memory : μ) (calls : List (Call α β μ)) :
    (play program memory calls).Known := by
  rw [play_eq]
  refine Call.foldl_known program ⟨Journal.Tidy.empty memory, ?_, ?_⟩ calls
  · simp [Journal.timerJobs, Journal.empty, Scheduler.empty]
  · simp [Journal.started, Journal.empty]

/-- A timer that runs during ticks and is set between ticks or by an action fires at the ticks at
which it has to, and timers are numbered in the order in which they are set. -/
theorem fires_exactly (memory : μ) (before : List (Call α β μ)) (call : Call α β μ)
    {plan : Schedule α} (inline : plan.dispatch = .inline)
    (sets : Sets id plan (call.actionRequests program (play program memory before))) :
    FiresExactly program (play program memory (before ++ [call])) id plan ∧
      ∀ calls, ((requestsOf program (.empty memory) calls).filterMap Request.number?).Pairwise
        (· < ·) := by
  have known := play_known program memory before
  have follows := call.follows_of_sets program known inline sets
  constructor
  · apply FiresExactly.of_follows
    rw [play_eq, List.foldl_append, ← play_eq]
    exact follows
  · intro calls
    obtain ⟨count, numbers⟩ := requestsOf_numbers program (.empty memory) calls
    rw [numbers]
    exact List.pairwise_lt_range'

def starter : Program Bool Unit Unit where
  act first := if first then .set (.repeating ⟨2⟩ false) fun _ => .crash else .finish
  answer _ := .finish

def starterCalls : List (Call Bool Unit Unit) :=
  [.use (.set (.once ⟨0⟩ true) fun _ => .finish)]

theorem fires_exactly_starter :
    Sets ⟨2⟩ (.repeating ⟨2⟩ false)
        ((Call.tick ⟨1⟩).actionRequests starter (play starter () starterCalls)) ∧
      SparedBy starter (play starter () (starterCalls ++ [.tick ⟨1⟩])) ⟨2⟩
        (List.replicate 5 (.tick ⟨1⟩)) ∧
      firedAfter starter (play starter () (starterCalls ++ [.tick ⟨1⟩])) ⟨2⟩
        (List.replicate 5 (.tick ⟨1⟩)) = 2 := by
  have asked : (Call.tick ⟨1⟩).actionRequests starter (play starter () starterCalls) =
      [.set ⟨2⟩ (.repeating ⟨2⟩ false)] := by
    rw [play_eq]
    rfl
  have sets : Sets ⟨2⟩ (.repeating ⟨2⟩ false)
      ((Call.tick ⟨1⟩).actionRequests starter (play starter () starterCalls)) :=
    ⟨[], [], asked, by simp⟩
  have quiet : requestsOf starter (play starter () (starterCalls ++ [.tick ⟨1⟩]))
      (List.replicate 5 (.tick ⟨1⟩)) = [] := by
    rw [play_eq]
    rfl
  have spared : SparedBy starter (play starter () (starterCalls ++ [.tick ⟨1⟩])) ⟨2⟩
      (List.replicate 5 (.tick ⟨1⟩)) := by
    rw [SparedBy, quiet]
    simp
  have short : ∀ call ∈ List.replicate 5 (Call.tick ⟨1⟩ : Call Bool Unit Unit),
      call.length ≤ 2 := by
    intro call member
    obtain rfl := List.eq_of_mem_replicate member
    decide
  have fires := (fires_exactly starter () starterCalls (.tick ⟨1⟩) rfl sets).1
  exact ⟨sets, spared, fires.undrifting ⟨2⟩ _ rfl rfl (by decide) short spared⟩

end Scheduler

end TagScript
