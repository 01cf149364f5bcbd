import TagScript.Proofs.Scheduler.Journal

/-! A scheduler among threads. One thread ticks it, and carries out callbacks and inline actions on
the way; the workers of the pool carry out jobs; and anybody, whatever is under way, may set timers,
cancel them, post callbacks, hand work to the pool or clear the scheduler. Each of these operations
happens at one moment, and ticks do not overlap. -/

namespace TagScript.Scheduler

variable {α β μ : Type}

inductive Ask (α β : Type) where
  | set (plan : Schedule α)
  | cancel (id : TimerId)
  | post (work : β)
  | spawn (work : β)
  | clear

def Ask.apply (scheduler : Scheduler α β) : Ask α β → Scheduler α β
  | .set plan => (scheduler.schedule plan).2
  | .cancel id => scheduler.cancel id
  | .post work => scheduler.post (.callback work)
  | .spawn work => scheduler.spawn (.work work)
  | .clear => scheduler.clear

/-- What the ticking thread is at. A tick answers the messages that it took, and then fires the timers
that came due. -/
inductive Thread (α β : Type) where
  | idle
  | answering (elapsed : Nat) (left : List (Message β))
  | inCallback (elapsed : Nat) (left : List (Message β))
  | firing (left : List (Due α))
  | inAction (left : List (Due α))

namespace Thread

def messages : Thread α β → List (Message β)
  | answering _ left | inCallback _ left => left
  | idle | firing _ | inAction _ => []

def dues : Thread α β → List (Due α)
  | firing left | inAction left => left
  | idle | answering _ _ | inCallback _ _ => []

end Thread

def report : Job α β → Message β
  | .timer id _ => .completed id
  | .work callback => .callback callback

/-- A scheduler with the threads that are at work on it. -/
structure Workshop (α β : Type) where
  scheduler : Scheduler α β
  thread : Thread α β
  pool : List (Job α β)

def Workshop.start : Workshop α β := ⟨.empty, .idle, []⟩

/-- What can happen in a workshop. -/
inductive Happening (α β : Type) where
  | asked (ask : Ask α β)
  /-- A tick takes the messages posted so far. -/
  | began (elapsed : Duration)
  /-- The report on a run is taken note of. -/
  | completed (id : TimerId)
  | answered (work : β)
  /-- The timers are counted down. -/
  | counted
  /-- The action of a due timer starts within the tick. -/
  | started (due : Due α)
  | dispatched (due : Due α)
  | skipped (due : Due α)
  /-- The action or callback that is under way within the tick is over. -/
  | returned (crashed : Bool)
  | ended
  /-- A worker takes up a job. -/
  | took (job : Job α β)
  | finished (job : Job α β) (crashed : Bool)

def Happening.isBegin : Happening α β → Bool
  | .began _ => true
  | _ => false

inductive Step : Workshop α β → Happening α β → Workshop α β → Prop
  | asked (ask : Ask α β) (scheduler : Scheduler α β) (thread : Thread α β)
      (pool : List (Job α β)) :
      Step ⟨scheduler, thread, pool⟩ (.asked ask) ⟨ask.apply scheduler, thread, pool⟩
  | began (elapsed : Duration) (scheduler : Scheduler α β) (pool : List (Job α β)) :
      Step ⟨scheduler, .idle, pool⟩ (.began elapsed)
        ⟨(scheduler.advance elapsed).takeInbox.2, .answering (clipped elapsed) scheduler.inbox, pool⟩
  | completed (id : TimerId) (scheduler : Scheduler α β) (elapsed : Nat)
      (left : List (Message β)) (pool : List (Job α β)) :
      Step ⟨scheduler, .answering elapsed (.completed id :: left), pool⟩ (.completed id)
        ⟨scheduler.complete id, .answering elapsed left, pool⟩
  | answered (work : β) (scheduler : Scheduler α β) (elapsed : Nat) (left : List (Message β))
      (pool : List (Job α β)) :
      Step ⟨scheduler, .answering elapsed (.callback work :: left), pool⟩ (.answered work)
        ⟨scheduler, .inCallback elapsed left, pool⟩
  | callbackReturned (crashed : Bool) (scheduler : Scheduler α β) (elapsed : Nat)
      (left : List (Message β)) (pool : List (Job α β)) :
      Step ⟨scheduler, .inCallback elapsed left, pool⟩ (.returned crashed)
        ⟨scheduler, .answering elapsed left, pool⟩
  | counted (scheduler : Scheduler α β) (elapsed : Nat) (pool : List (Job α β)) :
      Step ⟨scheduler, .answering elapsed [], pool⟩ .counted
        ⟨(scheduler.collectDue elapsed).2, .firing (scheduler.collectDue elapsed).1, pool⟩
  | started {due : Due α} (inline : due.dispatch = .inline) (scheduler : Scheduler α β)
      (left : List (Due α)) (pool : List (Job α β)) :
      Step ⟨scheduler, .firing (due :: left), pool⟩ (.started due) ⟨scheduler, .inAction left, pool⟩
  | dispatched {due : Due α} {scheduler : Scheduler α β} (worker : due.dispatch = .worker)
      (free : scheduler.isBusy due = false) (left : List (Due α)) (pool : List (Job α β)) :
      Step ⟨scheduler, .firing (due :: left), pool⟩ (.dispatched due)
        ⟨scheduler.dispatchToWorker due, .firing left, pool⟩
  | skipped {due : Due α} {scheduler : Scheduler α β} (worker : due.dispatch = .worker)
      (busy : scheduler.isBusy due = true) (left : List (Due α)) (pool : List (Job α β)) :
      Step ⟨scheduler, .firing (due :: left), pool⟩ (.skipped due) ⟨scheduler, .firing left, pool⟩
  | actionReturned (crashed : Bool) (scheduler : Scheduler α β) (left : List (Due α))
      (pool : List (Job α β)) :
      Step ⟨scheduler, .inAction left, pool⟩ (.returned crashed) ⟨scheduler, .firing left, pool⟩
  | ended (scheduler : Scheduler α β) (pool : List (Job α β)) :
      Step ⟨scheduler, .firing [], pool⟩ .ended ⟨scheduler, .idle, pool⟩
  | took {scheduler : Scheduler α β} {job : Job α β} {before after : List (Job α β)}
      (queued : scheduler.jobs = before ++ job :: after) (thread : Thread α β)
      (pool : List (Job α β)) :
      Step ⟨scheduler, thread, pool⟩ (.took job)
        ⟨{ scheduler with jobs := before ++ after }, thread, job :: pool⟩
  | finished (job : Job α β) (crashed : Bool) (scheduler : Scheduler α β) (thread : Thread α β)
      (before after : List (Job α β)) :
      Step ⟨scheduler, thread, before ++ job :: after⟩ (.finished job crashed)
        ⟨scheduler.post (report job), thread, before ++ after⟩

inductive Runs : Workshop α β → List (Happening α β) → Workshop α β → Prop
  | nil (workshop : Workshop α β) : Runs workshop [] workshop
  | cons {first between last : Workshop α β} {happening : Happening α β}
      {rest : List (Happening α β)} (step : Step first happening between)
      (runs : Runs between rest last) : Runs first (happening :: rest) last

namespace Runs

variable {first between last : Workshop α β} {early late : List (Happening α β)}

theorem single {happening : Happening α β} (step : Step first happening last) :
    Runs first [happening] last :=
  .cons step (.nil last)

theorem append (runs : Runs first early between) (goesOn : Runs between late last) :
    Runs first (early ++ late) last := by
  induction runs with
  | nil workshop => exact goesOn
  | cons step _ ih => exact .cons step (ih goesOn)

theorem split (runs : Runs first (early ++ late) last) :
    ∃ between, Runs first early between ∧ Runs between late last := by
  induction early generalizing first with
  | nil => exact ⟨first, .nil first, runs⟩
  | cons happening rest ih =>
      cases runs with
      | cons step runs =>
          obtain ⟨between, before, after⟩ := ih runs
          exact ⟨between, .cons step before, after⟩

theorem split_cons {happening : Happening α β} (runs : Runs first (early ++ happening :: late) last) :
    ∃ before after, Runs first early before ∧ Step before happening after ∧
      Runs after late last := by
  obtain ⟨before, earlier, runs⟩ := runs.split
  cases runs with
  | cons step later => exact ⟨before, _, earlier, step, later⟩

/-- What every step keeps is kept by every run. -/
theorem keeps (holds : Workshop α β → Prop) (runs : Runs first early last)
    (step : ∀ {workshop later : Workshop α β}, ∀ happening ∈ early,
      Step workshop happening later → holds workshop → holds later)
    (start : holds first) : holds last := by
  induction runs with
  | nil workshop => exact start
  | cons taken _ ih =>
      refine ih (fun happening member => step happening (List.mem_cons_of_mem _ member)) ?_
      exact step _ List.mem_cons_self taken start

end Runs

/-! Whatever a scheduler does by itself when it is called, with scripts for its actions and callbacks,
is one of the runs. -/

def Happening.action? : Happening α β → Option α
  | .started due => some due.action
  | .took (.timer _ action) => some action
  | _ => none

def Journal.Leads (first : Journal α β μ) (thread : Thread (Appointment α) β)
    (pool : List (Job (Appointment α) β)) (last : Journal α β μ)
    (thread' : Thread (Appointment α) β) (pool' : List (Job (Appointment α) β)) : Prop :=
  ∃ happenings, Runs ⟨first.scheduler, thread, pool⟩ happenings ⟨last.scheduler, thread', pool'⟩ ∧
    last.starts.map (·.appointment) =
      (happenings.filterMap Happening.action?).reverse ++ first.starts.map (·.appointment)

namespace Journal.Leads

variable {first between last : Journal α β μ} {thread thread' thread'' : Thread (Appointment α) β}
  {pool pool' pool'' : List (Job (Appointment α) β)}

theorem refl (journal : Journal α β μ) : journal.Leads thread pool journal thread pool :=
  ⟨[], .nil _, rfl⟩

theorem trans (early : first.Leads thread pool between thread' pool')
    (late : between.Leads thread' pool' last thread'' pool'') :
    first.Leads thread pool last thread'' pool'' := by
  obtain ⟨happenings, runs, starts⟩ := early
  obtain ⟨more, goesOn, moreStarts⟩ := late
  refine ⟨happenings ++ more, runs.append goesOn, ?_⟩
  rw [moreStarts, starts, List.filterMap_append, List.reverse_append, List.append_assoc]

theorem step {happening : Happening (Appointment α) β}
    (step : Step ⟨first.scheduler, thread, pool⟩ happening ⟨last.scheduler, thread', pool'⟩)
    (starts : last.starts.map (·.appointment) =
      happening.action?.toList ++ first.starts.map (·.appointment)) :
    first.Leads thread pool last thread' pool' := by
  refine ⟨[happening], .single step, ?_⟩
  rw [starts]
  cases action : happening.action? <;> simp [action]

theorem asked (ask : Ask (Appointment α) β) (journal : Journal α β μ) :
    journal.Leads thread pool (journal.onScheduler ask.apply) thread pool :=
  .step (.asked ask journal.scheduler thread pool) rfl

theorem script (script : Script α β μ) (owed : Nat) (journal : Journal α β μ) :
    journal.Leads thread pool (script.run owed journal).2 thread pool := by
  induction script generalizing journal with
  | finish => exact .refl journal
  | crash => exact .refl journal
  | set plan next ih =>
      let action : Appointment α :=
        ⟨⟨journal.scheduler.nextId⟩, journal.now, plan.delay, owed, plan.action⟩
      exact (asked (.set ⟨plan.delay, plan.timing, plan.dispatch, action⟩) journal).trans (ih _ _)
  | cancel id next ih => exact (asked (.cancel id) journal).trans (ih _)
  | post work next ih => exact (asked (.post work) journal).trans (ih _)
  | spawn work next ih => exact (asked (.spawn work) journal).trans (ih _)
  | clear next ih => exact (asked .clear journal).trans (ih _)
  | look next ih => exact ih _ _ journal
  | keep memory next ih => exact (ih { journal with memory })

variable (program : Program α β μ)

theorem handled (owed : Nat) (messages : List (Message β)) (elapsed : Nat)
    (journal : Journal α β μ) :
    journal.Leads (.answering elapsed messages) pool
      (messages.foldl (program.handled owed) journal) (.answering elapsed []) pool := by
  induction messages generalizing journal with
  | nil => exact .refl journal
  | cons message left ih =>
      cases message with
      | completed id =>
          have noted : journal.Leads (.answering elapsed (.completed id :: left)) pool
              (journal.onScheduler (complete id)) (.answering elapsed left) pool :=
            .step (.completed id journal.scheduler elapsed left pool) rfl
          exact noted.trans (ih _)
      | callback work =>
          have called : journal.Leads (.answering elapsed (.callback work :: left)) pool journal
              (.inCallback elapsed left) pool :=
            .step (.answered work journal.scheduler elapsed left pool) rfl
          let later := ((program.answer work).run owed journal).2
          have returned : later.Leads (.inCallback elapsed left) pool later
              (.answering elapsed left) pool :=
            .step (.callbackReturned false later.scheduler elapsed left pool) rfl
          exact (called.trans (.script (program.answer work) owed journal)).trans
            (returned.trans (ih later))

theorem fired (dues : List (Due (Appointment α))) (journal : Journal α β μ) :
    journal.Leads (.firing dues) pool (dues.foldl program.fired journal) (.firing []) pool := by
  induction dues generalizing journal with
  | nil => exact .refl journal
  | cons due left ih =>
      suffices once : journal.Leads (.firing (due :: left)) pool (program.fired journal due)
          (.firing left) pool from once.trans (ih _)
      unfold Program.fired
      cases dispatch : due.dispatch with
      | inline =>
          have started : journal.Leads (.firing (due :: left)) pool (journal.start due.action)
              (.inAction left) pool :=
            .step (.started dispatch journal.scheduler left pool) rfl
          let later := program.performed due.action journal
          have returned : later.Leads (.inAction left) pool later (.firing left) pool :=
            .step (.actionReturned false later.scheduler left pool) rfl
          exact (started.trans (.script (program.act due.action.work) 0 _)).trans returned
      | worker =>
          dsimp only
          split
          · rename_i busy
            exact .step (.skipped dispatch busy left pool) rfl
          · rename_i free
            exact .step (.dispatched dispatch (Bool.not_eq_true _ ▸ free) left pool) rfl

theorem ticked (elapsed : Duration) (journal : Journal α β μ) :
    journal.Leads .idle pool (program.ticked elapsed journal) .idle pool := by
  let begun := journal.onScheduler fun scheduler => (scheduler.advance elapsed).takeInbox.2
  let answered := journal.scheduler.inbox.foldl (program.handled (clipped elapsed)) begun
  let counted := answered.onScheduler fun scheduler => (scheduler.collectDue (clipped elapsed)).2
  have begins : journal.Leads .idle pool begun
      (.answering (clipped elapsed) journal.scheduler.inbox) pool :=
    .step (.began elapsed journal.scheduler pool) rfl
  have counts : answered.Leads (.answering (clipped elapsed) []) pool counted
      (.firing (answered.scheduler.collectDue (clipped elapsed)).1) pool :=
    .step (.counted answered.scheduler (clipped elapsed) pool) rfl
  have ends : (program.ticked elapsed journal).Leads (.firing []) pool
      (program.ticked elapsed journal) .idle pool :=
    .step (.ended _ pool) rfl
  exact (begins.trans (.handled program _ _ _ begun)).trans
    (counts.trans ((Leads.fired program _ counted).trans ends))

theorem worked {journal : Journal α β μ} {job : Job (Appointment α) β}
    {scheduler : Scheduler (Appointment α) β}
    (taken : journal.scheduler.takeJob? = some (job, scheduler)) :
    journal.Leads thread pool (program.worked { journal with scheduler } job) thread pool := by
  obtain ⟨jobs, queued, rest⟩ : ∃ jobs, journal.scheduler.jobs = [] ++ job :: jobs ∧
      scheduler = { journal.scheduler with jobs := [] ++ jobs } := by
    unfold takeJob? at taken
    split at taken
    · cases taken
    · rename_i first jobs split
      obtain ⟨rfl, rfl⟩ := Prod.mk.inj (Option.some.inj taken)
      exact ⟨jobs, split, rfl⟩
  subst rest
  have finished (later : Journal α β μ) :
      later.Leads thread (job :: pool) (later.onScheduler (post (report job))) thread pool :=
    .step (.finished job false later.scheduler thread [] pool) rfl
  let between : Journal α β μ :=
    { journal with scheduler := { journal.scheduler with jobs := [] ++ jobs } }
  cases job with
  | timer id appointment =>
      have took : journal.Leads thread pool (between.start appointment) thread
          (.timer id appointment :: pool) :=
        .step (.took queued thread pool) rfl
      exact (took.trans (.script (program.act appointment.work) 0 _)).trans (finished _)
  | work callback =>
      have took : journal.Leads thread pool between thread (.work callback :: pool) :=
        .step (.took queued thread pool) rfl
      exact took.trans (finished between)

theorem call (call : Call α β μ) (journal : Journal α β μ) :
    journal.Leads .idle [] (call.after program journal) .idle [] := by
  cases call with
  | tick elapsed => exact ticked program elapsed journal
  | use script => exact .script script 0 journal
  | work =>
      unfold Call.after
      dsimp only
      split
      · exact .refl journal
      · rename_i job scheduler taken
        exact worked program taken

end Journal.Leads

/-- What a scheduler does when it is called time and again is a run of a workshop. -/
theorem play_runs (program : Program α β μ) (memory : μ) (calls : List (Call α β μ)) :
    ∃ happenings, Runs .start happenings ⟨(play program memory calls).scheduler, .idle, []⟩ ∧
      (play program memory calls).starts.map (·.appointment) =
        (happenings.filterMap Happening.action?).reverse := by
  have leads (journal : Journal α β μ) : journal.Leads .idle []
      (calls.foldl (Call.after program) journal) .idle [] := by
    induction calls generalizing journal with
    | nil => exact .refl journal
    | cons call rest ih => exact (Journal.Leads.call program call journal).trans (ih _)
  obtain ⟨happenings, runs, starts⟩ := leads (.empty memory)
  rw [← play_eq] at runs starts
  exact ⟨happenings, runs, starts.trans (List.append_nil _)⟩

/-! A tick that has begun can always go on, up to its end, as soon as what it carries out is over. -/

def Happening.isOwn : Happening α β → Bool
  | .completed _ | .answered _ | .counted | .started _ | .dispatched _ | .skipped _ | .returned _
  | .ended => true
  | .asked _ | .began _ | .took _ | .finished _ _ => false

/-- The ticking thread gets from the one workshop to the other by itself. -/
def Proceeds (first last : Workshop α β) : Prop :=
  ∃ happenings, (∀ happening ∈ happenings, happening.isOwn = true) ∧ Runs first happenings last

namespace Proceeds

variable {first between last : Workshop α β}

theorem refl (workshop : Workshop α β) : Proceeds workshop workshop :=
  ⟨[], fun _ member => absurd member List.not_mem_nil, .nil workshop⟩

theorem step {happening : Happening α β} (step : Step first happening between)
    (own : happening.isOwn = true) (rest : Proceeds between last) : Proceeds first last := by
  obtain ⟨happenings, all, runs⟩ := rest
  refine ⟨happening :: happenings, fun found member => ?_, .cons step runs⟩
  rcases List.mem_cons.1 member with rfl | later
  · exact own
  · exact all found later

theorem trans (early : Proceeds first between) (late : Proceeds between last) :
    Proceeds first last := by
  obtain ⟨happenings, own, runs⟩ := early
  obtain ⟨more, moreOwn, goesOn⟩ := late
  refine ⟨happenings ++ more, fun happening member => ?_, runs.append goesOn⟩
  rcases List.mem_append.1 member with early | late
  · exact own happening early
  · exact moreOwn happening late

theorem answering (elapsed : Nat) (messages : List (Message β)) (scheduler : Scheduler α β)
    (pool : List (Job α β)) :
    ∃ later, Proceeds ⟨scheduler, .answering elapsed messages, pool⟩
      ⟨later, .answering elapsed [], pool⟩ := by
  induction messages generalizing scheduler with
  | nil => exact ⟨scheduler, .refl _⟩
  | cons message left ih =>
      cases message with
      | completed id =>
          obtain ⟨later, proceeds⟩ := ih (scheduler.complete id)
          exact ⟨later, .step (.completed id scheduler elapsed left pool) rfl proceeds⟩
      | callback work =>
          obtain ⟨later, proceeds⟩ := ih scheduler
          refine ⟨later, .step (.answered work scheduler elapsed left pool) rfl ?_⟩
          exact .step (.callbackReturned false scheduler elapsed left pool) rfl proceeds

theorem firing (dues left : List (Due α)) (scheduler : Scheduler α β) (pool : List (Job α β)) :
    ∃ later, Proceeds ⟨scheduler, .firing (dues ++ left), pool⟩ ⟨later, .firing left, pool⟩ := by
  induction dues generalizing scheduler with
  | nil => exact ⟨scheduler, .refl _⟩
  | cons due dues ih =>
      cases dispatch : due.dispatch with
      | inline =>
          obtain ⟨later, proceeds⟩ := ih scheduler
          refine ⟨later, .step (.started dispatch scheduler (dues ++ left) pool) rfl ?_⟩
          exact .step (.actionReturned false scheduler (dues ++ left) pool) rfl proceeds
      | worker =>
          cases busy : scheduler.isBusy due with
          | true =>
              obtain ⟨later, proceeds⟩ := ih scheduler
              exact ⟨later, .step (.skipped dispatch busy (dues ++ left) pool) rfl proceeds⟩
          | false =>
              obtain ⟨later, proceeds⟩ := ih (scheduler.dispatchToWorker due)
              exact ⟨later, .step (.dispatched dispatch busy (dues ++ left) pool) rfl proceeds⟩

theorem fired (dues : List (Due α)) (scheduler : Scheduler α β) (pool : List (Job α β)) :
    ∃ later, Proceeds ⟨scheduler, .firing dues, pool⟩ ⟨later, .idle, pool⟩ := by
  obtain ⟨later, proceeds⟩ := firing dues [] scheduler pool
  rw [List.append_nil] at proceeds
  exact ⟨later, proceeds.trans (.step (.ended later pool) rfl (.refl _))⟩

theorem answered (elapsed : Nat) (messages : List (Message β)) (scheduler : Scheduler α β)
    (pool : List (Job α β)) :
    ∃ later, Proceeds ⟨scheduler, .answering elapsed messages, pool⟩ ⟨later, .idle, pool⟩ := by
  obtain ⟨counting, proceeds⟩ := answering elapsed messages scheduler pool
  obtain ⟨later, ends⟩ := fired (counting.collectDue elapsed).1 (counting.collectDue elapsed).2 pool
  exact ⟨later, proceeds.trans (.step (.counted counting elapsed pool) rfl ends)⟩

end Proceeds

theorem Workshop.settles (workshop : Workshop α β) :
    ∃ later, Proceeds workshop ⟨later, .idle, workshop.pool⟩ := by
  obtain ⟨scheduler, thread, pool⟩ := workshop
  cases thread with
  | idle => exact ⟨scheduler, .refl _⟩
  | answering elapsed left => exact Proceeds.answered elapsed left scheduler pool
  | inCallback elapsed left =>
      obtain ⟨later, proceeds⟩ := Proceeds.answered elapsed left scheduler pool
      exact ⟨later, .step (.callbackReturned false scheduler elapsed left pool) rfl proceeds⟩
  | firing left => exact Proceeds.fired left scheduler pool
  | inAction left =>
      obtain ⟨later, proceeds⟩ := Proceeds.fired left scheduler pool
      exact ⟨later, .step (.actionReturned false scheduler left pool) rfl proceeds⟩

end TagScript.Scheduler
