import TagScript.Proofs.Scheduler.Journal

/-! What the scripts of a run ask of the scheduler, call by call. A timer that was set and is spared
from then on stays in the list as it is, whatever else is asked. -/

namespace TagScript.Scheduler

variable {α β μ ι : Type}

inductive Request (α : Type) where
  | set (id : TimerId) (plan : Schedule α)
  | cancel (id : TimerId)
  | clear

namespace Request

def Spares (id : TimerId) : Request α → Prop
  | set _ _ => True
  | cancel other => other ≠ id
  | clear => False

def number? : Request α → Option Nat
  | set id _ => some id.number
  | cancel _ | clear => none

end Request

/-- The requests set the timer by that plan, and spare it from then on. -/
def Sets (id : TimerId) (plan : Schedule α) (requests : List (Request α)) : Prop :=
  ∃ early late, requests = early ++ .set id plan :: late ∧ ∀ request ∈ late, request.Spares id

theorem not_sets_nil (id : TimerId) (plan : Schedule α) : ¬ Sets id plan [] := by
  rintro ⟨early, late, split, _⟩
  simp at split

theorem sets_cons {id : TimerId} {plan : Schedule α} {first : Request α} {rest : List (Request α)}
    (sets : Sets id plan (first :: rest)) :
    (first = .set id plan ∧ ∀ request ∈ rest, request.Spares id) ∨ Sets id plan rest := by
  obtain ⟨early, late, split, spared⟩ := sets
  cases early with
  | nil =>
      simp only [List.nil_append, List.cons.injEq] at split
      obtain ⟨rfl, rfl⟩ := split
      exact .inl ⟨rfl, spared⟩
  | cons _ early =>
      simp only [List.cons_append, List.cons.injEq] at split
      exact .inr ⟨early, late, split.2, spared⟩

theorem sets_append {id : TimerId} {plan : Schedule α} {first rest : List (Request α)}
    (sets : Sets id plan (first ++ rest)) :
    (Sets id plan first ∧ ∀ request ∈ rest, request.Spares id) ∨ Sets id plan rest := by
  induction first with
  | nil => exact .inr sets
  | cons request first ih =>
      rcases sets_cons sets with ⟨rfl, spared⟩ | later
      · refine .inl ⟨⟨[], first, rfl, fun request member => ?_⟩, fun request member => ?_⟩
        · exact spared request (List.mem_append_left _ member)
        · exact spared request (List.mem_append_right _ member)
      · rcases ih later with ⟨⟨early, late, split, spared⟩, rest⟩ | rest
        · exact .inl ⟨⟨request :: early, late, by rw [split, List.cons_append], spared⟩, rest⟩
        · exact .inr rest

def gather {State Found : Type} (step : State → ι → State) (found : State → ι → List Found) :
    State → List ι → List Found
  | _, [] => []
  | state, item :: rest => found state item ++ gather step found (step state item) rest

theorem gather_append {State Found : Type} (step : State → ι → State)
    (found : State → ι → List Found) (state : State) (first rest : List ι) :
    gather step found state (first ++ rest) =
      gather step found state first ++ gather step found (first.foldl step state) rest := by
  induction first generalizing state with
  | nil => rfl
  | cons item first ih =>
      simp only [List.cons_append, gather, List.foldl_cons, ih, List.append_assoc]

def Script.requests (owed : Nat) : Script α β μ → Journal α β μ → List (Request α)
  | .finish, _ => []
  | .crash, _ => []
  | .set plan next, journal =>
    let (id, journal) := journal.set owed plan
    .set id plan :: (next id).requests owed journal
  | .cancel id next, journal =>
    .cancel id :: next.requests owed (journal.onScheduler (Scheduler.cancel id))
  | .post work next, journal =>
    next.requests owed (journal.onScheduler (Scheduler.post (.callback work)))
  | .spawn work next, journal =>
    next.requests owed (journal.onScheduler (Scheduler.spawn (.work work)))
  | .clear next, journal => .clear :: next.requests owed (journal.onScheduler Scheduler.clear)
  | .look next, journal => (next journal.scheduler journal.memory).requests owed journal
  | .keep memory next, journal => next.requests owed { journal with memory }

namespace Program

def handledRequests (program : Program α β μ) (owed : Nat) (journal : Journal α β μ) :
    Message β → List (Request α)
  | .completed _ => []
  | .callback work => (program.answer work).requests owed journal

def performedRequests (program : Program α β μ) (appointment : Appointment α)
    (journal : Journal α β μ) : List (Request α) :=
  (program.act appointment.work).requests 0 (journal.start appointment)

def firedRequests (program : Program α β μ) (journal : Journal α β μ)
    (due : Due (Appointment α)) : List (Request α) :=
  match due.dispatch with
  | .inline => program.performedRequests due.action journal
  | .worker => []

def workedRequests (program : Program α β μ) (journal : Journal α β μ) :
    Job (Appointment α) β → List (Request α)
  | .timer _ appointment => program.performedRequests appointment journal
  | .work _ => []

def begun (elapsed : Duration) (journal : Journal α β μ) : Journal α β μ :=
  journal.onScheduler fun scheduler => (scheduler.advance elapsed).takeInbox.2

def answered (program : Program α β μ) (elapsed : Duration) (journal : Journal α β μ) :
    Journal α β μ :=
  journal.scheduler.inbox.foldl (program.handled (clipped elapsed)) (begun elapsed journal)

def aged (elapsed : Nat) (journal : Journal α β μ) : Journal α β μ :=
  journal.onScheduler fun scheduler => (scheduler.collectDue elapsed).2

end Program

namespace Call

def callbackRequests (program : Program α β μ) (journal : Journal α β μ) :
    Call α β μ → List (Request α)
  | tick elapsed =>
    gather (program.handled (clipped elapsed)) (program.handledRequests (clipped elapsed))
      (Program.begun elapsed journal) journal.scheduler.inbox
  | use _ | work => []

/-- All other requests of a call: those of the host between ticks, and those of the actions that a
tick or a worker carries out. -/
def actionRequests (program : Program α β μ) (journal : Journal α β μ) :
    Call α β μ → List (Request α)
  | tick elapsed =>
    let answered := program.answered elapsed journal
    gather program.fired program.firedRequests (Program.aged (clipped elapsed) answered)
      (answered.scheduler.collectDue (clipped elapsed)).1
  | use script => script.requests 0 journal
  | work =>
    match journal.scheduler.takeJob? with
    | none => []
    | some (job, scheduler) => program.workedRequests { journal with scheduler } job

def requests (program : Program α β μ) (journal : Journal α β μ) (call : Call α β μ) :
    List (Request α) :=
  call.callbackRequests program journal ++ call.actionRequests program journal

end Call

def requestsOf (program : Program α β μ) : Journal α β μ → List (Call α β μ) → List (Request α) :=
  gather (Call.after program) (Call.requests program)

namespace Journal

def nextId (journal : Journal α β μ) : Nat := journal.scheduler.nextId

def timersOf (id : TimerId) (journal : Journal α β μ) : List (Timer (Appointment α)) :=
  journal.scheduler.timers.filter (·.id = id)

def Holds (id : TimerId) (timing : Timing) (countdown : Int) (journal : Journal α β μ) : Prop :=
  ∃ timer, journal.timersOf id = [timer] ∧ timer.cancelled = false ∧ timer.timing = timing ∧
    timer.dispatch = .inline ∧ timer.countdown = countdown

structure Tidy (journal : Journal α β μ) : Prop where
  named : ∀ timer ∈ journal.scheduler.timers, timer.action.id = timer.id
  ordered : journal.scheduler.timers.Pairwise fun first second =>
    first.id.number < second.id.number
  below : ∀ timer ∈ journal.scheduler.timers, timer.id.number < journal.nextId

variable {journal : Journal α β μ}

theorem Tidy.empty (memory : μ) : (Journal.empty memory : Journal α β μ).Tidy where
  named := by simp [Journal.empty, Scheduler.empty]
  ordered := by simp [Journal.empty, Scheduler.empty]
  below := by simp [Journal.empty, Scheduler.empty]

theorem Tidy.of_timers (tidy : journal.Tidy) {later : Journal α β μ}
    (timers : later.scheduler.timers = journal.scheduler.timers)
    (nextId : later.nextId = journal.nextId) : later.Tidy where
  named := by rw [timers]; exact tidy.named
  ordered := by rw [timers]; exact tidy.ordered
  below := by rw [timers, nextId]; exact tidy.below

theorem Tidy.of_sublist (tidy : journal.Tidy) {later : Journal α β μ}
    (change : Timer (Appointment α) → Timer (Appointment α))
    (id : ∀ timer, (change timer).id = timer.id)
    (action : ∀ timer, (change timer).action = timer.action)
    (timers : later.scheduler.timers.Sublist (journal.scheduler.timers.map change))
    (nextId : later.nextId = journal.nextId) : later.Tidy where
  named := by
    intro timer member
    obtain ⟨earlier, known, rfl⟩ := List.mem_map.mp (timers.mem member)
    rw [id, action]
    exact tidy.named earlier known
  ordered := by
    refine List.Pairwise.sublist timers (List.pairwise_map.mpr (tidy.ordered.imp ?_))
    intro first second before
    rwa [id, id]
  below := by
    intro timer member
    obtain ⟨earlier, known, rfl⟩ := List.mem_map.mp (timers.mem member)
    rw [id, nextId]
    exact tidy.below earlier known

theorem Tidy.modifyTimer (tidy : journal.Tidy) (id : TimerId)
    (change : Timer (Appointment α) → Timer (Appointment α))
    (same : ∀ timer, (change timer).id = timer.id)
    (action : ∀ timer, (change timer).action = timer.action) :
    (journal.onScheduler (Scheduler.modifyTimer id change)).Tidy := by
  refine tidy.of_sublist (fun timer => if timer.id = id then change timer else timer) ?_ ?_
    (List.Sublist.refl _) rfl
  · intro timer
    split
    · exact same timer
    · rfl
  · intro timer
    split
    · exact action timer
    · rfl

theorem Tidy.set (tidy : journal.Tidy) (owed : Nat) (plan : Schedule α) :
    (journal.set owed plan).2.Tidy where
  named := by
    intro timer member
    rcases List.mem_append.mp member with known | new
    · exact tidy.named timer known
    · obtain rfl := List.mem_singleton.mp new
      rfl
  ordered := by
    refine List.pairwise_append.mpr ⟨tidy.ordered, List.pairwise_singleton _ _, ?_⟩
    intro timer known new member
    obtain rfl := List.mem_singleton.mp member
    exact tidy.below timer known
  below := by
    intro timer member
    rcases List.mem_append.mp member with known | new
    · exact Nat.lt_succ_of_lt (tidy.below timer known)
    · obtain rfl := List.mem_singleton.mp new
      exact Nat.lt_succ_self _

theorem Tidy.timersOf_eq_nil (tidy : journal.Tidy) {id : TimerId}
    (unknown : journal.nextId ≤ id.number) : journal.timersOf id = [] := by
  refine List.filter_eq_nil_iff.mpr fun timer member same => ?_
  have below := tidy.below timer member
  rw [of_decide_eq_true same] at below
  omega

/-! What the single operations do to the timers of one name. -/

theorem timersOf_modifyTimer (id other : TimerId)
    (change : Timer (Appointment α) → Timer (Appointment α))
    (same : ∀ timer, (change timer).id = timer.id) :
    (journal.onScheduler (Scheduler.modifyTimer other change)).timersOf id =
      if other = id then (journal.timersOf id).map change else journal.timersOf id := by
  have keeps : ∀ timer : Timer (Appointment α),
      decide ((if timer.id = other then change timer else timer).id = id) =
        decide (timer.id = id) := by
    intro timer
    split
    · rw [same]
    · rfl
  simp only [timersOf, onScheduler, Scheduler.modifyTimer, List.filter_map, Function.comp_def,
    keeps]
  split
  · rename_i alike
    subst alike
    refine List.map_congr_left fun timer member => ?_
    rw [if_pos (of_decide_eq_true (List.mem_filter.mp member).2)]
  · rename_i differ
    refine (List.map_congr_left fun timer member => ?_).trans (List.map_id _)
    have named : timer.id = id := of_decide_eq_true (List.mem_filter.mp member).2
    rw [if_neg (by rw [named]; exact fun same => differ same.symm), id_eq]

theorem Tidy.holds_set (tidy : journal.Tidy) (owed : Nat) {plan : Schedule α}
    (inline : plan.dispatch = .inline) :
    (journal.set owed plan).2.Holds (journal.set owed plan).1 plan.timing
      plan.delay.nanoseconds := by
  have unknown : journal.timersOf (journal.set owed plan).1 = [] :=
    tidy.timersOf_eq_nil (Nat.le_refl _)
  simp only [timersOf, Journal.set, Scheduler.schedule] at unknown
  simp only [Holds, timersOf, Journal.set, Scheduler.schedule, List.filter_append, unknown,
    List.nil_append, decide_true, List.filter_cons_of_pos, List.filter_nil]
  exact ⟨_, rfl, rfl, rfl, inline, rfl⟩

theorem timersOf_set_of_ne {id : TimerId} (owed : Nat) (plan : Schedule α)
    (different : (journal.set owed plan).1 ≠ id) :
    (journal.set owed plan).2.timersOf id = journal.timersOf id := by
  simp only [timersOf, Journal.set, Scheduler.schedule, List.filter_append] at different ⊢
  simp [different]

theorem timersOf_set_of_lt {id : TimerId} (owed : Nat) (plan : Schedule α)
    (known : id.number < journal.nextId) :
    (journal.set owed plan).2.timersOf id = journal.timersOf id := by
  refine timersOf_set_of_ne owed plan ?_
  rintro rfl
  exact Nat.lt_irrefl _ known

theorem Holds.of_timers {id : TimerId} {timing : Timing} {countdown : Int}
    (holds : journal.Holds id timing countdown) {later : Journal α β μ}
    (same : later.timersOf id = journal.timersOf id) : later.Holds id timing countdown := by
  obtain ⟨timer, only, terms⟩ := holds
  exact ⟨timer, same.trans only, terms⟩

end Journal

structure Attended (before after : Journal α β μ) (requests : List (Request α)) : Prop where
  tidy : before.Tidy → after.Tidy
  numbers : ∃ count, after.nextId = before.nextId + count ∧
    requests.filterMap Request.number? = List.range' before.nextId count
  gone : ∀ id : TimerId, id.number < before.nextId → before.timersOf id = [] →
    after.timersOf id = []
  spared : ∀ (id : TimerId) timing countdown, id.number < before.nextId →
    before.Holds id timing countdown → (∀ request ∈ requests, request.Spares id) →
    after.Holds id timing countdown
  set : ∀ (id : TimerId) (plan : Schedule α), plan.dispatch = .inline → before.Tidy →
    Sets id plan requests → after.Holds id plan.timing plan.delay.nanoseconds

namespace Attended

variable {journal before between after : Journal α β μ} {requests early late : List (Request α)}

theorem nextId_le (attended : Attended before after requests) : before.nextId ≤ after.nextId := by
  obtain ⟨count, nextId, _⟩ := attended.numbers
  omega

theorem number_of_sets (attended : Attended before after requests) {id : TimerId}
    {plan : Schedule α} (sets : Sets id plan requests) :
    before.nextId ≤ id.number ∧ id.number < after.nextId := by
  obtain ⟨count, nextId, numbers⟩ := attended.numbers
  obtain ⟨early, late, split, _⟩ := sets
  have member : id.number ∈ requests.filterMap Request.number? := by
    rw [split]
    simp [Request.number?]
  rw [numbers, List.mem_range'_1] at member
  omega

theorem trans (first : Attended before between early) (second : Attended between after late) :
    Attended before after (early ++ late) where
  tidy := second.tidy ∘ first.tidy
  numbers := by
    obtain ⟨count, nextId, numbers⟩ := first.numbers
    obtain ⟨more, nextId', numbers'⟩ := second.numbers
    refine ⟨count + more, by omega, ?_⟩
    rw [List.filterMap_append, numbers, numbers', nextId, List.range'_append_1]
  gone := by
    intro id known none
    have grows := first.nextId_le
    exact second.gone id (by omega) (first.gone id known none)
  spared := by
    intro id timing countdown known holds spared
    have grows := first.nextId_le
    have held := first.spared id timing countdown known holds fun request member =>
      spared request (List.mem_append_left _ member)
    exact second.spared id timing countdown (by omega) held fun request member =>
      spared request (List.mem_append_right _ member)
  set := by
    intro id plan inline tidy sets
    rcases sets_append sets with ⟨now, spared⟩ | later
    · have held := first.set id plan inline tidy now
      have known := (first.number_of_sets now).2
      exact second.spared id _ _ known held spared
    · exact second.set id plan inline (first.tidy tidy) later

theorem fold {step : Journal α β μ → ι → Journal α β μ}
    {found : Journal α β μ → ι → List (Request α)}
    (each : ∀ journal item, Attended journal (step journal item) (found journal item))
    (journal : Journal α β μ) (items : List ι) :
    Attended journal (items.foldl step journal) (gather step found journal items) := by
  induction items generalizing journal with
  | nil =>
      refine ⟨fun tidy => tidy, ⟨0, rfl, rfl⟩, fun _ _ none => none,
        fun _ _ _ _ holds _ => holds, ?_⟩
      intro id plan _ _ sets
      exact absurd sets (not_sets_nil id plan)
  | cons item rest ih => exact (each journal item).trans (ih (step journal item))

theorem of_timers (kept : before.Tidy → after.Tidy) (nextId : after.nextId = before.nextId)
    (timers : ∀ id, ∃ inFlight, after.timersOf id = before.timersOf id ∨
      after.timersOf id = (before.timersOf id).map ({ · with inFlight })) :
    Attended before after [] where
  tidy := kept
  numbers := ⟨0, nextId, rfl⟩
  gone := by
    intro id _ none
    obtain ⟨inFlight, same | changed⟩ := timers id
    · exact same.trans none
    · rw [changed, none, List.map_nil]
  spared := by
    rintro id timing countdown _ ⟨timer, only, terms⟩ _
    obtain ⟨inFlight, same | changed⟩ := timers id
    · exact ⟨timer, same.trans only, terms⟩
    · refine ⟨{ timer with inFlight }, ?_, terms⟩
      rw [changed, only, List.map_singleton]
  set := by
    intro id plan _ _ sets
    exact absurd sets (not_sets_nil id plan)

theorem of_same (timers : after.scheduler.timers = before.scheduler.timers)
    (nextId : after.nextId = before.nextId) : Attended before after [] :=
  of_timers (fun tidy => tidy.of_timers timers nextId) nextId fun id =>
    ⟨false, .inl (by rw [Journal.timersOf, timers]; rfl)⟩

theorem inFlight (journal : Journal α β μ) (other : TimerId) (inFlight : Bool) :
    Attended journal
      (journal.onScheduler (Scheduler.modifyTimer other ({ · with inFlight }))) [] := by
  refine of_timers (fun tidy => tidy.modifyTimer other _ (fun _ => rfl) fun _ => rfl) rfl ?_
  intro id
  refine ⟨inFlight, ?_⟩
  rw [Journal.timersOf_modifyTimer id other ({ · with inFlight }) fun _ => rfl]
  split
  · exact .inr rfl
  · exact .inl rfl

theorem setting (journal : Journal α β μ) (owed : Nat) (plan : Schedule α) :
    Attended journal (journal.set owed plan).2 [.set (journal.set owed plan).1 plan] where
  tidy := fun tidy => tidy.set owed plan
  numbers := ⟨1, rfl, rfl⟩
  gone := fun id known none => (journal.timersOf_set_of_lt owed plan known).trans none
  spared := fun id _ _ known holds _ => holds.of_timers (journal.timersOf_set_of_lt owed plan known)
  set := by
    intro id other inline tidy sets
    rcases sets_cons sets with ⟨same, _⟩ | later
    · obtain ⟨rfl, rfl⟩ := Request.set.inj same
      exact tidy.holds_set owed inline
    · exact absurd later (not_sets_nil id other)

theorem cancelling (journal : Journal α β μ) (other : TimerId) :
    Attended journal (journal.onScheduler (Scheduler.cancel other)) [.cancel other] where
  tidy := fun tidy => tidy.modifyTimer other _ (fun _ => rfl) fun _ => rfl
  numbers := ⟨0, rfl, rfl⟩
  gone := by
    intro id _ none
    unfold Scheduler.cancel
    rw [Journal.timersOf_modifyTimer id other ({ · with cancelled := true }) fun _ => rfl, none]
    split <;> rfl
  spared := by
    intro id timing countdown _ holds spared
    have different : other ≠ id := spared (.cancel other) (List.mem_singleton.mpr rfl)
    refine holds.of_timers ?_
    unfold Scheduler.cancel
    rw [Journal.timersOf_modifyTimer id other ({ · with cancelled := true }) fun _ => rfl,
      if_neg different]
  set := by
    intro id plan _ _ sets
    rcases sets_cons sets with ⟨same, _⟩ | later
    · exact absurd same (by simp)
    · exact absurd later (not_sets_nil id plan)

theorem clearing (journal : Journal α β μ) :
    Attended journal (journal.onScheduler Scheduler.clear) [.clear] where
  tidy := fun _ => ⟨by simp [Journal.onScheduler, Scheduler.clear],
    by simp [Journal.onScheduler, Scheduler.clear], by simp [Journal.onScheduler, Scheduler.clear]⟩
  numbers := ⟨0, rfl, rfl⟩
  gone := fun _ _ _ => rfl
  spared := by
    intro id timing countdown _ _ spared
    exact (spared .clear (List.mem_singleton.mpr rfl)).elim
  set := by
    intro id plan _ _ sets
    rcases sets_cons sets with ⟨same, _⟩ | later
    · exact absurd same (by simp)
    · exact absurd later (not_sets_nil id plan)

theorem script (owed : Nat) (script : Script α β μ) (journal : Journal α β μ) :
    Attended journal (script.run owed journal).2 (script.requests owed journal) := by
  induction script generalizing journal with
  | finish => exact of_same rfl rfl
  | crash => exact of_same rfl rfl
  | set plan next ih => exact (setting journal owed plan).trans (ih _ _)
  | cancel id next ih => exact (cancelling journal id).trans (ih _)
  | post work next ih =>
      have posted : Attended journal
          (journal.onScheduler (Scheduler.post (.callback work))) [] := of_same rfl rfl
      exact posted.trans (ih _)
  | spawn work next ih =>
      have spawned : Attended journal
          (journal.onScheduler (Scheduler.spawn (.work work))) [] := of_same rfl rfl
      exact spawned.trans (ih _)
  | clear next ih => exact (clearing journal).trans (ih _)
  | look next ih => exact ih _ _ journal
  | keep memory next ih =>
      have kept : Attended journal { journal with memory } [] := of_same rfl rfl
      exact kept.trans (ih _)

variable (program : Program α β μ)

theorem handled (owed : Nat) (journal : Journal α β μ) (message : Message β) :
    Attended journal (program.handled owed journal message)
      (program.handledRequests owed journal message) := by
  cases message with
  | completed id => exact inFlight journal id false
  | callback work => exact script owed (program.answer work) journal

theorem performed (appointment : Appointment α) (journal : Journal α β μ) :
    Attended journal (program.performed appointment journal)
      (program.performedRequests appointment journal) := by
  have started : Attended journal (journal.start appointment) [] := of_same rfl rfl
  exact started.trans (script 0 (program.act appointment.work) (journal.start appointment))

theorem fired (journal : Journal α β μ) (due : Due (Appointment α)) :
    Attended journal (program.fired journal due) (program.firedRequests journal due) := by
  cases dispatch : due.dispatch with
  | inline =>
      simp only [Program.fired, Program.firedRequests, dispatch]
      exact performed program due.action journal
  | worker =>
      simp only [Program.fired, Program.firedRequests, dispatch]
      split
      · exact of_same rfl rfl
      · have marked := inFlight journal due.id true
        have spawned : Attended
            (journal.onScheduler (modifyTimer due.id ({ · with inFlight := true })))
            (journal.onScheduler (dispatchToWorker due)) [] := of_same rfl rfl
        exact marked.trans spawned

theorem worked (journal : Journal α β μ) (job : Job (Appointment α) β) :
    Attended journal (program.worked journal job) (program.workedRequests journal job) := by
  cases job with
  | timer id appointment =>
      have told : Attended (program.performed appointment journal)
          ((program.performed appointment journal).onScheduler
            (Scheduler.post (.completed id))) [] := of_same rfl rfl
      have both := (performed program appointment journal).trans told
      rwa [List.append_nil] at both
  | work callback => exact of_same rfl rfl

theorem work (journal : Journal α β μ) :
    Attended journal (Call.work.after program journal)
      (Call.work.actionRequests program journal) := by
  cases waiting : journal.scheduler.jobs with
  | nil =>
      simp only [Call.after, Call.actionRequests, takeJob?, waiting]
      exact of_same rfl rfl
  | cons job rest =>
      simp only [Call.after, Call.actionRequests, takeJob?, waiting]
      have taken : Attended journal
          { journal with scheduler := { journal.scheduler with jobs := rest } } [] :=
        of_same rfl rfl
      exact taken.trans (worked program _ job)

theorem answered (elapsed : Duration) (journal : Journal α β μ) :
    Attended journal (program.answered elapsed journal)
      ((Call.tick elapsed).callbackRequests program journal) := by
  have begun : Attended journal (Program.begun elapsed journal) [] := of_same rfl rfl
  exact begun.trans (fold (handled program (clipped elapsed)) _ _)

theorem actions (elapsed : Duration) (journal : Journal α β μ) :
    Attended (Program.aged (clipped elapsed) (program.answered elapsed journal))
      ((Call.tick elapsed).after program journal)
      ((Call.tick elapsed).actionRequests program journal) :=
  fold (fired program) _ _

end Attended

end TagScript.Scheduler
