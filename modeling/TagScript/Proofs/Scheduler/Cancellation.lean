import TagScript.Proofs.Scheduler.Flight

/-! What comes of cancelling a timer. It keeps the timer from coming due again; a run that was on its
way already, because the timer had come due in the tick under way or because its job waits in the pool,
starts all the same. -/

namespace TagScript.Scheduler

variable {α β : Type}

def Happening.starts (id : TimerId) : Happening α β → Bool
  | .started due => due.id == id
  | .took job => isRunOf id job
  | _ => false

theorem collectDue_uncancelled (elapsed : Nat) {scheduler : Scheduler α β} {id : TimerId}
    (cancelled : ∀ timer ∈ scheduler.timers, timer.id = id → timer.cancelled = true) :
    (∀ timer ∈ (scheduler.collectDue elapsed).2.timers, timer.id ≠ id) ∧
      ∀ due ∈ (scheduler.collectDue elapsed).1, due.id ≠ id := by
  have aged (timer : Timer α) (member : timer ∈ scheduler.timers)
      (named : (timer.age elapsed).1.id = id) : timer.age elapsed = (timer, false) ∧
        timer.cancelled = true := by
    have same : (timer.age elapsed).1.id = timer.id := by
      unfold Timer.age
      split
      · rfl
      · dsimp only
        split
        · rfl
        · split <;> rfl
    have dropped := cancelled timer member (same ▸ named)
    exact ⟨by rw [Timer.age, if_pos dropped], dropped⟩
  refine ⟨fun timer member named => ?_, fun due member named => ?_⟩
  · obtain ⟨listed, kept⟩ := List.mem_filter.1 member
    obtain ⟨result, known, rfl⟩ := List.mem_map.1 listed
    obtain ⟨earlier, old, rfl⟩ := List.mem_map.1 known
    obtain ⟨same, dropped⟩ := aged earlier old named
    rw [same, dropped] at kept
    cases kept
  · obtain ⟨result, found, rfl⟩ := List.mem_map.1 member
    obtain ⟨known, cameDue⟩ := List.mem_filter.1 found
    obtain ⟨earlier, old, rfl⟩ := List.mem_map.1 known
    rw [(aged earlier old named).1] at cameDue
    cases cameDue

namespace Workshop

/-- A run of the timer is on its way: the timer came due in the tick under way and is going to be fired
in it, or a job of it waits in the pool. -/
def Pending (id : TimerId) (workshop : Workshop α β) : Prop :=
  (∃ due ∈ workshop.thread.dues, due.id = id ∧ (due.dispatch = .worker → due.inFlight = false)) ∨
    ∃ job ∈ workshop.scheduler.jobs, isRunOf id job = true

structure Silenced (id : TimerId) (workshop : Workshop α β) : Prop where
  known : id.number < workshop.scheduler.nextId
  cancelled : ∀ timer ∈ workshop.scheduler.timers, timer.id = id → timer.cancelled = true
  dues : ∀ due ∈ workshop.thread.dues, due.id = id →
    due.dispatch = .worker ∧ due.inFlight = true
  jobs : ∀ job ∈ workshop.scheduler.jobs, isRunOf id job = false

variable {first last : Workshop α β} {happening : Happening α β} {id : TimerId}

theorem cancelled_modifyTimer {scheduler : Scheduler α β} {other : TimerId}
    {change : Timer α → Timer α} (same : ∀ timer, (change timer).id = timer.id)
    (kept : ∀ timer, timer.cancelled = true → (change timer).cancelled = true)
    (cancelled : ∀ timer ∈ scheduler.timers, timer.id = id → timer.cancelled = true) :
    ∀ timer ∈ (scheduler.modifyTimer other change).timers, timer.id = id →
      timer.cancelled = true := by
  intro timer member named
  obtain ⟨earlier, old, rfl⟩ := List.mem_map.1 member
  split at named
  · rename_i changed
    rw [if_pos changed]
    exact kept earlier (cancelled earlier old (same earlier ▸ named))
  · rename_i unchanged
    rw [if_neg unchanged]
    exact cancelled earlier old named

theorem Silenced.asked (silenced : first.Silenced id) (ask : Ask α β) :
    Silenced id { first with scheduler := ask.apply first.scheduler } := by
  cases ask with
  | set plan =>
      refine ⟨Nat.lt_succ_of_lt silenced.known, fun timer member named => ?_, silenced.dues,
        silenced.jobs⟩
      rcases List.mem_append.1 member with old | new
      · exact silenced.cancelled timer old named
      · rw [List.mem_singleton.1 new] at named
        have known := silenced.known
        rw [← named] at known
        exact absurd known (Nat.lt_irrefl _)
  | cancel other =>
      exact ⟨silenced.known, cancelled_modifyTimer (fun _ => rfl) (fun _ _ => rfl) silenced.cancelled,
        silenced.dues, silenced.jobs⟩
  | post work => exact ⟨silenced.known, silenced.cancelled, silenced.dues, silenced.jobs⟩
  | spawn work =>
      refine ⟨silenced.known, silenced.cancelled, silenced.dues, fun job member => ?_⟩
      rcases List.mem_append.1 member with old | new
      · exact silenced.jobs job old
      · rw [List.mem_singleton.1 new]
        rfl
  | clear =>
      exact ⟨silenced.known, fun _ member => absurd member List.not_mem_nil, silenced.dues,
        silenced.jobs⟩

theorem Silenced.step (accurate : first.Accurate) (step : Step first happening last)
    (silenced : first.Silenced id) : last.Silenced id ∧ happening.starts id = false := by
  obtain ⟨known, cancelled, dues, jobs⟩ := silenced
  cases step with
  | asked ask scheduler thread pool => exact ⟨.asked ⟨known, cancelled, dues, jobs⟩ ask, rfl⟩
  | completed other scheduler elapsed left pool =>
      exact ⟨⟨known, cancelled_modifyTimer (fun _ => rfl) (fun _ kept => kept) cancelled, dues, jobs⟩,
        rfl⟩
  | counted scheduler elapsed pool =>
      obtain ⟨timers, fired⟩ := collectDue_uncancelled elapsed cancelled
      exact ⟨⟨known, fun timer member named => absurd named (timers timer member),
        fun due member named => absurd named (fired due member), jobs⟩, rfl⟩
  | @started due inline scheduler left pool =>
      refine ⟨⟨known, cancelled, fun due member => dues due (List.mem_cons_of_mem _ member), jobs⟩, ?_⟩
      refine beq_eq_false_iff_ne.2 fun named => ?_
      have worker := (dues due List.mem_cons_self named).1
      rw [inline] at worker
      cases worker
  | @dispatched due scheduler worker free left pool =>
      have other : due.id ≠ id := by
        intro named
        have busy := (accurate.isBusy List.mem_cons_self).trans
          (dues due List.mem_cons_self named).2
        rw [free] at busy
        cases busy
      refine ⟨⟨known, cancelled_modifyTimer (fun _ => rfl) (fun _ kept => kept) cancelled,
        fun due member => dues due (List.mem_cons_of_mem _ member), fun job member => ?_⟩, rfl⟩
      rcases List.mem_append.1 member with old | new
      · exact jobs job old
      · rw [List.mem_singleton.1 new]
        exact beq_eq_false_iff_ne.2 other
  | skipped worker busy left pool =>
      exact ⟨⟨known, cancelled, fun due member => dues due (List.mem_cons_of_mem _ member), jobs⟩, rfl⟩
  | @took scheduler job before after queued thread pool =>
      have waiting : job ∈ scheduler.jobs := queued ▸ List.mem_append_right _ List.mem_cons_self
      refine ⟨⟨known, cancelled, dues, fun other member => jobs other ?_⟩, jobs job waiting⟩
      rw [queued]
      rcases List.mem_append.1 member with early | late
      · exact List.mem_append_left _ early
      · exact List.mem_append_right _ (List.mem_cons_of_mem _ late)
  | _ => exact ⟨⟨known, cancelled, dues, jobs⟩, rfl⟩

theorem Silenced.of_cancel (known : id.number < first.scheduler.nextId)
    (idle : ¬ first.Pending id) :
    Silenced id { first with scheduler := first.scheduler.cancel id } where
  known := known
  cancelled := by
    intro timer member named
    obtain ⟨earlier, old, rfl⟩ := List.mem_map.1 member
    split at named
    · rename_i same
      rw [if_pos same]
    · rename_i different
      exact absurd named different
  dues := by
    intro due member named
    by_contra fires
    refine idle (.inl ⟨due, member, named, fun worker => ?_⟩)
    by_contra flying
    exact fires ⟨worker, Bool.not_eq_false _ ▸ flying⟩
  jobs := by
    intro job member
    by_contra run
    exact idle (.inr ⟨job, member, Bool.not_eq_false _ ▸ run⟩)

theorem reaches_due (workshop : Workshop α β) {before after : List (Due α)} {due : Due α}
    (dues : workshop.thread.dues = before ++ due :: after) :
    ∃ later, Proceeds workshop ⟨later, .firing (due :: after), workshop.pool⟩ := by
  obtain ⟨scheduler, thread, pool⟩ := workshop
  cases thread with
  | firing left =>
      obtain rfl : left = before ++ due :: after := dues
      exact Proceeds.firing before (due :: after) scheduler pool
  | inAction left =>
      obtain rfl : left = before ++ due :: after := dues
      obtain ⟨later, proceeds⟩ := Proceeds.firing before (due :: after) scheduler pool
      exact ⟨later, .step (.actionReturned false scheduler _ pool) rfl proceeds⟩
  | _ =>
      simp only [Thread.dues, List.nil_eq, List.append_eq_nil_iff, reduceCtorEq, and_false] at dues

theorem Pending.starts {happenings : List (Happening α β)} (runs : Runs .start happenings first)
    (pending : first.Pending id) :
    ∃ more last, Runs first more last ∧ ∃ happening ∈ more, happening.starts id = true := by
  rcases pending with ⟨due, member, rfl, fires⟩ | ⟨job, member, run⟩
  · obtain ⟨before, after, dues⟩ := List.append_of_mem member
    obtain ⟨later, happenings, _, reached⟩ := first.reaches_due dues
    cases dispatch : due.dispatch with
    | inline =>
        refine ⟨_, _, reached.append (.single (.started dispatch later after _)), .started due, ?_,
          beq_self_eq_true _⟩
        exact List.mem_append_right _ List.mem_cons_self
    | worker =>
        have free : later.isBusy due = false :=
          ((runs.append reached).accurate.isBusy List.mem_cons_self).trans (fires dispatch)
        let job : Job α β := .timer due.id due.action
        have queued : (later.dispatchToWorker due).jobs = later.jobs ++ job :: [] := rfl
        refine ⟨_, _, reached.append (.cons (.dispatched dispatch free after _)
          (.single (.took queued (.firing after) _))), .took job, ?_, beq_self_eq_true _⟩
        exact List.mem_append_right _ (List.mem_cons_of_mem _ List.mem_cons_self)
  · obtain ⟨before, after, queued⟩ := List.append_of_mem member
    obtain ⟨scheduler, thread, pool⟩ := first
    exact ⟨[.took job], _, .single (.took queued thread pool), _, List.mem_cons_self, run⟩

end Workshop

/-- Once a timer is cancelled its action never starts again, however things go on, just if no run of it
was on its way: the timer had not come due in the tick under way to be fired there, and no job of it
waited in the pool. -/
theorem Runs.cancelled_never_starts_iff {happenings : List (Happening α β)}
    {workshop : Workshop α β} (runs : Runs .start happenings workshop) {id : TimerId}
    (known : id.number < workshop.scheduler.nextId) :
    (∀ more last, Runs workshop (.asked (.cancel id) :: more) last →
        ∀ happening ∈ more, happening.starts id = false) ↔
      ¬ workshop.Pending id := by
  constructor
  · intro silent pending
    have cancels : Step workshop (.asked (.cancel id))
        ⟨workshop.scheduler.cancel id, workshop.thread, workshop.pool⟩ := .asked _ _ _ _
    have stillPending : Workshop.Pending id
        ⟨workshop.scheduler.cancel id, workshop.thread, workshop.pool⟩ := pending
    obtain ⟨more, last, goesOn, happening, member, starts⟩ :=
      stillPending.starts (runs.append (.single cancels))
    rw [silent more last (.cons cancels goesOn) happening member] at starts
    cases starts
  · intro idle more last goesOn happening member
    cases goesOn with
    | cons cancels goesOn =>
        have accurate := runs.accurate.step cancels
        cases cancels
        obtain ⟨early, late, rfl⟩ := List.append_of_mem member
        obtain ⟨_, _, between, step, _⟩ := goesOn.split_cons
        have kept := between.keeps (fun later => later.Accurate ∧ later.Silenced id)
          (fun _ _ step kept => ⟨kept.1.step step, (kept.2.step kept.1 step).1⟩)
          ⟨accurate, .of_cancel known idle⟩
        exact (kept.2.step kept.1 step).2

theorem cancelled_never_starts_between_ticks :
    ∃ workshop : Workshop Unit Unit, Runs .start [.asked (.set (.once ⟨1⟩ ()))] workshop ∧
      ∀ more last, Runs workshop (.asked (.cancel ⟨1⟩) :: more) last →
        ∀ happening ∈ more, happening.starts ⟨1⟩ = false := by
  have runs : Runs (.start : Workshop Unit Unit) [.asked (.set (.once ⟨1⟩ ()))] ⟨_, .idle, []⟩ :=
    .single (.asked _ _ _ _)
  refine ⟨_, runs, (runs.cancelled_never_starts_iff (Nat.lt_succ_self 1)).2 ?_⟩
  simp [Workshop.Pending, Thread.dues, Ask.apply, schedule, Scheduler.empty]

/-- Two timers come due in one tick; the action of the first cancels the second, which has not started
yet and starts nonetheless. -/
theorem cancelled_in_tick_starts :
    let plan : Schedule Unit := .once ⟨1⟩ ()
    let due (number : Nat) : Due Unit := ⟨⟨number⟩, .inline, (), false⟩
    let happenings : List (Happening Unit Unit) :=
      [.asked (.set plan), .asked (.set plan), .began ⟨1⟩, .counted, .started (due 1)]
    ∃ workshop last, Runs .start happenings workshop ∧
      (∀ happening ∈ happenings, happening.starts ⟨2⟩ = false) ∧
      Runs workshop [.asked (.cancel ⟨2⟩), .returned false, .started (due 2)] last ∧
      (Happening.started (due 2) : Happening Unit Unit).starts ⟨2⟩ = true := by
  intro plan due happenings
  have runs : Runs .start happenings ⟨_, .inAction [due 2], []⟩ :=
    .cons (.asked _ _ _ _) (.cons (.asked _ _ _ _) (.cons (.began _ _ _) (.cons (.counted _ _ _)
      (.single (.started rfl _ _ _)))))
  exact ⟨_, _, runs, by decide, .cons (.asked _ _ _ _) (.cons (.actionReturned false _ _ _)
    (.single (.started rfl _ _ _))), by decide⟩

end TagScript.Scheduler
