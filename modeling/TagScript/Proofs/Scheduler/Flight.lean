import Mathlib.Data.List.Nodup
import TagScript.Proofs.Scheduler.Interleaving

/-! Runs on workers. A timer is in flight from the moment when a run of it is handed to the pool until
the report on that run is taken note of, so no two runs of a timer are ever out at once. -/

namespace TagScript.Scheduler

variable {α β : Type}

def isRunOf (id : TimerId) : Job α β → Bool
  | .timer other _ => other == id
  | .work _ => false

def isReportOf (id : TimerId) : Message β → Bool
  | .completed other => other == id
  | .callback _ => false

def flags (timers : List (Timer α)) : List (TimerId × Bool) :=
  timers.map fun timer => (timer.id, timer.inFlight)

def dueFlags (dues : List (Due α)) : List (TimerId × Bool) :=
  dues.map fun due => (due.id, due.inFlight)

def flagAs (id : TimerId) (flag : Bool) (entries : List (TimerId × Bool)) :
    List (TimerId × Bool) :=
  entries.map fun entry => if entry.1 = id then (entry.1, flag) else entry

theorem names_flagAs (id : TimerId) (flag : Bool) (entries : List (TimerId × Bool)) :
    (flagAs id flag entries).map (·.1) = entries.map (·.1) := by
  rw [flagAs, List.map_map]
  refine List.map_congr_left fun entry _ => ?_
  simp only [Function.comp_apply]
  split <;> rfl

theorem mem_flagAs {id : TimerId} {flag : Bool} {entries : List (TimerId × Bool)}
    {entry : TimerId × Bool} (member : entry ∈ flagAs id flag entries) :
    (entry = (id, flag) ∧ ∃ old, (id, old) ∈ entries) ∨ (entry.1 ≠ id ∧ entry ∈ entries) := by
  obtain ⟨⟨name, old⟩, known, rfl⟩ := List.mem_map.1 member
  by_cases same : name = id
  · subst same
    exact .inl ⟨if_pos rfl, old, known⟩
  · rw [if_neg same]
    exact .inr ⟨same, known⟩

theorem flags_cancel (id : TimerId) (scheduler : Scheduler α β) :
    flags (scheduler.cancel id).timers = flags scheduler.timers := by
  simp only [flags, cancel, modifyTimer, List.map_map]
  refine List.map_congr_left fun timer _ => ?_
  simp only [Function.comp_apply]
  split <;> rfl

theorem flags_modifyTimer (id : TimerId) (flag : Bool) (scheduler : Scheduler α β) :
    flags (scheduler.modifyTimer id ({ · with inFlight := flag })).timers =
      flagAs id flag (flags scheduler.timers) := by
  simp only [flags, flagAs, modifyTimer, List.map_map]
  refine List.map_congr_left fun timer _ => ?_
  simp only [Function.comp_apply]
  split <;> rfl

theorem flags_collectDue (elapsed : Nat) (scheduler : Scheduler α β) :
    (flags (scheduler.collectDue elapsed).2.timers).Sublist (flags scheduler.timers) ∧
      (dueFlags (scheduler.collectDue elapsed).1).Sublist (flags scheduler.timers) := by
  have aged (timer : Timer α) : (timer.age elapsed).1.id = timer.id ∧
      (timer.age elapsed).1.inFlight = timer.inFlight := by
    unfold Timer.age
    split
    · exact ⟨rfl, rfl⟩
    · dsimp only
      split
      · exact ⟨rfl, rfl⟩
      · split <;> exact ⟨rfl, rfl⟩
  have whole : flags ((scheduler.timers.map (Timer.age elapsed)).map (·.1)) =
      flags scheduler.timers := by
    simp only [flags, List.map_map]
    refine List.map_congr_left fun timer _ => ?_
    exact Prod.ext (aged timer).1 (aged timer).2
  rw [← whole]
  refine ⟨(List.filter_sublist).map _, ?_⟩
  have due : dueFlags (scheduler.collectDue elapsed).1 =
      flags (((scheduler.timers.map (Timer.age elapsed)).filter (·.2)).map (·.1)) := by
    simp only [dueFlags, flags, collectDue, List.map_map]
    rfl
  rw [due]
  exact ((List.filter_sublist).map _).map _

namespace Workshop

/-- The runs of the timer that are queued in the pool or under way there. -/
def outstanding (id : TimerId) (workshop : Workshop α β) : Nat :=
  (workshop.scheduler.jobs ++ workshop.pool).countP (isRunOf id)

def posted (id : TimerId) (workshop : Workshop α β) : Nat :=
  workshop.scheduler.inbox.countP (isReportOf id)

/-- The reports on runs of the timer that are not taken note of. A tick may have taken them out of the
inbox. -/
def reports (id : TimerId) (workshop : Workshop α β) : Nat :=
  workshop.thread.messages.countP (isReportOf id) + workshop.posted id

def flags (workshop : Workshop α β) : List (TimerId × Bool) :=
  Scheduler.flags workshop.scheduler.timers

def dueFlags (workshop : Workshop α β) : List (TimerId × Bool) :=
  Scheduler.dueFlags workshop.thread.dues

/-- Every timer in the list is in flight while a run of it is out or was not reported. -/
structure Accurate (workshop : Workshop α β) : Prop where
  known : ∀ entry ∈ workshop.flags, entry.1.number < workshop.scheduler.nextId
  unknown : ∀ id : TimerId, workshop.scheduler.nextId ≤ id.number →
    workshop.outstanding id = 0 ∧ workshop.reports id = 0
  apart : (workshop.flags.map (·.1)).Nodup
  flagged : ∀ entry ∈ workshop.flags,
    workshop.outstanding entry.1 + workshop.reports entry.1 = entry.2.toNat
  single : ∀ id, workshop.outstanding id ≤ 1
  dueKnown : ∀ entry ∈ workshop.dueFlags, entry.1.number < workshop.scheduler.nextId
  dueApart : (workshop.dueFlags.map (·.1)).Nodup
  dueFlagged : ∀ entry ∈ workshop.dueFlags, workshop.outstanding entry.1 ≤ entry.2.toNat
  dueSame : ∀ entry ∈ workshop.dueFlags, ∀ other ∈ workshop.flags, other.1 = entry.1 → other = entry

theorem accurate_start : (start : Workshop α β).Accurate where
  known := fun _ member => absurd member List.not_mem_nil
  unknown := fun _ _ => ⟨rfl, rfl⟩
  apart := List.nodup_nil
  flagged := fun _ member => absurd member List.not_mem_nil
  single := fun _ => Nat.zero_le 1
  dueKnown := fun _ member => absurd member List.not_mem_nil
  dueApart := List.nodup_nil
  dueFlagged := fun _ member => absurd member List.not_mem_nil
  dueSame := fun _ member => absurd member List.not_mem_nil

variable {first last : Workshop α β}

theorem Accurate.of_sublist (accurate : first.Accurate) (flags : last.flags.Sublist first.flags)
    (dueFlags : last.dueFlags.Sublist first.dueFlags)
    (nextId : last.scheduler.nextId = first.scheduler.nextId)
    (outstanding : ∀ id, last.outstanding id = first.outstanding id)
    (reports : ∀ id, last.reports id = first.reports id) : last.Accurate where
  known := fun entry member => nextId ▸ accurate.known entry (flags.mem member)
  unknown := by
    intro id fresh
    rw [outstanding, reports]
    exact accurate.unknown id (nextId ▸ fresh)
  apart := accurate.apart.sublist (flags.map _)
  flagged := by
    intro entry member
    rw [outstanding, reports]
    exact accurate.flagged entry (flags.mem member)
  single := fun id => outstanding id ▸ accurate.single id
  dueKnown := fun entry member => nextId ▸ accurate.dueKnown entry (dueFlags.mem member)
  dueApart := accurate.dueApart.sublist (dueFlags.map _)
  dueFlagged := by
    intro entry member
    rw [outstanding]
    exact accurate.dueFlagged entry (dueFlags.mem member)
  dueSame := fun entry member other otherMember =>
    accurate.dueSame entry (dueFlags.mem member) other (flags.mem otherMember)

theorem Accurate.isBusy (accurate : first.Accurate) {due : Due α}
    (member : due ∈ first.thread.dues) : first.scheduler.isBusy due = due.inFlight := by
  have entry : (due.id, due.inFlight) ∈ first.dueFlags := List.mem_map_of_mem member
  unfold Scheduler.isBusy
  split
  · rename_i timer found
    have listed : (timer.id, timer.inFlight) ∈ first.flags :=
      List.mem_map_of_mem (List.mem_of_find?_eq_some found)
    have named : timer.id = due.id := by simpa using List.find?_some found
    exact congrArg (·.2) (accurate.dueSame _ entry _ listed named)
  · rfl

theorem Accurate.set (accurate : first.Accurate) (plan : Schedule α) :
    Accurate { first with scheduler := (first.scheduler.schedule plan).2 } := by
  have fresh := accurate.unknown ⟨first.scheduler.nextId⟩ (Nat.le_refl _)
  have split : ∀ entry ∈ Scheduler.flags (first.scheduler.schedule plan).2.timers,
      entry ∈ first.flags ∨ entry = (⟨first.scheduler.nextId⟩, false) := by
    simp [Scheduler.flags, schedule, flags]
  refine ⟨?_, ?_, ?_, ?_, accurate.single, ?_, accurate.dueApart, accurate.dueFlagged, ?_⟩
  · intro entry member
    rcases split entry member with old | rfl
    · exact Nat.lt_succ_of_lt (accurate.known entry old)
    · exact Nat.lt_succ_self _
  · exact fun id unused => accurate.unknown id (Nat.le_of_succ_le unused)
  · have names : (Scheduler.flags (first.scheduler.schedule plan).2.timers).map (·.1) =
        first.flags.map (·.1) ++ [⟨first.scheduler.nextId⟩] := by
      simp [Scheduler.flags, schedule, flags]
    refine names ▸ List.nodup_append.2 ⟨accurate.apart, List.pairwise_singleton _ _, ?_⟩
    rintro id old other new rfl
    obtain ⟨entry, member, rfl⟩ := List.mem_map.1 old
    have below := accurate.known entry member
    rw [List.mem_singleton.1 new] at below
    exact Nat.lt_irrefl _ below
  · intro entry member
    rcases split entry member with old | rfl
    · exact accurate.flagged entry old
    · exact Nat.add_eq_zero_iff.2 fresh
  · exact fun entry member => Nat.lt_succ_of_lt (accurate.dueKnown entry member)
  · intro entry member other otherMember same
    rcases split other otherMember with old | rfl
    · exact accurate.dueSame entry member other old same
    · have below := accurate.dueKnown entry member
      rw [← same] at below
      exact absurd below (Nat.lt_irrefl _)

theorem Accurate.clear (accurate : first.Accurate) :
    Accurate { first with scheduler := first.scheduler.clear } where
  known := fun _ member => absurd member List.not_mem_nil
  unknown := by
    intro id fresh
    obtain ⟨none, unreported⟩ := accurate.unknown id fresh
    exact ⟨none, (Nat.add_eq_zero_iff.1 unreported).1⟩
  apart := List.nodup_nil
  flagged := fun _ member => absurd member List.not_mem_nil
  single := accurate.single
  dueKnown := accurate.dueKnown
  dueApart := accurate.dueApart
  dueFlagged := accurate.dueFlagged
  dueSame := fun _ _ _ member => absurd member List.not_mem_nil

theorem Accurate.asked (accurate : first.Accurate) (ask : Ask α β) :
    Accurate { first with scheduler := ask.apply first.scheduler } := by
  cases ask with
  | set plan => exact accurate.set plan
  | cancel id =>
      have kept : flags { first with scheduler := first.scheduler.cancel id } = first.flags :=
        flags_cancel id first.scheduler
      exact accurate.of_sublist (kept ▸ .refl _) (.refl _) rfl (fun _ => rfl) fun _ => rfl
  | post work =>
      refine accurate.of_sublist (.refl _) (.refl _) rfl (fun _ => rfl) fun id => ?_
      simp [reports, posted, Ask.apply, post, isReportOf]
  | spawn work =>
      refine accurate.of_sublist (.refl _) (.refl _) rfl (fun id => ?_) fun _ => rfl
      simp [outstanding, Ask.apply, spawn, isRunOf]
  | clear => exact accurate.clear

theorem Accurate.completed {scheduler : Scheduler α β} {elapsed : Nat} {id : TimerId}
    {left : List (Message β)} {pool : List (Job α β)}
    (accurate : Accurate ⟨scheduler, .answering elapsed (.completed id :: left), pool⟩) :
    Accurate ⟨scheduler.complete id, .answering elapsed left, pool⟩ := by
  have flags : Scheduler.flags (scheduler.complete id).timers =
      flagAs id false (Scheduler.flags scheduler.timers) := flags_modifyTimer id false scheduler
  have names := names_flagAs id false (Scheduler.flags scheduler.timers)
  rw [← flags] at names
  have reports (other : TimerId) :
      reports other ⟨scheduler, .answering elapsed (.completed id :: left), pool⟩ =
        reports other ⟨scheduler.complete id, .answering elapsed left, pool⟩ +
          if id = other then 1 else 0 := by
    simp only [Workshop.reports, Thread.messages, List.countP_cons, isReportOf, beq_iff_eq, posted,
      complete, modifyTimer]
    omega
  refine ⟨?_, ?_, names ▸ accurate.apart, ?_, accurate.single, fun _ member => ?_,
    List.nodup_nil, fun _ member => ?_, fun _ member => ?_⟩
  · intro entry member
    have named : entry.1 ∈ (Scheduler.flags scheduler.timers).map (·.1) :=
      names ▸ List.mem_map_of_mem member
    obtain ⟨old, known, same⟩ := List.mem_map.1 named
    exact same ▸ accurate.known old known
  · intro other fresh
    obtain ⟨none, unreported⟩ := accurate.unknown other fresh
    have fewer := reports other
    exact ⟨none, by omega⟩
  · intro entry member
    have fewer := reports entry.1
    change entry ∈ Scheduler.flags (scheduler.complete id).timers at member
    change outstanding entry.1 ⟨scheduler, .answering elapsed (.completed id :: left), pool⟩ + _ = _
    rw [flags] at member
    rcases mem_flagAs member with ⟨rfl, old, known⟩ | ⟨different, known⟩
    · have counted := accurate.flagged _ known
      have bound := old.toNat_le
      rw [if_pos rfl] at fewer
      simp only [Bool.toNat_false] at fewer counted ⊢
      omega
    · have counted := accurate.flagged _ known
      rw [if_neg (Ne.symm different)] at fewer
      omega
  · exact absurd member List.not_mem_nil
  · exact absurd member List.not_mem_nil
  · exact absurd member List.not_mem_nil

theorem Accurate.counted {scheduler : Scheduler α β} {elapsed : Nat} {pool : List (Job α β)}
    (accurate : Accurate ⟨scheduler, .answering elapsed [], pool⟩) :
    Accurate ⟨(scheduler.collectDue elapsed).2, .firing (scheduler.collectDue elapsed).1, pool⟩ := by
  obtain ⟨kept, due⟩ := flags_collectDue elapsed scheduler
  refine ⟨fun entry member => accurate.known entry (kept.mem member), accurate.unknown,
    accurate.apart.sublist (kept.map _), fun entry member => ?_, accurate.single,
    fun entry member => accurate.known entry (due.mem member),
    accurate.apart.sublist (due.map _), fun entry member => ?_, ?_⟩
  · exact accurate.flagged entry (kept.mem member)
  · have counted := accurate.flagged entry (due.mem member)
    exact Nat.le_trans (Nat.le_add_right _ _) (Nat.le_of_eq counted)
  · intro entry member other otherMember same
    exact List.inj_on_of_nodup_map accurate.apart (kept.mem otherMember) (due.mem member) same

theorem outstanding_dispatched (id : TimerId) (due : Due α) (left : List (Due α))
    (scheduler : Scheduler α β) (pool : List (Job α β)) :
    outstanding id ⟨scheduler.dispatchToWorker due, .firing left, pool⟩ =
      outstanding id ⟨scheduler, .firing (due :: left), pool⟩ + if due.id = id then 1 else 0 := by
  simp only [outstanding, dispatchToWorker, spawn, modifyTimer, List.countP_append, List.countP_cons,
    List.countP_nil, isRunOf, beq_iff_eq]
  omega

theorem Accurate.dispatched {scheduler : Scheduler α β} {due : Due α} {left : List (Due α)}
    {pool : List (Job α β)} (accurate : Accurate ⟨scheduler, .firing (due :: left), pool⟩)
    (free : scheduler.isBusy due = false) :
    Accurate ⟨scheduler.dispatchToWorker due, .firing left, pool⟩ := by
  have idle : due.inFlight = false := (accurate.isBusy List.mem_cons_self).symm.trans free
  have listed : (due.id, due.inFlight) ∈ dueFlags ⟨scheduler, .firing (due :: left), pool⟩ :=
    List.mem_cons_self
  have none := accurate.dueFlagged _ listed
  rw [idle] at listed none
  have flags : Scheduler.flags (scheduler.dispatchToWorker due).timers =
      flagAs due.id true (Scheduler.flags scheduler.timers) :=
    flags_modifyTimer due.id true scheduler
  have names := names_flagAs due.id true (Scheduler.flags scheduler.timers)
  rw [← flags] at names
  have outstanding (id : TimerId) := outstanding_dispatched id due left scheduler pool
  have others := List.nodup_cons.1 accurate.dueApart
  have different {entry : TimerId × Bool} (member : entry ∈ Scheduler.dueFlags left) :
      due.id ≠ entry.1 := by
    intro same
    exact others.1 (List.mem_map.2 ⟨entry, member, same.symm⟩)
  refine ⟨?_, ?_, names ▸ accurate.apart, ?_, ?_, fun entry member => ?_, others.2, ?_, ?_⟩
  · intro entry member
    have named : entry.1 ∈ (Scheduler.flags scheduler.timers).map (·.1) :=
      names ▸ List.mem_map_of_mem member
    obtain ⟨old, known, same⟩ := List.mem_map.1 named
    exact same ▸ accurate.known old known
  · intro id fresh
    obtain ⟨zero, unreported⟩ := accurate.unknown id fresh
    have below := accurate.dueKnown _ listed
    have apart : due.id ≠ id := by
      rintro rfl
      exact absurd below (Nat.not_lt.2 fresh)
    rw [outstanding, if_neg apart]
    exact ⟨zero, unreported⟩
  · intro entry member
    change entry ∈ Scheduler.flags (scheduler.dispatchToWorker due).timers at member
    rw [flags] at member
    rw [outstanding]
    change _ + reports entry.1 ⟨scheduler, .firing (due :: left), pool⟩ = _
    rcases mem_flagAs member with ⟨rfl, old, known⟩ | ⟨apart, known⟩
    · have same := accurate.dueSame _ listed _ known rfl
      have counted := accurate.flagged _ known
      rw [same] at counted
      simp only [Bool.toNat_false, if_true, Bool.toNat_true] at counted ⊢
      omega
    · rw [if_neg (Ne.symm apart)]
      exact accurate.flagged _ known
  · intro id
    have bound := accurate.single id
    rw [outstanding]
    split
    · rename_i same
      subst same
      simp only [Bool.toNat_false] at none
      omega
    · exact bound
  · exact accurate.dueKnown entry (List.mem_cons_of_mem _ member)
  · intro entry member
    rw [outstanding, if_neg (different member)]
    exact accurate.dueFlagged entry (List.mem_cons_of_mem _ member)
  · intro entry member other otherMember same
    change other ∈ Scheduler.flags (scheduler.dispatchToWorker due).timers at otherMember
    rw [flags] at otherMember
    rcases mem_flagAs otherMember with ⟨rfl, _⟩ | ⟨_, known⟩
    · exact absurd same (different member)
    · exact accurate.dueSame entry (List.mem_cons_of_mem _ member) other known same

section Finished

variable (id : TimerId) (scheduler : Scheduler α β) (thread : Thread α β) (job : Job α β)
  (before after : List (Job α β))

theorem outstanding_finished : outstanding id ⟨scheduler, thread, before ++ job :: after⟩ =
    outstanding id ⟨scheduler.post (report job), thread, before ++ after⟩ +
      if isRunOf id job then 1 else 0 := by
  simp only [outstanding, post, List.countP_append, List.countP_cons]
  omega

theorem posted_finished : posted id ⟨scheduler.post (report job), thread, before ++ after⟩ =
    posted id ⟨scheduler, thread, before ++ job :: after⟩ + if isRunOf id job then 1 else 0 := by
  have reported : isReportOf id (report job) = isRunOf id job := by
    cases job <;> rfl
  simp only [posted, post, List.countP_append, List.countP_cons, List.countP_nil, reported]
  omega

end Finished

theorem Accurate.finished {scheduler : Scheduler α β} {thread : Thread α β} {job : Job α β}
    {before after : List (Job α β)}
    (accurate : Accurate ⟨scheduler, thread, before ++ job :: after⟩) :
    Accurate ⟨scheduler.post (report job), thread, before ++ after⟩ := by
  have passed (id : TimerId) := outstanding_finished id scheduler thread job before after
  have reported (id : TimerId) :
      reports id ⟨scheduler.post (report job), thread, before ++ after⟩ =
        reports id ⟨scheduler, thread, before ++ job :: after⟩ +
          if isRunOf id job then 1 else 0 := by
    rw [reports, posted_finished, reports, Nat.add_assoc]
  refine ⟨accurate.known, fun id fresh => ?_, accurate.apart, fun entry member => ?_, fun id => ?_,
    accurate.dueKnown, accurate.dueApart, fun entry member => ?_, accurate.dueSame⟩
  · have fewer := passed id
    have more := reported id
    obtain ⟨none, unreported⟩ := accurate.unknown id fresh
    omega
  · have fewer := passed entry.1
    have more := reported entry.1
    have counted := accurate.flagged entry member
    omega
  · have fewer := passed id
    have bound := accurate.single id
    omega
  · have fewer := passed entry.1
    have bound := accurate.dueFlagged entry member
    omega

/-- Whatever happens, the account is kept. -/
theorem Accurate.step {happening : Happening α β} (step : Step first happening last)
    (accurate : first.Accurate) : last.Accurate := by
  cases step with
  | asked ask scheduler thread pool => exact accurate.asked ask
  | began elapsed scheduler pool =>
      refine accurate.of_sublist (.refl _) (.refl _) rfl (fun _ => rfl) fun id => ?_
      simp [reports, posted, Thread.messages, takeInbox]
  | completed id scheduler elapsed left pool => exact accurate.completed
  | answered work scheduler elapsed left pool =>
      refine accurate.of_sublist (.refl _) (.refl _) rfl (fun _ => rfl) fun id => ?_
      simp [reports, posted, Thread.messages, isReportOf]
  | callbackReturned crashed scheduler elapsed left pool =>
      exact accurate.of_sublist (.refl _) (.refl _) rfl (fun _ => rfl) fun _ => rfl
  | counted scheduler elapsed pool => exact accurate.counted
  | started inline scheduler left pool =>
      exact accurate.of_sublist (.refl _) (List.sublist_cons_self _ _) rfl (fun _ => rfl) fun _ => rfl
  | dispatched worker free left pool => exact accurate.dispatched free
  | skipped worker busy left pool =>
      exact accurate.of_sublist (.refl _) (List.sublist_cons_self _ _) rfl (fun _ => rfl) fun _ => rfl
  | actionReturned crashed scheduler left pool =>
      exact accurate.of_sublist (.refl _) (.refl _) rfl (fun _ => rfl) fun _ => rfl
  | ended scheduler pool =>
      exact accurate.of_sublist (.refl _) (.refl _) rfl (fun _ => rfl) fun _ => rfl
  | @took scheduler job before after queued thread pool =>
      refine accurate.of_sublist (.refl _) (.refl _) rfl (fun id => ?_) fun _ => rfl
      simp only [outstanding, queued, List.countP_append, List.countP_cons]
      omega
  | finished job crashed scheduler thread before after => exact accurate.finished

end Workshop

theorem Runs.accurate {happenings : List (Happening α β)} {last : Workshop α β}
    (runs : Runs .start happenings last) : last.Accurate :=
  runs.keeps Workshop.Accurate (fun _ _ step => .step step) Workshop.accurate_start

def Thread.isAnswering : Thread α β → Bool
  | .answering _ _ | .inCallback _ _ => true
  | .idle | .firing _ | .inAction _ => false

/-! From the end of a run to the tick that takes note of it. -/

section Step

variable {first last : Workshop α β} {happening : Happening α β} {id : TimerId}

theorem Step.outstanding_le (step : Step first happening last)
    (other : ∀ due, happening = .dispatched due → due.id ≠ id) :
    last.outstanding id ≤ first.outstanding id := by
  cases step with
  | asked ask scheduler thread pool =>
      cases ask with
      | spawn work =>
          simp [Workshop.outstanding, Ask.apply, spawn, isRunOf]
      | _ => exact Nat.le_refl _
  | @dispatched due scheduler worker free left pool =>
      rw [Workshop.outstanding_dispatched, if_neg (other due rfl)]
      exact Nat.le_refl _
  | took queued thread pool =>
      simp only [Workshop.outstanding, queued, List.countP_append, List.countP_cons]
      omega
  | finished job crashed scheduler thread before after =>
      rw [Workshop.outstanding_finished id scheduler thread job before after]
      exact Nat.le_add_right _ _
  | _ => exact Nat.le_refl _

theorem Step.posted_le (step : Step first happening last) (none : first.outstanding id = 0) :
    last.posted id ≤ first.posted id := by
  cases step with
  | asked ask scheduler thread pool =>
      cases ask with
      | post work => simp [Workshop.posted, Ask.apply, post, isReportOf]
      | clear => exact Nat.zero_le _
      | _ => exact Nat.le_refl _
  | began elapsed scheduler pool => exact Nat.zero_le _
  | finished job crashed scheduler thread before after =>
      have left := Workshop.outstanding_finished id scheduler thread job before after
      have reported := Workshop.posted_finished id scheduler thread job before after
      omega
  | _ => exact Nat.le_refl _

theorem Step.le_posted (step : Step first happening last) (goesOn : happening.isBegin = false) :
    first.posted id ≤ last.posted id ∨ last.flags = [] := by
  cases step with
  | asked ask scheduler thread pool =>
      cases ask with
      | post work => exact .inl (by simp [Workshop.posted, Ask.apply, post])
      | clear => exact .inr rfl
      | _ => exact .inl (Nat.le_refl _)
  | began elapsed scheduler pool => cases goesOn
  | finished job crashed scheduler thread before after =>
      rw [Workshop.posted_finished]
      exact .inl (Nat.le_add_right _ _)
  | _ => exact .inl (Nat.le_refl _)

theorem Step.listed (step : Step first happening last) {flag : Bool}
    (member : (id, flag) ∈ last.flags) (known : id.number < first.scheduler.nextId) :
    ∃ earlier, (id, earlier) ∈ first.flags := by
  cases step with
  | asked ask scheduler thread pool =>
      cases ask with
      | set plan =>
          have split : (id, flag) ∈ flags scheduler.timers ∨
              (id, flag) = (⟨scheduler.nextId⟩, false) := by
            simpa [Workshop.flags, flags, Ask.apply, schedule] using member
          rcases split with old | new
          · exact ⟨flag, old⟩
          · obtain ⟨rfl, _⟩ := Prod.mk.inj new
            exact absurd known (Nat.lt_irrefl _)
      | cancel other =>
          have kept : (id, flag) ∈ flags (scheduler.cancel other).timers := member
          rw [flags_cancel] at kept
          exact ⟨flag, kept⟩
      | clear => exact absurd member List.not_mem_nil
      | _ => exact ⟨flag, member⟩
  | completed other scheduler elapsed left pool =>
      rw [Workshop.flags, complete, flags_modifyTimer] at member
      rcases mem_flagAs member with ⟨same, old, listed⟩ | ⟨_, listed⟩
      · obtain ⟨rfl, _⟩ := Prod.mk.inj same
        exact ⟨old, listed⟩
      · exact ⟨flag, listed⟩
  | @dispatched due scheduler worker free left pool =>
      have changed : (id, flag) ∈ flagAs due.id true (flags scheduler.timers) :=
        flags_modifyTimer due.id true scheduler ▸ member
      rcases mem_flagAs changed with ⟨same, old, listed⟩ | ⟨_, listed⟩
      · obtain ⟨rfl, _⟩ := Prod.mk.inj same
        exact ⟨old, listed⟩
      · exact ⟨flag, listed⟩
  | counted scheduler elapsed pool =>
      exact ⟨flag, (flags_collectDue elapsed scheduler).1.mem member⟩
  | _ => exact ⟨flag, member⟩

theorem Step.nextId_le (step : Step first happening last) :
    first.scheduler.nextId ≤ last.scheduler.nextId := by
  cases step with
  | asked ask scheduler thread pool =>
      cases ask with
      | set plan => exact Nat.le_succ _
      | _ => exact Nat.le_refl _
  | _ => exact Nat.le_refl _

theorem Step.due (step : Step first happening last) :
    last.dueFlags.Sublist first.dueFlags ∨
      (happening = .counted ∧ first.thread.messages = [] ∧
        last.dueFlags.Sublist first.flags) := by
  cases step with
  | counted scheduler elapsed pool => exact .inr ⟨rfl, rfl, (flags_collectDue elapsed scheduler).2⟩
  | started inline scheduler left pool => exact .inl (List.sublist_cons_self _ _)
  | dispatched worker free left pool => exact .inl (List.sublist_cons_self _ _)
  | skipped worker busy left pool => exact .inl (List.sublist_cons_self _ _)
  | _ => exact .inl (.refl _)

end Step

namespace Workshop

structure Quiet (id : TimerId) (workshop : Workshop α β) : Prop where
  none : workshop.outstanding id = 0
  unreported : workshop.posted id = 0

structure Landed (id : TimerId) (workshop : Workshop α β) : Prop where
  known : id.number < workshop.scheduler.nextId
  none : workshop.outstanding id = 0
  reported : ∀ flag, (id, flag) ∈ workshop.flags → 0 < workshop.posted id
  due : (id, false) ∉ workshop.dueFlags

structure Freed (id : TimerId) (workshop : Workshop α β) : Prop where
  quiet : workshop.thread.isAnswering = true → workshop.Quiet id
  due : (id, true) ∉ workshop.dueFlags

variable {first last : Workshop α β} {happening : Happening α β} {id : TimerId}

theorem Quiet.step (step : Step first happening last)
    (other : ∀ due, happening = .dispatched due → due.id ≠ id) (quiet : first.Quiet id) :
    last.Quiet id where
  none := Nat.eq_zero_of_le_zero (quiet.none ▸ step.outstanding_le other)
  unreported := Nat.eq_zero_of_le_zero (quiet.unreported ▸ step.posted_le quiet.none)

theorem Accurate.dispatch_free (accurate : first.Accurate) {due : Due α}
    (step : Step first (.dispatched due) last) : (due.id, false) ∈ first.dueFlags := by
  cases step with
  | @dispatched _ scheduler worker free left pool =>
      have idle := (accurate.isBusy List.mem_cons_self).symm.trans free
      exact idle ▸ List.mem_cons_self

theorem Accurate.skip_busy (accurate : first.Accurate) {due : Due α}
    (step : Step first (.skipped due) last) : (due.id, true) ∈ first.dueFlags := by
  cases step with
  | @skipped _ scheduler worker busy left pool =>
      have flying := (accurate.isBusy List.mem_cons_self).symm.trans busy
      exact flying ▸ List.mem_cons_self

theorem Landed.of_finished (accurate : first.Accurate) {action : α} {crashed : Bool}
    (step : Step first (.finished (.timer id action) crashed) last) : last.Landed id := by
  cases step with
  | finished _ _ scheduler thread before after =>
      have left := outstanding_finished id scheduler thread (.timer id action) before after
      have reported := posted_finished id scheduler thread (.timer id action) before after
      rw [if_pos (by simp [isRunOf])] at left reported
      have bound := accurate.single id
      refine ⟨?_, by omega, fun _ _ => by omega, fun due => ?_⟩
      · by_contra fresh
        have unknown := accurate.unknown id (Nat.le_of_not_lt fresh)
        omega
      · have counted := accurate.dueFlagged _ due
        simp only [Bool.toNat_false] at counted
        omega

theorem Landed.step (accurate : first.Accurate) (step : Step first happening last)
    (goesOn : happening.isBegin = false) (landed : first.Landed id) : last.Landed id := by
  have other : ∀ due, happening = .dispatched due → due.id ≠ id := by
    rintro due rfl rfl
    exact landed.due (accurate.dispatch_free step)
  refine ⟨Nat.lt_of_lt_of_le landed.known step.nextId_le,
    Nat.eq_zero_of_le_zero (landed.none ▸ step.outstanding_le other), fun flag member => ?_,
    fun due => ?_⟩
  · obtain ⟨earlier, listed⟩ := step.listed member landed.known
    have reported := landed.reported earlier listed
    rcases step.le_posted goesOn with kept | cleared
    · exact Nat.lt_of_lt_of_le reported kept
    · rw [cleared] at member
      exact absurd member List.not_mem_nil
  · rcases step.due with kept | ⟨_, _, listed⟩
    · exact landed.due (kept.mem due)
    · have counted := accurate.flagged _ (listed.mem due)
      have reported := landed.reported false (listed.mem due)
      simp only [Bool.toNat_false, reports] at counted
      omega

theorem Freed.of_began {elapsed : Duration} (step : Step first (.began elapsed) last)
    (landed : first.Landed id) : last.Freed id ∧ last.Quiet id := by
  cases step with
  | began _ scheduler pool =>
      exact ⟨⟨fun _ => ⟨landed.none, rfl⟩, List.not_mem_nil⟩, landed.none, rfl⟩

theorem Freed.step (accurate : first.Accurate) (step : Step first happening last)
    (goesOn : happening.isBegin = false) (freed : first.Freed id) : last.Freed id where
  quiet := by
    intro answering
    have before : first.thread.isAnswering = true := by
      cases step with
      | began elapsed scheduler pool => cases goesOn
      | asked ask scheduler thread pool => exact answering
      | took queued thread pool => exact answering
      | finished job crashed scheduler thread before after => exact answering
      | completed other scheduler elapsed left pool => rfl
      | answered work scheduler elapsed left pool => rfl
      | callbackReturned crashed scheduler elapsed left pool => rfl
      | _ => cases answering
    refine (freed.quiet before).step step ?_
    rintro due rfl
    cases step
    cases before
  due := by
    intro due
    rcases step.due with kept | ⟨rfl, through, listed⟩
    · exact freed.due (kept.mem due)
    · have answering : first.thread.isAnswering = true := by
        cases step
        rfl
      obtain ⟨none, unreported⟩ := freed.quiet answering
      have counted := accurate.flagged _ (listed.mem due)
      rw [reports, through] at counted
      simp only [none, unreported, List.countP_nil, Bool.toNat_true] at counted
      omega

end Workshop

theorem Runs.messages_nil {first last : Workshop α β} {happenings : List (Happening α β)}
    (runs : Runs first happenings last)
    (oneTick : ∀ happening ∈ happenings, happening.isBegin = false)
    (through : first.thread.messages = []) : last.thread.messages = [] := by
  refine runs.keeps (fun workshop => workshop.thread.messages = [])
    (fun happening member step none => ?_) through
  cases step with
  | began elapsed scheduler pool => cases oneTick _ member
  | completed id scheduler elapsed left pool => cases none
  | answered work scheduler elapsed left pool => cases none
  | _ => exact none

/-- However everything mingles: at no time is more than one run of a timer out; a timer in the list is
in flight just as long as either a run of it is out or the report on one was not taken note of; and in
the tick that takes the report on a run, the timer is not skipped when it comes due, and is no longer in
flight afterwards unless it was handed to the pool again. -/
theorem Runs.one_run_at_a_time {happenings : List (Happening α β)} {last : Workshop α β}
    (runs : Runs .start happenings last) :
    (∀ id, last.outstanding id ≤ 1) ∧
      (∀ timer ∈ last.scheduler.timers, timer.dispatch = .worker →
        (timer.inFlight = true ↔
          Xor (last.outstanding timer.id = 1) (last.reports timer.id = 1)) ∧
        last.outstanding timer.id + last.reports timer.id ≤ 1) ∧
      ∀ early id action crashed middle elapsed late, happenings =
          early ++ .finished (.timer id action) crashed :: middle ++ .began elapsed :: late →
        (∀ happening ∈ middle, happening.isBegin = false) →
        (∀ happening ∈ late, happening.isBegin = false) →
          (∀ due, .skipped due ∈ late → due.id ≠ id) ∧
            (.counted ∈ late → (∀ due, .dispatched due ∈ late → due.id ≠ id) →
              ∀ timer ∈ last.scheduler.timers, timer.id = id → timer.inFlight = false) := by
  have accurate := runs.accurate
  refine ⟨accurate.single, fun timer member _ => ?_, ?_⟩
  · have counted : last.outstanding timer.id + last.reports timer.id = timer.inFlight.toNat :=
      accurate.flagged _ (List.mem_map_of_mem member)
    rw [Xor, counted]
    cases flying : timer.inFlight with
    | false =>
        rw [flying, Bool.toNat_false] at counted
        simp only [Bool.false_eq_true, false_iff, Bool.toNat_false]
        omega
    | true =>
        rw [flying, Bool.toNat_true] at counted
        simp only [true_iff, Bool.toNat_true]
        omega
  · rintro early id action crashed middle elapsed late rfl between oneTick
    obtain ⟨before, begun, earlier, begins, later⟩ := runs.split_cons
    obtain ⟨flying, landed, first, lands, waits⟩ := earlier.split_cons
    have kept := waits.keeps (fun workshop => workshop.Accurate ∧ workshop.Landed id)
      (fun happening member step kept => ⟨kept.1.step step, kept.2.step kept.1 step (between _ member)⟩)
      ⟨first.accurate.step lands, .of_finished first.accurate lands⟩
    obtain ⟨freed, quiet⟩ := Workshop.Freed.of_began begins kept.2
    have start := kept.1.step begins
    refine ⟨?_, fun counts undispatched timer member same => ?_⟩
    · rintro due skipped rfl
      obtain ⟨ticking, rest, rfl⟩ := List.append_of_mem skipped
      obtain ⟨skipping, _, runs, skip, _⟩ := later.split_cons
      have busy := runs.keeps (fun workshop => workshop.Accurate ∧ workshop.Freed due.id)
        (fun happening member step kept => ⟨kept.1.step step,
          kept.2.step kept.1 step (oneTick _ (List.mem_append_left _ member))⟩) ⟨start, freed⟩
      exact busy.2.due (busy.1.skip_busy skip)
    · have silent := later.keeps (·.Quiet id)
        (fun happening member step kept => kept.step step fun due same =>
          undispatched due (same ▸ member)) quiet
      obtain ⟨ticking, rest, rfl⟩ := List.append_of_mem counts
      obtain ⟨_, counting, _, step, ends⟩ := later.split_cons
      have through : last.thread.messages = [] :=
        ends.messages_nil (fun happening member => oneTick _ (List.mem_append_right _
          (List.mem_cons_of_mem _ member))) (by cases step; rfl)
      have counted : last.outstanding timer.id + last.reports timer.id = timer.inFlight.toNat :=
        accurate.flagged _ (List.mem_map_of_mem member)
      rw [same, Workshop.reports, through, silent.none, silent.unreported] at counted
      exact Bool.toNat_eq_zero.1 counted.symm

theorem one_run_at_a_time_crashing :
    let plan : Schedule Unit := (Schedule.repeating ⟨1⟩ ()).onWorker
    let due : Due Unit := ⟨⟨1⟩, .worker, (), false⟩
    let job : Job Unit Unit := .timer ⟨1⟩ ()
    let happenings := [.asked (.set plan), .began ⟨1⟩, .counted, .dispatched due, .ended, .took job,
      .finished job true, .began ⟨1⟩, .completed ⟨1⟩, .counted]
    ∃ last, Runs .start happenings last ∧ last.outstanding ⟨1⟩ ≤ 1 ∧
      last.thread.dues.map (·.id) = [⟨1⟩] ∧
      ∀ timer ∈ last.scheduler.timers, timer.id = ⟨1⟩ → timer.inFlight = false := by
  intro plan due job happenings
  have dispatch : Runs .start (happenings.take 4) ⟨_, .firing [], []⟩ :=
    .cons (.asked _ _ _ _) (.cons (.began _ _ _) (.cons (.counted _ _ _)
      (.single (.dispatched rfl (by decide) _ _))))
  have finish := dispatch.append (.cons (.ended _ _) (.cons (.took (List.nil_append [job]).symm _ _)
    (.single (.finished job true _ _ [] []))))
  have runs := finish.append (.cons (.began ⟨1⟩ _ _) (.cons (.completed ⟨1⟩ _ _ _ _)
    (.single (.counted _ _ _))))
  obtain ⟨single, _, again⟩ := runs.one_run_at_a_time
  refine ⟨_, runs, single ⟨1⟩, rfl, ?_⟩
  exact (again (happenings.take 6) ⟨1⟩ () true [] ⟨1⟩ [.completed ⟨1⟩, .counted] rfl (by simp)
    (by decide)).2 (by simp) (by simp)

end TagScript.Scheduler
