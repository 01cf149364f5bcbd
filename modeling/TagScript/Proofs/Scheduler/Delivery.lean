import TagScript.Proofs.Scheduler.Interleaving

/-! How callbacks get from the inbox to the ticking thread: each at most once, in the order in which
they were posted, and all that were posted before a tick in that tick, before anything fires. -/

namespace TagScript.Scheduler

variable {α β : Type}

def callbacks (messages : List (Message β)) : List β :=
  messages.filterMap fun
    | .completed _ => none
    | .callback work => some work

namespace Happening

def posted : Happening α β → List β
  | .asked (.post work) => [work]
  | .finished (.work work) _ => [work]
  | _ => []

def answers : Happening α β → List β
  | .answered work => [work]
  | _ => []

def empties : Happening α β → Bool
  | .began _ | .asked .clear => true
  | _ => false

def fires : Happening α β → Bool
  | .counted | .started _ | .dispatched _ | .skipped _ | .ended => true
  | _ => false

def waiting (earlier : List β) (happening : Happening α β) : List β :=
  if happening.empties then [] else earlier ++ happening.posted

end Happening

def postsOf (happenings : List (Happening α β)) : List β := happenings.flatMap (·.posted)

def answersOf (happenings : List (Happening α β)) : List β := happenings.flatMap (·.answers)

@[simp]
theorem postsOf_cons (happening : Happening α β) (rest : List (Happening α β)) :
    postsOf (happening :: rest) = happening.posted ++ postsOf rest := rfl

@[simp]
theorem answersOf_cons (happening : Happening α β) (rest : List (Happening α β)) :
    answersOf (happening :: rest) = happening.answers ++ answersOf rest := rfl

/-- The callbacks posted since the inbox was emptied last. -/
def owed (happenings : List (Happening α β)) : List β := happenings.foldl Happening.waiting []

/-- In these happenings of one tick the callbacks are answered in turn, and no others; nothing fires
before all of them are. -/
def AnswersAll (owed : List β) (happenings : List (Happening α β)) : Prop :=
  answersOf happenings <+: owed ∧
    ∀ before happening after, happenings = before ++ happening :: after → happening.fires = true →
      answersOf before = owed ∧ answersOf after = []

namespace Workshop

def waiting (workshop : Workshop α β) : List β := callbacks workshop.scheduler.inbox

def taken (workshop : Workshop α β) : List β := callbacks workshop.thread.messages

end Workshop

variable {first between last : Workshop α β} {happening : Happening α β}
  {happenings : List (Happening α β)}

theorem callbacks_append (early late : List (Message β)) :
    callbacks (early ++ late) = callbacks early ++ callbacks late :=
  List.filterMap_append

theorem Step.waiting (step : Step first happening last) :
    last.waiting = happening.waiting first.waiting := by
  cases step with
  | asked ask scheduler thread pool =>
      cases ask with
      | post work => exact callbacks_append scheduler.inbox [.callback work]
      | clear => rfl
      | set plan => exact (List.append_nil _).symm
      | cancel id => exact (List.append_nil _).symm
      | spawn work => exact (List.append_nil _).symm
  | began elapsed scheduler pool => rfl
  | finished job crashed scheduler thread before after =>
      cases job with
      | timer id action =>
          exact callbacks_append scheduler.inbox [.completed id]
      | work callback => exact callbacks_append scheduler.inbox [.callback callback]
  | _ => exact (List.append_nil _).symm

theorem Step.taken_of_isBegin (step : Step first happening last)
    (begins : happening.isBegin = true) : first.taken = [] ∧ last.taken = first.waiting := by
  cases step with
  | began elapsed scheduler pool => exact ⟨rfl, rfl⟩
  | _ => cases begins

theorem Step.taken (step : Step first happening last) (goesOn : happening.isBegin = false) :
    first.taken = happening.answers ++ last.taken := by
  cases step with
  | began elapsed scheduler pool => cases goesOn
  | _ => rfl

theorem Step.taken_of_fires (step : Step first happening last) (fires : happening.fires = true) :
    first.taken = [] ∧ last.taken = [] := by
  cases step with
  | counted scheduler elapsed pool => exact ⟨rfl, rfl⟩
  | started inline scheduler left pool => exact ⟨rfl, rfl⟩
  | dispatched worker free left pool => exact ⟨rfl, rfl⟩
  | skipped worker busy left pool => exact ⟨rfl, rfl⟩
  | ended scheduler pool => exact ⟨rfl, rfl⟩
  | _ => cases fires

namespace Runs

theorem waiting (runs : Runs first happenings last) :
    last.waiting = happenings.foldl Happening.waiting first.waiting := by
  induction runs with
  | nil workshop => rfl
  | cons step _ ih => rw [ih, step.waiting, List.foldl_cons]

theorem waiting_of_start (runs : Runs .start happenings last) : last.waiting = owed happenings :=
  runs.waiting

theorem taken (runs : Runs first happenings last)
    (oneTick : ∀ happening ∈ happenings, happening.isBegin = false) :
    first.taken = answersOf happenings ++ last.taken := by
  induction runs with
  | nil workshop => rfl
  | cons step _ ih =>
      have rest := ih fun happening member => oneTick happening (List.mem_cons_of_mem _ member)
      rw [step.taken (oneTick _ List.mem_cons_self), rest, answersOf_cons, List.append_assoc]

theorem answers_sublist (runs : Runs first happenings last) :
    (answersOf happenings ++ (last.taken ++ last.waiting)).Sublist
      (first.taken ++ first.waiting ++ postsOf happenings) := by
  induction runs with
  | nil workshop => simp [answersOf, postsOf]
  | @cons first between last happening rest step _ ih =>
      have moved : (happening.answers ++ (between.taken ++ between.waiting)).Sublist
          (first.taken ++ first.waiting ++ happening.posted) := by
        cases begins : happening.isBegin with
        | true =>
            obtain ⟨none, all⟩ := step.taken_of_isBegin begins
            cases happening with
            | began elapsed => simp [none, all, step.waiting, Happening.waiting, Happening.empties,
                Happening.answers, Happening.posted]
            | _ => cases begins
        | false =>
            rw [step.taken begins, step.waiting, Happening.waiting]
            split
            · simp
            · simp
      have later := (List.Sublist.refl happening.answers).append ih
      have earlier := moved.append (List.Sublist.refl (postsOf rest))
      simp only [answersOf_cons, postsOf_cons, List.append_assoc] at later earlier ⊢
      exact later.trans earlier

theorem answersAll {early late : List (Happening α β)} {elapsed : Duration}
    (runs : Runs .start (early ++ .began elapsed :: late) last)
    (oneTick : ∀ happening ∈ late, happening.isBegin = false) :
    AnswersAll (owed early) late := by
  obtain ⟨before, after, earlier, begins, later⟩ := runs.split_cons
  have taken : after.taken = owed early := by
    rw [(begins.taken_of_isBegin rfl).2, earlier.waiting_of_start]
  refine ⟨⟨last.taken, ?_⟩, ?_⟩
  · rw [← later.taken oneTick, taken]
  · rintro answering happening firing rfl fires
    obtain ⟨through, fired, answered, step, rest⟩ := later.split_cons
    obtain ⟨none, noneLeft⟩ := step.taken_of_fires fires
    have first := answered.taken fun happening member =>
      oneTick happening (List.mem_append_left _ member)
    have second := rest.taken fun happening member =>
      oneTick happening (List.mem_append_right _ (List.mem_cons_of_mem _ member))
    rw [noneLeft] at second
    rw [none, taken, List.append_nil] at first
    exact ⟨first.symm, (List.append_eq_nil_iff.1 second.symm).1⟩

end Runs

theorem waiting_of_kept {happenings : List (Happening α β)} (earlier : List β)
    (kept : ∀ happening ∈ happenings, happening.empties = false) :
    happenings.foldl Happening.waiting earlier = earlier ++ postsOf happenings := by
  induction happenings generalizing earlier with
  | nil => exact (List.append_nil _).symm
  | cons happening rest ih =>
      rw [List.foldl_cons, ih _ fun found member => kept found (List.mem_cons_of_mem _ member),
        Happening.waiting, kept happening List.mem_cons_self, postsOf_cons, if_neg Bool.false_ne_true,
        List.append_assoc]

theorem owed_post {early middle : List (Happening α β)} {post : Happening α β} {work : β}
    (posts : post.posted = [work]) (kept : ∀ happening ∈ middle, happening.empties = false) :
    owed (early ++ post :: middle) = owed early ++ work :: postsOf middle := by
  have remains : post.empties = false := by
    cases post with
    | began elapsed => cases posts
    | asked ask => cases ask <;> first | rfl | cases posts
    | _ => rfl
  rw [owed, List.foldl_append, List.foldl_cons, waiting_of_kept _ kept, Happening.waiting, remains,
    posts, if_neg Bool.false_ne_true, List.append_assoc]
  rfl

/-- However posts, ticks, clears and everything else mingle: a callback is answered at most once, and
in the order of posting; a tick answers in turn what was posted before it began and nothing that is
posted later, all of it before it fires anything; so what was posted and not cleared is answered in
the next tick, behind all that was owed before, and nothing keeps that tick from its end. -/
theorem Runs.delivers_once (runs : Runs .start happenings last) :
    (answersOf happenings).Sublist (postsOf happenings) ∧
      ((postsOf happenings).Nodup → (answersOf happenings).Nodup) ∧
      (∀ early elapsed late, happenings = early ++ .began elapsed :: late →
        (∀ happening ∈ late, happening.isBegin = false) → AnswersAll (owed early) late) ∧
      (∀ early post work middle elapsed late,
        happenings = early ++ post :: middle ++ .began elapsed :: late → post.posted = [work] →
        (∀ happening ∈ middle, happening.empties = false) →
        (∀ happening ∈ late, happening.isBegin = false) →
          AnswersAll (owed early ++ work :: postsOf middle) late) ∧
      ∃ later, Proceeds last ⟨later, .idle, last.pool⟩ := by
  have sublist : (answersOf happenings).Sublist (postsOf happenings) :=
    (List.sublist_append_left _ _).trans runs.answers_sublist
  refine ⟨sublist, fun apart => apart.sublist sublist, ?_, ?_, last.settles⟩
  · rintro early elapsed late rfl oneTick
    exact runs.answersAll oneTick
  · rintro early post work middle elapsed late rfl posts kept oneTick
    rw [← owed_post posts kept]
    exact runs.answersAll oneTick

theorem delivers_once_crashing :
    let happenings : List (Happening Unit String) :=
      [.asked (.post "first"), .began ⟨0⟩, .answered "first", .asked (.post "second"),
        .returned true, .counted, .ended, .began ⟨0⟩, .answered "second", .returned false, .counted]
    ∃ last, Runs .start happenings last ∧
      AnswersAll ["first"] ((happenings.drop 2).take 5) ∧
      AnswersAll ["second"] (happenings.drop 8) := by
  intro happenings
  have firstTick : Runs .start (happenings.take 7) ⟨_, .idle, []⟩ :=
    .cons (.asked _ _ _ _) (.cons (.began _ _ _) (.cons (.answered _ _ _ _ _)
      (.cons (.asked _ _ _ _) (.cons (.callbackReturned _ _ _ _ _) (.cons (.counted _ _ _)
        (.cons (.ended _ _) (.nil _)))))))
  have secondTick := firstTick.append (.cons (.began ⟨0⟩ _ _) (.cons (.answered "second" _ _ _ _)
    (.cons (.callbackReturned false _ _ _ _) (.cons (.counted _ _ _) (.nil _)))))
  obtain ⟨_, _, whole, _⟩ := firstTick.delivers_once
  obtain ⟨_, _, _, next, _⟩ := secondTick.delivers_once
  refine ⟨_, secondTick, ?_, ?_⟩
  · exact whole [.asked (.post "first")] ⟨0⟩ _ rfl (by decide)
  · exact next (happenings.take 3) (.asked (.post "second")) "second" [.returned true, .counted, .ended]
      ⟨0⟩ _ rfl rfl (by decide) (by decide)

end TagScript.Scheduler
