import TagScript.Proofs.Engine.Verbatim
import TagScript.Proofs.Outcome.Lineage

/-! Keywords among the words of `debug` and `determine`. A keyword is looked for among all words and
not only in front, so a message that holds the word is taken for another one. -/

namespace TagScript

variable {η : Type}

open Arguments (ofWords)

namespace Engine

def sends (engine : Engine η) (ref : QueueRef) (isError : Bool) (text : String) :
    RunM η EntryOutcome := do
  let queue ← RunM.queue ref
  if isError then engine.host.error (some queue.id) text
  else engine.host.message (some queue.id) text
  return .executed

def files (engine : Engine η) (ref : QueueRef) (entry : Entry) (value : String) (stops : Bool) :
    RunM η EntryOutcome := do
  let fire := entry.fire.getD (← RunM.queue ref).fire
  RunM.update (World.record ref fire value)
  engine.host.remark (← RunM.queue ref).id s!"Determined '{value}'."
  if stops then Queue.stop engine.host ref
  return .executed

variable {engine : Engine η} {fire : Firing η} {ref : QueueRef}

section

variable {first keyword : String} {words : List String}

theorem takeKeyword_of_head (some : words ≠ []) (same : Text.sameWord first keyword = true) :
    Command.takeKeyword keyword (ofWords (first :: words)) = (true, ofWords words) := by
  have several : 1 < (ofWords (first :: words)).positional.length := by
    have := List.length_pos_of_ne_nil some
    rw [Arguments.length_ofWords, List.length_cons]
    omega
  rw [Command.takeKeyword, if_pos several, Arguments.takeFlag_ofWords, List.any_cons, same,
    List.eraseP_cons, same, Bool.true_or, cond_true]

theorem takeKeyword_of_tail (other : Text.sameWord first keyword = false) :
    Command.takeKeyword keyword (ofWords (first :: words)) =
      (words.any (Text.sameWord · keyword),
        ofWords (first :: words.eraseP (Text.sameWord · keyword))) := by
  cases words with
  | nil => rfl
  | cons second rest =>
      have several : 1 < (ofWords (first :: second :: rest)).positional.length := by
        rw [Arguments.length_ofWords, List.length_cons, List.length_cons]
        omega
      rw [Command.takeKeyword, if_pos several, Arguments.takeFlag_ofWords, List.any_cons, other,
        List.eraseP_cons_of_neg (by simp [other]), Bool.false_or]

theorem eraseP_of_any_false {p : String → Bool} (absent : words.any p = false) :
    words.eraseP p = words :=
  List.eraseP_of_forall_not (List.any_eq_false.1 absent)

end

section

variable {invocation bound : Invocation} {words rest : List String}

theorem runCommand_debug (isBound : (Command.debug : Command η).bind invocation (ofWords words) =
      .ok (bound, ⟨rest.map (⟨·, true⟩), []⟩)) :
    engine.runCommand fire ref .debug invocation (ofWords words) none =
      engine.sends ref (bound.object? "level" = some "error") (bound.objectD "message" "") := by
  let act : RunM η Unit := do
    let queue ← RunM.queue ref
    if bound.object? "level" = some "error" then
      engine.host.error (some queue.id) (bound.objectD "message" "")
    else engine.host.message (some queue.id) (bound.objectD "message" "")
  have executes : (Command.debug : Command η).execute ⟨engine.host, fire, ref⟩ bound =
      (do act; return .ok bound) := by
    unfold Command.debug Scene.queueId
    dsimp only [act]
    split <;> simp only [bind_assoc, pure_bind]
  rw [runCommand_of_read isBound executes]
  unfold sends
  dsimp only [act]
  split <;> simp_all

theorem objectD_setObject (name value fallback : String) (invocation : Invocation) :
    (invocation.setObject name value).objectD name fallback = value := by
  rw [Invocation.objectD, Invocation.object?, Invocation.setObject, Table.get?_set,
    Option.getD_some]

theorem runCommand_debug_of_error (fresh : invocation.objects = [])
    (taken : Command.takeKeyword "error" (ofWords words) = (true, ofWords rest)) :
    engine.runCommand fire ref .debug invocation (ofWords words) none =
      engine.sends ref true (Text.spaced rest) := by
  have isBound : (Command.debug : Command η).bind invocation (ofWords words) =
      .ok ((invocation.setObject "level" "error").setObject "message" (Text.spaced rest),
        ⟨rest.map (⟨·, true⟩), []⟩) := by
    unfold Command.debug
    dsimp only
    rw [taken]
    simp only [if_true, Arguments.remaining_ofWords]
  rw [runCommand_debug isBound, objectD_setObject]
  simp [Invocation.object?, Invocation.setObject, fresh, Table.set, Table.get?]

theorem runCommand_debug_of_log (fresh : invocation.objects = [])
    (free : Command.takeKeyword "error" (ofWords words) = (false, ofWords words))
    (taken : (Command.takeKeyword "log" (ofWords words)).2 = ofWords rest) :
    engine.runCommand fire ref .debug invocation (ofWords words) none =
      engine.sends ref false (Text.spaced rest) := by
  have isBound : (Command.debug : Command η).bind invocation (ofWords words) =
      .ok (invocation.setObject "message" (Text.spaced rest), ⟨rest.map (⟨·, true⟩), []⟩) := by
    unfold Command.debug
    dsimp only
    rw [free]
    dsimp only
    rw [taken]
    simp [Arguments.remaining_ofWords]
  rw [runCommand_debug isBound, objectD_setObject]
  simp [Invocation.object?, Invocation.setObject, fresh, Table.set, Table.get?]

theorem runCommand_determine {passive : Bool} (fresh : invocation.objects = [])
    (taken : Command.takeKeyword "passively" (ofWords words) = (passive, ofWords rest)) :
    engine.runCommand fire ref .determine invocation (ofWords words) none =
      engine.files ref invocation.entry (Text.spaced rest) (!passive) := by
  let bound := (if passive then invocation.setObject "passively" "true" else invocation).setObject
    "value" (Text.spaced rest)
  have isBound : (Command.determine : Command η).bind invocation (ofWords words) =
      .ok (bound, ⟨rest.map (⟨·, true⟩), []⟩) := by
    unfold Command.determine
    dsimp only
    rw [taken]
    simp only [Arguments.remaining_ofWords, bound]
  have same : bound.entry = invocation.entry := Command.determine_bind isBound
  have value : bound.objectD "value" "" = Text.spaced rest := objectD_setObject _ _ _ _
  have keyword : (bound.object? "passively").isNone = !passive := by
    cases passive <;>
      simp [bound, Invocation.object?, Invocation.setObject, fresh, Table.set, Table.get?]
  let act : RunM η Unit := do
    let fire := invocation.entry.fire.getD (← RunM.queue ref).fire
    RunM.update (World.record ref fire (Text.spaced rest))
    engine.host.remark (← RunM.queue ref).id s!"Determined '{Text.spaced rest}'."
    if !passive then Queue.stop engine.host ref
  have executes : (Command.determine : Command η).execute ⟨engine.host, fire, ref⟩ bound =
      (do act; return .ok bound) := by
    unfold Command.determine Scene.remark Scene.queueId
    dsimp only [act]
    rw [same, value, keyword]
    cases passive <;> simp [bind_assoc]
  rw [runCommand_of_read isBound executes]
  unfold files
  cases passive <;> simp [act]

theorem runCommand_debug_log (fresh : invocation.objects = []) (some : words ≠ []) :
    engine.runCommand fire ref .debug invocation (ofWords ("log" :: words)) none =
      if words.any (Text.sameWord · "error") then
        engine.sends ref true (Text.spaced ("log" :: words.eraseP (Text.sameWord · "error")))
      else engine.sends ref false (Text.spaced words) := by
  have other : Text.sameWord "log" "error" = false := by decide
  have taken : Command.takeKeyword "error" (ofWords ("log" :: words)) = _ := takeKeyword_of_tail other
  cases wrong : words.any (Text.sameWord · "error") with
  | true =>
      rw [wrong] at taken
      exact runCommand_debug_of_error fresh taken
  | false =>
      rw [wrong, eraseP_of_any_false wrong] at taken
      have logs := takeKeyword_of_head some (show Text.sameWord "log" "log" = true by decide)
      exact runCommand_debug_of_log fresh taken (congrArg Prod.snd logs)

theorem runCommand_debug_error (fresh : invocation.objects = []) (some : words ≠ []) :
    engine.runCommand fire ref .debug invocation (ofWords ("error" :: words)) none =
      engine.sends ref true (Text.spaced words) :=
  runCommand_debug_of_error fresh
    (takeKeyword_of_head some (show Text.sameWord "error" "error" = true by decide))

theorem runCommand_determine_words {first : String} (fresh : invocation.objects = [])
    (other : Text.sameWord first "passively" = false) :
    engine.runCommand fire ref .determine invocation (ofWords (first :: words)) none =
      if (first :: words).any (Text.sameWord · "passively") then
        engine.files ref invocation.entry
          (Text.spaced ((first :: words).eraseP (Text.sameWord · "passively"))) false
      else engine.files ref invocation.entry (Text.spaced (first :: words)) true := by
  rw [runCommand_determine fresh (takeKeyword_of_tail other), List.any_cons, other, Bool.false_or,
    List.eraseP_cons_of_neg (by simp [other])]
  cases passive : words.any (Text.sameWord · "passively") with
  | true => rfl
  | false => rw [eraseP_of_any_false passive]; rfl

theorem runCommand_determine_passively (fresh : invocation.objects = []) (some : words ≠ []) :
    engine.runCommand fire ref .determine invocation (ofWords ("passively" :: words)) none =
      engine.files ref invocation.entry (Text.spaced words) false :=
  runCommand_determine fresh
    (takeKeyword_of_head some (show Text.sameWord "passively" "passively" = true by decide))

end

/-- No word of these is a brace, and for what stands in front of its colon none saves the entry or
is claimed by the host. -/
def Plain (engine : Engine η) (entry : Entry) (words : List String) : Prop :=
  ∀ word ∈ words, ¬ IsBrace word ∧ Arguments.declared? [saveWord] word = none ∧
    engine.host.claimed entry ⟨word, false⟩ = false

theorem Plain.cons {entry : Entry} {words : List String} (plain : engine.Plain entry words)
    {keyword : String} (known : keyword ∈ ["log", "error", "passively"]) :
    engine.Plain entry (keyword :: words) := by
  have uncut : ¬ IsBrace keyword ∧ Arguments.cutWord? keyword = none := by
    have each : ∀ word ∈ ["log", "error", "passively"],
        (word ≠ openBrace ∧ word ≠ closeBrace) ∧ Arguments.cutWord? word = none := by decide
    exact ⟨not_or.2 (each keyword known).1, (each keyword known).2⟩
  refine List.forall_mem_cons.2 ⟨⟨uncut.1, ?_, ?_⟩, plain⟩
  · rw [Arguments.declared?, uncut.2]
    rfl
  · rw [Host.claimed, uncut.2]

theorem Plain.untaken {entry : Entry} (plain : engine.Plain entry entry.arguments)
    {command : Command η} (wordless : command.words = []) : engine.Untaken command entry where
  unbraced := ⟨fun known => (plain _ known).1 (.inl rfl), fun known => (plain _ known).1 (.inr rfl)⟩
  undeclared := fun word known => by
    rw [wordless]
    exact (plain word known).2.1
  unclaimed := fun word known => (plain word known).2.2

/-- A keyword counts wherever it stands. A message to be logged that holds `error` is an error
instead, without that word and with `log`; a value that holds `passively` is filed without the word
and does not stop the queue. Without such a word, and behind the other keywords, a text is told or
filed as it is. -/
theorem executeEntry_keyword {entry : Entry} {start later : Tag.Evaluation (World η)}
    {ready : FilledEntry} {words : List String} (atOnce : entry.waits = false)
    (ran : (engine.fillEntry fire ref entry).run start = some (ready, later)) (some : words ≠ [])
    (plain : engine.Plain { ready.entry with arguments := ready.filled } words) :
    (engine.commands.find? entry.command = .some .debug →
      (ready.filled = "log" :: words →
        (engine.executeEntry fire ref entry).run start =
          if words.any (Text.sameWord · "error") then
            (engine.sends ref true
              (Text.spaced ("log" :: words.eraseP (Text.sameWord · "error")))).run later
          else (engine.sends ref false (Text.spaced words)).run later) ∧
      (ready.filled = "error" :: words →
        (engine.executeEntry fire ref entry).run start =
          (engine.sends ref true (Text.spaced words)).run later)) ∧
    (engine.commands.find? entry.command = .some .determine →
      (ready.filled = words → (∀ first ∈ words.head?, Text.sameWord first "passively" = false) →
        (engine.executeEntry fire ref entry).run start =
          if words.any (Text.sameWord · "passively") then
            (engine.files ref entry
              (Text.spaced (words.eraseP (Text.sameWord · "passively"))) false).run later
          else (engine.files ref entry (Text.spaced words) true).run later) ∧
      (ready.filled = "passively" :: words →
        (engine.executeEntry fire ref entry).run start =
          (engine.files ref entry (Text.spaced words) false).run later)) := by
  obtain ⟨⟨arguments, same⟩, _⟩ := engine.fillEntry_filled fire ref entry start ready later ran
  have fires (value : String) (stops : Bool) :
      engine.files ref { ready.entry with arguments := ready.filled } value stops =
        engine.files ref entry value stops := by
    rw [same]
    rfl
  have keyed {keyword : String} (known : keyword ∈ ["log", "error", "passively"])
      (filled : ready.filled = keyword :: words) :
      engine.Plain { ready.entry with arguments := ready.filled } ready.filled := by
    have longer := plain.cons known
    rwa [← filled] at longer
  have executes {command : Command η} (found : engine.commands.find? entry.command = .some command)
      (wordless : command.words = []) (few : command.minArgs = 1) (filled : ready.filled ≠ [])
      (plain : engine.Plain { ready.entry with arguments := ready.filled } ready.filled) :=
    executeEntry_of_untaken found ran (plain.untaken wordless)
      (by rw [few]; exact List.length_pos_of_ne_nil filled) (by rw [atOnce, Bool.false_and])
  refine ⟨fun found => ⟨fun filled => ?_, fun filled => ?_⟩,
    fun found => ⟨fun filled other => ?_, fun filled => ?_⟩⟩
  · rw [executes found rfl rfl (by simp [filled]) (keyed (by decide) filled), filled,
      runCommand_debug_log rfl some]
    split <;> rfl
  · rw [executes found rfl rfl (by simp [filled]) (keyed (by decide) filled), filled,
      runCommand_debug_error rfl some]
  · obtain ⟨first, rest, rfl⟩ := List.exists_cons_of_ne_nil some
    rw [executes found rfl rfl (by simp [filled]) (filled ▸ plain), filled,
      runCommand_determine_words rfl (other first rfl), ← fires, ← fires, filled]
    split <;> rfl
  · rw [executes found rfl rfl (by simp [filled]) (keyed (by decide) filled), filled,
      runCommand_determine_passively rfl some, ← fires, filled]

def scribe : Engine Unit where
  host := {}
  commands := ⟨[("debug", .debug), ("determine", .determine)]⟩
  resolvers := []
  attributes := []

def unstarted : Tag.Evaluation (World Unit) :=
  ⟨.empty, .empty, false, none, { World.start () with queues := #[.make "q" .instant ⟨0⟩] }⟩

theorem plain_scribe {entry : Entry} {words : List String} (unbraced : Unbraced words)
    (undeclared : ∀ word ∈ words, Arguments.declared? [saveWord] word = none) :
    scribe.Plain entry words := by
  intro word known
  refine ⟨?_, undeclared word known, ?_⟩
  · rintro (rfl | rfl)
    · exact unbraced.1 known
    · exact unbraced.2 known
  · unfold Host.claimed
    split <;> rfl

theorem executeEntry_keyword_inside : ∃ ready later,
    (scribe.fillEntry (fun _ => RunM.outOfBudget) ⟨0⟩
        (.ofCommand "debug" ["log", "an", "error", "occurred"])).run unstarted =
          some (ready, later) ∧
      (scribe.executeEntry (fun _ => RunM.outOfBudget) ⟨0⟩
        (.ofCommand "debug" ["log", "an", "error", "occurred"])).run unstarted =
          (scribe.sends ⟨0⟩ true "log an occurred").run later := by
  have shown : ((scribe.fillEntry (fun _ => RunM.outOfBudget) ⟨0⟩
      (.ofCommand "debug" ["log", "an", "error", "occurred"])).run unstarted).map (·.1.filled) =
        some ["log", "an", "error", "occurred"] := by
    decide +kernel
  obtain ⟨⟨ready, later⟩, ran, filled⟩ := Option.map_eq_some_iff.1 shown
  have plain : scribe.Plain { ready.entry with arguments := ready.filled }
      ["an", "error", "occurred"] :=
    plain_scribe (by unfold Unbraced; decide) (by decide)
  have told := ((executeEntry_keyword rfl ran (by decide) plain).1 rfl).1 filled
  exact ⟨ready, later, ran, told⟩

/-- A message about an error is told as an error, and a value that ends in `Passively` leaves its
queue as it was; both lose the word. -/
theorem keyword_inside_text :
    ((scribe.executeEntry (fun _ => RunM.outOfBudget) ⟨0⟩
        (.ofCommand "debug" ["log", "an", "error", "occurred"])).run unstarted).map
      (fun ended => (ended.1, ended.2.world.notes.head?)) =
        some (.executed, some (.error (some "q") "log an occurred")) ∧
    ((scribe.executeEntry (fun _ => RunM.outOfBudget) ⟨0⟩
        (.ofCommand "determine" ["the", "job", "ended", "Passively"])).run unstarted).map
      (fun ended => (ended.1, ended.2.world.filedUnder ⟨0⟩, (ended.2.world.queue ⟨0⟩).isStopped)) =
        some (.executed, ["the job ended"], false) := by
  constructor
  · decide +kernel
  · decide +kernel

end Engine

end TagScript
