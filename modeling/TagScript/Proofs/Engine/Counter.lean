import TagScript.Proofs.Engine.GoingOn
import TagScript.Proofs.Engine.Unfolding
import TagScript.Proofs.Engine.Verbatim
import TagScript.Proofs.Tag.Escape

/-! The counter of a loop. Each pass starts with an entry that defines it, and the words of that entry
are filled and sorted like those of any other; so a name counts if nothing is read into it. -/

namespace TagScript

variable {η : Type}

/-! Numbers as words are filled and sorted as they stand. -/

section

variable {text : String} (digits : ∀ c ∈ text.toList, c.isDigit = true)

include digits

theorem fixed_of_digits : Fixed text := by
  constructor
  · have untagged := not_mem_of_digits digits (c := '<') (by decide)
    have unmarked := List.count_eq_zero.2 (not_mem_of_digits digits (c := '%') (by decide))
    simp only [Changeable, Template.ofArgument, List.contains_iff_mem, untagged, unmarked]
    decide
  · have each (c : Char) (member : c ∈ text.toList) : Tag.unescapeChar c = c := by
      refine Tag.unescapeChar_of_unmarked (List.any_eq_false.2 fun pair known same => ?_)
      have others : ∀ pair ∈ Tag.standIns, pair.2.isDigit = false := by decide
      have digit := digits c member
      rw [← beq_iff_eq.1 same, others pair known] at digit
      cases digit
    rw [Tag.unescape, List.map_congr_left each, List.map_id', String.ofList_toList]

theorem cutWord?_of_digits : Arguments.cutWord? text = none := by
  have uncut {chars : List Char} (none : ':' ∉ chars) : Text.cutOnce ':' chars = Option.none := by
    induction chars with
    | nil => rfl
    | cons c rest ih =>
        obtain ⟨other, others⟩ := not_or.1 (mt List.mem_cons.2 none)
        rw [Text.cutOnce, if_neg (Ne.symm other), ih others]
        rfl
  rw [Arguments.cutWord?, Text.cutOnceText, uncut (not_mem_of_digits digits (by decide))]
  rfl

theorem not_isBrace_of_digits : ¬ IsBrace text := by
  rintro (rfl | rfl)
  · exact not_mem_of_digits digits (c := '\x7b') (by decide) (by decide)
  · exact not_mem_of_digits digits (c := '\x7d') (by decide) (by decide)

end

namespace Tag

theorem fillArguments_of_fixed {σ : Type} (vocabulary : Vocabulary σ) (context : Context)
    {words : List String} (fixed : ∀ word ∈ words, Fixed word) (unbraced : Unbraced words) :
    fillArguments vocabulary context words = pure words := by
  unfold fillArguments
  induction words with
  | nil => rfl
  | cons word rest ih =>
      obtain ⟨notBrace, others⟩ := unbraced_cons.1 unbraced
      obtain ⟨notOpen, notClose⟩ := not_or.1 notBrace
      obtain ⟨same, kept⟩ := fixed word List.mem_cons_self
      have tagless : mayHoldTags word = false := by
        simpa [Changeable, Template.ofArgument, mayHoldTags] using (not_or.1 same).1
      rw [fillArgumentsFrom, if_neg notOpen, if_neg notClose, if_neg (Nat.lt_irrefl 0),
        evaluateBounded_of_tagless vocabulary context tagless, kept,
        ih (fun other member => fixed other (List.mem_cons_of_mem word member)) others]
      rfl

end Tag

namespace Engine

variable {engine : Engine η} {fire : Firing η} {ref : QueueRef}

theorem fillEntry_of_fixed (engine : Engine η) (fire : Firing η) (ref : QueueRef) {entry : Entry}
    (fixed : ∀ word ∈ entry.arguments, Fixed word) (unbraced : Unbraced entry.arguments)
    (state : Tag.Evaluation (World η)) :
    ∃ ready later, (engine.fillEntry fire ref entry).run state = some (ready, later) ∧
      ready.filled = entry.arguments ∧ later.world.queues = state.world.queues := by
  have undefined : entry.hasDefinitions = false := by
    rw [Entry.hasDefinitions, Entry.templates, Template.ofArguments,
      Template.listFrom_of_unbraced unbraced, List.any_map, List.any_eq_false]
    intro word member
    have same := (not_or.1 (fixed word member).1).2
    simpa [Template.isSubstituted] using fun _ => by simpa using same
  have substituted (queue : Queue) : engine.substituteDefinitions queue entry = pure entry := by
    rw [substituteDefinitions, undefined]
    rfl
  unfold fillEntry
  simp only [substituted, pure_bind, Tag.fillArguments_of_fixed _ _ fixed unbraced]
  cases engine.host.debug with
  | true => exact ⟨_, _, rfl, rfl, rfl⟩
  | false => exact ⟨_, _, rfl, rfl, rfl⟩

/-- Filling the name once more, sorting it as an argument and offering it to the host all leave it
alone. -/
structure Inert (engine : Engine η) (name : String) : Prop where
  named : Text.isBlankText name = false
  unbraced : ¬ IsBrace name
  unsaved : Arguments.declared? [saveWord] name = none
  unclaimed : ∀ entry, engine.host.claimed entry ⟨name, false⟩ = false
  filled : ∀ (fire : Firing η) (ref : QueueRef) (entry : Entry) (number : Nat) state,
    entry.arguments = [name, toString number] →
    ∃ ready later, (engine.fillEntry fire ref entry).run state = some (ready, later) ∧
      ready.filled = entry.arguments ∧ later.world.queues = state.world.queues

theorem unbraced_counter {name : String} (unbraced : ¬ IsBrace name) (number : Nat) :
    Unbraced [name, toString number] :=
  unbraced_cons.2 ⟨unbraced, unbraced_cons.2 ⟨not_isBrace_of_digits isDigit_of_mem_toString,
    List.not_mem_nil, List.not_mem_nil⟩⟩

theorem inert_of_fixed {name : String} (fixed : Fixed name) (named : Text.isBlankText name = false)
    (unbraced : ¬ IsBrace name) (unsaved : Arguments.declared? [saveWord] name = none)
    (unclaimed : ∀ entry, engine.host.claimed entry ⟨name, false⟩ = false) : engine.Inert name where
  named := named
  unbraced := unbraced
  unsaved := unsaved
  unclaimed := unclaimed
  filled := fun fire ref entry number state words => by
    refine engine.fillEntry_of_fixed fire ref ?_ (words ▸ unbraced_counter unbraced number) state
    rw [words]
    exact List.forall_mem_cons.2 ⟨fixed,
      List.forall_mem_singleton.2 (fixed_of_digits isDigit_of_mem_toString)⟩

theorem Inert.untaken {name : String} (inert : engine.Inert name) {entry : Entry} {number : Nat}
    (words : entry.arguments = [name, toString number]) : engine.Untaken .define entry where
  unbraced := words ▸ unbraced_counter inert.unbraced number
  undeclared := by
    rw [words]
    refine List.forall_mem_cons.2 ⟨inert.unsaved, List.forall_mem_singleton.2 ?_⟩
    rw [Arguments.declared?, cutWord?_of_digits isDigit_of_mem_toString]
    rfl
  unclaimed := by
    rw [words]
    refine List.forall_mem_cons.2 ⟨inert.unclaimed entry, List.forall_mem_singleton.2 ?_⟩
    rw [Host.claimed, cutWord?_of_digits isDigit_of_mem_toString]

theorem runCommand_define {invocation : Invocation} {name value : String}
    (named : Text.isBlankText name = false) :
    engine.runCommand fire ref .define invocation (.ofWords [name, value]) none = (do
      RunM.modifyQueue ref (Queue.define name value)
      (⟨engine.host, fire, ref⟩ : Scene η).remark s!"Defined '{name}' as '{value}'."
      return .executed) := by
  let bound := (invocation.setObject "name" name).setObject "value" value
  have isBound : (Command.define : Command η).bind invocation (.ofWords [name, value]) =
      .ok (bound, ⟨[name, value].map (⟨·, true⟩), []⟩) := by
    have unnamed : ¬ Text.isBlankText name = true := by simp [named]
    exact if_neg unnamed
  have known : bound.object? "value" = some value := Table.get?_set _ _ _
  have called : bound.object? "name" = some name := by
    have apart : "name" ≠ "value" := by decide
    exact (Table.get?_set_of_ne apart _ _).trans (Table.get?_set _ _ _)
  let act : RunM η Unit := do
    RunM.modifyQueue ref (Queue.define name value)
    (⟨engine.host, fire, ref⟩ : Scene η).remark s!"Defined '{name}' as '{value}'."
  have executes : (Command.define : Command η).execute ⟨engine.host, fire, ref⟩ bound =
      (do act; return .ok bound) := by
    unfold Command.define
    dsimp only
    rw [called, known]
    simp only [act, bind_assoc]
  rw [runCommand_of_read isBound executes]
  simp only [act, bind_assoc]

theorem run_remark (host : Host) (fire : Firing η) (ref : QueueRef) (text : String)
    (state : Tag.Evaluation (World η)) : ∃ later,
    ((⟨host, fire, ref⟩ : Scene η).remark text).run state = some ((), later) ∧
      later.world.queues = state.world.queues := by
  unfold Scene.remark Scene.queueId Host.remark
  cases host.debug with
  | true => exact ⟨_, rfl, rfl⟩
  | false => exact ⟨_, rfl, rfl⟩

/-- A counter with an inert name defines that name and does nothing else with any queue. -/
theorem executeEntry_counter {name : String}
    (defines : engine.commands.find? "define" = some .define) (inert : engine.Inert name)
    {entry : Entry} {number : Nat} (command : entry.command = "define")
    (words : entry.arguments = [name, toString number]) (atOnce : entry.waits = false)
    (state : Tag.Evaluation (World η)) :
    ∃ later, (engine.executeEntry fire ref entry).run state = some (.executed, later) ∧
      later.world.queues =
        (state.world.modifyQueue ref (Queue.define name (toString number))).queues := by
  obtain ⟨ready, filled, ran, same, kept⟩ := inert.filled fire ref entry number state words
  have untaken : engine.Untaken .define { ready.entry with arguments := ready.filled } :=
    inert.untaken (same.trans words)
  rw [executeEntry_of_untaken (by rw [command, defines]) ran untaken
    (by rw [same, words]; exact Nat.le_add_left 1 1) (by rw [atOnce, Bool.false_and]),
    same, words, runCommand_define inert.named, run_modifyQueue_bind]
  obtain ⟨later, remarked, untouched⟩ := run_remark engine.host fire ref
    s!"Defined '{name}' as '{toString number}'." { filled with
      world := filled.world.modifyQueue ref (Queue.define name (toString number)) }
  refine ⟨later, Tag.EvalM.run_bind_eq_some.2 ⟨(), later, remarked, rfl⟩, untouched.trans ?_⟩
  rw [World.modifyQueue, World.modifyQueue, kept]

end Engine

end TagScript
