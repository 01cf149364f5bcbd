import TagScript.Proofs.Engine.Passes
import TagScript.Proofs.Script.Filing

/-! Whether an entry has enough arguments. Every word outside braces counts, but not the one that
says under which name the entry is saved, and not those that the host takes for itself. -/

namespace TagScript

variable {η : Type}

namespace Engine

def counts (engine : Engine η) (command : Command η) (entry : Entry) (word : String) : Bool :=
  match Arguments.named? (command.words ++ [saveWord]) word with
  | some (name, _) => name != saveWord
  | none => !engine.host.claimed entry ⟨word, false⟩

/-- How many arguments the words of an entry give its command. -/
def argumentCount (engine : Engine η) (command : Command η) (entry : Entry) : Nat :=
  (outsideWords entry.arguments).countP (engine.counts command entry)

def proceed (engine : Engine η) (fire : Firing η) (ref : QueueRef) (command : Command η)
    (invocation : Invocation) (arguments : Arguments) (saveName : Option String) (count : Nat) :
    RunM η EntryOutcome := do
  if count < command.minArgs then
    engine.host.error (some invocation.queue)
      (s!"'{invocation.entry.text}' needs at least {command.minArgs} argument(s) but got {count}. "
        ++ s!"Usage: {command.usage}")
    return .broken
  if invocation.entry.waits && !command.holdable then
    RunM.log .warn s!"[{invocation.queue}] '~' has no effect on '{command.name}'; it does not hold its queue."
  engine.runCommand fire ref command invocation arguments saveName

theorem invoke_eq_proceed (engine : Engine η) (fire : Firing η) (ref : QueueRef)
    (command : Command η) (invocation : Invocation) :
    engine.invoke fire ref command invocation = (do
      let sorted := (Arguments.ofFilled (command.words ++ [saveWord])
        invocation.entry.arguments).takePrefixed saveWord
      let arguments ← sorted.2.offer (engine.offerToHost invocation.entry)
      engine.proceed fire ref command invocation arguments sorted.1 arguments.size) := rfl

theorem length_counted (engine : Engine η) (command : Command η) (entry : Entry)
    (words : List String) :
    (((Arguments.unnamed (command.words ++ [saveWord]) words).map (⟨·, false⟩)).filter
        (!engine.host.claimed entry ·)).length +
      (Table.erase saveWord (words.filterMap
        (Arguments.named? (command.words ++ [saveWord])))).length =
      words.countP (engine.counts command entry) := by
  induction words with
  | nil => rfl
  | cons word rest ih =>
      rw [List.countP_cons, ← ih, counts]
      cases named : Arguments.named? (command.words ++ [saveWord]) word with
      | none =>
          rw [List.filterMap_cons_none named, Arguments.unnamed,
            List.filter_cons_of_pos (by simp [named]), List.map_cons, List.filter_cons]
          cases engine.host.claimed entry ⟨word, false⟩ with
          | true => simp [Arguments.unnamed]
          | false => simp [Arguments.unnamed]; omega
      | some pair =>
          rw [List.filterMap_cons_some named, Arguments.unnamed,
            List.filter_cons_of_neg (by simp [named]), Table.erase, List.filter_cons]
          cases other : pair.1 != saveWord with
          | true => simp [Arguments.unnamed, Table.erase, other]; omega
          | false => simp [Arguments.unnamed, Table.erase, other]

theorem size_argumentsOf (engine : Engine η) {command : Command η} {entry : Entry}
    (distinct : Arguments.Distinct (command.words ++ [saveWord]) (outsideWords entry.arguments)) :
    (engine.host.argumentsOf command entry).size = engine.argumentCount command entry := by
  have isLower : Text.asciiLower saveWord = saveWord := by decide
  rw [Host.argumentsOf, Arguments.takePrefixed, isLower, Arguments.ofFilled_of_distinct distinct]
  exact engine.length_counted command entry _

/-- If no two words outside the braces of an entry have the same declared word in front, each of
them is filed and is listed until it is read; and the command goes on to run just if it has enough
of them, counting all but the name to save under and what the host takes. -/
theorem distinct_words_kept :
    (∀ known words, Arguments.Distinct known (outsideWords words) →
      (Arguments.ofFilled known words).size = (outsideWords words).length ∧
      (Arguments.ofFilled known words).unread.Perm
        ((outsideWords words).map (Arguments.lowered known))) ∧
    ∀ (engine : Engine η) fire ref (command : Command η) (invocation : Invocation),
      Arguments.Distinct (command.words ++ [saveWord])
        (outsideWords invocation.entry.arguments) →
      ∀ state, ∃ offered, offered.world.queues = state.world.queues ∧
        (engine.invoke fire ref command invocation).run state =
          (engine.proceed fire ref command invocation
            (engine.host.argumentsOf command invocation.entry)
            ((Arguments.ofFilled (command.words ++ [saveWord])
              invocation.entry.arguments).takePrefixed saveWord).1
            (engine.argumentCount command invocation.entry)).run offered := by
  constructor
  · exact fun known words distinct =>
      ⟨Arguments.size_ofFilled distinct, Arguments.unread_ofFilled distinct⟩
  · intro engine fire ref command invocation distinct state
    obtain ⟨offered, offers, same⟩ := run_offer engine invocation.entry
      ((Arguments.ofFilled (command.words ++ [saveWord])
        invocation.entry.arguments).takePrefixed saveWord).2 state
    refine ⟨offered, same, ?_⟩
    rw [invoke_eq_proceed, Tag.EvalM.run_bind_of_run_some offers,
      ← engine.size_argumentsOf distinct]
    rfl

def addressee : Engine Unit where
  host := { claims := fun _ word _ => word == "target" }
  commands := ⟨[("debug", Command.debug)]⟩
  resolvers := []
  attributes := []

theorem distinct_words_kept_mixed :
    let words := ["child", "ID:worker", openBrace, "id:x", closeBrace, "speed:5", "other:x"]
    let invocation : Invocation :=
      { entry := .ofCommand "debug" ["now", "target:bob", "save:note"], queue := "q", blocks := [] }
    Arguments.Distinct ["id", "speed"] (outsideWords words) ∧
      (Arguments.ofFilled ["id", "speed"] words).size = 4 ∧
      (Arguments.ofFilled ["id", "speed"] words).unread.Perm
        ["child", "id:worker", "speed:5", "other:x"] ∧
      Arguments.Distinct [saveWord] (outsideWords invocation.entry.arguments) ∧
      ∃ offered, (addressee.invoke (fun _ => RunM.outOfBudget) ⟨0⟩ Command.debug invocation).run
          (defining "") =
        (addressee.proceed (fun _ => RunM.outOfBudget) ⟨0⟩ Command.debug invocation
          ⟨[⟨"now", false⟩], []⟩ (some "note") 1).run offered := by
  intro words invocation
  have distinct : Arguments.Distinct ["id", "speed"] (outsideWords words) := by
    unfold Arguments.Distinct
    decide +kernel
  have alone : Arguments.Distinct [saveWord] (outsideWords invocation.entry.arguments) := by
    unfold Arguments.Distinct
    decide +kernel
  have kept := (distinct_words_kept (η := Unit)).1 ["id", "speed"] words distinct
  obtain ⟨offered, _, ran⟩ := distinct_words_kept.2 addressee (fun _ => RunM.outOfBudget) ⟨0⟩
    Command.debug invocation alone (defining "")
  have found : outsideWords words = ["child", "ID:worker", "speed:5", "other:x"] := by
    decide +kernel
  rw [found] at kept
  exact ⟨distinct, kept.1, kept.2, alone, offered, ran⟩

/-- A word that the host takes is not counted, and of two words that come to one name only one
is. -/
theorem uncounted_words :
    outsideWords ["target:bob"] = ["target:bob"] ∧
      ((addressee.executeEntry (fun _ => RunM.outOfBudget) ⟨0⟩
        (.ofCommand "debug" ["target:bob"])).run (defining "")).map
          (fun outcome => (outcome.1, outcome.2.world.events.head?)) =
        some (.broken, some (.error (some "q")
          ("'debug target:bob' needs at least 1 argument(s) but got 0. "
            ++ "Usage: debug (log|error) <message>"))) ∧
      outsideWords ["id:a", "ID:b"] = ["id:a", "ID:b"] ∧
      (Arguments.ofFilled ["id"] ["id:a", "ID:b"]).size = 1 ∧
      (Arguments.ofFilled ["id"] ["id:a", "ID:b"]).unread = ["id:b"] := by
  refine ⟨?_, ?_, ?_, ?_, ?_⟩
  · decide +kernel
  · decide +kernel
  · decide +kernel
  · decide +kernel
  · decide +kernel

end Engine

end TagScript
