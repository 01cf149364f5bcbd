import Mathlib.Data.List.Forall2
import TagScript.Command.Narrate
import TagScript.Engine.Execute
import TagScript.Proofs.Tag.Filling

/-! Braces that only filling brings in. The words of an entry are looked through for braces once its
arguments are filled, so an argument that comes to a lone brace is taken for one, though the entry
was written without any. -/

namespace TagScript

variable {η σ α β γ : Type}

namespace Tag.EvalM

def Gives (act : EvalM σ α) (good : α → Prop) : Prop :=
  ∀ start result finish, act.run start = some (result, finish) → good result

namespace Gives

variable {act : EvalM σ α} {next : α → EvalM σ β} {between : α → Prop} {good : β → Prop}

theorem pure {result : β} (holds : good result) : Gives (pure result : EvalM σ β) good := by
  intro start found finish ran
  obtain ⟨rfl, _⟩ := run_pure_eq_some.1 ran
  exact holds

theorem bind (first : Gives act between)
    (rest : ∀ result, between result → Gives (next result) good) :
    Gives (act >>= next) good := by
  intro start result finish ran
  obtain ⟨found, later, ranFirst, ranRest⟩ := run_bind_eq_some.1 ran
  exact rest found (first start found later ranFirst) later result finish ranRest

theorem after (rest : ∀ result, Gives (next result) good) : Gives (act >>= next) good := by
  have first : Gives act fun _ => True := fun _ _ _ _ => trivial
  exact first.bind fun result _ => rest result

theorem ite {test : Prop} [Decidable test] {other : EvalM σ α} (yes : Gives act between)
    (no : Gives other between) : Gives (if test then act else other) between := by
  split
  · exact yes
  · exact no

theorem when {test : Prop} [Decidable test] {rest : EvalM σ β} (following : Gives rest good) :
    Gives (if test then act >>= fun _ => rest else rest) good := by
  split
  · exact .after fun _ => following
  · exact following

theorem mapM {each : α → EvalM σ β} {related : α → β → Prop} (items : List α)
    (gives : ∀ item ∈ items, Gives (each item) (related item)) :
    Gives (items.mapM each) (List.Forall₂ related items) := by
  induction items with
  | nil =>
      rw [List.mapM_nil]
      exact .pure .nil
  | cons item rest ih =>
      rw [List.mapM_cons]
      refine .bind (gives item List.mem_cons_self) fun result first => ?_
      refine .bind (ih fun other member => gives other (List.mem_cons_of_mem item member)) ?_
      exact fun results others => .pure (.cons first others)

end Gives

end Tag.EvalM

open Tag.EvalM (Gives)

def IsBrace (word : String) : Prop := word = openBrace ∨ word = closeBrace

def Unbraced (words : List String) : Prop := openBrace ∉ words ∧ closeBrace ∉ words

theorem unbraced_cons {word : String} {rest : List String} :
    Unbraced (word :: rest) ↔ ¬ IsBrace word ∧ Unbraced rest := by
  simp only [Unbraced, IsBrace, List.mem_cons, not_or, eq_comm]
  constructor
  · rintro ⟨⟨first, second⟩, third, fourth⟩
    exact ⟨⟨first, third⟩, second, fourth⟩
  · rintro ⟨⟨first, third⟩, second, fourth⟩
    exact ⟨⟨first, second⟩, third, fourth⟩

namespace Arguments

theorem addFrom_of_unbraced (words : List String) {filled : List String}
    (unbraced : Unbraced filled) (arguments : Arguments) :
    addFrom words 0 arguments filled = filled.foldl (add words) arguments := by
  induction filled generalizing arguments with
  | nil => rfl
  | cons word rest ih =>
      obtain ⟨notBrace, unbracedRest⟩ := unbraced_cons.1 unbraced
      obtain ⟨notOpen, notClose⟩ := not_or.1 notBrace
      rw [addFrom, if_neg notOpen, if_neg notClose, if_neg (Nat.lt_irrefl 0), ih unbracedRest,
        List.foldl_cons]

theorem add_nil (arguments : Arguments) (argument : String) :
    (arguments.add [] argument).positional = arguments.positional ++ [⟨argument, false⟩] := by
  have undeclared : declared? [] argument = none := by
    simp [declared?]
  rw [add, undeclared]

theorem length_foldl_add_nil (filled : List String) (arguments : Arguments) :
    (filled.foldl (add []) arguments).positional.length =
      arguments.positional.length + filled.length := by
  induction filled generalizing arguments with
  | nil => rfl
  | cons word rest ih =>
      rw [List.foldl_cons, ih, add_nil, List.length_append, List.length_singleton,
        List.length_cons]
      omega

theorem length_addFrom_nil (filled : List String) (depth : Nat) (arguments : Arguments) :
    (addFrom [] depth arguments filled).positional.length + filled.count openBrace +
        filled.count closeBrace ≤
      arguments.positional.length + filled.length := by
  induction filled generalizing depth arguments with
  | nil => simp [addFrom]
  | cons word rest ih =>
      have different : openBrace ≠ closeBrace := by decide
      rw [addFrom]
      split
      · rename_i isOpen
        subst isOpen
        have fewer := ih (depth + 1) arguments
        rw [List.count_cons_self, List.count_cons_of_ne different, List.length_cons]
        omega
      · rename_i notOpen
        rw [List.count_cons_of_ne notOpen]
        split
        · rename_i isClose
          subst isClose
          have fewer := ih (depth - 1) arguments
          rw [List.count_cons_self, List.length_cons]
          omega
        · rename_i notClose
          rw [List.count_cons_of_ne notClose]
          -- a word inside braces is lost too, which is why there is no equality
          split
          · have fewer := ih depth arguments
            rw [List.length_cons]
            omega
          · have fewer := ih depth (arguments.add [] word)
            rw [add_nil, List.length_append, List.length_singleton] at fewer
            rw [List.length_cons]
            omega

theorem ofFilled_eq_foldl_iff (filled : List String) :
    (∀ words, ofFilled words filled = filled.foldl (add words) ⟨[], []⟩) ↔ Unbraced filled := by
  constructor
  · intro filed
    have kept := length_foldl_add_nil filled ⟨[], []⟩
    have fewer := length_addFrom_nil filled 0 ⟨[], []⟩
    rw [← filed [], ofFilled] at kept
    constructor
    · exact List.count_eq_zero.1 (by omega)
    · exact List.count_eq_zero.1 (by omega)
  · intro unbraced words
    exact addFrom_of_unbraced words unbraced _

end Arguments

namespace Tag

theorem unescape_eq_singleton {text : String} (c : Char) (kept : ∀ pair ∈ standIns, pair.1 ≠ c)
    (shown : unescape text = String.singleton c) : text = String.singleton c := by
  have chars := congrArg String.toList shown
  simp only [unescape, String.toList_ofList, String.toList_singleton] at chars
  obtain ⟨original, rest, split, unescaped, empty⟩ := List.map_eq_cons_iff.1 chars
  obtain rfl := List.map_eq_nil_iff.1 empty
  have same : original = c := by
    cases found : standIns.find? (·.2 == original) with
    | none => simpa [unescapeChar, found] using unescaped
    | some pair =>
        have given : pair.1 = c := by simpa [unescapeChar, found] using unescaped
        exact absurd given (kept pair (List.mem_of_find?_eq_some found))
  exact String.toList_inj.1 (by rw [split, same, String.toList_singleton])

theorem isBrace_of_unescape {text : String} (brace : IsBrace (unescape text)) : IsBrace text := by
  rcases brace with isOpen | isClose
  · exact .inl (unescape_eq_singleton '\x7b' (by decide) isOpen)
  · exact .inr (unescape_eq_singleton '\x7d' (by decide) isClose)

theorem evaluateBounded_of_tagless (vocabulary : Vocabulary σ) (context : Context) {text : String}
    (tagless : mayHoldTags text = false) :
    evaluateBounded vocabulary context text = pure (unescape text) := by
  have plain : evaluate vocabulary context text = pure (unescape text) := by
    rw [evaluate, renderText, if_neg (by simp [tagless]), pure_bind]
  unfold evaluateBounded
  rw [tagless, plain]
  split
  · rfl
  · rfl

theorem fillArgumentsFrom_gives (vocabulary : Vocabulary σ) (context : Context) (depth : Nat)
    (words : List String) :
    Gives (fillArgumentsFrom vocabulary context depth words) fun filled =>
      List.Forall₂ (fun word result => IsBrace result → IsBrace word ∨ mayHoldTags word = true)
        words filled := by
  induction words generalizing depth with
  | nil => exact .pure .nil
  | cons word rest ih =>
      have kept (depth : Nat) : Gives
          (do return word :: (← fillArgumentsFrom vocabulary context depth rest)) fun filled =>
          List.Forall₂ (fun word result => IsBrace result → IsBrace word ∨ mayHoldTags word = true)
            (word :: rest) filled :=
        .bind (ih depth) fun filled related => .pure (.cons .inl related)
      unfold fillArgumentsFrom
      split
      · exact kept _
      · split
        · exact kept _
        · split
          · exact kept _
          · cases tags : mayHoldTags word with
            | true =>
                refine .after fun filled => .bind (ih depth) fun others related => .pure ?_
                exact .cons (fun _ => .inr tags) related
            | false =>
                rw [evaluateBounded_of_tagless vocabulary context tags, pure_bind]
                refine .bind (ih depth) fun others related => .pure ?_
                exact .cons (fun brace => .inl (isBrace_of_unescape brace)) related

theorem underToken_gives {filling : EvalM σ α} {good : α → Prop} (fills : Gives filling good)
    (cancelled : Bool) : Gives (underToken cancelled filling) good :=
  .after fun _ => .after fun _ => .bind fills fun _ holds => .after fun _ => .pure holds

end Tag

theorem Template.listFrom_of_unbraced {arguments : List String} (unbraced : Unbraced arguments) :
    Template.listFrom 0 arguments = arguments.map (Template.ofArgument 0) := by
  induction arguments with
  | nil => rfl
  | cons argument rest ih =>
      obtain ⟨notBrace, unbracedRest⟩ := unbraced_cons.1 unbraced
      obtain ⟨notOpen, notClose⟩ := not_or.1 notBrace
      rw [Template.listFrom, if_neg notClose, if_neg notOpen, ih unbracedRest, List.map_cons]

/-- Whether filling can make anything else of an argument. -/
def Changeable (argument : String) : Prop :=
  (Template.ofArgument 0 argument).hasTags = true ∨
    (Template.ofArgument 0 argument).hasDefinitions = true

namespace Engine

variable {engine : Engine η} {fire : Firing η}

theorem substituteArgument_gives (engine : Engine η) (queue : Queue) (entry : Entry)
    (argument : String) :
    Gives (engine.substituteArgument queue entry (Template.ofArgument 0 argument)) fun text =>
      text = argument ∨ (Template.ofArgument 0 argument).hasDefinitions = true := by
  unfold substituteArgument
  split
  · exact .pure (.inl rfl)
  · rename_i substituted
    simp only [Template.isSubstituted, Bool.not_eq_true, Bool.not_eq_false', Bool.and_eq_true]
      at substituted
    exact .after fun _ => .pure (.inr substituted.2)

theorem substituteDefinitions_gives (engine : Engine η) (queue : Queue) {entry : Entry}
    (unbraced : Unbraced entry.arguments) :
    Gives (engine.substituteDefinitions queue entry) fun substituted =>
      List.Forall₂ (fun argument text =>
        text = argument ∨ (Template.ofArgument 0 argument).hasDefinitions = true)
        entry.arguments substituted.arguments := by
  unfold substituteDefinitions
  split
  · exact .pure (List.forall₂_same.2 fun _ _ => .inl rfl)
  · rw [Entry.templates, Template.ofArguments, Template.listFrom_of_unbraced unbraced,
      List.mapM_map]
    exact .bind (.mapM _ fun argument _ => engine.substituteArgument_gives queue entry argument)
      fun _ related => .pure related

structure FilledEntry where
  queue : String
  entry : Entry
  filled : List String

/-- The first half of executing an entry. -/
def fillEntry (engine : Engine η) (fire : Firing η) (ref : QueueRef) (entry : Entry) :
    RunM η FilledEntry := do
  let queue ← RunM.queue ref
  if engine.host.debug then RunM.emit (engine.host.tellEntry queue.id entry.text)
  let entry ← engine.substituteDefinitions queue entry
  let context ← engine.context (some ref) (some entry)
  let filled ← Tag.underToken false
    (Tag.fillArguments (engine.vocabulary fire) context entry.arguments)
  RunM.jot (.filled ref { entry with arguments := filled })
  return ⟨queue.id, entry, filled⟩

def dispatch (engine : Engine η) (fire : Firing η) (ref : QueueRef) (ready : FilledEntry)
    (blocks : Except BlockError (List Block)) : RunM η EntryOutcome :=
  match engine.commands.find? ready.entry.command with
  | none => do
    engine.host.error (some ready.queue)
      s!"Unknown command '{ready.entry.command}' in '{ready.entry.text}'."
    return .broken
  | some command =>
    match blocks with
    | .error error => do
      engine.host.error (some ready.queue)
        s!"Malformed block in '{ready.entry.text}': {error.message}"
      return .broken
    | .ok blocks =>
      engine.invoke fire ref command
        { entry := { ready.entry with arguments := ready.filled }, queue := ready.queue, blocks }

theorem executeEntry_eq (engine : Engine η) (fire : Firing η) (ref : QueueRef) (entry : Entry) :
    engine.executeEntry fire ref entry = (do
      let ready ← engine.fillEntry fire ref entry
      engine.dispatch fire ref ready (blocksOfFilled ready.filled)) := by
  unfold executeEntry fillEntry
  cases engine.host.debug with
  | true =>
      simp only [bind_assoc, pure_bind, ↓reduceIte]
      rfl
  | false =>
      simp only [bind_assoc, pure_bind, ↓reduceIte, Bool.false_eq_true]
      rfl

theorem forall₂_through {first : α → β → Prop} {second : β → γ → Prop} {whole : α → γ → Prop}
    {starts : List α} {middles : List β} {ends : List γ}
    (through : ∀ start ∈ starts, ∀ middle last,
      first start middle → second middle last → whole start last)
    (firsts : List.Forall₂ first starts middles) (seconds : List.Forall₂ second middles ends) :
    List.Forall₂ whole starts ends := by
  induction firsts generalizing ends with
  | nil =>
      cases seconds
      exact .nil
  | cons related _ ih =>
      cases seconds with
      | cons relatedNext others =>
          refine .cons (through _ List.mem_cons_self _ _ related relatedNext) (ih ?_ others)
          exact fun start member => through start (List.mem_cons_of_mem _ member)

theorem fillEntry_gives (engine : Engine η) (fire : Firing η) (ref : QueueRef) {entry : Entry}
    (unbraced : Unbraced entry.arguments) :
    Gives (engine.fillEntry fire ref entry) fun ready =>
      List.Forall₂ (fun argument word => IsBrace word → Changeable argument) entry.arguments
        ready.filled := by
  refine .after fun queue => .when ?_
  refine .bind (engine.substituteDefinitions_gives queue unbraced) fun substituted texts => ?_
  refine .after fun context => .bind (Tag.underToken_gives
    (Tag.fillArgumentsFrom_gives _ context 0 substituted.arguments) false) fun filled words => ?_
  refine .after fun _ => .pure (forall₂_through ?_ texts words)
  intro argument member text word substituted filled brace
  rcases substituted with rfl | marked
  · rcases filled brace with wasBrace | tagged
    · rcases wasBrace with rfl | rfl
      · exact absurd member unbraced.1
      · exact absurd member unbraced.2
    · exact .inl tagged
  · exact .inr marked

/-- Filled words in which no structure is seen: no block error, and every word is an argument. -/
structure Intact (filled : List String) : Prop where
  readable : ∀ error, blocksOfFilled filled ≠ .error error
  filed : ∀ words,
    Arguments.ofFilled words filled = filled.foldl (Arguments.add words) ⟨[], []⟩

theorem blocksOfFilled_of_unbraced {filled : List String} (unbraced : Unbraced filled) :
    blocksOfFilled filled = .ok [] := by
  rw [blocksOfFilled, if_neg]
  simpa using unbraced.1

theorem intact_iff (filled : List String) : Intact filled ↔ Unbraced filled := by
  constructor
  · intro intact
    exact (Arguments.ofFilled_eq_foldl_iff filled).1 intact.filed
  · intro unbraced
    refine ⟨fun error malformed => ?_, (Arguments.ofFilled_eq_foldl_iff filled).2 unbraced⟩
    rw [blocksOfFilled_of_unbraced unbraced] at malformed
    contradiction

/-- An entry that is written without braces has as many words once it is filled. It stays free of
structure, and is executed as an entry without blocks, just if none of its words comes to a brace;
only a word with a tag or a definition can. -/
theorem filled_intact_iff (engine : Engine η) (fire : Firing η) (ref : QueueRef) {entry : Entry}
    (unbraced : Unbraced entry.arguments) {state later : Tag.Evaluation (World η)}
    {ready : FilledEntry}
    (ran : (engine.fillEntry fire ref entry).run state = some (ready, later)) :
    ready.filled.length = entry.arguments.length ∧
      (Intact ready.filled ↔ Unbraced ready.filled) ∧
      (Unbraced ready.filled → (engine.executeEntry fire ref entry).run state =
        (engine.dispatch fire ref ready (.ok [])).run later) ∧
      List.Forall₂ (fun argument word => IsBrace word → Changeable argument) entry.arguments
        ready.filled := by
  have places := engine.fillEntry_gives fire ref unbraced state ready later ran
  refine ⟨places.length_eq.symm, intact_iff ready.filled, fun unbracedFilled => ?_, places⟩
  rw [executeEntry_eq, StateT.run_bind, ran, Option.bind_eq_bind, Option.bind_some,
    blocksOfFilled_of_unbraced unbracedFilled]

def speaker : Engine Unit where
  host := {}
  commands := ⟨[("narrate", Command.narrate)]⟩
  resolvers := []
  attributes := []

def defining (value : String) : Tag.Evaluation (World Unit) :=
  ⟨.empty, .empty, false, none,
    { World.start () with queues := #[(Queue.make "q" .instant ⟨0⟩).define "x" value] }⟩

theorem filled_intact_iff_inner_braces : ∃ ready later,
    (speaker.fillEntry (fun _ => RunM.outOfBudget) ⟨0⟩ (.ofCommand "narrate" ["%x%"])).run
        (defining "\x7bhi\x7d") = some (ready, later) ∧
      ready.filled = ["\x7bhi\x7d"] ∧ Intact ready.filled := by
  have shown : ((speaker.fillEntry (fun _ => RunM.outOfBudget) ⟨0⟩
      (.ofCommand "narrate" ["%x%"])).run (defining "\x7bhi\x7d")).map (·.1.filled) =
        some ["\x7bhi\x7d"] := by
    decide +kernel
  obtain ⟨⟨ready, later⟩, ran, filled⟩ := Option.map_eq_some_iff.1 shown
  have unbraced : Unbraced ready.filled := by
    rw [filled]
    unfold Unbraced
    decide
  exact ⟨ready, later, ran, filled,
    (filled_intact_iff speaker _ ⟨0⟩ (by unfold Unbraced; decide) ran).2.1.2 unbraced⟩

/-- A definition that is a lone brace breaks the entry, and is no argument of it. -/
theorem filled_brace_breaks :
    Unbraced ["%x%"] ∧
      ((speaker.fillEntry (fun _ => RunM.outOfBudget) ⟨0⟩ (.ofCommand "narrate" ["%x%"])).run
        (defining openBrace)).map (·.1.filled) = some [openBrace] ∧
      Arguments.ofFilled [] [openBrace] = ⟨[], []⟩ ∧
      ((speaker.executeEntry (fun _ => RunM.outOfBudget) ⟨0⟩ (.ofCommand "narrate" ["%x%"])).run
        (defining openBrace)).map (fun outcome => (outcome.1, outcome.2.world.events.head?)) =
          some (.broken, some (.error (some "q")
            "Malformed block in 'narrate \x7b': A '\x7b' was never closed.")) := by
  refine ⟨by unfold Unbraced; decide, ?_, ?_, ?_⟩
  · decide +kernel
  · decide +kernel
  · decide +kernel

end Engine

end TagScript
