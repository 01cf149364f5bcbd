import Mathlib.Data.List.Basic
import TagScript.Proofs.Engine.ExecutePassage

/-! Words that reach their command as they stand: none is a brace, none has a declared word in front
of a colon, and the host claims none of them. -/

namespace TagScript

variable {η : Type}

namespace Arguments

def ofWords (words : List String) : Arguments := ⟨words.map (⟨·, false⟩), []⟩

theorem length_ofWords (words : List String) :
    (ofWords words).positional.length = words.length := List.length_map _

theorem size_ofWords (words : List String) : (ofWords words).size = words.length := by
  rw [size, length_ofWords]
  rfl

theorem ofFilled_of_undeclared {words filled : List String} (unbraced : Unbraced filled)
    (undeclared : ∀ word ∈ filled, declared? words word = none) :
    ofFilled words filled = ofWords filled := by
  have filed (front : List Argument) :
      filled.foldl (add words) ⟨front, []⟩ = ⟨front ++ filled.map (⟨·, false⟩), []⟩ := by
    clear unbraced
    induction filled generalizing front with
    | nil => simp
    | cons word rest ih =>
        rw [List.foldl_cons, add, undeclared word List.mem_cons_self]
        dsimp only
        rw [ih fun other member => undeclared other (List.mem_cons_of_mem word member)]
        simp
  rw [ofFilled, addFrom_of_unbraced words unbraced, filed, List.nil_append, ofWords]

theorem takeFlag_ofWords (keyword : String) (words : List String) :
    (ofWords words).takeFlag keyword =
      (words.any (Text.sameWord · keyword), ofWords (words.eraseP (Text.sameWord · keyword))) := by
  let isKeyword (argument : Argument) : Bool := Text.sameWord argument.value keyword
  have erased : (ofWords words).positional.eraseP isKeyword =
      (ofWords (words.eraseP (Text.sameWord · keyword))).positional := List.eraseP_map
  have known : ((ofWords words).positional.findIdx? isKeyword).isSome =
      words.any (Text.sameWord · keyword) := by
    rw [List.findIdx?_isSome, ofWords, List.any_map]
    rfl
  rw [List.eraseP_eq_eraseIdx] at erased
  unfold takeFlag
  rw [← known]
  cases found : (ofWords words).positional.findIdx? isKeyword with
  | none =>
      rw [found] at erased
      exact Prod.ext rfl (congrArg (Arguments.mk · []) erased)
  | some index =>
      rw [found] at erased
      exact Prod.ext rfl (congrArg (Arguments.mk · []) erased)

theorem remaining_ofWords (words : List String) :
    (ofWords words).remaining = (Text.spaced words, ⟨words.map (⟨·, true⟩), []⟩) := by
  simp [remaining, ofWords, Function.comp_def, List.filter_map]

end Arguments

namespace Engine

variable {engine : Engine η} {fire : Firing η} {ref : QueueRef} {command : Command η}

structure Untaken (engine : Engine η) (command : Command η) (entry : Entry) : Prop where
  unbraced : Unbraced entry.arguments
  undeclared : ∀ word ∈ entry.arguments,
    Arguments.declared? (command.words ++ [saveWord]) word = none
  unclaimed : ∀ word ∈ entry.arguments, engine.host.claimed entry ⟨word, false⟩ = false

theorem offer_of_unclaimed {entry : Entry} {words : List String}
    (unclaimed : ∀ word ∈ words, engine.host.claimed entry ⟨word, false⟩ = false) :
    (Arguments.ofWords words).offer (engine.offerToHost entry) =
      (pure (Arguments.ofWords words) : RunM η Arguments) := by
  have kept : Arguments.unclaimed (engine.offerToHost entry) (words.map (⟨·, false⟩)) =
      (pure (words.map (⟨·, false⟩)) : RunM η (List Argument)) := by
    induction words with
    | nil => rfl
    | cons word rest ih =>
        have others := ih fun other member => unclaimed other (List.mem_cons_of_mem word member)
        have free := unclaimed word List.mem_cons_self
        rw [List.map_cons, Arguments.unclaimed, others]
        unfold Host.claimed at free
        cases cut : Arguments.cutWord? word with
        | none => exact pure_bind _ _
        | some pair =>
            simp only [cut] at free
            simp only [offerToHost, free, Bool.false_eq_true, ↓reduceIte, pure_bind]
  rw [Arguments.offer]
  exact (congrArg (· >>= _) kept).trans (pure_bind _ _)

theorem invoke_of_untaken {invocation : Invocation}
    (untaken : engine.Untaken command invocation.entry)
    (enough : command.minArgs ≤ invocation.entry.arguments.length)
    (free : (invocation.entry.waits && !command.holdable) = false) :
    engine.invoke fire ref command invocation =
      engine.runCommand fire ref command invocation
        (.ofWords invocation.entry.arguments) none := by
  have few : ¬ (Arguments.ofWords invocation.entry.arguments).size < command.minArgs := by
    rw [Arguments.size_ofWords]
    omega
  unfold invoke
  dsimp only
  rw [Arguments.ofFilled_of_undeclared untaken.unbraced untaken.undeclared]
  refine (congrArg (· >>= _) (offer_of_unclaimed untaken.unclaimed)).trans ?_
  rw [pure_bind, if_neg few, free]
  rfl

theorem runCommand_of_read {invocation bound : Invocation} {arguments : Arguments}
    {words : List String} {act : RunM η Unit}
    (isBound : command.bind invocation arguments = .ok (bound, ⟨words.map (⟨·, true⟩), []⟩))
    (executes : command.execute ⟨engine.host, fire, ref⟩ bound = (do act; return .ok bound)) :
    engine.runCommand fire ref command invocation arguments none =
      (do act; return .executed) := by
  have read : (⟨words.map (⟨·, true⟩), []⟩ : Arguments).unread = [] := by
    simp [Arguments.unread, sortedTexts, List.filter_map]
  unfold runCommand
  rw [isBound]
  dsimp only
  rw [read, executes, List.isEmpty_nil, Bool.not_true, if_neg Bool.false_ne_true, bind_assoc]
  simp only [pure_bind]
  rfl

theorem executeEntry_of_untaken {entry : Entry} {start later : Tag.Evaluation (World η)}
    {ready : FilledEntry} (found : engine.commands.find? entry.command = some command)
    (ran : (engine.fillEntry fire ref entry).run start = some (ready, later))
    (untaken : engine.Untaken command { ready.entry with arguments := ready.filled })
    (enough : command.minArgs ≤ ready.filled.length)
    (free : (entry.waits && !command.holdable) = false) :
    (engine.executeEntry fire ref entry).run start =
      (engine.runCommand fire ref command
        { entry := { ready.entry with arguments := ready.filled }, queue := ready.queue }
        (.ofWords ready.filled) none).run later := by
  obtain ⟨⟨arguments, same⟩, _⟩ := engine.fillEntry_filled fire ref entry start ready later ran
  have named : engine.commands.find? ready.entry.command = some command := by rw [same, found]
  have waits : (ready.entry.waits && !command.holdable) = false := by rw [same, free]
  rw [executeEntry_eq, StateT.run_bind, ran, Option.bind_eq_bind, Option.bind_some,
    blocksOfFilled_of_unbraced untaken.unbraced, dispatch, named]
  dsimp only
  rw [invoke_of_untaken untaken enough waits]

end Engine

end TagScript
