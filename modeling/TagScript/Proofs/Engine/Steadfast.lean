import TagScript.Proofs.Engine.Congruent
import TagScript.Proofs.Engine.Run
import TagScript.Proofs.Tag.Listing
import TagScript.Proofs.Tag.Steadfast
import TagScript.Proofs.Tag.Wrapping

/-! Scripts that run within a filling, called by a tag. Whatever they do, the limit of the filling goes
on, and if nothing in them cancels it they do what they would do if no tag could cancel. So each word
of an entry is filled whole or given up as a whole, whatever its tags call. -/

namespace TagScript

open Tag.EvalM (Follows)

variable {η : Type}

theorem RunM.follows_congruent : RunM.Congruent (@Follows (World η)) where
  pure := .pure
  bind := .bind
  world_bind := fun _ rest => .bind .world rest
  update := fun _ => .modifyWorld _
  updateGet := fun {_ change} _ => .bind .world fun world => .bind (.setWorld (change world).2) fun _ =>
    .pure _
  outOfBudget := fun _ _ _ _ ran => by cases ran

def Firing.Follows (fire other : Firing η) : Prop :=
  ∀ request, Tag.EvalM.Follows (fire request) (other request)

/-- Executing the command leads onward if firing scripts does. -/
def Command.Steady (command : Command η) : Prop :=
  ∀ host ref (fire other : Firing η) invocation, fire.Follows other →
    Follows (command.execute ⟨host, fire, ref⟩ invocation)
      (command.execute ⟨host, other, ref⟩ invocation)

theorem Command.builtins_steady (command : Command η) (known : command ∈ builtins) : command.Steady :=
  RunM.follows_congruent.builtins command known

namespace Engine

/-- The same engine, but none of its tags cancels. -/
def steadfast (engine : Engine η) : Engine η :=
  { engine with
    resolvers := engine.resolvers.map (·.steadfast)
    attributes := engine.attributes.map (·.steadfast) }

variable {engine : Engine η}

theorem callProcedure_follows {fire other : Firing η} (fires : fire.Follows other)
    (procedure : Tag.Procedure) :
    Follows (callProcedure fire procedure) (callProcedure other procedure) :=
  RunM.follows_congruent.callProcedure fires procedure

theorem steadfast_vocabulary (engine : Engine η) (fire other : Firing η) :
    engine.steadfast.vocabulary other =
      (engine.vocabulary fire).steadfast (callProcedure other) := rfl

theorem steadfast_congruent (steady : ∀ name, ∀ command ∈ engine.commands.find? name, command.Steady) :
    engine.Congruent (@Follows (World η)) engine.steadfast.resolvers engine.steadfast.attributes where
  acts := RunM.follows_congruent
  commands := steady
  fills := fun fire other fires context words => by
    show Follows _ (Tag.underToken false
      (Tag.fillArguments (engine.steadfast.vocabulary other) context words))
    rw [steadfast_vocabulary engine fire other]
    exact Tag.underToken_follows
      (Tag.fillArgumentsFrom_follows (callProcedure_follows fires) context 0 words) false

theorem fire_follows (steady : ∀ name, ∀ command ∈ engine.commands.find? name, command.Steady)
    (budget : Nat) : (engine.fire budget).Follows (engine.steadfast.fire budget) :=
  (steadfast_congruent steady).fire budget

/-- With a limit that does not run out, each word outside braces is filled under a limit of its own.
Either no tag cancels it, and it comes to what it comes to if no tag can cancel; or it is given up for
`null` with one error. Within a filling that is under way, a text that ends cancelled is given up
without an error. -/
theorem fillArguments_all_or_nothing {limit : Duration}
    (limited : engine.host.timeout = some limit) (positive : limit.nanoseconds ≠ 0)
    (steady : ∀ name, ∀ command ∈ engine.commands.find? name, command.Steady) (budget : Nat)
    (context : Tag.Context) (words : List String) {start : Tag.Evaluation (World η)}
    (outside : start.bound = none) :
    (∀ filled finish,
      (Tag.fillArguments (engine.vocabulary (engine.fire budget)) context words).run start =
          some (filled, finish) ↔
        Tag.FillsWords (engine.vocabulary (engine.fire budget))
          (callProcedure (engine.steadfast.fire budget)) context limit 0 words start filled finish) ∧
      ∀ (fire : Firing η) (text : String) (within : Tag.Evaluation (World η)),
        Tag.mayHoldTags text = true → within.bound.isSome → ∀ value finish,
        (Tag.evaluateBounded (engine.vocabulary fire) context text).run within =
          some (value, finish) → finish.isCancelled = true →
        value = nullText ∧ ∃ unfinished later,
          (Tag.evaluate (engine.vocabulary fire) context text).run within =
            some (unfinished, later) ∧
          finish = { later with
            world := later.world.log .debug s!"Nested tag fill of '{text}' ran past its deadline." } := by
  constructor
  · exact Tag.fillArgumentsFrom_fillsWords limited positive
      (callProcedure_follows (fire_follows steady budget)) 0 words outside
  · intro fire text within tagged inside value finish ran cancelled
    rw [Tag.evaluateBounded_inside limited tagged inside, Option.bind_eq_bind,
      Option.bind_eq_some_iff] at ran
    obtain ⟨⟨unfinished, later⟩, filled, ended⟩ := ran
    dsimp only at ended
    split at ended
    · cases ended
      exact ⟨rfl, unfinished, later, filled, rfl⟩
    · rename_i calm
      cases ended
      exact absurd cancelled calm

/-! An engine with a tag that cancels. -/

def canceller : Tag.Resolver (World Unit) where
  name := "cancel"
  resolve := fun lookup => do
    if !lookup.keyIs 0 "cancel" then failure
    OptionT.lift Tag.Acting.cancel
    return ⟨"cancelled", 1⟩

def fickle : Engine Unit :=
  { builtin { timeout := some ⟨1000000⟩ } with resolvers := canceller :: Vocabulary.resolvers }

theorem resolveChain_canceller {vocabulary : Tag.Vocabulary (World Unit)}
    {rest : List (Tag.Resolver (World Unit))} (asked : vocabulary.resolvers = canceller :: rest)
    (fill : String → RunM Unit String) (depth : Nat) (context : Tag.Context) :
    Tag.resolveChain vocabulary fill ⟨⟨"cancel", [⟨"cancel", none⟩]⟩, depth, context⟩ = (do
      Tag.EvalM.cancel
      return .ok "cancelled") := by
  have named : Tag.Lookup.keyIs 0 "cancel"
      ⟨⟨"cancel", [⟨"cancel", none⟩]⟩, depth, context⟩ = true := by
    rw [Tag.keyIs_first]
    decide
  have based : Tag.resolveBase vocabulary fill
      ⟨⟨"cancel", [⟨"cancel", none⟩]⟩, depth, context⟩ (canceller :: rest) [] = (do
        Tag.EvalM.cancel
        return (some ⟨"cancelled", 1⟩, [])) := by
    funext state
    obtain ⟨pieces, chains, token, bound, world⟩ := state
    rw [Tag.resolveBase]
    simp only [canceller, named]
    cases bound <;> rfl
  have unblank : Text.isBlankText "cancel" = false := by decide
  rw [Tag.resolveChain, asked, based]
  simp only [List.isEmpty_cons, unblank, Bool.or_self, Bool.false_eq_true, ↓reduceIte, bind_assoc,
    pure_bind]
  rw [Tag.applyAttributes, if_pos (by simp [Tag.Lookup.size])]

theorem evaluate_canceller (fire : Firing Unit) {start : Tag.Evaluation (World Unit)}
    (faithful : start.Faithful) (running : start.bound = some false) :
    ∃ value finish, (Tag.evaluate (fickle.vocabulary fire) {} "<cancel>").run start =
      some (value, finish) ∧ finish.bound = some true := by
  have taggable : Tag.Taggable "cancel" :=
    ⟨.of_plain (Tag.free_of_all (by decide)), by decide, fun _ => rfl⟩
  have body : Tag.Body.ofText "cancel" = ⟨"cancel", "cancel", none, false⟩ := by decide
  have chain : Tag.Chain.parse "cancel" = ⟨"cancel", [⟨"cancel", none⟩]⟩ := by decide
  have asked : (fickle.vocabulary fire).resolvers = canceller :: Vocabulary.resolvers := rfl
  have uncancelled : start.isCancelled = false := by
    rw [Tag.Evaluation.isCancelled, running]
    rfl
  obtain ⟨first, read, faithfulToo, _, bound, _⟩ :=
    Tag.readPieces_run (fickle.vocabulary fire) (Tag.angled "cancel") faithful
  obtain ⟨second, readChain, _, _, boundToo, _⟩ := Tag.readChain_run "cancel" faithfulToo
  rw [show "<cancel>" = Tag.angled "cancel" from rfl,
    Tag.evaluate_angled _ _ taggable faithful uncancelled, Tag.EvalM.run_bind_of_run_some read, body,
    show Tag.depthLimit = 31 + 1 from rfl, Tag.resolveBody_static]
  simp only [bind_assoc]
  rw [Tag.EvalM.run_bind_of_run_some readChain, chain, resolveChain_canceller asked]
  simp only [bind_assoc, pure_bind]
  rw [Tag.EvalM.run_cancel_bind]
  have limited : second.bound.isSome := by
    rw [boundToo, bound, running]
    rfl
  exact ⟨_, second.cancel, rfl, Tag.Evaluation.Onward.bound_cancel limited⟩

theorem fillArguments_all_or_nothing_fickle :
    ∃ finish, (Tag.fillArguments (fickle.vocabulary (fickle.fire 1)) {}
      ["<cancel>", openBrace, "<cancel>", closeBrace, "plain"]).run (fickle.start ()) =
        some (["null", openBrace, "<cancel>", closeBrace, "plain"], finish) := by
  have steady (name : String) (command : Command Unit)
      (found : command ∈ fickle.commands.find? name) : command.Steady :=
    Command.builtins_steady command ((builtin_standard {}).commands name command found)
  have positive : (⟨1000000⟩ : Duration).nanoseconds ≠ 0 := by decide
  have limited : fickle.host.timeout = some ⟨1000000⟩ := rfl
  have outside : (fickle.start ()).bound = none := rfl
  have faithful : Tag.Evaluation.Faithful { fickle.start () with bound := some false } :=
    ⟨.empty _, .empty _⟩
  obtain ⟨_, cancelled, ran, given⟩ := evaluate_canceller (fickle.fire 1) faithful rfl
  obtain ⟨ways, _⟩ := fillArguments_all_or_nothing limited positive steady 1 {}
    ["<cancel>", openBrace, "<cancel>", closeBrace, "plain"] outside
  exact ⟨_, (ways _ _).2 (.word (by decide) (by decide) (.abandoned (by decide) ran given)
    (.opening rfl (.braced (by decide) (by decide) (.closing rfl
      (.word (by decide) (by decide) (.tagless (by decide)) .nil)))))⟩

end Engine

end TagScript
