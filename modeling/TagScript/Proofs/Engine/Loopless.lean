import TagScript.Proofs.Engine.Parts
import TagScript.Proofs.Engine.Termination

/-! Scripts that neither run nor inject scripts. A loop puts its block in its own place, and no entry of
the block puts anything else but a block of its own there, so all such entries come to an end. -/

namespace TagScript

variable {η : Type}

open Filter (atTop)

def CommandTable.Named (table : CommandTable η) : Prop :=
  ∀ name, ∀ command ∈ table.find? name, Text.lower name ∈ namesOf command

theorem CommandTable.Lists.named {commands : List (Command η)} {table : CommandTable η}
    (lists : table.Lists commands) : table.Named :=
  fun _ _ found => (lists.find? found).2

namespace Engine

/-- The entry neither runs nor injects a script, and if it repeats a block, no entry inside does,
whatever the words of the entry come to. -/
inductive Loopless (engine : Engine η) : Entry → Prop
  | intro {entry : Entry} (runs : engine.commands.find? entry.command ≠ some Command.run)
      (injects : engine.commands.find? entry.command ≠ some Command.inject)
      (inside : engine.Repeats entry → ∀ filled blocks, FilledFrom 0 entry.arguments filled →
        blocksOfFilled filled = .ok blocks →
        ∀ block ∈ blocks, ∀ item ∈ block.entries, Loopless engine item) :
      Loopless engine entry

def LooplessScript (engine : Engine η) (script : Script) : Prop :=
  ∀ entry ∈ script.entries, engine.Loopless entry

variable {engine : Engine η} {entry : Entry}

section

variable (named : engine.commands.Named)

include named

theorem find?_ne {name : String} {command : Command η}
    (foreign : Text.lower name ∉ CommandTable.namesOf command) :
    engine.commands.find? name ≠ some command :=
  fun found => foreign (named name command found)

theorem counter_ends (library : Script → Prop) (arguments : List String) :
    engine.Ends library (.ofCommand "define" arguments) := by
  have word : (Entry.ofCommand "define" arguments).command = "define" := rfl
  have runs : engine.commands.find? "define" ≠ some Command.run :=
    find?_ne named (by simp [CommandTable.namesOf, Command.run]; decide)
  have repeats : engine.commands.find? "define" ≠ some Command.repeatBlock :=
    find?_ne named (by simp [CommandTable.namesOf, Command.repeatBlock]; decide)
  have injects : engine.commands.find? "define" ≠ some Command.inject :=
    find?_ne named (by simp [CommandTable.namesOf, Command.inject]; decide)
  refine .intro (by rwa [word]) fun child begets => ?_
  cases begets with
  | counter found | pass found =>
      rw [Repeats, word] at found
      exact absurd found repeats
  | inject found =>
      rw [Injects, word] at found
      exact absurd found injects

theorem Loopless.ends (library : Script → Prop) (loopless : engine.Loopless entry) :
    engine.Ends library entry := by
  induction loopless with
  | intro runs injects inside ih =>
      refine .intro runs fun child begets => ?_
      cases begets with
      | counter _ like => exact (counter_ends named library _).like like
      | pass found fills built known member like =>
          exact (ih found _ _ fills built _ known _ member).like like
      | inject found => exact absurd found injects

theorem looplessScript_terminating : engine.Terminating engine.LooplessScript :=
  fun _ loopless entry member => (loopless entry member).ends named engine.LooplessScript

/-- Scripts that neither run nor inject scripts always come to an end, however their loops are nested
and whatever procedures they call, themselves included. After any calls of the host the next one
returns. It does the same within all budgets that are large enough, even where calls of procedures can
stand in one another no deeper than the limit. And in every tame world each such call returns and
leaves as many under way as there were. -/
theorem looplessScripts_return (regular : engine.Regular false) {host : η} {calls : List HostCall}
    {state : Tag.Evaluation (World η)} (ran : engine.Runs calls (engine.start host) state)
    {call : HostCall} (native : ∀ asked ∈ call :: calls, asked.placesEntries = false)
    (loopless : ∀ asked ∈ call :: calls, ∀ script ∈ asked.script?, engine.LooplessScript script) :
    (∃ finish,
      (∀ᶠ budget in atTop, (call.run engine budget).run state = some ((), finish)) ∧
      (∀ᶠ budget in atTop, (call.runBy engine
        (engine.fireNested budget (Vocabulary.callLimit + 1))
        (engine.fireNested budget Vocabulary.callLimit) budget).run state = some ((), finish)) ∧
      state.world.calls = 0 ∧ finish.world.calls = 0) ∧
    engine.Tame engine.LooplessScript state.world ∧
    ∀ between : Tag.Evaluation (World η), engine.Tame engine.LooplessScript between.world →
      between.world.calls ≤ Vocabulary.callLimit → ∀ fill lookup procedure memo, ∃ answer later,
      (∀ᶠ budget in atTop, (Tag.ask (engine.vocabulary (engine.fire budget)) fill lookup
        (Vocabulary.callCounted procedure) memo).run between = some (answer, later)) ∧
      (∀ᶠ budget in atTop, (Tag.ask (engine.vocabulary
        (engine.fireNested budget (Vocabulary.callLimit - between.world.calls))) fill lookup
        (Vocabulary.callCounted procedure) memo).run between = some (answer, later)) ∧
      later.world.calls = between.world.calls ∧
      engine.Tame engine.LooplessScript later.world := by
  have terminating := looplessScript_terminating named
  rw [List.forall_mem_cons] at native loopless
  obtain ⟨tame, none⟩ := tame_of_runs terminating regular ran native.2 loopless.2
  obtain ⟨finish, returns, nested, errands⟩ :=
    call_returns terminating regular tame native.1 loopless.1
  refine ⟨⟨finish, returns, nested, none, errands.calls_eq.trans none⟩, tame, ?_⟩
  exact fun between tame few fill lookup procedure memo =>
    callCounted_returns terminating regular tame few fill lookup procedure memo

end

theorem builtin_named (host : Host) : (builtin host : Engine η).commands.Named :=
  (EngineParts.build_eq_ok (build_withBuiltins host)).1.named

def callingLoop (count : String) : List String :=
  [count, openBrace, "-", "debug", "<proc[self]>", closeBrace]

def selfCalling : Script where
  name := "self"
  entries := [.ofCommand "repeat" (callingLoop "<queue.size>"), .ofCommand "debug" ["end"]]

theorem blocks_counted {count : String} {blocks : List Block}
    (built : blocksOfFilled (callingLoop count) = .ok blocks) :
    ∀ block ∈ blocks, block.entries = [.ofCommand "debug" ["<proc[self]>"]] := by
  by_cases opens : count = openBrace
  · subst opens
    have unclosed : blocksOfFilled (callingLoop openBrace) = .error .unclosed := by
      decide +kernel
    rw [unclosed] at built
    cases built
  by_cases closes : count = closeBrace
  · subst closes
    have stray : blocksOfFilled (callingLoop closeBrace) = .error .strayClose := by
      decide +kernel
    rw [stray] at built
    cases built
  · have first : BlockReader.start.step count = .ok ⟨[], [count], [], 0⟩ := by
      simp [BlockReader.step, BlockReader.start, opens, closes]
    have read : blocksOfFilled (callingLoop count) = .ok
        [⟨Text.lower (Text.spaced [count]), [.ofCommand "debug" ["<proc[self]>"]]⟩] := by
      rw [blocksOfFilled, if_pos (by simp [callingLoop]), callingLoop, blocksOf, List.foldlM_cons,
        first]
      rfl
    rw [read] at built
    obtain rfl := Except.ok.inj built
    simp

theorem selfCalling_loopless : (builtin {} : Engine Unit).LooplessScript selfCalling := by
  have foreign {name : String} {command : Command Unit} :
      Text.lower name ∉ CommandTable.namesOf command →
        (builtin {}).commands.find? name ≠ some command := find?_ne (builtin_named {})
  have speaks (words : List String) :
      (builtin {} : Engine Unit).Loopless ⟨"debug", words, false, none, none⟩ :=
    .intro (foreign (show Text.lower "debug" ∉ _ by decide))
      (foreign (show Text.lower "debug" ∉ _ by decide))
      fun repeats => absurd repeats (foreign (show Text.lower "debug" ∉ _ by decide))
  refine List.forall_mem_cons.2 ⟨?_, List.forall_mem_singleton.2 (speaks _)⟩
  refine .intro (foreign (by decide)) (foreign (by decide)) fun _ filled blocks fills built => ?_
  obtain ⟨count, rfl⟩ : ∃ count, filled = callingLoop count := by
    rcases fills with _ | ⟨_, _ | ⟨opens, _ | ⟨dash, _ | ⟨debug, _ | ⟨called, _ | ⟨closes, _ | _⟩⟩⟩⟩⟩⟩
    rw [opens (.inl (IsBrace.fixed (.inl rfl))), dash (.inr (by decide)), debug (.inr (by decide)),
      called (.inr (by decide)), closes (.inl (IsBrace.fixed (.inr rfl)))]
    exact ⟨_, rfl⟩
  intro block known item inside
  rw [blocks_counted built block known] at inside
  obtain rfl := List.mem_singleton.1 inside
  exact speaks _

theorem looplessScripts_return_selfCalling : ∃ state,
    (builtin {} : Engine Unit).Runs [.register selfCalling] ((builtin {}).start ()) state ∧
    ∃ finish, (∀ᶠ budget in atTop,
      ((HostCall.fire ⟨.named "self", {}⟩).run (builtin {}) budget).run state = some ((), finish)) ∧
      finish.world.calls = 0 := by
  obtain ⟨state, answered⟩ : ∃ state, (builtin {} : Engine Unit).answer 0 [.register selfCalling]
      ((builtin {}).start ()) = some state := ⟨_, rfl⟩
  have ran := runs_of_answer answered
  have loopless : ∀ asked ∈ [HostCall.fire ⟨.named "self", {}⟩, .register selfCalling],
      ∀ script ∈ asked.script?, (builtin {} : Engine Unit).LooplessScript script := by
    rw [List.forall_mem_cons, List.forall_mem_singleton]
    refine ⟨by simp [HostCall.script?], fun script same => ?_⟩
    obtain rfl := Option.some.inj same
    exact selfCalling_loopless
  obtain ⟨⟨finish, returns, _, _, none⟩, _⟩ := looplessScripts_return (builtin_named {})
    (builtin_regular false {}) ran (by decide) loopless
  exact ⟨state, ran, finish, returns, none⟩

end Engine

end TagScript
