import TagScript.Proofs.Engine.Enactment

/-! The built-in commands splice what an entry stands for into the queue of the entry. A script of such
commands does what it would do if each loop and each injection were executed to its end on the spot. -/

namespace TagScript

variable {η : Type}

open Filter (atTop)

namespace Engine

section

variable {engine : Engine η} {library : Script → Prop} (hidden : Tag.Lookup → Bool)

theorem Structured.withoutTags {entry : Entry} (structured : engine.Structured library entry) :
    (engine.withoutTags hidden).Structured library entry :=
  fun item reached => structured item
    (Relation.ReflTransGen.mono (fun _ _ => Begets.of_withoutTags hidden) entry item reached)

theorem Structuring.withoutTags (structuring : engine.Structuring library) :
    (engine.withoutTags hidden).Structuring library :=
  fun script granted entry member => (structuring script granted entry member).withoutTags hidden

theorem Furnished.withoutTags {world : World η} (furnished : engine.Furnished library world) :
    (engine.withoutTags hidden).Furnished library world :=
  ⟨furnished.scripts, fun ref entry member => (furnished.waiting ref entry member).withoutTags hidden⟩

end

/-- Firing the script makes no use of these tags, whether its entries wait on a queue or are executed
one inside another: without them it is the same. -/
structure Spares (engine : Engine η) (hidden : Tag.Lookup → Bool) (source : ScriptSource)
    (script : Script) (options : FireOptions) (start : Tag.Evaluation (World η)) : Prop where
  fired : ∀ᶠ budget in atTop, (engine.fire budget ⟨source, options⟩).run start =
    ((engine.withoutTags hidden).fire budget ⟨source, options⟩).run start
  enacted : ∀ᶠ budget in atTop, (engine.enact (engine.fire budget) budget script options).run start =
    ((engine.withoutTags hidden).enact ((engine.withoutTags hidden).fire budget) budget script
      options).run start

/-- Scripts that say, define or determine something, inject scripts, or repeat blocks of such entries
are structured programs, though a queue knows nothing but a list. Fired on an instant queue of its own,
such a script returns, and it executes the same entries with the same words in the same order as when
what an entry stands for is executed to its end before what comes after the entry. A loop stands for its
passes, counted from one on, and an injection for the entries of its script. -/
theorem fire_nests (host : Host) {library : Script → Prop}
    (terminating : (builtin host : Engine η).Terminating library)
    (structuring : (builtin host : Engine η).Structuring library) {start : Tag.Evaluation (World η)}
    (faithful : start.Faithful) (tame : (builtin host).Tame library start.world)
    (furnished : (builtin host).Furnished library start.world) {source : ScriptSource} {script : Script}
    (found : findScript source start.world = .ok script) (granted : library script)
    {options : FireOptions} (fresh : ∀ id ∈ options.id, start.world.liveQueue? id = none)
    (instant : (QueueKind.ofSpeed (options.speed.getD host.defaultSpeed)).isInstant = true)
    (spares : (builtin host).Spares (Tag.Lookup.asksFor "size") source script options start) :
    ∃ answer finish, ∀ᶠ budget in atTop,
      ((builtin host).fire budget ⟨source, options⟩).run start = some (answer, finish) ∧
      ∃ finish', ((builtin host).enact ((builtin host).fire budget) budget script options).run start =
        some ((), finish') ∧ finish'.world.trace = finish.world.trace := by
  have regular : (builtin host : Engine η).Regular false := builtin_regular false host
  have fit : (plenty terminating Vocabulary.callLimit).fit start.world := ⟨tame, by omega⟩
  let request : FireRequest := ⟨source, options⟩
  have asked (other : Script) (known : findScript request.source start.world = .ok other) :
      library other := by
    obtain rfl := Except.ok.inj (found.symm.trans known)
    exact granted
  obtain ⟨answer, finish, returns, _⟩ := (fire_tame regular (answering regular Vocabulary.callLimit) fit
    asked (.inl rfl)).returns rfl
  have returns : ∀ᶠ budget in atTop,
      ((builtin host).fire budget ⟨source, options⟩).run start = some (answer, finish) :=
    eventually_budget returns false
  -- A firing spends one step of its budget before it drains its queue.
  have onceMore {holds : Nat → Prop} (often : ∀ᶠ budget in atTop, holds budget) :
      ∀ᶠ budget in atTop, holds (budget + 1) := (Filter.tendsto_add_atTop_nat 1).eventually often
  refine ⟨answer, finish, ?_⟩
  filter_upwards [returns, onceMore returns, onceMore spares.fired, spares.enacted]
    with budget ran ranOnce fired enacted
  refine ⟨ran, ?_⟩
  rw [enacted]
  exact fire_enacts (structuring.withoutTags _) faithful (furnished.withoutTags _) found granted fresh
    instant (fired.symm.trans ranOnce)

/-! Scripts without tags. -/

section

variable {engine : Engine η} {ref : QueueRef} {entry : Entry} {start finish : Tag.Evaluation (World η)}

def recite (engine : Engine η) (ref : QueueRef) : Nat → Entry → Tag.Evaluation (World η) →
    Option (Tag.Evaluation (World η))
  | 0, _, _ => none
  | depth + 1, entry, state =>
    if (state.world.queue ref).isStopped then some state
    else if isLiteral entry then do
      let found ← (engine.executeFilled (fun _ => RunM.outOfBudget) ref entry).run state
      (engine.offspring found.2.world.scripts found.1).foldlM (fun state item =>
        recite engine ref depth item state)
        { found.2 with world := found.2.world.modifyQueue ref Queue.clearEntries }
    else none

variable (hidden : Tag.Lookup → Bool) (fire fire' : Firing η)

theorem executeFilled_of_literal (literal : engine.Literal entry) :
    (engine.executeFilled fire ref entry).run start =
      ((engine.withoutTags hidden).executeFilled fire' ref entry).run start := by
  unfold executeFilled
  rw [← engine.fillEntry_of_tagless (engine.withoutTags hidden) rfl fire fire' ref literal.plain
    literal.tagless, StateT.run_bind, StateT.run_bind]
  refine Option.bind_congr fun ready ran => ?_
  obtain ⟨⟨arguments, same⟩, _⟩ := engine.fillEntry_filled fire ref entry start _ _ ran
  refine run_bind_congr (congrFun (congrArg StateT.run ?_) _) _
  exact dispatch_of_unfiring hidden fire fire' (by rw [same]; exact literal.unfiring) _

theorem forM_of_foldlM {act : Entry → RunM η Unit}
    {step : Tag.Evaluation (World η) → Entry → Option (Tag.Evaluation (World η))} {items : List Entry}
    (acts : ∀ item, ∀ state later, step state item = some later →
      (act item).run state = some ((), later)) (folded : items.foldlM step start = some finish) :
    (items.forM act).run start = some ((), finish) := by
  induction items generalizing start with
  | nil =>
      obtain rfl := Option.some.inj folded
      rfl
  | cons item rest ih =>
      obtain ⟨between, stepped, folded⟩ := Option.bind_eq_some_iff.1 folded
      rw [List.forM_eq_forM, List.forM_cons]
      exact Tag.EvalM.run_bind_eq_some.2 ⟨(), between, acts item start between stepped, ih folded⟩

theorem nest_of_recite (standard : engine.Standard) (named : engine.commands.Named) {depth more : Nat}
    (enough : depth ≤ more) (recited : engine.recite ref depth entry start = some finish) :
    (engine.nest fire ref more entry).run start = some ((), finish) ∧
      ((engine.withoutTags hidden).nest fire' ref more entry).run start = some ((), finish) := by
  induction depth generalizing more entry start finish with
  | zero => cases recited
  | succ depth ih =>
      obtain ⟨more, rfl⟩ : ∃ less, more = less + 1 := ⟨more - 1, by omega⟩
      rw [recite] at recited
      cases stopped : (start.world.queue ref).isStopped with
      | true =>
          rw [if_pos stopped] at recited
          obtain rfl := Option.some.inj recited
          rw [nest, nest, run_queue_bind, run_queue_bind, if_pos stopped, if_pos stopped]
          exact ⟨rfl, rfl⟩
      | false =>
          rw [if_neg (by simp [stopped])] at recited
          split at recited
          · have literal : engine.Literal entry := literal_of_isLiteral standard named ‹_›
            obtain ⟨⟨executed, between⟩, ran, folded⟩ := Option.bind_eq_some_iff.1 recited
            -- What the entry stands for has one level less to go, with the tags and without them.
            have inside (item : Entry) (state later : Tag.Evaluation (World η))
                (recited : engine.recite ref depth item state = some later) :=
              ih (Nat.le_of_succ_le_succ enough) recited
            have ranWithout := (executeFilled_of_literal hidden _ fire' literal).symm.trans ran
            have ranHere := (executeFilled_of_literal hidden fire fire' literal).trans ranWithout
            constructor
            · exact nest_of_executed stopped ranHere (forM_of_foldlM
                (fun item state later recited => (inside item state later recited).1) folded)
            · exact nest_of_executed stopped ranWithout (forM_of_foldlM
                (fun item state later recited => (inside item state later recited).2) folded)
          · cases recited

theorem spares_of_recites (standard : engine.Standard) (named : engine.commands.Named)
    {source : ScriptSource} {script : Script} {options : FireOptions} {seated : World η}
    (found : findScript source start.world = .ok script)
    (new : start.world.seat script options (options.speed.getD engine.host.defaultSpeed) =
      ((ref, true), seated))
    {count depth : Nat} (recites : engine.Recites ref count
      { start with world := (seated.handed ref script options).launch ref })
    (recited : (script.instantiate (some ⟨seated.fires⟩)).foldlM
      (fun state item => engine.recite ref depth item state)
      { start with world := seated.readied ref options } = some finish) :
    engine.Spares hidden source script options start where
  fired := by
    filter_upwards [Filter.eventually_gt_atTop (count + 1)] with budget enough
    obtain ⟨_, rfl⟩ := Nat.exists_eq_add_of_lt enough
    have enough := Nat.lt_of_succ_lt_succ enough
    exact fire_of_recites hidden found new recites enough enough
  enacted := by
    filter_upwards [Filter.eventually_ge_atTop depth] with budget enough
    have nests (item : Entry) (state later : Tag.Evaluation (World η))
        (recited : engine.recite ref depth item state = some later) :=
      nest_of_recite hidden (engine.fire budget) ((engine.withoutTags hidden).fire budget) standard named
        enough recited
    have newWithout : start.world.seat script options
        (options.speed.getD (engine.withoutTags hidden).host.defaultSpeed) = ((ref, true), seated) := new
    rw [run_enact new, run_enact newWithout]
    refine run_bind_congr ?_ _
    rw [forM_of_foldlM (fun item state later recited => (nests item state later recited).1) recited,
      forM_of_foldlM (fun item state later recited => (nests item state later recited).2) recited]

end

/-! A script that repeats a block in which it injects another one. -/

structure Settles (engine : Engine η) (library : Script → Prop) (entry : Entry) : Prop where
  structured : engine.Structured library entry
  ends : engine.Ends library entry

section

variable {engine : Engine η} {library : Script → Prop} {entry : Entry}

theorem Settles.intro
    (known : ∀ command ∈ engine.commands.find? entry.command, command ∈ Command.structural)
    (inside : ∀ child, engine.Begets library entry child → engine.Settles library child) :
    engine.Settles library entry where
  structured := .intro known fun child begets => (inside child begets).structured
  ends := by
    refine .intro (fun runs => ?_) fun child begets => (inside child begets).ends
    have named : "run" ∈ ["debug", "define", "determine", "inject", "repeat"] :=
      @List.mem_map_of_mem _ _ _ _ Command.name (known Command.run runs)
    exact absurd named (by decide)

theorem Settles.like {other : Entry} (settles : engine.Settles library entry)
    (like : entry.Like other) : engine.Settles library other :=
  ⟨settles.structured.like like, settles.ends.like like⟩

theorem settles_of_childless
    (known : ∀ command ∈ engine.commands.find? entry.command, command ∈ Command.structural)
    (repeats : ¬ engine.Repeats entry) (injects : ¬ engine.Injects entry) :
    engine.Settles library entry := by
  refine .intro known fun child begets => ?_
  cases begets with
  | counter found | pass found => exact absurd found repeats
  | inject found => exact absurd found injects

theorem structural_of_foreign (standard : engine.Standard) (named : engine.commands.Named)
    {name : String} (foreign : ∀ command ∈ [Command.queue, Command.run, Command.stop, Command.wait],
      Text.lower name ∉ CommandTable.namesOf (command : Command η)) :
    ∀ command ∈ engine.commands.find? name, command ∈ Command.structural := by
  intro command found
  have listed := standard.commands name command found
  have own := named name command found
  simp only [Command.builtins, List.mem_cons, List.not_mem_nil, or_false] at listed
  have either : command ∈ Command.structural ∨
      command ∈ [Command.queue, Command.run, Command.stop, Command.wait] := by
    rcases listed with rfl | rfl | rfl | rfl | rfl | rfl | rfl | rfl | rfl <;> simp [Command.structural]
  exact either.resolve_right fun other => foreign command other own

end

def coda : Script where
  name := "coda"
  entries := [.ofCommand "debug" ["over"]]

def drillWords : List String :=
  ["2", "as:lap", openBrace, "-", "debug", "step", "-", "inject", "coda", closeBrace]

def drill : Script where
  name := "drill"
  entries := [.ofCommand "repeat" drillWords, .ofCommand "determine" ["passively", "done"]]

theorem drills_settle {script : Script} (granted : script ∈ [drill, coda]) :
    ∀ entry ∈ script.entries, (builtin {} : Engine Unit).Settles (· ∈ [drill, coda]) entry := by
  have foreign {name : String} {command : Command Unit} :
      Text.lower name ∉ CommandTable.namesOf command →
        (builtin {}).commands.find? name ≠ some command := find?_ne (builtin_named {})
  have known {name : String}
      (foreign : ∀ command ∈ [Command.queue, Command.run, Command.stop, Command.wait],
        Text.lower name ∉ CommandTable.namesOf (command : Command Unit)) :
      ∀ command ∈ (builtin {} : Engine Unit).commands.find? name, command ∈ Command.structural :=
    structural_of_foreign (builtin_standard {}) (builtin_named {}) foreign
  have quiet {entry : Entry} (plain : entry.command ∈ ["debug", "define", "determine"]) :
      (builtin {} : Engine Unit).Settles (· ∈ [drill, coda]) entry := by
    have apart : ∀ word ∈ ["debug", "define", "determine"],
        (∀ command ∈ [Command.queue, Command.run, Command.stop, Command.wait],
          Text.lower word ∉ CommandTable.namesOf (command : Command Unit)) ∧
        Text.lower word ∉ CommandTable.namesOf (Command.repeatBlock : Command Unit) ∧
        Text.lower word ∉ CommandTable.namesOf (Command.inject : Command Unit) := by decide
    obtain ⟨standard, repeats, injects⟩ := apart _ plain
    exact settles_of_childless (known standard) (foreign repeats) (foreign injects)
  have injects : (builtin {} : Engine Unit).Settles (· ∈ [drill, coda])
      (.ofCommand "inject" ["coda"]) := by
    refine .intro (known (by decide)) fun child begets => ?_
    cases begets with
    | counter found | pass found => exact absurd found (foreign (by decide))
    | @inject source item script _ command fills granted named member like =>
        obtain ⟨word, words, waits, origin, fire⟩ := source
        obtain rfl : word = "inject" := command
        obtain rfl : words = ["coda"] := fills.eq_of_fixed (by unfold Fixed Changeable; decide)
        have told : (builtin {} : Engine Unit).host.injectedName
          ⟨"inject", ["coda"], waits, origin, fire⟩ = "coda" := rfl
        rw [told] at named
        rcases List.mem_pair.1 granted with rfl | rfl
        · exact absurd named (by decide)
        · obtain rfl := List.mem_singleton.1 member
          exact (quiet (by decide)).like like
  have repeats : (builtin {} : Engine Unit).Settles (· ∈ [drill, coda])
      (.ofCommand "repeat" drillWords) := by
    refine .intro (known (by decide)) fun child begets => ?_
    cases begets with
    | counter _ like => exact (quiet (show "define" ∈ _ by decide)).like like
    | @pass filled blocks block item _ fills built isBlock member like =>
        -- No word of the loop changes when it is filled, so its block is known.
        obtain rfl : filled = drillWords := fills.eq_of_fixed (by unfold Fixed Changeable; decide)
        have read : blocksOfFilled drillWords =
            .ok [⟨"2 as:lap", [.ofCommand "debug" ["step"], .ofCommand "inject" ["coda"]]⟩] := by
          decide +kernel
        obtain rfl := Except.ok.inj (read.symm.trans built)
        obtain rfl := List.mem_singleton.1 isBlock
        rcases List.mem_pair.1 member with rfl | rfl
        · exact (quiet (by decide)).like like
        · exact injects.like like
    | inject found => exact absurd found (foreign (by decide))
  rcases List.mem_pair.1 granted with rfl | rfl
  · exact List.forall_mem_cons.2 ⟨repeats, List.forall_mem_singleton.2 (quiet (by decide))⟩
  · exact List.forall_mem_singleton.2 (quiet (by decide))

theorem drill_spares : (builtin {}).Spares (Tag.Lookup.asksFor "size") (.named "drill") drill
    { speed := some 0 } ((builtin {} : Engine Unit).stocked [drill, coda] ()) := by
  let start := (builtin {} : Engine Unit).stocked [drill, coda] ()
  let options : FireOptions := { speed := some 0 }
  let seated := (start.world.seat drill options 0).2
  let filled : Tag.Evaluation (World Unit) :=
    { start with world := (seated.handed ⟨0⟩ drill options).launch ⟨0⟩ }
  let bare : Tag.Evaluation (World Unit) := { start with world := seated.readied ⟨0⟩ options }
  have new : start.world.seat drill options 0 = ((⟨0⟩, true), seated) :=
    Prod.ext (by decide +kernel) rfl
  have recited : (builtin {}).recital ⟨0⟩ 10 filled = true := by decide +kernel
  have nested : ((drill.instantiate (some ⟨seated.fires⟩)).foldlM
      (fun state item => (builtin {}).recite ⟨0⟩ 3 item state) bare).isSome = true := by
    decide +kernel
  obtain ⟨finish, nested⟩ := Option.isSome_iff_exists.1 nested
  have standard : (builtin {} : Engine Unit).Standard := builtin_standard {}
  exact spares_of_recites _ standard (builtin_named {}) rfl new
    (recites_of_recital standard (builtin_named {}) recited) nested

theorem fire_nests_drill : ∃ answer finish, ∀ᶠ budget in atTop,
    ((builtin {} : Engine Unit).fire budget ⟨.named "drill", { speed := some 0 }⟩).run
      ((builtin {}).stocked [drill, coda] ()) = some (answer, finish) ∧
    ∃ finish', ((builtin {} : Engine Unit).enact ((builtin {}).fire budget) budget drill
      { speed := some 0 }).run ((builtin {}).stocked [drill, coda] ()) = some ((), finish') ∧
        finish'.world.trace = finish.world.trace := by
  let start : Tag.Evaluation (World Unit) := (builtin {}).stocked [drill, coda] ()
  have tame : (builtin {}).Tame (· ∈ [drill, coda]) start.world :=
    stocked_tame (fun _ member => member) () (builtin {})
  have furnished : (builtin {}).Furnished (· ∈ [drill, coda]) start.world := by
    refine ⟨tame.scripts, fun ref entry member => ?_⟩
    rw [World.queue, (stocked_unused ()).queues] at member
    exact absurd member List.not_mem_nil
  exact fire_nests {} (fun _ granted entry member => (drills_settle granted entry member).ends)
    (fun _ granted entry member => (drills_settle granted entry member).structured)
    (stocked_faithful ()) tame furnished rfl List.mem_cons_self (by simp) rfl drill_spares

def executedLines (world : World η) : List (List String) :=
  world.trace.filterMap fun note =>
    match note with
    | .filled _ entry => some (entry.command :: entry.arguments)
    | _ => none

example : (((builtin {} : Engine Unit).enact (fun _ => RunM.outOfBudget) 3 drill { speed := some 0 }).run
    ((builtin {}).stocked [drill, coda] ())).map (fun ended => executedLines ended.2.world) =
      some ["repeat" :: drillWords,
        ["define", "lap", "1"], ["debug", "step"], ["inject", "coda"], ["debug", "over"],
        ["define", "lap", "2"], ["debug", "step"], ["inject", "coda"], ["debug", "over"],
        ["determine", "passively", "done"]] := by
  decide +kernel

end Engine

end TagScript
