import TagScript.Proofs.Tag.Compositional

/-! Filling under a time limit, with tags that may cancel it. A cancellation lasts as long as the
limit, so a filling that ends uncancelled was never cancelled on the way, and comes to what it would
come to if no tag could cancel. Each word of an entry is filled whole or given up as a whole, and none
of the others is touched by that. -/

namespace TagScript.Tag

variable {σ α β : Type}

def Act.steadfast : Act σ α → Act σ α
  | .done result world => .done result world
  | .bracket position world resume =>
    .bracket position world fun answer world => (resume answer world).steadfast
  | .call procedure world resume =>
    .call procedure world fun answer world => (resume answer world).steadfast
  | .cancel world resume => (resume world).steadfast
  | .isCancelled world resume =>
    .isCancelled world fun answer world => (resume answer world).steadfast

def Resolver.steadfast (resolver : Resolver σ) : Resolver σ where
  name := resolver.name
  resolve := fun lookup => OptionT.mk fun world => ((resolver.resolve lookup).run world).steadfast

def Attribute.steadfast (handler : Attribute σ) : Attribute σ where
  apply := fun value lookup position =>
    OptionT.mk fun world => ((handler.apply value lookup position).run world).steadfast

def Vocabulary.steadfast (call : Procedure → EvalM σ CallResult) (vocabulary : Vocabulary σ) :
    Vocabulary σ :=
  { vocabulary with
    resolvers := vocabulary.resolvers.map (·.steadfast)
    attributes := vocabulary.attributes.map (·.steadfast)
    call }

structure Evaluation.Onward (start finish : Evaluation σ) : Prop where
  token : finish.token = start.token
  limited : finish.bound.isSome
  cancelled : start.bound = some true → finish.bound = some true

namespace Evaluation.Onward

variable {start between finish : Evaluation σ}

theorem of_eq (limited : start.bound.isSome) (token : finish.token = start.token)
    (bound : finish.bound = start.bound) : start.Onward finish :=
  ⟨token, by rwa [bound], fun cancelled => by rw [bound, cancelled]⟩

theorem trans (first : start.Onward between) (second : between.Onward finish) :
    start.Onward finish :=
  ⟨second.token.trans first.token, second.limited,
    fun cancelled => second.cancelled (first.cancelled cancelled)⟩

theorem uncancelled (onward : start.Onward finish) (limited : start.bound.isSome)
    (calm : finish.bound = some false) : start.bound = some false := by
  obtain ⟨cancelled, bound⟩ := Option.isSome_iff_exists.1 limited
  cases cancelled with
  | false => exact bound
  | true =>
      rw [onward.cancelled bound] at calm
      cases calm

theorem cancel (limited : start.bound.isSome) : start.Onward start.cancel := by
  obtain ⟨cancelled, bound⟩ := Option.isSome_iff_exists.1 limited
  simp only [Evaluation.cancel, bound]
  exact ⟨rfl, rfl, fun _ => rfl⟩

theorem bound_cancel (limited : start.bound.isSome) : start.cancel.bound = some true := by
  obtain ⟨cancelled, bound⟩ := Option.isSome_iff_exists.1 limited
  simp only [Evaluation.cancel, bound]

end Evaluation.Onward

namespace EvalM

theorem run_isCancelled (state : Evaluation σ) :
    (isCancelled : EvalM σ Bool).run state = some (state.isCancelled, state) := rfl

def Follows (act other : EvalM σ α) : Prop :=
  ∀ start, start.bound.isSome → ∀ result finish, act.run start = some (result, finish) →
    start.Onward finish ∧ (finish.bound = some false → other.run start = some (result, finish))

namespace Follows

variable {act other : EvalM σ α}

theorem still (keeps : ∀ start result finish, act.run start = some (result, finish) →
    finish.token = start.token ∧ finish.bound = start.bound) : Follows act act := by
  intro start limited result finish ran
  obtain ⟨token, bound⟩ := keeps start result finish ran
  exact ⟨.of_eq limited token bound, fun _ => ran⟩

theorem pure (result : α) : Follows (pure result : EvalM σ α) (pure result) :=
  still fun start found finish ran => by
    obtain ⟨_, rfl⟩ := run_pure_eq_some.1 ran
    exact ⟨rfl, rfl⟩

theorem bind {next following : α → EvalM σ β} (first : Follows act other)
    (rest : ∀ result, Follows (next result) (following result)) :
    Follows (act >>= next) (other >>= following) := by
  intro start limited result finish ran
  obtain ⟨found, between, ranFirst, ranRest⟩ := run_bind_eq_some.1 ran
  obtain ⟨toBetween, sameFirst⟩ := first start limited found between ranFirst
  obtain ⟨toFinish, sameRest⟩ := rest found between toBetween.limited result finish ranRest
  -- If the end is uncancelled, so is the state in between, and both halves do the same.
  refine ⟨toBetween.trans toFinish, fun calm => ?_⟩
  exact run_bind_eq_some.2 ⟨found, between,
    sameFirst (toFinish.uncancelled toBetween.limited calm), sameRest calm⟩

theorem world : Follows (EvalM.world : EvalM σ σ) EvalM.world :=
  still fun _ _ _ ran => by
    cases ran
    exact ⟨rfl, rfl⟩

theorem modifyWorld (change : σ → σ) :
    Follows (EvalM.modifyWorld change) (EvalM.modifyWorld change) :=
  still fun _ _ _ ran => by
    cases ran
    exact ⟨rfl, rfl⟩

theorem setWorld (world : σ) : Follows (EvalM.setWorld world) (EvalM.setWorld world) :=
  modifyWorld fun _ => world

theorem isCancelled : Follows (EvalM.isCancelled : EvalM σ Bool) EvalM.isCancelled :=
  still fun _ _ _ ran => by
    cases ran
    exact ⟨rfl, rfl⟩

theorem ite {test : Prop} [Decidable test] {act' other' : EvalM σ α} (yes : Follows act other)
    (no : Follows act' other') :
    Follows (if test then act else act') (if test then other else other') := by
  split
  · exact yes
  · exact no

theorem cancel_bind {next : Unit → EvalM σ α} (rest : Follows (next ()) other) :
    Follows (EvalM.cancel >>= next) other := by
  intro start limited result finish ran
  rw [run_cancel_bind] at ran
  have toNext := Evaluation.Onward.cancel limited
  obtain ⟨toFinish, _⟩ := rest start.cancel toNext.limited result finish ran
  refine ⟨toNext.trans toFinish, fun calm => ?_⟩
  rw [toFinish.cancelled (Evaluation.Onward.bound_cancel limited)] at calm
  cases calm

end Follows

end EvalM

open EvalM (Follows)

section

variable {vocabulary : Vocabulary σ} {call : Procedure → EvalM σ CallResult}

def Vocabulary.unsteady (vocabulary : Vocabulary σ) (call : Procedure → EvalM σ CallResult) :
    Vocabularies Bool σ where
  resolvers := vocabulary.resolvers.map fun resolver steady =>
    bif steady then resolver.steadfast else resolver
  attributes := vocabulary.attributes.map fun handler steady =>
    bif steady then handler.steadfast else handler
  report := vocabulary.report
  note := vocabulary.note
  call := fun steady => bif steady then call else vocabulary.call
  timeout := vocabulary.timeout

theorem Vocabulary.unsteady_false : (vocabulary.unsteady call).pick false = vocabulary := by
  simp [unsteady, Vocabularies.pick, Function.comp_def]

theorem Vocabulary.unsteady_true :
    (vocabulary.unsteady call).pick true = vocabulary.steadfast call := by
  simp [unsteady, Vocabularies.pick, Vocabulary.steadfast, Function.comp_def]

theorem readPieces_still (vocabulary : Vocabulary σ) (text : String) :
    Follows (vocabulary.readPieces text) (vocabulary.readPieces text) := by
  refine .still fun start result finish ran => ?_
  obtain ⟨remark, read⟩ := run_readPieces vocabulary text start
  obtain ⟨_, rfl⟩ := Prod.mk.inj (Option.some.inj (read.symm.trans ran))
  exact ⟨rfl, rfl⟩

theorem compositional_follows (vocabulary : Vocabulary σ)
    (call : Procedure → EvalM σ CallResult) :
    Compositional (vocabulary.unsteady call) fun act => Follows (act false) (act true) where
  pure result := .pure result
  bind first rest := .bind first rest
  isCancelled := .isCancelled
  readPieces text := readPieces_still ((vocabulary.unsteady call).pick false) text
  readChain body := .still fun _ _ _ ran => by
    cases ran
    exact ⟨rfl, rfl⟩
  remark _ _ := .modifyWorld _
  reportError _ _ := .modifyWorld _

theorem renderText_follows {resolve other : Body → EvalM σ String}
    (resolves : ∀ body, Follows (resolve body) (other body)) (text : String) :
    Follows (renderText vocabulary resolve text)
      (renderText (vocabulary.steadfast call) other text) := by
  have rendered := (compositional_follows vocabulary call).renderText
    (fun steady => bif steady then other else resolve) resolves text
  simpa only [Vocabulary.unsteady_false, Vocabulary.unsteady_true, cond_true, cond_false]
    using rendered

variable (calls : ∀ procedure, Follows (vocabulary.call procedure) (call procedure))

include calls

theorem perform_follows {fill refill : String → EvalM σ String}
    (fills : ∀ text, Follows (fill text) (refill text)) (lookup : Lookup) (act : Act σ α)
    (memo : Memo) :
    Follows (perform vocabulary fill lookup act memo)
      (perform (vocabulary.steadfast call) refill lookup act.steadfast memo) := by
  induction act generalizing memo with
  | done result world => exact .bind (.setWorld world) fun _ => .pure _
  | bracket position world resume ih =>
      refine .bind (.setWorld world) fun _ => .bind ?_ fun reading =>
        .bind .world fun later => ih reading.1 later reading.2
      unfold readBracket
      split
      · exact .pure _
      · split
        · exact .pure _
        · exact .bind (fills _) fun _ => .pure _
  | call procedure world resume ih =>
      exact .bind (.setWorld world) fun _ => .bind (calls procedure) fun answer =>
        .bind .world fun later => ih answer later memo
  | cancel world resume ih =>
      rw [Act.steadfast, ← setWorld_perform _ refill lookup memo world (resume world).steadfast]
      exact .bind (.setWorld world) fun _ => .cancel_bind (ih world memo)
  | isCancelled world resume ih =>
      exact .bind (.setWorld world) fun _ => .bind .isCancelled fun answer => ih answer world memo

theorem ask_follows {fill : Bool → String → EvalM σ String}
    (fills : ∀ text, Follows (fill false text) (fill true text)) (lookup : Lookup) :
    (vocabulary.unsteady call).Ask (fun act => Follows (act false) (act true)) fill lookup where
  resolve resolver member memo := by
    obtain ⟨one, _, rfl⟩ := List.mem_map.1 member
    simp only [Vocabulary.unsteady_false, Vocabulary.unsteady_true, cond_true, cond_false]
    exact .bind .world fun world => perform_follows calls fills lookup _ memo
  apply handler member value position memo := by
    obtain ⟨one, _, rfl⟩ := List.mem_map.1 member
    simp only [Vocabulary.unsteady_false, Vocabulary.unsteady_true, cond_true, cond_false]
    exact .bind .world fun world => perform_follows calls fills lookup _ memo

theorem resolveBody_follows (context : Context) (limit levels : Nat) (body : Body) :
    Follows (resolveBody vocabulary context limit levels body)
      (resolveBody (vocabulary.steadfast call) context limit levels body) := by
  induction levels generalizing body with
  | zero => exact .bind (.modifyWorld _) fun _ => .pure _
  | succ levels ih =>
      have resolved := (compositional_follows vocabulary call).resolveWith
        (fun steady => bif steady then
          resolveBody (vocabulary.steadfast call) context limit levels
          else resolveBody vocabulary context limit levels) ih
        (fun lookup => ask_follows calls (fun text => by
          simpa only [Vocabulary.unsteady_false, Vocabulary.unsteady_true, cond_true, cond_false]
            using renderText_follows ih text) lookup)
        context (limit - levels) body
      simpa only [Vocabulary.unsteady_false, Vocabulary.unsteady_true, cond_true, cond_false,
        ← resolveBody_eq_resolveWith] using resolved

theorem evaluate_follows (context : Context) (text : String) :
    Follows (evaluate vocabulary context text)
      (evaluate (vocabulary.steadfast call) context text) :=
  .bind (renderText_follows (resolveBody_follows calls context _ _) text) fun _ => .pure _

theorem evaluateBounded_follows (context : Context) (text : String) :
    Follows (evaluateBounded vocabulary context text)
      (evaluateBounded (vocabulary.steadfast call) context text) := by
  have filled := evaluate_follows calls context text
  have same : (vocabulary.steadfast call).timeout = vocabulary.timeout := rfl
  unfold evaluateBounded
  rw [same]
  cases vocabulary.timeout with
  | none => exact filled
  | some timeout =>
      dsimp only
      refine .ite filled ?_
      intro start limited
      have nested : Follows (do
          let value ← evaluate vocabulary context text
          if ← EvalM.isCancelled then
            vocabulary.remark .debug s!"Nested tag fill of '{text}' ran past its deadline."
            return nullText
          return value) (do
          let value ← evaluate (vocabulary.steadfast call) context text
          if ← EvalM.isCancelled then
            (vocabulary.steadfast call).remark .debug
              s!"Nested tag fill of '{text}' ran past its deadline."
            return nullText
          return value) :=
        .bind filled fun value => .bind .isCancelled fun cancelled =>
          .ite (.bind (.modifyWorld _) fun _ => .pure _) (.pure _)
      simpa only [StateT.run_bind, StateT.run_get, Option.pure_def, Option.bind_eq_bind,
        Option.bind_some, limited, ↓reduceIte] using nested start limited

theorem fillArgumentsFrom_follows (context : Context) (depth : Nat) (words : List String) :
    Follows (fillArgumentsFrom vocabulary context depth words)
      (fillArgumentsFrom (vocabulary.steadfast call) context depth words) := by
  induction words generalizing depth with
  | nil => exact .pure _
  | cons word rest ih =>
      unfold fillArgumentsFrom
      exact .ite (.bind (ih _) fun _ => .pure _) (.ite (.bind (ih _) fun _ => .pure _)
        (.ite (.bind (ih _) fun _ => .pure _)
          (.bind (evaluateBounded_follows calls context word) fun _ =>
            .bind (ih _) fun _ => .pure _)))

end

theorem underToken_follows {filling other : EvalM σ α} (follows : Follows filling other)
    (cancelled : Bool) : Follows (underToken cancelled filling) (underToken cancelled other) := by
  intro start limited result finish ran
  obtain ⟨found, later, filled, ended⟩ := EvalM.run_bind_eq_some.1
    (show (filling >>= fun found => do
      modify ({ · with token := start.token })
      return found).run { start with token := cancelled } = some (result, finish) from ran)
  cases ended
  obtain ⟨onward, same⟩ := follows { start with token := cancelled } limited result later filled
  refine ⟨⟨rfl, onward.limited, onward.cancelled⟩, fun calm => ?_⟩
  exact EvalM.run_bind_eq_some.2 ⟨_, _, rfl, EvalM.run_bind_eq_some.2 ⟨_, _, rfl,
    EvalM.run_bind_eq_some.2 ⟨_, _, same calm, rfl⟩⟩⟩

/-! Filling the words of an entry, no filling being under way. -/

def abandonment (limit : Duration) (word : String) : String :=
  s!"Filling tags in '{word}' took longer than {limit.toMillis}ms and was abandoned."

section

variable (vocabulary : Vocabulary σ) (call : Procedure → EvalM σ CallResult) (context : Context)
  (limit : Duration)

/-- What becomes of a word outside braces. If it holds tags it is filled under a limit of its own: to
the end, with nothing cancelled on the way, or it is given up for `null` with an error. -/
inductive FillsWord (word : String) (start : Evaluation σ) : String → Evaluation σ → Prop
  | tagless (plain : mayHoldTags word = false) : FillsWord word start (unescape word) start
  | whole {value : String} {later : Evaluation σ} (tagged : mayHoldTags word = true)
      (ran : (evaluate vocabulary context word).run { start with bound := some false } =
        some (value, later))
      (steady : (evaluate (vocabulary.steadfast call) context word).run
        { start with bound := some false } = some (value, later))
      (uncancelled : later.bound = some false) :
      FillsWord word start value { later with bound := none }
  | abandoned {value : String} {later : Evaluation σ} (tagged : mayHoldTags word = true)
      (ran : (evaluate vocabulary context word).run { start with bound := some false } =
        some (value, later))
      (cancelled : later.bound = some true) :
      FillsWord word start nullText
        { later with
          bound := none
          world := vocabulary.report context (context.reported (abandonment limit word))
            later.world }

/-- What becomes of the words of an entry, inside so many braces: braces and what they hold stay, the
words outside are filled one after another. -/
inductive FillsWords : Nat → List String → Evaluation σ → List String → Evaluation σ → Prop
  | nil {depth : Nat} {state : Evaluation σ} : FillsWords depth [] state [] state
  | opening {depth : Nat} {word : String} {rest filled : List String} {start finish : Evaluation σ}
      (isOpening : word = openBrace) (behind : FillsWords (depth + 1) rest start filled finish) :
      FillsWords depth (word :: rest) start (word :: filled) finish
  | closing {depth : Nat} {word : String} {rest filled : List String} {start finish : Evaluation σ}
      (isClosing : word = closeBrace) (behind : FillsWords (depth - 1) rest start filled finish) :
      FillsWords depth (word :: rest) start (word :: filled) finish
  | braced {depth : Nat} {word : String} {rest filled : List String} {start finish : Evaluation σ}
      (notOpening : word ≠ openBrace) (notClosing : word ≠ closeBrace)
      (behind : FillsWords (depth + 1) rest start filled finish) :
      FillsWords (depth + 1) (word :: rest) start (word :: filled) finish
  | word {word value : String} {rest filled : List String} {start between finish : Evaluation σ}
      (notOpening : word ≠ openBrace) (notClosing : word ≠ closeBrace)
      (fills : FillsWord vocabulary call context limit word start value between)
      (behind : FillsWords 0 rest between filled finish) :
      FillsWords 0 (word :: rest) start (value :: filled) finish

end

section

variable {vocabulary : Vocabulary σ} {call : Procedure → EvalM σ CallResult} {context : Context}
  {limit : Duration}

theorem evaluateBounded_inside (limited : vocabulary.timeout = some limit) {text : String}
    (tagged : mayHoldTags text = true) {start : Evaluation σ} (inside : start.bound.isSome) :
    (evaluateBounded vocabulary context text).run start = (do
      let (value, later) ← (evaluate vocabulary context text).run start
      if later.isCancelled then
        return (nullText, { later with
          world := vocabulary.note .debug s!"Nested tag fill of '{text}' ran past its deadline."
            later.world })
      return (value, later)) := by
  unfold evaluateBounded
  simp only [limited, tagged, inside, Bool.not_true, Bool.false_eq_true, ↓reduceIte,
    StateT.run_bind, StateT.run_get, Option.pure_def, Option.bind_eq_bind, Option.bind_some]
  refine congrArg (Option.bind _) (funext fun outcome => ?_)
  rw [EvalM.run_isCancelled, Option.bind_some]
  cases outcome.2.isCancelled <;> rfl

theorem evaluateBounded_outside (limited : vocabulary.timeout = some limit)
    (positive : limit.nanoseconds ≠ 0) {text : String} (tagged : mayHoldTags text = true)
    {start : Evaluation σ} (outside : start.bound = none) :
    (evaluateBounded vocabulary context text).run start = (do
      let (value, later) ← (evaluate vocabulary context text).run { start with bound := some false }
      if later.isCancelled then
        return (nullText, { later with
          bound := none
          world := vocabulary.report context (context.reported (abandonment limit text))
            later.world })
      return (value, { later with bound := none })) := by
  have running : (limit.nanoseconds == 0) = false := by simpa using positive
  unfold evaluateBounded
  simp only [limited, tagged, outside, running, Option.isSome_none, Bool.not_true,
    Bool.false_eq_true, ↓reduceIte, StateT.run_bind, StateT.run_get, StateT.run_modify,
    Option.pure_def, Option.bind_eq_bind, Option.bind_some]
  refine congrArg (Option.bind _) (funext fun outcome => ?_)
  rw [EvalM.run_isCancelled, Option.bind_some]
  cases outcome.2.isCancelled <;> rfl

theorem evaluateBounded_fillsWord (limited : vocabulary.timeout = some limit)
    (positive : limit.nanoseconds ≠ 0)
    (calls : ∀ procedure, Follows (vocabulary.call procedure) (call procedure)) (word : String)
    {start : Evaluation σ} (outside : start.bound = none) (value : String)
    (finish : Evaluation σ) :
    (evaluateBounded vocabulary context word).run start = some (value, finish) ↔
      FillsWord vocabulary call context limit word start value finish := by
  cases tagged : mayHoldTags word with
  | false =>
      have plain : (evaluateBounded vocabulary context word).run start =
          some (unescape word, start) := by
        simp [evaluateBounded, limited, tagged, evaluate, renderText]
      rw [plain]
      constructor
      · rintro ⟨⟩
        exact .tagless tagged
      · rintro (_ | ⟨isTagged, _, _, _⟩ | ⟨isTagged, _, _⟩)
        · rfl
        · rw [tagged] at isTagged
          cases isTagged
        · rw [tagged] at isTagged
          cases isTagged
  | true =>
      rw [evaluateBounded_outside limited positive tagged outside, Option.bind_eq_bind,
        Option.bind_eq_some_iff]
      constructor
      · rintro ⟨⟨text, later⟩, ran, ended⟩
        obtain ⟨onward, same⟩ := evaluate_follows calls context word _ rfl text later ran
        obtain ⟨cancelled, bound⟩ := Option.isSome_iff_exists.1 onward.limited
        have answer : later.isCancelled = cancelled := by simp [Evaluation.isCancelled, bound]
        dsimp only at ended
        rw [answer] at ended
        cases cancelled with
        | false =>
            cases ended
            exact .whole tagged ran (same bound) bound
        | true =>
            cases ended
            exact .abandoned tagged ran bound
      · rintro (plain | ⟨_, ran, _, uncancelled⟩ | ⟨_, ran, cancelled⟩)
        · rw [tagged] at plain
          cases plain
        · exact ⟨_, ran, by simp [Evaluation.isCancelled, uncancelled]⟩
        · exact ⟨_, ran, by simp [Evaluation.isCancelled, cancelled]⟩

theorem FillsWord.outside {word value : String} {start finish : Evaluation σ}
    (fills : FillsWord vocabulary call context limit word start value finish)
    (outside : start.bound = none) : finish.bound = none := by
  cases fills with
  | tagless => exact outside
  | whole | abandoned => rfl

theorem EvalM.run_consed {act : EvalM σ (List α)} {first : α} {start finish : Evaluation σ}
    {whole : List α} :
    (do return first :: (← act) : EvalM σ (List α)).run start = some (whole, finish) ↔
      ∃ rest, act.run start = some (rest, finish) ∧ whole = first :: rest := by
  rw [EvalM.run_bind_eq_some]
  constructor
  · rintro ⟨rest, later, ran, ended⟩
    cases ended
    exact ⟨rest, ran, rfl⟩
  · rintro ⟨rest, ran, rfl⟩
    exact ⟨rest, finish, ran, rfl⟩

theorem fillArgumentsFrom_fillsWords (limited : vocabulary.timeout = some limit)
    (positive : limit.nanoseconds ≠ 0)
    (calls : ∀ procedure, Follows (vocabulary.call procedure) (call procedure)) (depth : Nat)
    (words : List String) {start : Evaluation σ} (outside : start.bound = none)
    (filled : List String) (finish : Evaluation σ) :
    (fillArgumentsFrom vocabulary context depth words).run start = some (filled, finish) ↔
      FillsWords vocabulary call context limit depth words start filled finish := by
  induction words generalizing depth start filled with
  | nil =>
      rw [fillArgumentsFrom, EvalM.run_pure_eq_some]
      constructor
      · rintro ⟨rfl, rfl⟩
        exact .nil
      · rintro ⟨⟩
        exact ⟨rfl, rfl⟩
  | cons word rest ih =>
      rw [fillArgumentsFrom]
      by_cases opening : word = openBrace
      · rw [if_pos opening, EvalM.run_consed]
        constructor
        · rintro ⟨behind, ran, rfl⟩
          exact .opening opening ((ih _ outside _).1 ran)
        · intro fills
          cases fills with
          | opening _ behind => exact ⟨_, (ih _ outside _).2 behind, rfl⟩
          | closing closing => exact absurd (opening.symm.trans closing) (by decide)
          | braced notOpening | word notOpening => exact absurd opening notOpening
      rw [if_neg opening]
      by_cases closing : word = closeBrace
      · rw [if_pos closing, EvalM.run_consed]
        constructor
        · rintro ⟨behind, ran, rfl⟩
          exact .closing closing ((ih _ outside _).1 ran)
        · intro fills
          cases fills with
          | opening isOpening => exact absurd isOpening opening
          | closing _ behind => exact ⟨_, (ih _ outside _).2 behind, rfl⟩
          | braced _ notClosing | word _ notClosing => exact absurd closing notClosing
      rw [if_neg closing]
      cases depth with
      | succ depth =>
          rw [if_pos (Nat.succ_pos depth), EvalM.run_consed]
          constructor
          · rintro ⟨behind, ran, rfl⟩
            exact .braced opening closing ((ih _ outside _).1 ran)
          · intro fills
            cases fills with
            | opening isOpening => exact absurd isOpening opening
            | closing isClosing => exact absurd isClosing closing
            | braced _ _ behind => exact ⟨_, (ih _ outside _).2 behind, rfl⟩
      | zero =>
          rw [if_neg (Nat.lt_irrefl 0), EvalM.run_bind_eq_some]
          constructor
          · rintro ⟨value, between, ran, ranOn⟩
            obtain ⟨behind, ranBehind, rfl⟩ := EvalM.run_consed.1 ranOn
            have fills :=
              (evaluateBounded_fillsWord limited positive calls word outside value between).1 ran
            exact .word opening closing fills ((ih _ (fills.outside outside) _).1 ranBehind)
          · intro fills
            cases fills with
            | opening isOpening => exact absurd isOpening opening
            | closing isClosing => exact absurd isClosing closing
            | word _ _ one behind =>
                exact ⟨_, _,
                  (evaluateBounded_fillsWord limited positive calls word outside _ _).2 one,
                  EvalM.run_consed.2 ⟨_, (ih _ (one.outside outside) _).2 behind, rfl⟩⟩

end

end TagScript.Tag
