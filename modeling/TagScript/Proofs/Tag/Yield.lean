import Mathlib.Order.Filter.Map
import TagScript.Proofs.Tag.Filling

/-! What an act comes to when there are many ways of doing it, such as within this budget or that.
All ways that count come to one and the same, and it is as expected. Filling a text does so wherever
its resolvers and attributes do. -/

namespace TagScript.Tag

variable {μ σ α β : Type}

/-- Which ways count, and whether they have to come to something. -/
structure Regime (μ : Type) where
  among : Filter μ
  proper : among.NeBot
  strict : Bool

def Regime.single : Regime Unit := ⟨pure (), inferInstance, false⟩

def Yields (regime : Regime μ) (act : μ → EvalM σ α) (start : Evaluation σ)
    (after : α → Evaluation σ → Prop) : Prop :=
  ∃ outcome, (∀ᶠ way in regime.among, (act way).run start = outcome) ∧
    match outcome with
    | some (result, later) => after result later
    | none => regime.strict = false

def Serves (regime : Regime μ) (calm : Evaluation σ → Prop) (act : μ → EvalM σ α) : Prop :=
  ∀ start, calm start → Yields regime act start fun _ later => calm later

namespace Yields

variable {regime : Regime μ} {act : μ → EvalM σ α} {start : Evaluation σ}
  {after : α → Evaluation σ → Prop}

theorem of_run {result : α} {later : Evaluation σ}
    (ran : ∀ way, (act way).run start = some (result, later)) (holds : after result later) :
    Yields regime act start after :=
  ⟨some (result, later), .of_forall ran, holds⟩

theorem pure {result : α} (holds : after result start) :
    Yields regime (fun _ => Pure.pure result) start after :=
  of_run (fun _ => rfl) holds

theorem bind {next : μ → α → EvalM σ β} {between : α → Evaluation σ → Prop}
    {after : β → Evaluation σ → Prop} (first : Yields regime act start between)
    (rest : ∀ result later, between result later →
      Yields regime (fun way => next way result) later after) :
    Yields regime (fun way => act way >>= next way) start after := by
  obtain ⟨outcome, runs, holds⟩ := first
  cases outcome with
  | none =>
      refine ⟨none, runs.mono fun way ran => ?_, holds⟩
      rw [StateT.run_bind, ran]
      rfl
  | some found =>
      obtain ⟨final, goesOn, done⟩ := rest _ _ holds
      refine ⟨final, (runs.and goesOn).mono fun way both => ?_, done⟩
      rw [StateT.run_bind, both.1]
      exact both.2

theorem weaken {weaker : α → Evaluation σ → Prop} (yields : Yields regime act start after)
    (weak : ∀ result later, after result later → weaker result later) :
    Yields regime act start weaker := by
  obtain ⟨outcome, runs, holds⟩ := yields
  refine ⟨outcome, runs, ?_⟩
  cases outcome with
  | none => exact holds
  | some found => exact weak _ _ holds

theorem congr {other : μ → EvalM σ α} (yields : Yields regime other start after)
    (same : ∀ᶠ way in regime.among, (act way).run start = (other way).run start) :
    Yields regime act start after := by
  obtain ⟨outcome, runs, holds⟩ := yields
  exact ⟨outcome, (same.and runs).mono fun way both => both.1.trans both.2, holds⟩

theorem ran {act : EvalM σ α} (yields : Yields regime (fun _ => act) start after) {result : α}
    {later : Evaluation σ} (done : act.run start = some (result, later)) : after result later := by
  obtain ⟨outcome, runs, holds⟩ := yields
  have := regime.proper
  obtain ⟨way, same⟩ := runs.exists
  rw [done] at same
  rw [← same] at holds
  exact holds

theorem knowing {fact : α → Evaluation σ → Prop} (yields : Yields regime act start after)
    (known : ∀ way result later, (act way).run start = some (result, later) → fact result later) :
    Yields regime act start fun result later => after result later ∧ fact result later := by
  obtain ⟨outcome, runs, holds⟩ := yields
  refine ⟨outcome, runs, ?_⟩
  cases outcome with
  | none => exact holds
  | some found =>
      have := regime.proper
      obtain ⟨way, ran⟩ := runs.exists
      exact ⟨holds, known way _ _ ran⟩

theorem returns (yields : Yields regime act start after) (strict : regime.strict = true) :
    ∃ result later, (∀ᶠ way in regime.among, (act way).run start = some (result, later)) ∧
      after result later := by
  obtain ⟨outcome, runs, holds⟩ := yields
  cases outcome with
  | none => exact absurd (strict.symm.trans holds) (by decide)
  | some found => exact ⟨found.1, found.2, runs, holds⟩

/-! Small acts, seen from what comes after them. -/

variable {after : β → Evaluation σ → Prop}

theorem world_bind {next : μ → σ → EvalM σ β}
    (rest : Yields regime (fun way => next way start.world) start after) :
    Yields regime (fun way => EvalM.world >>= next way) start after := rest

theorem get_bind {next : μ → Evaluation σ → EvalM σ β}
    (rest : Yields regime (fun way => next way start) start after) :
    Yields regime (fun way => get >>= next way) start after := rest

theorem isCancelled_bind {next : μ → Bool → EvalM σ β}
    (rest : Yields regime (fun way => next way start.isCancelled) start after) :
    Yields regime (fun way => EvalM.isCancelled >>= next way) start after := rest

theorem modifyWorld_bind {change : σ → σ} {next : μ → Unit → EvalM σ β}
    (rest : Yields regime (fun way => next way ())
      { start with world := change start.world } after) :
    Yields regime (fun way => EvalM.modifyWorld change >>= next way) start after := rest

end Yields

namespace Serves

variable {regime : Regime μ} {calm : Evaluation σ → Prop} {act : μ → EvalM σ α}

theorem pure (result : α) : Serves regime calm (fun _ => (Pure.pure result : EvalM σ α)) :=
  fun _ started => .pure started

theorem bind {next : μ → α → EvalM σ β} (first : Serves regime calm act)
    (rest : ∀ result, Serves regime calm fun way => next way result) :
    Serves regime calm fun way => act way >>= next way :=
  fun start started => .bind (first start started) fun result later calmLater =>
    rest result later calmLater

theorem get_bind {next : μ → Evaluation σ → EvalM σ β}
    (rest : ∀ state, Serves regime calm fun way => next way state) :
    Serves regime calm fun way => get >>= next way :=
  fun start started => .get_bind (rest start start started)

theorem isCancelled_bind {next : μ → Bool → EvalM σ β}
    (rest : ∀ answer, Serves regime calm fun way => next way answer) :
    Serves regime calm fun way => EvalM.isCancelled >>= next way :=
  fun start started => Yields.isCancelled_bind (rest start.isCancelled start started)

theorem change {change : Evaluation σ → Evaluation σ}
    (harmless : ∀ state, calm state → calm (change state)) :
    Serves regime calm fun _ => (modify change : EvalM σ PUnit) :=
  fun start started => .of_run (fun _ => rfl) (harmless start started)

theorem ite {test : Prop} [Decidable test] {act other : μ → EvalM σ α}
    (yes : Serves regime calm act) (no : Serves regime calm other) :
    Serves regime calm fun way => if test then act way else other way := by
  split
  · exact yes
  · exact no

end Serves

def Vocabulary.calling (call : Procedure → EvalM σ CallResult) (vocabulary : Vocabulary σ) :
    Vocabulary σ :=
  { vocabulary with call }

/-- Carries out an act from the world as it is. -/
def ask (vocabulary : Vocabulary σ) (fill : String → EvalM σ String) (lookup : Lookup)
    (act : Acting σ α) (memo : Memo) : EvalM σ (α × Memo) := do
  perform vocabulary fill lookup (act (← EvalM.world)) memo

section

variable (vocabulary : Vocabulary σ) (fill : String → EvalM σ String) (lookup : Lookup) (memo : Memo)

theorem setWorld_perform (world : σ) (act : Act σ α) :
    (do EvalM.setWorld world; perform vocabulary fill lookup act memo) =
      perform vocabulary fill lookup act memo := by
  cases act <;> rfl

theorem perform_andThen (act : Act σ α) (next : α → Acting σ β) :
    perform vocabulary fill lookup (act.andThen next) memo = (do
      let (result, memo) ← perform vocabulary fill lookup act memo
      ask vocabulary fill lookup (next result) memo) := by
  induction act generalizing memo with
  | done result world =>
      rw [Act.andThen, perform]
      exact (setWorld_perform vocabulary fill lookup memo world _).symm
  | bracket position world resume ih =>
      simp only [Act.andThen, perform, bind_assoc, ih]
  | call procedure world resume ih => simp only [Act.andThen, perform, bind_assoc, ih]
  | cancel world resume ih => simp only [Act.andThen, perform, bind_assoc, ih]
  | isCancelled world resume ih => simp only [Act.andThen, perform, bind_assoc, ih]

theorem ask_bind (act : Acting σ α) (next : α → Acting σ β) :
    ask vocabulary fill lookup (act >>= next) memo = (do
      let (result, memo) ← ask vocabulary fill lookup act memo
      ask vocabulary fill lookup (next result) memo) := by
  have opened (world : σ) := perform_andThen vocabulary fill lookup memo (act world) next
  simp only [ask, bind_assoc]
  exact congrArg (EvalM.world >>= ·) (funext opened)

theorem ask_world :
    ask vocabulary fill lookup Acting.world memo = (do return (← EvalM.world, memo)) := rfl

theorem ask_modify (change : σ → σ) :
    ask vocabulary fill lookup (Acting.modify change) memo = (do
      EvalM.modifyWorld change
      return ((), memo)) := rfl

theorem ask_bracket (position : Nat) :
    ask vocabulary fill lookup (Acting.bracket position) memo =
      readBracket fill lookup memo position := by
  have same : ask vocabulary fill lookup (Acting.bracket position) memo =
      (readBracket fill lookup memo position >>= pure) := rfl
  rw [same, bind_pure]

theorem ask_call (procedure : Procedure) :
    ask vocabulary fill lookup (Acting.call procedure) memo = (do
      return (← vocabulary.call procedure, memo)) := rfl

theorem ask_cancel :
    ask vocabulary fill lookup Acting.cancel memo = (do
      EvalM.cancel
      return ((), memo)) := by
  have same : ask vocabulary fill lookup Acting.cancel memo = (do
      let world ← EvalM.world
      EvalM.cancel
      EvalM.setWorld world
      return ((), memo)) := rfl
  rw [same]
  funext state
  obtain ⟨pieces, chains, token, bound, world⟩ := state
  cases bound <;> rfl

end

structure Vocabulary.Serving (regime : Regime μ) (calm : Evaluation σ → Prop)
    (vocabulary : Vocabulary σ) (call : μ → Procedure → EvalM σ CallResult) : Prop where
  caches : ∀ state pieces chains, calm state → calm { state with pieces, chains }
  report : ∀ state context message, calm state →
    calm { state with world := vocabulary.report context message state.world }
  note : ∀ state level text, calm state →
    calm { state with world := vocabulary.note level text state.world }
  resolve : ∀ resolver ∈ vocabulary.resolvers, ∀ fill : μ → String → EvalM σ String,
    (∀ text, Serves regime calm fun way => fill way text) → ∀ lookup memo,
    Serves regime calm fun way =>
      ask (vocabulary.calling (call way)) (fill way) lookup (resolver.resolve lookup).run memo
  apply : ∀ handler ∈ vocabulary.attributes, ∀ fill : μ → String → EvalM σ String,
    (∀ text, Serves regime calm fun way => fill way text) → ∀ value lookup position memo,
    Serves regime calm fun way => ask (vocabulary.calling (call way)) (fill way) lookup
      (handler.apply value lookup position).run memo

theorem renderPieces_serves {regime : Regime μ} {calm : Evaluation σ → Prop}
    {resolve : μ → Body → EvalM σ String}
    (resolves : ∀ body, Serves regime calm fun way => resolve way body) (pieces : List Piece) :
    Serves regime calm fun way => renderPieces (resolve way) pieces := by
  induction pieces with
  | nil => exact .pure _
  | cons piece rest ih =>
      cases piece with
      | literal text => exact .bind ih fun _ => .pure _
      | tag body =>
          exact .isCancelled_bind fun _ => .ite (.pure _)
            (.bind (resolves body) fun _ => .bind ih fun _ => .pure _)

theorem resolveBase_cons (vocabulary : Vocabulary σ) (fill : String → EvalM σ String)
    (lookup : Lookup) (resolver : Resolver σ) (rest : List (Resolver σ)) (memo : Memo) :
    resolveBase vocabulary fill lookup (resolver :: rest) memo = (do
      let (answer, memo) ← ask vocabulary fill lookup (resolver.resolve lookup).run memo
      match answer.filter (0 < ·.position) with
      | some resolved => return (some resolved, memo)
      | none => resolveBase vocabulary fill lookup rest memo) := by
  rw [ask, bind_assoc]
  rfl

theorem applyAttribute_cons (vocabulary : Vocabulary σ) (fill : String → EvalM σ String)
    (lookup : Lookup) (value : String) (position : Nat) (handler : Attribute σ)
    (rest : List (Attribute σ)) (memo : Memo) :
    applyAttribute vocabulary fill lookup value position (handler :: rest) memo = (do
      let (answer, memo) ←
        ask vocabulary fill lookup (handler.apply value lookup position).run memo
      match answer with
      | some resolved => return (some resolved, memo)
      | none => applyAttribute vocabulary fill lookup value position rest memo) := by
  rw [ask, bind_assoc]
  rfl

section

variable {regime : Regime μ} {calm : Evaluation σ → Prop} {vocabulary : Vocabulary σ}
  {call : μ → Procedure → EvalM σ CallResult}
  (serving : vocabulary.Serving regime calm call)

include serving

section

variable {fill : μ → String → EvalM σ String}
  (fills : ∀ text, Serves regime calm fun way => fill way text)

include fills

theorem resolveBase_serves (lookup : Lookup) (resolvers : List (Resolver σ))
    (known : resolvers ⊆ vocabulary.resolvers) (memo : Memo) :
    Serves regime calm fun way =>
      resolveBase (vocabulary.calling (call way)) (fill way) lookup resolvers memo := by
  induction resolvers generalizing memo with
  | nil => exact .pure _
  | cons resolver rest ih =>
      simp only [resolveBase_cons]
      refine .bind (serving.resolve resolver (known (by simp)) fill fills lookup memo) ?_
      rintro ⟨answer, memo⟩
      dsimp only
      split
      · exact .pure _
      · exact ih (fun _ member => known (by simp [member])) _

theorem applyAttribute_serves (lookup : Lookup) (value : String) (position : Nat)
    (handlers : List (Attribute σ)) (known : handlers ⊆ vocabulary.attributes) (memo : Memo) :
    Serves regime calm fun way => applyAttribute (vocabulary.calling (call way)) (fill way) lookup
      value position handlers memo := by
  induction handlers generalizing memo with
  | nil => exact .pure _
  | cons handler rest ih =>
      simp only [applyAttribute_cons]
      refine .bind (serving.apply handler (known (by simp)) fill fills value lookup position memo) ?_
      rintro ⟨answer, memo⟩
      dsimp only
      split
      · exact .pure _
      · exact ih (fun _ member => known (by simp [member])) _

theorem applyAttributes_serves (lookup : Lookup) (value : String) (position : Nat) (memo : Memo) :
    Serves regime calm fun way => applyAttributes (vocabulary.calling (call way)) (fill way) lookup
      value position memo := by
  -- each attribute accounts for components, so fewer of them are left
  generalize left : lookup.size - position = count
  induction count using Nat.strongRecOn generalizing value position memo with
  | ind count ih =>
      unfold applyAttributes
      by_cases complete : lookup.size ≤ position
      · simp only [complete, ↓reduceIte]
        exact .pure _
      · simp only [complete, ↓reduceIte]
        refine .isCancelled_bind fun cancelled => .ite (.pure _) ?_
        refine .bind (applyAttribute_serves serving fills lookup value position _
          (List.Subset.refl _) memo) ?_
        rintro ⟨answer, memo⟩
        dsimp only
        split
        · rename_i next
          by_cases moved : position < next.position
          · simp only [moved, ↓reduceIte]
            exact ih _ (by omega) _ _ _ rfl
          · simp only [moved, ↓reduceIte]
            exact .pure _
        · exact .pure _

theorem resolveChain_serves (lookup : Lookup) :
    Serves regime calm fun way =>
      resolveChain (vocabulary.calling (call way)) (fill way) lookup := by
  unfold resolveChain
  refine .ite (.pure _) ?_
  refine .bind (resolveBase_serves serving fills lookup _ (List.Subset.refl _) []) ?_
  rintro ⟨answer, memo⟩
  dsimp only
  split
  · exact .pure _
  · exact applyAttributes_serves serving fills lookup _ _ memo

end

theorem reportError_serves (context : Context) (message : String) :
    Serves regime calm fun way =>
      (vocabulary.calling (call way)).reportError context message :=
  fun start started => .of_run (fun _ => rfl) (serving.report start context _ started)

theorem remark_serves (level : LogLevel) (text : String) :
    Serves regime calm fun way => (vocabulary.calling (call way)).remark level text :=
  fun start started => .of_run (fun _ => rfl) (serving.note start level text started)

theorem readPieces_serves (text : String) :
    Serves regime calm fun way => (vocabulary.calling (call way)).readPieces text := by
  intro start started
  have cached := serving.caches start (start.pieces.lookupInTurns pieces text).2 start.chains started
  refine .get_bind ?_
  cases held : start.pieces.holds text with
  | true => exact .of_run (fun _ => rfl) cached
  | false => exact .of_run (fun _ => rfl) (serving.note _ _ _ cached)

theorem readChain_serves (body : String) :
    Serves regime calm fun _ : μ => (Vocabulary.readChain body : EvalM σ Chain) :=
  fun start started => .of_run (fun _ => rfl) (serving.caches start start.pieces _ started)

theorem renderText_serves {resolve : μ → Body → EvalM σ String}
    (resolves : ∀ body, Serves regime calm fun way => resolve way body) (text : String) :
    Serves regime calm fun way =>
      renderText (vocabulary.calling (call way)) (resolve way) text := by
  unfold renderText
  exact .ite (.bind (readPieces_serves serving text) fun pieces =>
    renderPieces_serves resolves pieces) (.pure _)

theorem resolveBody_serves (context : Context) (limit levels : Nat) (body : Body) :
    Serves regime calm fun way =>
      resolveBody (vocabulary.calling (call way)) context limit levels body := by
  induction levels generalizing body with
  | zero => exact .bind (reportError_serves serving _ _) fun _ => .pure _
  | succ levels ih =>
      have fills := renderText_serves serving ih
      have chained (lookup : String) : Serves regime calm (fun way => do
          let chain ← Vocabulary.readChain lookup
          resolveChain (vocabulary.calling (call way))
            (renderText (vocabulary.calling (call way))
              (resolveBody (vocabulary.calling (call way)) context limit levels))
            ⟨chain, limit - levels, context⟩) :=
        .bind (readChain_serves serving lookup) fun chain => resolveChain_serves serving fills _
      simp only [resolveBody_succ]
      refine .bind ?_ fun outcome => ?_
      · unfold lookUp
        exact .ite (.bind (fills _) chained) (chained body.lookup)
      · cases outcome with
        | ok value => exact .pure _
        | error failure =>
            unfold withoutValue
            dsimp only
            split
            · exact .bind (remark_serves serving _ _) fun _ => fills _
            · exact .bind (reportError_serves serving _ _) fun _ => .pure _

theorem evaluate_serves (context : Context) (text : String) :
    Serves regime calm fun way => evaluate (vocabulary.calling (call way)) context text :=
  .bind (renderText_serves serving (resolveBody_serves serving context _ _) text) fun _ => .pure _

theorem evaluateBounded_serves
    (harmless : ∀ state bound, calm state → calm { state with bound }) (context : Context)
    (text : String) :
    Serves regime calm fun way =>
      evaluateBounded (vocabulary.calling (call way)) context text := by
  have fills := evaluate_serves serving context text
  have limit (way : μ) : (vocabulary.calling (call way)).timeout = vocabulary.timeout := rfl
  unfold evaluateBounded
  simp only [limit]
  split
  · exact fills
  · refine .ite fills (.get_bind fun state => .ite ?_ ?_)
    · exact .bind fills fun value => .isCancelled_bind fun cancelled =>
        .ite (.bind (remark_serves serving _ _) fun _ => .pure _) (.pure _)
    · exact .bind (.change fun state => harmless state _) fun _ => .bind fills fun value =>
        .isCancelled_bind fun cancelled => .bind (.change fun state => harmless state _) fun _ =>
          .ite (.bind (reportError_serves serving _ _) fun _ => .pure _) (.pure _)

theorem fillArgumentsFrom_serves
    (harmless : ∀ state bound, calm state → calm { state with bound }) (context : Context)
    (depth : Nat) (words : List String) :
    Serves regime calm fun way =>
      fillArgumentsFrom (vocabulary.calling (call way)) context depth words := by
  induction words generalizing depth with
  | nil => exact .pure _
  | cons word rest ih =>
      have goesOn (depth : Nat) (filled : String) : Serves regime calm (fun way => do
          return filled :: (← fillArgumentsFrom (vocabulary.calling (call way)) context depth rest)) :=
        .bind (ih depth) fun _ => .pure _
      unfold fillArgumentsFrom
      exact .ite (goesOn _ _) (.ite (goesOn _ _) (.ite (goesOn _ _)
        (.bind (evaluateBounded_serves serving harmless context word) fun _ => goesOn _ _)))

end

theorem underToken_serves {regime : Regime μ} {calm : Evaluation σ → Prop}
    {filling : μ → EvalM σ α} (fills : Serves regime calm filling)
    (harmless : ∀ state token, calm state → calm { state with token }) (cancelled : Bool) :
    Serves regime calm fun way => underToken cancelled (filling way) :=
  .get_bind fun _ => .bind (.change fun state => harmless state cancelled) fun _ =>
    .bind fills fun _ => .bind (.change fun state => harmless state _) fun _ => .pure _

end TagScript.Tag
