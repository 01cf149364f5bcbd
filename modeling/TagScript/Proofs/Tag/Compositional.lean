import TagScript.Proofs.Tag.Account
import TagScript.Proofs.Tag.Yield

/-! What is proved of a filling piece by piece. A fact about several ways of doing one thing is
compositional if it holds of what is put together wherever it holds of the parts. Such a fact holds
of the filling of every text if it holds of what the resolvers and the attributes do. -/

namespace TagScript.Tag

variable {ι σ α : Type}

structure Vocabularies (ι σ : Type) where
  resolvers : List (ι → Resolver σ)
  attributes : List (ι → Attribute σ)
  report : Context → String → σ → σ
  note : LogLevel → String → σ → σ
  call : ι → Procedure → EvalM σ CallResult
  timeout : Option Duration

namespace Vocabularies

def pick (vocabularies : Vocabularies ι σ) (i : ι) : Vocabulary σ where
  resolvers := vocabularies.resolvers.map (· i)
  attributes := vocabularies.attributes.map (· i)
  report := vocabularies.report
  note := vocabularies.note
  call := vocabularies.call i
  timeout := vocabularies.timeout

def always (ι : Type) (vocabulary : Vocabulary σ) : Vocabularies ι σ where
  resolvers := vocabulary.resolvers.map fun resolver _ => resolver
  attributes := vocabulary.attributes.map fun handler _ => handler
  report := vocabulary.report
  note := vocabulary.note
  call := fun _ => vocabulary.call
  timeout := vocabulary.timeout

theorem always_pick (vocabulary : Vocabulary σ) (i : ι) : (always ι vocabulary).pick i = vocabulary := by
  simp [always, pick, Function.comp_def]

end Vocabularies

def resolveWith (vocabulary : Vocabulary σ) (context : Context) (inner : Body → EvalM σ String)
    (depth : Nat) (body : Body) : EvalM σ String := do
  let fill := renderText vocabulary inner
  let outcome ← lookUp vocabulary fill context depth body
  settle vocabulary fill context body outcome

theorem resolveBody_eq_resolveWith (vocabulary : Vocabulary σ) (context : Context)
    (limit levels : Nat) :
    resolveBody vocabulary context limit (levels + 1) =
      resolveWith vocabulary context (resolveBody vocabulary context limit levels)
        (limit - levels) :=
  funext fun body => resolveBody_settle vocabulary context limit levels body

/-- A fact about doing the same in several ways that is kept where fillings are put together. -/
structure Compositional (vocabularies : Vocabularies ι σ)
    (holds : ∀ {α : Type}, (ι → EvalM σ α) → Prop) : Prop where
  pure : ∀ {α : Type} (result : α), holds fun _ => (pure result : EvalM σ α)
  bind : ∀ {α β : Type} {act : ι → EvalM σ α} {next : ι → α → EvalM σ β}, holds act →
    (∀ result, holds fun i => next i result) → holds fun i => act i >>= next i
  isCancelled : holds fun _ => EvalM.isCancelled
  readPieces : ∀ text, holds fun i => (vocabularies.pick i).readPieces text
  readChain : ∀ body, holds fun _ => Vocabulary.readChain body
  remark : ∀ level text, holds fun i => (vocabularies.pick i).remark level text
  reportError : ∀ context message, holds fun i => (vocabularies.pick i).reportError context message

structure Vocabularies.Ask (vocabularies : Vocabularies ι σ)
    (holds : ∀ {α : Type}, (ι → EvalM σ α) → Prop) (fill : ι → String → EvalM σ String)
    (lookup : Lookup) : Prop where
  resolve : ∀ resolver ∈ vocabularies.resolvers, ∀ memo, holds fun i =>
    ask (vocabularies.pick i) (fill i) lookup ((resolver i).resolve lookup).run memo
  apply : ∀ handler ∈ vocabularies.attributes, ∀ value position memo, holds fun i =>
    ask (vocabularies.pick i) (fill i) lookup ((handler i).apply value lookup position).run memo

namespace Compositional

section

variable {vocabularies : Vocabularies ι σ} {holds : ∀ {α : Type}, (ι → EvalM σ α) → Prop}
  (compositional : Compositional vocabularies holds)

include compositional

section

variable {fill : ι → String → EvalM σ String} {lookup : Lookup}

theorem resolveBase (resolvers : List (ι → Resolver σ))
    (asks : ∀ resolver ∈ resolvers, ∀ memo, holds fun i =>
      ask (vocabularies.pick i) (fill i) lookup ((resolver i).resolve lookup).run memo)
    (memo : Memo) :
    holds fun i =>
      Tag.resolveBase (vocabularies.pick i) (fill i) lookup (resolvers.map (· i)) memo := by
  induction resolvers generalizing memo with
  | nil => exact compositional.pure _
  | cons resolver rest ih =>
      simp only [List.map_cons, resolveBase_cons]
      refine compositional.bind (asks resolver (by simp) memo) fun outcome => ?_
      obtain ⟨answer, memo⟩ := outcome
      dsimp only
      cases answer.filter (0 < ·.position) with
      | some resolved => exact compositional.pure _
      | none => exact ih (fun other member => asks other (by simp [member])) memo

theorem applyAttribute (value : String) (position : Nat) (handlers : List (ι → Attribute σ))
    (asks : ∀ handler ∈ handlers, ∀ memo, holds fun i =>
      ask (vocabularies.pick i) (fill i) lookup ((handler i).apply value lookup position).run memo)
    (memo : Memo) :
    holds fun i => Tag.applyAttribute (vocabularies.pick i) (fill i) lookup value position
      (handlers.map (· i)) memo := by
  induction handlers generalizing memo with
  | nil => exact compositional.pure _
  | cons handler rest ih =>
      simp only [List.map_cons, applyAttribute_cons]
      refine compositional.bind (asks handler (by simp) memo) fun outcome => ?_
      obtain ⟨answer, memo⟩ := outcome
      cases answer with
      | some resolved => exact compositional.pure _
      | none => exact ih (fun other member => asks other (by simp [member])) memo

variable (asks : vocabularies.Ask holds fill lookup)

include asks

theorem applyAttributes (value : String) (position : Nat) (memo : Memo) :
    holds fun i =>
      Tag.applyAttributes (vocabularies.pick i) (fill i) lookup value position memo := by
  -- each attribute accounts for components, so fewer of them are left
  generalize left : lookup.size - position = count
  induction count using Nat.strongRecOn generalizing value position memo with
  | ind count ih =>
      unfold Tag.applyAttributes
      by_cases complete : lookup.size ≤ position
      · simp only [complete, ↓reduceIte]
        exact compositional.pure _
      · simp only [complete, ↓reduceIte]
        refine compositional.bind compositional.isCancelled fun cancelled => ?_
        cases cancelled with
        | true => exact compositional.pure _
        | false =>
            refine compositional.bind (compositional.applyAttribute value position _
              (fun handler member => asks.apply handler member value position) memo) fun outcome => ?_
            obtain ⟨answer, memo⟩ := outcome
            cases answer with
            | none => exact compositional.pure _
            | some next =>
                by_cases moved : position < next.position
                · simp only [moved, ↓reduceIte]
                  exact ih _ (by omega) _ _ _ rfl
                · simp only [moved, ↓reduceIte]
                  exact compositional.pure _

theorem resolveChain :
    holds fun i => Tag.resolveChain (vocabularies.pick i) (fill i) lookup := by
  unfold Tag.resolveChain
  by_cases empty : lookup.chain.components.isEmpty || Text.isBlankText lookup.chain.raw
  · simp only [empty, ↓reduceIte]
    exact compositional.pure _
  · simp only [empty]
    refine compositional.bind (compositional.resolveBase _ asks.resolve []) fun outcome => ?_
    obtain ⟨answer, memo⟩ := outcome
    cases answer with
    | none => exact compositional.pure _
    | some resolved => exact compositional.applyAttributes asks _ _ memo

end

theorem renderPieces {resolve : ι → Body → EvalM σ String}
    (resolves : ∀ body, holds fun i => resolve i body) (pieces : List Piece) :
    holds fun i => Tag.renderPieces (resolve i) pieces := by
  induction pieces with
  | nil => exact compositional.pure _
  | cons piece rest ih =>
      cases piece with
      | literal text => exact compositional.bind ih fun _ => compositional.pure _
      | tag body =>
          refine compositional.bind compositional.isCancelled fun cancelled => ?_
          cases cancelled with
          | true => exact compositional.pure _
          | false =>
              exact compositional.bind (resolves body) fun _ =>
                compositional.bind ih fun _ => compositional.pure _

theorem renderText (resolve : ι → Body → EvalM σ String)
    (resolves : ∀ body, holds fun i => resolve i body) (text : String) :
    holds fun i => Tag.renderText (vocabularies.pick i) (resolve i) text := by
  unfold Tag.renderText
  by_cases tags : mayHoldTags text
  · simp only [tags, ↓reduceIte]
    exact compositional.bind (compositional.readPieces text) fun pieces =>
      compositional.renderPieces resolves pieces
  · simp only [tags]
    exact compositional.pure _

theorem resolveWith (inner : ι → Body → EvalM σ String)
    (inners : ∀ body, holds fun i => inner i body)
    (asks : ∀ lookup,
      vocabularies.Ask holds (fun i => Tag.renderText (vocabularies.pick i) (inner i)) lookup)
    (context : Context) (depth : Nat) (body : Body) :
    holds fun i => Tag.resolveWith (vocabularies.pick i) context (inner i) depth body := by
  have fills := compositional.renderText inner inners
  have chained (lookup : String) : holds fun i => (do
      let chain ← Vocabulary.readChain lookup
      Tag.resolveChain (vocabularies.pick i) (Tag.renderText (vocabularies.pick i) (inner i))
        ⟨chain, depth, context⟩) :=
    compositional.bind (compositional.readChain lookup) fun chain =>
      compositional.resolveChain (asks ⟨chain, depth, context⟩)
  refine compositional.bind ?_ fun outcome => ?_
  · unfold lookUp
    by_cases dynamic : body.dynamic
    · simp only [dynamic, ↓reduceIte]
      exact compositional.bind (fills body.lookup) chained
    · simp only [dynamic]
      exact chained body.lookup
  · cases outcome with
    | ok value => exact compositional.pure _
    | error failure =>
        unfold settle withoutValue
        dsimp only
        cases body.fallback with
        | some fallback =>
            exact compositional.bind (compositional.remark _ _) fun _ => fills fallback
        | none =>
            exact compositional.bind (compositional.reportError _ _) fun _ => compositional.pure _

end

/-! A fact that holds of every act done the same way each time holds of what resolvers and attributes
do, if it holds of the filling of brackets. -/

section

variable {vocabulary : Vocabulary σ} {holds : ∀ {α : Type}, (ι → EvalM σ α) → Prop}
  (compositional : Compositional (.always ι vocabulary) holds)
  (same : ∀ {α : Type} (act : EvalM σ α), holds fun _ => act)

include compositional

section

variable {fill : ι → String → EvalM σ String} (fills : ∀ text, holds fun i => fill i text)

include fills

theorem readBracket (lookup : Lookup) (memo : Memo) (position : Nat) :
    holds fun i => Tag.readBracket (fill i) lookup memo position := by
  unfold Tag.readBracket
  cases (lookup.component? position).bind (·.context) with
  | none => exact compositional.pure _
  | some raw =>
      dsimp only
      cases memo.lookup position with
      | some text => exact compositional.pure _
      | none => exact compositional.bind (fills raw) fun _ => compositional.pure _

include same

theorem perform (lookup : Lookup) (act : Act σ α) (memo : Memo) :
    holds fun i => Tag.perform vocabulary (fill i) lookup act memo := by
  induction act generalizing memo with
  | done result world => exact compositional.bind (same _) fun _ => compositional.pure _
  | bracket position world resume ih =>
      refine compositional.bind (same _) fun _ =>
        compositional.bind (compositional.readBracket fills lookup memo position) fun reading => ?_
      exact compositional.bind (same _) fun later => ih reading.1 later reading.2
  | call procedure world resume ih =>
      exact compositional.bind (same _) fun _ => compositional.bind (same _) fun answer =>
        compositional.bind (same _) fun later => ih answer later memo
  | cancel world resume ih =>
      exact compositional.bind (same _) fun _ => compositional.bind (same _) fun _ => ih world memo
  | isCancelled world resume ih =>
      exact compositional.bind (same _) fun _ => compositional.bind (same _) fun answer =>
        ih answer world memo

theorem ask_always (lookup : Lookup) : (Vocabularies.always ι vocabulary).Ask holds fill lookup where
  resolve resolver member memo := by
    obtain ⟨one, _, rfl⟩ := List.mem_map.1 member
    simp only [Vocabularies.always_pick]
    exact compositional.bind (same _) fun world => compositional.perform same fills lookup _ memo
  apply handler member value position memo := by
    obtain ⟨one, _, rfl⟩ := List.mem_map.1 member
    simp only [Vocabularies.always_pick]
    exact compositional.bind (same _) fun world => compositional.perform same fills lookup _ memo

end

include same

theorem resolveWith_always (inner : ι → Body → EvalM σ String)
    (inners : ∀ body, holds fun i => inner i body) (context : Context) (depth : Nat) (body : Body) :
    holds fun i => Tag.resolveWith vocabulary context (inner i) depth body := by
  have fills := compositional.renderText inner inners
  have whole := compositional.resolveWith inner inners
    (fun lookup => compositional.ask_always same fills lookup) context depth body
  simpa only [Vocabularies.always_pick] using whole

end

end Compositional

end TagScript.Tag
