import TagScript.Proofs.Tag.Yield

/-! Two fillings side by side, from worlds that may differ. What they read of the two worlds is the
same, so they come to the same text, and the worlds stay related. The caches do not matter: reading
through a cache is reading. -/

namespace TagScript.Tag

variable {σ α β : Type}

def Cache.Faithful (read : String → α) (cache : Cache α) : Prop :=
  ∀ text reading, cache.readings[text]? = some reading → reading.value = read text

namespace Cache.Faithful

variable {read : String → α} {cache : Cache α}

theorem empty (read : String → α) : (Cache.empty : Cache α).Faithful read := by
  intro text reading held
  simp [Cache.empty] at held

theorem lookup_value (faithful : cache.Faithful read) (text : String) :
    (cache.lookup read text).1.value = read text := by
  unfold Cache.lookup
  split
  · rename_i reading held
    exact faithful text reading held
  · rfl

theorem lookup (faithful : cache.Faithful read) (text : String) :
    (cache.lookup read text).2.Faithful read := by
  unfold Cache.lookup
  split
  · exact faithful
  · intro other reading held
    dsimp only at held
    split at held
    · rw [Std.HashMap.getElem?_insert] at held
      split at held
      · rename_i same
        rw [← Option.some.inj held, ← beq_iff_eq.1 same]
      · exact faithful other reading held
    · exact faithful other reading held

end Cache.Faithful

structure Evaluation.Faithful (state : Evaluation σ) : Prop where
  pieces : state.pieces.Faithful Tag.pieces
  chains : state.chains.Faithful Chain.parse

def Evaluation.fresh (world : σ) : Evaluation σ := ⟨.empty, .empty, false, none, world⟩

theorem Evaluation.Faithful.fresh (world : σ) : (Evaluation.fresh world).Faithful :=
  ⟨.empty _, .empty _⟩

/-- Two states with related worlds that otherwise differ at most in what their caches hold. -/
structure Evaluation.Paired (related : σ → σ → Prop) (left right : Evaluation σ) : Prop where
  here : left.Faithful
  there : right.Faithful
  token : left.token = right.token
  bound : left.bound = right.bound
  world : related left.world right.world

def BothOutcomes (related : σ → σ → Prop) :
    Option (α × Evaluation σ) → Option (α × Evaluation σ) → Prop :=
  Option.Rel fun left right => left.1 = right.1 ∧ left.2.Paired related right.2

namespace Evaluation.Paired

variable {related weaker : σ → σ → Prop} {left right : Evaluation σ}

theorem weaken (paired : left.Paired related right)
    (weak : ∀ left right, related left right → weaker left right) : left.Paired weaker right :=
  ⟨paired.here, paired.there, paired.token, paired.bound, weak _ _ paired.world⟩

theorem with_world (paired : left.Paired related right) {world other : σ}
    (same : weaker world other) :
    Evaluation.Paired weaker { left with world } { right with world := other } :=
  ⟨⟨paired.here.pieces, paired.here.chains⟩, ⟨paired.there.pieces, paired.there.chains⟩,
    paired.token, paired.bound, same⟩

theorem isCancelled (paired : left.Paired related right) :
    left.isCancelled = right.isCancelled := by
  unfold Evaluation.isCancelled
  rw [paired.token, paired.bound]

theorem cancel (paired : left.Paired related right) : left.cancel.Paired related right.cancel := by
  obtain ⟨here, there, token, bound, world⟩ := paired
  have here : left.cancel.Faithful := by
    unfold Evaluation.cancel
    split <;> exact ⟨here.pieces, here.chains⟩
  have there : right.cancel.Faithful := by
    unfold Evaluation.cancel
    split <;> exact ⟨there.pieces, there.chains⟩
  refine ⟨here, there, ?_, ?_, ?_⟩
  all_goals
    unfold Evaluation.cancel
    rw [bound]
    split
  all_goals first | exact token | exact bound | exact world | rfl

end Evaluation.Paired

namespace EvalM

def Parallel (before : σ → σ → Prop) (act other : EvalM σ α) (after : σ → σ → Prop) : Prop :=
  ∀ left right, left.Paired before right → BothOutcomes after (act.run left) (other.run right)

namespace Parallel

variable {before between after related : σ → σ → Prop} {act other : EvalM σ α}

theorem pure {result : α} (holds : ∀ left right, before left right → after left right) :
    Parallel before (Pure.pure result : EvalM σ α) (Pure.pure result) after :=
  fun _ _ paired => .some ⟨rfl, paired.weaken holds⟩

theorem done (result : α) :
    Parallel related (Pure.pure result : EvalM σ α) (Pure.pure result) related :=
  pure fun _ _ paired => paired

theorem bind_knowing {next following : α → EvalM σ β} {known : α → Prop}
    (first : Parallel before act other between)
    (knows : ∀ start result later, act.run start = some (result, later) → known result)
    (rest : ∀ result, known result → Parallel between (next result) (following result) after) :
    Parallel before (act >>= next) (other >>= following) after := by
  intro left right paired
  have both := first left right paired
  rw [StateT.run_bind, StateT.run_bind]
  revert both
  cases ran : act.run left with
  | none =>
      cases other.run right with
      | none => exact fun _ => .none
      | some outcome => nofun
  | some found =>
      cases other.run right with
      | none => nofun
      | some outcome =>
          obtain ⟨result, later⟩ := found
          obtain ⟨result', later'⟩ := outcome
          rintro ⟨rfl, pairedLater⟩
          exact rest _ (knows left _ later ran) later later' pairedLater

theorem bind {next following : α → EvalM σ β} (first : Parallel before act other between)
    (rest : ∀ result, Parallel between (next result) (following result) after) :
    Parallel before (act >>= next) (other >>= following) after :=
  first.bind_knowing (fun _ _ _ _ => trivial) fun result _ => rest result

theorem weaken {stronger weaker : σ → σ → Prop} (parallel : Parallel before act other after)
    (strong : ∀ left right, stronger left right → before left right)
    (weak : ∀ left right, after left right → weaker left right) :
    Parallel stronger act other weaker := by
  intro left right paired
  have both := parallel left right (paired.weaken strong)
  revert both
  cases act.run left <;> cases other.run right
  · exact fun _ => .none
  · nofun
  · nofun
  · rintro ⟨same, pairedLater⟩
    exact .some ⟨same, pairedLater.weaken weak⟩

theorem flip (parallel : Parallel before act other after) :
    Parallel (flip before) other act (flip after) := by
  intro left right paired
  have both := parallel right left
    ⟨paired.there, paired.here, paired.token.symm, paired.bound.symm, paired.world⟩
  revert both
  cases act.run right <;> cases other.run left
  · exact fun _ => .none
  · nofun
  · nofun
  · rintro ⟨same, later⟩
    exact .some ⟨same.symm, later.there, later.here, later.token.symm, later.bound.symm, later.world⟩

theorem meet {result : α} (first : Parallel related act (Pure.pure result) related)
    (second : Parallel related (Pure.pure result) other related) :
    Parallel related act other related := by
  intro left right paired
  have both := first left right paired
  revert both
  cases act.run left with
  | none => nofun
  | some found =>
      rintro ⟨same, later⟩
      have both := second found.2 right later
      revert both
      cases other.run right with
      | none => nofun
      | some outcome =>
          rintro ⟨same', later'⟩
          exact .some ⟨same.trans same', later'⟩

theorem each (parallel : ∀ world other', before world other' →
      Parallel (fun left right => left = world ∧ right = other') act other after) :
    Parallel before act other after :=
  fun left right paired => parallel left.world right.world paired.world left right
    ⟨paired.here, paired.there, paired.token, paired.bound, rfl, rfl⟩

theorem ite {test : Prop} [Decidable test] {act' other' : EvalM σ α}
    (yes : test → Parallel before act other after)
    (no : ¬ test → Parallel before act' other' after) :
    Parallel before (if test then act else act') (if test then other else other') after := by
  split
  · exact yes ‹_›
  · exact no ‹_›

theorem when {test : Prop} [Decidable test] {rest following : EvalM σ β}
    {first second : EvalM σ α} (yes : Parallel before first second before)
    (goesOn : Parallel before rest following after) :
    Parallel before (if test then first >>= fun _ => rest else rest)
      (if test then second >>= fun _ => following else following) after :=
  .ite (fun _ => .bind yes fun _ => goesOn) fun _ => goesOn

theorem world_bind {next following : σ → EvalM σ β}
    (rest : ∀ world other, before world other →
      Parallel (fun left right => left = world ∧ right = other) (next world) (following other)
        after) :
    Parallel before (world >>= next) (world >>= following) after :=
  each fun _ _ held start second paired => by
    obtain ⟨rfl, rfl⟩ := paired.world
    exact rest _ _ held start second paired

theorem any_world_bind {next following : σ → EvalM σ β}
    (rest : ∀ world other, before world other →
      Parallel before (next world) (following other) after) :
    Parallel before (world >>= next) (world >>= following) after :=
  world_bind fun _ _ held => (rest _ _ held).weaken
    (fun _ _ same => same.1 ▸ same.2 ▸ held) fun _ _ secured => secured

theorem modifyWorld {change other : σ → σ}
    (holds : ∀ left right, before left right → after (change left) (other right)) :
    Parallel before (EvalM.modifyWorld change) (EvalM.modifyWorld other) after :=
  fun _ _ paired => .some ⟨rfl, paired.with_world (holds _ _ paired.world)⟩

theorem isCancelled_bind {next following : Bool → EvalM σ β}
    (rest : ∀ answer, Parallel before (next answer) (following answer) after) :
    Parallel before (isCancelled >>= next) (isCancelled >>= following) after := by
  intro left right paired
  rw [run_isCancelled_bind, run_isCancelled_bind, paired.isCancelled]
  exact rest _ left right paired

theorem get_bind {next following : Evaluation σ → EvalM σ β}
    (rest : ∀ state other, state.Paired before other →
      Parallel before (next state) (following other) after) :
    Parallel before (get >>= next) (get >>= following) after :=
  fun left right paired => rest left right paired left right paired

theorem bounds (bound : Option Bool) :
    Parallel related (modify ({ · with bound }) : EvalM σ PUnit) (modify ({ · with bound }))
      related :=
  fun _ _ paired => .some ⟨rfl, ⟨paired.here.pieces, paired.here.chains⟩,
    ⟨paired.there.pieces, paired.there.chains⟩, paired.token, rfl, paired.world⟩

theorem tokens (token : Bool) :
    Parallel related (modify ({ · with token }) : EvalM σ PUnit) (modify ({ · with token }))
      related :=
  fun _ _ paired => .some ⟨rfl, ⟨paired.here.pieces, paired.here.chains⟩,
    ⟨paired.there.pieces, paired.there.chains⟩, rfl, paired.bound, paired.world⟩

theorem cancel : Parallel related (EvalM.cancel : EvalM σ Unit) EvalM.cancel related :=
  fun _ _ paired => .some ⟨rfl, paired.cancel⟩

theorem forM {each following : α → EvalM σ PUnit}
    (keeps : ∀ item, Parallel related (each item) (following item) related) (items : List α) :
    Parallel related (items.forM each) (items.forM following) related := by
  induction items with
  | nil => exact done _
  | cons item rest ih =>
      simp only [List.forM_eq_forM, List.forM_cons]
      exact bind (keeps item) fun _ => ih

theorem mapM {each following : α → EvalM σ β}
    (keeps : ∀ item, Parallel related (each item) (following item) related) (items : List α) :
    Parallel related (items.mapM each) (items.mapM following) related := by
  induction items with
  | nil =>
      rw [List.mapM_nil, List.mapM_nil]
      exact done _
  | cons item rest ih =>
      rw [List.mapM_cons, List.mapM_cons]
      exact bind (keeps item) fun _ => bind ih fun _ => done _

end Parallel

end EvalM

open EvalM (Parallel)

/-- Everything that filling does beside putting texts together comes to the same in related worlds, if
the filling of brackets does. Procedures are called in two ways. -/
structure Vocabulary.Matching (related : σ → σ → Prop) (vocabulary : Vocabulary σ)
    (call other : Procedure → EvalM σ CallResult) (context : Context) : Prop where
  remark : ∀ level text left right, related left right →
    related (vocabulary.note level text left) right ∧ related left (vocabulary.note level text right)
  report : ∀ message left right, related left right →
    related (vocabulary.report context message left) (vocabulary.report context message right)
  resolve : ∀ resolver ∈ vocabulary.resolvers, ∀ fill fill' : String → EvalM σ String,
    (∀ text, Parallel related (fill text) (fill' text) related) →
    ∀ lookup : Lookup, lookup.context = context → ∀ memo,
    Parallel related
      (ask (vocabulary.calling call) fill lookup (resolver.resolve lookup).run memo)
      (ask (vocabulary.calling other) fill' lookup (resolver.resolve lookup).run memo) related
  apply : ∀ handler ∈ vocabulary.attributes, ∀ fill fill' : String → EvalM σ String,
    (∀ text, Parallel related (fill text) (fill' text) related) →
    ∀ value, ∀ lookup : Lookup, lookup.context = context → ∀ position memo,
    Parallel related
      (ask (vocabulary.calling call) fill lookup (handler.apply value lookup position).run memo)
      (ask (vocabulary.calling other) fill' lookup (handler.apply value lookup position).run memo)
      related

section

variable {related : σ → σ → Prop} {fill fill' : String → EvalM σ String}
  (fills : ∀ text, Parallel related (fill text) (fill' text) related)

include fills

theorem readBracket_parallel (lookup : Lookup) (memo : Memo) (position : Nat) :
    Parallel related (readBracket fill lookup memo position)
      (readBracket fill' lookup memo position) related := by
  unfold readBracket
  split
  · exact .done _
  · split
    · exact .done _
    · exact .bind (fills _) fun _ => .done _

end

section

variable {related : σ → σ → Prop} {vocabulary : Vocabulary σ}
  {call other : Procedure → EvalM σ CallResult} {context : Context}
  (matching : vocabulary.Matching related call other context)

include matching

section

variable {fill fill' : String → EvalM σ String}
  (fills : ∀ text, Parallel related (fill text) (fill' text) related) {lookup : Lookup}
  (here : lookup.context = context)

include fills here

theorem resolveBase_parallel (resolvers : List (Resolver σ))
    (known : resolvers ⊆ vocabulary.resolvers) (memo : Memo) :
    Parallel related (resolveBase (vocabulary.calling call) fill lookup resolvers memo)
      (resolveBase (vocabulary.calling other) fill' lookup resolvers memo) related := by
  induction resolvers generalizing memo with
  | nil => exact .done _
  | cons resolver rest ih =>
      rw [resolveBase_cons, resolveBase_cons]
      refine .bind (matching.resolve resolver (known (by simp)) fill fill' fills lookup here memo) ?_
      rintro ⟨answer, memo⟩
      dsimp only
      split
      · exact .done _
      · exact ih (fun _ member => known (by simp [member])) _

theorem applyAttribute_parallel (value : String) (position : Nat) (handlers : List (Attribute σ))
    (known : handlers ⊆ vocabulary.attributes) (memo : Memo) :
    Parallel related
      (applyAttribute (vocabulary.calling call) fill lookup value position handlers memo)
      (applyAttribute (vocabulary.calling other) fill' lookup value position handlers memo)
      related := by
  induction handlers generalizing memo with
  | nil => exact .done _
  | cons handler rest ih =>
      rw [applyAttribute_cons, applyAttribute_cons]
      refine .bind (matching.apply handler (known (by simp)) fill fill' fills value lookup here
        position memo) ?_
      rintro ⟨answer, memo⟩
      dsimp only
      split
      · exact .done _
      · exact ih (fun _ member => known (by simp [member])) _

theorem applyAttributes_parallel (value : String) (position : Nat) (memo : Memo) :
    Parallel related (applyAttributes (vocabulary.calling call) fill lookup value position memo)
      (applyAttributes (vocabulary.calling other) fill' lookup value position memo) related := by
  -- each attribute accounts for components, so fewer of them are left
  generalize left : lookup.size - position = count
  induction count using Nat.strongRecOn generalizing value position memo with
  | ind count ih =>
      unfold applyAttributes
      by_cases complete : lookup.size ≤ position
      · simp only [complete, ↓reduceIte]
        exact .done _
      · simp only [complete, ↓reduceIte]
        refine .isCancelled_bind fun cancelled => .ite (fun _ => .done _) fun _ => ?_
        refine .bind (applyAttribute_parallel matching fills here value position _
          (List.Subset.refl _) memo) ?_
        rintro ⟨answer, memo⟩
        dsimp only
        split
        · rename_i next
          by_cases moved : position < next.position
          · simp only [moved, ↓reduceIte]
            exact ih _ (by omega) _ _ _ rfl
          · simp only [moved, ↓reduceIte]
            exact .done _
        · exact .done _

theorem resolveChain_parallel :
    Parallel related (resolveChain (vocabulary.calling call) fill lookup)
      (resolveChain (vocabulary.calling other) fill' lookup) related := by
  unfold resolveChain
  refine .ite (fun _ => .done _) fun _ => ?_
  refine .bind (resolveBase_parallel matching fills here _ (List.Subset.refl _) []) ?_
  rintro ⟨answer, memo⟩
  dsimp only
  split
  · exact .done _
  · exact applyAttributes_parallel matching fills here _ _ memo

end

theorem reportError_parallel (message : String) :
    Parallel related ((vocabulary.calling call).reportError context message)
      ((vocabulary.calling other).reportError context message) related :=
  .modifyWorld fun left right held => matching.report _ left right held

theorem remark_parallel (level : LogLevel) (text : String) :
    Parallel related ((vocabulary.calling call).remark level text)
      ((vocabulary.calling other).remark level text) related :=
  .modifyWorld fun _ _ held =>
    (matching.remark level text _ _ (matching.remark level text _ _ held).1).2

omit matching in
theorem readPieces_quiet {related : σ → σ → Prop} {vocabulary : Vocabulary σ}
    (quiet : ∀ level text left right, related left right →
      related (vocabulary.note level text left) right) (text : String) :
    Parallel related (vocabulary.readPieces text) (pure (pieces text)) related := by
  intro left right paired
  have value := paired.here.pieces.lookup_value text
  have cached : Evaluation.Paired related
      { left with pieces := (left.pieces.lookup pieces text).2 } right :=
    ⟨⟨paired.here.pieces.lookup text, paired.here.chains⟩, paired.there, paired.token,
      paired.bound, paired.world⟩
  obtain ⟨remark, read⟩ := run_readPieces vocabulary text left
  rw [read]
  split
  · exact .some ⟨value, cached⟩
  · exact .some ⟨value, cached.with_world (quiet _ _ _ _ paired.world)⟩

theorem readPieces_parallel (text : String) :
    Parallel related ((vocabulary.calling call).readPieces text)
      ((vocabulary.calling other).readPieces text) related := by
  have first : Parallel related ((vocabulary.calling call).readPieces text) (pure (pieces text))
      related := readPieces_quiet (fun level text _ _ held => (matching.remark level text _ _ held).1) text
  have second : Parallel (flip related) ((vocabulary.calling other).readPieces text)
      (pure (pieces text)) (flip related) :=
    readPieces_quiet (fun level text _ _ held => (matching.remark level text _ _ held).2) text
  exact first.meet second.flip

omit matching in
theorem readChain_quiet (body : String) :
    Parallel related (Vocabulary.readChain body : EvalM σ Chain) (pure (Chain.parse body))
      related :=
  fun _ _ paired => .some ⟨paired.here.chains.lookup_value body, ⟨paired.here.pieces,
    paired.here.chains.lookup body⟩, paired.there, paired.token, paired.bound, paired.world⟩

omit matching in
theorem readChain_parallel (body : String) :
    Parallel related (Vocabulary.readChain body : EvalM σ Chain) (Vocabulary.readChain body)
      related := by
  have second : Parallel (flip related) (Vocabulary.readChain body : EvalM σ Chain)
      (pure (Chain.parse body)) (flip related) := readChain_quiet body
  exact (readChain_quiet body).meet second.flip

omit matching in
theorem renderPieces_parallel {resolve resolve' : Body → EvalM σ String}
    (resolves : ∀ body, Parallel related (resolve body) (resolve' body) related)
    (pieces : List Piece) :
    Parallel related (renderPieces resolve pieces) (renderPieces resolve' pieces) related := by
  induction pieces with
  | nil => exact .done _
  | cons piece rest ih =>
      cases piece with
      | literal text => exact .bind ih fun _ => .done _
      | tag body =>
          exact .isCancelled_bind fun _ => .ite (fun _ => .done _) fun _ =>
            .bind (resolves body) fun _ => .bind ih fun _ => .done _

theorem renderText_parallel {resolve resolve' : Body → EvalM σ String}
    (resolves : ∀ body, Parallel related (resolve body) (resolve' body) related) (text : String) :
    Parallel related (renderText (vocabulary.calling call) resolve text)
      (renderText (vocabulary.calling other) resolve' text) related := by
  unfold renderText
  exact .ite (fun _ => .bind (readPieces_parallel matching text) fun pieces =>
    renderPieces_parallel resolves pieces) fun _ => .done _

/-- Filling the body of a tag, at any level. -/
theorem resolveBody_parallel (limit levels : Nat) (body : Body) :
    Parallel related (resolveBody (vocabulary.calling call) context limit levels body)
      (resolveBody (vocabulary.calling other) context limit levels body) related := by
  induction levels generalizing body with
  | zero => exact .bind (reportError_parallel matching _) fun _ => .done _
  | succ levels ih =>
      have fills := renderText_parallel matching ih
      have chained (text : String) : Parallel related
          (Vocabulary.readChain text >>= fun chain => resolveChain (vocabulary.calling call)
            (renderText (vocabulary.calling call)
              (resolveBody (vocabulary.calling call) context limit levels))
            ⟨chain, limit - levels, context⟩)
          (Vocabulary.readChain text >>= fun chain => resolveChain (vocabulary.calling other)
            (renderText (vocabulary.calling other)
              (resolveBody (vocabulary.calling other) context limit levels))
            ⟨chain, limit - levels, context⟩) related :=
        .bind (readChain_parallel text) fun _ => resolveChain_parallel matching fills rfl
      have looked : Parallel related
          (lookUp (vocabulary.calling call) (renderText (vocabulary.calling call)
            (resolveBody (vocabulary.calling call) context limit levels)) context (limit - levels) body)
          (lookUp (vocabulary.calling other) (renderText (vocabulary.calling other)
            (resolveBody (vocabulary.calling other) context limit levels)) context (limit - levels) body)
          related := by
        unfold lookUp
        exact .ite (fun _ => .bind (fills _) chained) fun _ => chained body.lookup
      rw [resolveBody_succ, resolveBody_succ]
      refine .bind looked fun outcome => ?_
      cases outcome with
      | ok value => exact .done _
      | error failure =>
          unfold withoutValue
          dsimp only
          split
          · exact .bind (remark_parallel matching _ _) fun _ => fills _
          · exact .bind (reportError_parallel matching _) fun _ => .done _

theorem evaluate_parallel (text : String) :
    Parallel related (evaluate (vocabulary.calling call) context text)
      (evaluate (vocabulary.calling other) context text) related :=
  .bind (renderText_parallel matching (resolveBody_parallel matching _ _) text) fun _ => .done _

theorem evaluatePieces_parallel (pieces : List Piece) :
    Parallel related (evaluatePieces (vocabulary.calling call) context pieces)
      (evaluatePieces (vocabulary.calling other) context pieces) related :=
  .bind (renderPieces_parallel (resolveBody_parallel matching _ _) pieces) fun _ => .done _

theorem evaluateBounded_parallel (text : String) :
    Parallel related (evaluateBounded (vocabulary.calling call) context text)
      (evaluateBounded (vocabulary.calling other) context text) related := by
  have fills := evaluate_parallel matching text
  have limit (call : Procedure → EvalM σ CallResult) :
      (vocabulary.calling call).timeout = vocabulary.timeout := rfl
  unfold evaluateBounded
  simp only [limit]
  split
  · exact fills
  · refine .ite (fun _ => fills) fun _ => .get_bind fun left right paired => ?_
    rw [paired.bound]
    refine .ite (fun _ => ?_) fun _ => ?_
    · exact .bind fills fun value => .isCancelled_bind fun cancelled =>
        .ite (fun _ => .bind (remark_parallel matching _ _) fun _ => .done _) fun _ => .done _
    · refine .bind (.bounds _) fun _ => .bind fills fun value => .isCancelled_bind fun cancelled =>
        .bind (.bounds _) fun _ => .ite (fun _ => ?_) fun _ => .done _
      exact .bind (reportError_parallel matching _) fun _ => .done _

theorem fillArgumentsFrom_parallel (depth : Nat) (words : List String) :
    Parallel related (fillArgumentsFrom (vocabulary.calling call) context depth words)
      (fillArgumentsFrom (vocabulary.calling other) context depth words) related := by
  induction words generalizing depth with
  | nil => exact .done _
  | cons word rest ih =>
      have goesOn (depth : Nat) (filled : String) : Parallel related
          (do return filled ::
            (← fillArgumentsFrom (vocabulary.calling call) context depth rest) : EvalM σ _)
          (do return filled ::
            (← fillArgumentsFrom (vocabulary.calling other) context depth rest)) related :=
        .bind (ih depth) fun _ => .done _
      unfold fillArgumentsFrom
      exact .ite (fun _ => goesOn _ _) fun _ => .ite (fun _ => goesOn _ _) fun _ =>
        .ite (fun _ => goesOn _ _) fun _ =>
          .bind (evaluateBounded_parallel matching word) fun _ => goesOn _ _

end

theorem underToken_parallel {before after : σ → σ → Prop} {filling other : EvalM σ α}
    (fills : Parallel before filling other after) (cancelled : Bool) :
    Parallel before (underToken cancelled filling) (underToken cancelled other) after := by
  refine .get_bind fun left right paired => ?_
  rw [paired.token]
  exact .bind (.tokens _) fun _ => .bind fills fun _ => .bind (.tokens _) fun _ => .done _

end TagScript.Tag
