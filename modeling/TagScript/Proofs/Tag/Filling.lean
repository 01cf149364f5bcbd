import TagScript.Proofs.Tag.Escape
import TagScript.Tag.Evaluate

/-! What filling keeps. A property of the evaluation that the resolvers, the attributes and the
reports keep is kept by filling any text, and a property of every value they give is a property of
the value of every chain. -/

namespace TagScript.Tag

variable {σ α β : Type}

namespace Evaluation

def isCancelled (state : Evaluation σ) : Bool := state.bound.getD state.token

def cancel (state : Evaluation σ) : Evaluation σ :=
  match state.bound with
  | some _ => { state with bound := some true }
  | none => { state with token := true }

end Evaluation

namespace EvalM

/-! What the small acts on an evaluation do, seen from what comes after them. -/

theorem run_world_bind (next : σ → EvalM σ β) (state : Evaluation σ) :
    (world >>= next).run state = (next state.world).run state := rfl

theorem run_setWorld_bind (world : σ) (next : Unit → EvalM σ β) (state : Evaluation σ) :
    (setWorld world >>= next).run state = (next ()).run { state with world } := rfl

theorem run_modifyWorld_bind (change : σ → σ) (next : Unit → EvalM σ β) (state : Evaluation σ) :
    (modifyWorld change >>= next).run state =
      (next ()).run { state with world := change state.world } := rfl

theorem run_isCancelled_bind (next : Bool → EvalM σ β) (state : Evaluation σ) :
    (isCancelled >>= next).run state = (next state.isCancelled).run state := rfl

theorem run_cancel_bind (next : Unit → EvalM σ β) (state : Evaluation σ) :
    (cancel >>= next).run state = (next ()).run state.cancel := rfl

theorem run_bind_eq_some {act : EvalM σ α} {next : α → EvalM σ β} {state : Evaluation σ}
    {outcome : β × Evaluation σ} :
    (act >>= next).run state = some outcome ↔
      ∃ result later, act.run state = some (result, later) ∧ (next result).run later = some outcome := by
  rw [StateT.run_bind, Option.bind_eq_bind, Option.bind_eq_some_iff]
  exact Prod.exists

theorem run_bind_of_run_eq {act other : EvalM σ α} {state : Evaluation σ}
    (same : act.run state = other.run state) (next : α → EvalM σ β) :
    (act >>= next).run state = (other >>= next).run state := by
  rw [StateT.run_bind, StateT.run_bind, same]

theorem run_bind_of_run_some {act : EvalM σ α} {state later : Evaluation σ} {result : α}
    (ran : act.run state = some (result, later)) (next : α → EvalM σ β) :
    (act >>= next).run state = (next result).run later := by
  rw [StateT.run_bind, ran]
  rfl

theorem run_pure_eq_some {result found : α} {state later : Evaluation σ} :
    (pure result : EvalM σ α).run state = some (found, later) ↔ result = found ∧ state = later := by
  simp

def Ensures (before : Evaluation σ → Prop) (act : EvalM σ α) (after : α → Evaluation σ → Prop) :
    Prop :=
  ∀ start result finish, before start → act.run start = some (result, finish) → after result finish

/-- An act that starts where `calm` holds ends where it holds. -/
def Keeps (calm : Evaluation σ → Prop) (act : EvalM σ α) : Prop :=
  Ensures calm act fun _ => calm

variable {before : Evaluation σ → Prop} {act : EvalM σ α} {after : α → Evaluation σ → Prop}

theorem Ensures.pure {result : α} (holds : ∀ state, before state → after result state) :
    Ensures before (pure result) after := by
  intro start found finish started ran
  obtain ⟨rfl, rfl⟩ := run_pure_eq_some.1 ran
  exact holds start started

theorem Ensures.bind {between : α → Evaluation σ → Prop} {next : α → EvalM σ β}
    {finished : β → Evaluation σ → Prop} (first : Ensures before act between)
    (rest : ∀ result, Ensures (between result) (next result) finished) :
    Ensures before (act >>= next) finished := by
  intro start result finish started ran
  obtain ⟨found, later, ranFirst, ranRest⟩ := run_bind_eq_some.1 ran
  exact rest found later result finish (first start found later started ranFirst) ranRest

theorem Ensures.run_bind_congr {next other : α → EvalM σ β} (ensures : Ensures before act after)
    (same : ∀ result later, after result later → (next result).run later = (other result).run later)
    {state : Evaluation σ} (started : before state) :
    (act >>= next).run state = (act >>= other).run state := by
  rw [StateT.run_bind, StateT.run_bind]
  cases ran : act.run state with
  | none => rfl
  | some outcome => exact same _ _ (ensures state _ _ started ran)

theorem Ensures.weaken {stronger : Evaluation σ → Prop} {weaker : α → Evaluation σ → Prop}
    (ensures : Ensures before act after) (strong : ∀ state, stronger state → before state)
    (weak : ∀ result state, after result state → weaker result state) :
    Ensures stronger act weaker := by
  intro start result finish started ran
  exact weak _ _ (ensures start result finish (strong start started) ran)

end EvalM

def Act.Keeps (call : Procedure → EvalM σ CallResult) (calm : Evaluation σ → Prop)
    (good : α → Prop) : Act σ α → Evaluation σ → Prop
  | .done result world, state => calm { state with world } ∧ good result
  | .bracket _ world resume, state =>
    calm { state with world } ∧ ∀ answer later, (∀ text ∈ answer, Unmarked text) → calm later →
      (resume answer later.world).Keeps call calm good later
  | .call procedure world resume, state =>
    ∀ answer later, (call procedure).run { state with world } = some (answer, later) →
      (resume answer later.world).Keeps call calm good later
  | .cancel world resume, state =>
    (resume world).Keeps call calm good (Evaluation.cancel { state with world })
  | .isCancelled world resume, state =>
    (resume state.isCancelled world).Keeps call calm good { state with world }

/-- Everything that filling does beside putting texts together keeps `calm`, and where `calm` holds
the resolvers and the attributes give good values. -/
structure Vocabulary.Keeps (vocabulary : Vocabulary σ) (calm : Evaluation σ → Prop)
    (good : String → Prop) : Prop where
  caches : ∀ state pieces chains, calm state → calm { state with pieces, chains }
  report : ∀ state context message, calm state →
    calm { state with world := vocabulary.report context message state.world }
  note : ∀ state level text, calm state →
    calm { state with world := vocabulary.note level text state.world }
  resolve : ∀ resolver ∈ vocabulary.resolvers, ∀ lookup state, calm state →
    (resolver.resolve lookup state.world).Keeps vocabulary.call calm
      (fun answer => ∀ resolved ∈ answer, good resolved.value) state
  apply : ∀ handler ∈ vocabulary.attributes, ∀ value lookup position state, good value →
    calm state → (handler.apply value lookup position state.world).Keeps vocabulary.call calm
      (fun answer => ∀ resolved ∈ answer, good resolved.value) state

def Memo.AllUnmarked (memo : Memo) : Prop := ∀ filled ∈ memo, Unmarked filled.2

open EvalM (Ensures)

section

variable {vocabulary : Vocabulary σ} {calm : Evaluation σ → Prop} {good : String → Prop}
  {fill : String → EvalM σ String} {lookup : Lookup} {memo : Memo}

theorem readBracket_ensures (fills : ∀ text, EvalM.Keeps calm (fill text))
    (unmarked : memo.AllUnmarked) (position : Nat) :
    Ensures calm (readBracket fill lookup memo position) fun outcome state =>
      calm state ∧ (∀ text ∈ outcome.1, Unmarked text) ∧ Memo.AllUnmarked outcome.2 := by
  unfold readBracket
  split
  · exact .pure fun state started => ⟨started, by simp, unmarked⟩
  · split
    · rename_i text held
      refine .pure fun state started => ⟨started, ?_, unmarked⟩
      obtain ⟨before, after, split, _⟩ := List.lookup_eq_some_iff.1 held
      have member : (position, text) ∈ memo := by simp [split]
      simpa using unmarked _ member
    · refine .bind (fills _) fun rendered => .pure fun state started => ⟨started, ?_, ?_⟩
      · simp [unmarked_unescape]
      · intro filled member
        rcases List.mem_cons.1 member with rfl | member
        · exact unmarked_unescape rendered
        · exact unmarked filled member

theorem perform_ensures {result : α → Prop} (fills : ∀ text, EvalM.Keeps calm (fill text))
    (act : Act σ α) (unmarked : memo.AllUnmarked) :
    Ensures (act.Keeps vocabulary.call calm result) (perform vocabulary fill lookup act memo)
      fun outcome state => calm state ∧ result outcome.1 ∧ Memo.AllUnmarked outcome.2 := by
  induction act generalizing memo with
  | done found world =>
      intro start outcome finish started ran
      rw [perform, EvalM.run_setWorld_bind] at ran
      obtain ⟨rfl, rfl⟩ := EvalM.run_pure_eq_some.1 ran
      exact ⟨started.1, started.2, unmarked⟩
  | bracket position world resume ih =>
      intro start outcome finish started ran
      rw [perform, EvalM.run_setWorld_bind] at ran
      obtain ⟨⟨answer, filled⟩, later, read, ran⟩ := EvalM.run_bind_eq_some.1 ran
      rw [EvalM.run_world_bind] at ran
      have readKeeps := readBracket_ensures fills unmarked position _ _ _ started.1 read
      exact ih answer later.world readKeeps.2.2 later outcome finish
        (started.2 answer later readKeeps.2.1 readKeeps.1) ran
  | call procedure world resume ih =>
      intro start outcome finish started ran
      rw [perform, EvalM.run_setWorld_bind] at ran
      obtain ⟨answer, later, called, ran⟩ := EvalM.run_bind_eq_some.1 ran
      rw [EvalM.run_world_bind] at ran
      exact ih answer later.world unmarked later outcome finish (started answer later called) ran
  | cancel world resume ih =>
      intro start outcome finish started ran
      rw [perform, EvalM.run_setWorld_bind, EvalM.run_cancel_bind] at ran
      exact ih world unmarked _ outcome finish started ran
  | isCancelled world resume ih =>
      intro start outcome finish started ran
      rw [perform, EvalM.run_setWorld_bind, EvalM.run_isCancelled_bind] at ran
      exact ih _ world unmarked _ outcome finish started ran

def Found (calm : Evaluation σ → Prop) (good : String → Prop) (outcome : Option Resolved × Memo)
    (state : Evaluation σ) : Prop :=
  calm state ∧ (∀ resolved ∈ outcome.1, good resolved.value) ∧ Memo.AllUnmarked outcome.2

theorem resolveBase_ensures (keeps : vocabulary.Keeps calm good)
    (fills : ∀ text, EvalM.Keeps calm (fill text)) (unmarked : memo.AllUnmarked)
    (resolvers : List (Resolver σ)) (known : resolvers ⊆ vocabulary.resolvers) :
    Ensures calm (resolveBase vocabulary fill lookup resolvers memo) (Found calm good) := by
  induction resolvers generalizing memo with
  | nil => exact .pure fun state started => ⟨started, by simp, unmarked⟩
  | cons resolver rest ih =>
      intro start outcome finish started ran
      rw [resolveBase, EvalM.run_world_bind] at ran
      obtain ⟨⟨answer, filled⟩, later, performed, ran⟩ := EvalM.run_bind_eq_some.1 ran
      obtain ⟨calmLater, answerGood, filledUnmarked⟩ := perform_ensures fills _ unmarked _ _ _
        (keeps.resolve resolver (known (by simp)) lookup start started) performed
      dsimp only at ran
      split at ran
      · rename_i resolved counted
        obtain ⟨rfl, rfl⟩ := EvalM.run_pure_eq_some.1 ran
        have given : answer = some resolved := (Option.filter_eq_some_iff.1 counted).1
        exact ⟨calmLater, by simpa [given] using answerGood, filledUnmarked⟩
      · exact ih filledUnmarked (fun _ member => known (by simp [member])) later outcome finish
          calmLater ran

theorem applyAttribute_ensures (keeps : vocabulary.Keeps calm good)
    (fills : ∀ text, EvalM.Keeps calm (fill text)) (unmarked : memo.AllUnmarked) {value : String}
    (valueGood : good value) (position : Nat) (handlers : List (Attribute σ))
    (known : handlers ⊆ vocabulary.attributes) :
    Ensures calm (applyAttribute vocabulary fill lookup value position handlers memo)
      (Found calm good) := by
  induction handlers generalizing memo with
  | nil => exact .pure fun state started => ⟨started, by simp, unmarked⟩
  | cons handler rest ih =>
      intro start outcome finish started ran
      rw [applyAttribute, EvalM.run_world_bind] at ran
      obtain ⟨⟨answer, filled⟩, later, performed, ran⟩ := EvalM.run_bind_eq_some.1 ran
      obtain ⟨calmLater, answerGood, filledUnmarked⟩ := perform_ensures fills _ unmarked _ _ _
        (keeps.apply handler (known (by simp)) value lookup position start valueGood started)
        performed
      dsimp only at ran
      split at ran
      · obtain ⟨rfl, rfl⟩ := EvalM.run_pure_eq_some.1 ran
        exact ⟨calmLater, answerGood, filledUnmarked⟩
      · exact ih filledUnmarked (fun _ member => known (by simp [member])) later outcome finish
          calmLater ran

def Valued (calm : Evaluation σ → Prop) (good : String → Prop) (outcome : Except Failure String)
    (state : Evaluation σ) : Prop :=
  calm state ∧ ∀ value, outcome = .ok value → good value

theorem applyAttributes_ensures (keeps : vocabulary.Keeps calm good)
    (fills : ∀ text, EvalM.Keeps calm (fill text)) (unmarked : memo.AllUnmarked) {value : String}
    (valueGood : good value) (position : Nat) :
    Ensures calm (applyAttributes vocabulary fill lookup value position memo)
      (Valued calm good) := by
  fun_induction applyAttributes vocabulary fill lookup value position memo with
  | case1 value position memo complete =>
      refine .pure fun state started => ⟨started, ?_⟩
      rintro found same
      rw [← Except.ok.inj same]
      exact valueGood
  | case2 value position memo incomplete ih =>
      intro start outcome finish started ran
      rw [EvalM.run_isCancelled_bind] at ran
      split at ran
      · obtain ⟨rfl, rfl⟩ := EvalM.run_pure_eq_some.1 ran
        exact ⟨started, by simp⟩
      · obtain ⟨⟨answer, filled⟩, later, applied, ran⟩ := EvalM.run_bind_eq_some.1 ran
        obtain ⟨calmLater, answerGood, filledUnmarked⟩ := applyAttribute_ensures keeps fills unmarked
          valueGood position _ (List.Subset.refl _) _ _ _ started applied
        dsimp only at ran
        split at ran
        · rename_i next
          split at ran
          · rename_i moved
            exact ih filled next moved filledUnmarked (answerGood next rfl) later outcome finish
              calmLater ran
          · obtain ⟨rfl, rfl⟩ := EvalM.run_pure_eq_some.1 ran
            exact ⟨calmLater, by simp⟩
        · obtain ⟨rfl, rfl⟩ := EvalM.run_pure_eq_some.1 ran
          exact ⟨calmLater, by simp⟩

theorem resolveChain_ensures (keeps : vocabulary.Keeps calm good)
    (fills : ∀ text, EvalM.Keeps calm (fill text)) (lookup : Lookup) :
    Ensures calm (resolveChain vocabulary fill lookup) (Valued calm good) := by
  unfold resolveChain
  split
  · exact .pure fun state started => ⟨started, by simp⟩
  · refine .bind (resolveBase_ensures keeps fills (by simp [Memo.AllUnmarked]) _
      (List.Subset.refl _)) ?_
    rintro ⟨answer, memo⟩
    dsimp only
    split
    · exact .pure fun state found => ⟨found.1, by simp⟩
    · rename_i resolved
      intro start outcome finish found ran
      exact applyAttributes_ensures keeps fills found.2.2 (found.2.1 resolved rfl) _ start outcome
        finish found.1 ran

end

section

variable {vocabulary : Vocabulary σ} {calm : Evaluation σ → Prop} {good : String → Prop}

theorem renderPieces_keeps {resolve : Body → EvalM σ String}
    (resolves : ∀ body, EvalM.Keeps calm (resolve body)) (pieces : List Piece) :
    EvalM.Keeps calm (renderPieces resolve pieces) := by
  induction pieces with
  | nil => exact .pure fun _ started => started
  | cons piece rest ih =>
      cases piece with
      | literal text => exact .bind ih fun _ => .pure fun _ started => started
      | tag body =>
          intro start result finish started ran
          rw [renderPieces, EvalM.run_isCancelled_bind] at ran
          split at ran
          · obtain ⟨rfl, rfl⟩ := EvalM.run_pure_eq_some.1 ran
            exact started
          · have goesOn : EvalM.Keeps calm (do
                let value ← resolve body
                return value ++ (← renderPieces resolve rest)) :=
              .bind (resolves body) fun _ => .bind ih fun _ => .pure fun _ later => later
            exact goesOn start result finish started ran

theorem reportError_keeps (keeps : vocabulary.Keeps calm good) (context : Context)
    (message : String) : EvalM.Keeps calm (vocabulary.reportError context message) := by
  intro start result finish started ran
  obtain ⟨_, rfl⟩ := Prod.mk.inj (Option.some.inj ran)
  exact keeps.report start context _ started

theorem remark_keeps (keeps : vocabulary.Keeps calm good) (level : LogLevel) (text : String) :
    EvalM.Keeps calm (vocabulary.remark level text) := by
  intro start result finish started ran
  obtain ⟨_, rfl⟩ := Prod.mk.inj (Option.some.inj ran)
  exact keeps.note start level text started

theorem run_readPieces (vocabulary : Vocabulary σ) (text : String) (state : Evaluation σ) :
    ∃ remark, (vocabulary.readPieces text).run state =
      some ((state.pieces.lookup pieces text).1.value,
        { state with
          pieces := (state.pieces.lookup pieces text).2
          world := if state.pieces.holds text then state.world
            else vocabulary.note .trace remark state.world }) := by
  have read : (vocabulary.readPieces text).run state = (do
      if !state.pieces.holds text then
        vocabulary.remark .trace
          s!"Parsed template '{text}' into {(state.pieces.lookup pieces text).1.value.length} piece(s)."
      return (state.pieces.lookup pieces text).1.value : EvalM σ (List Piece)).run
        { state with pieces := (state.pieces.lookup pieces text).2 } := by
    rw [← Cache.lookupInTurns_eq]
    rfl
  rw [read]
  cases state.pieces.holds text with
  | true => exact ⟨"", rfl⟩
  | false => exact ⟨_, rfl⟩

theorem readPieces_keeps (keeps : vocabulary.Keeps calm good) (text : String) :
    EvalM.Keeps calm (vocabulary.readPieces text) := by
  intro start result finish started ran
  have cached := keeps.caches start (start.pieces.lookup pieces text).2 start.chains started
  obtain ⟨remark, read⟩ := run_readPieces vocabulary text start
  obtain ⟨_, rfl⟩ := Prod.mk.inj (Option.some.inj (read.symm.trans ran))
  split
  · exact cached
  · exact keeps.note _ _ _ cached

theorem readChain_keeps (keeps : vocabulary.Keeps calm good) (body : String) :
    EvalM.Keeps calm (Vocabulary.readChain body : EvalM σ Chain) := by
  intro start result finish started ran
  obtain ⟨_, rfl⟩ := Prod.mk.inj (Option.some.inj ran)
  exact keeps.caches start start.pieces _ started

theorem renderText_keeps (keeps : vocabulary.Keeps calm good) {resolve : Body → EvalM σ String}
    (resolves : ∀ body, EvalM.Keeps calm (resolve body)) (text : String) :
    EvalM.Keeps calm (renderText vocabulary resolve text) := by
  unfold renderText
  split
  · exact .bind (readPieces_keeps keeps text) fun pieces => renderPieces_keeps resolves pieces
  · exact .pure fun _ started => started

def lookUp (vocabulary : Vocabulary σ) (fill : String → EvalM σ String) (context : Context)
    (depth : Nat) (body : Body) : EvalM σ (Except Failure String) := do
  let lookup ← if body.dynamic then fill body.lookup else pure body.lookup
  let chain ← Vocabulary.readChain lookup
  resolveChain vocabulary fill ⟨chain, depth, context⟩

def withoutValue (vocabulary : Vocabulary σ) (fill : String → EvalM σ String) (context : Context)
    (body : Body) (failure : Failure) : EvalM σ String :=
  match body.fallback with
  | some fallback => do
    vocabulary.remark .trace s!"Tag <{body.lookup}> failed ({failure.message}); using fallback."
    fill fallback
  | none => do
    vocabulary.reportError context
      s!"Tag <{unescape body.raw}> is invalid: {failure.message}"
    return nullText

theorem resolveBody_succ (vocabulary : Vocabulary σ) (context : Context) (limit levels : Nat)
    (body : Body) :
    resolveBody vocabulary context limit (levels + 1) body = (do
      let fill := renderText vocabulary (resolveBody vocabulary context limit levels)
      match ← lookUp vocabulary fill context (limit - levels) body with
      | .ok value => return escape value
      | .error failure => withoutValue vocabulary fill context body failure) := by
  rw [resolveBody]
  unfold lookUp
  split
  · exact ((bind_assoc _ _ _).trans (bind_congr fun _ => bind_assoc _ _ _)).symm
  · exact (bind_assoc _ _ _).symm

theorem lookUp_ensures {fill : String → EvalM σ String} (keeps : vocabulary.Keeps calm good)
    (fills : ∀ text, EvalM.Keeps calm (fill text)) (context : Context) (depth : Nat) (body : Body) :
    Ensures calm (lookUp vocabulary fill context depth body) (Valued calm good) := by
  have chained (lookup : String) : Ensures calm (Vocabulary.readChain lookup >>= fun chain =>
      resolveChain vocabulary fill ⟨chain, depth, context⟩) (Valued calm good) :=
    .bind (readChain_keeps keeps lookup) fun chain => resolveChain_ensures keeps fills _
  unfold lookUp
  split
  · exact .bind (fills _) chained
  · exact chained body.lookup

theorem withoutValue_keeps {fill : String → EvalM σ String} (keeps : vocabulary.Keeps calm good)
    (fills : ∀ text, EvalM.Keeps calm (fill text)) (context : Context) (body : Body)
    (failure : Failure) : EvalM.Keeps calm (withoutValue vocabulary fill context body failure) := by
  unfold withoutValue
  split
  · exact .bind (remark_keeps keeps _ _) fun _ => fills _
  · exact .bind (reportError_keeps keeps _ _) fun _ => .pure fun _ later => later

theorem resolveBody_keeps (keeps : vocabulary.Keeps calm good) (context : Context)
    (limit levels : Nat) (body : Body) :
    EvalM.Keeps calm (resolveBody vocabulary context limit levels body) := by
  induction levels generalizing body with
  | zero => exact .bind (reportError_keeps keeps _ _) fun _ => .pure fun _ started => started
  | succ levels ih =>
      have fills := renderText_keeps keeps ih
      rw [resolveBody_succ]
      refine .bind (lookUp_ensures keeps fills context _ body) fun outcome => ?_
      cases outcome with
      | ok value => exact .pure fun _ valued => valued.1
      | error failure =>
          exact .weaken (withoutValue_keeps keeps fills context body failure)
            (fun _ valued => valued.1) fun _ _ later => later

theorem evaluate_keeps (keeps : vocabulary.Keeps calm good) (context : Context) (text : String) :
    EvalM.Keeps calm (evaluate vocabulary context text) :=
  .bind (renderText_keeps keeps (resolveBody_keeps keeps context _ _) text) fun _ =>
    .pure fun _ filled => filled

theorem modify_keeps {change : Evaluation σ → Evaluation σ}
    (harmless : ∀ state, calm state → calm (change state)) :
    EvalM.Keeps calm (modify change : EvalM σ Unit) := by
  intro start result finish started ran
  obtain ⟨_, rfl⟩ := Prod.mk.inj (Option.some.inj ran)
  exact harmless start started

theorem get_bind_ensures {before : Evaluation σ → Prop} {after : α → Evaluation σ → Prop}
    {next : Evaluation σ → EvalM σ α} (rest : ∀ state, Ensures before (next state) after) :
    Ensures before (get >>= next) after := by
  intro start result finish started ran
  exact rest start start result finish started ran

theorem isCancelled_bind_ensures {before : Evaluation σ → Prop} {after : α → Evaluation σ → Prop}
    {next : Bool → EvalM σ α} (rest : ∀ answer, Ensures before (next answer) after) :
    Ensures before (EvalM.isCancelled >>= next) after := by
  intro start result finish started ran
  exact rest start.isCancelled start result finish started ran

theorem underToken_keeps {filling : EvalM σ α} (fills : EvalM.Keeps calm filling)
    (harmless : ∀ state token, calm state → calm { state with token }) (cancelled : Bool) :
    EvalM.Keeps calm (underToken cancelled filling) :=
  get_bind_ensures fun _ => .bind (modify_keeps fun state => harmless state cancelled) fun _ =>
    .bind fills fun _ => .bind (modify_keeps fun state => harmless state _) fun _ =>
      .pure fun _ filled => filled

theorem evaluateBounded_keeps (keeps : vocabulary.Keeps calm good)
    (harmless : ∀ state bound, calm state → calm { state with bound }) (context : Context)
    (text : String) : EvalM.Keeps calm (evaluateBounded vocabulary context text) := by
  have fills := evaluate_keeps keeps context text
  have gives (value : String) : EvalM.Keeps calm (pure value : EvalM σ String) :=
    .pure fun _ filled => filled
  unfold evaluateBounded
  split
  · exact fills
  · split
    · exact fills
    · refine get_bind_ensures fun state => ?_
      split
      · refine .bind fills fun value => isCancelled_bind_ensures fun cancelled => ?_
        split
        · exact .bind (remark_keeps keeps _ _) fun _ => gives _
        · exact gives _
      · refine .bind (modify_keeps fun state => harmless state _) fun _ => .bind fills fun value =>
          isCancelled_bind_ensures fun cancelled =>
            .bind (modify_keeps fun state => harmless state _) fun _ => ?_
        split
        · exact .bind (reportError_keeps keeps _ _) fun _ => gives _
        · exact gives _

theorem fillArgumentsFrom_keeps (keeps : vocabulary.Keeps calm good)
    (harmless : ∀ state bound, calm state → calm { state with bound }) (context : Context)
    (depth : Nat) (words : List String) :
    EvalM.Keeps calm (fillArgumentsFrom vocabulary context depth words) := by
  induction words generalizing depth with
  | nil => exact .pure fun _ filled => filled
  | cons word rest ih =>
      have goesOn (depth : Nat) (filled : String) : EvalM.Keeps calm (do
          return filled :: (← fillArgumentsFrom vocabulary context depth rest)) :=
        .bind (ih depth) fun _ => .pure fun _ filled => filled
      unfold fillArgumentsFrom
      split
      · exact goesOn _ _
      · split
        · exact goesOn _ _
        · split
          · exact goesOn _ _
          · exact .bind (evaluateBounded_keeps keeps harmless context word) fun _ => goesOn _ _

end

end TagScript.Tag
