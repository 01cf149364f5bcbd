import Mathlib.Data.List.Nodup
import Mathlib.Data.List.Perm.Subperm
import TagScript.Proofs.Tag.Filling

/-! An account of a filling: each tag that was evaluated, in the order in which they ended, with the
way it ended and the text it left. Keeping it changes nothing. If the resolvers and the attributes
report nothing themselves, then every text can be filled, each tag leaves its value, the filling of
its fallback, or `null`, and the errors are those of the tags that failed without a fallback or stood
too deep, one for each and in their order. -/

namespace TagScript.Tag

variable {σ ε α β γ δ : Type}

inductive Ending where
  | tooDeep
  | lookedUp (chain : Chain) (asked : List Nat) (outcome : Except Failure String)

structure Ended where
  body : Body
  ending : Ending
  text : String

inductive Happening where
  | called (procedure : Procedure)
  | cancelled
  | ended (tag : Ended)

/-- Nothing happens but that tags end. -/
def Undisturbed (happened : List Happening) : Prop :=
  ∀ happening ∈ happened, ∃ tag, happening = .ended tag

theorem Undisturbed.ended {happened : List Happening} (undisturbed : Undisturbed happened)
    (tag : Ended) : Undisturbed (happened ++ [.ended tag]) :=
  List.forall_mem_append.2 ⟨undisturbed, by simp⟩

def Telling (σ α : Type) : Type := EvalM σ (α × List Happening)

namespace Telling

instance : Monad (Telling σ) where
  pure result := (pure (result, []) : EvalM σ _)
  bind {α β} act next := show EvalM σ (β × List Happening) from do
    let (result, told) ← (act : EvalM σ (α × List Happening))
    let (found, more) ← (next result : EvalM σ (β × List Happening))
    return (found, told ++ more)

def silent (act : EvalM σ α) : Telling σ α :=
  show EvalM σ (α × List Happening) from do return (← act, [])

def tell (happening : Happening) : Telling σ Unit :=
  (pure ((), [happening]) : EvalM σ (Unit × List Happening))

/-! Filling, as it is defined for evaluations, with an account of it. -/

def readBracket (fill : String → Telling σ String) (lookup : Lookup) (memo : Memo)
    (position : Nat) : Telling σ (Option String × Memo) :=
  match (lookup.component? position).bind (·.context) with
  | none => pure (none, memo)
  | some raw =>
    match memo.lookup position with
    | some text => pure (some text, memo)
    | none => do
      let text := unescape (← fill raw)
      return (some text, (position, text) :: memo)

def perform (fill : String → Telling σ String) (lookup : Lookup) :
    Act σ α → Memo → Telling σ (α × Memo)
  | .done result world, memo => do
    silent (EvalM.setWorld world)
    return (result, memo)
  | .bracket position world resume, memo => do
    silent (EvalM.setWorld world)
    let (answer, memo) ← readBracket fill lookup memo position
    let world ← silent EvalM.world
    perform fill lookup (resume answer world) memo
  | .call procedure world resume, memo => do
    silent (EvalM.setWorld world)
    tell (.called procedure)
    perform fill lookup (resume (.error (.unknownScript procedure.script)) world) memo
  | .cancel world resume, memo => do
    silent (EvalM.setWorld world)
    tell .cancelled
    perform fill lookup (resume world) memo
  | .isCancelled world resume, memo => do
    silent (EvalM.setWorld world)
    let answer ← silent EvalM.isCancelled
    perform fill lookup (resume answer world) memo

def resolveBase (fill : String → Telling σ String) (lookup : Lookup) :
    List (Resolver σ) → Memo → Telling σ (Option Resolved × Memo)
  | [], memo => pure (none, memo)
  | resolver :: rest, memo => do
    let world ← silent EvalM.world
    let (answer, memo) ← perform fill lookup (resolver.resolve lookup world) memo
    match answer.filter (0 < ·.position) with
    | some resolved => return (some resolved, memo)
    | none => resolveBase fill lookup rest memo

def applyAttribute (fill : String → Telling σ String) (lookup : Lookup) (value : String)
    (position : Nat) : List (Attribute σ) → Memo → Telling σ (Option Resolved × Memo)
  | [], memo => pure (none, memo)
  | handler :: rest, memo => do
    let world ← silent EvalM.world
    let (answer, memo) ← perform fill lookup (handler.apply value lookup position world) memo
    match answer with
    | some resolved => return (some resolved, memo)
    | none => applyAttribute fill lookup value position rest memo

def applyAttributes (vocabulary : Vocabulary σ) (fill : String → Telling σ String)
    (lookup : Lookup) (value : String) (position : Nat) (memo : Memo) :
    Telling σ (List Nat × Except Failure String) :=
  if lookup.size ≤ position then pure ([], .ok value)
  else do
    if ← silent EvalM.isCancelled then return ([], .error .cancelled)
    let (answer, memo) ← applyAttribute fill lookup value position vocabulary.attributes memo
    match answer with
    | some next =>
      if position < next.position then do
        let (asked, outcome) ←
          applyAttributes vocabulary fill lookup next.value next.position memo
        return (position :: asked, outcome)
      else return ([position], .error (.unknownAttribute ((lookup.key? position).getD "")))
    | none => return ([position], .error (.unknownAttribute ((lookup.key? position).getD "")))
termination_by lookup.size - position

def resolveChain (vocabulary : Vocabulary σ) (fill : String → Telling σ String)
    (lookup : Lookup) : Telling σ (List Nat × Except Failure String) :=
  if lookup.chain.components.isEmpty || Text.isBlankText lookup.chain.raw then
    pure ([], .error .empty)
  else do
    let (answer, memo) ← resolveBase fill lookup vocabulary.resolvers []
    match answer with
    | none => return ([], .error (.unrecognised ((lookup.key? 0).getD "")))
    | some resolved =>
      applyAttributes vocabulary fill lookup resolved.value resolved.position memo

def renderPieces (resolve : Body → Telling σ String) : List Piece → Telling σ String
  | [] => pure ""
  | .literal text :: rest => do return text ++ (← renderPieces resolve rest)
  | .tag body :: rest => do
    if ← silent EvalM.isCancelled then return ""
    let value ← resolve body
    return value ++ (← renderPieces resolve rest)

def renderText (vocabulary : Vocabulary σ) (resolve : Body → Telling σ String) (text : String) :
    Telling σ String :=
  if mayHoldTags text then do
    renderPieces resolve (← silent (vocabulary.readPieces text))
  else pure text

def lookUp (vocabulary : Vocabulary σ) (fill : String → Telling σ String) (context : Context)
    (depth : Nat) (body : Body) : Telling σ (Ending × Except Failure String) := do
  let lookup ← if body.dynamic then fill body.lookup else pure body.lookup
  let chain ← silent (Vocabulary.readChain lookup)
  let (asked, outcome) ← resolveChain vocabulary fill ⟨chain, depth, context⟩
  return (.lookedUp chain asked outcome, outcome)

def settle (vocabulary : Vocabulary σ) (fill : String → Telling σ String) (context : Context)
    (body : Body) (ending : Ending) : Except Failure String → Telling σ String
  | .ok value => do
    tell (.ended ⟨body, ending, escape value⟩)
    return escape value
  | .error failure =>
    match body.fallback with
    | some fallback => do
      silent (vocabulary.remark .trace
        s!"Tag <{body.lookup}> failed ({failure.message}); using fallback.")
      let text ← fill fallback
      tell (.ended ⟨body, ending, text⟩)
      return text
    | none => do
      silent (vocabulary.reportError context
        s!"Tag <{unescape body.raw}> is invalid: {failure.message}")
      tell (.ended ⟨body, ending, nullText⟩)
      return nullText

def resolveBody (vocabulary : Vocabulary σ) (context : Context) (limit : Nat) :
    Nat → Body → Telling σ String
  | 0, body => do
    silent (vocabulary.reportError context
      s!"Tag <{unescape body.raw}> is nested deeper than {limit} levels.")
    tell (.ended ⟨body, .tooDeep, nullText⟩)
    return nullText
  | levels + 1, body => do
    let fill := renderText vocabulary (resolveBody vocabulary context limit levels)
    let (ending, outcome) ← lookUp vocabulary fill context (limit - levels) body
    settle vocabulary fill context body ending outcome

def evaluate (vocabulary : Vocabulary σ) (context : Context) (text : String) :
    Telling σ String := do
  return unescape
    (← renderText vocabulary (resolveBody vocabulary context depthLimit depthLimit) text)

end Telling

def settle (vocabulary : Vocabulary σ) (fill : String → EvalM σ String) (context : Context)
    (body : Body) : Except Failure String → EvalM σ String
  | .ok value => pure (escape value)
  | .error failure => withoutValue vocabulary fill context body failure

theorem resolveBody_settle (vocabulary : Vocabulary σ) (context : Context) (limit levels : Nat)
    (body : Body) :
    resolveBody vocabulary context limit (levels + 1) body = (do
      let fill := renderText vocabulary (resolveBody vocabulary context limit levels)
      let outcome ← lookUp vocabulary fill context (limit - levels) body
      settle vocabulary fill context body outcome) := by
  rw [resolveBody_succ]
  congr

/-! What an account has to say of a tag. -/

structure Advancing (size : Nat) (asked : List Nat) : Prop where
  ascending : asked.Pairwise (· < ·)
  within : ∀ position ∈ asked, 0 < position ∧ position < size

theorem Advancing.length_le {size : Nat} {asked : List Nat} (advancing : Advancing size asked) :
    asked.length ≤ size := by
  have distinct : asked.Nodup := advancing.ascending.imp fun less => Nat.ne_of_lt less
  have bounded : asked ⊆ List.range size := fun position member =>
    List.mem_range.2 (advancing.within position member).2
  simpa using (List.subperm_of_subset distinct bounded).length_le

def Ended.Left (vocabulary : Vocabulary σ) (context : Context) (limit : Nat) (tag : Ended) : Prop :=
  match tag.ending with
  | .tooDeep => tag.text = nullText
  | .lookedUp chain asked outcome =>
    Advancing chain.components.length asked ∧ asked.length ≤ chain.components.length ∧
      match outcome, tag.body.fallback with
      | .ok value, _ => tag.text = escape value
      | .error _, none => tag.text = nullText
      | .error _, some fallback => ∃ levels before after,
          (renderText vocabulary (resolveBody vocabulary context limit levels) fallback).run before =
            some (tag.text, after)

/-- What is told of a tag is what resolving its body came to. -/
structure Ended.Sound (vocabulary : Vocabulary σ) (context : Context) (limit : Nat) (tag : Ended) :
    Prop where
  resolved : ∃ levels before after,
    (resolveBody vocabulary context limit levels tag.body).run before = some (tag.text, after)
  left : tag.Left vocabulary context limit

def Ended.complaint? (limit : Nat) (tag : Ended) : Option String :=
  match tag.ending, tag.body.fallback with
  | .tooDeep, _ => some s!"Tag <{unescape tag.body.raw}> is nested deeper than {limit} levels."
  | .lookedUp _ _ (.error failure), none =>
    some s!"Tag <{unescape tag.body.raw}> is invalid: {failure.message}"
  | .lookedUp _ _ _, _ => none

def Happening.complaint? (limit : Nat) : Happening → Option String
  | .called _ | .cancelled => none
  | .ended tag => tag.complaint? limit

def Context.reported (context : Context) (message : String) : String :=
  match context.entry with
  | some entry => s!"{message} (while filling '{entry}')"
  | none => message

/-- An act that reports nothing, whatever it is answered. Only if it is free it calls procedures or
cancels. -/
inductive Act.Quiet (free : Bool) (errors : σ → List ε) : List ε → Act σ α → Prop
  | done {result : α} {world : σ} : Quiet free errors (errors world) (.done result world)
  | bracket {position : Nat} {world : σ} {resume : Option String → σ → Act σ α}
      (rest : ∀ answer later, Quiet free errors (errors later) (resume answer later)) :
      Quiet free errors (errors world) (.bracket position world resume)
  | call {procedure : Procedure} {world : σ} {resume : CallResult → σ → Act σ α}
      (isFree : free = true)
      (rest : ∀ answer later, Quiet free errors (errors later) (resume answer later)) :
      Quiet free errors (errors world) (.call procedure world resume)
  | cancel {world : σ} {resume : σ → Act σ α} (isFree : free = true)
      (rest : Quiet free errors (errors world) (resume world)) :
      Quiet free errors (errors world) (.cancel world resume)
  | isCancelled {world : σ} {resume : Bool → σ → Act σ α}
      (rest : ∀ answer, Quiet free errors (errors world) (resume answer world)) :
      Quiet free errors (errors world) (.isCancelled world resume)

/-- The errors of a world are those reported to it, as `said` writes them down, and no others. -/
structure Vocabulary.Quiet (free : Bool) (vocabulary : Vocabulary σ) (errors : σ → List ε)
    (said : Context → String → ε) : Prop where
  report : ∀ context message world,
    errors (vocabulary.report context message world) = errors world ++ [said context message]
  note : ∀ level text world, errors (vocabulary.note level text world) = errors world
  resolve : ∀ resolver ∈ vocabulary.resolvers, ∀ lookup world,
    (resolver.resolve lookup world).Quiet free errors (errors world)
  apply : ∀ handler ∈ vocabulary.attributes, ∀ value lookup position world,
    (handler.apply value lookup position world).Quiet free errors (errors world)

/-- Whose tags are filled where, and where errors are found. -/
structure Setting (σ ε : Type) where
  vocabulary : Vocabulary σ
  context : Context
  limit : Nat
  errors : σ → List ε
  said : Context → String → ε
  /-- Whether its tags may call procedures and cancel. -/
  free : Bool

namespace Setting

variable {setting : Setting σ ε}

structure Told (setting : Setting σ ε) (happened : List Happening) (before after : Evaluation σ) :
    Prop where
  uncancelled : after.isCancelled = false
  sound : ∀ tag, .ended tag ∈ happened → tag.Sound setting.vocabulary setting.context setting.limit
  errors : setting.errors after.world = setting.errors before.world ++
    (happened.filterMap (·.complaint? setting.limit)).map fun message =>
      setting.said setting.context (setting.context.reported message)

theorem Told.append {happened more : List Happening} {before between after : Evaluation σ}
    (first : setting.Told happened before between) (second : setting.Told more between after) :
    setting.Told (happened ++ more) before after where
  uncancelled := second.uncancelled
  sound tag member := (List.mem_append.1 member).elim (first.sound tag) (second.sound tag)
  errors := by rw [second.errors, first.errors, List.filterMap_append, List.map_append,
    List.append_assoc]

def Accounts (setting : Setting σ ε) (act : Telling σ α) (real : EvalM σ γ) (seen : α → γ)
    (before : Evaluation σ) (expected : α → Prop) : Prop :=
  ∃ result happened after, (act : EvalM σ (α × List Happening)).run before =
      some ((result, happened), after) ∧ expected result ∧
    (setting.free = false → Undisturbed happened) ∧
    (before.isCancelled = false → Undisturbed happened →
      real.run before = some (seen result, after) ∧ setting.Told happened before after)

namespace Accounts

variable {act : Telling σ α} {real : EvalM σ γ} {seen : α → γ} {before : Evaluation σ}
  {expected : α → Prop}

theorem pure {result : α} {found : γ} (holds : expected result)
    (same : found = seen result) :
    setting.Accounts (Pure.pure result) (Pure.pure found) seen before expected :=
  ⟨result, [], before, rfl, holds, fun _ => by simp [Undisturbed], fun uncancelled _ =>
    ⟨by rw [same]; rfl, uncancelled, by simp, by simp⟩⟩

theorem bind {next : α → Telling σ β} {realNext : γ → EvalM σ δ} {seenNext : β → δ}
    {wanted : β → Prop} (first : setting.Accounts act real seen before expected)
    (rest : ∀ result after, expected result →
      setting.Accounts (next result) (realNext (seen result)) seenNext after wanted) :
    setting.Accounts (act >>= next) (real >>= realNext) seenNext before wanted := by
  obtain ⟨result, happened, between, ran, holds, calm, right⟩ := first
  obtain ⟨found, more, after, ranNext, wantedFound, calmNext, rightNext⟩ := rest result between holds
  refine ⟨found, happened ++ more, after, ?_, wantedFound,
    fun bound => List.forall_mem_append.2 ⟨calm bound, calmNext bound⟩,
    fun uncancelled undisturbed => ?_⟩
  · exact EvalM.run_bind_eq_some.2
      ⟨(result, happened), between, ran, EvalM.run_bind_eq_some.2 ⟨(found, more), after, ranNext, rfl⟩⟩
  · obtain ⟨first, second⟩ := List.forall_mem_append.1 undisturbed
    obtain ⟨ranReal, told⟩ := right uncancelled first
    obtain ⟨ranRealNext, toldNext⟩ := rightNext told.uncancelled second
    exact ⟨EvalM.run_bind_eq_some.2 ⟨_, between, ranReal, ranRealNext⟩, told.append toldNext⟩

theorem weaken {wanted : α → Prop} (accounts : setting.Accounts act real seen before expected)
    (weak : ∀ result, expected result → wanted result) :
    setting.Accounts act real seen before wanted := by
  obtain ⟨result, happened, after, ran, holds, right⟩ := accounts
  exact ⟨result, happened, after, ran, weak result holds, right⟩

theorem map {found : α → β} {seenNext : β → γ} {wanted : β → Prop}
    (accounts : setting.Accounts act real seen before expected)
    (holds : ∀ result, expected result → wanted (found result))
    (same : ∀ result, seen result = seenNext (found result)) :
    setting.Accounts (act >>= fun result => Pure.pure (found result)) real seenNext before wanted := by
  rw [← bind_pure real]
  exact accounts.bind fun result _ expected => .pure (holds result expected) (same result)

theorem silent_bind {act : EvalM σ α} {next : α → Telling σ β} {realNext : α → EvalM σ δ}
    {seenNext : β → δ} {wanted : β → Prop} {result : α} {later : Evaluation σ}
    (ran : act.run before = some (result, later)) (untouched : later.isCancelled = before.isCancelled)
    (unsaid : setting.errors later.world = setting.errors before.world)
    (rest : setting.Accounts (next result) (realNext result) seenNext later wanted) :
    setting.Accounts (Telling.silent act >>= next) (act >>= realNext) seenNext before wanted := by
  obtain ⟨found, happened, after, ranNext, holds, calm, right⟩ := rest
  refine ⟨found, happened, after, ?_, holds, calm, fun uncancelled undisturbed => ?_⟩
  · refine EvalM.run_bind_eq_some.2 ⟨(result, []), later, ?_, ?_⟩
    · exact EvalM.run_bind_eq_some.2 ⟨result, later, ran, rfl⟩
    · exact EvalM.run_bind_eq_some.2 ⟨(found, happened), after, ranNext, rfl⟩
  · obtain ⟨ranReal, told⟩ := right (untouched.trans uncancelled) undisturbed
    exact ⟨EvalM.run_bind_eq_some.2 ⟨result, later, ran, ranReal⟩, told.uncancelled, told.sound,
      by rw [told.errors, unsaid]⟩

theorem disturbed_bind {happening : Happening} {next : Telling σ α} {other : EvalM σ γ}
    (isFree : setting.free = true) (disturbs : ∀ tag, happening ≠ .ended tag)
    (rest : setting.Accounts next real seen before expected) :
    setting.Accounts (do Telling.tell happening; next) other seen before expected := by
  obtain ⟨result, happened, after, ran, holds, _⟩ := rest
  refine ⟨result, happening :: happened, after, ?_, holds,
    fun bound => absurd (isFree.symm.trans bound) (by decide), fun _ undisturbed => ?_⟩
  · refine EvalM.run_bind_eq_some.2 ⟨((), [happening]), before, rfl, ?_⟩
    exact EvalM.run_bind_eq_some.2 ⟨(result, happened), after, ran, rfl⟩
  · obtain ⟨tag, same⟩ := undisturbed happening List.mem_cons_self
    exact absurd same (disturbs tag)

end Accounts

section

variable {fill : String → Telling σ String} {realFill : String → EvalM σ String}
  (fills : ∀ raw before, setting.Accounts (fill raw) (realFill raw) id before fun _ => True)
  {lookup : Lookup}

include fills

theorem readBracket_accounts (memo : Memo) (position : Nat) (before : Evaluation σ) :
    setting.Accounts (Telling.readBracket fill lookup memo position)
      (readBracket realFill lookup memo position) id before fun _ => True := by
  unfold Telling.readBracket readBracket
  cases (lookup.component? position).bind (·.context) with
  | none => exact .pure trivial rfl
  | some raw =>
      cases memo.lookup position with
      | some text => exact .pure trivial rfl
      | none => exact .bind (fills raw before) fun _ _ _ => .pure trivial rfl

theorem perform_accounts {known : List ε} {act : Act σ α}
    (quiet : act.Quiet setting.free setting.errors known) (memo : Memo) {before : Evaluation σ}
    (same : setting.errors before.world = known) :
    setting.Accounts (Telling.perform fill lookup act memo)
      (perform setting.vocabulary realFill lookup act memo) id before fun _ => True := by
  induction quiet generalizing memo before with
  | done => exact .silent_bind rfl rfl same.symm (.pure trivial rfl)
  | bracket rest ih =>
      refine .silent_bind rfl rfl same.symm ?_
      refine .bind (readBracket_accounts fills memo _ _) fun outcome after _ => ?_
      exact .silent_bind rfl rfl rfl (ih _ _ _ rfl)
  | call isFree rest ih =>
      exact .silent_bind rfl rfl same.symm (.disturbed_bind isFree (by simp) (ih _ _ _ rfl))
  | cancel isFree rest ih =>
      exact .silent_bind rfl rfl same.symm (.disturbed_bind isFree (by simp) (ih _ rfl))
  | isCancelled rest ih =>
      exact .silent_bind rfl rfl same.symm (.silent_bind rfl rfl rfl (ih _ _ rfl))

variable (quiet : setting.vocabulary.Quiet setting.free setting.errors setting.said)

include quiet

theorem resolveBase_accounts (resolvers : List (Resolver σ))
    (known : resolvers ⊆ setting.vocabulary.resolvers) (memo : Memo) (before : Evaluation σ) :
    setting.Accounts (Telling.resolveBase fill lookup resolvers memo)
      (resolveBase setting.vocabulary realFill lookup resolvers memo) id before
      fun outcome => ∀ resolved ∈ outcome.1, 0 < resolved.position := by
  induction resolvers generalizing memo before with
  | nil => exact .pure (by simp) rfl
  | cons resolver rest ih =>
      have acts := quiet.resolve resolver (known (by simp)) lookup before.world
      refine .silent_bind rfl rfl rfl (.bind (perform_accounts fills acts memo rfl) ?_)
      rintro ⟨answer, memo⟩ after _
      dsimp only [id]
      cases counted : answer.filter (0 < ·.position) with
      | some resolved =>
          have moved := (Option.filter_eq_some_iff.1 counted).2
          exact .pure (by simpa using moved) rfl
      | none => exact ih (fun _ member => known (by simp [member])) memo after

theorem applyAttribute_accounts (value : String) (position : Nat) (handlers : List (Attribute σ))
    (known : handlers ⊆ setting.vocabulary.attributes) (memo : Memo) (before : Evaluation σ) :
    setting.Accounts (Telling.applyAttribute fill lookup value position handlers memo)
      (applyAttribute setting.vocabulary realFill lookup value position handlers memo) id before
      fun _ => True := by
  induction handlers generalizing memo before with
  | nil => exact .pure trivial rfl
  | cons handler rest ih =>
      have acts := quiet.apply handler (known (by simp)) value lookup position before.world
      refine .silent_bind rfl rfl rfl (.bind (perform_accounts fills acts memo rfl) ?_)
      rintro ⟨answer, memo⟩ after _
      cases answer with
      | some resolved => exact .pure trivial rfl
      | none => exact ih (fun _ member => known (by simp [member])) memo after

def Ahead (size position : Nat) (asked : List Nat) : Prop :=
  asked.Pairwise (· < ·) ∧ ∀ later ∈ asked, position ≤ later ∧ later < size

theorem applyAttributes_accounts (value : String) (position : Nat) (memo : Memo)
    (before : Evaluation σ) :
    setting.Accounts (Telling.applyAttributes setting.vocabulary fill lookup value position memo)
      (applyAttributes setting.vocabulary realFill lookup value position memo) Prod.snd before
      fun outcome => Ahead lookup.size position outcome.1 := by
  fun_induction Telling.applyAttributes setting.vocabulary fill lookup value position memo
    generalizing before with
  | case1 value position memo complete =>
      rw [applyAttributes, if_pos complete]
      exact .pure (by simp [Ahead]) rfl
  | case2 value position memo incomplete ih =>
      rw [applyAttributes, if_neg incomplete]
      refine .silent_bind rfl rfl rfl ?_
      split
      · exact .pure (by simp [Ahead]) rfl
      · refine .bind (applyAttribute_accounts fills quiet value position _ (List.Subset.refl _) memo
          before) ?_
        rintro ⟨answer, memo⟩ after _
        have here : Ahead lookup.size position [position] := by
          simpa [Ahead] using incomplete
        cases answer with
        | none => exact .pure here rfl
        | some next =>
            dsimp only [id]
            by_cases moved : position < next.position
            · simp only [if_pos moved]
              refine (ih memo next moved after).map (fun outcome ahead => ?_) fun _ => rfl
              obtain ⟨ascending, within⟩ := ahead
              refine ⟨List.pairwise_cons.2 ⟨fun later member => ?_, ascending⟩, ?_⟩
              · have bound := within later member
                omega
              · rintro later (_ | ⟨_, member⟩)
                · omega
                · have bound := within later member
                  omega
            · simp only [if_neg moved]
              exact .pure here rfl

theorem resolveChain_accounts (lookup : Lookup) (before : Evaluation σ) :
    setting.Accounts (Telling.resolveChain setting.vocabulary fill lookup)
      (resolveChain setting.vocabulary realFill lookup) Prod.snd before
      fun outcome => Advancing lookup.size outcome.1 := by
  unfold Telling.resolveChain resolveChain
  split
  · exact .pure ⟨by simp, by simp⟩ rfl
  · refine .bind (resolveBase_accounts fills quiet _ (List.Subset.refl _) [] before) ?_
    rintro ⟨answer, memo⟩ after moved
    cases answer with
    | none => exact .pure ⟨by simp, by simp⟩ rfl
    | some resolved =>
        have begins : 0 < resolved.position := moved resolved rfl
        refine (applyAttributes_accounts fills quiet _ _ _ _).weaken fun outcome ahead =>
          ⟨ahead.1, fun position member => ?_⟩
        have bound := ahead.2 position member
        exact ⟨by omega, bound.2⟩

end

theorem renderPieces_accounts {resolve : Body → Telling σ String}
    {realResolve : Body → EvalM σ String}
    (resolves : ∀ body before, setting.Accounts (resolve body) (realResolve body) id before
      fun _ => True) (pieces : List Piece) (before : Evaluation σ) :
    setting.Accounts (Telling.renderPieces resolve pieces) (renderPieces realResolve pieces) id before
      fun _ => True := by
  induction pieces generalizing before with
  | nil => exact .pure trivial rfl
  | cons piece rest ih =>
      cases piece with
      | literal text => exact .bind (ih before) fun _ _ _ => .pure trivial rfl
      | tag body =>
          refine .silent_bind rfl rfl rfl ?_
          split
          · exact .pure trivial rfl
          · exact .bind (resolves body before) fun _ after _ => .bind (ih after) fun _ _ _ =>
              .pure trivial rfl

section

variable (quiet : setting.vocabulary.Quiet setting.free setting.errors setting.said)

include quiet

theorem readPieces_silent (text : String) (before : Evaluation σ) :
    ∃ found later, (setting.vocabulary.readPieces text).run before = some (found, later) ∧
      later.isCancelled = before.isCancelled ∧
      setting.errors later.world = setting.errors before.world := by
  obtain ⟨remark, read⟩ := run_readPieces setting.vocabulary text before
  refine ⟨_, _, read, rfl, ?_⟩
  dsimp only
  split
  · rfl
  · exact quiet.note _ _ _

theorem renderText_accounts {resolve : Body → Telling σ String}
    {realResolve : Body → EvalM σ String}
    (resolves : ∀ body before, setting.Accounts (resolve body) (realResolve body) id before
      fun _ => True) (text : String) (before : Evaluation σ) :
    setting.Accounts (Telling.renderText setting.vocabulary resolve text)
      (renderText setting.vocabulary realResolve text) id before fun _ => True := by
  unfold Telling.renderText renderText
  split
  · obtain ⟨pieces, later, ran, untouched, unsaid⟩ := readPieces_silent quiet text before
    exact .silent_bind ran untouched unsaid (renderPieces_accounts resolves pieces later)
  · exact .pure trivial rfl

def LookedUp (outcome : Ending × Except Failure String) : Prop :=
  ∃ chain asked, outcome.1 = .lookedUp chain asked outcome.2 ∧
    Advancing chain.components.length asked

theorem lookUp_accounts {fill : String → Telling σ String} {realFill : String → EvalM σ String}
    (fills : ∀ raw before, setting.Accounts (fill raw) (realFill raw) id before fun _ => True)
    (depth : Nat) (body : Body) (before : Evaluation σ) :
    setting.Accounts (Telling.lookUp setting.vocabulary fill setting.context depth body)
      (lookUp setting.vocabulary realFill setting.context depth body) Prod.snd before LookedUp := by
  have chained (lookup : String) (before : Evaluation σ) : setting.Accounts
      (do
        let chain ← Telling.silent (Vocabulary.readChain lookup)
        let (asked, outcome) ←
          Telling.resolveChain setting.vocabulary fill ⟨chain, depth, setting.context⟩
        return (Ending.lookedUp chain asked outcome, outcome))
      (do
        let chain ← Vocabulary.readChain lookup
        resolveChain setting.vocabulary realFill ⟨chain, depth, setting.context⟩)
      Prod.snd before LookedUp :=
    .silent_bind rfl rfl rfl ((resolveChain_accounts fills quiet _ _).map
      (fun outcome advancing => ⟨_, outcome.1, rfl, advancing⟩) fun _ => rfl)
  unfold Telling.lookUp lookUp
  split
  · exact .bind (fills _ before) fun lookup after _ => chained lookup after
  · have here : setting.Accounts (pure body.lookup) (pure body.lookup) id before fun _ => True :=
      .pure trivial rfl
    exact here.bind fun lookup after _ => chained lookup after

omit quiet in
theorem Told.ended {happened : List Happening} {before after final : Evaluation σ} {tag : Ended}
    (told : setting.Told happened before after) (untouched : final.isCancelled = after.isCancelled)
    (sound : tag.Sound setting.vocabulary setting.context setting.limit)
    (errors : setting.errors final.world = setting.errors after.world ++
      (tag.complaint? setting.limit).toList.map fun message =>
        setting.said setting.context (setting.context.reported message)) :
    setting.Told (happened ++ [.ended tag]) before final := by
  refine told.append ⟨untouched.trans told.uncancelled, fun ended member => ?_, ?_⟩
  · obtain rfl : ended = tag := by simpa using member
    exact sound
  · rw [errors]
    cases complained : tag.complaint? setting.limit <;> simp [Happening.complaint?, complained]

omit quiet in
theorem Told.nothing {before : Evaluation σ} (uncancelled : before.isCancelled = false) :
    setting.Told [] before before :=
  ⟨uncancelled, by simp, by simp⟩

theorem settle_accounts {levels : Nat}
    (fills : ∀ raw before, setting.Accounts
      (Telling.renderText setting.vocabulary
        (Telling.resolveBody setting.vocabulary setting.context setting.limit levels) raw)
      (renderText setting.vocabulary
        (resolveBody setting.vocabulary setting.context setting.limit levels) raw) id before
      fun _ => True)
    (body : Body) {chain : Chain} {asked : List Nat}
    (advancing : Advancing chain.components.length asked) (outcome : Except Failure String)
    (before : Evaluation σ) :
    ∃ text happened after,
      (Telling.settle setting.vocabulary (Telling.renderText setting.vocabulary
          (Telling.resolveBody setting.vocabulary setting.context setting.limit levels)) setting.context body
          (.lookedUp chain asked outcome) outcome).run before = some ((text, happened), after) ∧
      (setting.free = false → Undisturbed happened) ∧
      (before.isCancelled = false → Undisturbed happened →
        (settle setting.vocabulary (renderText setting.vocabulary
          (resolveBody setting.vocabulary setting.context setting.limit levels)) setting.context body
          outcome).run before = some (text, after) ∧
        ((∃ levels before after, (resolveBody setting.vocabulary setting.context setting.limit levels
            body).run before = some (text, after)) → setting.Told happened before after)) := by
  cases outcome with
  | ok value =>
      refine ⟨escape value, [.ended ⟨body, .lookedUp chain asked (.ok value), escape value⟩], before,
        rfl, fun _ => by simp [Undisturbed], fun uncancelled _ => ⟨rfl, fun resolved => ?_⟩⟩
      exact (Told.nothing uncancelled).ended rfl ⟨resolved, advancing, advancing.length_le, rfl⟩
        (by simp [Ended.complaint?])
  | error failure =>
      unfold Telling.settle settle withoutValue
      dsimp only
      cases fallen : body.fallback with
      | none =>
          refine ⟨nullText, [.ended ⟨body, .lookedUp chain asked (.error failure), nullText⟩], _, rfl,
            fun _ => by simp [Undisturbed], fun uncancelled _ => ⟨rfl, fun resolved => ?_⟩⟩
          refine (Told.nothing uncancelled).ended rfl ⟨resolved, advancing, advancing.length_le, ?_⟩ ?_
          · simp [fallen]
          · simp only [Ended.complaint?, fallen]
            exact quiet.report setting.context (setting.context.reported _) before.world
      | some fallback =>
          -- the remark on the fallback is none of the errors
          have noted := quiet.note .trace
            s!"Tag <{body.lookup}> failed ({failure.message}); using fallback." before.world
          obtain ⟨text, happened, after, ran, _, calm, right⟩ := fills fallback { before with
            world := setting.vocabulary.note .trace
              s!"Tag <{body.lookup}> failed ({failure.message}); using fallback." before.world }
          refine ⟨text, happened ++ [.ended ⟨body, .lookedUp chain asked (.error failure), text⟩],
            after, ?_, fun bound => (calm bound).ended _, fun uncancelled undisturbed => ?_⟩
          · refine EvalM.run_bind_eq_some.2 ⟨((), []), _, rfl, ?_⟩
            refine EvalM.run_bind_eq_some.2 ⟨(text, happened ++ [_]), after, ?_, rfl⟩
            exact EvalM.run_bind_eq_some.2 ⟨(text, happened), after, ran, rfl⟩
          · obtain ⟨ranReal, told⟩ := right uncancelled (List.forall_mem_append.1 undisturbed).1
            refine ⟨ranReal, fun resolved => ?_⟩
            have toldHere : setting.Told happened before after :=
              ⟨told.uncancelled, told.sound, told.errors.trans (by rw [noted])⟩
            refine toldHere.ended rfl ⟨resolved, advancing, advancing.length_le, ?_⟩ ?_
            · simp only [fallen]
              exact ⟨levels, _, after, ranReal⟩
            · simp [Ended.complaint?, fallen]

theorem resolveBody_accounts (levels : Nat) (body : Body) (before : Evaluation σ) :
    setting.Accounts
      (Telling.resolveBody setting.vocabulary setting.context setting.limit levels body)
      (resolveBody setting.vocabulary setting.context setting.limit levels body) id before
      fun _ => True := by
  induction levels generalizing body before with
  | zero =>
      refine ⟨nullText, [.ended ⟨body, .tooDeep, nullText⟩], _, rfl, trivial,
        fun _ => by simp [Undisturbed], fun uncancelled _ =>
        ⟨rfl, (Told.nothing uncancelled).ended rfl ⟨⟨0, before, _, rfl⟩, rfl⟩ ?_⟩⟩
      exact quiet.report setting.context (setting.context.reported _) before.world
  | succ levels ih =>
      have fills := renderText_accounts quiet ih
      obtain ⟨⟨ending, outcome⟩, happened, between, ran, ⟨chain, asked, same, advancing⟩, calm,
        right⟩ := lookUp_accounts quiet fills (setting.limit - levels) body before
      obtain rfl : ending = .lookedUp chain asked outcome := same
      obtain ⟨text, more, after, ranOn, calmOn, rightOn⟩ :=
        settle_accounts quiet fills body advancing outcome between
      refine ⟨text, happened ++ more, after, ?_, trivial,
        fun bound => List.forall_mem_append.2 ⟨calm bound, calmOn bound⟩,
        fun uncancelled undisturbed => ?_⟩
      · exact EvalM.run_bind_eq_some.2 ⟨_, between, ran, EvalM.run_bind_eq_some.2 ⟨_, after, ranOn, rfl⟩⟩
      · obtain ⟨inside, behind⟩ := List.forall_mem_append.1 undisturbed
        obtain ⟨ranReal, told⟩ := right uncancelled inside
        obtain ⟨ranRealOn, toldOn⟩ := rightOn told.uncancelled behind
        have whole : (resolveBody setting.vocabulary setting.context setting.limit (levels + 1) body).run
            before = some (text, after) := by
          rw [resolveBody_settle]
          exact EvalM.run_bind_eq_some.2 ⟨outcome, between, ranReal, ranRealOn⟩
        exact ⟨whole, told.append (toldOn ⟨_, _, _, whole⟩)⟩

theorem evaluate_accounts (limit_eq : setting.limit = depthLimit) (text : String)
    (before : Evaluation σ) :
    setting.Accounts (Telling.evaluate setting.vocabulary setting.context text)
      (evaluate setting.vocabulary setting.context text) id before fun _ => True := by
  have resolves := resolveBody_accounts quiet depthLimit
  rw [limit_eq] at resolves
  exact (renderText_accounts quiet resolves text before).bind fun _ _ _ => .pure trivial rfl

end

end Setting

/-- Every text can be filled with an account of its tags, and unless one of them calls a procedure or
cancels, filling the text comes to just that: each tag in the account leaves its value, the filling of
its fallback, or `null`, having asked for attributes at one position behind the other, and what was
reported is the errors of the tags in the account, in their order. -/
theorem evaluate_accounted {vocabulary : Vocabulary σ} {free : Bool} {errors : σ → List ε}
    {said : Context → String → ε} (quiet : vocabulary.Quiet free errors said) (context : Context)
    (text : String) (before : Evaluation σ) (uncancelled : before.isCancelled = false) :
    ∃ result happened after,
      (Telling.evaluate vocabulary context text : EvalM σ _).run before =
        some ((result, happened), after) ∧
      (free = false → Undisturbed happened) ∧
      (Undisturbed happened →
        (evaluate vocabulary context text).run before = some (result, after) ∧
        (∀ tag, .ended tag ∈ happened → tag.Sound vocabulary context depthLimit) ∧
        errors after.world = errors before.world ++
          (happened.filterMap (·.complaint? depthLimit)).map fun message =>
            said context (context.reported message)) := by
  let setting : Setting σ ε := ⟨vocabulary, context, depthLimit, errors, said, free⟩
  obtain ⟨result, happened, after, ran, _, calm, right⟩ :=
    setting.evaluate_accounts quiet rfl text before
  refine ⟨result, happened, after, ran, calm, fun undisturbed => ?_⟩
  obtain ⟨ranReal, told⟩ := right uncancelled undisturbed
  exact ⟨ranReal, told.sound, told.errors⟩

def clumsyVocabulary : Vocabulary (List String) where
  resolvers :=
    [⟨"stuck", fun lookup => if lookup.keyIs 0 "stuck" then pure ⟨"stuck", 0⟩ else failure⟩,
      ⟨"far", fun lookup => if lookup.keyIs 0 "far" then pure ⟨"far", 9⟩ else failure⟩,
      ⟨"element", fun lookup =>
        if lookup.keyIs 0 "element" then do return ⟨← Answering.bracket 0, 1⟩ else failure⟩]
  attributes := [⟨fun value lookup position =>
    if lookup.keyIs position "stall" then pure ⟨value, position⟩ else pure ⟨value, position + 9⟩⟩]
  report := fun _ message world => world ++ [message]
  note := fun _ _ world => world
  call := fun _ => failure
  timeout := none

theorem clumsyVocabulary_quiet : clumsyVocabulary.Quiet false id fun _ message => message where
  report _ _ _ := rfl
  note _ _ _ := rfl
  resolve resolver known lookup world := by
    simp only [clumsyVocabulary, List.mem_cons, List.not_mem_nil, or_false] at known
    rcases known with rfl | rfl | rfl
    · dsimp only
      split <;> exact .done
    · dsimp only
      split <;> exact .done
    · dsimp only
      split
      · exact .bracket fun answer later => by cases answer <;> exact .done
      · exact .done
  apply handler known value lookup position world := by
    obtain rfl := List.mem_singleton.1 known
    dsimp only
    split <;> exact .done

theorem evaluate_accounted_clumsy :
    (Evaluation.mk .empty .empty false none ([] : List String)).isCancelled = false ∧
      ∃ (result : String) (happened : List Happening) (after : Evaluation (List String)),
        (evaluate clumsyVocabulary {} "<far.x> <stuck||<element[<gone>].stall>> <>").run
          (Evaluation.mk .empty .empty false none []) = some (result, after) ∧
        (∀ tag, .ended tag ∈ happened → tag.Sound clumsyVocabulary {} depthLimit) ∧
        after.world = happened.filterMap (·.complaint? depthLimit) := by
  obtain ⟨result, happened, after, _, calm, right⟩ := evaluate_accounted clumsyVocabulary_quiet {}
    "<far.x> <stuck||<element[<gone>].stall>> <>" (.mk .empty .empty false none []) rfl
  obtain ⟨ran, sound, errors⟩ := right (calm rfl)
  refine ⟨rfl, result, happened, after, ran, sound, ?_⟩
  simpa [Context.reported] using errors

end TagScript.Tag
