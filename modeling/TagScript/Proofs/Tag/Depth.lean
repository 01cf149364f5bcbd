import Mathlib.Order.Filter.AtTopBot.Basic
import TagScript.Proofs.Tag.Compositional
import TagScript.Proofs.Tag.Nesting
import TagScript.Proofs.Tag.Visible

/-! How deep tags are filled. Without a limit, a tag is filled as often as tags stand in tags, and may
never come to an end. With a limit the same is done, but a tag beyond it gives `null` with an error
whatever stands in it. Where no tag stands that deep, the limit makes no difference. -/

namespace TagScript.Tag

open EvalM (Coincide)
open Filter (atTop)

variable {ι σ α β : Type}

def tooDeep (vocabulary : Vocabulary σ) (context : Context) (limit : Nat) (body : Body) :
    EvalM σ String := do
  vocabulary.reportError context s!"Tag <{unescape body.raw}> is nested deeper than {limit} levels."
  return nullText

section

variable (vocabulary : Vocabulary σ) (context : Context) (beyond : Body → EvalM σ String)

def resolveLevels : Nat → Nat → Body → EvalM σ String
  | 0, _ => beyond
  | levels + 1, depth =>
    resolveWith vocabulary context (resolveLevels levels (depth + 1)) depth

/-- Fills a text with so many levels of tags. -/
def evaluateLevels (levels : Nat) (text : String) : EvalM σ String := do
  return unescape (← renderText vocabulary (resolveLevels vocabulary context beyond levels 1) text)

end

theorem resolveBody_eq_resolveLevels (vocabulary : Vocabulary σ) (context : Context)
    {limit levels : Nat} (within : levels ≤ limit) :
    resolveBody vocabulary context limit levels =
      resolveLevels vocabulary context (tooDeep vocabulary context limit) levels
        (limit - levels + 1) := by
  induction levels with
  | zero => rfl
  | succ levels ih =>
      have depths : limit - (levels + 1) + 1 = limit - levels := by omega
      rw [resolveBody_eq_resolveWith, resolveLevels, depths, ← ih (by omega)]

/-! Filling without a limit. -/

namespace EvalM

def Below (act other : EvalM σ α) : Prop :=
  ∀ state outcome, act.run state = some outcome → other.run state = some outcome

def Settles (attempt : Nat → EvalM σ α) (act : EvalM σ α) : Prop :=
  ∀ state, ∀ᶠ levels in atTop, (attempt levels).run state = act.run state

open Classical in
noncomputable def eventually (attempt : Nat → EvalM σ α) : EvalM σ α := fun state =>
  if came : ∃ outcome, ∀ᶠ levels in atTop, (attempt levels).run state = some outcome then
    some came.choose
  else none

theorem settles_eventually {attempt : Nat → EvalM σ α}
    (rising : ∀ levels, Below (attempt levels) (attempt (levels + 1))) :
    Settles attempt (eventually attempt) := by
  intro state
  have kept (outcome : α × Evaluation σ) {levels more : Nat} (enough : levels ≤ more)
      (came : (attempt levels).run state = some outcome) :
      (attempt more).run state = some outcome :=
    Nat.le_induction came (fun more _ came => rising more state outcome came) more enough
  by_cases came : ∃ outcome, ∀ᶠ levels in atTop, (attempt levels).run state = some outcome
  · have chosen : (eventually attempt).run state = some came.choose := dif_pos came
    rw [chosen]
    exact came.choose_spec
  · have nothing : (eventually attempt).run state = none := dif_neg came
    refine Filter.Eventually.of_forall fun levels => ?_
    rw [nothing, Option.eq_none_iff_forall_ne_some]
    intro outcome reached
    exact came ⟨outcome, Filter.eventually_atTop.2 ⟨levels, fun more enough =>
      kept outcome enough reached⟩⟩

end EvalM

open EvalM (Below Settles)

theorem compositional_below (vocabulary : Vocabulary σ) :
    Compositional (.always Bool vocabulary) fun act => Below (act false) (act true) where
  pure _ _ _ ran := ran
  bind first rest state outcome ran := by
    obtain ⟨result, later, ranFirst, ranRest⟩ := EvalM.run_bind_eq_some.1 ran
    exact EvalM.run_bind_eq_some.2
      ⟨result, later, first state _ ranFirst, rest result later outcome ranRest⟩
  isCancelled _ _ ran := ran
  readPieces _ _ _ ran := ran
  readChain _ _ _ ran := ran
  remark _ _ _ _ ran := ran
  reportError _ _ _ _ ran := ran

theorem compositional_settles (vocabulary : Vocabulary σ) :
    Compositional (.always (Option Nat) vocabulary) fun act =>
      Settles (fun levels => act (some levels)) (act none) where
  pure _ _ := .of_forall fun _ => rfl
  bind {_ _ act next} first rest state := by
    cases ran : (act none).run state with
    | none =>
        refine (first state).mono fun levels same => ?_
        rw [StateT.run_bind, StateT.run_bind, same, ran]
        rfl
    | some outcome =>
        refine ((first state).and (rest outcome.1 outcome.2)).mono fun levels same => ?_
        rw [StateT.run_bind, StateT.run_bind, same.1, ran]
        exact same.2
  isCancelled _ := .of_forall fun _ => rfl
  readPieces _ _ := .of_forall fun _ => rfl
  readChain _ _ := .of_forall fun _ => rfl
  remark _ _ _ := .of_forall fun _ => rfl
  reportError _ _ _ := .of_forall fun _ => rfl

section

variable (vocabulary : Vocabulary σ) (context : Context)

def attempt (levels : Nat) : Nat → Body → EvalM σ String :=
  resolveLevels vocabulary context (fun _ => failure) levels

/-- The escaped value of a tag at a depth, however deep it goes. -/
noncomputable def resolveUnlimited (depth : Nat) (body : Body) : EvalM σ String :=
  EvalM.eventually fun levels => attempt vocabulary context levels depth body

noncomputable def evaluateUnlimited (text : String) : EvalM σ String := do
  return unescape (← renderText vocabulary (resolveUnlimited vocabulary context 1) text)

theorem attempt_below (levels depth : Nat) (body : Body) :
    Below (attempt vocabulary context levels depth body)
      (attempt vocabulary context (levels + 1) depth body) := by
  induction levels generalizing depth body with
  | zero =>
      intro state outcome ran
      cases ran
  | succ levels ih =>
      exact (compositional_below vocabulary).resolveWith_always (fun act _ _ ran => ran)
        (fun more body => bif more then attempt vocabulary context (levels + 1) (depth + 1) body
          else attempt vocabulary context levels (depth + 1) body)
        (fun body => ih (depth + 1) body) context depth body

theorem attempt_settles (depth : Nat) (body : Body) :
    Settles (fun levels => attempt vocabulary context levels depth body)
      (resolveUnlimited vocabulary context depth body) :=
  EvalM.settles_eventually fun levels => attempt_below vocabulary context levels depth body

theorem resolveUnlimited_eq (depth : Nat) :
    resolveUnlimited vocabulary context depth =
      resolveWith vocabulary context (resolveUnlimited vocabulary context (depth + 1)) depth := by
  -- With enough levels the attempts have settled on both sides, and there they are the same.
  funext body state
  have settles := (compositional_settles vocabulary).resolveWith_always
    (fun act state => .of_forall fun _ => rfl)
    (fun levels body => levels.elim (resolveUnlimited vocabulary context (depth + 1) body)
      fun levels => attempt vocabulary context levels (depth + 1) body)
    (fun body => attempt_settles vocabulary context (depth + 1) body) context depth body
  have one_more := (Filter.tendsto_add_atTop_nat 1).eventually
    (attempt_settles vocabulary context depth body state)
  obtain ⟨levels, came, same⟩ := (one_more.and (settles state)).exists
  exact came.symm.trans same

theorem resolveUnlimited_eq_resolveLevels (levels depth : Nat) :
    resolveUnlimited vocabulary context depth =
      resolveLevels vocabulary context (resolveUnlimited vocabulary context (depth + levels)) levels
        depth := by
  induction levels generalizing depth with
  | zero => rfl
  | succ levels ih =>
      rw [resolveUnlimited_eq, resolveLevels, ih (depth + 1), Nat.add_right_comm, Nat.add_assoc]

end

/-! Where tags do not stand deeper than the levels that are left, it does not matter what is done
beyond. -/

theorem closes_angles_of_bare {depth : Nat} {text : List Char} (bare : '\\' ∉ text)
    (closes : Closes '<' '>' depth (angles false text)) : Closes '<' '>' depth text := by
  induction text generalizing depth with
  | nil => exact closes
  | cons c rest ih =>
      simp only [List.mem_cons, not_or] at bare
      by_cases isAngle : c = '<' ∨ c = '>'
      · have seen : angles false (c :: rest) = c :: angles false rest := by simp [angles, isAngle]
        rw [seen] at closes
        rcases closes.uncons with ⟨rfl, tail⟩ | ⟨rfl, fewer, rfl, tail⟩ | ⟨notOpening, notClosing, _⟩
        · exact .opens (ih bare.2 tail)
        · exact .closes (ih bare.2 tail)
        · exact absurd isAngle (by simp [notOpening, notClosing])
      · rw [not_or] at isAngle
        rw [angles_of_ne isAngle.1 isAngle.2, decide_eq_false (Ne.symm bare.1)] at closes
        exact .other isAngle.1 isAngle.2 (ih bare.2 closes)

theorem closes_of_tag {text body : List Char} (bare : '\\' ∉ text)
    (member : .tag body ∈ signs text) : Closes '<' '>' 0 body ∧ '\\' ∉ body := by
  fun_induction signs text with
  | case1 => simp at member
  | case2 rest ih | case3 rest ih => simp at bare
  | case4 rest opens found after closed ih =>
      obtain ⟨rfl, closes, _⟩ := closeTag_iff.1 closed
      simp only [List.mem_cons, List.mem_append, not_or] at bare
      rcases List.mem_cons.1 member with same | member
      · rw [Sign.tag.inj same]
        exact ⟨closes_angles_of_bare bare.2.1 closes, bare.2.1⟩
      · exact ih bare.2.2.2 member
  | case5 rest opens unclosed ih | case6 rest opens ih | case7 first rest _ _ _ ih =>
      simp only [List.mem_cons, not_or, reduceCtorEq, false_or] at bare member
      exact ih bare.2 member

theorem wellNested_of_tag {levels : Nat} {text body : List Char} (bare : '\\' ∉ text)
    (nested : nestsWithin (levels + 1) text = true) (member : .tag body ∈ signs text) :
    WellNested levels body :=
  ⟨(closes_of_tag bare member).2, (closes_of_tag bare member).1,
    List.all_eq_true.1 nested body (mem_tagBodies.2 member)⟩

section

variable {vocabulary : Vocabulary σ}
  (calls : ∀ procedure, EvalM.Keeps Evaluation.Faithful (vocabulary.call procedure))

theorem compositional_coincide (vocabulary : Vocabulary σ) :
    Compositional (.always Bool vocabulary) fun act =>
      Coincide (fun _ => True) (act false) (act true) where
  pure _ := .pure trivial
  bind first rest := .bind first fun result _ => rest result
  isCancelled := .isCancelled
  readPieces text := (readPieces_coincide _ text).weaken fun _ _ => trivial
  readChain body := (readChain_coincide body).weaken fun _ _ => trivial
  remark _ _ := .modifyWorld _
  reportError _ _ := .modifyWorld _

include calls

theorem resolveChain_coincide_of_fills {fill refill : String → EvalM σ String} {lookup : Lookup}
    (fills : ∀ text, lookup.chain.Holds text → Coincide (fun _ => True) (fill text) (refill text)) :
    Coincide (fun _ => True) (resolveChain vocabulary fill lookup)
      (resolveChain vocabulary refill lookup) := by
  have performs {α : Type} (act : Act σ α) (memo : Memo) :
      Coincide (fun _ => True) (perform vocabulary fill lookup act memo)
        (perform vocabulary refill lookup act memo) :=
    perform_coincide fills (fun procedure => (calls procedure).coincide) act memo
  have asks : (Vocabularies.always Bool vocabulary).Ask
      (fun act => Coincide (fun _ => True) (act false) (act true))
      (fun again => bif again then refill else fill) lookup := by
    constructor
    · intro resolver member memo
      obtain ⟨one, _, rfl⟩ := List.mem_map.1 member
      simp only [Vocabularies.always_pick, cond_true, cond_false]
      exact .bind .world fun world _ => performs _ memo
    · intro handler member value position memo
      obtain ⟨one, _, rfl⟩ := List.mem_map.1 member
      simp only [Vocabularies.always_pick, cond_true, cond_false]
      exact .bind .world fun world _ => performs _ memo
  simpa only [Vocabularies.always_pick, cond_true, cond_false] using
    (compositional_coincide vocabulary).resolveChain asks

variable {context : Context} {beyond other : Body → EvalM σ String} {levels : Nat}

theorem resolveLevels_coincide {depth : Nat} {raw : List Char}
    (fills : ∀ text : String, WellNested levels text.toList → Coincide AnglesFollowed
      (renderText vocabulary (resolveLevels vocabulary context beyond levels (depth + 1)) text)
      (renderText vocabulary (resolveLevels vocabulary context other levels (depth + 1)) text))
    (nested : WellNested levels raw) :
    Coincide AnglesFollowed
      (resolveLevels vocabulary context beyond (levels + 1) depth
        (Body.ofText (String.ofList raw)))
      (resolveLevels vocabulary context other (levels + 1) depth
        (Body.ofText (String.ofList raw))) := by
  obtain ⟨lookupNested, fallbackNested⟩ := nested.body
  refine .bind (lookUp_coincide fills (fun _ => renderText_coincide_of_unopened)
    (fun chain same => resolveChain_coincide_of_fills calls same) lookupNested) fun outcome _ => ?_
  cases outcome with
  | ok value => exact .pure (anglesFollowed_escape value)
  | error failure => exact withoutValue_coincide fills fallbackNested failure

theorem renderText_levels_coincide (depth : Nat) {text : String}
    (nested : WellNested levels text.toList) :
    Coincide AnglesFollowed
      (renderText vocabulary (resolveLevels vocabulary context beyond levels depth) text)
      (renderText vocabulary (resolveLevels vocabulary context other levels depth) text) := by
  induction levels generalizing depth text with
  | zero =>
      exact (renderText_coincide fun _ member => absurd member nested.no_tag).weaken
        fun _ followed => followed nested.settled
  | succ levels ih =>
      exact (renderText_coincide fun body member =>
        resolveLevels_coincide calls (fun _ => ih (depth + 1)) (nested.tag member)).weaken
          fun _ followed => followed nested.settled

theorem evaluateLevels_coincide {text : String} (bare : '\\' ∉ text.toList)
    (nested : nestsWithin (levels + 1) text.toList = true) :
    Coincide (fun _ => True) (evaluateLevels vocabulary context beyond (levels + 1) text)
      (evaluateLevels vocabulary context other (levels + 1) text) := by
  have filled : Coincide _
      (renderText vocabulary (resolveLevels vocabulary context beyond (levels + 1) 1) text)
      (renderText vocabulary (resolveLevels vocabulary context other (levels + 1) 1) text) :=
    -- The text itself need not be balanced: only its tags are, and that is enough from here on.
    renderText_coincide fun body member => resolveLevels_coincide calls
      (fun _ => renderText_levels_coincide calls 2) (wellNested_of_tag bare nested member)
  exact filled.bind fun _ _ => .pure trivial

end

/-- Filling is filling without a limit, but for the tags at the level behind the limit: each of them
that is reached reports one error and gives `null`, whatever stands in it. A text without backslashes
whose tags stand in one another no deeper than the limit is filled as without one. -/
theorem evaluate_limited (vocabulary : Vocabulary σ) (context : Context) (text : String) :
    evaluate vocabulary context text =
        evaluateLevels vocabulary context (tooDeep vocabulary context depthLimit) depthLimit text ∧
      evaluateUnlimited vocabulary context text =
        evaluateLevels vocabulary context (resolveUnlimited vocabulary context (depthLimit + 1))
          depthLimit text ∧
      (∀ depth, resolveUnlimited vocabulary context depth =
        resolveWith vocabulary context (resolveUnlimited vocabulary context (depth + 1)) depth) ∧
      (∀ body state, (tooDeep vocabulary context depthLimit body).run state = some (nullText,
        { state with world := vocabulary.report context (context.reported
          s!"Tag <{unescape body.raw}> is nested deeper than {depthLimit} levels.") state.world })) ∧
      ('\\' ∉ text.toList → nestsWithin depthLimit text.toList = true →
        (∀ procedure, EvalM.Keeps Evaluation.Faithful (vocabulary.call procedure)) →
        ∀ start, start.Faithful → (evaluate vocabulary context text).run start =
          (evaluateUnlimited vocabulary context text).run start) := by
  have limited : evaluate vocabulary context text =
      evaluateLevels vocabulary context (tooDeep vocabulary context depthLimit) depthLimit text := by
    rw [evaluate, resolveBody_eq_resolveLevels vocabulary context (Nat.le_refl _)]
    rfl
  have unlimited : evaluateUnlimited vocabulary context text =
      evaluateLevels vocabulary context (resolveUnlimited vocabulary context (depthLimit + 1))
        depthLimit text := by
    rw [evaluateUnlimited, resolveUnlimited_eq_resolveLevels vocabulary context depthLimit,
      Nat.add_comm]
    rfl
  refine ⟨limited, unlimited, resolveUnlimited_eq vocabulary context, fun _ _ => rfl, ?_⟩
  intro bare nested calls start faithful
  rw [limited, unlimited]
  exact (evaluateLevels_coincide calls bare nested start faithful).1

theorem evaluate_limited_clumsy :
    nestsWithin depthLimit "<far.x> <stuck||<element[<gone>].stall>>".toList = true ∧
      (evaluate clumsyVocabulary {} "<far.x> <stuck||<element[<gone>].stall>>").run (.fresh []) =
        (evaluateUnlimited clumsyVocabulary {} "<far.x> <stuck||<element[<gone>].stall>>").run
          (.fresh []) := by
  have nested : nestsWithin depthLimit "<far.x> <stuck||<element[<gone>].stall>>".toList = true := by
    decide +kernel
  have calls (procedure : Procedure) :
      EvalM.Keeps Evaluation.Faithful (clumsyVocabulary.call procedure) := by
    intro start result finish _ ran
    cases ran
  obtain ⟨_, _, _, _, same⟩ := evaluate_limited clumsyVocabulary {}
    "<far.x> <stuck||<element[<gone>].stall>>"
  exact ⟨nested, same (by decide) nested calls (.fresh []) (.fresh [])⟩

end TagScript.Tag
