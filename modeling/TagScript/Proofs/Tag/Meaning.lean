import TagScript.Proofs.Tag.Bracketed
import TagScript.Proofs.Tag.Lossless
import TagScript.Proofs.Tag.Yield

/-! What a text comes to where the world has no say. If the answers of the resolvers and attributes
depend only on the keys of a chain and on the filled texts in its brackets, every text comes to one
and the same text from any state in which nothing was cancelled. -/

namespace TagScript.Tag

variable {σ α β : Type}

/-- Nothing was cancelled, and the caches hold what was read. -/
structure Evaluation.Calm (state : Evaluation σ) : Prop where
  faithful : state.Faithful
  uncancelled : state.isCancelled = false

theorem Evaluation.Calm.with_world {state : Evaluation σ} (calm : state.Calm) (world : σ) :
    Evaluation.Calm { state with world } :=
  ⟨⟨calm.faithful.pieces, calm.faithful.chains⟩, calm.uncancelled⟩

namespace EvalM

def Attains (act : EvalM σ α) (expected : α → Prop) : Prop :=
  ∀ start, start.Calm →
    ∃ result later, act.run start = some (result, later) ∧ expected result ∧ later.Calm

namespace Attains

variable {act : EvalM σ α} {expected : α → Prop}

theorem pure {result : α} (holds : expected result) : Attains (pure result : EvalM σ α) expected :=
  fun start calm => ⟨result, start, rfl, holds, calm⟩

theorem bind {next : α → EvalM σ β} {wanted : β → Prop} (first : Attains act expected)
    (rest : ∀ result, expected result → Attains (next result) wanted) :
    Attains (act >>= next) wanted := by
  intro start calm
  obtain ⟨result, later, ran, holds, still⟩ := first start calm
  obtain ⟨final, finish, goesOn, done, calmly⟩ := rest result holds later still
  exact ⟨final, finish, run_bind_eq_some.2 ⟨result, later, ran, goesOn⟩, done, calmly⟩

theorem weaken {wanted : α → Prop} (attains : Attains act expected)
    (weak : ∀ result, expected result → wanted result) : Attains act wanted := by
  intro start calm
  obtain ⟨result, later, ran, holds, still⟩ := attains start calm
  exact ⟨result, later, ran, weak result holds, still⟩

theorem world : Attains (EvalM.world : EvalM σ σ) fun _ => True :=
  fun start calm => ⟨start.world, start, rfl, trivial, calm⟩

theorem modifyWorld (change : σ → σ) : Attains (EvalM.modifyWorld change) fun _ => True :=
  fun _ calm => ⟨(), _, rfl, trivial, calm.with_world _⟩

theorem setWorld (world : σ) : Attains (EvalM.setWorld world) fun _ => True :=
  fun _ calm => ⟨(), _, rfl, trivial, calm.with_world world⟩

theorem isCancelled : Attains (EvalM.isCancelled : EvalM σ Bool) (· = false) :=
  fun start calm => ⟨false, start, by rw [← calm.uncancelled]; rfl, rfl, calm⟩

theorem readPieces (vocabulary : Vocabulary σ) (text : String) :
    Attains (vocabulary.readPieces text) (· = pieces text) := by
  intro start calm
  obtain ⟨later, ran, faithful, sameToken, sameBound, _⟩ :=
    readPieces_run vocabulary text calm.faithful
  refine ⟨_, later, ran, rfl, faithful, ?_⟩
  rw [Evaluation.isCancelled, sameToken, sameBound]
  exact calm.uncancelled

theorem readChain (body : String) :
    Attains (Vocabulary.readChain body : EvalM σ Chain) (· = Chain.parse body) := by
  intro start calm
  obtain ⟨later, ran, faithful, sameToken, sameBound, _⟩ := readChain_run body calm.faithful
  refine ⟨_, later, ran, rfl, faithful, ?_⟩
  rw [Evaluation.isCancelled, sameToken, sameBound]
  exact calm.uncancelled

end Attains

end EvalM

open EvalM (Attains)

/-! Functional resolvers and attributes. -/

/-- An act that comes to this result if these are the brackets, whatever becomes of the world. It
neither calls nor cancels. -/
inductive Act.Gives (filled : List Component) : Act σ α → α → Prop
  | done (result : α) (world : σ) : Gives filled (.done result world) result
  | bracket {position : Nat} {world : σ} {resume : Option String → σ → Act σ α} {result : α}
      (rest : ∀ later, Gives filled (resume (filled[position]?.bind (·.context)) later) result) :
      Gives filled (.bracket position world resume) result
  | isCancelled {world : σ} {resume : Bool → σ → Act σ α} {result : α}
      (rest : ∀ later, Gives filled (resume false later) result) :
      Gives filled (.isCancelled world resume) result

def Component.outline (component : Component) : String × Bool :=
  (component.key, component.context.isSome)

def Component.Bare (component : Component) : Prop :=
  '\\' ∉ component.key.toList ∧ ∀ text ∈ component.context, '\\' ∉ text.toList

/-- What the resolvers and attributes answer in this context depends only on the keys and the filled
brackets of a chain, and without a backslash in these there is none in the answer. -/
structure Vocabulary.Functional (vocabulary : Vocabulary σ) (context : Context) : Prop where
  resolve : ∀ resolver ∈ vocabulary.resolvers, ∀ filled : List Component,
    ∃ answer : Option Resolved,
      ((∀ component ∈ filled, component.Bare) → ∀ resolved ∈ answer, '\\' ∉ resolved.value.toList) ∧
      ∀ chain depth world, chain.components.map Component.outline = filled.map Component.outline →
        Act.Gives filled ((resolver.resolve ⟨chain, depth, context⟩).run world) answer
  apply : ∀ handler ∈ vocabulary.attributes, ∀ (filled : List Component) value position,
    ∃ answer : Option Resolved,
      ((∀ component ∈ filled, component.Bare) → '\\' ∉ value.toList →
        ∀ resolved ∈ answer, '\\' ∉ resolved.value.toList) ∧
      ∀ chain depth world, chain.components.map Component.outline = filled.map Component.outline →
        Act.Gives filled ((handler.apply value ⟨chain, depth, context⟩ position).run world) answer

def filledText (value : List Char → List Char) (text : String) : String :=
  if '<' ∈ text.toList then String.ofList (shown value text.toList) else text

def Component.filled (value : List Char → List Char) (component : Component) : Component where
  key := component.key
  context := component.context.map fun raw => unescape (filledText value raw)

def Lookup.filled (value : List Char → List Char) (lookup : Lookup) : List Component :=
  lookup.chain.components.map (Component.filled value)

theorem outline_filled (value : List Char → List Char) (chain : Chain) (depth : Nat)
    (context : Context) : chain.components.map Component.outline =
      (Lookup.filled value ⟨chain, depth, context⟩).map Component.outline := by
  simp [Lookup.filled, Component.filled, Component.outline]

theorem size_filled {value : List Char → List Char} {lookup : Lookup} {filled : List Component}
    (shows : lookup.filled value = filled) : lookup.size = filled.length := by
  simp [← shows, Lookup.filled, Lookup.size]

theorem key?_filled {value : List Char → List Char} {lookup : Lookup} {filled : List Component}
    {position : Nat} (shows : lookup.filled value = filled) :
    lookup.key? position = filled[position]?.map (·.key) := by
  rw [← shows, Lookup.filled, Lookup.key?, Lookup.component?, List.getElem?_map, Option.map_map]
  rfl

def Memo.Right (filled : List Component) (memo : Memo) : Prop :=
  ∀ position text, memo.lookup position = some text →
    filled[position]?.bind (·.context) = some text

section

variable {value : List Char → List Char} {fill : String → EvalM σ String}
  (fills : ∀ text, (fill text).Attains (· = filledText value text))

include fills

theorem readBracket_attains {lookup : Lookup} {memo : Memo} (right : memo.Right (lookup.filled value))
    (position : Nat) :
    (readBracket fill lookup memo position).Attains fun found =>
      found.1 = (lookup.filled value)[position]?.bind (·.context) ∧
        found.2.Right (lookup.filled value) := by
  have known : (lookup.filled value)[position]?.bind (·.context) =
      ((lookup.component? position).bind (·.context)).map fun raw =>
        unescape (filledText value raw) := by
    rw [Lookup.filled, List.getElem?_map, Lookup.component?]
    cases lookup.chain.components[position]? <;> rfl
  rw [known]
  unfold readBracket
  split
  · rename_i missing
    exact .pure ⟨by rw [missing]; rfl, right⟩
  · rename_i raw found
    split
    · rename_i text held
      have filledBefore := right position text held
      rw [known] at filledBefore
      exact .pure ⟨filledBefore.symm, right⟩
    · refine .bind (fills raw) ?_
      rintro _ rfl
      refine .pure ⟨by rw [found]; rfl, ?_⟩
      intro other text holds
      rw [List.lookup_cons] at holds
      split at holds
      · rename_i same
        obtain rfl : other = position := by simpa using same
        rw [known, found, ← holds]
        rfl
      · exact right other text holds

theorem Act.Gives.attains {vocabulary : Vocabulary σ} {lookup : Lookup} {act : Act σ α} {result : α}
    (gives : act.Gives (lookup.filled value) result) {memo : Memo}
    (right : memo.Right (lookup.filled value)) :
    (perform vocabulary fill lookup act memo).Attains fun found =>
      found.1 = result ∧ found.2.Right (lookup.filled value) := by
  induction gives generalizing memo with
  | done result world => exact .bind (.setWorld world) fun _ _ => .pure ⟨rfl, right⟩
  | @bracket position world resume result _ ih =>
      refine .bind (.setWorld world) fun _ _ => .bind (readBracket_attains fills right position) ?_
      rintro ⟨answer, memo⟩ ⟨rfl, rightAfter⟩
      exact .bind .world fun later _ => ih later rightAfter
  | @isCancelled world resume result _ ih =>
      refine .bind (.setWorld world) fun _ _ => .bind .isCancelled ?_
      rintro _ rfl
      exact ih world right

variable {vocabulary : Vocabulary σ} {context : Context} (functional : vocabulary.Functional context)

include functional

theorem resolveBase_attains (filled : List Component) (resolvers : List (Resolver σ))
    (known : resolvers ⊆ vocabulary.resolvers) :
    ∃ answer : Option Resolved,
      ((∀ component ∈ filled, component.Bare) → ∀ resolved ∈ answer, '\\' ∉ resolved.value.toList) ∧
      ∀ chain depth memo, Lookup.filled value ⟨chain, depth, context⟩ = filled → memo.Right filled →
        (resolveBase vocabulary fill ⟨chain, depth, context⟩ resolvers memo).Attains fun found =>
          found.1 = answer ∧ found.2.Right filled := by
  induction resolvers with
  | nil => exact ⟨none, by simp, fun _ _ memo _ right => .pure ⟨rfl, right⟩⟩
  | cons resolver rest ih =>
      obtain ⟨later, bareLater, attainsLater⟩ := ih fun _ member => known (by simp [member])
      obtain ⟨answer, bareAnswer, gives⟩ := functional.resolve resolver (known (by simp)) filled
      have asks (chain : Chain) (depth : Nat) (memo : Memo) (world : σ)
          (shows : Lookup.filled value ⟨chain, depth, context⟩ = filled) (right : memo.Right filled) :
          (perform vocabulary fill ⟨chain, depth, context⟩
            ((resolver.resolve ⟨chain, depth, context⟩).run world) memo).Attains fun found =>
              found.1 = answer ∧ found.2.Right filled := by
        subst shows
        exact (gives chain depth world (outline_filled value chain depth context)).attains fills right
      cases counts : answer.filter (0 < ·.position) with
      | some resolved =>
          refine ⟨some resolved, ?_, fun chain depth memo shows right =>
            .bind .world fun world _ => .bind (asks chain depth memo world shows right) ?_⟩
          · rintro bare _ ⟨⟩
            exact bareAnswer bare resolved (Option.filter_eq_some_iff.1 counts).1
          · rintro ⟨_, memo⟩ ⟨rfl, rightAfter⟩
            simp only [counts]
            exact .pure ⟨rfl, rightAfter⟩
      | none =>
          refine ⟨later, bareLater, fun chain depth memo shows right =>
            .bind .world fun world _ => .bind (asks chain depth memo world shows right) ?_⟩
          rintro ⟨_, memo⟩ ⟨rfl, rightAfter⟩
          simp only [counts]
          exact attainsLater chain depth memo shows rightAfter

theorem applyAttribute_attains (filled : List Component) (base : String) (position : Nat)
    (handlers : List (Attribute σ)) (known : handlers ⊆ vocabulary.attributes) :
    ∃ answer : Option Resolved,
      ((∀ component ∈ filled, component.Bare) → '\\' ∉ base.toList →
        ∀ resolved ∈ answer, '\\' ∉ resolved.value.toList) ∧
      ∀ chain depth memo, Lookup.filled value ⟨chain, depth, context⟩ = filled → memo.Right filled →
        (applyAttribute vocabulary fill ⟨chain, depth, context⟩ base position handlers memo).Attains
          fun found => found.1 = answer ∧ found.2.Right filled := by
  induction handlers with
  | nil => exact ⟨none, by simp, fun _ _ memo _ right => .pure ⟨rfl, right⟩⟩
  | cons handler rest ih =>
      obtain ⟨later, bareLater, attainsLater⟩ := ih fun _ member => known (by simp [member])
      obtain ⟨answer, bareAnswer, gives⟩ :=
        functional.apply handler (known (by simp)) filled base position
      have asks (chain : Chain) (depth : Nat) (memo : Memo) (world : σ)
          (shows : Lookup.filled value ⟨chain, depth, context⟩ = filled) (right : memo.Right filled) :
          (perform vocabulary fill ⟨chain, depth, context⟩
            ((handler.apply base ⟨chain, depth, context⟩ position).run world) memo).Attains
              fun found => found.1 = answer ∧ found.2.Right filled := by
        subst shows
        exact (gives chain depth world (outline_filled value chain depth context)).attains fills right
      cases answer with
      | some resolved =>
          refine ⟨some resolved, bareAnswer, fun chain depth memo shows right =>
            .bind .world fun world _ => .bind (asks chain depth memo world shows right) ?_⟩
          rintro ⟨_, memo⟩ ⟨rfl, rightAfter⟩
          exact .pure ⟨rfl, rightAfter⟩
      | none =>
          refine ⟨later, bareLater, fun chain depth memo shows right =>
            .bind .world fun world _ => .bind (asks chain depth memo world shows right) ?_⟩
          rintro ⟨_, memo⟩ ⟨rfl, rightAfter⟩
          exact attainsLater chain depth memo shows rightAfter

theorem applyAttributes_attains (filled : List Component) (base : String) (position : Nat) :
    ∃ outcome : Except Failure String,
      ((∀ component ∈ filled, component.Bare) → '\\' ∉ base.toList →
        ∀ text, outcome = .ok text → '\\' ∉ text.toList) ∧
      ∀ chain depth memo, Lookup.filled value ⟨chain, depth, context⟩ = filled → memo.Right filled →
        (applyAttributes vocabulary fill ⟨chain, depth, context⟩ base position memo).Attains
          (· = outcome) := by
  -- each attribute accounts for components, so fewer of them are left
  generalize left : filled.length - position = count
  induction count using Nat.strongRecOn generalizing base position with
  | ind count ih =>
      by_cases complete : filled.length ≤ position
      · refine ⟨.ok base, ?_, fun chain depth memo shows right => ?_⟩
        · rintro _ bare _ ⟨⟩
          exact bare
        · rw [applyAttributes, if_pos (by rwa [size_filled shows])]
          exact .pure rfl
      · obtain ⟨answer, bareAnswer, asks⟩ := applyAttribute_attains fills functional filled base
          position vocabulary.attributes (List.Subset.refl _)
        have stops (failed : ∀ next ∈ answer, ¬ position < next.position) :
            ∀ chain depth memo, Lookup.filled value ⟨chain, depth, context⟩ = filled →
              memo.Right filled →
              (applyAttributes vocabulary fill ⟨chain, depth, context⟩ base position memo).Attains
                (· = .error (.unknownAttribute ((filled[position]?.map (·.key)).getD ""))) := by
          intro chain depth memo shows right
          rw [applyAttributes, if_neg (by rwa [size_filled shows])]
          refine .bind .isCancelled ?_
          rintro _ rfl
          refine .bind (asks chain depth memo shows right) ?_
          rintro ⟨found, memo⟩ ⟨rfl, rightAfter⟩
          rw [← key?_filled shows]
          cases found with
          | none => exact .pure rfl
          | some next =>
              simp only [failed next rfl]
              exact .pure rfl
        by_cases moves : ∃ next ∈ answer, position < next.position
        · obtain ⟨next, rfl, moved⟩ := moves
          obtain ⟨outcome, bareOutcome, goesOn⟩ := ih _ (by omega) next.value next.position rfl
          refine ⟨outcome, fun bare bareBase => bareOutcome bare (bareAnswer bare bareBase next rfl),
            fun chain depth memo shows right => ?_⟩
          rw [applyAttributes, if_neg (by rwa [size_filled shows])]
          refine .bind .isCancelled ?_
          rintro _ rfl
          refine .bind (asks chain depth memo shows right) ?_
          rintro ⟨_, memo⟩ ⟨rfl, rightAfter⟩
          simp only [moved]
          exact goesOn chain depth memo shows rightAfter
        · refine ⟨_, by simp, stops fun next member => ?_⟩
          exact fun moved => moves ⟨next, member, moved⟩

theorem resolveChain_attains (filled : List Component) :
    ∃ outcome : Except Failure String,
      ((∀ component ∈ filled, component.Bare) → ∀ text, outcome = .ok text → '\\' ∉ text.toList) ∧
      ∀ chain depth, Text.isBlankText chain.raw = false →
        Lookup.filled value ⟨chain, depth, context⟩ = filled →
        (resolveChain vocabulary fill ⟨chain, depth, context⟩).Attains (· = outcome) := by
  cases filled with
  | nil =>
      refine ⟨.error .empty, by simp, fun chain depth _ shows => ?_⟩
      have none_there : chain.components = [] := List.map_eq_nil_iff.1 shows
      rw [resolveChain, if_pos (by simp [none_there])]
      exact .pure rfl
  | cons first others =>
      obtain ⟨answer, bareAnswer, asks⟩ := resolveBase_attains fills functional (first :: others)
        vocabulary.resolvers (List.Subset.refl _)
      have unempty (chain : Chain) (depth : Nat) (filling : Text.isBlankText chain.raw = false)
          (shows : Lookup.filled value ⟨chain, depth, context⟩ = first :: others) :
          ¬ (chain.components.isEmpty || Text.isBlankText chain.raw) = true := by
        cases components : chain.components with
        | nil => simp [Lookup.filled, components] at shows
        | cons component rest => simp [filling]
      have none_held : Memo.Right (first :: others) [] := by simp [Memo.Right]
      cases answer with
      | none =>
          refine ⟨.error (.unrecognised first.key), by simp, fun chain depth filling shows => ?_⟩
          rw [resolveChain, if_neg (unempty chain depth filling shows)]
          refine .bind (asks chain depth [] shows none_held) ?_
          rintro ⟨_, memo⟩ ⟨rfl, _⟩
          have key : (Lookup.key? 0 ⟨chain, depth, context⟩).getD "" = first.key := by
            rw [key?_filled shows]
            rfl
          rw [← key]
          exact .pure rfl
      | some resolved =>
          obtain ⟨outcome, bareOutcome, goesOn⟩ := applyAttributes_attains fills functional
            (first :: others) resolved.value resolved.position
          refine ⟨outcome, fun bare => bareOutcome bare (bareAnswer bare resolved rfl),
            fun chain depth filling shows => ?_⟩
          rw [resolveChain, if_neg (unempty chain depth filling shows)]
          refine .bind (asks chain depth [] shows none_held) ?_
          rintro ⟨_, memo⟩ ⟨rfl, rightAfter⟩
          exact goesOn chain depth memo shows rightAfter

end

/-! Texts, and the tags in them. -/

theorem renderPieces_attains {resolve : Body → EvalM σ String} {value : List Char → List Char}
    (resolves : ∀ body, (resolve (Body.ofText (String.ofList body))).Attains
      (· = String.ofList (value body))) (read : List Sign) :
    (renderPieces resolve (piecesFrom [] read)).Attains (· = String.ofList (putIn value read)) := by
  induction read with
  | nil => exact .pure rfl
  | cons sign rest ih =>
      cases sign with
      | plain c =>
          rw [show Sign.plain c :: rest = [c].map .plain ++ rest from rfl, renderPieces_plain]
          refine .bind ih ?_
          rintro _ rfl
          exact .pure String.ofList_append.symm
      | tag body =>
          refine .bind .isCancelled ?_
          rintro _ rfl
          refine .bind (resolves body) ?_
          rintro _ rfl
          refine .bind ih ?_
          rintro _ rfl
          exact .pure String.ofList_append.symm

theorem renderText_attains (vocabulary : Vocabulary σ) {resolve : Body → EvalM σ String}
    {value : List Char → List Char}
    (resolves : ∀ body, (resolve (Body.ofText (String.ofList body))).Attains
      (· = String.ofList (value body))) (text : String) :
    (renderText vocabulary resolve text).Attains (· = filledText value text) := by
  unfold renderText filledText
  simp only [mayHoldTags_iff]
  split
  · refine .bind (.readPieces vocabulary text) ?_
    rintro _ rfl
    exact renderPieces_attains resolves (signs text.toList)
  · exact .pure rfl

/-! Without a backslash in a text there is none in what is read of it, nor in what it comes to. -/

theorem bare_of_mem_signs {text : List Char} (bare : '\\' ∉ text) :
    .plain '\\' ∉ signs text ∧ ∀ body, .tag body ∈ signs text → '\\' ∉ body := by
  fun_induction signs text with
  | case1 => simp
  | case2 rest ih | case3 rest ih => simp at bare
  | case4 rest opens body after closed ih =>
      rw [closeTag_split closed] at bare
      simp only [List.mem_cons, List.mem_append, not_or] at bare
      have later := ih bare.2.2.2
      simp_all
  | case5 rest _ _ ih | case6 rest _ ih | case7 c rest _ _ _ ih =>
      simp only [List.mem_cons, not_or] at bare
      have later := ih bare.2
      simp_all

theorem shown_bare {value : List Char → List Char} (bares : ∀ body, '\\' ∉ body → '\\' ∉ value body)
    {text : List Char} (bare : '\\' ∉ text) : '\\' ∉ shown value text := by
  obtain ⟨noPlain, bareBody⟩ := bare_of_mem_signs bare
  rw [shown, putIn, List.mem_flatMap]
  rintro ⟨sign, member, isPart⟩
  cases sign with
  | plain c =>
      obtain rfl := List.mem_singleton.1 isPart
      exact noPlain member
  | tag body => exact bares body (bareBody body member) isPart

theorem filledText_of_bare {value : List Char → List Char} {text : String}
    (bare : '\\' ∉ text.toList) :
    filledText value text = String.ofList (shown value text.toList) := by
  unfold filledText
  split
  · rfl
  · rename_i tagless
    rw [shown_of_tagless, String.ofList_toList]
    rw [signs_of_not_mem tagless, spelled_of_not_hidden (not_hidden_of_not_mem bare)]

theorem eq_backslash_of_unescapeChar {c : Char} (restored : unescapeChar c = '\\') : c = '\\' := by
  have syntaxOnly : ∀ pair ∈ standIns, pair.1 ≠ '\\' := by decide
  cases found : standIns.find? (·.2 == c) with
  | some pair =>
      have same : pair.1 = '\\' := by simpa [unescapeChar, found] using restored
      exact absurd same (syntaxOnly pair (List.mem_of_find?_eq_some found))
  | none => simpa [unescapeChar, found] using restored

theorem unescape_bare {text : String} (bare : '\\' ∉ text.toList) :
    '\\' ∉ (unescape text).toList := by
  simp only [unescape, String.toList_ofList, List.mem_map, not_exists, not_and]
  intro c member restored
  exact bare (eq_backslash_of_unescapeChar restored ▸ member)

theorem parse_bare {body : String} (bare : '\\' ∉ body.toList) :
    ∀ component ∈ (Chain.parse body).components, component.Bare := by
  intro component member
  obtain ⟨segment, isSegment, rfl⟩ := List.mem_map.1 member
  have bareSegment : '\\' ∉ segment := fun inside => bare ((segment_isInfix isSegment).subset inside)
  have written := congrArg String.toList (written_ofSegment segment)
  rw [String.toList_ofList] at written
  rw [← written] at bareSegment
  unfold Component.written at bareSegment
  unfold Component.Bare
  split at bareSegment <;> simp_all

theorem filled_bare {value : List Char → List Char} (bares : ∀ body, '\\' ∉ body → '\\' ∉ value body)
    {component : Component} (bare : component.Bare) : (component.filled value).Bare := by
  refine ⟨bare.1, ?_⟩
  rintro text member
  obtain ⟨raw, isRaw, rfl⟩ := Option.map_eq_some_iff.1 member
  have bareRaw := bare.2 raw isRaw
  rw [filledText_of_bare bareRaw]
  exact unescape_bare (by simpa using shown_bare bares bareRaw)

theorem lookUp_eq (vocabulary : Vocabulary σ) (fill : String → EvalM σ String) (context : Context)
    (depth : Nat) (body : Body) :
    lookUp vocabulary fill context depth body =
      (if body.dynamic then fill body.lookup else pure body.lookup) >>= fun looked =>
        Vocabulary.readChain looked >>= fun chain =>
          resolveChain vocabulary fill ⟨chain, depth, context⟩ := by
  unfold lookUp
  split <;> rfl

def Body.outcomeText (value : List Char → List Char) (body : Body) : Except Failure String → String
  | .ok text => escape text
  | .error _ =>
    match body.fallback with
    | some fallback => filledText value fallback
    | none => nullText

/-- The tags come to these values, each from any calm state. -/
structure Vocabulary.Means (vocabulary : Vocabulary σ) (context : Context) (limit levels : Nat)
    (value : List Char → List Char) : Prop where
  attains : ∀ body, (resolveBody vocabulary context limit levels
    (Body.ofText (String.ofList body))).Attains (· = String.ofList (value body))
  bare : ∀ body, '\\' ∉ body → '\\' ∉ value body
  steady : ∀ body, Bracketed body → '\\' ∉ body → Steady (value body)

theorem escapeChar_not_mem (c : Char) : escapeChar c ∉ ['<', '>', '[', ']'] := by
  have replaced : ∀ pair ∈ standIns, pair.2 ∉ ['<', '>', '[', ']'] := by decide
  cases found : standIns.find? (·.1 == c) with
  | some pair => simpa [escapeChar, found] using replaced pair (List.mem_of_find?_eq_some found)
  | none =>
      have kept : escapeChar c = c := by simp [escapeChar, found]
      rw [kept]
      intro isBracket
      have missing := List.find?_eq_none.1 found
      simp only [List.mem_cons, List.not_mem_nil, or_false] at isBracket
      rcases isBracket with rfl | rfl | rfl | rfl <;> exact absurd missing (by decide)

theorem steady_escape {text : String} (bare : '\\' ∉ text.toList) : Steady (escape text).toList := by
  refine .of_plain fun c member => ?_
  simp only [escape, String.toList_ofList, List.mem_map] at member
  obtain ⟨original, isPart, rfl⟩ := member
  have noBracket := escapeChar_not_mem original
  have straight : escapeChar original ≠ '\\' := fun same =>
    bare (eq_backslash_of_escapeChar same ▸ isPart)
  simp_all

section

variable {vocabulary : Vocabulary σ} {context : Context} {limit levels : Nat}
  {value : List Char → List Char}
  (means : vocabulary.Means context limit levels value)

include means

theorem Vocabulary.Means.fills (text : String) :
    (renderText vocabulary (resolveBody vocabulary context limit levels) text).Attains
      (· = filledText value text) :=
  renderText_attains vocabulary means.attains text

theorem Vocabulary.Means.tag {body : Body} {outcome : Except Failure String}
    (looksUp : (lookUp vocabulary (renderText vocabulary (resolveBody vocabulary context limit levels))
      context (limit - levels) body).Attains (· = outcome)) :
    (resolveBody vocabulary context limit (levels + 1) body).Attains
      (· = body.outcomeText value outcome) := by
  rw [resolveBody_succ]
  refine .bind looksUp ?_
  rintro outcome rfl
  cases outcome with
  | ok text => exact .pure rfl
  | error failure =>
      cases found : body.fallback with
      | some fallback =>
          simp only [withoutValue, Body.outcomeText, found]
          exact .bind (.modifyWorld _) fun _ _ => means.fills fallback
      | none =>
          simp only [withoutValue, Body.outcomeText, found]
          exact .bind (.modifyWorld _) fun _ _ => .pure rfl

theorem Vocabulary.Means.chain (functional : vocabulary.Functional context) (filled : List Component) :
    ∃ outcome : Except Failure String,
      ((∀ component ∈ filled, component.Bare) → ∀ text, outcome = .ok text → '\\' ∉ text.toList) ∧
      ∀ body depth, Text.isBlankText body = false →
        (Chain.parse body).components.map (Component.filled value) = filled →
        (Vocabulary.readChain body >>= fun chain => resolveChain vocabulary
          (renderText vocabulary (resolveBody vocabulary context limit levels))
          ⟨chain, depth, context⟩).Attains (· = outcome) := by
  obtain ⟨outcome, bare, asks⟩ := resolveChain_attains means.fills functional filled
  refine ⟨outcome, bare, fun body depth filling shows => .bind (.readChain body) ?_⟩
  rintro _ rfl
  exact asks _ depth filling shows

theorem Vocabulary.Means.looksUp (functional : vocabulary.Functional context) (body : Body)
    (depth : Nat) : ∃ outcome : Except Failure String,
      ('\\' ∉ body.lookup.toList → ∀ text, outcome = .ok text → '\\' ∉ text.toList) ∧
      (lookUp vocabulary (renderText vocabulary (resolveBody vocabulary context limit levels)) context
        depth body).Attains (· = outcome) := by
  obtain ⟨looked, bareLooked, looks⟩ : ∃ looked : String,
      ('\\' ∉ body.lookup.toList → '\\' ∉ looked.toList) ∧
      EvalM.Attains (if body.dynamic then
        renderText vocabulary (resolveBody vocabulary context limit levels) body.lookup
        else pure body.lookup) (· = looked) := by
    split
    · refine ⟨_, fun bare => ?_, means.fills body.lookup⟩
      rw [filledText_of_bare bare, String.toList_ofList]
      exact shown_bare means.bare bare
    · exact ⟨body.lookup, id, .pure rfl⟩
  have goesOn {outcome : Except Failure String} (attains : EvalM.Attains
      (Vocabulary.readChain looked >>= fun chain => resolveChain vocabulary
        (renderText vocabulary (resolveBody vocabulary context limit levels))
        ⟨chain, depth, context⟩) (· = outcome)) :
      (lookUp vocabulary (renderText vocabulary (resolveBody vocabulary context limit levels)) context
        depth body).Attains (· = outcome) := by
    rw [lookUp_eq]
    refine .bind looks ?_
    rintro _ rfl
    exact attains
  cases blank : Text.isBlankText looked with
  | true =>
      refine ⟨.error .empty, by simp, goesOn (.bind (.readChain looked) ?_)⟩
      rintro _ rfl
      rw [resolveChain, if_pos (by simp [Chain.parse, blank])]
      exact .pure rfl
  | false =>
      obtain ⟨outcome, bare, attains⟩ := means.chain functional
        ((Chain.parse looked).components.map (Component.filled value))
      refine ⟨outcome, fun bareLookup => bare fun component member => ?_,
        goesOn (attains looked depth blank rfl)⟩
      obtain ⟨original, isPart, rfl⟩ := List.mem_map.1 member
      exact filled_bare means.bare (parse_bare (bareLooked bareLookup) original isPart)

end

theorem ofText_bare {raw : List Char} (bare : '\\' ∉ raw) :
    '\\' ∉ (Body.ofText (String.ofList raw)).lookup.toList ∧
      ∀ fallback ∈ (Body.ofText (String.ofList raw)).fallback, '\\' ∉ fallback.toList := by
  have whole := congrArg String.toList (raw_ofText (String.ofList raw))
  rw [String.toList_ofList] at whole
  cases found : (Body.ofText (String.ofList raw)).fallback with
  | none =>
      rw [found] at whole
      exact ⟨whole ▸ bare, by simp⟩
  | some fallback =>
      simp only [found, String.toList_append] at whole
      rw [whole, List.mem_append, List.mem_append, not_or, not_or] at bare
      refine ⟨bare.1.1, ?_⟩
      rintro _ ⟨⟩
      exact bare.2

theorem steady_nullText : Steady nullText.toList :=
  .of_plain (@free_of_all nullText.toList ['<', '>', '[', ']', '\\'] (by decide))

theorem ofText_bracketed {raw : List Char} (bracketed : Bracketed raw) :
    ∀ fallback ∈ (Body.ofText (String.ofList raw)).fallback, Bracketed fallback.toList := by
  intro fallback found
  simp only [Body.ofText, cutFallback, String.toList_ofList] at found
  obtain ⟨chars, isFallback, rfl⟩ := Option.map_eq_some_iff.1 found
  rw [String.toList_ofList]
  exact bracketed.cutFallback.2 chars isFallback

section

variable {vocabulary : Vocabulary σ} {context : Context} {limit levels : Nat}
  {value : List Char → List Char} (means : vocabulary.Means context limit levels value) {body : Body}
  {outcome : Except Failure String}
  (bareText : ∀ text, outcome = .ok text → '\\' ∉ text.toList)
  (bareFallback : ∀ fallback ∈ body.fallback, '\\' ∉ fallback.toList)

include means bareText bareFallback

theorem Vocabulary.Means.outcomeText_bare : '\\' ∉ (body.outcomeText value outcome).toList := by
  unfold Body.outcomeText
  split
  · exact (steady_escape (bareText _ rfl)).bare
  · split
    · rename_i fallback found
      rw [filledText_of_bare (bareFallback fallback found), String.toList_ofList]
      exact shown_bare means.bare (bareFallback fallback found)
    · decide

theorem Vocabulary.Means.outcomeText_steady
    (bracketed : ∀ fallback ∈ body.fallback, Bracketed fallback.toList) :
    Steady (body.outcomeText value outcome).toList := by
  unfold Body.outcomeText
  split
  · exact steady_escape (bareText _ rfl)
  · split
    · rename_i fallback found
      rw [filledText_of_bare (bareFallback fallback found), String.toList_ofList]
      exact (bracketed fallback found).shown_steady means.steady (bareFallback fallback found)
    · exact steady_nullText

end

theorem Vocabulary.Functional.means {vocabulary : Vocabulary σ} {context : Context}
    (functional : vocabulary.Functional context) (limit levels : Nat) :
    ∃ value, vocabulary.Means context limit levels value := by
  induction levels with
  | zero =>
      refine ⟨fun _ => nullText.toList, fun body => ?_, fun body _ => by decide, fun body _ _ => ?_⟩
      · exact .bind (.modifyWorld _) fun _ _ => .pure (String.ofList_toList).symm
      · exact steady_nullText
  | succ levels ih =>
      obtain ⟨value, means⟩ := ih
      choose outcome bareOutcome looksUp using fun body : List Char =>
        means.looksUp functional (Body.ofText (String.ofList body)) (limit - levels)
      refine ⟨fun body => ((Body.ofText (String.ofList body)).outcomeText value (outcome body)).toList,
        fun body => ?_, fun body bare => ?_, fun body bracketed bare => ?_⟩
      · rw [String.ofList_toList]
        exact means.tag (looksUp body)
      · have bareParts := ofText_bare bare
        exact means.outcomeText_bare (bareOutcome body bareParts.1) bareParts.2
      · have bareParts := ofText_bare bare
        exact means.outcomeText_steady (bareOutcome body bareParts.1) bareParts.2
          (ofText_bracketed bracketed)

end TagScript.Tag
