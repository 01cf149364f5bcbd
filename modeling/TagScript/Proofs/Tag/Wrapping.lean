import TagScript.Proofs.Tag.Nesting
import TagScript.Vocabulary.Value

/-! A text in the bracket of an `element` tag. The tag is read whole, whatever balanced text stands in
it, and filling it does what filling the text alone does: the same tags are resolved and the same
failures reported, in the same order and to the same end. -/

namespace TagScript.Tag

variable {σ τ η β : Type}

section

variable {text : String}

def elementBody (text : String) : String := "element[" ++ text ++ "]"

def elementTag (text : String) : String := "<" ++ elementBody text ++ ">"

theorem toList_elementBody (text : String) :
    (elementBody text).toList =
      'e' :: 'l' :: 'e' :: 'm' :: 'e' :: 'n' :: 't' :: '[' :: (text.toList ++ [']']) := by
  simp [elementBody]

theorem bodyOf_element (squares : Balanced '[' ']' text.toList) :
    Body.ofText (elementBody text) = ⟨elementBody text, elementBody text, none, false⟩ := by
  have closes := squares.closes (by decide)
  have cut : cutFallbackFrom .outside (elementBody text).toList = ((elementBody text).toList, none) := by
    rw [toList_elementBody]
    simp [cutFallbackFrom_cons, Nesting.step, Nesting.outside, cutFallbackFrom_bracket closes]
  have outer : hasOuterTag (elementBody text) = false := by
    rw [hasOuterTag, toList_elementBody]
    simpa [hasOuterTagFrom] using hasOuterTagFrom_bracket closes
  simp [Body.ofText, cutFallback, cut, outer]

theorem pieces_elementTag (bare : '\\' ∉ text.toList) (angles : Balanced '<' '>' text.toList)
    (squares : Balanced '[' ']' text.toList) :
    pieces (elementTag text) = [.tag ⟨elementBody text, elementBody text, none, false⟩] := by
  have split : (elementBody text).toList = "element[".toList ++ (text.toList ++ [']']) := by
    simp [elementBody]
  have closes : Closes '<' '>' 0 (elementBody text).toList := by
    rw [split]
    exact (closes_of_not_mem (by decide) (by decide)).append
      ((angles.closes (by decide)).append (closes_of_not_mem (by decide) (by decide)))
  have bareBody : '\\' ∉ (elementBody text).toList := by
    rw [toList_elementBody]
    simp [bare]
  have opens : opensTag ((elementBody text).toList ++ ['>']) = true := by
    rw [toList_elementBody, List.cons_append, opensTag_cons]
    decide
  have read : signs (elementTag text).toList = [.tag (elementBody text).toList] := by
    have shape : (elementTag text).toList = '<' :: ((elementBody text).toList ++ ['>']) := by
      simp [elementTag]
    rw [shape, signs_of_opening opens (closeTag_closes closes bareBody []), signs]
  rw [pieces, read]
  simp [piecesFrom, literalOf, bodyOf_element squares]

theorem parse_elementBody (squares : Balanced '[' ']' text.toList) :
    Chain.parse (elementBody text) = ⟨elementBody text, [⟨"element", some text⟩]⟩ := by
  have closes := squares.closes (by decide)
  have single : segments (elementBody text).toList = [(elementBody text).toList] := by
    rw [segments, toList_elementBody]
    simp [segmentsFrom, Nesting.step, Nesting.outside, segmentsFrom_bracket closes, ontoFirst]
  have component : Component.ofSegment (elementBody text).toList = ⟨"element", some text⟩ := by
    rw [toList_elementBody]
    simp [Component.ofSegment, cutAtBracket, closeBracket_closes closes]
  rw [Chain.parse, single, List.map_singleton, component]

end

def watcher (told : Chain → σ → σ) : Resolver σ where
  name := "watcher"
  resolve := fun lookup => OptionT.mk fun world => .done none (told lookup.chain world)

/-- The built-in tags, and watchers before them that are told of every resolution. -/
structure Vocabulary.Watched (vocabulary : Vocabulary (World η))
    (watchers : List (Chain → World η → World η)) : Prop where
  resolvers : vocabulary.resolvers = watchers.map watcher ++ TagScript.Vocabulary.resolvers
  attributes : vocabulary.attributes = TagScript.Vocabulary.attributes

def tellAll (watchers : List (Chain → σ → σ)) (chain : Chain) : EvalM σ Unit :=
  watchers.forM fun told => EvalM.modifyWorld (told chain)

theorem EvalM.world_bind_setWorld (next : Unit → EvalM σ β) :
    (EvalM.world >>= fun world => EvalM.setWorld world >>= next) = next () := rfl

section

variable {vocabulary : Vocabulary σ} {fill : String → EvalM σ String} {lookup : Lookup}
  {resolver : Resolver σ}

theorem resolveBase_declined {told : σ → σ}
    (declines : ∀ world, resolver.resolve lookup world = .done none (told world))
    (rest : List (Resolver σ)) (memo : Memo) :
    resolveBase vocabulary fill lookup (resolver :: rest) memo = (do
      EvalM.modifyWorld told
      resolveBase vocabulary fill lookup rest memo) := by
  funext state
  rw [resolveBase]
  simp only [declines]
  rfl

theorem resolveBase_passed (declines : ∀ world, resolver.resolve lookup world = .done none world)
    (rest : List (Resolver σ)) (memo : Memo) :
    resolveBase vocabulary fill lookup (resolver :: rest) memo =
      resolveBase vocabulary fill lookup rest memo :=
  @resolveBase_declined _ _ _ _ _ id declines rest memo

theorem resolveBase_watchers (watchers : List (Chain → σ → σ)) (rest : List (Resolver σ))
    (memo : Memo) :
    resolveBase vocabulary fill lookup (watchers.map watcher ++ rest) memo = (do
      tellAll watchers lookup.chain
      resolveBase vocabulary fill lookup rest memo) := by
  induction watchers with
  | nil => rfl
  | cons told watchers ih =>
      rw [List.map_cons, List.cons_append, resolveBase_declined (fun _ => rfl), ih]
      rw [← bind_assoc]
      rfl

end

theorem keyIs_first (raw key word : String) (bracket : Option String) (rest : List Component)
    (depth : Nat) (context : Context) :
    Lookup.keyIs 0 word ⟨⟨raw, ⟨key, bracket⟩ :: rest⟩, depth, context⟩ = Text.sameWord key word :=
  rfl

theorem element_resolve {lookup : Lookup} (named : lookup.keyIs 0 "element" = true)
    (world : World η) :
    TagScript.Vocabulary.element.resolve lookup world =
      .bracket 0 world fun answer world => .done (answer.map fun text => ⟨text, 1⟩) world := by
  simp only [TagScript.Vocabulary.element, named]
  change Act.bracket 0 world _ = _
  congr
  funext answer world
  cases answer <;> rfl

section

variable {vocabulary : Vocabulary (World η)} {fill : String → EvalM (World η) String}
  {watchers : List (Chain → World η → World η)}

theorem resolveBase_element (raw text : String) (depth : Nat) (context : Context) :
    resolveBase vocabulary fill ⟨⟨raw, [⟨"element", some text⟩]⟩, depth, context⟩
        TagScript.Vocabulary.resolvers [] = (do
      let filled ← fill text
      return (some ⟨unescape filled, 1⟩, [(0, unescape filled)])) := by
  have others : Text.sameWord "element" "def" = false ∧ Text.sameWord "element" "" = false ∧
      Text.sameWord "element" "queue" = false ∧ Text.sameWord "element" "entry" = false ∧
      Text.sameWord "element" "context" = false := by decide
  obtain ⟨notDef, notEmpty, notQueue, notEntry, notContext⟩ := others
  rw [TagScript.Vocabulary.resolvers, resolveBase_passed, resolveBase_passed, resolveBase_passed,
    resolveBase_passed, resolveBase]
  · have named : Lookup.keyIs 0 "element" ⟨⟨raw, [⟨"element", some text⟩]⟩, depth, context⟩ = true := by
      rw [keyIs_first]
      decide
    simp only [element_resolve named, perform, bind_assoc]
    rw [EvalM.world_bind_setWorld]
    change (do
      let answer ← (do
        let filled ← fill text
        return (some (unescape filled), [(0, unescape filled)]))
      _) = _
    simp only [bind_assoc, pure_bind, Option.map]
    rfl
  · intro world
    simp only [TagScript.Vocabulary.context, keyIs_first, notContext]
    rfl
  · intro world
    simp only [TagScript.Vocabulary.savedEntry, keyIs_first, notEntry]
    rfl
  · intro world
    simp only [TagScript.Vocabulary.queue, keyIs_first, notQueue]
    rfl
  · intro world
    simp only [TagScript.Vocabulary.definition, keyIs_first, notDef, notEmpty]
    rfl

theorem resolveChain_element (watched : vocabulary.Watched watchers) (text : String) (depth : Nat)
    (context : Context) :
    resolveChain vocabulary fill
        ⟨⟨elementBody text, [⟨"element", some text⟩]⟩, depth, context⟩ = (do
      tellAll watchers ⟨elementBody text, [⟨"element", some text⟩]⟩
      let filled ← fill text
      return .ok (unescape filled)) := by
  have unblank : Text.isBlankText (elementBody text) = false := by
    rw [Text.isBlankText, toList_elementBody, List.all_cons, show Text.isBlank 'e' = false by decide,
      Bool.false_and]
  rw [resolveChain, watched.resolvers, resolveBase_watchers, resolveBase_element]
  simp only [List.isEmpty_cons, unblank, Bool.or_self, Bool.false_eq_true, ↓reduceIte, bind_assoc,
    pure_bind]
  have complete (filled : String) (memo : Memo) :
      applyAttributes vocabulary fill ⟨⟨elementBody text, [⟨"element", some text⟩]⟩, depth, context⟩
        filled 1 memo = pure (.ok filled) := by
    rw [applyAttributes, if_pos (by simp [Lookup.size])]
  simp only [complete]

theorem Vocabulary.Watched.depthBlind (watched : vocabulary.Watched watchers) :
    vocabulary.DepthBlind where
  resolve := by
    intro resolver member chain depth other context
    rw [watched.resolvers, List.mem_append] at member
    rcases member with watches | builtin
    · obtain ⟨told, _, rfl⟩ := List.mem_map.1 watches
      rfl
    · simp only [TagScript.Vocabulary.resolvers, List.mem_cons, List.not_mem_nil, or_false] at builtin
      rcases builtin with rfl | rfl | rfl | rfl | rfl | rfl <;> rfl
  apply := by
    intro handler member value chain depth other context
    rw [watched.attributes, TagScript.Vocabulary.attributes, List.mem_singleton] at member
    subst member
    rfl

open EvalM (Coincide)

theorem EvalM.Keeps.coincide {act : EvalM σ β} (keeps : EvalM.Keeps Evaluation.Faithful act) :
    Coincide (fun _ => True) act act := by
  intro state faithful
  exact ⟨rfl, fun result later ran => ⟨trivial, keeps state result later faithful ran⟩⟩

theorem tellAll_coincide (told : List (Chain → σ → σ)) (chain : Chain) :
    Coincide (fun _ => True) (tellAll told chain) (tellAll told chain) := by
  induction told with
  | nil => exact .pure trivial
  | cons first rest ih => exact .bind (.modifyWorld _) fun _ _ => ih

theorem resolveBody_element (watched : vocabulary.Watched watchers)
    (calls : ∀ procedure, EvalM.Keeps Evaluation.Faithful (vocabulary.call procedure))
    (context : Context) {text : String} (squares : Balanced '[' ']' text.toList)
    (nested : WellNested (depthLimit - 1) text.toList) :
    Coincide (fun _ => True)
      (do return unescape (← resolveBody vocabulary context depthLimit depthLimit
        ⟨elementBody text, elementBody text, none, false⟩))
      (do
        let chain ← Vocabulary.readChain (elementBody text)
        tellAll watchers chain
        evaluate vocabulary context text) := by
  have resolves := resolveBody_succ vocabulary context depthLimit (depthLimit - 1)
    ⟨elementBody text, elementBody text, none, false⟩
  rw [show depthLimit - 1 + 1 = depthLimit from rfl] at resolves
  have fills : Coincide AnglesFollowed
      (renderText vocabulary (resolveBody vocabulary context depthLimit (depthLimit - 1)) text)
      (renderText vocabulary (resolveBody vocabulary context depthLimit depthLimit) text) :=
    renderText_coincide_of_wellNested watched.depthBlind (fun procedure => (calls procedure).coincide)
      1 nested
  rw [resolves]
  simp only [lookUp, Bool.false_eq_true, ↓reduceIte, pure_bind, bind_assoc]
  refine .bind (readChain_coincide _) ?_
  rintro _ rfl
  rw [parse_elementBody squares, resolveChain_element watched]
  simp only [bind_assoc, pure_bind, unescape_escape (unmarked_unescape _)]
  exact .bind (tellAll_coincide _ _) fun _ _ => .bind fills fun _ _ => .pure trivial

theorem tellAll_agree {seen : World η → τ} (sees : vocabulary.SeesOnly seen)
    (watched : vocabulary.Watched watchers) (chain : Chain) :
    EvalM.Agree seen (tellAll watchers chain) (tellAll watchers chain) := by
  have alike (told : Chain → World η → World η) (member : told ∈ watchers) (left right : World η)
      (same : seen left = seen right) : seen (told chain left) = seen (told chain right) := by
    have known : watcher told ∈ vocabulary.resolvers := by
      rw [watched.resolvers]
      exact List.mem_append_left _ (List.mem_map_of_mem member)
    cases sees.resolve (watcher told) known ⟨chain, 0, {}⟩ left right same with
    | done _ same => exact same
  clear watched
  induction watchers with
  | nil => exact .pure _
  | cons told rest ih =>
      refine .bind (fun left right both => ?_) fun _ => ih fun other member =>
        alike other (List.mem_cons_of_mem _ member)
      exact .some ⟨rfl, both.with_world (alike told (by simp) _ _ both.world)⟩

/-- Filling a balanced text in the bracket of an `element` tag is filling the text, once the outer tag
is read and the watchers are told of it. Where remarks are not seen, reading the outer tag leaves no
trace either. -/
theorem evaluate_elementTag (watched : vocabulary.Watched watchers)
    (calls : ∀ procedure, EvalM.Keeps Evaluation.Faithful (vocabulary.call procedure))
    (context : Context) {text : String} (bare : '\\' ∉ text.toList)
    (angles : Balanced '<' '>' text.toList) (squares : Balanced '[' ']' text.toList)
    (nested : nestsWithin (depthLimit - 1) text.toList = true) {state : Evaluation (World η)}
    (faithful : state.Faithful) (uncancelled : state.isCancelled = false) :
    (evaluate vocabulary context (elementTag text)).run state = (do
        let _ ← vocabulary.readPieces (elementTag text)
        let chain ← Vocabulary.readChain (elementBody text)
        tellAll watchers chain
        evaluate vocabulary context text).run state ∧
      ∀ seen : World η → τ, vocabulary.SeesOnly seen →
        SameOutcome seen ((evaluate vocabulary context (elementTag text)).run state) ((do
          tellAll watchers (Chain.parse (elementBody text))
          evaluate vocabulary context text).run state) := by
  have exactly : (evaluate vocabulary context (elementTag text)).run state = (do
      let _ ← vocabulary.readPieces (elementTag text)
      let chain ← Vocabulary.readChain (elementBody text)
      tellAll watchers chain
      evaluate vocabulary context text).run state := by
    have holdsTag : mayHoldTags (elementTag text) = true := by
      rw [mayHoldTags_iff]
      simp [elementTag]
    obtain ⟨later, read, faithfulLater, token, bound, _⟩ :=
      readPieces_run vocabulary (elementTag text) faithful
    have uncancelledLater : later.isCancelled = false := by
      rw [← uncancelled, Evaluation.isCancelled, Evaluation.isCancelled, token, bound]
    rw [evaluate, renderText, if_pos holdsTag, bind_assoc, StateT.run_bind, StateT.run_bind, read]
    simp only [Option.bind_eq_bind, Option.bind_some]
    rw [pieces_elementTag bare angles squares,
      EvalM.run_bind_of_run_eq (renderPieces_tag _ _ uncancelledLater)]
    simp only [renderPieces, bind_assoc, pure_bind, String.append_empty]
    exact (resolveBody_element watched calls context squares
      ⟨bare, angles.closes (by decide), nested⟩ later faithfulLater).1
  refine ⟨exactly, fun seen sees => ?_⟩
  rw [exactly]
  have read := readPieces_agree sees (elementTag text)
  have whole := read.bind fun _ => (readChain_agree (elementBody text)).bind fun chain =>
    (tellAll_agree sees watched chain).bind fun _ => evaluate_agree sees context text
  simp only [pure_bind] at whole
  exact whole state state (.refl faithful)

end

def watchedVocabulary : Vocabulary (World Unit) where
  resolvers := watcher (fun chain => World.log .info chain.raw) :: TagScript.Vocabulary.resolvers
  attributes := TagScript.Vocabulary.attributes
  report := fun _ message => World.log .error message
  note := fun _ _ world => world
  call := fun _ => pure (.ok none)
  timeout := none

theorem Act.Alike.refl {α : Type} (act : Act σ α) : act.Alike id act := by
  induction act with
  | done result world => exact .done result rfl
  | bracket position world resume ih =>
      refine .bracket position rfl fun answer left right same => ?_
      obtain rfl : left = right := same
      exact ih answer left
  | call procedure world resume ih =>
      refine .call procedure rfl fun answer left right same => ?_
      obtain rfl : left = right := same
      exact ih answer left
  | cancel world resume ih => exact .cancel rfl (ih world)
  | isCancelled world resume ih => exact .isCancelled rfl fun answer => ih answer world

theorem watchedVocabulary_seesOnly : watchedVocabulary.SeesOnly id where
  note := fun _ _ _ => rfl
  report := by
    rintro context message world _ rfl
    rfl
  resolve := by
    rintro resolver member lookup world _ rfl
    exact .refl _
  apply := by
    rintro handler member value lookup position world _ rfl
    exact .refl _
  call := fun _ => .pure _

theorem evaluate_elementTag_watched :
    Balanced '<' '>' "1 < 2 > <element[<nope||[x]>].length> <gone>".toList ∧
      Balanced '[' ']' "1 < 2 > <element[<nope||[x]>].length> <gone>".toList ∧
      nestsWithin (depthLimit - 1) "1 < 2 > <element[<nope||[x]>].length> <gone>".toList = true ∧
      SameOutcome id
        ((evaluate watchedVocabulary {}
          (elementTag "1 < 2 > <element[<nope||[x]>].length> <gone>")).run (.fresh (.start ())))
        ((do
          tellAll [fun chain => World.log .info chain.raw]
            (Chain.parse (elementBody "1 < 2 > <element[<nope||[x]>].length> <gone>"))
          evaluate watchedVocabulary {}
            "1 < 2 > <element[<nope||[x]>].length> <gone>").run (.fresh (.start ()))) := by
  have angles : Balanced '<' '>' "1 < 2 > <element[<nope||[x]>].length> <gone>".toList := by
    decide +kernel
  have squares : Balanced '[' ']' "1 < 2 > <element[<nope||[x]>].length> <gone>".toList := by
    decide +kernel
  have nested :
      nestsWithin (depthLimit - 1) "1 < 2 > <element[<nope||[x]>].length> <gone>".toList = true := by
    decide +kernel
  have watched : watchedVocabulary.Watched [fun chain => World.log .info chain.raw] := ⟨rfl, rfl⟩
  have calls (procedure : Procedure) :
      EvalM.Keeps Evaluation.Faithful (watchedVocabulary.call procedure) :=
    .pure fun _ faithful => faithful
  refine ⟨angles, squares, nested, ?_⟩
  exact (evaluate_elementTag watched calls {} (by decide +kernel) angles squares nested (.fresh _)
    rfl).2 id watchedVocabulary_seesOnly

end TagScript.Tag
