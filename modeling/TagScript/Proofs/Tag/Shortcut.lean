import TagScript.Proofs.Tag.Composition
import TagScript.Proofs.Tag.Transparency

/-! A text without a `<` is not cut into pieces before it is filled. The shortcut comes to the same
as the whole way unless a backslash stands before a `>`: only on the whole way it hides it. -/

namespace TagScript.Tag

variable {σ τ : Type}

def spelled : List Char → List Char
  | [] => []
  | '\\' :: '>' :: rest => escapeChar '>' :: spelled rest
  | c :: rest => c :: spelled rest

theorem signs_of_not_mem {text : List Char} (tagless : '<' ∉ text) :
    signs text = (spelled text).map .plain := by
  fun_induction spelled text with
  | case1 => simp [signs]
  | case2 rest ih =>
      simp only [List.mem_cons, not_or] at tagless
      rw [signs, ih tagless.2.2, List.map_cons]
  | case3 c rest unhidden ih =>
      simp only [List.mem_cons, not_or] at tagless
      have alone : standsAlone c rest := by
        refine ⟨fun same => tagless.1 same.symm, fun backslash behind => ⟨?_, ?_⟩⟩
        · rintro rfl
          exact tagless.2 List.mem_cons_self
        · exact unhidden behind backslash
      rw [signs_of_standsAlone alone, ih tagless.2, List.map_cons]

theorem length_spelled_le (text : List Char) : (spelled text).length ≤ text.length := by
  fun_induction spelled text with
  | case1 => exact Nat.le_refl 0
  | case2 rest ih =>
      simp only [List.length_cons]
      omega
  | case3 c rest unhidden ih =>
      simp only [List.length_cons]
      omega

theorem spelled_of_not_hidden {text : List Char} (unhidden : ¬ ['\\', '>'] <:+: text) :
    spelled text = text := by
  fun_induction spelled text with
  | case1 => rfl
  | case2 rest ih => exact absurd (List.prefix_append ['\\', '>'] rest).isInfix unhidden
  | case3 c rest _ ih =>
      rw [ih fun hidden => unhidden (hidden.trans (List.suffix_cons c rest).isInfix)]

theorem length_spelled_of_hidden {text : List Char} (hidden : ['\\', '>'] <:+: text) :
    (spelled text).length < text.length := by
  fun_induction spelled text with
  | case1 => simp at hidden
  | case2 rest ih =>
      have fewer := length_spelled_le rest
      simp only [List.length_cons]
      omega
  | case3 c rest unhidden ih =>
      rcases List.infix_cons_iff.1 hidden with start | later
      · simp only [List.cons_prefix_cons] at start
        obtain ⟨rfl, start⟩ := start
        cases rest with
        | nil => simp at start
        | cons second rest =>
            simp only [List.cons_prefix_cons] at start
            exact absurd (congrArg (· :: rest) start.1.symm) (unhidden rest rfl)
      · have fewer := ih later
        simp only [List.length_cons]
        omega

/-! Literals come out as they are. -/

theorem piecesFrom_plain_append (gathered chars : List Char) (read : List Sign) :
    piecesFrom gathered (chars.map .plain ++ read) =
      piecesFrom (chars.reverse ++ gathered) read := by
  induction chars generalizing gathered with
  | nil => rfl
  | cons c rest ih =>
      rw [List.map_cons, List.cons_append, piecesFrom, ih, List.reverse_cons, List.append_assoc,
        List.singleton_append]

theorem renderPieces_literalOf (resolve : Body → EvalM σ String) (gathered : List Char)
    (rest : List Piece) :
    renderPieces resolve (literalOf gathered ++ rest) = (do
      let back ← renderPieces resolve rest
      return String.ofList gathered.reverse ++ back) := by
  cases gathered with
  | nil => simp [literalOf]
  | cons c gathered => rfl

theorem renderPieces_gathered (resolve : Body → EvalM σ String) (gathered : List Char)
    (read : List Sign) :
    renderPieces resolve (piecesFrom gathered read) = (do
      let back ← renderPieces resolve (piecesFrom [] read)
      return String.ofList gathered.reverse ++ back) := by
  induction read generalizing gathered with
  | nil =>
      have literal := renderPieces_literalOf resolve gathered []
      rw [List.append_nil] at literal
      exact literal
  | cons sign rest ih =>
      cases sign with
      | plain c =>
          rw [piecesFrom, piecesFrom, ih (c :: gathered), ih [c]]
          simp only [bind_assoc, pure_bind, List.reverse_cons, String.ofList_append,
            String.append_assoc, List.reverse_nil, List.nil_append]
      | tag body =>
          rw [piecesFrom, piecesFrom, renderPieces_literalOf]
          rfl

theorem renderPieces_plain (resolve : Body → EvalM σ String) (chars : List Char)
    (read : List Sign) :
    renderPieces resolve (piecesFrom [] (chars.map .plain ++ read)) = (do
      let back ← renderPieces resolve (piecesFrom [] read)
      return String.ofList chars ++ back) := by
  rw [piecesFrom_plain_append, List.append_nil, renderPieces_gathered, List.reverse_reverse]

theorem renderPieces_of_not_mem (resolve : Body → EvalM σ String) {text : String}
    (tagless : '<' ∉ text.toList) :
    renderPieces resolve (pieces text) = pure (String.ofList (spelled text.toList)) := by
  have read := renderPieces_plain resolve (spelled text.toList) []
  rw [List.append_nil] at read
  rw [pieces, signs_of_not_mem tagless, read]
  simp [piecesFrom, literalOf, renderPieces]

theorem mayHoldTags_iff (text : String) : mayHoldTags text = true ↔ '<' ∈ text.toList := by
  simp [mayHoldTags]

section

variable {vocabulary : Vocabulary σ} {seen : σ → τ} {resolve : Body → EvalM σ String}

theorem renderText_agree_pieces (sees : vocabulary.SeesOnly seen)
    (resolves : ∀ body, EvalM.Agree seen (resolve body) (resolve body)) {text : String}
    (straight : '<' ∈ text.toList ∨ ¬ ['\\', '>'] <:+: text.toList) :
    EvalM.Agree seen (renderText vocabulary resolve text) (renderPieces resolve (pieces text)) := by
  unfold renderText
  split
  · have read := (readPieces_agree sees text).bind fun pieces => renderPieces_agree resolves pieces
    rwa [pure_bind] at read
  · rename_i tagless
    rw [mayHoldTags_iff] at tagless
    have unhidden := straight.resolve_left tagless
    rw [renderPieces_of_not_mem resolve tagless, spelled_of_not_hidden unhidden,
      String.ofList_toList]
    exact .pure text

theorem renderText_of_not_mem (vocabulary : Vocabulary σ) (resolve : Body → EvalM σ String)
    {text : String} (tagless : '<' ∉ text.toList) :
    renderText vocabulary resolve text = pure text := by
  rw [renderText, if_neg (by rwa [mayHoldTags_iff])]

theorem length_unescape (text : String) :
    (unescape text).toList.length = text.toList.length := by
  simp [unescape]

theorem unescape_spelled_ne {text : String} (hidden : ['\\', '>'] <:+: text.toList) :
    unescape text ≠ unescape (String.ofList (spelled text.toList)) := by
  intro same
  have lengths := congrArg (fun filled => filled.toList.length) same
  simp only [length_unescape, String.toList_ofList] at lengths
  have shorter := length_spelled_of_hidden hidden
  omega

theorem evaluate_agree_pieces (sees : vocabulary.SeesOnly seen) (context : Context) {text : String}
    (straight : '<' ∈ text.toList ∨ ¬ ['\\', '>'] <:+: text.toList) :
    EvalM.Agree seen (evaluate vocabulary context text)
      (evaluatePieces vocabulary context (pieces text)) :=
  .bind (renderText_agree_pieces sees (resolveBody_agree sees context _ _) straight) fun _ =>
    .pure _

theorem evaluate_of_not_mem (vocabulary : Vocabulary σ) (context : Context) {text : String}
    (tagless : '<' ∉ text.toList) :
    evaluate vocabulary context text = pure (unescape text) := by
  rw [evaluate, renderText_of_not_mem vocabulary _ tagless, pure_bind]

/-- Filling a text, and filling what stands in a bracket or a fallback at any level, comes to the
same as filling its pieces just if it holds a `<` or hides no `>`. -/
theorem shortcut_agrees_iff (sees : vocabulary.SeesOnly seen) (context : Context) (text : String)
    {state : Evaluation σ} (faithful : state.Faithful) :
    (SameOutcome seen ((evaluate vocabulary context text).run state)
        ((evaluatePieces vocabulary context (pieces text)).run state) ↔
      '<' ∈ text.toList ∨ ¬ ['\\', '>'] <:+: text.toList) ∧
    ∀ levels,
      SameOutcome seen
          ((renderText vocabulary (resolveBody vocabulary context depthLimit levels) text).run
            state)
          ((renderPieces (resolveBody vocabulary context depthLimit levels) (pieces text)).run
            state) ↔
        '<' ∈ text.toList ∨ ¬ ['\\', '>'] <:+: text.toList := by
  refine ⟨⟨fun same => ?_, fun straight => ?_⟩, fun levels => ⟨fun same => ?_, fun straight => ?_⟩⟩
  · refine Decidable.or_iff_not_imp_left.2 fun tagless hidden => ?_
    rw [evaluate_of_not_mem vocabulary context tagless, evaluatePieces,
      renderPieces_of_not_mem _ tagless, pure_bind] at same
    obtain ⟨_, ran⟩ := same.result (EvalM.run_pure_eq_some.2 ⟨rfl, rfl⟩)
    exact unescape_spelled_ne hidden (EvalM.run_pure_eq_some.1 ran).1.symm
  · exact evaluate_agree_pieces sees context straight state state (.refl faithful)
  · refine Decidable.or_iff_not_imp_left.2 fun tagless hidden => ?_
    rw [renderText_of_not_mem vocabulary _ tagless, renderPieces_of_not_mem _ tagless] at same
    obtain ⟨_, ran⟩ := same.result (EvalM.run_pure_eq_some.2 ⟨rfl, rfl⟩)
    have texts := (EvalM.run_pure_eq_some.1 ran).1.symm
    exact unescape_spelled_ne hidden (congrArg unescape texts)
  · exact renderText_agree_pieces sees (resolveBody_agree sees context _ levels) straight state
      state (.refl faithful)

end

theorem syntaxVocabulary_seesOnly : syntaxVocabulary.SeesOnly id where
  note := fun _ _ _ => rfl
  report := by
    rintro context message asked _ rfl
    rfl
  resolve := by
    rintro resolver member lookup asked _ rfl
    obtain rfl := List.mem_singleton.1 member
    exact .done _ rfl
  apply := by simp [syntaxVocabulary]
  call := fun _ _ _ _ => .none

theorem shortcut_agrees_iff_beside_tag :
    SameOutcome id ((evaluate syntaxVocabulary {} "a \\> <b>").run (.fresh []))
      ((evaluatePieces syntaxVocabulary {} (pieces "a \\> <b>")).run (.fresh [])) :=
  (shortcut_agrees_iff syntaxVocabulary_seesOnly {} "a \\> <b>" (.fresh [])).1.2
    (.inl (by decide))

/-- Without a `<` in the text the hidden `>` keeps its backslash. -/
theorem shortcut_keeps_backslash :
    ((evaluate syntaxVocabulary {} "a \\> b").run (.fresh [])).map (·.1) = some "a \\> b" ∧
      ((evaluatePieces syntaxVocabulary {} (pieces "a \\> b")).run (.fresh [])).map (·.1) =
        some "a > b" := by
  constructor
  · rfl
  · have read : pieces "a \\> b" = [.literal "a \ue001 b"] := by decide +kernel
    rw [read]
    rfl

end TagScript.Tag
