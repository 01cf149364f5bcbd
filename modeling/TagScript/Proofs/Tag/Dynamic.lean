import TagScript.Proofs.Tag.Meaning

/-! Bodies that start with a tag. Such a body is filled as a whole before it is read as a chain, and
the brackets of the chain are filled once more. Where the tag comes to a word, the body means what it
would mean with the word written out: what was filled stays as it is, and it is cut where the body
was cut, unless a key holds a tag. -/

namespace TagScript.Tag

variable {σ : Type}

theorem evaluate_attains_tag {vocabulary : Vocabulary σ} {context : Context} {text body : String}
    {value : String} (read : signs text.toList = [.tag body.toList]) (holdsTag : '<' ∈ text.toList)
    (attains : (resolveBody vocabulary context depthLimit depthLimit (Body.ofText body)).Attains
      (· = value)) : (evaluate vocabulary context text).Attains (· = unescape value) := by
  have single : pieces text = [.tag (Body.ofText body)] := by
    rw [pieces, read]
    simp [piecesFrom, literalOf]
  rw [evaluate, renderText, if_pos ((mayHoldTags_iff text).2 holdsTag), bind_assoc]
  refine .bind (.readPieces vocabulary text) ?_
  rintro _ rfl
  rw [single, renderPieces, bind_assoc]
  refine .bind .isCancelled ?_
  rintro _ rfl
  rw [if_neg Bool.false_ne_true, bind_assoc]
  refine .bind attains ?_
  rintro _ rfl
  exact .pure (by simp)

section

variable {word : List Char} (letters : ∀ c ∈ word, c.isAlpha = true)

include letters

theorem free_of_letters : ∀ c ∈ word, c ∉ ['<', '>', '[', ']', '\\'] := by
  intro c member isSyntax
  have isLetter := letters c member
  simp only [List.mem_cons, List.not_mem_nil, or_false] at isSyntax
  rcases isSyntax with rfl | rfl | rfl | rfl | rfl <;> exact absurd isLetter (by decide)

theorem cutFallbackFrom_letters (rest : List Char) :
    cutFallbackFrom .outside (word ++ rest) =
      (word ++ (cutFallbackFrom .outside rest).1, (cutFallbackFrom .outside rest).2) := by
  induction word with
  | nil => rfl
  | cons c word ih =>
      obtain ⟨isLetter, others⟩ := List.forall_mem_cons.1 letters
      have notBar : c ≠ '|' := by
        rintro rfl
        exact absurd isLetter (by decide)
      have free := free_of_letters letters c List.mem_cons_self
      rw [List.cons_append, cutFallbackFrom_cons, if_neg (fun cuts => notBar cuts.1),
        Nesting.step_of_free (by simp_all), ih others]
      rfl

theorem hasOuterTagFrom_letters (rest : List Char) :
    hasOuterTagFrom 0 (word ++ rest) = hasOuterTagFrom 0 rest := by
  induction word with
  | nil => rfl
  | cons c word ih =>
      have free := free_of_letters letters c List.mem_cons_self
      rw [List.cons_append, hasOuterTagFrom_of_not_mem (by simp_all),
        ih (List.forall_mem_cons.1 letters).2]

theorem boxed_letters {rest : List Char} (boxed : Boxed rest) : Boxed (word ++ rest) := by
  induction word with
  | nil => exact boxed
  | cons c word ih =>
      have free := free_of_letters letters c List.mem_cons_self
      exact .plain (by simp_all) (ih (List.forall_mem_cons.1 letters).2)

theorem isBlank_letters {c : Char} (member : c ∈ word) : Text.isBlank c = false := by
  have isLetter := letters c member
  have narrow : 65 ≤ c.toNat ∧ c.toNat ≤ 122 := by
    change 65 ≤ c.val.toNat ∧ c.val.toNat ≤ 122
    rcases (Bool.or_eq_true c.isUpper c.isLower).mp isLetter with upper | lower
    · have between : 'A'.val ≤ c.val ∧ c.val ≤ 'Z'.val := of_decide_eq_true upper
      simp only [UInt32.le_iff_toNat_le] at between
      have codes : 'A'.val.toNat = 65 ∧ 'Z'.val.toNat = 90 := ⟨rfl, rfl⟩
      omega
    · have both := (Bool.and_eq_true (decide ('a'.val ≤ c.val)) _).mp lower
      have between : 'a'.val ≤ c.val ∧ c.val ≤ 'z'.val :=
        ⟨of_decide_eq_true both.1, of_decide_eq_true both.2⟩
      simp only [UInt32.le_iff_toNat_le] at between
      have codes : 'a'.val.toNat = 97 ∧ 'z'.val.toNat = 122 := ⟨rfl, rfl⟩
      omega
  simp only [Text.isBlank, Bool.or_eq_false_iff, Bool.and_eq_false_iff, decide_eq_false_iff_not,
    beq_eq_false_iff_ne]
  omega

theorem opensTag_letters (filling : word ≠ []) (behind : List Char) :
    opensTag (word ++ behind) = true := by
  cases word with
  | nil => exact absurd rfl filling
  | cons c word =>
      have isLetter := letters c List.mem_cons_self
      have notEquals : c ≠ '=' := by
        rintro rfl
        exact absurd isLetter (by decide)
      have notClosing : c ≠ '>' := by
        rintro rfl
        exact absurd isLetter (by decide)
      simp [opensTag_cons, keepsPlain, isBlank_letters letters List.mem_cons_self, notEquals,
        notClosing]

end

theorem signs_around_tag {inner rest : List Char} (whole : signs ('<' :: (inner ++ ['>'])) = [.tag inner])
    (closes : Closes '<' '>' 0 rest) (bare : '\\' ∉ rest) :
    signs ('<' :: ('<' :: (inner ++ '>' :: rest) ++ ['>'])) = [.tag ('<' :: (inner ++ '>' :: rest))] := by
  obtain ⟨_, closesInner, seenInner⟩ := closeTag_iff.1 (closeTag_of_whole whole).2
  obtain ⟨_, closesRest, seenRest⟩ := closeTag_iff.1 (closeTag_closes closes bare [])
  have closesBody : Closes '<' '>' 0 (angles false ('<' :: (inner ++ '>' :: rest))) := by
    simpa [angles, angles_append, seenInner] using closesInner.around closesRest
  have seenBody : hidesNext false ('<' :: (inner ++ '>' :: rest)) = false := by
    simpa [hidesNext, hidesNext_append, seenInner] using seenRest
  have closed := closeTag_iff.2 ⟨@rfl _ (_ ++ '>' :: []), closesBody, seenBody⟩
  rw [signs_of_opening rfl closed, signs]

namespace Vocabulary.Means

variable {vocabulary : Vocabulary σ} {context : Context} {limit levels : Nat}
  {value : List Char → List Char}

theorem filled_parse_shown (means : vocabulary.Means context limit levels value) {lookup : String}
    (boxed : Boxed lookup.toList) (bare : '\\' ∉ lookup.toList)
    (tagless : ∀ component ∈ (Chain.parse lookup).components, tagBodies component.key.toList = []) :
    (Chain.parse (String.ofList (shown value lookup.toList))).components.map
        (Component.filled value) =
      (Chain.parse lookup).components.map (Component.filled value) := by
  obtain ⟨same, bracketed⟩ := boxed.parse_shown means.steady bare tagless
  rw [same, List.map_map]
  refine List.map_congr_left fun component member => ?_
  have bareComponent := parse_bare bare component member
  unfold Component.filled Component.shown Function.comp
  dsimp only
  cases found : component.context with
  | none => rfl
  | some raw =>
      have bareRaw := bareComponent.2 raw found
      have settled := (bracketed component member raw found).shown_steady means.steady bareRaw
      have again : filledText value (String.ofList (shown value raw.toList)) =
          String.ofList (shown value raw.toList) := by
        rw [filledText_of_bare (by simpa using settled.bare), String.toList_ofList,
          shown_of_tagless settled.tagless]
      simp only [Option.map_some, again, filledText_of_bare bareRaw]

theorem lookUps (means : vocabulary.Means context limit levels value)
    (functional : vocabulary.Functional context) {inner word front : String}
    (tagRead : signs ('<' :: (inner.toList ++ ['>'])) = [.tag inner.toList])
    (comes : value inner.toList = word.toList)
    (filling : word.toList ≠ []) (letters : ∀ c ∈ word.toList, c.isAlpha = true)
    (bracketed : Bracketed front.toList) (bare : '\\' ∉ front.toList)
    (keys : hasOuterTag front = true ∨
      ∀ component ∈ (Chain.parse (word ++ front)).components, tagBodies component.key.toList = [])
    (raw raw' : String) (fallback fallback' : Option String) (depth : Nat) :
    ∃ outcome,
      (lookUp vocabulary (renderText vocabulary (resolveBody vocabulary context limit levels))
        context depth ⟨raw, "<" ++ inner ++ ">" ++ front, fallback, true⟩).Attains (· = outcome) ∧
      (lookUp vocabulary (renderText vocabulary (resolveBody vocabulary context limit levels))
        context depth ⟨raw', word ++ front, fallback', hasOuterTag front⟩).Attains
          (· = outcome) := by
  have plain := Steady.of_plain (free_of_letters letters)
  have bareWhole : '\\' ∉ (word ++ front).toList := by simp [plain.bare, bare]
  have shownWhole : shown value (word ++ front).toList = word.toList ++ shown value front.toList := by
    rw [String.toList_append, shown_append plain.bracketed plain.bare,
      shown_of_tagless plain.tagless]
  have unblank (text : String) (starts : word.toList <+: text.toList) :
      Text.isBlankText text = false := by
    obtain ⟨c, others, same⟩ := List.exists_cons_of_ne_nil filling
    have first := isBlank_letters letters (List.mem_of_mem_head? (by rw [same]; rfl))
    obtain ⟨behind, whole⟩ := starts
    rw [Text.isBlankText, ← whole, same, List.cons_append, List.all_cons, first, Bool.false_and]
  have unblankShown : Text.isBlankText (String.ofList (shown value (word ++ front).toList)) = false :=
    unblank _ (by
      rw [String.toList_ofList, shownWhole]
      exact List.prefix_append _ _)
  have dynamicLooks : (renderText vocabulary (resolveBody vocabulary context limit levels)
      ("<" ++ inner ++ ">" ++ front)).Attains
        (· = String.ofList (shown value (word ++ front).toList)) := by
    refine (means.fills _).weaken ?_
    rintro _ rfl
    have read := signs_tag_append front.toList tagRead
    rw [filledText, if_pos (by simp), shownWhole, ← comes, shown]
    congr 1
    simpa [shown, putIn] using congrArg (putIn value) read
  simp only [lookUp_eq]
  cases outer : hasOuterTag front with
  | true =>
      obtain ⟨outcome, _, comesTo⟩ := means.chain functional ((Chain.parse
        (String.ofList (shown value (word ++ front).toList))).components.map (Component.filled value))
      have goesOn := comesTo _ depth unblankShown rfl
      refine ⟨outcome, .bind dynamicLooks ?_, .bind (means.fills _) ?_⟩
      · rintro _ rfl
        exact goesOn
      · rintro _ rfl
        rw [filledText_of_bare bareWhole]
        exact goesOn
  | false =>
      have boxed : Boxed (word ++ front).toList := by
        rw [String.toList_append]
        exact boxed_letters letters (bracketed.boxed outer)
      have tagless := keys.resolve_left (by simp [outer])
      obtain ⟨outcome, _, comesTo⟩ := means.chain functional
        ((Chain.parse (word ++ front)).components.map (Component.filled value))
      refine ⟨outcome, .bind dynamicLooks ?_, ?_⟩
      · rintro _ rfl
        exact comesTo _ depth unblankShown (means.filled_parse_shown boxed bareWhole tagless)
      · rw [if_neg Bool.false_ne_true, pure_bind]
        exact comesTo _ depth (unblank _ (by simp)) rfl

end Vocabulary.Means

/-- A body that starts with a tag means what it means with the word that the tag comes to. -/
theorem dynamic_eq_static {vocabulary : Vocabulary σ} {context : Context}
    (functional : vocabulary.Functional context) {inner word rest : String}
    (isTag : pieces ("<" ++ inner ++ ">") = [.tag (Body.ofText inner)])
    (filling : word ≠ "") (letters : ∀ c ∈ word.toList, c.isAlpha = true)
    (bracketed : Bracketed rest.toList) (bare : '\\' ∉ rest.toList)
    (sameCut : cutFallback ("<" ++ inner ++ ">" ++ rest) =
      ("<" ++ inner ++ ">" ++ (cutFallback rest).1, (cutFallback rest).2))
    (keys : hasOuterTag (cutFallback rest).1 = true ∨
      ∀ component ∈ (Chain.parse (word ++ (cutFallback rest).1)).components,
        tagBodies component.key.toList = [])
    {before : Evaluation σ} (calm : before.Calm)
    (resolves : ∃ after, (resolveBody vocabulary context depthLimit (depthLimit - 1)
      (Body.ofText inner)).run before = some (word, after)) :
    ∃ result after after',
      (evaluate vocabulary context ("<" ++ ("<" ++ inner ++ ">") ++ rest ++ ">")).run before =
          some (result, after) ∧
        (evaluate vocabulary context ("<" ++ word ++ rest ++ ">")).run before =
          some (result, after') := by
  obtain ⟨value, means⟩ := functional.means depthLimit (depthLimit - 1)
  have tagRead : signs ('<' :: (inner.toList ++ ['>'])) = [.tag inner.toList] := by
    simpa [Body.ofText] using signs_of_pieces_tag isTag
  have comes : value inner.toList = word.toList := by
    obtain ⟨after, ran⟩ := resolves
    obtain ⟨_, _, alsoRan, rfl, _⟩ := means.attains inner.toList before calm
    rw [String.ofList_toList, ran, Option.some.injEq, Prod.mk.injEq] at alsoRan
    rw [alsoRan.1, String.toList_ofList]
  have fillingChars : word.toList ≠ [] := by simpa using filling
  -- Both bodies are cut at the same fallback.
  have wordCut : cutFallback (word ++ rest) = (word ++ (cutFallback rest).1, (cutFallback rest).2) := by
    simp [cutFallback, cutFallbackFrom_letters letters]
  have bracketedFront : Bracketed (cutFallback rest).1.toList := by
    simpa [cutFallback] using bracketed.cutFallback.1
  have bareFront : '\\' ∉ (cutFallback rest).1.toList := by
    simpa [Body.ofText] using (ofText_bare bare).1
  have dynamicBody : Body.ofText ("<" ++ inner ++ ">" ++ rest) =
      ⟨"<" ++ inner ++ ">" ++ rest, "<" ++ inner ++ ">" ++ (cutFallback rest).1,
        (cutFallback rest).2, true⟩ := by
    simp [Body.ofText, sameCut, hasOuterTag, hasOuterTagFrom]
  have staticBody : Body.ofText (word ++ rest) =
      ⟨word ++ rest, word ++ (cutFallback rest).1, (cutFallback rest).2,
        hasOuterTag (cutFallback rest).1⟩ := by
    simp [Body.ofText, wordCut, hasOuterTag, hasOuterTagFrom_letters letters]
  obtain ⟨outcome, dynamicUp, staticUp⟩ := means.lookUps functional tagRead comes fillingChars letters
    bracketedFront bareFront keys ("<" ++ inner ++ ">" ++ rest) (word ++ rest) (cutFallback rest).2
    (cutFallback rest).2 (depthLimit - (depthLimit - 1))
  rw [← dynamicBody] at dynamicUp
  rw [← staticBody] at staticUp
  have sameText : (Body.ofText ("<" ++ inner ++ ">" ++ rest)).outcomeText value outcome =
      (Body.ofText (word ++ rest)).outcomeText value outcome := by
    rw [dynamicBody, staticBody]
    rfl
  have dynamicRead : signs ("<" ++ ("<" ++ inner ++ ">") ++ rest ++ ">").toList =
      [.tag ("<" ++ inner ++ ">" ++ rest).toList] := by
    simpa using signs_around_tag tagRead bracketed.closes_angles bare
  have plain := Steady.of_plain (free_of_letters letters)
  have closed := closeTag_closes (plain.bracketed.append bracketed).closes_angles
    (by simp [plain.bare, bare]) []
  have staticRead : signs ("<" ++ word ++ rest ++ ">").toList = [.tag (word ++ rest).toList] := by
    have opens := opensTag_letters letters fillingChars (rest.toList ++ ['>'])
    rw [← List.append_assoc] at opens
    simpa [signs] using signs_of_opening opens closed
  obtain ⟨_, after, ran, rfl, _⟩ :=
    evaluate_attains_tag dynamicRead (by simp) (means.tag dynamicUp) before calm
  obtain ⟨_, after', ran', rfl, _⟩ :=
    evaluate_attains_tag staticRead (by simp) (means.tag staticUp) before calm
  exact ⟨_, after, after', ran, by rw [ran', sameText]⟩

-- A bracket that a backslash hides from the tag is still seen where the body is cut.
example : cutFallback "<def[x\\>]||element>[hi]" = ("<def[x\\>]", some "element>[hi]") := by
  decide +kernel

def greetingVocabulary : Vocabulary Unit where
  resolvers := [⟨"greeting", fun lookup => OptionT.mk fun world =>
    if lookup.key? 0 = some "who" then .done (some ⟨"greet", 1⟩) world
    else if lookup.key? 0 ≠ some "greet" then .done none world
    else if lookup.key? 1 = some "a[greet]b" then .done (some ⟨"hit", 2⟩) world
    else .bracket 0 world fun text world =>
      .done (if text = some "greet" then some ⟨"hello", 1⟩ else none) world⟩]
  attributes := []
  report := fun _ _ world => world
  note := fun _ _ world => world
  call := fun _ _ => none
  timeout := none

theorem key?_of_outline {chain : Chain} {depth : Nat} {context : Context} {filled : List Component}
    (same : chain.components.map Component.outline = filled.map Component.outline) (position : Nat) :
    Lookup.key? position ⟨chain, depth, context⟩ = filled[position]?.map (·.key) := by
  have here := congrArg (fun outlines : List (String × Bool) => outlines[position]?.map (·.1)) same
  simpa [Component.outline, Lookup.key?, Lookup.component?, Function.comp_def] using here

theorem greetingVocabulary_functional (context : Context) : greetingVocabulary.Functional context where
  resolve := by
    intro resolver member filled
    obtain rfl := List.mem_singleton.1 member
    refine ⟨if filled[0]?.map (·.key) = some "who" then some ⟨"greet", 1⟩
      else if filled[0]?.map (·.key) ≠ some "greet" then none
      else if filled[1]?.map (·.key) = some "a[greet]b" then some ⟨"hit", 2⟩
      else if filled[0]?.bind (·.context) = some "greet" then some ⟨"hello", 1⟩ else none, ?_, ?_⟩
    · intro _ resolved known
      split at known
      · cases known
        decide
      · split at known
        · cases known
        · split at known
          · cases known
            decide
          · split at known
            · cases known
              decide
            · cases known
    · intro chain depth world same
      change Act.Gives filled (if _ then _ else _) _
      rw [key?_of_outline same, key?_of_outline same]
      split
      · exact .done _ _
      · split
        · exact .done _ _
        · split
          · exact .done _ _
          · exact .bracket fun _ => .done _ _
  apply := by simp [greetingVocabulary]

theorem resolveChain_attains_whole {vocabulary : Vocabulary σ} {fill : String → EvalM σ String}
    {lookup : Lookup} (resolved : Resolved) (filling : lookup.chain.components ≠ [])
    (unblank : Text.isBlankText lookup.chain.raw = false)
    (answered : (resolveBase vocabulary fill lookup vocabulary.resolvers []).Attains
      (·.1 = some resolved))
    (whole : lookup.size ≤ resolved.position) :
    (resolveChain vocabulary fill lookup).Attains (· = .ok resolved.value) := by
  rw [resolveChain, if_neg (by simp [filling, unblank])]
  refine .bind answered ?_
  rintro ⟨_, memo⟩ rfl
  dsimp only
  rw [applyAttributes, if_pos whole]
  exact .pure rfl

theorem who_attains (levels : Nat) : (resolveBody greetingVocabulary {} depthLimit (levels + 1)
    (Body.ofText "who")).Attains (· = "greet") := by
  obtain ⟨value, means⟩ := (greetingVocabulary_functional {}).means depthLimit levels
  have read : Chain.parse (Body.ofText "who").lookup = ⟨"who", [⟨"who", none⟩]⟩ := by decide +kernel
  have looksUp : (lookUp greetingVocabulary
      (renderText greetingVocabulary (resolveBody greetingVocabulary {} depthLimit levels)) {}
      (depthLimit - levels) (Body.ofText "who")).Attains (· = .ok "greet") := by
    have unblank : Text.isBlankText "who" = false := by decide
    rw [lookUp_eq, if_neg (by decide +kernel), pure_bind]
    refine .bind (.readChain _) ?_
    rintro _ rfl
    rw [read]
    exact resolveChain_attains_whole ⟨"greet", 1⟩ (List.cons_ne_nil _ _) unblank
      (fun start calm => ⟨_, start, rfl, rfl, calm⟩) (Nat.le_refl 1)
  refine (means.tag looksUp).weaken ?_
  rintro _ rfl
  change escape "greet" = "greet"
  decide

theorem bracketed_who : Bracketed "[<who>]".toList :=
  @Bracketed.square "<who>".toList []
    (@Bracketed.angle "who".toList [] (.of_plain (free_of_all (by decide))) .nil) .nil

theorem dynamic_eq_static_greeting :
    pieces ("<" ++ "who" ++ ">") = [.tag (Body.ofText "who")] ∧
      cutFallback ("<" ++ "who" ++ ">" ++ "[<who>]||none") =
        ("<" ++ "who" ++ ">" ++ (cutFallback "[<who>]||none").1, (cutFallback "[<who>]||none").2) ∧
      ∃ result after after',
        (evaluate greetingVocabulary {} ("<" ++ ("<" ++ "who" ++ ">") ++ "[<who>]||none" ++ ">")).run
            (.fresh ()) = some (result, after) ∧
          (evaluate greetingVocabulary {} ("<" ++ "greet" ++ "[<who>]||none" ++ ">")).run
            (.fresh ()) = some (result, after') := by
  have isTag : pieces ("<" ++ "who" ++ ">") = [.tag (Body.ofText "who")] := by decide +kernel
  have sameCut : cutFallback ("<" ++ "who" ++ ">" ++ "[<who>]||none") =
      ("<" ++ "who" ++ ">" ++ (cutFallback "[<who>]||none").1, (cutFallback "[<who>]||none").2) := by
    decide +kernel
  have letters : ∀ c ∈ "greet".toList, c.isAlpha = true := List.all_eq_true.1 (by decide)
  have calm : (Evaluation.fresh ()).Calm := ⟨.fresh (), rfl⟩
  obtain ⟨_, after, ran, rfl, _⟩ := who_attains 30 (.fresh ()) calm
  exact ⟨isTag, sameCut, dynamic_eq_static (greetingVocabulary_functional {}) isTag (by decide) letters
    (bracketed_who.append (.of_plain (free_of_all (by decide)))) (by decide) sameCut
    (.inr (by decide +kernel)) calm ⟨after, ran⟩⟩

section

variable {value : List Char → List Char}
  (means : greetingVocabulary.Means {} depthLimit (depthLimit - 1) value)

include means

theorem greeting_value : value "who".toList = "greet".toList := by
  have calm : (Evaluation.fresh ()).Calm := ⟨.fresh (), rfl⟩
  obtain ⟨_, _, ran, rfl, _⟩ := means.attains "who".toList (.fresh ()) calm
  obtain ⟨_, _, alsoRan, rfl, _⟩ := who_attains 30 (.fresh ()) calm
  have same := ran.symm.trans alsoRan
  rw [Option.some.injEq, Prod.mk.injEq] at same
  exact String.toList_ofList.symm.trans (congrArg String.toList same.1)

theorem greeting_dynamic_attains :
    (evaluate greetingVocabulary {} "<<who>.a[<who>]b||none>").Attains (· = "hit") := by
  have cut : Body.ofText "<who>.a[<who>]b||none" =
      ⟨"<who>.a[<who>]b||none", "<who>.a[<who>]b", some "none", true⟩ := by decide +kernel
  have filled : filledText value "<who>.a[<who>]b" = "greet.a[greet]b" := by
    have read : signs "<who>.a[<who>]b".toList = .tag "who".toList :: ".a[".toList.map .plain ++
        .tag "who".toList :: "]b".toList.map .plain := by decide +kernel
    have parts : shown value "<who>.a[<who>]b".toList =
        value "who".toList ++ (".a[".toList ++ (value "who".toList ++ "]b".toList)) := by
      rw [shown, read]
      rfl
    rw [filledText, if_pos (by decide), parts, greeting_value means]
    decide
  have chain : Chain.parse "greet.a[greet]b" =
      ⟨"greet.a[greet]b", [⟨"greet", none⟩, ⟨"a[greet]b", none⟩]⟩ := by decide +kernel
  have unblank : Text.isBlankText "greet.a[greet]b" = false := by decide
  have looksUp : (lookUp greetingVocabulary (renderText greetingVocabulary
      (resolveBody greetingVocabulary {} depthLimit (depthLimit - 1))) {} 1
      (Body.ofText "<who>.a[<who>]b||none")).Attains (· = .ok "hit") := by
    rw [lookUp_eq, cut, if_pos rfl]
    refine .bind (means.fills _) ?_
    rintro _ rfl
    rw [filled]
    refine .bind (.readChain _) ?_
    rintro _ rfl
    rw [chain]
    exact resolveChain_attains_whole ⟨"hit", 2⟩ (List.cons_ne_nil _ _) unblank
      (fun start calm => ⟨_, start, rfl, rfl, calm⟩) (Nat.le_refl 2)
  have read : signs "<<who>.a[<who>]b||none>".toList = [.tag "<who>.a[<who>]b||none".toList] := by
    decide +kernel
  refine (evaluate_attains_tag read (by decide) (means.tag looksUp)).weaken ?_
  rintro _ rfl
  change unescape (escape "hit") = "hit"
  decide

theorem greeting_static_attains :
    (evaluate greetingVocabulary {} "<greet.a[<who>]b||none>").Attains (· = "none") := by
  have cut : Body.ofText "greet.a[<who>]b||none" =
      ⟨"greet.a[<who>]b||none", "greet.a[<who>]b", some "none", false⟩ := by decide +kernel
  have chain : Chain.parse "greet.a[<who>]b" =
      ⟨"greet.a[<who>]b", [⟨"greet", none⟩, ⟨"a[<who>]b", none⟩]⟩ := by decide +kernel
  have looksUp : (lookUp greetingVocabulary (renderText greetingVocabulary
      (resolveBody greetingVocabulary {} depthLimit (depthLimit - 1))) {} 1
      (Body.ofText "greet.a[<who>]b||none")).Attains (· = .error (.unrecognised "greet")) := by
    rw [lookUp_eq, cut, if_neg Bool.false_ne_true, pure_bind]
    refine .bind (.readChain _) ?_
    rintro _ rfl
    rw [chain, resolveChain, if_neg (by decide)]
    exact fun start calm => ⟨_, start, rfl, rfl, calm⟩
  have read : signs "<greet.a[<who>]b||none>".toList = [.tag "greet.a[<who>]b||none".toList] := by
    decide +kernel
  refine (evaluate_attains_tag read (by decide) (means.tag looksUp)).weaken ?_
  rintro _ rfl
  rw [cut]
  change unescape (filledText value "none") = "none"
  rw [filledText, if_neg (by decide)]
  decide

end

/-- In a key a tag stays as it is, unless the whole body is filled first. -/
theorem dynamic_key_is_filled :
    greetingVocabulary.Functional {} ∧
      pieces ("<" ++ "who" ++ ">") = [.tag (Body.ofText "who")] ∧
      (∃ after, (resolveBody greetingVocabulary {} depthLimit (depthLimit - 1)
        (Body.ofText "who")).run (.fresh ()) = some ("greet", after)) ∧
      Bracketed ".a[<who>]b||none".toList ∧ '\\' ∉ ".a[<who>]b||none".toList ∧
      ((evaluate greetingVocabulary {} "<<who>.a[<who>]b||none>").run (.fresh ())).map (·.1) =
        some "hit" ∧
      ((evaluate greetingVocabulary {} "<greet.a[<who>]b||none>").run (.fresh ())).map (·.1) =
        some "none" := by
  have calm : (Evaluation.fresh ()).Calm := ⟨.fresh (), rfl⟩
  obtain ⟨value, means⟩ := (greetingVocabulary_functional {}).means depthLimit (depthLimit - 1)
  obtain ⟨_, afterWho, ranWho, rfl, _⟩ := who_attains 30 (.fresh ()) calm
  obtain ⟨_, _, ranDynamic, rfl, _⟩ := greeting_dynamic_attains means (.fresh ()) calm
  obtain ⟨_, _, ranStatic, rfl, _⟩ := greeting_static_attains means (.fresh ()) calm
  refine ⟨greetingVocabulary_functional {}, by decide +kernel, ⟨afterWho, ranWho⟩, ?_, by decide,
    ?_, ?_⟩
  · exact (@Bracketed.of_plain ".a".toList (free_of_all (by decide))).append
      (bracketed_who.append (@Bracketed.of_plain "b||none".toList (free_of_all (by decide))))
  · rw [ranDynamic]
    rfl
  · rw [ranStatic]
    rfl

end TagScript.Tag
