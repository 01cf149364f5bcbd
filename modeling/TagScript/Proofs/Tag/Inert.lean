import TagScript.Proofs.Tag.Shortcut

/-! Definitions in texts with tags. The value of a `%name%` is put in escaped, and stands in the
filled text as it is; only a backslash at its very end can be taken together with an angle bracket
behind it. -/

namespace TagScript

namespace Definition

theorem fragments_append {front : List Char} (unmarked : '%' ∉ front) (rest : List Char) :
    fragments (front ++ rest) = front.map .plain ++ fragments rest := by
  induction front with
  | nil => rfl
  | cons c front ih =>
      simp only [List.mem_cons, not_or] at unmarked
      rw [List.cons_append, fragments, if_neg fun same => unmarked.1 same.symm, ih unmarked.2,
        List.map_cons, List.cons_append]

theorem mark?_name {name : List Char} (named : name ≠ []) (chars : ∀ c ∈ name, isNameChar c = true)
    (after : List Char) : mark? (name ++ '%' :: after) = some (.mark name false, after) := by
  have front : (name ++ '%' :: after).takeWhile isNameChar = name := by
    rw [List.takeWhile_append_of_pos chars, List.takeWhile_cons_of_neg (by decide),
      List.append_nil]
  have back : (name ++ '%' :: after).dropWhile isNameChar = '%' :: after := by
    rw [List.dropWhile_append_of_pos chars, List.dropWhile_cons_of_neg (by decide)]
  cases name with
  | nil => contradiction
  | cons first name =>
      have notBar : first ≠ '|' := by
        rintro rfl
        exact absurd (chars '|' List.mem_cons_self) (by decide)
      unfold mark?
      split
      · rename_i inner bar
        exact absurd (List.cons.inj bar).1 notBar
      · rw [front, back]
        rfl

theorem fragments_mark {name : List Char} (named : name ≠ [])
    (chars : ∀ c ∈ name, isNameChar c = true) (after : List Char) :
    fragments ('%' :: (name ++ '%' :: after)) = .mark name false :: fragments after := by
  have found := mark?_name named chars after
  rw [fragments, if_pos rfl]
  split
  · rename_i mark rest found'
    rw [found] at found'
    obtain ⟨rfl, rfl⟩ := Prod.mk.inj (Option.some.inj found')
    rfl
  · rename_i missing
    rw [found] at missing
    contradiction

theorem substitute_mark {lookup : String → Option String} {before name value after : String}
    (named : name.toList ≠ []) (chars : ∀ c ∈ name.toList, isNameChar c = true)
    (found : lookup name = some value) (unmarkedBefore : '%' ∉ before.toList)
    (unmarkedAfter : '%' ∉ after.toList) :
    substitute lookup (before ++ "%" ++ name ++ "%" ++ after) =
      (before ++ Tag.escape value ++ after, []) := by
  have cut : fragments (before ++ "%" ++ name ++ "%" ++ after).toList =
      before.toList.map .plain ++ .mark name.toList false :: after.toList.map .plain := by
    have text : (before ++ "%" ++ name ++ "%" ++ after).toList =
        before.toList ++ '%' :: (name.toList ++ '%' :: after.toList) := by
      simp
    have last := fragments_append unmarkedAfter []
    rw [List.append_nil, fragments, List.append_nil] at last
    rw [text, fragments_append unmarkedBefore, fragments_mark named chars, last]
  unfold substitute
  rw [cut]
  refine Prod.ext (String.toList_inj.1 ?_) ?_
  · simp [List.flatMap_map, Fragment.fill, found]
  · simp [List.flatMap_map, Fragment.fill, found]

end Definition

namespace Tag

variable {σ τ : Type}

theorem escapeChar_ne_angle (c : Char) : escapeChar c ≠ '<' ∧ escapeChar c ≠ '>' := by
  have replaced : ∀ pair ∈ standIns, pair.2 ≠ '<' ∧ pair.2 ≠ '>' := by decide
  cases found : standIns.find? (·.1 == c) with
  | some pair =>
      simpa [escapeChar, found] using replaced pair (List.mem_of_find?_eq_some found)
  | none =>
      have kept : escapeChar c = c := by simp [escapeChar, found]
      rw [kept]
      constructor
      · rintro rfl
        exact absurd found (by decide)
      · rintro rfl
        exact absurd found (by decide)

theorem eq_backslash_of_escapeChar {c : Char} (escaped : escapeChar c = '\\') : c = '\\' := by
  have replaced : ∀ pair ∈ standIns, pair.2 ≠ '\\' := by decide
  cases found : standIns.find? (·.1 == c) with
  | some pair =>
      have same : pair.2 = '\\' := by simpa [escapeChar, found] using escaped
      exact absurd same (replaced pair (List.mem_of_find?_eq_some found))
  | none => simpa [escapeChar, found] using escaped

theorem signs_plain_append {chars behind : List Char}
    (plain : ∀ c ∈ chars, c ≠ '<' ∧ c ≠ '>')
    (apart : chars.getLast? = some '\\' →
      behind.head? ≠ some '<' ∧ behind.head? ≠ some '>') :
    signs (chars ++ behind) = chars.map .plain ++ signs behind := by
  induction chars with
  | nil => rfl
  | cons c rest ih =>
      have alone : standsAlone c (rest ++ behind) := by
        refine ⟨(plain c List.mem_cons_self).1, ?_⟩
        rintro rfl tail
        cases rest with
        | nil =>
            have unhidden := apart rfl
            constructor
            · intro same
              exact unhidden.1 (congrArg List.head? same)
            · intro same
              exact unhidden.2 (congrArg List.head? same)
        | cons second rest =>
            have next := plain second (by simp)
            constructor
            · intro same
              exact next.1 (List.cons.inj same).1
            · intro same
              exact next.2 (List.cons.inj same).1
      have apartRest : rest.getLast? = some '\\' →
          behind.head? ≠ some '<' ∧ behind.head? ≠ some '>' := by
        intro last
        exact apart (by rw [List.getLast?_cons, last]; rfl)
      rw [List.cons_append, signs_of_standsAlone alone,
        ih (fun d member => plain d (List.mem_cons_of_mem c member)) apartRest, List.map_cons,
        List.cons_append]

/-- Filling these pieces stops before one of their tags, since it was cancelled before. -/
def CutShort (resolve : Body → EvalM σ String) : List Piece → Evaluation σ → Prop
  | [], _ => False
  | .literal _ :: rest, state => CutShort resolve rest state
  | .tag body :: rest, state =>
    state.isCancelled = true ∨
      ∃ value later, (resolve body).run state = some (value, later) ∧ CutShort resolve rest later

theorem cutShort_literalOf (resolve : Body → EvalM σ String) (gathered : List Char)
    (rest : List Piece) (state : Evaluation σ) :
    CutShort resolve (literalOf gathered ++ rest) state ↔ CutShort resolve rest state := by
  cases gathered with
  | nil => rfl
  | cons c gathered => rfl

theorem renderPieces_read_append (resolve : Body → EvalM σ String) (gathered : List Char)
    (front back : List Sign) {state : Evaluation σ}
    (whole : ¬ CutShort resolve (piecesFrom gathered front) state) :
    (renderPieces resolve (piecesFrom gathered (front ++ back))).run state = (do
      let first ← renderPieces resolve (piecesFrom gathered front)
      let second ← renderPieces resolve (piecesFrom [] back)
      return first ++ second).run state := by
  induction front generalizing gathered state with
  | nil =>
      have literal := renderPieces_literalOf resolve gathered []
      rw [List.append_nil] at literal
      rw [List.nil_append, renderPieces_gathered, piecesFrom, literal]
      simp [renderPieces]
  | cons sign rest ih =>
      cases sign with
      | plain c => exact ih (c :: gathered) whole
      | tag body =>
          rw [piecesFrom, cutShort_literalOf] at whole
          obtain ⟨uncancelled, wholeRest⟩ := not_or.1 whole
          have uncancelled : state.isCancelled = false := by simpa using uncancelled
          rw [List.cons_append, piecesFrom, piecesFrom, renderPieces_literalOf,
            renderPieces_literalOf]
          simp only [bind_assoc, pure_bind]
          rw [EvalM.run_bind_of_run_eq (renderPieces_tag _ _ uncancelled),
            EvalM.run_bind_of_run_eq (renderPieces_tag _ _ uncancelled)]
          simp only [bind_assoc, pure_bind, String.append_assoc]
          -- the tag may itself cancel, so the rest matters only where this tag leads
          have led : EvalM.Ensures (· = state) (resolve (Body.ofText (String.ofList body)))
              fun value later =>
                (resolve (Body.ofText (String.ofList body))).run state = some (value, later) := by
            rintro _ value later rfl ran
            exact ran
          refine led.run_bind_congr (fun value later ran => ?_) rfl
          have wholeLater : ¬ CutShort resolve (piecesFrom [] rest) later :=
            fun cut => wholeRest ⟨value, later, ran, cut⟩
          rw [EvalM.run_bind_of_run_eq (ih [] wholeLater)]
          simp only [bind_assoc, pure_bind]

section

variable {vocabulary : Vocabulary σ} {seen : σ → τ} {context : Context}
  {state : Evaluation σ} {lookup : String → Option String} {before name value after : String}

theorem not_hidden_of_not_mem {text : List Char} (straight : '\\' ∉ text) :
    ¬ ['\\', '>'] <:+: text := by
  intro hidden
  exact straight (hidden.subset List.mem_cons_self)

theorem evaluate_read (sees : vocabulary.SeesOnly seen) (faithful : state.Faithful)
    {text rest : String} {behind chars : List Char} (split : text.toList = before.toList ++ behind)
    (tagged : '<' ∈ text.toList) (closed : Closed before) (straight : '\\' ∉ before.toList)
    (read : signs behind = chars.map .plain ++ signs rest.toList)
    (whole :
      ¬ CutShort (resolveBody vocabulary context depthLimit depthLimit) (pieces before) state) :
    SameOutcome seen ((evaluate vocabulary context text).run state) ((do
      let front ← evaluate vocabulary context before
      let back ← evaluatePieces vocabulary context (pieces rest)
      return front ++ unescape (String.ofList chars) ++ back).run state) := by
  have agree := evaluate_agree_pieces sees context (.inl tagged) state state (.refl faithful)
  have parts : (evaluatePieces vocabulary context (pieces text)).run state = (do
      let front ← evaluatePieces vocabulary context (pieces before)
      let back ← evaluatePieces vocabulary context (pieces rest)
      return front ++ unescape (String.ofList chars) ++ back).run state := by
    have cut := renderPieces_read_append _ [] (signs before.toList)
      (chars.map .plain ++ signs rest.toList) whole
    unfold evaluatePieces
    rw [pieces, split, signs_append _ _ closed.noBackslash closed.settled, read,
      EvalM.run_bind_of_run_eq cut]
    simp only [renderPieces_plain, bind_assoc, pure_bind, unescape_append, String.append_assoc,
      pieces]
  rw [parts] at agree
  have alone := evaluate_agree_pieces sees context (.inr (not_hidden_of_not_mem straight))
  refine agree.trans (EvalM.Agree.bind alone.symm ?_ state state (.refl faithful))
  intro front
  exact .bind (evaluatePieces_agree sees context _) fun back => .pure _

/-- A mark for a known name, between a closed text and any other, neither with marks or
backslashes of its own. -/
structure Insertion (lookup : String → Option String) (before name value after : String) :
    Prop where
  named : name.toList ≠ []
  nameChars : ∀ c ∈ name.toList, Definition.isNameChar c = true
  found : lookup name = some value
  unmarked : Unmarked value
  closed : Closed before
  front : '%' ∉ before.toList ∧ '\\' ∉ before.toList
  back : '%' ∉ after.toList ∧ '\\' ∉ after.toList

/-- The value ends in a backslash, an angle bracket follows it, and there is a `<` that lets the
text be read for tags. -/
def Swallows (before value after : String) : Prop :=
  value.toList.getLast? = some '\\' ∧
    (after.toList.head? = some '<' ∨ after.toList.head? = some '>') ∧
    ('<' ∈ before.toList ∨ '<' ∈ after.toList)

theorem ne_angle_of_mem_escape {value : String} {c : Char} (member : c ∈ (escape value).toList) :
    c ≠ '<' ∧ c ≠ '>' := by
  simp only [escape, String.toList_ofList, List.mem_map] at member
  obtain ⟨original, _, rfl⟩ := member
  exact escapeChar_ne_angle original

theorem signs_escape_append (value : String) {behind : List Char}
    (apart : value.toList.getLast? = some '\\' →
      behind.head? ≠ some '<' ∧ behind.head? ≠ some '>') :
    signs ((escape value).toList ++ behind) =
      (escape value).toList.map .plain ++ signs behind := by
  refine signs_plain_append (fun c member => ne_angle_of_mem_escape member) fun last => apart ?_
  simp only [escape, String.toList_ofList, List.getLast?_map, Option.map_eq_some_iff] at last
  obtain ⟨original, last, escaped⟩ := last
  rw [last, eq_backslash_of_escapeChar escaped]

theorem lt_mem_inserted (before value after : String) :
    '<' ∈ (before ++ escape value ++ after).toList ↔
      '<' ∈ before.toList ∨ '<' ∈ after.toList := by
  have plain : '<' ∉ (escape value).toList := fun member => (ne_angle_of_mem_escape member).1 rfl
  simp [plain]

theorem evaluate_inserted (sees : vocabulary.SeesOnly seen) (faithful : state.Faithful)
    (insertion : Insertion lookup before name value after)
    (whole :
      ¬ CutShort (resolveBody vocabulary context depthLimit depthLimit) (pieces before) state)
    (apart : ¬ Swallows before value after) :
    SameOutcome seen ((evaluate vocabulary context (before ++ escape value ++ after)).run state)
      ((do
        let front ← evaluate vocabulary context before
        let back ← evaluate vocabulary context after
        return front ++ value ++ back).run state) := by
  by_cases tagged : '<' ∈ before.toList ∨ '<' ∈ after.toList
  · have unhidden (last : value.toList.getLast? = some '\\') :
        after.toList.head? ≠ some '<' ∧ after.toList.head? ≠ some '>' := by
      constructor
      · intro head
        exact apart ⟨last, .inl head, tagged⟩
      · intro head
        exact apart ⟨last, .inr head, tagged⟩
    have read := signs_escape_append value unhidden
    have split : (before ++ escape value ++ after).toList =
        before.toList ++ ((escape value).toList ++ after.toList) := by
      simp
    have filled := evaluate_read sees faithful split ((lt_mem_inserted before value after).2 tagged)
      insertion.closed insertion.front.2 read whole
    rw [String.ofList_toList, unescape_escape insertion.unmarked] at filled
    have alone := evaluate_agree_pieces sees context
      (.inr (not_hidden_of_not_mem insertion.back.2))
    refine filled.trans (EvalM.Agree.bind (evaluate_agree sees context before) ?_ state state
      (.refl faithful))
    intro front
    exact .bind alone.symm fun back => .pure _
  · -- No part holds a `<`, so nothing is read at all.
    have taglessText := mt (lt_mem_inserted before value after).1 tagged
    obtain ⟨taglessBefore, taglessAfter⟩ := not_or.1 tagged
    rw [evaluate_of_not_mem vocabulary context taglessText,
      evaluate_of_not_mem vocabulary context taglessBefore,
      evaluate_of_not_mem vocabulary context taglessAfter, pure_bind, pure_bind, unescape_append,
      unescape_append, unescape_escape insertion.unmarked]
    exact .some ⟨rfl, .refl faithful⟩

theorem evaluate_swallowed (sees : vocabulary.SeesOnly seen) (faithful : state.Faithful)
    {kept rest : String} {angle : Char} (isAngle : angle = '<' ∨ angle = '>')
    (insertion : Insertion lookup before name (kept ++ "\\") (String.singleton angle ++ rest))
    (tagged : '<' ∈ before.toList ∨ '<' ∈ (String.singleton angle ++ rest).toList)
    (whole :
      ¬ CutShort (resolveBody vocabulary context depthLimit depthLimit) (pieces before) state) :
    SameOutcome seen
      ((evaluate vocabulary context
        (before ++ escape (kept ++ "\\") ++ (String.singleton angle ++ rest))).run state)
      ((do
        let front ← evaluate vocabulary context before
        let back ← evaluatePieces vocabulary context (pieces rest)
        return front ++ kept ++ String.singleton angle ++ back).run state) := by
  have read : signs ((escape kept).toList ++ '\\' :: angle :: rest.toList) =
      ((escape kept).toList ++ [escapeChar angle]).map .plain ++ signs rest.toList := by
    have hidden : signs ('\\' :: angle :: rest.toList) =
        .plain (escapeChar angle) :: signs rest.toList := by
      rcases isAngle with rfl | rfl
      · rw [signs]
      · rw [signs]
    rw [signs_escape_append kept (by simp), hidden]
    simp
  have split : (before ++ escape (kept ++ "\\") ++ (String.singleton angle ++ rest)).toList =
      before.toList ++ ((escape kept).toList ++ '\\' :: angle :: rest.toList) := by
    have backslash : escapeChar '\\' = '\\' := by decide
    simp [escape, backslash]
  have filled := evaluate_read sees faithful split
    ((lt_mem_inserted before (kept ++ "\\") _).2 tagged) insertion.closed insertion.front.2 read
    whole
  have unmarked : Unmarked kept := by
    intro c member
    exact insertion.unmarked c (by simp [member])
  have shown : unescape (String.ofList ((escape kept).toList ++ [escapeChar angle])) =
      kept ++ String.singleton angle := by
    rw [String.ofList_append, unescape_append, String.ofList_toList, unescape_escape unmarked]
    rcases isAngle with rfl | rfl
    · rfl
    · rfl
  rw [shown] at filled
  simp only [String.append_assoc] at filled ⊢
  exact filled

theorem evaluate_swallowed_ne (sees : vocabulary.SeesOnly seen) (faithful : state.Faithful)
    {kept rest : String} {angle : Char} (isAngle : angle = '<' ∨ angle = '>')
    (insertion : Insertion lookup before name (kept ++ "\\") (String.singleton angle ++ rest))
    (tagged : '<' ∈ before.toList ∨ '<' ∈ (String.singleton angle ++ rest).toList)
    (whole :
      ¬ CutShort (resolveBody vocabulary context depthLimit depthLimit) (pieces before) state)
    (given : (evaluate vocabulary context
      (before ++ escape (kept ++ "\\") ++ (String.singleton angle ++ rest))).run state ≠ none) :
    ¬ SameOutcome seen
      ((evaluate vocabulary context
        (before ++ escape (kept ++ "\\") ++ (String.singleton angle ++ rest))).run state)
      ((do
        let front ← evaluate vocabulary context before
        let back ← evaluate vocabulary context (String.singleton angle ++ rest)
        return front ++ (kept ++ "\\") ++ back).run state) := by
  intro same
  have swallowed := evaluate_swallowed sees faithful isAngle insertion tagged whole
  obtain ⟨⟨text, later⟩, ran⟩ := Option.ne_none_iff_exists'.1 given
  obtain ⟨_, ranSwallowed⟩ := swallowed.result ran
  obtain ⟨_, ranSame⟩ := same.result ran
  obtain ⟨front, _, ranFront, ranSwallowed⟩ := EvalM.run_bind_eq_some.1 ranSwallowed
  obtain ⟨front', _, ranFront', ranSame⟩ := EvalM.run_bind_eq_some.1 ranSame
  obtain ⟨back, _, _, ranSwallowed⟩ := EvalM.run_bind_eq_some.1 ranSwallowed
  obtain ⟨back', _, _, ranSame⟩ := EvalM.run_bind_eq_some.1 ranSame
  obtain rfl : front' = front := by
    rw [ranFront] at ranFront'
    exact (Prod.mk.inj (Option.some.inj ranFront')).1.symm
  have texts : front' ++ kept ++ String.singleton angle ++ back =
      front' ++ (kept ++ "\\") ++ back' :=
    (EvalM.run_pure_eq_some.1 ranSwallowed).1.trans (EvalM.run_pure_eq_some.1 ranSame).1.symm
  have chars := congrArg String.toList texts
  simp only [String.toList_append, String.toList_singleton, List.append_assoc,
    List.append_cancel_left_eq] at chars
  have lost : angle = '\\' := (List.cons.inj chars).1
  rcases isAngle with rfl | rfl
  · exact absurd lost (by decide)
  · exact absurd lost (by decide)

theorem Swallows.split (swallows : Swallows before value after) :
    ∃ kept angle rest, (angle = '<' ∨ angle = '>') ∧ value = kept ++ "\\" ∧
      after = String.singleton angle ++ rest := by
  obtain ⟨last, head, _⟩ := swallows
  obtain ⟨kept, value_eq⟩ := List.getLast?_eq_some_iff.1 last
  have bracketed : ∃ angle rest, (angle = '<' ∨ angle = '>') ∧ after.toList = angle :: rest := by
    rcases head with head | head
    · obtain ⟨rest, split⟩ := List.head?_eq_some_iff.1 head
      exact ⟨'<', rest, .inl rfl, split⟩
    · obtain ⟨rest, split⟩ := List.head?_eq_some_iff.1 head
      exact ⟨'>', rest, .inr rfl, split⟩
  obtain ⟨angle, rest, isAngle, after_eq⟩ := bracketed
  refine ⟨String.ofList kept, angle, String.ofList rest, isAngle, ?_, ?_⟩
  · exact String.toList_inj.1 (by simp [value_eq])
  · exact String.toList_inj.1 (by simp [after_eq])

/-- A value is inert: the texts around it are filled as if they stood alone, and it stands between
them as it is, just if no backslash at its end is taken together with an angle bracket. -/
theorem insertion_inert_iff (sees : vocabulary.SeesOnly seen) (faithful : state.Faithful)
    (insertion : Insertion lookup before name value after)
    (whole :
      ¬ CutShort (resolveBody vocabulary context depthLimit depthLimit) (pieces before) state) :
    let filled := (evaluate vocabulary context
      (Definition.substitute lookup (before ++ "%" ++ name ++ "%" ++ after)).1).run state
    let parts := (do
      let front ← evaluate vocabulary context before
      let back ← evaluate vocabulary context after
      return front ++ value ++ back).run state
    (¬ Swallows before value after → SameOutcome seen filled parts) ∧
      (Swallows before value after → filled ≠ none → ¬ SameOutcome seen filled parts) := by
  have substituted := Definition.substitute_mark insertion.named insertion.nameChars
    insertion.found insertion.front.1 insertion.back.1
  rw [substituted]
  refine ⟨evaluate_inserted sees faithful insertion whole, fun swallows => ?_⟩
  obtain ⟨kept, angle, rest, isAngle, rfl, rfl⟩ := swallows.split
  exact evaluate_swallowed_ne sees faithful isAngle insertion swallows.2.2 whole

end

theorem insertion_after_comparison :
    Insertion (fun _ => some "<i>\\") "a < b " "x" "<i>\\" " <c>" where
  named := by decide
  nameChars := by simp [Definition.isNameChar, Text.isBlank]
  found := rfl
  unmarked := by simp [Unmarked, isStandIn, standIns]
  closed := closed_comparison
  front := by decide
  back := by decide

theorem insertion_inert_iff_after_comparison :
    SameOutcome id
      ((evaluate syntaxVocabulary {} (Definition.substitute (fun _ => some "<i>\\")
        ("a < b " ++ "%" ++ "x" ++ "%" ++ " <c>")).1).run (.fresh []))
      ((do
        let front ← evaluate syntaxVocabulary {} "a < b "
        let back ← evaluate syntaxVocabulary {} " <c>"
        return front ++ "<i>\\" ++ back).run (.fresh [])) := by
  have read : pieces "a < b " = [.literal "a < b "] := by decide +kernel
  refine (insertion_inert_iff syntaxVocabulary_seesOnly (.fresh []) insertion_after_comparison
    ?_).1 ?_
  · rw [read]
    exact id
  · simp [Swallows]

/-- Behind a backslash the tag `<c>` is taken for text, and the backslash is gone. -/
theorem insertion_swallows_tag :
    ((evaluate syntaxVocabulary {} (Definition.substitute (fun _ => some "\\")
        ("" ++ "%" ++ "x" ++ "%" ++ "<c>")).1).run (.fresh [])).map (·.1) = some "<c>" ∧
      ∀ text state,
        (do
          let front ← evaluate syntaxVocabulary {} ""
          let back ← evaluate syntaxVocabulary {} "<c>"
          return front ++ "\\" ++ back).run (.fresh []) = some (text, state) →
        text ≠ "<c>" := by
  constructor
  · have substituted : (Definition.substitute (fun _ => some "\\")
        ("" ++ "%" ++ "x" ++ "%" ++ "<c>")).1 = "\\<c>" := by decide +kernel
    have read : pieces "\\<c>" = [.literal "\ue000c>"] := by decide +kernel
    have agree : SameOutcome id ((evaluate syntaxVocabulary {} "\\<c>").run (.fresh []))
        ((evaluatePieces syntaxVocabulary {} (pieces "\\<c>")).run (.fresh [])) :=
      evaluate_agree_pieces syntaxVocabulary_seesOnly {} (.inl (by decide)) _ _ (.refl (.fresh []))
    rw [read] at agree
    obtain ⟨later, ran⟩ := agree.symm.result rfl
    rw [substituted, ran]
    rfl
  · intro text state ran
    have empty : unescape "" = "" := rfl
    rw [evaluate_of_not_mem syntaxVocabulary {} (by decide), empty, pure_bind] at ran
    obtain ⟨back, _, _, ran⟩ := EvalM.run_bind_eq_some.1 ran
    obtain ⟨rfl, _⟩ := EvalM.run_pure_eq_some.1 ran
    intro same
    simpa using congrArg (fun text => text.toList.head?) same

end Tag

end TagScript
