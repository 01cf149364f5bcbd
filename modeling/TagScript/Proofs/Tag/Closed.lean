import TagScript.Tag.Template

/-! Texts that can be read in parts. A text is closed when nothing behind it can change how it is
read; then the pieces of a longer text are the pieces of its parts. -/

namespace TagScript.Tag

def behindChar (hidden : Bool) (depth : Nat) (c : Char) : Bool × Nat :=
  if hidden then (false, depth) else if c = '\\' then (true, depth) else (false, tagDepth depth c)

theorem closeTag_cons (hidden : Bool) (depth : Nat) (c : Char) (rest : List Char) :
    closeTag hidden depth (c :: rest) =
      if !hidden && c = '>' && depth == 0 then some ([], rest)
      else (closeTag (behindChar hidden depth c).1 (behindChar hidden depth c).2 rest).map
        fun (body, after) => (c :: body, after) := by
  rw [closeTag]
  split
  · rfl
  · unfold behindChar
    split
    · rfl
    · split <;> rfl

theorem closeTag_split {hidden : Bool} {depth : Nat} {text body after : List Char}
    (closed : closeTag hidden depth text = some (body, after)) : text = body ++ '>' :: after := by
  induction text generalizing hidden depth body after with
  | nil => simp [closeTag] at closed
  | cons c rest ih =>
      rw [closeTag_cons] at closed
      split at closed
      · rename_i closes
        simp only [Bool.and_eq_true, decide_eq_true_eq] at closes
        simp only [Option.some.injEq, Prod.mk.injEq] at closed
        obtain ⟨rfl, rfl⟩ := closed
        simp [closes.1.2]
      · obtain ⟨⟨inner, tail⟩, found, shape⟩ := Option.map_eq_some_iff.1 closed
        simp only [Prod.mk.injEq] at shape
        obtain ⟨rfl, rfl⟩ := shape
        rw [ih found, List.cons_append]

/-- The tag that closes first does not depend on what stands behind it. -/
theorem closeTag_append {hidden : Bool} {depth : Nat} {text body after : List Char}
    (behind : List Char) (closed : closeTag hidden depth text = some (body, after)) :
    closeTag hidden depth (text ++ behind) = some (body, after ++ behind) := by
  induction text generalizing hidden depth body after with
  | nil => simp [closeTag] at closed
  | cons c rest ih =>
      rw [closeTag_cons] at closed
      rw [List.cons_append, closeTag_cons]
      split at closed
      · rename_i closes
        simp only [Option.some.injEq, Prod.mk.injEq] at closed
        obtain ⟨rfl, rfl⟩ := closed
        rw [if_pos closes]
      · rename_i goesOn
        obtain ⟨⟨inner, tail⟩, found, shape⟩ := Option.map_eq_some_iff.1 closed
        simp only [Prod.mk.injEq] at shape
        obtain ⟨rfl, rfl⟩ := shape
        rw [if_neg goesOn, ih found]
        rfl

/-! One equation for each way in which a sign can be read. -/

theorem signs_of_opening {rest body after : List Char} (opens : opensTag rest = true)
    (closed : closeTag false 0 rest = some (body, after)) :
    signs ('<' :: rest) = .tag body :: signs after := by
  rw [signs, if_pos opens]
  split
  · rename_i body' after' closed'
    rw [closed] at closed'
    simp only [Option.some.injEq, Prod.mk.injEq] at closed'
    rw [closed'.1, closed'.2]
  · rename_i unclosed
    rw [closed] at unclosed
    contradiction

theorem signs_of_unclosed {rest : List Char} (opens : opensTag rest = true)
    (unclosed : closeTag false 0 rest = none) :
    signs ('<' :: rest) = .plain '<' :: signs rest := by
  rw [signs, if_pos opens]
  split
  · rename_i closed
    rw [unclosed] at closed
    contradiction
  · rfl

theorem signs_of_not_opening {rest : List Char} (opens : opensTag rest = false) :
    signs ('<' :: rest) = .plain '<' :: signs rest := by
  rw [signs, if_neg (by simp [opens])]

def standsAlone (c : Char) (rest : List Char) : Prop :=
  c ≠ '<' ∧ (c = '\\' → ∀ behind, rest ≠ '<' :: behind ∧ rest ≠ '>' :: behind)

theorem signs_of_standsAlone {c : Char} {rest : List Char} (alone : standsAlone c rest) :
    signs (c :: rest) = .plain c :: signs rest := by
  rw [signs]
  · intro behind isBackslash isAngle
    exact (alone.2 isBackslash behind).1 isAngle
  · intro behind isBackslash isAngle
    exact (alone.2 isBackslash behind).2 isAngle
  · exact alone.1

/-! A `<` that is left plain is settled once the character behind it is known. -/

def keepsPlain (c : Char) : Bool :=
  Text.isBlank c || c == '=' || c == '>'

theorem opensTag_cons (c : Char) (rest : List Char) : opensTag (c :: rest) = !keepsPlain c := rfl

def Settled : List Sign → Prop
  | [] => True
  | .plain c :: rest =>
    (c = '<' → ∃ next behind, rest = .plain next :: behind ∧ keepsPlain next = true) ∧ Settled rest
  | .tag _ :: rest => Settled rest

theorem head_of_signs_keepsPlain {text : List Char} {c : Char} {behind : List Sign}
    (read : signs text = .plain c :: behind) (keeps : keepsPlain c = true) :
    ∃ rest, text = c :: rest := by
  have standIns : keepsPlain (escapeChar '<') = false ∧ keepsPlain (escapeChar '>') = false ∧
      keepsPlain '<' = false := by decide
  fun_cases signs text with
  | case1 => simp [signs] at read
  | case2 rest =>
      rw [signs] at read
      simp only [List.cons.injEq, Sign.plain.injEq] at read
      rw [← read.1, standIns.1] at keeps
      contradiction
  | case3 rest =>
      rw [signs] at read
      simp only [List.cons.injEq, Sign.plain.injEq] at read
      rw [← read.1, standIns.2.1] at keeps
      contradiction
  | case4 rest opens body after closed =>
      rw [signs_of_opening opens closed] at read
      simp at read
  | case5 rest opens unclosed =>
      rw [signs_of_unclosed opens unclosed] at read
      simp only [List.cons.injEq, Sign.plain.injEq] at read
      exact ⟨rest, by rw [read.1]⟩
  | case6 rest opens =>
      rw [signs_of_not_opening (by simpa using opens)] at read
      simp only [List.cons.injEq, Sign.plain.injEq] at read
      exact ⟨rest, by rw [read.1]⟩
  | case7 first rest noOpen noClose notAngle =>
      rw [signs_of_standsAlone ⟨notAngle, fun isBackslash behind =>
        ⟨noOpen behind isBackslash, noClose behind isBackslash⟩⟩] at read
      simp only [List.cons.injEq, Sign.plain.injEq] at read
      exact ⟨rest, by rw [read.1]⟩

theorem opensTag_append {rest : List Char} (behind : List Char) (filled : rest ≠ []) :
    opensTag (rest ++ behind) = opensTag rest := by
  cases rest with
  | nil => contradiction
  | cons c rest => rfl

theorem getLast?_of_suffix {text : List Char} {c : Char} (before : List Char)
    (last : (before ++ text).getLast? ≠ some c) : text.getLast? ≠ some c := by
  intro ends
  apply last
  rw [List.getLast?_append, ends, Option.some_or]

/-- A text without an open end is read the same whatever stands behind it. -/
theorem signs_append (text behind : List Char) (last : text.getLast? ≠ some '\\')
    (settled : Settled (signs text)) : signs (text ++ behind) = signs text ++ signs behind := by
  fun_induction signs text with
  | case1 => simp
  | case2 rest ih =>
      rw [List.cons_append, List.cons_append, signs, ih (getLast?_of_suffix ['\\', '<'] last)
        settled.2, List.cons_append]
  | case3 rest ih =>
      rw [List.cons_append, List.cons_append, signs, ih (getLast?_of_suffix ['\\', '>'] last)
        settled.2, List.cons_append]
  | case4 rest opens body after closed ih =>
      have filled : rest ≠ [] := by
        rintro rfl
        simp [opensTag] at opens
      have split : '<' :: rest = ('<' :: body ++ ['>']) ++ after := by
        simp [closeTag_split closed]
      rw [split] at last
      rw [List.cons_append, signs_of_opening (by rwa [opensTag_append behind filled])
        (closeTag_append behind closed), ih (getLast?_of_suffix _ last) settled, List.cons_append]
  | case5 rest opens unclosed ih =>
      -- Such a `<` could still open a tag, so the text was not settled.
      obtain ⟨next, _, read, keeps⟩ := settled.1 rfl
      obtain ⟨_, rfl⟩ := head_of_signs_keepsPlain read keeps
      simp [opensTag_cons, keeps] at opens
  | case6 rest opens ih =>
      obtain ⟨next, _, read, keeps⟩ := settled.1 rfl
      obtain ⟨tail, rfl⟩ := head_of_signs_keepsPlain read keeps
      have stays : opensTag (next :: tail ++ behind) = false := by
        simp [opensTag_cons, keeps]
      rw [List.cons_append, signs_of_not_opening stays,
        ih (getLast?_of_suffix ['<'] last) settled.2, List.cons_append]
  | case7 first rest noOpen noClose notAngle ih =>
      have alone : standsAlone first (rest ++ behind) := by
        refine ⟨notAngle, ?_⟩
        rintro rfl tail
        cases rest with
        | nil => simp at last
        | cons second rest =>
            constructor
            · intro same
              simp only [List.cons_append, List.cons.injEq] at same
              exact noOpen rest rfl (by rw [same.1])
            · intro same
              simp only [List.cons_append, List.cons.injEq] at same
              exact noClose rest rfl (by rw [same.1])
      rw [List.cons_append, signs_of_standsAlone alone,
        ih (getLast?_of_suffix [first] last) settled.2, List.cons_append]

/-! Closed texts are told by their pieces. -/

def AnglesFollowed (literal : String) : Prop :=
  ∀ before after, literal.toList = before ++ '<' :: after →
    ∃ next behind, after = next :: behind ∧ keepsPlain next = true

/-- A text whose end is not open: it does not end in a backslash, and every `<` that reading it
leaves in a literal is followed by a blank, `=` or `>`. Behind a `<` a literal goes on just as the
text does or with a stand-in, so it makes no difference that the literal is looked at and not the
text. -/
structure Closed (text : String) : Prop where
  noBackslash : text.toList.getLast? ≠ some '\\'
  anglesFollowed : ∀ literal, .literal literal ∈ pieces text → AnglesFollowed literal

def plainRun : List Sign → List Char
  | .plain c :: rest => c :: plainRun rest
  | _ => []

theorem literal_mem_piecesFrom (gathered : List Char) (read : List Sign)
    (filled : gathered.reverse ++ plainRun read ≠ []) :
    .literal (String.ofList (gathered.reverse ++ plainRun read)) ∈ piecesFrom gathered read := by
  induction read generalizing gathered with
  | nil =>
      simp only [plainRun, List.append_nil, ne_eq, List.reverse_eq_nil_iff] at filled
      simp [piecesFrom, literalOf, plainRun, filled]
  | cons sign rest ih =>
      cases sign with
      | plain c =>
          have longer := ih (c :: gathered) (by simp)
          simpa [piecesFrom, plainRun] using longer
      | tag body =>
          simp only [plainRun, List.append_nil, ne_eq, List.reverse_eq_nil_iff] at filled
          simp [piecesFrom, literalOf, plainRun, filled]

theorem settled_of_anglesFollowed (gathered : List Char) (read : List Sign)
    (followed : ∀ literal, .literal literal ∈ piecesFrom gathered read → AnglesFollowed literal) :
    Settled read := by
  induction read generalizing gathered with
  | nil => trivial
  | cons sign rest ih =>
      cases sign with
      | plain c =>
          refine ⟨?_, ih (c :: gathered) (by simpa [piecesFrom] using followed)⟩
          rintro rfl
          have run := followed _ (literal_mem_piecesFrom gathered (.plain '<' :: rest)
            (by simp [plainRun]))
          obtain ⟨next, _, behind, keeps⟩ := run gathered.reverse (plainRun rest) (by simp [plainRun])
          cases rest with
          | nil => simp [plainRun] at behind
          | cons second rest =>
              cases second with
              | plain d =>
                  simp only [plainRun, List.cons.injEq] at behind
                  exact ⟨next, rest, by rw [behind.1], keeps⟩
              | tag body => simp [plainRun] at behind
      | tag body =>
          apply ih []
          intro literal member
          exact followed literal (by simp [piecesFrom, member])

theorem Closed.settled {text : String} (closed : Closed text) : Settled (signs text.toList) :=
  settled_of_anglesFollowed [] _ closed.anglesFollowed

theorem piecesFrom_append_tag (gathered : List Char) (before : List Sign) (body : List Char)
    (after : List Sign) :
    piecesFrom gathered (before ++ .tag body :: after) =
      piecesFrom gathered before ++
        .tag (Body.ofText (String.ofList body)) :: piecesFrom [] after := by
  induction before generalizing gathered with
  | nil => simp [piecesFrom]
  | cons sign rest ih =>
      cases sign with
      | plain c => simp only [List.cons_append, piecesFrom, ih]
      | tag other => simp only [List.cons_append, piecesFrom, ih, List.append_assoc]

theorem piecesFrom_ne_nil (gathered : List Char) (read : List Sign)
    (filled : gathered ≠ [] ∨ read ≠ []) : piecesFrom gathered read ≠ [] := by
  induction read generalizing gathered with
  | nil => simpa [piecesFrom, literalOf] using filled
  | cons sign rest ih =>
      cases sign with
      | plain c => exact ih (c :: gathered) (by simp)
      | tag body => simp [piecesFrom]

theorem signs_of_pieces_tag {text : String} {body : Body}
    (single : pieces text = [.tag body]) : signs text.toList = [.tag body.raw.toList] := by
  unfold pieces at single
  generalize read : signs text.toList = found at single ⊢
  cases found with
  | nil => simp [piecesFrom, literalOf] at single
  | cons sign rest =>
      cases sign with
      | plain c =>
          have first := literal_mem_piecesFrom [] (.plain c :: rest) (by simp [plainRun])
          rw [single] at first
          simp at first
      | tag inner =>
          simp only [piecesFrom, literalOf, List.isEmpty_nil, ↓reduceIte, List.nil_append,
            List.cons.injEq, Piece.tag.injEq] at single
          cases rest with
          | nil => simp [← single.1, Body.ofText]
          | cons second rest => exact absurd single.2 (piecesFrom_ne_nil [] _ (by simp))

theorem closeTag_of_whole {body : List Char} (whole : signs ('<' :: (body ++ ['>'])) = [.tag body]) :
    opensTag (body ++ ['>']) = true ∧ closeTag false 0 (body ++ ['>']) = some (body, []) := by
  cases opens : opensTag (body ++ ['>']) with
  | false => simp [signs_of_not_opening opens] at whole
  | true =>
      cases closed : closeTag false 0 (body ++ ['>']) with
      | none => simp [signs_of_unclosed opens closed] at whole
      | some found =>
          rw [signs_of_opening opens closed] at whole
          obtain rfl : found.1 = body := by simpa using (List.cons.inj whole).1
          have split := closeTag_split closed
          simp only [List.append_cancel_left_eq, List.cons.injEq, true_and] at split
          exact ⟨rfl, by rw [split]⟩

theorem signs_tag_append {body : List Char} (behind : List Char)
    (whole : signs ('<' :: (body ++ ['>'])) = [.tag body]) :
    signs ('<' :: (body ++ '>' :: behind)) = .tag body :: signs behind := by
  have filled : body ++ ['>'] ≠ [] := by simp
  have assoc : body ++ '>' :: behind = body ++ ['>'] ++ behind := by simp
  obtain ⟨opens, closed⟩ := closeTag_of_whole whole
  rw [assoc, signs_of_opening (by rwa [opensTag_append behind filled])
    (closeTag_append behind closed), List.nil_append]

theorem pieces_append_tag {before body : String} (after : String) (closed : Closed before)
    (whole : pieces ("<" ++ body ++ ">") = [.tag (Body.ofText body)]) :
    pieces (before ++ ("<" ++ body ++ ">") ++ after) =
      pieces before ++ [.tag (Body.ofText body)] ++ pieces after := by
  have tagRead : signs ('<' :: (body.toList ++ ['>'])) = [.tag body.toList] := by
    have read := signs_of_pieces_tag whole
    simpa [Body.ofText] using read
  have text : (before ++ ("<" ++ body ++ ">") ++ after).toList =
      before.toList ++ '<' :: (body.toList ++ '>' :: after.toList) := by
    simp
  unfold pieces
  rw [text, signs_append _ _ closed.noBackslash closed.settled, signs_tag_append _ tagRead,
    piecesFrom_append_tag]
  simp

end TagScript.Tag
