import TagScript.Proofs.Tag.Wrapping

/-! The angle brackets of a text that no backslash hides. The search for the end of a tag counts all
of them, those too that open no tag where the text is read by itself. So an `element` tag is read
whole around a text just where these brackets are balanced. -/

namespace TagScript.Tag

/-- The angle brackets of a text that no backslash hides. A backslash hides the character behind it,
be that another backslash. -/
def angles (hidden : Bool) : List Char → List Char
  | [] => []
  | c :: rest =>
    if hidden then angles false rest
    else if c = '<' ∨ c = '>' then c :: angles false rest
    else angles (c = '\\') rest

def hidesNext (hidden : Bool) : List Char → Bool
  | [] => hidden
  | c :: rest => hidesNext (!hidden && c = '\\') rest

section

variable {hidden : Bool} {depth : Nat} {text body after : List Char}

theorem angles_of_ne {c : Char} (notOpening : c ≠ '<') (notClosing : c ≠ '>') :
    angles false (c :: text) = angles (c = '\\') text := by
  simp [angles, notOpening, notClosing]

theorem angles_append (hidden : Bool) (text behind : List Char) :
    angles hidden (text ++ behind) =
      angles hidden text ++ angles (hidesNext hidden text) behind := by
  induction text generalizing hidden with
  | nil => rfl
  | cons c rest ih =>
      simp only [List.cons_append, angles, hidesNext]
      split
      · rename_i isHidden
        simp [isHidden, ih]
      · rename_i inSight
        split
        · rename_i isAngle
          have noBackslash : c ≠ '\\' := by rcases isAngle with rfl | rfl <;> decide
          simp [inSight, noBackslash, ih]
        · simp [inSight, ih]

theorem hidesNext_append (hidden : Bool) (text behind : List Char) :
    hidesNext hidden (text ++ behind) = hidesNext (hidesNext hidden text) behind := by
  induction text generalizing hidden with
  | nil => rfl
  | cons c rest ih => exact ih _

theorem Closes.count (closes : Closes '<' '>' depth text) :
    text.count '>' = text.count '<' + depth := by
  induction closes with
  | nil => rfl
  | opens _ ih =>
      simp only [List.count_cons_self, List.count_cons_of_ne (show '<' ≠ '>' by decide)]
      omega
  | closes _ ih =>
      simp only [List.count_cons_self, List.count_cons_of_ne (show '>' ≠ '<' by decide)]
      omega
  | other notOpening notClosing _ ih =>
      rwa [List.count_cons_of_ne notOpening, List.count_cons_of_ne notClosing]

theorem Closes.count_front {before : List Char} (closes : Closes '<' '>' depth (before ++ after)) :
    before.count '>' ≤ before.count '<' + depth := by
  induction before generalizing depth with
  | nil => simp
  | cons c before ih =>
      rcases closes.uncons with ⟨rfl, tail⟩ | ⟨rfl, fewer, rfl, tail⟩ | ⟨notOpening, notClosing, tail⟩
      · have bound := ih tail
        simp only [List.count_cons_self, List.count_cons_of_ne (show '<' ≠ '>' by decide)]
        omega
      · have bound := ih tail
        simp only [List.count_cons_self, List.count_cons_of_ne (show '>' ≠ '<' by decide)]
        omega
      · rw [List.count_cons_of_ne notOpening, List.count_cons_of_ne notClosing]
        exact ih tail

theorem balanced_iff_closes : Balanced '<' '>' text ↔ Closes '<' '>' 0 text := by
  refine ⟨fun balanced => balanced.closes (by decide), fun closes => ?_⟩
  constructor
  · simpa using closes.count
  · intro before after split
    subst split
    simpa using closes.count_front

theorem closes_opening_iff : Closes '<' '>' depth ('<' :: text) ↔ Closes '<' '>' (depth + 1) text :=
  ⟨Closes.behind, .opens⟩

theorem closes_closing_iff : Closes '<' '>' (depth + 1) ('>' :: text) ↔ Closes '<' '>' depth text :=
  ⟨Closes.behind, .closes⟩

theorem closes_angles_cons {c : Char} (goesOn : ¬ (!hidden && c = '>' && depth == 0) = true) :
    Closes '<' '>' depth (angles hidden (c :: text)) ↔
      Closes '<' '>' (behindChar hidden depth c).2 (angles (behindChar hidden depth c).1 text) := by
  cases hidden with
  | true => simp [angles, behindChar]
  | false =>
      by_cases isOpening : c = '<'
      · subst isOpening
        simpa [angles, behindChar, tagDepth] using closes_opening_iff
      · by_cases isClosing : c = '>'
        · subst isClosing
          obtain ⟨depth, rfl⟩ := Nat.exists_eq_succ_of_ne_zero (by simpa using goesOn)
          simpa [angles, behindChar, tagDepth] using closes_closing_iff
        · have sameDepth : tagDepth depth c = depth := tagDepth_of_ne isOpening isClosing
          by_cases isBackslash : c = '\\'
          · simp [angles, behindChar, isBackslash]
          · simp [angles, behindChar, isOpening, isClosing, isBackslash, sameDepth]

theorem hidesNext_behindChar (c : Char) :
    hidesNext (behindChar hidden depth c).1 text = hidesNext hidden (c :: text) := by
  unfold behindChar
  cases hidden <;> by_cases isBackslash : c = '\\' <;> simp [hidesNext, isBackslash]

theorem closeTag_iff :
    closeTag hidden depth text = some (body, after) ↔
      text = body ++ '>' :: after ∧ Closes '<' '>' depth (angles hidden body) ∧
        hidesNext hidden body = false := by
  constructor
  · intro closed
    refine ⟨closeTag_split closed, ?_⟩
    induction text generalizing hidden depth body after with
    | nil => simp [closeTag] at closed
    | cons c rest ih =>
        rw [closeTag_cons] at closed
        split at closed
        · rename_i ends
          simp only [Bool.and_eq_true, Bool.not_eq_true', beq_iff_eq] at ends
          simp only [Option.some.injEq, Prod.mk.injEq] at closed
          obtain ⟨rfl, rfl⟩ := closed
          rw [ends.2]
          exact ⟨.nil, ends.1.1⟩
        · rename_i goesOn
          obtain ⟨⟨inner, tail⟩, found, shape⟩ := Option.map_eq_some_iff.1 closed
          simp only [Prod.mk.injEq] at shape
          obtain ⟨rfl, rfl⟩ := shape
          rw [closes_angles_cons goesOn, ← hidesNext_behindChar]
          exact ih found
  · rintro ⟨rfl, closes, inSight⟩
    induction body generalizing hidden depth with
    | nil =>
        cases closes
        simp [closeTag_cons, show hidden = false from inSight]
    | cons c rest ih =>
        have goesOn : ¬ (!hidden && c = '>' && depth == 0) = true := by
          intro ends
          simp only [Bool.and_eq_true, Bool.not_eq_true', decide_eq_true_eq, beq_iff_eq] at ends
          obtain ⟨⟨rfl, rfl⟩, rfl⟩ := ends
          rcases closes.uncons with ⟨same, _⟩ | ⟨_, _, zero, _⟩ | ⟨_, other, _⟩
          · exact absurd same (by decide)
          · simp at zero
          · exact absurd rfl other
        rw [closes_angles_cons goesOn] at closes
        rw [← hidesNext_behindChar] at inSight
        rw [List.cons_append, closeTag_cons, if_neg goesOn, ih closes inSight]
        rfl

end

section

variable {text : String}

theorem angles_elementBody (text : String) :
    angles false (elementBody text).toList = angles false text.toList := by
  simp [toList_elementBody, angles, angles_append]

theorem hidesNext_elementBody (text : String) : hidesNext false (elementBody text).toList = false := by
  simp [toList_elementBody, hidesNext, hidesNext_append]

theorem pieces_elementTag_iff :
    pieces (elementTag text) = [.tag (Body.ofText (elementBody text))] ↔
      Closes '<' '>' 0 (angles false text.toList) := by
  have shape : (elementTag text).toList = '<' :: ((elementBody text).toList ++ ['>']) := by
    simp [elementTag]
  have opens : opensTag ((elementBody text).toList ++ ['>']) = true := by
    rw [toList_elementBody, List.cons_append, opensTag_cons]
    decide
  have closed_iff :
      closeTag false 0 ((elementBody text).toList ++ ['>']) = some ((elementBody text).toList, []) ↔
        Closes '<' '>' 0 (angles false text.toList) := by
    rw [closeTag_iff, angles_elementBody, hidesNext_elementBody]
    simp
  rw [← closed_iff]
  constructor
  · intro single
    have read := signs_of_pieces_tag single
    rw [shape] at read
    cases closed : closeTag false 0 ((elementBody text).toList ++ ['>']) with
    | none => simp [signs_of_unclosed opens closed] at read
    | some found =>
        rw [signs_of_opening opens closed] at read
        simp only [List.cons.injEq, Sign.tag.injEq, Body.ofText] at read
        have lengths := length_of_closeTag closed
        rw [read.1, List.length_append, List.length_singleton] at lengths
        have none_left : found.2 = [] := List.eq_nil_of_length_eq_zero (by omega)
        rw [← read.1, ← none_left]
  · intro closed
    rw [pieces, shape, signs_of_opening opens closed, signs]
    simp [piecesFrom, literalOf]

end

/-! What opens no tag where a text is read by itself is counted all the same. -/

/-- Read by itself, every `<` of the text that no backslash hides opens a tag that is closed in it or
is kept plain by a blank or `=` behind it, and every such `>` closes a tag. -/
def WellRead (text : List Char) : Prop :=
  Settled (signs text) ∧ .plain '>' ∉ signs text

/-- No two backslashes stand together before an angle bracket. Reading a text takes the second one to
hide the bracket, the search for the end of a tag takes the first one to hide the second. -/
def Undoubled (text : List Char) : Prop :=
  ∀ angle, angle = '<' ∨ angle = '>' → ¬ ['\\', '\\', angle] <:+: text

section

variable {text behind : List Char}

theorem Undoubled.of_suffix (undoubled : Undoubled text) (suffix : behind <:+ text) :
    Undoubled behind :=
  fun angle isAngle doubled => undoubled angle isAngle (doubled.trans suffix.isInfix)

theorem Undoubled.head {c : Char} (undoubled : Undoubled ('\\' :: '\\' :: c :: text)) :
    c ≠ '<' ∧ c ≠ '>' := by
  have here (angle : Char) : ['\\', '\\', angle] <:+: '\\' :: '\\' :: angle :: text :=
    (List.prefix_append ['\\', '\\', angle] text).isInfix
  constructor
  · rintro rfl
    exact undoubled '<' (.inl rfl) (here '<')
  · rintro rfl
    exact undoubled '>' (.inr rfl) (here '>')

theorem angles_behind_backslash (undoubled : Undoubled ('\\' :: text))
    (harmless : ∀ c rest, text = c :: rest → c ≠ '<' ∧ c ≠ '>') :
    angles true text = angles false text := by
  induction text with
  | nil => rfl
  | cons c rest ih =>
      obtain ⟨notOpening, notClosing⟩ := harmless c rest rfl
      rw [angles_of_ne notOpening notClosing]
      by_cases isBackslash : c = '\\'
      · subst isBackslash
        have later := undoubled.of_suffix (List.suffix_cons _ _)
        refine (ih later ?_).symm
        rintro d tail rfl
        exact undoubled.head
      · simp [angles, isBackslash]

theorem closes_angles_signs (undoubled : Undoubled text) (noClosing : .plain '>' ∉ signs text) :
    Closes '<' '>' 0
      (angles false text ++ List.replicate ((signs text).count (.plain '<')) '>') := by
  fun_induction signs text with
  | case1 => exact .nil
  | case2 rest ih | case3 rest ih =>
      have later := undoubled.of_suffix ((List.suffix_cons _ _).trans (List.suffix_cons _ _))
      simp only [List.mem_cons, not_or] at noClosing
      rw [List.count_cons_of_ne (by decide)]
      simpa [angles] using ih later noClosing.2
  | case4 rest opens body after closed ih =>
      obtain ⟨rfl, closesBody, inSight⟩ := closeTag_iff.1 closed
      have later : Undoubled after :=
        undoubled.of_suffix ⟨'<' :: body ++ ['>'], by simp⟩
      simp only [List.mem_cons, not_or] at noClosing
      have shape : angles false ('<' :: (body ++ '>' :: after)) =
          '<' :: (angles false body ++ '>' :: angles false after) := by
        simp [angles, angles_append, inSight]
      rw [shape, List.count_cons_of_ne (by simp)]
      simpa using Closes.opens (closesBody.append (.closes (ih later noClosing.2)))
  | case5 rest opens unclosed ih | case6 rest opens ih =>
      have later := undoubled.of_suffix (List.suffix_cons _ _)
      simp only [List.mem_cons, not_or] at noClosing
      have shape : angles false ('<' :: rest) = '<' :: angles false rest := by
        simp [angles]
      rw [shape, List.count_cons_self, List.replicate_succ', List.cons_append, ← List.append_assoc]
      exact .opens ((ih later noClosing.2).append (.closes .nil))
  | case7 c rest noOpen noClose notOpening ih =>
      have later := undoubled.of_suffix (List.suffix_cons _ _)
      simp only [List.mem_cons, not_or, Sign.plain.injEq] at noClosing
      have same : angles false (c :: rest) = angles false rest := by
        rw [angles_of_ne notOpening (Ne.symm noClosing.1)]
        by_cases isBackslash : c = '\\'
        · subst isBackslash
          refine angles_behind_backslash undoubled ?_
          rintro d tail rfl
          exact ⟨fun same => noOpen tail rfl (by rw [same]),
            fun same => noClose tail rfl (by rw [same])⟩
        · simp [isBackslash]
      rw [same, List.count_cons_of_ne (by simpa using notOpening)]
      exact ih later noClosing.2

theorem closes_angles_iff (undoubled : Undoubled text) (noClosing : .plain '>' ∉ signs text) :
    Closes '<' '>' 0 (angles false text) ↔ .plain '<' ∉ signs text := by
  have whole := closes_angles_signs undoubled noClosing
  rw [← List.count_eq_zero]
  constructor
  · intro closes
    have left : Closes '<' '>' 0 (List.replicate ((signs text).count (.plain '<')) '>') :=
      closes.of_append (by decide) whole
    simpa [List.count_replicate] using left.count
  · intro none_left
    simpa [none_left] using whole

end

/-- An `element` tag around a text is read as one tag exactly when the angle brackets of the text that
no backslash hides are balanced, those counted too that open no tag. So around a text that is well
read by itself, and doubles no backslash before a bracket, it is one tag exactly when the text
compares nothing: when no `<` of it is left plain. -/
theorem element_whole_iff (text : String) :
    (pieces (elementTag text) = [.tag (Body.ofText (elementBody text))] ↔
      Balanced '<' '>' (angles false text.toList)) ∧
    (WellRead text.toList → Undoubled text.toList →
      (pieces (elementTag text) = [.tag (Body.ofText (elementBody text))] ↔
        .plain '<' ∉ signs text.toList)) := by
  rw [pieces_elementTag_iff, balanced_iff_closes]
  exact ⟨Iff.rfl, fun wellRead undoubled => closes_angles_iff undoubled wellRead.2⟩

theorem element_whole_beside_tag :
    WellRead "<def[a]> \\> b".toList ∧ Undoubled "<def[a]> \\> b".toList ∧
      pieces (elementTag "<def[a]> \\> b") =
        [.tag (Body.ofText (elementBody "<def[a]> \\> b"))] := by
  have read : signs "<def[a]> \\> b".toList =
      [.tag "def[a]".toList, .plain ' ', .plain (escapeChar '>'), .plain ' ', .plain 'b'] := by
    decide +kernel
  have wellRead : WellRead "<def[a]> \\> b".toList := by
    rw [WellRead, read]
    exact ⟨by simp [Settled, escapeChar, standIns], by decide⟩
  have undoubled : Undoubled "<def[a]> \\> b".toList := by
    rintro angle (rfl | rfl) <;> decide +kernel
  refine ⟨wellRead, undoubled, ?_⟩
  rw [(element_whole_iff _).2 wellRead undoubled, read]
  decide

/-- A comparison in the bracket of an `element` tag: by itself it is plain text, but around it the tag
is not one. -/
theorem element_broken_by_comparison :
    ¬ ∀ text : String, Balanced '[' ']' text.toList → WellRead text.toList →
      pieces (elementTag text) = [.tag (Body.ofText (elementBody text))] := by
  intro claimed
  have read : signs "a < b".toList =
      [.plain 'a', .plain ' ', .plain '<', .plain ' ', .plain 'b'] := by
    decide +kernel
  have wellRead : WellRead "a < b".toList := by
    rw [WellRead, read]
    refine ⟨?_, by decide⟩
    simp [Settled]
    rfl
  have single := claimed "a < b" (by decide +kernel) wellRead
  rw [pieces_elementTag_iff, show angles false "a < b".toList = ['<'] from rfl] at single
  exact absurd single.count (by decide)

end TagScript.Tag
