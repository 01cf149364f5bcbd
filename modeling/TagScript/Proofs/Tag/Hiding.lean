import TagScript.Proofs.Tag.Separators
import TagScript.Proofs.Tag.Wrapping

/-! Angle brackets that backslashes hide. Reading a text into tags passes over them, but the readers
of a body count them like any other: a body with hidden brackets in it is cut behind them only where
as many were closed as were opened. -/

namespace TagScript.Tag

/-- A text with a backslash before each of its angle brackets. -/
def hidden (text : String) : String :=
  String.ofList (text.toList.flatMap fun c => if c = '<' ∨ c = '>' then ['\\', c] else [c])

section

variable {nesting : Nesting} {text before : List Char}

theorem foldl_step_hidden (text : String) :
    (hidden text).toList.foldl Nesting.step nesting = text.toList.foldl Nesting.step nesting := by
  rw [hidden, String.toList_ofList]
  induction text.toList generalizing nesting with
  | nil => rfl
  | cons c rest ih =>
      rw [List.flatMap_cons, List.foldl_append, ih, List.foldl_cons]
      split <;> rfl

theorem not_mem_hidden {c : Char} {text : String} (notBackslash : c ≠ '\\')
    (missing : c ∉ text.toList) : c ∉ (hidden text).toList := by
  rw [hidden, String.toList_ofList, List.mem_flatMap]
  rintro ⟨d, member, isPart⟩
  split at isPart
  · simp only [List.mem_cons, List.not_mem_nil, or_false] at isPart
    rcases isPart with same | rfl
    · exact notBackslash same
    · exact missing member
  · obtain rfl := List.mem_singleton.1 isPart
    exact missing member

theorem foldl_step_of_not_mem (nesting : Nesting) (noOpening : '[' ∉ text) (noClosing : ']' ∉ text) :
    (text.foldl Nesting.step nesting).square = nesting.square := by
  induction text generalizing nesting with
  | nil => rfl
  | cons c rest ih =>
      simp only [List.mem_cons, not_or] at noOpening noClosing
      rw [List.foldl_cons, ih _ noOpening.2 noClosing.2, Nesting.step_square,
        if_neg (Ne.symm noOpening.1), if_neg (Ne.symm noClosing.1)]

theorem cutFallbackFrom_append (nesting : Nesting) (rest : List Char)
    (inside : ∀ front back, before = front ++ '|' :: back →
      (front.foldl Nesting.step nesting).isOutside = false) :
    cutFallbackFrom nesting (before ++ rest) =
      (before ++ (cutFallbackFrom (before.foldl Nesting.step nesting) rest).1,
        (cutFallbackFrom (before.foldl Nesting.step nesting) rest).2) := by
  induction before generalizing nesting with
  | nil => rfl
  | cons c behind ih =>
      have goesOn : ¬ (c = '|' ∧ (behind ++ rest).head? = some '|' ∧ nesting.isOutside = true) := by
        rintro ⟨rfl, _, outside⟩
        have closed := inside [] behind rfl
        rw [List.foldl_nil, outside] at closed
        exact Bool.noConfusion closed
      have later := ih (nesting.step c) fun front back split =>
        inside (c :: front) back (by rw [split]; rfl)
      rw [List.cons_append, cutFallbackFrom_cons, if_neg goesOn, later]
      rfl

theorem hasOuterTagFrom_inside (square : Nat) (rest : List Char) (noOpening : '[' ∉ text)
    (noClosing : ']' ∉ text) :
    hasOuterTagFrom (square + 1) (text ++ rest) = hasOuterTagFrom (square + 1) rest := by
  induction text with
  | nil => rfl
  | cons c behind ih =>
      simp only [List.mem_cons, not_or] at noOpening noClosing
      rw [List.cons_append, ← ih noOpening.2 noClosing.2]
      conv => lhs; unfold hasOuterTagFrom
      split <;> simp_all

end

section

variable {text : String}

theorem foldl_step_bracket (noOpening : '[' ∉ text.toList) (noClosing : ']' ∉ text.toList) :
    (hidden text).toList.foldl Nesting.step ⟨1, 0⟩ = ⟨1, openBehind '<' '>' text.toList⟩ := by
  have square := foldl_step_of_not_mem ⟨1, 0⟩ noOpening noClosing
  have angle := @angle_foldl_step ⟨1, 0⟩ text.toList
  rw [foldl_step_hidden, openBehind]
  exact Nesting.mk.injEq .. |>.mpr ⟨square, angle⟩

theorem foldl_step_elementBody (noOpening : '[' ∉ text.toList) (noClosing : ']' ∉ text.toList) :
    (elementBody (hidden text)).toList.foldl Nesting.step .outside =
      ⟨0, openBehind '<' '>' text.toList⟩ := by
  have inBracket := foldl_step_bracket noOpening noClosing
  simp [toList_elementBody, Nesting.outside, Nesting.step, inBracket]

theorem balanced_hidden (noOpening : '[' ∉ text.toList) (noClosing : ']' ∉ text.toList) :
    Balanced '[' ']' (hidden text).toList := by
  have opening := not_mem_hidden (by decide) noOpening
  have closing := not_mem_hidden (by decide) noClosing
  refine ⟨by rw [List.count_eq_zero_of_not_mem opening, List.count_eq_zero_of_not_mem closing],
    fun before after split => ?_⟩
  have missing : ']' ∉ before := fun member => closing (by simp [split, member])
  simp [List.count_eq_zero_of_not_mem missing]

theorem parse_hidden_iff (noOpening : '[' ∉ text.toList) (noClosing : ']' ∉ text.toList) :
    (Chain.parse (elementBody (hidden text) ++ ".length")).components =
        [⟨"element", some (hidden text)⟩, ⟨"length", none⟩] ↔
      openBehind '<' '>' text.toList = 0 := by
  have split : (elementBody (hidden text) ++ ".length").toList =
      (elementBody (hidden text)).toList ++ '.' :: "length".toList := by simp
  have behind := foldl_step_elementBody noOpening noClosing
  have separates_iff_closed : Separates (elementBody (hidden text)).toList "length".toList ↔
      openBehind '<' '>' text.toList = 0 := by
    rw [separates_iff, SeparatesFrom, behind]
    simp [Nesting.isOutside, startsWithDigit]
  constructor
  · intro read
    rw [← separates_iff_closed, ← parse_cut_iff split, read]
    refine ⟨[⟨"element", some (hidden text)⟩], [⟨"length", none⟩], rfl, by simp, by simp, ?_, ?_⟩
    · rw [String.ofList_toList]
      rfl
    · rfl
  · intro closed
    have separates := separates_iff.1 (separates_iff_closed.2 closed)
    have front : (segmentsFrom false .outside (elementBody (hidden text)).toList).map
        Component.ofSegment = [⟨"element", some (hidden text)⟩] :=
      congrArg Chain.components (parse_elementBody (balanced_hidden noOpening noClosing))
    rw [Chain.parse, segments, split, segmentsFrom_append separates, List.map_append, front, behind,
      closed]
    rfl

theorem cutFallbackFrom_elementBody (noOpening : '[' ∉ text.toList) (noClosing : ']' ∉ text.toList)
    (rest : List Char) :
    cutFallbackFrom .outside ((elementBody (hidden text)).toList ++ rest) =
      ((elementBody (hidden text)).toList ++
          (cutFallbackFrom ⟨0, openBehind '<' '>' text.toList⟩ rest).1,
        (cutFallbackFrom ⟨0, openBehind '<' '>' text.toList⟩ rest).2) := by
  have inside (front back : List Char) (split : (hidden text).toList = front ++ '|' :: back) :
      (front.foldl Nesting.step ⟨1, 0⟩).isOutside = false := by
    have opening : '[' ∉ front := fun member =>
      not_mem_hidden (by decide) noOpening (by simp [split, member])
    have closing : ']' ∉ front := fun member =>
      not_mem_hidden (by decide) noClosing (by simp [split, member])
    exact Nesting.isOutside_of_inside (foldl_step_of_not_mem ⟨1, 0⟩ opening closing)
  have inBracket := cutFallbackFrom_append ⟨1, 0⟩ (']' :: rest) inside
  rw [foldl_step_bracket noOpening noClosing] at inBracket
  simp [toList_elementBody, cutFallbackFrom_cons, Nesting.outside, Nesting.step, inBracket]

theorem cutFallback_hidden_iff (noOpening : '[' ∉ text.toList) (noClosing : ']' ∉ text.toList)
    (fallback : String) :
    cutFallback (elementBody (hidden text) ++ "||" ++ fallback) =
        (elementBody (hidden text), some fallback) ↔
      openBehind '<' '>' text.toList = 0 := by
  have whole : (elementBody (hidden text) ++ "||" ++ fallback).toList =
      (elementBody (hidden text)).toList ++ '|' :: '|' :: fallback.toList := by simp
  rw [cutFallback, whole, cutFallbackFrom_elementBody noOpening noClosing, cutFallbackFrom_cons]
  by_cases closed : openBehind '<' '>' text.toList = 0
  · simp [closed, Nesting.isOutside]
  · simp [closed, Nesting.isOutside, String.ofList_append]

theorem hasOuterTag_hidden (noOpening : '[' ∉ text.toList) (noClosing : ']' ∉ text.toList)
    (rest : String) :
    hasOuterTag (elementBody (hidden text) ++ rest) = hasOuterTag rest := by
  have opening := not_mem_hidden (by decide) noOpening
  have closing := not_mem_hidden (by decide) noClosing
  have inBracket := hasOuterTagFrom_inside 0 (']' :: rest.toList) opening closing
  simp [hasOuterTag, toList_elementBody, hasOuterTagFrom, inBracket]

end

/-- The chain goes on behind the bracket, and a fallback is found there, exactly when no `<` of the
text is left open, hidden ones counted. The lookup is never taken to hold a tag. -/
theorem hidden_is_plain_iff (text fallback : String) (noOpening : '[' ∉ text.toList)
    (noClosing : ']' ∉ text.toList) :
    ((Chain.parse (elementBody (hidden text) ++ ".length")).components =
        [⟨"element", some (hidden text)⟩, ⟨"length", none⟩] ↔
      openBehind '<' '>' text.toList = 0) ∧
    (cutFallback (elementBody (hidden text) ++ "||" ++ fallback) =
        (elementBody (hidden text), some fallback) ↔
      openBehind '<' '>' text.toList = 0) ∧
    (Body.ofText (elementBody (hidden text) ++ ".length")).dynamic = false ∧
    hasOuterTag (elementBody (hidden text)) = false := by
  refine ⟨parse_hidden_iff noOpening noClosing, cutFallback_hidden_iff noOpening noClosing fallback,
    ?_, ?_⟩
  · have uncut : cutFallback (elementBody (hidden text) ++ ".length") =
        (elementBody (hidden text) ++ ".length", none) := by
      rw [cutFallback, String.toList_append, cutFallbackFrom_elementBody noOpening noClosing]
      simp [cutFallbackFrom, String.ofList_append]
    rw [Body.ofText, uncut]
    exact hasOuterTag_hidden noOpening noClosing ".length"
  · rw [← @String.append_empty (elementBody (hidden text))]
    exact hasOuterTag_hidden noOpening noClosing ""

theorem hidden_is_plain_iff_closed :
    '[' ∉ "a > <b>".toList ∧ ']' ∉ "a > <b>".toList ∧ openBehind '<' '>' "a > <b>".toList = 0 ∧
      (Chain.parse "element[a \\> \\<b\\>].length").components =
        [⟨"element", some "a \\> \\<b\\>"⟩, ⟨"length", none⟩] ∧
      cutFallback "element[a \\> \\<b\\>]||none" =
        ("element[a \\> \\<b\\>]", some "none") := by
  have noOpening : '[' ∉ "a > <b>".toList := by decide +kernel
  have noClosing : ']' ∉ "a > <b>".toList := by decide +kernel
  have closed : openBehind '<' '>' "a > <b>".toList = 0 := by decide +kernel
  obtain ⟨parsed, cut, _, _⟩ := hidden_is_plain_iff "a > <b>" "none" noOpening noClosing
  exact ⟨noOpening, noClosing, closed, parsed.2 closed, cut.2 closed⟩

/-- A hidden bracket that is left open takes the rest of the chain and the fallback into the key. -/
theorem hidden_bracket_swallows :
    ¬ ∀ text : String, '[' ∉ text.toList → ']' ∉ text.toList → '\\' ∉ text.toList →
      (Chain.parse (elementBody (hidden text) ++ ".length")).components =
          [⟨"element", some (hidden text)⟩, ⟨"length", none⟩] ∧
        cutFallback (elementBody (hidden text) ++ "||f") =
          (elementBody (hidden text), some "f") ∧
        hasOuterTag (elementBody (hidden text)) = false := by
  intro claimed
  have parsed := (claimed "<" (by decide +kernel) (by decide +kernel) (by decide +kernel)).1
  have swallowed : (Chain.parse (elementBody (hidden "<") ++ ".length")).components =
      [⟨"element[\\<].length", none⟩] := by decide +kernel
  rw [swallowed] at parsed
  exact absurd (congrArg List.length parsed) (by decide)

end TagScript.Tag
