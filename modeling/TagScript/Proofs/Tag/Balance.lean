import TagScript.Proofs.Tag.Closed

/-! Balanced brackets, and where the readers of a tag cut a text that has them. Around a text that
is balanced in square brackets a bracket holds it whole; a text that is balanced in angle brackets is
cut into parts that are. -/

namespace TagScript.Tag

/-- As many brackets are closed as are opened, and at no place more were closed than opened. -/
def Balanced (opening closing : Char) (text : List Char) : Prop :=
  text.count closing = text.count opening ∧
    ∀ before after, text = before ++ after → before.count closing ≤ before.count opening

instance (opening closing : Char) (text : List Char) : Decidable (Balanced opening closing text) :=
  decidable_of_iff (text.count closing = text.count opening ∧ ∀ place ≤ text.length,
    (text.take place).count closing ≤ (text.take place).count opening) <| by
    refine and_congr_right fun _ => ⟨fun bounds before after split => ?_, fun bounds place _ => ?_⟩
    · have bound := bounds before.length (by simp [split])
      rwa [split, List.take_left] at bound
    · exact bounds _ _ (List.take_append_drop place text).symm

/-- A text that closes its own brackets and `depth` more that were open before it. -/
inductive Closes (opening closing : Char) : Nat → List Char → Prop
  | nil : Closes opening closing 0 []
  | opens {depth : Nat} {rest : List Char} (tail : Closes opening closing (depth + 1) rest) :
      Closes opening closing depth (opening :: rest)
  | closes {depth : Nat} {rest : List Char} (tail : Closes opening closing depth rest) :
      Closes opening closing (depth + 1) (closing :: rest)
  | other {depth : Nat} {c : Char} {rest : List Char} (notOpening : c ≠ opening)
      (notClosing : c ≠ closing) (tail : Closes opening closing depth rest) :
      Closes opening closing depth (c :: rest)

section

variable {opening closing : Char} {depth more : Nat} {text rest : List Char}

theorem closes_of_counts (distinct : opening ≠ closing)
    (all : text.count closing = text.count opening + depth)
    (never : ∀ before after, text = before ++ after →
      before.count closing ≤ before.count opening + depth) :
    Closes opening closing depth text := by
  induction text generalizing depth with
  | nil =>
      obtain rfl : depth = 0 := by simpa using all.symm
      exact .nil
  | cons c rest ih =>
      -- a prefix of the rest is one of the whole text, with one more character in front
      have onward (before after : List Char) (split : rest = before ++ after) :=
        never (c :: before) after (by rw [split, List.cons_append])
      by_cases isOpening : c = opening
      · subst isOpening
        simp only [List.count_cons_self, List.count_cons_of_ne distinct] at all onward
        refine .opens (ih (by omega) fun before after split => ?_)
        have bound := onward before after split
        omega
      · by_cases isClosing : c = closing
        · subst isClosing
          simp only [List.count_cons_self, List.count_cons_of_ne distinct.symm] at all onward
          have first := onward [] rest rfl
          simp only [List.count_nil] at first
          obtain ⟨depth, rfl⟩ : ∃ fewer, depth = fewer + 1 := ⟨depth - 1, by omega⟩
          refine .closes (ih (by omega) fun before after split => ?_)
          have bound := onward before after split
          omega
        · simp only [List.count_cons_of_ne isOpening, List.count_cons_of_ne isClosing] at all onward
          exact .other isOpening isClosing (ih all onward)

theorem Balanced.closes (balanced : Balanced opening closing text) (distinct : opening ≠ closing) :
    Closes opening closing 0 text :=
  closes_of_counts distinct balanced.1 balanced.2

theorem closes_of_not_mem (noOpening : opening ∉ text) (noClosing : closing ∉ text) :
    Closes opening closing 0 text := by
  induction text with
  | nil => exact .nil
  | cons c rest ih =>
      simp only [List.mem_cons, not_or] at noOpening noClosing
      exact .other (Ne.symm noOpening.1) (Ne.symm noClosing.1) (ih noOpening.2 noClosing.2)

namespace Closes

theorem uncons {c : Char} (closes : Closes opening closing depth (c :: rest)) :
    c = opening ∧ Closes opening closing (depth + 1) rest ∨
      c = closing ∧ (∃ fewer, depth = fewer + 1 ∧ Closes opening closing fewer rest) ∨
      c ≠ opening ∧ c ≠ closing ∧ Closes opening closing depth rest := by
  cases closes with
  | opens tail => exact .inl ⟨rfl, tail⟩
  | closes tail => exact .inr (.inl ⟨rfl, _, rfl, tail⟩)
  | other notOpening notClosing tail => exact .inr (.inr ⟨notOpening, notClosing, tail⟩)

theorem append (first : Closes opening closing depth text)
    (second : Closes opening closing more rest) :
    Closes opening closing (depth + more) (text ++ rest) := by
  induction first with
  | nil => rwa [Nat.zero_add]
  | opens _ ih =>
      rw [Nat.add_right_comm] at ih
      exact .opens ih
  | closes _ ih =>
      rw [Nat.add_right_comm]
      exact .closes ih
  | other notOpening notClosing _ ih => exact .other notOpening notClosing ih

theorem of_append (distinct : opening ≠ closing) (first : Closes opening closing depth text)
    (whole : Closes opening closing (depth + more) (text ++ rest)) :
    Closes opening closing more rest := by
  induction first with
  | nil => rwa [Nat.zero_add] at whole
  | opens _ ih =>
      rcases whole.uncons with ⟨_, tail⟩ | ⟨same, _⟩ | ⟨other, _⟩
      · exact ih (by rwa [Nat.add_right_comm])
      · exact absurd same distinct
      · exact absurd rfl other
  | @closes depth _ _ ih =>
      rcases whole.uncons with ⟨same, _⟩ | ⟨_, fewer, isMore, tail⟩ | ⟨_, other, _⟩
      · exact absurd same.symm distinct
      · obtain rfl : fewer = depth + more := by omega
        exact ih tail
      · exact absurd rfl other
  | other notOpening notClosing _ ih =>
      rcases whole.uncons with ⟨same, _⟩ | ⟨same, _⟩ | ⟨_, _, tail⟩
      · exact absurd same notOpening
      · exact absurd same notClosing
      · exact ih tail

theorem of_concat {c : Char} (whole : Closes opening closing depth (text ++ [c]))
    (notOpening : c ≠ opening) (notClosing : c ≠ closing) : Closes opening closing depth text := by
  induction text generalizing depth with
  | nil =>
      rcases whole.uncons with ⟨same, _⟩ | ⟨same, _⟩ | ⟨_, _, tail⟩
      · exact absurd same notOpening
      · exact absurd same notClosing
      · exact tail
  | cons first rest ih =>
      rcases whole.uncons with ⟨rfl, tail⟩ | ⟨rfl, fewer, rfl, tail⟩ | ⟨other, another, tail⟩
      · exact .opens (ih tail)
      · exact .closes (ih tail)
      · exact .other other another (ih tail)

theorem split (closes : Closes opening closing (depth + 1 + more) text) :
    ∃ inner after, text = inner ++ closing :: after ∧ Closes opening closing depth inner ∧
      Closes opening closing more after := by
  generalize total : depth + 1 + more = open' at closes
  induction closes generalizing depth with
  | nil => omega
  | opens _ ih =>
      obtain ⟨inner, after, rfl, closesInner, closesAfter⟩ := @ih (depth + 1) (by omega)
      exact ⟨_ :: inner, after, rfl, .opens closesInner, closesAfter⟩
  | @closes fewer rest tail ih =>
      cases depth with
      | zero =>
          obtain rfl : fewer = more := by omega
          exact ⟨[], rest, rfl, .nil, tail⟩
      | succ depth =>
          obtain ⟨inner, after, rfl, closesInner, closesAfter⟩ := @ih depth (by omega)
          exact ⟨_ :: inner, after, rfl, .closes closesInner, closesAfter⟩
  | other notOpening notClosing _ ih =>
      obtain ⟨inner, after, rfl, closesInner, closesAfter⟩ := ih total
      exact ⟨_ :: inner, after, rfl, .other notOpening notClosing closesInner, closesAfter⟩

end Closes

end

/-! A tag and a bracket around a text that closes what is open inside them end behind it. -/

theorem tagDepth_of_ne {depth : Nat} {c : Char} (notOpening : c ≠ '<') (notClosing : c ≠ '>') :
    tagDepth depth c = depth := by
  unfold tagDepth
  split <;> simp_all

theorem closeTag_closes {depth : Nat} {text : List Char} (closes : Closes '<' '>' depth text)
    (bare : '\\' ∉ text) (after : List Char) :
    closeTag false depth (text ++ '>' :: after) = some (text, after) := by
  induction closes with
  | nil => simp [closeTag_cons]
  | opens _ ih =>
      simp only [List.mem_cons, not_or] at bare
      rw [List.cons_append, closeTag_cons]
      simp [behindChar, tagDepth, ih bare.2]
  | closes _ ih =>
      simp only [List.mem_cons, not_or] at bare
      rw [List.cons_append, closeTag_cons]
      simp [behindChar, tagDepth, ih bare.2]
  | @other depth c rest notOpening notClosing _ ih =>
      simp only [List.mem_cons, not_or] at bare
      rw [List.cons_append, closeTag_cons]
      simp [behindChar, notClosing, Ne.symm bare.1, tagDepth_of_ne notOpening notClosing, ih bare.2]

theorem closeBracket_closes {depth : Nat} {text : List Char} (closes : Closes '[' ']' depth text)
    (after : List Char) : closeBracket depth (text ++ ']' :: after) = some (text, after) := by
  induction closes with
  | nil => simp [closeBracket]
  | opens _ ih => simp [closeBracket, ih]
  | closes _ ih => simp [closeBracket, ih]
  | other notOpening notClosing _ ih => simp [closeBracket, notClosing, ih]

/-! Inside a square bracket there is no place to cut. -/

theorem cutFallbackFrom_cons (nesting : Nesting) (c : Char) (rest : List Char) :
    cutFallbackFrom nesting (c :: rest) =
      if c = '|' ∧ rest.head? = some '|' ∧ nesting.isOutside = true then ([], some rest.tail)
      else
        (c :: (cutFallbackFrom (nesting.step c) rest).1,
          (cutFallbackFrom (nesting.step c) rest).2) := by
  cases rest with
  | nil => simp [cutFallbackFrom]
  | cons d rest =>
      rw [cutFallbackFrom]
      by_cases cuts : c = '|' ∧ d = '|' ∧ nesting.isOutside = true
      · simp [cuts]
      · have here : ¬ (c = '|' && d = '|' && nesting.isOutside) = true := by simpa [and_assoc] using cuts
        rw [if_neg here, if_neg (by simpa using cuts)]

theorem Nesting.step_square (nesting : Nesting) (c : Char) :
    (nesting.step c).square =
      if c = '[' then nesting.square + 1
      else if c = ']' then nesting.square - 1 else nesting.square := by
  unfold Nesting.step
  split <;> simp_all

theorem Nesting.step_angle (nesting : Nesting) (c : Char) :
    (nesting.step c).angle = tagDepth nesting.angle c := by
  unfold Nesting.step tagDepth
  split <;> simp_all

section

variable {depth : Nat} {text : List Char} {nesting : Nesting}

theorem Nesting.isOutside_of_inside (inside : nesting.square = depth + 1) :
    nesting.isOutside = false := by
  simp [Nesting.isOutside, inside]

theorem Closes.step_inside {c : Char} {rest : List Char} (closes : Closes '[' ']' depth (c :: rest))
    (inside : nesting.square = depth + 1) :
    ∃ onward, Closes '[' ']' onward rest ∧ (nesting.step c).square = onward + 1 := by
  have stepped := nesting.step_square c
  rcases closes.uncons with ⟨rfl, tail⟩ | ⟨rfl, fewer, rfl, tail⟩ | ⟨notOpening, notClosing, tail⟩
  · exact ⟨depth + 1, tail, by simp [stepped, inside]⟩
  · exact ⟨fewer, tail, by simp [stepped, inside]⟩
  · exact ⟨depth, tail, by simp [stepped, inside, notOpening, notClosing]⟩

theorem cutFallbackFrom_bracket (closes : Closes '[' ']' depth text)
    (inside : nesting.square = depth + 1) :
    cutFallbackFrom nesting (text ++ [']']) = (text ++ [']'], none) := by
  induction text generalizing depth nesting with
  | nil => simp [cutFallbackFrom]
  | cons c rest ih =>
      obtain ⟨onward, tail, stepped⟩ := closes.step_inside inside
      rw [List.cons_append, cutFallbackFrom_cons, ih tail stepped]
      simp [Nesting.isOutside_of_inside inside]

theorem hasOuterTagFrom_bracket (closes : Closes '[' ']' depth text) :
    hasOuterTagFrom (depth + 1) (text ++ [']']) = false := by
  induction closes with
  | nil => simp [hasOuterTagFrom]
  | opens _ ih => simpa [hasOuterTagFrom] using ih
  | closes _ ih => simpa [hasOuterTagFrom] using ih
  | other notOpening notClosing _ ih =>
      rw [List.cons_append]
      unfold hasOuterTagFrom
      split <;> simp_all

theorem segmentsFrom_bracket (closes : Closes '[' ']' depth text) (afterDigit : Bool)
    (inside : nesting.square = depth + 1) :
    segmentsFrom afterDigit nesting (text ++ [']']) = [text ++ [']']] := by
  induction text generalizing depth nesting afterDigit with
  | nil => simp [segmentsFrom, ontoFirst]
  | cons c rest ih =>
      obtain ⟨onward, tail, stepped⟩ := closes.step_inside inside
      rw [List.cons_append, segmentsFrom, if_neg (by simp [Nesting.isOutside_of_inside inside]),
        ih tail _ stepped, ontoFirst]

end

/-! What is cut off a text that is balanced in angle brackets is balanced itself. -/

section

variable {depth : Nat} {text : List Char}

theorem Closes.behind {c : Char} {rest : List Char} (closes : Closes '<' '>' depth (c :: rest)) :
    Closes '<' '>' (tagDepth depth c) rest := by
  rcases closes.uncons with ⟨rfl, tail⟩ | ⟨rfl, fewer, rfl, tail⟩ | ⟨notOpening, notClosing, tail⟩
  · exact tail
  · exact tail
  · rwa [tagDepth_of_ne notOpening notClosing]

theorem Closes.before {c : Char} {rest : List Char} (whole : Closes '<' '>' depth (c :: text))
    (closes : Closes '<' '>' (tagDepth depth c) rest) : Closes '<' '>' depth (c :: rest) := by
  rcases whole.uncons with ⟨rfl, _⟩ | ⟨rfl, fewer, rfl, _⟩ | ⟨notOpening, notClosing, _⟩
  · exact .opens closes
  · exact .closes closes
  · rw [tagDepth_of_ne notOpening notClosing] at closes
    exact .other notOpening notClosing closes

theorem Nesting.angle_of_isOutside {nesting : Nesting} (outside : nesting.isOutside = true) :
    nesting.angle = 0 := by
  simp only [Nesting.isOutside, Bool.and_eq_true, beq_iff_eq] at outside
  exact outside.2

theorem cutFallbackFrom_parts (nesting : Nesting) (closes : Closes '<' '>' nesting.angle text) :
    (cutFallbackFrom nesting text).2 = none ∧ (cutFallbackFrom nesting text).1 = text ∨
      ∃ lookup fallback, cutFallbackFrom nesting text = (lookup, some fallback) ∧
        text = lookup ++ '|' :: '|' :: fallback ∧ Closes '<' '>' nesting.angle lookup := by
  induction text generalizing nesting with
  | nil => exact .inl ⟨rfl, rfl⟩
  | cons c rest ih =>
      rw [cutFallbackFrom_cons]
      split
      · rename_i cuts
        obtain ⟨rfl, second, outside⟩ := cuts
        obtain ⟨tail, rfl⟩ := List.head?_eq_some_iff.1 second
        rw [Nesting.angle_of_isOutside outside]
        exact .inr ⟨[], tail, rfl, rfl, .nil⟩
      · have stepped := nesting.step_angle c
        rcases ih (nesting.step c) (by rw [stepped]; exact closes.behind) with ⟨whole, same⟩ |
          ⟨lookup, fallback, cut, rfl, part⟩
        · exact .inl ⟨whole, by rw [same]⟩
        · rw [stepped] at part
          exact .inr ⟨c :: lookup, fallback, by rw [cut], rfl, closes.before part⟩

theorem segmentsFrom_parts (afterDigit : Bool) (nesting : Nesting) (text : List Char) :
    ∃ first others, segmentsFrom afterDigit nesting text = first :: others ∧
      text = first ++ others.flatMap ('.' :: ·) ∧
      (Closes '<' '>' nesting.angle text → Closes '<' '>' nesting.angle first ∧
        ∀ segment ∈ others, Closes '<' '>' 0 segment) := by
  induction text generalizing nesting afterDigit with
  | nil => exact ⟨[], [], rfl, rfl, fun closes => ⟨closes, by simp⟩⟩
  | cons c rest ih =>
      rw [segmentsFrom]
      split
      · rename_i cuts
        simp only [Bool.and_eq_true, decide_eq_true_eq] at cuts
        obtain ⟨⟨rfl, outside⟩, _⟩ := cuts
        obtain ⟨first, others, read, rfl, parts⟩ := ih false nesting
        refine ⟨[], first :: others, by rw [read], by simp, fun closes => ?_⟩
        have part := parts closes.behind
        rw [Nesting.angle_of_isOutside outside] at part ⊢
        exact ⟨.nil, by simpa using part⟩
      · have stepped := nesting.step_angle c
        obtain ⟨first, others, read, rfl, parts⟩ := ih c.isDigit (nesting.step c)
        rw [stepped] at parts
        refine ⟨c :: first, others, by rw [read, ontoFirst], rfl, fun closes => ?_⟩
        exact ⟨closes.before (parts closes.behind).1, (parts closes.behind).2⟩

theorem cutAtBracket_parts {key inner : List Char}
    (cut : cutAtBracket depth text = some (key, inner)) :
    text = key ++ '[' :: inner ∧ (Closes '<' '>' depth text → Closes '<' '>' depth key) := by
  induction text generalizing depth key inner with
  | nil => simp [cutAtBracket] at cut
  | cons c rest ih =>
      unfold cutAtBracket at cut
      split at cut
      · rename_i found
        simp only [Bool.and_eq_true, decide_eq_true_eq, beq_iff_eq] at found
        simp only [Option.some.injEq, Prod.mk.injEq] at cut
        obtain ⟨rfl, rfl⟩ := cut
        rw [found.1, found.2]
        exact ⟨rfl, fun _ => .nil⟩
      · obtain ⟨⟨front, back⟩, cutRest, shape⟩ := Option.map_eq_some_iff.1 cut
        simp only [Prod.mk.injEq] at shape
        obtain ⟨rfl, rfl⟩ := shape
        obtain ⟨rfl, part⟩ := ih cutRest
        exact ⟨rfl, fun closes => closes.before (part closes.behind)⟩

theorem closeBracket_split {inner after : List Char}
    (closed : closeBracket depth text = some (inner, after)) : text = inner ++ ']' :: after := by
  induction text generalizing depth inner after with
  | nil => simp [closeBracket] at closed
  | cons c rest ih =>
      unfold closeBracket at closed
      split at closed
      · rename_i found
        simp only [Bool.and_eq_true, decide_eq_true_eq] at found
        simp only [Option.some.injEq, Prod.mk.injEq] at closed
        obtain ⟨rfl, rfl⟩ := closed
        rw [found.1, List.nil_append]
      · obtain ⟨⟨front, back⟩, closedRest, shape⟩ := Option.map_eq_some_iff.1 closed
        simp only [Prod.mk.injEq] at shape
        obtain ⟨rfl, rfl⟩ := shape
        rw [ih closedRest, List.cons_append]

end

end TagScript.Tag
