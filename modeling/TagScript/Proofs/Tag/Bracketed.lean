import TagScript.Proofs.Tag.Nesting
import TagScript.Proofs.Tag.Separators

/-! Texts whose angle and square brackets are nested together. Such a text is read part by part, and
putting texts of the same kind in the place of its tags leaves the brackets where they were: a body
whose tags all stand in square brackets is cut into its components before as after. -/

namespace TagScript.Tag

inductive Bracketed : List Char → Prop
  | nil : Bracketed []
  | plain {c : Char} {rest : List Char} (free : c ∉ ['<', '>', '[', ']']) (tail : Bracketed rest) :
      Bracketed (c :: rest)
  | square {inner rest : List Char} (inside : Bracketed inner) (tail : Bracketed rest) :
      Bracketed ('[' :: (inner ++ ']' :: rest))
  | angle {inner rest : List Char} (inside : Bracketed inner) (tail : Bracketed rest) :
      Bracketed ('<' :: (inner ++ '>' :: rest))

/-- A bracketed text whose angle brackets all stand in square brackets. -/
inductive Boxed : List Char → Prop
  | nil : Boxed []
  | plain {c : Char} {rest : List Char} (free : c ∉ ['<', '>', '[', ']']) (tail : Boxed rest) :
      Boxed (c :: rest)
  | square {inner rest : List Char} (inside : Bracketed inner) (tail : Boxed rest) :
      Boxed ('[' :: (inner ++ ']' :: rest))

variable {text behind inner rest : List Char} {nesting : Nesting}

theorem free_of_all {signs : List Char} (free : text.all (fun c => decide (c ∉ signs)) = true) :
    ∀ c ∈ text, c ∉ signs :=
  fun c member => of_decide_eq_true (List.all_eq_true.1 free c member)

theorem Closes.around {opening closing : Char} (inside : Closes opening closing 0 inner)
    (tail : Closes opening closing 0 rest) :
    Closes opening closing 0 (opening :: (inner ++ closing :: rest)) := by
  have closed : Closes opening closing 1 (closing :: rest) := .closes tail
  have whole := inside.append closed
  rw [Nat.zero_add] at whole
  exact .opens whole

namespace Bracketed

theorem of_plain (free : ∀ c ∈ text, c ∉ ['<', '>', '[', ']']) : Bracketed text := by
  induction text with
  | nil => exact .nil
  | cons c rest ih =>
      exact .plain (free c List.mem_cons_self) (ih fun d member => free d (List.mem_cons_of_mem c member))

theorem append (first : Bracketed text) (second : Bracketed behind) : Bracketed (text ++ behind) := by
  induction first with
  | nil => exact second
  | plain free _ ih => exact .plain free ih
  | square inside _ _ ih =>
      rw [List.cons_append, List.append_assoc, List.cons_append]
      exact .square inside ih
  | angle inside _ _ ih =>
      rw [List.cons_append, List.append_assoc, List.cons_append]
      exact .angle inside ih

theorem closes_angles (bracketed : Bracketed text) : Closes '<' '>' 0 text := by
  induction bracketed with
  | nil => exact .nil
  | plain free _ ih =>
      simp only [List.mem_cons, not_or] at free
      exact .other free.1 free.2.1 ih
  | square _ _ inside tail =>
      exact .other (by decide) (by decide) (inside.append (.other (by decide) (by decide) tail))
  | angle _ _ inside tail => exact inside.around tail

theorem closes_squares (bracketed : Bracketed text) : Closes '[' ']' 0 text := by
  induction bracketed with
  | nil => exact .nil
  | plain free _ ih =>
      simp only [List.mem_cons, not_or] at free
      exact .other free.2.2.1 free.2.2.2.1 ih
  | square _ _ inside tail => exact inside.around tail
  | angle _ _ inside tail =>
      exact .other (by decide) (by decide) (inside.append (.other (by decide) (by decide) tail))

end Bracketed

/-! What is cut at the fallback. -/

theorem Nesting.step_of_free {c : Char} (free : c ∉ ['<', '>', '[', ']']) : nesting.step c = nesting := by
  simp only [List.mem_cons, List.not_mem_nil, or_false, not_or] at free
  unfold Nesting.step
  split <;> simp_all

theorem Nesting.isOutside_of_square : (nesting.step '[').isOutside = false := by
  simp [Nesting.step, Nesting.isOutside]

theorem Nesting.isOutside_of_angle : (nesting.step '<').isOutside = false := by
  simp [Nesting.step, Nesting.isOutside]

theorem Nesting.step_square_square : (nesting.step '[').step ']' = nesting := rfl

theorem Nesting.step_angle_angle : (nesting.step '<').step '>' = nesting := rfl

theorem hasOuterTagFrom_of_not_mem {square : Nat} {c : Char} (free : c ∉ ['<', '[', ']']) :
    hasOuterTagFrom square (c :: rest) = hasOuterTagFrom square rest := by
  simp only [List.mem_cons, List.not_mem_nil, or_false, not_or] at free
  conv => lhs; unfold hasOuterTagFrom
  split <;> simp_all

namespace Bracketed

theorem cutFallbackFrom_inside (bracketed : Bracketed text) (inside : nesting.isOutside = false)
    (behind : List Char) :
    cutFallbackFrom nesting (text ++ behind) =
      (text ++ (cutFallbackFrom nesting behind).1, (cutFallbackFrom nesting behind).2) := by
  induction bracketed generalizing nesting behind with
  | nil => rfl
  | plain free _ ih =>
      rw [List.cons_append, cutFallbackFrom_cons, if_neg (by simp [inside]), Nesting.step_of_free free,
        ih inside]
      rfl
  | square _ _ ihInner ihRest =>
      rw [List.cons_append, List.append_assoc, cutFallbackFrom_cons, if_neg (by simp),
        ihInner Nesting.isOutside_of_square, List.cons_append, cutFallbackFrom_cons, if_neg (by simp),
        Nesting.step_square_square, ihRest inside]
      simp
  | angle _ _ ihInner ihRest =>
      rw [List.cons_append, List.append_assoc, cutFallbackFrom_cons, if_neg (by simp),
        ihInner Nesting.isOutside_of_angle, List.cons_append, cutFallbackFrom_cons, if_neg (by simp),
        Nesting.step_angle_angle, ihRest inside]
      simp

theorem cutFallback (bracketed : Bracketed text) :
    Bracketed (cutFallbackFrom .outside text).1 ∧
      ∀ fallback ∈ (cutFallbackFrom .outside text).2, Bracketed fallback := by
  induction bracketed with
  | nil => exact ⟨.nil, by simp [cutFallbackFrom]⟩
  | @plain c rest free tail ih =>
      rw [cutFallbackFrom_cons]
      split
      · rename_i cuts
        refine ⟨.nil, ?_⟩
        rintro _ ⟨⟩
        cases tail with
        | nil => exact .nil
        | plain _ tail => exact tail
        | square => simp at cuts
        | angle => simp at cuts
      · rw [Nesting.step_of_free free]
        exact ⟨.plain free ih.1, ih.2⟩
  | square inside _ _ ih =>
      rw [cutFallbackFrom_cons, if_neg (by simp), inside.cutFallbackFrom_inside Nesting.isOutside_of_square,
        cutFallbackFrom_cons, if_neg (by simp), Nesting.step_square_square]
      exact ⟨.square inside ih.1, ih.2⟩
  | angle inside _ _ ih =>
      rw [cutFallbackFrom_cons, if_neg (by simp), inside.cutFallbackFrom_inside Nesting.isOutside_of_angle,
        cutFallbackFrom_cons, if_neg (by simp), Nesting.step_angle_angle]
      exact ⟨.angle inside ih.1, ih.2⟩

theorem hasOuterTagFrom_inside {square : Nat} (bracketed : Bracketed text) (behind : List Char) :
    hasOuterTagFrom (square + 1) (text ++ behind) = hasOuterTagFrom (square + 1) behind := by
  induction bracketed generalizing square behind with
  | nil => rfl
  | plain free _ ih => rw [List.cons_append, hasOuterTagFrom_of_not_mem (by simp_all), ih]
  | square _ _ ihInner ihRest =>
      rw [List.cons_append, List.append_assoc, hasOuterTagFrom, ihInner, List.cons_append,
        hasOuterTagFrom, Nat.add_sub_cancel, ihRest]
  | angle _ _ ihInner ihRest =>
      rw [List.cons_append, List.append_assoc, hasOuterTagFrom, ihInner, List.cons_append,
        hasOuterTagFrom_of_not_mem (by decide), ihRest]
      simp

theorem boxed (bracketed : Bracketed text) (noOuter : hasOuterTagFrom 0 text = false) :
    Boxed text := by
  induction bracketed with
  | nil => exact .nil
  | plain free _ ih =>
      rw [hasOuterTagFrom_of_not_mem (by simp_all)] at noOuter
      exact .plain free (ih noOuter)
  | square inside _ _ ih =>
      rw [hasOuterTagFrom, inside.hasOuterTagFrom_inside] at noOuter
      exact .square inside (ih noOuter)
  | angle => simp [hasOuterTagFrom] at noOuter

end Bracketed

/-! Putting texts in the place of tags. -/

def putIn (value : List Char → List Char) (read : List Sign) : List Char :=
  read.flatMap fun
    | .plain c => [c]
    | .tag body => value body

def shown (value : List Char → List Char) (text : List Char) : List Char :=
  putIn value (signs text)

def Component.shown (value : List Char → List Char) (component : Component) : Component where
  key := component.key
  context := component.context.map fun context =>
    String.ofList (TagScript.Tag.shown value context.toList)

theorem Bracketed.signs_append (bracketed : Bracketed text) (bare : '\\' ∉ text)
    (behind : List Char) : signs (text ++ behind) = signs text ++ signs behind :=
  TagScript.Tag.signs_append text behind (fun last => bare (List.mem_of_getLast? last))
    (settled_of_closes bracketed.closes_angles bare)

theorem signs_cons {c : Char} (notOpening : c ≠ '<') (straight : c ≠ '\\') (rest : List Char) :
    signs (c :: rest) = .plain c :: signs rest :=
  signs_of_standsAlone ⟨notOpening, fun same => absurd same straight⟩

theorem signs_square (inside : Bracketed inner) (bare : '\\' ∉ inner) (rest : List Char) :
    signs ('[' :: (inner ++ ']' :: rest)) = .plain '[' :: (signs inner ++ .plain ']' :: signs rest) := by
  rw [signs_cons (by decide) (by decide), inside.signs_append bare, signs_cons (by decide) (by decide)]

theorem signs_angle (inside : Bracketed inner) (bare : '\\' ∉ inner) (rest : List Char) :
    signs ('<' :: (inner ++ '>' :: rest)) =
      if opensTag (inner ++ '>' :: rest) then .tag inner :: signs rest
      else .plain '<' :: (signs inner ++ .plain '>' :: signs rest) := by
  split
  · rename_i opens
    exact signs_of_opening opens (closeTag_closes inside.closes_angles bare rest)
  · rename_i opens
    rw [signs_of_not_opening (by simpa using opens), inside.signs_append bare,
      signs_cons (by decide) (by decide)]

section

variable {value : List Char → List Char}

theorem shown_nil : shown value [] = [] := by
  simp [shown, signs, putIn]

theorem shown_append (bracketed : Bracketed text) (bare : '\\' ∉ text) :
    shown value (text ++ behind) = shown value text ++ shown value behind := by
  rw [shown, bracketed.signs_append bare, putIn, List.flatMap_append]
  rfl

theorem shown_cons {c : Char} (notOpening : c ≠ '<') (straight : c ≠ '\\') :
    shown value (c :: rest) = c :: shown value rest := by
  rw [shown, signs_cons notOpening straight]
  rfl

theorem shown_square (inside : Bracketed inner) (bare : '\\' ∉ inner) :
    shown value ('[' :: (inner ++ ']' :: rest)) =
      '[' :: (shown value inner ++ ']' :: shown value rest) := by
  rw [shown_cons (by decide) (by decide), shown_append inside bare, shown_cons (by decide) (by decide)]

theorem shown_of_opening (inside : Bracketed inner) (bare : '\\' ∉ inner)
    (opens : opensTag (inner ++ '>' :: rest) = true) :
    shown value ('<' :: (inner ++ '>' :: rest)) = value inner ++ shown value rest := by
  rw [shown, signs_angle inside bare, if_pos opens]
  rfl

theorem shown_of_not_opening (inside : Bracketed inner) (bare : '\\' ∉ inner)
    (plain : opensTag (inner ++ '>' :: rest) = false) :
    shown value ('<' :: (inner ++ '>' :: rest)) =
      '<' :: (shown value inner ++ '>' :: shown value rest) := by
  rw [shown, signs_angle inside bare, if_neg (by simp [plain])]
  simp [putIn, shown]

theorem shown_of_tagless (tagless : signs text = text.map .plain) : shown value text = text := by
  rw [shown, tagless, putIn, List.flatMap_map, List.flatMap_singleton']

theorem signs_of_tagless (bare : '\\' ∉ text) (tagless : tagBodies text = []) :
    signs text = text.map .plain := by
  have noTag (body : List Char) : .tag body ∉ signs text := by
    rw [← mem_tagBodies, tagless]
    simp
  clear tagless
  fun_induction signs text with
  | case1 => rfl
  | case2 rest ih | case3 rest ih => simp at bare
  | case4 rest opens body after closed ih => exact absurd (by simp) (noTag body)
  | case5 rest _ _ ih | case6 rest _ ih | case7 c rest _ _ _ ih =>
      rw [ih (by simp_all) (by simpa using noTag), List.map_cons]

structure Steady (text : List Char) : Prop where
  bracketed : Bracketed text
  bare : '\\' ∉ text
  tagless : signs text = text.map .plain

namespace Steady

theorem nil : Steady [] := ⟨.nil, by simp, by simp [signs]⟩

theorem of_plain (free : ∀ c ∈ text, c ∉ ['<', '>', '[', ']', '\\']) : Steady text where
  bracketed := .of_plain fun c member => by have := free c member; simp_all
  bare := fun member => absurd (free _ member) (by decide)
  tagless := by
    have read := @signs_plain_append text [] (fun c member => by have := free c member; simp_all)
      (fun _ => by simp)
    simpa [signs] using read

theorem append (first : Steady text) (second : Steady behind) : Steady (text ++ behind) where
  bracketed := first.bracketed.append second.bracketed
  bare := by simp [first.bare, second.bare]
  tagless := by
    rw [first.bracketed.signs_append first.bare, first.tagless, second.tagless, List.map_append]

theorem square (inside : Steady inner) (tail : Steady rest) : Steady ('[' :: (inner ++ ']' :: rest)) where
  bracketed := .square inside.bracketed tail.bracketed
  bare := by simp [inside.bare, tail.bare]
  tagless := by
    rw [signs_square inside.bracketed inside.bare, inside.tagless, tail.tagless]
    simp

theorem angle (inside : Steady inner) (tail : Steady rest)
    (plain : opensTag (inner ++ '>' :: rest) = false) : Steady ('<' :: (inner ++ '>' :: rest)) where
  bracketed := .angle inside.bracketed tail.bracketed
  bare := by simp [inside.bare, tail.bare]
  tagless := by
    rw [signs_angle inside.bracketed inside.bare, if_neg (by simp [plain]), inside.tagless, tail.tagless]
    simp

end Steady

theorem opensTag_shown (inside : Bracketed inner) (bare : '\\' ∉ inner) {rest behind : List Char}
    (plain : opensTag (inner ++ '>' :: rest) = false) :
    opensTag (shown value inner ++ '>' :: behind) = false := by
  cases inside with
  | nil =>
      rw [shown_nil]
      rfl
  | plain free _ =>
      rw [shown_cons (fun same => free (by simp [same])) fun same => bare (by simp [same])]
      exact plain
  | square | angle =>
      rw [List.cons_append, opensTag_cons] at plain
      exact absurd plain (by decide)

section

variable (steady : ∀ body, Bracketed body → '\\' ∉ body → Steady (value body))

include steady

theorem Bracketed.shown_steady (bracketed : Bracketed text) (bare : '\\' ∉ text) :
    Steady (shown value text) := by
  induction bracketed with
  | nil =>
      rw [shown_nil]
      exact .nil
  | @plain c rest free _ ih =>
      have straight : c ≠ '\\' := fun same => bare (by simp [same])
      have notOpening : c ≠ '<' := fun same => free (by simp [same])
      rw [shown_cons notOpening straight, ← List.singleton_append]
      exact .append (.of_plain (by simp_all)) (ih (by simp_all))
  | square inside _ ihInner ihRest =>
      simp only [List.mem_cons, List.mem_append, not_or] at bare
      rw [shown_square inside bare.2.1]
      exact .square (ihInner bare.2.1) (ihRest bare.2.2.2)
  | @angle inner rest inside _ ihInner ihRest =>
      simp only [List.mem_cons, List.mem_append, not_or] at bare
      cases opens : opensTag (inner ++ '>' :: rest) with
      | true =>
          rw [shown_of_opening inside bare.2.1 opens]
          exact .append (steady inner inside bare.2.1) (ihRest bare.2.2.2)
      | false =>
          rw [shown_of_not_opening inside bare.2.1 opens]
          exact .angle (ihInner bare.2.1) (ihRest bare.2.2.2) (opensTag_shown inside bare.2.1 opens)

end

end

/-! Cutting into components. -/

theorem segmentsFrom_cons_inside (afterDigit : Bool) {c : Char} (inside : nesting.isOutside = false) :
    segmentsFrom afterDigit nesting (c :: rest) =
      ontoFirst c (segmentsFrom c.isDigit (nesting.step c) rest) := by
  rw [segmentsFrom, if_neg (by simp [inside])]

theorem Bracketed.segmentsFrom_inside (bracketed : Bracketed text) (inside : nesting.isOutside = false)
    (afterDigit : Bool) (behind : List Char) :
    ∃ later, segmentsFrom afterDigit nesting (text ++ behind) =
      text.foldr ontoFirst (segmentsFrom later nesting behind) := by
  induction bracketed generalizing nesting afterDigit behind with
  | nil => exact ⟨afterDigit, rfl⟩
  | @plain c rest free _ ih =>
      obtain ⟨later, read⟩ := ih inside c.isDigit behind
      refine ⟨later, ?_⟩
      rw [List.cons_append, segmentsFrom_cons_inside _ inside, Nesting.step_of_free free, read,
        List.foldr_cons]
  | @square inner rest _ _ ihInner ihRest =>
      obtain ⟨between, readInner⟩ := ihInner Nesting.isOutside_of_square
        (Char.isDigit '[') (']' :: (rest ++ behind))
      obtain ⟨later, readRest⟩ := ihRest inside (Char.isDigit ']') behind
      refine ⟨later, ?_⟩
      rw [List.cons_append, List.append_assoc, List.cons_append, segmentsFrom_cons_inside _ inside,
        readInner, segmentsFrom_cons_inside _ Nesting.isOutside_of_square, Nesting.step_square_square,
        readRest]
      simp
  | @angle inner rest _ _ ihInner ihRest =>
      obtain ⟨between, readInner⟩ := ihInner Nesting.isOutside_of_angle
        (Char.isDigit '<') ('>' :: (rest ++ behind))
      obtain ⟨later, readRest⟩ := ihRest inside (Char.isDigit '>') behind
      refine ⟨later, ?_⟩
      rw [List.cons_append, List.append_assoc, List.cons_append, segmentsFrom_cons_inside _ inside,
        readInner, segmentsFrom_cons_inside _ Nesting.isOutside_of_angle, Nesting.step_angle_angle,
        readRest]
      simp

theorem segmentsFrom_square (inside : Bracketed inner) (afterDigit : Bool) (rest : List Char) :
    segmentsFrom afterDigit .outside ('[' :: (inner ++ ']' :: rest)) =
      ('[' :: (inner ++ [']'])).foldr ontoFirst (segmentsFrom false .outside rest) := by
  obtain ⟨later, read⟩ := inside.segmentsFrom_inside (@Nesting.isOutside_of_square .outside)
    (Char.isDigit '[') (']' :: rest)
  rw [segmentsFrom, if_neg (by simp), read, segmentsFrom_cons_inside _ Nesting.isOutside_of_square,
    Nesting.step_square_square]
  simp [Char.isDigit]

namespace Boxed

theorem of_mem_segmentsFrom (boxed : Boxed text) {afterDigit : Bool} :
    ∀ segment ∈ segmentsFrom afterDigit .outside text, Boxed segment := by
  induction boxed generalizing afterDigit with
  | nil => simp [segmentsFrom, nil]
  | @plain c rest free _ ih =>
      rw [segmentsFrom, Nesting.step_of_free free]
      split
      · simpa [nil] using @ih false
      · obtain ⟨first, others, read⟩ := List.exists_cons_of_ne_nil
          (@segmentsFrom_ne_nil c.isDigit .outside rest)
        have parts := @ih c.isDigit
        rw [read] at parts ⊢
        simp only [ontoFirst, List.mem_cons, forall_eq_or_imp] at parts ⊢
        exact ⟨.plain free parts.1, parts.2⟩
  | @square inner rest inside _ ih =>
      obtain ⟨first, others, read⟩ := List.exists_cons_of_ne_nil
        (@segmentsFrom_ne_nil false .outside rest)
      have parts := @ih false
      rw [segmentsFrom_square inside, read, foldr_ontoFirst]
      rw [read] at parts
      simp only [List.mem_cons, forall_eq_or_imp, List.cons_append, List.append_assoc,
        List.nil_append] at parts ⊢
      exact ⟨.square inside parts.1, parts.2⟩

theorem cut (boxed : Boxed text) :
    (∀ c ∈ text, c ∉ ['<', '>', '[', ']']) ∨
      ∃ key inner after, text = key ++ '[' :: (inner ++ ']' :: after) ∧
        (∀ c ∈ key, c ∉ ['<', '>', '[', ']']) ∧ Bracketed inner ∧ Boxed after := by
  induction boxed with
  | nil => exact .inl (by simp)
  | @plain c rest free _ ih =>
      rcases ih with all | ⟨key, inner, after, rfl, all, inside, tail⟩
      · exact .inl (List.forall_mem_cons.2 ⟨free, all⟩)
      · exact .inr ⟨c :: key, inner, after, rfl, List.forall_mem_cons.2 ⟨free, all⟩, inside, tail⟩
  | @square inner rest inside tail _ => exact .inr ⟨[], inner, rest, rfl, by simp, inside, tail⟩

end Boxed

theorem cutAtBracket_of_free {key : List Char} (free : ∀ c ∈ key, c ∉ ['<', '>', '[', ']']) :
    cutAtBracket 0 key = none ∧
      ∀ rest, cutAtBracket 0 (key ++ '[' :: rest) = some (key, rest) := by
  induction key with
  | nil => simp [cutAtBracket]
  | cons c key ih =>
      obtain ⟨notBracket, others⟩ := List.forall_mem_cons.1 free
      simp only [List.mem_cons, List.not_mem_nil, or_false, not_or] at notBracket
      have sameDepth : tagDepth 0 c = 0 := tagDepth_of_ne notBracket.1 notBracket.2.1
      constructor
      · rw [cutAtBracket_cons, if_neg (by simp [notBracket]), sameDepth, (ih others).1]
        rfl
      · intro rest
        rw [List.cons_append, cutAtBracket_cons, if_neg (by simp [notBracket]), sameDepth,
          (ih others).2]
        rfl

theorem ofSegment_of_free (free : ∀ c ∈ text, c ∉ ['<', '>', '[', ']']) :
    Component.ofSegment text = ⟨String.ofList text, none⟩ := by
  rw [Component.ofSegment, (cutAtBracket_of_free free).1]

theorem ofSegment_square {key after : List Char} (free : ∀ c ∈ key, c ∉ ['<', '>', '[', ']'])
    (inside : Bracketed inner) :
    Component.ofSegment (key ++ '[' :: (inner ++ ']' :: after)) =
      if after = [] then ⟨String.ofList key, some (String.ofList inner)⟩
      else ⟨String.ofList (key ++ '[' :: (inner ++ ']' :: after)), none⟩ := by
  rw [Component.ofSegment, (cutAtBracket_of_free free).2]
  dsimp only
  rw [closeBracket_closes inside.closes_squares]
  cases after <;> rfl

section

variable {value : List Char → List Char}

theorem Boxed.head?_shown (boxed : Boxed text) (bare : '\\' ∉ text) :
    (shown value text).head? = text.head? := by
  cases boxed with
  | nil => rw [shown_nil]
  | plain free _ => rw [shown_cons (fun same => free (by simp [same])) fun same => bare (by simp [same])]; rfl
  | square inside _ =>
      simp only [List.mem_cons, List.mem_append, not_or] at bare
      rw [shown_square inside bare.2.1]
      rfl

variable (steady : ∀ body, Bracketed body → '\\' ∉ body → Steady (value body))

include steady

theorem Boxed.segmentsFrom_shown (boxed : Boxed text) (bare : '\\' ∉ text) (afterDigit : Bool) :
    segmentsFrom afterDigit .outside (shown value text) =
      (segmentsFrom afterDigit .outside text).map (shown value) := by
  induction boxed generalizing afterDigit with
  | nil => simp [segmentsFrom, shown_nil]
  | @plain c rest free tail ih =>
      have straight : c ≠ '\\' := fun same => bare (by simp [same])
      have notOpening : c ≠ '<' := fun same => free (by simp [same])
      have bareRest : '\\' ∉ rest := fun member => bare (List.mem_cons_of_mem c member)
      rw [shown_cons notOpening straight, segmentsFrom, segmentsFrom, startsWithDigit, startsWithDigit,
        tail.head?_shown bareRest, Nesting.step_of_free free]
      split
      · rw [ih bareRest, List.map_cons, shown_nil]
      · obtain ⟨first, others, read⟩ := List.exists_cons_of_ne_nil
          (@segmentsFrom_ne_nil c.isDigit .outside rest)
        rw [ih bareRest, read, ontoFirst, List.map_cons, List.map_cons, ontoFirst,
          shown_cons notOpening straight]
  | @square inner rest inside _ ih =>
      simp only [List.mem_cons, List.mem_append, not_or] at bare
      obtain ⟨first, others, read⟩ := List.exists_cons_of_ne_nil
        (@segmentsFrom_ne_nil false .outside rest)
      have shownInside := (inside.shown_steady steady bare.2.1).bracketed
      rw [shown_square inside bare.2.1, segmentsFrom_square shownInside, ih bare.2.2.2,
        segmentsFrom_square inside, read, List.map_cons, foldr_ontoFirst, foldr_ontoFirst,
        List.map_cons]
      simp [shown_square inside bare.2.1]

theorem Boxed.ofSegment_shown (boxed : Boxed text) (bare : '\\' ∉ text)
    (tagless : tagBodies (Component.ofSegment text).key.toList = []) :
    Component.ofSegment (shown value text) = (Component.ofSegment text).shown value ∧
      ∀ context ∈ (Component.ofSegment text).context, Bracketed context.toList := by
  have kept {part : List Char} (free : ∀ c ∈ part, c ∉ ['<', '>', '[', ']']) (inside : part ⊆ text) :
      Steady part :=
    .of_plain fun c member => by
      have notBracket := free c member
      have straight : c ≠ '\\' := fun same => bare (same ▸ inside member)
      simp_all
  rcases boxed.cut with free | ⟨key, inner, after, rfl, free, inside, tail⟩
  · rw [shown_of_tagless (kept free (List.Subset.refl text)).tagless, ofSegment_of_free free]
    simp [Component.shown]
  · have keyKept := kept free (List.subset_append_left key _)
    rw [ofSegment_square free inside] at tagless ⊢
    split at tagless
    · rename_i ends
      subst ends
      simp only [List.mem_cons, List.mem_append, not_or] at bare
      have shownInside := (inside.shown_steady steady bare.2.2.1).bracketed
      rw [shown_append keyKept.bracketed keyKept.bare, shown_of_tagless keyKept.tagless,
        shown_square inside bare.2.2.1, shown_nil, ofSegment_square free shownInside, if_pos rfl,
        if_pos rfl]
      simp [Component.shown, inside]
    · rename_i goesOn
      -- The bracket does not end the segment, so all of it is key and has no tag to fill.
      rw [String.toList_ofList] at tagless
      rw [if_neg goesOn, shown_of_tagless (signs_of_tagless bare tagless),
        ofSegment_square free inside, if_neg goesOn]
      simp [Component.shown]

theorem Boxed.parse_shown {body : String} (boxed : Boxed body.toList) (bare : '\\' ∉ body.toList)
    (tagless : ∀ component ∈ (Chain.parse body).components, tagBodies component.key.toList = []) :
    (Chain.parse (String.ofList (shown value body.toList))).components =
        (Chain.parse body).components.map (Component.shown value) ∧
      ∀ component ∈ (Chain.parse body).components, ∀ context ∈ component.context,
        Bracketed context.toList := by
  have parts (segment : List Char) (member : segment ∈ segments body.toList) :=
    (boxed.of_mem_segmentsFrom segment member).ofSegment_shown steady
      (fun inside => bare ((segment_isInfix member).subset inside))
      (tagless _ (List.mem_map_of_mem member))
  constructor
  · simp only [Chain.parse, segments, String.toList_ofList]
    rw [boxed.segmentsFrom_shown steady bare, List.map_map, List.map_map]
    exact List.map_congr_left fun segment member => (parts segment member).1
  · intro component member
    obtain ⟨segment, isSegment, rfl⟩ := List.mem_map.1 member
    exact (parts segment isSegment).2

end

end TagScript.Tag
