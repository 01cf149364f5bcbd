import TagScript.Proofs.Tag.Balance
import TagScript.Proofs.Tag.Inert
import TagScript.Proofs.Tag.Shortcut

/-! Levels that are not used make no difference. Where tags stand in one another no deeper than there
are levels, filling comes to the same with more levels, in the same state. What was filled is never
read for tags again, so only the text itself counts. -/

namespace TagScript.Tag

variable {σ α β : Type}

/-- The bodies of the tags of a text, those inside other tags left out. -/
def tagBodies (text : List Char) : List (List Char) :=
  (signs text).filterMap fun
    | .plain _ => none
    | .tag body => some body

/-- Whether tags stand at most so many deep in one another. -/
def nestsWithin : Nat → List Char → Bool
  | 0, text => (tagBodies text).isEmpty
  | levels + 1, text => (tagBodies text).all (nestsWithin levels)

theorem mem_tagBodies {text body : List Char} : body ∈ tagBodies text ↔ .tag body ∈ signs text := by
  unfold tagBodies
  rw [List.mem_filterMap]
  constructor
  · rintro ⟨sign, member, isBody⟩
    cases sign with
    | plain c => simp at isBody
    | tag other =>
        obtain rfl := Option.some.inj isBody
        exact member
  · intro member
    exact ⟨.tag body, member, rfl⟩

/-! A text whose angle brackets are balanced has no open end, and neither has a tag of it. -/

section

variable {depth levels : Nat} {text : List Char}

theorem closeTag_of_closes (closes : Closes '<' '>' (depth + 1) text) (bare : '\\' ∉ text) :
    ∃ body after, closeTag false 0 text = some (body, after) ∧ Closes '<' '>' 0 body ∧
      Closes '<' '>' depth after := by
  rw [show depth + 1 = 0 + 1 + depth by omega] at closes
  obtain ⟨body, after, rfl, closesBody, closesAfter⟩ := closes.split
  have bareBody : '\\' ∉ body := fun member => bare (List.mem_append_left _ member)
  exact ⟨body, after, closeTag_closes closesBody bareBody after, closesBody, closesAfter⟩

theorem closes_of_closeTag {body after : List Char} (closes : Closes '<' '>' (depth + 1) text)
    (bare : '\\' ∉ text) (closed : closeTag false 0 text = some (body, after)) :
    Closes '<' '>' 0 body ∧ Closes '<' '>' depth after := by
  obtain ⟨body', after', closed', parts⟩ := closeTag_of_closes closes bare
  rw [closed] at closed'
  simp only [Option.some.injEq, Prod.mk.injEq] at closed'
  rwa [closed'.1, closed'.2]

theorem settled_of_closes (closes : Closes '<' '>' depth text) (bare : '\\' ∉ text) :
    Settled (signs text) := by
  fun_induction signs text generalizing depth with
  | case1 => trivial
  | case2 rest ih | case3 rest ih => simp at bare
  | case4 rest opens body after closed ih =>
      simp only [List.mem_cons, not_or] at bare
      have bareAfter : '\\' ∉ after := fun member =>
        bare.2 (by simp [closeTag_split closed, member])
      exact ih (closes_of_closeTag closes.behind bare.2 closed).2 bareAfter
  | case5 rest opens unclosed ih =>
      simp only [List.mem_cons, not_or] at bare
      obtain ⟨_, _, closed, _⟩ := closeTag_of_closes closes.behind bare.2
      rw [unclosed] at closed
      contradiction
  | case6 rest opens ih =>
      simp only [List.mem_cons, not_or] at bare
      refine ⟨fun _ => ?_, ih closes.behind bare.2⟩
      cases rest with
      | nil =>
          have none_left := closes.behind
          cases none_left
      | cons next behind =>
          have keeps : keepsPlain next = true := by simpa [opensTag_cons] using opens
          have alone : standsAlone next behind := by
            refine ⟨?_, ?_⟩
            · rintro rfl
              revert keeps
              decide
            · rintro rfl
              simp at bare
          exact ⟨next, signs behind, signs_of_standsAlone alone, keeps⟩
  | case7 first rest noOpen noClose notAngle ih =>
      simp only [List.mem_cons, not_or] at bare
      exact ⟨fun same => absurd same notAngle, ih closes.behind bare.2⟩

theorem closes_of_mem_signs {body : List Char} (closes : Closes '<' '>' depth text)
    (bare : '\\' ∉ text) (member : .tag body ∈ signs text) :
    Closes '<' '>' 0 body ∧ '\\' ∉ body := by
  fun_induction signs text generalizing depth with
  | case1 => simp at member
  | case2 rest ih | case3 rest ih => simp at bare
  | case4 rest opens found after closed ih =>
      simp only [List.mem_cons, not_or] at bare
      have parts := closes_of_closeTag closes.behind bare.2 closed
      rw [closeTag_split closed, List.mem_append, List.mem_cons, not_or, not_or] at bare
      rcases List.mem_cons.1 member with same | member
      · rw [Sign.tag.inj same]
        exact ⟨parts.1, bare.2.1⟩
      · exact ih parts.2 bare.2.2.2 member
  | case5 rest opens unclosed ih | case6 rest opens ih | case7 first rest _ _ _ ih =>
      simp only [List.mem_cons, not_or, reduceCtorEq, false_or] at bare member
      exact ih closes.behind bare.2 member

theorem bracket_split {text : List Char} {context : String}
    (member : context ∈ (Component.ofSegment text).context) :
    ∃ key, text = key ++ '[' :: (context.toList ++ [']']) ∧
      (Closes '<' '>' 0 text → Closes '<' '>' 0 key) := by
  unfold Component.ofSegment at member
  split at member
  · simp at member
  · rename_i key behind cut
    split at member
    · rename_i inside closed
      obtain ⟨rfl, part⟩ := cutAtBracket_parts cut
      obtain rfl := closeBracket_split closed
      obtain rfl : String.ofList inside = context := by simpa using member
      exact ⟨key, by simp, part⟩
    · simp at member

/-- A text that can be read in parts, with its tags at most so many deep in one another. -/
structure WellNested (levels : Nat) (text : List Char) : Prop where
  bare : '\\' ∉ text
  closes : Closes '<' '>' 0 text
  within : nestsWithin levels text = true

namespace WellNested

theorem settled (nested : WellNested levels text) : Settled (signs text) :=
  settled_of_closes nested.closes nested.bare

theorem tag {body : List Char} (nested : WellNested (levels + 1) text)
    (member : .tag body ∈ signs text) : WellNested levels body := by
  have ⟨closes, bare⟩ := closes_of_mem_signs nested.closes nested.bare member
  exact ⟨bare, closes, List.all_eq_true.1 nested.within body (mem_tagBodies.2 member)⟩

theorem no_tag {body : List Char} (nested : WellNested 0 text) : .tag body ∉ signs text := by
  intro member
  have none_left := List.isEmpty_iff.1 nested.within
  rw [← mem_tagBodies, none_left] at member
  simp at member

theorem nestsWithin_append {before after : List Char}
    (read : signs (before ++ after) = signs before ++ signs after) :
    nestsWithin levels (before ++ after) =
      (nestsWithin levels before && nestsWithin levels after) := by
  have bodies : tagBodies (before ++ after) = tagBodies before ++ tagBodies after := by
    simp [tagBodies, read]
  cases levels with
  | zero =>
      rw [nestsWithin, nestsWithin, nestsWithin, bodies]
      cases tagBodies before <;> rfl
  | succ levels => simp [nestsWithin, bodies]

theorem of_append {before after : List Char} (nested : WellNested levels (before ++ after))
    (closes : Closes '<' '>' 0 before) : WellNested levels before ∧ WellNested levels after := by
  have bare := nested.bare
  rw [List.mem_append, not_or] at bare
  have last : before.getLast? ≠ some '\\' := fun ends => bare.1 (List.mem_of_getLast? ends)
  have within := nested.within
  rw [nestsWithin_append (signs_append before after last (settled_of_closes closes bare.1)),
    Bool.and_eq_true] at within
  have rest : Closes '<' '>' 0 after := closes.of_append (by decide) nested.closes
  exact ⟨⟨bare.1, closes, within.1⟩, ⟨bare.2, rest, within.2⟩⟩

theorem of_cons {c : Char} (nested : WellNested levels (c :: text)) (notOpening : c ≠ '<')
    (notClosing : c ≠ '>') : WellNested levels text := by
  rw [← List.singleton_append] at nested
  exact (nested.of_append (.other notOpening notClosing .nil)).2

theorem body (nested : WellNested levels text) :
    WellNested levels (Body.ofText (String.ofList text)).lookup.toList ∧
      ∀ fallback ∈ (Body.ofText (String.ofList text)).fallback,
        WellNested levels fallback.toList := by
  simp only [Body.ofText, cutFallback, String.toList_ofList]
  rcases cutFallbackFrom_parts .outside nested.closes with ⟨whole, same⟩ |
    ⟨lookup, fallback, cut, rfl, part⟩
  · simp [whole, same, nested]
  · obtain ⟨front, back⟩ := nested.of_append part
    have behind := (back.of_cons (by decide) (by decide)).of_cons (by decide) (by decide)
    simp [cut, front, behind]

theorem of_mem_flatMap {others : List (List Char)} {segment : List Char}
    (nested : WellNested levels (others.flatMap ('.' :: ·)))
    (closes : ∀ segment ∈ others, Closes '<' '>' 0 segment) (member : segment ∈ others) :
    WellNested levels segment := by
  induction others with
  | nil => simp at member
  | cons first rest ih =>
      rw [List.flatMap_cons, List.cons_append] at nested
      obtain ⟨front, back⟩ :=
        (nested.of_cons (by decide) (by decide)).of_append (closes first (by simp))
      rcases List.mem_cons.1 member with rfl | member
      · exact front
      · exact ih back (fun other isOther => closes other (by simp [isOther])) member

theorem segment {part : List Char} (nested : WellNested levels text) (member : part ∈ segments text) :
    WellNested levels part := by
  obtain ⟨first, others, read, rfl, parts⟩ := segmentsFrom_parts false .outside text
  obtain ⟨closesFirst, closesOthers⟩ := parts nested.closes
  obtain ⟨front, back⟩ := nested.of_append closesFirst
  rw [segments, read] at member
  rcases List.mem_cons.1 member with rfl | member
  · exact front
  · exact back.of_mem_flatMap closesOthers member

theorem bracket {context : String} (nested : WellNested levels text)
    (member : context ∈ (Component.ofSegment text).context) : WellNested levels context.toList := by
  obtain ⟨key, rfl, part⟩ := bracket_split member
  have opened := (nested.of_append (part nested.closes)).2.of_cons (by decide) (by decide)
  have closes := opened.closes.of_concat (by decide) (by decide)
  exact (opened.of_append closes).1

end WellNested

/-! What comes of filling a text has no tags: a `<` that is left in it was kept plain by the
character behind it, and that character is left too. -/

def Unopened (text : List Char) : Prop :=
  ∀ before c after, text = before ++ '<' :: c :: after → keepsPlain c = true

theorem Unopened.of_infix {part : List Char} (unopened : Unopened text) (inside : part <:+: text) :
    Unopened part := by
  intro before c after split
  obtain ⟨front, back, rfl⟩ := inside
  exact unopened (front ++ before) c (after ++ back) (by simp [split])

theorem Unopened.of_suffix {part : List Char} (unopened : Unopened text) (inside : part <:+ text) :
    Unopened part :=
  unopened.of_infix inside.isInfix

theorem Unopened.no_tag {body : List Char} (unopened : Unopened text) : .tag body ∉ signs text := by
  fun_induction signs text with
  | case1 => simp
  | case2 rest ih | case3 rest ih =>
      simpa using ih (unopened.of_suffix ((List.suffix_cons _ _).trans (List.suffix_cons _ _)))
  | case4 rest opens body after closed ih =>
      cases rest with
      | nil => simp [opensTag] at opens
      | cons c rest => simp [opensTag_cons, unopened [] c rest rfl] at opens
  | case5 rest opens unclosed ih | case6 rest opens ih | case7 first rest _ _ _ ih =>
      simpa using ih (unopened.of_suffix (List.suffix_cons _ _))

theorem bracket_isInfix {context : String}
    (member : context ∈ (Component.ofSegment text).context) : context.toList <:+: text := by
  obtain ⟨key, rfl, _⟩ := bracket_split member
  exact ⟨key ++ ['['], [']'], by simp⟩

theorem segment_isInfix {part : List Char} (member : part ∈ segments text) : part <:+: text := by
  obtain ⟨first, others, read, rfl, _⟩ := segmentsFrom_parts false .outside text
  rw [segments, read] at member
  rcases List.mem_cons.1 member with rfl | member
  · exact (List.prefix_append part _).isInfix
  · obtain ⟨before, after, rfl⟩ := List.append_of_mem member
    exact ⟨first ++ before.flatMap ('.' :: ·) ++ ['.'], after.flatMap ('.' :: ·), by simp⟩

end

def Chain.Holds (chain : Chain) (text : String) : Prop :=
  ∃ component ∈ chain.components, text ∈ component.context

section

variable {levels : Nat} {lookup text : String}

theorem Chain.Holds.wellNested (holds : (Chain.parse lookup).Holds text)
    (nested : WellNested levels lookup.toList) : WellNested levels text.toList := by
  obtain ⟨component, member, inBracket⟩ := holds
  obtain ⟨segment, isSegment, rfl⟩ := List.mem_map.1 member
  exact (nested.segment isSegment).bracket inBracket

theorem Chain.Holds.unopened (holds : (Chain.parse lookup).Holds text)
    (unopened : Unopened lookup.toList) : Unopened text.toList := by
  obtain ⟨component, member, inBracket⟩ := holds
  obtain ⟨segment, isSegment, rfl⟩ := List.mem_map.1 member
  exact unopened.of_infix ((bracket_isInfix inBracket).trans (segment_isInfix isSegment))

end

theorem AnglesFollowed.unopened {text : String} (followed : AnglesFollowed text) :
    Unopened text.toList := by
  intro before c after split
  obtain ⟨next, behind, same, keeps⟩ := followed before (c :: after) split
  rwa [(List.cons.inj same).1]

theorem anglesFollowed_of_not_mem {text : String} (tagless : '<' ∉ text.toList) :
    AnglesFollowed text := by
  intro before after split
  exact absurd (by simp [split]) tagless

theorem AnglesFollowed.append {front back : String} (first : AnglesFollowed front)
    (second : AnglesFollowed back) : AnglesFollowed (front ++ back) := by
  intro before after split
  rw [String.toList_append, List.append_eq_append_iff] at split
  rcases split with ⟨between, _, behind⟩ | ⟨between, here, behind⟩
  · exact second between after behind
  · cases between with
    | nil => exact second [] after behind.symm
    | cons c between =>
        obtain ⟨rfl, rfl⟩ := List.cons.inj behind
        obtain ⟨next, tail, rfl, keeps⟩ := first before between here
        exact ⟨next, tail ++ back.toList, rfl, keeps⟩

theorem AnglesFollowed.cons {c : Char} {text : String} (followed : AnglesFollowed text)
    (angle : c = '<' → ∃ next behind, text.toList = next :: behind ∧ keepsPlain next = true) :
    AnglesFollowed (String.ofList [c] ++ text) := by
  intro before after split
  rw [String.toList_append, String.toList_ofList, List.singleton_append] at split
  cases before with
  | nil =>
      obtain ⟨rfl, rfl⟩ := List.cons.inj split
      exact angle rfl
  | cons first before => exact followed before after (List.cons.inj split).2

theorem anglesFollowed_escape (value : String) : AnglesFollowed (escape value) :=
  anglesFollowed_of_not_mem fun member => (ne_angle_of_mem_escape member).1 rfl

namespace EvalM

def Coincide (expected : α → Prop) (act other : EvalM σ α) : Prop :=
  ∀ state, state.Faithful → act.run state = other.run state ∧
    ∀ result later, act.run state = some (result, later) → expected result ∧ later.Faithful

namespace Coincide

variable {expected : α → Prop} {act other : EvalM σ α}

theorem pure {result : α} (holds : expected result) :
    Coincide expected (pure result : EvalM σ α) (pure result) := by
  intro state faithful
  refine ⟨rfl, fun found later ran => ?_⟩
  obtain ⟨rfl, rfl⟩ := run_pure_eq_some.1 ran
  exact ⟨holds, faithful⟩

theorem bind {wanted : β → Prop} {next following : α → EvalM σ β}
    (first : Coincide expected act other)
    (rest : ∀ result, expected result → Coincide wanted (next result) (following result)) :
    Coincide wanted (act >>= next) (other >>= following) := by
  intro state faithful
  obtain ⟨same, leads⟩ := first state faithful
  rw [StateT.run_bind, StateT.run_bind, ← same]
  cases ran : act.run state with
  | none => exact ⟨rfl, by simp⟩
  | some outcome =>
      obtain ⟨holds, later⟩ := leads _ _ ran
      exact rest outcome.1 holds outcome.2 later

theorem weaken {wanted : α → Prop} (same : Coincide expected act other)
    (weak : ∀ result, expected result → wanted result) : Coincide wanted act other := by
  intro state faithful
  refine ⟨(same state faithful).1, fun result later ran => ?_⟩
  obtain ⟨holds, leads⟩ := (same state faithful).2 result later ran
  exact ⟨weak result holds, leads⟩

theorem leading (leads : ∀ state, state.Faithful →
      ∃ result later, act.run state = some (result, later) ∧ expected result ∧ later.Faithful) :
    Coincide expected act act := by
  intro state faithful
  refine ⟨rfl, fun found after ran => ?_⟩
  obtain ⟨result, later, runs, holds⟩ := leads state faithful
  rw [runs] at ran
  obtain ⟨rfl, rfl⟩ := Prod.mk.inj (Option.some.inj ran)
  exact holds

theorem world : Coincide (fun _ => True) (EvalM.world : EvalM σ σ) EvalM.world :=
  leading fun state faithful => ⟨state.world, state, rfl, trivial, faithful⟩

theorem modifyWorld (change : σ → σ) :
    Coincide (fun _ => True) (EvalM.modifyWorld change) (EvalM.modifyWorld change) :=
  leading fun _ faithful => ⟨_, _, rfl, trivial, faithful.pieces, faithful.chains⟩

theorem setWorld (world : σ) :
    Coincide (fun _ => True) (EvalM.setWorld world) (EvalM.setWorld world) :=
  leading fun _ faithful => ⟨_, _, rfl, trivial, faithful.pieces, faithful.chains⟩

theorem isCancelled :
    Coincide (fun _ => True) (EvalM.isCancelled : EvalM σ Bool) EvalM.isCancelled :=
  leading fun state faithful => ⟨state.isCancelled, state, rfl, trivial, faithful⟩

theorem cancel : Coincide (fun _ => True) (EvalM.cancel : EvalM σ Unit) EvalM.cancel := by
  refine leading fun state faithful => ⟨(), state.cancel, rfl, trivial, ?_⟩
  unfold Evaluation.cancel
  split
  · exact ⟨faithful.pieces, faithful.chains⟩
  · exact ⟨faithful.pieces, faithful.chains⟩

end Coincide

end EvalM

open EvalM (Coincide)

structure Vocabulary.DepthBlind (vocabulary : Vocabulary σ) : Prop where
  resolve : ∀ resolver ∈ vocabulary.resolvers, ∀ chain depth other context,
    resolver.resolve ⟨chain, depth, context⟩ = resolver.resolve ⟨chain, other, context⟩
  apply : ∀ handler ∈ vocabulary.attributes, ∀ value chain depth other context,
    handler.apply value ⟨chain, depth, context⟩ = handler.apply value ⟨chain, other, context⟩

section

variable {vocabulary : Vocabulary σ} {fill refill : String → EvalM σ String} {chain : Chain}
  {depth other : Nat} {context : Context}
  (fills : ∀ text, chain.Holds text → Coincide (fun _ => True) (fill text) (refill text))
  (calls : ∀ procedure,
    Coincide (fun _ => True) (vocabulary.call procedure) (vocabulary.call procedure))

include fills

theorem readBracket_coincide (memo : Memo) (position : Nat) :
    Coincide (fun _ => True) (readBracket fill ⟨chain, depth, context⟩ memo position)
      (readBracket refill ⟨chain, other, context⟩ memo position) := by
  simp only [readBracket, Lookup.component?]
  split
  · exact .pure trivial
  · rename_i raw found
    obtain ⟨component, isComponent, inBracket⟩ := Option.bind_eq_some_iff.1 found
    have holds : chain.Holds raw := ⟨component, List.mem_of_getElem? isComponent, inBracket⟩
    split
    · exact .pure trivial
    · exact .bind (fills raw holds) fun _ _ => .pure trivial

include calls

theorem perform_coincide (act : Act σ α) (memo : Memo) :
    Coincide (fun _ => True) (perform vocabulary fill ⟨chain, depth, context⟩ act memo)
      (perform vocabulary refill ⟨chain, other, context⟩ act memo) := by
  induction act generalizing memo with
  | done result world => exact .bind (.setWorld world) fun _ _ => .pure trivial
  | bracket position world resume ih =>
      refine .bind (.setWorld world) fun _ _ => .bind (readBracket_coincide fills memo position) ?_
      rintro ⟨answer, filled⟩ _
      exact .bind .world fun later _ => ih answer later filled
  | call procedure world resume ih =>
      exact .bind (.setWorld world) fun _ _ => .bind (calls procedure) fun answer _ =>
        .bind .world fun later _ => ih answer later memo
  | cancel world resume ih =>
      exact .bind (.setWorld world) fun _ _ => .bind .cancel fun _ _ => ih world memo
  | isCancelled world resume ih =>
      exact .bind (.setWorld world) fun _ _ => .bind .isCancelled fun answer _ =>
        ih answer world memo

theorem resolveBase_coincide (blind : vocabulary.DepthBlind) (resolvers : List (Resolver σ))
    (known : resolvers ⊆ vocabulary.resolvers) (memo : Memo) :
    Coincide (fun _ => True)
      (resolveBase vocabulary fill ⟨chain, depth, context⟩ resolvers memo)
      (resolveBase vocabulary refill ⟨chain, other, context⟩ resolvers memo) := by
  induction resolvers generalizing memo with
  | nil => exact .pure trivial
  | cons resolver rest ih =>
      rw [resolveBase, resolveBase, blind.resolve resolver (known (by simp)) chain depth other]
      refine .bind .world fun world _ => .bind (perform_coincide fills calls _ memo) ?_
      rintro ⟨answer, filled⟩ _
      dsimp only
      split
      · exact .pure trivial
      · exact ih (fun _ member => known (by simp [member])) filled

theorem applyAttribute_coincide (blind : vocabulary.DepthBlind) (value : String) (position : Nat)
    (handlers : List (Attribute σ)) (known : handlers ⊆ vocabulary.attributes) (memo : Memo) :
    Coincide (fun _ => True)
      (applyAttribute vocabulary fill ⟨chain, depth, context⟩ value position handlers memo)
      (applyAttribute vocabulary refill ⟨chain, other, context⟩ value position handlers memo) := by
  induction handlers generalizing memo with
  | nil => exact .pure trivial
  | cons handler rest ih =>
      rw [applyAttribute, applyAttribute,
        blind.apply handler (known (by simp)) value chain depth other]
      refine .bind .world fun world _ => .bind (perform_coincide fills calls _ memo) ?_
      rintro ⟨answer, filled⟩ _
      dsimp only
      split
      · exact .pure trivial
      · exact ih (fun _ member => known (by simp [member])) filled

theorem applyAttributes_coincide (blind : vocabulary.DepthBlind) (value : String) (position : Nat)
    (memo : Memo) :
    Coincide (fun _ => True)
      (applyAttributes vocabulary fill ⟨chain, depth, context⟩ value position memo)
      (applyAttributes vocabulary refill ⟨chain, other, context⟩ value position memo) := by
  fun_induction applyAttributes vocabulary fill ⟨chain, depth, context⟩ value position memo with
  | case1 value position memo complete =>
      have completeToo : Lookup.size ⟨chain, other, context⟩ ≤ position := complete
      rw [applyAttributes, if_pos completeToo]
      exact .pure trivial
  | case2 value position memo incomplete ih =>
      have incompleteToo : ¬ Lookup.size ⟨chain, other, context⟩ ≤ position := incomplete
      rw [applyAttributes, if_neg incompleteToo]
      refine .bind .isCancelled fun cancelled _ => ?_
      split
      · exact .pure trivial
      · refine .bind (applyAttribute_coincide fills calls blind value position _
          (List.Subset.refl _) memo) ?_
        rintro ⟨answer, filled⟩ _
        dsimp only
        split
        · rename_i next
          split
          · rename_i moved
            exact ih filled next moved
          · exact .pure trivial
        · exact .pure trivial

theorem resolveChain_coincide (blind : vocabulary.DepthBlind) :
    Coincide (fun _ => True) (resolveChain vocabulary fill ⟨chain, depth, context⟩)
      (resolveChain vocabulary refill ⟨chain, other, context⟩) := by
  unfold resolveChain
  split
  · exact .pure trivial
  · refine .bind (resolveBase_coincide fills calls blind _ (List.Subset.refl _) []) ?_
    rintro ⟨answer, memo⟩ _
    dsimp only
    split
    · exact .pure trivial
    · exact applyAttributes_coincide fills calls blind _ _ memo

end

theorem readPieces_run (vocabulary : Vocabulary σ) (text : String) {state : Evaluation σ}
    (faithful : state.Faithful) :
    ∃ later, (vocabulary.readPieces text).run state = some (pieces text, later) ∧
      later.Faithful ∧ later.token = state.token ∧ later.bound = state.bound ∧
      (later.world = state.world ∨
        ∃ remark, later.world = vocabulary.note .trace remark state.world) := by
  obtain ⟨remark, read⟩ := run_readPieces vocabulary text state
  rw [faithful.pieces.lookup_value] at read
  refine ⟨_, read, ⟨faithful.pieces.lookup text, faithful.chains⟩, rfl, rfl, ?_⟩
  dsimp only
  split
  · exact .inl rfl
  · exact .inr ⟨remark, rfl⟩

theorem readPieces_coincide (vocabulary : Vocabulary σ) (text : String) :
    Coincide (· = pieces text) (vocabulary.readPieces text) (vocabulary.readPieces text) :=
  .leading fun _ faithful =>
    let ⟨later, ran, leads, _⟩ := readPieces_run vocabulary text faithful
    ⟨_, later, ran, rfl, leads⟩

theorem readChain_run (body : String) {state : Evaluation σ} (faithful : state.Faithful) :
    ∃ later, (Vocabulary.readChain body : EvalM σ Chain).run state = some (Chain.parse body, later) ∧
      later.Faithful ∧ later.token = state.token ∧ later.bound = state.bound ∧
      later.world = state.world := by
  refine ⟨{ state with chains := (state.chains.lookup Chain.parse body).2 }, ?_,
    ⟨faithful.pieces, faithful.chains.lookup body⟩, rfl, rfl, rfl⟩
  rw [← faithful.chains.lookup_value body]
  rfl

theorem readChain_coincide (body : String) :
    Coincide (· = Chain.parse body) (Vocabulary.readChain body : EvalM σ Chain)
      (Vocabulary.readChain body) :=
  .leading fun _ faithful =>
    let ⟨later, ran, leads, _⟩ := readChain_run body faithful
    ⟨_, later, ran, rfl, leads⟩

def Rendering (read : List Sign) (text : String) : Prop :=
  (∀ c rest, read = .plain c :: rest → ∃ tail, text.toList = c :: tail) ∧
    (Settled read → AnglesFollowed text)

theorem renderPieces_coincide {resolve resolveToo : Body → EvalM σ String} (read : List Sign)
    (resolves : ∀ body, .tag body ∈ read →
      Coincide AnglesFollowed (resolve (Body.ofText (String.ofList body)))
        (resolveToo (Body.ofText (String.ofList body)))) :
    Coincide (Rendering read) (renderPieces resolve (piecesFrom [] read))
      (renderPieces resolveToo (piecesFrom [] read)) := by
  have empty (read : List Sign) (tagFirst : ∀ c rest, read ≠ .plain c :: rest) :
      Rendering read "" :=
    ⟨fun c rest same => absurd same (tagFirst c rest), fun _ => anglesFollowed_of_not_mem (by simp)⟩
  induction read with
  | nil => exact .pure (empty [] (by simp))
  | cons sign rest ih =>
      have onward := ih fun body member => resolves body (by simp [member])
      cases sign with
      | plain c =>
          rw [show Sign.plain c :: rest = [c].map .plain ++ rest from rfl, renderPieces_plain,
            renderPieces_plain]
          refine .bind onward fun back rendered => .pure ⟨?_, fun settled => ?_⟩
          · intro first others same
            obtain rfl : c = first := by simpa using (List.cons.inj same).1
            exact ⟨back.toList, by simp⟩
          · refine (rendered.2 settled.2).cons fun isAngle => ?_
            obtain ⟨next, behind, isNext, keeps⟩ := settled.1 isAngle
            obtain ⟨tail, starts⟩ := rendered.1 next behind isNext
            exact ⟨next, tail, starts, keeps⟩
      | tag body =>
          refine .bind .isCancelled fun cancelled _ => ?_
          split
          · exact .pure (empty _ (by simp))
          · refine .bind (resolves body (by simp)) fun value followed =>
              .bind onward fun back rendered => .pure ⟨by simp, fun settled => ?_⟩
            exact followed.append (rendered.2 settled)

section

variable {vocabulary : Vocabulary σ} {levels : Nat} {context : Context} {limit : Nat}

theorem renderText_coincide {resolve resolveToo : Body → EvalM σ String} {text : String}
    (resolves : ∀ body, .tag body ∈ signs text.toList →
      Coincide AnglesFollowed (resolve (Body.ofText (String.ofList body)))
        (resolveToo (Body.ofText (String.ofList body)))) :
    Coincide (fun filled => Settled (signs text.toList) → AnglesFollowed filled)
      (renderText vocabulary resolve text) (renderText vocabulary resolveToo text) := by
  unfold renderText
  split
  · refine .bind (readPieces_coincide vocabulary text) ?_
    rintro _ rfl
    exact (renderPieces_coincide (signs text.toList) resolves).weaken fun _ rendered => rendered.2
  · rename_i tagless
    rw [mayHoldTags_iff] at tagless
    exact .pure fun _ => anglesFollowed_of_not_mem tagless

theorem renderText_coincide_of_unopened {resolve resolveToo : Body → EvalM σ String} {text : String}
    (unopened : Unopened text.toList) :
    Coincide (fun _ => True) (renderText vocabulary resolve text)
      (renderText vocabulary resolveToo text) :=
  (renderText_coincide fun _ member => absurd member unopened.no_tag).weaken fun _ _ => trivial

section

variable {depth other : Nat} {fill refill : String → EvalM σ String} {body : Body}
  (fills : ∀ text : String, WellNested levels text.toList →
    Coincide AnglesFollowed (fill text) (refill text))

include fills

theorem lookUp_coincide
    (tagless : ∀ text : String, Unopened text.toList →
      Coincide (fun _ => True) (fill text) (refill text))
    (chains : ∀ chain : Chain,
      (∀ text, chain.Holds text → Coincide (fun _ => True) (fill text) (refill text)) →
      Coincide (fun _ => True) (resolveChain vocabulary fill ⟨chain, depth, context⟩)
        (resolveChain vocabulary refill ⟨chain, other, context⟩))
    (nested : WellNested levels body.lookup.toList) :
    Coincide (fun _ => True) (lookUp vocabulary fill context depth body)
      (lookUp vocabulary refill context other body) := by
  unfold lookUp
  split
  · refine .bind (fills body.lookup nested) fun filled followed => .bind (readChain_coincide filled) ?_
    rintro _ rfl
    exact chains _ fun text holds => tagless text (holds.unopened followed.unopened)
  · rw [pure_bind, pure_bind]
    refine .bind (readChain_coincide body.lookup) ?_
    rintro _ rfl
    exact chains _ fun text holds => (fills text (holds.wellNested nested)).weaken fun _ _ => trivial

theorem withoutValue_coincide
    (nested : ∀ fallback ∈ body.fallback, WellNested levels fallback.toList) (failure : Failure) :
    Coincide AnglesFollowed (withoutValue vocabulary fill context body failure)
      (withoutValue vocabulary refill context body failure) := by
  unfold withoutValue
  split
  · rename_i fallback found
    exact .bind (.modifyWorld _) fun _ _ => fills fallback (nested fallback found)
  · exact .bind (.modifyWorld _) fun _ _ => .pure (anglesFollowed_of_not_mem (by decide))

end

/-- If fewer levels do for the texts that stand in a tag, one more does for the tag. -/
theorem resolveBody_coincide {more : Nat} (blind : vocabulary.DepthBlind)
    (calls : ∀ procedure,
      Coincide (fun _ => True) (vocabulary.call procedure) (vocabulary.call procedure))
    (fills : ∀ text : String, WellNested levels text.toList → Coincide AnglesFollowed
      (renderText vocabulary (resolveBody vocabulary context limit levels) text)
      (renderText vocabulary (resolveBody vocabulary context limit (levels + more)) text))
    {raw : List Char} (nested : WellNested levels raw) :
    Coincide AnglesFollowed
      (resolveBody vocabulary context limit (levels + 1) (Body.ofText (String.ofList raw)))
      (resolveBody vocabulary context limit (levels + more + 1)
        (Body.ofText (String.ofList raw))) := by
  obtain ⟨lookupNested, fallbackNested⟩ := nested.body
  rw [resolveBody_succ, resolveBody_succ]
  refine .bind (lookUp_coincide fills (fun _ => renderText_coincide_of_unopened)
    (fun chain same => resolveChain_coincide same calls blind) lookupNested) fun outcome _ => ?_
  cases outcome with
  | ok value => exact .pure (anglesFollowed_escape value)
  | error failure => exact withoutValue_coincide fills fallbackNested failure

theorem renderText_coincide_of_wellNested (blind : vocabulary.DepthBlind)
    (calls : ∀ procedure,
      Coincide (fun _ => True) (vocabulary.call procedure) (vocabulary.call procedure))
    (more : Nat) {text : String} (nested : WellNested levels text.toList) :
    Coincide AnglesFollowed
      (renderText vocabulary (resolveBody vocabulary context limit levels) text)
      (renderText vocabulary (resolveBody vocabulary context limit (levels + more)) text) := by
  induction levels generalizing text with
  | zero =>
      exact (renderText_coincide fun _ member => absurd member nested.no_tag).weaken
        fun _ followed => followed nested.settled
  | succ levels ih =>
      rw [Nat.add_right_comm]
      exact (renderText_coincide fun body member =>
        resolveBody_coincide blind calls (fun _ => ih) (nested.tag member)).weaken
          fun _ followed => followed nested.settled

end

end TagScript.Tag
