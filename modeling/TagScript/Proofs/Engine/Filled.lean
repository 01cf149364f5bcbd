import TagScript.Proofs.Engine.Braces

/-! What filling keeps of the words of an entry. A word with tags or definitions may come to anything,
even to a brace, but other words, braces and the words between them stay what they are. -/

namespace TagScript

variable {η σ : Type}

def Fixed (word : String) : Prop := ¬ Changeable word ∧ Tag.unescape word = word

theorem IsBrace.fixed {word : String} (brace : IsBrace word) : Fixed word := by
  rcases brace with rfl | rfl
  · exact ⟨by unfold Changeable; decide, by decide⟩
  · exact ⟨by unfold Changeable; decide, by decide⟩

/-- The words once they are filled, so many braces being open. Fixed words, braces among them, and what
stands in braces stay. -/
inductive FilledFrom : Nat → List String → List String → Prop
  | nil (depth : Nat) : FilledFrom depth [] []
  | cons {depth : Nat} {word text : String} {rest others : List String}
      (kept : Fixed word ∨ 0 < depth → text = word)
      (following : FilledFrom (SourceReader.braceDepth depth word) rest others) :
      FilledFrom depth (word :: rest) (text :: others)

namespace FilledFrom

theorem refl (depth : Nat) (words : List String) : FilledFrom depth words words := by
  induction words generalizing depth with
  | nil => exact .nil depth
  | cons word rest ih => exact .cons (fun _ => rfl) (ih _)

theorem eq_of_fixed {depth : Nat} {words filled : List String} (fills : FilledFrom depth words filled)
    (fixed : ∀ word ∈ words, Fixed word) : filled = words := by
  induction fills with
  | nil => rfl
  | cons kept _ ih =>
      rw [List.forall_mem_cons] at fixed
      rw [kept (.inl fixed.1), ih fixed.2]

theorem braceDepth_mono {depth more : Nat} (le : depth ≤ more) (word : String) :
    SourceReader.braceDepth depth word ≤ SourceReader.braceDepth more word := by
  unfold SourceReader.braceDepth
  split
  · omega
  · split <;> omega

theorem trans {depth more : Nat} {words between filled : List String}
    (first : FilledFrom depth words between) (le : depth ≤ more)
    (second : FilledFrom more between filled) : FilledFrom depth words filled := by
  induction first generalizing more filled with
  | nil depth =>
      cases second
      exact .nil depth
  | @cons depth word text rest others kept _ ih =>
      cases second with
      | cons keptLater following =>
          by_cases held : Fixed word ∨ 0 < depth
          · obtain rfl := kept held
            refine .cons (fun _ => keptLater ?_) (ih (braceDepth_mono le text) following)
            exact held.imp_right fun open_ => by omega
          · refine .cons (fun fixed => absurd fixed held) (ih ?_ following)
            rw [not_or, Nat.not_lt, Nat.le_zero] at held
            obtain ⟨notOpen, notClose⟩ := not_or.1 fun brace : IsBrace word => held.1 brace.fixed
            simp [SourceReader.braceDepth, notOpen, notClose, held.2]

end FilledFrom

open Tag (evaluateBounded_of_tagless mayHoldTags unescape)
open Tag.EvalM (Gives)

theorem fillArgumentsFrom_filled (vocabulary : Tag.Vocabulary σ) (context : Tag.Context)
    (depth : Nat) (words : List String) :
    Gives (Tag.fillArgumentsFrom vocabulary context depth words)
      (FilledFrom depth words) := by
  induction words generalizing depth with
  | nil => exact .pure (.nil depth)
  | cons word rest ih =>
      have goesOn {open_ : Nat} (same : SourceReader.braceDepth depth word = open_) {text : String}
          (kept : Fixed word ∨ 0 < depth → text = word) :
          Gives (do
            return text :: (← Tag.fillArgumentsFrom vocabulary context open_ rest))
            (FilledFrom depth (word :: rest)) :=
        .bind (ih open_) fun _ following => .pure (.cons kept (same ▸ following))
      unfold Tag.fillArgumentsFrom
      split
      · rename_i isOpen
        exact goesOn (by simp [SourceReader.braceDepth, isOpen]) fun _ => rfl
      · rename_i notOpen
        split
        · rename_i isClose
          refine goesOn ?_ fun _ => rfl
          rw [SourceReader.braceDepth, if_neg notOpen, if_pos isClose]
        · rename_i notClose
          have same : SourceReader.braceDepth depth word = depth := by
            simp [SourceReader.braceDepth, notOpen, notClose]
          split
          · exact goesOn same fun _ => rfl
          · rename_i outside
            have inside (text : String) (plain : mayHoldTags word = false → text = unescape word) :
                Fixed word ∨ 0 < depth → text = word := by
              rintro (fixed | open_)
              · have tagless : mayHoldTags word = false := by
                  simpa [Template.ofArgument, mayHoldTags] using fun tagged => fixed.1 (.inl tagged)
                rw [plain tagless, fixed.2]
              · exact absurd open_ outside
            cases tags : mayHoldTags word with
            | true => exact .after fun filled => goesOn same (inside filled (by simp [tags]))
            | false =>
                rw [evaluateBounded_of_tagless vocabulary context tags, pure_bind]
                exact goesOn same (inside _ fun _ => rfl)

namespace Engine

theorem substituteArgument_filled (engine : Engine η) (queue : Queue) (entry : Entry) (depth : Nat)
    (argument : String) :
    Gives (engine.substituteArgument queue entry (Template.ofArgument depth argument)) fun text =>
      Fixed argument ∨ 0 < depth → text = argument := by
  unfold substituteArgument
  split
  · exact .pure fun _ => rfl
  · rename_i substituted
    simp only [Template.isSubstituted, Bool.not_eq_true, Bool.not_eq_false', Bool.and_eq_true,
      beq_iff_eq] at substituted
    refine .after fun _ => .pure fun held => ?_
    rcases held with fixed | inside
    · exact absurd (.inr substituted.2) fixed.1
    · exact absurd substituted.1 (Nat.ne_of_gt inside)

theorem substituteArguments_filled (engine : Engine η) (queue : Queue) (entry : Entry)
    (depth : Nat) (words : List String) :
    Gives ((Template.listFrom depth words).mapM (engine.substituteArgument queue entry))
      (FilledFrom depth words) := by
  induction words generalizing depth with
  | nil =>
      rw [Template.listFrom, List.mapM_nil]
      exact .pure (.nil depth)
  | cons word rest ih =>
      have goesOn {outside open_ : Nat} (around : 0 < depth → Fixed word ∨ 0 < outside)
          (same : SourceReader.braceDepth depth word = open_) :
          Gives ((Template.ofArgument outside word :: Template.listFrom open_ rest).mapM
            (engine.substituteArgument queue entry)) (FilledFrom depth (word :: rest)) := by
        rw [List.mapM_cons]
        refine .bind (engine.substituteArgument_filled queue entry _ _) fun text kept => ?_
        refine .bind (ih open_) fun others following => .pure (.cons (fun held => kept ?_) ?_)
        · exact held.elim .inl around
        · exact same ▸ following
      rw [Template.listFrom]
      split
      · rename_i isClose
        subst isClose
        exact goesOn (fun _ => .inl (IsBrace.fixed (.inr rfl))) rfl
      · rename_i notClose
        split
        · rename_i isOpen
          exact goesOn (fun inside => .inr inside) (by simp [SourceReader.braceDepth, isOpen])
        · rename_i notOpen
          exact goesOn (fun inside => .inr inside)
            (by simp [SourceReader.braceDepth, notOpen, notClose])

theorem substituteDefinitions_filled (engine : Engine η) (queue : Queue) (entry : Entry) :
    Gives (engine.substituteDefinitions queue entry) fun substituted =>
      ∃ arguments, substituted = { entry with arguments } ∧
        FilledFrom 0 entry.arguments arguments := by
  unfold substituteDefinitions
  split
  · exact .pure ⟨entry.arguments, rfl, .refl 0 _⟩
  · exact .bind (engine.substituteArguments_filled queue entry 0 entry.arguments) fun arguments
      filled => .pure ⟨arguments, rfl, filled⟩

theorem fillEntry_filled (engine : Engine η) (fire : Firing η) (ref : QueueRef) (entry : Entry) :
    Gives (engine.fillEntry fire ref entry) fun ready =>
      (∃ arguments, ready.entry = { entry with arguments }) ∧
        FilledFrom 0 entry.arguments ready.filled := by
  refine .after fun queue => .when ?_
  refine .bind (engine.substituteDefinitions_filled queue entry) fun substituted isEntry => ?_
  obtain ⟨arguments, rfl, texts⟩ := isEntry
  refine .after fun context => .bind (Tag.underToken_gives
    (fillArgumentsFrom_filled _ context 0 arguments) false) fun filled words => ?_
  exact .after fun _ => .pure ⟨⟨arguments, rfl⟩, texts.trans (Nat.le_refl 0) words⟩

end Engine

end TagScript
