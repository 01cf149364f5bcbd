import TagScript.Proofs.Script.Outside

/-! What stands in the braces of an entry reaches the entries of its blocks as it was written. -/

namespace TagScript

variable {η : Type}

open SourceReader (braceDepth)

/-- The words once they are filled, so many braces being open. No brace is gained or lost, and what
stands in braces stays. -/
inductive KeptFrom : Nat → List String → List String → Prop
  | nil (depth : Nat) : KeptFrom depth [] []
  | cons {depth : Nat} {word text : String} {rest others : List String}
      (kept : IsBrace word ∨ IsBrace text ∨ 0 < depth → text = word)
      (following : KeptFrom (braceDepth depth word) rest others) :
      KeptFrom depth (word :: rest) (text :: others)

namespace KeptFrom

variable {depth : Nat} {words rest : List String}

theorem of_filled {filled : List String} (fills : FilledFrom depth words filled)
    (ungained : List.Forall₂ (fun word text => IsBrace text → IsBrace word) words filled) :
    KeptFrom depth words filled := by
  induction fills with
  | nil => exact .nil _
  | cons kept _ ih =>
      cases ungained with
      | cons first others =>
          refine .cons ?_ (ih others)
          rintro (brace | brace | inside)
          · exact kept (.inl brace.fixed)
          · exact kept (.inl (first brace).fixed)
          · exact kept (.inr inside)

theorem split {front back : List String} (keeps : KeptFrom depth words (front ++ back)) :
    ∃ first second, words = first ++ second ∧ KeptFrom depth first front ∧
      KeptFrom (first.foldl braceDepth depth) second back := by
  induction front generalizing depth words with
  | nil => exact ⟨[], words, rfl, .nil depth, keeps⟩
  | cons text front ih =>
      cases keeps with
      | cons kept following =>
          obtain ⟨first, second, rfl, keeps, behind⟩ := ih following
          exact ⟨_ :: first, second, rfl, .cons kept keeps, behind⟩

theorem of_isBrace {brace : String} (keeps : KeptFrom depth words (brace :: rest))
    (isBrace : IsBrace brace) :
    ∃ later, words = brace :: later ∧ KeptFrom (braceDepth depth brace) later rest := by
  cases keeps with
  | cons kept following =>
      obtain rfl := kept (.inr (.inl isBrace))
      exact ⟨_, rfl, following⟩

theorem not_mem {filled : List String} (keeps : KeptFrom depth words filled) {brace : String}
    (isBrace : IsBrace brace) (absent : brace ∉ filled) : brace ∉ words := by
  induction keeps with
  | nil => exact absent
  | cons kept _ ih =>
      obtain ⟨other, others⟩ := not_or.1 (mt List.mem_cons.2 absent)
      rintro (_ | ⟨_, later⟩)
      · exact other (kept (.inl isBrace)).symm
      · exact ih others later

theorem unbraced {filled : List String} (keeps : KeptFrom depth words filled)
    (unbraced : Unbraced filled) : Unbraced words :=
  ⟨keeps.not_mem (.inl rfl) unbraced.1, keeps.not_mem (.inr rfl) unbraced.2⟩

theorem eq_of_leavesOpen {inner : List String} {open_ : Nat} (leaves : LeavesOpen open_ inner)
    (keeps : KeptFrom (depth + 1) words inner) : words = inner := by
  induction leaves using LeavesOpen.induction generalizing words with
  | nil =>
      cases keeps
      rfl
  | concat leaves _ ih =>
      obtain ⟨first, second, rfl, keeps, last⟩ := keeps.split
      obtain rfl := ih keeps
      rw [foldl_braceDepth_of_leavesOpen leaves] at last
      cases last with
      | cons kept following =>
          cases following
          rw [kept (.inr (.inr (by omega)))]

theorem block {text : BlockText} (braced : text.IsBraced)
    (keeps : KeptFrom 0 words (text.words ++ rest)) :
    ∃ key later, words = (⟨key, text.inner⟩ : BlockText).words ++ later ∧ Unbraced key ∧
      KeptFrom 0 later rest := by
  rw [BlockText.words, List.append_assoc, List.cons_append, List.append_assoc] at keeps
  obtain ⟨key, behind, rfl, keeps, opened⟩ := keeps.split
  have unbracedKey := keeps.unbraced braced.key
  rw [foldl_braceDepth_of_unbraced unbracedKey] at opened
  obtain ⟨within, rfl, inside⟩ := opened.of_isBrace (.inl rfl)
  obtain ⟨inner, closed, rfl, keeps, closing⟩ := inside.split
  obtain rfl := eq_of_leavesOpen braced.inner keeps
  obtain ⟨later, rfl, outside⟩ := closing.of_isBrace (.inr rfl)
  rw [foldl_braceDepth_of_leavesOpen braced.inner] at outside
  exact ⟨key, later, by simp [BlockText.words], unbracedKey, outside⟩

end KeptFrom

/-- The blocks are read from the words between these braces. -/
structure ReadsInner (text : BlockText) (block : Block) : Prop where
  braced : text.IsBraced
  content : IsContent text.inner block.entries

theorem KeptFrom.blocks {words rest : List String} {texts : List BlockText} {blocks : List Block}
    (reads : List.Forall₂ BlockText.Reads texts blocks)
    (keeps : KeptFrom 0 words (texts.flatMap BlockText.words ++ rest)) :
    ∃ written later, words = written.flatMap BlockText.words ++ later ∧
      List.Forall₂ ReadsInner written blocks ∧ KeptFrom 0 later rest := by
  induction reads generalizing words with
  | nil => exact ⟨[], words, rfl, .nil, keeps⟩
  | @cons text _ _ _ first _ ih =>
      rw [List.flatMap_cons, List.append_assoc] at keeps
      obtain ⟨key, later, rfl, unbraced, keeps⟩ := keeps.block first.braced
      obtain ⟨written, later, rfl, others, keeps⟩ := ih keeps
      refine ⟨⟨key, text.inner⟩ :: written, later, ?_, .cons ⟨⟨unbraced, ?_⟩, ?_⟩ others, keeps⟩
      · rw [List.flatMap_cons, List.append_assoc]
      · exact first.braced.inner
      · exact first.content

namespace Engine

theorem blocks_of_kept {words filled : List String} {blocks : List Block}
    (keeps : KeptFrom 0 words filled) (built : blocksOfFilled filled = .ok blocks) :
    ∃ written rest, words = written.flatMap BlockText.words ++ rest ∧ openBrace ∉ rest ∧
      List.Forall₂ ReadsInner written blocks := by
  unfold blocksOfFilled at built
  split at built
  · obtain ⟨rest, ⟨⟨texts, rfl, reads⟩, _⟩, unbraced⟩ := Comprises.of_blocksOf built
    obtain ⟨written, later, rfl, inner, keeps⟩ := keeps.blocks reads
    exact ⟨written, later, rfl, (keeps.unbraced unbraced).1, inner⟩
  · rename_i unopened
    obtain rfl := Except.ok.inj built
    exact ⟨[], words, rfl, keeps.not_mem (.inl rfl) (by simpa using unopened), .nil⟩

/-- Whatever counts braces tells the same words to be outside. So if no word of an entry becomes a
brace as it is filled, the entries of its blocks are made of the words that were written between its
braces, and no definition or tag among these is read. -/
theorem braced_words_untouched (engine : Engine η) (fire : Firing η) (ref : QueueRef)
    (entry : Entry) :
    (∀ words, Classified words) ∧
      ∀ {state later : Tag.Evaluation (World η)} {ready : FilledEntry},
        (engine.fillEntry fire ref entry).run state = some (ready, later) →
        List.Forall₂ (fun argument word => IsBrace word → IsBrace argument) entry.arguments
          ready.filled →
        ∀ blocks, blocksOfFilled ready.filled = .ok blocks →
          (engine.executeEntry fire ref entry).run state =
            (engine.dispatch fire ref ready (.ok blocks)).run later ∧
          ∃ written rest, entry.arguments = written.flatMap BlockText.words ++ rest ∧
            openBrace ∉ rest ∧ List.Forall₂ ReadsInner written blocks := by
  refine ⟨classified, fun {state later ready} ran ungained blocks built => ⟨?_, ?_⟩⟩
  · rw [executeEntry_eq, Tag.EvalM.run_bind_of_run_some ran, built]
  · have fills := (engine.fillEntry_filled fire ref entry state ready later ran).2
    exact blocks_of_kept (.of_filled fills ungained) built

theorem braced_words_untouched_loop :
    let entry : Entry :=
      .ofCommand "repeat" ["%x%", openBrace, "-", "narrate", "%x%", "<def[x]>", closeBrace]
    ∃ ready later,
      (speaker.fillEntry (fun _ => RunM.outOfBudget) ⟨0⟩ entry).run (defining "2") =
        some (ready, later) ∧
      ready.filled = ["2", openBrace, "-", "narrate", "%x%", "<def[x]>", closeBrace] ∧
      blocksOfFilled ready.filled = .ok [⟨"2", [.ofCommand "narrate" ["%x%", "<def[x]>"]]⟩] ∧
      ∃ written rest, entry.arguments = written.flatMap BlockText.words ++ rest ∧
        openBrace ∉ rest ∧
        List.Forall₂ ReadsInner written [⟨"2", [.ofCommand "narrate" ["%x%", "<def[x]>"]]⟩] := by
  intro entry
  have shown : ((speaker.fillEntry (fun _ => RunM.outOfBudget) ⟨0⟩ entry).run
      (defining "2")).map (·.1.filled) =
        some ["2", openBrace, "-", "narrate", "%x%", "<def[x]>", closeBrace] := by
    decide +kernel
  obtain ⟨⟨ready, later⟩, ran, filled⟩ := Option.map_eq_some_iff.1 shown
  have built : blocksOfFilled ready.filled =
      .ok [⟨"2", [.ofCommand "narrate" ["%x%", "<def[x]>"]]⟩] := by
    rw [filled]
    decide +kernel
  have ungained : List.Forall₂ (fun argument word => IsBrace word → IsBrace argument)
      entry.arguments ready.filled := by
    rw [filled]
    unfold IsBrace
    exact List.forall₂_iff_get.2 (by decide)
  have untouched := (braced_words_untouched speaker (fun _ => RunM.outOfBudget) ⟨0⟩ entry).2 ran
    ungained _ built
  exact ⟨ready, later, ran, filled, built, untouched.2⟩

end Engine

end TagScript
