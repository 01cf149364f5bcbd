import Mathlib.Data.List.Forall2
import Mathlib.Data.List.Induction
import TagScript.Proofs.Engine.Braces
import TagScript.Script.Block

/-! The content of a block. Words whose braces match are either entries, each behind its dash, or
start with another word than a dash; braces inside an entry stay words of it. -/

namespace TagScript

/-- Each closing brace closes one that is open, and `depth` of them are open at the end. -/
structure LeavesOpen (depth : Nat) (words : List String) : Prop where
  total : words.count openBrace = words.count closeBrace + depth
  closes : ∀ before, before <+: words → before.count closeBrace ≤ before.count openBrace

def Matched (words : List String) : Prop := LeavesOpen 0 words

def openAfter (depth : Nat) (word : String) : Option Nat :=
  if word = openBrace then some (depth + 1)
  else if word = closeBrace then match depth with
    | 0 => none
    | outer + 1 => some outer
  else some depth

theorem openAfter_eq_some {earlier depth : Nat} {word : String}
    (turn : openAfter earlier word = some depth) :
    (if word = openBrace then earlier + 1 else if word = closeBrace then earlier - 1 else earlier)
      = depth := by
  unfold openAfter at turn
  split_ifs at turn ⊢
  · exact Option.some.inj turn
  · cases earlier with
    | zero => cases turn
    | succ outer => exact Option.some.inj turn
  · exact Option.some.inj turn

theorem openAfter_eq_some_iff {earlier depth : Nat} {word : String} :
    openAfter earlier word = some depth ↔
      earlier + [word].count openBrace = depth + [word].count closeBrace := by
  have unequal : openBrace ≠ closeBrace := by decide
  simp only [List.count_singleton, beq_iff_eq]
  by_cases opening : word = openBrace
  · simp [openAfter, opening, unequal, eq_comm]
  · by_cases closing : word = closeBrace
    · cases earlier <;> simp [openAfter, closing, unequal.symm]
    · simp [openAfter, opening, closing]

theorem openAfter_eq_none {depth : Nat} {word : String} (unknown : openAfter depth word = none) :
    depth = 0 ∧ word = closeBrace := by
  unfold openAfter at unknown
  split_ifs at unknown with _ closing
  cases depth with
  | zero => exact ⟨rfl, closing⟩
  | succ outer => cases unknown

theorem leavesOpen_nil {depth : Nat} : LeavesOpen depth [] ↔ depth = 0 := by
  constructor
  · rintro ⟨total, _⟩
    simpa using total.symm
  · rintro rfl
    exact ⟨rfl, fun before within => by simp [List.prefix_nil.1 within]⟩

theorem leavesOpen_concat {depth : Nat} {words : List String} {word : String} :
    LeavesOpen depth (words ++ [word]) ↔
      ∃ earlier, LeavesOpen earlier words ∧ openAfter earlier word = some depth := by
  simp only [openAfter_eq_some_iff]
  constructor
  · rintro ⟨total, closes⟩
    have less := closes words (List.prefix_append words [word])
    rw [List.count_append, List.count_append] at total
    refine ⟨words.count openBrace - words.count closeBrace, ⟨by omega, fun before within => ?_⟩,
      by omega⟩
    exact closes before (within.trans (List.prefix_append words [word]))
  · rintro ⟨earlier, ⟨total, closes⟩, turn⟩
    have counts : (words ++ [word]).count openBrace
        = (words ++ [word]).count closeBrace + depth := by
      rw [List.count_append, List.count_append]
      omega
    refine ⟨counts, fun before within => ?_⟩
    rcases List.prefix_concat_iff.1 within with rfl | within
    · omega
    · exact closes before within

@[elab_as_elim]
theorem LeavesOpen.induction {motive : (depth : Nat) → (words : List String) → LeavesOpen depth words → Prop}
    (nil : motive 0 [] (leavesOpen_nil.2 rfl))
    (concat : ∀ {earlier depth : Nat} {words : List String} {word : String}
      (leaves : LeavesOpen earlier words) (turn : openAfter earlier word = some depth),
      motive earlier words leaves →
      motive depth (words ++ [word]) (leavesOpen_concat.2 ⟨earlier, leaves, turn⟩))
    {depth : Nat} {words : List String} (leaves : LeavesOpen depth words) :
    motive depth words leaves := by
  induction words using List.reverseRecOn generalizing depth with
  | nil =>
      obtain rfl := leavesOpen_nil.1 leaves
      exact nil
  | append_singleton words word ih =>
      obtain ⟨earlier, before, turn⟩ := leavesOpen_concat.1 leaves
      exact concat before turn (ih before)

def Undashed (words : List String) : Prop :=
  ∀ before, before ++ ["-"] <+: words → before.count closeBrace < before.count openBrace

theorem undashed_nil : Undashed [] := by
  intro before within
  exact absurd (List.prefix_nil.1 within) (by simp)

theorem undashed_concat {words : List String} {word : String} :
    Undashed (words ++ [word]) ↔
      Undashed words ∧ (word = "-" → words.count closeBrace < words.count openBrace) := by
  constructor
  · intro undashed
    constructor
    · exact fun before within => undashed before (within.trans (List.prefix_append words [word]))
    · rintro rfl
      exact undashed words List.prefix_rfl
  · rintro ⟨undashed, last⟩ before within
    rcases List.prefix_concat_iff.1 within with whole | within
    · obtain ⟨rfl, same⟩ := List.append_inj' whole rfl
      exact last (List.singleton_inj.1 same).symm
    · exact undashed before within

structure IsItem (words : List String) : Prop where
  matched : Matched words
  undashed : Undashed words

def dashed (items : List (List String)) : List String :=
  items.flatMap ("-" :: ·)

theorem dashed_concat (items : List (List String)) (last : List String) :
    dashed (items ++ [last]) = dashed items ++ "-" :: last := by
  simp [dashed]

def IsContent (words : List String) (entries : List Entry) : Prop :=
  ∃ items, words = dashed items ∧ (∀ item ∈ items, IsItem item) ∧
    List.Forall₂ (fun item entry => Entry.ofTokens item = .ok entry) items entries

/-- The first thing wrong with the content of a block. -/
inductive Misread : List String → BlockError → Prop where
  | missingDash {word : String} {rest : List String} (other : word ≠ "-") :
      Misread (word :: rest) (.missingDash word)
  | emptyCommand {items : List (List String)} {item : List String} {error : EntryError}
      (isItem : ∀ item ∈ items, IsItem item) (known : item ∈ items)
      (refused : Entry.ofTokens item = .error error) : Misread (dashed items) .emptyCommand

theorem exists_items {words : List String} {depth : Nat}
    (leaves : LeavesOpen depth ("-" :: words)) :
    ∃ items last, "-" :: words = dashed (items ++ [last]) ∧ (∀ item ∈ items, IsItem item) ∧
      LeavesOpen depth last ∧ Undashed last := by
  induction words using List.reverseRecOn generalizing depth with
  | nil =>
      rw [← List.nil_append ["-"]] at leaves
      obtain ⟨earlier, empty, turn⟩ := leavesOpen_concat.1 leaves
      obtain rfl := leavesOpen_nil.1 empty
      obtain rfl := Option.some.inj turn
      exact ⟨[], [], rfl, by simp, empty, undashed_nil⟩
  | append_singleton words word ih =>
      rw [← List.cons_append] at leaves ⊢
      obtain ⟨earlier, leaves, turn⟩ := leavesOpen_concat.1 leaves
      obtain ⟨items, last, split, isItem, leaves, undashed⟩ := ih leaves
      rw [split]
      by_cases starts : word = "-" ∧ earlier = 0
      · obtain ⟨rfl, rfl⟩ := starts
        obtain rfl := Option.some.inj turn
        refine ⟨items ++ [last], [], ?_, ?_, leavesOpen_nil.2 rfl, undashed_nil⟩
        · rw [dashed_concat (items ++ [last])]
        · rintro item known
          rcases List.mem_append.1 known with known | known
          · exact isItem item known
          · obtain rfl := List.mem_singleton.1 known
            exact ⟨leaves, undashed⟩
      · refine ⟨items, last ++ [word], ?_, isItem, leavesOpen_concat.2 ⟨earlier, leaves, turn⟩,
          undashed_concat.2 ⟨undashed, fun dash => ?_⟩⟩
        · rw [dashed_concat, dashed_concat, List.append_assoc, List.cons_append]
        · have total := leaves.total
          have inside : earlier ≠ 0 := fun outside => starts ⟨dash, outside⟩
          omega

namespace ItemReader

theorem foldlM_item (entries : List Entry) {words : List String} {depth : Nat}
    (leaves : LeavesOpen depth words) (undashed : Undashed words) :
    words.foldlM step ⟨entries, some [], 0⟩ = .ok ⟨entries, some words.reverse, depth⟩ := by
  induction leaves using LeavesOpen.induction with
  | nil => rfl
  | @concat earlier depth words word leaves turn ih =>
      obtain ⟨undashed, last⟩ := undashed_concat.1 undashed
      rw [List.foldlM_append, ih undashed]
      have total := leaves.total
      have within : ¬ (earlier = 0 ∧ word = "-") := by
        rintro ⟨rfl, dash⟩
        have inside := last dash
        omega
      have read : step ⟨entries, some words.reverse, earlier⟩ word
          = .ok ⟨entries, some (word :: words.reverse), depth⟩ := by
        unfold step
        rw [if_neg (by simpa using within)]
        dsimp only
        rw [openAfter_eq_some turn]
      rw [List.reverse_concat]
      exact (bind_pure (m := Except BlockError) _).trans read

def command (item : List String) : Except BlockError Entry :=
  match Entry.ofTokens item with
  | .ok entry => .ok entry
  | .error _ => .error .emptyCommand

theorem finish_item (entries : List Entry) (item : List String) (depth : Nat) :
    finish ⟨entries, some item.reverse, depth⟩ = (command item).map (· :: entries) := by
  unfold finish command
  dsimp only
  rw [List.reverse_reverse]
  cases Entry.ofTokens item <;> rfl

theorem finish_dashed {items : List (List String)} (isItem : ∀ item ∈ items, IsItem item)
    {reader : ItemReader} (outside : reader.depth = 0) :
    ((dashed items).foldlM step reader >>= finish) = (do
      let entries ← reader.finish
      let more ← items.mapM command
      return more.reverse ++ entries) := by
  induction items generalizing reader with
  | nil =>
      rw [List.mapM_nil]
      cases finished : reader.finish <;> simpa [dashed] using finished
  | cons item rest ih =>
      have started : step reader "-" = reader.finish.map fun entries => ⟨entries, some [], 0⟩ := by
        unfold step
        rw [if_pos (by simpa using outside)]
      have here := isItem item List.mem_cons_self
      have others := fun other known => isItem other (List.mem_cons_of_mem item known)
      rw [dashed, List.flatMap_cons, List.cons_append, List.foldlM_cons, started]
      cases reader.finish with
      | error error => rfl
      | ok entries =>
          change (List.foldlM step _ _ >>= finish) = _
          rw [List.foldlM_append, foldlM_item entries here.matched here.undashed]
          change ((dashed rest).foldlM step _ >>= finish) = _
          rw [ih others rfl, finish_item, List.mapM_cons]
          cases command item with
          | error error => rfl
          | ok entry =>
              cases rest.mapM command with
              | error error => rfl
              | ok found =>
                  change Except.ok (found.reverse ++ entry :: entries) = Except.ok _
                  rw [List.reverse_cons, List.append_assoc, List.singleton_append]

end ItemReader

open ItemReader (command)

theorem entriesOfBlock_dashed {items : List (List String)} (isItem : ∀ item ∈ items, IsItem item) :
    entriesOfBlock (dashed items) = items.mapM command := by
  have outside : ItemReader.start.depth = 0 := rfl
  have read := ItemReader.finish_dashed isItem outside
  unfold entriesOfBlock
  rw [← bind_assoc, read]
  cases items.mapM command with
  | error error => rfl
  | ok entries =>
      change Except.ok (entries.reverse ++ []).reverse = Except.ok entries
      rw [List.append_nil, List.reverse_reverse]

theorem entriesOfBlock_missingDash {word : String} {rest : List String} (other : word ≠ "-") :
    entriesOfBlock (word :: rest) = .error (.missingDash word) := by
  have refused : ItemReader.start.step word = .error (.missingDash word) := by
    simp [ItemReader.step, ItemReader.start, other]
  unfold entriesOfBlock
  rw [List.foldlM_cons, refused]
  rfl

theorem mapM_command_of_accepted {items : List (List String)} {entries : List Entry}
    (accepted : List.Forall₂ (fun item entry => Entry.ofTokens item = .ok entry) items entries) :
    items.mapM command = .ok entries := by
  induction accepted with
  | nil => rfl
  | cons built _ ih => rw [List.mapM_cons, ih, command, built]; rfl

theorem mapM_command_of_refused {items : List (List String)} {item : List String}
    {error : EntryError} (known : item ∈ items) (refused : Entry.ofTokens item = .error error) :
    items.mapM command = .error .emptyCommand := by
  induction items with
  | nil => cases known
  | cons first rest ih =>
      rw [List.mapM_cons, command]
      cases built : Entry.ofTokens first with
      | error other => rfl
      | ok entry =>
          rcases List.mem_cons.1 known with rfl | later
          · rw [built] at refused
            cases refused
          · rw [ih later]
            rfl

theorem accepted_or_refused (items : List (List String)) :
    (∃ entries, List.Forall₂ (fun item entry => Entry.ofTokens item = .ok entry) items entries) ∨
      ∃ item ∈ items, ∃ error, Entry.ofTokens item = .error error := by
  induction items with
  | nil => exact .inl ⟨[], .nil⟩
  | cons item rest ih =>
      cases built : Entry.ofTokens item with
      | error error => exact .inr ⟨item, List.mem_cons_self, error, built⟩
      | ok entry =>
          rcases ih with ⟨entries, accepted⟩ | ⟨other, known, refused⟩
          · exact .inl ⟨entry :: entries, .cons built accepted⟩
          · exact .inr ⟨other, List.mem_cons_of_mem item known, refused⟩

theorem IsContent.read {words : List String} {entries : List Entry}
    (content : IsContent words entries) : entriesOfBlock words = .ok entries := by
  obtain ⟨items, rfl, isItem, accepted⟩ := content
  rw [entriesOfBlock_dashed isItem, mapM_command_of_accepted accepted]

theorem Misread.refused {words : List String} {error : BlockError} (misread : Misread words error) :
    entriesOfBlock words = .error error := by
  cases misread with
  | missingDash other => exact entriesOfBlock_missingDash other
  | emptyCommand isItem known refused =>
      rw [entriesOfBlock_dashed isItem, mapM_command_of_refused known refused]

/-- Where braces match, the words are entries or have a first fault. -/
theorem content_or_misread {words : List String} (matched : Matched words) :
    (∃ entries, IsContent words entries) ∨ ∃ error, Misread words error := by
  cases words with
  | nil => exact .inl ⟨[], [], rfl, by simp, .nil⟩
  | cons word rest =>
      by_cases dash : word = "-"
      · subst dash
        obtain ⟨items, last, split, isItem, leaves, undashed⟩ := exists_items matched
        have each : ∀ item ∈ items ++ [last], IsItem item := by
          intro item known
          rcases List.mem_append.1 known with known | known
          · exact isItem item known
          · obtain rfl := List.mem_singleton.1 known
            exact ⟨leaves, undashed⟩
        rw [split]
        rcases accepted_or_refused (items ++ [last]) with
          ⟨entries, accepted⟩ | ⟨item, known, error, refused⟩
        · exact .inl ⟨entries, items ++ [last], rfl, each, accepted⟩
        · exact .inr ⟨.emptyCommand, .emptyCommand each known refused⟩
      · exact .inr ⟨.missingDash word, .missingDash dash⟩

end TagScript
