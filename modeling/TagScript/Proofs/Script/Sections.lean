import Mathlib.Data.List.Nodup
import TagScript.Proofs.Script.Content

/-! What the blocks of a list of words are. A list of words is read in exactly one of three ways: as
blocks with words between them, up to the first closing brace that makes it no such list, or up to a
brace that nothing closes. -/

namespace TagScript

/-- A block as it is written: words in front of a brace, and the words up to the brace that closes
it. -/
structure BlockText where
  key : List String
  inner : List String

namespace BlockText

def words (text : BlockText) : List String :=
  text.key ++ openBrace :: (text.inner ++ [closeBrace])

def name (text : BlockText) : String := Text.lower (Text.spaced text.key)

structure IsBraced (text : BlockText) : Prop where
  key : Unbraced text.key
  inner : Matched text.inner

structure Reads (text : BlockText) (block : Block) : Prop where
  braced : text.IsBraced
  name : block.key = text.name
  content : IsContent text.inner block.entries

end BlockText

structure Starts (words : List String) (blocks : List Block) (rest : List String) : Prop where
  texts : ∃ texts, words = texts.flatMap BlockText.words ++ rest ∧
    List.Forall₂ BlockText.Reads texts blocks
  distinct : (blocks.map Block.key).Nodup

/-- Words behind some blocks, up to a closing brace with which something is wrong. -/
inductive Faulty (blocks : List Block) : List String → BlockError → Prop where
  | stray {words : List String} (unbraced : Unbraced words) :
      Faulty blocks (words ++ [closeBrace]) .strayClose
  | duplicate {text : BlockText} (braced : text.IsBraced)
      (used : text.name ∈ blocks.map Block.key) :
      Faulty blocks text.words (.duplicateKey text.name)
  | content {text : BlockText} {error : BlockError} (braced : text.IsBraced)
      (unused : text.name ∉ blocks.map Block.key) (misread : Misread text.inner error) :
      Faulty blocks text.words error

/-- The error of the first closing brace that ends a faulty block, or none: all blocks before it are
read. -/
def FirstFault (words : List String) (error : BlockError) : Prop :=
  ∃ blocks fault after, Starts words blocks (fault ++ after) ∧ Faulty blocks fault error

/-- The words are these blocks with words between and behind them. -/
def Comprises (words : List String) (blocks : List Block) : Prop :=
  ∃ rest, Starts words blocks rest ∧ Unbraced rest

def Unfinished (words : List String) : Prop :=
  ∃ blocks key inner depth, Starts words blocks (key ++ openBrace :: inner) ∧ Unbraced key ∧
    LeavesOpen depth inner

theorem Unbraced.nil : Unbraced [] := ⟨List.not_mem_nil, List.not_mem_nil⟩

theorem Unbraced.concat {words : List String} {word : String} (unbraced : Unbraced words)
    (other : ¬ IsBrace word) : Unbraced (words ++ [word]) := by
  obtain ⟨opening, closing⟩ := not_or.1 other
  constructor
  · simpa [unbraced.1] using Ne.symm opening
  · simpa [unbraced.2] using Ne.symm closing

namespace Starts

variable {words rest : List String} {blocks : List Block}

theorem nil : Starts words [] words := ⟨⟨[], rfl, .nil⟩, List.nodup_nil⟩

theorem more (starts : Starts words blocks rest) (word : String) :
    Starts (words ++ [word]) blocks (rest ++ [word]) := by
  obtain ⟨⟨texts, split, reads⟩, distinct⟩ := starts
  exact ⟨⟨texts, by rw [split, List.append_assoc], reads⟩, distinct⟩

theorem block {text : BlockText} {block : Block} (starts : Starts words blocks text.words)
    (reads : text.Reads block) (unused : text.name ∉ blocks.map Block.key) :
    Starts words (blocks ++ [block]) [] := by
  obtain ⟨⟨texts, split, others⟩, distinct⟩ := starts
  refine ⟨⟨texts ++ [text], by simp [split], List.rel_append others (.cons reads .nil)⟩, ?_⟩
  rw [List.map_append, List.map_singleton, List.nodup_append_comm, List.singleton_append,
    List.nodup_cons]
  exact ⟨reads.name ▸ unused, distinct⟩

theorem count (starts : Starts words blocks rest) :
    words.count openBrace + rest.count closeBrace
      = words.count closeBrace + rest.count openBrace := by
  obtain ⟨⟨texts, rfl, reads⟩, -⟩ := starts
  induction reads with
  | nil => exact Nat.add_comm _ _
  | @cons text _ _ _ first _ ih =>
      have total := first.braced.inner.total
      have opened : text.key.count openBrace = 0 := List.count_eq_zero.2 first.braced.key.1
      have closed : text.key.count closeBrace = 0 := List.count_eq_zero.2 first.braced.key.2
      have unequal : openBrace ≠ closeBrace := by decide
      simp only [List.flatMap_cons, BlockText.words, List.count_append, List.count_cons,
        List.count_nil, beq_iff_eq, if_true, if_neg unequal, if_neg unequal.symm] at ih ⊢
      omega

end Starts

namespace BlockReader

theorem step_other {reader : BlockReader} {word : String} (outside : reader.depth = 0)
    (other : ¬ IsBrace word) :
    reader.step word = .ok { reader with key := word :: reader.key } := by
  obtain ⟨opening, closing⟩ := not_or.1 other
  unfold step
  rw [outside]
  dsimp only
  rw [if_neg opening, if_neg closing]

theorem foldlM_unbraced (blocks : List Block) {words : List String} (unbraced : Unbraced words) :
    words.foldlM step ⟨blocks, [], [], 0⟩ = .ok ⟨blocks, words.reverse, [], 0⟩ := by
  induction words using List.reverseRecOn with
  | nil => rfl
  | append_singleton words word ih =>
      have other : ¬ IsBrace word := by
        rintro (rfl | rfl)
        · exact unbraced.1 (by simp)
        · exact unbraced.2 (by simp)
      have before : Unbraced words :=
        ⟨fun known => unbraced.1 (by simp [known]), fun known => unbraced.2 (by simp [known])⟩
      rw [List.foldlM_append, ih before, List.reverse_concat]
      exact (bind_pure (m := Except BlockError) _).trans (step_other rfl other)

theorem step_inner {blocks : List Block} {key inner : List String} {earlier depth : Nat}
    {word : String} (turn : openAfter earlier word = some depth) :
    step ⟨blocks, key, inner, earlier + 1⟩ word = .ok ⟨blocks, key, word :: inner, depth + 1⟩ := by
  have known := openAfter_eq_some turn
  unfold step
  dsimp only
  by_cases closing : word = closeBrace
  · have unequal : closeBrace ≠ openBrace := by decide
    subst closing
    cases earlier with
    | zero =>
        rw [openAfter, if_neg unequal, if_pos rfl] at turn
        cases turn
    | succ outer =>
        rw [if_neg unequal, if_pos rfl] at known
        rw [if_pos rfl, if_neg (Nat.succ_ne_zero outer), ← known, Nat.add_sub_cancel]
  · rw [if_neg closing] at known ⊢
    split_ifs at known ⊢ with opening
    · rw [← known]
    · rw [known]

theorem foldlM_inner (blocks : List Block) (key : List String) {words : List String} {depth : Nat}
    (leaves : LeavesOpen depth words) :
    words.foldlM step ⟨blocks, key, [], 1⟩ = .ok ⟨blocks, key, words.reverse, depth + 1⟩ := by
  induction leaves using LeavesOpen.induction with
  | nil => rfl
  | concat leaves turn ih =>
      rw [List.foldlM_append, ih, List.reverse_concat]
      exact (bind_pure (m := Except BlockError) _).trans (step_inner turn)

theorem foldlM_open (blocks : List Block) {key inner : List String} {depth : Nat}
    (unbraced : Unbraced key) (leaves : LeavesOpen depth inner) :
    (key ++ openBrace :: inner).foldlM step ⟨blocks, [], [], 0⟩
      = .ok ⟨blocks, key.reverse, inner.reverse, depth + 1⟩ := by
  rw [List.foldlM_append, foldlM_unbraced blocks unbraced]
  exact foldlM_inner blocks key.reverse leaves

theorem foldlM_block (blocks : List Block) {text : BlockText} (braced : text.IsBraced) :
    text.words.foldlM step ⟨blocks, [], [], 0⟩
      = close ⟨blocks, text.key.reverse, text.inner.reverse, 1⟩ := by
  rw [BlockText.words, ← List.cons_append, ← List.append_assoc, List.foldlM_append,
    foldlM_open blocks braced.key braced.inner]
  exact bind_pure (m := Except BlockError) _

theorem close_used {blocks : List Block} {text : BlockText}
    (used : text.name ∈ blocks.map Block.key) :
    close ⟨blocks, text.key.reverse, text.inner.reverse, 1⟩ = .error (.duplicateKey text.name) := by
  have known : (blocks.any (·.key == text.name)) = true := by
    obtain ⟨block, known, same⟩ := List.mem_map.1 used
    exact List.any_eq_true.2 ⟨block, known, beq_iff_eq.2 same⟩
  unfold close
  rw [List.reverse_reverse]
  exact if_pos known

theorem close_unused {blocks : List Block} {text : BlockText}
    (unused : text.name ∉ blocks.map Block.key) :
    close ⟨blocks, text.key.reverse, text.inner.reverse, 1⟩
      = (entriesOfBlock text.inner).map fun entries =>
          ⟨⟨text.name, entries⟩ :: blocks, [], [], 0⟩ := by
  have unknown : ¬ (blocks.any (·.key == text.name)) = true := by
    rintro used
    obtain ⟨block, known, same⟩ := List.any_eq_true.1 used
    exact unused (List.mem_map.2 ⟨block, known, beq_iff_eq.1 same⟩)
  unfold close
  rw [List.reverse_reverse, List.reverse_reverse]
  refine (if_neg unknown).trans ?_
  cases entriesOfBlock text.inner <;> rfl

theorem foldlM_texts {texts : List BlockText} {earlier blocks : List Block}
    (reads : List.Forall₂ BlockText.Reads texts blocks)
    (distinct : ((blocks.reverse ++ earlier).map Block.key).Nodup) :
    (texts.flatMap BlockText.words).foldlM step ⟨earlier, [], [], 0⟩
      = .ok ⟨blocks.reverse ++ earlier, [], [], 0⟩ := by
  induction reads generalizing earlier with
  | nil => rfl
  | @cons text block _ blocks first _ ih =>
      rw [List.reverse_cons, List.append_assoc, List.singleton_append] at distinct ⊢
      have unused : text.name ∉ earlier.map Block.key := by
        rw [List.map_append] at distinct
        have behind := (List.nodup_append.1 distinct).2.1
        rw [List.map_cons, List.nodup_cons, first.name] at behind
        exact behind.1
      rw [List.flatMap_cons, List.foldlM_append, foldlM_block earlier first.braced,
        close_unused unused, first.content.read, ← first.name]
      exact ih distinct

end BlockReader

open BlockReader (foldlM_open foldlM_block foldlM_unbraced)

namespace Starts

theorem read {words rest : List String} {blocks : List Block} (starts : Starts words blocks rest) :
    words.foldlM BlockReader.step BlockReader.start
      = rest.foldlM BlockReader.step ⟨blocks.reverse, [], [], 0⟩ := by
  obtain ⟨⟨texts, rfl, reads⟩, distinct⟩ := starts
  have nodup : ((blocks.reverse ++ []).map Block.key).Nodup := by
    rw [List.append_nil, List.map_reverse]
    exact List.nodup_reverse.2 distinct
  rw [List.foldlM_append, BlockReader.start, BlockReader.foldlM_texts reads nodup, List.append_nil]
  rfl

end Starts

theorem Comprises.blocksOf {words : List String} {blocks : List Block}
    (comprises : Comprises words blocks) : blocksOf words = .ok blocks := by
  obtain ⟨rest, starts, unbraced⟩ := comprises
  unfold TagScript.blocksOf
  rw [starts.read, foldlM_unbraced _ unbraced]
  exact congrArg Except.ok (List.reverse_reverse blocks)

theorem Unfinished.blocksOf {words : List String} (unfinished : Unfinished words) :
    blocksOf words = .error .unclosed := by
  obtain ⟨blocks, key, inner, depth, starts, unbraced, leaves⟩ := unfinished
  unfold TagScript.blocksOf
  rw [starts.read, foldlM_open _ unbraced leaves]
  rfl

theorem Faulty.read {blocks : List Block} {fault : List String} {error : BlockError}
    (faulty : Faulty blocks fault error) :
    fault.foldlM BlockReader.step ⟨blocks.reverse, [], [], 0⟩ = .error error := by
  have keys (name : String) :
      name ∈ blocks.reverse.map Block.key ↔ name ∈ blocks.map Block.key := by
    rw [List.map_reverse, List.mem_reverse]
  cases faulty with
  | stray unbraced =>
      rw [List.foldlM_append, foldlM_unbraced _ unbraced]
      rfl
  | duplicate braced used =>
      rw [foldlM_block _ braced, BlockReader.close_used ((keys _).2 used)]
  | content braced unused misread =>
      rw [foldlM_block _ braced, BlockReader.close_unused (mt (keys _).1 unused), misread.refused]
      rfl

theorem FirstFault.blocksOf {words : List String} {error : BlockError}
    (fault : FirstFault words error) : blocksOf words = .error error := by
  obtain ⟨blocks, fault, after, starts, faulty⟩ := fault
  unfold TagScript.blocksOf
  rw [starts.read, List.foldlM_append, faulty.read]
  rfl

theorem FirstFault.ne_unclosed {words : List String} {error : BlockError}
    (fault : FirstFault words error) : error ≠ .unclosed := by
  obtain ⟨blocks, fault, after, _, faulty⟩ := fault
  cases faulty with
  | stray => exact nofun
  | duplicate => exact nofun
  | content _ _ misread =>
      generalize BlockText.inner _ = inner at misread
      cases misread <;> exact nofun

theorem comprises_or_fault_or_unfinished (words : List String) :
    (∃ blocks, Comprises words blocks) ∨ (∃ error, FirstFault words error) ∨ Unfinished words := by
  induction words using List.reverseRecOn with
  | nil => exact .inl ⟨[], [], .nil, .nil⟩
  | append_singleton words word ih =>
      rcases ih with
        ⟨blocks, rest, starts, unbraced⟩ | ⟨error, blocks, fault, after, starts, faulty⟩
          | ⟨blocks, key, inner, depth, starts, unbraced, leaves⟩
      · have starts := starts.more word
        by_cases opening : word = openBrace
        · subst opening
          exact .inr (.inr ⟨blocks, rest, [], 0, starts, unbraced, leavesOpen_nil.2 rfl⟩)
        · by_cases closing : word = closeBrace
          · subst closing
            refine .inr (.inl ⟨.strayClose, blocks, rest ++ [closeBrace], [], ?_, .stray unbraced⟩)
            rwa [List.append_nil]
          · have other : ¬ IsBrace word := not_or.2 ⟨opening, closing⟩
            exact .inl ⟨blocks, rest ++ [word], starts, unbraced.concat other⟩
      · refine .inr (.inl ⟨error, blocks, fault, after ++ [word], ?_, faulty⟩)
        rw [← List.append_assoc]
        exact starts.more word
      · have starts := starts.more word
        rw [List.append_assoc, List.cons_append] at starts
        cases turn : openAfter depth word with
        | some next =>
            exact .inr (.inr ⟨blocks, key, inner ++ [word], next, starts, unbraced,
              leavesOpen_concat.2 ⟨depth, leaves, turn⟩⟩)
        | none =>
            obtain ⟨rfl, rfl⟩ := openAfter_eq_none turn
            let text : BlockText := ⟨key, inner⟩
            have braced : text.IsBraced := ⟨unbraced, leaves⟩
            have starts : Starts (words ++ [closeBrace]) blocks (text.words ++ []) := by
              rwa [List.append_nil]
            by_cases used : text.name ∈ blocks.map Block.key
            · exact .inr (.inl ⟨_, blocks, text.words, [], starts, .duplicate braced used⟩)
            · rcases content_or_misread leaves with ⟨entries, content⟩ | ⟨error, misread⟩
              · rw [List.append_nil] at starts
                have reads : text.Reads ⟨text.name, entries⟩ := ⟨braced, rfl, content⟩
                exact .inl ⟨_, [], starts.block reads used, .nil⟩
              · exact .inr (.inl
                  ⟨error, blocks, text.words, [], starts, .content braced used misread⟩)

theorem Comprises.of_blocksOf {words : List String} {blocks : List Block}
    (read : TagScript.blocksOf words = .ok blocks) : Comprises words blocks := by
  rcases comprises_or_fault_or_unfinished words with
    ⟨found, comprises⟩ | ⟨error, fault⟩ | unfinished
  · rw [comprises.blocksOf] at read
    obtain rfl := Except.ok.inj read
    exact comprises
  · rw [fault.blocksOf] at read
    cases read
  · rw [unfinished.blocksOf] at read
    cases read

theorem Comprises.count {words : List String} {blocks : List Block}
    (comprises : Comprises words blocks) : words.count openBrace = words.count closeBrace := by
  obtain ⟨rest, starts, unbraced⟩ := comprises
  have counts := starts.count
  rwa [List.count_eq_zero.2 unbraced.1, List.count_eq_zero.2 unbraced.2] at counts

theorem Unfinished.count {words : List String} (unfinished : Unfinished words) :
    words.count closeBrace < words.count openBrace := by
  obtain ⟨blocks, key, inner, depth, starts, unbraced, leaves⟩ := unfinished
  have counts := starts.count
  have total := leaves.total
  have unequal : openBrace ≠ closeBrace := by decide
  simp only [List.count_append, List.count_cons, List.count_eq_zero.2 unbraced.1,
    List.count_eq_zero.2 unbraced.2, beq_iff_eq, if_true, if_neg unequal] at counts
  omega

/-- Words are read as blocks if they are written as blocks. Else the error is that of the first
closing brace with which something is wrong; only where there is none, a brace was never closed. -/
theorem blocksOf_iff (words : List String) :
    (∀ blocks, blocksOf words = .ok blocks ↔ Comprises words blocks) ∧
      ∀ error, blocksOf words = .error error ↔
        FirstFault words error ∨
          error = .unclosed ∧ (∀ other, ¬ FirstFault words other) ∧
            words.count closeBrace < words.count openBrace := by
  have one := comprises_or_fault_or_unfinished words
  constructor
  · exact fun blocks => ⟨Comprises.of_blocksOf, Comprises.blocksOf⟩
  · intro error
    constructor
    · intro refused
      rcases one with ⟨found, comprises⟩ | ⟨other, fault⟩ | unfinished
      · rw [comprises.blocksOf] at refused
        cases refused
      · rw [fault.blocksOf] at refused
        obtain rfl := Except.error.inj refused
        exact .inl fault
      · rw [unfinished.blocksOf] at refused
        obtain rfl := Except.error.inj refused
        refine .inr ⟨rfl, fun other fault => fault.ne_unclosed ?_, unfinished.count⟩
        exact Except.error.inj (fault.blocksOf.symm.trans unfinished.blocksOf)
    · rintro (fault | ⟨rfl, flawless, missed⟩)
      · exact fault.blocksOf
      · rcases one with ⟨found, comprises⟩ | ⟨other, fault⟩ | unfinished
        · exact absurd comprises.count (Nat.ne_of_gt missed)
        · exact absurd fault (flawless other)
        · exact unfinished.blocksOf

end TagScript
