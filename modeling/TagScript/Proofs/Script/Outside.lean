import TagScript.Proofs.Engine.Filled
import TagScript.Proofs.Script.Sections

/-! Words outside braces. Templates, filling, the arguments of a command and its blocks each count
the braces of a list of words on their own, and they agree on which words stand outside. -/

namespace TagScript

variable {σ : Type}

open SourceReader (braceDepth)

theorem braceDepth_of_not_isBrace {word : String} (other : ¬ IsBrace word) (depth : Nat) :
    braceDepth depth word = depth := by
  obtain ⟨opening, closing⟩ := not_or.1 other
  rw [braceDepth, if_neg opening, if_neg closing]

theorem foldl_braceDepth_of_unbraced {words : List String} (unbraced : Unbraced words)
    (depth : Nat) : words.foldl braceDepth depth = depth := by
  induction words with
  | nil => rfl
  | cons word rest ih =>
      obtain ⟨other, unbracedRest⟩ := unbraced_cons.1 unbraced
      rw [List.foldl_cons, braceDepth_of_not_isBrace other, ih unbracedRest]

theorem braceDepth_add {earlier depth : Nat} {word : String}
    (turn : openAfter earlier word = some depth) (around : Nat) :
    braceDepth (around + earlier) word = around + depth := by
  unfold openAfter at turn
  unfold braceDepth
  split_ifs at turn ⊢
  · obtain rfl := Option.some.inj turn
    rfl
  · cases earlier with
    | zero => cases turn
    | succ outer =>
        obtain rfl := Option.some.inj turn
        rfl
  · obtain rfl := Option.some.inj turn
    rfl

theorem foldl_braceDepth_of_leavesOpen {words : List String} {depth : Nat}
    (leaves : LeavesOpen depth words) (around : Nat) :
    words.foldl braceDepth around = around + depth := by
  induction leaves using LeavesOpen.induction with
  | nil => rfl
  | concat leaves turn ih =>
      rw [List.foldl_append, ih]
      exact braceDepth_add turn around

namespace Template

def isOutside (template : Template) : Bool :=
  template.depth == 0 && template.raw != openBrace && template.raw != closeBrace

theorem isOutside_of_isBrace {word : String} (brace : IsBrace word) (depth : Nat) :
    (ofArgument depth word).isOutside = false := by
  rcases brace with rfl | rfl
  · simp [isOutside, ofArgument]
  · simp [isOutside, ofArgument]

theorem isOutside_of_not_isBrace {word : String} (other : ¬ IsBrace word) (depth : Nat) :
    (ofArgument depth word).isOutside = (depth == 0) := by
  obtain ⟨opening, closing⟩ := not_or.1 other
  simp [isOutside, ofArgument, bne_iff_ne.2 opening, bne_iff_ne.2 closing]

theorem listFrom_cons (depth : Nat) (word : String) (rest : List String) :
    listFrom depth (word :: rest) =
      ofArgument (if word = closeBrace then depth - 1 else depth) word ::
        listFrom (braceDepth depth word) rest := by
  have unequal : closeBrace ≠ openBrace := by decide
  unfold braceDepth
  rw [listFrom]
  by_cases closing : word = closeBrace
  · subst closing
    rw [if_pos rfl, if_pos rfl, if_neg unequal]
  · rw [if_neg closing]
    split
    · rfl
    · rfl

theorem listFrom_append (depth : Nat) (front back : List String) :
    listFrom depth (front ++ back) =
      listFrom depth front ++ listFrom (front.foldl braceDepth depth) back := by
  induction front generalizing depth with
  | nil => rfl
  | cons word rest ih =>
      rw [List.cons_append, listFrom_cons, listFrom_cons, ih, List.foldl_cons, List.cons_append]

theorem map_raw_listFrom (depth : Nat) (words : List String) :
    (listFrom depth words).map raw = words := by
  induction words generalizing depth with
  | nil => rfl
  | cons word rest ih =>
      rw [listFrom_cons, List.map_cons, ih]
      rfl

theorem fillArgumentsFrom_eq_mapM (vocabulary : Tag.Vocabulary σ) (context : Tag.Context)
    (depth : Nat) (words : List String) :
    Tag.fillArgumentsFrom vocabulary context depth words =
      (listFrom depth words).mapM fun template =>
        if template.isOutside then Tag.evaluateBounded vocabulary context template.raw
        else pure template.raw := by
  induction words generalizing depth with
  | nil => rfl
  | cons word rest ih =>
      rw [listFrom_cons, List.mapM_cons, ← ih, Tag.fillArgumentsFrom]
      by_cases brace : IsBrace word
      · rw [isOutside_of_isBrace brace, if_neg Bool.false_ne_true, pure_bind]
        unfold braceDepth
        rcases brace with rfl | rfl
        · rfl
        · rfl
      · rw [isOutside_of_not_isBrace brace, braceDepth_of_not_isBrace brace]
        obtain ⟨opening, closing⟩ := not_or.1 brace
        rw [if_neg opening, if_neg closing, if_neg closing]
        cases depth with
        | zero => rfl
        | succ outer => exact (pure_bind _ _).symm

theorem addFrom_eq_foldl (known : List String) (depth : Nat) (arguments : Arguments)
    (words : List String) :
    Arguments.addFrom known depth arguments words =
      (((listFrom depth words).filter isOutside).map raw).foldl (Arguments.add known)
        arguments := by
  induction words generalizing depth arguments with
  | nil => rfl
  | cons word rest ih =>
      rw [listFrom_cons, List.filter_cons, Arguments.addFrom]
      by_cases brace : IsBrace word
      · rw [isOutside_of_isBrace brace, if_neg Bool.false_ne_true, ← ih]
        unfold braceDepth
        rcases brace with rfl | rfl
        · rfl
        · rfl
      · rw [isOutside_of_not_isBrace brace, braceDepth_of_not_isBrace brace]
        obtain ⟨opening, closing⟩ := not_or.1 brace
        rw [if_neg opening, if_neg closing, if_neg closing]
        cases depth with
        | zero => exact ih 0 (arguments.add known word)
        | succ outer => exact ih (outer + 1) arguments

theorem depth_pos_of_leavesOpen {words : List String} {depth : Nat}
    (leaves : LeavesOpen depth words) (outer : Nat) :
    ∀ template ∈ listFrom (outer + 1) words, 0 < template.depth := by
  induction leaves using LeavesOpen.induction with
  | nil => simp [listFrom]
  | @concat earlier depth words word leaves turn ih =>
      rw [listFrom_append, foldl_braceDepth_of_leavesOpen leaves, listFrom_cons]
      intro template member
      rcases List.mem_append.1 member with member | member
      · exact ih template member
      · obtain rfl := List.mem_singleton.1 member
        change 0 < ite _ _ _
        split
        · rename_i closing
          subst closing
          cases earlier with
          | zero => cases turn
          | succ inner => omega
        · omega

end Template

namespace BlockText

def templates (text : BlockText) : List Template :=
  text.key.map (Template.ofArgument 0) ++ Template.ofArgument 0 openBrace ::
    (Template.listFrom 1 text.inner ++ [Template.ofArgument 0 closeBrace])

theorem listFrom_words {text : BlockText} (braced : text.IsBraced) :
    Template.listFrom 0 text.words = text.templates := by
  have inside : braceDepth 0 openBrace = 1 := rfl
  rw [words, Template.listFrom_append, Template.listFrom_of_unbraced braced.key,
    foldl_braceDepth_of_unbraced braced.key, Template.listFrom_cons, inside,
    Template.listFrom_append, foldl_braceDepth_of_leavesOpen braced.inner]
  rfl

theorem foldl_braceDepth_words {text : BlockText} (braced : text.IsBraced) :
    text.words.foldl braceDepth 0 = 0 := by
  have inside : braceDepth 0 openBrace = 1 := rfl
  rw [words, List.foldl_append, foldl_braceDepth_of_unbraced braced.key, List.foldl_cons, inside,
    List.foldl_append, foldl_braceDepth_of_leavesOpen braced.inner]
  rfl

theorem listFrom_flatMap_words {texts : List BlockText} (braced : ∀ text ∈ texts, text.IsBraced)
    (rest : List String) :
    Template.listFrom 0 (texts.flatMap words ++ rest) =
      texts.flatMap templates ++ Template.listFrom 0 rest := by
  induction texts with
  | nil => rfl
  | cons text others ih =>
      have first := braced text List.mem_cons_self
      rw [List.flatMap_cons, List.append_assoc, Template.listFrom_append, listFrom_words first,
        foldl_braceDepth_words first, ih fun other member =>
          braced other (List.mem_cons_of_mem text member),
        List.flatMap_cons, List.append_assoc]

end BlockText

/-- The words outside braces, none of them a brace. -/
def outsideWords (words : List String) : List String :=
  ((Template.ofArguments words).filter Template.isOutside).map Template.raw

theorem ofFilled_eq_foldl (known words : List String) :
    Arguments.ofFilled known words =
      (outsideWords words).foldl (Arguments.add known) ⟨[], []⟩ :=
  Template.addFrom_eq_foldl known 0 ⟨[], []⟩ words

structure ReadAs (words : List String) (blocks : List Block) (texts : List BlockText)
    (rest : List String) : Prop where
  reads : List.Forall₂ BlockText.Reads texts blocks
  split : words = texts.flatMap BlockText.words ++ rest
  templates : Template.ofArguments words =
    texts.flatMap BlockText.templates ++ rest.map (Template.ofArgument 0)
  unbraced : Unbraced rest
  inside : ∀ text ∈ texts, ∀ template ∈ Template.listFrom 1 text.inner, 0 < template.depth

theorem BlockText.isBraced_of_reads {texts : List BlockText} {blocks : List Block}
    (reads : List.Forall₂ BlockText.Reads texts blocks) : ∀ text ∈ texts, text.IsBraced := by
  induction reads with
  | nil => simp
  | cons first _ ih => exact List.forall_mem_cons.2 ⟨first.braced, ih⟩

theorem Comprises.readAs {words : List String} {blocks : List Block}
    (comprises : Comprises words blocks) : ∃ texts rest, ReadAs words blocks texts rest := by
  obtain ⟨rest, ⟨⟨texts, rfl, reads⟩, _⟩, unbraced⟩ := comprises
  have braced := BlockText.isBraced_of_reads reads
  refine ⟨texts, rest, reads, rfl, ?_, unbraced, fun text member => ?_⟩
  · rw [Template.ofArguments, BlockText.listFrom_flatMap_words braced,
      Template.listFrom_of_unbraced unbraced]
  · exact Template.depth_pos_of_leavesOpen (braced text member).inner 0

/-- All who count braces tell the same words to be outside. -/
structure Classified (words : List String) : Prop where
  raw : (Template.ofArguments words).map Template.raw = words
  filled : ∀ {σ : Type} (vocabulary : Tag.Vocabulary σ) (context : Tag.Context),
    Tag.fillArguments vocabulary context words =
      (Template.ofArguments words).mapM fun template =>
        if template.isOutside then Tag.evaluateBounded vocabulary context template.raw
        else pure template.raw
  filed : ∀ known, Arguments.ofFilled known words =
    (outsideWords words).foldl (Arguments.add known) ⟨[], []⟩
  blocks : ∀ blocks, blocksOf words = .ok blocks → ∃ texts rest, ReadAs words blocks texts rest

theorem classified (words : List String) : Classified words where
  raw := Template.map_raw_listFrom 0 words
  filled vocabulary context := Template.fillArgumentsFrom_eq_mapM vocabulary context 0 words
  filed known := ofFilled_eq_foldl known words
  blocks _ read := (Comprises.of_blocksOf read).readAs

end TagScript
