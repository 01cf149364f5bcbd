import Mathlib.Data.List.Chain
import TagScript.Proofs.Tag.Visible

/-! Cutting a text into pieces loses nothing of it: written back, the pieces are the text. And they
come out in one shape only, literals as long as they can be and tags with their brackets balanced. -/

namespace TagScript.Tag

def writtenChar (c : Char) : List Char :=
  if c = '\ue000' then ['\\', '<'] else if c = '\ue001' then ['\\', '>'] else [c]

def Sign.written : Sign → List Char
  | .plain c => writtenChar c
  | .tag body => '<' :: (body ++ ['>'])

def Piece.written : Piece → String
  | .literal text => String.ofList (text.toList.flatMap writtenChar)
  | .tag body => "<" ++ body.raw ++ ">"

def Piece.isLiteral : Piece → Bool
  | .literal _ => true
  | .tag _ => false

/-- A body that can stand between the brackets of a tag, cut into the parts it was written in. -/
structure Body.Sound (body : Body) : Prop where
  opens : ∃ c rest, body.raw.toList = c :: rest ∧ Text.isBlank c = false ∧ c ≠ '=' ∧ c ≠ '>'
  balanced : Balanced '<' '>' (angles false body.raw.toList)
  joined : body.raw = match body.fallback with
    | none => body.lookup
    | some fallback => body.lookup ++ "||" ++ fallback

/-- No literal is empty or stands next to another one, and every tag could be written so. -/
structure Canonical (pieces : List Piece) : Prop where
  filled : .literal "" ∉ pieces
  apart : pieces.IsChain fun left right => ¬ (left.isLiteral = true ∧ right.isLiteral = true)
  sound : ∀ body, .tag body ∈ pieces → body.Sound

/-! Nothing is lost. -/

section

variable {text : List Char}

theorem writtenChar_of_ne {c : Char} (notOpening : c ≠ '\ue000') (notClosing : c ≠ '\ue001') :
    writtenChar c = [c] := by
  rw [writtenChar, if_neg notOpening, if_neg notClosing]

theorem written_signs (noOpening : '\ue000' ∉ text) (noClosing : '\ue001' ∉ text) :
    (signs text).flatMap Sign.written = text := by
  fun_induction signs text with
  | case1 => rfl
  | case2 rest ih | case3 rest ih =>
      simp only [List.mem_cons, not_or] at noOpening noClosing
      rw [List.flatMap_cons, ih noOpening.2.2 noClosing.2.2]
      rfl
  | case4 rest opens body after closed ih =>
      obtain rfl := closeTag_split closed
      simp only [List.mem_cons, List.mem_append, not_or] at noOpening noClosing
      rw [List.flatMap_cons, ih noOpening.2.2.2 noClosing.2.2.2]
      simp [Sign.written]
  | case5 rest opens unclosed ih | case6 rest opens ih =>
      simp only [List.mem_cons, not_or] at noOpening noClosing
      rw [List.flatMap_cons, ih noOpening.2 noClosing.2]
      rfl
  | case7 c rest _ _ notAngle ih =>
      simp only [List.mem_cons, not_or] at noOpening noClosing
      rw [List.flatMap_cons, ih noOpening.2 noClosing.2, Sign.written,
        writtenChar_of_ne (Ne.symm noOpening.1) (Ne.symm noClosing.1), List.singleton_append]

theorem written_literalOf (gathered : List Char) :
    String.join ((literalOf gathered).map Piece.written) =
      String.ofList (gathered.reverse.flatMap writtenChar) := by
  cases gathered with
  | nil => rfl
  | cons c gathered => simp [literalOf, Piece.written, String.join]

theorem written_piecesFrom (gathered : List Char) (read : List Sign) :
    String.join ((piecesFrom gathered read).map Piece.written) =
      String.ofList (gathered.reverse.flatMap writtenChar ++ read.flatMap Sign.written) := by
  induction read generalizing gathered with
  | nil => simp [piecesFrom, written_literalOf]
  | cons sign rest ih =>
      cases sign with
      | plain c => simp [piecesFrom, ih, Sign.written]
      | tag body =>
          simp [piecesFrom, ih, Sign.written, written_literalOf, Piece.written, Body.ofText,
            String.append_assoc]

end

/-! One shape only. -/

def rejoined : List Char × Option (List Char) → List Char
  | (lookup, none) => lookup
  | (lookup, some fallback) => lookup ++ '|' :: '|' :: fallback

theorem rejoined_cons (c : Char) (cut : List Char × Option (List Char)) :
    rejoined (c :: cut.1, cut.2) = c :: rejoined cut := by
  obtain ⟨lookup, fallback⟩ := cut
  cases fallback <;> rfl

theorem rejoined_cutFallbackFrom (nesting : Nesting) (text : List Char) :
    rejoined (cutFallbackFrom nesting text) = text := by
  induction text generalizing nesting with
  | nil => rfl
  | cons c rest ih =>
      rw [cutFallbackFrom_cons]
      split
      · rename_i cuts
        obtain ⟨rfl, second, _⟩ := cuts
        obtain ⟨tail, rfl⟩ := List.head?_eq_some_iff.1 second
        rfl
      · rw [rejoined_cons, ih]

theorem raw_ofText (raw : String) : raw = match (Body.ofText raw).fallback with
    | none => (Body.ofText raw).lookup
    | some fallback => (Body.ofText raw).lookup ++ "||" ++ fallback := by
  have whole := rejoined_cutFallbackFrom .outside raw.toList
  unfold Body.ofText cutFallback
  generalize cutFallbackFrom .outside raw.toList = cut at whole ⊢
  obtain ⟨lookup, fallback⟩ := cut
  cases fallback <;> simpa [rejoined, ← String.toList_inj] using whole.symm

theorem sound_of_closeTag {rest body after : List Char} (opens : opensTag rest = true)
    (closed : closeTag false 0 rest = some (body, after)) :
    (Body.ofText (String.ofList body)).Sound := by
  obtain ⟨rfl, closes, inSight⟩ := closeTag_iff.1 closed
  refine ⟨?_, ?_, raw_ofText _⟩
  · cases body with
    | nil => simp [opensTag] at opens
    | cons c body =>
        rw [List.cons_append, opensTag_cons] at opens
        refine ⟨c, body, by simp [Body.ofText], ?_⟩
        simpa [keepsPlain, and_assoc] using opens
  · simpa [Body.ofText] using balanced_iff_closes.2 closes

theorem sound_of_mem_signs {text body : List Char} (member : .tag body ∈ signs text) :
    (Body.ofText (String.ofList body)).Sound := by
  fun_induction signs text with
  | case1 => simp at member
  | case2 rest ih | case3 rest ih => exact ih (by simpa using member)
  | case4 rest opens found after closed ih =>
      rcases List.mem_cons.1 member with same | later
      · obtain rfl := Sign.tag.inj same
        exact sound_of_closeTag opens closed
      · exact ih later
  | case5 rest opens unclosed ih | case6 rest opens ih | case7 c rest _ _ _ ih =>
      exact ih (by simpa using member)

theorem tag_mem_piecesFrom {gathered : List Char} {read : List Sign} {body : Body}
    (member : .tag body ∈ piecesFrom gathered read) :
    ∃ text, .tag text ∈ read ∧ body = Body.ofText (String.ofList text) := by
  induction read generalizing gathered with
  | nil =>
      simp only [piecesFrom, literalOf] at member
      split at member <;> simp at member
  | cons sign rest ih =>
      cases sign with
      | plain c =>
          obtain ⟨text, isRead, same⟩ := @ih (c :: gathered) member
          exact ⟨text, List.mem_cons_of_mem _ isRead, same⟩
      | tag text =>
          rw [piecesFrom, List.mem_append, List.mem_cons] at member
          rcases member with before | here | behind
          · simp only [literalOf] at before
            split at before <;> simp at before
          · exact ⟨text, List.mem_cons_self, Piece.tag.inj here⟩
          · obtain ⟨later, isRead, same⟩ := ih behind
            exact ⟨later, List.mem_cons_of_mem _ isRead, same⟩

theorem filled_literalOf (gathered : List Char) : .literal "" ∉ literalOf gathered := by
  cases gathered <;> simp [literalOf]

theorem filled_piecesFrom (gathered : List Char) (read : List Sign) :
    .literal "" ∉ piecesFrom gathered read := by
  induction read generalizing gathered with
  | nil => exact filled_literalOf gathered
  | cons sign rest ih =>
      cases sign with
      | plain c => exact ih (c :: gathered)
      | tag body => simp [piecesFrom, filled_literalOf, ih]

theorem apart_piecesFrom (gathered : List Char) (read : List Sign) :
    (piecesFrom gathered read).IsChain
      fun left right => ¬ (left.isLiteral = true ∧ right.isLiteral = true) := by
  induction read generalizing gathered with
  | nil => cases gathered <;> simp [piecesFrom, literalOf]
  | cons sign rest ih =>
      cases sign with
      | plain c => exact ih (c :: gathered)
      | tag body =>
          have behind : (.tag (Body.ofText (String.ofList body)) :: piecesFrom [] rest).IsChain
              fun left right : Piece => ¬ (left.isLiteral = true ∧ right.isLiteral = true) :=
            List.isChain_cons.2 ⟨fun _ _ both => by simp [Piece.isLiteral] at both, ih []⟩
          cases gathered with
          | nil => exact behind
          | cons c gathered =>
              refine List.isChain_cons.2 ⟨fun next isNext both => ?_, behind⟩
              obtain rfl := Option.some.inj isNext
              simp [Piece.isLiteral] at both

theorem canonical_pieces (text : String) : Canonical (pieces text) where
  filled := filled_piecesFrom [] _
  apart := apart_piecesFrom [] _
  sound body member := by
    obtain ⟨inner, isRead, rfl⟩ := tag_mem_piecesFrom member
    exact sound_of_mem_signs isRead

/-- Written back, the pieces of a text that holds no stand-in of an angle bracket are the text, and
they have one shape only. -/
theorem pieces_lossless (text : String) (noOpening : '\ue000' ∉ text.toList)
    (noClosing : '\ue001' ∉ text.toList) :
    String.join ((pieces text).map Piece.written) = text ∧ Canonical (pieces text) := by
  refine ⟨?_, canonical_pieces text⟩
  rw [pieces, written_piecesFrom, written_signs noOpening noClosing]
  simp

theorem pieces_lossless_mixed :
    '\ue000' ∉ "\\<a\\> < <def[<x>]||y><b".toList ∧ '\ue001' ∉ "\\<a\\> < <def[<x>]||y><b".toList ∧
      String.join ((pieces "\\<a\\> < <def[<x>]||y><b").map Piece.written) =
        "\\<a\\> < <def[<x>]||y><b" ∧
      Canonical (pieces "\\<a\\> < <def[<x>]||y><b") := by
  have noOpening : '\ue000' ∉ "\\<a\\> < <def[<x>]||y><b".toList := by decide +kernel
  have noClosing : '\ue001' ∉ "\\<a\\> < <def[<x>]||y><b".toList := by decide +kernel
  exact ⟨noOpening, noClosing, pieces_lossless _ noOpening noClosing⟩

end TagScript.Tag
